import RemDb.PubSub.Frames

namespace RemDb
open RemDb.Lib RemDb.Wal

namespace ProtocolFrame

-- The bytes that stand for a type of their own. Every other one is read as data.
def Known (byte : UInt8) : Prop := byte = 1 ∨ byte = 2 ∨ byte = 3

theorem toByte_ofByte {byte : UInt8} (known : Known byte) : (FrameType.ofByte byte).toByte = byte := by
  rcases known with rfl | rfl | rfl <;> rfl

theorem ofByte_unknown {byte : UInt8} (unknown : ¬ Known byte) : FrameType.ofByte byte = .data := by
  rw [FrameType.ofByte,if_neg fun nack => unknown (.inr (.inl nack)),if_neg fun beat => unknown (.inr (.inr beat))]

section Splitting
variable {bytes : Bytes} {offset : Nat}

theorem field_drop (width : Nat) : readAt bytes offset width ++ bytes.drop (offset+width) = bytes.drop offset := by
  rw [readAt,← List.drop_drop,List.take_append_drop]

theorem byte_drop (inside : offset < bytes.length) : [bytes.getD offset 0] ++ bytes.drop (offset+1) = bytes.drop offset := by
  rw [List.getD_eq_getElem?_getD,List.getElem?_eq_getElem inside,Option.getD_some,List.drop_eq_getElem_cons inside,
    List.singleton_append]

theorem toLE_field {width : Nat} (inside : offset+width ≤ bytes.length) :
    toLE width (ofLE (readAt bytes offset width)) = readAt bytes offset width := by
  have length : (readAt bytes offset width).length = width := by
    rw [readAt_length]
    omega
  have again := toLE_ofLE (readAt bytes offset width)
  rwa [length] at again

theorem field_lt (width : Nat) : ofLE (readAt bytes offset width) < 256^width := by
  refine lt_of_lt_of_le (ofLE_lt _) (Nat.pow_le_pow_right (by decide) ?_)
  rw [readAt_length]
  exact Nat.min_le_left _ _

end Splitting

-- What is read is a frame that its constructors could have made, and its bytes are
-- there, with the byte of the type as it came in.
theorem fromBytes_parts {bytes : Bytes} {frame : ProtocolFrame} (read : fromBytes bytes = .ok frame) :
    frame.WellFormed ∧ frame.frame_type = FrameType.ofByte (bytes.getD 5 0) ∧ frame.bytesAs (bytes.getD 5 0) <+: bytes := by
  unfold fromBytes at read
  split at read
  · cases read
  rename_i header
  split at read
  · cases read
  rename_i magic
  split at read
  · cases read
  rename_i version
  simp only at read
  split at read
  · cases read
  rename_i whole
  split at read
  · cases read
  rename_i summed
  cases read
  have length := @field_lt bytes 12 2
  simp only [HEADER_SIZE] at header whole
  have announced : (UInt16.ofNat (ofLE (readAt bytes 12 2))).toNat = ofLE (readAt bytes 12 2) :=
    UInt16.toNat_ofNat_of_lt' length
  refine ⟨⟨?_,fun data => ?_⟩,rfl,?_⟩
  · rw [announced,readAt_length]
    omega
  · by_contra differs
    exact summed ⟨data,differs⟩
  · refine ⟨bytes.drop (18+ofLE (readAt bytes 12 2)),?_⟩
    have word : toLE 4 MAGIC_WORD = readAt bytes 0 4 := by
      rw [← not_not.mp magic,toLE_field (by omega)]
    simp only [bytesAs,announced,word,← not_not.mp version,UInt32.toNat_ofNat_of_lt' (field_lt 4),
      UInt16.toNat_ofNat_of_lt' (field_lt 2),List.append_assoc,field_drop]
    rw [toLE_field (by omega),toLE_field (by omega),toLE_field (by omega),toLE_field (by omega)]
    rw [field_drop,field_drop,field_drop,field_drop,byte_drop (by omega),byte_drop (by omega)]
    exact @field_drop bytes 0 4

-- The two directions of the codec. Only the byte of the type can be lost: what is
-- unknown comes in as data.
theorem frame_codec :
    ((∀ seq_num topic_id data frame, newDataFrame seq_num topic_id data = .ok frame → fromBytes frame.toBytes = .ok frame) ∧
      (∀ seq_num topic_id, fromBytes (newNackFrame seq_num topic_id).toBytes = .ok (newNackFrame seq_num topic_id)) ∧
      fromBytes newHeartbeatFrame.toBytes = .ok newHeartbeatFrame) ∧
    (∀ bytes frame, fromBytes bytes = .ok frame → frame.bytesAs (bytes.getD 5 0) <+: bytes ∧
      (Known (bytes.getD 5 0) → frame.toBytes <+: bytes) ∧ (¬ Known (bytes.getD 5 0) → frame.frame_type = .data)) ∧
    ∀ left right frame, fromBytes left = .ok frame → fromBytes right = .ok frame →
      (Known (left.getD 5 0) ∧ Known (right.getD 5 0) ∨ left.getD 5 0 = right.getD 5 0) →
      left.take frame.toBytes.length = right.take frame.toBytes.length := by
  have whole {bytes : Bytes} {frame : ProtocolFrame} (read : fromBytes bytes = .ok frame) (known : Known (bytes.getD 5 0)) :
      bytes.getD 5 0 = frame.frame_type.toByte := by
    rw [(fromBytes_parts read).2.1,toByte_ofByte known]
  have front {bytes : Bytes} {frame : ProtocolFrame} (read : fromBytes bytes = .ok frame) :
      bytes.take frame.toBytes.length = frame.bytesAs (bytes.getD 5 0) := by
    rw [toBytes,bytesAs_length,← bytesAs_length frame (bytes.getD 5 0)]
    exact (List.prefix_iff_eq_take.mp (fromBytes_parts read).2.2).symm
  refine ⟨⟨fun _ _ _ _ made => frame_roundtrip (newDataFrame_wellFormed made),
    fun seq_num topic_id => frame_roundtrip (newNackFrame_wellFormed seq_num topic_id),
    frame_roundtrip ⟨rfl,fun data => nomatch data⟩⟩,fun bytes frame read => ?_,fun left right frame read read_right alike => ?_⟩
  · obtain ⟨_,kind,among⟩ := fromBytes_parts read
    refine ⟨among,fun known => ?_,fun unknown => kind.trans (ofByte_unknown unknown)⟩
    rw [toBytes,← whole read known]
    exact among
  · have same : left.getD 5 0 = right.getD 5 0 := by
      rcases alike with ⟨known,known_right⟩ | same
      · rw [whole read known,whole read_right known_right]
      · exact same
    rw [front read,front read_right,same]

-- A frame of type 0 is read as data, and is written with another byte.
theorem unknown_type_is_data : fromBytes ((⟨.data,0,0,0,0,[]⟩ : ProtocolFrame).bytesAs 0) = .ok ⟨.data,0,0,0,0,[]⟩ ∧
    ¬ (⟨.data,0,0,0,0,[]⟩ : ProtocolFrame).toBytes <+: (⟨.data,0,0,0,0,[]⟩ : ProtocolFrame).bytesAs 0 := by
  constructor
  · exact fromBytes_bytesAs ⟨rfl,fun _ => by decide⟩ rfl
  · decide

end ProtocolFrame
end RemDb
