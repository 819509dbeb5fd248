import RemDb.Wal.Format
import Mathlib

namespace RemDb.Wal
open RemDb.Lib

-- Two byte strings that differ in one byte only.
def OneByte (left right : Bytes) : Prop :=
  ∃ before after one two, one ≠ two ∧ left = before ++ one :: after ∧ right = before ++ two :: after

-- The fields the checksum is about, as they lie in the log, and the payloads.
def VariableSizeLogItem.parts (item : VariableSizeLogItem) : List Bytes :=
  [[item.header.op_type.toByte],[item.header.table_id],toLE 2 item.header.record_id.toNat,
    toLE 2 item.header.old_data_size.toNat,toLE 2 item.header.new_data_size.toNat,toLE 4 item.header.tx_id.toNat,
    toLE 8 item.header.timestamp.toNat,item.old_data,item.new_data]

structure Damaged (left right : VariableSizeLogItem) : Prop where
  checksum : left.header.checksum = right.header.checksum
  part : ∃ before after one two, left.parts = before ++ one :: after ∧ right.parts = before ++ two :: after ∧
    OneByte one two

-- The damage is in the upper half of the timestamp.
def HighTimestamp (left right : VariableSizeLogItem) : Prop :=
  left.header.timestamp ≠ right.header.timestamp ∧ left.header.timestamp.toUInt32 = right.header.timestamp.toUInt32

-- What the checksum adds up: a field as one number, a payload byte by byte.
def partWords (place : Nat) (part : Bytes) : List UInt32 :=
  if place < 7 then [UInt32.ofNat (ofLE part)] else part.map (·.toUInt32)

def VariableSizeLogItem.words (item : VariableSizeLogItem) : List UInt32 :=
  item.parts.zipIdx.flatMap fun entry => partWords entry.2 entry.1

def xorAll (words : List UInt32) : UInt32 := words.foldr (· ^^^ ·) 0

theorem foldl_xor (words : List UInt32) (start : UInt32) : words.foldl (· ^^^ ·) start = start ^^^ xorAll words := by
  induction words generalizing start with
  | nil => exact UInt32.xor_zero.symm
  | cons word rest ih =>
    rw [List.foldl_cons,ih,UInt32.xor_assoc]
    rfl

theorem words_fields (item : VariableSizeLogItem) :
    item.words = [item.header.op_type.toByte.toUInt32,item.header.table_id.toUInt32,item.header.record_id.toUInt32,
      item.header.old_data_size.toUInt32,item.header.new_data_size.toUInt32,item.header.tx_id,
      item.header.timestamp.toUInt32] ++ (item.old_data.map (·.toUInt32) ++ item.new_data.map (·.toUInt32)) := by
  have byte (value : UInt8) : UInt32.ofNat (ofLE [value]) = value.toUInt32 := by
    apply UInt32.toNat_inj.mp
    simp [ofLE]
  have short (value : UInt16) : UInt32.ofNat (ofLE (toLE 2 value.toNat)) = value.toUInt32 := by
    rw [le_roundtrip value.toNat_lt]
    apply UInt32.toNat_inj.mp
    simp
  have whole (value : UInt32) : UInt32.ofNat (ofLE (toLE 4 value.toNat)) = value := le_uint32 value
  have long (value : UInt64) : UInt32.ofNat (ofLE (toLE 8 value.toNat)) = value.toUInt32 := by
    rw [le_roundtrip value.toNat_lt]
    rfl
  simp [VariableSizeLogItem.words,VariableSizeLogItem.parts,partWords,byte,short,whole,long]

theorem checksum_words (item : VariableSizeLogItem) :
    calculateVariableSizeLogItemChecksum item = xorAll item.words := by
  have whole := foldl_xor item.words 0
  rw [UInt32.zero_xor] at whole
  rw [← whole,words_fields]
  unfold calculateVariableSizeLogItemChecksum calculateLogItemChecksum
  rw [List.foldl_append,List.foldl_append,List.foldl_map,List.foldl_map]
  simp only [List.foldl_cons,List.foldl_nil,UInt32.zero_xor]

theorem xorAll_append (front back : List UInt32) : xorAll (front ++ back) = xorAll front ^^^ xorAll back := by
  induction front with
  | nil => exact UInt32.zero_xor.symm
  | cons word rest ih =>
    change word ^^^ xorAll (rest ++ back) = word ^^^ xorAll rest ^^^ xorAll back
    rw [ih,UInt32.xor_assoc]

theorem xorAll_between (before after : List UInt32) (one two : List UInt32) :
    xorAll (before ++ (one ++ after)) = xorAll (before ++ (two ++ after)) ↔ xorAll one = xorAll two := by
  rw [xorAll_append,xorAll_append,xorAll_append,xorAll_append,UInt32.xor_right_inj]
  exact UInt32.xor_left_inj _

theorem xorAll_one (word : UInt32) : xorAll [word] = word := UInt32.xor_zero

section Parts
variable {item : VariableSizeLogItem} {before after : List Bytes} {part : Bytes}

theorem words_split (split : item.parts = before ++ part :: after) :
    item.words = (before.zipIdx.flatMap fun entry => partWords entry.2 entry.1) ++
      (partWords before.length part ++
        (after.zipIdx (before.length+1)).flatMap fun entry => partWords entry.2 entry.1) := by
  rw [VariableSizeLogItem.words,split,List.zipIdx_append,List.flatMap_append,List.zipIdx_cons,List.flatMap_cons,
    Nat.zero_add]

theorem place_lt (split : item.parts = before ++ part :: after) : before.length < 9 := by
  have size := congrArg List.length split
  rw [List.length_append,List.length_cons] at size
  change 9 = _ at size
  omega

theorem part_at (split : item.parts = before ++ part :: after) : item.parts[before.length]? = some part := by
  rw [split,List.getElem?_append_right (Nat.le_refl _),Nat.sub_self]
  rfl

theorem field_short (split : item.parts = before ++ part :: after) (field : before.length < 7)
    (other : before.length ≠ 6) : part.length ≤ 4 := by
  have found := part_at split
  generalize before.length = place at found field other
  interval_cases place
  case «6» => exact absurd rfl other
  all_goals
    obtain rfl := Option.some.inj found
    simp

end Parts

theorem ofLE_inj {left right : Bytes} (same : left.length = right.length) (equal : ofLE left = ofLE right) :
    left = right := by
  rw [← toLE_ofLE left,← toLE_ofLE right,same,equal]

theorem OneByte.length {left right : Bytes} (one : OneByte left right) : left.length = right.length := by
  obtain ⟨before,after,_,_,_,rfl,rfl⟩ := one
  rw [List.length_append,List.length_append,List.length_cons,List.length_cons]

theorem OneByte.ne {left right : Bytes} (one : OneByte left right) : left ≠ right := by
  obtain ⟨before,after,first,second,apart,rfl,rfl⟩ := one
  intro equal
  exact apart (List.cons.inj (List.append_cancel_left equal)).1

theorem field_changed {one two : Bytes} (damage : OneByte one two) (short : one.length ≤ 4) :
    UInt32.ofNat (ofLE one) ≠ UInt32.ofNat (ofLE two) := by
  have small (bytes : Bytes) (few : bytes.length ≤ 4) : ofLE bytes < 2^32 :=
    Nat.lt_of_lt_of_le (ofLE_lt bytes) (Nat.pow_le_pow_right (n:=256) (by decide) few)
  intro equal
  have numbers := congrArg UInt32.toNat equal
  rw [UInt32.toNat_ofNat',UInt32.toNat_ofNat',Nat.mod_eq_of_lt (small one short),
    Nat.mod_eq_of_lt (small two (damage.length ▸ short))] at numbers
  exact damage.ne (ofLE_inj damage.length numbers)

theorem payload_changed {one two : Bytes} (damage : OneByte one two) :
    xorAll (one.map (·.toUInt32)) ≠ xorAll (two.map (·.toUInt32)) := by
  obtain ⟨before,after,first,second,apart,rfl,rfl⟩ := damage
  rw [List.map_append,List.map_append,List.map_cons,List.map_cons]
  intro equal
  have words := (xorAll_between _ _ [first.toUInt32] [second.toUInt32]).mp equal
  rw [xorAll_one,xorAll_one] at words
  have numbers := congrArg UInt32.toNat words
  rw [UInt8.toNat_toUInt32,UInt8.toNat_toUInt32] at numbers
  exact apart (UInt8.toNat_inj.mp numbers)

theorem timestamp_part (item : VariableSizeLogItem) : item.parts[6]? = some (toLE 8 item.header.timestamp.toNat) := rfl

-- The checksum shows the damage of one byte, unless that byte is in the upper
-- half of the timestamp.
theorem damage_detected_iff (left right : VariableSizeLogItem) (damaged : Damaged left right) :
    calculateVariableSizeLogItemChecksum left ≠ calculateVariableSizeLogItemChecksum right ↔
      ¬ HighTimestamp left right := by
  obtain ⟨before,after,one,two,at_left,at_right,byte⟩ := damaged.part
  rw [checksum_words,checksum_words,words_split at_left,words_split at_right,not_iff_not,xorAll_between]
  have bound := place_lt at_left
  by_cases stamp : before.length = 6
  · -- the timestamp itself: the sum takes its lower half
    have first := part_at at_left
    have second := part_at at_right
    rw [stamp,timestamp_part] at first second
    obtain rfl := Option.some.inj first
    obtain rfl := Option.some.inj second
    rw [stamp,partWords,partWords,if_pos (by decide),if_pos (by decide),xorAll_one,xorAll_one,
      le_roundtrip left.header.timestamp.toNat_lt,le_roundtrip right.header.timestamp.toNat_lt]
    refine (and_iff_right ?_).symm
    intro equal
    exact byte.ne (by rw [equal])
  · have kept : left.header.timestamp = right.header.timestamp := by
      have same : left.parts[6]? = right.parts[6]? := by
        rw [at_left,at_right]
        by_cases early : 6 < before.length
        · rw [List.getElem?_append_left early,List.getElem?_append_left early]
        · obtain ⟨more,later⟩ : ∃ more, 6-before.length = more+1 := ⟨6-before.length-1,by omega⟩
          rw [List.getElem?_append_right (by omega),List.getElem?_append_right (by omega),later]
          rfl
      rw [timestamp_part,timestamp_part] at same
      have numbers := congrArg (fun bytes => UInt64.ofNat (ofLE bytes)) (Option.some.inj same)
      rwa [le_uint64,le_uint64] at numbers
    have unseen : ¬ HighTimestamp left right := fun high => high.1 kept
    refine iff_of_false ?_ unseen
    by_cases field : before.length < 7
    · rw [partWords,partWords,if_pos field,if_pos field,xorAll_one,xorAll_one]
      exact field_changed byte (field_short at_left field stamp)
    · rw [partWords,partWords,if_neg field,if_neg field]
      exact payload_changed byte

section Example

def committed (stamp : UInt64) : VariableSizeLogItem := ⟨⟨.commit,1,2,0,0,3,stamp,0⟩,[],[]⟩

theorem committed_damaged {one two : UInt64} (byte : OneByte (toLE 8 one.toNat) (toLE 8 two.toNat)) :
    Damaged (committed one) (committed two) :=
  ⟨rfl,[[5],[1],toLE 2 2,toLE 2 0,toLE 2 0,toLE 4 3],[[],[]],_,_,rfl,rfl,byte⟩

theorem damage_detected_iff_low :
    calculateVariableSizeLogItemChecksum (committed 0) ≠ calculateVariableSizeLogItemChecksum (committed 1) :=
  (damage_detected_iff (committed 0) (committed 1)
    (committed_damaged ⟨[],[0,0,0,0,0,0,0],0,1,by decide,rfl,rfl⟩)).mpr fun high => absurd high.2 (by decide)

-- The fifth byte of the timestamp is not in the sum.
theorem high_byte_unseen :
    Damaged (committed 0) (committed (2^32)) ∧
      calculateVariableSizeLogItemChecksum (committed 0) = calculateVariableSizeLogItemChecksum (committed (2^32)) :=
  ⟨committed_damaged ⟨[0,0,0,0],[0,0,0],0,1,by decide,rfl,rfl⟩,rfl⟩

end Example

end RemDb.Wal
