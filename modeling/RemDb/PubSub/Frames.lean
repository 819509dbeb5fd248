import RemDb.Wal.Format

namespace RemDb
open RemDb.Lib RemDb.Wal

inductive PubSubError where
  | initFailed | networkError | invalidParameter | resourceExhausted | invalidFrameFormat | crcCheckFailed
  | topicNotFound | subscriptionNotFound | unsupportedOperation
deriving DecidableEq,Repr

-- An entry of the table that `generate_crc32_table` computes.
def crc32Entry (index : UInt8) : UInt32 :=
  (List.range 8).foldl (fun crc _ => if crc &&& 0x80000000 ≠ 0 then (crc <<< 1) ^^^ 0x04C11DB7 else crc <<< 1)
    (index.toUInt32 <<< 24)

def calculateCrc32 (data : Bytes) : UInt32 :=
  let step := fun (crc : UInt32) (byte : UInt8) => (crc <<< 8) ^^^ crc32Entry ((crc >>> 24) ^^^ byte.toUInt32).toUInt8
  data.foldl step 0xFFFFFFFF ^^^ 0xFFFFFFFF

inductive FrameType where
  | data | nack | heartbeat
deriving DecidableEq,Repr

def FrameType.toByte : FrameType → UInt8
  | .data => 1
  | .nack => 2
  | .heartbeat => 3

def FrameType.ofByte (value : UInt8) : FrameType :=
  if value = 2 then .nack else if value = 3 then .heartbeat else .data

structure ProtocolFrame where
  frame_type : FrameType
  seq_num : UInt32
  topic_id : UInt16
  data_len : UInt16
  crc32 : UInt32
  payload : Bytes
deriving DecidableEq,Repr

namespace ProtocolFrame

def MAGIC_WORD : Nat := 0x55AA55AA
def PROTOCOL_VERSION : UInt8 := 1
def HEADER_SIZE : Nat := 18
def MAX_DATA_LEN : Nat := 4096

def newDataFrame (seq_num : UInt32) (topic_id : UInt16) (data : Bytes) : Except PubSubError ProtocolFrame :=
  if data.length > MAX_DATA_LEN then .error .invalidParameter
  else .ok ⟨.data,seq_num,topic_id,UInt16.ofNat data.length,calculateCrc32 data,data⟩

def newNackFrame (seq_num : UInt32) (topic_id : UInt16) : ProtocolFrame := ⟨.nack,seq_num,topic_id,0,0,[]⟩

def newHeartbeatFrame : ProtocolFrame := ⟨.heartbeat,0,0,0,0,[]⟩

-- The magic word and the version are the same in every frame.
def bytesAs (frame : ProtocolFrame) (byte : UInt8) : Bytes :=
  toLE 4 MAGIC_WORD ++ [PROTOCOL_VERSION] ++ [byte] ++ toLE 4 frame.seq_num.toNat ++
    toLE 2 frame.topic_id.toNat ++ toLE 2 frame.data_len.toNat ++ toLE 4 frame.crc32.toNat ++ frame.payload

def toBytes (frame : ProtocolFrame) : Bytes := frame.bytesAs frame.frame_type.toByte

def fromBytes (bytes : Bytes) : Except PubSubError ProtocolFrame :=
  if bytes.length < HEADER_SIZE then .error .invalidFrameFormat
  else if ofLE (readAt bytes 0 4) ≠ MAGIC_WORD then .error .invalidFrameFormat
  else if bytes.getD 4 0 ≠ PROTOCOL_VERSION then .error .invalidFrameFormat
  else
    let frame_type := FrameType.ofByte (bytes.getD 5 0)
    let data_len := ofLE (readAt bytes 12 2)
    if bytes.length < HEADER_SIZE+data_len then .error .invalidFrameFormat
    else
      let crc32 := UInt32.ofNat (ofLE (readAt bytes 14 4))
      let payload := readAt bytes 18 data_len
      if frame_type = .data ∧ calculateCrc32 payload ≠ crc32 then .error .crcCheckFailed
      else .ok
        ⟨frame_type,UInt32.ofNat (ofLE (readAt bytes 6 4)),UInt16.ofNat (ofLE (readAt bytes 10 2)),
          UInt16.ofNat data_len,crc32,payload⟩

-- What the constructors of frames see to.
structure WellFormed (frame : ProtocolFrame) : Prop where
  sized : frame.data_len.toNat = frame.payload.length
  summed : frame.frame_type = .data → calculateCrc32 frame.payload = frame.crc32

theorem newDataFrame_wellFormed {seq_num : UInt32} {topic_id : UInt16} {data : Bytes} {frame : ProtocolFrame}
    (made : newDataFrame seq_num topic_id data = .ok frame) : frame.WellFormed := by
  unfold newDataFrame at made
  split at made
  · cases made
  · cases made
    rename_i short
    simp only [MAX_DATA_LEN] at short
    refine ⟨?_,fun _ => rfl⟩
    rw [UInt16.toNat_ofNat',Nat.mod_eq_of_lt (by omega)]

theorem newNackFrame_wellFormed (seq_num : UInt32) (topic_id : UInt16) : (newNackFrame seq_num topic_id).WellFormed :=
  ⟨rfl,fun data => nomatch data⟩

@[simp] theorem frameType_roundtrip (frame_type : FrameType) : FrameType.ofByte frame_type.toByte = frame_type := by
  cases frame_type <;> rfl

@[simp] theorem bytesAs_length (frame : ProtocolFrame) (byte : UInt8) :
    (frame.bytesAs byte).length = HEADER_SIZE+frame.payload.length := by
  simp only [bytesAs,HEADER_SIZE,List.length_append,toLE_length,List.length_cons,List.length_nil]

theorem fromBytes_bytesAs {frame : ProtocolFrame} (formed : frame.WellFormed) {byte : UInt8}
    (kind_of : FrameType.ofByte byte = frame.frame_type) : fromBytes (frame.bytesAs byte) = .ok frame := by
  have length := frame.bytesAs_length byte
  have magic : ofLE (readAt (frame.bytesAs byte) 0 4) = MAGIC_WORD := by
    have field : readAt (frame.bytesAs byte) 0 4 = toLE 4 MAGIC_WORD := by
      simp [bytesAs,List.append_assoc,readAt_here]
    rw [field,le_roundtrip (by decide)]
  have version : (frame.bytesAs byte).getD 4 0 = PROTOCOL_VERSION := by
    simp [bytesAs,toLE]
  have kind : (frame.bytesAs byte).getD 5 0 = byte := by
    simp [bytesAs,toLE]
  have announced : ofLE (readAt (frame.bytesAs byte) 12 2) = frame.payload.length := by
    have field : readAt (frame.bytesAs byte) 12 2 = toLE 2 frame.data_len.toNat := by
      simp [bytesAs,List.append_assoc,readAt_pass,readAt_cons,readAt_here]
    rw [field,le_roundtrip (by exact frame.data_len.toNat_lt),formed.sized]
  have sequence : readAt (frame.bytesAs byte) 6 4 = toLE 4 frame.seq_num.toNat := by
    simp [bytesAs,List.append_assoc,readAt_pass,readAt_cons,readAt_here]
  have topic : readAt (frame.bytesAs byte) 10 2 = toLE 2 frame.topic_id.toNat := by
    simp [bytesAs,List.append_assoc,readAt_pass,readAt_cons,readAt_here]
  have checksum : readAt (frame.bytesAs byte) 14 4 = toLE 4 frame.crc32.toNat := by
    simp [bytesAs,List.append_assoc,readAt_pass,readAt_cons,readAt_here]
  have data : readAt (frame.bytesAs byte) 18 frame.payload.length = frame.payload := by
    simp [bytesAs,List.append_assoc,readAt_pass,readAt_cons,readAt_front]
  have summed : ¬(frame.frame_type = .data ∧ calculateCrc32 frame.payload ≠ frame.crc32) :=
    fun clash => clash.2 (formed.summed clash.1)
  unfold fromBytes
  rw [if_neg (by omega),magic,if_neg (fun differs => differs rfl),version,if_neg (fun differs => differs rfl),kind]
  simp only [kind_of]
  rw [announced,if_neg (by omega),data,checksum,le_uint32,if_neg summed,sequence,topic,le_uint32,le_uint16,← formed.sized,
    UInt16.ofNat_toNat]

theorem frame_roundtrip {frame : ProtocolFrame} (formed : frame.WellFormed) : fromBytes frame.toBytes = .ok frame :=
  fromBytes_bytesAs formed (frameType_roundtrip frame.frame_type)

end ProtocolFrame
end RemDb
