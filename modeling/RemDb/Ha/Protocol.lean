import RemDb.Ha.Snapshot

namespace RemDb
open RemDb.Lib RemDb.Wal

inductive SyncType where
  | full | incremental
deriving DecidableEq,Repr

def SyncType.toByte : SyncType → UInt8
  | .full => 0
  | .incremental => 1

def SyncType.ofByte (byte : UInt8) : SyncType := if byte = 1 then .incremental else .full

structure SyncDataBegin where
  sync_type : SyncType
  total_size : UInt64
  chunk_count : UInt32
  table_count : UInt8
  log_count : UInt32
deriving DecidableEq,Repr

namespace SyncDataBegin

def encode (message : SyncDataBegin) : Bytes :=
  [message.sync_type.toByte] ++ toLE 8 message.total_size.toNat ++ toLE 4 message.chunk_count.toNat ++
    [message.table_count] ++ toLE 4 message.log_count.toNat

def decode (data : Bytes) : Option SyncDataBegin :=
  if data.length < 18 then none
  else some
    { sync_type := SyncType.ofByte (data.getD 0 0)
      total_size := UInt64.ofNat (ofLE (readAt data 1 8))
      chunk_count := UInt32.ofNat (ofLE (readAt data 9 4))
      table_count := data.getD 13 0
      log_count := UInt32.ofNat (ofLE (readAt data 14 4)) }

end SyncDataBegin

def MAX_CHUNK_DATA_SIZE : Nat := 60000

structure SyncDataChunk where
  chunk_index : UInt32
  data_size : UInt16
  data : Bytes
deriving DecidableEq,Repr

namespace SyncDataChunk

def new (chunk_index : Nat) (data : Bytes) : SyncDataChunk :=
  ⟨UInt32.ofNat chunk_index,UInt16.ofNat data.length,data⟩

def encode (message : SyncDataChunk) : Bytes :=
  toLE 4 message.chunk_index.toNat ++ toLE 2 message.data_size.toNat ++ message.data

def decode (data : Bytes) : Option SyncDataChunk :=
  if data.length < 6 then none
  else
    let data_size := ofLE (readAt data 4 2)
    if data.length < 6+data_size then none
    else some ⟨UInt32.ofNat (ofLE (readAt data 0 4)),UInt16.ofNat data_size,readAt data 6 data_size⟩

end SyncDataChunk

structure SyncDataEnd where
  total_chunks : UInt32
  checksum : UInt32
deriving DecidableEq,Repr

namespace SyncDataEnd

def encode (message : SyncDataEnd) : Bytes := toLE 4 message.total_chunks.toNat ++ toLE 4 message.checksum.toNat

def decode (data : Bytes) : Option SyncDataEnd :=
  if data.length < 8 then none
  else some ⟨UInt32.ofNat (ofLE (readAt data 0 4)),UInt32.ofNat (ofLE (readAt data 4 4))⟩

end SyncDataEnd

@[simp] theorem syncType_roundtrip (sync_type : SyncType) : SyncType.ofByte sync_type.toByte = sync_type := by
  cases sync_type <;> rfl

theorem readAt_last (field : Bytes) (width : Nat) (exact : field.length = width) : readAt field 0 width = field := by
  rw [readAt_front,List.take_of_length_le (by omega)]

theorem begin_roundtrip (message : SyncDataBegin) : SyncDataBegin.decode message.encode = some message := by
  have size : ¬message.encode.length < 18 := by simp [SyncDataBegin.encode]
  rw [SyncDataBegin.decode,if_neg size]
  simp [SyncDataBegin.encode,List.append_assoc,readAt_pass,readAt_cons,readAt_here,readAt_last,le_uint32,
    le_uint64]

theorem end_roundtrip (message : SyncDataEnd) : SyncDataEnd.decode message.encode = some message := by
  have size : ¬message.encode.length < 8 := by simp [SyncDataEnd.encode]
  rw [SyncDataEnd.decode,if_neg size]
  simp [SyncDataEnd.encode,readAt_pass,readAt_here,readAt_last,le_uint32]

theorem chunk_roundtrip (message : SyncDataChunk) (sized : message.data_size.toNat = message.data.length) :
    SyncDataChunk.decode message.encode = some message := by
  have length : message.encode.length = 6+message.data.length := by
    simp only [SyncDataChunk.encode,List.length_append,toLE_length]
  have announced : ofLE (readAt message.encode 4 2) = message.data.length := by
    have field : readAt message.encode 4 2 = toLE 2 message.data_size.toNat := by
      simp [SyncDataChunk.encode,List.append_assoc,readAt_pass,readAt_here]
    rw [field,le_roundtrip (by exact message.data_size.toNat_lt),sized]
  have index : readAt message.encode 0 4 = toLE 4 message.chunk_index.toNat := by
    simp [SyncDataChunk.encode,List.append_assoc,readAt_here]
  have data : readAt message.encode 6 message.data.length = message.data := by
    simp [SyncDataChunk.encode,List.append_assoc,readAt_pass,readAt_front]
  unfold SyncDataChunk.decode
  rw [if_neg (by omega)]
  dsimp only
  rw [announced,if_neg (by omega),index,data,le_uint32,← sized,UInt16.ofNat_toNat]

end RemDb
