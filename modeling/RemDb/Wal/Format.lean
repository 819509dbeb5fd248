import RemDb.Lib.Bytes

namespace RemDb.Wal
open RemDb.Lib

inductive LogOperation where
  | insert | delete | update | timeSeriesInsert | createTable | commit | abort | checkpoint
  | createIndex | enterLowPowerMode | exitLowPowerMode | alterTable | dropTable | createDatabase
deriving DecidableEq,Repr

def LogOperation.toByte : LogOperation → UInt8
  | .insert => 0
  | .delete => 1
  | .update => 2
  | .timeSeriesInsert => 3
  | .createTable => 4
  | .commit => 5
  | .abort => 6
  | .checkpoint => 7
  | .createIndex => 8
  | .enterLowPowerMode => 9
  | .exitLowPowerMode => 10
  | .alterTable => 11
  | .dropTable => 12
  | .createDatabase => 13

-- `none` is a discriminant the enumeration does not have. The scan lists all
-- fourteen operations in a `matches!` before it takes an item, so it skips these.
def LogOperation.ofByte (byte : UInt8) : Option LogOperation :=
  match byte.toNat with
  | 0 => some .insert
  | 1 => some .delete
  | 2 => some .update
  | 3 => some .timeSeriesInsert
  | 4 => some .createTable
  | 5 => some .commit
  | 6 => some .abort
  | 7 => some .checkpoint
  | 8 => some .createIndex
  | 9 => some .enterLowPowerMode
  | 10 => some .exitLowPowerMode
  | 11 => some .alterTable
  | 12 => some .dropTable
  | 13 => some .createDatabase
  | _ => none

@[simp] theorem operation_roundtrip (operation : LogOperation) :
    LogOperation.ofByte operation.toByte = some operation := by cases operation <;> rfl

structure LogItem where
  op_type : LogOperation
  table_id : UInt8
  record_id : UInt16
  old_data_size : UInt16
  new_data_size : UInt16
  tx_id : UInt32
  timestamp : UInt64
  checksum : UInt32
deriving DecidableEq,Repr

structure VariableSizeLogItem where
  header : LogItem
  old_data : Bytes
  new_data : Bytes
deriving DecidableEq,Repr

-- `repr(C)` sizes on a 64-bit target: eight-byte alignment pads LogItem to 32
-- bytes and LogHeader to 32; LogCheckpoint is 16 bytes without padding.
def logItemSize : Nat := 32
def logHeaderSize : Nat := 32
def logCheckpointSize : Nat := 16
def logRegionStart : Nat := logHeaderSize+logCheckpointSize

-- The struct is copied to the file with its padding. Rust leaves those bytes
-- unspecified, so every write takes them from `pad`, indexed by position.
def LogItem.encode (pad : Nat → UInt8) (item : LogItem) : Bytes :=
  [item.op_type.toByte,item.table_id] ++ toLE 2 item.record_id.toNat ++
    toLE 2 item.old_data_size.toNat ++ toLE 2 item.new_data_size.toNat ++
    toLE 4 item.tx_id.toNat ++ [pad 12,pad 13,pad 14,pad 15] ++
    toLE 8 item.timestamp.toNat ++ toLE 4 item.checksum.toNat ++
    [pad 28,pad 29,pad 30,pad 31]

def LogItem.decode (bytes : Bytes) : Option LogItem :=
  (LogOperation.ofByte (bytes.getD 0 0)).map fun operation =>
    { op_type := operation
      table_id := bytes.getD 1 0
      record_id := UInt16.ofNat (ofLE (readAt bytes 2 2))
      old_data_size := UInt16.ofNat (ofLE (readAt bytes 4 2))
      new_data_size := UInt16.ofNat (ofLE (readAt bytes 6 2))
      tx_id := UInt32.ofNat (ofLE (readAt bytes 8 4))
      timestamp := UInt64.ofNat (ofLE (readAt bytes 16 8))
      checksum := UInt32.ofNat (ofLE (readAt bytes 24 4)) }

@[simp] theorem encode_length (pad : Nat → UInt8) (item : LogItem) :
    (item.encode pad).length = logItemSize := by
  simp [LogItem.encode,logItemSize]

theorem le_uint16 (n : UInt16) : UInt16.ofNat (ofLE (toLE 2 n.toNat)) = n := by
  rw [le_roundtrip (by exact n.toNat_lt)]
  exact UInt16.ofNat_toNat

theorem le_uint32 (n : UInt32) : UInt32.ofNat (ofLE (toLE 4 n.toNat)) = n := by
  rw [le_roundtrip (by exact n.toNat_lt)]
  exact UInt32.ofNat_toNat

theorem le_uint64 (n : UInt64) : UInt64.ofNat (ofLE (toLE 8 n.toNat)) = n := by
  rw [le_roundtrip (by exact n.toNat_lt)]
  exact UInt64.ofNat_toNat

theorem readAt_pass (field rest : Bytes) (offset width : Nat) (before : field.length ≤ offset) :
    readAt (field ++ rest) offset width = readAt rest (offset-field.length) width := by
  obtain ⟨further,rfl⟩ := Nat.exists_eq_add_of_le before
  rw [readAt_skip,Nat.add_sub_cancel_left]

theorem readAt_cons (byte : UInt8) (rest : Bytes) (offset width : Nat) (before : 0 < offset) :
    readAt (byte :: rest) offset width = readAt rest (offset-1) width :=
  readAt_pass [byte] rest offset width before

theorem readAt_here (field rest : Bytes) (width : Nat) (exact : field.length = width) :
    readAt (field ++ rest) 0 width = field := by
  rw [readAt_front,← exact,List.take_left]

theorem item_roundtrip (pad : Nat → UInt8) (item : LogItem) :
    LogItem.decode (item.encode pad) = some item := by
  simp [LogItem.encode,LogItem.decode,List.append_assoc,readAt_pass,readAt_cons,readAt_here,
    le_uint16,le_uint32,le_uint64]

-- `calculate_log_item_checksum`; `to_le` is the identity on the host this models.
-- Only the low half of the timestamp takes part.
def calculateLogItemChecksum (item : LogItem) : UInt32 :=
  item.op_type.toByte.toUInt32 ^^^ item.table_id.toUInt32 ^^^ item.record_id.toUInt32 ^^^
    item.old_data_size.toUInt32 ^^^ item.new_data_size.toUInt32 ^^^ item.tx_id ^^^
    item.timestamp.toUInt32

def calculateVariableSizeLogItemChecksum (item : VariableSizeLogItem) : UInt32 :=
  let overOld := item.old_data.foldl (fun sum byte => sum ^^^ byte.toUInt32)
    (calculateLogItemChecksum item.header)
  item.new_data.foldl (fun sum byte => sum ^^^ byte.toUInt32) overOld

-- `calculate_checksum`: four bytes at a time, then the rest byte by byte.
def calculateChecksum : Bytes → UInt32
  | a :: b :: c :: d :: rest => UInt32.ofNat (ofLE [a,b,c,d]) ^^^ calculateChecksum rest
  | rest => rest.foldl (fun sum byte => sum ^^^ byte.toUInt32) 0

-- What begin_log_item guarantees of an item and the scan relies on.
structure WellFormed (item : VariableSizeLogItem) : Prop where
  old_size : item.header.old_data_size.toNat = item.old_data.length
  new_size : item.header.new_data_size.toNat = item.new_data.length
  sum : item.header.checksum = calculateVariableSizeLogItemChecksum item
  stamped : item.header.timestamp ≠ 0

-- The sizes and the checksum an item announces are its own.
structure Consistent (item : VariableSizeLogItem) : Prop where
  old_size : item.header.old_data_size.toNat = item.old_data.length
  new_size : item.header.new_data_size.toNat = item.new_data.length
  sum : item.header.checksum = calculateVariableSizeLogItemChecksum item

theorem WellFormed.consistent (formed : WellFormed item) : Consistent item :=
  ⟨formed.old_size,formed.new_size,formed.sum⟩

structure LogHeader where
  magic : UInt32
  version : UInt32
  created_at : UInt64
  record_count : UInt32
  checksum : UInt32
  compression_type : UInt8
deriving DecidableEq,Repr

def logMagic : UInt32 := 0x4C4F474D

def LogHeader.encode (pad : Nat → UInt8) (header : LogHeader) : Bytes :=
  toLE 4 header.magic.toNat ++ toLE 4 header.version.toNat ++ toLE 8 header.created_at.toNat ++
    toLE 4 header.record_count.toNat ++ toLE 4 header.checksum.toNat ++
    [header.compression_type] ++ [pad 25,pad 26,pad 27,pad 28,pad 29,pad 30,pad 31]

def LogHeader.decode (bytes : Bytes) : LogHeader :=
  { magic := UInt32.ofNat (ofLE (readAt bytes 0 4))
    version := UInt32.ofNat (ofLE (readAt bytes 4 4))
    created_at := UInt64.ofNat (ofLE (readAt bytes 8 8))
    record_count := UInt32.ofNat (ofLE (readAt bytes 16 4))
    checksum := UInt32.ofNat (ofLE (readAt bytes 20 4))
    compression_type := bytes.getD 24 0 }

@[simp] theorem header_length (pad : Nat → UInt8) (header : LogHeader) :
    (header.encode pad).length = logHeaderSize := by
  simp [LogHeader.encode,logHeaderSize]

theorem header_roundtrip (pad : Nat → UInt8) (header : LogHeader) :
    LogHeader.decode (header.encode pad) = header := by
  simp [LogHeader.encode,LogHeader.decode,List.append_assoc,readAt_pass,readAt_here,
    le_uint32,le_uint64]

structure LogCheckpoint where
  timestamp : UInt64
  processed_records : UInt32
  checksum : UInt32
deriving DecidableEq,Repr

def LogCheckpoint.encode (checkpoint : LogCheckpoint) : Bytes :=
  toLE 8 checkpoint.timestamp.toNat ++ toLE 4 checkpoint.processed_records.toNat ++
    toLE 4 checkpoint.checksum.toNat

def LogCheckpoint.decode (bytes : Bytes) : LogCheckpoint :=
  { timestamp := UInt64.ofNat (ofLE (readAt bytes 0 8))
    processed_records := UInt32.ofNat (ofLE (readAt bytes 8 4))
    checksum := UInt32.ofNat (ofLE (readAt bytes 12 4)) }

@[simp] theorem checkpoint_length (checkpoint : LogCheckpoint) :
    checkpoint.encode.length = logCheckpointSize := by
  simp [LogCheckpoint.encode,logCheckpointSize]

end RemDb.Wal
