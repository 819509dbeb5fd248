import RemDb.Ddl.Layout
import RemDb.Snapshot.Format

namespace RemDb
open RemDb.Lib

-- The payload of a CreateTable item has this size whatever the table is.
def logDataSize : Nat := 512

-- `size_of::<JsonStorage>()`: a tag, 256 bytes and what aligns them to four.
def JsonStorage.SIZE : Nat := 260

-- The process memory a pointer leads into; `none` is an address nothing is
-- mapped at.
abbrev AddressSpace := Nat → Option UInt8

def fetch (memory : AddressSpace) (address size : Nat) : Option Bytes :=
  if size = 0 then some []
  else if address = 0 then none
  else (List.range size).mapM fun index => memory (address+index)

namespace DataType

-- The bytes of the union member that `create_table` reads for a type.
def memberWidth : DataType → Nat
  | .varChar | .char | .text => MAX_STRING_LEN
  | .json => JsonStorage.SIZE
  | .vector => usizeBytes
  | data_type => data_type.size.getD 0

def recoveredSize (data_type : DataType) (vector_dimension : Nat) : Nat :=
  match data_type with
  | .bool | .int8 | .uint8 => 1
  | .int16 | .uint16 => 2
  | .int32 | .uint32 | .float32 => 4
  | .int64 | .uint64 | .float64 | .timestamp | .timestampTZ => 8
  | .varChar | .char => 64
  | .text => TextStorage.SIZE
  | .json => DEFAULT_JSON_SIZE
  | .vector => if vector_dimension > 0 then vector_dimension*4 else 8
  | .interval => 10

end DataType

-- The writer. What is written so far stands for the buffer, which is zero
-- behind it.
namespace SchemaLog

def append (written part : Bytes) : Bytes :=
  if written.length+part.length ≤ logDataSize then written ++ part else written

-- The parts of a column one by one; the first that finds no room ends the
-- whole loop, which is the error here.
def appendParts (written : Bytes) : List Bytes → Except Bytes Bytes
  | [] => .ok written
  | part :: rest =>
    if written.length+part.length ≤ logDataSize then appendParts (written ++ part) rest else .error written

def stringDefault (default_value : Bytes) : Bytes :=
  let text := (padTo MAX_STRING_LEN default_value).takeWhile (· ≠ 0)
  [UInt8.ofNat text.length] ++ padTo MAX_STRING_LEN text

-- A JSON value is checked against less room than it takes. What runs over the
-- end of the buffer is `none`, and so is a pointer that leads nowhere.
def encodeDefault (memory : AddressSpace) (data_type : DataType) (dimension : UInt16)
    (written default_value : Bytes) : Option Bytes :=
  match data_type with
  | .vector =>
    if written.length+dimension.toNat*4 ≤ logDataSize then
      (fetch memory (ofLE default_value) (dimension.toNat*4)).map (written ++ ·)
    else some written
  | .bool | .int8 | .uint8 => some (append written (padTo 1 default_value))
  | .int16 | .uint16 => some (append written (padTo 2 default_value))
  | .int32 | .uint32 | .float32 => some (append written (padTo 4 default_value))
  | .int64 | .uint64 | .float64 | .timestamp | .timestampTZ => some (append written (padTo 8 default_value))
  | .varChar | .char | .text => some (append written (stringDefault default_value))
  | .interval => some (append written (padTo 10 default_value))
  | .json =>
    if written.length+64 ≤ logDataSize then
      if written.length+JsonStorage.SIZE ≤ logDataSize then some (written ++ padTo JsonStorage.SIZE default_value)
      else none
    else some written

def fieldName (field : FieldDef) : Bytes :=
  let field_name := (utf8 field.name).take 32
  [UInt8.ofNat field_name.length] ++ padTo 32 field_name

def fieldParts (field : FieldDef) (dimension : UInt16) : List Bytes :=
  [[field.data_type.code],[field.flags],toLE 4 field.size,
    toLE 2 (if field.data_type = .vector then dimension.toNat else 0),[field.default_value.isSome.toUInt8]]

def encodeFields (memory : AddressSpace) : Bytes → List (FieldDef × UInt16) → Option Bytes
  | written, [] => some written
  | written, (field,dimension) :: rest =>
    if written.length+38 > logDataSize then some written
    else
      match appendParts (written ++ fieldName field) (fieldParts field dimension) with
      | .error stopped => some stopped
      | .ok headed =>
        match field.default_value with
        | none => encodeFields memory headed rest
        | some default_value =>
          (encodeDefault memory field.data_type dimension headed default_value).bind fun next =>
            encodeFields memory next rest

-- The name, how many columns and key columns there are, and the key columns.
def head (tdef : TableDef) : Bytes :=
  let name := (utf8 tdef.name).take 64
  [UInt8.ofNat name.length] ++ padTo 64 name ++ [UInt8.ofNat tdef.fields.length,UInt8.ofNat tdef.primary_key.length] ++
    tdef.primary_key.map UInt8.ofNat

-- `log_data` of a new table. The columns come with the dimensions their
-- statement gave; the limit on the records is not written.
def encode (memory : AddressSpace) (tdef : TableDef) (dimensions : List UInt16) : Option Bytes :=
  (encodeFields memory (head tdef) (tdef.fields.zip dimensions)).map (padTo logDataSize)


def decodeName (bytes : Bytes) : String := (String.fromUTF8? ⟨bytes.toArray⟩).getD "unknown"

def decodeFixed (data : Bytes) (offset width : Nat) : Bytes × Nat :=
  (if offset+width ≤ data.length then readAt data offset width else List.replicate width 0,offset+width)

-- The bytes of the union that are set, and where reading goes on. The types at
-- the end get a `u64` of zero whatever was written.
def decodeDefault (data : Bytes) (data_type : DataType) (offset : Nat) : Bytes × Nat :=
  match data_type with
  | .bool => ([decide (offset < data.length ∧ data.getD offset 0 ≠ 0)|>.toUInt8],offset+1)
  | .int8 | .uint8 => decodeFixed data offset 1
  | .int16 | .uint16 => decodeFixed data offset 2
  | .int32 | .uint32 | .float32 => decodeFixed data offset 4
  | .int64 | .uint64 | .float64 => decodeFixed data offset 8
  | .varChar | .char | .text =>
    (if offset < data.length then padTo MAX_STRING_LEN (readAt data (offset+1) 64)
      else List.replicate MAX_STRING_LEN 0,offset+65)
  | .timestamp | .timestampTZ | .interval | .vector | .json =>
    (List.replicate 8 0,if offset+7 < data.length then offset+8 else data.length)

-- One column behind its name, at `place`. An index behind the end panics.
def decodeField (data : Bytes) (name : String) (place : Nat) : Option (FieldDef × Nat) := do
  let data_type := DataType.ofCode (data.getD place 0)
  let constraints := data.getD (place+1) 0
  let field_size := if place+6 ≤ data.length then ofLE (readAt data (place+2) 4) else 0
  let vector_dimension := if place+7 < data.length then ofLE (readAt data (place+6) 2) else 0
  let has_default ← data[place+8]?
  let read := decodeDefault data data_type (place+9)
  pure
    ({ name := name
       data_type := data_type
       size := if field_size > 0 then field_size else data_type.recoveredSize vector_dimension
       string_length := none
       offset := 0
       primary_key := decide (constraints &&& 1 ≠ 0)
       not_null := decide (constraints &&& 2 ≠ 0)
       unique := decide (constraints &&& 4 ≠ 0)
       auto_increment := decide (constraints &&& 8 ≠ 0)
       default_value := if has_default ≠ 0 then some read.1 else none },
      if has_default ≠ 0 then read.2 else place+9)

-- A column that is cut off is left out and the loop goes on behind what was
-- looked at of it.
def decodeFields (data : Bytes) : Nat → Nat → Option (List FieldDef × Nat)
  | 0, offset => some ([],offset)
  | count+1, offset =>
    if offset ≥ data.length then some ([],offset)
    else if offset+33 > data.length then decodeFields data count (offset+1)
    else
      let field_name_len := (data.getD offset 0).toNat
      if offset+1+field_name_len > data.length then none
      else if offset+36 ≥ data.length then decodeFields data count (offset+33)
      else
        (decodeField data (decodeName (readAt data (offset+1) field_name_len)) (offset+33)).bind fun entry =>
          (decodeFields data count entry.2).map fun rest => (entry.1 :: rest.1,rest.2)

end SchemaLog

def DbConfig.maxAllowed (config : DbConfig) : Nat :=
  if config.low_power_mode_supported then config.low_power_max_records.getD config.default_max_records
  else config.default_max_records

namespace SchemaLog

def recoveredRecords (config : DbConfig) (data : Bytes) (offset : Nat) : Nat :=
  let max_records := if offset+3 < data.length then ofLE (readAt data offset 4) else 100000
  min (if max_records = 0 then 100000 else max_records) config.maxAllowed

-- The definition a CreateTable item gives. `none` is a panic, `some none` an
-- item that is passed over.
def decode (config : DbConfig) (table_id : UInt8) (data : Bytes) : Option (Option TableDef) :=
  let name_len := (data.getD 0 0).toNat
  if data = [] ∨ name_len = 0 ∨ name_len+1 > data.length ∨ data.length ≤ 66 then some none
  else
    let field_count := (data.getD 65 0).toNat
    let primary_key_count := (data.getD 66 0).toNat
    if 67+primary_key_count ≥ data.length then some none
    else
      (decodeFields data field_count (67+primary_key_count)).map fun read =>
        let stored_size := if read.2+1 < data.length then ofLE (readAt data read.2 2) else 0
        some
          { id := table_id
            name := decodeName (readAt data 1 name_len)
            fields := AlterTableOperation.relaid 0 read.1
            primary_key := (readAt data 67 primary_key_count).map (·.toNat)
            record_size := if stored_size = 0 then (read.1.map (·.size)).sum else stored_size
            max_records := recoveredRecords config data (read.2+2) }

end SchemaLog
end RemDb
