import RemDb.Ddl.Catalog

namespace RemDb
open RemDb.Lib

def MAX_STRING_LEN : Nat := 64
def DEFAULT_JSON_SIZE : Nat := 512

-- `size_of::<TextStorage>()`.
def TextStorage.SIZE : Nat := 264

-- A timestamp and an interval are structures of 16 bytes with their padding.
def DataType.size : DataType → Option Nat
  | .uint8 | .int8 | .bool => some 1
  | .uint16 | .int16 => some 2
  | .uint32 | .int32 | .float32 => some 4
  | .uint64 | .int64 | .float64 => some 8
  | .timestamp | .timestampTZ | .interval => some 16
  | .varChar | .char | .text | .vector | .json => none

-- `scheme` is the compression scheme in the configuration cache.
def vectorFieldSize (scheme : UInt8) (dimension : UInt16) : Nat :=
  if scheme = 1 then dimension.toNat*2
  else if scheme = 2 then dimension.toNat*4+4
  else dimension.toNat*4

structure Column where
  name : String
  data_type : DataType
  dimension : UInt16
  default_value : Option Bytes
deriving DecidableEq,Repr

structure FieldConstraint where
  primary_key : Bool
  not_null : Bool
  unique : Bool
  auto_increment : Bool
deriving DecidableEq,Repr

structure CreateTable where
  name : String
  fields : List Column
  constraints : Option (List FieldConstraint)
  primary_key : Option (List Nat)
  max_records : Option Nat
deriving DecidableEq,Repr

structure Leftover where
  memory : Memory
  hash_table_start : Nat → Option Nat
  items_start : Nat → PrimaryIndexItem

namespace CreateTable

def fieldSize (scheme : UInt8) (column : Column) : Nat :=
  match column.data_type with
  | .varChar | .char => if column.dimension > 0 then column.dimension.toNat else MAX_STRING_LEN
  | .text => TextStorage.SIZE
  | .json => if column.dimension > 0 then column.dimension.toNat else DEFAULT_JSON_SIZE
  | .vector => vectorFieldSize scheme column.dimension
  | data_type => data_type.size.getD 0

-- A key column is not null and unique whatever the statement says; only the
-- wider integers count up by themselves.
def fieldDef (statement : CreateTable) (scheme : UInt8) (number offset : Nat) (column : Column) : FieldDef :=
  let is_primary_key := (statement.primary_key.map (·.contains number)).getD false
  let constraint := (statement.constraints.bind (·[number]?)).getD
    ⟨is_primary_key,is_primary_key,is_primary_key,is_primary_key⟩
  let counts := decide (column.data_type = .int32 ∨ column.data_type = .int64 ∨
    column.data_type = .uint32 ∨ column.data_type = .uint64)
  { name := column.name
    data_type := column.data_type
    size := fieldSize scheme column
    string_length := none
    offset := offset
    primary_key := is_primary_key
    not_null := is_primary_key || constraint.not_null
    unique := is_primary_key || constraint.unique
    auto_increment := constraint.auto_increment && counts
    default_value := column.default_value }

def fieldDefs (statement : CreateTable) (scheme : UInt8) : Nat → Nat → List Column → List FieldDef
  | _, _, [] => []
  | number, offset, column :: rest =>
    statement.fieldDef scheme number offset column ::
      fieldDefs statement scheme (number+1) (offset+fieldSize scheme column) rest

-- In low power mode the smaller of the two limits, else the larger.
def effectiveMaxRecords (statement : CreateTable) (config : DbConfig) : Nat :=
  if config.low_power_mode_supported then
    let low_power_max := config.low_power_max_records.getD (usizeLimit-1)
    min (statement.max_records.getD config.default_max_records) low_power_max
  else
    match statement.max_records with
    | some table_max => max table_max config.default_max_records
    | none => config.default_max_records

def tableDef (statement : CreateTable) (config : DbConfig) (scheme : UInt8) (table_id : Nat) : TableDef :=
  { id := UInt8.ofNat table_id
    name := statement.name
    fields := statement.fieldDefs scheme 0 0 statement.fields
    primary_key := statement.primary_key.getD []
    record_size := (statement.fields.map (fieldSize scheme)).sum
    max_records := statement.effectiveMaxRecords config }

end CreateTable

-- `(max_records * 2).next_power_of_two()`, which wraps.
def hashTableSize (max_records : Nat) : Nat := (max_records*2 % usizeLimit).nextPowerOfTwo % usizeLimit

def TableDef.indexSize (tdef : TableDef) : Nat :=
  PrimaryIndex.calculateMemorySize (hashTableSize tdef.max_records) tdef.max_records

-- `create_table`. The table stands in its place before the memory for its
-- index is asked for.
def createTable (statement : CreateTable) (scheme : UInt8) (left : Leftover) : DdlAction σ Unit := do
  let db ← get
  if statement.fields = [] then fail .configError
  else if (statement.primary_key.getD []).any fun pk_index => decide (pk_index ≥ statement.fields.length) then
    fail .configError
  else if db.isNamed statement.name then pure ()
  else
    let table_id := db.freePlace
    let table_def := statement.tableDef db.config scheme table_id
    let table ← makeTable left.memory table_def none .sortedArray
    modify fun db => {db with tables:=putAt db.tables table_id (some table)}
    let _ ← alloc table_def.indexSize
    let primary_index := PrimaryIndex.new table_def left.hash_table_start left.items_start
      (hashTableSize table_def.max_records) table_def.max_records
    modify fun db => {db with
      primary_indices:=putAt db.primary_indices table_id (some primary_index)
      secondary_indices:=putAt db.secondary_indices table_id none}

end RemDb
