import RemDb.Types

namespace RemDb
open RemDb.Lib

inductive DataType where
  | uint8 | uint16 | uint32 | uint64 | int8 | int16 | int32 | int64 | float32 | float64 | bool
  | timestamp | timestampTZ | varChar | char | text | interval | vector | json
deriving DecidableEq,Repr

-- `default_value` holds the bytes the union has when it is read at the type of
-- the field, which is how every reader takes it.
structure FieldDef where
  name : String
  data_type : DataType
  size : Nat
  string_length : Option Nat
  offset : Nat
  primary_key : Bool
  not_null : Bool
  unique : Bool
  auto_increment : Bool
  default_value : Option Bytes
deriving DecidableEq,Repr

structure TableDef where
  id : UInt8
  name : String
  fields : List FieldDef
  primary_key : List Nat
  record_size : Nat
  max_records : Nat
deriving DecidableEq,Repr

inductive RecordStatus where
  | free | used | deleted
deriving DecidableEq,Repr

structure RecordHeader where
  status : RecordStatus
  version : UInt16
  create_tx_id : UInt32
  delete_tx_id : UInt32
  next_version_ptr : Nat
deriving DecidableEq,Repr

-- `TransactionManager::is_visible`.
def isVisible (createTx deleteTx current : UInt32) : Bool :=
  if createTx = current then true
  else if deleteTx > 0 ∧ deleteTx < current then false
  else decide (createTx < current)

def DataType.isText : DataType → Bool
  | .varChar | .char | .text => true
  | _ => false

-- IEEE 754 on the bits: an exponent of ones is an infinity or a NaN, and the
-- two zeros are equal.
def floatFinite (mantissa exponent bits : Nat) : Bool := bits/2^mantissa % 2^exponent ≠ 2^exponent-1
def floatNaN (mantissa exponent bits : Nat) : Bool :=
  !floatFinite mantissa exponent bits && decide (bits % 2^mantissa ≠ 0)
def floatEq (mantissa exponent left right : Nat) : Bool :=
  !floatNaN mantissa exponent left && !floatNaN mantissa exponent right &&
    (decide (left = right) ||
      decide (left % 2^(mantissa+exponent) = 0 ∧ right % 2^(mantissa+exponent) = 0))

def FieldDef.read (field : FieldDef) (record : Bytes) (width : Nat) : Bytes :=
  readAt record field.offset width

-- The comparison of one key column: by value, so that padding and, for a
-- timestamp without zone, the offset do not count.
def FieldDef.sameValue (field : FieldDef) (current existing : Bytes) : Bool :=
  let same (width : Nat) := decide (field.read current width = field.read existing width)
  match field.data_type with
  | .uint8 | .int8 | .bool => same 1
  | .uint16 | .int16 => same 2
  | .uint32 | .int32 => same 4
  | .uint64 | .int64 | .timestamp | .interval => same 8
  | .timestampTZ => same 10
  | .float32 => floatEq 23 8 (ofLE (field.read current 4)) (ofLE (field.read existing 4))
  | .float64 => floatEq 52 11 (ofLE (field.read current 8)) (ofLE (field.read existing 8))
  | .varChar | .char | .text => same field.size
  | .vector | .json => false

-- The check of one field by itself: a text that is all zeros counts as NULL,
-- other types have no NULL; a float has to be finite.
def FieldDef.fault (field : FieldDef) (record : Bytes) : Option RemDbError :=
  if field.not_null ∧ field.data_type.isText ∧ (field.read record field.size).all (· = 0) then
    some .notNullViolation
  else
    match field.data_type with
    | .float32 => if floatFinite 23 8 (ofLE (field.read record 4)) then none else some .typeMismatch
    | .float64 => if floatFinite 52 11 (ofLE (field.read record 8)) then none else some .typeMismatch
    | _ => none

namespace TableDef

def keyFields (tdef : TableDef) : List FieldDef := tdef.primary_key.filterMap (tdef.fields[·]?)

-- Another record that is used, visible to the newest transaction and has the
-- same value.
def clashes (tdef : TableDef) (status : Nat → RecordHeader) (records : Nat → Bytes) (newest : UInt32)
    (exclude : Option Nat) (same : Bytes → Bool) : Bool :=
  (List.range tdef.max_records).any fun slot =>
    decide (exclude ≠ some slot) && decide ((status slot).status = .used) &&
      isVisible (status slot).create_tx_id (status slot).delete_tx_id newest && same (records slot)

-- `validate_constraints`: fields one by one, then the primary key, then every
-- unique column that is not part of it.
def validateConstraints (tdef : TableDef) (status : Nat → RecordHeader) (records : Nat → Bytes)
    (newest : UInt32) (record : Bytes) (exclude : Option Nat) : Except RemDbError Unit :=
  match tdef.fields.findSome? (·.fault record) with
  | some fault => .error fault
  | none =>
    if tdef.primary_key ≠ [] ∧
        tdef.clashes status records newest exclude (fun existing =>
          tdef.keyFields.all (·.sameValue record existing)) = true then .error .duplicateKey
    else if (tdef.fields.filter fun field => field.unique && !field.primary_key).any fun field =>
        tdef.clashes status records newest exclude (field.sameValue record) then .error .duplicateKey
    else .ok ()

end TableDef
end RemDb
