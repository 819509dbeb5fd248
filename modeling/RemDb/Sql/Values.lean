import RemDb.Lib.Answers
import RemDb.Snapshot.Format

namespace RemDb
namespace Values
open RemDb.Lib

structure Buffer (size : Nat) where
  bytes : Bytes
  sized : bytes.length = size
deriving DecidableEq

structure Timestamp where
  value : Int64
  tz_offset : Int16
deriving DecidableEq

inductive TextStorageTag where
  | inline | external | null
deriving DecidableEq,Repr

-- The union with the data is its 256 bytes; the pointer, the length and the capacity
-- of an external text are the first sixteen of them.
structure TextStorage where
  tag : TextStorageTag
  data : Buffer 256
deriving DecidableEq

inductive JsonStorage where
  | inline (data : Buffer 256)
  | external (pool_id : UInt8) (offset length : UInt32)
  | null
deriving DecidableEq

-- A union: only the member of the type is read.
structure Value where
  u8 : UInt8
  u16 : UInt16
  u32 : UInt32
  u64 : UInt64
  i8 : Int8
  i16 : Int16
  i32 : Int32
  i64 : Int64
  float32 : Float32
  float64 : Float
  bool : Bool
  time : Timestamp
  interval : Int64
  string : Buffer 64
  vector : UInt64
  json_storage : JsonStorage
  text_storage : TextStorage

structure TypedValue where
  value_type : DataType
  value : Value

abbrev Heap := Nat → UInt8

def beforeNul (bytes : Bytes) : Bytes := bytes.takeWhile (· ≠ 0)

-- Strings compare as their bytes do, so it makes no difference whether the bytes
-- are valid.
def compareUtf8 (a b : Bytes) : Ordering := compare (beforeNul a) (beforeNul b)

namespace TextStorage

def dataPtr (storage : TextStorage) : Nat := ofLE (readAt storage.data.bytes 0 8)
def length (storage : TextStorage) : Nat := ofLE (readAt storage.data.bytes 8 4)

def extractBytes (heap : Heap) (storage : TextStorage) : Bytes :=
  match storage.tag with
  | .inline => beforeNul storage.data.bytes
  | .external =>
    if storage.dataPtr ≠ 0 then (List.range storage.length).map fun index => heap (storage.dataPtr+index) else []
  | .null => []

end TextStorage

def trimNuls (bytes : Bytes) : Bytes := (bytes.reverse.dropWhile (· = 0)).reverse

-- The bytes a hasher is fed with. A slice is preceded by its length, a string is
-- followed by a byte that no string has, and an enumeration is its number.
section Feeds

def discriminant (number : Nat) : Bytes := toLE 8 number

def feedSlice (bytes : Bytes) : Bytes := toLE 8 bytes.length ++ bytes

def feedStr (bytes : Bytes) : Bytes := bytes ++ [0xFF]

def TextStorageTag.number : TextStorageTag → Nat
  | .inline => 0
  | .external => 1
  | .null => 2

def TextStorage.feed (storage : TextStorage) : Bytes := discriminant storage.tag.number ++ feedSlice storage.data.bytes

def JsonStorage.feed : JsonStorage → Bytes
  | .inline data => discriminant 0 ++ feedSlice data.bytes
  | .external pool_id offset length => discriminant 1 ++ [pool_id] ++ toLE 4 offset.toNat ++ toLE 4 length.toNat
  | .null => discriminant 2

end Feeds

namespace TypedValue

def eq (self other : TypedValue) : Bool :=
  if self.value_type ≠ other.value_type then false
  else
    match self.value_type with
    | .uint8 => self.value.u8 == other.value.u8
    | .uint16 => self.value.u16 == other.value.u16
    | .uint32 => self.value.u32 == other.value.u32
    | .uint64 => self.value.u64 == other.value.u64
    | .int8 => self.value.i8 == other.value.i8
    | .int16 => self.value.i16 == other.value.i16
    | .int32 => self.value.i32 == other.value.i32
    | .int64 => self.value.i64 == other.value.i64
    | .float32 =>
      if self.value.float32.isNaN && other.value.float32.isNaN then true else self.value.float32 == other.value.float32
    | .float64 =>
      if self.value.float64.isNaN && other.value.float64.isNaN then true else self.value.float64 == other.value.float64
    | .bool => self.value.bool == other.value.bool
    | .timestamp => self.value.time.value == other.value.time.value
    | .timestampTZ => self.value.time.value == other.value.time.value && self.value.time.tz_offset == other.value.time.tz_offset
    | .interval => self.value.interval == other.value.interval
    | .varChar | .char => compareUtf8 self.value.string.bytes other.value.string.bytes == .eq
    | .text => self.value.text_storage == other.value.text_storage
    | .vector => self.value.vector == other.value.vector
    | .json => self.value.json_storage == other.value.json_storage

def hash (self : TypedValue) : Bytes :=
  discriminant self.value_type.code.toNat ++
    match self.value_type with
    | .uint8 => [self.value.u8]
    | .uint16 => toLE 2 self.value.u16.toNat
    | .uint32 => toLE 4 self.value.u32.toNat
    | .uint64 => toLE 8 self.value.u64.toNat
    | .int8 => toLE 1 self.value.i8.toUInt8.toNat
    | .int16 => toLE 2 self.value.i16.toUInt16.toNat
    | .int32 => toLE 4 self.value.i32.toUInt32.toNat
    | .int64 => toLE 8 self.value.i64.toUInt64.toNat
    | .float32 => toLE 4 (if self.value.float32.isNaN then 0x7FC00000 else self.value.float32.toBits.toNat)
    | .float64 => toLE 8 (if self.value.float64.isNaN then 0x7FF8000000000000 else self.value.float64.toBits.toNat)
    | .bool => [if self.value.bool then 1 else 0]
    | .timestamp => toLE 8 self.value.time.value.toUInt64.toNat
    | .timestampTZ => toLE 8 self.value.time.value.toUInt64.toNat ++ toLE 2 self.value.time.tz_offset.toUInt16.toNat
    | .interval => toLE 8 self.value.interval.toUInt64.toNat
    | .varChar | .char =>
      match String.fromUTF8? ⟨self.value.string.bytes.toArray⟩ with
      | some _ => feedStr (trimNuls self.value.string.bytes)
      | none => feedSlice self.value.string.bytes
    | .text => self.value.text_storage.feed
    | .vector => toLE 8 self.value.vector.toNat
    | .json => self.value.json_storage.feed

def partialCmp (heap : Heap) (self other : TypedValue) : Option Ordering :=
  match compare self.value_type.code other.value_type.code with
  | .eq =>
    match self.value_type with
    | .uint8 => some (compare self.value.u8 other.value.u8)
    | .uint16 => some (compare self.value.u16 other.value.u16)
    | .uint32 => some (compare self.value.u32 other.value.u32)
    | .uint64 => some (compare self.value.u64 other.value.u64)
    | .int8 => some (compare self.value.i8 other.value.i8)
    | .int16 => some (compare self.value.i16 other.value.i16)
    | .int32 => some (compare self.value.i32 other.value.i32)
    | .int64 => some (compare self.value.i64 other.value.i64)
    | .float32 =>
      if self.value.float32.isNaN || other.value.float32.isNaN then none
      else if self.value.float32 < other.value.float32 then some .lt
      else if other.value.float32 < self.value.float32 then some .gt
      else some .eq
    | .float64 =>
      if self.value.float64.isNaN || other.value.float64.isNaN then none
      else if self.value.float64 < other.value.float64 then some .lt
      else if other.value.float64 < self.value.float64 then some .gt
      else some .eq
    | .bool => some (compare self.value.bool other.value.bool)
    | .timestamp => some (compare self.value.time.value other.value.time.value)
    | .timestampTZ =>
      match compare self.value.time.value other.value.time.value with
      | .eq => some (compare self.value.time.tz_offset other.value.time.tz_offset)
      | ordering => some ordering
    | .interval => some (compare self.value.interval other.value.interval)
    | .varChar | .char => some (compareUtf8 self.value.string.bytes other.value.string.bytes)
    | .text => some (compare (self.value.text_storage.extractBytes heap) (other.value.text_storage.extractBytes heap))
    | .vector => some (compare self.value.vector other.value.vector)
    | .json => some .eq
  | ordering => some ordering

def cmp (heap : Heap) (self other : TypedValue) : Ordering := (self.partialCmp heap other).getD .eq

end TypedValue

-- A row of a set. A hash set looks for an equal row among those with the same hash,
-- an ordered set for one that compares as equal.
abbrev Row := List TypedValue

def Row.hash (row : Row) : Bytes := discriminant row.length ++ row.flatMap TypedValue.hash

def hashSet (rows : List Row) : List Row :=
  keepFirst (fun held row => held.hash == row.hash && held.isEqv row TypedValue.eq) rows

def treeSet (heap : Heap) (values : List TypedValue) : List TypedValue :=
  keepFirst (fun held value => held.cmp heap value == .eq) values

end Values
end RemDb
