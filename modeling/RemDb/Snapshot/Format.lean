import RemDb.Lib.Reader
import RemDb.Sql.Expression
import RemDb.Ddl.Catalog

namespace RemDb
open RemDb.Lib RemDb.Lib.Reader

-- `data_type as u8` and `DataType::from`.
def DataType.all : List DataType :=
  [.uint8,.uint16,.uint32,.uint64,.int8,.int16,.int32,.int64,.float32,.float64,.bool,.timestamp,.timestampTZ,
    .varChar,.char,.text,.interval,.vector,.json]

def DataType.code (data_type : DataType) : UInt8 := UInt8.ofNat (DataType.all.idxOf data_type)
def DataType.ofCode (code : UInt8) : DataType := DataType.all.getD code.toNat .varChar

def IndexType.all : List IndexType := [.hash,.sortedArray,.bTree,.tTree,.vector,.json]

def IndexType.code (index_type : IndexType) : UInt8 := UInt8.ofNat (IndexType.all.idxOf index_type)
def IndexType.ofCode (code : UInt8) : IndexType := IndexType.all.getD code.toNat .sortedArray

@[simp] theorem DataType.ofCode_code (data_type : DataType) : ofCode data_type.code = data_type := by
  cases data_type <;> decide
@[simp] theorem IndexType.ofCode_code (index_type : IndexType) : ofCode index_type.code = index_type := by
  cases index_type <;> decide

namespace Utf8

-- How many bytes a character has by its first byte; zero for none.
def width (first : UInt8) : Nat :=
  if first < 0x80 then 1
  else if 0xC2 ≤ first ∧ first ≤ 0xDF then 2
  else if 0xE0 ≤ first ∧ first ≤ 0xEF then 3
  else if 0xF0 ≤ first ∧ first ≤ 0xF4 then 4
  else 0

-- The second byte has a range of its own after some first bytes.
def fits (first : UInt8) (place : Nat) (byte : UInt8) : Bool :=
  let low := if place = 0 ∧ first = 0xE0 then 0xA0 else if place = 0 ∧ first = 0xF0 then 0x90 else 0x80
  let high := if place = 0 ∧ first = 0xED then 0x9F else if place = 0 ∧ first = 0xF4 then 0x8F else 0xBF
  decide (low ≤ byte ∧ byte ≤ high)

def following (first : UInt8) (rest : Bytes) : Bytes :=
  ((rest.take (width first-1)).zipIdx.takeWhile fun entry => fits first entry.2 entry.1).map (·.1)

def scalar (first : UInt8) (rest : Bytes) : Char :=
  Char.ofNat (rest.foldl (fun value byte => value*64+byte.toNat % 64)
    (if rest = [] then first.toNat else first.toNat % 2^(6-rest.length)))

-- A sequence that breaks off becomes one replacement character, as long as it
-- could have been the start of a character.
def lossy : Nat → Bytes → List Char
  | 0, _ => []
  | _+1, [] => []
  | fuel+1, first :: rest =>
    let tail := following first rest
    (if tail.length+1 = width first then scalar first tail else Char.ofNat 0xFFFD) ::
      lossy fuel (rest.drop tail.length)

end Utf8

-- `String::from_utf8_lossy`.
def fromUtf8Lossy (bytes : Bytes) : String :=
  match String.fromUTF8? ⟨bytes.toArray⟩ with
  | some text => text
  | none => String.ofList (Utf8.lossy bytes.length bytes)

theorem fromUTF8_utf8 (text : String) : String.fromUTF8? ⟨(utf8 text).toArray⟩ = some text := by
  have same : (⟨(utf8 text).toArray⟩ : ByteArray) = text.toByteArray := by
    rw [utf8,Array.toArray_toList]
    rfl
  rw [same,String.fromUTF8?,dif_pos text.isValidUTF8]
  rfl

theorem fromUtf8Lossy_utf8 (text : String) : fromUtf8Lossy (utf8 text) = text := by
  rw [fromUtf8Lossy,fromUTF8_utf8]

namespace FieldDef

def flags (field : FieldDef) : UInt8 :=
  field.primary_key.toUInt8 ||| field.not_null.toUInt8 <<< 1 ||| field.unique.toUInt8 <<< 2 |||
    field.auto_increment.toUInt8 <<< 3

def stringLengthBytes (field : FieldDef) : Bytes :=
  match field.string_length with
  | none => [0]
  | some length => [1] ++ toLE 4 length

def snapshotBytes (field : FieldDef) : Bytes :=
  [UInt8.ofNat (utf8 field.name).length] ++ utf8 field.name ++ [field.data_type.code] ++ toLE 4 field.size ++
    field.stringLengthBytes ++ [field.flags] ++ [0]

-- The length is there only behind a flag of one.
def stringLength : Reader (Option Nat) := do
  let has_string_length ← byte
  if has_string_length = 1 then
    let length ← le 4
    pure (some length)
  else pure none

-- The flag of the default is read and dropped, and the offset is not in the
-- file.
def fromSnapshot : Reader FieldDef := do
  let field_name_len ← byte
  let field_name ← take field_name_len.toNat
  let data_type ← byte
  let field_size ← le 4
  let string_length ← stringLength
  let flags ← byte
  let _ ← byte
  pure
    { name := fromUtf8Lossy field_name
      data_type := DataType.ofCode data_type
      size := field_size
      string_length := string_length
      offset := 0
      primary_key := decide (flags &&& 1 ≠ 0)
      not_null := decide (flags &&& 2 ≠ 0)
      unique := decide (flags &&& 4 ≠ 0)
      auto_increment := decide (flags &&& 8 ≠ 0)
      default_value := none }

def restored (field : FieldDef) : FieldDef :=
  {field with
    string_length:=field.string_length.map (· % 2^32)
    offset:=0
    default_value:=none}

end FieldDef

-- The definition of a table as a snapshot has it.
structure Description where
  name : String
  fields : List FieldDef
  primary_key : List Nat
  secondary_index : Option (List Nat)
  secondary_index_type : IndexType
  max_records : Nat
deriving DecidableEq,Repr

namespace Description

def bytes (described : Description) : Bytes :=
  let secondary := described.secondary_index.getD []
  [UInt8.ofNat (utf8 described.name).length] ++ utf8 described.name ++ [UInt8.ofNat described.fields.length] ++
    [UInt8.ofNat described.primary_key.length] ++ [UInt8.ofNat secondary.length] ++
    [described.secondary_index_type.code] ++ toLE 4 described.max_records ++
    described.fields.flatMap FieldDef.snapshotBytes ++ (described.primary_key.flatMap fun pk_idx => [UInt8.ofNat pk_idx]) ++
    secondary.flatMap fun idx => [UInt8.ofNat idx]

def index : Reader Nat := do
  let idx ← byte
  pure idx.toNat

def fromSnapshot : Reader Description := do
  let table_name_len ← byte
  let table_name ← take table_name_len.toNat
  let field_count ← byte
  let primary_key_count ← byte
  let secondary_index_count ← byte
  let secondary_index_type ← byte
  let max_records ← le 4
  let fields ← times FieldDef.fromSnapshot field_count.toNat
  let primary_key_indices ← times index primary_key_count.toNat
  let indices ← times index secondary_index_count.toNat
  pure
    { name := fromUtf8Lossy table_name
      fields := fields
      primary_key := primary_key_indices
      secondary_index := if secondary_index_count > 0 then some indices else none
      secondary_index_type := IndexType.ofCode secondary_index_type
      max_records := max_records }

-- The lengths that are written as one byte and the numbers written as four fit.
structure Fits (described : Description) : Prop where
  name : (utf8 described.name).length < 256
  fields : described.fields.length < 256
  columns : ∀ field ∈ described.fields, (utf8 field.name).length < 256 ∧ field.size < 2^32
  keys : described.primary_key.length < 256
  key : ∀ pk_idx ∈ described.primary_key, pk_idx < 256
  secondary : (described.secondary_index.getD []).length < 256
  records : described.max_records < 2^32

def restored (described : Description) : Description :=
  let secondary := described.secondary_index.getD []
  {described with
    fields:=described.fields.map FieldDef.restored
    secondary_index:=if secondary = [] then none else some (secondary.map (· % 256))}

-- What a description that was read can be.
structure Rebuilt (described : Description) : Prop where
  fields : described.fields.length < 256
  columns : ∀ field ∈ described.fields, field.size < 2^32 ∧ field.offset = 0
  keys : described.primary_key.length < 256
  key : ∀ pk_idx ∈ described.primary_key, pk_idx < 256
  records : described.max_records < 2^32

end Description

theorem toNat_ofNat_byte (small : value < 256) : (UInt8.ofNat value).toNat = value :=
  UInt8.toNat_ofNat'.trans (Nat.mod_eq_of_lt small)

theorem reads_name (short : (utf8 name).length < 256) :
    Reads (take (UInt8.ofNat (utf8 name).length).toNat) (utf8 name) (utf8 name) := by
  rw [toNat_ofNat_byte short]
  exact reads_take _

theorem reads_index (column : Nat) : Reads Description.index [UInt8.ofNat column] (column % 256) := by
  intro rest
  rw [Description.index,bind_apply,reads_byte]
  exact congrArg (fun value => some (value,rest)) UInt8.toNat_ofNat'

theorem FieldDef.flags_back (field : FieldDef) :
    decide (field.flags &&& 1 ≠ 0) = field.primary_key ∧ decide (field.flags &&& 2 ≠ 0) = field.not_null ∧
      decide (field.flags &&& 4 ≠ 0) = field.unique ∧ decide (field.flags &&& 8 ≠ 0) = field.auto_increment := by
  unfold FieldDef.flags
  cases field.primary_key <;> cases field.not_null <;> cases field.unique <;> cases field.auto_increment <;> decide

theorem FieldDef.reads_stringLengthBytes (field : FieldDef) :
    Reads FieldDef.stringLength field.stringLengthBytes (field.string_length.map (· % 2^32)) := by
  intro rest
  unfold FieldDef.stringLength FieldDef.stringLengthBytes
  cases field.string_length with
  | none => rfl
  | some length =>
    dsimp only
    rw [List.append_assoc,bind_of_reads (reads_byte 1),if_pos rfl,bind_of_reads (reads_le_mod 4 length)]
    rfl

theorem FieldDef.reads_snapshotBytes (field : FieldDef) (short : (utf8 field.name).length < 256)
    (small : field.size < 2^32) : Reads FieldDef.fromSnapshot field.snapshotBytes field.restored := by
  intro rest
  obtain ⟨primary_key,not_null,unique,auto_increment⟩ := field.flags_back
  unfold FieldDef.fromSnapshot FieldDef.snapshotBytes
  simp only [List.append_assoc]
  rw [bind_of_reads (reads_byte _),bind_of_reads (reads_name short),bind_of_reads (reads_byte _),
    bind_of_reads (reads_le small),bind_of_reads field.reads_stringLengthBytes,bind_of_reads (reads_byte _),
    bind_of_reads (reads_byte _),fromUtf8Lossy_utf8,DataType.ofCode_code,primary_key,not_null,unique,auto_increment]
  rfl

-- A description that fits comes back, without what the file does not have.
theorem Description.reads_bytes (described : Description) (fits : described.Fits) :
    Reads Description.fromSnapshot described.bytes described.restored := by
  intro rest
  have fields := reads_times FieldDef.snapshotBytes FieldDef.restored described.fields fun field member =>
    field.reads_snapshotBytes (fits.columns field member).1 (fits.columns field member).2
  have primary_key := reads_times (fun pk_idx => [UInt8.ofNat pk_idx]) (· % 256) described.primary_key fun pk_idx _ =>
    reads_index pk_idx
  have secondary := reads_times (fun idx => [UInt8.ofNat idx]) (· % 256) (described.secondary_index.getD []) fun idx _ =>
    reads_index idx
  have exact_key : described.primary_key.map (· % 256) = described.primary_key := by
    rw [List.map_congr_left fun pk_idx member => Nat.mod_eq_of_lt (fits.key pk_idx member),List.map_id']
  have presence : (if UInt8.ofNat (described.secondary_index.getD []).length > 0 then
      some ((described.secondary_index.getD []).map (· % 256)) else none) =
      if described.secondary_index.getD [] = [] then none
        else some ((described.secondary_index.getD []).map (· % 256)) := by
    have size := toNat_ofNat_byte fits.secondary
    generalize described.secondary_index.getD [] = columns at size
    cases columns with
    | nil => rfl
    | cons column rest =>
      rw [if_neg (List.cons_ne_nil _ _),if_pos]
      apply UInt8.lt_iff_toNat_lt.mpr
      rw [size]
      exact Nat.succ_pos _
  unfold Description.fromSnapshot Description.bytes
  simp only [List.append_assoc]
  rw [bind_of_reads (reads_byte _),bind_of_reads (reads_name fits.name),bind_of_reads (reads_byte _),
    bind_of_reads (reads_byte _),bind_of_reads (reads_byte _),bind_of_reads (reads_byte _),
    bind_of_reads (reads_le fits.records),toNat_ofNat_byte fits.fields,bind_of_reads fields,
    toNat_ofNat_byte fits.keys,bind_of_reads primary_key,toNat_ofNat_byte fits.secondary,bind_of_reads secondary,
    fromUtf8Lossy_utf8,IndexType.ofCode_code,exact_key,presence]
  rfl

theorem FieldDef.yields_stringLength : Yields FieldDef.stringLength 0 fun _ => True := by
  apply yields_bind yields_byte
  intro has_string_length _
  split
  · apply yields_bind (yields_le 4)
    intro length _
    exact yields_pure trivial rfl
  · exact yields_pure trivial rfl

theorem FieldDef.yields_fromSnapshot :
    Yields FieldDef.fromSnapshot 0 fun field => field.size < 2^32 ∧ field.offset = 0 := by
  apply yields_bind yields_byte
  intro field_name_len _
  apply yields_bind (yields_take _)
  intro field_name _
  apply yields_bind yields_byte
  intro data_type _
  apply yields_bind (yields_le 4)
  intro field_size small
  apply yields_bind FieldDef.yields_stringLength
  intro string_length _
  apply yields_bind yields_byte
  intro flags _
  apply yields_bind yields_byte
  intro has_default _
  exact yields_pure ⟨small,rfl⟩ (by omega)

theorem Description.yields_index : Yields Description.index 0 fun column => column < 256 := by
  apply yields_bind yields_byte
  intro idx _
  exact yields_pure idx.toNat_lt rfl

theorem Description.yields_fromSnapshot : Yields Description.fromSnapshot 9 Description.Rebuilt := by
  apply yields_bind yields_byte
  intro table_name_len _
  apply yields_bind ((yields_take _).weaken (fun _ _ => trivial) (Nat.zero_le _))
  intro table_name _
  apply yields_bind yields_byte
  intro field_count _
  apply yields_bind yields_byte
  intro primary_key_count _
  apply yields_bind yields_byte
  intro secondary_index_count _
  apply yields_bind yields_byte
  intro secondary_index_type _
  apply yields_bind (yields_le 4)
  intro max_records small
  apply yields_bind (yields_times FieldDef.yields_fromSnapshot _)
  rintro fields ⟨field_total,columns⟩
  apply yields_bind (yields_times yields_index _)
  rintro primary_key_indices ⟨key_total,keys⟩
  apply yields_bind (yields_times yields_index _)
  intro indices _
  refine yields_pure ⟨?_,columns,?_,keys,small⟩ rfl
  · rw [field_total]
    exact field_count.toNat_lt
  · rw [key_total]
    exact primary_key_count.toNat_lt

end RemDb
