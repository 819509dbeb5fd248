import RemDb.Index.Chains

namespace RemDb
open RemDb.Lib

-- What a pointer to text outside the record gives: address and length.
abbrev TextHeap := Nat → Nat → Bytes

-- The text up to its first zero byte.
def textPrefix (bytes : Bytes) : Bytes := bytes.takeWhile (· ≠ 0)

-- The tag of a `TextStorage` is its first byte, its data start at the eighth:
-- 256 bytes of text, or a pointer and a length.
def textKey (heap : TextHeap) (storage : Bytes) : Bytes :=
  match storage.head? with
  | some 0 =>
    let text := (textPrefix (readAt storage 8 256)).take 255
    UInt8.ofNat text.length :: text
  | some 1 =>
    let address := ofLE (readAt storage 8 8)
    let length := min (ofLE (readAt storage 16 4)) 255
    if address = 0 then [0] else UInt8.ofNat length :: heap address length
  | _ => [0]

namespace FieldDef

-- The part of a composite key that one field gives. Types that cannot be part
-- of a key give nothing.
def keyBytes (heap : TextHeap) (field : FieldDef) (record : Bytes) : Bytes :=
  match field.data_type with
  | .uint8 | .int8 | .bool => field.read record 1
  | .uint16 | .int16 => field.read record 2
  | .uint32 | .int32 | .float32 => field.read record 4
  | .uint64 | .int64 | .float64 | .timestamp => field.read record 8
  | .varChar | .char =>
    let text := textPrefix (field.read record field.size)
    UInt8.ofNat text.length :: text
  | .text => textKey heap (field.read record 264)
  | .timestampTZ | .interval | .vector | .json => []

end FieldDef

def encodeCompositeKey (heap : TextHeap) (record : Bytes) (primary_key_fields : List FieldDef) : Bytes :=
  primary_key_fields.flatMap fun field => field.keyBytes heap record

namespace TableDef

-- A column number beyond the columns panics.
def primaryKeyFields (tdef : TableDef) : Option (List FieldDef) := tdef.primary_key.mapM (tdef.fields[·]?)

def compositeKey (tdef : TableDef) (heap : TextHeap) (record : Bytes) : Option Bytes :=
  tdef.primaryKeyFields.map (encodeCompositeKey heap record)

end TableDef

namespace PrimaryIndex

def insertComposite (index : PrimaryIndex) (heap : TextHeap) (record : Bytes) (record_id : UInt16) :
    Option (Except RemDbError Unit × PrimaryIndex) :=
  (index.tdef.compositeKey heap record).map fun key => index.insert key record_id

def findComposite (index : PrimaryIndex) (heap : TextHeap) (record : Bytes) :
    Option (Except RemDbError UInt16 × PrimaryIndex) :=
  (index.tdef.compositeKey heap record).bind index.find

def deleteComposite (index : PrimaryIndex) (heap : TextHeap) (record : Bytes) :
    Option (Except RemDbError Unit × PrimaryIndex) :=
  (index.tdef.compositeKey heap record).bind index.delete

theorem insert_tdef (index : PrimaryIndex) (key : Bytes) (record_id : UInt16) :
    (index.insert key record_id).2.tdef = index.tdef := by
  unfold insert
  split
  · rfl
  · cases index.free_items with
    | none => rfl
    | some item => rfl

theorem findComposite_inserted {index : PrimaryIndex} (positive : 0 < index.hash_table_size)
    (represents : Represents index entries) (room : entries.length < index.max_items)
    (encoded : index.tdef.compositeKey heap record = some key)
    (short : key.length ≤ PrimaryIndexItem.KEY_DATA) (record_id : UInt16) :
    ∃ inserted found, index.insertComposite heap record record_id = some (.ok (),inserted) ∧
      inserted.findComposite heap record = some (.ok record_id,found) := by
  have stored := insert_represents positive represents short record_id
  rw [if_neg (by omega)] at stored
  obtain ⟨inserted,outcome,represents',size,_⟩ := stored
  have same : inserted.tdef = index.tdef := by
    have kept := insert_tdef index key record_id
    rw [outcome] at kept
    exact kept
  obtain ⟨found,answer,_⟩ := find_represents (size ▸ positive) represents' short
  rw [Multimap.lookup_head rfl] at answer
  refine ⟨inserted,found,?_,?_⟩
  · rw [insertComposite,encoded,Option.map_some,outcome]
  · rw [findComposite,same,encoded,Option.bind_some,answer]

end PrimaryIndex
end RemDb
