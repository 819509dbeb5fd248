import RemDb.Index.Composite

namespace RemDb
open RemDb.Lib

-- The types a key column is compared by, floats and external text apart.
def DataType.keyable : DataType → Bool
  | .float32 | .float64 | .text | .vector | .json => false
  | _ => true

theorem textPrefix_cons_inj {left right : Bytes}
    (same : UInt8.ofNat left.length :: left = UInt8.ofNat right.length :: right) : left = right :=
  (List.cons.inj same).2

namespace FieldDef

-- The text a column holds, as far as the key has it.
def shownText (field : FieldDef) (record : Bytes) : Bytes := textPrefix (field.read record field.size)

-- What the key has of a column is the same in both records.
def SameShown (field : FieldDef) (left right : Bytes) : Prop :=
  match field.data_type with
  | .timestampTZ | .interval => True
  | .varChar | .char => field.shownText left = field.shownText right
  | _ => field.sameValue left right = true

def textLength (field : FieldDef) (record : Bytes) : Nat :=
  match field.data_type with
  | .varChar | .char => (field.shownText record).length
  | _ => 0

-- The length byte does not tell the two texts apart, though their lengths differ.
def Wraps (field : FieldDef) (left right : Bytes) : Prop :=
  field.textLength left ≠ field.textLength right ∧ field.textLength left % 256 = field.textLength right % 256

variable {field : FieldDef} {left right : Bytes}

theorem sameValue_shown (keyable : field.data_type.keyable = true)
    (same : field.sameValue left right = true) : field.SameShown left right := by
  unfold SameShown
  cases type : field.data_type with
  | timestampTZ | interval => trivial
  | varChar | char =>
    have whole : field.read left field.size = field.read right field.size := by
      simpa [sameValue,type] using same
    exact congrArg textPrefix whole
  | float32 | float64 | text | vector | json =>
    rw [type] at keyable
    cases keyable
  | uint8 | uint16 | uint32 | uint64 | int8 | int16 | int32 | int64 | bool | timestamp => exact same

theorem keyBytes_eq_iff (heap : TextHeap) (keyable : field.data_type.keyable = true) :
    field.keyBytes heap left = field.keyBytes heap right ↔ field.SameShown left right := by
  unfold keyBytes SameShown sameValue
  cases type : field.data_type with
  | timestampTZ | interval => exact ⟨fun _ => trivial,fun _ => rfl⟩
  | varChar | char =>
    constructor
    · intro same
      exact textPrefix_cons_inj same
    · intro same
      exact congrArg (fun text : Bytes => UInt8.ofNat text.length :: text) same
  | float32 | float64 | text | vector | json =>
    rw [type] at keyable
    cases keyable
  | uint8 | uint16 | uint32 | uint64 | int8 | int16 | int32 | int64 | bool | timestamp =>
    exact decide_eq_true_iff.symm

theorem read_length (field : FieldDef) (same : left.length = right.length) (width : Nat) :
    (field.read left width).length = (field.read right width).length := by
  simp only [FieldDef.read,readAt_length,same]

theorem keyBytes_length (heap : TextHeap) (keyable : field.data_type.keyable = true)
    (size : left.length = right.length) :
    (field.keyBytes heap left).length+field.textLength right =
      (field.keyBytes heap right).length+field.textLength left := by
  have fixed := read_length field size
  unfold keyBytes textLength
  cases type : field.data_type with
  | timestampTZ | interval | vector | json => rfl
  | varChar | char =>
    simp only [List.length_cons,shownText]
    omega
  | float32 | float64 | text =>
    rw [type] at keyable
    cases keyable
  | uint8 | uint16 | uint32 | uint64 | int8 | int16 | int32 | int64 | bool | timestamp => exact fixed _

-- A part says where it ends, unless its length byte wraps.
theorem keyBytes_split (heap : TextHeap) (keyable : field.data_type.keyable = true)
    (size : left.length = right.length) (unwrapped : ¬ field.Wraps left right)
    (same : field.keyBytes heap left ++ one = field.keyBytes heap right ++ two) :
    field.keyBytes heap left = field.keyBytes heap right ∧ one = two := by
  have aligned : field.textLength left = field.textLength right := by
    by_contra differ
    apply unwrapped ⟨differ,?_⟩
    unfold textLength keyBytes at *
    cases type : field.data_type with
    | varChar | char =>
      simp only [type,List.cons_append,List.cons.injEq] at same
      have bytes := congrArg UInt8.toNat same.1
      simpa [shownText] using bytes
    | _ => rfl
  have lengths := keyBytes_length heap keyable size
  exact List.append_inj same (by omega)

end FieldDef

section Columns
variable {left right : Bytes}

def NoneWraps (fields : List FieldDef) (left right : Bytes) : Prop := ∀ field ∈ fields, ¬ field.Wraps left right

-- Records the key does not tell apart agree in what it leaves out as well.
def HiddenAgree (fields : List FieldDef) (left right : Bytes) : Prop :=
  (∀ field ∈ fields, field.SameShown left right) → ∀ field ∈ fields, field.sameValue left right = true

def totalText (fields : List FieldDef) (record : Bytes) : Nat := (fields.map (·.textLength record)).sum

theorem encodeCompositeKey_length (heap : TextHeap) (fields : List FieldDef)
    (keyable : ∀ field ∈ fields, field.data_type.keyable = true) (size : left.length = right.length) :
    (encodeCompositeKey heap left fields).length+totalText fields right =
      (encodeCompositeKey heap right fields).length+totalText fields left := by
  induction fields with
  | nil => rfl
  | cons field rest ih =>
    have part := FieldDef.keyBytes_length heap (keyable field List.mem_cons_self) size
    have others := ih fun each among => keyable each (List.mem_cons_of_mem _ among)
    simp only [encodeCompositeKey,totalText,List.flatMap_cons,List.length_append,List.map_cons,
      List.sum_cons] at others ⊢
    omega

theorem encodeCompositeKey_eq_iff (heap : TextHeap) (fields : List FieldDef)
    (keyable : ∀ field ∈ fields, field.data_type.keyable = true) (size : left.length = right.length)
    (unwrapped : NoneWraps fields left right) :
    encodeCompositeKey heap left fields = encodeCompositeKey heap right fields ↔
      ∀ field ∈ fields, field.SameShown left right := by
  induction fields with
  | nil => simp [encodeCompositeKey]
  | cons field rest ih =>
    have here := keyable field List.mem_cons_self
    have others := ih (fun each among => keyable each (List.mem_cons_of_mem _ among))
      (fun each among => unwrapped each (List.mem_cons_of_mem _ among))
    simp only [encodeCompositeKey,List.flatMap_cons,List.forall_mem_cons] at others ⊢
    constructor
    · intro same
      obtain ⟨part,tail⟩ := FieldDef.keyBytes_split heap here size (unwrapped field List.mem_cons_self) same
      exact ⟨(FieldDef.keyBytes_eq_iff heap here).mp part,others.mp tail⟩
    · intro ⟨part,tail⟩
      rw [(FieldDef.keyBytes_eq_iff heap here).mpr part,others.mpr tail]

end Columns

theorem TableDef.keyFields_eq {tdef : TableDef} {fields : List FieldDef} (columns : tdef.primaryKeyFields = some fields) :
    tdef.keyFields = fields := by
  unfold TableDef.primaryKeyFields at columns
  unfold TableDef.keyFields
  generalize tdef.primary_key = keys at columns
  induction keys generalizing fields with
  | nil =>
    obtain rfl := Option.some.inj columns
    rfl
  | cons key rest ih =>
    rw [List.mapM_cons] at columns
    obtain ⟨first,found,columns⟩ := Option.bind_eq_some_iff.mp columns
    obtain ⟨more,others,columns⟩ := Option.bind_eq_some_iff.mp columns
    obtain rfl := Option.some.inj columns
    rw [List.filterMap_cons,found,ih others]

-- Equal keys mean equal columns as long as the columns keep nothing from the key.
-- Where a length byte wraps this is not claimed, unless the lengths add up
-- differently.
theorem composite_key_faithful (heap : TextHeap) (tdef : TableDef) (fields : List FieldDef) (left right : Bytes)
    (columns : tdef.primaryKeyFields = some fields)
    (keyable : ∀ field ∈ fields, field.data_type.keyable = true)
    (leftSize : left.length = tdef.record_size) (rightSize : right.length = tdef.record_size) :
    (totalText fields left ≠ totalText fields right ∨
        NoneWraps fields left right ∧ HiddenAgree fields left right →
      (tdef.compositeKey heap left = tdef.compositeKey heap right ↔
        tdef.keyFields.all (·.sameValue left right) = true)) ∧
    (NoneWraps fields left right →
      (tdef.compositeKey heap left = tdef.compositeKey heap right ↔
        tdef.keyFields.all (·.sameValue left right) = true) → HiddenAgree fields left right) := by
  have size : left.length = right.length := leftSize.trans rightSize.symm
  have keys : tdef.compositeKey heap left = tdef.compositeKey heap right ↔
      encodeCompositeKey heap left fields = encodeCompositeKey heap right fields := by
    unfold TableDef.compositeKey
    rw [columns,Option.map_some,Option.map_some,Option.some.injEq]
  have equal_keys : (∀ field ∈ fields, field.sameValue left right = true) →
      encodeCompositeKey heap left fields = encodeCompositeKey heap right fields := by
    intro same
    unfold encodeCompositeKey
    refine List.flatMap_congr fun field among => ?_
    exact (FieldDef.keyBytes_eq_iff heap (keyable field among)).mpr
      (FieldDef.sameValue_shown (keyable field among) (same field among))
  rw [keys,TableDef.keyFields_eq columns,List.all_eq_true]
  constructor
  · rintro (totals | ⟨unwrapped,agree⟩)
    · constructor
      · intro same
        have lengths := encodeCompositeKey_length heap fields keyable size
        rw [same] at lengths
        exact absurd (by omega) totals
      · exact equal_keys
    · exact ⟨fun same => agree ((encodeCompositeKey_eq_iff heap fields keyable size unwrapped).mp same),equal_keys⟩
  · intro unwrapped faithful shown
    exact faithful.mp ((encodeCompositeKey_eq_iff heap fields keyable size unwrapped).mpr shown)

-- A u8 column and a CHAR column: the length byte keeps them apart.
def mixedKeyDef : TableDef :=
  ⟨1,"mixed",[⟨"a",.uint8,1,none,0,true,true,false,false,none⟩,⟨"b",.char,2,some 2,1,true,true,false,false,none⟩],
    [0,1],3,4⟩

theorem composite_key_faithful_mixed :
    mixedKeyDef.compositeKey (fun _ _ => []) [7,65,0] ≠ mixedKeyDef.compositeKey (fun _ _ => []) [7,65,66] := by
  intro same
  have equal := ((composite_key_faithful (fun _ _ => []) mixedKeyDef mixedKeyDef.fields [7,65,0] [7,65,66] rfl
    (by decide) rfl rfl).1 (Or.inl (by decide))).mp same
  revert equal
  decide

def intervalKeyDef : TableDef :=
  ⟨1,"spans",[⟨"a",.interval,8,none,0,true,true,false,false,none⟩],[0],8,4⟩

-- An interval gives the key nothing, so that all intervals have one key.
theorem interval_keys_collide : ¬ ∀ (heap : TextHeap) (tdef : TableDef) (fields : List FieldDef) (left right : Bytes),
    tdef.primaryKeyFields = some fields → (∀ field ∈ fields, field.data_type.keyable = true) →
      left.length = tdef.record_size → right.length = tdef.record_size →
        (tdef.compositeKey heap left = tdef.compositeKey heap right ↔
          tdef.keyFields.all (·.sameValue left right) = true) := by
  intro always
  have equal := (always (fun _ _ => []) intervalKeyDef intervalKeyDef.fields [1,0,0,0,0,0,0,0] [2,0,0,0,0,0,0,0]
    rfl (by decide) rfl rfl).mp rfl
  revert equal
  decide

end RemDb
