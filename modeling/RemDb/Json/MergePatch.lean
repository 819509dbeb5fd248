import RemDb.Json.Document
import RemDb.Lib.OrderedEntries

namespace RemDb
open Lib

namespace Json

theorem insertEntry_eq (key : String) (value : JsonValue) (entries : List (String × JsonValue)) :
    insertEntry key value entries = OrderedEntries.insert key value entries := by
  induction entries with
  | nil => rfl
  | cons entry rest ih =>
    rw [insertEntry,OrderedEntries.insert,ih]

-- Maps hold their keys in order, at every depth.
mutual
def Ordered : JsonValue → Prop
  | .object entries => OrderedEntries.Ascending entries ∧ OrderedMembers entries
  | .array items => OrderedItems items
  | _ => True
def OrderedItems : List JsonValue → Prop
  | [] => True
  | item :: rest => Ordered item ∧ OrderedItems rest
def OrderedMembers : List (String × JsonValue) → Prop
  | [] => True
  | (_,value) :: rest => Ordered value ∧ OrderedMembers rest
end

def isNull : JsonValue → Bool
  | .null => true
  | _ => false

-- `merge_json_patch`. What is there no longer or was never an object is
-- replaced by the patch as it stands.
mutual
def mergeJsonPatch : JsonValue → JsonValue → JsonValue
  | .object target_obj, .object patch_obj => .object (mergeEntries target_obj patch_obj)
  | _, patch => patch
def mergeEntries : List (String × JsonValue) → List (String × JsonValue) → List (String × JsonValue)
  | target_obj, [] => target_obj
  | target_obj, (key,patch_val) :: rest =>
    mergeEntries
      (if isNull patch_val then OrderedEntries.remove key target_obj
      else
        match OrderedEntries.get key target_obj with
        | some target_val => insertEntry key (mergeJsonPatch target_val patch_val) target_obj
        | none => insertEntry key patch_val target_obj)
      rest
end

-- `MergePatch` of RFC 7396, whose target may be undefined.
def members : Option JsonValue → List (String × JsonValue)
  | some (.object entries) => entries
  | _ => []

mutual
def mergePatch (target : Option JsonValue) : JsonValue → JsonValue
  | .object patch => .object (patchMembers (members target) patch)
  | patch => patch
def patchMembers : List (String × JsonValue) → List (String × JsonValue) → List (String × JsonValue)
  | target, [] => target
  | target, (name,value) :: rest =>
    patchMembers
      (if isNull value then OrderedEntries.remove name target else insertEntry name (mergePatch (OrderedEntries.get name target) value) target)
      rest
end

-- No object of a value has a null member.
mutual
def Clean : JsonValue → Prop
  | .object entries => CleanEntries entries
  | _ => True
def CleanEntries : List (String × JsonValue) → Prop
  | [] => True
  | (_,value) :: rest => isNull value = false ∧ Clean value ∧ CleanEntries rest
end

-- No part of the patch that is copied as it stands has a null member.
mutual
def CopiesClean : JsonValue → JsonValue → Prop
  | .object target_obj, .object patch_obj => EntriesCopyClean target_obj patch_obj
  | _, patch => Clean patch
def EntriesCopyClean : List (String × JsonValue) → List (String × JsonValue) → Prop
  | _, [] => True
  | target_obj, (key,patch_val) :: rest =>
    (isNull patch_val = false →
      match OrderedEntries.get key target_obj with
      | some target_val => CopiesClean target_val patch_val
      | none => Clean patch_val) ∧
    EntriesCopyClean target_obj rest
end

def memberAt : List String → JsonValue → Option JsonValue
  | [], value => some value
  | key :: keys, .object entries => (OrderedEntries.get key entries).bind (memberAt keys)
  | _, _ => none

section Members
variable {key : String} {value : JsonValue} {entries : List (String × JsonValue)}

theorem ordered_member (ordered : OrderedMembers entries) (found : OrderedEntries.get key entries = some value) :
    Ordered value := by
  induction entries with
  | nil => cases found
  | cons entry rest ih =>
    rw [OrderedEntries.get] at found
    split at found
    · cases found
      exact ordered.1
    · exact ih ordered.2 found

theorem sizeOf_member (found : OrderedEntries.get key entries = some value) : sizeOf value < sizeOf (JsonValue.object entries) := by
  have among := List.sizeOf_lt_of_mem (OrderedEntries.mem_of_get found)
  simp only [Prod.mk.sizeOf_spec,JsonValue.object.sizeOf_spec] at among ⊢
  omega

@[elab_as_elim]
theorem memberInduction {motive : JsonValue → Prop} (plain : ∀ value, (∀ entries, value ≠ .object entries) → motive value)
    (object : ∀ entries, (∀ key value, OrderedEntries.get key entries = some value → motive value) → motive (.object entries)) :
    ∀ value, motive value
  | .object entries => object entries fun _ value _ => memberInduction plain object value
  | .string _ => plain _ fun _ => JsonValue.noConfusion
  | .number _ => plain _ fun _ => JsonValue.noConfusion
  | .boolean _ => plain _ fun _ => JsonValue.noConfusion
  | .null => plain _ fun _ => JsonValue.noConfusion
  | .array _ => plain _ fun _ => JsonValue.noConfusion
termination_by value => sizeOf value
decreasing_by exact sizeOf_member ‹_›

theorem cleanEntries_iff (ascending : OrderedEntries.Ascending entries) : CleanEntries entries ↔
    ∀ key value, OrderedEntries.get key entries = some value → isNull value = false ∧ Clean value := by
  rw [OrderedEntries.forall_get_iff (P := fun _ value => isNull value = false ∧ Clean value) ascending]
  clear ascending
  induction entries with
  | nil => exact iff_of_true trivial (List.forall_mem_nil _)
  | cons entry rest ih =>
    rw [List.forall_mem_cons,← ih,CleanEntries,and_assoc]

def MemberCopiesClean (old : Option JsonValue) (new : JsonValue) : Prop :=
  isNull new = false →
    match old with
    | some target_val => CopiesClean target_val new
    | none => Clean new

theorem entriesCopyClean_iff {target : List (String × JsonValue)} (ascending : OrderedEntries.Ascending entries) :
    EntriesCopyClean target entries ↔
      ∀ key value, OrderedEntries.get key entries = some value → MemberCopiesClean (OrderedEntries.get key target) value := by
  rw [OrderedEntries.forall_get_iff
    (P := fun key value => MemberCopiesClean (OrderedEntries.get key target) value) ascending]
  clear ascending
  induction entries with
  | nil => exact iff_of_true trivial (List.forall_mem_nil _)
  | cons entry rest ih =>
    rw [List.forall_mem_cons,← ih,EntriesCopyClean]
    exact Iff.rfl

end Members

section Merging
variable {target patch value : JsonValue} {target_obj patch_obj : List (String × JsonValue)}

def mergeChange : Option JsonValue → JsonValue → JsonValue
  | some target_val, patch_val => mergeJsonPatch target_val patch_val
  | none, patch_val => patch_val

theorem mergeEntries_eq : mergeEntries target_obj patch_obj = OrderedEntries.update isNull mergeChange target_obj patch_obj := by
  induction patch_obj generalizing target_obj with
  | nil => rfl
  | cons entry rest ih =>
    rw [mergeEntries,ih,OrderedEntries.update,OrderedEntries.update,List.foldl_cons,OrderedEntries.updateOne]
    cases found : OrderedEntries.get entry.1 target_obj with
    | none => simp only [insertEntry_eq,mergeChange]
    | some old => simp only [insertEntry_eq,mergeChange]

theorem patchMembers_eq : patchMembers target_obj patch_obj = OrderedEntries.update isNull mergePatch target_obj patch_obj := by
  induction patch_obj generalizing target_obj with
  | nil => rfl
  | cons entry rest ih =>
    rw [patchMembers,ih,OrderedEntries.update,OrderedEntries.update,List.foldl_cons,OrderedEntries.updateOne,
      insertEntry_eq]

theorem mergeJsonPatch_plain (plain : ∀ entries, patch ≠ .object entries) : mergeJsonPatch target patch = patch := by
  cases patch with
  | object entries => exact absurd rfl (plain entries)
  | _ => cases target <;> rfl

theorem mergePatch_plain (plain : ∀ entries, patch ≠ .object entries) (old : Option JsonValue) : mergePatch old patch = patch := by
  cases patch with
  | object entries => exact absurd rfl (plain entries)
  | _ => rfl

theorem clean_plain (plain : ∀ entries, value ≠ .object entries) : Clean value := by
  cases value with
  | object entries => exact absurd rfl (plain entries)
  | _ => trivial

theorem copiesClean_plain (plain : ∀ entries, patch ≠ .object entries) : CopiesClean target patch := by
  cases patch with
  | object entries => exact absurd rfl (plain entries)
  | _ => cases target <;> trivial

theorem mergePatch_absent_iff (value : JsonValue) (ordered : Ordered value) : mergePatch none value = value ↔ Clean value := by
  induction value using memberInduction with
  | plain value plain => exact ⟨fun _ => clean_plain plain,fun _ => mergePatch_plain plain none⟩
  | object entries ih =>
    have copied : mergePatch none (.object entries) = .object (OrderedEntries.update isNull mergePatch [] entries) :=
      congrArg JsonValue.object patchMembers_eq
    rw [copied,Clean,cleanEntries_iff ordered.1]
    constructor
    · intro same key value found
      have looked := OrderedEntries.get_update isNull mergePatch [] ordered.1 key
      rw [JsonValue.object.inj same,found] at looked
      simp only [OrderedEntries.updated,OrderedEntries.get] at looked
      cases null : isNull value with
      | true =>
        rw [null] at looked
        cases looked
      | false =>
        rw [null] at looked
        exact ⟨rfl,(ih key value found (ordered_member ordered.2 found)).mp (Option.some.inj looked).symm⟩
    · intro clean
      congr 1
      refine OrderedEntries.ext (OrderedEntries.update_ascending List.Pairwise.nil) ordered.1 fun key => ?_
      rw [OrderedEntries.get_update _ _ _ ordered.1]
      cases found : OrderedEntries.get key entries with
      | none => rfl
      | some value =>
        obtain ⟨filled,inner⟩ := clean key value found
        simp only [OrderedEntries.updated,OrderedEntries.get,filled,Bool.false_eq_true,if_false]
        rw [(ih key value found (ordered_member ordered.2 found)).mpr inner]

theorem mergeJsonPatch_same (value : JsonValue) (ordered : Ordered value) (clean : Clean value) : mergeJsonPatch value value = value := by
  induction value using memberInduction with
  | plain value plain => exact mergeJsonPatch_plain plain
  | object entries ih =>
    rw [Clean,cleanEntries_iff ordered.1] at clean
    rw [mergeJsonPatch,mergeEntries_eq]
    congr 1
    refine OrderedEntries.ext (OrderedEntries.update_ascending ordered.1) ordered.1 fun key => ?_
    rw [OrderedEntries.get_update _ _ _ ordered.1]
    cases found : OrderedEntries.get key entries with
    | none => rfl
    | some value =>
      obtain ⟨filled,inner⟩ := clean key value found
      dsimp only [OrderedEntries.updated,mergeChange]
      rw [if_neg (by rw [filled]; exact Bool.false_ne_true),ih key value found (ordered_member ordered.2 found) inner]

theorem object_or_plain (value : JsonValue) : (∃ entries, value = .object entries) ∨ ∀ entries, value ≠ .object entries := by
  cases value with
  | object entries => exact .inl ⟨entries,rfl⟩
  | _ => exact .inr fun _ => JsonValue.noConfusion

-- Where the target is no object, the patch replaces it.
theorem mergeJsonPatch_replaced (plain : ∀ entries, target ≠ .object entries) : mergeJsonPatch target patch = patch := by
  cases target with
  | object entries => exact absurd rfl (plain entries)
  | _ => cases patch <;> rfl

theorem mergePatch_replaced (plain : ∀ entries, target ≠ .object entries) : mergePatch (some target) patch = mergePatch none patch := by
  cases target with
  | object entries => exact absurd rfl (plain entries)
  | _ => cases patch <;> rfl

theorem copiesClean_replaced (plain : ∀ entries, target ≠ .object entries) : CopiesClean target patch ↔ Clean patch := by
  cases target with
  | object entries => exact absurd rfl (plain entries)
  | _ => cases patch <;> exact Iff.rfl

theorem merge_agrees_iff (patch : JsonValue) (ordered : Ordered patch) : ∀ {target : JsonValue}, Ordered target →
    (mergeJsonPatch target patch = mergePatch (some target) patch ↔ CopiesClean target patch) := by
  induction patch using memberInduction with
  | plain patch plain =>
    intro target _
    rw [mergeJsonPatch_plain plain,mergePatch_plain plain]
    exact ⟨fun _ => copiesClean_plain plain,fun _ => rfl⟩
  | object patch_obj ih =>
    intro target ordered_target
    rcases object_or_plain target with ⟨target_obj,rfl⟩ | plain
    · rw [mergeJsonPatch,mergePatch,members,JsonValue.object.injEq,mergeEntries_eq,patchMembers_eq,
        OrderedEntries.update_eq_iff ordered_target.1 ordered.1,CopiesClean,entriesCopyClean_iff ordered.1]
      refine forall_congr' fun key => forall_congr' fun new => forall_congr' fun found => imp_congr_right fun _ => ?_
      cases old : OrderedEntries.get key target_obj with
      | none => exact eq_comm.trans (mergePatch_absent_iff new (ordered_member ordered.2 found))
      | some target_val =>
        exact ih key new found (ordered_member ordered.2 found) (ordered_member ordered_target.2 old)
    · rw [mergeJsonPatch_replaced plain,mergePatch_replaced plain,copiesClean_replaced plain]
      exact eq_comm.trans (mergePatch_absent_iff _ ordered)

theorem merge_again (patch : JsonValue) (ordered : Ordered patch) : ∀ {target : JsonValue}, Ordered target →
    CopiesClean target patch → mergeJsonPatch (mergeJsonPatch target patch) patch = mergeJsonPatch target patch := by
  induction patch using memberInduction with
  | plain patch plain =>
    intro target _ _
    rw [mergeJsonPatch_plain plain,mergeJsonPatch_plain plain]
  | object patch_obj ih =>
    intro target ordered_target clean
    rcases object_or_plain target with ⟨target_obj,rfl⟩ | plain
    · rw [CopiesClean,entriesCopyClean_iff ordered.1] at clean
      rw [mergeJsonPatch,mergeJsonPatch,mergeEntries_eq,mergeEntries_eq]
      congr 1
      refine OrderedEntries.update_again ordered_target.1 ordered.1 fun key new found kept => ?_
      have ordered_new := ordered_member ordered.2 found
      have copied := clean key new found kept
      cases old : OrderedEntries.get key target_obj with
      | none =>
        rw [old] at copied
        exact mergeJsonPatch_same new ordered_new copied
      | some target_val =>
        rw [old] at copied
        exact ih key new found ordered_new (ordered_member ordered_target.2 old) copied
    · rw [copiesClean_replaced plain] at clean
      rw [mergeJsonPatch_replaced plain]
      exact mergeJsonPatch_same _ ordered clean

-- A null of the patch stands nowhere in what RFC 7396 makes of it.
theorem null_absent (patch : JsonValue) (ordered : Ordered patch) : ∀ (old : Option JsonValue) (key : String) (keys : List String),
    memberAt (key :: keys) patch = some .null → memberAt (key :: keys) (mergePatch old patch) = none := by
  induction patch using memberInduction with
  | plain patch plain =>
    intro old key keys there
    cases patch with
    | object entries => exact absurd rfl (plain entries)
    | _ => cases there
  | object patch_obj ih =>
    intro old key keys there
    rw [memberAt] at there
    rw [mergePatch,memberAt,patchMembers_eq,OrderedEntries.get_update _ _ _ ordered.1]
    cases found : OrderedEntries.get key patch_obj with
    | none =>
      rw [found] at there
      cases there
    | some new =>
      rw [found,Option.bind_some] at there
      dsimp only [OrderedEntries.updated]
      cases null : isNull new with
      | true => rfl
      | false =>
        rw [if_neg Bool.false_ne_true,Option.bind_some]
        cases keys with
        | nil =>
          rw [Option.some.inj there] at null
          cases null
        | cons next more => exact ih key new found (ordered_member ordered.2 found) _ next more there

end Merging

-- The result of RFC 7396, which holds no null of the patch and which the same
-- patch leaves as it is.
structure MergesAsPatch (target patch : JsonValue) : Prop where
  result : mergeJsonPatch target patch = mergePatch (some target) patch
  nulls : ∀ key keys, memberAt (key :: keys) patch = some .null → memberAt (key :: keys) (mergeJsonPatch target patch) = none
  again : mergeJsonPatch (mergeJsonPatch target patch) patch = mergeJsonPatch target patch

theorem merge_patch_exact_iff {target patch : JsonValue} (ordered_target : Ordered target) (ordered : Ordered patch) :
    MergesAsPatch target patch ↔ CopiesClean target patch := by
  constructor
  · intro merges
    exact (merge_agrees_iff patch ordered ordered_target).mp merges.result
  · intro clean
    have result := (merge_agrees_iff patch ordered ordered_target).mpr clean
    refine ⟨result,?_,merge_again patch ordered ordered_target clean⟩
    rw [result]
    exact null_absent patch ordered (some target)

def cleared : JsonValue := .object [("a",.null)]

theorem cleared_ordered : Ordered cleared := ⟨List.pairwise_singleton _ _,trivial,trivial⟩

theorem merge_patch_exact_cleared : Ordered cleared ∧ Ordered cleared ∧ (MergesAsPatch cleared cleared ↔ CopiesClean cleared cleared) :=
  ⟨cleared_ordered,cleared_ordered,merge_patch_exact_iff cleared_ordered cleared_ordered⟩

-- The patch {"a": null} of a number leaves {"a": null}, and of that {}.
theorem null_copied : ¬ MergesAsPatch (.number "1") cleared := by
  intro merges
  have result := merges.result
  cases JsonValue.object.inj result

end Json
end RemDb
