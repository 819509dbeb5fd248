import RemDb.Json.Path

namespace RemDb
open Lib

namespace Json

-- The value at a place of an array that is filled up with nulls as far as needed.
def setItem (arr : List JsonValue) (idx : Nat) (value : JsonValue) : List JsonValue :=
  if idx < arr.length then arr.set idx value else arr ++ List.replicate (idx-arr.length) .null ++ [value]

end Json

namespace Json
open CompiledPath

theorem formedEntries_iff {entries : List (String × JsonValue)} : FormedEntries entries ↔ ∀ entry ∈ entries, Formed entry.2 := by
  induction entries with
  | nil => exact iff_of_true trivial (List.forall_mem_nil _)
  | cons entry rest ih => rw [List.forall_mem_cons,← ih,FormedEntries]

variable {key : String} {keys : List String} {value root result : JsonValue} {entries : List (String × JsonValue)}

theorem formed_insert (formed : Formed (.object entries)) (inner : Formed value) : Formed (.object (insertEntry key value entries)) := by
  obtain ⟨ascending,members⟩ := formed
  rw [insertEntry_eq]
  refine ⟨OrderedEntries.insert_ascending ascending,formedEntries_iff.mpr fun entry among => ?_⟩
  rcases OrderedEntries.mem_insert among with rfl | old
  · exact inner
  · exact formedEntries_iff.mp members entry old

def Part.Formed : Part → Prop
  | .value read => Json.Formed read
  | .items _ read => FormedItems read
  | .members _ before after => Json.Formed (.object before) → Json.Formed (.object after)

theorem Text.formed {mode : Mode} {text : List Char} {part : Part} (written : Text mode text part) : part.Formed := by
  induction written with
  | null => trivial
  | boolean value => trivial
  | @number parts valid => exact ⟨parts,valid,String.toList_ofList⟩
  | string _ => trivial
  | array _ ih => exact ih
  | object _ ih => exact ih ⟨List.Pairwise.nil,trivial⟩
  | noItem _ _ => trivial
  | lastItem _ _ _ ih => exact ⟨ih,trivial⟩
  | moreItems _ _ _ _ ih later => exact ⟨ih,later⟩
  | noMember _ _ => exact id
  | lastMember _ _ _ _ _ _ _ ih => exact fun before => formed_insert before ih
  | moreMembers _ _ _ _ _ _ _ _ ih later => exact fun before => later (formed_insert before ih)

-- No array stands on the way to where the keys lead.
def NoArray (keys : List String) (root : JsonValue) : Prop :=
  ∀ front back items, keys = front ++ back → back ≠ [] → nodeAt (front.map .key) root ≠ some (.array items)

theorem noArray_empty (keys : List String) : NoArray keys (.object []) := by
  intro front back items _ _ there
  cases front with
  | nil => cases there
  | cons key front => cases there

theorem NoArray.member (way : NoArray (key :: keys) (.object entries)) :
    NoArray keys ((OrderedEntries.get key entries).getD (.object [])) := by
  cases found : OrderedEntries.get key entries with
  | none => exact noArray_empty keys
  | some inner =>
    intro front back items split more there
    refine way (key :: front) back items (by rw [split,List.cons_append]) more ?_
    rw [List.map_cons,nodeAt,found]
    exact there

end Json

section Laws
open CompiledPath JsonDocument
variable {heap : JsonHeap} {doc : JsonDocument} {path value : String} {keys : List String}

end Laws

section Mismatch
open CompiledPath JsonDocument

end Mismatch
end RemDb
