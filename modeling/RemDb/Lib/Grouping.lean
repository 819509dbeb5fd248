import Mathlib.Data.List.Perm.Basic
import Mathlib.Data.List.Dedup
import Mathlib.Data.List.Pairwise

namespace RemDb.Lib

section Grouping
variable {κ β : Type} [DecidableEq κ]

def itemsAt (key : β → κ) (items : List β) (wanted : κ) : List β := items.filter fun item => decide (key item = wanted)

theorem mem_itemsAt {key : β → κ} {items : List β} {wanted : κ} {item : β} :
    item ∈ itemsAt key items wanted ↔ item ∈ items ∧ key item = wanted := by
  rw [itemsAt,List.mem_filter,decide_eq_true_iff]

-- Groups are exact when they hold all items, and two items are in one
-- group exactly when they are the same.
structure Grouped (same : β → β → Prop) (items : List β) (groups : List (List β)) : Prop where
  complete : groups.flatten.Perm items
  filled : ∀ group ∈ groups, group ≠ []
  together : ∀ group ∈ groups, ∀ one ∈ group, ∀ other ∈ group, same one other
  apart : groups.Pairwise fun first second => ∀ one ∈ first, ∀ other ∈ second, ¬ same one other

theorem itemsAt_perm (key : β → κ) {keys : List κ} (distinct : keys.Nodup) (items : List β)
    (covered : ∀ item ∈ items, key item ∈ keys) : ((keys.map (itemsAt key items)).flatten).Perm items := by
  induction keys generalizing items with
  | nil =>
    cases items with
    | nil => exact List.Perm.refl _
    | cons first _ => exact absurd (covered first List.mem_cons_self) List.not_mem_nil
  | cons wanted keys ih =>
    obtain ⟨fresh,distinct⟩ := List.nodup_cons.mp distinct
    -- The other groups are those of the items that are not of this key.
    have others : keys.map (itemsAt key items) =
        keys.map (itemsAt key (items.filter fun item => !decide (key item = wanted))) := by
      refine List.map_congr_left fun each member => ?_
      unfold itemsAt
      rw [List.filter_filter]
      refine List.filter_congr fun item _ => ?_
      by_cases at_each : key item = each
      · have other : key item ≠ wanted := fun same => fresh (same ▸ at_each ▸ member)
        rw [decide_eq_true at_each,decide_eq_false other]
        rfl
      · rw [decide_eq_false at_each]
        rfl
    have rest := ih distinct (items.filter fun item => !decide (key item = wanted)) fun item member => by
      obtain ⟨inside,other⟩ := List.mem_filter.mp member
      have apart : key item ≠ wanted := by simpa using other
      exact (List.mem_cons.mp (covered item inside)).resolve_left apart
    rw [List.map_cons,List.flatten_cons,others]
    exact (rest.append_left _).trans (List.filter_append_perm (fun item => decide (key item = wanted)) items)

-- Grouping by a key is exact if and only if the key tells the items apart
-- as far as they differ.
theorem grouped_iff (key : β → κ) (same : β → β → Prop) (symmetric : ∀ one other, same one other → same other one)
    {keys : List κ} (distinct : keys.Nodup) (items : List β) (occurs : ∀ wanted, wanted ∈ keys ↔ ∃ item ∈ items, key item = wanted) :
    Grouped same items (keys.map (itemsAt key items)) ↔
      ∀ one ∈ items, ∀ other ∈ items, (key one = key other ↔ same one other) := by
  have inKeys (item : β) (inside : item ∈ items) : key item ∈ keys := (occurs _).mpr ⟨item,inside,rfl⟩
  constructor
  · intro grouped one first other second
    constructor
    · intro equal
      exact grouped.together _ (List.mem_map_of_mem (inKeys one first)) one (mem_itemsAt.mpr ⟨first,rfl⟩) other
        (mem_itemsAt.mpr ⟨second,equal.symm⟩)
    · intro alike
      by_contra differs
      have apart := List.pairwise_map.mp grouped.apart
      have turned : Std.Symm fun first second : κ =>
          ∀ one ∈ itemsAt key items first, ∀ other ∈ itemsAt key items second, ¬ same one other :=
        ⟨fun _ _ bad one first other second alike => bad other second one first (symmetric _ _ alike)⟩
      exact apart.forall (inKeys one first) (inKeys other second) differs one (mem_itemsAt.mpr ⟨first,rfl⟩) other
        (mem_itemsAt.mpr ⟨second,rfl⟩) alike
  · intro telling
    refine ⟨itemsAt_perm key distinct items inKeys,?_,?_,?_⟩
    · intro group member
      obtain ⟨wanted,inside,rfl⟩ := List.mem_map.mp member
      obtain ⟨item,among,at_wanted⟩ := (occurs wanted).mp inside
      exact List.ne_nil_of_mem (mem_itemsAt.mpr ⟨among,at_wanted⟩)
    · intro group member one first other second
      obtain ⟨wanted,_,rfl⟩ := List.mem_map.mp member
      obtain ⟨inFirst,at_first⟩ := mem_itemsAt.mp first
      obtain ⟨inSecond,at_second⟩ := mem_itemsAt.mp second
      exact (telling one inFirst other inSecond).mp (at_first.trans at_second.symm)
    · refine List.pairwise_map.mpr (distinct.imp ?_)
      intro first second differ one inOne other inOther alike
      obtain ⟨inFirst,at_first⟩ := mem_itemsAt.mp inOne
      obtain ⟨inSecond,at_second⟩ := mem_itemsAt.mp inOther
      exact differ (at_first.symm.trans (((telling one inFirst other inSecond).mpr alike).trans at_second))

end Grouping

end RemDb.Lib
