import Mathlib.Data.List.Induction
import Mathlib.Data.List.Perm.Basic
import RemDb.Lib.Listing

namespace RemDb.Lib

section Answering
variable {α β : Type}

-- What a query gives of the items that are wanted: in the order asked for, as many
-- as the limit lets in, and none that should have come after one left out.
def Answers (before : α → α → Prop) (limit : Option Nat) (wanted answered : List α) : Prop :=
  ∃ rest, wanted.Perm (answered ++ rest) ∧ answered.Pairwise (fun earlier later => ¬ before later earlier) ∧
    (∀ left ∈ rest, ∀ item ∈ answered, ¬ before left item) ∧ (∀ n, limit = some n → answered.length ≤ n) ∧
    (rest ≠ [] → limit = some answered.length)

theorem filter_split (value : β → α) (chosen : β → Bool) (wanted : α → Bool) (items : List β)
    (kept : ∀ item ∈ items, chosen item = true → wanted (value item) = true) :
    ((items.map value).filter wanted).Perm
      ((items.filter chosen).map value ++ (items.filter fun item => wanted (value item) && !chosen item).map value) := by
  induction items with
  | nil => exact .refl _
  | cons item rest ih =>
    have later := ih fun other among => kept other (List.mem_cons_of_mem _ among)
    cases is_chosen : chosen item with
    | true =>
      rw [List.map_cons,List.filter_cons_of_pos (kept item List.mem_cons_self is_chosen),List.filter_cons_of_pos is_chosen,
        List.filter_cons_of_neg (by simp [is_chosen]),List.map_cons,List.cons_append]
      exact later.cons _
    | false =>
      rw [List.filter_cons_of_neg (show ¬ chosen item = true by simp [is_chosen]),List.map_cons]
      cases is_wanted : wanted (value item) with
      | true =>
        rw [List.filter_cons_of_pos is_wanted,List.filter_cons_of_pos (by simp [is_chosen,is_wanted]),List.map_cons]
        exact (later.cons _).trans List.perm_middle.symm
      | false =>
        rw [List.filter_cons_of_neg (by simp [is_wanted]),List.filter_cons_of_neg (by simp [is_wanted])]
        exact later

theorem answers_iff (before : α → α → Prop) (limit : Option Nat) (value : β → α) (chosen : β → Bool) (wanted : α → Bool)
    (items : List β) :
    Answers before limit ((items.map value).filter wanted) ((items.filter chosen).map value) ↔
      (∀ item ∈ items, chosen item = true → wanted (value item) = true) ∧
      ((items.filter chosen).map value).Pairwise (fun earlier later => ¬ before later earlier) ∧
      (∀ n, limit = some n → (items.filter chosen).length ≤ n) ∧
      ((∀ item ∈ items, wanted (value item) = true → chosen item = true) ∨ limit = some (items.filter chosen).length ∧
        ∀ left ∈ items, wanted (value left) = true → chosen left = false →
          ∀ item ∈ items, chosen item = true → ¬ before (value left) (value item)) := by
  have length : ((items.filter chosen).map value).length = (items.filter chosen).length := List.length_map _
  constructor
  · rintro ⟨rest,perm,ordered,first,counted,used⟩
    have kept (item : β) (among : item ∈ items) (is_chosen : chosen item = true) : wanted (value item) = true := by
      have answered : value item ∈ (items.filter chosen).map value :=
        List.mem_map_of_mem (List.mem_filter.mpr ⟨among,is_chosen⟩)
      exact (List.mem_filter.mp (perm.mem_iff.mpr (List.mem_append_left rest answered))).2
    have others := (List.perm_append_left_iff _).mp (perm.symm.trans (filter_split value chosen wanted items kept))
    have left_out (item : β) (among : item ∈ items) (is_wanted : wanted (value item) = true) (out : chosen item = false) :
        value item ∈ rest :=
      others.mem_iff.mpr (List.mem_map_of_mem (List.mem_filter.mpr ⟨among,by simp [is_wanted,out]⟩))
    refine ⟨kept,ordered,fun n limited => length ▸ counted n limited,?_⟩
    by_cases none_left : rest = []
    · refine .inl fun item among is_wanted => ?_
      by_contra out
      have never := left_out item among is_wanted (Bool.eq_false_iff.mpr out)
      rw [none_left] at never
      exact absurd never List.not_mem_nil
    · refine .inr ⟨(used none_left).trans (by rw [length]),fun left among is_wanted out item chosen_among is_chosen => ?_⟩
      exact first _ (left_out left among is_wanted out) _ (List.mem_map_of_mem (List.mem_filter.mpr ⟨chosen_among,is_chosen⟩))
  · rintro ⟨kept,ordered,counted,complete⟩
    refine ⟨_,filter_split value chosen wanted items kept,ordered,fun left among item answered => ?_,
      fun n limited => length.symm ▸ counted n limited,fun some_left => ?_⟩
    · obtain ⟨source,inside,rfl⟩ := List.mem_map.mp among
      obtain ⟨other,picked,rfl⟩ := List.mem_map.mp answered
      obtain ⟨stored,is_left⟩ := List.mem_filter.mp inside
      obtain ⟨is_wanted,out⟩ := Bool.and_eq_true_iff.mp is_left
      obtain ⟨other_stored,is_chosen⟩ := List.mem_filter.mp picked
      rw [Bool.not_eq_true'] at out
      rcases complete with all | ⟨_,first⟩
      · exact absurd (all source stored is_wanted) (by simp [out])
      · exact first source stored is_wanted out other other_stored is_chosen
    · rw [length]
      refine (complete.resolve_left fun all => some_left ?_).1
      rw [List.map_eq_nil_iff,List.filter_eq_nil_iff]
      intro item among is_left
      obtain ⟨is_wanted,out⟩ := Bool.and_eq_true_iff.mp is_left
      rw [all item among is_wanted] at out
      cases out

end Answering

section Distinct
variable {α : Type}

-- A set that is filled from the front keeps the first of those that are the same.
def keepFirst (same : α → α → Bool) (rows : List α) : List α :=
  rows.foldl (fun kept row => if kept.any fun held => same held row then kept else kept ++ [row]) []

theorem keepFirst_concat (same : α → α → Bool) (rows : List α) (row : α) : keepFirst same (rows ++ [row]) =
    if (keepFirst same rows).any fun held => same held row then keepFirst same rows else keepFirst same rows ++ [row] := by
  rw [keepFirst,List.foldl_append,← keepFirst]
  rfl

theorem keepFirst_deduplicated (same : α → α → Bool) (rows : List α) : Deduplicated same rows (keepFirst same rows) := by
  induction rows using List.reverseRecOn with
  | nil => exact deduplicated_of_apart .nil
  | append_singleton before row ih =>
    rw [keepFirst_concat]
    split
    · rename_i found
      obtain ⟨held,among,is_same⟩ := List.any_eq_true.mp found
      refine ⟨ih.among.trans (List.sublist_append_left before [row]).subperm,ih.apart,fun member inside => ?_⟩
      rcases List.mem_append.mp inside with earlier | is_row
      · exact ih.covered member earlier
      · exact .inr ⟨held,among,List.mem_singleton.mp is_row ▸ is_same⟩
    · rename_i fresh
      refine ⟨(List.subperm_append_right [row]).mpr ih.among,List.pairwise_append.mpr ⟨ih.apart,List.pairwise_singleton _ _,?_⟩,
        fun member inside => ?_⟩
      · intro held among other is_row
        rw [List.mem_singleton.mp is_row]
        by_contra is_same
        exact fresh (List.any_eq_true.mpr ⟨held,among,Bool.not_eq_false _ ▸ is_same⟩)
      · rcases List.mem_append.mp inside with earlier | is_row
        · rcases ih.covered member earlier with kept | ⟨first,among,is_same⟩
          · exact .inl (List.mem_append_left _ kept)
          · exact .inr ⟨first,List.mem_append_left _ among,is_same⟩
        · exact .inl (List.mem_append_right _ is_row)

theorem keepFirst_congr {same other : α → α → Bool} (rows : List α)
    (agree : ∀ left ∈ rows, ∀ right ∈ rows, same left right = other left right) : keepFirst same rows = keepFirst other rows := by
  induction rows using List.reverseRecOn with
  | nil => rfl
  | append_singleton before row ih =>
    have equal := ih fun left among right inside => agree left (List.mem_append_left _ among) right (List.mem_append_left _ inside)
    have kept_among (held : α) (kept : held ∈ keepFirst other before) : held ∈ before :=
      (keepFirst_deduplicated other before).among.subset kept
    have tests : ((keepFirst other before).any fun held => same held row) = (keepFirst other before).any fun held => other held row := by
      rw [Bool.eq_iff_iff,List.any_eq_true,List.any_eq_true]
      refine exists_congr fun held => and_congr_right fun kept => ?_
      rw [agree held (List.mem_append_left _ (kept_among held kept)) row (List.mem_append_right _ List.mem_cons_self)]
    rw [keepFirst_concat,keepFirst_concat,equal,tests]

end Distinct
end RemDb.Lib
