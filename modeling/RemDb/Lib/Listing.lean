import Mathlib.Data.List.Perm.Subperm

-- Collections whose order is open: one member for each that is the same.
namespace RemDb.Lib
variable {α : Type} {same : α → α → Bool} {source kept : List α}

structure Deduplicated (same : α → α → Bool) (source kept : List α) : Prop where
  among : kept.Subperm source
  apart : kept.Pairwise fun left right => same left right = false
  covered : ∀ member ∈ source, member ∈ kept ∨ ∃ first ∈ kept, same first member = true

theorem deduplicated_of_apart (apart : source.Pairwise fun left right => same left right = false) :
    Deduplicated same source source := ⟨List.Subperm.refl source,apart,fun _ inside => .inl inside⟩

end RemDb.Lib
