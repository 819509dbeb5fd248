import RemDb.Lib.FreeList

namespace RemDb.Lib

-- Cells with pointers to others, where a cell is pointed at from one cell at
-- most, the root from none, and spare cells neither point nor are pointed at.
structure Parented (kids : Nat → List Nat) (root : Nat) (spare : List Nat) : Prop where
  unique : ∀ parent parent' cell, cell ∈ kids parent → cell ∈ kids parent' → parent = parent'
  top : ∀ parent, root ∉ kids parent
  outside : root ∉ spare
  idle : ∀ cell ∈ spare, kids cell = [] ∧ ∀ parent, cell ∉ kids parent
  distinct : spare.Nodup

namespace Parented

theorem tail (held : Parented kids root (fresh :: spare)) : Parented kids root spare :=
  ⟨held.unique,held.top,fun member => held.outside (List.mem_cons_of_mem _ member),
    fun cell member => held.idle cell (List.mem_cons_of_mem _ member),(List.nodup_cons.mp held.distinct).2⟩

theorem kid_busy (held : Parented kids root spare) (kid : cell ∈ kids parent) : cell ∉ spare :=
  fun member => (held.idle cell member).2 parent kid

theorem adopt (held : Parented kids root (fresh :: spare)) (busy : parent ∉ fresh :: spare)
    (taken : ∀ cell ∈ adopted, cell = fresh ∨ cell ∈ kids parent) :
    Parented (assign kids parent adopted) root spare := by
  have old : ∀ each cell, cell ∈ assign kids parent adopted each →
      (cell = fresh ∧ each = parent) ∨ cell ∈ kids each := by
    intro each cell member
    by_cases same : each = parent
    · subst each
      rw [assign_same] at member
      rcases taken cell member with rfl | kid
      · exact .inl ⟨rfl,rfl⟩
      · exact .inr kid
    · rw [assign_other _ same] at member
      exact .inr member
  have unclaimed := (held.idle fresh List.mem_cons_self).2
  refine ⟨?_,?_,held.tail.outside,?_,held.tail.distinct⟩
  · intro left right cell member member'
    rcases old left cell member with ⟨rfl,rfl⟩ | kid
    · rcases old right cell member' with ⟨_,rfl⟩ | kid'
      · rfl
      · exact absurd kid' (unclaimed right)
    · rcases old right cell member' with ⟨rfl,_⟩ | kid'
      · exact absurd kid (unclaimed left)
      · exact held.unique left right cell kid kid'
  · intro each member
    rcases old each root member with ⟨same,_⟩ | kid
    · exact held.outside (same ▸ List.mem_cons_self)
    · exact held.top each kid
  · intro cell member
    have there : cell ∈ fresh :: spare := List.mem_cons_of_mem _ member
    have apart : cell ≠ parent := fun same => busy (same ▸ there)
    refine ⟨(assign_other kids apart adopted).trans (held.idle cell there).1,?_⟩
    intro each claimed
    rcases old each cell claimed with ⟨same,_⟩ | kid
    · exact (List.nodup_cons.mp held.distinct).1 (same ▸ member)
    · exact (held.idle cell there).2 each kid

theorem crown (held : Parented kids root (above :: fresh :: spare)) (kid_list : List Nat)
    (exact : ∀ cell ∈ kid_list, cell = root ∨ cell = fresh) :
    Parented (assign kids above kid_list) above spare := by
  have first := held.idle above List.mem_cons_self
  have second := held.idle fresh (List.mem_cons_of_mem _ List.mem_cons_self)
  obtain ⟨new_above,rest⟩ := List.nodup_cons.mp held.distinct
  have old : ∀ each cell, cell ∈ assign kids above kid_list each →
      (each = above ∧ (cell = root ∨ cell = fresh)) ∨ cell ∈ kids each := by
    intro each cell member
    by_cases same : each = above
    · subst each
      rw [assign_same] at member
      exact .inl ⟨rfl,exact cell member⟩
    · rw [assign_other _ same] at member
      exact .inr member
  have no_kid : ∀ each cell, cell = root ∨ cell = fresh → cell ∉ kids each := by
    rintro each cell (rfl | rfl)
    · exact held.top each
    · exact second.2 each
  refine ⟨?_,?_,?_,?_,(List.nodup_cons.mp rest).2⟩
  · intro left right cell member member'
    rcases old left cell member with ⟨rfl,new⟩ | kid
    · rcases old right cell member' with ⟨rfl,_⟩ | kid'
      · rfl
      · exact absurd kid' (no_kid right cell new)
    · rcases old right cell member' with ⟨_,new⟩ | kid'
      · exact absurd kid (no_kid left cell new)
      · exact held.unique left right cell kid kid'
  · intro each member
    rcases old each above member with ⟨_,rfl | rfl⟩ | kid
    · exact held.outside List.mem_cons_self
    · exact new_above List.mem_cons_self
    · exact first.2 each kid
  · exact fun member => new_above (List.mem_cons_of_mem _ member)
  · intro cell member
    have there : cell ∈ above :: fresh :: spare := List.mem_cons_of_mem _ (List.mem_cons_of_mem _ member)
    have apart : cell ≠ above := fun same => new_above (same ▸ List.mem_cons_of_mem _ member)
    refine ⟨(assign_other kids apart kid_list).trans (held.idle cell there).1,?_⟩
    intro each claimed
    rcases old each cell claimed with ⟨_,rfl | rfl⟩ | kid
    · exact held.outside there
    · exact (List.nodup_cons.mp rest).1 member
    · exact (held.idle cell there).2 each kid

end Parented
end RemDb.Lib
