import RemDb.Lib.BestFirst

namespace RemDb.Lib

section Buckets
variable {α β : Type} {items : β → List α} {buckets : List β} {index : Nat} {before after : β}

theorem split_at (here : buckets[index]? = some before) (after : β) :
    buckets = buckets.take index ++ before :: buckets.drop (index+1) ∧
      buckets.set index after = buckets.take index ++ after :: buckets.drop (index+1) := by
  obtain ⟨inside,value⟩ := List.getElem?_eq_some_iff.mp here
  refine ⟨?_,?_⟩
  · rw [← value,← List.drop_eq_getElem_cons inside,List.take_append_drop]
  · rw [List.set_eq_take_append_cons_drop,if_pos inside]

theorem flatMap_set_perm (here : buckets[index]? = some before)
    (step : (out ++ items after).Perm (items before ++ into)) :
    (out ++ (buckets.set index after).flatMap items).Perm (buckets.flatMap items ++ into) := by
  obtain ⟨old,new⟩ := split_at here after
  rw [new]
  nth_rewrite 3 [old]
  rw [List.flatMap_append,List.flatMap_append,List.flatMap_cons,List.flatMap_cons]
  have front : (out ++ ((buckets.take index).flatMap items ++ (items after ++ (buckets.drop (index+1)).flatMap items))).Perm
      ((buckets.take index).flatMap items ++ ((out ++ items after) ++ (buckets.drop (index+1)).flatMap items)) := by
    rw [← List.append_assoc,← List.append_assoc,← List.append_assoc,← List.append_assoc]
    exact List.Perm.append_right _ (List.Perm.append_right _ List.perm_append_comm)
  refine front.trans ?_
  rw [List.append_assoc ((buckets.take index).flatMap items) _ into]
  refine List.Perm.append_left _ ((List.Perm.append_right _ step).trans ?_)
  rw [List.append_assoc,List.append_assoc]
  exact List.Perm.append_left _ List.perm_append_comm

end Buckets

section Selections
variable {α β : Type} {chosen all : List α}

theorem subperm_map (f : α → β) (selected : chosen.Subperm all) : (chosen.map f).Subperm (all.map f) := by
  obtain ⟨among,perm,sub⟩ := selected
  exact ⟨among.map f,perm.map f,sub.map f⟩

theorem exists_of_subperm_map {f : α → β} {images : List β} (selected : images.Subperm (all.map f)) :
    ∃ chosen : List α, chosen.Subperm all ∧ images = chosen.map f := by
  obtain ⟨among,perm,sub⟩ := selected
  obtain ⟨listed,inside,rfl⟩ := List.sublist_map_iff.mp sub
  obtain ⟨chosen,equal,same⟩ := (congrFun (congrFun (List.eq_map_comp_perm f) images) listed).mpr perm.symm
  exact ⟨chosen,same.subperm.trans inside.subperm,equal⟩

end Selections

-- A scan that starts with nothing found ends inside a list that is not empty.
theorem smallestFrom_inside [LT D] [DecidableLT D] (limit : D) (values : List D) (filled : 0 < values.length) :
    smallestFrom 0 limit 0 values < values.length := by
  cases values with
  | nil => cases filled
  | cons first rest =>
    have later (value : D) : smallestFrom 0 value 1 rest < 1+rest.length := smallestFrom_lt Nat.zero_lt_one
    rw [smallestFrom,List.length_cons,Nat.add_comm rest.length]
    split
    · exact later first
    · exact later limit

end RemDb.Lib
