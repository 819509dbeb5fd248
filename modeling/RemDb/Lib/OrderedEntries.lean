import Mathlib.Data.List.Basic
import Mathlib.Order.Lattice

namespace RemDb.Lib

-- A map as the list of its entries in the order of their keys.
namespace OrderedEntries
variable {κ α : Type} [LinearOrder κ]

def insert (key : κ) (value : α) : List (κ × α) → List (κ × α)
  | [] => [(key,value)]
  | entry :: rest =>
    if key < entry.1 then (key,value) :: entry :: rest
    else if key = entry.1 then (key,value) :: rest
    else entry :: insert key value rest

def get (key : κ) : List (κ × α) → Option α
  | [] => none
  | entry :: rest => if entry.1 = key then some entry.2 else get key rest

def remove (key : κ) (entries : List (κ × α)) : List (κ × α) := entries.filter fun entry => decide (entry.1 ≠ key)

def Ascending (entries : List (κ × α)) : Prop := entries.Pairwise fun first second => first.1 < second.1

variable {key other : κ} {value : α} {entries : List (κ × α)}

theorem mem_of_get (found : get key entries = some value) : (key,value) ∈ entries := by
  induction entries with
  | nil => cases found
  | cons entry rest ih =>
    by_cases here : entry.1 = key
    · rw [get,if_pos here] at found
      cases found
      cases here
      exact .head _
    · rw [get,if_neg here] at found
      exact .tail _ (ih found)

theorem get_of_mem (ascending : Ascending entries) (among : (key,value) ∈ entries) : get key entries = some value := by
  induction entries with
  | nil => cases among
  | cons entry rest ih =>
    obtain ⟨below,ascending_rest⟩ := List.pairwise_cons.mp ascending
    rcases List.mem_cons.mp among with here | behind
    · rw [← here,get,if_pos rfl]
    · have apart : entry.1 ≠ key := ne_of_lt (below _ behind)
      rw [get,if_neg apart]
      exact ih ascending_rest behind

theorem forall_get_iff {P : κ → α → Prop} (ascending : Ascending entries) :
    (∀ key value, get key entries = some value → P key value) ↔ ∀ entry ∈ entries, P entry.1 entry.2 :=
  ⟨fun all _ among => all _ _ (get_of_mem ascending among),fun all _ _ found => all _ (mem_of_get found)⟩

theorem get_below (below : ∀ entry ∈ entries, key < entry.1) : get key entries = none := by
  cases found : get key entries with
  | none => rfl
  | some value => exact absurd (below _ (mem_of_get found)) (lt_irrefl key)

theorem get_insert (key other : κ) (value : α) (entries : List (κ × α)) :
    get other (insert key value entries) = if other = key then some value else get other entries := by
  induction entries with
  | nil =>
    by_cases same : other = key
    · rw [if_pos same,insert,get,if_pos same.symm]
    · rw [if_neg same,insert]
      exact if_neg (Ne.symm same)
  | cons entry rest ih =>
    rw [insert]
    by_cases below : key < entry.1
    · rw [if_pos below]
      by_cases same : other = key
      · rw [if_pos same,get,if_pos same.symm]
      · rw [if_neg same,get,if_neg (Ne.symm same)]
    · rw [if_neg below]
      by_cases here : key = entry.1
      · rw [if_pos here]
        by_cases same : other = key
        · rw [if_pos same,get,if_pos same.symm]
        · have apart : entry.1 ≠ other := fun is => same (is ▸ here.symm)
          rw [if_neg same,get,get,if_neg (Ne.symm same),if_neg apart]
      · rw [if_neg here,get,get,ih]
        by_cases there : entry.1 = other
        · have apart : other ≠ key := fun is => here (is ▸ there.symm)
          rw [if_pos there,if_pos there,if_neg apart]
        · rw [if_neg there,if_neg there]

theorem get_remove (key other : κ) (entries : List (κ × α)) :
    get other (remove key entries) = if other = key then none else get other entries := by
  induction entries with
  | nil => exact (ite_self none).symm
  | cons entry rest ih =>
    unfold remove at ih ⊢
    by_cases gone : entry.1 = key
    · rw [List.filter_cons_of_neg (by simpa using gone),ih]
      by_cases same : other = key
      · rw [if_pos same,if_pos same]
      · have apart : entry.1 ≠ other := fun is => same (is ▸ gone)
        rw [if_neg same,if_neg same,get,if_neg apart]
    · rw [List.filter_cons_of_pos (by simpa using gone),get,get,ih]
      by_cases here : entry.1 = other
      · have apart : other ≠ key := fun is => gone (here.trans is)
        rw [if_pos here,if_neg apart,if_pos here]
      · rw [if_neg here,if_neg here]

theorem mem_insert {entry : κ × α} (among : entry ∈ insert key value entries) : entry = (key,value) ∨ entry ∈ entries := by
  induction entries with
  | nil => exact .inl (List.mem_singleton.mp among)
  | cons first rest ih =>
    rw [insert] at among
    split at among
    · exact List.mem_cons.mp among
    split at among
    · rcases List.mem_cons.mp among with is | behind
      · exact .inl is
      · exact .inr (.tail _ behind)
    · rcases List.mem_cons.mp among with is | behind
      · exact .inr (is ▸ .head _)
      · rcases ih behind with is | within
        · exact .inl is
        · exact .inr (.tail _ within)

theorem insert_ascending (ascending : Ascending entries) : Ascending (insert key value entries) := by
  induction entries with
  | nil => exact List.pairwise_singleton _ _
  | cons entry rest ih =>
    obtain ⟨below,ascending_rest⟩ := List.pairwise_cons.mp ascending
    rw [insert]
    split
    · rename_i before
      refine List.pairwise_cons.mpr ⟨?_,ascending⟩
      intro later among
      rcases List.mem_cons.mp among with is | behind
      · exact is ▸ before
      · exact lt_trans before (below later behind)
    split
    · rename_i is
      exact List.pairwise_cons.mpr ⟨fun later among => is ▸ below later among,ascending_rest⟩
    · rename_i not_before other
      refine List.pairwise_cons.mpr ⟨?_,ih ascending_rest⟩
      intro later among
      rcases mem_insert among with is | behind
      · rw [is]
        exact lt_of_le_of_ne (not_lt.mp not_before) (Ne.symm other)
      · exact below later behind

theorem remove_ascending (key : κ) (ascending : Ascending entries) : Ascending (remove key entries) :=
  ascending.sublist List.filter_sublist

theorem ext {left right : List (κ × α)} (ascending_left : Ascending left) (ascending_right : Ascending right)
    (same : ∀ key, get key left = get key right) : left = right := by
  induction left generalizing right with
  | nil =>
    cases right with
    | nil => rfl
    | cons entry rest =>
      have found := same entry.1
      rw [get,get,if_pos rfl] at found
      cases found
  | cons entry rest ih =>
    obtain ⟨below,ascending_rest⟩ := List.pairwise_cons.mp ascending_left
    cases right with
    | nil =>
      have found := same entry.1
      rw [get,get,if_pos rfl] at found
      cases found
    | cons first others =>
      obtain ⟨below_others,ascending_others⟩ := List.pairwise_cons.mp ascending_right
      have in_right : (entry.1,entry.2) ∈ first :: others :=
        mem_of_get ((same entry.1).symm.trans (by rw [get,if_pos rfl]))
      have in_left : (first.1,first.2) ∈ entry :: rest :=
        mem_of_get ((same first.1).trans (by rw [get,if_pos rfl]))
      -- Each of the two first entries is the least of its list.
      have heads : entry = first := by
        rcases List.mem_cons.mp in_right with is | behind
        · exact is
        · rcases List.mem_cons.mp in_left with is | behind_left
          · exact is.symm
          · exact absurd (below _ behind_left) (lt_asymm (below_others _ behind))
      cases heads
      have tails : rest = others := by
        refine ih ascending_rest ascending_others fun key => ?_
        by_cases here : entry.1 = key
        · rw [← here,get_below below,get_below below_others]
        · have found := same key
          rwa [get,get,if_neg here,if_neg here] at found
      rw [tails]

-- A map changed by the entries of another one, each of which drops its key or
-- gives it a new value made of the one that is there.
section Updating
variable {dropped : α → Bool} {change : Option α → α → α} {changes target : List (κ × α)}

def updateOne (dropped : α → Bool) (change : Option α → α → α) (target : List (κ × α)) (entry : κ × α) : List (κ × α) :=
  if dropped entry.2 then remove entry.1 target else insert entry.1 (change (get entry.1 target) entry.2) target

def update (dropped : α → Bool) (change : Option α → α → α) (target changes : List (κ × α)) : List (κ × α) :=
  changes.foldl (updateOne dropped change) target

def updated (dropped : α → Bool) (change : Option α → α → α) (old : Option α) (new : α) : Option α :=
  if dropped new then none else some (change old new)

theorem get_updateOne (key : κ) (entry : κ × α) : get key (updateOne dropped change target entry) =
    if key = entry.1 then updated dropped change (get entry.1 target) entry.2 else get key target := by
  rw [updateOne,updated]
  split
  · rw [get_remove]
  · rw [get_insert]

theorem updateOne_ascending (ascending : Ascending target) (entry : κ × α) :
    Ascending (updateOne dropped change target entry) := by
  rw [updateOne]
  split
  · exact remove_ascending _ ascending
  · exact insert_ascending ascending

theorem update_ascending (ascending : Ascending target) : Ascending (update dropped change target changes) := by
  induction changes generalizing target with
  | nil => exact ascending
  | cons entry rest ih => exact ih (updateOne_ascending ascending entry)

theorem get_update (dropped : α → Bool) (change : Option α → α → α) (target : List (κ × α)) (ascending : Ascending changes)
    (key : κ) : get key (update dropped change target changes) =
    match get key changes with
    | some new => updated dropped change (get key target) new
    | none => get key target := by
  induction changes generalizing target with
  | nil => rfl
  | cons entry rest ih =>
    obtain ⟨below,ascending_rest⟩ := List.pairwise_cons.mp ascending
    rw [update,List.foldl_cons,← update,ih _ ascending_rest,get]
    by_cases here : entry.1 = key
    · cases here
      rw [if_pos rfl,get_below below,get_updateOne,if_pos rfl]
    · rw [if_neg here,get_updateOne,if_neg (Ne.symm here)]

theorem update_eq_iff {other_change : Option α → α → α} (ascending_target : Ascending target) (ascending : Ascending changes) :
    update dropped change target changes = update dropped other_change target changes ↔
      ∀ key new, get key changes = some new → dropped new = false →
        change (get key target) new = other_change (get key target) new := by
  constructor
  · intro same key new found kept
    have first := get_update dropped change target ascending key
    have second := get_update dropped other_change target ascending key
    rw [same] at first
    rw [first,found] at second
    simp only [updated,kept,Bool.false_eq_true,if_false] at second
    exact Option.some.inj second
  · intro agree
    refine ext (update_ascending ascending_target) (update_ascending ascending_target) fun key => ?_
    rw [get_update _ _ _ ascending,get_update _ _ _ ascending]
    cases found : get key changes with
    | none => rfl
    | some new =>
      dsimp only [updated]
      cases kept : dropped new with
      | true => rfl
      | false => rw [agree key new found kept]

theorem update_again (ascending_target : Ascending target) (ascending : Ascending changes)
    (again : ∀ key new, get key changes = some new → dropped new = false →
      change (some (change (get key target) new)) new = change (get key target) new) :
    update dropped change (update dropped change target changes) changes = update dropped change target changes := by
  have ascending_once : Ascending (update dropped change target changes) := update_ascending ascending_target
  refine ext (update_ascending ascending_once) ascending_once fun key => ?_
  rw [get_update _ _ _ ascending,get_update _ _ _ ascending]
  cases found : get key changes with
  | none => rfl
  | some new =>
    dsimp only [updated]
    cases kept : dropped new with
    | true => rfl
    | false =>
      rw [if_neg Bool.false_ne_true,if_neg Bool.false_ne_true,again key new found kept]

end Updating

end OrderedEntries
end RemDb.Lib
