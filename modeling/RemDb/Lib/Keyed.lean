import Mathlib.Data.List.Nodup

namespace RemDb.Lib

-- A finite map whose values carry their own key: one entry at most for each
-- key. The order of the entries means nothing.
structure Keyed {α κ : Type} (key : α → κ) where
  entries : List α
  distinct : (entries.map key).Nodup

namespace Keyed
variable {α κ : Type} {key : α → κ}

def empty : Keyed key := ⟨[],List.nodup_nil⟩

-- Change every entry, none of them in its key.
def adjust (map : Keyed key) (change : α → α) (keeps : ∀ entry, key (change entry) = key entry) : Keyed key where
  entries := map.entries.map change
  distinct := by
    rw [List.map_map]
    have same : key ∘ change = key := funext keeps
    rw [same]
    exact map.distinct

variable [DecidableEq κ]

def get (map : Keyed key) (name : κ) : Option α := map.entries.find? fun entry => decide (key entry = name)

def contains (map : Keyed key) (name : κ) : Bool := (map.get name).isSome

def remove (map : Keyed key) (name : κ) : Keyed key where
  entries := map.entries.filter fun entry => decide (key entry ≠ name)
  distinct := map.distinct.sublist (List.filter_sublist.map key)

theorem fresh_after_filter (entries : List α) (name : κ) :
    name ∉ (entries.filter fun entry => decide (key entry ≠ name)).map key := by
  intro found
  obtain ⟨entry,kept,named⟩ := List.mem_map.mp found
  exact of_decide_eq_true (List.mem_filter.mp kept).2 named

def insert (map : Keyed key) (value : α) : Keyed key where
  entries := (map.remove (key value)).entries ++ [value]
  distinct := by
    rw [List.map_append]
    refine List.nodup_append.mpr ⟨(map.remove (key value)).distinct,by simp,?_⟩
    intro old kept new added same
    rw [List.map_singleton,List.mem_singleton] at added
    subst added
    exact fresh_after_filter map.entries (key value) (same ▸ kept)

theorem get_eq_some (map : Keyed key) : map.get name = some entry ↔ entry ∈ map.entries ∧ key entry = name := by
  constructor
  · intro found
    have named := List.find?_some found
    exact ⟨List.mem_of_find?_eq_some found,of_decide_eq_true named⟩
  · intro held
    obtain ⟨kept,named⟩ := held
    cases found : map.get name with
    | none =>
      have missing := List.find?_eq_none.mp found entry kept
      exact absurd (decide_eq_true named) missing
    | some other =>
      have same := List.find?_some found
      have unique := List.inj_on_of_nodup_map map.distinct (List.mem_of_find?_eq_some found) kept
        ((of_decide_eq_true same).trans named.symm)
      rw [unique]

theorem get_of_mem (map : Keyed key) (kept : entry ∈ map.entries) : map.get (key entry) = some entry :=
  map.get_eq_some.mpr ⟨kept,rfl⟩

theorem contains_iff (map : Keyed key) : map.contains name = true ↔ ∃ entry ∈ map.entries, key entry = name := by
  rw [contains,Option.isSome_iff_exists]
  exact exists_congr fun entry => map.get_eq_some

theorem get_insert (map : Keyed key) (value : α) (name : κ) :
    (map.insert value).get name = if key value = name then some value else map.get name := by
  apply Option.ext
  intro entry
  rw [get_eq_some]
  split
  case isTrue same =>
    subst same
    simp only [insert,remove,List.mem_append,List.mem_filter,decide_eq_true_eq,List.mem_singleton,
      Option.some.injEq]
    constructor
    · rintro ⟨kept | rfl,named⟩
      · exact absurd named kept.2
      · rfl
    · rintro rfl
      exact ⟨.inr rfl,rfl⟩
  case isFalse other =>
    simp only [insert,remove,List.mem_append,List.mem_filter,decide_eq_true_eq,List.mem_singleton,get_eq_some]
    constructor
    · rintro ⟨kept | rfl,named⟩
      · exact ⟨kept.1,named⟩
      · exact absurd named other
    · rintro ⟨kept,named⟩
      exact ⟨.inl ⟨kept,fun same => other (same ▸ named)⟩,named⟩

theorem get_remove (map : Keyed key) (gone name : κ) :
    (map.remove gone).get name = if name = gone then none else map.get name := by
  apply Option.ext
  intro entry
  rw [get_eq_some]
  split
  case isTrue same =>
    subst same
    simp only [remove,List.mem_filter,decide_eq_true_eq,reduceCtorEq,iff_false]
    exact fun held => held.1.2 held.2
  case isFalse other =>
    simp only [remove,List.mem_filter,decide_eq_true_eq,get_eq_some]
    constructor
    · rintro ⟨kept,named⟩
      exact ⟨kept.1,named⟩
    · rintro ⟨kept,named⟩
      exact ⟨⟨kept,fun same => other (named.symm.trans same)⟩,named⟩

theorem get_adjust (map : Keyed key) (change : α → α) (keeps : ∀ entry, key (change entry) = key entry) (name : κ) :
    (map.adjust change keeps).get name = (map.get name).map change := by
  rw [get,adjust,List.find?_map]
  have same : ((fun entry => decide (key entry = name)) ∘ change) = fun entry => decide (key entry = name) := by
    funext entry
    simp [keeps]
  rw [same]
  rfl

end Keyed
end RemDb.Lib
