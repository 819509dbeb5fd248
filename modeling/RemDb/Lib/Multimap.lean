import RemDb.Lib.FreeList

namespace RemDb.Lib

-- A multimap as the list of its entries, the newest first: a key maps to its
-- newest entry, and removing a key uncovers the one before.
abbrev Multimap (α β : Type) := List (α × β)

namespace Multimap

variable {α β : Type} [DecidableEq α]

def lookup (entries : Multimap α β) (key : α) : Option β := (entries.find? (·.1 = key)).map (·.2)

def remove (entries : Multimap α β) (key : α) : Multimap α β := entries.eraseP (·.1 = key)

def bucket (hash : α → Nat) (entries : Multimap α β) (number : Nat) : Multimap α β :=
  entries.filter (hash ·.1 = number)

theorem lookup_none_iff {entries : Multimap α β} {key : α} :
    lookup entries key = none ↔ ∀ entry ∈ entries, entry.1 ≠ key := by
  simp [lookup]

theorem lookup_append {front back : Multimap α β} {key : α} (absent : ∀ entry ∈ front, entry.1 ≠ key) :
    lookup (front ++ back) key = lookup back key := by
  have skipped : front.find? (·.1 = key) = none := by simpa using absent
  simp only [lookup,List.find?_append,skipped,Option.none_or]

theorem lookup_head {entry : α × β} {back : Multimap α β} {key : α} (same : entry.1 = key) :
    lookup (entry :: back) key = some entry.2 := by
  simp [lookup,same]

theorem lookup_cons_ne {entry : α × β} {key : α} (different : entry.1 ≠ key) (rest : Multimap α β) :
    lookup (entry :: rest) key = lookup rest key := by
  simp [lookup,different]

theorem lookup_unique {entries : Multimap α β} {key : α} {value : β} (apart : (entries.map (·.1)).Nodup)
    (member : (key,value) ∈ entries) : lookup entries key = some value := by
  obtain ⟨front,back,rfl⟩ := List.append_of_mem member
  rw [lookup_append,lookup_head rfl]
  intro entry among same
  rw [List.map_append,List.nodup_append] at apart
  exact apart.2.2 entry.1 (List.mem_map_of_mem among) key (by simp) same

theorem remove_append {front back : Multimap α β} {entry : α × β} {key : α}
    (absent : ∀ entry ∈ front, entry.1 ≠ key) (same : entry.1 = key) :
    remove (front ++ entry :: back) key = front ++ back := by
  have skipped : ∀ each ∈ front, ¬decide (each.1 = key) = true := by simpa using absent
  rw [remove,List.eraseP_append_right _ skipped,List.eraseP_cons_of_pos (by simpa using same)]

theorem remove_absent {entries : Multimap α β} {key : α} (absent : ∀ entry ∈ entries, entry.1 ≠ key) :
    remove entries key = entries := List.eraseP_of_forall_not (by simpa using absent)

omit [DecidableEq α] in
theorem bucket_cons (hash : α → Nat) (entry : α × β) (entries : Multimap α β) (number : Nat) :
    bucket hash (entry :: entries) number =
      if hash entry.1 = number then entry :: bucket hash entries number else bucket hash entries number := by
  by_cases same : hash entry.1 = number
  · simp [bucket,same]
  · simp [bucket,same]

theorem lookup_bucket (hash : α → Nat) (entries : Multimap α β) (key : α) :
    lookup (bucket hash entries (hash key)) key = lookup entries key := by
  induction entries with
  | nil => rfl
  | cons entry rest ih =>
    rw [bucket_cons]
    by_cases same : entry.1 = key
    · rw [if_pos (congrArg hash same),lookup_head same,lookup_head same]
    · rw [lookup_cons_ne same,← ih]
      by_cases collides : hash entry.1 = hash key
      · rw [if_pos collides,lookup_cons_ne same]
      · rw [if_neg collides]

theorem remove_cons_ne {entry : α × β} {key : α} (different : entry.1 ≠ key) (rest : Multimap α β) :
    remove (entry :: rest) key = entry :: remove rest key := by
  simp [remove,different]

theorem remove_cons_eq {entry : α × β} {key : α} (same : entry.1 = key) (rest : Multimap α β) :
    remove (entry :: rest) key = rest := by
  simp [remove,same]

theorem length_remove {entries : Multimap α β} {entry : α × β} (member : entry ∈ entries) :
    (remove entries entry.1).length+1 = entries.length := by
  have shorter : (remove entries entry.1).length = entries.length-1 :=
    List.length_eraseP_of_mem member (by simp)
  have positive := List.length_pos_of_mem member
  omega

theorem bucket_remove (hash : α → Nat) (entries : Multimap α β) (key : α) (number : Nat) :
    bucket hash (remove entries key) number = remove (bucket hash entries number) key := by
  induction entries with
  | nil => rfl
  | cons entry rest ih =>
    by_cases same : entry.1 = key
    · rw [remove_cons_eq same,bucket_cons]
      by_cases here : hash entry.1 = number
      · rw [if_pos here,remove_cons_eq same]
      · rw [if_neg here,remove_absent]
        intro each member equal
        obtain ⟨_,inside⟩ := List.mem_filter.mp member
        apply here
        rw [same,← equal]
        simpa using inside
    · rw [remove_cons_ne same,bucket_cons,bucket_cons,ih]
      by_cases here : hash entry.1 = number
      · rw [if_pos here,if_pos here,remove_cons_ne same]
      · rw [if_neg here,if_neg here]

end Multimap

theorem flatMap_assign_perm (parts : Nat → List α) (inside : number < count)
    (moved : (parts number).Perm (value :: rest)) :
    ((List.range count).flatMap parts).Perm
      (value :: (List.range count).flatMap (assign parts number rest)) := by
  induction count with
  | zero => omega
  | succ count ih =>
    rw [List.range_succ,List.flatMap_append,List.flatMap_append]
    simp only [List.flatMap_singleton]
    by_cases last : number = count
    · subst number
      rw [assign_same]
      have same : (List.range count).flatMap (assign parts count rest) = (List.range count).flatMap parts := by
        apply List.flatMap_congr
        intro each member
        exact assign_other parts (Nat.ne_of_lt (List.mem_range.mp member)) rest
      rw [same]
      exact (moved.append_left _).trans List.perm_middle
    · rw [assign_other parts (by omega) rest]
      exact (ih (by omega)).append_right _

end RemDb.Lib
