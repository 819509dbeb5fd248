import RemDb.Lib.FreeList

namespace RemDb.Lib

-- Intrusive lists in an arena: a head, and a next pointer in every cell.
structure Links where
  head : Option Nat
  next : Nat → Option Nat

namespace Links

def get (links : Links) : Option Nat → Option Nat
  | none => links.head
  | some cell => links.next cell

def set (links : Links) : Option Nat → Option Nat → Links
  | none, target => {links with head:=target}
  | some cell, target => {links with next:=assign links.next cell target}

end Links

-- Following `next` from `head` passes `cells` and arrives at `tail`.
def Segment (next : Nat → Option Nat) : Option Nat → List Nat → Option Nat → Prop
  | head, [], tail => head = tail
  | head, cell :: rest, tail => head = some cell ∧ Segment next (next cell) rest tail

def Links.Lists (links : Links) (cells : List Nat) : Prop := Segment links.next links.head cells none

theorem segment_append :
    Segment next head (front ++ back) tail ↔
      ∃ middle, Segment next head front middle ∧ Segment next middle back tail := by
  induction front generalizing head with
  | nil => simp [Segment]
  | cons cell rest ih =>
    simp only [List.cons_append,Segment]
    rw [ih]
    constructor
    · rintro ⟨here,middle,first,second⟩
      exact ⟨middle,⟨here,first⟩,second⟩
    · rintro ⟨middle,⟨here,first⟩,second⟩
      exact ⟨here,middle,first,second⟩

theorem Segment.congr (path : Segment next head cells tail)
    (agree : ∀ cell ∈ cells, other cell = next cell) : Segment other head cells tail := by
  induction cells generalizing head with
  | nil => exact path
  | cons cell rest ih =>
    obtain ⟨here,onward⟩ := path
    refine ⟨here,?_⟩
    rw [agree cell List.mem_cons_self]
    exact ih onward fun each member => agree each (List.mem_cons_of_mem _ member)

theorem Segment.assign_outside (path : Segment next head cells tail) (outside : cell ∉ cells) :
    Segment (assign next cell target) head cells tail := by
  apply path.congr
  intro each member
  have different : each ≠ cell := fun equal => outside (equal ▸ member)
  exact assign_other next different target

namespace Links

theorem get_last {links : Links} (path : Segment links.next links.head front middle) :
    links.get front.getLast? = middle := by
  cases front using List.reverseRecOn with
  | nil => exact path
  | append_singleton before last =>
    rw [List.getLast?_concat]
    obtain ⟨between,_,reached⟩ := segment_append.mp path
    exact reached.2

theorem set_last {links : Links} (path : Segment links.next links.head front middle)
    (distinct : front.Nodup) (target : Option Nat) :
    Segment (links.set front.getLast? target).next (links.set front.getLast? target).head front target := by
  cases front using List.reverseRecOn with
  | nil => rfl
  | append_singleton before last =>
    rw [List.getLast?_concat]
    obtain ⟨between,first,reached⟩ := segment_append.mp path
    have fresh : last ∉ before := by
      intro member
      exact (List.nodup_append.mp distinct).2.2 last member last List.mem_cons_self rfl
    refine segment_append.mpr ⟨between,first.assign_outside fresh,reached.1,?_⟩
    exact assign_same _ _ _

theorem set_last_next (links : Links) {front : List Nat} (outside : cell ∉ front) (target : Option Nat) :
    (links.set front.getLast? target).next cell = links.next cell := by
  cases front using List.reverseRecOn with
  | nil => rfl
  | append_singleton before last =>
    rw [List.getLast?_concat]
    have different : cell ≠ last := fun equal => outside (by simp [equal])
    exact assign_other links.next different target

theorem Lists.get_front {links : Links} (lists : links.Lists (front ++ back)) :
    links.get front.getLast? = back.head? := by
  obtain ⟨middle,path,rest⟩ := segment_append.mp lists
  rw [get_last path]
  cases back with
  | nil => exact rest
  | cons cell back => exact rest.1

theorem Lists.splice {links : Links} (lists : links.Lists (front ++ back)) (distinct : front.Nodup)
    (apart : ∀ cell ∈ other, cell ∉ front) (path : Segment links.next target other none) :
    (links.set front.getLast? target).Lists (front ++ other) := by
  obtain ⟨middle,before,_⟩ := segment_append.mp lists
  refine segment_append.mpr ⟨target,set_last before distinct target,?_⟩
  exact path.congr fun cell member => set_last_next links (apart cell member) target

theorem Lists.remove {links : Links} (lists : links.Lists (front ++ cell :: back))
    (distinct : (front ++ cell :: back).Nodup) :
    (links.set front.getLast? (links.next cell)).Lists (front ++ back) := by
  obtain ⟨first,second,apart⟩ := List.nodup_append.mp distinct
  obtain ⟨middle,before,here,after⟩ := segment_append.mp lists
  refine lists.splice first ?_ after
  intro each member present
  exact apart each present each (List.mem_cons_of_mem _ member) rfl

theorem Lists.insert {links : Links} (lists : links.Lists (front ++ back))
    (distinct : (front ++ back).Nodup) (fresh : cell ∉ front ++ back) :
    ({links with next:=assign links.next cell (links.get front.getLast?)}.set front.getLast?
      (some cell)).Lists (front ++ cell :: back) := by
  have outside : cell ∉ front ∧ cell ∉ back := by simpa using fresh
  obtain ⟨first,second,apart⟩ := List.nodup_append.mp distinct
  obtain ⟨middle,before,after⟩ := segment_append.mp lists
  have marked : Links.Lists {links with next:=assign links.next cell (links.get front.getLast?)}
      (front ++ back) := lists.assign_outside fresh
  refine marked.splice first ?_ ⟨rfl,?_⟩
  · intro each member present
    rcases List.mem_cons.mp member with rfl | among
    · exact outside.1 present
    · exact apart each present each among rfl
  · have held : assign links.next cell (links.get front.getLast?) cell = middle := by
      rw [assign_same,get_last before]
    dsimp only
    rw [held]
    exact after.assign_outside outside.2

end Links
end RemDb.Lib
