import Mathlib.Data.Nat.Count
import Mathlib.Data.List.Perm.Basic
import Mathlib.Data.List.Nodup
import Mathlib.Data.List.Range

namespace RemDb.Lib

-- A pool of `size` slots split between the slots in use and a stack of free
-- ones, kept in array order: the top of the stack is the last entry.
structure Partition (size : Nat) (used : Nat → Bool) (free : List Nat) : Prop where
  distinct : free.Nodup
  complete : ∀ slot, slot ∈ free ↔ slot < size ∧ used slot = false

def usedCount (size : Nat) (used : Nat → Bool) : Nat := Nat.count (fun slot => used slot = true) size

def assign (values : Nat → α) (slot : Nat) (value : α) : Nat → α :=
  fun other => if other = slot then value else values other

@[simp] theorem assign_same (values : Nat → α) (slot : Nat) (value : α) :
    assign values slot value slot = value := by simp [assign]

@[simp] theorem assign_other (values : Nat → α) (different : other ≠ slot) (value : α) :
    assign values slot value other = values other := by simp [assign,different]

theorem assign_held {values : Nat → α} (held : values slot = value) : assign values slot value = values := by
  funext other
  by_cases equal : other = slot
  · subst other
    rw [assign_same,held]
  · rw [assign_other values equal]

theorem assign_back {values : Nat → α} (held : values slot = value) (between : α) :
    assign (assign values slot between) slot value = values := by
  funext other
  by_cases equal : other = slot
  · subst other
    rw [assign_same,held]
  · rw [assign_other _ equal,assign_other _ equal]

theorem assign_agree {left right : Nat → α} (agree : each ≠ slot → left each = right each) :
    assign left slot value each = assign right slot value each := by
  by_cases equal : each = slot
  · rw [equal,assign_same,assign_same]
  · rw [assign_other left equal,assign_other right equal,agree equal]

theorem assign_length {values : Nat → List α} (every : ∀ each, (values each).length = size)
    (new : value.length = size) (slot each : Nat) : (assign values slot value each).length = size := by
  by_cases equal : each = slot
  · rw [equal,assign_same]
    exact new
  · rw [assign_other values equal]
    exact every each

theorem assign_comp (function : α → β) (values : Nat → α) (slot : Nat) (value : α) :
    (fun other => function (assign values slot value other)) =
      assign (fun other => function (values other)) slot (function value) := by
  funext other
  by_cases same : other = slot
  · rw [same,assign_same,assign_same]
  · rw [assign_other _ same,assign_other _ same]

theorem map_assign_outside (values : Nat → α) {slots : List Nat} (outside : slot ∉ slots) (value : α) :
    slots.map (assign values slot value) = slots.map values := by
  apply List.map_congr_left
  intro each member
  have different : each ≠ slot := fun same => outside (same ▸ member)
  exact assign_other values different value

theorem usedCount_succ (size : Nat) (used : Nat → Bool) :
    usedCount (size+1) used = usedCount size used + if used size = true then 1 else 0 :=
  Nat.count_succ _ _

theorem usedCount_congr (same : ∀ slot, slot < size → left slot = right slot) :
    usedCount size left = usedCount size right := by
  induction size with
  | zero => rfl
  | succ size ih =>
    rw [usedCount_succ,usedCount_succ,ih (fun slot below => same slot (by omega)),
      same size (by omega)]

theorem usedCount_take (inside : slot < size) (idle : used slot = false) :
    usedCount size (assign used slot true) = usedCount size used + 1 := by
  induction size with
  | zero => omega
  | succ size ih =>
    rw [usedCount_succ,usedCount_succ]
    by_cases last : slot = size
    · subst slot
      have below : usedCount size (assign used size true) = usedCount size used :=
        usedCount_congr (fun other bound => assign_other used (by omega) true)
      simp [below,idle]
    · rw [ih (by omega),assign_other used (by omega) true]
      omega

theorem usedCount_release (inside : slot < size) (taken : used slot = true) :
    usedCount size (assign used slot false) + 1 = usedCount size used := by
  have back : usedCount size (assign (assign used slot false) slot true) =
      usedCount size (assign used slot false) + 1 := usedCount_take inside (assign_same _ _ _)
  rw [← back,assign_back taken]

theorem Partition.length (split : Partition size used free) :
    free.length + usedCount size used = size := by
  induction size generalizing free with
  | zero =>
    have empty : free = [] := by
      apply List.eq_nil_iff_forall_not_mem.mpr
      intro slot member
      have bound := ((split.complete slot).mp member).1
      omega
    simp [empty,usedCount]
  | succ size ih =>
    have smaller : Partition size used (free.erase size) := by
      refine ⟨split.distinct.erase _,?_⟩
      intro slot
      rw [split.distinct.mem_erase_iff,split.complete]
      constructor
      · rintro ⟨different,bound,idle⟩
        exact ⟨by omega,idle⟩
      · rintro ⟨bound,idle⟩
        exact ⟨by omega,by omega,idle⟩
    have rest := ih smaller
    rw [usedCount_succ]
    cases last : used size with
    | true =>
      have absent : size ∉ free := by simp [split.complete,last]
      rw [List.erase_of_not_mem absent] at rest
      simp only [if_true]
      omega
    | false =>
      have present : size ∈ free := (split.complete size).mpr ⟨by omega,last⟩
      have shorter := List.length_erase_of_mem present
      have positive := List.length_pos_of_mem present
      simp only [Bool.false_eq_true,if_false]
      omega

theorem Partition.perm (split : Partition size used free) (same : free.Perm other) :
    Partition size used other :=
  ⟨same.nodup_iff.mp split.distinct,fun slot => by rw [← same.mem_iff,split.complete]⟩

theorem Partition.congr (split : Partition size left free) (same : ∀ slot, slot < size → left slot = right slot) :
    Partition size right free := by
  refine ⟨split.distinct,?_⟩
  intro slot
  rw [split.complete]
  constructor
  · rintro ⟨inside,idle⟩
    exact ⟨inside,(same slot inside).symm.trans idle⟩
  · rintro ⟨inside,idle⟩
    exact ⟨inside,(same slot inside).trans idle⟩

theorem Partition.pop (split : Partition size used (free ++ [slot])) :
    Partition size (assign used slot true) free := by
  have parts := List.nodup_append.mp split.distinct
  refine ⟨parts.1,?_⟩
  intro other
  by_cases equal : other = slot
  · subst other
    have absent : slot ∉ free := fun member => parts.2.2 slot member slot (by simp) rfl
    simp [absent]
  · have outer := split.complete other
    simp only [List.mem_append,List.mem_singleton,equal,or_false] at outer
    rw [outer,assign_other used equal]

theorem Partition.push (split : Partition size used free) (inside : slot < size)
    (taken : used slot = true) : Partition size (assign used slot false) (free ++ [slot]) := by
  have absent : slot ∉ free := by simp [split.complete,taken]
  refine ⟨?_,?_⟩
  · refine List.nodup_append.mpr ⟨split.distinct,List.nodup_singleton _,?_⟩
    intro member present other single
    rw [List.mem_singleton] at single
    subst other
    exact fun equal => absent (equal ▸ present)
  · intro other
    by_cases equal : other = slot
    · subst other; simp [inside]
    · simp [equal,split.complete]

theorem Partition.take (split : Partition size used free) (slot : Nat) :
    Partition size (assign used slot true) (free.erase slot) := by
  refine ⟨split.distinct.erase _,?_⟩
  intro other
  rw [split.distinct.mem_erase_iff,split.complete]
  by_cases equal : other = slot
  · subst other; simp
  · simp [equal]

def assignAll (used : Nat → Bool) (slots : List Nat) : Nat → Bool :=
  slots.foldl (fun values slot => assign values slot true) used

theorem assignAll_taken (slots : List Nat) (taken : ∀ slot ∈ slots, used slot = true) :
    assignAll used slots = used := by
  induction slots with
  | nil => rfl
  | cons slot rest ih =>
    change assignAll (assign used slot true) rest = used
    rw [assign_held (taken slot List.mem_cons_self)]
    exact ih fun other member => taken other (List.mem_cons_of_mem _ member)

theorem assignAll_keeps (slots : List Nat) (taken : used slot = true) : assignAll used slots slot = true := by
  induction slots generalizing used with
  | nil => exact taken
  | cons other rest ih =>
    apply ih
    dsimp only
    by_cases equal : slot = other
    · subst slot
      exact assign_same _ _ _
    · rw [assign_other _ equal]
      exact taken

theorem assignAll_mem (slots : List Nat) (member : slot ∈ slots) : assignAll used slots slot = true := by
  induction slots generalizing used with
  | nil => cases member
  | cons other rest ih =>
    rcases List.mem_cons.mp member with rfl | among
    · exact assignAll_keeps rest (assign_same _ _ _)
    · exact ih among

theorem assignAll_other (slots : List Nat) (outside : slot ∉ slots) : assignAll used slots slot = used slot := by
  induction slots generalizing used with
  | nil => rfl
  | cons other rest ih =>
    rw [List.mem_cons,not_or] at outside
    exact (ih outside.2).trans (assign_other _ outside.1 _)

theorem Partition.popAll (taken : List Nat) (split : Partition size used (rest ++ taken.reverse)) :
    Partition size (assignAll used taken) rest ∧
      usedCount size (assignAll used taken) = usedCount size used + taken.length := by
  induction taken generalizing used with
  | nil => exact ⟨by simpa [assignAll] using split,rfl⟩
  | cons slot more ih =>
    rw [List.reverse_cons,← List.append_assoc] at split
    have free : slot < size ∧ used slot = false := (split.complete slot).mp (by simp)
    obtain ⟨remaining,counted⟩ := ih split.pop
    refine ⟨remaining,?_⟩
    change usedCount size (assignAll (assign used slot true) more) = _
    rw [counted,usedCount_take free.1 free.2,List.length_cons]
    omega

theorem Partition.fresh (size : Nat) (used : Nat → Bool) (idle : ∀ slot, used slot = false) :
    Partition size used ((List.range size).map fun slot => size-1-slot) ∧ usedCount size used = 0 := by
  have reversed : (List.range size).map (fun slot => size-1-slot) = (List.range size).reverse := by
    rw [List.range_eq_range',List.reverse_range']
    simp [List.range_eq_range']
  rw [reversed]
  refine ⟨⟨List.nodup_reverse.mpr List.nodup_range,?_⟩,?_⟩
  · intro slot
    simp [idle slot]
  · have none_used : used = fun _ => false := funext idle
    rw [none_used,usedCount,Nat.count_eq_card_filter_range]
    simp

theorem Partition.full (split : Partition size used []) (inside : slot < size) : used slot = true := by
  by_contra idle
  have member := (split.complete slot).mpr ⟨inside,by simpa using idle⟩
  cases member

-- Removal from the middle of the array form: the last entry moves into the
-- hole. The search runs from the bottom and stops at the first match.
def swapRemove (free : List Nat) (slot : Nat) : List Nat :=
  match free.idxOf? slot with
  | none => free
  | some index => match free.getLast? with
    | none => free
    | some last => (free.set index last).dropLast

theorem swapRemove_found (front back : List Nat) (fresh : slot ∉ front) :
    swapRemove (front ++ slot :: back) slot = match back.getLast? with
      | none => front
      | some last => front ++ last :: back.dropLast := by
  have found : (front ++ slot :: back).idxOf? slot = some front.length := by
    rw [List.idxOf?_eq_some_iff]
    refine ⟨by simp,by simp,?_⟩
    intro index before
    rw [List.getElem_append_left before]
    exact fun equal => fresh (equal ▸ List.getElem_mem before)
  cases back using List.reverseRecOn with
  | nil => simp [swapRemove,found]
  | append_singleton middle last =>
    have shape : front ++ slot :: (middle ++ [last]) = (front ++ slot :: middle) ++ [last] := by simp
    simp only [swapRemove,found]
    rw [shape,List.getLast?_concat]
    simp only [List.append_assoc,List.cons_append,List.set_append_right _ _ (Nat.le_refl _),
      Nat.sub_self,List.set_cons_zero,List.getLast?_concat,List.dropLast_concat]
    rw [← List.cons_append,← List.append_assoc,List.dropLast_concat]

theorem swapRemove_last (fresh : slot ∉ front) : swapRemove (front ++ [slot]) slot = front :=
  swapRemove_found front [] fresh

theorem swapRemove_perm (present : slot ∈ free) :
    (swapRemove free slot).Perm (free.erase slot) := by
  obtain ⟨front,back,rfl,fresh⟩ := List.eq_append_cons_of_mem present
  have erased : (front ++ slot :: back).erase slot = front ++ back := by
    rw [List.erase_append_right _ fresh,List.erase_cons_head]
  rw [swapRemove_found front back fresh,erased]
  cases back using List.reverseRecOn with
  | nil => simp
  | append_singleton middle last =>
    simp only [List.getLast?_append,List.getLast?_singleton,Option.some_or,List.dropLast_concat]
    exact List.Perm.append_left front (List.perm_append_singleton last middle).symm

end RemDb.Lib
