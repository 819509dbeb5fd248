import Mathlib.Data.List.Basic
import Mathlib.Data.List.Induction
import Mathlib.Data.List.TakeWhile
import Mathlib.Data.List.Perm.Basic

namespace RemDb.Lib

-- Arrays of a fixed length, where an access out of bounds ends the program.
def store (values : List α) (place : Nat) (value : α) : Option (List α) :=
  if place < values.length then some (values.set place value) else none

def copyWithin (values : List α) (source target : Nat) : Option (List α) :=
  (values[source]?).bind (store values target)

-- The loop `for i in (low..high).rev()` that moves entry `i` to `i+1`.
def shiftUp (values : List α) (low high : Nat) : Option (List α) :=
  (List.range' low (high-low)).reverse.foldlM (fun moved place => copyWithin moved place (place+1)) values

-- Open a gap at `low` in an array filled up to `high`, and fill it.
def insertAt (values : List α) (low high : Nat) (value : α) : Option (List α) :=
  (shiftUp values low high).bind (store · low value)

def copyFrom (source : List α) (offset count : Nat) (target : List α) : Option (List α) :=
  (List.range count).foldlM (fun copied place => (source[place+offset]?).bind (store copied place)) target

theorem store_middle (front : List α) (old value : α) (back : List α) :
    store (front ++ old :: back) front.length value = some (front ++ value :: back) := by
  rw [store,if_pos (by simp),List.set_append_right _ _ (Nat.le_refl _)]
  simp

theorem copyWithin_next (front : List α) (value old : α) (back : List α) :
    copyWithin (front ++ value :: old :: back) front.length (front.length+1) =
      some (front ++ value :: value :: back) := by
  have found : (front ++ value :: old :: back)[front.length]? = some value := by simp
  have shape : front ++ value :: old :: back = (front ++ [value]) ++ old :: back := by simp
  have length : front.length+1 = (front ++ [value]).length := by simp
  rw [copyWithin,found,Option.bind_some,length,shape,store_middle]
  simp

theorem copyWithin_previous (front : List α) (old value : α) (back : List α) :
    copyWithin (front ++ old :: value :: back) (front.length+1) front.length = some (front ++ value :: value :: back) := by
  have found : (front ++ old :: value :: back)[front.length+1]? = some value := by simp
  rw [copyWithin,found,Option.bind_some,store_middle]

theorem copyDown_moves (front : List α) (old : α) (moved back : List α) :
    ∃ last, (List.range moved.length).foldlM (fun copied place => copyWithin copied (front.length+1+place) (front.length+place))
      (front ++ old :: moved ++ back) = some (front ++ moved ++ last :: back) := by
  induction moved using List.reverseRecOn generalizing back with
  | nil => exact ⟨old,by simp⟩
  | append_singleton moved value ih =>
    obtain ⟨last,copied⟩ := ih (value :: back)
    refine ⟨value,?_⟩
    have shape : front ++ old :: (moved ++ [value]) ++ back = front ++ old :: moved ++ value :: back := by simp
    rw [List.length_append,List.length_singleton,List.range_succ,List.foldlM_append,shape,copied,Option.bind_eq_bind,
      Option.bind_some]
    have next := copyWithin_previous (front ++ moved) last value back
    have ahead : (front ++ moved).length+1 = front.length+1+moved.length := by
      rw [List.length_append]
      omega
    rw [ahead,List.length_append] at next
    rw [List.foldlM_cons,next]
    simp

theorem shiftUp_moves (middle : List α) : ∀ (front back : List α) (old : α),
    ∃ gap, shiftUp (front ++ middle ++ old :: back) front.length (front.length+middle.length) =
      some (front ++ gap :: middle ++ back) := by
  induction middle with
  | nil =>
    intro front back old
    refine ⟨old,?_⟩
    simp [shiftUp]
  | cons first middle ih =>
    intro front back old
    obtain ⟨gap,moved⟩ := ih (front ++ [first]) back old
    refine ⟨first,?_⟩
    have tail : (List.range' (front.length+1) middle.length).reverse.foldlM
        (fun moved place => copyWithin moved place (place+1)) (front ++ first :: middle ++ old :: back) =
        some (front ++ first :: gap :: middle ++ back) := by
      rw [shiftUp] at moved
      simpa using moved
    rw [shiftUp,Nat.add_sub_cancel_left,List.length_cons,List.range'_succ,List.reverse_cons,
      List.foldlM_append,tail]
    have last := copyWithin_next front first gap (middle ++ back)
    simpa using last

theorem insertAt_filled (front middle back : List α) (old value : α) :
    insertAt (front ++ middle ++ old :: back) front.length (front.length+middle.length) value =
      some (front ++ value :: middle ++ back) := by
  obtain ⟨gap,moved⟩ := shiftUp_moves middle front back old
  rw [insertAt,moved,Option.bind_some,List.append_assoc,List.cons_append,store_middle]
  simp

theorem copyFrom_fits (source target : List α) (count offset : Nat) (enough : offset+count ≤ source.length)
    (room : count ≤ target.length) :
    copyFrom source offset count target = some ((source.drop offset).take count ++ target.drop count) := by
  induction count with
  | zero => simp [copyFrom]
  | succ count ih =>
    have inner := ih (by omega) (by omega)
    have front : ((source.drop offset).take count).length = count := by
      rw [List.length_take,List.length_drop]
      omega
    obtain ⟨old,rest,split⟩ : ∃ old rest, target.drop count = old :: rest := by
      cases parts : target.drop count with
      | nil =>
        have ends := List.drop_eq_nil_iff.mp parts
        omega
      | cons old rest => exact ⟨old,rest,rfl⟩
    have next : target.drop (count+1) = rest := by
      rw [← List.tail_drop,split,List.tail_cons]
    have found : source[count+offset]? = some source[count+offset] := List.getElem?_eq_getElem (by omega)
    rw [copyFrom] at inner ⊢
    rw [List.range_succ,List.foldlM_append,inner,split]
    change ((source[count+offset]?).bind (store _ count)).bind some = _
    rw [found,Option.bind_some]
    have placed := store_middle ((source.drop offset).take count) old source[count+offset] rest
    rw [front] at placed
    rw [placed,next,Option.bind_some,List.take_add_one,List.getElem?_drop,Nat.add_comm offset count,found]
    simp

section Sorted

variable {α : Type} (cmp : α → α → Ordering)

def lowerBound (values : List α) (value : α) : Nat := (values.takeWhile fun each => cmp each value = .lt).length

def Ascending (values : List α) : Prop := values.Pairwise fun left right => (cmp left right).isLE

omit cmp in
theorem takeWhile_split (test : α → Bool) (values : List α) :
    ∃ front back, values = front ++ back ∧ (values.takeWhile test).length = front.length ∧
      (∀ each ∈ front, test each = true) ∧ ∀ each ∈ back.head?, test each = false := by
  refine ⟨values.takeWhile test,values.dropWhile test,List.takeWhile_append_dropWhile.symm,rfl,?_,?_⟩
  · intro each member
    exact List.mem_takeWhile_imp member
  · intro each head
    have found := List.head?_dropWhile_not test values
    rw [Option.mem_def.mp head] at found
    simpa using found

theorem lowerBound_split (values : List α) (value : α) :
    ∃ front back, values = front ++ back ∧ lowerBound cmp values value = front.length ∧
      (∀ each ∈ front, cmp each value = .lt) ∧ ∀ each ∈ back.head?, cmp each value ≠ .lt := by
  obtain ⟨front,back,parts,bound,before,behind⟩ :=
    takeWhile_split (fun each => decide (cmp each value = .lt)) values
  refine ⟨front,back,parts,bound,?_,?_⟩
  · intro each member
    simpa using before each member
  · intro each head
    simpa using behind each head

variable {cmp}

theorem Ascending.insert [Std.TransCmp cmp] {front back : List α} {value : α}
    (sorted : Ascending cmp (front ++ back)) (before : ∀ each ∈ front, (cmp each value).isLE)
    (behind : ∀ each ∈ back.head?, (cmp value each).isLE) : Ascending cmp (front ++ value :: back) := by
  obtain ⟨left,right,across⟩ := List.pairwise_append.mp sorted
  have above : ∀ each ∈ back, (cmp value each).isLE := by
    intro each member
    cases back with
    | nil => cases member
    | cons first rest =>
      have start := behind first rfl
      rcases List.mem_cons.mp member with rfl | among
      · exact start
      · exact Std.TransCmp.isLE_trans start (List.rel_of_pairwise_cons right among)
  refine List.pairwise_append.mpr ⟨left,List.Pairwise.cons above right,?_⟩
  intro each member other present
  rcases List.mem_cons.mp present with rfl | among
  · exact before each member
  · exact across each member other among

theorem Ascending.below [Std.TransCmp cmp] {values : List α} {value : α} (sorted : Ascending cmp values)
    (last : ∀ each ∈ values.getLast?, cmp each value = .lt) : ∀ each ∈ values, cmp each value = .lt := by
  intro each member
  obtain ⟨front,final,rfl⟩ := List.eq_nil_or_concat' values |>.resolve_left (List.ne_nil_of_mem member)
  have least := last final (by simp)
  obtain ⟨_,_,across⟩ := List.pairwise_append.mp sorted
  rcases List.mem_append.mp member with early | late
  · exact Std.TransCmp.lt_of_isLE_of_lt (across each early final List.mem_cons_self) least
  · cases List.mem_singleton.mp late
    exact least

theorem Ascending.above [Std.TransCmp cmp] {values : List α} {value : α} (sorted : Ascending cmp values)
    (first : ∀ each ∈ values.head?, cmp each value = .gt) : ∀ each ∈ values, cmp each value = .gt := by
  intro each member
  cases values with
  | nil => cases member
  | cons lead rest =>
    have greatest := first lead rfl
    rcases List.mem_cons.mp member with rfl | late
    · exact greatest
    · have ordered := List.rel_of_pairwise_cons sorted late
      exact Std.TransCmp.gt_of_isGE_of_gt (Std.OrientedCmp.isGE_of_isLE ordered) greatest

end Sorted
end RemDb.Lib
