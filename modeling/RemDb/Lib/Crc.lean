import Mathlib.Data.List.GetD

namespace RemDb.Lib.Crc
variable {w : Nat} {poly : BitVec w}

def step (poly crc : BitVec w) (bit : Bool) : BitVec w :=
  (crc <<< 1) ^^^ (if crc.msb ^^ bit then poly else 0#w)

-- The division, bit by bit.
def divide (poly crc : BitVec w) (bits : List Bool) : BitVec w := bits.foldl (step poly) crc

-- A few bits as the highest ones of a register.
def word : List Bool → BitVec w
  | [] => 0#w
  | bit :: rest => (if bit then BitVec.twoPow w (w-1) else 0#w) ^^^ (word rest >>> 1)

theorem word_bit (bits : List Bool) (place : Nat) (inside : place < w) :
    (word bits : BitVec w).getMsbD place = bits.getD place false := by
  induction bits generalizing place with
  | nil => simp [word]
  | cons bit rest ih =>
    rw [word,BitVec.getMsbD_xor,BitVec.getMsbD_ushiftRight]
    have top : w-(w-1)-1 = 0 := by omega
    have room : w-1 < w := by omega
    cases place with
    | zero => cases bit <;> simp [BitVec.getMsbD_twoPow,top,room]
    | succ place =>
      have later := ih place (by omega)
      cases bit <;> simp [BitVec.getMsbD_twoPow,later,inside,top]

theorem word_zero (bits : List Bool) (short : bits.length ≤ w) :
    (word bits : BitVec w) = 0#w ↔ ∀ bit ∈ bits, bit = false := by
  constructor
  · intro zero bit member
    obtain ⟨place,inside,rfl⟩ := List.getElem_of_mem member
    have held := word_bit bits place (w:=w) (by omega)
    rw [zero,BitVec.getMsbD_zero,List.getD_eq_getElem _ _ inside] at held
    exact held.symm
  · intro clear
    apply BitVec.eq_of_getMsbD_eq
    intro place inside
    rw [word_bit bits place inside,BitVec.getMsbD_zero]
    by_cases within : place < bits.length
    · rw [List.getD_eq_getElem _ _ within]
      exact clear _ (List.getElem_mem within)
    · exact List.getD_eq_default _ _ (by omega)

section Linear

theorem taken_xor (one two : Bool) :
    (if one ^^ two then poly else 0#w) = (if one then poly else 0#w) ^^^ (if two then poly else 0#w) := by
  cases one <;> cases two <;> simp

-- The step is linear in the register and the bit together.
theorem step_xor (left right : BitVec w) (one two : Bool) :
    step poly (left ^^^ right) (one ^^ two) = step poly left one ^^^ step poly right two := by
  have bits : ((left ^^^ right).msb ^^ (one ^^ two)) = ((left.msb ^^ one) ^^ (right.msb ^^ two)) := by
    rw [BitVec.msb_xor]
    cases left.msb <;> cases right.msb <;> cases one <;> cases two <;> rfl
  unfold step
  rw [bits,taken_xor,BitVec.shiftLeft_xor_distrib]
  ac_rfl

theorem divide_xor (poly left right : BitVec w) (one two : List Bool) (same : one.length = two.length) :
    divide poly (left ^^^ right) (List.zipWith (· ^^ ·) one two) = divide poly left one ^^^ divide poly right two := by
  induction one generalizing left right two with
  | nil =>
    obtain rfl := List.length_eq_zero_iff.mp same.symm
    rfl
  | cons bit one ih =>
    cases two with
    | nil => cases same
    | cons other two =>
      have later := ih (step poly left bit) (step poly right other) two (Nat.succ.inj same)
      rw [← step_xor] at later
      exact later

theorem divide_append (crc : BitVec w) (front back : List Bool) :
    divide poly crc (front ++ back) = divide poly (divide poly crc front) back := List.foldl_append

end Linear

section Odd
variable (odd : poly.getLsbD 0 = true)
include odd

-- The lowest bit of the register says whether the polynomial was taken off, so
-- that the step can be taken back.
theorem step_eq_word (crc : BitVec w) (bit : Bool) (rest : List Bool) (short : rest.length < w) :
    step poly crc bit = word rest ↔ crc = word (bit :: rest) := by
  have wide : 0 < w := by omega
  have lowest : (word rest : BitVec w).getMsbD (w-1) = false := by
    rw [word_bit rest _ (by omega)]
    exact List.getD_eq_default _ _ (by omega)
  have taken : (step poly crc bit).getMsbD (w-1) = (crc.msb ^^ bit) := by
    have back : w-1-(w-1) = 0 := by omega
    have last : poly.getMsbD (w-1) = true := by
      have inside : w-1 < w := by omega
      rw [BitVec.getMsbD_eq_getLsbD,back,odd,decide_eq_true inside]
      rfl
    rw [step,BitVec.getMsbD_xor,BitVec.getMsbD_shiftLeft,BitVec.getMsbD_of_ge _ _ (by omega)]
    cases crc.msb <;> cases bit <;> simp [last]
  have moved (fallen : (crc.msb ^^ bit) = false) (place : Nat) :
      (step poly crc bit).getMsbD place = crc.getMsbD (place+1) := by
    rw [step,fallen,if_neg Bool.false_ne_true,BitVec.xor_zero,BitVec.getMsbD_shiftLeft]
  constructor
  · intro same
    have fallen : (crc.msb ^^ bit) = false := by rw [← taken,same,lowest]
    apply BitVec.eq_of_getMsbD_eq
    intro place inside
    rw [word_bit _ _ inside]
    cases place with
    | zero =>
      rw [← BitVec.msb_eq_getMsbD_zero]
      simpa using fallen
    | succ place =>
      rw [← moved fallen,same,word_bit _ _ (by omega)]
      rfl
  · intro same
    have first : crc.msb = bit := by
      rw [BitVec.msb_eq_getMsbD_zero,same,word_bit _ _ wide]
      rfl
    have fallen : (crc.msb ^^ bit) = false := by rw [first,Bool.xor_self]
    apply BitVec.eq_of_getMsbD_eq
    intro place inside
    rw [moved fallen,word_bit _ _ inside]
    by_cases within : place+1 < w
    · rw [same,word_bit _ _ within]
      rfl
    · rw [BitVec.getMsbD_of_ge _ _ (by omega)]
      exact (List.getD_eq_default _ _ (by omega)).symm

theorem divide_eq_zero (crc : BitVec w) (bits : List Bool) (short : bits.length ≤ w) :
    divide poly crc bits = 0#w ↔ crc = word bits := by
  induction bits generalizing crc with
  | nil => exact Iff.rfl
  | cons bit rest ih =>
    have within : rest.length < w := short
    exact (ih (step poly crc bit) (by omega)).trans (step_eq_word odd crc bit rest within)

theorem divide_zeros (wide : 0 < w) (crc : BitVec w) (count : Nat) :
    divide poly crc (List.replicate count false) = 0#w ↔ crc = 0#w := by
  induction count generalizing crc with
  | zero => exact Iff.rfl
  | succ count ih =>
    have clear : (word [false] : BitVec w) = 0#w := (word_zero [false] wide).mpr (by simp)
    have back := step_eq_word odd crc false [] wide
    rw [clear] at back
    exact (ih (step poly crc false)).trans back

theorem divide_clear (wide : 0 < w) (crc : BitVec w) (bits : List Bool) (clear : ∀ bit ∈ bits, bit = false) :
    divide poly crc bits = 0#w ↔ crc = 0#w := by
  rw [List.eq_replicate_of_mem clear]
  exact divide_zeros odd wide crc _

-- What stands between clear bits and is no longer than the register is seen.
theorem divide_window (wide : 0 < w) (before window after : List Bool) (short : window.length ≤ w)
    (clear_before : ∀ bit ∈ before, bit = false) (clear_after : ∀ bit ∈ after, bit = false)
    (unseen : divide poly 0#w (before ++ window ++ after) = 0#w) : ∀ bit ∈ window, bit = false := by
  have start : divide poly 0#w before = 0#w := (divide_clear odd wide _ _ clear_before).mpr rfl
  rw [divide_append,divide_clear odd wide _ _ clear_after,divide_append,start,divide_eq_zero odd _ _ short] at unseen
  exact (word_zero window short).mp unseen.symm

end Odd

section Burst

theorem zip_clear_at {left right : List Bool} {place : Nat} (equal : left[place]? = right[place]?) :
    (List.zipWith (· ^^ ·) left right)[place]? ≠ some true := by
  rw [List.getElem?_zipWith,equal]
  cases right[place]? with
  | none => nofun
  | some bit => cases bit <;> decide

theorem zip_clear {left right : List Bool} (same : left.length = right.length)
    (clear : ∀ bit ∈ List.zipWith (· ^^ ·) left right, bit = false) : left = right := by
  apply List.ext_getElem same
  intro place inside within
  have shared : place < (List.zipWith (· ^^ ·) left right).length := by
    rw [List.length_zipWith]
    omega
  have held := clear _ (List.getElem_mem shared)
  rw [List.getElem_zipWith] at held
  simpa using held

-- Two messages of one length that differ within a window as wide as the
-- register leave different remainders.
theorem burst_detected (odd : poly.getLsbD 0 = true) (wide : 0 < w) (init : BitVec w) {left right : List Bool}
    (same : left.length = right.length) (start : Nat)
    (inside : ∀ place, left[place]? ≠ right[place]? → start ≤ place ∧ place < start+w)
    (equal : divide poly init left = divide poly init right) : left = right := by
  have unseen := divide_xor poly init init left right same
  rw [BitVec.xor_self,equal,BitVec.xor_self] at unseen
  revert unseen
  have clear (place : Nat) (outside : ¬ (start ≤ place ∧ place < start+w)) :
      (List.zipWith (· ^^ ·) left right)[place]? ≠ some true :=
    zip_clear_at (not_not.mp (mt (inside place) outside))
  have back := zip_clear same
  revert clear back
  generalize List.zipWith (· ^^ ·) left right = difference
  intro clear back unseen
  have pieces : difference = difference.take start ++ (difference.drop start).take w ++ (difference.drop start).drop w := by
    rw [List.append_assoc,List.take_append_drop,List.take_append_drop]
  have before : ∀ bit ∈ difference.take start, bit = false := by
    intro bit member
    obtain ⟨place,within,rfl⟩ := List.getElem_of_mem member
    rw [List.length_take] at within
    have known := clear place (by omega)
    rw [List.getElem?_eq_getElem (by omega)] at known
    rw [List.getElem_take]
    simpa using known
  have after : ∀ bit ∈ (difference.drop start).drop w, bit = false := by
    intro bit member
    rw [List.drop_drop] at member
    obtain ⟨place,within,rfl⟩ := List.getElem_of_mem member
    rw [List.length_drop] at within
    have known := clear (start+w+place) (by omega)
    rw [List.getElem?_eq_getElem (by omega)] at known
    rw [List.getElem_drop]
    simpa using known
  rw [pieces] at unseen
  have window := divide_window odd wide _ _ _ (List.length_take_le w _) before after unseen
  apply back
  intro bit member
  rw [pieces] at member
  rcases List.mem_append.mp member with member | member
  · rcases List.mem_append.mp member with member | member
    · exact before bit member
    · exact window bit member
  · exact after bit member

end Burst

section Table

theorem zip_self (bits : List Bool) : List.zipWith (· ^^ ·) bits bits = List.replicate bits.length false := by
  induction bits with
  | nil => rfl
  | cons bit rest ih => rw [List.zipWith_cons_cons,ih,Bool.xor_self,List.length_cons,List.replicate_succ]

-- A few bits may as well be put into the register at once.
theorem divide_chunk (odd : poly.getLsbD 0 = true) (crc : BitVec w) (bits : List Bool) (short : bits.length ≤ w) :
    divide poly crc bits = divide poly (crc ^^^ word bits) (List.replicate bits.length false) := by
  have linear := divide_xor poly crc (word bits) bits bits rfl
  rw [zip_self,(divide_eq_zero odd (word bits) bits short).mpr rfl,BitVec.xor_zero] at linear
  exact linear.symm

theorem divide_low (crc : BitVec w) (count : Nat) (clear : ∀ place, place < count → crc.getMsbD place = false) :
    divide poly crc (List.replicate count false) = crc <<< count := by
  induction count generalizing crc with
  | zero => exact (BitVec.shiftLeft_zero crc).symm
  | succ count ih =>
    have first : step poly crc false = crc <<< 1 := by
      rw [step,BitVec.msb_eq_getMsbD_zero,clear 0 (Nat.succ_pos _)]
      exact BitVec.xor_zero
    have rest : ∀ place, place < count → (crc <<< 1).getMsbD place = false := by
      intro place inside
      rw [BitVec.getMsbD_shiftLeft]
      exact clear _ (by omega)
    rw [Nat.add_comm count 1,BitVec.shiftLeft_add,← ih _ rest,← first,Nat.add_comm 1 count]
    rfl

-- The table: what the highest bits of the register become, and the others move up.
theorem divide_table (crc : BitVec w) (count : Nat) (short : count ≤ w) :
    divide poly crc (List.replicate count false) =
      (crc <<< count) ^^^ divide poly ((crc >>> (w-count)) <<< (w-count)) (List.replicate count false) := by
  generalize high : (crc >>> (w-count)) <<< (w-count) = top
  have gone : top <<< count = 0#w := by
    rw [← high,← BitVec.shiftLeft_add,show w-count+count = w by omega]
    exact BitVec.shiftLeft_eq_zero (Nat.le_refl _)
  have low : ∀ place, place < count → (crc ^^^ top).getMsbD place = false := by
    intro place inside
    have back : place+(w-count)-(w-count) = place := by omega
    have within : place+(w-count) < w := by omega
    have kept : ¬ place+(w-count) < w-count := by omega
    rw [BitVec.getMsbD_xor,← high,BitVec.getMsbD_shiftLeft,BitVec.getMsbD_ushiftRight,back]
    simp [within]
  have linear := divide_xor poly (crc ^^^ top) top (List.replicate count false) (List.replicate count false) rfl
  rw [zip_self,List.length_replicate,BitVec.xor_assoc,BitVec.xor_self,BitVec.xor_zero,divide_low _ _ low,
    BitVec.shiftLeft_xor_distrib,gone,BitVec.xor_zero] at linear
  exact linear

end Table

end RemDb.Lib.Crc
