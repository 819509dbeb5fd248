import Mathlib.Data.List.Basic
import Mathlib.Tactic.Ring
import Mathlib.Tactic.NormNum

namespace RemDb.Lib

abbrev Bytes := List UInt8

-- Fixed-width little-endian naturals. Bits above the width are dropped, which
-- is what a narrowing cast followed by `to_le_bytes` does.
def toLE : Nat → Nat → Bytes
  | 0,_ => []
  | width+1,n => UInt8.ofNat n :: toLE width (n/256)

def ofLE : Bytes → Nat
  | [] => 0
  | b :: rest => b.toNat + 256*ofLE rest

@[simp] theorem toLE_length (width n : Nat) : (toLE width n).length = width := by
  induction width generalizing n with
  | zero => rfl
  | succ width ih => simp [toLE,ih]

theorem ofLE_toLE (width n : Nat) : ofLE (toLE width n) = n % 256^width := by
  induction width generalizing n with
  | zero => simp [toLE,ofLE,Nat.mod_one]
  | succ width ih =>
    have head : (UInt8.ofNat n).toNat = n % 256 := by simp [UInt8.toNat_ofNat']
    rw [toLE,ofLE,ih,head,pow_succ',Nat.mod_mul]

theorem le_roundtrip (small : n < 256^width) : ofLE (toLE width n) = n := by
  rw [ofLE_toLE,Nat.mod_eq_of_lt small]

theorem ofLE_lt (bytes : Bytes) : ofLE bytes < 256^bytes.length := by
  induction bytes with
  | nil => simp [ofLE]
  | cons b rest ih =>
    have bound := b.toNat_lt
    rw [ofLE,List.length_cons,pow_succ]
    omega

theorem toLE_ofLE (bytes : Bytes) : toLE bytes.length (ofLE bytes) = bytes := by
  induction bytes with
  | nil => rfl
  | cons b rest ih =>
    have bound := b.toNat_lt
    have quotient : (b.toNat + 256*ofLE rest)/256 = ofLE rest := by omega
    have head : UInt8.ofNat (b.toNat + 256*ofLE rest) = b := by
      apply UInt8.toNat_inj.mp
      rw [UInt8.toNat_ofNat']
      omega
    rw [List.length_cons,toLE,ofLE,quotient,head,ih]

-- A buffer of fixed size: what does not fit is cut, what is missing is zero.
def padTo (width : Nat) (bytes : Bytes) : Bytes :=
  bytes.take width ++ List.replicate (width-bytes.length) 0

theorem padTo_length (width : Nat) (bytes : Bytes) : (padTo width bytes).length = width := by
  simp only [padTo,List.length_append,List.length_take,List.length_replicate]
  omega

-- A copy of `count` bytes over the front of a buffer, as `memcpy` makes it.
def memcpy (target source : Bytes) (count : Nat) : Bytes :=
  source.take count ++ target.drop count

theorem memcpy_whole (source target : Bytes) (same : source.length = target.length) :
    memcpy target source source.length = source := by
  rw [memcpy,List.take_length,List.drop_eq_nil_of_le (by omega),List.append_nil]

-- One file image and the positioned reads and writes on it. A read past the
-- end is short; a write past the end fills the gap with zeros, as a seek does.
def readAt (file : Bytes) (offset count : Nat) : Bytes := (file.drop offset).take count

def writeAt (file : Bytes) (offset : Nat) (bytes : Bytes) : Bytes :=
  file.take offset ++ List.replicate (offset-file.length) 0 ++ bytes ++
    file.drop (offset+bytes.length)

theorem readAt_length (file : Bytes) (offset count : Nat) :
    (readAt file offset count).length = min count (file.length-offset) := by
  simp [readAt]

theorem writeAt_length (file : Bytes) (offset : Nat) (bytes : Bytes) :
    (writeAt file offset bytes).length = max file.length (offset+bytes.length) := by
  simp only [writeAt,List.length_append,List.length_take,List.length_replicate,List.length_drop]
  omega

theorem writeAt_front (old new rest : Bytes) (same : new.length = old.length) :
    writeAt (old ++ rest) 0 new = new ++ rest := by
  simp [writeAt,same]

theorem readAt_append (before middle after : Bytes) :
    readAt (before ++ (middle ++ after)) before.length middle.length = middle := by
  simp [readAt]

theorem readAt_skip (before rest : Bytes) (offset count : Nat) :
    readAt (before ++ rest) (before.length+offset) count = readAt rest offset count := by
  rw [readAt,readAt,← List.drop_drop,List.drop_left]

theorem readAt_front (file : Bytes) (count : Nat) : readAt file 0 count = file.take count := by
  simp [readAt]

theorem readAt_getElem? (file : Bytes) (offset count index : Nat) (inside : index < count) :
    (readAt file offset count)[index]? = file[offset+index]? := by
  rw [readAt,List.getElem?_take_of_lt inside,List.getElem?_drop]

theorem readAt_ext (same : ∀ index, index < count → left[offset+index]? = right[offset+index]?) :
    readAt left offset count = readAt right offset count := by
  apply List.ext_getElem?
  intro index
  by_cases inside : index < count
  · rw [readAt_getElem? _ _ _ _ inside,readAt_getElem? _ _ _ _ inside]
    exact same index inside
  · have short (file : Bytes) : (readAt file offset count).length ≤ index := by
      rw [readAt_length]
      omega
    rw [List.getElem?_eq_none (short left),List.getElem?_eq_none (short right)]

theorem writeAt_getElem?_outside (file bytes : Bytes) (offset index : Nat)
    (inside : index < file.length)
    (outside : index < offset ∨ offset+bytes.length ≤ index) :
    (writeAt file offset bytes)[index]? = file[index]? := by
  rcases outside with before | after
  · rw [writeAt,List.append_assoc,List.append_assoc,List.getElem?_append_left (by simp; omega),
      List.getElem?_take_of_lt before]
  · have padding : offset-file.length = 0 := by omega
    have taken : (file.take offset).length = offset := by simp; omega
    simp only [writeAt,padding,List.replicate_zero,List.append_nil]
    rw [List.getElem?_append_right (by simp only [List.length_append,taken]; omega),
      List.getElem?_drop]
    congr 1
    simp only [List.length_append,taken]
    omega

-- Frame rule: a write keeps every range of the file it does not touch.
theorem readAt_writeAt_frame (file bytes : Bytes) (offset position count : Nat)
    (inside : position+count ≤ file.length)
    (apart : position+count ≤ offset ∨ offset+bytes.length ≤ position) :
    readAt (writeAt file offset bytes) position count = readAt file position count := by
  apply readAt_ext
  intro index bound
  exact writeAt_getElem?_outside _ _ _ _ (by omega) (by omega)

theorem readAt_writeAt_self (file bytes : Bytes) (offset : Nat) :
    readAt (writeAt file offset bytes) offset bytes.length = bytes := by
  have front : (file.take offset ++ List.replicate (offset-file.length) 0).length = offset := by
    simp only [List.length_append,List.length_take,List.length_replicate]
    omega
  have cut := readAt_append (file.take offset ++ List.replicate (offset-file.length) 0) bytes
    (file.drop (offset+bytes.length))
  rw [front] at cut
  simpa [writeAt,List.append_assoc] using cut

-- A file as the list of positioned writes that produced it. The prefixes of
-- that list, cut inside a write as well, are the images a crash can leave.
structure Write where
  offset : Nat
  bytes : Bytes
deriving DecidableEq,Repr

def Write.apply (file : Bytes) (write : Write) : Bytes := writeAt file write.offset write.bytes

def applyWrites (file : Bytes) (writes : List Write) : Bytes := writes.foldl Write.apply file

def cutWrites : List Write → Nat → List Write
  | [],_ => []
  | write :: rest,count =>
    if write.bytes.length ≤ count then write :: cutWrites rest (count-write.bytes.length)
    else if count = 0 then [] else [⟨write.offset,write.bytes.take count⟩]

theorem applyWrites_append (file : Bytes) (first second : List Write) :
    applyWrites file (first ++ second) = applyWrites (applyWrites file first) second := by
  simp [applyWrites]

theorem applyWrites_length_ge (file : Bytes) (writes : List Write) :
    file.length ≤ (applyWrites file writes).length := by
  induction writes generalizing file with
  | nil => exact Nat.le_refl _
  | cons write rest ih =>
    have grown : file.length ≤ (write.apply file).length := by
      rw [Write.apply,writeAt_length]
      omega
    exact grown.trans (ih _)

theorem readAt_applyWrites_frame (file : Bytes) (writes : List Write) (position count : Nat)
    (inside : position+count ≤ file.length)
    (apart : ∀ write ∈ writes, position+count ≤ write.offset ∨
      write.offset+write.bytes.length ≤ position) :
    readAt (applyWrites file writes) position count = readAt file position count := by
  induction writes generalizing file with
  | nil => rfl
  | cons write rest ih =>
    have grown : file.length ≤ (write.apply file).length := by
      rw [Write.apply,writeAt_length]
      omega
    have tail := ih (write.apply file) (by omega)
      (fun later member => apart later (List.mem_cons_of_mem _ member))
    exact tail.trans (readAt_writeAt_frame _ _ _ _ _ inside (apart write List.mem_cons_self))

end RemDb.Lib
