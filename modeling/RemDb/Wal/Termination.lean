import RemDb.Wal.Scan

namespace RemDb.Wal
open RemDb.Lib

namespace LogManager

-- One round of the loop: where the next one starts and with which counter.
-- `none` is a round that leaves it.
def turn (codecs : Codecs) (manager : LogManager) (file : Bytes) (offset : Nat) (invalid : UInt32) :
    Option (Nat × UInt32) :=
  if offset < file.length then
    if (readAt file offset logItemSize).length = logItemSize then
      match itemAt codecs (.ofByte manager.header.compression_type) file offset with
      | some item => some (offset+advance item,0)
      | none =>
        let skipped := usizeAdd offset manager.skip_block_size
        if invalid+1 = manager.skip_threshold ∧ 0 < manager.max_skip_attempts ∧
            skipped < file.length then some (skipped,0)
        else if invalid+1 > manager.max_consecutive_invalid then none
        else some (offset+logItemSize,invalid+1)
    else none
  else none

theorem scanFrom_turn (codecs : Codecs) (manager : LogManager) (file : Bytes) (fuel offset : Nat)
    (invalid : UInt32) :
    (manager.scanFrom codecs file (fuel+1) offset invalid).isSome =
      match manager.turn codecs file offset invalid with
      | none => true
      | some (next,counted) => (manager.scanFrom codecs file fuel next counted).isSome := by
  rw [scanFrom,turn]
  by_cases inside : offset < file.length
  · rw [if_pos inside,if_pos inside]
    by_cases whole : (readAt file offset logItemSize).length = logItemSize
    · rw [if_pos whole,if_pos whole]
      cases itemAt codecs (.ofByte manager.header.compression_type) file offset with
      | some item => simp only [Option.isSome_map]
      | none =>
        dsimp only
        by_cases skip : invalid+1 = manager.skip_threshold ∧ 0 < manager.max_skip_attempts ∧
            usizeAdd offset manager.skip_block_size < file.length
        · rw [if_pos skip,if_pos skip]
        · rw [if_neg skip,if_neg skip]
          by_cases many : invalid+1 > manager.max_consecutive_invalid
          · rw [if_pos many,if_pos many]
            rfl
          · rw [if_neg many,if_neg many]
    · rw [if_neg whole,if_neg whole]
      rfl
  · rw [if_neg inside,if_neg inside]
    rfl

-- The loop comes to an end from here.
def Ends (codecs : Codecs) (manager : LogManager) (file : Bytes) (offset : Nat) (invalid : UInt32) : Prop :=
  ∃ fuel, (manager.scanFrom codecs file fuel offset invalid).isSome

theorem Ends.iff_scans : Ends codecs manager file logRegionStart 0 ↔
    ∃ found, manager.Scans codecs file found := by
  constructor
  · intro ⟨fuel,ended⟩
    obtain ⟨found,scanned⟩ := Option.isSome_iff_exists.mp ended
    exact ⟨found,fuel,scanned⟩
  · intro ⟨found,fuel,scanned⟩
    exact ⟨fuel,Option.isSome_iff_exists.mpr ⟨found,scanned⟩⟩

theorem Ends.stop (left : manager.turn codecs file offset invalid = none) :
    Ends codecs manager file offset invalid := by
  refine ⟨1,?_⟩
  rw [scanFrom_turn,left]

theorem Ends.go (goes : manager.turn codecs file offset invalid = some (next,counted)) :
    Ends codecs manager file offset invalid ↔ Ends codecs manager file next counted := by
  constructor
  · rintro ⟨fuel,ended⟩
    cases fuel with
    | zero => simp [scanFrom] at ended
    | succ fuel =>
      rw [scanFrom_turn,goes] at ended
      exact ⟨fuel,ended⟩
  · rintro ⟨fuel,ended⟩
    refine ⟨fuel+1,?_⟩
    rw [scanFrom_turn,goes]
    exact ended

-- A round that comes back to where it started is repeated forever.
theorem Ends.stuck (again : manager.turn codecs file offset invalid = some (offset,invalid)) :
    ¬ Ends codecs manager file offset invalid := by
  intro ⟨fuel,ended⟩
  induction fuel with
  | zero => simp [scanFrom] at ended
  | succ fuel ih =>
    rw [scanFrom_turn,again] at ended
    exact ih ended

-- How many headers in a row the scan turns down before it tries to skip. The
-- counter passes through zero again before a threshold of zero is met.
def skipCount (manager : LogManager) : Nat :=
  if manager.skip_threshold = 0 then 2^32 else manager.skip_threshold.toNat

theorem skipCount_iff (manager : LogManager) (invalid : UInt32) :
    invalid+1 = manager.skip_threshold ↔ invalid.toNat+1 = manager.skipCount := by
  have small := invalid.toNat_lt
  have bound := manager.skip_threshold.toNat_lt
  have sum : (invalid+1).toNat = (invalid.toNat+1) % 2^32 := by simp [UInt32.toNat_add]
  rw [← UInt32.toNat_inj,sum,skipCount]
  split
  · rename_i zero
    rw [zero,UInt32.toNat_zero]
    omega
  · rename_i filled
    have positive : manager.skip_threshold.toNat ≠ 0 := by
      intro zero
      exact filled (UInt32.toNat_inj.mp zero)
    omega

theorem skipCount_pos (manager : LogManager) : 0 < manager.skipCount := by
  unfold skipCount
  split
  · decide
  · rename_i filled
    have positive : manager.skip_threshold.toNat ≠ 0 := by
      intro zero
      exact filled (UInt32.toNat_inj.mp zero)
    omega

-- Skipping leads past the headers it was preceded by, or never happens.
def SkipsAhead (manager : LogManager) (size : Nat) : Prop :=
  manager.max_skip_attempts = 0 ∨ manager.max_consecutive_invalid.toNat+1 < manager.skipCount ∨
    ∀ offset, offset < size → usizeAdd offset manager.skip_block_size < size →
      offset < usizeAdd offset manager.skip_block_size+logItemSize*(manager.skipCount-1)

-- What a round does that goes on after a header it turned down: the offset where
-- the row of such headers started moves ahead, or the row grows by one.
theorem turn_turned {codecs : Codecs} {manager : LogManager} {file : Bytes} {base next : Nat}
    {invalid after : UInt32} (ahead : manager.SkipsAhead file.length)
    (refused : itemAt codecs (.ofByte manager.header.compression_type) file (base+logItemSize*invalid.toNat) = none)
    (counted : invalid.toNat ≤ manager.max_consecutive_invalid.toNat)
    (goes : manager.turn codecs file (base+logItemSize*invalid.toNat) invalid = some (next,after)) :
    (base < next ∧ after = 0) ∨
      (next = base+logItemSize*after.toNat ∧ after.toNat = invalid.toNat+1 ∧
        after.toNat ≤ manager.max_consecutive_invalid.toNat) := by
  have small := invalid.toNat_lt
  have width : logItemSize = 32 := rfl
  unfold turn at goes
  split at goes
  · rename_i inside
    split at goes
    · rw [refused] at goes
      dsimp only at goes
      split at goes
      · rename_i skip
        obtain ⟨rfl,rfl⟩ := Prod.mk.inj (Option.some.inj goes)
        refine Or.inl ⟨?_,rfl⟩
        have reached := (manager.skipCount_iff invalid).mp skip.1
        rcases ahead with never | early | past
        · rw [never] at skip
          exact absurd skip.2.1 (by decide)
        · omega
        · have ahead := past _ inside skip.2.2
          rw [← reached,Nat.add_sub_cancel] at ahead
          omega
      · split at goes
        · cases goes
        · rename_i few
          obtain ⟨rfl,rfl⟩ := Prod.mk.inj (Option.some.inj goes)
          have sum : (invalid+1).toNat = (invalid.toNat+1) % 2^32 := by simp [UInt32.toNat_add]
          have allowed : (invalid+1).toNat ≤ manager.max_consecutive_invalid.toNat :=
            UInt32.le_iff_toNat_le.mp (UInt32.not_lt.mp few)
          -- The counter itself may pass through zero; the row then starts anew.
          by_cases wraps : invalid.toNat+1 = 2^32
          · refine Or.inl ⟨by omega,?_⟩
            rw [← UInt32.toNat_inj,sum,wraps]
            rfl
          · refine Or.inr ⟨?_,by omega,allowed⟩
            rw [sum,Nat.mod_eq_of_lt (by omega),width]
            omega
    · cases goes
  · cases goes

-- By what is left of the file behind the row, then by what is left of the counter.
theorem ends_from (codecs : Codecs) (manager : LogManager) (file : Bytes)
    (ahead : manager.SkipsAhead file.length) (base : Nat) (invalid : UInt32)
    (counted : invalid.toNat ≤ manager.max_consecutive_invalid.toNat) :
    Ends codecs manager file (base+logItemSize*invalid.toNat) invalid := by
  cases goes : manager.turn codecs file (base+logItemSize*invalid.toNat) invalid with
  | none => exact Ends.stop goes
  | some result =>
    obtain ⟨next,after⟩ := result
    have inside : base+logItemSize*invalid.toNat < file.length := by
      by_contra outside
      simp [turn,outside] at goes
    have restart : base < next → after = 0 → Ends codecs manager file next after := by
      intro later fresh
      have started := ends_from codecs manager file ahead next 0 (Nat.zero_le _)
      rw [fresh]
      exact started
    rw [Ends.go goes]
    cases taken : itemAt codecs (.ofByte manager.header.compression_type) file (base+logItemSize*invalid.toNat) with
    | some item =>
      have whole : (readAt file (base+logItemSize*invalid.toNat) logItemSize).length = logItemSize := by
        by_contra short
        simp [turn,short] at goes
      rw [turn,if_pos inside,if_pos whole,taken] at goes
      obtain ⟨rfl,rfl⟩ := Prod.mk.inj (Option.some.inj goes)
      have step : logItemSize ≤ advance item := by simp only [advance]; omega
      have width : logItemSize = 32 := rfl
      exact restart (by omega) rfl
    | none =>
      rcases turn_turned ahead taken counted goes with ⟨later,fresh⟩ | ⟨rfl,grown,allowed⟩
      · exact restart later fresh
      · exact ends_from codecs manager file ahead base after allowed
termination_by (file.length-base,2^32-invalid.toNat)
decreasing_by
  · simp_wf
    exact Prod.Lex.left _ _ (by omega)
  · have bound := after.toNat_lt
    simp_wf
    exact Prod.Lex.right _ (by omega)

-- The offsets the scan comes to over items alone.
inductive TakenTo (codecs : Codecs) (manager : LogManager) (file : Bytes) : Nat → Prop where
  | start : TakenTo codecs manager file logRegionStart
  | item (reached : TakenTo codecs manager file offset) (inside : offset < file.length)
      (whole : (readAt file offset logItemSize).length = logItemSize)
      (taken : itemAt codecs (.ofByte manager.header.compression_type) file offset = some item) :
      TakenTo codecs manager file (offset+advance item)

-- The items end before a header the scan turns down, not with the file.
def MeetsInvalid (codecs : Codecs) (manager : LogManager) (file : Bytes) : Prop :=
  ∃ offset, TakenTo codecs manager file offset ∧ offset < file.length ∧
    (readAt file offset logItemSize).length = logItemSize ∧
      itemAt codecs (.ofByte manager.header.compression_type) file offset = none

theorem TakenTo.ends (reached : TakenTo codecs manager file offset) :
    Ends codecs manager file logRegionStart 0 ↔ Ends codecs manager file offset 0 := by
  induction reached with
  | start => rfl
  | item reached inside whole taken ih =>
    refine ih.trans (Ends.go ?_)
    rw [turn,if_pos inside,if_pos whole,taken]

theorem ends_taken (clean : ¬ MeetsInvalid codecs manager file) (reached : TakenTo codecs manager file offset) :
    Ends codecs manager file offset 0 := by
  by_cases inside : offset < file.length
  · by_cases whole : (readAt file offset logItemSize).length = logItemSize
    · cases taken : itemAt codecs (.ofByte manager.header.compression_type) file offset with
      | none => exact absurd ⟨offset,reached,inside,whole,taken⟩ clean
      | some item =>
        have goes : manager.turn codecs file offset 0 = some (offset+advance item,0) := by
          rw [turn,if_pos inside,if_pos whole,taken]
        rw [Ends.go goes]
        exact ends_taken clean (.item reached inside whole taken)
    · exact Ends.stop (by rw [turn,if_pos inside,if_neg whole])
  · exact Ends.stop (by rw [turn,if_neg inside])
termination_by file.length-offset
decreasing_by
  have width : logItemSize = 32 := rfl
  simp only [advance]
  omega

-- Where the additions do not wrap, a skip that does not lead ahead is one by
-- nothing, taken at the first header that is turned down.
theorem behind {manager : LogManager} {file : Bytes} (small : file.length+manager.skip_block_size ≤ usizeLimit)
    (stuck : ¬ manager.SkipsAhead file.length) :
    0 < manager.max_skip_attempts ∧ manager.skip_threshold = 1 ∧ manager.skip_block_size = 0 := by
  simp only [SkipsAhead,not_or,not_forall,Nat.not_lt] at stuck
  obtain ⟨attempts,_,offset,inside,_,behind⟩ := stuck
  have width : logItemSize = 32 := rfl
  rw [usizeAdd_of_lt (by omega),width] at behind
  have positive := manager.skipCount_pos
  have once : manager.skipCount = 0+1 := by omega
  have first := (manager.skipCount_iff 0).mpr once.symm
  refine ⟨?_,first.symm,by omega⟩
  rw [UInt32.lt_iff_toNat_lt]
  have filled : manager.max_skip_attempts.toNat ≠ 0 := by
    intro zero
    exact attempts (UInt32.toNat_inj.mp zero)
  exact Nat.pos_of_ne_zero filled

-- The scan ends when its skips lead ahead, or when it meets nothing to skip. As
-- long as the additions do not wrap it ends in no other case.
theorem scan_terminates (codecs : Codecs) (manager : LogManager) (file : Bytes) :
    (manager.SkipsAhead file.length ∨ ¬ manager.MeetsInvalid codecs file →
      ∃ found, manager.Scans codecs file found) ∧
    (file.length+manager.skip_block_size ≤ usizeLimit → (∃ found, manager.Scans codecs file found) →
      manager.SkipsAhead file.length ∨ ¬ manager.MeetsInvalid codecs file) := by
  constructor
  · intro fine
    apply Ends.iff_scans.mp
    rcases fine with ahead | clean
    · exact ends_from codecs manager file ahead logRegionStart 0 (Nat.zero_le _)
    · exact ends_taken clean .start
  · intro small scanned
    by_contra bad
    obtain ⟨stuck,met⟩ := not_or.mp bad
    obtain ⟨attempts,threshold,block⟩ := behind small stuck
    obtain ⟨offset,reached,inside,whole,refused⟩ := not_not.mp met
    have ended := reached.ends.mp (Ends.iff_scans.mpr scanned)
    have here : usizeAdd offset manager.skip_block_size = offset := by
      rw [block]
      exact usizeAdd_of_lt (by omega)
    have again : manager.turn codecs file offset 0 = some (offset,0) := by
      rw [turn,if_pos inside,if_pos whole,refused]
      dsimp only
      rw [here,if_pos ⟨threshold.symm,attempts,inside⟩]
    exact Ends.stuck again ended

-- A configuration that tries to skip at the first bad header and skips nothing.
def hasty : WALConfig := {WALConfig.standard with skip_threshold:=1,skip_block_size:=0}

-- It never gets past the zeros of a file that has room for one record.
theorem hasty_scan_never_ends : ¬ ∀ (codecs : Codecs) (manager : LogManager) (file : Bytes),
    ∃ found, manager.Scans codecs file found := by
  intro always
  have again : (initial hasty 0 ⟨[],[]⟩).turn plainBuild (List.replicate (logRegionStart+logItemSize) 0) logRegionStart 0 =
      some (logRegionStart,0) := by decide +kernel
  exact Ends.stuck again (Ends.iff_scans.mpr (always plainBuild (initial hasty 0 ⟨[],[]⟩) _))

end LogManager
end RemDb.Wal
