import Mathlib.Data.List.TakeWhile
import RemDb.PubSub.Reuse

namespace RemDb
open RemDb.Lib

namespace TTLHeapEntry
variable {left right third : TTLHeapEntry}

theorem before_expire (ordered : left.before right = true) : left.expire_time ≤ right.expire_time := by
  rcases of_decide_eq_true ordered with earlier | ⟨same,_⟩
  · exact UInt64.le_of_lt earlier
  · exact same ▸ UInt64.le_refl _

theorem before_trans (first : left.before right = true) (second : right.before third = true) :
    left.before third = true := by
  have one := of_decide_eq_true first
  have two := of_decide_eq_true second
  apply decide_eq_true
  simp only [UInt64.lt_iff_toNat_lt,← UInt64.toNat_inj] at one two ⊢
  omega

theorem before_of_not (behind : ¬ left.before right = true) : right.before left = true := by
  have other : ¬ (_ ∨ _) := fun ordered => behind (decide_eq_true ordered)
  apply decide_eq_true
  simp only [UInt64.lt_iff_toNat_lt,← UInt64.toNat_inj] at other ⊢
  omega

end TTLHeapEntry

def Heaped (heap : List TTLHeapEntry) : Prop := heap.Pairwise fun left right => left.before right = true

theorem mem_pushEntry {entry each : TTLHeapEntry} {heap : List TTLHeapEntry} :
    each ∈ pushEntry entry heap ↔ each = entry ∨ each ∈ heap := by
  constructor
  · exact TTLCircularBuffer.pushEntry_mem
  · intro among
    induction heap with
    | nil => exact List.mem_singleton.mpr (among.resolve_right List.not_mem_nil)
    | cons top rest ih =>
      unfold pushEntry
      split
      · exact List.mem_cons.mpr among
      · rcases among with new | old
        · exact List.mem_cons_of_mem _ (ih (.inl new))
        · rcases List.mem_cons.mp old with first | later
          · exact List.mem_cons.mpr (.inl first)
          · exact List.mem_cons_of_mem _ (ih (.inr later))

theorem pushEntry_heaped {heap : List TTLHeapEntry} (heaped : Heaped heap) (entry : TTLHeapEntry) :
    Heaped (pushEntry entry heap) := by
  induction heap with
  | nil => exact List.pairwise_singleton _ _
  | cons top rest ih =>
    obtain ⟨least,others⟩ := List.pairwise_cons.mp heaped
    unfold pushEntry
    split
    · next ahead =>
      refine List.pairwise_cons.mpr ⟨?_,heaped⟩
      intro each among
      rcases List.mem_cons.mp among with rfl | later
      · exact ahead
      · exact TTLHeapEntry.before_trans ahead (least each later)
    · next behind =>
      refine List.pairwise_cons.mpr ⟨?_,ih others⟩
      intro each among
      rcases mem_pushEntry.mp among with rfl | old
      · exact TTLHeapEntry.before_of_not behind
      · exact least each old

namespace TTLCircularBuffer

-- The first slot of a full ring, whose entry the code takes for an old one.
def Overlooked (ring : TTLCircularBuffer) (place : Nat) : Prop :=
  place = 0 ∧ ring.current_write = ring.capacity

-- The heap is in order and has the entry of each active message, but for the
-- overlooked slot; behind the read position nothing is active.
structure Listed (ring : TTLCircularBuffer) : Prop where
  heaped : Heaped ring.ttl_heap
  listed : ∀ place, (ring.buffer place).state = .active → ¬ ring.Overlooked place →
    ⟨(ring.buffer place).timestamp,place,place⟩ ∈ ring.ttl_heap
  passed : ∀ place, place < ring.current_read → (ring.buffer place).state ≠ .active

theorem new_listed {size : Nat} {ring : TTLCircularBuffer} (made : new size = some ring) : Listed ring := by
  unfold new at made
  dsimp only at made
  split at made
  · cases made
  · obtain rfl := Option.some.inj made
    exact ⟨.nil,fun _ active => (nomatch active),fun _ below => absurd below (Nat.not_lt_zero _)⟩

-- What the code subtracts is never more than what it subtracts from.
def IndexExact (ring : TTLCircularBuffer) (slot_idx : Nat) : Prop :=
  let current_slot_idx := ring.current_write &&& ring.mask
  if slot_idx > current_slot_idx then
    slot_idx ≤ ring.capacity ∧ ring.capacity-slot_idx+current_slot_idx < usizeLimit ∧
      ring.capacity-slot_idx+current_slot_idx ≤ ring.current_write
  else current_slot_idx-slot_idx ≤ ring.current_write

section Index
variable {ring : TTLCircularBuffer} {messages : List Message} {place : Nat}

theorem Holds.index_exact (holds : Holds ring messages) (below : place < ring.current_write) : ring.IndexExact place := by
  have written := holds.written
  have small := holds.small
  unfold IndexExact
  dsimp only
  rcases Nat.lt_or_eq_of_le written with room | full
  · rw [holds.slot room,if_neg (by omega)]
    exact Nat.sub_le _ _
  · rw [full,holds.slot_full]
    by_cases first : place = 0
    · rw [if_neg (by omega)]
      omega
    · rw [if_pos (by omega)]
      omega

theorem Holds.logical (holds : Holds ring messages) (below : place < ring.current_write) (seen : ¬ ring.Overlooked place) :
    ring.slotLogicalIdx place = place := by
  have written := holds.written
  have small := holds.small
  unfold slotLogicalIdx
  dsimp only
  rcases Nat.lt_or_eq_of_le written with room | full
  · rw [holds.slot room,if_neg (by omega),usizeSub_of_le (by omega) (Nat.le_of_lt below),
      usizeSub_of_le (by omega) (Nat.sub_le _ _)]
    omega
  · have positive : place ≠ 0 := fun first => seen ⟨first,full⟩
    have rest : usizeSub ring.capacity place = ring.capacity-place := usizeSub_of_le small (by omega)
    have sum : usizeAdd (ring.capacity-place) 0 = ring.capacity-place := usizeAdd_of_lt (by omega)
    rw [full,holds.slot_full,if_pos (by omega),rest,sum,usizeSub_of_le small (by omega)]
    omega

-- The entry of an active message that is not overlooked is taken for current.
theorem Holds.current_entry (holds : Holds ring messages) (active : (ring.buffer place).state = .active)
    (seen : ¬ ring.Overlooked place) : ring.current ⟨(ring.buffer place).timestamp,place,place⟩ = true := by
  have below : place < ring.current_write := by
    by_contra beyond
    have free := holds.unused place (Nat.le_of_not_lt beyond)
    rw [active] at free
    cases free
  exact decide_eq_true ⟨active,holds.logical below seen,rfl⟩

theorem Holds.entry_current (holds : Holds ring messages) {entry : TTLHeapEntry} (among : entry ∈ ring.ttl_heap)
    (live : ring.current entry = true) :
    (ring.buffer entry.slot_idx).state = .active ∧ (ring.buffer entry.slot_idx).timestamp = entry.expire_time ∧
      ¬ ring.Overlooked entry.slot_idx := by
  obtain ⟨active,number,time⟩ := of_decide_eq_true live
  refine ⟨active,time,?_⟩
  intro ⟨first,full⟩
  have own := (holds.entries entry among).1
  rw [first,slotLogicalIdx_full holds full,own,first] at number
  exact absurd number (Nat.ne_of_gt holds.positive)

end Index

section Evict
variable {ring after : TTLCircularBuffer} {messages : List Message} {place : Nat}

theorem evictLoop_heap (now : UInt64) (heap : List TTLHeapEntry) (ring : TTLCircularBuffer) :
    (evictLoop now heap ring).ttl_heap = heap.dropWhile fun entry => entry.expire_time ≤ now := by
  induction heap generalizing ring with
  | nil => rfl
  | cons entry rest ih =>
    unfold evictLoop
    by_cases later : entry.expire_time > now
    · rw [if_pos later,List.dropWhile_cons_of_neg (by simpa using later)]
    · rw [if_neg later,List.dropWhile_cons_of_pos (by simpa using later)]
      exact ih _

-- The induction is on the heap: an expired entry stands in front of all that
-- stay, and where its slot is active the loop drops it.
theorem evictLoop_clears (now : UInt64) (heap : List TTLHeapEntry) (holds : Holds ring messages) (heaped : Heaped heap)
    (seen : ¬ ring.Overlooked place) (among : ⟨(ring.buffer place).timestamp,place,place⟩ ∈ heap)
    (known : ∀ entry ∈ heap, entry ∈ ring.ttl_heap) (due : (ring.buffer place).timestamp ≤ now) :
    ((evictLoop now heap ring).buffer place).state ≠ .active := by
  induction heap generalizing ring with
  | nil => cases among
  | cons entry rest ih =>
    obtain ⟨least,others⟩ := List.pairwise_cons.mp heaped
    have rest_known := fun each (present : each ∈ rest) => known each (List.mem_cons_of_mem _ present)
    have first_due : ¬ entry.expire_time > now := by
      apply UInt64.not_lt.mpr
      rcases List.mem_cons.mp among with rfl | later
      · exact due
      · exact UInt64.le_trans (TTLHeapEntry.before_expire (least _ later)) due
    unfold evictLoop
    rw [if_neg first_due]
    by_cases live : ring.current entry = true
    · rw [if_pos live]
      obtain ⟨active,_,_⟩ := of_decide_eq_true live
      have dropped : Thins (fun _ => False) ring (ring.drop entry.slot_idx) := drop_thins active not_false
      rcases List.mem_cons.mp among with rfl | later
      · -- it is the entry itself, and nothing makes the slot active again
        have thins := evictLoop_thins now rest (ring.drop place) rest_known
        have gone : ((ring.drop place).buffer place).state = .deleted := by
          simp only [drop,setSlot,assign_same]
        intro again
        rcases thins.slots place with same | ⟨was,_,_⟩
        · rw [same,gone] at again
          cases again
        · rw [gone] at was
          cases was
      · have time := dropped.timestamp place
        rw [← time] at later due
        exact ih (dropped.holds holds) others seen later rest_known due
    · rw [if_neg live]
      rcases List.mem_cons.mp among with rfl | later
      · have thins := evictLoop_thins now rest ring rest_known
        intro again
        have active : (ring.buffer place).state = .active := by
          rcases thins.slots place with same | ⟨was,_,_⟩
          · rw [← same]
            exact again
          · exact was
        exact live (holds.current_entry active seen)
      · exact ih holds others seen later rest_known due

theorem evictExpired_first (now : UInt64) (holds : Holds ring messages) (overlooked : ring.Overlooked place) :
    (ring.evictExpired now).2.buffer place = ring.buffer place := by
  obtain ⟨rfl,full⟩ := overlooked
  exact evictLoop_first now ring.ttl_heap holds full fun entry present => (holds.entries entry present).1

theorem evictExpired_clears (now : UInt64) (holds : Holds ring messages) (listed : Listed ring)
    (active : ((ring.evictExpired now).2.buffer place).state = .active) (seen : ¬ ring.Overlooked place) :
    (ring.evictExpired now).2.buffer place = ring.buffer place ∧ now < (ring.buffer place).timestamp := by
  have thins := evictExpired_thins now ring
  rcases thins.slots place with same | ⟨_,_,gone⟩
  · refine ⟨same,?_⟩
    rw [same] at active
    by_contra due
    have cleared := evictLoop_clears now ring.ttl_heap holds listed.heaped seen (listed.listed place active seen)
      (fun _ present => present) (UInt64.not_lt.mp due)
    apply cleared
    rw [show evictLoop now ring.ttl_heap ring = (ring.evictExpired now).2 from rfl,same]
    exact active
  · rw [gone] at active
    cases active

theorem mem_dropWhile {heap : List TTLHeapEntry} {entry : TTLHeapEntry} {expired : TTLHeapEntry → Bool} (among : entry ∈ heap)
    (stays : ¬ expired entry = true) : entry ∈ heap.dropWhile expired := by
  rw [← List.takeWhile_append_dropWhile (p := expired) (l := heap)] at among
  rcases List.mem_append.mp among with front | behind
  · exact absurd (List.mem_takeWhile_imp front) stays
  · exact behind

theorem evictExpired_listed (now : UInt64) (holds : Holds ring messages) (listed : Listed ring) :
    Listed (ring.evictExpired now).2 := by
  have thins := evictExpired_thins now ring
  have heap := evictLoop_heap now ring.ttl_heap ring
  refine ⟨?_,?_,?_⟩
  · change Heaped (evictLoop now ring.ttl_heap ring).ttl_heap
    rw [heap]
    exact listed.heaped.sublist (List.dropWhile_sublist _)
  · intro place active unseen
    have seen : ¬ ring.Overlooked place := by
      unfold Overlooked at unseen ⊢
      rwa [thins.current_write,thins.capacity] at unseen
    obtain ⟨same,fresh⟩ := evictExpired_clears now holds listed active seen
    rw [same] at active ⊢
    change _ ∈ (evictLoop now ring.ttl_heap ring).ttl_heap
    rw [heap]
    exact mem_dropWhile (listed.listed place active seen) (by simpa using fresh)
  · intro place behind active
    rw [thins.current_read] at behind
    rcases thins.slots place with same | ⟨was,_,_⟩
    · rw [same] at active
      exact listed.passed place behind active
    · exact listed.passed place behind was

theorem Listed.drop (listed : Listed ring) (gone : Nat) : Listed (ring.drop gone) := by
  have slots : ∀ place, ((ring.drop gone).buffer place).state = .active →
      place ≠ gone ∧ (ring.drop gone).buffer place = ring.buffer place := by
    intro place active
    have other : place ≠ gone := by
      rintro rfl
      simp only [TTLCircularBuffer.drop,setSlot,assign_same] at active
      cases active
    exact ⟨other,assign_other _ other _⟩
  refine ⟨listed.heaped,?_,?_⟩
  · intro place active seen
    obtain ⟨_,same⟩ := slots place active
    rw [same] at active ⊢
    exact listed.listed place active seen
  · intro place behind active
    obtain ⟨_,same⟩ := slots place active
    rw [same] at active
    exact listed.passed place behind active

theorem Listed.advance (listed : Listed ring) (idle : (ring.buffer ring.current_read).state ≠ .active) :
    Listed {ring with current_read:=ring.current_read+1} := by
  refine ⟨listed.heaped,listed.listed,?_⟩
  intro place behind
  rcases Nat.lt_or_eq_of_le (Nat.le_of_lt_succ behind) with earlier | rfl
  · exact listed.passed place earlier
  · exact idle

end Evict

section Runs
variable {ring after : TTLCircularBuffer} {messages : List Message}

theorem write_listed (holds : Holds ring messages) (listed : Listed ring) (now ttl_ms : UInt64) (data : Bytes) :
    Listed (ring.write now ttl_ms data).2 := by
  rcases Nat.lt_or_eq_of_le holds.written with room | full
  · rw [write_room holds room]
    refine ⟨pushEntry_heaped listed.heaped _,?_,?_⟩
    · intro place active seen
      by_cases newest : place = ring.current_write
      · subst newest
        simp only [setSlot,assign_same]
        exact mem_pushEntry.mpr (.inl rfl)
      · dsimp only [setSlot] at active ⊢
        rw [assign_other _ newest] at active ⊢
        refine mem_pushEntry.mpr (.inr (listed.listed place active ?_))
        exact fun overlooked => absurd overlooked.2 (Nat.ne_of_lt room)
    · intro place behind
      have before := Nat.lt_of_lt_of_le behind holds.behind
      dsimp only [setSlot]
      rw [assign_other _ (Nat.ne_of_lt before)]
      exact listed.passed place behind
  · obtain ⟨after,refused,unchanged⟩ := write_full holds full now ttl_ms data
    rw [refused]
    rcases unchanged with rfl | ⟨_,rfl⟩
    · exact listed
    · exact evictExpired_listed now holds listed

theorem readOnce_listed (holds : Holds ring messages) (listed : Listed ring) (now : UInt64) (room : Nat) :
    Listed (ring.readOnce now room).2 := by
  have cleaned_listed := evictExpired_listed now holds listed
  have kept := (evictExpired_thins now ring).holds holds
  unfold readOnce
  generalize (ring.evictExpired now).2 = cleaned at cleaned_listed kept
  dsimp only
  by_cases empty : cleaned.current_read = cleaned.current_write
  · rw [if_pos empty]
    exact cleaned_listed
  · rw [if_neg empty]
    have more : cleaned.current_read < cleaned.current_write := Nat.lt_of_le_of_ne kept.behind empty
    rw [kept.slot (Nat.lt_of_lt_of_le more kept.written)]
    have dropped : Listed {cleaned.drop cleaned.current_read with current_read:=cleaned.current_read+1} := by
      refine (cleaned_listed.drop cleaned.current_read).advance ?_
      simp only [drop,setSlot,assign_same]
      intro same
      cases same
    by_cases active : (cleaned.buffer cleaned.current_read).state = .active
    · rw [if_neg (not_not_intro active)]
      split
      · exact dropped
      · exact dropped
    · rw [if_pos active]
      exact cleaned_listed.advance active

theorem readOnce_holds (holds : Holds ring messages) (now : UInt64) (room : Nat) : Holds (ring.readOnce now room).2 messages := by
  obtain ⟨middle,thins,found⟩ := readOnce_cases holds now room
  have kept := thins.holds holds
  have moved (more : ring.current_read < ring.current_write) : middle.current_read < middle.current_write := by
    rw [thins.current_read,thins.current_write]
    exact more
  rcases found with ⟨_,once⟩ | ⟨more,⟨_,once⟩ | ⟨_,_,_,once⟩⟩
  · rw [once]
    exact kept
  · rw [once]
    exact kept.advance (moved more)
  · rw [once]
    exact kept.advance (moved more)

theorem readLoop_listed (clock : Nat → UInt64) (room fuel round : Nat) (holds : Holds ring messages) (listed : Listed ring)
    {delivery : Option Delivery} {looks : List Look}
    (done : readLoop clock room fuel round ring = some (delivery,after,looks)) : Listed after := by
  induction fuel generalizing round ring delivery looks with
  | zero => cases done
  | succ fuel ih =>
    have once := readOnce_listed holds listed (clock round) room
    have kept := readOnce_holds holds (clock round) room
    unfold readLoop at done
    cases outcome : ring.readOnce (clock round) room with
    | mk given next =>
      rw [outcome] at once kept
      cases given with
      | some given =>
        simp only [outcome] at done
        obtain ⟨_,same⟩ := Prod.mk.inj (Option.some.inj done)
        exact (Prod.mk.inj same).1 ▸ once
      | none =>
        simp only [outcome] at done
        obtain ⟨⟨_,last,_⟩,rest,same⟩ := Option.map_eq_some_iff.mp done
        obtain ⟨_,same⟩ := Prod.mk.inj same
        obtain ⟨rfl,_⟩ := Prod.mk.inj same
        exact ih (round+1) kept once rest

theorem evictShortestTtl_listed (holds : Holds ring messages) (listed : Listed ring) (now : UInt64) :
    Listed (ring.evictShortestTtl now).2 := by
  have cleaned := evictExpired_listed now holds listed
  unfold evictShortestTtl
  dsimp only
  split
  · exact cleaned.drop _
  · unfold evictShortestTtlFallback
    split
    · exact cleaned.drop _
    · exact cleaned

theorem perform_listed (holds : Holds ring messages) (listed : Listed ring) (call : RingCall) {answer : RingAnswer}
    {looks : List Look} (done : ring.perform call = some (answer,after,looks)) : Listed after := by
  cases call with
  | write now ttl_ms data =>
    obtain ⟨_,same⟩ := Prod.mk.inj (Option.some.inj done)
    exact (Prod.mk.inj same).1 ▸ write_listed holds listed now ttl_ms data
  | read clock room =>
    obtain ⟨⟨_,last,_⟩,rest,same⟩ := Option.map_eq_some_iff.mp done
    obtain ⟨_,same⟩ := Prod.mk.inj same
    exact (Prod.mk.inj same).1 ▸ readLoop_listed clock room _ 0 holds listed rest
  | evictExpired now =>
    obtain ⟨_,same⟩ := Prod.mk.inj (Option.some.inj done)
    exact (Prod.mk.inj same).1 ▸ evictExpired_listed now holds listed
  | evictShortestTtl now =>
    obtain ⟨_,same⟩ := Prod.mk.inj (Option.some.inj done)
    exact (Prod.mk.inj same).1 ▸ evictShortestTtl_listed holds listed now

theorem run_listed (holds : Holds ring messages) (listed : Listed ring) (calls : List RingCall) {answers : List RingAnswer}
    {looks : List Look} (done : ring.run calls = some (answers,after,looks)) :
    Listed after ∧ ∃ accepted, Holds after accepted := by
  induction calls generalizing ring messages answers looks with
  | nil =>
    obtain ⟨_,same⟩ := Prod.mk.inj (Option.some.inj done)
    exact (Prod.mk.inj same).1 ▸ ⟨listed,_,holds⟩
  | cons call calls ih =>
    obtain ⟨answer,middle,early,first,kept,_,_,_⟩ := perform_spec holds call
    rw [run_cons first] at done
    obtain ⟨⟨_,last,_⟩,rest,same⟩ := Option.map_eq_some_iff.mp done
    obtain ⟨_,same⟩ := Prod.mk.inj same
    obtain ⟨rfl,_⟩ := Prod.mk.inj same
    exact ih kept (perform_listed holds listed call first) rest

end Runs

structure ExpiryComplete (ring : TTLCircularBuffer) (now : UInt64) : Prop where
  gone : ∀ place, ((ring.evictExpired now).2.buffer place).state = .active →
    now < ((ring.evictExpired now).2.buffer place).timestamp
  untouched : ∀ place, (ring.buffer place).state = .active → now < (ring.buffer place).timestamp →
    (ring.evictExpired now).2.buffer place = ring.buffer place
  exact : ∀ entry ∈ ring.ttl_heap, ring.IndexExact entry.slot_idx

-- Expired messages all go, but for one in the first slot of a full ring.
theorem expiry_complete_iff {size : Nat} {ring after : TTLCircularBuffer} (made : new size = some ring) (calls : List RingCall)
    {answers : List RingAnswer} {looks : List Look} (done : ring.run calls = some (answers,after,looks)) (now : UInt64) :
    ExpiryComplete after now ↔
      ¬ (after.current_write = after.capacity ∧ (after.buffer 0).state = .active ∧ (after.buffer 0).timestamp ≤ now) := by
  obtain ⟨listed,messages,holds⟩ := run_listed (new_holds made).1 (new_listed made) calls done
  constructor
  · intro ⟨gone,_,_⟩ ⟨full,active,due⟩
    have same := evictExpired_first now holds ⟨rfl,full⟩
    have early := gone 0
    rw [same] at early
    exact UInt64.not_lt.mpr due (early active)
  · intro spared
    refine ⟨?_,?_,?_⟩
    · intro place active
      by_cases overlooked : after.Overlooked place
      · have same := evictExpired_first now holds overlooked
        obtain ⟨rfl,full⟩ := overlooked
        rw [same] at active ⊢
        by_contra late
        exact spared ⟨full,active,UInt64.not_lt.mp late⟩
      · obtain ⟨same,fresh⟩ := evictExpired_clears now holds listed active overlooked
        rw [same]
        exact fresh
    · intro place _ fresh
      exact (evictExpired_thins now after).spare fresh
    · intro entry among
      obtain ⟨_,message,present,_⟩ := holds.entries entry among
      apply holds.index_exact
      rw [← holds.length]
      exact (List.getElem?_eq_some_iff.mp present).1

-- One message, before its time.
theorem expiry_complete_single : new 1 = some single ∧ ∃ answers after looks,
    single.run [.write 4 5 [1]] = some (answers,after,looks) ∧ (ExpiryComplete after 3 ↔
      ¬ (after.current_write = after.capacity ∧ (after.buffer 0).state = .active ∧ (after.buffer 0).timestamp ≤ 3)) :=
  ⟨new_single,_,_,_,rfl,expiry_complete_iff new_single [.write 4 5 [1]] rfl 3⟩

-- A message in a ring of one slot stays, long expired.
theorem expired_stays : new 1 = some single ∧ ∃ answers after looks,
    single.run [.write 4 5 [1]] = some (answers,after,looks) ∧ ¬ ExpiryComplete after 100 := by
  refine ⟨new_single,_,_,_,rfl,?_⟩
  intro complete
  exact absurd (complete.gone 0 rfl) (by decide)

end TTLCircularBuffer
end RemDb
