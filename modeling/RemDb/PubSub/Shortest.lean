import RemDb.PubSub.Expiry

namespace RemDb
open RemDb.Lib

namespace TTLCircularBuffer

def heapTarget (ring : TTLCircularBuffer) : Option Nat := (ring.ttl_heap.find? ring.current).map TTLHeapEntry.slot_idx

def timestampAt (ring : TTLCircularBuffer) (place : Nat) : UInt64 := (ring.buffer place).timestamp

def remainingTtl (ring : TTLCircularBuffer) (now : UInt64) (place : Nat) : UInt64 :=
  if now ≤ ring.timestampAt place then ring.timestampAt place-now else 0

section Targets
variable {ring : TTLCircularBuffer} {messages : List Message} {place : Nat}

theorem Holds.active_written (holds : Holds ring messages) (active : (ring.buffer place).state = .active) :
    place < ring.current_write := by
  by_contra beyond
  have free := holds.unused place (Nat.le_of_not_lt beyond)
  rw [active] at free
  cases free

theorem heapTarget_none (holds : Holds ring messages) (listed : Listed ring) (missing : ring.heapTarget = none)
    (active : (ring.buffer place).state = .active) : ring.Overlooked place := by
  by_contra seen
  have stale := List.find?_eq_none.mp (Option.map_eq_none_iff.mp missing)
  exact stale _ (listed.listed place active seen) (holds.current_entry active seen)

theorem heapTarget_some (holds : Holds ring messages) (listed : Listed ring) (found : ring.heapTarget = some place) :
    (ring.buffer place).state = .active ∧ ¬ ring.Overlooked place ∧
      ∀ other, (ring.buffer other).state = .active → ¬ ring.Overlooked other →
        ring.timestampAt place ≤ ring.timestampAt other := by
  obtain ⟨entry,first,rfl⟩ := Option.map_eq_some_iff.mp found
  obtain ⟨live,front,behind,split,stale⟩ := List.find?_eq_some_iff_append.mp first
  have among : entry ∈ ring.ttl_heap := by
    rw [split]
    exact List.mem_append_right _ List.mem_cons_self
  obtain ⟨active,time,seen⟩ := holds.entry_current among live
  refine ⟨active,seen,?_⟩
  intro other busy visible
  have own := listed.listed other busy visible
  have ordered := listed.heaped
  rw [split] at own ordered
  obtain ⟨_,later,_⟩ := List.pairwise_append.mp ordered
  rw [timestampAt,time]
  rcases List.mem_append.mp own with early | late
  · have passed := stale _ early
    rw [holds.current_entry busy visible] at passed
    cases passed
  · rcases List.mem_cons.mp late with rfl | late
    · exact UInt64.le_refl _
    · exact TTLHeapEntry.before_expire ((List.pairwise_cons.mp later).1 _ late)

theorem remainingTtl_toNat (ring : TTLCircularBuffer) (now : UInt64) (place : Nat) :
    (ring.remainingTtl now place).toNat = (ring.timestampAt place).toNat-now.toNat := by
  unfold remainingTtl
  split
  · next early => exact UInt64.toNat_sub_of_le _ _ early
  · next late =>
    have less := UInt64.lt_iff_toNat_lt.mp (UInt64.not_le.mp late)
    rw [UInt64.toNat_zero]
    omega

-- The search starts from a bound and the slot that has it, if one has.
theorem shortest_fold (ring : TTLCircularBuffer) (now : UInt64) (logical : List Nat) (bound : UInt64) (best : Option Nat)
    (own : ∀ idx ∈ logical, idx &&& ring.mask = idx) :
    ∃ least target, logical.foldl (fun best logical_idx =>
        let slot_idx := logical_idx &&& ring.mask
        let slot := ring.buffer slot_idx
        let remaining_ttl := if now ≤ slot.timestamp then slot.timestamp-now else 0
        if slot.state = .active ∧ remaining_ttl < best.1 then (remaining_ttl,some slot_idx) else best) (bound,best) =
          (least,target) ∧ least ≤ bound ∧
      (∀ idx ∈ logical, (ring.buffer idx).state = .active → least ≤ ring.remainingTtl now idx) ∧
      ((least = bound ∧ target = best) ∨
        ∃ idx ∈ logical, target = some idx ∧ (ring.buffer idx).state = .active ∧ ring.remainingTtl now idx = least ∧
          least < bound) := by
  induction logical generalizing bound best with
  | nil => exact ⟨bound,best,rfl,UInt64.le_refl _,fun _ present => (nomatch present),.inl ⟨rfl,rfl⟩⟩
  | cons idx rest ih =>
    have others := fun each (present : each ∈ rest) => own each (List.mem_cons_of_mem _ present)
    rw [List.foldl_cons]
    dsimp only
    rw [own idx List.mem_cons_self]
    change ∃ least target, rest.foldl _ (if _ ∧ ring.remainingTtl now idx < bound then (ring.remainingTtl now idx,some idx)
      else (bound,best)) = (least,target) ∧ _
    by_cases better : (ring.buffer idx).state = .active ∧ ring.remainingTtl now idx < bound
    · rw [if_pos better]
      obtain ⟨least,target,folded,below,every,known⟩ := ih (ring.remainingTtl now idx) (some idx) others
      refine ⟨least,target,folded,UInt64.le_trans below (UInt64.le_of_lt better.2),?_,.inr ?_⟩
      · intro each present active
        rcases List.mem_cons.mp present with rfl | later
        · exact below
        · exact every each later active
      · rcases known with ⟨rfl,rfl⟩ | ⟨each,later,named,active,same,less⟩
        · exact ⟨idx,List.mem_cons_self,rfl,better.1,rfl,better.2⟩
        · exact ⟨each,List.mem_cons_of_mem _ later,named,active,same,UInt64.lt_trans less better.2⟩
    · rw [if_neg better]
      obtain ⟨least,target,folded,below,every,known⟩ := ih bound best others
      refine ⟨least,target,folded,below,?_,?_⟩
      · intro each present active
        rcases List.mem_cons.mp present with rfl | later
        · exact UInt64.le_trans below (UInt64.not_lt.mp fun less => better ⟨active,less⟩)
        · exact every each later active
      · rcases known with same | ⟨each,later,found⟩
        · exact .inl same
        · exact .inr ⟨each,List.mem_cons_of_mem _ later,found⟩

theorem shortest_spec (holds : Holds ring messages) (listed : Listed ring) (now : UInt64) :
    (ring.shortest now = none ∧
      ∀ place, (ring.buffer place).state = .active → 0xFFFFFFFFFFFFFFFF ≤ ring.remainingTtl now place) ∨
    ∃ place, ring.shortest now = some place ∧ (ring.buffer place).state = .active ∧
      ring.remainingTtl now place < 0xFFFFFFFFFFFFFFFF ∧
      ∀ other, (ring.buffer other).state = .active → ring.remainingTtl now place ≤ ring.remainingTtl now other := by
  have range : ∀ idx, idx ∈ List.range' ring.current_read (ring.current_write-ring.current_read) ↔
      ring.current_read ≤ idx ∧ idx < ring.current_write := by
    intro idx
    have behind := holds.behind
    rw [List.mem_range'_1]
    omega
  have own : ∀ idx ∈ List.range' ring.current_read (ring.current_write-ring.current_read), idx &&& ring.mask = idx :=
    fun idx among => holds.slot (Nat.lt_of_lt_of_le ((range idx).mp among).2 holds.written)
  have inside : ∀ place, (ring.buffer place).state = .active →
      place ∈ List.range' ring.current_read (ring.current_write-ring.current_read) := by
    intro place active
    refine (range place).mpr ⟨?_,holds.active_written active⟩
    exact Nat.le_of_not_lt fun behind => listed.passed place behind active
  obtain ⟨least,target,folded,_,every,known⟩ := shortest_fold ring now _ 0xFFFFFFFFFFFFFFFF none own
  have answer : ring.shortest now = target := by
    unfold shortest
    rw [folded]
  rcases known with ⟨rfl,rfl⟩ | ⟨idx,_,rfl,active,same,less⟩
  · exact .inl ⟨answer,fun place active => every place (inside place active) active⟩
  · refine .inr ⟨idx,answer,active,same ▸ less,?_⟩
    intro other busy
    rw [same]
    exact every other (inside other busy) busy

end Targets

-- What is promised of giving up the message that would expire first: it is one
-- of the active messages, and both searches find the least time.
structure ShortestEvicted (ring : TTLCircularBuffer) (now : UInt64) : Prop where
  answered : (ring.evictShortestTtl now).1 = true ↔ ∃ place, ((ring.evictExpired now).2.buffer place).state = .active
  least : (ring.evictShortestTtl now).1 = true → ∃ place, ((ring.evictExpired now).2.buffer place).state = .active ∧
    (∀ other, ((ring.evictExpired now).2.buffer other).state = .active →
      (ring.evictExpired now).2.timestampAt place ≤ (ring.evictExpired now).2.timestampAt other) ∧
    (ring.evictShortestTtl now).2 = (ring.evictExpired now).2.drop place
  spared : (ring.evictShortestTtl now).1 = false → (ring.evictShortestTtl now).2 = (ring.evictExpired now).2
  agree : (ring.evictExpired now).2.heapTarget.map (ring.evictExpired now).2.timestampAt =
    ((ring.evictExpired now).2.shortest now).map (ring.evictExpired now).2.timestampAt

def Live (ring : TTLCircularBuffer) (now : UInt64) (place : Nat) : Prop :=
  (ring.buffer place).state = .active ∧ now < ring.timestampAt place

section Evictions
variable {ring : TTLCircularBuffer} {messages : List Message} {now : UInt64} {place : Nat}

theorem cleaned_active_iff (holds : Holds ring messages) (listed : Listed ring) (now : UInt64) (place : Nat) :
    ((ring.evictExpired now).2.buffer place).state = .active ↔
      ring.Live now place ∨ ring.Overlooked place ∧ (ring.buffer place).state = .active := by
  constructor
  · intro active
    by_cases overlooked : ring.Overlooked place
    · rw [evictExpired_first now holds overlooked] at active
      exact .inr ⟨overlooked,active⟩
    · obtain ⟨same,fresh⟩ := evictExpired_clears now holds listed active overlooked
      rw [same] at active
      exact .inl ⟨active,fresh⟩
  · rintro (⟨active,fresh⟩ | ⟨overlooked,active⟩)
    · rw [(evictExpired_thins now ring).spare fresh]
      exact active
    · rw [evictExpired_first now holds overlooked]
      exact active

theorem cleaned_timestamp (ring : TTLCircularBuffer) (now : UInt64) :
    (ring.evictExpired now).2.timestampAt = ring.timestampAt :=
  funext fun place => (evictExpired_thins now ring).timestamp place

theorem cleaned_remaining (ring : TTLCircularBuffer) (now : UInt64) :
    (ring.evictExpired now).2.remainingTtl now = ring.remainingTtl now := by
  funext place
  unfold remainingTtl
  rw [cleaned_timestamp]

theorem cleaned_overlooked : (ring.evictExpired now).2.Overlooked place ↔ ring.Overlooked place := by
  have thins := evictExpired_thins now ring
  unfold Overlooked
  rw [thins.current_write,thins.capacity]

theorem evictShortestTtl_target (found : (ring.evictExpired now).2.heapTarget = some place) :
    ring.evictShortestTtl now = (true,(ring.evictExpired now).2.drop place) := by
  obtain ⟨entry,first,rfl⟩ := Option.map_eq_some_iff.mp found
  unfold evictShortestTtl
  simp only [first]

theorem evictShortestTtl_fallback (missing : (ring.evictExpired now).2.heapTarget = none) :
    ring.evictShortestTtl now = (ring.evictExpired now).2.evictShortestTtlFallback now := by
  unfold evictShortestTtl
  simp only [Option.map_eq_none_iff.mp missing]

theorem evictShortestTtl_none (missing : (ring.evictExpired now).2.heapTarget = none)
    (nothing : (ring.evictExpired now).2.shortest now = none) :
    ring.evictShortestTtl now = (false,(ring.evictExpired now).2) := by
  rw [evictShortestTtl_fallback missing]
  unfold evictShortestTtlFallback
  rw [nothing]

-- The two searches in terms of the ring before anything expired.
theorem targets_spec (holds : Holds ring messages) (listed : Listed ring) (now : UInt64) :
    ((ring.evictExpired now).2.heapTarget = none ∧ (∀ place, ring.Live now place → ring.Overlooked place) ∨
      ∃ place, (ring.evictExpired now).2.heapTarget = some place ∧ ring.Live now place ∧ ¬ ring.Overlooked place ∧
        ∀ other, ring.Live now other → ¬ ring.Overlooked other → ring.timestampAt place ≤ ring.timestampAt other) ∧
    ((ring.evictExpired now).2.shortest now = none ∧
        (∀ place, ((ring.evictExpired now).2.buffer place).state = .active →
          2^64-1 ≤ (ring.timestampAt place).toNat-now.toNat) ∨
      ∃ place, (ring.evictExpired now).2.shortest now = some place ∧
        ((ring.evictExpired now).2.buffer place).state = .active ∧ (ring.timestampAt place).toNat-now.toNat < 2^64-1 ∧
        ∀ other, ((ring.evictExpired now).2.buffer other).state = .active →
          (ring.timestampAt place).toNat-now.toNat ≤ (ring.timestampAt other).toNat-now.toNat) := by
  have kept := (evictExpired_thins now ring).holds holds
  have cleaned := evictExpired_listed now holds listed
  have live_active {place : Nat} (live : ring.Live now place) : ((ring.evictExpired now).2.buffer place).state = .active :=
    (cleaned_active_iff holds listed now _).mpr (.inl live)
  constructor
  · cases target : (ring.evictExpired now).2.heapTarget with
    | none =>
      refine .inl ⟨rfl,?_⟩
      intro place live
      exact cleaned_overlooked.mp (heapTarget_none kept cleaned target (live_active live))
    | some place =>
      obtain ⟨active,seen,least⟩ := heapTarget_some kept cleaned target
      rw [cleaned_overlooked] at seen
      rw [cleaned_timestamp] at least
      rcases (cleaned_active_iff holds listed now _).mp active with live | ⟨overlooked,_⟩
      · refine .inr ⟨place,rfl,live,seen,?_⟩
        intro other also visible
        exact least other (live_active also) (fun overlooked => visible (cleaned_overlooked.mp overlooked))
      · exact absurd overlooked seen
  · rcases shortest_spec kept cleaned now with ⟨nothing,every⟩ | ⟨place,found,active,less,every⟩
    · refine .inl ⟨nothing,?_⟩
      intro place active
      have far := UInt64.le_iff_toNat_le.mp (every place active)
      rwa [cleaned_remaining,remainingTtl_toNat] at far
    · refine .inr ⟨place,found,active,?_,?_⟩
      · have near := UInt64.lt_iff_toNat_lt.mp less
        rwa [cleaned_remaining,remainingTtl_toNat] at near
      · intro other also
        have ordered := UInt64.le_iff_toNat_le.mp (every other also)
        rwa [cleaned_remaining,remainingTtl_toNat,remainingTtl_toNat] at ordered

-- The overlooked slot holds the least time of all that is not expired.
def Hidden (ring : TTLCircularBuffer) (now : UInt64) : Prop :=
  ring.current_write = ring.capacity ∧ (ring.buffer 0).state = .active ∧
    ∀ place, place ≠ 0 → ring.Live now place → ring.timestampAt 0 < ring.timestampAt place

def Endless (ring : TTLCircularBuffer) (now : UInt64) : Prop :=
  now = 0 ∧ (∃ place, ring.Live now place) ∧ ∀ place, ring.Live now place → ring.timestampAt place = 0xFFFFFFFFFFFFFFFF

theorem Endless.far (endless : ring.Endless now) (live : ring.Live now place) :
    (ring.timestampAt place).toNat-now.toNat = 2^64-1 := by
  rw [endless.2.2 place live,endless.1]
  rfl

theorem not_hidden (holds : Holds ring messages) (listed : Listed ring) (shortest : ShortestEvicted ring now) :
    ¬ ring.Hidden now := by
  intro ⟨full,active,later⟩
  obtain ⟨heap,scan⟩ := targets_spec holds listed now
  have here := (cleaned_active_iff holds listed now _).mpr (.inr ⟨⟨rfl,full⟩,active⟩)
  have agree := shortest.agree
  rw [cleaned_timestamp] at agree
  rcases heap with ⟨missing,_⟩ | ⟨place,found,live,seen,_⟩
  · rw [missing,Option.map_none] at agree
    have answered := shortest.answered.mpr ⟨0,here⟩
    rw [evictShortestTtl_none missing (Option.map_eq_none_iff.mp agree.symm)] at answered
    cases answered
  · rcases scan with ⟨nothing,_⟩ | ⟨other,named,_,_,least⟩
    · rw [found,nothing] at agree
      cases agree
    · rw [found,named] at agree
      have same : ring.timestampAt place = ring.timestampAt other := Option.some.inj agree
      have before := later place (fun first => seen ⟨first,full⟩) live
      have nearest := least 0 here
      have fresh := live.2
      rw [← same] at nearest
      rw [UInt64.lt_iff_toNat_lt] at before fresh
      omega

theorem not_endless (holds : Holds ring messages) (listed : Listed ring) (shortest : ShortestEvicted ring now) :
    ¬ ring.Endless now := by
  intro endless
  obtain ⟨heap,scan⟩ := targets_spec holds listed now
  have agree := shortest.agree
  rw [cleaned_timestamp] at agree
  rcases heap with ⟨missing,_⟩ | ⟨place,found,live,_,_⟩
  · obtain ⟨place,live⟩ := endless.2.1
    rw [missing,Option.map_none] at agree
    have answered := shortest.answered.mpr ⟨place,(cleaned_active_iff holds listed now _).mpr (.inl live)⟩
    rw [evictShortestTtl_none missing (Option.map_eq_none_iff.mp agree.symm)] at answered
    cases answered
  · rcases scan with ⟨nothing,_⟩ | ⟨other,named,_,near,_⟩
    · rw [found,nothing] at agree
      cases agree
    · rw [found,named] at agree
      have same : ring.timestampAt place = ring.timestampAt other := Option.some.inj agree
      rw [← same,endless.far live] at near
      exact absurd near (Nat.lt_irrefl _)

theorem shortest_evicted (holds : Holds ring messages) (listed : Listed ring) (shown : ¬ ring.Hidden now)
    (ends : ¬ ring.Endless now) : ShortestEvicted ring now := by
  obtain ⟨heap,scan⟩ := targets_spec holds listed now
  -- where the overlooked slot is active, another has no later time
  have sooner : ring.current_write = ring.capacity → (ring.buffer 0).state = .active →
      ∃ place, place ≠ 0 ∧ ring.Live now place ∧ ring.timestampAt place ≤ ring.timestampAt 0 := by
    intro full active
    by_contra none
    refine shown ⟨full,active,?_⟩
    intro place other live
    exact UInt64.not_le.mp fun ordered => none ⟨place,other,live,ordered⟩
  rcases heap with ⟨missing,hidden⟩ | ⟨place,found,live,seen,least⟩
  · have idle : ∀ place, ((ring.evictExpired now).2.buffer place).state ≠ .active := by
      intro place active
      have overlooked : ring.Overlooked place ∧ (ring.buffer place).state = .active := by
        rcases (cleaned_active_iff holds listed now _).mp active with live | both
        · exact ⟨hidden place live,live.1⟩
        · exact both
      obtain ⟨⟨rfl,full⟩,active⟩ := overlooked
      obtain ⟨other,apart,live,_⟩ := sooner full active
      exact apart (hidden other live).1
    rcases scan with ⟨nothing,_⟩ | ⟨place,_,active,_⟩
    · have outcome := evictShortestTtl_none missing nothing
      refine ⟨?_,?_,?_,?_⟩
      · rw [outcome]
        exact ⟨nofun,fun ⟨place,active⟩ => absurd active (idle place)⟩
      · rw [outcome]
        exact nofun
      · rw [outcome]
        exact fun _ => rfl
      · rw [missing,nothing]
    · exact absurd active (idle place)
  · have active := (cleaned_active_iff holds listed now _).mpr (.inl live)
    have outcome := evictShortestTtl_target found
    have every : ∀ other, ((ring.evictExpired now).2.buffer other).state = .active →
        ring.timestampAt place ≤ ring.timestampAt other := by
      intro other also
      rcases (cleaned_active_iff holds listed now _).mp also with fresh | ⟨⟨rfl,full⟩,busy⟩
      · by_cases overlooked : ring.Overlooked other
        · obtain ⟨rfl,full⟩ := overlooked
          obtain ⟨sooner,apart,alive,ordered⟩ := sooner full fresh.1
          exact UInt64.le_trans (least sooner alive fun both => apart both.1) ordered
        · exact least other fresh overlooked
      · obtain ⟨sooner,apart,alive,ordered⟩ := sooner full busy
        exact UInt64.le_trans (least sooner alive fun both => apart both.1) ordered
    refine ⟨?_,?_,?_,?_⟩
    · rw [outcome]
      exact ⟨fun _ => ⟨place,active⟩,fun _ => rfl⟩
    · rw [outcome,cleaned_timestamp]
      exact fun _ => ⟨place,active,every,rfl⟩
    · rw [outcome]
      exact nofun
    · rw [cleaned_timestamp]
      rcases scan with ⟨nothing,far⟩ | ⟨other,named,also,_,nearest⟩
      · refine absurd ⟨?_,⟨place,live⟩,?_⟩ ends
        · have none_left := far place active
          have bounded := (ring.timestampAt place).toNat_lt
          apply UInt64.toNat_inj.mp
          rw [UInt64.toNat_zero]
          omega
        · intro other fresh
          have none_left := far other ((cleaned_active_iff holds listed now _).mpr (.inl fresh))
          have bounded := (ring.timestampAt other).toNat_lt
          apply UInt64.toNat_inj.mp
          change _ = 2^64-1
          omega
      · rw [found,named,Option.map_some,Option.map_some]
        have ordered := UInt64.le_iff_toNat_le.mp (every other also)
        have near := nearest place active
        have fresh := UInt64.lt_iff_toNat_lt.mp live.2
        apply congrArg some
        apply UInt64.toNat_inj.mp
        omega

end Evictions

-- The least time is found unless it is in the overlooked slot, or the clock
-- stands at zero and every time is the last there is.
theorem shortest_evicted_iff {size : Nat} {ring after : TTLCircularBuffer} (made : new size = some ring)
    (calls : List RingCall) {answers : List RingAnswer} {looks : List Look}
    (done : ring.run calls = some (answers,after,looks)) (now : UInt64) :
    ShortestEvicted after now ↔ ¬ after.Hidden now ∧ ¬ after.Endless now := by
  obtain ⟨listed,messages,holds⟩ := run_listed (new_holds made).1 (new_listed made) calls done
  constructor
  · intro shortest
    exact ⟨not_hidden holds listed shortest,not_endless holds listed shortest⟩
  · intro ⟨shown,ends⟩
    exact shortest_evicted holds listed shown ends

theorem shortest_evicted_empty : new 1 = some single ∧ ∃ answers after looks,
    single.run [.evictExpired 3] = some (answers,after,looks) ∧
      (ShortestEvicted after 3 ↔ ¬ after.Hidden 3 ∧ ¬ after.Endless 3) :=
  ⟨new_single,_,_,_,rfl,shortest_evicted_iff new_single [.evictExpired 3] rfl 3⟩

def pair : TTLCircularBuffer := ⟨fun _ => ⟨.free,0,[]⟩,1,0,0,2,[]⟩

theorem new_pair : new 2 = some pair := by
  have two : Nat.nextPowerOfTwo 2 = 2 := by decide +kernel
  unfold new
  rw [two]
  rfl

-- The first of two messages would expire at 9, the second at 24; the second goes.
theorem longer_lived_goes : new 2 = some pair ∧ ∃ answers after looks,
    pair.run [.write 4 5 [1],.write 4 20 [2]] = some (answers,after,looks) ∧
      (after.evictShortestTtl 5).1 = true ∧ ((after.evictShortestTtl 5).2.buffer 0).state = .active ∧
      ((after.evictShortestTtl 5).2.buffer 1).state = .deleted ∧ ¬ ShortestEvicted after 5 := by
  refine ⟨new_pair,_,_,_,rfl,by decide,by decide,by decide,?_⟩
  intro shortest
  have agree := shortest.agree
  revert agree
  decide

end TTLCircularBuffer
end RemDb
