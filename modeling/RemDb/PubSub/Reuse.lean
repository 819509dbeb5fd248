import RemDb.PubSub.Delivery

namespace RemDb
open RemDb.Lib

def RingCall.isWrite : RingCall → Bool
  | .write _ _ _ => true
  | _ => false

def writes (calls : List RingCall) : Nat := calls.countP RingCall.isWrite

namespace TTLCircularBuffer
variable {ring after : TTLCircularBuffer} {messages : List Message}

-- Once the ring is full the number computed for the first slot is that of the
-- message to come, so the entry of the message in it is passed over.
theorem slotLogicalIdx_full (holds : Holds ring messages) (full : ring.current_write = ring.capacity) :
    ring.slotLogicalIdx 0 = ring.capacity := by
  have slot : ring.current_write &&& ring.mask = 0 := by
    rw [full]
    exact holds.slot_full
  have small := holds.small
  have zero : usizeSub 0 0 = 0 := usizeSub_of_le (by decide) (Nat.le_refl _)
  have whole : usizeSub ring.capacity 0 = ring.capacity := usizeSub_of_le small (Nat.zero_le _)
  unfold slotLogicalIdx
  dsimp only
  rw [slot,if_neg (Nat.lt_irrefl 0),zero,full,whole]

theorem evictLoop_first (now : UInt64) (heap : List TTLHeapEntry) (holds : Holds ring messages)
    (full : ring.current_write = ring.capacity) (same : ∀ entry ∈ heap, entry.logical_idx = entry.slot_idx) :
    (evictLoop now heap ring).buffer 0 = ring.buffer 0 := by
  induction heap generalizing ring with
  | nil => rfl
  | cons entry rest ih =>
    unfold evictLoop
    split
    · rfl
    · have others := fun each (present : each ∈ rest) => same each (List.mem_cons_of_mem _ present)
      by_cases live : ring.current entry = true
      · rw [if_pos live]
        obtain ⟨active,number,_⟩ := of_decide_eq_true live
        have beyond : entry.slot_idx ≠ 0 := by
          intro first
          have own := same entry List.mem_cons_self
          rw [first,slotLogicalIdx_full holds full] at number
          have positive := holds.positive
          omega
        have spared : ¬(entry.slot_idx ≠ entry.slot_idx) := fun different => different rfl
        have dropped : Thins (· ≠ entry.slot_idx) ring (ring.drop entry.slot_idx) := drop_thins active spared
        rw [ih (dropped.holds holds) full others]
        exact dropped.spare beyond.symm
      · rw [if_neg live]
        exact ih holds full others

-- The exchange of a write succeeds exactly while a slot has never been used.
theorem write_succeeds_iff (holds : Holds ring messages) (now ttl_ms : UInt64) (data : Bytes) :
    (ring.write now ttl_ms data).1 = true ↔ ring.current_write < ring.capacity := by
  rcases Nat.lt_or_eq_of_le holds.written with room | full
  · rw [write_room holds room]
    exact ⟨fun _ => room,fun _ => rfl⟩
  · obtain ⟨_,refused,_⟩ := write_full holds full now ttl_ms data
    rw [refused,full]
    exact ⟨fun success => (nomatch success),fun less => absurd less (Nat.lt_irrefl _)⟩

theorem accepted_step (holds : Holds ring messages) (call : RingCall)
    (done : ring.perform call = some (answer,after,looks)) :
    messages.length+(call.accepted answer).length =
      min (messages.length+if call.isWrite then 1 else 0) ring.capacity := by
  have below := holds.written
  have length := holds.length
  cases call with
  | write now ttl_ms data =>
    have outcome : answer = .written (ring.write now ttl_ms data).1 := by
      cases done
      rfl
    have success := write_succeeds_iff holds now ttl_ms data
    have isWrite : (RingCall.write now ttl_ms data).isWrite = true := rfl
    rw [if_pos isWrite]
    by_cases room : ring.current_write < ring.capacity
    · rw [outcome,success.mpr room]
      simp only [RingCall.accepted,List.length_singleton]
      omega
    · have refused := Bool.eq_false_iff.mpr fun accepted => room (success.mp accepted)
      rw [outcome,refused]
      simp only [RingCall.accepted,List.length_nil]
      omega
  | read _ _ | evictExpired _ | evictShortestTtl _ =>
    simp only [RingCall.accepted,RingCall.isWrite,List.length_nil,Bool.false_eq_true,if_false]
    omega

-- Whatever is read in between, a run accepts the first messages up to the
-- capacity and no more.
theorem accepted_count (holds : Holds ring messages) (calls : List RingCall)
    (done : ring.run calls = some (answers,after,looks)) : after.capacity = ring.capacity ∧
      messages.length+(accepted calls answers).length = min (messages.length+writes calls) ring.capacity := by
  induction calls generalizing ring messages answers looks with
  | nil =>
    cases done
    have below := holds.written
    have length := holds.length
    refine ⟨rfl,?_⟩
    simp only [accepted,writes,List.length_nil,List.countP_nil]
    omega
  | cons call calls ih =>
    obtain ⟨answer,middle,early,first,kept,effect,_,_⟩ := perform_spec holds call
    obtain ⟨others,last,late,rest,_,_,_⟩ := run_spec kept calls
    rw [run_cons first,rest] at done
    cases done
    obtain ⟨capacity,count⟩ := ih kept rest
    have step := accepted_step holds call first
    rw [effect.capacity,List.length_append] at count
    refine ⟨capacity.trans effect.capacity,?_⟩
    unfold writes at count ⊢
    simp only [accepted,List.length_append,List.countP_cons]
    omega

theorem slot_reuse_iff {size : Nat} (made : new size = some ring) (calls : List RingCall)
    (done : ring.run calls = some (answers,after,looks)) (now ttl_ms : UInt64) (data : Bytes) :
    (((((after.evictExpired now).2.buffer (after.current_write &&& after.mask)).state ≠ .active →
      (after.write now ttl_ms data).1 = true) ↔
      after.current_write < after.capacity ∨ (after.buffer 0).state = .active)) ∧
    (accepted calls answers).length = min (writes calls) ring.capacity := by
  have holds := (new_holds made).1
  obtain ⟨_,_,_,again,kept,_,_⟩ := run_spec holds calls
  cases done.symm.trans again
  refine ⟨?_,?_⟩
  · have success := write_succeeds_iff kept now ttl_ms data
    rcases Nat.lt_or_eq_of_le kept.written with room | full
    · exact ⟨fun _ => .inl room,fun _ _ => success.mpr room⟩
    · have slot : after.current_write &&& after.mask = 0 := by
        rw [full]
        exact kept.slot_full
      have first : (after.evictExpired now).2.buffer 0 = after.buffer 0 :=
        evictLoop_first now after.ttl_heap kept full fun entry present => (kept.entries entry present).1
      rw [success,slot,first,full]
      constructor
      · intro reuse
        by_contra neither
        exact absurd (reuse fun active => neither (.inr active)) (Nat.lt_irrefl _)
      · rintro (less | active) inactive
        · exact less
        · exact absurd active inactive
  · have count := (accepted_count holds calls done).2
    simp only [List.length_nil,Nat.zero_add] at count
    exact count

-- One write and one read on a ring of one slot: the condition fails from here on.
theorem slot_reuse_single : new 1 = some single ∧
    ∃ answers after looks, single.run [.write 4 5 [1],.read (fun _ => 8) 1] = some (answers,after,looks) ∧
      ((((after.evictExpired 8).2.buffer (after.current_write &&& after.mask)).state ≠ .active →
        (after.write 8 5 [2]).1 = true) ↔ after.current_write < after.capacity ∨ (after.buffer 0).state = .active) :=
  ⟨new_single,_,_,_,rfl,(slot_reuse_iff new_single [.write 4 5 [1],.read (fun _ => 8) 1] rfl 8 5 [2]).1⟩

-- The message has been read, and the slot it leaves takes no other.
theorem read_slot_refused : new 1 = some single ∧
    ∃ answers after looks, single.run [.write 4 5 [1],.read (fun _ => 8) 1] = some (answers,after,looks) ∧
      ((after.evictExpired 8).2.buffer (after.current_write &&& after.mask)).state ≠ .active ∧
      (after.write 8 5 [2]).1 = false :=
  ⟨new_single,_,_,_,rfl,by decide,rfl⟩

end TTLCircularBuffer
end RemDb
