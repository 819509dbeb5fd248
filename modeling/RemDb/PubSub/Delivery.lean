import Mathlib.Data.List.GetD
import Mathlib.Data.Nat.Bitwise
import RemDb.PubSub.RingBuffer

namespace RemDb
open RemDb.Lib

structure Message where
  data : Bytes
  expire_time : UInt64
deriving DecidableEq,Repr

namespace TTLCircularBuffer

-- The slots behind the write position hold the accepted messages in order.
-- A slot is never made free again, so the write position ends at the capacity
-- and a message keeps the slot of its number.
structure Holds (ring : TTLCircularBuffer) (messages : List Message) : Prop where
  power : ∃ exponent, ring.capacity = 2^exponent
  small : ring.capacity < usizeLimit
  mask : ring.mask = ring.capacity-1
  length : messages.length = ring.current_write
  written : ring.current_write ≤ ring.capacity
  behind : ring.current_read ≤ ring.current_write
  held : ∀ place message, messages[place]? = some message →
    ((ring.buffer place).state = .active ∨ (ring.buffer place).state = .deleted) ∧
      (ring.buffer place).timestamp = message.expire_time ∧ (ring.buffer place).data = message.data
  unused : ∀ place, ring.current_write ≤ place → (ring.buffer place).state = .free
  entries : ∀ entry ∈ ring.ttl_heap, entry.logical_idx = entry.slot_idx ∧
    ∃ message, messages[entry.slot_idx]? = some message ∧ message.expire_time = entry.expire_time

theorem new_holds {size : Nat} {ring : TTLCircularBuffer} (made : new size = some ring) : Holds ring [] ∧ ring.current_read = 0 := by
  unfold new at made
  dsimp only at made
  split at made
  · cases made
  · rename_i fits
    cases made
    obtain ⟨exponent,power⟩ := Nat.isPowerOfTwo_nextPowerOfTwo size
    refine ⟨⟨⟨exponent,power⟩,?_,rfl,rfl,Nat.zero_le _,Nat.le_refl _,?_,?_,?_⟩,rfl⟩
    · dsimp only
      simp only [Slot.SIZE,usizeLimit] at fits ⊢
      omega
    · intro place message present
      simp at present
    · intro place beyond
      rfl
    · intro entry present
      cases present

section Places
variable {ring : TTLCircularBuffer} {messages : List Message}

theorem Holds.positive (holds : Holds ring messages) : 0 < ring.capacity := by
  obtain ⟨exponent,power⟩ := holds.power
  rw [power]
  exact Nat.two_pow_pos exponent

theorem Holds.slot (holds : Holds ring messages) (below : place < ring.capacity) :
    place &&& ring.mask = place := by
  obtain ⟨exponent,power⟩ := holds.power
  rw [holds.mask,power,Nat.and_two_pow_sub_one_eq_mod]
  exact Nat.mod_eq_of_lt (power ▸ below)

theorem Holds.slot_full (holds : Holds ring messages) : ring.capacity &&& ring.mask = 0 := by
  obtain ⟨exponent,power⟩ := holds.power
  rw [holds.mask,power,Nat.and_two_pow_sub_one_eq_mod]
  exact Nat.mod_self _

theorem Holds.message (holds : Holds ring messages) (below : place < ring.current_write) :
    ∃ message, messages[place]? = some message := by
  have inside : place < messages.length := by
    rw [holds.length]
    exact below
  exact ⟨messages[place],List.getElem?_eq_getElem inside⟩

theorem Holds.taken (holds : Holds ring messages) (below : place < ring.current_write) :
    (ring.buffer place).state = .active ∨ (ring.buffer place).state = .deleted := by
  obtain ⟨message,present⟩ := holds.message below
  exact (holds.held place message present).1

end Places

-- Some active messages that are not spared are given up. Nothing else has
-- changed but the heap, which may be shorter.
structure Thins (spared : Nat → Prop) (ring after : TTLCircularBuffer) : Prop where
  mask : after.mask = ring.mask
  capacity : after.capacity = ring.capacity
  current_read : after.current_read = ring.current_read
  current_write : after.current_write = ring.current_write
  slots : ∀ place, after.buffer place = ring.buffer place ∨
    (ring.buffer place).state = .active ∧ ¬spared place ∧
      after.buffer place = {ring.buffer place with state:=.deleted}
  heap : ∀ entry ∈ after.ttl_heap, entry ∈ ring.ttl_heap

section Thinning
variable {ring middle after : TTLCircularBuffer} {spared : Nat → Prop} {messages : List Message}

theorem Thins.refl (spared : Nat → Prop) (ring : TTLCircularBuffer) : Thins spared ring ring :=
  ⟨rfl,rfl,rfl,rfl,fun _ => .inl rfl,fun _ present => present⟩

theorem Thins.trans (first : Thins spared ring middle) (second : Thins spared middle after) :
    Thins spared ring after := by
  refine ⟨second.mask.trans first.mask,second.capacity.trans first.capacity,
    second.current_read.trans first.current_read,second.current_write.trans first.current_write,?_,
    fun entry present => first.heap entry (second.heap entry present)⟩
  intro place
  rcases second.slots place with same | ⟨active,unspared,gone⟩
  · rw [same]
    exact first.slots place
  · rcases first.slots place with same | ⟨_,_,earlier⟩
    · rw [same] at active gone
      exact .inr ⟨active,unspared,gone⟩
    · rw [earlier] at active
      cases active

theorem Thins.timestamp (thins : Thins spared ring after) (place : Nat) :
    (after.buffer place).timestamp = (ring.buffer place).timestamp := by
  rcases thins.slots place with same | ⟨_,_,gone⟩
  · rw [same]
  · rw [gone]

theorem Thins.spare (thins : Thins spared ring after) (safe : spared place) :
    after.buffer place = ring.buffer place := by
  rcases thins.slots place with same | ⟨_,unspared,_⟩
  · exact same
  · exact absurd safe unspared

theorem drop_thins (active : (ring.buffer place).state = .active) (unspared : ¬spared place) :
    Thins spared ring (ring.drop place) := by
  refine ⟨rfl,rfl,rfl,rfl,?_,fun _ present => present⟩
  intro other
  by_cases equal : other = place
  · subst other
    exact .inr ⟨active,unspared,assign_same _ _ _⟩
  · exact .inl (assign_other _ equal _)

theorem Thins.holds (thins : Thins spared ring after) (holds : Holds ring messages) : Holds after messages := by
  refine ⟨?_,?_,?_,?_,?_,?_,?_,?_,?_⟩
  · rw [thins.capacity]
    exact holds.power
  · rw [thins.capacity]
    exact holds.small
  · rw [thins.mask,thins.capacity]
    exact holds.mask
  · rw [thins.current_write]
    exact holds.length
  · rw [thins.current_write,thins.capacity]
    exact holds.written
  · rw [thins.current_read,thins.current_write]
    exact holds.behind
  · intro place message present
    obtain ⟨state,timestamp,data⟩ := holds.held place message present
    rcases thins.slots place with same | ⟨_,_,gone⟩
    · rw [same]
      exact ⟨state,timestamp,data⟩
    · rw [gone]
      exact ⟨.inr rfl,timestamp,data⟩
  · intro place beyond
    rw [thins.current_write] at beyond
    have free := holds.unused place beyond
    rcases thins.slots place with same | ⟨active,_,_⟩
    · rw [same]
      exact free
    · rw [free] at active
      cases active
  · intro entry present
    exact holds.entries entry (thins.heap entry present)

end Thinning

def Fresh (now : UInt64) (ring : TTLCircularBuffer) (place : Nat) : Prop := now < (ring.buffer place).timestamp

theorem evictLoop_thins (now : UInt64) (heap : List TTLHeapEntry) (ring : TTLCircularBuffer)
    (known : ∀ entry ∈ heap, entry ∈ ring.ttl_heap) : Thins (Fresh now ring) ring (evictLoop now heap ring) := by
  induction heap generalizing ring with
  | nil => exact ⟨rfl,rfl,rfl,rfl,fun _ => .inl rfl,fun _ present => nomatch present⟩
  | cons entry rest ih =>
    unfold evictLoop
    split
    · exact ⟨rfl,rfl,rfl,rfl,fun _ => .inl rfl,known⟩
    · rename_i due
      have others := fun each (present : each ∈ rest) => known each (List.mem_cons_of_mem _ present)
      by_cases live : ring.current entry = true
      · rw [if_pos live]
        obtain ⟨active,_,timestamp⟩ := of_decide_eq_true live
        have stale : ¬Fresh now ring entry.slot_idx := by
          unfold Fresh
          rw [timestamp]
          exact due
        have dropped := drop_thins active stale
        have later := ih (ring.drop entry.slot_idx) others
        refine dropped.trans ?_
        -- what is fresh does not depend on the state of a slot
        have same : Fresh now (ring.drop entry.slot_idx) = Fresh now ring := by
          funext place
          unfold Fresh
          rw [dropped.timestamp]
        rw [← same]
        exact later
      · rw [if_neg live]
        exact ih ring others

theorem evictExpired_thins (now : UInt64) (ring : TTLCircularBuffer) :
    Thins (Fresh now ring) ring (ring.evictExpired now).2 :=
  evictLoop_thins now ring.ttl_heap ring fun _ present => present

-- A ring that is not full has a free slot at the write position, and takes
-- the message without looking for what is expired.
section Write
variable {ring : TTLCircularBuffer} {messages : List Message}

theorem pushEntry_mem {entry each : TTLHeapEntry} {heap : List TTLHeapEntry} (present : each ∈ pushEntry entry heap) :
    each = entry ∨ each ∈ heap := by
  induction heap with
  | nil => exact .inl (List.mem_singleton.mp present)
  | cons top rest ih =>
    unfold pushEntry at present
    split at present
    · exact List.mem_cons.mp present
    · rcases List.mem_cons.mp present with equal | later
      · exact .inr (List.mem_cons.mpr (.inl equal))
      · rcases ih later with equal | old
        · exact .inl equal
        · exact .inr (List.mem_cons_of_mem _ old)

theorem Holds.idle (holds : Holds ring messages) (room : ring.current_write < ring.capacity) :
    ring.busy (ring.current_write &&& ring.mask) = false := by
  rw [holds.slot room]
  simp [busy,holds.unused _ (Nat.le_refl _)]

theorem write_room (holds : Holds ring messages) (room : ring.current_write < ring.capacity)
    (now ttl_ms : UInt64) (data : Bytes) : ring.write now ttl_ms data =
      (true,{ring.setSlot ring.current_write ⟨.active,now+ttl_ms,data⟩ with
        ttl_heap:=pushEntry ⟨now+ttl_ms,ring.current_write,ring.current_write⟩ ring.ttl_heap
        current_write:=ring.current_write+1}) := by
  have idle := holds.idle room
  have free := holds.unused _ (Nat.le_refl _)
  have slot := holds.slot room
  unfold write
  rw [slot] at idle
  simp only [slot,idle,free,Bool.false_eq_true,Bool.true_eq_false,if_false,ne_eq,not_true]

theorem write_holds (holds : Holds ring messages) (room : ring.current_write < ring.capacity)
    (now ttl_ms : UInt64) (data : Bytes) :
    Holds (ring.write now ttl_ms data).2 (messages ++ [⟨data,now+ttl_ms⟩]) := by
  rw [write_room holds room]
  refine ⟨holds.power,holds.small,holds.mask,?_,room,Nat.le_succ_of_le holds.behind,?_,?_,?_⟩
  · rw [List.length_append,holds.length]
    rfl
  · intro place message present
    by_cases last : place = ring.current_write
    · subst place
      rw [← holds.length,List.getElem?_concat_length] at present
      cases present
      dsimp only [setSlot]
      rw [assign_same]
      exact ⟨.inl rfl,rfl,rfl⟩
    · have inside : place < messages.length := by
        have below := (List.getElem?_eq_some_iff.mp present).1
        rw [List.length_append,holds.length] at below
        rw [holds.length]
        simp only [List.length_cons,List.length_nil] at below
        omega
      rw [List.getElem?_append_left inside] at present
      dsimp only [setSlot]
      rw [assign_other _ last]
      exact holds.held place message present
  · intro place beyond
    dsimp only at beyond
    dsimp only [setSlot]
    rw [assign_other _ (by omega)]
    exact holds.unused place (by omega)
  · intro entry present
    rcases pushEntry_mem present with rfl | old
    · refine ⟨rfl,⟨data,now+ttl_ms⟩,?_,rfl⟩
      rw [← holds.length,List.getElem?_concat_length]
    · obtain ⟨same,message,found,time⟩ := holds.entries entry old
      refine ⟨same,message,?_,time⟩
      rw [List.getElem?_append_left (List.getElem?_eq_some_iff.mp found).1]
      exact found

-- A full ring refuses: the first slot is in use or marked as deleted, and the
-- exchange expects a free one.
theorem write_full (holds : Holds ring messages) (full : ring.current_write = ring.capacity)
    (now ttl_ms : UInt64) (data : Bytes) : ∃ after, ring.write now ttl_ms data = (false,after) ∧
      (after = ring ∨ ring.busy (ring.current_write &&& ring.mask) = true ∧ after = (ring.evictExpired now).2) := by
  have slot : ring.current_write &&& ring.mask = 0 := by
    rw [full]
    exact holds.slot_full
  have nonempty : 0 < ring.current_write := by
    rw [full]
    exact holds.positive
  have thins := evictExpired_thins now ring
  have taken := holds.taken nonempty
  have still : (((ring.evictExpired now).2).buffer 0).state ≠ .free := by
    intro free
    rcases (thins.holds holds).taken (thins.current_write ▸ nonempty) with active | deleted
    · rw [free] at active
      cases active
    · rw [free] at deleted
      cases deleted
  have used : (ring.buffer 0).state ≠ .free := by
    intro free
    rw [free] at taken
    rcases taken with active | deleted
    · cases active
    · cases deleted
  rw [slot]
  unfold write
  by_cases busy : ring.busy 0 = true
  · refine ⟨(ring.evictExpired now).2,?_,.inr ⟨busy,rfl⟩⟩
    have looked : (ring.evictExpired now).1 = true := rfl
    simp only [slot,busy,if_true,looked,Bool.true_eq_false,if_false]
    split
    · rfl
    · rfl
  · refine ⟨ring,?_,.inl rfl⟩
    simp only [slot,busy,Bool.false_eq_true,Bool.true_eq_false,if_false,ne_eq,used,not_false_eq_true,if_true]

end Write

section Read
variable {ring after : TTLCircularBuffer} {messages : List Message}

theorem Holds.advance (holds : Holds ring messages) (more : ring.current_read < ring.current_write) :
    Holds {ring with current_read:=ring.current_read+1} messages :=
  ⟨holds.power,holds.small,holds.mask,holds.length,holds.written,more,holds.held,holds.unused,holds.entries⟩

-- What a round of `read` at the read position may not touch.
def Beside (now : UInt64) (ring : TTLCircularBuffer) (place : Nat) : Prop :=
  Fresh now ring place ∧ place ≠ ring.current_read

theorem Thins.beside (thins : Thins (Fresh now ring) ring after) : Thins (Beside now ring) ring after :=
  ⟨thins.mask,thins.capacity,thins.current_read,thins.current_write,fun place =>
    (thins.slots place).imp_right fun ⟨active,stale,gone⟩ => ⟨active,fun spared => stale spared.1,gone⟩,thins.heap⟩

-- One round finds the queue empty, passes over the slot at the read position,
-- or delivers the message there.
theorem readOnce_cases (holds : Holds ring messages) (now : UInt64) (room : Nat) :
    ∃ after, Thins (Beside now ring) ring after ∧
      ((ring.current_read = ring.current_write ∧ ring.readOnce now room = (some none,after)) ∨
      ring.current_read < ring.current_write ∧
        ((¬((ring.buffer ring.current_read).state = .active ∧ Fresh now ring ring.current_read) ∧
          ring.readOnce now room = (none,{after with current_read:=after.current_read+1})) ∨
        ∃ message, messages[ring.current_read]? = some message ∧ now < message.expire_time ∧
          ring.readOnce now room = (some (some ⟨ring.current_read,message.data.take room,room,now⟩),
            {after with current_read:=after.current_read+1}))) := by
  have thins := evictExpired_thins now ring
  have kept := thins.holds holds
  unfold readOnce
  generalize (ring.evictExpired now).2 = cleaned at thins kept
  dsimp only
  by_cases empty : cleaned.current_read = cleaned.current_write
  · refine ⟨cleaned,thins.beside,.inl ⟨?_,if_pos empty⟩⟩
    rw [← thins.current_read,← thins.current_write]
    exact empty
  · rw [if_neg empty]
    have more : cleaned.current_read < cleaned.current_write := Nat.lt_of_le_of_ne kept.behind empty
    rw [kept.slot (Nat.lt_of_lt_of_le more kept.written),thins.current_read]
    have before : ring.current_read < ring.current_write := by
      rw [← thins.current_read,← thins.current_write]
      exact more
    obtain ⟨message,present⟩ := holds.message before
    obtain ⟨_,timestamp,data⟩ := kept.held _ message present
    have time := thins.timestamp ring.current_read
    by_cases active : (cleaned.buffer ring.current_read).state = .active
    · have dropped : Thins (Beside now ring) ring (cleaned.drop ring.current_read) :=
        thins.beside.trans (drop_thins active fun spared => spared.2 rfl)
      refine ⟨_,dropped,.inr ⟨before,?_⟩⟩
      rw [if_neg (not_not_intro active)]
      by_cases due : (cleaned.buffer ring.current_read).timestamp ≤ now
      · refine .inl ⟨?_,?_⟩
        · rintro ⟨_,fresh⟩
          unfold Fresh at fresh
          rw [← time] at fresh
          exact absurd fresh (UInt64.not_lt.mpr due)
        · rw [if_pos due]
          simp only [drop,setSlot,thins.current_read]
      · refine .inr ⟨message,present,?_,?_⟩
        · rw [← timestamp]
          exact UInt64.not_le.mp due
        · rw [if_neg due,data]
          simp only [drop,setSlot,thins.current_read]
    · refine ⟨cleaned,thins.beside,.inr ⟨before,.inl ⟨?_,?_⟩⟩⟩
      · rintro ⟨was,fresh⟩
        rw [thins.spare fresh] at active
        exact active was
      · rw [if_pos active,thins.current_read]

end Read

def Faithful (messages : List Message) (delivery : Delivery) : Prop :=
  ∃ message, messages[delivery.read_idx]? = some message ∧
    delivery.data = message.data.take delivery.room ∧ delivery.now < message.expire_time

-- A message whose turn is still to come, and that no look before then finds
-- expired.
def Waiting (ring : TTLCircularBuffer) (looks : List Look) (place : Nat) : Prop :=
  ring.current_read ≤ place ∧ (ring.buffer place).state = .active ∧
    ∀ look ∈ looks, look.current_read ≤ place → look.now < (ring.buffer place).timestamp

structure Effect (messages : List Message) (ring after : TTLCircularBuffer) (delivery : Option Delivery) : Prop where
  capacity : after.capacity = ring.capacity
  forward : ring.current_read ≤ after.current_read
  inside : ∀ given ∈ delivery, ring.current_read ≤ given.read_idx ∧ given.read_idx < after.current_read
  faithful : ∀ given ∈ delivery, Faithful messages given

def Keeps (ring after : TTLCircularBuffer) (delivery : Option Delivery) (looks : List Look) : Prop :=
  ∀ place, Waiting ring looks place →
    (∃ given ∈ delivery, given.read_idx = place) ∨
      after.current_read ≤ place ∧ after.buffer place = ring.buffer place

def Turns (ring after : TTLCircularBuffer) (looks : List Look) : Prop :=
  ∀ place, Waiting ring looks place → ring.current_read < after.current_read

section Rounds
variable {ring after : TTLCircularBuffer} {messages : List Message} {looks : List Look}

theorem Thins.effect {spared : Nat → Prop} (thins : Thins spared ring after) : Effect messages ring after none :=
  ⟨thins.capacity,Nat.le_of_eq thins.current_read.symm,fun _ given => (nomatch given),fun _ given => nomatch given⟩

theorem Waiting.tail {look : Look} (waiting : Waiting ring (look :: looks) place) : Waiting ring looks place :=
  ⟨waiting.1,waiting.2.1,fun each present => waiting.2.2 each (List.mem_cons_of_mem _ present)⟩

theorem Waiting.fresh {look : Look} (waiting : Waiting ring (look :: looks) place)
    (early : look.current_read ≤ place) : Fresh look.now ring place :=
  waiting.2.2 look (List.mem_cons_self) early

theorem Waiting.written (waiting : Waiting ring looks place) (holds : Holds ring messages) :
    place < ring.current_write := by
  by_contra beyond
  have free := holds.unused place (Nat.le_of_not_lt beyond)
  have active := waiting.2.1
  rw [free] at active
  cases active

theorem Waiting.moved (waiting : Waiting ring looks place) (later : after.current_read ≤ place)
    (same : after.buffer place = ring.buffer place) : Waiting after looks place := by
  refine ⟨later,?_,?_⟩
  · rw [same]
    exact waiting.2.1
  · rw [same]
    exact waiting.2.2

-- The induction is on the rounds: each passes over one slot, and there are no
-- more slots to pass over than lie between the two positions.
theorem readLoop_spec (clock : Nat → UInt64) (room fuel round : Nat) (ring : TTLCircularBuffer)
    (holds : Holds ring messages) (enough : ring.current_write-ring.current_read < fuel) :
    ∃ delivery after looks, readLoop clock room fuel round ring = some (delivery,after,looks) ∧
      Holds after messages ∧ Effect messages ring after delivery ∧ Keeps ring after delivery looks ∧
      Turns ring after looks := by
  induction fuel generalizing round ring with
  | zero => omega
  | succ fuel ih =>
    unfold readLoop
    obtain ⟨middle,thins,found⟩ := readOnce_cases holds (clock round) room
    have kept := thins.holds holds
    rcases found with ⟨empty,once⟩ | ⟨more,⟨dead,once⟩ | ⟨message,present,early,once⟩⟩
    · -- nothing is waiting when the two positions meet
      have none_waiting : ∀ place looks, ¬Waiting ring looks place := by
        intro place looks waiting
        have below := waiting.written holds
        have above := waiting.1
        omega
      refine ⟨none,middle,[⟨clock round,ring.current_read⟩],?_,kept,?_,?_,?_⟩
      · simp only [once]
      · exact thins.effect
      · exact fun place waiting => absurd waiting (none_waiting place _)
      · exact fun place waiting => absurd waiting (none_waiting place _)
    · have moved : middle.current_read < middle.current_write := by
        rw [thins.current_read,thins.current_write]
        exact more
      have fewer : middle.current_write-(middle.current_read+1) < fuel := by
        rw [thins.current_read,thins.current_write]
        omega
      obtain ⟨delivery,last,looks,rest,holdsLast,effect,keeps,turns⟩ := ih (round+1) _ (kept.advance moved) fewer
      have start : ring.current_read+1 ≤ last.current_read := by
        have forward := effect.forward
        dsimp only at forward
        rw [thins.current_read] at forward
        exact forward
      -- the slot passed over held nothing that waits
      have onward : ∀ place, Waiting ring (⟨clock round,ring.current_read⟩ :: looks) place →
          Waiting {middle with current_read:=middle.current_read+1} looks place ∧
            middle.buffer place = ring.buffer place := by
        intro place waiting
        have fresh : Fresh (clock round) ring place := waiting.fresh waiting.1
        have other : place ≠ ring.current_read := by
          intro equal
          subst equal
          exact dead ⟨waiting.2.1,fresh⟩
        have same := thins.spare ⟨fresh,other⟩
        refine ⟨waiting.tail.moved ?_ same,same⟩
        have above := waiting.1
        dsimp only
        rw [thins.current_read]
        omega
      refine ⟨delivery,last,⟨clock round,ring.current_read⟩ :: looks,?_,holdsLast,
        ⟨effect.capacity.trans thins.capacity,by omega,?_,effect.faithful⟩,?_,?_⟩
      · simp only [once,rest,Option.map_some]
      · intro given present
        have bounds := effect.inside given present
        dsimp only at bounds
        rw [thins.current_read] at bounds
        omega
      · intro place waiting
        obtain ⟨waits,same⟩ := onward place waiting
        rcases keeps place waits with given | ⟨later,unchanged⟩
        · exact .inl given
        · exact .inr ⟨later,unchanged.trans same⟩
      · intro place waiting
        omega
    · have moved : middle.current_read < middle.current_write := by
        rw [thins.current_read,thins.current_write]
        exact more
      refine ⟨some ⟨ring.current_read,message.data.take room,room,clock round⟩,_,[⟨clock round,ring.current_read⟩],
        ?_,kept.advance moved,⟨thins.capacity,?_,?_,?_⟩,?_,?_⟩
      · simp only [once]
      · dsimp only
        rw [thins.current_read]
        omega
      · intro given present
        cases present
        dsimp only
        rw [thins.current_read]
        omega
      · intro given present
        cases present
        exact ⟨message,present,rfl,early⟩
      · intro place waiting
        by_cases turn : place = ring.current_read
        · exact .inl ⟨_,rfl,turn.symm⟩
        · refine .inr ⟨?_,thins.spare ⟨waiting.fresh waiting.1,turn⟩⟩
          have above := waiting.1
          dsimp only
          rw [thins.current_read]
          omega
      · intro place waiting
        dsimp only
        rw [thins.current_read]
        omega

theorem read_spec (holds : Holds ring messages) (clock : Nat → UInt64) (room : Nat) :
    ∃ delivery after looks, ring.read clock room = some (delivery,after,looks) ∧
      Holds after messages ∧ Effect messages ring after delivery ∧ Keeps ring after delivery looks ∧
      Turns ring after looks :=
  readLoop_spec clock room _ 0 ring holds (Nat.lt_succ_self _)

end Rounds

end TTLCircularBuffer

def RingAnswer.delivery : RingAnswer → Option Delivery
  | .read delivery => delivery
  | .written _ => none
  | .evicted _ => none

def deliveries (answers : List RingAnswer) : List Delivery := answers.filterMap RingAnswer.delivery

def RingCall.accepted : RingCall → RingAnswer → List Message
  | .write now ttl_ms data, .written true => [⟨data,now+ttl_ms⟩]
  | _, _ => []

def accepted : List RingCall → List RingAnswer → List Message
  | call :: calls, answer :: answers => call.accepted answer ++ accepted calls answers
  | _, _ => []

def RingCall.isRead : RingCall → Bool
  | .read _ _ => true
  | _ => false

-- The one call that gives up messages before their time.
def RingCall.forces : RingCall → Bool
  | .evictShortestTtl _ => true
  | _ => false

def reads (calls : List RingCall) : Nat := calls.countP RingCall.isRead

namespace TTLCircularBuffer

section Calls
variable {ring after : TTLCircularBuffer} {messages : List Message}

theorem Thins.keeps (thins : Thins (Fresh now ring) ring after) :
    Keeps ring after none [⟨now,ring.current_read⟩] := by
  intro place waiting
  refine .inr ⟨?_,thins.spare (waiting.fresh waiting.1)⟩
  rw [thins.current_read]
  exact waiting.1

theorem shortest_active (ring : TTLCircularBuffer) (now : UInt64) (found : ring.shortest now = some place) :
    (ring.buffer place).state = .active := by
  unfold shortest at found
  have every : ∀ (logical : List Nat) (best : UInt64 × Option Nat),
      (∀ slot ∈ best.2, (ring.buffer slot).state = .active) →
      ∀ slot ∈ (logical.foldl (fun best logical_idx =>
        let slot_idx := logical_idx &&& ring.mask
        let slot := ring.buffer slot_idx
        let remaining_ttl := if now ≤ slot.timestamp then slot.timestamp-now else 0
        if slot.state = .active ∧ remaining_ttl < best.1 then (remaining_ttl,some slot_idx) else best) best).2,
        (ring.buffer slot).state = .active := by
    intro logical
    induction logical with
    | nil => exact fun best start => start
    | cons first rest ih =>
      intro best start
      refine ih _ ?_
      dsimp only
      by_cases better : (ring.buffer (first &&& ring.mask)).state = .active ∧
          (if now ≤ (ring.buffer (first &&& ring.mask)).timestamp then
            (ring.buffer (first &&& ring.mask)).timestamp-now else 0) < best.1
      · rw [if_pos better]
        intro slot equal
        cases equal
        exact better.1
      · rw [if_neg better]
        exact start
  refine every _ _ ?_ place found
  intro slot given
  cases given

theorem evictShortestTtl_thins (ring : TTLCircularBuffer) (now : UInt64) :
    Thins (fun _ => False) ring (ring.evictShortestTtl now).2 := by
  have cleaned : Thins (fun _ => False) ring (ring.evictExpired now).2 := by
    have thins := evictExpired_thins now ring
    exact ⟨thins.mask,thins.capacity,thins.current_read,thins.current_write,
      fun place => (thins.slots place).imp_right fun ⟨active,_,gone⟩ => ⟨active,not_false,gone⟩,thins.heap⟩
  unfold evictShortestTtl
  dsimp only
  split
  · rename_i entry found
    have live := List.find?_some found
    exact cleaned.trans (drop_thins (of_decide_eq_true live).1 not_false)
  · unfold evictShortestTtlFallback
    split
    · rename_i place found
      exact cleaned.trans (drop_thins (shortest_active _ now found) not_false)
    · exact cleaned

-- Every call ends. It keeps the picture of the slots, delivers only what is
-- held, and does not lose what waits unless it is asked to.
theorem perform_spec (holds : Holds ring messages) (call : RingCall) :
    ∃ answer after looks, ring.perform call = some (answer,after,looks) ∧
      Holds after (messages ++ call.accepted answer) ∧ Effect messages ring after answer.delivery ∧
      (call.forces = false → Keeps ring after answer.delivery looks) ∧
      (call.isRead = true → Turns ring after looks) := by
  cases call with
  | write now ttl_ms data =>
    rcases Nat.lt_or_eq_of_le holds.written with room | full
    · refine ⟨.written true,(ring.write now ttl_ms data).2,[],?_,write_holds holds room now ttl_ms data,?_,?_,?_⟩
      · unfold perform
        simp only [holds.idle room,write_room holds room,Bool.false_eq_true,if_false]
      · rw [write_room holds room]
        exact ⟨rfl,Nat.le_refl _,fun _ given => (nomatch given),fun _ given => nomatch given⟩
      · intro _ place waiting
        have below := waiting.written holds
        rw [write_room holds room]
        exact .inr ⟨waiting.1,assign_other _ (Nat.ne_of_lt below) _⟩
      · intro isRead
        cases isRead
    · obtain ⟨after,refused,unchanged⟩ := write_full holds full now ttl_ms data
      refine ⟨.written false,after,
        if ring.busy (ring.current_write &&& ring.mask) then [⟨now,ring.current_read⟩] else [],?_,?_,?_,?_,?_⟩
      · unfold perform
        simp only [refused]
      · rw [show RingCall.accepted (.write now ttl_ms data) (.written false) = [] from rfl,List.append_nil]
        rcases unchanged with rfl | ⟨_,rfl⟩
        · exact holds
        · exact (evictExpired_thins now ring).holds holds
      · rcases unchanged with rfl | ⟨_,rfl⟩
        · exact (Thins.refl (fun _ => True) _).effect
        · exact (evictExpired_thins now ring).effect
      · intro _
        rcases unchanged with rfl | ⟨busy,rfl⟩
        · exact fun place waiting => .inr ⟨waiting.1,rfl⟩
        · rw [if_pos busy]
          exact (evictExpired_thins now ring).keeps
      · intro isRead
        cases isRead
  | read clock room =>
    obtain ⟨delivery,after,looks,done,kept,effect,keeps,turns⟩ := read_spec holds clock room
    refine ⟨.read delivery,after,looks,?_,?_,effect,fun _ => keeps,fun _ => turns⟩
    · simp only [perform,done,Option.map_some]
    · rw [show RingCall.accepted (.read clock room) (.read delivery) = [] from rfl,List.append_nil]
      exact kept
  | evictExpired now =>
    have thins := evictExpired_thins now ring
    refine ⟨.evicted true,_,_,rfl,?_,thins.effect,fun _ => thins.keeps,fun isRead => nomatch isRead⟩
    exact (List.append_nil messages).symm ▸ thins.holds holds
  | evictShortestTtl now =>
    have thins := evictShortestTtl_thins ring now
    refine ⟨.evicted _,_,_,rfl,?_,thins.effect,fun forces => (nomatch forces),fun isRead => nomatch isRead⟩
    exact (List.append_nil messages).symm ▸ thins.holds holds

end Calls

section Runs
variable {ring after : TTLCircularBuffer} {messages : List Message}

theorem Faithful.append {given : Delivery} (faithful : Faithful messages given) (more : List Message) :
    Faithful (messages ++ more) given := by
  obtain ⟨message,present,data,early⟩ := faithful
  refine ⟨message,?_,data,early⟩
  rw [List.getElem?_append_left (List.getElem?_eq_some_iff.mp present).1]
  exact present

theorem deliveries_cons (answer : RingAnswer) (answers : List RingAnswer) :
    deliveries (answer :: answers) = answer.delivery.toList ++ deliveries answers := by
  unfold deliveries
  cases given : answer.delivery with
  | none => rw [List.filterMap_cons_none given,Option.toList_none,List.nil_append]
  | some delivery => rw [List.filterMap_cons_some given,Option.toList_some,List.singleton_append]

theorem run_cons {call : RingCall} {answer : RingAnswer} {looks : List Look} {calls : List RingCall}
    (first : ring.perform call = some (answer,after,looks)) :
    ring.run (call :: calls) =
      (after.run calls).map fun others => (answer :: others.1,others.2.1,looks ++ others.2.2) := by
  rw [run,first]
  simp only [Option.bind_eq_bind,Option.bind_some]
  cases after.run calls with
  | none => rfl
  | some others => rfl

theorem run_spec (holds : Holds ring messages) (calls : List RingCall) :
    ∃ answers after looks, ring.run calls = some (answers,after,looks) ∧
      Holds after (messages ++ accepted calls answers) ∧
      ((deliveries answers).map (·.read_idx)).Pairwise (· < ·) ∧
      ∀ given ∈ deliveries answers, ring.current_read ≤ given.read_idx ∧
        Faithful (messages ++ accepted calls answers) given := by
  induction calls generalizing ring messages with
  | nil => exact ⟨[],ring,[],rfl,(List.append_nil messages).symm ▸ holds,.nil,fun _ given => nomatch given⟩
  | cons call calls ih =>
    obtain ⟨answer,middle,looks,first,kept,effect,_,_⟩ := perform_spec holds call
    obtain ⟨answers,last,others,rest,holdsLast,ordered,each⟩ := ih kept
    have regroup : messages ++ accepted (call :: calls) (answer :: answers) =
        messages ++ call.accepted answer ++ accepted calls answers := (List.append_assoc _ _ _).symm
    refine ⟨answer :: answers,last,looks ++ others,?_,regroup ▸ holdsLast,?_,?_⟩
    · rw [run_cons first,rest]
      rfl
    · rw [deliveries_cons,List.map_append,List.pairwise_append]
      refine ⟨?_,ordered,?_⟩
      · cases answer.delivery with
        | none => exact .nil
        | some given => exact List.pairwise_singleton _ _
      · intro one early two late
        obtain ⟨given,present,rfl⟩ := List.mem_map.mp early
        obtain ⟨later,among,rfl⟩ := List.mem_map.mp late
        exact Nat.lt_of_lt_of_le (effect.inside given (Option.mem_toList.mp present)).2 (each later among).1
    · intro given present
      rw [regroup]
      rw [deliveries_cons] at present
      rcases List.mem_append.mp present with now | later
      · have here := Option.mem_toList.mp now
        exact ⟨(effect.inside given here).1,((effect.faithful given here).append _).append _⟩
      · obtain ⟨above,faithful⟩ := each given later
        exact ⟨Nat.le_trans effect.forward above,faithful⟩

-- The induction is on the calls: each read that does not deliver the message
-- brings the read position nearer to it.
theorem run_delivers (holds : Holds ring messages) (calls : List RingCall) (patient : ∀ call ∈ calls, call.forces = false)
    (done : ring.run calls = some (answers,after,looks)) (waiting : Waiting ring looks place)
    (enough : place < ring.current_read+reads calls) : ∃ given ∈ deliveries answers, given.read_idx = place := by
  induction calls generalizing ring messages answers looks with
  | nil =>
    have above := waiting.1
    have none_left : reads [] = 0 := rfl
    omega
  | cons call calls ih =>
    obtain ⟨answer,middle,early,first,kept,effect,keeps,turns⟩ := perform_spec holds call
    obtain ⟨others,last,late,rest,_,_,_⟩ := run_spec kept calls
    rw [run_cons first,rest] at done
    cases done
    have soon : Waiting ring early place :=
      ⟨waiting.1,waiting.2.1,fun look present => waiting.2.2 look (List.mem_append_left _ present)⟩
    rw [deliveries_cons]
    rcases keeps (patient call List.mem_cons_self) place soon with ⟨given,present,here⟩ | ⟨later,same⟩
    · exact ⟨given,List.mem_append_left _ (Option.mem_toList.mpr present),here⟩
    · have onward : Waiting middle late place := by
        refine Waiting.moved ⟨waiting.1,waiting.2.1,?_⟩ later same
        exact fun look present => waiting.2.2 look (List.mem_append_right _ present)
      have left : place < middle.current_read+reads calls := by
        have forward := effect.forward
        unfold reads at enough ⊢
        rw [List.countP_cons] at enough
        by_cases isRead : call.isRead = true
        · have moved := turns isRead place soon
          rw [if_pos isRead] at enough
          omega
        · rw [if_neg isRead] at enough
          omega
      obtain ⟨given,present,here⟩ := ih kept (fun each among => patient each (List.mem_cons_of_mem _ among)) rest onward left
      exact ⟨given,List.mem_append_right _ present,here⟩

theorem run_append {before more : List RingCall} (done : ring.run before = some (answers,after,looks)) :
    ring.run (before ++ more) =
      (after.run more).map fun others => (answers ++ others.1,others.2.1,looks ++ others.2.2) := by
  induction before generalizing ring answers looks with
  | nil =>
    cases done
    rw [List.nil_append]
    cases after.run more with
    | none => rfl
    | some others => rfl
  | cons call before ih =>
    rw [run] at done
    obtain ⟨⟨answer,middle,early⟩,first,done⟩ := Option.bind_eq_some_iff.mp done
    obtain ⟨⟨others,last,late⟩,rest,done⟩ := Option.bind_eq_some_iff.mp done
    cases done
    rw [List.cons_append,run_cons first,ih rest,Option.map_map]
    simp only [Function.comp_def,List.cons_append,List.append_assoc]

end Runs

-- A write of the run that succeeds, and whose message is never found expired
-- at a look before its turn, with a read for it and for each message ahead.
inductive Unexpired (ring : TTLCircularBuffer) : List RingCall → Nat → Message → Prop where
  | intro {before rest : List RingCall} {now ttl_ms : UInt64} {data : Bytes}
      {early later : List RingAnswer} {middle written last : TTLCircularBuffer} {past looks : List Look}
      (ran : ring.run before = some (early,middle,past))
      (success : middle.write now ttl_ms data = (true,written))
      (went : written.run rest = some (later,last,looks))
      (patient : ∀ call ∈ rest, call.forces = false)
      (unexpired : ∀ look ∈ looks, look.current_read ≤ middle.current_write → look.now < now+ttl_ms)
      (enough : middle.current_write < middle.current_read+reads rest) :
      Unexpired ring (before ++ .write now ttl_ms data :: rest) middle.current_write ⟨data,now+ttl_ms⟩

theorem unexpired_delivered {ring after : TTLCircularBuffer} (holds : Holds ring [])
    (due : Unexpired ring calls place message) (done : ring.run calls = some (answers,after,looks)) :
    ∃ given ∈ deliveries answers, given.read_idx = place ∧ given.data = message.data.take given.room := by
  cases due with
  | @intro before rest now ttl_ms data early later middle written last past ahead ran success went patient
      unexpired enough =>
    obtain ⟨_,_,_,again,kept,_,_⟩ := run_spec holds before
    cases ran.symm.trans again
    rcases Nat.lt_or_eq_of_le kept.written with room | full
    · have shape := (success.symm.trans (write_room kept room now ttl_ms data))
      have state := congrArg Prod.snd shape
      dsimp only at state
      have heldNow : Holds written (accepted before early ++ [⟨data,now+ttl_ms⟩]) := by
        have wrote := write_holds kept room now ttl_ms data
        rw [success] at wrote
        exact wrote
      have slot : written.buffer middle.current_write = ⟨.active,now+ttl_ms,data⟩ := by
        rw [state]
        exact assign_same _ _ _
      have position : written.current_read = middle.current_read := by rw [state,setSlot]
      have waiting : Waiting written ahead middle.current_write := by
        refine ⟨?_,?_,?_⟩
        · rw [position]
          exact kept.behind
        · rw [slot]
        · rw [slot]
          exact unexpired
      obtain ⟨_,_,_,onward,_,_,each⟩ := run_spec heldNow rest
      cases went.symm.trans onward
      obtain ⟨given,present,here⟩ := run_delivers heldNow rest patient went waiting (position ▸ enough)
      have first : middle.perform (.write now ttl_ms data) = some (.written true,written,[]) := by
        simp only [perform,success,kept.idle room,Bool.false_eq_true,if_false]
      rw [run_append ran,run_cons first,went] at done
      cases done
      refine ⟨given,?_,here,?_⟩
      · unfold deliveries
        rw [List.filterMap_append]
        exact List.mem_append_right _ present
      · obtain ⟨found,place,same,_⟩ := (each given present).2
        rw [here,← kept.length,List.getElem?_append_left (by simp),List.nil_append,List.getElem?_concat_length] at place
        cases place
        exact same
    · obtain ⟨_,refused,_⟩ := write_full kept full now ttl_ms data
      rw [refused] at success
      cases success

-- Every run ends. What it delivers are accepted messages in their order, each
-- at most once and before its time, and every accepted message that is not
-- found expired before its turn is delivered.
theorem ring_delivers_in_order {size : Nat} {ring : TTLCircularBuffer} (made : new size = some ring)
    (calls : List RingCall) : ∃ answers after looks, ring.run calls = some (answers,after,looks) ∧
      ((deliveries answers).map (·.read_idx)).Pairwise (· < ·) ∧
      (∀ given ∈ deliveries answers, Faithful (accepted calls answers) given) ∧
      ∀ place message, Unexpired ring calls place message →
        ∃ given ∈ deliveries answers, given.read_idx = place ∧ given.data = message.data.take given.room := by
  have holds := (new_holds made).1
  obtain ⟨answers,after,looks,done,_,ordered,each⟩ := run_spec holds calls
  refine ⟨answers,after,looks,done,ordered,?_,?_⟩
  · intro given present
    have faithful := (each given present).2
    rw [List.nil_append] at faithful
    exact faithful
  · intro place message due
    exact unexpired_delivered holds due done

def single : TTLCircularBuffer := ⟨fun _ => ⟨.free,0,[]⟩,0,0,0,1,[]⟩

theorem new_single : new 1 = some single := by
  have one : Nat.nextPowerOfTwo 1 = 1 := by decide +kernel
  unfold new
  rw [one]
  rfl

-- A message of three bytes, read with room for two of them.
theorem ring_delivers_single : new 1 = some single ∧
    ∃ answers after looks, single.run [.write 4 5 [1,2,3],.read (fun _ => 8) 2] = some (answers,after,looks) ∧
      ∃ given ∈ deliveries answers, given.read_idx = 0 ∧ given.data = [1,2,3].take given.room := by
  refine ⟨new_single,?_⟩
  obtain ⟨answers,after,looks,done,_,_,each⟩ :=
    ring_delivers_in_order new_single [.write 4 5 [1,2,3],.read (fun _ => 8) 2]
  refine ⟨answers,after,looks,done,each 0 ⟨[1,2,3],9⟩ ?_⟩
  have ran : single.run [] = some ([],single,[]) := rfl
  have success : single.write 4 5 [1,2,3] = (true,(single.write 4 5 [1,2,3]).2) := rfl
  have went : (single.write 4 5 [1,2,3]).2.run [.read (fun _ => 8) 2] =
      some ([.read (some ⟨0,[1,2],2,8⟩)],_,[⟨8,0⟩]) := rfl
  exact .intro ran success went (by decide) (by decide) (by decide)

end TTLCircularBuffer
end RemDb
