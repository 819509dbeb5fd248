import Mathlib.Data.Nat.Bitwise
import RemDb.Types
import RemDb.Lib.FreeList

namespace RemDb
open RemDb.Lib

inductive SlotState where
  | free | writing | active | deleted
deriving DecidableEq,Repr

-- The bytes behind the data pointer, as many as `data_len` says.
structure Slot where
  state : SlotState
  timestamp : UInt64
  data : Bytes
deriving DecidableEq,Repr

def Slot.SIZE : Nat := 32

structure TTLHeapEntry where
  expire_time : UInt64
  slot_idx : Nat
  logical_idx : Nat
deriving DecidableEq,Repr

-- The derived order, field by field.
def TTLHeapEntry.before (left right : TTLHeapEntry) : Bool :=
  decide (left.expire_time < right.expire_time ∨ left.expire_time = right.expire_time ∧
    (left.slot_idx < right.slot_idx ∨ left.slot_idx = right.slot_idx ∧ left.logical_idx ≤ right.logical_idx))

-- The heap is a list in its order: what is on top is its head.
structure TTLCircularBuffer where
  buffer : Nat → Slot
  mask : Nat
  current_read : Nat
  current_write : Nat
  capacity : Nat
  ttl_heap : List TTLHeapEntry

-- A message that a read gave, with the position it was read at, the room the
-- reader had and the time of the clock when it was taken.
structure Delivery where
  read_idx : Nat
  data : Bytes
  room : Nat
  now : UInt64
deriving DecidableEq,Repr

-- A moment at which expired messages are looked for, and the read position then.
structure Look where
  now : UInt64
  current_read : Nat
deriving DecidableEq,Repr

def pushEntry (entry : TTLHeapEntry) : List TTLHeapEntry → List TTLHeapEntry
  | [] => [entry]
  | top :: rest => if entry.before top then entry :: top :: rest else top :: pushEntry entry rest

namespace TTLCircularBuffer

-- `none` is a layout of more than `isize::MAX` bytes.
def new (capacity : Nat) : Option TTLCircularBuffer :=
  let actual_capacity := capacity.nextPowerOfTwo
  if actual_capacity*Slot.SIZE ≥ 2^63 then none
  else
    some
      { buffer := fun _ => ⟨.free,0,[]⟩
        mask := actual_capacity-1
        current_read := 0
        current_write := 0
        capacity := actual_capacity
        ttl_heap := [] }

def setSlot (ring : TTLCircularBuffer) (slot_idx : Nat) (slot : Slot) : TTLCircularBuffer :=
  {ring with buffer:=assign ring.buffer slot_idx slot}

-- Free the message of a slot. The slot stays marked as deleted.
def drop (ring : TTLCircularBuffer) (slot_idx : Nat) : TTLCircularBuffer :=
  ring.setSlot slot_idx {ring.buffer slot_idx with state:=.deleted}

def slotLogicalIdx (ring : TTLCircularBuffer) (slot_idx : Nat) : Nat :=
  let current_slot_idx := ring.current_write &&& ring.mask
  if slot_idx > current_slot_idx then
    usizeSub ring.current_write (usizeAdd (usizeSub ring.capacity slot_idx) current_slot_idx)
  else usizeSub ring.current_write (usizeSub current_slot_idx slot_idx)

-- A heap entry still speaks of the message in its slot.
def current (ring : TTLCircularBuffer) (entry : TTLHeapEntry) : Bool :=
  let slot := ring.buffer entry.slot_idx
  decide (slot.state = .active ∧ ring.slotLogicalIdx entry.slot_idx = entry.logical_idx ∧
    slot.timestamp = entry.expire_time)

def evictLoop (now : UInt64) : List TTLHeapEntry → TTLCircularBuffer → TTLCircularBuffer
  | [], ring => {ring with ttl_heap:=[]}
  | entry :: rest, ring =>
    if entry.expire_time > now then {ring with ttl_heap:=entry :: rest}
    else evictLoop now rest (if ring.current entry then ring.drop entry.slot_idx else ring)

def evictExpired (ring : TTLCircularBuffer) (now : UInt64) : Bool × TTLCircularBuffer :=
  (true,evictLoop now ring.ttl_heap ring)

def busy (ring : TTLCircularBuffer) (slot_idx : Nat) : Bool :=
  decide ((ring.buffer slot_idx).state ≠ .free ∧ (ring.buffer slot_idx).state ≠ .deleted)

def write (ring : TTLCircularBuffer) (now ttl_ms : UInt64) (data : Bytes) : Bool × TTLCircularBuffer :=
  let expire_time := now+ttl_ms
  let write_idx := ring.current_write
  let slot_idx := write_idx &&& ring.mask
  let evicted := if ring.busy slot_idx then ring.evictExpired now else (true,ring)
  if evicted.1 = false then (false,evicted.2)
  else if evicted.2.busy slot_idx then (false,evicted.2)
  else if (evicted.2.buffer slot_idx).state ≠ .free then (false,evicted.2)
  else
    (true,{evicted.2.setSlot slot_idx ⟨.active,expire_time,data⟩ with
      ttl_heap:=pushEntry ⟨expire_time,slot_idx,write_idx⟩ evicted.2.ttl_heap
      current_write:=ring.current_write+1})

-- One call of `read` up to the call it makes of itself, which is `none`.
def readOnce (ring : TTLCircularBuffer) (now : UInt64) (room : Nat) :
    Option (Option Delivery) × TTLCircularBuffer :=
  let ring := (ring.evictExpired now).2
  if ring.current_read = ring.current_write then (some none,ring)
  else
    let slot_idx := ring.current_read &&& ring.mask
    let slot := ring.buffer slot_idx
    if slot.state ≠ .active then (none,{ring with current_read:=ring.current_read+1})
    else if slot.timestamp ≤ now then
      (none,{ring.drop slot_idx with current_read:=ring.current_read+1})
    else
      (some (some ⟨ring.current_read,slot.data.take room,room,now⟩),
        {ring.drop slot_idx with current_read:=ring.current_read+1})

-- The clock is asked again in every round. The outer `none` is a read that is
-- not done after so many rounds.
def readLoop (clock : Nat → UInt64) (room : Nat) : Nat → Nat → TTLCircularBuffer →
    Option (Option Delivery × TTLCircularBuffer × List Look)
  | 0, _, _ => none
  | fuel+1, round, ring =>
    let look : Look := ⟨clock round,ring.current_read⟩
    match ring.readOnce (clock round) room with
    | (some delivery,after) => some (delivery,after,[look])
    | (none,after) =>
      (readLoop clock room fuel (round+1) after).map fun outcome => (outcome.1,outcome.2.1,look :: outcome.2.2)

def read (ring : TTLCircularBuffer) (clock : Nat → UInt64) (room : Nat) :
    Option (Option Delivery × TTLCircularBuffer × List Look) :=
  readLoop clock room (ring.current_write-ring.current_read+1) 0 ring

-- The search of the fallback: the least remaining time below the largest value.
def shortest (ring : TTLCircularBuffer) (now : UInt64) : Option Nat :=
  ((List.range' ring.current_read (ring.current_write-ring.current_read)).foldl (fun best logical_idx =>
    let slot_idx := logical_idx &&& ring.mask
    let slot := ring.buffer slot_idx
    let remaining_ttl := if now ≤ slot.timestamp then slot.timestamp-now else 0
    if slot.state = .active ∧ remaining_ttl < best.1 then (remaining_ttl,some slot_idx) else best)
    (0xFFFFFFFFFFFFFFFF,none)).2

def evictShortestTtlFallback (ring : TTLCircularBuffer) (now : UInt64) : Bool × TTLCircularBuffer :=
  match ring.shortest now with
  | some slot_idx => (true,ring.drop slot_idx)
  | none => (false,ring)

-- The copy of the heap is taken apart from the top; the heap itself stays.
def evictShortestTtl (ring : TTLCircularBuffer) (now : UInt64) : Bool × TTLCircularBuffer :=
  let cleaned := (ring.evictExpired now).2
  match cleaned.ttl_heap.find? cleaned.current with
  | some entry => (true,cleaned.drop entry.slot_idx)
  | none => cleaned.evictShortestTtlFallback now

end TTLCircularBuffer

inductive RingCall where
  | write (now ttl_ms : UInt64) (data : Bytes)
  | read (clock : Nat → UInt64) (room : Nat)
  | evictExpired (now : UInt64)
  | evictShortestTtl (now : UInt64)

inductive RingAnswer where
  | written (accepted : Bool)
  | read (delivery : Option Delivery)
  | evicted (done : Bool)
deriving DecidableEq,Repr

namespace TTLCircularBuffer

-- One call: what it answers, what it leaves, and when it looked for what is
-- expired. A write looks only at a busy slot.
def perform (ring : TTLCircularBuffer) : RingCall → Option (RingAnswer × TTLCircularBuffer × List Look)
  | .write now ttl_ms data =>
    let outcome := ring.write now ttl_ms data
    let looks := if ring.busy (ring.current_write &&& ring.mask) then [⟨now,ring.current_read⟩] else []
    some (.written outcome.1,outcome.2,looks)
  | .read clock room => (ring.read clock room).map fun outcome => (.read outcome.1,outcome.2.1,outcome.2.2)
  | .evictExpired now =>
    let outcome := ring.evictExpired now
    some (.evicted outcome.1,outcome.2,[⟨now,ring.current_read⟩])
  | .evictShortestTtl now =>
    let outcome := ring.evictShortestTtl now
    some (.evicted outcome.1,outcome.2,[⟨now,ring.current_read⟩])

def run (ring : TTLCircularBuffer) : List RingCall → Option (List RingAnswer × TTLCircularBuffer × List Look)
  | [] => some ([],ring,[])
  | call :: rest => do
    let first ← ring.perform call
    let others ← run first.2.1 rest
    pure (first.1 :: others.1,others.2.1,first.2.2 ++ others.2.2)

end TTLCircularBuffer
end RemDb
