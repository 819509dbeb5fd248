import RemDb.Json.Document
import RemDb.Lib.ByteMemory
import RemDb.Memory.Coverage
import RemDb.Snapshot.Format

namespace RemDb
open Lib

-- `size_of::<BlockHeader>()` on a 64-bit target: a status byte, and from the
-- eighth byte on a reference count, the next free block and the size.
def BlockHeader.SIZE : Nat := 32

structure JsonPoolConfig where
  block_size : Nat
  max_blocks : Nat

structure JsonMemoryPool where
  config : JsonPoolConfig
  first_free : Nat
  blocks : List (Option Nat)

-- The memory of the blocks with the two global managers.
structure JsonHeap where
  memory : ByteMemory
  allocator : Option StaticAllocator
  manager : Option (List JsonMemoryPool)

inductive JsonStorage where
  | inline (data : Bytes)
  | external (pool_id offset length : Nat)
  | null

structure JsonDocument where
  storage : JsonStorage
  size : Nat

namespace BlockHeader

def status (memory : ByteMemory) (block : Nat) : UInt8 := memory block

def nextFree (memory : ByteMemory) (block : Nat) : Nat := ofLE (memory.load (block+16) 8)

def occupied (memory : ByteMemory) (block : Nat) : ByteMemory := (memory.store block [1]).store (block+8) (toLE 8 1)

def fresh (memory : ByteMemory) (block block_size : Nat) : ByteMemory :=
  ((occupied memory block).store (block+16) (toLE 8 (usizeLimit-1))).store (block+24) (toLE 8 (block_size-SIZE))

end BlockHeader

def JsonHeap.alloc (heap : JsonHeap) (size : Nat) : Option (Option Nat × JsonHeap) :=
  match heap.allocator with
  | none => some (none,heap)
  | some allocator => (allocator.allocate size).map fun answer =>
      (answer.1.toOption,{heap with allocator:=some answer.2})

namespace JsonMemoryPool
open BlockHeader

def getBlockData (pool : JsonMemoryPool) (block_idx offset : Nat) : Option Nat :=
  match pool.blocks[block_idx]? with
  | some (some block) => some (block+(SIZE+offset))
  | _ => none

-- The number of the block and an offset. A first free block that is not free, or
-- not there, is looked at again and again.
def allocate (pool : JsonMemoryPool) (heap : JsonHeap) (size : Nat) :
    Option (Option (Nat × Nat) × JsonMemoryPool × JsonHeap) :=
  if size+SIZE > pool.config.block_size then some (none,pool,heap)
  else if pool.first_free ≥ pool.blocks.length ∨ pool.first_free = usizeLimit-1 then
    if pool.blocks.length < pool.config.max_blocks then
      (heap.alloc pool.config.block_size).map fun answer =>
        match answer.1 with
        | some block =>
          (some (pool.blocks.length,SIZE),{pool with blocks:=pool.blocks ++ [some block]},
            {answer.2 with memory:=fresh answer.2.memory block pool.config.block_size})
        | none => (none,pool,answer.2)
    else some (none,pool,heap)
  else
    match pool.blocks[pool.first_free]? with
    | some (some block) =>
      if status heap.memory block = 0 then
        let memory := occupied heap.memory block
        some (some (pool.first_free,SIZE),{pool with first_free:=nextFree memory block},{heap with memory:=memory})
      else none
    | _ => none

end JsonMemoryPool

namespace JsonDocument
open JsonMemoryPool

def maxJsonSize : Nat := 10*1024

-- The document and the heap; nothing where the allocation does not end.
def fromBinary (heap : JsonHeap) (data : Bytes) : Option (Except String JsonDocument × JsonHeap) :=
  let size := data.length
  if size = 0 then some (.ok ⟨.null,0⟩,heap)
  else if size > maxJsonSize then some (.error "JSON too large (max 10KB)",heap)
  else if size ≤ 256 then some (.ok ⟨.inline (padTo 256 data),size⟩,heap)
  else
    match heap.manager with
    | none => some (.error "JSON pool manager not initialized",heap)
    | some pools =>
      match pools[0]? with
      | none => some (.error "Default JSON pool not found",heap)
      | some pool => (pool.allocate heap size).map fun (place,pool',heap') =>
        let kept := {heap' with manager:=some (pools.set 0 pool')}
        match place with
        | some (block_idx,offset) =>
          match pool'.getBlockData block_idx offset with
          | some data_ptr =>
            (.ok ⟨.external 0 (block_idx % 2^32) (size % 2^32),size⟩,{kept with memory:=kept.memory.store data_ptr data})
          | none => (.error "Failed to get block data",kept)
        | none => (.error "Failed to allocate JSON memory",kept)

def fromJson (heap : JsonHeap) (json_str : String) : Option (Except String JsonDocument × JsonHeap) :=
  if Json.trim json_str.toList = [] then some (.ok ⟨.null,0⟩,heap)
  else if (utf8 json_str).length > maxJsonSize then some (.error "JSON too large (max 10KB)",heap)
  else fromBinary heap (utf8 json_str)

def toJson (heap : JsonHeap) (doc : JsonDocument) : Except String String :=
  match doc.storage with
  | .inline data => .ok (fromUtf8Lossy (data.take doc.size))
  | .external pool_id offset length =>
    match heap.manager with
    | none => .error "JSON pool manager not initialized"
    | some pools =>
      match pools[pool_id]? with
      | none => .error "JSON pool not found"
      | some pool =>
        match pool.getBlockData offset 0 with
        | some data_ptr => .ok (fromUtf8Lossy (heap.memory.load data_ptr length))
        | none => .error "Failed to get block data"
  | .null => .ok "null"

def parseJson (heap : JsonHeap) (doc : JsonDocument) : Except String JsonValue := (toJson heap doc).bind Json.parseJsonStr

def ofText (text : String) : JsonDocument := ⟨.inline (padTo 256 (utf8 text)),(utf8 text).length⟩

theorem toJson_inline (heap : JsonHeap) {text : String} (short : (utf8 text).length ≤ 256) :
    toJson heap (ofText text) = .ok text := by
  have read : (padTo 256 (utf8 text)).take (utf8 text).length = utf8 text := by
    rw [padTo,List.take_of_length_le short,List.take_left']
    rfl
  simp only [toJson,ofText,read,fromUtf8Lossy_utf8]

theorem parseJson_inline (heap : JsonHeap) {text : String} (short : (utf8 text).length ≤ 256) :
    parseJson heap (ofText text) = Json.parseJsonStr text := by
  rw [parseJson,toJson_inline heap short]
  rfl

end JsonDocument
end RemDb
