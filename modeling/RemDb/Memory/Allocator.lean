import RemDb.Lib.Linked
import RemDb.Lib.Tiling
import RemDb.Types

namespace RemDb
open RemDb.Lib

structure MemoryBlock where
  next : Option Nat
  size : Nat
  is_allocated : Bool
deriving DecidableEq,Repr

-- `size_of` and `align_of` of the header on a 64-bit target.
def MemoryBlock.SIZE : Nat := 24
def MemoryBlock.ALIGNMENT : Nat := 8

-- `blocks` is the pool read as a header at each address. Distinct headers never
-- overlap and a client writes only its payload, so headers are cells of their own.
structure StaticAllocator where
  start_ptr : Nat
  size : Nat
  used : Nat
  free_list : Option Nat
  alloc_count : Nat
  free_count : Nat
  blocks : Nat → MemoryBlock

namespace StaticAllocator
open MemoryBlock

def roundUp (value : Nat) : Nat := usizeAdd value 7 / 8 * 8

def writeBlock (pool : StaticAllocator) (block : Nat) (header : MemoryBlock) : StaticAllocator :=
  {pool with blocks:=assign pool.blocks block header}

def links (pool : StaticAllocator) : Links := ⟨pool.free_list,fun block => (pool.blocks block).next⟩

-- What `*current` reads and writes, for a `current` that points at the list
-- head or at the next pointer of a block.
def link (pool : StaticAllocator) (current : Option Nat) : Option Nat := pool.links.get current

def setLink (pool : StaticAllocator) (current target : Option Nat) : StaticAllocator :=
  match current with
  | none => {pool with free_list:=target}
  | some block => pool.writeBlock block {pool.blocks block with next:=target}

def reset (pool : StaticAllocator) : StaticAllocator :=
  {pool.writeBlock pool.start_ptr ⟨none,usizeSub pool.size SIZE,false⟩ with
    free_list:=some pool.start_ptr,used:=0,alloc_count:=0,free_count:=0}

def new (memory : Nat → MemoryBlock) (start_ptr size : Nat) : Option StaticAllocator :=
  let aligned_addr := usizeAdd start_ptr (ALIGNMENT-1) / ALIGNMENT * ALIGNMENT
  let aligned_size := usizeSub size (usizeSub aligned_addr start_ptr)
  if aligned_size < SIZE then none
  else if aligned_addr = 0 then none
  else some (reset ⟨aligned_addr,aligned_size,0,none,0,0,memory⟩)

-- A block that leaves room for another header and eight bytes is split.
def splitBlock (pool : StaticAllocator) (block aligned_size : Nat) : StaticAllocator :=
  let header := pool.blocks block
  if header.size ≥ usizeAdd (usizeAdd aligned_size SIZE) 8 then
    let new_block := usizeAdd block (usizeAdd aligned_size SIZE)
    let new_size := usizeSub (usizeSub header.size aligned_size) SIZE
    (pool.writeBlock new_block ⟨header.next,new_size,false⟩).writeBlock block
      {header with next:=some new_block,size:=aligned_size}
  else pool

-- Unlink the block, mark it and count it.
def takeBlock (pool : StaticAllocator) (current : Option Nat) (block : Nat) : StaticAllocator :=
  let unlinked := pool.setLink current (pool.blocks block).next
  let marked := unlinked.writeBlock block {unlinked.blocks block with is_allocated:=true}
  {marked with
    used:=usizeAdd marked.used (usizeAdd (marked.blocks block).size SIZE)
    alloc_count:=usizeAdd marked.alloc_count 1}

def grant (pool : StaticAllocator) (current : Option Nat) (block aligned_size : Nat) :
    Except RemDbError Nat × StaticAllocator :=
  let data := usizeAdd block SIZE
  (if data = 0 then .error .invalidPointer else .ok data,
    (pool.splitBlock block aligned_size).takeBlock current block)

def allocateLoop (aligned_size : Nat) : Nat → StaticAllocator → Option Nat →
    Option (Except RemDbError Nat × StaticAllocator)
  | 0, _, _ => none
  | fuel+1, pool, current =>
    match pool.link current with
    | none => some (.error .outOfMemory,pool)
    | some block =>
      if (pool.blocks block).size ≥ aligned_size then some (pool.grant current block aligned_size)
      else allocateLoop aligned_size fuel pool (some block)

-- `none` would be a loop that does not end within as many rounds as the pool
-- has bytes.
def allocate (pool : StaticAllocator) (size : Nat) : Option (Except RemDbError Nat × StaticAllocator) :=
  allocateLoop (roundUp size) (pool.size+1) pool none

def mergeLoop : Nat → StaticAllocator → Option Nat → Option StaticAllocator
  | 0, _, _ => none
  | fuel+1, pool, current =>
    match pool.link current with
    | none => some pool
    | some block =>
      let header := pool.blocks block
      match header.next with
      | none => mergeLoop fuel pool (some block)
      | some next_block =>
        if usizeAdd (usizeAdd block SIZE) header.size = next_block then
          let next_header := pool.blocks next_block
          let size := usizeAdd header.size (usizeAdd SIZE next_header.size)
          mergeLoop fuel (pool.writeBlock block {header with size:=size,next:=next_header.next}) current
        else mergeLoop fuel pool (some block)

def mergeAdjacentBlocks (pool : StaticAllocator) : Option StaticAllocator :=
  mergeLoop (pool.size+1) pool none

def hang (pool : StaticAllocator) (current : Option Nat) (block : Nat) (next : Option Nat) :
    StaticAllocator :=
  (pool.writeBlock block {pool.blocks block with next:=next}).setLink current (some block)

-- Insertion by address, before the first block that lies higher.
def insertLoop (block : Nat) : Nat → StaticAllocator → Option Nat → Option StaticAllocator
  | 0, _, _ => none
  | fuel+1, pool, current =>
    match pool.link current with
    | none => some (pool.hang current block none)
    | some current_block =>
      if current_block > block then some (pool.hang current block (some current_block))
      else insertLoop block fuel pool (some current_block)

-- Unmark the block and take it off the count.
def releaseBlock (pool : StaticAllocator) (block : Nat) : StaticAllocator :=
  let marked := pool.writeBlock block {pool.blocks block with is_allocated:=false}
  let block_size := usizeAdd (marked.blocks block).size SIZE
  {marked with
    used:=if marked.used ≥ block_size then marked.used-block_size else marked.used
    free_count:=usizeAdd marked.free_count 1}

def free (pool : StaticAllocator) (ptr : Nat) : Option StaticAllocator :=
  let block := usizeSub ptr SIZE
  let end_addr := usizeAdd pool.start_ptr pool.size
  if block < pool.start_ptr ∨ block ≥ end_addr then some pool
  else if block = 0 then some pool
  else (insertLoop block (pool.size+1) (pool.releaseBlock block) none).bind mergeAdjacentBlocks

end StaticAllocator
end RemDb
