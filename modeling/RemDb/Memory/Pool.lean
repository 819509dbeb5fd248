import RemDb.Lib.BlockPool
import RemDb.Types

namespace RemDb
open RemDb.Lib

-- What a memory pool and a slab allocator have in common. The memory lies
-- outside, since its users write to it as well; addresses are numbers.
structure FixedPool where
  start_ptr : Nat
  block_size : Nat
  total_blocks : Nat
  used_blocks : Nat
  free_list : Option Nat
deriving DecidableEq,Repr

namespace FixedPool

def carved (memory : ByteMemory) (start_ptr block_size total_blocks : Nat) : FixedPool × ByteMemory :=
  let list := carve block_size total_blocks start_ptr none memory
  (⟨start_ptr,block_size,total_blocks,0,list.1⟩,list.2)

def allocate (pool : FixedPool) (memory : ByteMemory) : Except RemDbError Nat × FixedPool :=
  match pool.free_list with
  | some block_ptr =>
    (.ok block_ptr,{pool with free_list:=readLink memory block_ptr,used_blocks:=usizeAdd pool.used_blocks 1})
  | none => (.error .outOfMemory,pool)

def contains (pool : FixedPool) (ptr : Nat) : Bool :=
  decide (pool.start_ptr ≤ ptr ∧ ptr < pool.start_ptr+pool.block_size*pool.total_blocks)

def free (pool : FixedPool) (memory : ByteMemory) (ptr : Nat) : FixedPool × ByteMemory :=
  if pool.contains ptr then
    ({pool with free_list:=some ptr,used_blocks:=usizeSub pool.used_blocks 1},writeLink memory ptr pool.free_list)
  else (pool,memory)

def blocks (pool : FixedPool) : List Nat := blocksFrom pool.start_ptr pool.block_size pool.total_blocks

end FixedPool

abbrev MemoryPool := FixedPool

namespace MemoryPool

def alignedBlockSize (block_size : Nat) : Nat := usizeAdd block_size 7 / 8 * 8

def new (memory : ByteMemory) (start_ptr block_size total_blocks : Nat) : MemoryPool × ByteMemory :=
  FixedPool.carved memory start_ptr (alignedBlockSize block_size) total_blocks

end MemoryPool

structure SlabAllocator extends FixedPool where
  alignment : Nat

namespace SlabAllocator

-- `(slot_size + alignment - 1) & !(alignment - 1)`, for a power of two.
def alignedSlot (slot_size alignment : Nat) : Nat := usizeSub (usizeAdd slot_size alignment) 1 / alignment * alignment

def new (memory : ByteMemory) (start_ptr slot_size alignment total_slots : Nat) :
    Except RemDbError (SlabAllocator × ByteMemory) :=
  if start_ptr = 0 then .error .invalidPointer
  else
    let carved := FixedPool.carved memory start_ptr (alignedSlot slot_size alignment) total_slots
    .ok (⟨carved.1,alignment⟩,carved.2)

end SlabAllocator

structure PoolState where
  pool : FixedPool
  memory : ByteMemory
  allocated : List Nat

-- Between the calls the users fill the blocks they have.
inductive PoolCall where
  | allocate
  | free (ptr : Nat)
  | fill (ptr : Nat) (bytes : Bytes)

namespace PoolState

def step (state : PoolState) : PoolCall → PoolState
  | .allocate =>
    match state.pool.allocate state.memory with
    | (.ok block,pool) => ⟨pool,state.memory,block :: state.allocated⟩
    | (.error _,pool) => {state with pool:=pool}
  | .free ptr =>
    if ptr ∈ state.allocated then
      let freed := state.pool.free state.memory ptr
      ⟨freed.1,freed.2,state.allocated.erase ptr⟩
    else state
  | .fill ptr bytes =>
    if ptr ∈ state.allocated then {state with memory:=ByteMemory.store state.memory ptr (bytes.take state.pool.block_size)}
    else state

def run (state : PoolState) (calls : List PoolCall) : PoolState := calls.foldl step state

def made (carved : FixedPool × ByteMemory) : PoolState := ⟨carved.1,carved.2,[]⟩

-- The free list and the allocated blocks are all the blocks, each once; the
-- counter is right; and no two blocks share a byte of their links.
structure Sound (state : PoolState) : Prop where
  listed : ∃ list, Segment (readLink state.memory) state.pool.free_list list none ∧ list.Nodup ∧
    state.allocated.Nodup ∧ (∀ address, address ∈ list → address ∉ state.allocated) ∧
    ∀ address, address ∈ list ∨ address ∈ state.allocated ↔ address ∈ state.pool.blocks
  used : state.pool.used_blocks = state.allocated.length
  apart : state.pool.blocks.Pairwise fun left right => left+linkSize ≤ right ∨ right+linkSize ≤ left

def AlwaysSound (carved : FixedPool × ByteMemory) : Prop := ∀ calls, ((made carved).run calls).Sound

structure Held (start_ptr block_size total_blocks : Nat) (state : PoolState) : Prop where
  start : state.pool.start_ptr = start_ptr
  size : state.pool.block_size = block_size
  total : state.pool.total_blocks = total_blocks
  parted : Parted (blocksFrom start_ptr block_size total_blocks) (readLink state.memory) state.pool.free_list
    state.allocated
  used : state.pool.used_blocks = state.allocated.length

structure Laid (start_ptr block_size total_blocks : Nat) : Prop where
  apart : (blocksFrom start_ptr block_size total_blocks).Pairwise (Apart block_size)
  inside : ∀ block ∈ blocksFrom start_ptr block_size total_blocks,
    (start_ptr ≤ block ∧ block < start_ptr+block_size*total_blocks) ∧ Storable (some block)
  few : total_blocks < usizeLimit

section Steps
variable {start_ptr block_size total_blocks : Nat} {state : PoolState} {ptr : Nat}

theorem Laid.beside (laid : Laid start_ptr block_size total_blocks) {left right : Nat}
    (first : left ∈ blocksFrom start_ptr block_size total_blocks)
    (second : right ∈ blocksFrom start_ptr block_size total_blocks) (different : left ≠ right) :
    Apart block_size left right ∨ Apart block_size right left := by
  have symmetric : Std.Symm fun one two => Apart block_size one two ∨ Apart block_size two one := ⟨fun _ _ => Or.symm⟩
  have either : (blocksFrom start_ptr block_size total_blocks).Pairwise fun one two =>
      Apart block_size one two ∨ Apart block_size two one := laid.apart.imp Or.inl
  exact either.forall first second different

theorem parted_few {next : Nat → Option Nat} {free : Option Nat} {others : List Nat}
    (parted : Parted (blocksFrom start_ptr block_size total_blocks) next free others) : others.length ≤ total_blocks := by
  have all := parted.others_length
  rwa [blocksFrom,List.length_map,List.length_range] at all

section Writes
variable {memory : ByteMemory} {free : Option Nat} {others : List Nat}

theorem Laid.storable (laid : Laid start_ptr block_size total_blocks)
    (parted : Parted (blocksFrom start_ptr block_size total_blocks) (readLink memory) free others) : Storable free := by
  intro address head
  rw [head] at parted
  exact (laid.inside address parted.free_mem).2 address rfl

theorem Laid.freed (laid : Laid start_ptr block_size total_blocks)
    (parted : Parted (blocksFrom start_ptr block_size total_blocks) (readLink memory) free others)
    (member : ptr ∈ others) :
    Parted (blocksFrom start_ptr block_size total_blocks) (readLink (writeLink memory ptr free)) (some ptr)
      (others.erase ptr) := by
  refine parted.give (nodup_of_apart laid.apart) member (readLink_written (laid.storable parted)) ?_
  intro each among different
  apply writeLink_apart
  exact (laid.beside among (parted.others_mem member) different).imp And.left And.left

theorem Laid.filled (laid : Laid start_ptr block_size total_blocks)
    (parted : Parted (blocksFrom start_ptr block_size total_blocks) (readLink memory) free others)
    (member : ptr ∈ others) {bytes : Bytes} (short : bytes.length ≤ block_size) :
    Parted (blocksFrom start_ptr block_size total_blocks) (readLink (ByteMemory.store memory ptr bytes)) free
      others := by
  refine parted.congr ?_ (nodup_of_apart laid.apart)
  intro each among free
  have different : each ≠ ptr := fun same => free (same ▸ member)
  apply readLink_apart
  rcases laid.beside among (parted.others_mem member) different with ⟨before,_⟩ | ⟨_,after⟩
  · exact .inl before
  · exact .inr (Nat.le_trans (Nat.add_le_add_left short _) after)

end Writes

theorem Held.renewed (held : state.Held start_ptr block_size total_blocks) {memory : ByteMemory} {free : Option Nat}
    {used : Nat} {allocated : List Nat}
    (parted : Parted (blocksFrom start_ptr block_size total_blocks) (readLink memory) free allocated)
    (counted : used = allocated.length) :
    Held start_ptr block_size total_blocks ⟨{state.pool with free_list:=free,used_blocks:=used},memory,allocated⟩ :=
  ⟨held.start,held.size,held.total,parted,counted⟩

theorem held_allocate (held : state.Held start_ptr block_size total_blocks)
    (laid : Laid start_ptr block_size total_blocks) : (state.step .allocate).Held start_ptr block_size total_blocks := by
  cases head : state.pool.free_list with
  | none =>
    have same : state.step .allocate = state := by rw [step,FixedPool.allocate,head]
    rw [same]
    exact held
  | some block =>
    have taken : state.step .allocate = ⟨{state.pool with
        free_list:=readLink state.memory block,used_blocks:=usizeAdd state.pool.used_blocks 1},
        state.memory,block :: state.allocated⟩ := by rw [step,FixedPool.allocate,head]
    rw [taken]
    have parted := held.parted
    rw [head] at parted
    have within := parted_few parted.take
    rw [List.length_cons] at within
    have few := laid.few
    have counted : usizeAdd state.pool.used_blocks 1 = state.allocated.length+1 := by
      rw [held.used,usizeAdd_of_lt (by omega)]
    exact held.renewed parted.take counted

theorem held_free (held : state.Held start_ptr block_size total_blocks) (laid : Laid start_ptr block_size total_blocks) :
    (state.step (.free ptr)).Held start_ptr block_size total_blocks := by
  rw [step]
  split
  · next member =>
    have block := held.parted.others_mem member
    have inside : state.pool.contains ptr = true := by
      rw [FixedPool.contains,held.start,held.size,held.total]
      exact decide_eq_true (laid.inside ptr block).1
    have within := parted_few held.parted
    have few := laid.few
    have nonempty : 0 < state.allocated.length := List.length_pos_of_mem member
    have counted : usizeSub state.pool.used_blocks 1 = (state.allocated.erase ptr).length := by
      rw [held.used,usizeSub_of_le (by omega) nonempty,List.length_erase_of_mem member]
    have freed : state.pool.free state.memory ptr = ({state.pool with
        free_list:=some ptr,used_blocks:=usizeSub state.pool.used_blocks 1},
        writeLink state.memory ptr state.pool.free_list) := if_pos inside
    rw [freed]
    exact held.renewed (laid.freed held.parted member) counted
  · exact held

theorem held_fill (held : state.Held start_ptr block_size total_blocks) (laid : Laid start_ptr block_size total_blocks)
    (bytes : Bytes) : (state.step (.fill ptr bytes)).Held start_ptr block_size total_blocks := by
  rw [step]
  split
  · next member =>
    have short : (bytes.take state.pool.block_size).length ≤ block_size := held.size ▸ List.length_take_le _ _
    exact ⟨held.start,held.size,held.total,laid.filled held.parted member short,held.used⟩
  · exact held

theorem held_step (laid : Laid start_ptr block_size total_blocks) (held : state.Held start_ptr block_size total_blocks)
    (call : PoolCall) : (state.step call).Held start_ptr block_size total_blocks := by
  cases call with
  | allocate => exact held_allocate held laid
  | free ptr => exact held_free held laid
  | fill ptr bytes => exact held_fill held laid bytes

theorem held_run (laid : Laid start_ptr block_size total_blocks) (held : state.Held start_ptr block_size total_blocks)
    (calls : List PoolCall) : (state.run calls).Held start_ptr block_size total_blocks := by
  induction calls generalizing state with
  | nil => exact held
  | cons call rest ih => exact ih (held_step laid held call)

theorem Held.sound (held : state.Held start_ptr block_size total_blocks)
    (laid : Laid start_ptr block_size total_blocks) : state.Sound := by
  have blocks : state.pool.blocks = blocksFrom start_ptr block_size total_blocks := by
    rw [FixedPool.blocks,held.start,held.size,held.total]
  obtain ⟨list,path,all⟩ := held.parted.listed
  obtain ⟨one,two,disjoint⟩ := List.nodup_append.mp (all.nodup_iff.mpr (nodup_of_apart laid.apart))
  refine ⟨⟨list,path,one,two,fun address free used => disjoint address free address used rfl,fun address => ?_⟩,
    held.used,?_⟩
  · rw [← List.mem_append,blocks]
    exact all.mem_iff
  · rw [blocks]
    exact laid.apart.imp fun before => .inl before.1

end Steps

-- The memory a caller hands over begins somewhere and ends within the address
-- space.
def Handed (start_ptr block_size total_blocks : Nat) : Prop :=
  0 < start_ptr ∧ start_ptr+block_size*total_blocks < usizeLimit

def Roomy (block_size total_blocks : Nat) : Prop := linkSize ≤ block_size ∨ total_blocks ≤ 1

section Made
variable {start_ptr block_size total_blocks : Nat}

theorem laid_of (handed : Handed start_ptr block_size total_blocks) (sized : 0 < block_size ∨ total_blocks = 0)
    (roomy : Roomy block_size total_blocks) (few : total_blocks < usizeLimit) :
    Laid start_ptr block_size total_blocks := by
  obtain ⟨positive,fits⟩ := handed
  refine ⟨blocksFrom_apart roomy,?_,few⟩
  intro block member
  obtain ⟨number,early,rfl⟩ := blocksFrom_mem.mp member
  have wide : 0 < block_size := sized.resolve_right (by omega)
  have stepped : block_size*(number+1) ≤ block_size*total_blocks := Nat.mul_le_mul_left block_size early
  rw [Nat.mul_succ] at stepped
  refine ⟨⟨Nat.le_add_right _ _,by omega⟩,?_⟩
  rintro address ⟨⟩
  have small : start_ptr+block_size*number < usizeLimit := by omega
  exact ⟨by omega,small⟩

theorem held_made (memory : ByteMemory) (laid : Laid start_ptr block_size total_blocks)
    (roomy : Roomy block_size total_blocks) :
    (made (FixedPool.carved memory start_ptr block_size total_blocks)).Held start_ptr block_size total_blocks := by
  have begun : Segment (readLink memory) none [] none := rfl
  have path := carve_segment begun nofun roomy nofun fun block member => (laid.inside block member).2
  rw [List.append_nil] at path
  refine ⟨rfl,rfl,rfl,⟨_,path,?_⟩,rfl⟩
  change ((blocksFrom start_ptr block_size total_blocks).reverse ++ []).Perm _
  rw [List.append_nil]
  exact List.reverse_perm _

-- The pool is sound in every run exactly where its blocks have room for a link.
theorem alwaysSound_iff (memory : ByteMemory) (handed : Handed start_ptr block_size total_blocks)
    (sized : 0 < block_size ∨ total_blocks = 0) (few : total_blocks < usizeLimit) :
    AlwaysSound (FixedPool.carved memory start_ptr block_size total_blocks) ↔ Roomy block_size total_blocks := by
  constructor
  · intro always
    by_contra cramped
    obtain ⟨narrow,several⟩ := not_or.mp cramped
    obtain ⟨more,rfl⟩ : ∃ more, total_blocks = more+2 := ⟨total_blocks-2,by omega⟩
    have apart := (always []).apart
    change (blocksFrom start_ptr block_size (more+2)).Pairwise _ at apart
    rw [blocksFrom_succ,blocksFrom_succ] at apart
    have first := (List.pairwise_cons.mp apart).1 (start_ptr+block_size) List.mem_cons_self
    omega
  · intro roomy calls
    have laid := laid_of handed sized roomy few
    exact (held_run laid (held_made memory laid roomy) calls).sound laid

end Made

theorem alignedSlot_eq {slot_size exponent : Nat} (aligned : exponent < 64)
    (fits : alignUp slot_size (2^exponent) < usizeLimit) :
    SlabAllocator.alignedSlot slot_size (2^exponent) = alignUp slot_size (2^exponent) := by
  have limit : usizeLimit = 2^(64-exponent)*2^exponent := by
    rw [← Nat.pow_add,Nat.sub_add_cancel (Nat.le_of_lt aligned)]
    rfl
  have positive : 0 < 2^exponent := Nat.two_pow_pos exponent
  rw [limit] at fits
  have small := before_of_alignUp positive fits
  rw [← limit] at small
  have sum : usizeSub (usizeAdd slot_size (2^exponent)) 1 = slot_size+2^exponent-1 := by
    rcases Nat.lt_or_ge (slot_size+2^exponent) usizeLimit with below | above
    · rw [usizeAdd_of_lt below,usizeSub_of_le below (by omega)]
    · -- the sum is the limit itself, and both wraps cancel
      have whole : slot_size+2^exponent = usizeLimit := by omega
      have wrapped : usizeSub (usizeAdd slot_size (2^exponent)) 1 = usizeLimit-1 := by
        rw [usizeAdd,whole]
        decide
      rw [wrapped,whole]
  rw [SlabAllocator.alignedSlot,alignUp,sum]

theorem alignedBlockSize_eq {block_size : Nat} (fits : alignUp block_size 8 < usizeLimit) :
    MemoryPool.alignedBlockSize block_size = alignUp block_size 8 := by
  have limit : usizeLimit = 2^61*8 := rfl
  rw [limit] at fits
  have small := before_of_alignUp (by decide) fits
  rw [MemoryPool.alignedBlockSize,usizeAdd_of_lt (limit ▸ small)]
  rfl

theorem alwaysSound_rounded (memory : ByteMemory) {start_ptr size rounded total_blocks : Nat}
    (same : size < usizeLimit → rounded = size) (handed : Handed start_ptr size total_blocks) (sized : 0 < size)
    (few : total_blocks < usizeLimit) :
    AlwaysSound (FixedPool.carved memory start_ptr rounded total_blocks) ↔ Roomy size total_blocks := by
  rcases Nat.eq_zero_or_pos total_blocks with rfl | several
  · have none : Handed start_ptr rounded 0 := handed
    rw [alwaysSound_iff memory none (.inr rfl) few]
    exact iff_of_true (.inr (Nat.zero_le 1)) (.inr (Nat.zero_le 1))
  · have once : size*1 ≤ size*total_blocks := Nat.mul_le_mul_left size several
    have fits := handed.2
    rw [same (by omega)]
    exact alwaysSound_iff memory handed (.inl sized) few

-- A memory pool is sound in every run, a slab where a slot has room for a link.
theorem fixed_pools_sound_iff (memory : ByteMemory) {start_ptr block_size total_blocks : Nat} (sized : 0 < block_size)
    (few : total_blocks < usizeLimit) :
    (Handed start_ptr (alignUp block_size 8) total_blocks →
      AlwaysSound (MemoryPool.new memory start_ptr block_size total_blocks)) ∧
    ∀ exponent < 64, Handed start_ptr (alignUp block_size (2^exponent)) total_blocks →
      ∃ slab memory', SlabAllocator.new memory start_ptr block_size (2^exponent) total_blocks = .ok (slab,memory') ∧
        (AlwaysSound (slab.toFixedPool,memory') ↔ Roomy (alignUp block_size (2^exponent)) total_blocks) := by
  constructor
  · intro handed
    have wide : block_size ≤ alignUp block_size 8 := alignUp_ge (by decide)
    refine (alwaysSound_rounded memory alignedBlockSize_eq handed (by omega) few).mpr (.inl ?_)
    -- a multiple of eight that is not zero
    have parts : 0 < (block_size+8-1)/8 := by omega
    exact Nat.mul_le_mul_right 8 parts
  · intro exponent aligned handed
    have wide : block_size ≤ alignUp block_size (2^exponent) := alignUp_ge (Nat.two_pow_pos exponent)
    refine ⟨_,_,if_neg (Nat.ne_of_gt handed.1),?_⟩
    exact alwaysSound_rounded memory (alignedSlot_eq aligned) handed (by omega) few

theorem fixed_pools_sound_iff_small :
    AlwaysSound (MemoryPool.new (fun _ => 0) 4096 4 2) ∧
    ∃ slab memory, SlabAllocator.new (fun _ => 0) 4096 4 (2^2) 1 = .ok (slab,memory) ∧
      (AlwaysSound (slab.toFixedPool,memory) ↔ Roomy (alignUp 4 (2^2)) 1) :=
  ⟨(fixed_pools_sound_iff (fun _ => 0) (by decide) (by decide)).1 ⟨by decide,by decide⟩,
    (fixed_pools_sound_iff (fun _ => 0) (by decide) (by decide)).2 2 (by decide) ⟨by decide,by decide⟩⟩

-- Two slots of four bytes: the link of the second runs into that of the first,
-- and the third call is given an address that is none of theirs.
theorem slots_without_room :
    ∃ slab memory, SlabAllocator.new (fun _ => 0) 4096 4 4 2 = .ok (slab,memory) ∧
      ¬ AlwaysSound (slab.toFixedPool,memory) ∧
      ((made (slab.toFixedPool,memory)).run [.allocate,.allocate,.allocate]).allocated = [4096*2^32,4096,4100] := by
  refine ⟨_,_,rfl,?_,?_⟩
  · intro always
    exact absurd (always []).apart (by decide)
  · decide +kernel

end PoolState
end RemDb
