import RemDb.Memory.Pool

namespace RemDb
open RemDb.Lib

-- Where the memory of a pool begins, the size of its blocks and their number.
structure PoolRegion where
  start_ptr : Nat
  block_size : Nat
  total_blocks : Nat
deriving DecidableEq,Repr

def PoolRegion.handedStop (region : PoolRegion) : Nat := region.start_ptr+alignUp region.block_size 8*region.total_blocks

namespace FixedPool

def stop (pool : FixedPool) : Nat := pool.start_ptr+pool.block_size*pool.total_blocks

-- The pools have their memory each for itself.
def Separate (one other : FixedPool) : Prop := one.stop ≤ other.start_ptr ∨ other.stop ≤ one.start_ptr

def region (pool : FixedPool) : PoolRegion := ⟨pool.start_ptr,pool.block_size,pool.total_blocks⟩

def Wide (pool : FixedPool) : Prop := 0 < pool.total_blocks → linkSize ≤ pool.block_size

section Regions
variable {pool one other : FixedPool} {memory : ByteMemory} {ptr block : Nat}

theorem stop_congr (alike : one.region = other.region) : one.stop = other.stop :=
  congrArg (fun region : PoolRegion => region.start_ptr+region.block_size*region.total_blocks) alike

theorem contains_iff : pool.contains ptr = true ↔ pool.start_ptr ≤ ptr ∧ ptr < pool.stop := decide_eq_true_iff

theorem contains_congr (alike : one.region = other.region) : one.contains = other.contains :=
  congrArg (fun region : PoolRegion => fun ptr =>
    decide (region.start_ptr ≤ ptr ∧ ptr < region.start_ptr+region.block_size*region.total_blocks)) alike

theorem block_within (member : block ∈ pool.blocks) : pool.start_ptr ≤ block ∧ block+pool.block_size ≤ pool.stop := by
  obtain ⟨number,early,rfl⟩ := blocksFrom_mem.mp member
  have stepped : pool.block_size*(number+1) ≤ pool.block_size*pool.total_blocks := Nat.mul_le_mul_left _ early
  rw [Nat.mul_succ] at stepped
  rw [stop]
  exact ⟨Nat.le_add_right _ _,by omega⟩

theorem Wide.at_block (wide : pool.Wide) (member : block ∈ pool.blocks) : linkSize ≤ pool.block_size := by
  obtain ⟨number,early,_⟩ := blocksFrom_mem.mp member
  exact wide (by omega)

theorem contains_block (wide : pool.Wide) (member : block ∈ pool.blocks) : pool.contains block = true := by
  have positive : 0 < pool.block_size := Nat.lt_of_lt_of_le (by decide) (wide.at_block member)
  have within := block_within member
  exact contains_iff.mpr ⟨within.1,by omega⟩

theorem Separate.symm (separate : Separate one other) : Separate other one := Or.symm separate

theorem Separate.congr {third : FixedPool} (separate : Separate other third) (alike : one.region = other.region) :
    Separate one third := by
  have start : one.start_ptr = other.start_ptr := congrArg PoolRegion.start_ptr alike
  rwa [Separate,stop_congr alike,start]

theorem Separate.not_contains (separate : Separate one other) (inside : other.contains ptr = true) :
    one.contains ptr = false := by
  rw [Bool.eq_false_iff]
  intro both
  obtain ⟨above,below⟩ := contains_iff.mp both
  obtain ⟨start,stop⟩ := contains_iff.mp inside
  rcases separate with before | after <;> omega

end Regions
end FixedPool

namespace MultiPoolManager

-- The first pool whose blocks are large enough answers, also where it has none.
def allocate (memory : ByteMemory) (size : Nat) : List MemoryPool → Except RemDbError Nat × List MemoryPool
  | [] => (.error .outOfMemory,[])
  | pool :: pools =>
    if size ≤ pool.block_size then
      let answer := pool.allocate memory
      (answer.1,answer.2 :: pools)
    else
      let answer := allocate memory size pools
      (answer.1,pool :: answer.2)

def free (memory : ByteMemory) (ptr : Nat) : List MemoryPool → Except RemDbError Unit × List MemoryPool × ByteMemory
  | [] => (.error .invalidPointer,[],memory)
  | pool :: pools =>
    if pool.contains ptr then
      let freed := pool.free memory ptr
      (.ok (),freed.1 :: pools,freed.2)
    else
      let answer := free memory ptr pools
      (answer.1,pool :: answer.2.1,answer.2.2)

section Loops
variable (memory : ByteMemory) (size ptr : Nat) (pools : List MemoryPool)

theorem allocate_cases :
    ((∀ pool ∈ pools, pool.block_size < size) ∧ allocate memory size pools = (.error .outOfMemory,pools)) ∨
    ∃ earlier pool later, pools = earlier ++ pool :: later ∧ (∀ other ∈ earlier, other.block_size < size) ∧
      size ≤ pool.block_size ∧
      allocate memory size pools = ((pool.allocate memory).1,earlier ++ (pool.allocate memory).2 :: later) := by
  induction pools with
  | nil => exact .inl ⟨nofun,rfl⟩
  | cons pool pools ih =>
    rw [allocate]
    split
    · next fits => exact .inr ⟨[],pool,pools,rfl,nofun,fits,rfl⟩
    · next small =>
      have less : pool.block_size < size := Nat.lt_of_not_le small
      rcases ih with ⟨all,same⟩ | ⟨earlier,found,later,rfl,before,fits,same⟩
      · exact .inl ⟨List.forall_mem_cons.mpr ⟨less,all⟩,by rw [same]⟩
      · exact .inr ⟨pool :: earlier,found,later,rfl,List.forall_mem_cons.mpr ⟨less,before⟩,fits,by rw [same]; rfl⟩

theorem free_cases :
    ((∀ pool ∈ pools, pool.contains ptr = false) ∧ free memory ptr pools = (.error .invalidPointer,pools,memory)) ∨
    ∃ earlier pool later, pools = earlier ++ pool :: later ∧ (∀ other ∈ earlier, other.contains ptr = false) ∧
      pool.contains ptr = true ∧
      free memory ptr pools = (.ok (),earlier ++ (pool.free memory ptr).1 :: later,(pool.free memory ptr).2) := by
  induction pools with
  | nil => exact .inl ⟨nofun,rfl⟩
  | cons pool pools ih =>
    rw [free]
    split
    · next inside => exact .inr ⟨[],pool,pools,rfl,nofun,inside,rfl⟩
    · next outside =>
      have less : pool.contains ptr = false := Bool.eq_false_iff.mpr outside
      rcases ih with ⟨all,same⟩ | ⟨earlier,found,later,rfl,before,inside,same⟩
      · exact .inl ⟨List.forall_mem_cons.mpr ⟨less,all⟩,by rw [same]⟩
      · exact .inr ⟨pool :: earlier,found,later,rfl,List.forall_mem_cons.mpr ⟨less,before⟩,inside,by rw [same]; rfl⟩

theorem free_found {earlier later : List MemoryPool} {pool : MemoryPool}
    (before : ∀ other ∈ earlier, other.contains ptr = false) (inside : pool.contains ptr = true) :
    free memory ptr (earlier ++ pool :: later) =
      (.ok (),earlier ++ (pool.free memory ptr).1 :: later,(pool.free memory ptr).2) := by
  induction earlier with
  | nil => exact if_pos inside
  | cons other earlier ih =>
    obtain ⟨outside,rest⟩ := List.forall_mem_cons.mp before
    rw [List.cons_append,free,ih rest,outside]
    rfl

end Loops

end MultiPoolManager

open MultiPoolManager

structure ManagerState where
  pools : List MemoryPool
  memory : ByteMemory
  allocated : List Nat

-- A pool may also be asked itself, before the manager has it.
inductive ManagerCall where
  | allocate (size : Nat)
  | free (ptr : Nat)
  | fill (ptr : Nat) (bytes : Bytes)
  | direct (index : Nat)

namespace ManagerState

def given (state : ManagerState) (answer : Except RemDbError Nat × List MemoryPool) : ManagerState :=
  match answer.1 with
  | .ok block => ⟨answer.2,state.memory,block :: state.allocated⟩
  | .error _ => {state with pools:=answer.2}

def step (state : ManagerState) : ManagerCall → ManagerState
  | .allocate size => state.given (MultiPoolManager.allocate state.memory size state.pools)
  | .free ptr =>
    if ptr ∈ state.allocated then
      let freed := MultiPoolManager.free state.memory ptr state.pools
      ⟨freed.2.1,freed.2.2,state.allocated.erase ptr⟩
    else state
  | .fill ptr bytes =>
    match state.pools.find? (·.contains ptr) with
    | some pool =>
      if ptr ∈ state.allocated then {state with memory:=ByteMemory.store state.memory ptr (bytes.take pool.block_size)}
      else state
    | none => state
  | .direct index =>
    match state.pools[index]? with
    | some pool =>
      let answer := pool.allocate state.memory
      state.given (answer.1,state.pools.set index answer.2)
    | none => state

def run (state : ManagerState) (calls : List ManagerCall) : ManagerState := calls.foldl step state

def newPools (memory : ByteMemory) : List PoolRegion → List MemoryPool × ByteMemory
  | [] => ([],memory)
  | region :: regions =>
    let made := MemoryPool.new memory region.start_ptr region.block_size region.total_blocks
    let others := newPools made.2 regions
    (made.1 :: others.1,others.2)

def made (memory : ByteMemory) (regions : List PoolRegion) : ManagerState :=
  let all := newPools memory regions
  ⟨all.1,all.2,[]⟩

-- The block is in its pool again.
def GivenBack (state : ManagerState) (index block : Nat) : Prop :=
  ∃ pool, state.pools[index]? = some pool ∧
    let freed := pool.free state.memory block
    freed.1.free_list = some block ∧
      MultiPoolManager.free state.memory block state.pools = (.ok (),state.pools.set index freed.1,freed.2)

-- Memory runs out only where no pool that would do has a free block, and what
-- is given out goes back, however late, to the pool that had it.
def Complete (state : ManagerState) (size : Nat) : Prop :=
  let answer := (MultiPoolManager.allocate state.memory size state.pools).1
  (answer = .error .outOfMemory → ∀ pool ∈ state.pools, size ≤ pool.block_size → pool.free_list = none) ∧
    ∀ block, answer = .ok block → ∃ index pool, state.pools[index]? = some pool ∧ pool.free_list = some block ∧
      ∀ calls, ((state.step (.allocate size)).run calls).GivenBack index block

def PassedOver (state : ManagerState) (size : Nat) : Prop :=
  ∃ first, state.pools.find? (fun pool => decide (size ≤ pool.block_size)) = some first ∧ first.free_list = none ∧
    ∃ other ∈ state.pools, size ≤ other.block_size ∧ other.free_list ≠ none

-- Every pool lies apart from the others, and has its own share of the blocks.
structure Kept (state : ManagerState) : Prop where
  wide : ∀ pool ∈ state.pools, pool.Wide
  laid : ∀ pool ∈ state.pools, PoolState.Laid pool.start_ptr pool.block_size pool.total_blocks
  separate : state.pools.Pairwise FixedPool.Separate
  parted : ∀ pool ∈ state.pools,
    Parted pool.blocks (readLink state.memory) pool.free_list (state.allocated.filter pool.contains)

section Changes
variable {state : ManagerState} {earlier later : List MemoryPool} {pool after : MemoryPool} {memory : ByteMemory}
  {allocated : List Nat} {free : Option Nat} {used : Nat}

theorem separate_of_mem (separate : (earlier ++ pool :: later).Pairwise FixedPool.Separate) {other : MemoryPool}
    (member : other ∈ earlier ∨ other ∈ later) : FixedPool.Separate other pool := by
  obtain ⟨_,onward,across⟩ := List.pairwise_append.mp separate
  rcases member with before | behind
  · exact across other before pool List.mem_cons_self
  · exact ((List.pairwise_cons.mp onward).1 other behind).symm

theorem separate_changed (separate : (earlier ++ pool :: later).Pairwise FixedPool.Separate)
    (alike : after.region = pool.region) : (earlier ++ after :: later).Pairwise FixedPool.Separate := by
  obtain ⟨before,onward,across⟩ := List.pairwise_append.mp separate
  obtain ⟨first,behind⟩ := List.pairwise_cons.mp onward
  refine List.pairwise_append.mpr ⟨before,?_,?_⟩
  · exact List.pairwise_cons.mpr ⟨fun other member => (first other member).congr alike,behind⟩
  · intro other member third among
    rcases List.mem_cons.mp among with rfl | among
    · exact ((across other member pool List.mem_cons_self).symm.congr alike).symm
    · exact across other member third (List.mem_cons_of_mem _ among)

-- One pool changes, and no other pool has a part in it.
theorem Kept.changed (kept : state.Kept) (pools : state.pools = earlier ++ pool :: later)
    (parted : Parted pool.blocks (readLink memory) free (allocated.filter pool.contains))
    (others : ∀ other : MemoryPool, other.Wide → FixedPool.Separate other pool →
      (∀ block ∈ other.blocks, readLink memory block = readLink state.memory block) ∧
      allocated.filter other.contains = state.allocated.filter other.contains) :
    Kept ⟨earlier ++ {pool with free_list:=free,used_blocks:=used} :: later,memory,allocated⟩ := by
  have inner : pool ∈ state.pools := by
    rw [pools]
    exact List.mem_append_right _ List.mem_cons_self
  have outer : ∀ other, other ∈ earlier ∨ other ∈ later → other ∈ state.pools := by
    intro other member
    rw [pools]
    exact List.mem_append.mpr (member.imp_right (List.mem_cons_of_mem _))
  have sorted : ∀ other, other ∈ earlier ++ {pool with free_list:=free,used_blocks:=used} :: later →
      other = {pool with free_list:=free,used_blocks:=used} ∨ other ∈ earlier ∨ other ∈ later := by
    intro other member
    rcases List.mem_append.mp member with before | onward
    · exact .inr (.inl before)
    · exact (List.mem_cons.mp onward).imp_right .inr
  have separate := kept.separate
  rw [pools] at separate
  refine ⟨?_,?_,?_,?_⟩
  · intro other member
    rcases sorted other member with rfl | member
    · exact kept.wide pool inner
    · exact kept.wide other (outer other member)
  · intro other member
    rcases sorted other member with rfl | member
    · exact kept.laid pool inner
    · exact kept.laid other (outer other member)
  · exact separate_changed separate rfl
  · intro other member
    rcases sorted other member with rfl | member
    · exact parted
    · have known := outer other member
      obtain ⟨links,same⟩ := others other (kept.wide other known) (separate_of_mem separate member)
      change Parted other.blocks (readLink memory) other.free_list (allocated.filter other.contains)
      rw [same]
      exact (kept.parted other known).congr (fun block among _ => links block among)
        (nodup_of_apart (kept.laid other known).apart)

theorem Kept.given (kept : state.Kept) (pools : state.pools = earlier ++ pool :: later) :
    Kept (state.given ((pool.allocate state.memory).1,earlier ++ (pool.allocate state.memory).2 :: later)) := by
  have inner : pool ∈ state.pools := by
    rw [pools]
    exact List.mem_append_right _ List.mem_cons_self
  cases head : pool.free_list with
  | none =>
    have same : state.given ((pool.allocate state.memory).1,earlier ++ (pool.allocate state.memory).2 :: later) = state := by
      rw [FixedPool.allocate,head,← pools]
      rfl
    rw [same]
    exact kept
  | some block =>
    have parted := kept.parted pool inner
    rw [head] at parted
    have inside := FixedPool.contains_block (kept.wide pool inner) parted.free_mem
    rw [FixedPool.allocate,head]
    refine kept.changed pools ?_ fun other _ separate => ⟨fun _ _ => rfl,?_⟩
    · rw [List.filter_cons_of_pos inside]
      exact parted.take
    · apply List.filter_cons_of_neg
      rw [separate.not_contains inside]
      exact Bool.false_ne_true

theorem kept_allocate (kept : state.Kept) (size : Nat) : (state.step (.allocate size)).Kept := by
  rw [step]
  rcases allocate_cases state.memory size state.pools with ⟨_,same⟩ | ⟨earlier,pool,later,pools,_,_,same⟩
  · rw [same]
    exact kept
  · rw [same]
    exact kept.given pools

theorem kept_direct (kept : state.Kept) (index : Nat) : (state.step (.direct index)).Kept := by
  rw [step]
  split
  · next pool found =>
    obtain ⟨inside,rfl⟩ := List.getElem?_eq_some_iff.mp found
    have pools : state.pools = state.pools.take index ++ state.pools[index] :: state.pools.drop (index+1) := by
      rw [← List.drop_eq_getElem_cons inside,List.take_append_drop]
    have set := List.set_eq_take_append_cons_drop (l:=state.pools) (i:=index)
      (a:=(state.pools[index].allocate state.memory).2)
    rw [if_pos inside] at set
    change (state.given ((state.pools[index].allocate state.memory).1,
      state.pools.set index (state.pools[index].allocate state.memory).2)).Kept
    rw [set]
    exact kept.given pools
  · exact kept

theorem filter_erase_outside {ptr : Nat} (outside : pool.contains ptr = false) :
    (allocated.erase ptr).filter pool.contains = allocated.filter pool.contains := by
  rw [← List.erase_filter]
  refine List.erase_of_not_mem fun member => ?_
  rw [(List.mem_filter.mp member).2] at outside
  cases outside

theorem apart_of_separate {other : MemoryPool} {ptr block length : Nat} (wide : other.Wide)
    (separate : FixedPool.Separate other pool) (within : pool.start_ptr ≤ ptr ∧ ptr+length ≤ pool.stop)
    (member : block ∈ other.blocks) : block+linkSize ≤ ptr ∨ ptr+length ≤ block := by
  obtain ⟨above,below⟩ := FixedPool.block_within member
  have large := wide.at_block member
  rcases separate with before | after
  · exact .inl (by omega)
  · exact .inr (by omega)

theorem kept_free (kept : state.Kept) (ptr : Nat) : (state.step (.free ptr)).Kept := by
  rw [step]
  split
  · next member =>
    rcases free_cases state.memory ptr state.pools with ⟨outside,same⟩ | ⟨earlier,pool,later,pools,_,inside,same⟩
    · rw [same]
      refine ⟨kept.wide,kept.laid,kept.separate,fun pool among => ?_⟩
      have parted := kept.parted pool among
      rwa [← filter_erase_outside (outside pool among)] at parted
    · have inner : pool ∈ state.pools := by
        rw [pools]
        exact List.mem_append_right _ List.mem_cons_self
      have parted := kept.parted pool inner
      have laid := kept.laid pool inner
      have mine : ptr ∈ state.allocated.filter pool.contains := List.mem_filter.mpr ⟨member,inside⟩
      have block : ptr ∈ pool.blocks := parted.others_mem mine
      have wide := (kept.wide pool inner).at_block block
      have freed : pool.free state.memory ptr = ({pool with
          free_list:=some ptr,used_blocks:=usizeSub pool.used_blocks 1},writeLink state.memory ptr pool.free_list) :=
        if_pos inside
      rw [same,freed]
      refine kept.changed pools ?_ fun other large separate => ⟨fun each among => ?_,?_⟩
      · rw [← List.erase_filter]
        exact laid.freed parted mine
      · obtain ⟨above,below⟩ := FixedPool.block_within block
        exact writeLink_apart (apart_of_separate large separate ⟨above,by omega⟩ among)
      · exact filter_erase_outside (separate.not_contains inside)
  · exact kept

theorem kept_fill (kept : state.Kept) (ptr : Nat) (bytes : Bytes) : (state.step (.fill ptr bytes)).Kept := by
  rw [step]
  split
  · next pool found =>
    split
    · next member =>
      obtain ⟨inside,earlier,later,pools,_⟩ := List.find?_eq_some_iff_append.mp found
      have inner : pool ∈ state.pools := List.mem_of_find?_eq_some found
      have parted := kept.parted pool inner
      have laid := kept.laid pool inner
      have mine : ptr ∈ state.allocated.filter pool.contains := List.mem_filter.mpr ⟨member,inside⟩
      have block : ptr ∈ pool.blocks := parted.others_mem mine
      have short : (bytes.take pool.block_size).length ≤ pool.block_size := List.length_take_le _ _
      have filled : Kept ⟨earlier ++ {pool with free_list:=pool.free_list,used_blocks:=pool.used_blocks} :: later,
          ByteMemory.store state.memory ptr (bytes.take pool.block_size),state.allocated⟩ := by
        refine kept.changed pools ?_ fun other large separate => ⟨fun each among => ?_,rfl⟩
        · exact laid.filled parted mine short
        · obtain ⟨above,below⟩ := FixedPool.block_within block
          exact readLink_apart (apart_of_separate large separate ⟨above,by omega⟩ among)
      rw [pools]
      exact filled
    · exact kept
  · exact kept

theorem kept_step (kept : state.Kept) (call : ManagerCall) : (state.step call).Kept := by
  cases call with
  | allocate size => exact kept_allocate kept size
  | free ptr => exact kept_free kept ptr
  | fill ptr bytes => exact kept_fill kept ptr bytes
  | direct index => exact kept_direct kept index

theorem kept_run (kept : state.Kept) (calls : List ManagerCall) : (state.run calls).Kept := by
  induction calls generalizing state with
  | nil => exact kept
  | cons call rest ih => exact ih (kept_step kept call)

end Changes

section Regions
variable {state : ManagerState} {earlier later : List MemoryPool} {pool : MemoryPool} {block index : Nat}

theorem renewed_region (pool : MemoryPool) (free : Option Nat) (used : Nat) :
    FixedPool.region {pool with free_list:=free,used_blocks:=used} = pool.region := rfl

theorem allocate_region (pool : MemoryPool) (memory : ByteMemory) : (pool.allocate memory).2.region = pool.region := by
  rw [FixedPool.allocate]
  split
  · exact renewed_region _ _ _
  · rfl

theorem free_region (pool : MemoryPool) (memory : ByteMemory) (ptr : Nat) :
    (pool.free memory ptr).1.region = pool.region := by
  rw [FixedPool.free]
  split
  · exact renewed_region _ _ _
  · rfl

theorem given_regions (answer : Except RemDbError Nat × List MemoryPool) : (state.given answer).pools = answer.2 := by
  rw [given]
  split <;> rfl

theorem map_changed {after : MemoryPool} (alike : after.region = pool.region) :
    (earlier ++ after :: later).map FixedPool.region = (earlier ++ pool :: later).map FixedPool.region := by
  rw [List.map_append,List.map_cons,List.map_append,List.map_cons,alike]

theorem step_regions (state : ManagerState) (call : ManagerCall) :
    (state.step call).pools.map FixedPool.region = state.pools.map FixedPool.region := by
  cases call with
  | allocate size =>
    rw [step,given_regions]
    rcases allocate_cases state.memory size state.pools with ⟨_,same⟩ | ⟨earlier,pool,later,pools,_,_,same⟩
    · rw [same]
    · rw [same,pools]
      exact map_changed (allocate_region pool state.memory)
  | free ptr =>
    rw [step]
    split
    · rcases free_cases state.memory ptr state.pools with ⟨_,same⟩ | ⟨earlier,pool,later,pools,_,_,same⟩
      · rw [same]
      · rw [same]
        change (earlier ++ (pool.free state.memory ptr).1 :: later).map FixedPool.region = _
        rw [pools]
        exact map_changed (free_region pool state.memory ptr)
    · rfl
  | fill ptr bytes =>
    rw [step]
    split
    · split <;> rfl
    · rfl
  | direct index =>
    rw [step]
    split
    · next pool found =>
      obtain ⟨inside,rfl⟩ := List.getElem?_eq_some_iff.mp found
      change (state.given (_,state.pools.set index (state.pools[index].allocate state.memory).2)).pools.map _ = _
      rw [given_regions,List.map_set,allocate_region]
      have mapped : index < (state.pools.map FixedPool.region).length := by rwa [List.length_map]
      have kept := List.set_getElem_self mapped
      rwa [List.getElem_map] at kept
    · rfl

theorem run_regions (state : ManagerState) (calls : List ManagerCall) :
    (state.run calls).pools.map FixedPool.region = state.pools.map FixedPool.region := by
  induction calls generalizing state with
  | nil => rfl
  | cons call rest ih => exact (ih (state.step call)).trans (step_regions state call)

-- The pool a block goes to depends on where the pools lie only.
theorem givenBack_of_regions {pools : List MemoryPool}
    (alike : state.pools.map FixedPool.region = pools.map FixedPool.region) (split : pools = earlier ++ pool :: later)
    (before : ∀ other ∈ earlier, other.contains block = false) (inside : pool.contains block = true) :
    state.GivenBack earlier.length block := by
  rw [split,List.map_append,List.map_cons] at alike
  obtain ⟨front,rest,found,first,onward⟩ := List.map_eq_append_iff.mp alike
  obtain ⟨home,back,rfl,here,_⟩ := List.map_eq_cons_iff.mp onward
  have long : front.length = earlier.length := by
    have mapped := congrArg List.length first
    rwa [List.length_map,List.length_map] at mapped
  have none_before : ∀ other ∈ front, other.contains block = false := by
    intro other member
    obtain ⟨twin,among,same⟩ := List.mem_map.mp (first ▸ List.mem_map_of_mem member)
    rw [FixedPool.contains_congr same.symm]
    exact before twin among
  have within : home.contains block = true := by
    rw [FixedPool.contains_congr here]
    exact inside
  have answer : MultiPoolManager.free state.memory block state.pools =
      (.ok (),front ++ (home.free state.memory block).1 :: back,(home.free state.memory block).2) := by
    rw [found]
    exact free_found _ _ none_before within
  refine ⟨home,?_,?_,?_⟩
  · rw [found,← long]
    exact List.getElem?_append_right (Nat.le_refl _) |>.trans (by simp)
  · rw [FixedPool.free,if_pos within]
  · rw [answer,found,← long,List.set_append_right _ _ (Nat.le_refl _),Nat.sub_self,List.set_cons_zero]

end Regions

structure Usable (region : PoolRegion) : Prop where
  handed : PoolState.Handed region.start_ptr (alignUp region.block_size 8) region.total_blocks
  sized : 0 < region.block_size
  few : region.total_blocks < usizeLimit

def Disjoint (one other : PoolRegion) : Prop := one.handedStop ≤ other.start_ptr ∨ other.handedStop ≤ one.start_ptr

section Making
variable {regions : List PoolRegion} {region : PoolRegion}

theorem alignUp_wide {size : Nat} (sized : 0 < size) : linkSize ≤ alignUp size 8 := by
  have parts : 0 < (size+8-1)/8 := by omega
  exact Nat.mul_le_mul_right 8 parts

-- With any block at all the size is rounded as it should be.
theorem Usable.rounded (usable : Usable region) (several : 0 < region.total_blocks) :
    MemoryPool.alignedBlockSize region.block_size = alignUp region.block_size 8 := by
  have once : alignUp region.block_size 8*1 ≤ alignUp region.block_size 8*region.total_blocks :=
    Nat.mul_le_mul_left _ several
  have fits := usable.handed.2
  exact PoolState.alignedBlockSize_eq (by omega)

theorem Usable.wide (usable : Usable region) (several : 0 < region.total_blocks) :
    linkSize ≤ MemoryPool.alignedBlockSize region.block_size := by
  rw [usable.rounded several]
  exact alignUp_wide usable.sized

theorem Usable.stop (usable : Usable region) :
    region.start_ptr+MemoryPool.alignedBlockSize region.block_size*region.total_blocks = region.handedStop := by
  rcases Nat.eq_zero_or_pos region.total_blocks with none | several
  · rw [PoolRegion.handedStop,none,Nat.mul_zero,Nat.mul_zero]
  · rw [PoolRegion.handedStop,usable.rounded several]

theorem Usable.roomy (usable : Usable region) :
    PoolState.Roomy (MemoryPool.alignedBlockSize region.block_size) region.total_blocks := by
  rcases Nat.eq_zero_or_pos region.total_blocks with none | several
  · exact .inr (by omega)
  · exact .inl (usable.wide several)

theorem Usable.laid (usable : Usable region) :
    PoolState.Laid region.start_ptr (MemoryPool.alignedBlockSize region.block_size) region.total_blocks := by
  refine PoolState.laid_of ⟨usable.handed.1,?_⟩ ?_ usable.roomy usable.few
  · rw [usable.stop]
    exact usable.handed.2
  · rcases Nat.eq_zero_or_pos region.total_blocks with none | several
    · exact .inr none
    · exact .inl (Nat.lt_of_lt_of_le (by decide) (usable.wide several))

theorem newPools_mem {memory : ByteMemory} (usable : ∀ region ∈ regions, Usable region) {pool : MemoryPool}
    (member : pool ∈ (newPools memory regions).1) :
    ∃ region ∈ regions, pool.start_ptr = region.start_ptr ∧ pool.stop = region.handedStop := by
  induction regions generalizing memory with
  | nil => cases member
  | cons region regions ih =>
    obtain ⟨here,rest⟩ := List.forall_mem_cons.mp usable
    rcases List.mem_cons.mp member with rfl | behind
    · exact ⟨region,List.mem_cons_self,rfl,here.stop⟩
    · obtain ⟨found,among,place⟩ := ih rest behind
      exact ⟨found,List.mem_cons_of_mem _ among,place⟩

theorem newPools_apart {memory : ByteMemory} (usable : ∀ region ∈ regions, Usable region) {address : Nat}
    (apart : ∀ region ∈ regions, address+linkSize ≤ region.start_ptr ∨ region.handedStop ≤ address) :
    readLink (newPools memory regions).2 address = readLink memory address := by
  induction regions generalizing memory with
  | nil => rfl
  | cons region regions ih =>
    obtain ⟨here,rest⟩ := List.forall_mem_cons.mp usable
    obtain ⟨beside,others⟩ := List.forall_mem_cons.mp apart
    rw [← here.stop] at beside
    exact (ih rest others).trans (carve_apart here.wide beside)

theorem kept_made (memory : ByteMemory) (usable : ∀ region ∈ regions, Usable region)
    (apart : regions.Pairwise Disjoint) : (made memory regions).Kept := by
  induction regions generalizing memory with
  | nil => exact ⟨nofun,nofun,.nil,nofun⟩
  | cons region regions ih =>
    obtain ⟨here,rest⟩ := List.forall_mem_cons.mp usable
    obtain ⟨first,behind⟩ := List.pairwise_cons.mp apart
    let new := MemoryPool.new memory region.start_ptr region.block_size region.total_blocks
    have others : (made new.2 regions).Kept := ih new.2 rest behind
    have stop : new.1.stop = region.handedStop := here.stop
    have held := PoolState.held_made memory here.laid here.roomy
    refine ⟨?_,?_,?_,?_⟩
    · exact List.forall_mem_cons.mpr ⟨here.wide,others.wide⟩
    · exact List.forall_mem_cons.mpr ⟨here.laid,others.laid⟩
    · refine List.pairwise_cons.mpr ⟨fun other member => ?_,others.separate⟩
      obtain ⟨found,among,start,ending⟩ := newPools_mem rest member
      have disjoint := first found among
      rwa [Disjoint,← stop,← start,← ending] at disjoint
    · refine List.forall_mem_cons.mpr ⟨?_,others.parted⟩
      refine Parted.congr held.parted (fun block among _ => newPools_apart rest fun other member => ?_)
        (nodup_of_apart here.laid.apart)
      have mine : block ∈ new.1.blocks := among
      obtain ⟨above,below⟩ := FixedPool.block_within mine
      have wide : linkSize ≤ new.1.block_size := FixedPool.Wide.at_block here.wide mine
      rw [stop] at below
      rcases first other member with before | after
      · exact .inl (by omega)
      · exact .inr (Nat.le_trans after above)

end Making

theorem Kept.goesBack {state : ManagerState} (kept : state.Kept) {earlier later : List MemoryPool} {pool : MemoryPool}
    (pools : state.pools = earlier ++ pool :: later) {block : Nat} (head : pool.free_list = some block)
    {after : ManagerState} (alike : after.pools.map FixedPool.region = state.pools.map FixedPool.region) :
    after.GivenBack earlier.length block := by
  have inner : pool ∈ state.pools := by
    rw [pools]
    exact List.mem_append_right _ List.mem_cons_self
  have parted := kept.parted pool inner
  rw [head] at parted
  have inside := FixedPool.contains_block (kept.wide pool inner) parted.free_mem
  have separate := kept.separate
  rw [pools] at separate
  refine givenBack_of_regions alike pools (fun other member => ?_) inside
  exact (separate_of_mem separate (.inl member)).not_contains inside

theorem Kept.complete_iff {state : ManagerState} (kept : state.Kept) (size : Nat) :
    Complete state size ↔ ¬ PassedOver state size := by
  rcases allocate_cases state.memory size state.pools with ⟨small,same⟩ | ⟨earlier,pool,later,pools,before,fits,same⟩
  · refine iff_of_true ⟨fun _ pool member fits => ?_,fun block answer => ?_⟩ ?_
    · exact absurd fits (Nat.not_le_of_lt (small pool member))
    · rw [same] at answer
      cases answer
    · rintro ⟨first,found,_⟩
      have large := List.find?_some (p:=fun pool : MemoryPool => decide (size ≤ pool.block_size)) found
      have fits : size ≤ first.block_size := of_decide_eq_true large
      exact Nat.not_le_of_lt (small first (List.mem_of_find?_eq_some found)) fits
  have first : state.pools.find? (fun pool => decide (size ≤ pool.block_size)) = some pool := by
    rw [pools,List.find?_append,List.find?_eq_none.mpr fun other member fits =>
      Nat.not_le_of_lt (before other member) (of_decide_eq_true fits)]
    have large : decide (size ≤ pool.block_size) = true := decide_eq_true fits
    rw [List.find?_cons,large]
    rfl
  cases head : pool.free_list with
  | none =>
    -- the first pool that would do decides, and has nothing
    have answer : (MultiPoolManager.allocate state.memory size state.pools).1 = .error .outOfMemory := by
      rw [same,FixedPool.allocate,head]
    constructor
    · rintro ⟨exhausted,_⟩ ⟨_,_,_,other,member,large,some⟩
      exact some (exhausted answer other member large)
    · intro whole
      refine ⟨fun _ other member large => ?_,fun block given => ?_⟩
      · by_contra some
        exact whole ⟨pool,first,head,other,member,large,some⟩
      · rw [answer] at given
        cases given
  | some block =>
    have answer : (MultiPoolManager.allocate state.memory size state.pools).1 = .ok block := by
      rw [same,FixedPool.allocate,head]
    refine iff_of_true ⟨fun failed => ?_,fun other given => ?_⟩ ?_
    · rw [answer] at failed
      cases failed
    · rw [answer] at given
      cases given
      refine ⟨earlier.length,pool,?_,head,fun calls => ?_⟩
      · rw [pools,List.getElem?_append_right (Nat.le_refl _),Nat.sub_self]
        rfl
      · exact kept.goesBack pools head ((run_regions _ calls).trans (step_regions state (.allocate size)))
    · rintro ⟨_,found,none,_⟩
      rw [first] at found
      cases found
      rw [head] at none
      cases none

-- Allocation is complete unless a pool with a free block stands behind one that
-- would do and has none.
theorem multi_pool_complete_iff (memory : ByteMemory) {regions : List PoolRegion}
    (usable : ∀ region ∈ regions, Usable region) (apart : regions.Pairwise Disjoint) (calls : List ManagerCall)
    (size : Nat) :
    Complete ((made memory regions).run calls) size ↔ ¬ PassedOver ((made memory regions).run calls) size :=
  (kept_run (kept_made memory usable apart) calls).complete_iff size

def twoPools : List PoolRegion := [⟨4096,16,1⟩,⟨8192,32,2⟩]

theorem twoPools_usable : ∀ region ∈ twoPools, Usable region := by
  intro region member
  rcases List.mem_pair.mp member with rfl | rfl
  · exact ⟨⟨by decide,by decide⟩,by decide,by decide⟩
  · exact ⟨⟨by decide,by decide⟩,by decide,by decide⟩

theorem multi_pool_complete_iff_two :
    Complete ((made (fun _ => 0) twoPools).run [.allocate 20]) 16 ↔
      ¬ PassedOver ((made (fun _ => 0) twoPools).run [.allocate 20]) 16 :=
  multi_pool_complete_iff (fun _ => 0) twoPools_usable
    (List.pairwise_pair.mpr (.inl (by decide))) [.allocate 20] 16

-- The only small block is taken, and no request for a small block looks at the
-- large ones.
theorem small_block_refused : ¬ Complete ((made (fun _ => 0) twoPools).run [.allocate 16]) 16 := by
  rintro ⟨exhausted,_⟩
  have none : ∀ pool ∈ ((made (fun _ => 0) twoPools).run [.allocate 16]).pools, 16 ≤ pool.block_size →
      pool.free_list = none := exhausted (by decide +kernel)
  revert none
  decide +kernel

end ManagerState
end RemDb
