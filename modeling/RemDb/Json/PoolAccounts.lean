import RemDb.Lib.BlockPool
import RemDb.Json.Storage

namespace RemDb
open Lib

-- `usize::MAX`, the end of the free list.
def noBlock : Nat := usizeLimit-1

structure JsonHeader where
  status : UInt8
  ref_count : Nat
  next_free : Nat
  size : Nat
deriving DecidableEq,Repr

-- A pool with its counters. A block is its header here; one that could not be
-- allocated leaves a gap.
structure CountedPool where
  block_size : Nat
  max_blocks : Nat
  total_used : Nat
  free_blocks : Nat
  first_free : Nat
  blocks : List (Option JsonHeader)
deriving DecidableEq,Repr

namespace CountedPool
open BlockHeader

def blockSize (pool : CountedPool) : Nat := pool.block_size-SIZE

def initialBlocks (block_size : Nat) (granted : List Bool) : List (Option JsonHeader) :=
  granted.mapIdx fun index answered => if answered then some ⟨0,0,index+1,block_size-SIZE⟩ else none

def endList (blocks : List (Option JsonHeader)) : List (Option JsonHeader) :=
  match blocks.getLast? with
  | some (some header) => blocks.set (blocks.length-1) (some {header with next_free:=noBlock})
  | _ => blocks

-- What the allocator answers for each of the initial blocks is `granted`.
def new (block_size max_blocks : Nat) (granted : List Bool) : CountedPool :=
  ⟨block_size,max_blocks,0,granted.length,0,endList (initialBlocks block_size granted)⟩

-- The number of the block and an offset; `none` is a loop that does not end.
def allocate (pool : CountedPool) (size : Nat) (granted : Bool) : Option (Option (Nat × Nat) × CountedPool) :=
  if usizeAdd size SIZE > pool.block_size then some (none,pool)
  else if pool.first_free ≥ pool.blocks.length ∨ pool.first_free = noBlock then
    if pool.blocks.length < pool.max_blocks ∧ granted = true then
      some (some (pool.blocks.length,SIZE),{pool with
        blocks:=pool.blocks ++ [some ⟨1,1,noBlock,pool.blockSize⟩]
        total_used:=usizeAdd pool.total_used size
        free_blocks:=usizeSub pool.free_blocks 1})
    else some (none,pool)
  else
    match pool.blocks[pool.first_free]? with
    | some (some header) =>
      if header.status = 0 then
        some (some (pool.first_free,SIZE),{pool with
          blocks:=pool.blocks.set pool.first_free (some {header with status:=1,ref_count:=1})
          first_free:=header.next_free
          total_used:=usizeAdd pool.total_used size
          free_blocks:=usizeSub pool.free_blocks 1})
      else none
    | _ => none

def addRef (pool : CountedPool) (block_idx : Nat) : CountedPool :=
  match pool.blocks[block_idx]? with
  | some (some header) =>
    {pool with blocks:=pool.blocks.set block_idx (some {header with ref_count:=usizeAdd header.ref_count 1})}
  | _ => pool

def release (pool : CountedPool) (block_idx : Nat) : CountedPool :=
  match pool.blocks[block_idx]? with
  | some (some header) =>
    let ref_count := usizeSub header.ref_count 1
    if header.ref_count = 1 then
      {pool with
        blocks:=pool.blocks.set block_idx (some ⟨0,ref_count,pool.first_free,header.size⟩)
        first_free:=block_idx
        free_blocks:=usizeAdd pool.free_blocks 1
        total_used:=usizeSub pool.total_used header.size}
    else {pool with blocks:=pool.blocks.set block_idx (some {header with ref_count:=ref_count})}
  | _ => pool

def lastReference (pool : CountedPool) (block_idx : Nat) : Bool :=
  match pool.blocks[block_idx]? with
  | some (some header) => header.ref_count == 1
  | _ => false

-- What `allocate` takes for a block that may be free.
def linkTo (count index : Nat) : Option Nat := if index ≥ count ∨ index = noBlock then none else some index

def nextOf (blocks : List (Option JsonHeader)) (index : Nat) : Option Nat :=
  match blocks[index]? with
  | some (some header) => linkTo blocks.length header.next_free
  | _ => none

def firstFree (pool : CountedPool) : Option Nat := linkTo pool.blocks.length pool.first_free

def Free (pool : CountedPool) (index : Nat) : Prop :=
  ∃ header, pool.blocks[index]? = some (some header) ∧ header.status = 0

end CountedPool

structure PoolUse where
  pool : CountedPool
  allocated : List (Nat × Nat)

inductive PoolRequest where
  | allocate (size : Nat) (granted : Bool)
  | addRef (block_idx : Nat)
  | release (block_idx : Nat)

namespace PoolUse
open CountedPool

def step (use : PoolUse) : PoolRequest → PoolUse
  | .allocate size granted =>
    match use.pool.allocate size granted with
    | some (some (block_idx,_),pool) => ⟨pool,(block_idx,size) :: use.allocated⟩
    | some (none,pool) => {use with pool:=pool}
    | none => use
  | .addRef block_idx => {use with pool:=use.pool.addRef block_idx}
  | .release block_idx =>
    ⟨use.pool.release block_idx,
      if use.pool.lastReference block_idx then use.allocated.eraseP (·.1 == block_idx) else use.allocated⟩

def sizes (use : PoolUse) : Nat := (use.allocated.map Prod.snd).sum

-- The next allocation ends, the free list has the free blocks, each once, and
-- both counters are right.
structure Accounted (use : PoolUse) : Prop where
  ends : ∀ size granted, use.pool.allocate size granted ≠ none
  chain : ∃ list, Segment (nextOf use.pool.blocks) use.pool.firstFree list none ∧ list.Nodup ∧
    (∀ index, index ∈ list ↔ use.pool.Free index) ∧ use.pool.free_blocks = list.length
  total : use.pool.total_used = use.sizes

def Underflows (use : PoolUse) : PoolRequest → Prop
  | .allocate size granted =>
    (∃ place pool, use.pool.allocate size granted = some (some place,pool)) ∧ use.pool.free_blocks = 0
  | .addRef _ => False
  | .release block_idx => ∃ header, use.pool.blocks[block_idx]? = some (some header) ∧ header.ref_count = 1 ∧
      (use.pool.total_used < header.size)

-- In every state of the run, and in none of its steps.
def Accountable : PoolUse → List PoolRequest → Prop
  | use, [] => use.Accounted
  | use, request :: requests => use.Accounted ∧ ¬ use.Underflows request ∧ (use.step request).Accountable requests

-- An allocation is refused or has a free block and can be added to the total; a
-- last reference is to a block that was asked for in its full size.
def Exact (use : PoolUse) : PoolRequest → Prop
  | .allocate size granted => usizeAdd size BlockHeader.SIZE ≤ use.pool.block_size →
    match use.pool.firstFree with
    | none => ¬ (use.pool.blocks.length < use.pool.max_blocks ∧ granted = true)
    | some _ => use.sizes+size < usizeLimit
  | .addRef _ => True
  | .release block_idx => use.pool.lastReference block_idx = true → (block_idx,use.pool.blockSize) ∈ use.allocated

def AllExact : PoolUse → List PoolRequest → Prop
  | _, [] => True
  | use, request :: requests => use.Exact request ∧ (use.step request).AllExact requests

def keys (use : PoolUse) : List Nat := use.allocated.map Prod.fst

-- No block is missing, those that are not allocated are linked, and the counters
-- are right.
structure Held (use : PoolUse) : Prop where
  large : 0 < use.pool.blockSize
  present : ∀ index < use.pool.blocks.length, ∃ header, use.pool.blocks[index]? = some (some header) ∧
    header.size = use.pool.blockSize
  few : use.pool.blocks.length < usizeLimit
  parted : Parted (List.range use.pool.blocks.length) (nextOf use.pool.blocks) use.pool.firstFree use.keys
  status : ∀ index header, use.pool.blocks[index]? = some (some header) → (header.status = 0 ↔ index ∉ use.keys)
  counted : use.pool.free_blocks+use.allocated.length = use.pool.blocks.length
  total : use.pool.total_used = use.sizes
  small : use.sizes < usizeLimit

section Links
variable {blocks : List (Option JsonHeader)} {header : JsonHeader} {index other count : Nat}

theorem linkTo_inside (few : count < usizeLimit) (inside : index < count) : linkTo count index = some index := by
  have number : index ≠ noBlock := by
    rw [noBlock]
    omega
  exact if_neg (not_or.mpr ⟨Nat.not_le_of_lt inside,number⟩)

theorem nextOf_set_other (different : other ≠ index) :
    nextOf (blocks.set index (some header)) other = nextOf blocks other := by
  rw [nextOf,nextOf,List.getElem?_set_ne different.symm,List.length_set]

theorem nextOf_set_same (inside : index < blocks.length) :
    nextOf (blocks.set index (some header)) index = linkTo blocks.length header.next_free := by
  rw [nextOf,List.getElem?_set_self inside,List.length_set]

theorem nextOf_at (found : blocks[index]? = some (some header)) :
    nextOf blocks index = linkTo blocks.length header.next_free := by
  rw [nextOf,found]

end Links

section Holding
variable {use : PoolUse} {header after : JsonHeader} {index : Nat}

theorem Held.keys_nodup (held : use.Held) : use.keys.Nodup := by
  obtain ⟨list,_,all⟩ := held.parted.listed
  exact (List.nodup_append.mp (all.nodup_iff.mpr List.nodup_range)).2.1

-- What an allocation does: it is refused, adds a block, or takes the first free
-- one.
theorem Held.allocate_cases (held : use.Held) (size : Nat) (granted : Bool) :
    (use.pool.allocate size granted = some (none,use.pool) ∧
      (usizeAdd size BlockHeader.SIZE ≤ use.pool.block_size → use.pool.firstFree = none ∧
        ¬ (use.pool.blocks.length < use.pool.max_blocks ∧ granted = true))) ∨
    ((∃ place pool, use.pool.allocate size granted = some (some place,pool)) ∧
      usizeAdd size BlockHeader.SIZE ≤ use.pool.block_size ∧ use.pool.firstFree = none ∧
      use.pool.blocks.length < use.pool.max_blocks ∧ granted = true) ∨
    ∃ header, usizeAdd size BlockHeader.SIZE ≤ use.pool.block_size ∧
      use.pool.firstFree = some use.pool.first_free ∧ use.pool.blocks[use.pool.first_free]? = some (some header) ∧
      header.status = 0 ∧
      use.pool.allocate size granted = some (some (use.pool.first_free,BlockHeader.SIZE),{use.pool with
        blocks:=use.pool.blocks.set use.pool.first_free (some {header with status:=1,ref_count:=1})
        first_free:=header.next_free
        total_used:=usizeAdd use.pool.total_used size
        free_blocks:=usizeSub use.pool.free_blocks 1}) := by
  rw [CountedPool.allocate]
  split
  · next large => exact .inl ⟨rfl,fun fits => absurd fits (Nat.not_le_of_lt large)⟩
  next small =>
  have fits := Nat.le_of_not_lt small
  split
  · next exhausted =>
    have head : use.pool.firstFree = none := if_pos exhausted
    split
    · next grows => exact .inr (.inl ⟨⟨_,_,rfl⟩,fits,head,grows⟩)
    · next kept => exact .inl ⟨rfl,fun _ => ⟨head,kept⟩⟩
  · next valid =>
    have head : use.pool.firstFree = some use.pool.first_free := if_neg valid
    have parted := held.parted
    rw [head] at parted
    have inside : use.pool.first_free < use.pool.blocks.length := List.mem_range.mp parted.free_mem
    obtain ⟨header,found,_⟩ := held.present _ inside
    have free : header.status = 0 := (held.status _ header found).mpr (parted.free_not_mem List.nodup_range)
    refine .inr (.inr ⟨header,fits,head,found,free,?_⟩)
    rw [found]
    exact if_pos free

theorem Held.accounted (held : use.Held) : use.Accounted := by
  obtain ⟨list,path,all⟩ := held.parted.listed
  obtain ⟨distinct,_,disjoint⟩ := List.nodup_append.mp (all.nodup_iff.mpr List.nodup_range)
  refine ⟨?_,⟨list,path,distinct,?_,?_⟩,held.total⟩
  · intro size granted stuck
    rcases held.allocate_cases size granted with ⟨same,_⟩ | ⟨⟨_,_,same⟩,_⟩ | ⟨_,_,_,_,_,same⟩ <;>
      exact Option.some_ne_none _ (same.symm.trans stuck)
  · intro index
    constructor
    · intro member
      have inside := List.mem_range.mp (all.subset (List.mem_append_left _ member))
      obtain ⟨header,found,_⟩ := held.present index inside
      exact ⟨header,found,(held.status index header found).mpr fun other => disjoint index member index other rfl⟩
    · rintro ⟨header,found,free⟩
      obtain ⟨inside,_⟩ := List.getElem?_eq_some_iff.mp found
      have either := List.mem_append.mp (all.mem_iff.mpr (List.mem_range.mpr inside))
      exact either.resolve_right ((held.status index header found).mp free)
  · have long := all.length_eq
    have counted := held.counted
    rw [List.length_append,List.length_range,keys,List.length_map] at long
    omega

theorem Held.changed (held : use.Held) (found : use.pool.blocks[index]? = some (some header))
    (sized : after.size = header.size) {allocated : List (Nat × Nat)} {first total count : Nat}
    (parted : Parted (List.range use.pool.blocks.length) (nextOf (use.pool.blocks.set index (some after)))
      (linkTo use.pool.blocks.length first) (allocated.map Prod.fst))
    (status : after.status = 0 ↔ index ∉ allocated.map Prod.fst)
    (others : ∀ other, other ≠ index → (other ∈ allocated.map Prod.fst ↔ other ∈ use.keys))
    (counted : count+allocated.length = use.pool.blocks.length) (summed : total = (allocated.map Prod.snd).sum)
    (small : (allocated.map Prod.snd).sum < usizeLimit) :
    Held ⟨{use.pool with
      blocks:=use.pool.blocks.set index (some after)
      first_free:=first
      total_used:=total
      free_blocks:=count},allocated⟩ := by
  obtain ⟨inside,_⟩ := List.getElem?_eq_some_iff.mp found
  have long : (use.pool.blocks.set index (some after)).length = use.pool.blocks.length := List.length_set
  refine ⟨held.large,?_,?_,?_,?_,?_,summed,small⟩
  · intro other within
    change other < (use.pool.blocks.set index (some after)).length at within
    rw [long] at within
    by_cases same : other = index
    · subst same
      obtain ⟨old,there,size⟩ := held.present other within
      rw [found] at there
      cases there
      exact ⟨after,List.getElem?_set_self inside,sized.trans size⟩
    · obtain ⟨old,there,size⟩ := held.present other within
      exact ⟨old,(List.getElem?_set_ne (Ne.symm same)).trans there,size⟩
  · exact long ▸ held.few
  · change Parted (List.range (use.pool.blocks.set index (some after)).length) _
      (linkTo (use.pool.blocks.set index (some after)).length first) _
    rw [long]
    exact parted
  · intro other old there
    change (use.pool.blocks.set index (some after))[other]? = _ at there
    by_cases same : other = index
    · subst same
      rw [List.getElem?_set_self inside] at there
      cases there
      exact status
    · rw [List.getElem?_set_ne (Ne.symm same)] at there
      exact (held.status other _ there).trans (not_congr (others other same)).symm
  · exact counted.trans long.symm

theorem keys_length (use : PoolUse) : use.keys.length = use.allocated.length := List.length_map _

theorem Held.counts (held : use.Held) (found : use.pool.blocks[index]? = some (some header)) (count : Nat) :
    Held ⟨{use.pool with blocks:=use.pool.blocks.set index (some {header with ref_count:=count})},use.allocated⟩ := by
  obtain ⟨inside,_⟩ := List.getElem?_eq_some_iff.mp found
  refine held.changed found ?_ ?_ (held.status index header found) (fun _ _ => Iff.rfl) held.counted held.total
    held.small
  · rfl
  refine held.parted.congr (fun other _ _ => ?_) List.nodup_range
  by_cases same : other = index
  · subst same
    rw [nextOf_set_same inside,nextOf_at found]
  · exact nextOf_set_other same

theorem held_allocate (held : use.Held) {size : Nat} {granted : Bool} (allowed : use.Exact (.allocate size granted)) :
    (use.step (.allocate size granted)).Held := by
  rcases held.allocate_cases size granted with ⟨same,_⟩ | ⟨_,fits,head,grows⟩ | ⟨header,fits,head,found,_,same⟩
  · rw [step,same]
    exact held
  · have refused := allowed fits
    rw [head] at refused
    exact absurd grows refused
  · have summed := allowed fits
    rw [head] at summed
    change use.sizes+size < usizeLimit at summed
    have parted := held.parted
    rw [head] at parted
    have taken := parted.take
    have room := taken.others_length
    rw [List.length_cons,keys_length,List.length_range] at room
    have counted := held.counted
    have few := held.few
    have left : usizeSub use.pool.free_blocks 1 = use.pool.free_blocks-1 := usizeSub_of_le (by omega) (by omega)
    have more : usizeAdd use.pool.total_used size = size+use.sizes := by
      rw [held.total,usizeAdd_of_lt summed,Nat.add_comm]
    rw [step,same]
    dsimp only
    refine held.changed found ?_ ?_ ?_ ?_ ?_ ?_ ?_
    · rfl
    · rw [← nextOf_at found]
      refine taken.congr (fun other _ outside => ?_) List.nodup_range
      exact nextOf_set_other fun same => outside (same ▸ List.mem_cons_self)
    · exact iff_of_false (show ¬ (1 : UInt8) = 0 by decide) (not_not_intro List.mem_cons_self)
    · intro other different
      exact ⟨fun member => (List.mem_cons.mp member).resolve_left different,List.mem_cons_of_mem _⟩
    · rw [left,List.length_cons]
      omega
    · rw [more]
      rfl
    · change size+use.sizes < usizeLimit
      omega

theorem erased {allocated : List (Nat × Nat)} {size : Nat} (distinct : (allocated.map Prod.fst).Nodup)
    (member : (index,size) ∈ allocated) :
    (allocated.eraseP (·.1 == index)).map Prod.fst = (allocated.map Prod.fst).erase index ∧
      (allocated.map Prod.snd).sum = size+((allocated.eraseP (·.1 == index)).map Prod.snd).sum := by
  induction allocated with
  | nil => cases member
  | cons first rest ih =>
    obtain ⟨fresh,others⟩ := List.nodup_cons.mp distinct
    rcases List.mem_cons.mp member with rfl | behind
    · have first : ((index,size) :: rest).eraseP (·.1 == index) = rest :=
        List.eraseP_cons_of_pos (beq_self_eq_true index)
      rw [first,List.map_cons,List.erase_cons_head]
      exact ⟨rfl,rfl⟩
    · have different : first.1 ≠ index := by
        rintro rfl
        have key : (first.1,size).1 ∈ rest.map Prod.fst := List.mem_map_of_mem behind
        exact fresh key
      obtain ⟨keys,sizes⟩ := ih others behind
      have kept : (first :: rest).eraseP (·.1 == index) = first :: rest.eraseP (·.1 == index) :=
        List.eraseP_cons_of_neg (by simpa using different)
      rw [kept,List.map_cons,List.map_cons,List.map_cons,List.map_cons,List.erase_cons_tail (by simpa using different),
        keys,List.sum_cons,List.sum_cons,sizes]
      exact ⟨rfl,by omega⟩

theorem lastReference_at (found : use.pool.blocks[index]? = some (some header)) :
    use.pool.lastReference index = true ↔ header.ref_count = 1 := by
  rw [lastReference,found]
  exact beq_iff_eq

theorem held_release (held : use.Held) (allowed : use.Exact (.release index)) : (use.step (.release index)).Held := by
  rw [step,CountedPool.release]
  match found : use.pool.blocks[index]? with
  | none =>
    rw [lastReference,found]
    exact held
  | some none =>
    rw [lastReference,found]
    exact held
  | some (some header) =>
    obtain ⟨inside,_⟩ := List.getElem?_eq_some_iff.mp found
    dsimp only
    split
    · next last =>
      have lastOne := (lastReference_at found).mpr last
      rw [if_pos lastOne]
      have full := allowed lastOne
      obtain ⟨keys,sizes⟩ := erased held.keys_nodup full
      have mine : index ∈ use.allocated.map Prod.fst := List.mem_map_of_mem full
      obtain ⟨old,there,sized⟩ := held.present index inside
      rw [found] at there
      cases there
      have counted := held.counted
      have few := held.few
      have small := held.small
      have nonempty : 0 < use.allocated.length := List.length_pos_of_mem full
      have fewer : (use.allocated.eraseP (·.1 == index)).length = use.allocated.length-1 := by
        have long := congrArg List.length keys
        rwa [List.length_map,List.length_erase_of_mem mine,List.length_map] at long
      have more : usizeAdd use.pool.free_blocks 1 = use.pool.free_blocks+1 := usizeAdd_of_lt (by omega)
      refine held.changed found ?_ ?_ ?_ ?_ ?_ ?_ ?_
      · rfl
      · rw [keys,linkTo_inside held.few inside]
        refine held.parted.give List.nodup_range mine (nextOf_set_same inside) ?_
        intro other _ different
        exact nextOf_set_other different
      · rw [keys]
        exact iff_of_true rfl held.keys_nodup.not_mem_erase
      · intro other different
        rw [keys]
        exact List.mem_erase_of_ne different
      · rw [more,fewer]
        omega
      · change use.sizes = _ at sizes
        rw [held.total,sized,sizes,usizeSub_of_le (by omega) (Nat.le_add_right _ _),Nat.add_sub_cancel_left]
      · change use.sizes = _ at sizes
        omega
    · next more =>
      rw [if_neg fun last => more ((lastReference_at found).mp last)]
      exact held.counts found _

theorem held_addRef (held : use.Held) (index : Nat) : (use.step (.addRef index)).Held := by
  rw [step,CountedPool.addRef]
  match found : use.pool.blocks[index]? with
  | none => exact held
  | some none => exact held
  | some (some header) => exact held.counts found _

theorem held_step (held : use.Held) {request : PoolRequest} (allowed : use.Exact request) : (use.step request).Held := by
  cases request with
  | allocate size granted => exact held_allocate held allowed
  | addRef block_idx => exact held_addRef held block_idx
  | release block_idx => exact held_release held allowed

theorem Held.exhausted (held : use.Held) (head : use.pool.firstFree = none) : use.pool.free_blocks = 0 := by
  obtain ⟨list,path,all⟩ := held.parted.listed
  rw [head] at path
  cases list with
  | cons first rest => cases path.1
  | nil =>
    have long := all.length_eq
    have counted := held.counted
    rw [List.nil_append,keys_length,List.length_range] at long
    omega

theorem exact_allocate (held : use.Held) {size : Nat} {granted : Bool}
    (above : ¬ use.Underflows (.allocate size granted)) (right : (use.step (.allocate size granted)).Accounted) :
    use.Exact (.allocate size granted) := by
  intro fits
  rcases held.allocate_cases size granted with ⟨_,refused⟩ | ⟨given,_,head,_⟩ | ⟨header,_,head,_,_,same⟩
  · obtain ⟨head,full⟩ := refused fits
    rw [head]
    exact full
  · exact absurd ⟨given,held.exhausted head⟩ above
  · have total := right.total
    rw [step,same] at total
    change usizeAdd use.pool.total_used size = size+use.sizes at total
    rw [head]
    change use.sizes+size < usizeLimit
    have small : usizeAdd use.pool.total_used size < usizeLimit := Nat.mod_lt _ (by decide)
    omega

theorem exact_release (held : use.Held) (above : ¬ use.Underflows (.release index))
    (right : (use.step (.release index)).Accounted) : use.Exact (.release index) := by
  intro last
  match found : use.pool.blocks[index]? with
  | none =>
    rw [lastReference,found] at last
    cases last
  | some none =>
    rw [lastReference,found] at last
    cases last
  | some (some header) =>
    have one := (lastReference_at found).mp last
    obtain ⟨inside,_⟩ := List.getElem?_eq_some_iff.mp found
    obtain ⟨old,there,sized⟩ := held.present index inside
    rw [found] at there
    cases there
    have enough : use.pool.blockSize ≤ use.sizes := by
      rw [← sized,← held.total]
      exact Nat.le_of_not_lt fun less => above ⟨header,found,one,less⟩
    have total := right.total
    rw [step,CountedPool.release,found] at total
    dsimp only at total
    rw [if_pos one,if_pos last] at total
    change usizeSub use.pool.total_used header.size = ((use.allocated.eraseP (·.1 == index)).map Prod.snd).sum at total
    rw [sized,held.total,usizeSub_of_le held.small enough] at total
    have large := held.large
    by_cases mine : index ∈ use.keys
    · obtain ⟨⟨key,size⟩,member,same⟩ := List.mem_map.mp mine
      obtain rfl : key = index := same
      have sizes := (erased held.keys_nodup member).2
      change use.sizes = _ at sizes
      have same : size = use.pool.blockSize := by omega
      rw [← same]
      exact member
    · -- a free block is released: what is allocated stays the same
      have kept : use.allocated.eraseP (·.1 == index) = use.allocated := by
        refine List.eraseP_of_forall_not fun entry member => ?_
        rw [beq_iff_eq]
        rintro rfl
        exact mine (List.mem_map_of_mem member)
      rw [kept] at total
      change use.sizes-use.pool.blockSize = use.sizes at total
      omega

theorem exact_of_accounted (held : use.Held) {request : PoolRequest} (above : ¬ use.Underflows request)
    (right : (use.step request).Accounted) : use.Exact request := by
  cases request with
  | allocate size granted => exact exact_allocate held above right
  | addRef block_idx => exact trivial
  | release block_idx => exact exact_release held above right

theorem not_underflows (held : use.Held) {request : PoolRequest} (allowed : use.Exact request) :
    ¬ use.Underflows request := by
  cases request with
  | allocate size granted =>
    rintro ⟨⟨place,pool,given⟩,none⟩
    rcases held.allocate_cases size granted with ⟨same,_⟩ | ⟨_,fits,head,grows⟩ | ⟨header,_,head,_,_,_⟩
    · rw [same] at given
      cases given
    · have refused := allowed fits
      rw [head] at refused
      exact refused grows
    · have parted := held.parted
      rw [head] at parted
      have room := parted.take.others_length
      have counted := held.counted
      rw [List.length_cons,keys_length,List.length_range] at room
      omega
  | addRef block_idx => exact id
  | release block_idx =>
    rintro ⟨header,found,one,less⟩
    have full := allowed ((lastReference_at found).mpr one)
    obtain ⟨inside,_⟩ := List.getElem?_eq_some_iff.mp found
    obtain ⟨old,there,sized⟩ := held.present block_idx inside
    rw [found] at there
    cases there
    have sizes := (erased held.keys_nodup full).2
    change use.sizes = _ at sizes
    rw [held.total,sized] at less
    omega

theorem accountable_iff (held : use.Held) (requests : List PoolRequest) :
    use.Accountable requests ↔ use.AllExact requests := by
  induction requests generalizing use with
  | nil => exact iff_of_true held.accounted trivial
  | cons request requests ih =>
    constructor
    · rintro ⟨_,above,rest⟩
      have right : (use.step request).Accounted := by
        cases requests with
        | nil => exact rest
        | cons _ _ => exact rest.1
      have allowed := exact_of_accounted held above right
      exact ⟨allowed,(ih (held_step held allowed)).mp rest⟩
    · rintro ⟨allowed,rest⟩
      exact ⟨held.accounted,not_underflows held allowed,(ih (held_step held allowed)).mpr rest⟩

end Holding

def made (block_size max_blocks : Nat) (granted : List Bool) : PoolUse :=
  ⟨CountedPool.new block_size max_blocks granted,[]⟩

section Made
variable {block_size max_blocks : Nat} {granted : List Bool} {index : Nat}

theorem endList_length (blocks : List (Option JsonHeader)) : (endList blocks).length = blocks.length := by
  rw [endList]
  split
  · exact List.length_set
  · rfl

theorem initialBlocks_at (inside : index < granted.length) :
    (initialBlocks block_size granted)[index]? =
      some (if granted[index] then some ⟨0,0,index+1,block_size-BlockHeader.SIZE⟩ else none) := by
  rw [initialBlocks,List.getElem?_mapIdx,List.getElem?_eq_getElem inside]
  rfl

theorem made_length : (made block_size max_blocks granted).pool.blocks.length = granted.length :=
  (endList_length _).trans List.length_mapIdx

theorem endList_at {blocks : List (Option JsonHeader)} (inside : index < blocks.length) :
    (endList blocks)[index]? = some (if index+1 = blocks.length
      then blocks[index].map fun header => {header with next_free:=noBlock} else blocks[index]) := by
  have last : blocks.getLast? = some (blocks[blocks.length-1]) := by
    rw [List.getLast?_eq_getElem?,List.getElem?_eq_getElem]
  by_cases ending : index+1 = blocks.length
  · have place : blocks.length-1 = index := by omega
    rw [if_pos ending,endList,last]
    simp only [place]
    match found : blocks[index] with
    | none => exact (List.getElem?_eq_getElem inside).trans (congrArg some found)
    | some header => exact List.getElem?_set_self inside
  · rw [if_neg ending,endList,last]
    have place : blocks.length-1 ≠ index := by omega
    split
    · exact (List.getElem?_set_ne place).trans (List.getElem?_eq_getElem inside)
    · exact List.getElem?_eq_getElem inside

theorem made_at (inside : index < granted.length) :
    (made block_size max_blocks granted).pool.blocks[index]? = some (if granted[index] then
      some ⟨0,0,if index+1 = granted.length then noBlock else index+1,block_size-BlockHeader.SIZE⟩ else none) := by
  have there : (initialBlocks block_size granted)[index]? = _ := initialBlocks_at inside
  obtain ⟨within,value⟩ := List.getElem?_eq_some_iff.mp there
  have long : (initialBlocks block_size granted).length = granted.length := List.length_mapIdx
  refine (endList_at within).trans ?_
  rw [value,long]
  by_cases ending : index+1 = granted.length
  · rw [if_pos ending,if_pos ending]
    cases granted[index] <;> rfl
  · rw [if_neg ending,if_neg ending]

theorem granted_of_free (free : (made block_size max_blocks granted).pool.Free index) :
    granted[index]? = some true := by
  obtain ⟨header,found,_⟩ := free
  obtain ⟨within,_⟩ := List.getElem?_eq_some_iff.mp found
  rw [made_length] at within
  rw [made_at within] at found
  rw [List.getElem?_eq_getElem within]
  cases answer : granted[index] with
  | true => rfl
  | false =>
    rw [answer] at found
    cases found

theorem granted_of_accounted (right : (made block_size max_blocks granted).Accounted) :
    ∀ answer ∈ granted, answer = true := by
  obtain ⟨list,_,distinct,free,counted⟩ := right.chain
  have within : list ⊆ List.range granted.length := by
    intro index member
    obtain ⟨inside,_⟩ := List.getElem?_eq_some_iff.mp (granted_of_free ((free index).mp member))
    exact List.mem_range.mpr inside
  have long : (List.range granted.length).length ≤ list.length := by
    rw [List.length_range]
    exact Nat.le_of_eq counted
  have all := (distinct.subperm within).perm_of_length_le long
  intro answer member
  obtain ⟨index,inside,rfl⟩ := List.mem_iff_getElem.mp member
  have given := granted_of_free ((free index).mp (all.mem_iff.mpr (List.mem_range.mpr inside)))
  rw [List.getElem?_eq_getElem inside] at given
  exact Option.some.inj given

theorem held_made (large : BlockHeader.SIZE < block_size) (few : granted.length < usizeLimit)
    (all : ∀ answer ∈ granted, answer = true) : (made block_size max_blocks granted).Held := by
  have there : ∀ index < granted.length, (made block_size max_blocks granted).pool.blocks[index]? =
      some (some ⟨0,0,if index+1 = granted.length then noBlock else index+1,block_size-BlockHeader.SIZE⟩) := by
    intro index inside
    rw [made_at inside,all _ (List.getElem_mem inside)]
    rfl
  have long : (made block_size max_blocks granted).pool.blocks.length = granted.length := made_length
  have next : ∀ index < granted.length,
      nextOf (made block_size max_blocks granted).pool.blocks index = linkTo granted.length (index+1) := by
    intro index inside
    rw [nextOf_at (there index inside),long]
    dsimp only
    split
    · next ending => rw [linkTo,linkTo,if_pos (.inr rfl),if_pos (.inl (Nat.le_of_eq ending.symm))]
    · rfl
  have path : ∀ count start, start+count = granted.length →
      Segment (nextOf (made block_size max_blocks granted).pool.blocks) (linkTo granted.length start)
        (List.range' start count) none := by
    intro count
    induction count with
    | zero => exact fun start ending => if_pos (.inl (by omega))
    | succ count ih =>
      intro start ending
      refine ⟨linkTo_inside few (by omega),?_⟩
      rw [next start (by omega)]
      exact ih (start+1) (by omega)
  refine ⟨Nat.sub_pos_of_lt large,?_,long ▸ few,⟨List.range granted.length,?_,?_⟩,?_,long.symm,rfl,show 0 < usizeLimit by decide⟩
  · intro index inside
    rw [long] at inside
    exact ⟨_,there index inside,rfl⟩
  · rw [firstFree,long,List.range_eq_range']
    exact path granted.length 0 (Nat.zero_add _)
  · rw [long]
    exact List.append_nil _ ▸ List.Perm.refl _
  · intro index header found
    obtain ⟨within,_⟩ := List.getElem?_eq_some_iff.mp found
    rw [there index (long ▸ within)] at found
    cases found
    exact iff_of_true rfl nofun

end Made

-- The accounts of a pool are right in every state of a run exactly where all of
-- its first blocks were granted and every request is exact.
theorem json_pool_accountable_iff {block_size max_blocks : Nat} {granted : List Bool}
    (large : BlockHeader.SIZE < block_size) (few : granted.length < usizeLimit) (requests : List PoolRequest) :
    (made block_size max_blocks granted).Accountable requests ↔
      (∀ answer ∈ granted, answer = true) ∧ (made block_size max_blocks granted).AllExact requests := by
  constructor
  · intro right
    have begun : (made block_size max_blocks granted).Accounted := by
      cases requests with
      | nil => exact right
      | cons _ _ => exact right.1
    have all := granted_of_accounted begun
    exact ⟨all,(accountable_iff (held_made large few all) requests).mp right⟩
  · rintro ⟨all,allowed⟩
    exact (accountable_iff (held_made large few all) requests).mpr allowed

theorem json_pool_accountable_iff_full :
    (made 64 4 [true,true]).Accountable [.allocate 32 true,.addRef 0,.release 0,.release 0] ↔
      (∀ answer ∈ [true,true], answer = true) ∧
        (made 64 4 [true,true]).AllExact [.allocate 32 true,.addRef 0,.release 0,.release 0] :=
  json_pool_accountable_iff (by decide) (by decide) _

-- Three ways to lose the accounts: a release of less than a whole block, a block
-- that is added and was never counted, and a gap that an allocation waits at.
theorem accounts_lost :
    ¬ (made 4096 1024 [true]).Accountable [.allocate 100 true,.release 0] ∧
    ¬ (made 4096 1024 [true]).Accountable [.allocate 4064 true,.allocate 4064 true] ∧
    ¬ (made 4096 1024 [false]).Accountable [] := by
  refine ⟨?_,?_,?_⟩
  · rintro ⟨_,_,_,above,_⟩
    exact above ⟨_,rfl,rfl,by decide⟩
  · rintro ⟨_,_,_,above,_⟩
    exact above ⟨⟨_,_,rfl⟩,rfl⟩
  · intro right
    exact right.ends 100 true (by decide)

end PoolUse
end RemDb
