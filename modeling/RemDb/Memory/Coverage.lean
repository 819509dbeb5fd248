import RemDb.Memory.Allocator

namespace RemDb.StaticAllocator
open RemDb.Lib MemoryBlock

-- The headers of the tiles: a tile is a header with what it announces.
def Marked (blocks : Nat → MemoryBlock) (tiles : List Tile) : Prop :=
  ∀ tile ∈ tiles, tile.length = SIZE+(blocks tile.start).size ∧
    (blocks tile.start).is_allocated = !tile.free

structure Tiled (pool : StaticAllocator) (tiles : List Tile) : Prop where
  positive : 8 ≤ pool.start_ptr
  ends : pool.start_ptr+pool.size < usizeLimit
  laid : Tiling pool.start_ptr tiles (pool.start_ptr+pool.size)
  marked : Marked pool.blocks tiles
  listed : pool.links.Lists (freeStarts tiles)
  counted : pool.used = takenLength tiles

@[simp] theorem writeBlock_links (pool : StaticAllocator) (block : Nat) (header : MemoryBlock) :
    (pool.writeBlock block header).links =
      {pool.links with next:=assign pool.links.next block header.next} := by
  simp only [links,writeBlock]
  rw [assign_comp MemoryBlock.next]

theorem writeBlock_links_held (pool : StaticAllocator) (block : Nat) (header : MemoryBlock)
    (held : header.next = (pool.blocks block).next) : (pool.writeBlock block header).links = pool.links := by
  rw [writeBlock_links,assign_held held.symm]

@[simp] theorem setLink_links (pool : StaticAllocator) (current target : Option Nat) :
    (pool.setLink current target).links = pool.links.set current target := by
  cases current with
  | none => rfl
  | some block => exact writeBlock_links pool block _

theorem setLink_header (pool : StaticAllocator) (current target : Option Nat) (block : Nat) :
    ∃ next, (pool.setLink current target).blocks block = {pool.blocks block with next:=next} := by
  cases current with
  | none => exact ⟨_,rfl⟩
  | some changed =>
    by_cases same : block = changed
    · subst changed
      exact ⟨target,assign_same _ _ _⟩
    · exact ⟨_,assign_other pool.blocks same _⟩

theorem setLink_size (pool : StaticAllocator) (current target : Option Nat) (block : Nat) :
    ((pool.setLink current target).blocks block).size = (pool.blocks block).size := by
  obtain ⟨next,same⟩ := pool.setLink_header current target block
  rw [same]

theorem setLink_allocated (pool : StaticAllocator) (current target : Option Nat) (block : Nat) :
    ((pool.setLink current target).blocks block).is_allocated = (pool.blocks block).is_allocated := by
  obtain ⟨next,same⟩ := pool.setLink_header current target block
  rw [same]

theorem setLink_marked {pool : StaticAllocator} (marked : Marked pool.blocks tiles) :
    Marked (pool.setLink current target).blocks tiles := by
  intro tile member
  rw [setLink_size,setLink_allocated]
  exact marked tile member

theorem setLink_pool (pool : StaticAllocator) (current target : Option Nat) :
    (pool.setLink current target).start_ptr = pool.start_ptr ∧
      (pool.setLink current target).size = pool.size ∧
      (pool.setLink current target).used = pool.used := by
  cases current with
  | none => exact ⟨rfl,rfl,rfl⟩
  | some block => exact ⟨rfl,rfl,rfl⟩

theorem Marked.congr (marked : Marked headers tiles)
    (agree : ∀ tile ∈ tiles, headers' tile.start = headers tile.start) : Marked headers' tiles := by
  intro tile member
  rw [agree tile member]
  exact marked tile member

theorem marked_append : Marked headers (front ++ back) ↔ Marked headers front ∧ Marked headers back := by
  constructor
  · intro marked
    exact ⟨fun tile member => marked tile (List.mem_append_left _ member),
      fun tile member => marked tile (List.mem_append_right _ member)⟩
  · rintro ⟨left,right⟩ tile member
    rcases List.mem_append.mp member with among | among
    · exact left tile among
    · exact right tile among

theorem marked_cons : Marked headers (tile :: rest) ↔
    (tile.length = SIZE+(headers tile.start).size ∧ (headers tile.start).is_allocated = !tile.free) ∧
      Marked headers rest := by
  simp only [Marked,List.mem_cons,forall_eq_or_imp]

theorem Marked.write (marked : Marked headers tiles) (outside : ∀ tile ∈ tiles, tile.start ≠ block) :
    Marked (assign headers block header) tiles :=
  marked.congr fun tile member => assign_other headers (outside tile member) header

theorem starts_apart (laid : Tiling left (front ++ tile :: back) right) :
    (∀ each ∈ front, each.start ≠ tile.start) ∧ ∀ each ∈ back, each.start ≠ tile.start := by
  have increasing := laid.increasing
  obtain ⟨_,after,before⟩ := List.pairwise_append.mp increasing
  refine ⟨?_,?_⟩
  · intro each member
    have below := before each member tile List.mem_cons_self
    exact Nat.ne_of_lt below
  · intro each member
    have above := List.rel_of_pairwise_cons after member
    exact Nat.ne_of_gt above

-- The search: it stops at the first free block that is large enough, or at the
-- end of the list.
theorem allocateLoop_finds (pool : StaticAllocator) (need : Nat) (back : List Nat) :
    ∀ front fuel, pool.links.Lists (front ++ back) → back.length < fuel →
      ((∀ block ∈ back, (pool.blocks block).size < need) ∧
        allocateLoop need fuel pool front.getLast? = some (.error .outOfMemory,pool)) ∨
      ∃ skipped block rest, back = skipped ++ block :: rest ∧ need ≤ (pool.blocks block).size ∧
        allocateLoop need fuel pool front.getLast? =
          some (pool.grant (front ++ skipped).getLast? block need) := by
  induction back with
  | nil =>
    intro front fuel listed enough
    obtain ⟨fuel,rfl⟩ : ∃ less, fuel = less+1 := ⟨fuel-1,by simp at enough; omega⟩
    left
    refine ⟨by simp,?_⟩
    rw [allocateLoop,link,listed.get_front]
    rfl
  | cons block rest ih =>
    intro front fuel listed enough
    obtain ⟨fuel,rfl⟩ : ∃ less, fuel = less+1 := ⟨fuel-1,by simp at enough; omega⟩
    have reached : pool.link front.getLast? = some block := listed.get_front
    by_cases large : (pool.blocks block).size ≥ need
    · right
      refine ⟨[],block,rest,rfl,large,?_⟩
      simp only [allocateLoop,reached,List.append_nil]
      rw [if_pos large]
    · have shifted : pool.links.Lists ((front ++ [block]) ++ rest) := by simpa using listed
      have advance : allocateLoop need (fuel+1) pool front.getLast? =
          allocateLoop need fuel pool (front ++ [block]).getLast? := by
        simp only [allocateLoop,reached,List.getLast?_concat]
        rw [if_neg large]
      rw [advance]
      rcases ih (front ++ [block]) fuel shifted (by simp at enough; omega) with ⟨small,failed⟩ | found
      · left
        refine ⟨?_,failed⟩
        intro each member
        rcases List.mem_cons.mp member with rfl | among
        · omega
        · exact small each among
      · obtain ⟨skipped,chosen,others,parts,fits,granted⟩ := found
        right
        refine ⟨block :: skipped,chosen,others,by rw [parts]; rfl,fits,?_⟩
        rw [granted]
        simp

theorem Tiled.block {pool : StaticAllocator} (tiled : Tiled pool (before ++ tile :: after)) :
    tile.length = SIZE+(pool.blocks tile.start).size ∧ 8 ≤ tile.start ∧
      tile.start+tile.length < usizeLimit := by
  have member : tile ∈ before ++ tile :: after := by simp
  have inside := tiled.laid.bounds member
  have low := tiled.positive
  have high := tiled.ends
  exact ⟨(tiled.marked tile member).1,by omega,by omega⟩

theorem takeBlock_tiled {pool : StaticAllocator} (tiled : Tiled pool (before ++ tile :: after))
    (free : tile.free = true) :
    Tiled (pool.takeBlock (freeStarts before).getLast? tile.start)
      (before ++ {tile with free:=false} :: after) := by
  have laid := tiled.laid.relabel false
  obtain ⟨length,_,below⟩ := tiled.block
  obtain ⟨left,right⟩ := starts_apart tiled.laid
  obtain ⟨front,⟨_,back⟩⟩ := (marked_append.mp tiled.marked).imp id marked_cons.mp
  obtain ⟨start,size,used⟩ := pool.setLink_pool (freeStarts before).getLast? (pool.blocks tile.start).next
  have same : ((pool.setLink (freeStarts before).getLast? (pool.blocks tile.start).next).blocks
      tile.start).size = (pool.blocks tile.start).size := setLink_size _ _ _ _
  refine ⟨start ▸ tiled.positive,?_,?_,?_,?_,?_⟩
  · exact start ▸ size ▸ tiled.ends
  · exact start ▸ size ▸ laid
  · refine marked_append.mpr ⟨(setLink_marked front).write left,
      marked_cons.mpr ⟨?_,(setLink_marked back).write right⟩⟩
    dsimp only [takeBlock,writeBlock]
    rw [assign_same]
    exact ⟨by rw [same,← length],rfl⟩
  · have listed := tiled.listed
    have distinct := tiled.laid.freeStarts_nodup
    rw [freeStarts_append,freeStarts_cons_free free] at listed distinct
    rw [freeStarts_append,freeStarts_cons_taken rfl]
    have removed := listed.remove distinct
    have held := writeBlock_links_held
      (pool.setLink (freeStarts before).getLast? (pool.blocks tile.start).next) tile.start
      {(pool.setLink (freeStarts before).getLast? (pool.blocks tile.start).next).blocks tile.start with
        is_allocated:=true} rfl
    rw [setLink_links] at held
    exact held ▸ removed
  · have whole := laid.takenLength_le
    have counted := tiled.counted
    rw [takenLength_append,takenLength_cons_free free] at counted
    rw [takenLength_append,takenLength_cons_taken rfl] at whole ⊢
    dsimp only [takeBlock,writeBlock] at whole ⊢
    have high := tiled.ends
    have whole_block : usizeAdd (pool.blocks tile.start).size SIZE = tile.length := by
      rw [usizeAdd_of_lt] <;> omega
    rw [assign_same,used,same,whole_block,counted,usizeAdd_of_lt] <;> omega

theorem splitBlock_tiled {pool : StaticAllocator} (tiled : Tiled pool (before ++ tile :: after))
    (free : tile.free = true) (room : need+SIZE+8 ≤ (pool.blocks tile.start).size) :
    Tiled (pool.splitBlock tile.start need)
      (before ++ ⟨tile.start,SIZE+need,true⟩ ::
        ⟨tile.start+(SIZE+need),tile.length-(SIZE+need),true⟩ :: after) := by
  obtain ⟨length,low,below⟩ := tiled.block
  have cut : Tiling pool.start_ptr (before ++ ⟨tile.start,SIZE+need,true⟩ ::
      ⟨tile.start+(SIZE+need),tile.length-(SIZE+need),true⟩ :: after) (pool.start_ptr+pool.size) :=
    tiled.laid.cut true true (by simp only [SIZE]; omega) (by omega)
  have total : usizeAdd need SIZE = SIZE+need := by
    rw [usizeAdd_of_lt] <;> omega
  have new_block : usizeAdd tile.start (SIZE+need) = tile.start+(SIZE+need) := usizeAdd_of_lt (by omega)
  have new_size : usizeSub (usizeSub (pool.blocks tile.start).size need) SIZE =
      (pool.blocks tile.start).size-need-SIZE := by
    have less : usizeSub (pool.blocks tile.start).size need = (pool.blocks tile.start).size-need :=
      usizeSub_of_le (by omega) (by omega)
    rw [less,usizeSub_of_le] <;> omega
  have split : pool.splitBlock tile.start need =
      (pool.writeBlock (tile.start+(SIZE+need))
        ⟨(pool.blocks tile.start).next,(pool.blocks tile.start).size-need-SIZE,false⟩).writeBlock tile.start
        {pool.blocks tile.start with next:=some (tile.start+(SIZE+need)),size:=need} := by
    have enough : (pool.blocks tile.start).size ≥ usizeAdd (usizeAdd need SIZE) 8 := by
      rw [total,usizeAdd_of_lt] <;> omega
    simp only [splitBlock,total,new_block,new_size]
    rw [if_pos (total ▸ enough)]
  have inside : ∀ each ∈ before ++ tile :: after, each.start ≠ tile.start+(SIZE+need) := by
    intro each member same
    have covers : tile.Covers each.start := ⟨by omega,by omega⟩
    have positive := (tiled.laid.bounds member).2.1
    have equal := tiled.laid.same_of_covers (by simp) member covers ⟨Nat.le_refl _,by omega⟩
    rw [← equal] at same
    simp only [SIZE] at same
    omega
  obtain ⟨left,right⟩ := starts_apart tiled.laid
  obtain ⟨front,⟨⟨_,mark⟩,back⟩⟩ := (marked_append.mp tiled.marked).imp id marked_cons.mp
  rw [split]
  refine ⟨tiled.positive,tiled.ends,cut,?_,?_,?_⟩
  · refine marked_append.mpr ⟨Marked.write (front.write fun each member => inside each (by simp [member])) left,
      marked_cons.mpr ⟨?_,marked_cons.mpr ⟨?_,
        Marked.write (back.write fun each member => inside each (by simp [member])) right⟩⟩⟩
    · dsimp only [writeBlock]
      rw [assign_same]
      exact ⟨rfl,free ▸ mark⟩
    · have apart : tile.start+(SIZE+need) ≠ tile.start := by simp only [SIZE]; omega
      dsimp only [writeBlock]
      rw [assign_other _ apart,assign_same]
      exact ⟨by dsimp only; omega,rfl⟩
  · have listed := tiled.listed
    have distinct := tiled.laid.freeStarts_nodup
    have fresh : tile.start+(SIZE+need) ∉ freeStarts (before ++ tile :: after) := by
      intro member
      obtain ⟨each,present,_,same⟩ := mem_of_freeStarts member
      exact inside each present same
    rw [freeStarts_append,freeStarts_cons_free free] at listed distinct fresh
    rw [freeStarts_append,freeStarts_cons_free rfl,freeStarts_cons_free rfl]
    have shifted : pool.links.Lists ((freeStarts before ++ [tile.start]) ++ freeStarts after) := by
      simpa using listed
    have absent : tile.start+(SIZE+need) ∉ (freeStarts before ++ [tile.start]) ++ freeStarts after := by
      rw [List.append_assoc]
      exact fresh
    have inserted := shifted.insert (by simpa using distinct) absent
    rw [List.getLast?_concat] at inserted
    rw [List.append_assoc] at inserted
    rw [writeBlock_links,writeBlock_links]
    exact inserted
  · have counted := tiled.counted
    rw [takenLength_append,takenLength_cons_free free] at counted
    rw [takenLength_append,takenLength_cons_free rfl,takenLength_cons_free rfl]
    exact counted

theorem splitBlock_small {pool : StaticAllocator} (tiled : Tiled pool (before ++ tile :: after))
    (fits : need ≤ (pool.blocks tile.start).size) (tight : (pool.blocks tile.start).size < need+SIZE+8) :
    pool.splitBlock tile.start need = pool := by
  obtain ⟨length,low,below⟩ := tiled.block
  have total : usizeAdd (usizeAdd need SIZE) 8 = need+SIZE+8 := by
    rw [usizeAdd_of_lt,usizeAdd_of_lt] <;> try rw [usizeAdd_of_lt]
    all_goals omega
  simp only [splitBlock,total]
  rw [if_neg (by omega)]

theorem grant_tiled {pool : StaticAllocator} (tiled : Tiled pool (before ++ tile :: after))
    (apart : Coalesced (before ++ tile :: after)) (free : tile.free = true)
    (fits : need ≤ (pool.blocks tile.start).size) :
    (pool.grant (freeStarts before).getLast? tile.start need).1 = .ok (tile.start+SIZE) ∧
      ∃ tiles length, SIZE+need ≤ length ∧
        Tiled (pool.grant (freeStarts before).getLast? tile.start need).2 tiles ∧ Coalesced tiles ∧
        takenTiles tiles = takenTiles before ++ ⟨tile.start,length,false⟩ :: takenTiles after := by
  obtain ⟨length,low,below⟩ := tiled.block
  have data : usizeAdd tile.start SIZE = tile.start+SIZE := usizeAdd_of_lt (by omega)
  refine ⟨?_,?_⟩
  · simp only [grant,data]
    rw [if_neg (by simp only [SIZE]; omega)]
  · dsimp only [grant]
    by_cases room : need+SIZE+8 ≤ (pool.blocks tile.start).size
    · have taken := takeBlock_tiled (splitBlock_tiled tiled free room) rfl
      refine ⟨_,SIZE+need,Nat.le_refl _,taken,apart.takeFront free rfl,?_⟩
      simp [takenTiles]
    · rw [splitBlock_small tiled fits (by omega)]
      refine ⟨_,tile.length,by omega,takeBlock_tiled tiled free,apart.take rfl,?_⟩
      simp [takenTiles]

-- Sizes for which neither the rounding nor the header overflows.
def Fits (request : Nat) : Prop := (request+7)/8*8+SIZE < usizeLimit
deriving Decidable

theorem roundUp_of_fits (fits : Fits request) : roundUp request = (request+7)/8*8 := by
  rw [roundUp,usizeAdd_of_lt]
  simp only [Fits,SIZE,usizeLimit] at fits ⊢
  omega

theorem allocate_outcome {pool : StaticAllocator} (tiled : Tiled pool tiles) (request : Nat) :
    ((∀ block ∈ freeStarts tiles, (pool.blocks block).size < roundUp request) ∧
      pool.allocate request = some (.error .outOfMemory,pool)) ∨
    ∃ before tile after, tiles = before ++ tile :: after ∧ tile.free = true ∧
      roundUp request ≤ (pool.blocks tile.start).size ∧
      pool.allocate request = some (pool.grant (freeStarts before).getLast? tile.start (roundUp request)) := by
  have short := tiled.laid.freeStarts_length_le
  have search := allocateLoop_finds pool (roundUp request) (freeStarts tiles) [] (pool.size+1) tiled.listed
    (by omega)
  rcases search with ⟨small,failed⟩ | found
  · left
    exact ⟨small,failed⟩
  · obtain ⟨skipped,block,rest,parts,fits,granted⟩ := found
    obtain ⟨before,tile,after,split,free,rfl,rfl,_⟩ := freeStarts_split parts
    right
    exact ⟨before,tile,after,split,free,fits,granted⟩

theorem insertLoop_places (pool : StaticAllocator) (block : Nat) (low : List Nat) :
    ∀ front fuel, pool.links.Lists (front ++ (low ++ high)) → low.length < fuel →
      (∀ each ∈ low, each < block) → (∀ each ∈ high, block < each) →
      insertLoop block fuel pool front.getLast? =
        some (pool.hang (front ++ low).getLast? block high.head?) := by
  induction low with
  | nil =>
    intro front fuel listed enough _ above
    obtain ⟨fuel,rfl⟩ : ∃ less, fuel = less+1 := ⟨fuel-1,by simp at enough; omega⟩
    rw [List.append_nil]
    cases high with
    | nil =>
      have reached : pool.link front.getLast? = none := listed.get_front
      simp only [insertLoop,reached,List.head?_nil]
    | cons next rest =>
      have reached : pool.link front.getLast? = some next := listed.get_front
      simp only [insertLoop,reached,List.head?_cons]
      rw [if_pos (above next List.mem_cons_self)]
  | cons first rest ih =>
    intro front fuel listed enough below above
    obtain ⟨fuel,rfl⟩ : ∃ less, fuel = less+1 := ⟨fuel-1,by simp at enough; omega⟩
    have reached : pool.link front.getLast? = some first := listed.get_front
    have lower : ¬first > block := by
      have small := below first List.mem_cons_self
      omega
    have shifted : pool.links.Lists ((front ++ [first]) ++ (rest ++ high)) := by simpa using listed
    have onward := ih (front ++ [first]) fuel shifted (by simp at enough; omega)
      (fun each member => below each (List.mem_cons_of_mem _ member)) above
    simp only [insertLoop,reached]
    rw [if_neg lower]
    rw [List.getLast?_concat] at onward
    simpa using onward

theorem releaseBlock_links (pool : StaticAllocator) (block : Nat) :
    (pool.releaseBlock block).links = pool.links := writeBlock_links_held pool block _ rfl

theorem hang_tiled {pool : StaticAllocator} (tiled : Tiled pool (before ++ tile :: after))
    (taken : tile.free = false) :
    Tiled ((pool.releaseBlock tile.start).hang (freeStarts before).getLast? tile.start (freeStarts after).head?)
      (before ++ {tile with free:=true} :: after) := by
  have laid := tiled.laid.relabel true
  obtain ⟨length,_,below⟩ := tiled.block
  obtain ⟨left,right⟩ := starts_apart tiled.laid
  obtain ⟨front,⟨_,back⟩⟩ := (marked_append.mp tiled.marked).imp id marked_cons.mp
  obtain ⟨start,size,used⟩ := setLink_pool ((pool.releaseBlock tile.start).writeBlock tile.start
    {(pool.releaseBlock tile.start).blocks tile.start with next:=(freeStarts after).head?})
    (freeStarts before).getLast? (some tile.start)
  refine ⟨start ▸ tiled.positive,start ▸ size ▸ tiled.ends,start ▸ size ▸ laid,?_,?_,?_⟩
  · apply setLink_marked
    refine marked_append.mpr ⟨Marked.write (front.write left) left,
      marked_cons.mpr ⟨?_,Marked.write (back.write right) right⟩⟩
    dsimp only [releaseBlock,writeBlock]
    rw [assign_same,assign_same]
    exact ⟨length,rfl⟩
  · have listed := tiled.listed
    have distinct := tiled.laid.freeStarts_nodup
    have fresh : tile.start ∉ freeStarts (before ++ tile :: after) := by
      intro member
      obtain ⟨each,present,free,same⟩ := mem_of_freeStarts member
      have equal := tiled.laid.same_of_start present (by simp) same
      rw [equal,taken] at free
      cases free
    rw [freeStarts_append,freeStarts_cons_taken taken] at listed distinct fresh
    rw [freeStarts_append,freeStarts_cons_free rfl,hang,setLink_links,writeBlock_links,releaseBlock_links,
      ← listed.get_front]
    exact listed.insert distinct fresh
  · have counted := tiled.counted
    have whole_block : usizeAdd (pool.blocks tile.start).size SIZE = tile.length := by
      rw [usizeAdd_of_lt] <;> omega
    rw [takenLength_append,takenLength_cons_taken taken] at counted
    rw [takenLength_append,takenLength_cons_free rfl]
    refine used.trans ?_
    simp only [releaseBlock,writeBlock,assign_same,whole_block]
    rw [if_pos (by omega)]
    omega

-- One round of the merge loop: the block swallows the one right behind it, or
-- the loop moves on.
theorem mergeLoop_merge {pool : StaticAllocator} (reached : pool.link current = some block)
    (follows : (pool.blocks block).next = some behind)
    (touches : usizeAdd (usizeAdd block SIZE) (pool.blocks block).size = behind) :
    mergeLoop (fuel+1) pool current =
      mergeLoop fuel (pool.writeBlock block {pool.blocks block with
        size:=usizeAdd (pool.blocks block).size (usizeAdd SIZE (pool.blocks behind).size)
        next:=(pool.blocks behind).next}) current := by
  simp only [mergeLoop,reached,follows]
  rw [if_pos touches]

theorem mergeLoop_advance {pool : StaticAllocator} (reached : pool.link current = some block)
    (gap : ∀ next, (pool.blocks block).next = some next →
      usizeAdd (usizeAdd block SIZE) (pool.blocks block).size ≠ next) (fuel : Nat) :
    mergeLoop (fuel+1) pool current = mergeLoop fuel pool (some block) := by
  cases follows : (pool.blocks block).next with
  | none => simp only [mergeLoop,reached,follows]
  | some next =>
    simp only [mergeLoop,reached,follows]
    rw [if_neg (gap next follows)]

structure Hanging (pool : StaticAllocator) (current : Option Nat) (tiles : List Tile) : Prop where
  marked : Marked pool.blocks tiles
  path : Segment pool.links.next (pool.link current) (freeStarts tiles) none
  outside : ∀ tile ∈ tiles, current ≠ some tile.start

-- The headers a merge leaves, which differ from the old ones at `tiles` only.
structure Merged (pool : StaticAllocator) (current : Option Nat) (tiles : List Tile)
    (headers : Nat → MemoryBlock) : Prop where
  marked : Marked headers (coalesce tiles)
  path : Segment (fun block => (headers block).next) (pool.link current) (freeStarts (coalesce tiles)) none
  frame : ∀ block, (∀ tile ∈ tiles, tile.start ≠ block) → headers block = pool.blocks block

theorem link_write (pool : StaticAllocator) (header : MemoryBlock) (apart : current ≠ some block) :
    (pool.writeBlock block header).link current = pool.link current := by
  rw [link,link,writeBlock_links]
  cases current with
  | none => rfl
  | some other =>
    have different : other ≠ block := fun same => apart (congrArg some same)
    exact assign_other _ different _

-- A taken tile in front is passed over without a round of the loop.
theorem Merged.past (taken : tile.free = false) (laid : Tiling left (tile :: rest) right)
    (hanging : Hanging pool current (tile :: rest)) (merged : Merged pool current rest headers) :
    Merged pool current (tile :: rest) headers := by
  obtain ⟨_,apart⟩ := starts_apart (show Tiling left ([] ++ tile :: rest) right from laid)
  have kept := merged.frame tile.start apart
  refine ⟨?_,?_,?_⟩
  · rw [coalesce,joinTile_taken taken]
    exact marked_cons.mpr ⟨kept ▸ (marked_cons.mp hanging.marked).1,merged.marked⟩
  · rw [coalesce,joinTile_taken taken,freeStarts_cons_taken taken]
    exact merged.path
  · intro block other
    exact merged.frame block fun each member => other each (List.mem_cons_of_mem _ member)

theorem Merged.beyond {pool : StaticAllocator} (free : tile.free = true)
    (blocked : ∀ next ∈ rest.head?, next.free = false) (laid : Tiling left (tile :: rest) right)
    (hanging : Hanging pool current (tile :: rest)) (merged : Merged pool (some tile.start) rest headers) :
    Merged pool current (tile :: rest) headers := by
  obtain ⟨_,apart⟩ := starts_apart (show Tiling left ([] ++ tile :: rest) right from laid)
  have kept := merged.frame tile.start apart
  have same : coalesce (tile :: rest) = tile :: coalesce rest :=
    joinTile_before (coalesce_head_taken blocked)
  have path := hanging.path
  rw [freeStarts_cons_free free] at path
  refine ⟨?_,?_,?_⟩
  · rw [same]
    exact marked_cons.mpr ⟨kept ▸ (marked_cons.mp hanging.marked).1,merged.marked⟩
  · rw [same,freeStarts_cons_free free]
    refine ⟨path.1,?_⟩
    dsimp only
    rw [kept]
    exact merged.path
  · intro block other
    exact merged.frame block fun each member => other each (List.mem_cons_of_mem _ member)

theorem gap_behind {pool : StaticAllocator} (free : tile.free = true)
    (blocked : ∀ next ∈ rest.head?, next.free = false) (laid : Tiling left (tile :: rest) right)
    (small : right < usizeLimit) (hanging : Hanging pool current (tile :: rest)) :
    ∀ next, (pool.blocks tile.start).next = some next →
      usizeAdd (usizeAdd tile.start SIZE) (pool.blocks tile.start).size ≠ next := by
  intro next follows touches
  have path := hanging.path
  rw [freeStarts_cons_free free] at path
  have onward : Segment pool.links.next (some next) (freeStarts rest) none := follows ▸ path.2
  have bound := laid.bounds List.mem_cons_self
  have length := ((marked_cons.mp hanging.marked).1).1
  obtain ⟨here,_,behind⟩ := laid
  rw [usizeAdd_of_lt,usizeAdd_of_lt] at touches <;> try rw [usizeAdd_of_lt]
  all_goals try omega
  cases starts : freeStarts rest with
  | nil =>
    rw [starts] at onward
    cases onward
  | cons first others =>
    rw [starts] at onward
    have first_next : next = first := Option.some.inj onward.1
    have member : first ∈ freeStarts rest := by rw [starts]; exact List.mem_cons_self
    obtain ⟨found,present,is_free,start⟩ := mem_of_freeStarts member
    cases rest with
    | nil => cases present
    | cons head tail =>
      have equal := behind.same_of_start present List.mem_cons_self (by
        have begins := behind.1
        omega)
      rw [equal,blocked head rfl] at is_free
      cases is_free

theorem Hanging.merge {pool : StaticAllocator} (free : tile.free = true) (free' : follower.free = true)
    (laid : Tiling left (tile :: follower :: rest) right) (small : right < usizeLimit)
    (hanging : Hanging pool current (tile :: follower :: rest)) (fuel : Nat) :
    ∃ header, mergeLoop (fuel+1) pool current = mergeLoop fuel (pool.writeBlock tile.start header) current ∧
      Hanging (pool.writeBlock tile.start header) current
        ({tile with length:=tile.length+follower.length} :: rest) := by
  obtain ⟨_,apart⟩ := starts_apart (show Tiling left ([] ++ tile :: follower :: rest) right from laid)
  obtain ⟨⟨length,mark⟩,inner⟩ := marked_cons.mp hanging.marked
  obtain ⟨⟨length',_⟩,others⟩ := marked_cons.mp inner
  have bound := laid.bounds (List.mem_cons_of_mem _ List.mem_cons_self)
  obtain ⟨here,_,there,_,_⟩ := laid
  have path := hanging.path
  rw [freeStarts_cons_free free,freeStarts_cons_free free'] at path
  obtain ⟨reached,follows,onward⟩ := path
  have first_end : usizeAdd tile.start SIZE = tile.start+SIZE := usizeAdd_of_lt (by omega)
  have touches : usizeAdd (usizeAdd tile.start SIZE) (pool.blocks tile.start).size = follower.start := by
    rw [first_end,usizeAdd_of_lt] <;> omega
  have swallowed : usizeAdd SIZE (pool.blocks follower.start).size = follower.length := by
    rw [usizeAdd_of_lt] <;> omega
  have sum : usizeAdd (pool.blocks tile.start).size follower.length =
      (pool.blocks tile.start).size+follower.length := usizeAdd_of_lt (by omega)
  refine ⟨_,mergeLoop_merge reached follows touches,?_,?_,?_⟩
  · refine marked_cons.mpr ⟨?_,others.write fun each member => apart each (List.mem_cons_of_mem _ member)⟩
    dsimp only [writeBlock]
    rw [assign_same,swallowed,sum]
    exact ⟨by dsimp only; omega,mark⟩
  · rw [freeStarts_cons_longer free,link_write _ _ (hanging.outside tile List.mem_cons_self)]
    refine ⟨reached,?_⟩
    rw [writeBlock_links]
    dsimp only
    rw [assign_same]
    apply onward.assign_outside
    intro member
    obtain ⟨each,present,_,same⟩ := mem_of_freeStarts member
    exact apart each (List.mem_cons_of_mem _ present) same
  · intro each member
    rcases List.mem_cons.mp member with rfl | among
    · exact hanging.outside tile List.mem_cons_self
    · exact hanging.outside each (List.mem_cons_of_mem _ (List.mem_cons_of_mem _ among))

theorem Merged.swallow {pool : StaticAllocator} (free : tile.free = true) (free' : follower.free = true)
    (apart : current ≠ some tile.start)
    (merged : Merged (pool.writeBlock tile.start header) current
      ({tile with length:=tile.length+follower.length} :: rest) headers) :
    Merged pool current (tile :: follower :: rest) headers := by
  have same : coalesce ({tile with length:=tile.length+follower.length} :: rest) =
      coalesce (tile :: follower :: rest) := (joinTile_joinTile free free' _).symm
  have kept := link_write pool header apart
  refine ⟨same ▸ merged.marked,kept ▸ same ▸ merged.path,?_⟩
  intro block other
  have different : block ≠ tile.start := fun equal => other tile List.mem_cons_self equal.symm
  rw [merged.frame block ?_]
  · exact assign_other pool.blocks different header
  · intro each member
    rcases List.mem_cons.mp member with rfl | among
    · exact other tile List.mem_cons_self
    · exact other each (List.mem_cons_of_mem _ (List.mem_cons_of_mem _ among))

-- Induction on the number of tiles: each round either drops a tile or moves
-- past one.
theorem mergeLoop_coalesces (count : Nat) : ∀ (tiles : List Tile) fuel pool current left,
    tiles.length ≤ count → Tiling left tiles right → right < usizeLimit → Hanging pool current tiles →
      (freeStarts tiles).length < fuel →
      ∃ headers, mergeLoop fuel pool current = some {pool with blocks:=headers} ∧
        Merged pool current tiles headers := by
  induction count with
  | zero =>
    intro tiles fuel pool current left none_left laid small hanging enough
    have empty : tiles = [] := List.length_eq_zero_iff.mp (by omega)
    subst tiles
    obtain ⟨fuel,rfl⟩ : ∃ less, fuel = less+1 := ⟨fuel-1,by omega⟩
    have reached : pool.link current = none := hanging.path
    exact ⟨pool.blocks,by simp only [mergeLoop,reached],hanging.marked,hanging.path,fun _ _ => rfl⟩
  | succ count ih =>
    intro tiles fuel pool current left bounded laid small hanging enough
    cases tiles with
    | nil => exact ih [] fuel pool current left (by simp) laid small hanging enough
    | cons tile rest =>
      have onward := laid.2.2
      have inner := (marked_cons.mp hanging.marked).2
      have path := hanging.path
      rw [List.length_cons] at bounded
      cases free : tile.free with
      | false =>
        rw [freeStarts_cons_taken free] at path enough
        have smaller : Hanging pool current rest :=
          ⟨inner,path,fun each member => hanging.outside each (List.mem_cons_of_mem _ member)⟩
        obtain ⟨headers,ran,merged⟩ := ih rest fuel pool current _ (by omega) onward small smaller enough
        exact ⟨headers,ran,merged.past free laid hanging⟩
      | true =>
        rw [freeStarts_cons_free free] at path enough
        obtain ⟨fuel,rfl⟩ : ∃ less, fuel = less+1 := ⟨fuel-1,by simp at enough; omega⟩
        rw [List.length_cons] at enough
        by_cases blocked : ∀ next ∈ rest.head?, next.free = false
        · have advance := mergeLoop_advance path.1 (gap_behind free blocked laid small hanging) fuel
          obtain ⟨_,apart⟩ := starts_apart (show Tiling left ([] ++ tile :: rest) right from laid)
          have smaller : Hanging pool (some tile.start) rest :=
            ⟨inner,path.2,fun each member same => apart each member (Option.some.inj same).symm⟩
          obtain ⟨headers,ran,merged⟩ := ih rest fuel pool _ _ (by omega) onward small smaller (by omega)
          exact ⟨headers,advance.trans ran,merged.beyond free blocked laid hanging⟩
        · cases rest with
          | nil => exact absurd (by simp) blocked
          | cons follower rest =>
            have free' : follower.free = true := by simpa using blocked
            obtain ⟨header,step,next_state⟩ := hanging.merge free free' laid small fuel
            have joined : Tiling left ({tile with length:=tile.length+follower.length} :: rest) right := by
              obtain ⟨here,positive,_,_,behind⟩ := laid
              exact ⟨here,by dsimp only; omega,by rw [← Nat.add_assoc]; exact behind⟩
            rw [freeStarts_cons_free free',List.length_cons] at enough
            obtain ⟨headers,ran,merged⟩ := ih _ fuel _ current _ (by simp at bounded ⊢; omega) joined small
              next_state (by rw [freeStarts_cons_longer free,List.length_cons]; omega)
            exact ⟨headers,step.trans ran,merged.swallow free free' (hanging.outside tile List.mem_cons_self)⟩

theorem merge_tiled {pool : StaticAllocator} (tiled : Tiled pool tiles) :
    ∃ merged, pool.mergeAdjacentBlocks = some merged ∧ Tiled merged (coalesce tiles) := by
  have hanging : Hanging pool none tiles := ⟨tiled.marked,tiled.listed,fun _ _ same => nomatch same⟩
  have short := tiled.laid.freeStarts_length_le
  obtain ⟨headers,ran,merged⟩ := mergeLoop_coalesces tiles.length tiles (pool.size+1) pool none _
    (Nat.le_refl _) tiled.laid tiled.ends hanging (by omega)
  refine ⟨_,ran,tiled.positive,tiled.ends,coalesce_tiling tiled.laid,merged.marked,merged.path,?_⟩
  rw [takenLength,coalesce_takenTiles]
  exact tiled.counted

theorem free_tiled {pool : StaticAllocator} (tiled : Tiled pool (before ++ tile :: after))
    (taken : tile.free = false) :
    ∃ freed, pool.free (tile.start+SIZE) = some freed ∧
      Tiled freed (coalesce (before ++ {tile with free:=true} :: after)) := by
  obtain ⟨length,low,below⟩ := tiled.block
  have inside := tiled.laid.bounds (show tile ∈ before ++ tile :: after by simp)
  have block : usizeSub (tile.start+SIZE) SIZE = tile.start := by
    rw [usizeSub_of_le] <;> omega
  have end_addr : usizeAdd pool.start_ptr pool.size = pool.start_ptr+pool.size := usizeAdd_of_lt tiled.ends
  have starts := tiled.laid.increasing
  obtain ⟨_,behind,ahead⟩ := List.pairwise_append.mp starts
  have listed := tiled.listed
  have short := tiled.laid.freeStarts_length_le
  rw [freeStarts_append,freeStarts_cons_taken taken] at listed short
  rw [List.length_append] at short
  have placed := insertLoop_places (pool.releaseBlock tile.start) tile.start (freeStarts before) []
    (pool.size+1) (releaseBlock_links pool tile.start ▸ listed) (by omega)
    (fun each member => by
      obtain ⟨found,present,_,rfl⟩ := mem_of_freeStarts member
      exact ahead found present tile List.mem_cons_self)
    (fun each member => by
      obtain ⟨found,present,_,rfl⟩ := mem_of_freeStarts member
      exact List.rel_of_pairwise_cons behind present)
  obtain ⟨merged,ran,result⟩ := merge_tiled (hang_tiled tiled taken)
  refine ⟨merged,?_,result⟩
  simp only [free,block,end_addr]
  rw [if_neg (by omega),if_neg (by omega)]
  exact (congrArg (·.bind mergeAdjacentBlocks) placed).trans ran

-- A region of memory: it reaches an aligned address and ends below the top of
-- the address space. `init_global_allocator` lets only larger ones pass.
def Region (start size : Nat) : Prop := (start+7)/8*8 ≤ start+size ∧ start+size < usizeLimit
deriving Decidable

theorem new_tiled {pool : StaticAllocator} {start size : Nat} (region : Region start size)
    (made : new memory start size = some pool) :
    Tiled pool [⟨pool.start_ptr,pool.size,true⟩] := by
  obtain ⟨reaches,ends⟩ := region
  have sum : usizeAdd start (ALIGNMENT-1) / ALIGNMENT * ALIGNMENT = (start+7)/8*8 := by
    simp only [ALIGNMENT]
    rw [usizeAdd_of_lt]
    simp only [usizeLimit] at ends ⊢
    omega
  have padding : usizeSub ((start+7)/8*8) start = (start+7)/8*8-start := usizeSub_of_le (by omega) (by omega)
  have room : usizeSub size ((start+7)/8*8-start) = size-((start+7)/8*8-start) :=
    usizeSub_of_le (by omega) (by omega)
  simp only [new,sum,padding,room] at made
  split at made
  · cases made
  split at made
  · cases made
  rename_i large nonzero
  injection made with made
  subst pool
  have inner : usizeSub (size-((start+7)/8*8-start)) SIZE = size-((start+7)/8*8-start)-SIZE :=
    usizeSub_of_le (by omega) (by omega)
  simp only [SIZE] at large
  refine ⟨?_,?_,⟨rfl,?_,rfl⟩,?_,⟨rfl,?_⟩,rfl⟩
  · simp only [reset,writeBlock]
    omega
  · simp only [reset,writeBlock]
    omega
  · simp only [reset,writeBlock]
    omega
  · refine marked_cons.mpr ⟨?_,fun _ member => nomatch member⟩
    simp only [reset,writeBlock,assign_same,inner]
    exact ⟨by simp only [SIZE]; omega,rfl⟩
  · simp only [links,reset,writeBlock,assign_same]
    rfl

-- What a client can do: `live` are the pointers it holds, each with the size it
-- asked for. It frees only pointers it holds.
inductive Reached (start size : Nat) : StaticAllocator → List (Nat × Nat) → Prop where
  | new (made : StaticAllocator.new memory start size = some pool) : Reached start size pool []
  | allocated (before : Reached start size pool live) (fits : Fits request)
      (answer : pool.allocate request = some (.ok ptr,pool')) : Reached start size pool' ((ptr,request) :: live)
  | refused (before : Reached start size pool live) (fits : Fits request)
      (answer : pool.allocate request = some (.error refusal,pool')) : Reached start size pool' live
  | freed (before : Reached start size pool live) (held : entry ∈ live)
      (answer : pool.free entry.1 = some pool') : Reached start size pool' (live.erase entry)

def Owns (entry : Nat × Nat) (tile : Tile) : Prop := entry.1 = tile.start+SIZE ∧ SIZE+entry.2 ≤ tile.length

-- The taken tiles are the blocks of the live pointers, in some order.
def Serves (tiles : List Tile) (live : List (Nat × Nat)) : Prop :=
  ∃ owned, owned.Perm (takenTiles tiles) ∧ List.Forall₂ Owns live owned

theorem owned_of_live (matched : List.Forall₂ Owns live owned) (held : entry ∈ live) :
    ∃ tile rest, owned.Perm (tile :: rest) ∧ Owns entry tile ∧ List.Forall₂ Owns (live.erase entry) rest := by
  induction matched with
  | nil => cases held
  | @cons first tile live owned owns matched ih =>
    by_cases same : first = entry
    · subst first
      rw [List.erase_cons_head]
      exact ⟨tile,owned,List.Perm.refl _,owns,matched⟩
    · have among : entry ∈ live := (List.mem_cons.mp held).resolve_left fun equal => same equal.symm
      obtain ⟨found,rest,order,owns',matched'⟩ := ih among
      rw [List.erase_cons_tail (by simpa using same)]
      exact ⟨found,tile :: rest,(order.cons tile).trans (List.Perm.swap _ _ _),owns',.cons owns matched'⟩

structure Held (pool : StaticAllocator) (tiles : List Tile) (live : List (Nat × Nat)) : Prop where
  tiled : Tiled pool tiles
  apart : Coalesced tiles
  serves : Serves tiles live

theorem allocate_held {pool : StaticAllocator} (held : Held pool tiles live) (fits : Fits request) :
    ((∀ block ∈ freeStarts tiles, (pool.blocks block).size < (request+7)/8*8) ∧
      pool.allocate request = some (.error .outOfMemory,pool)) ∨
    ∃ block ∈ freeStarts tiles, (request+7)/8*8 ≤ (pool.blocks block).size ∧
      ∃ pool' tiles', pool.allocate request = some (.ok (block+SIZE),pool') ∧
        Held pool' tiles' ((block+SIZE,request) :: live) := by
  have rounded := roundUp_of_fits fits
  rcases allocate_outcome held.tiled request with ⟨small,failed⟩ | found
  · left
    exact ⟨rounded ▸ small,failed⟩
  · obtain ⟨before,tile,after,rfl,free,large,granted⟩ := found
    obtain ⟨data,tiles',length,enough,tiled',apart',taken'⟩ := grant_tiled held.tiled held.apart free large
    obtain ⟨owned,order,matched⟩ := held.serves
    right
    refine ⟨tile.start,?_,rounded ▸ large,_,tiles',?_,tiled',apart',⟨tile.start,length,false⟩ :: owned,?_,?_⟩
    · rw [freeStarts_append,freeStarts_cons_free free]
      simp
    · rw [granted]
      exact congrArg some (Prod.ext data rfl)
    · rw [taken']
      have same : takenTiles (before ++ tile :: after) = takenTiles before ++ takenTiles after := by
        simp [takenTiles,free]
      rw [same] at order
      exact (order.cons _).trans List.perm_middle.symm
    · refine .cons ⟨rfl,?_⟩ matched
      dsimp only
      omega

theorem free_held {pool : StaticAllocator} (held : Held pool tiles live) (owned : entry ∈ live) :
    ∃ pool' tiles', pool.free entry.1 = some pool' ∧ Held pool' tiles' (live.erase entry) := by
  obtain ⟨others,order,matched⟩ := held.serves
  obtain ⟨tile,rest,order',owns,matched'⟩ := owned_of_live matched owned
  have member : tile ∈ takenTiles tiles := (order'.symm.trans order).subset List.mem_cons_self
  obtain ⟨present,taken⟩ := List.mem_filter.mp member
  have taken : tile.free = false := by simpa using taken
  obtain ⟨before,after,rfl⟩ := List.append_of_mem present
  obtain ⟨freed,ran,tiled'⟩ := free_tiled held.tiled taken
  rw [owns.1]
  refine ⟨freed,_,ran,tiled',coalesce_coalesced _,rest,?_,matched'⟩
  rw [coalesce_takenTiles]
  have split : takenTiles (before ++ tile :: after) = takenTiles before ++ tile :: takenTiles after := by
    simp [takenTiles,taken]
  have without : takenTiles (before ++ {tile with free:=true} :: after) =
      takenTiles before ++ takenTiles after := by simp [takenTiles]
  rw [split] at order
  rw [without]
  exact ((order'.symm.trans order).trans List.perm_middle).cons_inv

theorem reached_held {start size : Nat} (region : Region start size) (reached : Reached start size pool live) :
    ∃ tiles, Held pool tiles live := by
  induction reached with
  | new made => exact ⟨_,new_tiled region made,List.isChain_singleton _,[],by simp [takenTiles],.nil⟩
  | @allocated pool live request ptr pool' _ fits answer ih =>
    obtain ⟨tiles,held⟩ := ih
    rcases allocate_held held fits with ⟨_,failed⟩ | ⟨block,_,_,granted,tiles',ran,held'⟩
    · rw [failed] at answer
      cases answer
    · rw [ran] at answer
      cases answer
      exact ⟨tiles',held'⟩
  | @refused pool live request refusal pool' _ fits answer ih =>
    obtain ⟨tiles,held⟩ := ih
    rcases allocate_held held fits with ⟨_,failed⟩ | ⟨block,_,_,granted,tiles',ran,held'⟩
    · rw [failed] at answer
      cases answer
      exact ⟨tiles,held⟩
    · rw [ran] at answer
      cases answer
  | @freed pool live entry pool' _ owned answer ih =>
    obtain ⟨tiles,held⟩ := ih
    obtain ⟨freed,tiles',ran,held'⟩ := free_held held owned
    rw [ran] at answer
    cases answer
    exact ⟨tiles',held'⟩

def Spans (pool : StaticAllocator) (block byte : Nat) : Prop :=
  block ≤ byte ∧ byte < block+SIZE+(pool.blocks block).size

-- What the free list and the live pointers make of the pool, without tiles.
structure Partitioned (pool : StaticAllocator) (live : List (Nat × Nat)) (free : List Nat) : Prop where
  listed : pool.links.Lists free
  increasing : free.Pairwise (· < ·)
  separate : ∀ left ∈ free, ∀ right ∈ free, left+SIZE+(pool.blocks left).size ≠ right
  distinct : (free ++ live.map (·.1-SIZE)).Nodup
  inside : ∀ block ∈ free ++ live.map (·.1-SIZE), pool.start_ptr ≤ block ∧
    block+SIZE+(pool.blocks block).size ≤ pool.start_ptr+pool.size
  covered : ∀ byte, pool.start_ptr ≤ byte → byte < pool.start_ptr+pool.size →
    ∃ block ∈ free ++ live.map (·.1-SIZE), pool.Spans block byte
  disjoint : ∀ left ∈ free ++ live.map (·.1-SIZE), ∀ right ∈ free ++ live.map (·.1-SIZE),
    ∀ byte, pool.Spans left byte → pool.Spans right byte → left = right
  payload : ∀ entry ∈ live, SIZE ≤ entry.1 ∧ entry.2 ≤ (pool.blocks (entry.1-SIZE)).size
  counted : pool.used = (live.map fun entry => SIZE+(pool.blocks (entry.1-SIZE)).size).sum

theorem owned_starts (matched : List.Forall₂ Owns live owned) :
    live.map (·.1-SIZE) = owned.map (·.start) := by
  induction matched with
  | nil => rfl
  | cons owns _ ih =>
    rw [List.map_cons,List.map_cons,ih,owns.1,Nat.add_sub_cancel]

theorem Held.starts_perm (held : Held pool tiles live) :
    (freeStarts tiles ++ live.map (·.1-SIZE)).Perm (tiles.map (·.start)) := by
  obtain ⟨owned,order,matched⟩ := held.serves
  rw [owned_starts matched,freeStarts,← List.map_append]
  exact ((order.append_left _).trans (List.filter_append_perm _ _)).map _

theorem Held.partitioned {pool : StaticAllocator} (held : Held pool tiles live) :
    Partitioned pool live (freeStarts tiles) := by
  have laid := held.tiled.laid
  have starts := held.starts_perm
  obtain ⟨owned,order,matched⟩ := held.serves
  -- A block of either kind is the start of a tile, and the header gives its length.
  have tile_of : ∀ block ∈ freeStarts tiles ++ live.map (·.1-SIZE), ∃ tile ∈ tiles,
      tile.start = block ∧ tile.length = SIZE+(pool.blocks block).size := by
    intro block member
    obtain ⟨tile,present,rfl⟩ := List.mem_map.mp (starts.subset member)
    exact ⟨tile,present,rfl,(held.tiled.marked tile present).1⟩
  have covers_of : ∀ block ∈ freeStarts tiles ++ live.map (·.1-SIZE), ∀ byte, pool.Spans block byte →
      ∃ tile ∈ tiles, tile.start = block ∧ tile.Covers byte := by
    rintro block member byte ⟨low,high⟩
    obtain ⟨tile,present,rfl,length⟩ := tile_of block member
    exact ⟨tile,present,rfl,low,by omega⟩
  refine ⟨held.tiled.listed,laid.freeStarts_increasing,?_,starts.nodup_iff.mpr laid.starts_nodup,?_,?_,?_,?_,?_⟩
  · intro left member right member' touches
    obtain ⟨before,after,split⟩ := List.append_of_mem member
    obtain ⟨front,tile,back,rfl,free,rfl,_,_⟩ := freeStarts_split split
    obtain ⟨found,present,free',rfl⟩ := mem_of_freeStarts member'
    obtain ⟨length,_,_⟩ := held.tiled.block
    obtain ⟨_,tail,_⟩ := List.isChain_append.mp held.apart
    obtain ⟨middle,_,here,_,onward⟩ := tiling_append.mp laid
    have inside := laid.bounds present
    cases back with
    | nil =>
      have ends : middle+tile.length = pool.start_ptr+pool.size := onward
      omega
    | cons follower back =>
      have begins : follower.start = middle+tile.length := onward.1
      have equal := laid.same_of_start present (show follower ∈ front ++ tile :: follower :: back by simp)
        (by omega)
      subst equal
      exact (List.isChain_cons_cons.mp tail).1 ⟨free,free'⟩
  · intro block member
    obtain ⟨tile,present,rfl,length⟩ := tile_of block member
    have inside := laid.bounds present
    exact ⟨inside.1,by omega⟩
  · intro byte low high
    obtain ⟨tile,present,covers⟩ := laid.covered low high
    have length := (held.tiled.marked tile present).1
    refine ⟨tile.start,starts.symm.subset (List.mem_map_of_mem present),covers.1,?_⟩
    have below := covers.2
    omega
  · intro left member right member' byte spans spans'
    obtain ⟨tile,present,rfl,covers⟩ := covers_of left member byte spans
    obtain ⟨tile',present',rfl,covers'⟩ := covers_of right member' byte spans'
    rw [laid.same_of_covers present present' covers covers']
  · intro entry member
    obtain ⟨tile,rest,order',owns,_⟩ := owned_of_live matched member
    have among : tile ∈ takenTiles tiles := (order'.symm.trans order).subset List.mem_cons_self
    have length := (held.tiled.marked tile (List.mem_filter.mp among).1).1
    obtain ⟨pointer,enough⟩ := owns
    rw [pointer,Nat.add_sub_cancel]
    exact ⟨by omega,by omega⟩
  · have sizes : live.map (fun entry => SIZE+(pool.blocks (entry.1-SIZE)).size) = owned.map (·.length) := by
      have same := congrArg (List.map fun block => SIZE+(pool.blocks block).size) (owned_starts matched)
      rw [List.map_map,List.map_map] at same
      refine Eq.trans same (List.map_congr_left ?_)
      intro tile member
      have among := order.subset member
      exact (held.tiled.marked tile (List.mem_filter.mp among).1).1.symm
    rw [sizes,held.tiled.counted,takenLength]
    exact ((order.map _).sum_eq).symm

-- In every state a client reaches, the pool is partitioned; every request is
-- answered, with a block unless none is large enough; every free ends.
theorem reached_partitioned {start size : Nat} (region : Region start size)
    (reached : Reached start size pool live) :
    ∃ free, Partitioned pool live free ∧
      (∀ request, Fits request →
        (∃ block ∈ free, (request+7)/8*8 ≤ (pool.blocks block).size ∧
          ∃ pool', pool.allocate request = some (.ok (block+SIZE),pool')) ∨
        ((∀ block ∈ free, (pool.blocks block).size < (request+7)/8*8) ∧
          pool.allocate request = some (.error .outOfMemory,pool))) ∧
      ∀ entry ∈ live, ∃ pool', pool.free entry.1 = some pool' := by
  obtain ⟨tiles,held⟩ := reached_held region reached
  refine ⟨freeStarts tiles,held.partitioned,?_,?_⟩
  · intro request fits
    rcases allocate_held held fits with refused | ⟨block,member,large,pool',_,ran,_⟩
    · exact .inr refused
    · exact .inl ⟨block,member,large,pool',ran⟩
  · intro entry member
    obtain ⟨pool',_,ran,_⟩ := free_held held member
    exact ⟨pool',ran⟩

-- Two blocks in an unaligned region of 200 bytes, of which the first is freed.
theorem partitioned_after_free :
    ∃ pool free, Reached 3 200 pool [(72,40)] ∧ Partitioned pool [(72,40)] free := by
  have made : ∃ pool, Reached 3 200 pool [(72,40)] := by
    have fresh := Reached.new (show new (fun _ => ⟨none,0,false⟩) 3 200 = some _ from rfl)
    have first := fresh.allocated (show Fits 10 by decide) rfl
    have second := first.allocated (show Fits 40 by decide) rfl
    exact ⟨_,second.freed (show (32,10) ∈ [(72,40),(32,10)] by decide) rfl⟩
  obtain ⟨pool,reached⟩ := made
  obtain ⟨free,parts,_⟩ := reached_partitioned (by decide) reached
  exact ⟨pool,free,reached,parts⟩

end RemDb.StaticAllocator
