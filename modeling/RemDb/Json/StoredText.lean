import RemDb.Json.Storage
import RemDb.Sql.Encoding
import Mathlib.Data.List.TakeWhile

namespace RemDb
open Lib

namespace JsonMemoryPool
open BlockHeader
inductive Takes (pool : JsonMemoryPool) (heap : JsonHeap) : Nat → Nat → Prop
  | free {block : Nat} (within : ¬ (pool.first_free ≥ pool.blocks.length ∨ pool.first_free = usizeLimit-1))
      (first : pool.blocks[pool.first_free]? = some (some block)) (unused : status heap.memory block = 0) :
      Takes pool heap pool.first_free block
  | fresh {block : Nat} {heap' : JsonHeap} (exhausted : pool.first_free ≥ pool.blocks.length ∨ pool.first_free = usizeLimit-1)
      (room : pool.blocks.length < pool.config.max_blocks)
      (granted : heap.alloc pool.config.block_size = some (some block,heap')) :
      Takes pool heap pool.blocks.length block

structure Handed (pool : JsonMemoryPool) (heap : JsonHeap) (index block : Nat) (pool' : JsonMemoryPool) (heap' : JsonHeap) : Prop where
  takes : Takes pool heap index block
  placed : pool'.blocks[index]? = some (some block)
  config : pool'.config = pool.config
  kept : ∀ number other : Nat, pool.blocks[number]? = some (some other) → pool'.blocks[number]? = some (some other)
  lower : ∀ number : Nat, number < index → pool'.blocks[number]? = pool.blocks[number]?
  frame : ∀ place : Nat, place < block ∨ block+SIZE ≤ place → heap'.memory place = heap.memory place
  used : status heap'.memory block ≠ 0

variable {pool pool' : JsonMemoryPool} {heap heap' : JsonHeap} {size index offset block : Nat}

theorem alloc_memory (granted : heap.alloc size = some (some block,heap')) : heap'.memory = heap.memory := by
  rw [JsonHeap.alloc] at granted
  cases held : heap.allocator with
  | none =>
    rw [held] at granted
    cases granted
  | some allocator =>
    rw [held] at granted
    obtain ⟨answer,_,is⟩ := Option.map_eq_some_iff.mp granted
    rw [← (Prod.mk.inj is).2]

theorem occupied_frame (memory : ByteMemory) {place : Nat} (outside : place < block ∨ block+SIZE ≤ place) :
    occupied memory block place = memory place := by
  rw [SIZE] at outside
  rw [occupied,ByteMemory.store_outside,ByteMemory.store_outside]
  · rw [List.length_singleton]
    omega
  · rw [toLE_length]
    omega

theorem occupied_status (memory : ByteMemory) (block : Nat) : status (occupied memory block) block = 1 := by
  rw [status,occupied,ByteMemory.store_outside (.inl (by omega))]
  have inside : 0 < [(1 : UInt8)].length := by decide
  exact ByteMemory.store_inside memory block inside

theorem fresh_status (memory : ByteMemory) (block block_size : Nat) : status (BlockHeader.fresh memory block block_size) block = 1 := by
  rw [status,BlockHeader.fresh,ByteMemory.store_outside (.inl (by omega)),ByteMemory.store_outside (.inl (by omega))]
  exact occupied_status memory block

theorem fresh_frame (memory : ByteMemory) (block_size : Nat) {place : Nat} (outside : place < block ∨ block+SIZE ≤ place) :
    BlockHeader.fresh memory block block_size place = memory place := by
  rw [BlockHeader.fresh,ByteMemory.store_outside,ByteMemory.store_outside,occupied_frame memory outside]
  · rw [SIZE] at outside
    rw [toLE_length]
    omega
  · rw [SIZE] at outside
    rw [toLE_length]
    omega

theorem takes_of_allocate (done : pool.allocate heap size = some (some (index,offset),pool',heap')) :
    offset = SIZE ∧ size+SIZE ≤ pool.config.block_size ∧ ∃ block, Takes pool heap index block := by
  rw [allocate] at done
  split at done
  · cases done
  rename_i fits
  refine (fun found => ⟨found.1,Nat.not_lt.mp fits,found.2⟩ : (offset = SIZE ∧ ∃ block, Takes pool heap index block) → _) ?_
  split at done
  · rename_i exhausted
    split at done
    · rename_i room
      obtain ⟨⟨answer,heap_granted⟩,granted,is⟩ := Option.map_eq_some_iff.mp done
      cases answer with
      | none => cases is
      | some block =>
        cases is
        exact ⟨rfl,block,.fresh exhausted room granted⟩
    · cases done
  · rename_i within
    cases first : pool.blocks[pool.first_free]? with
    | none =>
      rw [first] at done
      cases done
    | some content =>
      rw [first] at done
      cases content with
      | none => cases done
      | some block =>
        dsimp only at done
        split at done
        · rename_i unused
          cases done
          exact ⟨rfl,block,.free within first unused⟩
        · cases done

theorem allocate_of_takes (size : Nat) (takes : Takes pool heap index block) (fits : size+SIZE ≤ pool.config.block_size) :
    ∃ pool' heap', pool.allocate heap size = some (some (index,SIZE),pool',heap') ∧ Handed pool heap index block pool' heap' := by
  rw [allocate,if_neg (Nat.not_lt.mpr fits)]
  cases takes with
  | free within first unused =>
    rw [if_neg within,first]
    exact ⟨_,_,if_pos unused,.free within first unused,first,rfl,fun _ _ present => present,fun _ _ => rfl,
      fun _ outside => occupied_frame _ outside,by rw [occupied_status]; decide⟩
  | fresh exhausted room granted =>
    rw [if_pos exhausted,if_pos room,granted]
    refine ⟨_,_,rfl,.fresh exhausted room granted,List.getElem?_concat_length,rfl,?_,?_,?_,by rw [fresh_status]; decide⟩
    · intro number other present
      exact (List.getElem?_append_left (List.getElem?_eq_some_iff.mp present).1).trans present
    · intro number below
      exact List.getElem?_append_left below
    · intro place outside
      rw [← alloc_memory granted]
      exact fresh_frame _ _ outside

theorem handed_of_allocate (done : pool.allocate heap size = some (some (index,offset),pool',heap')) :
    offset = SIZE ∧ size+SIZE ≤ pool.config.block_size ∧ ∃ block, Handed pool heap index block pool' heap' := by
  obtain ⟨is,fits,block,takes⟩ := takes_of_allocate done
  obtain ⟨_,_,again,handed⟩ := allocate_of_takes _ takes fits
  cases done.symm.trans again
  exact ⟨is,fits,block,handed⟩

-- Blocks do not overlap, and no block overlaps one that is still to come.
structure Sound (pool : JsonMemoryPool) (heap : JsonHeap) : Prop where
  apart : ∀ index other block next : Nat, pool.blocks[index]? = some (some block) → pool.blocks[other]? = some (some next) →
    index ≠ other → block+pool.config.block_size ≤ next ∨ next+pool.config.block_size ≤ block
  coming : ∀ block heap', heap.alloc pool.config.block_size = some (some block,heap') →
    ∀ other next : Nat, pool.blocks[other]? = some (some next) →
      block+pool.config.block_size ≤ next ∨ next+pool.config.block_size ≤ block

end JsonMemoryPool

namespace JsonDocument
open BlockHeader JsonMemoryPool
variable {pool pool' : JsonMemoryPool} {heap heap' : JsonHeap} {index block : Nat} {text : String}

def DefaultPool (heap : JsonHeap) (pool : JsonMemoryPool) : Prop :=
  ∃ pools, heap.manager = some pools ∧ pools[0]? = some pool

def Created (heap : JsonHeap) (doc : JsonDocument) : Prop :=
  match doc.storage with
  | .external pool_id offset length => pool_id = 0 ∧ ∃ pool block, DefaultPool heap pool ∧
      pool.blocks[offset]? = some (some block) ∧ status heap.memory block ≠ 0 ∧ length+SIZE ≤ pool.config.block_size
  | _ => True

def CopyInside (heap : JsonHeap) (data : Bytes) : Prop :=
  ∀ pool index offset pool' heap' data_ptr, DefaultPool heap pool →
    pool.allocate heap data.length = some (some (index,offset),pool',heap') → pool'.getBlockData index offset = some data_ptr →
      ∃ block, pool'.blocks[index]? = some (some block) ∧ block ≤ data_ptr ∧ data_ptr+data.length ≤ block+pool'.config.block_size

-- The document has the text, and the earlier ones keep theirs.
structure Stored (heap : JsonHeap) (text : String) (doc : JsonDocument) (heap' : JsonHeap) : Prop where
  own : toJson heap' doc = .ok text
  others : ∀ other, Created heap other → toJson heap' other = toJson heap other

def StoredFaithfully (heap : JsonHeap) (text : String) : Prop :=
  ∀ doc heap', fromJson heap text = some (.ok doc,heap') →
    Stored heap text doc heap' ∧ (256 < (utf8 text).length → CopyInside heap (utf8 text))

-- What stands in front of the text is read with it, and as many bytes at its end
-- are not. A block number beyond 32 bits is read as another one.
def ReadsBack (pool : JsonMemoryPool) (heap : JsonHeap) (text : String) (index block : Nat) : Prop :=
  let data := utf8 text
  if index < 2^32 then fromUtf8Lossy (heap.memory.load (block+SIZE) SIZE ++ data.take (data.length-SIZE)) = text
  else ∃ other, pool.blocks[index % 2^32]? = some (some other) ∧ fromUtf8Lossy (heap.memory.load (other+SIZE) data.length) = text

structure LuckyBlock (pool : JsonMemoryPool) (heap : JsonHeap) (text : String) (index block : Nat) : Prop where
  room : (utf8 text).length+2*SIZE ≤ pool.config.block_size
  reads : ReadsBack pool heap text index block

theorem text_filled (filled : Json.trim text.toList ≠ []) : (utf8 text).length ≠ 0 := by
  intro empty
  apply filled
  have none : text = "" := by
    rw [← fromUtf8Lossy_utf8 text,List.eq_nil_of_length_eq_zero empty]
    rfl
  rw [none]
  rfl

theorem fromJson_inline (heap : JsonHeap) (filled : Json.trim text.toList ≠ []) (short : (utf8 text).length ≤ 256) :
    fromJson heap text = some (.ok ⟨.inline (padTo 256 (utf8 text)),(utf8 text).length⟩,heap) := by
  have small : ¬ (utf8 text).length > maxJsonSize := by
    rw [maxJsonSize]
    omega
  rw [fromJson,if_neg filled,if_neg small,fromBinary,if_neg (text_filled filled),if_neg small,if_pos short]

def copied (heap' : JsonHeap) (pools : List JsonMemoryPool) (pool' : JsonMemoryPool) (block : Nat) (data : Bytes) : JsonHeap :=
  {heap' with manager:=some (pools.set 0 pool'),memory:=heap'.memory.store (block+(SIZE+SIZE)) data}

theorem getBlockData_placed (placed : pool.blocks[index]? = some (some block)) (offset : Nat) :
    pool.getBlockData index offset = some (block+(SIZE+offset)) := by
  rw [getBlockData,placed]

theorem fromJson_external (filled : Json.trim text.toList ≠ []) (long : 256 < (utf8 text).length)
    (short : (utf8 text).length ≤ maxJsonSize) {pools : List JsonMemoryPool} (managed : heap.manager = some pools)
    (default : pools[0]? = some pool) :
    fromJson heap text = (pool.allocate heap (utf8 text).length).map fun (place,pool',heap') =>
      match place with
      | some (block_idx,offset) =>
        match pool'.getBlockData block_idx offset with
        | some data_ptr => (.ok ⟨.external 0 (block_idx % 2^32) ((utf8 text).length % 2^32),(utf8 text).length⟩,
            {heap' with manager:=some (pools.set 0 pool'),memory:=heap'.memory.store data_ptr (utf8 text)})
        | none => (.error "Failed to get block data",{heap' with manager:=some (pools.set 0 pool')})
      | none => (.error "Failed to allocate JSON memory",{heap' with manager:=some (pools.set 0 pool')}) := by
  rw [fromJson,if_neg filled,if_neg (Nat.not_lt.mpr short),fromBinary,if_neg (text_filled filled),
    if_neg (Nat.not_lt.mpr short),if_neg (Nat.not_le.mpr long)]
  simp only [managed,default]
  try rfl

variable {pools : List JsonMemoryPool}

theorem external_of_allocate (filled : Json.trim text.toList ≠ []) (long : 256 < (utf8 text).length)
    (short : (utf8 text).length ≤ maxJsonSize) (managed : heap.manager = some pools) (default : pools[0]? = some pool)
    (done : pool.allocate heap (utf8 text).length = some (some (index,SIZE),pool',heap'))
    (placed : pool'.blocks[index]? = some (some block)) :
    fromJson heap text = some (.ok ⟨.external 0 (index % 2^32) (utf8 text).length,(utf8 text).length⟩,
      copied heap' pools pool' block (utf8 text)) := by
  rw [maxJsonSize] at short
  have length : (utf8 text).length % 2^32 = (utf8 text).length := Nat.mod_eq_of_lt (by omega)
  rw [fromJson_external filled long short managed default,done,Option.map_some]
  dsimp only
  rw [getBlockData_placed placed,length]
  rfl

theorem taken_of_fromJson (filled : Json.trim text.toList ≠ []) (long : 256 < (utf8 text).length)
    (short : (utf8 text).length ≤ maxJsonSize) {doc : JsonDocument} (done : fromJson heap text = some (.ok doc,heap')) :
    ∃ pools pool index block, heap.manager = some pools ∧ pools[0]? = some pool ∧
      (utf8 text).length+SIZE ≤ pool.config.block_size ∧ Takes pool heap index block := by
  cases managed : heap.manager with
  | none =>
    rw [fromJson,if_neg filled,if_neg (Nat.not_lt.mpr short),fromBinary,if_neg (text_filled filled),
      if_neg (Nat.not_lt.mpr short),if_neg (Nat.not_le.mpr long)] at done
    simp only [managed] at done
    cases Prod.mk.inj (Option.some.inj done) with
    | intro failed _ => cases failed
  | some pools =>
    cases default : pools[0]? with
    | none =>
      rw [fromJson,if_neg filled,if_neg (Nat.not_lt.mpr short),fromBinary,if_neg (text_filled filled),
        if_neg (Nat.not_lt.mpr short),if_neg (Nat.not_le.mpr long)] at done
      simp only [managed,default] at done
      cases Prod.mk.inj (Option.some.inj done) with
      | intro failed _ => cases failed
    | some pool =>
      rw [fromJson_external filled long short managed default] at done
      obtain ⟨⟨place,pool',heap_taken⟩,allocated,is⟩ := Option.map_eq_some_iff.mp done
      cases place with
      | none => cases (Prod.mk.inj is).1
      | some place =>
        obtain ⟨_,fits,block,handed⟩ := handed_of_allocate allocated
        exact ⟨pools,pool,place.1,block,rfl,default,fits,handed.takes⟩

theorem getBlockData_some {offset pointer : Nat} : pool.getBlockData index offset = some pointer ↔
    ∃ block, pool.blocks[index]? = some (some block) ∧ block+(SIZE+offset) = pointer := by
  constructor
  · intro found
    rw [getBlockData] at found
    split at found
    · rename_i block placed
      exact ⟨block,placed,Option.some.inj found⟩
    · cases found
  · rintro ⟨block,placed,rfl⟩
    exact getBlockData_placed placed offset

theorem toJson_copied (default : pools[0]? = some pool) (block : Nat) (data : Bytes) (number length size : Nat) :
    toJson (copied heap' pools pool' block data) ⟨.external 0 number length,size⟩ =
      match pool'.getBlockData number 0 with
      | some pointer => .ok (fromUtf8Lossy ((copied heap' pools pool' block data).memory.load pointer length))
      | none => .error "Failed to get block data" := by
  have first : (pools.set 0 pool')[0]? = some pool' := List.getElem?_set_self (List.getElem?_eq_some_iff.mp default).1
  simp only [toJson,copied,first]
  try rfl

theorem toJson_external (managed : heap.manager = some pools) (default : pools[0]? = some pool)
    (placed : pool.blocks[index]? = some (some block)) (length size : Nat) :
    toJson heap ⟨.external 0 index length,size⟩ = .ok (fromUtf8Lossy (heap.memory.load (block+SIZE) length)) := by
  simp only [toJson,managed,default,getBlockData_placed placed,Nat.add_zero]

theorem copied_low (handed : JsonMemoryPool.Handed pool heap index block pool' heap') (pools : List JsonMemoryPool) (data : Bytes)
    (long : SIZE ≤ data.length) : (copied heap' pools pool' block data).memory.load (block+SIZE) data.length =
      heap.memory.load (block+SIZE) SIZE ++ data.take (data.length-SIZE) := by
  have split := ByteMemory.load_append (copied heap' pools pool' block data).memory (block+SIZE) SIZE (data.length-SIZE)
  rw [Nat.add_sub_cancel' long] at split
  rw [split,copied]
  dsimp only
  congr 1
  · rw [ByteMemory.load_store_apart (.inl (by omega))]
    exact ByteMemory.load_congr fun place low _ => handed.frame place (.inr low)
  · rw [Nat.add_assoc]
    exact ByteMemory.load_store (Nat.sub_le _ _)

theorem copied_other (handed : JsonMemoryPool.Handed pool heap index block pool' heap') (pools : List JsonMemoryPool) (sound : Sound pool heap)
    (data : Bytes) (room : data.length+2*SIZE ≤ pool.config.block_size) {next length number : Nat}
    (there : pool.blocks[number]? = some (some next)) (other : number ≠ index ∨ next ≠ block)
    (inside : length+SIZE ≤ pool.config.block_size) :
    (copied heap' pools pool' block data).memory.load (next+SIZE) length = heap.memory.load (next+SIZE) length := by
  have apart : block+pool.config.block_size ≤ next ∨ next+pool.config.block_size ≤ block := by
    cases handed.takes with
    | free within first unused =>
      refine sound.apart _ number _ _ first there fun same => ?_
      rcases other with different | different
      · exact different same.symm
      · rw [← same,first] at there
        exact different (Option.some.inj (Option.some.inj there)).symm
    | fresh exhausted room granted => exact sound.coming _ _ granted _ _ there
  have positive : 0 < SIZE := by decide
  rw [copied]
  dsimp only
  rw [ByteMemory.load_store_apart (by omega)]
  exact ByteMemory.load_congr fun place low high => handed.frame place (by omega)

theorem own_iff (handed : JsonMemoryPool.Handed pool heap index block pool' heap') (default : pools[0]? = some pool) (sound : Sound pool heap)
    (long : SIZE ≤ (utf8 text).length) (room : (utf8 text).length+2*SIZE ≤ pool.config.block_size) (size : Nat) :
    toJson (copied heap' pools pool' block (utf8 text)) ⟨.external 0 (index % 2^32) (utf8 text).length,size⟩ = .ok text ↔
      ReadsBack pool heap text index block := by
  rw [toJson_copied default,ReadsBack]
  split
  · rename_i pointer found
    obtain ⟨next,placed,rfl⟩ := getBlockData_some.mp found
    split
    · rename_i small
      rw [Nat.mod_eq_of_lt small,handed.placed] at placed
      cases placed
      rw [Nat.add_zero,copied_low handed pools _ long,Except.ok.injEq]
    · rename_i large
      have below : index % 2^32 < index := Nat.lt_of_lt_of_le (Nat.mod_lt _ (Nat.two_pow_pos 32)) (Nat.not_lt.mp large)
      rw [handed.lower _ below] at placed
      rw [Nat.add_zero,copied_other handed pools sound _ room placed (.inl (Nat.ne_of_lt below)) (by omega),Except.ok.injEq]
      constructor
      · exact fun own => ⟨next,placed,own⟩
      · rintro ⟨other,placed',own⟩
        cases placed.symm.trans placed'
        exact own
  · rename_i missing
    refine ⟨nofun,fun reads => ?_⟩
    split at reads
    · rename_i small
      rw [Nat.mod_eq_of_lt small,getBlockData_placed handed.placed] at missing
      cases missing
    · rename_i large
      obtain ⟨other,placed,_⟩ := reads
      have below : index % 2^32 < index := Nat.lt_of_lt_of_le (Nat.mod_lt _ (Nat.two_pow_pos 32)) (Nat.not_lt.mp large)
      rw [← handed.lower _ below] at placed
      rw [getBlockData_placed placed] at missing
      cases missing

theorem others_kept (handed : JsonMemoryPool.Handed pool heap index block pool' heap') (managed : heap.manager = some pools)
    (default : pools[0]? = some pool) (sound : Sound pool heap) (data : Bytes)
    (room : data.length+2*SIZE ≤ pool.config.block_size) {other : JsonDocument} (created : Created heap other) :
    toJson (copied heap' pools pool' block data) other = toJson heap other := by
  obtain ⟨storage,size⟩ := other
  cases storage with
  | inline _ => rfl
  | null => rfl
  | external pool_id offset length =>
    obtain ⟨rfl,pool₀,next,⟨pools₀,managed₀,default₀⟩,placed,used,inside⟩ := created
    cases managed.symm.trans managed₀
    cases default.symm.trans default₀
    have different : offset ≠ index ∨ next ≠ block := by
      cases handed.takes with
      | free within first unused =>
        refine .inr fun same => used ?_
        rw [same]
        exact unused
      | fresh => exact .inl (Nat.ne_of_lt (List.getElem?_eq_some_iff.mp placed).1)
    rw [toJson_external managed default placed,toJson_copied default,getBlockData_placed (handed.kept _ _ placed)]
    dsimp only
    rw [Nat.add_zero,copied_other handed pools sound data room placed different inside]

theorem stored_faithfully_iff (sound : ∀ pool, DefaultPool heap pool → Sound pool heap)
    (filled : Json.trim text.toList ≠ []) (short : (utf8 text).length ≤ maxJsonSize) :
    StoredFaithfully heap text ↔ (utf8 text).length ≤ 256 ∨
      ∀ pool index block, DefaultPool heap pool → (utf8 text).length+SIZE ≤ pool.config.block_size →
        Takes pool heap index block → LuckyBlock pool heap text index block := by
  by_cases inline : (utf8 text).length ≤ 256
  · refine ⟨fun _ => .inl inline,fun _ doc heap' done => ?_⟩
    rw [fromJson_inline heap filled inline] at done
    cases done
    exact ⟨⟨toJson_inline heap inline,fun _ _ => rfl⟩,fun long => absurd inline (Nat.not_le.mpr long)⟩
  have long : 256 < (utf8 text).length := Nat.lt_of_not_le inline
  have behind : SIZE ≤ (utf8 text).length := by
    rw [SIZE]
    omega
  constructor
  · intro faithful
    refine .inr fun pool index block default fits takes => ?_
    obtain ⟨pools,managed,first⟩ := default
    obtain ⟨pool',heap',allocated,handed⟩ := allocate_of_takes _ takes fits
    have done := external_of_allocate filled long short managed first allocated handed.placed
    obtain ⟨stored,inside⟩ := faithful _ _ done
    obtain ⟨block',placed,_,room⟩ := inside long pool index SIZE pool' heap' _ ⟨pools,managed,first⟩ allocated
      (getBlockData_placed handed.placed SIZE)
    rw [handed.placed] at placed
    cases placed
    rw [handed.config] at room
    have room : (utf8 text).length+2*SIZE ≤ pool.config.block_size := by omega
    exact ⟨room,(own_iff handed first (sound pool ⟨pools,managed,first⟩) behind room _).mp stored.own⟩
  · intro condition doc heap_after done
    have lucky := condition.resolve_left inline
    obtain ⟨pools,pool,index,block,managed,first,fits,takes⟩ := taken_of_fromJson filled long short done
    obtain ⟨room,reads⟩ := lucky pool index block ⟨pools,managed,first⟩ fits takes
    obtain ⟨pool',heap',allocated,handed⟩ := allocate_of_takes _ takes fits
    cases done.symm.trans (external_of_allocate filled long short managed first allocated handed.placed)
    have sound := sound pool ⟨pools,managed,first⟩
    refine ⟨⟨(own_iff handed first sound behind room _).mpr reads,
      fun other created => others_kept handed managed first sound _ room created⟩,fun _ => ?_⟩
    rintro pool₀ index₀ offset₀ pool₁ heap₁ pointer ⟨pools₀,managed₀,first₀⟩ allocated₀ found
    cases managed.symm.trans managed₀
    cases first.symm.trans first₀
    cases allocated.symm.trans allocated₀
    rw [getBlockData_placed handed.placed] at found
    cases found
    refine ⟨block,handed.placed,Nat.le_add_right _ _,?_⟩
    rw [handed.config]
    omega

section OneBlock

def oneBlock : JsonHeap := ⟨fun _ => 0,none,some [⟨⟨4096,1⟩,0,[some 0]⟩]⟩

def digits : String := String.ofList (List.replicate 300 '1')

theorem utf8_digits : utf8 digits = List.replicate 300 49 := utf8_replicate (by decide) 300

theorem digits_letters : digits.toList = '1' :: List.replicate 299 '1' := String.toList_ofList

theorem digits_filled : Json.trim digits.toList ≠ [] := by
  have dark : ¬ Json.unicodeWhitespace '1' = true := by decide
  intro empty
  rw [digits_letters,Json.trim,List.dropWhile_cons_of_neg dark,List.reverse_eq_nil_iff,List.dropWhile_eq_nil_iff] at empty
  exact dark (empty '1' (List.mem_reverse.mpr (.head _)))

theorem digits_length : (utf8 digits).length = 300 := by
  rw [utf8_digits,List.length_replicate]

theorem oneBlock_sound (pool : JsonMemoryPool) (default : DefaultPool oneBlock pool) : Sound pool oneBlock := by
  obtain ⟨pools,managed,first⟩ := default
  cases managed
  cases first
  constructor
  · intro index other block next here there different
    have zero : index < 1 ∧ other < 1 := ⟨(List.getElem?_eq_some_iff.mp here).1,(List.getElem?_eq_some_iff.mp there).1⟩
    omega
  · intro block heap' granted
    cases granted

theorem stored_faithfully_digits : (∀ pool, DefaultPool oneBlock pool → Sound pool oneBlock) ∧ Json.trim digits.toList ≠ [] ∧
    (utf8 digits).length ≤ maxJsonSize ∧ (StoredFaithfully oneBlock digits ↔ (utf8 digits).length ≤ 256 ∨
      ∀ pool index block, DefaultPool oneBlock pool → (utf8 digits).length+SIZE ≤ pool.config.block_size →
        Takes pool oneBlock index block → LuckyBlock pool oneBlock digits index block) :=
  have short : (utf8 digits).length ≤ maxJsonSize := by rw [digits_length]; decide
  ⟨oneBlock_sound,digits_filled,short,stored_faithfully_iff oneBlock_sound digits_filled short⟩

theorem lossy_zero (fuel : Nat) (rest : Bytes) : (Utf8.lossy (fuel+1) (0 :: rest)).head? = some (Char.ofNat 0) := rfl

theorem lossy_begins {first : UInt8} {rest : Bytes} (read : fromUtf8Lossy (first :: rest) = text) :
    (utf8 text).head? = some first ∨ text.toList.head? = (Utf8.lossy (rest.length+1) (first :: rest)).head? := by
  rw [fromUtf8Lossy] at read
  split at read
  · rename_i valid found
    rw [String.fromUTF8?] at found
    split at found
    · cases found
      rw [← read]
      exact .inl rfl
    · cases found
  · rw [← read,String.toList_ofList]
    exact .inr rfl

-- 300 digits are read as zeros and 268 digits.
theorem digits_misread : ¬ StoredFaithfully oneBlock digits := by
  intro faithful
  have takes : Takes ⟨⟨4096,1⟩,0,[some 0]⟩ oneBlock 0 0 := .free (by decide) rfl rfl
  have long : 256 < (utf8 digits).length := by rw [digits_length]; decide
  have short : (utf8 digits).length ≤ maxJsonSize := by rw [digits_length]; decide
  obtain ⟨pool',heap',allocated,handed⟩ := allocate_of_takes (utf8 digits).length takes (by rw [digits_length]; decide)
  have own := (faithful _ _ (external_of_allocate digits_filled long short rfl rfl allocated handed.placed)).1.own
  rw [own_iff handed rfl (oneBlock_sound _ ⟨_,rfl,rfl⟩) (by rw [digits_length]; decide) (by rw [digits_length]; decide),
    ReadsBack,if_pos (by decide)] at own
  have zeros : oneBlock.memory.load (0+SIZE) SIZE = 0 :: List.replicate 31 0 := by decide
  rw [zeros,List.cons_append] at own
  rcases lossy_begins own with head | head
  · rw [utf8_digits,List.head?_replicate,if_neg (by decide)] at head
    exact absurd (Option.some.inj head) (by decide)
  · rw [digits_letters,List.head?_cons,lossy_zero] at head
    exact absurd (Option.some.inj head) (by decide)

end OneBlock

end JsonDocument
end RemDb
