import RemDb.Lib.Linked
import RemDb.Lib.Bytes
import RemDb.Lib.ByteMemory

namespace RemDb.Lib

def linkSize : Nat := 8

def readLink (memory : ByteMemory) (address : Nat) : Option Nat :=
  let value := ofLE (ByteMemory.load memory address linkSize)
  if value = 0 then none else some value

def writeLink (memory : ByteMemory) (address : Nat) (target : Option Nat) : ByteMemory :=
  ByteMemory.store memory address (toLE linkSize (target.getD 0))

def Storable (target : Option Nat) : Prop := ∀ address, target = some address → 0 < address ∧ address < 256^linkSize

section Links
variable {memory : ByteMemory} {address other : Nat}

theorem readLink_written {target : Option Nat} (storable : Storable target) :
    readLink (writeLink memory address target) address = target := by
  have value : target.getD 0 < 256^linkSize := by
    cases target with
    | none => exact Nat.pow_pos (by decide)
    | some place => exact (storable place rfl).2
  have long : (toLE linkSize (target.getD 0)).length = linkSize := toLE_length _ _
  have bytes : ByteMemory.load (writeLink memory address target) address linkSize = toLE linkSize (target.getD 0) := by
    rw [writeLink,ByteMemory.load_store (Nat.le_of_eq long.symm)]
    exact List.take_of_length_le (Nat.le_of_eq long)
  rw [readLink,bytes,le_roundtrip value]
  cases target with
  | none => rfl
  | some place => exact if_neg (Nat.ne_of_gt (storable place rfl).1)

theorem readLink_apart {bytes : Bytes} (apart : address+linkSize ≤ other ∨ other+bytes.length ≤ address) :
    readLink (ByteMemory.store memory other bytes) address = readLink memory address := by
  rw [readLink,readLink,ByteMemory.load_store_apart apart]

theorem writeLink_apart {target : Option Nat} (apart : address+linkSize ≤ other ∨ other+linkSize ≤ address) :
    readLink (writeLink memory other target) address = readLink memory address := by
  apply readLink_apart
  rw [toLE_length]
  exact apart

end Links

-- The free blocks, linked from `free` on, and the others are all the blocks.
structure Parted (blocks : List Nat) (next : Nat → Option Nat) (free : Option Nat) (others : List Nat) : Prop where
  listed : ∃ list, Segment next free list none ∧ (list ++ others).Perm blocks

section Parts
variable {blocks others : List Nat} {next after : Nat → Option Nat} {free : Option Nat} {block : Nat}

theorem Parted.others_mem (parted : Parted blocks next free others) (member : block ∈ others) : block ∈ blocks := by
  obtain ⟨list,_,all⟩ := parted.listed
  exact all.subset (List.mem_append_right _ member)

theorem Parted.free_mem (parted : Parted blocks next (some block) others) : block ∈ blocks := by
  obtain ⟨list,path,all⟩ := parted.listed
  cases list with
  | nil => cases path
  | cons first rest =>
    obtain rfl := Option.some.inj path.1
    exact all.subset List.mem_cons_self

theorem Parted.free_not_mem (parted : Parted blocks next (some block) others) (distinct : blocks.Nodup) :
    block ∉ others := by
  obtain ⟨list,path,all⟩ := parted.listed
  cases list with
  | nil => cases path
  | cons first rest =>
    obtain rfl := Option.some.inj path.1
    intro other
    exact (List.nodup_append.mp (all.nodup_iff.mpr distinct)).2.2 _ List.mem_cons_self _ other rfl

theorem Parted.others_length (parted : Parted blocks next free others) : others.length ≤ blocks.length := by
  obtain ⟨list,_,all⟩ := parted.listed
  rw [← all.length_eq,List.length_append]
  omega

theorem Parted.take (parted : Parted blocks next (some block) others) :
    Parted blocks next (next block) (block :: others) := by
  obtain ⟨list,path,all⟩ := parted.listed
  cases list with
  | nil => cases path
  | cons first rest =>
    obtain ⟨here,onward⟩ := path
    obtain rfl := Option.some.inj here
    exact ⟨rest,onward,List.perm_middle.trans all⟩

theorem Parted.give (parted : Parted blocks next free others) (distinct : blocks.Nodup) (member : block ∈ others)
    (linked : after block = free) (kept : ∀ each ∈ blocks, each ≠ block → after each = next each) :
    Parted blocks after (some block) (others.erase block) := by
  obtain ⟨list,path,all⟩ := parted.listed
  have apart := List.nodup_append.mp (all.nodup_iff.mpr distinct)
  have onward : Segment after free list none := by
    apply path.congr
    intro each among
    refine kept each (all.subset (List.mem_append_left _ among)) ?_
    rintro rfl
    exact apart.2.2 each among each member rfl
  refine ⟨block :: list,⟨rfl,by rw [linked]; exact onward⟩,?_⟩
  have moved : (block :: list ++ others.erase block).Perm (list ++ block :: others.erase block) := List.perm_middle.symm
  exact (moved.trans (List.Perm.append_left list (List.perm_cons_erase member).symm)).trans all

theorem Parted.congr (parted : Parted blocks next free others)
    (kept : ∀ each ∈ blocks, each ∉ others → after each = next each) (distinct : blocks.Nodup) :
    Parted blocks after free others := by
  obtain ⟨list,path,all⟩ := parted.listed
  have apart := List.nodup_append.mp (all.nodup_iff.mpr distinct)
  refine ⟨list,path.congr ?_,all⟩
  intro each among
  exact kept each (all.subset (List.mem_append_left _ among)) fun other => apart.2.2 each among each other rfl

end Parts

-- Blocks of one size in a row, each linked to the one before it.
def carve (size : Nat) : Nat → Nat → Option Nat → ByteMemory → Option Nat × ByteMemory
  | 0, _, free, memory => (free,memory)
  | count+1, current, free, memory => carve size count (current+size) (some current) (writeLink memory current free)

def blocksFrom (start size count : Nat) : List Nat := (List.range count).map fun number => start+size*number

theorem blocksFrom_succ (start size count : Nat) :
    blocksFrom start size (count+1) = start :: blocksFrom (start+size) size count := by
  rw [blocksFrom,List.range_succ_eq_map,List.map_cons,List.map_map,Nat.mul_zero,Nat.add_zero,blocksFrom]
  refine congrArg (start :: ·) (List.map_congr_left fun number _ => ?_)
  change start+size*(number+1) = start+size+size*number
  rw [Nat.mul_succ]
  omega

theorem blocksFrom_mem {start size count block : Nat} :
    block ∈ blocksFrom start size count ↔ ∃ number, number < count ∧ start+size*number = block := by
  simp [blocksFrom]

-- Carving leaves the blocks in one list behind those that were there before.
theorem carve_segment {size count current : Nat} {free : Option Nat} {memory : ByteMemory} {list : List Nat}
    (path : Segment (readLink memory) free list none) (before : ∀ block ∈ list, block+linkSize ≤ current)
    (roomy : linkSize ≤ size ∨ count ≤ 1) (storable : Storable free)
    (placed : ∀ block ∈ blocksFrom current size count, Storable (some block)) :
    Segment (readLink (carve size count current free memory).2) (carve size count current free memory).1
      ((blocksFrom current size count).reverse ++ list) none := by
  induction count generalizing current free memory list with
  | zero => exact path
  | succ count ih =>
    rw [blocksFrom_succ] at placed
    rw [blocksFrom_succ,List.reverse_cons,List.append_assoc,carve]
    have written : readLink (writeLink memory current free) current = free := readLink_written storable
    have kept : Segment (readLink (writeLink memory current free)) free list none := by
      apply path.congr
      intro each among
      exact writeLink_apart (.inl (before each among))
    have linked : Segment (readLink (writeLink memory current free)) (some current) (current :: list) none :=
      ⟨rfl,by rw [written]; exact kept⟩
    cases count with
    | zero => exact linked
    | succ count =>
      have wide : linkSize ≤ size := roomy.resolve_right (by omega)
      refine ih linked ?_ (.inl wide) (placed current List.mem_cons_self) fun block among =>
        placed block (List.mem_cons_of_mem _ among)
      intro block among
      rcases List.mem_cons.mp among with rfl | among
      · exact Nat.add_le_add_left wide _
      · exact Nat.le_trans (before block among) (Nat.le_add_right _ _)

theorem carve_apart {size count current address : Nat} {free : Option Nat} {memory : ByteMemory}
    (roomy : 0 < count → linkSize ≤ size) (apart : address+linkSize ≤ current ∨ current+size*count ≤ address) :
    readLink (carve size count current free memory).2 address = readLink memory address := by
  induction count generalizing current free memory with
  | zero => rfl
  | succ count ih =>
    have wide := roomy (Nat.succ_pos count)
    rw [Nat.mul_succ] at apart
    rw [carve,ih (fun _ => wide) (by omega)]
    exact writeLink_apart (by omega)

-- Two blocks, the first of which ends before the second begins, also where they
-- are linked.
def Apart (size left right : Nat) : Prop := left+linkSize ≤ right ∧ left+size ≤ right

theorem blocksFrom_apart {start size count : Nat} (roomy : linkSize ≤ size ∨ count ≤ 1) :
    (blocksFrom start size count).Pairwise (Apart size) := by
  rw [blocksFrom,List.pairwise_map]
  refine List.pairwise_lt_range.imp_of_mem ?_
  intro left right _ late before
  have inside : right < count := List.mem_range.mp late
  have wide : linkSize ≤ size := roomy.resolve_right (by omega)
  have stepped : size*(left+1) ≤ size*right := Nat.mul_le_mul_left size before
  rw [Nat.mul_succ] at stepped
  exact ⟨by omega,by omega⟩

theorem nodup_of_apart {size : Nat} {blocks : List Nat} (apart : blocks.Pairwise (Apart size)) : blocks.Nodup := by
  refine apart.imp ?_
  rintro left _ ⟨before,_⟩ rfl
  exact absurd before (by simp [linkSize])

-- What a size is rounded up to, over all numbers.
def alignUp (size alignment : Nat) : Nat := (size+alignment-1)/alignment*alignment

theorem alignUp_ge {size alignment : Nat} (positive : 0 < alignment) : size ≤ alignUp size alignment := by
  have split := Nat.div_add_mod (size+alignment-1) alignment
  have rest := Nat.mod_lt (size+alignment-1) positive
  rw [Nat.mul_comm] at split
  rw [alignUp]
  omega

-- Below a multiple of the alignment the rounding comes to less only where the
-- sum does.
theorem before_of_alignUp {size alignment parts : Nat} (positive : 0 < alignment)
    (fits : alignUp size alignment < parts*alignment) : size+alignment-1 < parts*alignment :=
  (Nat.div_lt_iff_lt_mul positive).mp (Nat.lt_of_mul_lt_mul_right fits)

end RemDb.Lib
