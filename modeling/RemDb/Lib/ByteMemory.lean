import Mathlib.Data.List.GetD

namespace RemDb.Lib

abbrev ByteMemory := Nat → UInt8

namespace ByteMemory
variable {memory : ByteMemory} {address place count : Nat} {bytes : List UInt8}

def load (memory : ByteMemory) (address count : Nat) : List UInt8 := (List.range count).map fun index => memory (address+index)

def store (memory : ByteMemory) (address : Nat) (bytes : List UInt8) : ByteMemory := fun place =>
  if address ≤ place then bytes.getD (place-address) (memory place) else memory place

@[simp] theorem load_length (memory : ByteMemory) (address count : Nat) : (load memory address count).length = count := by
  rw [load,List.length_map,List.length_range]

theorem load_append (memory : ByteMemory) (address first second : Nat) :
    load memory address (first+second) = load memory address first ++ load memory (address+first) second := by
  rw [load,List.range_add,List.map_append,List.map_map,load,load]
  congr 1
  exact List.map_congr_left fun index _ => congrArg memory (Nat.add_assoc address first index).symm

theorem store_outside (outside : place < address ∨ address+bytes.length ≤ place) : store memory address bytes place = memory place := by
  rw [store]
  split
  · rename_i above
    rw [List.getD_eq_default]
    omega
  · rfl

theorem store_inside (memory : ByteMemory) (address : Nat) {index : Nat} (inside : index < bytes.length) : store memory address bytes (address+index) = bytes[index] := by
  rw [store,if_pos (Nat.le_add_right address index),Nat.add_sub_cancel_left]
  exact List.getD_eq_getElem bytes _ inside

theorem load_congr {other : ByteMemory} (same : ∀ place, address ≤ place → place < address+count → memory place = other place) :
    load memory address count = load other address count :=
  List.map_congr_left fun _ inside =>
    same _ (Nat.le_add_right _ _) (Nat.add_lt_add_left (List.mem_range.mp inside) address)

theorem load_store_apart {start : Nat} (apart : start+count ≤ address ∨ address+bytes.length ≤ start) :
    load (store memory address bytes) start count = load memory start count :=
  load_congr fun place _ _ => store_outside (by omega)

theorem load_store (short : count ≤ bytes.length) : load (store memory address bytes) address count = bytes.take count := by
  refine List.ext_getElem (by rw [load_length,List.length_take,Nat.min_eq_left short]) fun index inside _ => ?_
  rw [load_length] at inside
  rw [List.getElem_take]
  have within : index < bytes.length := by omega
  rw [← store_inside memory address within]
  simp only [load,List.getElem_map,List.getElem_range]

end ByteMemory
end RemDb.Lib
