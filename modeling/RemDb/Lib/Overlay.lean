import RemDb.Lib.Bytes

namespace RemDb.Lib

def Blank (bytes : Bytes) : Prop := ∀ byte ∈ bytes, byte = 0

def overlay (block bytes : Bytes) : Bytes := bytes.take block.length ++ block.drop bytes.length

theorem blank_iff (bytes : Bytes) : Blank bytes ↔ bytes = List.replicate bytes.length 0 :=
  List.eq_replicate_length.symm

theorem blank_replicate (count : Nat) : Blank (List.replicate count 0) := fun _ member => List.eq_of_mem_replicate member

theorem blank_take_iff (bytes : Bytes) (count : Nat) :
    Blank (bytes.take count) ↔ ∀ place byte, place < count → bytes[place]? = some byte → byte = 0 := by
  constructor
  · intro blank place byte below found
    refine blank byte (List.mem_of_getElem? (?_ : (bytes.take count)[place]? = some byte))
    rw [List.getElem?_take_of_lt below,found]
  · intro each byte member
    obtain ⟨place,found⟩ := List.mem_iff_getElem?.mp member
    rw [List.getElem?_take,Option.ite_none_right_eq_some] at found
    exact each place byte found.1 found.2

theorem Blank.take (blank : Blank bytes) (count : Nat) : Blank (bytes.take count) :=
  fun byte member => blank byte (List.mem_of_mem_take member)

theorem Blank.eq {left right : Bytes} (first : Blank left) (second : Blank right) (same : left.length = right.length) :
    left = right := by
  rw [(blank_iff left).mp first,(blank_iff right).mp second,same]

@[simp] theorem overlay_length (block bytes : Bytes) : (overlay block bytes).length = block.length := by
  rw [overlay,List.length_append,List.length_take,List.length_drop]
  omega

theorem overlay_whole (block : Bytes) (same : bytes.length = block.length) : overlay block bytes = bytes := by
  rw [overlay,← same,List.take_length,List.drop_eq_nil_of_le (by omega),List.append_nil]

theorem overlay_getElem? (block bytes : Bytes) (inside : place < block.length) :
    (overlay block bytes)[place]? = if place < bytes.length then bytes[place]? else block[place]? := by
  rw [overlay,List.getElem?_append,List.length_take]
  split
  · rw [if_pos (by omega),List.getElem?_take_of_lt inside]
  · rw [if_neg (by omega),List.getElem?_drop]
    congr 1
    omega

theorem overlay_blank {block bytes : Bytes} (blank : Blank bytes) (front : Blank (block.take bytes.length)) :
    overlay block bytes = block := by
  have same : bytes.take block.length = block.take bytes.length := by
    refine (blank.take _).eq front ?_
    rw [List.length_take,List.length_take,Nat.min_comm]
  rw [overlay,same,List.take_append_drop]

theorem overlay_front {block bytes : Bytes} (blank : Blank bytes)
    (zeros : count ≤ bytes.length ∨ Blank (block.take count)) : Blank ((overlay block bytes).take count) := by
  rw [blank_take_iff]
  intro place byte below found
  have inside : place < block.length := by
    have extent := (List.getElem?_eq_some_iff.mp found).1
    rwa [overlay_length] at extent
  rw [overlay_getElem? block bytes inside] at found
  split at found
  · exact blank byte (List.mem_of_getElem? found)
  · rcases zeros with covered | front
    · omega
    · exact (blank_take_iff block count).mp front place byte below found

-- Bytes written into a block of a file, no further than it reaches.
theorem readAt_writeAt_overlay (file bytes : Bytes) (offset count : Nat) (inside : offset+count ≤ file.length) :
    readAt (writeAt file offset (bytes.take count)) offset count = overlay (readAt file offset count) bytes := by
  have whole : (readAt file offset count).length = count := by
    rw [readAt_length]
    omega
  apply List.ext_getElem?
  intro place
  by_cases below : place < count
  · rw [readAt_getElem? _ _ _ _ below,overlay_getElem? _ _ (by omega),readAt_getElem? _ _ _ _ below]
    split
    · have written := readAt_getElem? (writeAt file offset (bytes.take count)) offset (bytes.take count).length place
        (by rw [List.length_take]; omega)
      rw [readAt_writeAt_self,List.getElem?_take_of_lt below] at written
      exact written.symm
    · refine writeAt_getElem?_outside _ _ _ _ (by omega) (.inr ?_)
      rw [List.length_take]
      omega
  · have beyond : (overlay (readAt file offset count) bytes).length ≤ place := by
      rw [overlay_length]
      omega
    have beyond' : (readAt (writeAt file offset (bytes.take count)) offset count).length ≤ place := by
      rw [readAt_length]
      omega
    rw [List.getElem?_eq_none beyond,List.getElem?_eq_none beyond']

section Layers
variable {block : Bytes} {layers : List Bytes}

theorem layers_length (block : Bytes) (layers : List Bytes) : (layers.foldl overlay block).length = block.length := by
  induction layers generalizing block with
  | nil => rfl
  | cons first rest ih => rw [List.foldl_cons,ih,overlay_length]

theorem layers_keep_front (blank : ∀ layer ∈ layers, Blank layer) (front : Blank (block.take count)) :
    Blank ((layers.foldl overlay block).take count) := by
  induction layers generalizing block with
  | nil => exact front
  | cons first rest ih =>
    refine ih (fun layer member => blank layer (List.mem_cons_of_mem _ member)) ?_
    exact overlay_front (blank first List.mem_cons_self) (.inr front)

theorem layers_front (blank : ∀ layer ∈ layers, Blank layer) {layer : Bytes} (among : layer ∈ layers) :
    Blank ((layers.foldl overlay block).take layer.length) := by
  induction layers generalizing block with
  | nil => cases among
  | cons first rest ih =>
    have later : ∀ layer ∈ rest, Blank layer := fun layer member => blank layer (List.mem_cons_of_mem _ member)
    rcases List.mem_cons.mp among with rfl | behind
    · rw [List.foldl_cons]
      exact layers_keep_front later (overlay_front (blank _ List.mem_cons_self) (.inl (Nat.le_refl _)))
    · exact ih later behind

theorem layers_blank (blank : ∀ layer ∈ layers, Blank layer ∧ Blank (block.take layer.length)) :
    layers.foldl overlay block = block := by
  induction layers with
  | nil => rfl
  | cons first rest ih =>
    obtain ⟨zeros,front⟩ := blank first List.mem_cons_self
    rw [List.foldl_cons,overlay_blank zeros front]
    exact ih fun layer member => blank layer (List.mem_cons_of_mem _ member)

theorem layers_above (block : Bytes) (below above : List Bytes) (layer : Bytes) (same : layer.length = block.length) :
    (below ++ layer :: above).foldl overlay block = above.foldl overlay layer := by
  rw [List.foldl_append,List.foldl_cons,overlay_whole]
  rw [layers_length,same]

end Layers
end RemDb.Lib
