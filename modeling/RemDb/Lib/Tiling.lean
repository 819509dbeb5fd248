import Mathlib

namespace RemDb.Lib

structure Tile where
  start : Nat
  length : Nat
  free : Bool
deriving DecidableEq,Repr

def Tile.Covers (tile : Tile) (point : Nat) : Prop := tile.start ≤ point ∧ point < tile.start+tile.length

-- Tiles laid end to end from `left` to `right`.
def Tiling : Nat → List Tile → Nat → Prop
  | left, [], right => left = right
  | left, tile :: rest, right => tile.start = left ∧ 0 < tile.length ∧ Tiling (left+tile.length) rest right

def freeTiles (tiles : List Tile) : List Tile := tiles.filter (·.free)
def takenTiles (tiles : List Tile) : List Tile := tiles.filter (!·.free)

def freeStarts (tiles : List Tile) : List Nat := (freeTiles tiles).map (·.start)

def takenLength (tiles : List Tile) : Nat := ((takenTiles tiles).map (·.length)).sum

-- No two neighbours are both free.
def Coalesced (tiles : List Tile) : Prop := tiles.IsChain fun tile next => ¬(tile.free = true ∧ next.free = true)

theorem tiling_append :
    Tiling left (front ++ back) right ↔ ∃ middle, Tiling left front middle ∧ Tiling middle back right := by
  induction front generalizing left with
  | nil => simp [Tiling]
  | cons tile rest ih =>
    simp only [List.cons_append,Tiling]
    rw [ih]
    constructor
    · rintro ⟨here,positive,middle,first,second⟩
      exact ⟨middle,⟨here,positive,first⟩,second⟩
    · rintro ⟨middle,⟨here,positive,first⟩,second⟩
      exact ⟨here,positive,middle,first,second⟩

namespace Tiling

theorem le (laid : Tiling left tiles right) : left ≤ right := by
  induction tiles generalizing left with
  | nil => exact Nat.le_of_eq laid
  | cons tile rest ih =>
    have onward := ih laid.2.2
    omega

theorem length_le (laid : Tiling left tiles right) : left+tiles.length ≤ right := by
  induction tiles generalizing left with
  | nil => exact Nat.le_of_eq laid
  | cons tile rest ih =>
    obtain ⟨_,positive,onward⟩ := laid
    have behind := ih onward
    rw [List.length_cons]
    omega

theorem bounds (laid : Tiling left tiles right) (member : tile ∈ tiles) :
    left ≤ tile.start ∧ 0 < tile.length ∧ tile.start+tile.length ≤ right := by
  induction tiles generalizing left with
  | nil => cases member
  | cons first rest ih =>
    obtain ⟨here,positive,onward⟩ := laid
    rcases List.mem_cons.mp member with rfl | among
    · have after := onward.le
      exact ⟨by omega,positive,by omega⟩
    · have inner := ih onward among
      exact ⟨by omega,inner.2⟩

theorem apart (laid : Tiling left tiles right) :
    tiles.Pairwise fun tile later => tile.start+tile.length ≤ later.start := by
  induction tiles generalizing left with
  | nil => exact List.Pairwise.nil
  | cons first rest ih =>
    obtain ⟨here,positive,onward⟩ := laid
    refine List.Pairwise.cons ?_ (ih onward)
    intro later member
    have inner := onward.bounds member
    omega

theorem covered (laid : Tiling left tiles right) (low : left ≤ point) (high : point < right) :
    ∃ tile ∈ tiles, tile.Covers point := by
  induction tiles generalizing left with
  | nil =>
    have same : left = right := laid
    omega
  | cons first rest ih =>
    obtain ⟨here,positive,onward⟩ := laid
    by_cases inside : point < left+first.length
    · exact ⟨first,List.mem_cons_self,by omega,by omega⟩
    · obtain ⟨tile,member,covers⟩ := ih onward (by omega)
      exact ⟨tile,List.mem_cons_of_mem _ member,covers⟩

theorem increasing (laid : Tiling left tiles right) :
    tiles.Pairwise fun tile later => tile.start < later.start := by
  apply laid.apart.imp_of_mem
  intro tile later member _ ordered
  have positive := (laid.bounds member).2.1
  omega

theorem starts_nodup (laid : Tiling left tiles right) : (tiles.map (·.start)).Nodup := by
  refine List.pairwise_map.mpr (laid.increasing.imp ?_)
  intro tile later below
  exact Nat.ne_of_lt below

theorem same_of_covers (laid : Tiling left tiles right) (member : tile ∈ tiles) (other : tile' ∈ tiles)
    (covers : tile.Covers point) (covers' : tile'.Covers point) : tile = tile' := by
  induction tiles generalizing left with
  | nil => cases member
  | cons first rest ih =>
    obtain ⟨here,positive,onward⟩ := laid
    obtain ⟨low,high⟩ := covers
    obtain ⟨low',high'⟩ := covers'
    rcases List.mem_cons.mp member with rfl | among
    · rcases List.mem_cons.mp other with rfl | among'
      · rfl
      · have after := onward.bounds among'
        omega
    · rcases List.mem_cons.mp other with rfl | among'
      · have after := onward.bounds among
        omega
      · exact ih onward among among'

theorem same_of_start (laid : Tiling left tiles right) (member : tile ∈ tiles) (other : tile' ∈ tiles)
    (same : tile.start = tile'.start) : tile = tile' := by
  have positive := (laid.bounds member).2.1
  have positive' := (laid.bounds other).2.1
  have covers : tile.Covers tile.start := ⟨Nat.le_refl _,by omega⟩
  have covers' : tile'.Covers tile.start := ⟨by omega,by omega⟩
  exact laid.same_of_covers member other covers covers'

theorem cut (laid : Tiling left (front ++ tile :: back) right) (first second : Bool)
    (positive : 0 < size) (smaller : size < tile.length) :
    Tiling left (front ++ ⟨tile.start,size,first⟩ :: ⟨tile.start+size,tile.length-size,second⟩ :: back)
      right := by
  obtain ⟨middle,before,here,_,after⟩ := tiling_append.mp laid
  refine tiling_append.mpr ⟨middle,before,here,positive,by simp [here],by simp; omega,?_⟩
  have rejoined : middle+size+(tile.length-size) = middle+tile.length := by omega
  dsimp only
  rw [rejoined]
  exact after

theorem relabel (laid : Tiling left (front ++ tile :: back) right) (free : Bool) :
    Tiling left (front ++ {tile with free:=free} :: back) right := by
  obtain ⟨middle,before,here⟩ := tiling_append.mp laid
  exact tiling_append.mpr ⟨middle,before,here⟩

end Tiling

theorem freeStarts_cons_free (free : tile.free = true) (rest : List Tile) :
    freeStarts (tile :: rest) = tile.start :: freeStarts rest := by simp [freeStarts,freeTiles,free]

theorem freeStarts_cons_longer {tile : Tile} (free : tile.free = true) (length : Nat) (rest : List Tile) :
    freeStarts ({tile with length:=length} :: rest) = tile.start :: freeStarts rest := by
  simp [freeStarts,freeTiles,free]

theorem freeStarts_cons_taken (taken : tile.free = false) (rest : List Tile) :
    freeStarts (tile :: rest) = freeStarts rest := by simp [freeStarts,freeTiles,taken]

@[simp] theorem freeStarts_append (front back : List Tile) :
    freeStarts (front ++ back) = freeStarts front ++ freeStarts back := by simp [freeStarts,freeTiles]

theorem mem_of_freeStarts (member : point ∈ freeStarts tiles) :
    ∃ tile ∈ tiles, tile.free = true ∧ tile.start = point := by
  obtain ⟨tile,present,same⟩ := List.mem_map.mp member
  obtain ⟨among,free⟩ := List.mem_filter.mp present
  exact ⟨tile,among,free,same⟩

theorem Tiling.freeStarts_increasing (laid : Tiling left tiles right) :
    (freeStarts tiles).Pairwise (· < ·) :=
  List.pairwise_map.mpr (laid.increasing.sublist List.filter_sublist)

theorem Tiling.freeStarts_nodup (laid : Tiling left tiles right) : (freeStarts tiles).Nodup :=
  laid.freeStarts_increasing.imp Nat.ne_of_lt

theorem takenLength_cons_free (free : tile.free = true) (rest : List Tile) :
    takenLength (tile :: rest) = takenLength rest := by simp [takenLength,takenTiles,free]

theorem takenLength_cons_taken (taken : tile.free = false) (rest : List Tile) :
    takenLength (tile :: rest) = tile.length+takenLength rest := by simp [takenLength,takenTiles,taken]

@[simp] theorem takenLength_append (front back : List Tile) :
    takenLength (front ++ back) = takenLength front+takenLength back := by simp [takenLength,takenTiles]

theorem Tiling.takenLength_le (laid : Tiling left tiles right) : left+takenLength tiles ≤ right := by
  induction tiles generalizing left with
  | nil => exact Nat.le_of_eq laid
  | cons tile rest ih =>
    obtain ⟨_,_,onward⟩ := laid
    have behind := ih onward
    cases free : tile.free with
    | true =>
      rw [takenLength_cons_free free]
      omega
    | false =>
      rw [takenLength_cons_taken free]
      omega

theorem Tiling.freeStarts_length_le (laid : Tiling left tiles right) : left+(freeStarts tiles).length ≤ right := by
  have fewer : (freeStarts tiles).length ≤ tiles.length := by
    rw [freeStarts,List.length_map]
    exact List.length_filter_le _ _
  have whole := laid.length_le
  omega

theorem freeStarts_split (found : freeStarts tiles = front ++ point :: back) :
    ∃ before tile after, tiles = before ++ tile :: after ∧ tile.free = true ∧ tile.start = point ∧
      freeStarts before = front ∧ freeStarts after = back := by
  obtain ⟨first,rest,parts,heads,tails⟩ := List.map_eq_append_iff.mp found
  obtain ⟨tile,more,here,start,tails⟩ := List.map_eq_cons_iff.mp tails
  obtain ⟨before,others,split,filtered,filtered'⟩ := List.filter_eq_append_iff.mp parts
  rw [here] at filtered'
  obtain ⟨skipped,after,split',none_free,free,remaining⟩ := List.filter_eq_cons_iff.mp filtered'
  refine ⟨before ++ skipped,tile,after,by rw [split,split',List.append_assoc],by simpa using free,start,?_,?_⟩
  · have empty : freeTiles skipped = [] := List.filter_eq_nil_iff.mpr none_free
    rw [freeStarts_append,freeStarts,freeStarts,empty,freeTiles,filtered,heads]
    simp
  · rw [freeStarts,freeTiles,remaining,tails]

-- Taking a free tile, whole or up to a cut, leaves no new free neighbours.
theorem Coalesced.take (apart : Coalesced (before ++ tile :: after)) (taken : first.free = false) :
    Coalesced (before ++ first :: after) := by
  obtain ⟨left,right,_⟩ := List.isChain_append.mp apart
  have tail := List.IsChain.tail right
  refine List.isChain_append.mpr ⟨left,?_,?_⟩
  · cases after with
    | nil => exact List.isChain_singleton _
    | cons next after => exact List.isChain_cons_cons.mpr ⟨by simp [taken],tail⟩
  · intro last _ next head
    simp only [List.head?_cons,Option.mem_some_iff] at head
    subst next
    simp [taken]

theorem Coalesced.takeFront (apart : Coalesced (before ++ tile :: after)) (free : tile.free = true)
    (taken : first.free = false) : Coalesced (before ++ first :: second :: after) := by
  obtain ⟨left,right,_⟩ := List.isChain_append.mp apart
  refine List.isChain_append.mpr ⟨left,List.isChain_cons_cons.mpr ⟨by simp [taken],?_⟩,?_⟩
  · cases after with
    | nil => exact List.isChain_singleton _
    | cons next after =>
      obtain ⟨separate,tail⟩ := List.isChain_cons_cons.mp right
      refine List.isChain_cons_cons.mpr ⟨?_,tail⟩
      rintro ⟨_,free'⟩
      exact separate ⟨free,free'⟩
  · intro last _ next head
    simp only [List.head?_cons,Option.mem_some_iff] at head
    subst next
    simp [taken]

def joinTile (tile : Tile) : List Tile → List Tile
  | [] => [tile]
  | next :: rest =>
    if tile.free = true ∧ next.free = true then {tile with length:=tile.length+next.length} :: rest
    else tile :: next :: rest

def coalesce : List Tile → List Tile
  | [] => []
  | tile :: rest => joinTile tile (coalesce rest)

theorem joinTile_taken (taken : tile.free = false) (rest : List Tile) : joinTile tile rest = tile :: rest := by
  cases rest with
  | nil => rfl
  | cons next rest => simp [joinTile,taken]

theorem joinTile_before (blocked : ∀ next ∈ rest.head?, next.free = false) : joinTile tile rest = tile :: rest := by
  cases rest with
  | nil => rfl
  | cons next rest => simp [joinTile,blocked next (by simp)]

theorem joinTile_joinTile (free : tile.free = true) (free' : next.free = true) (rest : List Tile) :
    joinTile tile (joinTile next rest) = joinTile {tile with length:=tile.length+next.length} rest := by
  cases rest with
  | nil => simp [joinTile,free,free']
  | cons third rest =>
    cases last : third.free with
    | true => simp [joinTile,free,free',last,Nat.add_assoc]
    | false => simp [joinTile,free,free',last]

theorem joinTile_tiling (laid : Tiling left (tile :: rest) right) : Tiling left (joinTile tile rest) right := by
  cases rest with
  | nil => exact laid
  | cons next rest =>
    by_cases both : tile.free = true ∧ next.free = true
    · obtain ⟨here,positive,there,positive',after⟩ := laid
      rw [joinTile,if_pos both]
      refine ⟨here,by dsimp only; omega,?_⟩
      rw [← Nat.add_assoc]
      exact after
    · rw [joinTile,if_neg both]
      exact laid

theorem coalesce_tiling (laid : Tiling left tiles right) : Tiling left (coalesce tiles) right := by
  induction tiles generalizing left with
  | nil => exact laid
  | cons tile rest ih =>
    obtain ⟨here,positive,onward⟩ := laid
    exact joinTile_tiling ⟨here,positive,ih onward⟩

theorem joinTile_coalesced (apart : Coalesced rest) : Coalesced (joinTile tile rest) := by
  cases rest with
  | nil => exact List.isChain_singleton _
  | cons next rest =>
    by_cases both : tile.free = true ∧ next.free = true
    · rw [joinTile,if_pos both]
      cases rest with
      | nil => exact List.isChain_singleton _
      | cons third rest =>
        obtain ⟨separate,tail⟩ := List.isChain_cons_cons.mp apart
        refine List.isChain_cons_cons.mpr ⟨?_,tail⟩
        rintro ⟨_,free⟩
        exact separate ⟨both.2,free⟩
    · rw [joinTile,if_neg both]
      exact List.isChain_cons_cons.mpr ⟨both,apart⟩

theorem coalesce_coalesced (tiles : List Tile) : Coalesced (coalesce tiles) := by
  induction tiles with
  | nil => exact List.isChain_nil
  | cons tile rest ih => exact joinTile_coalesced ih

theorem joinTile_takenTiles (tile : Tile) (rest : List Tile) :
    takenTiles (joinTile tile rest) = takenTiles (tile :: rest) := by
  cases rest with
  | nil => rfl
  | cons next rest =>
    by_cases both : tile.free = true ∧ next.free = true
    · simp [joinTile,takenTiles,both.1,both.2]
    · rw [joinTile,if_neg both]

theorem coalesce_takenTiles (tiles : List Tile) : takenTiles (coalesce tiles) = takenTiles tiles := by
  induction tiles with
  | nil => rfl
  | cons tile rest ih =>
    rw [coalesce,joinTile_takenTiles]
    cases free : tile.free with
    | true => simpa [takenTiles,free] using ih
    | false => simpa [takenTiles,free] using ih

theorem coalesce_head_taken (blocked : ∀ next ∈ tiles.head?, next.free = false) :
    ∀ next ∈ (coalesce tiles).head?, next.free = false := by
  cases tiles with
  | nil => simp [coalesce]
  | cons tile rest =>
    have taken : tile.free = false := blocked tile (by simp)
    rw [coalesce,joinTile_taken taken]
    simpa using taken

end RemDb.Lib
