import RemDb.Index.Lookup

namespace RemDb
open RemDb.Lib

-- The two platforms copy memory differently where the regions overlap: the bare
-- metal copies byte by byte, the other has no meaning there.
inductive Platform where
  | posix | baremetal
deriving DecidableEq,Repr

def Platform.memcpyItems (platform : Platform) (memory : List SecondaryIndexItem) (dest src count : Nat) :
    Option (List SecondaryIndexItem) :=
  if platform = .posix ∧ dest < src+count ∧ src < dest+count then none
  else (List.range count).foldlM (fun copied place => copyWithin copied (src+place) (dest+place)) memory

-- The sorted array with the memory it stands in. As in a lookup, `none` is a
-- read outside the array or a copy without meaning.
structure SortedArray where
  memory : List SecondaryIndexItem
  item_count : Nat
  max_items : Nat
  stats : IndexStats
deriving DecidableEq,Repr

namespace SortedArray

def new (max_items : Nat) : SortedArray :=
  ⟨List.replicate max_items .blank,0,max_items,⟨0,0,max_items*132 % usizeLimit,0⟩⟩

def inUse (array : SortedArray) : SecondaryIndex := ⟨array.memory.take array.item_count⟩

def search (array : SortedArray) (key : Bytes) : Option (Except RemDbError Nat) :=
  if array.item_count = 0 then some (.error .recordNotFound)
  else SecondaryIndex.binarySearch array.inUse.items key (array.item_count+1) 0 (array.item_count-1)

-- Items of a text column are compared as strings first, which is by their bytes
-- again. A step below the first item makes `high` the largest number there is: a
-- build that checks stops, another reads far behind the array.
def insertPosition (memory : List SecondaryIndexItem) (new_item : SecondaryIndexItem) :
    Nat → Nat → Nat → Nat → Option Nat
  | 0, _, _, _ => none
  | fuel+1, low, high, insert_pos =>
    if low ≤ high then
      let mid := (low+high)/2
      match memory[mid]? with
      | none => none
      | some item =>
        match compareItems new_item item with
        | .lt => if mid = 0 then none else insertPosition memory new_item fuel low (mid-1) mid
        | .gt => insertPosition memory new_item fuel (mid+1) high insert_pos
        | .eq => insertPosition memory new_item fuel (mid+1) high (mid+1)
    else some insert_pos

def placeFor (array : SortedArray) (new_item : SecondaryIndexItem) : Option Nat :=
  if array.item_count > 0 then
    insertPosition array.memory new_item (array.item_count+1) 0 (array.item_count-1) array.item_count
  else some array.item_count

def insert (array : SortedArray) (key : Bytes) (record_id : UInt16) : Option (Except RemDbError Unit × SortedArray) :=
  if array.item_count ≥ array.max_items then some (.error .outOfMemory,array)
  else if key.length > SecondaryIndexItem.KEY_LIMIT then some (.error .unsupportedOperation,array)
  else do
    let new_item := SecondaryIndexItem.ofKey key record_id
    let insert_pos ← array.placeFor new_item
    let memory ← insertAt array.memory insert_pos array.item_count new_item
    pure (.ok (),{array with
      memory:=memory,item_count:=array.item_count+1,stats:={array.stats with item_count:=array.item_count+1}})

def closeGap (platform : Platform) (array : SortedArray) (index : Nat) : Option (List SecondaryIndexItem) :=
  if index < array.item_count-1 then platform.memcpyItems array.memory index (index+1) (array.item_count-index-1)
  else some array.memory

def delete (platform : Platform) (array : SortedArray) (key : Bytes) : Option (Except RemDbError Unit × SortedArray) :=
  match array.search key with
  | none => none
  | some (.error failure) => some (.error failure,array)
  | some (.ok index) => do
    let moved ← array.closeGap platform index
    let memory ← store moved (array.item_count-1) .blank
    pure (.ok (),{array with
      memory:=memory,item_count:=array.item_count-1,stats:={array.stats with item_count:=array.item_count-1}})

def collect (end_key : Bytes) : Nat → List SecondaryIndexItem → List UInt16
  | 0, _ => []
  | _, [] => []
  | room+1, item :: rest =>
    if SecondaryIndex.beforeEnd item end_key then item.record_id :: collect end_key room rest else []

def findRangeAll (array : SortedArray) (start_key end_key : Bytes) (has_buffer : Bool) (max_records : Nat) :
    Option (Except RemDbError (List UInt16)) :=
  if has_buffer = false then some (.error .unsupportedOperation)
  else if array.item_count = 0 then some (.ok [])
  else if start_key.length > SecondaryIndexItem.KEY_DATA then none
  else
    (SecondaryIndex.rangeStart array.inUse.items (.ofKey start_key 0) (array.item_count+1) 0 (array.item_count-1) 0).map
      fun start_pos => .ok (collect end_key max_records (array.inUse.items.drop start_pos))

end SortedArray

def keyOrder : Bytes → Bytes → Ordering := compareLex (compareOn List.length) compare

instance : Std.TransCmp keyOrder := inferInstanceAs (Std.TransCmp (compareLex _ _))

-- An item as `insert` makes it.
def SecondaryIndexItem.Padded (item : SecondaryIndexItem) : Prop :=
  item.key.length ≤ KEY_LIMIT ∧ item = ofKey item.key item.record_id

theorem compare_size (short : left < 256) (short' : right < 256) :
    compare (UInt8.ofNat left) (UInt8.ofNat right) = compare left right := by
  have same : (UInt8.ofNat left).toNat = left := by
    rw [UInt8.toNat_ofNat']
    omega
  have same' : (UInt8.ofNat right).toNat = right := by
    rw [UInt8.toNat_ofNat']
    omega
  rcases Nat.lt_trichotomy left right with less | rfl | more
  · rw [Nat.compare_eq_lt.mpr less]
    apply Std.compare_eq_lt.mpr
    rw [UInt8.lt_iff_toNat_lt,same,same']
    exact less
  · rw [Nat.compare_eq_eq.mpr rfl]
    exact Std.ReflCmp.compare_self
  · rw [Nat.compare_eq_gt.mpr more]
    apply Std.compare_eq_gt.mpr
    rw [UInt8.lt_iff_toNat_lt,same,same']
    exact more

section Padded
variable {item : SecondaryIndexItem} {key : Bytes}

theorem SecondaryIndexItem.Padded.size (padded : item.Padded) : item.key_size = UInt8.ofNat item.key.length :=
  congrArg SecondaryIndexItem.key_size padded.2

theorem SecondaryIndexItem.Padded.length (padded : item.Padded) : item.key_size.toNat = item.key.length := by
  have short := padded.1
  rw [padded.size,UInt8.toNat_ofNat']
  exact Nat.mod_eq_of_lt (Nat.lt_of_le_of_lt short (by decide))

theorem SecondaryIndexItem.Padded.compare_ofKey (padded : item.Padded) (short : key.length ≤ KEY_DATA)
    (record_id : UInt16) :
    compareItems item (ofKey key record_id) = (keyOrder item.key key).then (compare item.record_id record_id) := by
  have small := padded.1
  have sizes := compare_size (Nat.lt_of_le_of_lt small (by decide)) (Nat.lt_of_le_of_lt short (by decide))
  change (compare item.key_size (UInt8.ofNat key.length)).then ((compare item.key (ofKey key record_id).key).then
    (compare item.record_id record_id)) = ((compare item.key.length key.length).then (compare item.key key)).then _
  rw [padded.size,sizes,SecondaryIndexItem.ofKey_key short,Ordering.then_assoc]

theorem SecondaryIndexItem.Padded.keys_ordered {left right : SecondaryIndexItem} (padded : left.Padded)
    (padded' : right.Padded) (ordered : (compareItems left right).isLE) : (keyOrder left.key right.key).isLE := by
  rw [padded'.2,padded.compare_ofKey (Nat.le_trans padded'.1 (by decide))] at ordered
  cases order : keyOrder left.key right.key with
  | lt => rfl
  | eq => rfl
  | gt =>
    rw [order] at ordered
    cases ordered

end Padded

namespace SortedArray

structure Sound (array : SortedArray) : Prop where
  backed : array.memory.length = array.max_items
  filled : array.item_count ≤ array.max_items
  sorted : SortedItems array.inUse.items
  padded : ∀ item ∈ array.inUse.items, item.Padded

theorem new_sound (max_items : Nat) : (new max_items).Sound := by
  refine ⟨List.length_replicate,Nat.zero_le _,?_,?_⟩
  · exact List.Pairwise.nil
  · intro item among
    cases among

theorem ofKey_padded {key : Bytes} (short : key.length ≤ SecondaryIndexItem.KEY_LIMIT) (record_id : UInt16) :
    (SecondaryIndexItem.ofKey key record_id).Padded := by
  have same := SecondaryIndexItem.ofKey_key (Nat.le_trans short (by decide)) record_id
  refine ⟨?_,?_⟩
  · rw [same]
    exact short
  · rw [same]
    rfl

section Memory
variable {array : SortedArray}

theorem Sound.length (sound : array.Sound) : array.inUse.items.length = array.item_count := by
  rw [inUse,List.length_take,sound.backed,Nat.min_eq_left sound.filled]

theorem Sound.memory (sound : array.Sound) :
    ∃ unused, array.memory = array.inUse.items ++ unused ∧ unused.length = array.max_items-array.item_count := by
  refine ⟨array.memory.drop array.item_count,(List.take_append_drop _ _).symm,?_⟩
  rw [List.length_drop,sound.backed]

theorem sound_of_memory (array : SortedArray) (stats : IndexStats) {items unused : List SecondaryIndexItem} {count : Nat}
    (whole : (items ++ unused).length = array.max_items) (counted : items.length = count) (sorted : SortedItems items)
    (padded : ∀ item ∈ items, item.Padded) :
    Sound {array with memory:=items ++ unused,item_count:=count,stats:=stats} ∧
      (SortedArray.inUse {array with memory:=items ++ unused,item_count:=count,stats:=stats}).items = items := by
  have front : (SortedArray.inUse {array with memory:=items ++ unused,item_count:=count,stats:=stats}).items = items := by
    rw [inUse,← counted]
    exact List.take_left
  rw [List.length_append,counted] at whole
  refine ⟨⟨?_,?_,?_,?_⟩,front⟩
  · rw [List.length_append,counted]
    exact whole
  · exact whole ▸ Nat.le_add_right _ _
  · rw [front]
    exact sorted
  · rw [front]
    exact padded

end Memory
end SortedArray
end RemDb
