import RemDb.Index.BTree
import RemDb.Index.StoredOnce

namespace RemDb
open RemDb.Lib

-- How a lookup ends; `none` is a read outside the array, a copy beyond a key's
-- bytes or a walk through more nodes than there are.
abbrev Lookup := Option (Except RemDbError UInt16)

-- The sorted array, as the items that are in use.
structure SecondaryIndex where
  items : List SecondaryIndexItem
deriving DecidableEq,Repr

namespace SecondaryIndex

-- Unlike `compare_items` it leaves the record out; a key longer than an item's
-- bytes is compared past their end where they are equal.
def compareKey (item : SecondaryIndexItem) (key : Bytes) : Option Ordering :=
  let size := UInt8.ofNat key.length
  if item.key_size ≠ size then some (compare item.key_size size)
  else if key.length > item.key_data.length ∧ item.key_data = key.take item.key_data.length then none
  else some (compare (item.key_data.take key.length) key)

def binarySearch (items : List SecondaryIndexItem) (key : Bytes) : Nat → Nat → Nat → Option (Except RemDbError Nat)
  | 0, _, _ => none
  | fuel+1, low, high =>
    if low ≤ high then
      let mid := (low+high)/2
      match items[mid]? with
      | none => none
      | some mid_item =>
        match compareKey mid_item key with
        | none => none
        | some .eq => some (.ok mid)
        | some .lt => binarySearch items key fuel (mid+1) high
        | some .gt => if mid = 0 then some (.error .recordNotFound) else binarySearch items key fuel low (mid-1)
    else some (.error .recordNotFound)

def find (index : SecondaryIndex) (key : Bytes) : Lookup :=
  if index.items = [] then some (.error .recordNotFound)
  else
    match binarySearch index.items key (index.items.length+1) 0 (index.items.length-1) with
    | none => none
    | some (.error failure) => some (.error failure)
    | some (.ok place) => (index.items[place]?).map fun item => .ok item.record_id

-- The start of a range. A step below the first item makes `high` the largest
-- number there is, and the next item is read far behind the array; so does an
-- empty array.
def rangeStart (items : List SecondaryIndexItem) (start_item : SecondaryIndexItem) : Nat → Nat → Nat → Nat → Option Nat
  | 0, _, _, _ => none
  | fuel+1, low, high, start_pos =>
    if low ≤ high then
      let mid := (low+high)/2
      match items[mid]? with
      | none => none
      | some item =>
        if compareItems item start_item = .lt then rangeStart items start_item fuel (mid+1) high (mid+1)
        else if mid = 0 then none
        else rangeStart items start_item fuel low (mid-1) start_pos
    else some start_pos

-- The test against the end of the range; a shorter key that is a beginning of
-- the end key does not pass it.
def beforeEnd (item : SecondaryIndexItem) (end_key : Bytes) : Bool :=
  let size := item.key_size.toNat
  decide (size ≤ end_key.length) &&
    match compare (item.key_data.take size) (end_key.take size) with
    | .lt => true
    | .eq => decide (size = end_key.length)
    | .gt => false

-- The loop over the items ends at the first of them either way.
def findRange (index : SecondaryIndex) (start_key end_key : Bytes) : Lookup :=
  if index.items = [] ∨ start_key.length > SecondaryIndexItem.KEY_DATA then none
  else
    (rangeStart index.items (.ofKey start_key 0) (index.items.length+1) 0 (index.items.length-1) 0).map fun start_pos =>
      match index.items[start_pos]? with
      | some item => if beforeEnd item end_key then .ok item.record_id else .error .recordNotFound
      | none => .error .recordNotFound

end SecondaryIndex

namespace BTreeIndex

-- The search item has record 0, and records count in comparisons: the search
-- finds keys of record 0 only.
def descend (index : BTreeIndex) (search_item : SecondaryIndexItem) : Nat → Nat → Lookup
  | 0, _ => none
  | fuel+1, node =>
    let node_ref := index.nodes node
    let pos := index.findKeyPosition node_ref search_item
    match (filled node_ref)[pos]?.filter fun key => decide (index.compareItems key search_item = .eq) with
    | some key => some (.ok key.record_id)
    | none =>
      if node_ref.is_leaf then some (.error .recordNotFound)
      else
        match node_ref.children[pos]? with
        | none => none
        | some none => some (.error .recordNotFound)
        | some (some child) => descend index search_item fuel child

def find (index : BTreeIndex) (key : Bytes) : Lookup :=
  if key.length > SecondaryIndexItem.KEY_LIMIT then some (.error .unsupportedOperation)
  else
    match index.root with
    | none => some (.error .recordNotFound)
    | some root => index.descend (.ofKey key 0) (index.max_nodes+1) root

def STACK : Nat := 64

def pathTo (index : BTreeIndex) (start_item : SecondaryIndexItem) : Nat → Option Nat → List Nat → Option (List Nat)
  | _, none, stack => some stack
  | 0, some _, _ => none
  | fuel+1, some node, stack =>
    if stack.length < STACK then
      let node_ref := index.nodes node
      if node_ref.is_leaf then some (node :: stack)
      else
        match node_ref.children[index.findKeyPosition node_ref start_item]? with
        | none => none
        | some child => pathTo index start_item fuel child (node :: stack)
    else none

-- The leftmost keys below a child; a node is left at its first key.
def searchBelow (index : BTreeIndex) (end_item : SecondaryIndexItem) : Nat → Option Nat → Option (Option UInt16)
  | _, none => some none
  | 0, some _ => none
  | fuel+1, some child =>
    let child_ref := index.nodes child
    match (filled child_ref).head?.filter fun key => decide (index.compareItems key end_item ≠ .gt) with
    | some key => some (some key.record_id)
    | none =>
      if child_ref.is_leaf then some none
      else
        match child_ref.children.head? with
        | none => none
        | some next => searchBelow index end_item fuel next

def backtrack (index : BTreeIndex) (start_item end_item : SecondaryIndexItem) : List Nat → Lookup
  | [] => some (.error .recordNotFound)
  | node :: stack =>
    let node_ref := index.nodes node
    let keys := (filled node_ref).drop (index.findKeyPosition node_ref start_item)
    match keys.find? fun key => decide (index.compareItems key end_item ≠ .gt) with
    | some key => some (.ok key.record_id)
    | none =>
      if node_ref.is_leaf then backtrack index start_item end_item stack
      else
        match node_ref.children[node_ref.key_count.toNat]? with
        | none => none
        | some child =>
          match index.searchBelow end_item (index.max_nodes+1) child with
          | none => none
          | some (some record_id) => some (.ok record_id)
          | some none => backtrack index start_item end_item stack

def findRange (index : BTreeIndex) (start_key end_key : Bytes) : Lookup :=
  if start_key.length > SecondaryIndexItem.KEY_DATA ∨ end_key.length > SecondaryIndexItem.KEY_DATA then none
  else
    (index.pathTo (.ofKey start_key 0) (index.max_nodes+1) index.root []).bind fun stack =>
      index.backtrack (.ofKey start_key 0) (.ofKey end_key 0) stack

inductive InTree (index : BTreeIndex) : Nat → Prop
  | root (rooted : index.root = some node) : InTree index node
  | kid (above : InTree index parent) (kid : some node ∈ (index.nodes parent).children) : InTree index node

def Stored (index : BTreeIndex) (item : SecondaryIndexItem) : Prop :=
  ∃ node, InTree index node ∧ item ∈ filled (index.nodes node)

end BTreeIndex

namespace TTreeIndex

def descend (index : TTreeIndex) (search_item : SecondaryIndexItem) : Nat → Option Nat → Lookup
  | _, none => some (.error .recordNotFound)
  | 0, some _ => none
  | fuel+1, some node =>
    let node_ref := index.nodes node
    let position := node_ref.findKeyPosition search_item
    match node_ref.filled[position.1]?.filter fun _ => decide (position.2 = .eq) with
    | some key => some (.ok key.record_id)
    | none => descend index search_item fuel (node_ref.child position.1)

def find (index : TTreeIndex) (key : Bytes) : Lookup :=
  if key.length > SecondaryIndexItem.KEY_LIMIT then some (.error .unsupportedOperation)
  else index.descend (.ofKey key 0) (index.max_nodes+1) index.root

-- The first key of a node in the range; the first beyond it ends the node.
def firstWithin (start_item end_item : SecondaryIndexItem) : List SecondaryIndexItem → Option SecondaryIndexItem
  | [] => none
  | key :: rest =>
    if compareItems key start_item ≠ .lt ∧ compareItems key end_item ≠ .gt then some key
    else if compareItems key end_item = .gt then none
    else firstWithin start_item end_item rest

def rangeFirst (index : TTreeIndex) (start_item end_item : SecondaryIndexItem) : Nat → List Nat → Lookup
  | _, [] => some (.error .recordNotFound)
  | 0, _ :: _ => none
  | fuel+1, node :: stack =>
    match firstWithin start_item end_item (index.nodes node).filled with
    | some key => some (.ok key.record_id)
    | none =>
      (index.pushLeft (STACK+1) (index.nodes node).right stack).bind fun stack =>
        rangeFirst index start_item end_item fuel stack

def findRange (index : TTreeIndex) (start_key end_key : Bytes) : Lookup :=
  if start_key.length > SecondaryIndexItem.KEY_DATA ∨ end_key.length > SecondaryIndexItem.KEY_DATA then none
  else
    (index.pushLeft (STACK+1) index.root []).bind fun stack =>
      index.rangeFirst (.ofKey start_key 0) (.ofKey end_key 0) (index.max_nodes+1) stack

def Stored (index : TTreeIndex) (item : SecondaryIndexItem) : Prop :=
  ∃ node, InTree index node ∧ item ∈ (index.nodes node).filled

end TTreeIndex

inductive AnySecondaryIndex where
  | sortedArray (index : SecondaryIndex)
  | bTree (index : BTreeIndex)
  | tTree (index : TTreeIndex)

namespace AnySecondaryIndex

def find (index : AnySecondaryIndex) (key : Bytes) : Lookup :=
  match index with
  | .sortedArray index => index.find key
  | .bTree index => index.find key
  | .tTree index => index.find key

def findRange (index : AnySecondaryIndex) (start_key end_key : Bytes) : Lookup :=
  match index with
  | .sortedArray index => index.findRange start_key end_key
  | .bTree index => index.findRange start_key end_key
  | .tTree index => index.findRange start_key end_key

def Stored (index : AnySecondaryIndex) (item : SecondaryIndexItem) : Prop :=
  match index with
  | .sortedArray index => item ∈ index.items
  | .bTree index => index.Stored item
  | .tTree index => index.Stored item

end AnySecondaryIndex

section Found
variable {record_id : UInt16}

theorem SecondaryIndex.find_stored {index : SecondaryIndex} {key : Bytes} (found : index.find key = some (.ok record_id)) :
    ∃ item ∈ index.items, item.record_id = record_id := by
  unfold SecondaryIndex.find at found
  split at found
  · cases found
  · split at found
    · cases found
    · cases found
    · obtain ⟨item,there,same⟩ := Option.map_eq_some_iff.mp found
      cases same
      exact ⟨item,List.mem_of_getElem? there,rfl⟩

theorem SecondaryIndex.findRange_stored {index : SecondaryIndex} {start_key end_key : Bytes}
    (found : index.findRange start_key end_key = some (.ok record_id)) :
    ∃ item ∈ index.items, item.record_id = record_id := by
  unfold SecondaryIndex.findRange at found
  split at found
  · cases found
  · obtain ⟨start_pos,_,taken⟩ := Option.map_eq_some_iff.mp found
    split at taken
    · rename_i item there
      split at taken
      · cases taken
        exact ⟨item,List.mem_of_getElem? there,rfl⟩
      · cases taken
    · cases taken

namespace BTreeIndex
variable {index : BTreeIndex}

theorem descend_stored {search_item : SecondaryIndexItem} (fuel : Nat) {node : Nat} (inside : InTree index node)
    (found : index.descend search_item fuel node = some (.ok record_id)) :
    ∃ item, Stored index item ∧ item.record_id = record_id := by
  induction fuel generalizing node with
  | zero => cases found
  | succ fuel ih =>
    rw [descend] at found
    split at found
    · rename_i key here
      cases found
      obtain ⟨there,_⟩ := Option.filter_eq_some_iff.mp here
      exact ⟨key,⟨node,inside,List.mem_of_getElem? there⟩,rfl⟩
    · split at found
      · cases found
      · split at found
        · cases found
        · cases found
        · rename_i child below
          exact ih (.kid inside (List.mem_of_getElem? below)) found

theorem find_stored {key : Bytes} (found : index.find key = some (.ok record_id)) :
    ∃ item, Stored index item ∧ item.record_id = record_id := by
  unfold find at found
  split at found
  · cases found
  · split at found
    · cases found
    · rename_i root rooted
      exact descend_stored _ (.root rooted) found

theorem pathTo_inside {start_item : SecondaryIndexItem} (fuel : Nat) {current : Option Nat} {stack path : List Nat}
    (inside : ∀ node, current = some node → InTree index node) (within : ∀ node ∈ stack, InTree index node)
    (path_made : index.pathTo start_item fuel current stack = some path) : ∀ node ∈ path, InTree index node := by
  induction fuel generalizing current stack with
  | zero =>
    cases current with
    | none =>
      cases path_made
      exact within
    | some node => cases path_made
  | succ fuel ih =>
    cases current with
    | none =>
      cases path_made
      exact within
    | some node =>
      have here := inside node rfl
      have longer : ∀ each ∈ node :: stack, InTree index each := by
        intro each member
        rcases List.mem_cons.mp member with rfl | member
        · exact here
        · exact within each member
      rw [pathTo] at path_made
      split at path_made
      · simp only at path_made
        split at path_made
        · cases path_made
          exact longer
        · split at path_made
          · cases path_made
          · rename_i child below
            refine ih ?_ longer path_made
            intro each same
            subst same
            exact .kid here (List.mem_of_getElem? below)
      · cases path_made

theorem searchBelow_stored {end_item : SecondaryIndexItem} (fuel : Nat) {child : Option Nat}
    (inside : ∀ node, child = some node → InTree index node)
    (found : index.searchBelow end_item fuel child = some (some record_id)) :
    ∃ item, Stored index item ∧ item.record_id = record_id := by
  induction fuel generalizing child with
  | zero =>
    cases child with
    | none => cases found
    | some node => cases found
  | succ fuel ih =>
    cases child with
    | none => cases found
    | some node =>
      have here := inside node rfl
      rw [searchBelow] at found
      split at found
      · rename_i key first
        cases found
        obtain ⟨there,_⟩ := Option.filter_eq_some_iff.mp first
        exact ⟨key,⟨node,here,List.mem_of_mem_head? there⟩,rfl⟩
      · split at found
        · cases found
        · split at found
          · cases found
          · rename_i next below
            refine ih ?_ found
            intro each same
            subst same
            exact .kid here (List.mem_of_mem_head? below)

theorem backtrack_stored {start_item end_item : SecondaryIndexItem} {stack : List Nat}
    (within : ∀ node ∈ stack, InTree index node)
    (found : index.backtrack start_item end_item stack = some (.ok record_id)) :
    ∃ item, Stored index item ∧ item.record_id = record_id := by
  induction stack with
  | nil => cases found
  | cons node stack ih =>
    have here := within node List.mem_cons_self
    have rest := ih fun each member => within each (List.mem_cons_of_mem _ member)
    rw [backtrack] at found
    split at found
    · rename_i key there
      cases found
      exact ⟨key,⟨node,here,List.mem_of_mem_drop (List.mem_of_find?_eq_some there)⟩,rfl⟩
    · split at found
      · exact rest found
      · split at found
        · cases found
        · rename_i child below
          split at found
          · cases found
          · rename_i searched
            cases found
            refine searchBelow_stored _ ?_ searched
            intro each same
            subst same
            exact .kid here (List.mem_of_getElem? below)
          · exact rest found

theorem findRange_stored {start_key end_key : Bytes} (found : index.findRange start_key end_key = some (.ok record_id)) :
    ∃ item, Stored index item ∧ item.record_id = record_id := by
  unfold findRange at found
  split at found
  · cases found
  · obtain ⟨stack,path,found⟩ := Option.bind_eq_some_iff.mp found
    refine backtrack_stored (pathTo_inside _ (fun node rooted => .root rooted) ?_ path) found
    intro node member
    cases member

end BTreeIndex

namespace TTreeIndex
variable {index : TTreeIndex}

theorem descend_stored {search_item : SecondaryIndexItem} (fuel : Nat) {current : Option Nat}
    (inside : ∀ node, current = some node → InTree index node)
    (found : index.descend search_item fuel current = some (.ok record_id)) :
    ∃ item, Stored index item ∧ item.record_id = record_id := by
  induction fuel generalizing current with
  | zero =>
    cases current with
    | none => cases found
    | some node => cases found
  | succ fuel ih =>
    cases current with
    | none => cases found
    | some node =>
      have here := inside node rfl
      rw [descend] at found
      split at found
      · rename_i key there
        cases found
        obtain ⟨there,_⟩ := Option.filter_eq_some_iff.mp there
        exact ⟨key,⟨node,here,List.mem_of_getElem? there⟩,rfl⟩
      · refine ih ?_ found
        intro each below
        exact .kid here (TTreeNode.child_mem_kids below)

theorem find_stored {key : Bytes} (found : index.find key = some (.ok record_id)) :
    ∃ item, Stored index item ∧ item.record_id = record_id := by
  unfold find at found
  split at found
  · cases found
  · exact descend_stored _ (fun node rooted => .root rooted) found

theorem pushLeft_inside (fuel : Nat) {current : Option Nat} {stack pushed : List Nat}
    (inside : ∀ node, current = some node → InTree index node) (within : ∀ node ∈ stack, InTree index node)
    (done : index.pushLeft fuel current stack = some pushed) : ∀ node ∈ pushed, InTree index node := by
  induction fuel generalizing current stack with
  | zero =>
    cases current with
    | none =>
      cases done
      exact within
    | some node => cases done
  | succ fuel ih =>
    cases current with
    | none =>
      cases done
      exact within
    | some node =>
      have here := inside node rfl
      rw [pushLeft] at done
      split at done
      · refine ih ?_ ?_ done
        · intro each below
          exact .kid here (by simp [TTreeNode.kids,below])
        · intro each member
          rcases List.mem_cons.mp member with rfl | member
          · exact here
          · exact within each member
      · cases done

theorem firstWithin_mem {start_item end_item : SecondaryIndexItem} {keys : List SecondaryIndexItem}
    (found : firstWithin start_item end_item keys = some key) : key ∈ keys := by
  induction keys with
  | nil => cases found
  | cons first rest ih =>
    rw [firstWithin] at found
    split at found
    · cases found
      exact List.mem_cons_self
    · split at found
      · cases found
      · exact List.mem_cons_of_mem _ (ih found)

theorem rangeFirst_stored {start_item end_item : SecondaryIndexItem} (fuel : Nat) {stack : List Nat}
    (within : ∀ node ∈ stack, InTree index node)
    (found : index.rangeFirst start_item end_item fuel stack = some (.ok record_id)) :
    ∃ item, Stored index item ∧ item.record_id = record_id := by
  induction fuel generalizing stack with
  | zero =>
    cases stack with
    | nil => cases found
    | cons node stack => cases found
  | succ fuel ih =>
    cases stack with
    | nil => cases found
    | cons node stack =>
      have here := within node List.mem_cons_self
      rw [rangeFirst] at found
      split at found
      · rename_i key there
        cases found
        exact ⟨key,⟨node,here,firstWithin_mem there⟩,rfl⟩
      · obtain ⟨pushed,done,found⟩ := Option.bind_eq_some_iff.mp found
        refine ih (pushLeft_inside _ ?_ ?_ done) found
        · intro each below
          exact .kid here (by simp [TTreeNode.kids,below])
        · exact fun each member => within each (List.mem_cons_of_mem _ member)

theorem findRange_stored {start_key end_key : Bytes} (found : index.findRange start_key end_key = some (.ok record_id)) :
    ∃ item, Stored index item ∧ item.record_id = record_id := by
  unfold findRange at found
  split at found
  · cases found
  · obtain ⟨stack,path,found⟩ := Option.bind_eq_some_iff.mp found
    refine rangeFirst_stored _ (pushLeft_inside _ (fun node rooted => .root rooted) ?_ path) found
    intro node member
    cases member

end TTreeIndex

namespace AnySecondaryIndex

theorem find_stored {index : AnySecondaryIndex} {key : Bytes} (found : index.find key = some (.ok record_id)) :
    ∃ item, index.Stored item ∧ item.record_id = record_id := by
  cases index with
  | sortedArray index => exact SecondaryIndex.find_stored found
  | bTree index => exact BTreeIndex.find_stored found
  | tTree index => exact TTreeIndex.find_stored found

theorem findRange_stored {index : AnySecondaryIndex} {start_key end_key : Bytes}
    (found : index.findRange start_key end_key = some (.ok record_id)) :
    ∃ item, index.Stored item ∧ item.record_id = record_id := by
  cases index with
  | sortedArray index => exact SecondaryIndex.findRange_stored found
  | bTree index => exact BTreeIndex.findRange_stored found
  | tTree index => exact TTreeIndex.findRange_stored found

end AnySecondaryIndex
end Found
end RemDb
