import RemDb.Index.SearchTree

namespace RemDb.BTreeIndex
open RemDb.Lib

-- The items whose ids are written below a child, as many as there is room for; the
-- first key beyond the end leaves a node, not the way down to its first child.
def collectBelow (index : BTreeIndex) (end_item : SecondaryIndexItem) : Nat → Option Nat → Nat →
    Option (List SecondaryIndexItem)
  | _, none, _ => some []
  | 0, some _, _ => none
  | fuel+1, some child, room =>
    let child_ref := index.nodes child
    let found := ((filled child_ref).takeWhile fun key => decide (index.compareItems key end_item ≠ .gt)).take room
    if child_ref.is_leaf ∨ room ≤ found.length then some found
    else
      match child_ref.children.head? with
      | none => none
      | some next => (collectBelow index end_item fuel next (room-found.length)).map (found ++ ·)

def collectLast (index : BTreeIndex) (end_item : SecondaryIndexItem) (node_ref : BTreeNode) (room : Nat) :
    Option (List SecondaryIndexItem) :=
  if node_ref.is_leaf ∨ room = 0 then some []
  else
    match node_ref.children[node_ref.key_count.toNat]? with
    | none => none
    | some child => collectBelow index end_item (index.max_nodes+1) child room

-- Back along the path: keys of a node beyond the end are passed over.
def collectBack (index : BTreeIndex) (start_item end_item : SecondaryIndexItem) : List Nat → Nat →
    Option (List SecondaryIndexItem)
  | [], _ => some []
  | node :: stack, room =>
    if room = 0 then some []
    else
      let node_ref := index.nodes node
      let keys := (filled node_ref).drop (index.findKeyPosition node_ref start_item)
      let here := (keys.filter fun key => decide (index.compareItems key end_item ≠ .gt)).take room
      (index.collectLast end_item node_ref (room-here.length)).bind fun below =>
        (collectBack index start_item end_item stack (room-here.length-below.length)).map (here ++ below ++ ·)

def findRangeAll (index : BTreeIndex) (start_key end_key : Bytes) (has_buffer : Bool) (max_records : Nat) :
    Option (Except RemDbError (List UInt16)) :=
  if has_buffer = false then some (.error .unsupportedOperation)
  else if start_key.length > SecondaryIndexItem.KEY_DATA ∨ end_key.length > SecondaryIndexItem.KEY_DATA then none
  else
    (index.pathTo (.ofKey start_key 0) (index.max_nodes+1) index.root []).bind fun stack =>
      (index.collectBack (.ofKey start_key 0) (.ofKey end_key 0) stack max_records).map
        fun found => .ok (found.map (·.record_id))

section Reached
variable (start_item end_item : SecondaryIndexItem)

def within (keys : List SecondaryIndexItem) : List SecondaryIndexItem :=
  (keys.drop (lowerBound RemDb.compareItems keys start_item)).filter
    fun key => decide (RemDb.compareItems key end_item ≠ .gt)

-- What the walk takes of a last child: the keys of its node, of its first child
-- and so on, each up to the end.
def BTree.spine : BTree → List SecondaryIndexItem
  | .leaf keys => keys.takeWhile fun key => decide (RemDb.compareItems key end_item ≠ .gt)
  | .inner first rest => (rest.keys.takeWhile fun key => decide (RemDb.compareItems key end_item ≠ .gt)) ++ first.spine

def BTree.lastSpine : BTree → List SecondaryIndexItem
  | .leaf _ => []
  | .inner first rest => (childAt first rest rest.keys.length).spine end_item

def BTree.own (tree : BTree) : List SecondaryIndexItem :=
  within start_item end_item tree.nodeKeys ++ tree.lastSpine end_item

-- What the walk takes of a tree, the deepest node of the path first.
mutual
def BTree.reached : BTree → List SecondaryIndexItem
  | .leaf keys => (BTree.leaf keys).own start_item end_item
  | .inner first rest => rest.reachedFrom first.reached ++ (BTree.inner first rest).own start_item end_item

def BForest.reachedFrom : BForest → List SecondaryIndexItem → List SecondaryIndexItem
  | .nil, here => here
  | .cons key tree rest, here =>
    if RemDb.compareItems key start_item = .lt then rest.reachedFrom tree.reached else here
end

theorem reachedFrom_childAt : ∀ (first : BTree) (rest : BForest),
    rest.reachedFrom start_item end_item (first.reached start_item end_item) =
      (childAt first rest (lowerBound RemDb.compareItems rest.keys start_item)).reached start_item end_item
  | first, .nil => by
    rw [BForest.reachedFrom,BForest.keys,lowerBound,List.takeWhile_nil,List.length_nil,childAt]
  | first, .cons key tree rest => by
    rw [BForest.reachedFrom,BForest.keys,lowerBound]
    by_cases less : RemDb.compareItems key start_item = .lt
    · rw [if_pos less,List.takeWhile_cons_of_pos (by simpa using less),List.length_cons,childAt,
        reachedFrom_childAt tree rest]
      rfl
    · rw [if_neg less,List.takeWhile_cons_of_neg (by simpa using less),List.length_nil,childAt]

end Reached

section Walk
variable {index : BTreeIndex} (start_item end_item : SecondaryIndexItem)

theorem collectBelow_spelled (fuel : Nat) {tree : BTree} {node : Nat} (spelled : Spells index tree node)
    (enough : tree.height ≤ fuel) (room : Nat) :
    index.collectBelow end_item fuel (some node) room = some ((tree.spine end_item).take room) := by
  induction fuel generalizing tree node room with
  | zero =>
    cases tree with
    | leaf keys => cases enough
    | inner first rest => cases enough
  | succ fuel ih =>
    rw [collectBelow]
    simp only [spells_filled spelled,compareItems_same]
    cases tree with
    | leaf keys =>
      rw [Spells] at spelled
      rw [if_pos (.inl spelled.1)]
      rfl
    | inner first rest =>
      rw [Spells] at spelled
      obtain ⟨inner,_,⟨child,kid,below⟩,_⟩ := spelled
      have levels : max first.height rest.height ≤ fuel := Nat.le_of_succ_le_succ enough
      simp only [BTree.nodeKeys,BTree.spine,List.take_append,inner,Bool.false_eq_true,false_or]
      split
      · next full =>
        rw [List.length_take] at full
        have spent : room-(rest.keys.takeWhile fun key => decide (RemDb.compareItems key end_item ≠ .gt)).length = 0 := by
          omega
        rw [spent,List.take_zero,List.append_nil]
      · next more =>
        rw [List.length_take,Nat.min_eq_right (by rw [List.length_take] at more; omega)]
        rw [List.head?_eq_getElem?,kid]
        simp only [ih below (Nat.le_trans (Nat.le_max_left _ _) levels),Option.map_some]

theorem searchBelow_spelled (fuel : Nat) {tree : BTree} {node : Nat} (spelled : Spells index tree node)
    (enough : tree.height ≤ fuel) :
    index.searchBelow end_item fuel (some node) = some ((tree.spine end_item).head?.map (·.record_id)) := by
  induction fuel generalizing tree node with
  | zero =>
    cases tree with
    | leaf keys => cases enough
    | inner first rest => cases enough
  | succ fuel ih =>
    rw [searchBelow]
    simp only [spells_filled spelled,compareItems_same]
    cases tree with
    | leaf keys =>
      rw [Spells] at spelled
      rw [BTree.spine,List.head?_takeWhile,BTree.nodeKeys]
      cases keys.head?.filter fun key => decide (RemDb.compareItems key end_item ≠ .gt) with
      | none => simp [spelled.1]
      | some key => rfl
    | inner first rest =>
      rw [Spells] at spelled
      obtain ⟨inner,_,⟨child,kid,below⟩,_⟩ := spelled
      have levels : max first.height rest.height ≤ fuel := Nat.le_of_succ_le_succ enough
      rw [BTree.spine,List.head?_append,List.head?_takeWhile,BTree.nodeKeys]
      cases rest.keys.head?.filter fun key => decide (RemDb.compareItems key end_item ≠ .gt) with
      | none =>
        simp only [inner,Bool.false_eq_true,if_false,List.head?_eq_getElem?,kid,Option.none_or]
        rw [ih below (Nat.le_trans (Nat.le_max_left _ _) levels),List.head?_eq_getElem?]
      | some key => rfl

theorem collectLast_spelled {tree : BTree} {node : Nat} (spelled : Spells index tree node)
    (deep : tree.height ≤ index.max_nodes+1) (room : Nat) :
    index.collectLast end_item (index.nodes node) room = some ((tree.lastSpine end_item).take room) := by
  rw [collectLast]
  cases tree with
  | leaf keys =>
    rw [Spells] at spelled
    rw [if_pos (.inl spelled.1),BTree.lastSpine,List.take_nil]
  | inner first rest =>
    rw [Spells] at spelled
    obtain ⟨inner,_,start,onward⟩ := spelled
    have count := (spellsFrom_keys rest 0 onward).1
    obtain ⟨child,kid,below⟩ := spellsFrom_child first rest 0 rest.keys.length start onward (Nat.le_refl _)
    have levels : max first.height rest.height ≤ index.max_nodes := Nat.le_of_succ_le_succ deep
    have last := Nat.le_trans (childAt_height first rest rest.keys.length) (Nat.le_succ_of_le levels)
    rw [← count] at kid
    by_cases spent : room = 0
    · rw [if_pos (.inr spent),spent,List.take_zero]
    · rw [if_neg (by simp [inner,spent]),kid]
      exact collectBelow_spelled end_item (index.max_nodes+1) below last room

theorem collectBack_node {tree : BTree} {node : Nat} (spelled : Spells index tree node)
    (deep : tree.height ≤ index.max_nodes+1) (stack : List Nat) (room : Nat) :
    index.collectBack start_item end_item (node :: stack) room =
      (index.collectBack start_item end_item stack (room-(tree.own start_item end_item).length)).map
        ((tree.own start_item end_item).take room ++ ·) := by
  have spent : index.collectBack start_item end_item stack 0 = some [] := by
    cases stack with
    | nil => rfl
    | cons node stack => rfl
  rw [collectBack]
  by_cases none_left : room = 0
  · rw [if_pos none_left,none_left,Nat.zero_sub,spent]
    rfl
  · have here : ((filled (index.nodes node)).drop (index.findKeyPosition (index.nodes node) start_item)).filter
        (fun key => decide (index.compareItems key end_item ≠ .gt)) = within start_item end_item tree.nodeKeys := by
      rw [findKeyPosition,spells_filled spelled,compareItems_same]
      rfl
    have left : room-min room (within start_item end_item tree.nodeKeys).length =
        room-(within start_item end_item tree.nodeKeys).length := by omega
    rw [if_neg none_left]
    simp only [here,collectLast_spelled end_item spelled deep,Option.bind_some,List.length_take,left,BTree.own,
      List.take_append,List.length_append]
    congr 2
    omega

theorem backtrack_node {tree : BTree} {node : Nat} (spelled : Spells index tree node)
    (deep : tree.height ≤ index.max_nodes+1) (stack : List Nat) :
    index.backtrack start_item end_item (node :: stack) = match (tree.own start_item end_item).head? with
      | some item => some (.ok item.record_id)
      | none => index.backtrack start_item end_item stack := by
  have here : ((filled (index.nodes node)).drop (index.findKeyPosition (index.nodes node) start_item)).find?
      (fun key => decide (index.compareItems key end_item ≠ .gt)) = (within start_item end_item tree.nodeKeys).head? := by
    rw [findKeyPosition,spells_filled spelled,compareItems_same,within,List.head?_filter]
  rw [backtrack]
  simp only [here,BTree.own,List.head?_append]
  cases (within start_item end_item tree.nodeKeys).head? with
  | some item => rfl
  | none =>
    rw [Option.none_or]
    cases tree with
    | leaf keys =>
      rw [Spells] at spelled
      simp only [spelled.1,if_true,BTree.lastSpine,List.head?_nil]
    | inner first rest =>
      rw [Spells] at spelled
      obtain ⟨inner,_,start,onward⟩ := spelled
      have count := (spellsFrom_keys rest 0 onward).1
      obtain ⟨child,kid,below⟩ := spellsFrom_child first rest 0 rest.keys.length start onward (Nat.le_refl _)
      have levels : max first.height rest.height ≤ index.max_nodes := Nat.le_of_succ_le_succ deep
      have last := Nat.le_trans (childAt_height first rest rest.keys.length) (Nat.le_succ_of_le levels)
      rw [← count] at kid
      simp only [inner,Bool.false_eq_true,if_false,kid,searchBelow_spelled end_item (index.max_nodes+1) below last,
        BTree.lastSpine]
      cases ((childAt first rest rest.keys.length).spine end_item).head? with
      | none => rfl
      | some item => rfl

theorem pathTo_spelled (fuel : Nat) {tree : BTree} {node : Nat} (spelled : Spells index tree node)
    (enough : tree.height ≤ fuel) (deep : tree.height ≤ index.max_nodes+1) (stack : List Nat)
    (fits : stack.length+tree.height ≤ STACK) :
    ∃ path, index.pathTo start_item fuel (some node) stack = some (path ++ stack) ∧
      (∀ below room, index.collectBack start_item end_item (path ++ below) room =
        (index.collectBack start_item end_item below (room-(tree.reached start_item end_item).length)).map
          ((tree.reached start_item end_item).take room ++ ·)) ∧
      ∀ below, index.backtrack start_item end_item (path ++ below) =
        match (tree.reached start_item end_item).head? with
        | some item => some (.ok item.record_id)
        | none => index.backtrack start_item end_item below := by
  induction fuel generalizing tree node stack with
  | zero =>
    cases tree with
    | leaf keys => cases enough
    | inner first rest => cases enough
  | succ fuel ih =>
    have collected := collectBack_node start_item end_item spelled deep
    have tracked := backtrack_node start_item end_item spelled deep
    rw [pathTo]
    cases tree with
    | leaf keys =>
      rw [Spells] at spelled
      have room : stack.length < STACK := Nat.lt_of_succ_le fits
      simp only [if_pos room,spelled.1,if_true,BTree.reached]
      exact ⟨[node],rfl,collected,tracked⟩
    | inner first rest =>
      have position : index.findKeyPosition (index.nodes node) start_item =
          lowerBound RemDb.compareItems rest.keys start_item := by
        rw [findKeyPosition,spells_filled spelled,compareItems_same]
        rfl
      rw [Spells] at spelled
      obtain ⟨inner,_,start,onward⟩ := spelled
      have bound : lowerBound RemDb.compareItems rest.keys start_item ≤ rest.keys.length :=
        (List.takeWhile_prefix _).length_le
      obtain ⟨child,kid,below⟩ := spellsFrom_child first rest 0 _ start onward bound
      have shorter := childAt_height first rest (lowerBound RemDb.compareItems rest.keys start_item)
      have levels : max first.height rest.height+1 ≤ fuel+1 := enough
      have levels' : max first.height rest.height+1 ≤ index.max_nodes+1 := deep
      have levels'' : stack.length+(max first.height rest.height+1) ≤ STACK := fits
      have room : stack.length < STACK := by omega
      have fits_below : (node :: stack).length+(childAt first rest
          (lowerBound RemDb.compareItems rest.keys start_item)).height ≤ STACK := by
        rw [List.length_cons]
        omega
      obtain ⟨path,ran,collected_below,tracked_below⟩ := ih below (by omega) (by omega) (node :: stack) fits_below
      rw [Nat.zero_add] at kid
      simp only [if_pos room,inner,Bool.false_eq_true,if_false,position,kid,ran]
      rw [BTree.reached,reachedFrom_childAt]
      refine ⟨path ++ [node],by simp,?_,?_⟩
      · intro below room
        rw [List.append_assoc,collected_below,List.singleton_append,collected,Option.map_map,List.length_append,
          List.take_append,Nat.sub_sub]
        congr 1
        funext rest
        simp
      · intro below
        rw [List.append_assoc,tracked_below,List.singleton_append,tracked,List.head?_append]
        cases ((childAt first rest (lowerBound RemDb.compareItems rest.keys start_item)).reached start_item
            end_item).head? with
        | some item => rfl
        | none => rfl

end Walk

-- The tree of an index; one without a root holds nothing.
def Grown (index : BTreeIndex) (tree : BTree) : Prop :=
  (index.root = none ∧ tree = .leaf []) ∨ ∃ root, SearchTree index tree root

section Walks
variable {index : BTreeIndex} {tree : BTree} {start_key end_key : Bytes}

theorem findRangeAll_grown (grown : Grown index tree) (flat : tree.height ≤ STACK)
    (short : start_key.length ≤ SecondaryIndexItem.KEY_DATA ∧ end_key.length ≤ SecondaryIndexItem.KEY_DATA)
    (max_records : Nat) : index.findRangeAll start_key end_key true max_records =
      some (.ok (((tree.reached (.ofKey start_key 0) (.ofKey end_key 0)).take max_records).map (·.record_id))) := by
  rw [findRangeAll,if_neg (by decide),if_neg (by omega)]
  rcases grown with ⟨empty,rfl⟩ | ⟨root,search⟩
  · rw [empty]
    simp [pathTo,collectBack,BTree.reached,BTree.own,BTree.nodeKeys,BTree.lastSpine,within]
  · obtain ⟨path,ran,collected,_⟩ := pathTo_spelled (.ofKey start_key 0) (.ofKey end_key 0) (index.max_nodes+1)
      search.spelled (Nat.le_succ_of_le search.levels) (Nat.le_succ_of_le search.levels) []
      (by rw [List.length_nil,Nat.zero_add]; exact flat)
    have whole := collected [] max_records
    rw [List.append_nil] at whole ran
    rw [search.rooted,ran,Option.bind_some,whole]
    simp [collectBack]

theorem findRange_grown (grown : Grown index tree) (flat : tree.height ≤ STACK)
    (short : start_key.length ≤ SecondaryIndexItem.KEY_DATA ∧ end_key.length ≤ SecondaryIndexItem.KEY_DATA) :
    index.findRange start_key end_key = some (match (tree.reached (.ofKey start_key 0) (.ofKey end_key 0)).head? with
      | some item => .ok item.record_id
      | none => .error .recordNotFound) := by
  rw [findRange,if_neg (by omega)]
  rcases grown with ⟨empty,rfl⟩ | ⟨root,search⟩
  · rw [empty]
    simp [pathTo,backtrack,BTree.reached,BTree.own,BTree.nodeKeys,BTree.lastSpine,within]
  · obtain ⟨path,ran,_,tracked⟩ := pathTo_spelled (.ofKey start_key 0) (.ofKey end_key 0) (index.max_nodes+1)
      search.spelled (Nat.le_succ_of_le search.levels) (Nat.le_succ_of_le search.levels) []
      (by rw [List.length_nil,Nat.zero_add]; exact flat)
    have whole := tracked []
    rw [List.append_nil] at whole ran
    rw [search.rooted,ran,Option.bind_some,whole]
    cases (tree.reached (.ofKey start_key 0) (.ofKey end_key 0)).head? with
    | none => rfl
    | some item => rfl

end Walks
end RemDb.BTreeIndex
