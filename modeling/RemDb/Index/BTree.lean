import RemDb.Index.Items

namespace RemDb
open RemDb.Lib

def BTREE_ORDER : Nat := 4

structure BTreeNode where
  is_leaf : Bool
  key_count : UInt8
  keys : List SecondaryIndexItem
  children : List (Option Nat)
deriving DecidableEq,Repr

def BTreeNode.blank : BTreeNode :=
  ⟨true,0,List.replicate BTREE_ORDER .blank,List.replicate (BTREE_ORDER+1) none⟩

-- Node pointers are positions in the pool. The free list is threaded through
-- key bytes of free nodes; it is kept as the list it spells. `refused` notes
-- that an allocation failed, which the code does not record.
structure BTreeIndex where
  tdef : TableDef
  secondary_index : Option (List Nat)
  root : Option Nat
  nodes : Nat → BTreeNode
  free_nodes : List Nat
  max_nodes : Nat
  stats : IndexStats
  refused : Bool

namespace BTreeIndex

abbrev Action := IndexAction BTreeIndex

-- `size_of::<BTreeNode>()`.
def nodeBytes : Nat := 576

def new (tdef : TableDef) (secondary_index : Option (List Nat)) (max_nodes : Nat) : BTreeIndex :=
  { tdef := tdef
    secondary_index := secondary_index
    root := none
    nodes := fun _ => .blank
    free_nodes := List.range max_nodes
    max_nodes := max_nodes
    stats := ⟨0,0,max_nodes*nodeBytes % usizeLimit,0⟩
    refused := false }

def textual (index : BTreeIndex) : Bool :=
  match index.secondary_index with
  | some (column :: _) =>
    match index.tdef.fields[column]? with
    | some field => field.data_type.isText
    | none => false
  | _ => false

def isUtf8 (bytes : Bytes) : Bool := (String.fromUTF8? ⟨bytes.toArray⟩).isSome

-- Strings compare by their bytes, as keys do.
def compareItems (index : BTreeIndex) (item1 item2 : SecondaryIndexItem) : Ordering :=
  if item1.key_size ≠ item2.key_size then compare item1.key_size item2.key_size
  else if index.textual ∧ isUtf8 item1.key ∧ isUtf8 item2.key ∧ compare item1.key item2.key ≠ .eq then
    compare item1.key item2.key
  else (compare item1.key item2.key).then (compare item1.record_id item2.record_id)

def filled (node : BTreeNode) : List SecondaryIndexItem := node.keys.take node.key_count.toNat

def findKeyPosition (index : BTreeIndex) (node : BTreeNode) (key : SecondaryIndexItem) : Nat :=
  lowerBound index.compareItems (filled node) key

def setNode (node : Nat) (value : BTreeNode) : Action Unit :=
  modify fun index => {index with nodes:=assign index.nodes node value}

def allocateNode : Action Nat := do
  let index ← get
  match index.free_nodes with
  | [] =>
    set {index with refused:=true}
    throw (.error .outOfMemory)
  | node :: rest =>
    set {index with free_nodes:=rest,nodes:=assign index.nodes node .blank}
    pure node

-- The children of the new node: copied only from an inner node.
def splitChildren (child_node new_node : BTreeNode) : Action (List (Option Nat)) :=
  if child_node.is_leaf then pure new_node.children
  else orPanic (copyFrom child_node.children (BTREE_ORDER/2+1) (BTREE_ORDER/2+1) new_node.children)

def splitChild (parent child_idx child : Nat) : Action Unit := do
  let new_node ← allocateNode
  let index ← get
  let child_node := index.nodes child
  let keys ← orPanic (copyFrom child_node.keys (BTREE_ORDER/2+1) (BTREE_ORDER/2) (index.nodes new_node).keys)
  let children ← splitChildren child_node (index.nodes new_node)
  setNode new_node ⟨child_node.is_leaf,UInt8.ofNat (BTREE_ORDER/2),keys,children⟩
  setNode child {child_node with key_count:=UInt8.ofNat (BTREE_ORDER/2)}
  let parent_node := (← get).nodes parent
  let middle ← orPanic child_node.keys[BTREE_ORDER/2]?
  let parent_keys ← orPanic (insertAt parent_node.keys child_idx parent_node.key_count.toNat middle)
  let parent_children ←
    orPanic (insertAt parent_node.children (child_idx+1) (parent_node.key_count.toNat+1) (some new_node))
  setNode parent {parent_node with
    keys:=parent_keys,children:=parent_children,key_count:=parent_node.key_count+1}

-- Where the descent goes on: a full child is split first, and the key then goes
-- to the half it belongs to.
def childPosition (key : SecondaryIndexItem) (node pos child : Nat) : Action Nat := do
  let index ← get
  if (index.nodes child).key_count = UInt8.ofNat BTREE_ORDER then
    splitChild node pos child
    let index ← get
    let middle ← orPanic (index.nodes node).keys[pos]?
    pure (if index.compareItems middle key = .lt then pos+1 else pos)
  else pure pos

def insertNonFull (key : SecondaryIndexItem) : Nat → Nat → Action Unit
  | 0, _ => throw .diverged
  | fuel+1, node => do
    let index ← get
    let node_ref := index.nodes node
    let pos := index.findKeyPosition node_ref key
    if node_ref.is_leaf then
      let keys ← orPanic (insertAt node_ref.keys pos node_ref.key_count.toNat key)
      setNode node {node_ref with keys:=keys,key_count:=node_ref.key_count+1}
      modify fun index =>
        {index with stats:={index.stats with item_count:=usizeAdd index.stats.item_count 1}}
    else
      let child ← orError (.invalidData "Child node not found") (← orPanic node_ref.children[pos]?)
      let pos ← childPosition key node pos child
      let next ← orError (.invalidData "Child node not found after split") (← orPanic ((← get).nodes node).children[pos]?)
      insertNonFull key fuel next

def plantRoot (item : SecondaryIndexItem) : Action Unit := do
  let root_node ← allocateNode
  let node := (← get).nodes root_node
  let keys ← orPanic (store node.keys 0 item)
  setNode root_node {node with keys:=keys,key_count:=1}
  modify fun index => {index with root:=some root_node}

def splitRoot (item : SecondaryIndexItem) (root fuel : Nat) : Action Unit := do
  let new_root ← allocateNode
  let node := (← get).nodes new_root
  let children ← orPanic (store node.children 0 (some root))
  setNode new_root {node with is_leaf:=false,key_count:=0,children:=children}
  quiet (splitChild new_root 0 root)
  quiet (insertNonFull item fuel new_root)
  modify fun index => {index with root:=some new_root}

def insert (key : Bytes) (record_id : UInt16) : Action Unit := do
  let index ← get
  let item := SecondaryIndexItem.ofKey key record_id
  if key.length > SecondaryIndexItem.KEY_LIMIT then throw (.error .unsupportedOperation)
  else match index.root with
    | none => plantRoot item
    | some root =>
      if (index.nodes root).key_count = UInt8.ofNat BTREE_ORDER then
        splitRoot item root (index.max_nodes+1)
      else quiet (insertNonFull item (index.max_nodes+1) root)

def insertAll (calls : List (Bytes × UInt16)) : Action Unit :=
  calls.forM fun call => quiet (insert call.1 call.2)

end BTreeIndex
end RemDb
namespace RemDb.BTreeIndex
open RemDb.Lib

theorem compareItems_plain (index : BTreeIndex) (item1 item2 : SecondaryIndexItem) :
    index.compareItems item1 item2 = RemDb.compareItems item1 item2 := by
  simp only [compareItems,RemDb.compareItems,compareLex,compareOn]
  by_cases sizes : item1.key_size = item2.key_size
  · have equal : compare item1.key_size item2.key_size = .eq :=
      Std.LawfulEqCmp.compare_eq_iff_eq.mpr sizes
    rw [if_neg (by simpa using sizes),equal,Ordering.eq_then]
    split
    · rename_i text
      cases order : compare item1.key item2.key with
      | lt => rfl
      | eq => exact absurd order text.2.2.2
      | gt => rfl
    · rfl
  · rw [if_pos sizes]
    cases order : compare item1.key_size item2.key_size with
    | lt => rfl
    | eq => exact absurd (Std.LawfulEqCmp.compare_eq_iff_eq.mp order) sizes
    | gt => rfl

theorem compareItems_same (index : BTreeIndex) : index.compareItems = RemDb.compareItems := by
  funext item1 item2
  exact index.compareItems_plain item1 item2

theorem run_setNode (node : Nat) (value : BTreeNode) (index : BTreeIndex) :
    (setNode node value).run index = .ok () {index with nodes:=assign index.nodes node value} := rfl

theorem run_allocateNode {index : BTreeIndex} (free : index.free_nodes = node :: rest) :
    allocateNode.run index =
      .ok node {index with free_nodes:=rest,nodes:=assign index.nodes node .blank} := by
  simp only [allocateNode,EStateM.run_bind,EStateM.run_get,free]
  rfl

theorem run_allocateNode_none {index : BTreeIndex} (free : index.free_nodes = []) :
    allocateNode.run index = .error (.error .outOfMemory) {index with refused:=true} := by
  simp only [allocateNode,EStateM.run_bind,EStateM.run_get,free]
  rfl

abbrev Refused (index : BTreeIndex) : Prop := index.refused = true

theorem allocateNode_refused : Keeps Refused allocateNode := by
  intro index held
  cases free : index.free_nodes with
  | nil =>
    rw [run_allocateNode_none free]
    rfl
  | cons node rest =>
    rw [run_allocateNode free]
    exact held

theorem setNode_refused (node : Nat) (value : BTreeNode) : Keeps Refused (setNode node value) :=
  keeps_modify _ fun _ held => held

theorem splitChildren_refused (child_node new_node : BTreeNode) :
    Keeps Refused (splitChildren child_node new_node) := by
  unfold splitChildren
  split
  · exact keeps_pure _
  · exact keeps_orPanic _

theorem splitChild_refused (parent child_idx child : Nat) :
    Keeps Refused (splitChild parent child_idx child) := by
  refine keeps_bind allocateNode_refused ?_
  intro new_node
  refine keeps_bind keeps_get ?_
  intro index
  refine keeps_bind (keeps_orPanic _) ?_
  intro keys
  refine keeps_bind (splitChildren_refused _ _) ?_
  intro children
  refine keeps_bind (setNode_refused _ _) ?_
  intro _
  refine keeps_bind (setNode_refused _ _) ?_
  intro _
  refine keeps_bind keeps_get ?_
  intro parent_index
  refine keeps_bind (keeps_orPanic _) ?_
  intro middle
  refine keeps_bind (keeps_orPanic _) ?_
  intro parent_keys
  refine keeps_bind (keeps_orPanic _) ?_
  intro parent_children
  exact setNode_refused _ _

theorem childPosition_refused (key : SecondaryIndexItem) (node pos child : Nat) :
    Keeps Refused (childPosition key node pos child) := by
  refine keeps_bind keeps_get ?_
  intro index
  split
  · refine keeps_bind (splitChild_refused _ _ _) ?_
    intro _
    refine keeps_bind keeps_get ?_
    intro after
    refine keeps_bind (keeps_orPanic _) ?_
    intro middle
    exact keeps_pure _
  · exact keeps_pure _

theorem insertNonFull_refused (key : SecondaryIndexItem) (fuel : Nat) :
    ∀ node, Keeps Refused (insertNonFull key fuel node) := by
  induction fuel with
  | zero =>
    intro node
    exact keeps_throw _
  | succ fuel ih =>
    intro node
    refine keeps_bind keeps_get ?_
    intro index
    dsimp only
    split
    · refine keeps_bind (keeps_orPanic _) ?_
      intro keys
      refine keeps_bind (setNode_refused _ _) ?_
      intro _
      exact keeps_modify _ fun _ held => held
    · refine keeps_bind (keeps_orPanic _) ?_
      intro slot
      refine keeps_bind (keeps_orError _ _) ?_
      intro child
      refine keeps_bind (childPosition_refused _ _ _ _) ?_
      intro pos
      refine keeps_bind keeps_get ?_
      intro after
      refine keeps_bind (keeps_orPanic _) ?_
      intro slot
      refine keeps_bind (keeps_orError _ _) ?_
      intro next
      exact ih next

theorem plantRoot_refused (item : SecondaryIndexItem) : Keeps Refused (plantRoot item) := by
  refine keeps_bind allocateNode_refused ?_
  intro root_node
  refine keeps_bind keeps_get ?_
  intro index
  refine keeps_bind (keeps_orPanic _) ?_
  intro keys
  refine keeps_bind (setNode_refused _ _) ?_
  intro _
  exact keeps_modify _ fun _ held => held

theorem splitRoot_refused (item : SecondaryIndexItem) (root fuel : Nat) :
    Keeps Refused (splitRoot item root fuel) := by
  refine keeps_bind allocateNode_refused ?_
  intro new_root
  refine keeps_bind keeps_get ?_
  intro index
  refine keeps_bind (keeps_orPanic _) ?_
  intro children
  refine keeps_bind (setNode_refused _ _) ?_
  intro _
  refine keeps_bind (keeps_quiet (splitChild_refused _ _ _)) ?_
  intro _
  refine keeps_bind (keeps_quiet (insertNonFull_refused _ _ _)) ?_
  intro _
  exact keeps_modify _ fun _ held => held

theorem insert_refused (key : Bytes) (record_id : UInt16) : Keeps Refused (insert key record_id) := by
  refine keeps_bind keeps_get ?_
  intro index
  dsimp only
  split
  · exact keeps_throw _
  split
  · exact plantRoot_refused _
  split
  · exact splitRoot_refused _ _ _
  · exact keeps_quiet (insertNonFull_refused _ _ _)

theorem insertAll_refused (calls : List (Bytes × UInt16)) : Keeps Refused (insertAll calls) :=
  keeps_forM _ _ fun _ _ => keeps_quiet (insert_refused _ _)

-- The root is a leaf that holds `items`, and no spare node.
structure LeafRoot (index : BTreeIndex) (root : Nat) (items : List SecondaryIndexItem) : Prop where
  rooted : index.root = some root
  apart : root ∉ index.free_nodes
  node : ∃ spare children, index.nodes root = ⟨true,UInt8.ofNat items.length,items ++ spare,children⟩ ∧
    items.length+spare.length = BTREE_ORDER
  sorted : SortedItems items

theorem count_toNat (small : count ≤ BTREE_ORDER) : (UInt8.ofNat count).toNat = count := by
  rw [UInt8.toNat_ofNat']
  simp only [BTREE_ORDER] at small
  omega

theorem insertNonFull_leaf {index : BTreeIndex} {root : Nat} (leaf : LeafRoot index root items)
    (room : items.length < BTREE_ORDER) (item : SecondaryIndexItem) (fuel : Nat) :
    ∃ after items', (insertNonFull item (fuel+1) root).run index = .ok () after ∧
      LeafRoot after root items' ∧ items'.Perm (item :: items) := by
  obtain ⟨rooted,apart,⟨spare,children,node,total⟩,sorted⟩ := leaf
  obtain ⟨front,back,rfl,bound,_,keeps⟩ := insertItem_place items item
  have sorted' := keeps sorted
  have count := count_toNat (Nat.le_of_lt room)
  have kept : filled (index.nodes root) = front ++ back := by
    rw [node,filled,count]
    exact List.take_left
  cases spare with
  | nil =>
    rw [List.length_nil] at total
    omega
  | cons old spare =>
    have inserted : insertAt ((front ++ back) ++ old :: spare) front.length (front ++ back).length item =
        some (front ++ item :: back ++ spare) := by
      rw [List.length_append]
      exact insertAt_filled front back spare old item
    refine ⟨{index with
      nodes:=assign index.nodes root
        ⟨true,UInt8.ofNat (front ++ back).length+1,front ++ item :: back ++ spare,children⟩
      stats:={index.stats with item_count:=usizeAdd index.stats.item_count 1}},front ++ item :: back,?_,
      ⟨rooted,apart,⟨spare,children,?_,?_⟩,sorted'⟩,List.perm_middle⟩
    · simp only [insertNonFull,EStateM.run_bind,EStateM.run_get,findKeyPosition,kept,compareItems_same,bound]
      simp only [node,count,inserted,orPanic,EStateM.run_bind,EStateM.run_pure,run_setNode,if_true]
      rfl
    · dsimp only
      rw [assign_same]
      congr 1
      rw [← UInt8.ofNat_one,← UInt8.ofNat_add]
      simp [Nat.add_assoc]
    · simp only [List.length_append,List.length_cons] at total ⊢
      omega

theorem insert_leaf {index : BTreeIndex} {root : Nat} (leaf : LeafRoot index root items)
    (room : items.length < BTREE_ORDER) (short : key.length ≤ SecondaryIndexItem.KEY_LIMIT)
    (record_id : UInt16) :
    ∃ after items', (quiet (insert key record_id)).run index = .ok () after ∧
      LeafRoot after root items' ∧ items'.Perm (.ofKey key record_id :: items) := by
  obtain ⟨after,items',stored,leaf',order⟩ :=
    insertNonFull_leaf leaf room (.ofKey key record_id) index.max_nodes
  obtain ⟨spare,children,node,total⟩ := leaf.node
  have open_root : (index.nodes root).key_count ≠ UInt8.ofNat BTREE_ORDER := by
    intro full
    rw [node] at full
    have counts := congrArg UInt8.toNat full
    rw [count_toNat (Nat.le_of_lt room),count_toNat (Nat.le_refl _)] at counts
    omega
  have long : ¬key.length > SecondaryIndexItem.KEY_LIMIT := by omega
  refine ⟨after,items',?_,leaf',order⟩
  simp only [quiet_run,insert,EStateM.run_bind,EStateM.run_get,leaf.rooted,if_neg long,if_neg open_root,stored]

theorem plant_leaf {index : BTreeIndex} (empty : index.root = none) (distinct : index.free_nodes.Nodup)
    (short : key.length ≤ SecondaryIndexItem.KEY_LIMIT) (record_id : UInt16) :
    Refused (finalState ((quiet (insert key record_id)).run index)) ∨
      ∃ after root, (quiet (insert key record_id)).run index = .ok () after ∧
        LeafRoot after root [.ofKey key record_id] := by
  have long : ¬key.length > SecondaryIndexItem.KEY_LIMIT := by omega
  cases free : index.free_nodes with
  | nil =>
    left
    simp only [quiet_run,insert,EStateM.run_bind,EStateM.run_get,empty,if_neg long,plantRoot,
      run_allocateNode_none free]
    rfl
  | cons root rest =>
    right
    refine ⟨{index with
      root:=some root
      free_nodes:=rest
      nodes:=assign (assign index.nodes root .blank) root
        {BTreeNode.blank with keys:=.ofKey key record_id :: List.replicate 3 .blank,key_count:=1}},
      root,?_,rfl,?_,⟨List.replicate 3 .blank,_,assign_same _ _ _,rfl⟩,List.pairwise_singleton _ _⟩
    · simp only [quiet_run,insert,EStateM.run_bind,EStateM.run_get,empty,if_neg long,plantRoot,
        run_allocateNode free,assign_same]
      rfl
    · rw [free] at distinct
      exact (List.nodup_cons.mp distinct).1

theorem copyFrom_overruns (length : source.length = BTREE_ORDER) (target : List SecondaryIndexItem) :
    copyFrom source (BTREE_ORDER/2+1) (BTREE_ORDER/2) target = none := by
  have missing : source[1+(BTREE_ORDER/2+1)]? = none := List.getElem?_eq_none (by rw [length]; decide)
  change ((source[0+(BTREE_ORDER/2+1)]?).bind (store target 0)).bind
    (fun copied => ((source[1+(BTREE_ORDER/2+1)]?).bind (store copied 1)).bind some) = none
  rw [missing]
  cases (source[0+(BTREE_ORDER/2+1)]?).bind (store target 0) <;> rfl

theorem splitChild_overruns {index : BTreeIndex} (free : index.free_nodes = new_node :: rest)
    (apart : child ≠ new_node) (width : (index.nodes child).keys.length = BTREE_ORDER) (parent child_idx : Nat) :
    (splitChild parent child_idx child).run index =
      .error .panic {index with free_nodes:=rest,nodes:=assign index.nodes new_node .blank} := by
  rw [splitChild,EStateM.run_bind,run_allocateNode free]
  simp only [EStateM.run_bind,EStateM.run_get,assign_other _ apart,copyFrom_overruns width,orPanic]
  rfl

def splitBelow (item : SecondaryIndexItem) (root fuel new_root : Nat) : Action Unit := do
  quiet (splitChild new_root 0 root)
  quiet (insertNonFull item fuel new_root)
  modify fun index => {index with root:=some new_root}

theorem splitBelow_refused (item : SecondaryIndexItem) (root fuel new_root : Nat)
    (failed : Refused (finalState ((splitChild new_root 0 root).run index))) :
    Refused (finalState ((splitBelow item root fuel new_root).run index)) := by
  refine keeps_after ?_ ?_
  · rw [finalState_quiet]
    exact failed
  · intro _
    refine keeps_bind (keeps_quiet (insertNonFull_refused item fuel new_root)) ?_
    intro _
    exact keeps_modify _ fun _ held => held

theorem splitRoot_run {index : BTreeIndex} (free : index.free_nodes = new_root :: rest)
    (item : SecondaryIndexItem) (root fuel : Nat) :
    ∃ raised, (splitRoot item root fuel).run index = (splitBelow item root fuel new_root).run raised ∧
      raised.free_nodes = rest ∧ ∀ other, other ≠ new_root → raised.nodes other = index.nodes other := by
  have blanked := run_allocateNode free
  refine ⟨{index with
    free_nodes:=rest
    nodes:=assign (assign index.nodes new_root .blank) new_root {BTreeNode.blank with
      is_leaf:=false
      children:=some root :: List.replicate BTREE_ORDER none}},?_,rfl,?_⟩
  · simp only [splitRoot,EStateM.run_bind,EStateM.run_get,blanked,assign_same]
    rfl
  · intro other apart
    dsimp only
    rw [assign_other _ apart,assign_other _ apart]

theorem insert_full {index : BTreeIndex} {root : Nat} (leaf : LeafRoot index root items)
    (full : items.length = BTREE_ORDER) (short : key.length ≤ SecondaryIndexItem.KEY_LIMIT)
    (record_id : UInt16) :
    Refused (finalState ((quiet (insert key record_id)).run index)) ∨
      ∃ after, (quiet (insert key record_id)).run index = .error .panic after := by
  obtain ⟨rooted,apart,⟨spare,children,node,total⟩,_⟩ := leaf
  have long : ¬key.length > SecondaryIndexItem.KEY_LIMIT := by omega
  have counted : (index.nodes root).key_count = UInt8.ofNat BTREE_ORDER := by rw [node,full]
  have start : (insert key record_id).run index =
      (splitRoot (.ofKey key record_id) root (index.max_nodes+1)).run index := by
    simp only [insert,EStateM.run_bind,EStateM.run_get,rooted,if_neg long,counted,if_true]
  cases free : index.free_nodes with
  | nil =>
    left
    rw [finalState_quiet,start]
    simp only [splitRoot,EStateM.run_bind,run_allocateNode_none free]
    rfl
  | cons new_root rest =>
    obtain ⟨raised,below,spare_nodes,same⟩ :=
      splitRoot_run free (.ofKey key record_id) root (index.max_nodes+1)
    cases rest with
    | nil =>
      left
      rw [finalState_quiet,start,below]
      apply splitBelow_refused
      rw [splitChild,EStateM.run_bind,run_allocateNode_none spare_nodes]
      rfl
    | cons new_node rest =>
      right
      rw [free] at apart
      have first : root ≠ new_root := fun same => apart (same ▸ List.mem_cons_self)
      have second : root ≠ new_node := fun same =>
        apart (same ▸ List.mem_cons_of_mem _ List.mem_cons_self)
      have width : (raised.nodes root).keys.length = BTREE_ORDER := by
        rw [same root first,node,List.length_append]
        exact total
      rw [quiet_run,start,below,splitBelow,EStateM.run_bind,quiet_run,
        splitChild_overruns spare_nodes second width]
      exact ⟨_,rfl⟩

-- A tree as its nodes spell it: a leaf, or subtrees with keys between them.
mutual
inductive BTree where
  | leaf (keys : List SecondaryIndexItem)
  | inner (first : BTree) (rest : BForest)

inductive BForest where
  | nil
  | cons (key : SecondaryIndexItem) (tree : BTree) (rest : BForest)
end

mutual
def BTree.items : BTree → List SecondaryIndexItem
  | .leaf keys => keys
  | .inner first rest => first.items ++ rest.items

def BForest.items : BForest → List SecondaryIndexItem
  | .nil => []
  | .cons key tree rest => key :: (tree.items ++ rest.items)
end

mutual
def Spells (index : BTreeIndex) : BTree → Nat → Prop
  | .leaf keys, node => (index.nodes node).is_leaf = true ∧
      (index.nodes node).key_count.toNat ≤ BTREE_ORDER ∧ filled (index.nodes node) = keys
  | .inner first rest, node => (index.nodes node).is_leaf = false ∧
      (index.nodes node).key_count.toNat ≤ BTREE_ORDER ∧
      (∃ child, (index.nodes node).children[0]? = some (some child) ∧ Spells index first child) ∧
      SpellsFrom index rest node 0

def SpellsFrom (index : BTreeIndex) : BForest → Nat → Nat → Prop
  | .nil, node, place => place = (index.nodes node).key_count.toNat
  | .cons key tree rest, node, place => (index.nodes node).keys[place]? = some key ∧
      (∃ child, (index.nodes node).children[place+1]? = some (some child) ∧ Spells index tree child) ∧
      SpellsFrom index rest node (place+1)
end

-- No access out of bounds, no more keys in a node than it has room for, and a
-- walk from left to right that passes the inserted items in order: keys within
-- a node ascend and the keys of a node separate its children.
def Faithful (outcome : EStateM.Result IndexFault BTreeIndex Unit) (calls : List (Bytes × UInt16)) : Prop :=
  ∃ index, outcome = .ok () index ∧ match index.root with
    | none => calls = []
    | some root => ∃ tree : BTree, Spells index tree root ∧ SortedItems tree.items ∧
        tree.items.Perm (calls.map fun call => .ofKey call.1 call.2)

theorem insertAll_append (front back : List (Bytes × UInt16)) :
    insertAll (front ++ back) = (insertAll front >>= fun _ => insertAll back) := by
  simp only [insertAll,List.forM_eq_forM,List.forM_append]

theorem insertAll_cons (call : Bytes × UInt16) (rest : List (Bytes × UInt16)) :
    insertAll (call :: rest) = (quiet (insert call.1 call.2) >>= fun _ => insertAll rest) := rfl

theorem insertAll_one (call : Bytes × UInt16) (index : BTreeIndex) :
    (insertAll [call]).run index = (quiet (insert call.1 call.2)).run index := by
  rw [insertAll_cons,EStateM.run_bind]
  cases (quiet (insert call.1 call.2)).run index <;> rfl

theorem insertAll_leaf (tdef : TableDef) (secondary_index : Option (List Nat)) (max_nodes : Nat)
    (calls : List (Bytes × UInt16)) (few : calls.length ≤ BTREE_ORDER)
    (short : ∀ call ∈ calls, call.1.length ≤ SecondaryIndexItem.KEY_LIMIT) :
    Refused (finalState ((insertAll calls).run (new tdef secondary_index max_nodes))) ∨
      (calls = [] ∧ (insertAll calls).run (new tdef secondary_index max_nodes) =
        .ok () (new tdef secondary_index max_nodes)) ∨
      ∃ index root items, (insertAll calls).run (new tdef secondary_index max_nodes) = .ok () index ∧
        LeafRoot index root items ∧ items.Perm (calls.map fun call => .ofKey call.1 call.2) := by
  induction calls using List.reverseRecOn with
  | nil => exact .inr (.inl ⟨rfl,rfl⟩)
  | append_singleton front call ih =>
    rw [List.length_append,List.length_singleton] at few
    have small : call.1.length ≤ SecondaryIndexItem.KEY_LIMIT := short call (by simp)
    have earlier := ih (by omega) fun each member => short each (by simp [member])
    rcases earlier with refused | ⟨rfl,ran⟩ | ⟨index,root,items,ran,leaf,order⟩
    · left
      rw [insertAll_append]
      exact keeps_after refused fun _ => insertAll_refused [call]
    · rw [List.nil_append,insertAll_one]
      have empty : (new tdef secondary_index max_nodes).root = none := rfl
      rcases plant_leaf empty List.nodup_range small call.2 with refused | ⟨after,root,planted,leaf⟩
      · exact .inl refused
      · exact .inr (.inr ⟨after,root,_,planted,leaf,List.Perm.refl _⟩)
    · have room : items.length < BTREE_ORDER := by
        rw [order.length_eq,List.length_map]
        omega
      obtain ⟨after,items',stored,leaf',order'⟩ := insert_leaf leaf room small call.2
      right
      right
      refine ⟨after,root,items',?_,leaf',?_⟩
      · rw [insertAll_append,EStateM.run_bind,ran]
        exact (insertAll_one call index).trans stored
      · rw [List.map_append]
        exact (order'.trans (order.cons _)).trans (List.perm_append_singleton _ _).symm

theorem LeafRoot.spells {index : BTreeIndex} {root : Nat} (leaf : LeafRoot index root items) :
    Spells index (.leaf items) root := by
  obtain ⟨spare,children,node,total⟩ := leaf.node
  have count : (UInt8.ofNat items.length).toNat = items.length := count_toNat (by omega)
  rw [Spells,node]
  refine ⟨rfl,by rw [count]; omega,?_⟩
  rw [filled,count]
  exact List.take_left

theorem insertAll_crash (tdef : TableDef) (secondary_index : Option (List Nat)) (max_nodes : Nat)
    (calls : List (Bytes × UInt16)) (many : BTREE_ORDER < calls.length)
    (short : ∀ call ∈ calls, call.1.length ≤ SecondaryIndexItem.KEY_LIMIT) :
    Refused (finalState ((insertAll calls).run (new tdef secondary_index max_nodes))) ∨
      ∃ after, (insertAll calls).run (new tdef secondary_index max_nodes) = .error .panic after := by
  have enough : (calls.take BTREE_ORDER).length = BTREE_ORDER := by
    rw [List.length_take]
    omega
  have start := insertAll_leaf tdef secondary_index max_nodes (calls.take BTREE_ORDER) (by omega)
    fun call member => short call (List.mem_of_mem_take member)
  cases rest : calls.drop BTREE_ORDER with
  | nil =>
    have ends := List.drop_eq_nil_iff.mp rest
    omega
  | cons call rest' =>
    have parts : calls = calls.take BTREE_ORDER ++ (call :: rest') := by
      rw [← rest,List.take_append_drop]
    have small : call.1.length ≤ SecondaryIndexItem.KEY_LIMIT := short call (by rw [parts]; simp)
    rw [parts,insertAll_append]
    rcases start with refused | ⟨none_taken,_⟩ | ⟨index,root,items,ran,leaf,order⟩
    · exact .inl (keeps_after refused fun _ => insertAll_refused _)
    · rw [none_taken] at enough
      cases enough
    · have full : items.length = BTREE_ORDER := by rw [order.length_eq,List.length_map,enough]
      rw [EStateM.run_bind,ran]
      dsimp only
      rw [insertAll_cons]
      rcases insert_full leaf full small call.2 with refused | ⟨after,crashed⟩
      · exact .inl (keeps_after refused fun _ => insertAll_refused _)
      · right
        rw [EStateM.run_bind,crashed]
        exact ⟨after,rfl⟩

theorem insertAll_faithful_iff (tdef : TableDef) (secondary_index : Option (List Nat)) (max_nodes : Nat)
    (calls : List (Bytes × UInt16))
    (short : ∀ call ∈ calls, call.1.length ≤ SecondaryIndexItem.KEY_LIMIT)
    (supplied : (finalState ((insertAll calls).run (new tdef secondary_index max_nodes))).refused = false) :
    Faithful ((insertAll calls).run (new tdef secondary_index max_nodes)) calls ↔
      calls.length ≤ BTREE_ORDER := by
  have supplied' : ¬Refused (finalState ((insertAll calls).run (new tdef secondary_index max_nodes))) := by
    rw [Refused,supplied]
    simp
  constructor
  · rintro ⟨index,ran,_⟩
    by_contra many
    rcases insertAll_crash tdef secondary_index max_nodes calls (by omega) short with refused | ⟨after,crashed⟩
    · exact supplied' refused
    · rw [crashed] at ran
      cases ran
  · intro few
    rcases insertAll_leaf tdef secondary_index max_nodes calls few short with
      refused | ⟨rfl,ran⟩ | ⟨index,root,items,ran,leaf,order⟩
    · exact absurd refused supplied'
    · exact ⟨_,ran,rfl⟩
    · refine ⟨index,ran,?_⟩
      rw [leaf.rooted]
      exact ⟨.leaf items,leaf.spells,leaf.sorted,order⟩

-- Four keys in descending order fit into the root.
theorem insertAll_faithful_four :
    Faithful ((insertAll [([4],0),([3],1),([2],2),([1],3)]).run (new ⟨0,"",[],[],0,4⟩ none 1))
      [([4],0),([3],1),([2],2),([1],3)] :=
  (insertAll_faithful_iff ⟨0,"",[],[],0,4⟩ none 1 [([4],0),([3],1),([2],2),([1],3)] (by decide)
    (by decide +kernel)).mpr (by decide)

-- With nodes to spare the fifth insert panics.
theorem insertAll_five_crash : ∃ tdef calls,
    (∀ call ∈ calls, call.1.length ≤ SecondaryIndexItem.KEY_LIMIT) ∧ calls.length = 5 ∧
      (∃ after, (insertAll calls).run (new tdef none 8) = .error .panic after ∧ after.refused = false) ∧
      ¬Faithful ((insertAll calls).run (new tdef none 8)) calls := by
  have short : ∀ call ∈ [(([4] : Bytes),(0 : UInt16)),([3],1),([2],2),([1],3),([0],4)],
      call.1.length ≤ SecondaryIndexItem.KEY_LIMIT := by decide
  have supplied : (finalState ((insertAll [([4],0),([3],1),([2],2),([1],3),([0],4)]).run
      (new ⟨0,"",[],[],0,8⟩ none 8))).refused = false := by decide +kernel
  refine ⟨⟨0,"",[],[],0,8⟩,_,short,rfl,?_⟩
  rcases insertAll_crash ⟨0,"",[],[],0,8⟩ none 8 _ (by decide) short with refused | ⟨after,crashed⟩
  · rw [Refused,supplied] at refused
    cases refused
  · rw [crashed] at supplied ⊢
    refine ⟨⟨after,rfl,supplied⟩,?_⟩
    rintro ⟨index,ran,_⟩
    cases ran

end RemDb.BTreeIndex
