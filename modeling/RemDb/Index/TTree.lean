import RemDb.Index.Items

namespace RemDb
open RemDb.Lib

def TTREE_ORDER : Nat := 3
def MAX_RECURSION_DEPTH : Nat := 100

structure TTreeNode where
  key_count : UInt8
  keys : List SecondaryIndexItem
  left : Option Nat
  middle : Option Nat
  right : Option Nat
deriving DecidableEq,Repr

namespace TTreeNode

def blank : TTreeNode := ⟨0,List.replicate TTREE_ORDER .blank,none,none,none⟩

def filled (node : TTreeNode) : List SecondaryIndexItem := node.keys.take node.key_count.toNat

def child (node : TTreeNode) (pos : Nat) : Option Nat :=
  if pos = 0 then node.left
  else if pos < node.key_count.toNat then node.middle
  else node.right

def setChild (node : TTreeNode) (pos : Nat) (target : Nat) : TTreeNode :=
  if pos = 0 then {node with left:=some target}
  else if pos < node.key_count.toNat then {node with middle:=some target}
  else {node with right:=some target}

def findKeyPosition (node : TTreeNode) (key : SecondaryIndexItem) : Nat × Ordering :=
  let pos := lowerBound compareItems node.filled key
  (pos,match node.filled[pos]? with
    | some found => compareItems found key
    | none => .lt)

-- The two halves of a full node and the children of the node above, after the
-- middle key has moved up to `promoted_pos`.
def adopt (node : TTreeNode) (promoted_pos child_node new_right : Nat) : TTreeNode :=
  if promoted_pos = 0 then {node with left:=some child_node,middle:=some new_right}
  else if promoted_pos < node.key_count.toNat then
    {node with middle:=some child_node,right:=some new_right}
  else {node with right:=some new_right}

end TTreeNode

-- `refused` notes that an allocation failed, which the code does not record.
structure TTreeIndex where
  tdef : TableDef
  root : Option Nat
  nodes : Nat → TTreeNode
  free_nodes : List Nat
  max_nodes : Nat
  stats : IndexStats
  refused : Bool

namespace TTreeIndex

abbrev Action := IndexAction TTreeIndex

-- `size_of::<TTreeNode>()`.
def nodeBytes : Nat := 424

def new (tdef : TableDef) (max_nodes : Nat) : TTreeIndex :=
  { tdef := tdef
    root := none
    nodes := fun _ => .blank
    free_nodes := List.range max_nodes
    max_nodes := max_nodes
    stats := ⟨0,0,max_nodes*nodeBytes % usizeLimit,0⟩
    refused := false }

def setNode (node : Nat) (value : TTreeNode) : Action Unit :=
  modify fun index => {index with nodes:=assign index.nodes node value}

def allocateNode : Action Nat := do
  let index ← get
  match index.free_nodes with
  | [] =>
    set {index with refused:=true}
    throw (.error .outOfMemory)
  | node :: rest =>
    set {index with free_nodes:=rest,nodes:=assign index.nodes node .blank}
    pure node

def insertIntoNode (node : Nat) (key : SecondaryIndexItem) : Action Unit := do
  let index ← get
  let node_ref := index.nodes node
  let keys ← orPanic
    (insertAt node_ref.keys (node_ref.findKeyPosition key).1 node_ref.key_count.toNat key)
  setNode node {node_ref with keys:=keys,key_count:=node_ref.key_count+1}
  modify fun index =>
    {index with stats:={index.stats with item_count:=usizeAdd index.stats.item_count 1}}

-- The keys of a full node and one more, in an array of one entry more: the new
-- key goes before the first that is greater.
def mergeKeys (keys : List SecondaryIndexItem) (key : SecondaryIndexItem) : Option (List SecondaryIndexItem) :=
  insertAt (keys ++ [.blank]) (keys.takeWhile fun each => compareItems each key ≠ .gt).length TTREE_ORDER key

-- `TTREE_ORDER.div_ceil(2)`: the keys that stay.
def mid : Nat := (TTREE_ORDER+1)/2

def distribute (keys : List SecondaryIndexItem) (node new_node : Nat) : Action Unit := do
  let lower := (← get).nodes node
  let lower_keys ← orPanic (copyFrom keys 0 mid lower.keys)
  setNode node {lower with key_count:=UInt8.ofNat mid,keys:=lower_keys}
  let upper := (← get).nodes new_node
  let upper_keys ← orPanic (copyFrom keys mid (TTREE_ORDER+1-mid) upper.keys)
  setNode new_node {upper with key_count:=UInt8.ofNat (TTREE_ORDER+1-mid),keys:=upper_keys}

def splitChild (key : SecondaryIndexItem) (node child_node : Nat) : Action Unit := do
  let keys ← orPanic (mergeKeys ((← get).nodes child_node).keys key)
  let new_right ← allocateNode
  distribute keys child_node new_right
  let promoted_key ← orPanic keys[mid-1]?
  insertIntoNode node promoted_key
  let node_ref := (← get).nodes node
  setNode node (node_ref.adopt (node_ref.findKeyPosition promoted_key).1 child_node new_right)

def splitNode (key : SecondaryIndexItem) (node pos : Nat) : Action Unit := do
  let new_node ← allocateNode
  let keys ← orPanic (mergeKeys ((← get).nodes node).keys key)
  distribute keys node new_node
  let node_ref := (← get).nodes node
  setNode node (node_ref.setChild pos new_node)

def updateRecord (node pos : Nat) (record_id : UInt16) : Action Unit := do
  let node_ref := (← get).nodes node
  let found ← orPanic node_ref.keys[pos]?
  let keys ← orPanic (store node_ref.keys pos {found with record_id:=record_id})
  setNode node {node_ref with keys:=keys}

-- The first argument counts the levels that are left before the depth limit,
-- at which the key is dropped.
def insertRecursive (key : SecondaryIndexItem) : Nat → Nat → Action Unit
  | 0, _ => pure ()
  | levels+1, node => do
    let index ← get
    let node_ref := index.nodes node
    let (pos,cmp) := node_ref.findKeyPosition key
    if cmp = .eq then updateRecord node pos key.record_id
    else match node_ref.child pos with
      | some child_node =>
        if (index.nodes child_node).key_count = UInt8.ofNat TTREE_ORDER then splitChild key node child_node
        else insertRecursive key levels child_node
      | none =>
        if node_ref.key_count < UInt8.ofNat TTREE_ORDER then insertIntoNode node key
        else splitNode key node pos

def plantRoot (item : SecondaryIndexItem) : Action Unit := do
  let root_node ← allocateNode
  let node := (← get).nodes root_node
  let keys ← orPanic (store node.keys 0 item)
  setNode root_node {node with keys:=keys,key_count:=1}
  modify fun index => {index with root:=some root_node}

-- The old root becomes the left child. The middle key is copied up: it also
-- stays where it was.
def splitRoot (item : SecondaryIndexItem) (root : Nat) : Action Unit := do
  let new_root ← allocateNode
  let keys ← orPanic (mergeKeys ((← get).nodes root).keys item)
  let right_node ← allocateNode
  distribute keys root right_node
  let crown := (← get).nodes new_root
  let middle ← orPanic keys[mid-1]?
  let crown_keys ← orPanic (store crown.keys 0 middle)
  setNode new_root {crown with keys:=crown_keys,key_count:=1,left:=some root,right:=some right_node}
  modify fun index => {index with root:=some new_root}

def insert (key : Bytes) (record_id : UInt16) : Action Unit := do
  let index ← get
  let item := SecondaryIndexItem.ofKey key record_id
  if key.length > SecondaryIndexItem.KEY_LIMIT then throw (.error .unsupportedOperation)
  else match index.root with
    | none => plantRoot item
    | some root =>
      if (index.nodes root).key_count = UInt8.ofNat TTREE_ORDER then splitRoot item root
      else quiet (insertRecursive item (MAX_RECURSION_DEPTH+1) root)

def insertAll (calls : List (Bytes × UInt16)) : Action Unit :=
  calls.forM fun call => quiet (insert call.1 call.2)

def STACK : Nat := 64

-- Push a node and everything to its left. The stack is an array, and a push
-- beyond its end panics; its top is the head of the list.
def pushLeft (index : TTreeIndex) : Nat → Option Nat → List Nat → Option (List Nat)
  | _, none, stack => some stack
  | 0, some _, _ => none
  | fuel+1, some node, stack =>
    if stack.length < STACK then pushLeft index fuel (index.nodes node).left (node :: stack) else none

-- The keys of one node: what is in range goes to the output while it has room,
-- and the first key beyond the range ends the node.
def collect (start_item end_item : SecondaryIndexItem) (max_records : Nat) :
    List SecondaryIndexItem → List UInt16 → List UInt16
  | [], found => found
  | key :: rest, found =>
    if found.length ≥ max_records then found
    else
      let found :=
        if compareItems key start_item ≠ .lt ∧ compareItems key end_item ≠ .gt then found ++ [key.record_id]
        else found
      if compareItems key end_item = .gt then found
      else collect start_item end_item max_records rest found

def rangeLoop (index : TTreeIndex) (start_item end_item : SecondaryIndexItem) (max_records : Nat) :
    Nat → List Nat → List UInt16 → Option (List UInt16)
  | _, [], found => some found
  | 0, _ :: _, _ => none
  | fuel+1, node :: stack, found =>
    if found.length < max_records then
      let found := collect start_item end_item max_records (index.nodes node).filled found
      (pushLeft index (STACK+1) (index.nodes node).right stack).bind fun stack =>
        rangeLoop index start_item end_item max_records fuel stack found
    else some found

-- `out` is the size of the buffer, `none` for a null pointer. The bound on the
-- number of rounds is the number of visits a tree of the pool's size allows.
def findRangeAll (start_key end_key : Bytes) (out : Option Nat) : Action (List UInt16) := do
  modify fun index =>
    {index with stats:={index.stats with access_count:=usizeAdd index.stats.access_count 1}}
  let index ← get
  let max_records ← orError .unsupportedOperation out
  let start_item := SecondaryIndexItem.ofKey start_key 0
  let end_item := SecondaryIndexItem.ofKey end_key 0
  let stack ← orPanic (pushLeft index (STACK+1) index.root [])
  let found ← orPanic (rangeLoop index start_item end_item max_records (index.max_nodes+1) stack [])
  modify fun index =>
    {index with stats:={index.stats with hit_count:=usizeAdd index.stats.hit_count found.length}}
  pure found

end TTreeIndex
end RemDb
