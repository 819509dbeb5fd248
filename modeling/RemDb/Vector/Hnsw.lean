import RemDb.Lib.BestFirst
import RemDb.Types

namespace RemDb
open Lib

-- A node of the pool. Its neighbors, level by level, are numbers of nodes.
structure HNSWNode where
  vector_offset : Nat
  record_id : Nat
  neighbors : List (List Nat)
deriving DecidableEq,Repr

namespace HNSWNode

def new (vector_offset record_id max_level : Nat) : HNSWNode :=
  ⟨vector_offset,record_id,List.replicate (max_level+1) []⟩

def getNeighborsAtLevel (node : HNSWNode) (level : Nat) : List Nat := node.neighbors.getD level []

-- A level beyond the node's own is left alone; `insert` never asks for one.
def addNeighborAtLevel (level neighbor : Nat) (node : HNSWNode) : HNSWNode :=
  {node with neighbors:=node.neighbors.modify level (· ++ [neighbor])}

def removeNeighbor (neighbor : Nat) (node : HNSWNode) : HNSWNode :=
  {node with neighbors:=node.neighbors.map (·.filter (· ≠ neighbor))}

end HNSWNode

-- Of the pool, the nodes that were handed out so far: `node_count` is their number.
structure HNSWIndex where
  max_level : Nat
  enter_point : Option Nat
  layer_enter_points : List (Option Nat)
  nodes : List HNSWNode
  max_nodes : Nat
  m : Nat
  ef_construction : Nat
  ef_search : Nat
deriving DecidableEq,Repr

namespace HNSWIndex

def MAX_ITERATIONS : Nat := 100000

-- The logarithm, rounded down, is floating-point.
def new (lnFloor : Nat → Nat) (m ef_construction ef_search max_nodes : Nat) : HNSWIndex :=
  let max_level := if max_nodes > 0 then lnFloor max_nodes else 0
  ⟨max_level,none,List.replicate (max_level+1) none,[],max_nodes,m,ef_construction,ef_search⟩

def links (index : HNSWIndex) (level number : Nat) : List Nat :=
  match index.nodes[number]? with
  | some node => node.getNeighborsAtLevel level
  | none => []

def offset (index : HNSWIndex) (number : Nat) : Nat :=
  match index.nodes[number]? with
  | some node => node.vector_offset
  | none => 0

def record (index : HNSWIndex) (number : Nat) : Nat :=
  match index.nodes[number]? with
  | some node => node.record_id
  | none => 0

section Searching
variable {V D : Type} [LinearOrder D] (vectors : Nat → V) (calculate_distance : V → V → D)

def searchLayer (index : HNSWIndex) (query_vec : V) (entry_point ef level : Nat) : List (D × Nat) :=
  searchFrom (index.links level) (fun number => calculate_distance query_vec (vectors (index.offset number))) ef
    MAX_ITERATIONS entry_point

-- From `count` levels above `stop` down to it, each time on to the nearest node.
def descend (index : HNSWIndex) (query_vec : V) (stop : Nat) : Nat → Nat → Nat
  | 0, point => point
  | count+1, point =>
    match (index.searchLayer vectors calculate_distance query_vec point 1 (stop+count+1)).head? with
    | some nearest => index.descend query_vec stop count nearest.2
    | none => index.descend query_vec stop count point

def search (index : HNSWIndex) (query_vec : V) (k : Nat) : List (D × Nat) :=
  match index.enter_point with
  | none => []
  | some point =>
    let current_point := index.descend vectors calculate_distance query_vec 0 index.max_level point
    let results := index.searchLayer vectors calculate_distance query_vec current_point (max index.ef_search k) 0
    (results.take k).map fun result => (result.1,index.record result.2)

-- The sorted candidates that are not too close to one that was taken before.
def pickApart (index : HNSWIndex) (too_close : D) (m : Nat) : List (D × Nat) → List Nat → List Nat
  | [], result => result
  | (_,node) :: queue, result =>
    if result.length < m then
      if result.any fun existing =>
          decide (calculate_distance (vectors (index.offset node)) (vectors (index.offset existing)) < too_close) then
        index.pickApart too_close m queue result
      else index.pickApart too_close m queue (result ++ [node])
    else result

def selectNeighborsHeuristic (index : HNSWIndex) (too_close : D) (candidates : List (D × Nat)) (m : Nat) : List Nat :=
  if candidates.length ≤ m then candidates.map Prod.snd
  else index.pickApart vectors calculate_distance too_close m (byDistance candidates) []

-- A list of more than `m` neighbors keeps the nearest.
def prune (index : HNSWIndex) (level neighbor : Nat) : HNSWIndex :=
  let n := index.links level neighbor
  if n.length > index.m then
    let with_dist := n.map fun nn =>
      (calculate_distance (vectors (index.offset neighbor)) (vectors (index.offset nn)),nn)
    let nearest := ((byDistance with_dist).take index.m).map Prod.snd
    {index with nodes:=index.nodes.modify neighbor fun node => {node with neighbors:=node.neighbors.set level nearest}}
  else index

-- The link goes from the new node to its neighbor only.
def connect (number level : Nat) (index : HNSWIndex) (neighbor : Nat) : HNSWIndex :=
  prune vectors calculate_distance
    {index with nodes:=index.nodes.modify number (HNSWNode.addNeighborAtLevel level neighbor)} level neighbor

def connectLevel (too_close : D) (vec : V) (entry_point number : Nat) (index : HNSWIndex) (level : Nat) : HNSWIndex :=
  let neighbors := index.searchLayer vectors calculate_distance vec entry_point (max index.ef_construction index.m) level
  let selected := index.selectNeighborsHeuristic vectors calculate_distance too_close neighbors index.m
  let linked := selected.foldl (connect vectors calculate_distance number level) index
  {linked with layer_enter_points:=linked.layer_enter_points.modify level fun point => some (point.getD number)}

-- `new_level` is the random level, at most `max_level`.
def insert (too_close : D) (index : HNSWIndex) (vector_offset record_id new_level : Nat) :
    Except RemDbError Unit × HNSWIndex :=
  let number := index.nodes.length
  if number ≥ index.max_nodes then (.error .outOfMemory,index)
  else
    let grown := {index with nodes:=index.nodes ++ [HNSWNode.new vector_offset record_id index.max_level]}
    match index.enter_point with
    | none =>
      (.ok (),{grown with
        enter_point:=some number
        layer_enter_points:=List.replicate (min (new_level+1) grown.layer_enter_points.length) (some number) ++
          grown.layer_enter_points.drop (new_level+1)})
    | some point =>
      let vec := vectors vector_offset
      let entry_point := grown.descend vectors calculate_distance vec new_level (index.max_level-new_level) point
      -- the levels from where the descent stopped up to the new one
      let first := min index.max_level new_level
      let levels := List.range' first (new_level+1-first)
      let linked := levels.foldl (connectLevel vectors calculate_distance too_close vec entry_point number) grown
      (.ok (),if new_level ≥ index.max_level then {linked with enter_point:=some number} else linked)

end Searching

-- The node is emptied and stays among the others.
def delete (index : HNSWIndex) (vector_offset : Nat) : Except RemDbError Unit × HNSWIndex :=
  match index.nodes.findIdx? (·.vector_offset == vector_offset) with
  | none => (.error .recordNotFound,index)
  | some target =>
    let others := (List.range index.nodes.length).find? (· ≠ target)
    (.ok (),{index with
      nodes:=(index.nodes.map (HNSWNode.removeNeighbor target)).set target ⟨0,0,[]⟩
      enter_point:=if index.enter_point = some target then others else index.enter_point})

end HNSWIndex
end RemDb
