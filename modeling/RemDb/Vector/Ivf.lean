import RemDb.Vector.Quantizer

namespace RemDb
open Lib

-- The vector that starts at an offset of the storage.
def vectorAt (dimension : Nat) (vectors : Nat → F) (offset : Nat) : List F :=
  (List.range dimension).map fun place => vectors (offset+place)

-- The counters of the clusters are `u32`.
def countUp (count : Nat) : Nat := (count+1) % 2^32

structure IVFCluster (F : Type) where
  centroid : List F
  vector_count : Nat
  vector_offsets : List Nat
  record_ids : List Nat
deriving DecidableEq,Repr

namespace IVFCluster

def new (zero : F) (dimension : Nat) : IVFCluster F := ⟨List.replicate dimension zero,0,[],[]⟩

def addVector (vector_offset record_id : Nat) (cluster : IVFCluster F) : IVFCluster F :=
  {cluster with
    vector_offsets:=cluster.vector_offsets ++ [vector_offset]
    record_ids:=cluster.record_ids ++ [record_id]
    vector_count:=countUp cluster.vector_count}

-- An offset without a record number would be a fault.
def entries (cluster : IVFCluster F) : List (Nat × Nat) := cluster.vector_offsets.zip cluster.record_ids

end IVFCluster

structure IVFIndex (F : Type) where
  clusters : List (IVFCluster F)
  nlist : Nat
  nprobe : Nat
  dimension : Nat
  vector_count : Nat
deriving DecidableEq,Repr

namespace IVFIndex

def new (zero : F) (dimension nlist nprobe : Nat) : IVFIndex F :=
  ⟨List.replicate nlist (IVFCluster.new zero dimension),nlist,nprobe,dimension,0⟩

section Filing
variable {F D : Type} [LT D] [DecidableLT D] (calculate_distance : List F → List F → D) (max_distance : D)

def findClosestCluster (clusters : List (IVFCluster F)) (vec : List F) : Nat :=
  smallestFrom 0 max_distance 0 (clusters.map fun cluster => calculate_distance vec cluster.centroid)

-- Without any cluster the subscript is a panic.
def insert (storage : Nat → F) (index : IVFIndex F) (vector_offset record_id : Nat) : Option (IVFIndex F) :=
  let cluster_idx := findClosestCluster calculate_distance max_distance index.clusters
    (vectorAt index.dimension storage vector_offset)
  match index.clusters[cluster_idx]? with
  | none => none
  | some cluster =>
    some {index with
      clusters:=index.clusters.set cluster_idx (cluster.addVector vector_offset record_id)
      vector_count:=countUp index.vector_count}

end Filing

section Searching
variable {F D : Type} [LinearOrder D] (calculate_distance : List F → List F → D)

def search (storage : Nat → F) (index : IVFIndex F) (query_vec : List F) (k : Nat) : List (D × Nat) :=
  let cluster_distances := index.clusters.map fun cluster => (calculate_distance query_vec cluster.centroid,cluster)
  let selected := ((byDistance cluster_distances).take index.nprobe).map Prod.snd
  let results := selected.flatMap fun cluster => cluster.entries.map fun entry =>
    (calculate_distance query_vec (vectorAt index.dimension storage entry.1),entry.2)
  (byDistance results).take k

end Searching
end IVFIndex

-- The codes of a cluster stand one behind the other in `pq_codes`.
structure IVFPQCluster (F : Type) where
  centroid : List F
  vector_count : Nat
  pq_codes : List Nat
  record_ids : List Nat
deriving DecidableEq,Repr

namespace IVFPQCluster

def new (zero : F) (dimension : Nat) : IVFPQCluster F := ⟨List.replicate dimension zero,0,[],[]⟩

-- The list is made longer by `code_size` zeros, and the code is written there.
def addVector (pq_code : List Nat) (record_id code_size : Nat) (cluster : IVFPQCluster F) : IVFPQCluster F :=
  {cluster with
    pq_codes:=cluster.pq_codes ++ (pq_code ++ List.replicate (code_size-pq_code.length) 0)
    record_ids:=cluster.record_ids ++ [record_id]
    vector_count:=countUp cluster.vector_count}

def getCode (cluster : IVFPQCluster F) (index code_size : Nat) : List Nat :=
  (cluster.pq_codes.drop (index*code_size)).take code_size

end IVFPQCluster

structure IVFPQIndex (F : Type) where
  dimension : Nat
  nlist : Nat
  nprobe : Nat
  clusters : List (IVFPQCluster F)
  quantizer : ProductQuantizer F
  vector_count : Nat
deriving DecidableEq,Repr

namespace IVFPQIndex

def new (zero : F) (dimension nlist nprobe m nbits : Nat) : Except RemDbError (IVFPQIndex F) := do
  let quantizer ← ProductQuantizer.new zero dimension m nbits
  .ok ⟨dimension,nlist,nprobe,List.replicate nlist (IVFPQCluster.new zero dimension),quantizer,0⟩

section Filing
variable {F D : Type} [LT D] [DecidableLT D] (euclidean_distance subvector_distance : List F → List F → D)
  (max_distance : D)

def closest (clusters : List (IVFPQCluster F)) (vector : List F) : Nat :=
  smallestFrom 0 max_distance 0 (clusters.map fun cluster => euclidean_distance vector cluster.centroid)

def insert (index : IVFPQIndex F) (vector : List F) (record_id : Nat) : Option (Except RemDbError Unit × IVFPQIndex F) :=
  let best_c := closest euclidean_distance max_distance index.clusters vector
  match index.quantizer.encode subvector_distance max_distance vector with
  | .error error => some (.error error,index)
  | .ok pq_code =>
    match index.clusters[best_c]? with
    | none => none
    | some cluster =>
      some (.ok (),{index with
        clusters:=index.clusters.set best_c (cluster.addVector pq_code record_id index.quantizer.codeSize)
        vector_count:=countUp index.vector_count})

end Filing

section Searching
variable {F D : Type} [LinearOrder D] (euclidean_distance subvector_distance : List F → List F → D) (zero : D)
  (add : D → D → D)

def search (index : IVFPQIndex F) (query : List F) (k : Nat) : List (D × Nat) :=
  if index.vector_count = 0 then []
  else
    let cluster_dists := index.clusters.map fun cluster => (euclidean_distance query cluster.centroid,cluster)
    let selected := ((byDistance cluster_dists).take (min index.nprobe index.nlist)).map Prod.snd
    let table := index.quantizer.computeDistanceTable subvector_distance query
    let results := selected.flatMap fun cluster => (List.range cluster.vector_count).map fun j =>
      (ProductQuantizer.computeDistanceFromTable zero add table (cluster.getCode j index.quantizer.codeSize),
        cluster.record_ids.getD j 0)
    (byDistance results).take k

end Searching
end IVFPQIndex
end RemDb
