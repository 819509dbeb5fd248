import RemDb.Vector.Hnsw
import RemDb.Vector.Ivf

namespace RemDb
open Lib

inductive DistanceType where
  | l2 | innerProduct | cosine
deriving DecidableEq,Repr

inductive VectorIndexType where
  | hnsw | hnswSq | hnswBq | ivf | ivfPq
deriving DecidableEq,Repr

structure VectorMetadata where
  dimension : Nat
  distance_type : DistanceType
  index_type : VectorIndexType
  compression_enabled : Bool
  compression_scheme : Nat
  compression_level : Nat
  hnsw_m : Nat
  hnsw_ef_construction : Nat
  hnsw_ef_search : Nat
  ivf_nlist : Nat
  ivf_nprobe : Nat
deriving DecidableEq,Repr

structure VectorIndexItem where
  vector_offset : Nat
  record_id : Nat
deriving DecidableEq,Repr

-- The HNSW and the IVF index keep the metadata of the column.
inductive VectorIndexImpl (F : Type) where
  | linearSearch
  | hnsw (metadata : VectorMetadata) (index : HNSWIndex)
  | ivfFlat (metadata : VectorMetadata) (index : IVFIndex F)
  | ivfPq (index : IVFPQIndex F)

-- Each kind of index has distances of its own, and the coded one two.
structure VectorDistances (F D : Type) where
  linear : List F → List F → D
  hnsw : List F → List F → D
  ivf : List F → List F → D
  euclidean : List F → List F → D
  subvector : List F → List F → D
  max_distance : D
  too_close : D
  zero : D
  add : D → D → D

-- Of the items, those in use: `item_count` is their number.
structure VectorIndex (F : Type) where
  distance_type : DistanceType
  dimension : Nat
  vector_index_type : VectorIndexType
  items : List VectorIndexItem
  vectors : Nat → F
  max_items : Nat
  vector_count : Nat
  index_impl : VectorIndexImpl F

namespace VectorIndexImpl

def new (lnFloor : Nat → Nat) (zero : F) (vector_meta : VectorMetadata) (max_items : Nat) :
    Except RemDbError (VectorIndexImpl F) :=
  match vector_meta.index_type with
  | .hnsw | .hnswSq | .hnswBq =>
    .ok (.hnsw vector_meta
      (HNSWIndex.new lnFloor vector_meta.hnsw_m vector_meta.hnsw_ef_construction vector_meta.hnsw_ef_search max_items))
  | .ivf => .ok (.ivfFlat vector_meta (IVFIndex.new zero vector_meta.dimension vector_meta.ivf_nlist vector_meta.ivf_nprobe))
  | .ivfPq => do
    let ivf_pq ← IVFPQIndex.new zero vector_meta.dimension vector_meta.ivf_nlist vector_meta.ivf_nprobe 32 8
    .ok (.ivfPq ivf_pq)

end VectorIndexImpl

namespace VectorIndex

-- The checks of the table definition come before; `vector_meta` is that of the
-- indexed column.
def new (lnFloor : Nat → Nat) (zero : F) (vector_meta : VectorMetadata) (max_items : Nat) :
    Except RemDbError (VectorIndex F) :=
  if vector_meta.dimension = 0 ∨ vector_meta.dimension > 1024 then .error .typeMismatch
  else do
    let index_impl ← VectorIndexImpl.new lnFloor zero vector_meta max_items
    .ok ⟨vector_meta.distance_type,vector_meta.dimension,vector_meta.index_type,[],fun _ => zero,max_items,0,index_impl⟩

section Changing
variable {F D : Type} [LinearOrder D]

-- `level` is the random level of an HNSW node. The vector stays in the storage
-- when the index behind refuses it.
def insertImpl (distances : VectorDistances F D) (dimension : Nat) (vectors : Nat → F) (index_impl : VectorIndexImpl F)
    (start_offset record_id level : Nat) : Option (Except RemDbError Unit × VectorIndexImpl F) :=
  match index_impl with
  | .hnsw metadata hnsw_index =>
    let (result,hnsw_index) := hnsw_index.insert (vectorAt dimension vectors) distances.hnsw distances.too_close
      start_offset record_id level
    some (result,.hnsw metadata hnsw_index)
  | .ivfFlat metadata ivf_index =>
    (ivf_index.insert distances.ivf distances.max_distance vectors start_offset record_id).map fun ivf_index =>
      (.ok (),.ivfFlat metadata ivf_index)
  | .ivfPq ivf_pq =>
    (ivf_pq.insert distances.euclidean distances.subvector distances.max_distance
      (vectorAt dimension vectors start_offset) record_id).map fun answered =>
        (answered.1.mapError fun _ => .outOfMemory,.ivfPq answered.2)
  | .linearSearch => some (.ok (),.linearSearch)

def copied (vectors : Nat → F) (start count : Nat) (source : Nat → F) : Nat → F :=
  fun place => if start ≤ place ∧ place < start+count then source (place-start) else vectors place

-- The key has as many floats as there are whole ones in its bytes; `none` is a
-- panic of the index behind.
def insert (distances : VectorDistances F D) (index : VectorIndex F) (key : List F) (record_id level : Nat) :
    Option (Except RemDbError Unit × VectorIndex F) :=
  if index.items.length ≥ index.max_items then some (.error .outOfMemory,index)
  else if key.length < index.dimension then some (.error .typeMismatch,index)
  else
    let start_offset := index.vector_count*index.dimension
    let vectors := copied index.vectors start_offset index.dimension fun place =>
      key.getD place (index.vectors (start_offset+place))
    (insertImpl distances index.dimension vectors index.index_impl start_offset record_id level).map fun answered =>
      match answered.1 with
      | .error error => (.error error,{index with vectors:=vectors,index_impl:=answered.2})
      | .ok _ =>
        (.ok (),{index with
          vectors:=vectors
          index_impl:=answered.2
          items:=index.items ++ [⟨start_offset,record_id⟩]
          vector_count:=index.items.length+1})

variable (same : F → F → Bool)

omit [LinearOrder D] in
-- The last vector moves into the place of the deleted one. The HNSW and the IVF
-- index are not told.
def delete (index : VectorIndex F) (key : List F) : VectorIndex F :=
  let found := index.items.findIdx? fun item =>
    (key.zip (vectorAt index.dimension index.vectors item.vector_offset)).all fun pair => same pair.1 pair.2
  match found with
  | none => index
  | some idx =>
    match index.items[idx]?, index.items.getLast? with
    | some deleted, some last =>
      if idx < index.items.length-1 then
        {index with
          vectors:=copied index.vectors deleted.vector_offset index.dimension fun place =>
            index.vectors (last.vector_offset+place)
          items:=(index.items.set idx {last with vector_offset:=deleted.vector_offset}).dropLast
          vector_count:=index.items.length-1}
      else {index with items:=index.items.dropLast,vector_count:=index.items.length-1}
    | _, _ => index

end Changing

section Searching
variable {F D : Type} [LinearOrder D] (distances : VectorDistances F D)

def linearSearch (index : VectorIndex F) (query_vec : List F) (k : Nat) : List (D × Nat) :=
  let all_results := index.items.map fun item =>
    (distances.linear query_vec (vectorAt index.dimension index.vectors item.vector_offset),item.record_id)
  (byDistance all_results).take k

def searchImpl (index : VectorIndex F) (query_vec : List F) (k : Nat) : List (D × Nat) :=
  match index.index_impl with
  | .hnsw _ hnsw_index => hnsw_index.search (vectorAt index.dimension index.vectors) distances.hnsw query_vec k
  | .ivfFlat _ ivf_index => ivf_index.search distances.ivf index.vectors query_vec k
  | .ivfPq ivf_pq => ivf_pq.search distances.euclidean distances.subvector distances.zero distances.add query_vec k
  | .linearSearch => index.linearSearch distances query_vec k

def searchKnn (index : VectorIndex F) (query_vec : List F) (k : Nat) : List (D × Nat) :=
  if index.items.length = 0 then [] else index.searchImpl distances query_vec (min k index.items.length)

-- The query is parsed before, and so is the range.
def findRangeAll (index : VectorIndex F) (query_vec : List F) (range_value : D) (max_records : Nat) : List Nat :=
  let within := index.items.filter fun item =>
    decide (distances.linear query_vec (vectorAt index.dimension index.vectors item.vector_offset) ≤ range_value)
  (within.take max_records).map VectorIndexItem.record_id

end Searching
end VectorIndex
end RemDb
