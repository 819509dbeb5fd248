import RemDb.Vector.HnswGraph
import RemDb.Vector.Index
import RemDb.Lib.Buckets
import Mathlib.Data.List.GetD
import Mathlib.Data.List.Flatten

namespace RemDb
open Lib

section Storage
variable {F : Type} {dimension start offset : Nat}

theorem vectorAt_congr {before after : Nat → F} (same : ∀ place < dimension, after (offset+place) = before (offset+place)) :
    vectorAt dimension after offset = vectorAt dimension before offset :=
  List.map_congr_left fun place inside => same place (List.mem_range.mp inside)

theorem vectorAt_elsewhere (vectors source : Nat → F) (apart : offset+dimension ≤ start ∨ start+dimension ≤ offset) :
    vectorAt dimension (VectorIndex.copied vectors start dimension source) offset = vectorAt dimension vectors offset := by
  refine vectorAt_congr fun place inside => if_neg ?_
  omega

theorem vectorAt_copied (vectors source : Nat → F) :
    vectorAt dimension (VectorIndex.copied vectors start dimension source) start = (List.range dimension).map source := by
  refine List.map_congr_left fun place inside => ?_
  rw [VectorIndex.copied,if_pos ⟨Nat.le_add_right _ _,Nat.add_lt_add_left (List.mem_range.mp inside) _⟩,
    Nat.add_sub_cancel_left]

theorem range_getD {key : List F} (long : dimension ≤ key.length) (other : Nat → F) :
    ((List.range dimension).map fun place => key.getD place (other place)) = key.take dimension := by
  apply List.ext_getElem
  · rw [List.length_map,List.length_range,List.length_take,Nat.min_eq_left long]
  · intro place inside _
    rw [List.length_map,List.length_range] at inside
    rw [List.getElem_map,List.getElem_range,List.getElem_take,List.getD_eq_getElem _ _ (Nat.lt_of_lt_of_le inside long)]

theorem places_apart {one other : Nat} (differ : one ≠ other) :
    one*dimension+dimension ≤ other*dimension ∨ other*dimension+dimension ≤ one*dimension := by
  rcases Nat.lt_or_gt_of_ne differ with before | after
  · left
    rw [← Nat.succ_mul]
    exact Nat.mul_le_mul_right dimension before
  · right
    rw [← Nat.succ_mul]
    exact Nat.mul_le_mul_right dimension after

end Storage

namespace VectorIndex
variable {F D : Type} [LinearOrder D]

-- What is in the index: the vectors with their records.
def entries (index : VectorIndex F) : List (List F × Nat) :=
  index.items.map fun item => (vectorAt index.dimension index.vectors item.vector_offset,item.record_id)

def itemKeys (items : List VectorIndexItem) : List (Nat × Nat) := items.map fun item => (item.vector_offset,item.record_id)

inductive Call (F : Type) where
  | insert (key : List F) (record_id level : Nat)
  | delete (key : List F)

def Matches (same : F → F → Bool) (key vector : List F) : Prop := (key.zip vector).all (fun pair => same pair.1 pair.2) = true

-- What a call owes. A deletion of a vector that is not there is no error.
inductive Call.Leaves (same : F → F → Bool) (dimension max_items : Nat) :
    Call F → List (List F × Nat) → Except RemDbError Unit → List (List F × Nat) → Prop
  | insert (room : live.length < max_items) (long : dimension ≤ key.length) :
    Leaves same dimension max_items (.insert key record_id level) live (.ok ()) (live ++ [(key.take dimension,record_id)])
  | refused (why : max_items ≤ live.length ∨ key.length < dimension) :
    Leaves same dimension max_items (.insert key record_id level) live (.error error) live
  | delete (entry : List F × Nat) (here : Matches same key entry.1) (removed : live.Perm (entry :: rest)) :
    Leaves same dimension max_items (.delete key) live (.ok ()) rest
  | missing (absent : ∀ entry ∈ live, ¬ Matches same key entry.1) :
    Leaves same dimension max_items (.delete key) live (.ok ()) live

-- The distance the results of a search carry.
def distanceOf (distances : VectorDistances F D) : VectorIndexImpl F → List F → List F → D
  | .linearSearch => distances.linear
  | .hnsw .. => distances.hnsw
  | .ivfFlat .. => distances.ivf
  | .ivfPq _ => distances.euclidean

section Runs
variable (distances : VectorDistances F D) (same : F → F → Bool)

def step (index : VectorIndex F) : Call F → Option (Except RemDbError Unit × VectorIndex F)
  | .insert key record_id level => index.insert distances key record_id level
  | .delete key => some (.ok (),index.delete same key)

-- A search answers from the live entries, each at most once.
def Answers (index : VectorIndex F) (live : List (List F × Nat)) : Prop :=
  ∀ query_vec k, ∃ found : List (List F × Nat), found.Subperm live ∧
    index.searchKnn distances query_vec k = found.map fun entry =>
      (distanceOf distances index.index_impl query_vec entry.1,entry.2)

structure Holds (index : VectorIndex F) (live : List (List F × Nat)) : Prop where
  items : index.items.length = live.length
  vectors : index.vector_count = live.length
  entries : index.entries.Perm live
  answers : index.Answers distances live

def Faithful (index : VectorIndex F) (live : List (List F × Nat)) : List (Call F) → Prop
  | [] => index.Holds distances live
  | call :: calls =>
    index.Holds distances live ∧
      ∃ answered ∈ index.step distances same call,
        ∃ live', call.Leaves same index.dimension index.max_items live answered.1 live' ∧ Faithful answered.2 live' calls

-- A deletion that finds its vector must be one on an index that searches the
-- items themselves, and an inverted file must have a cluster to put entries into.
def Fits (index : VectorIndex F) : Call F → Prop
  | .insert .. => ∀ metadata ivf_index, index.index_impl = .ivfFlat metadata ivf_index → ivf_index.clusters ≠ []
  | .delete key => index.index_impl = .linearSearch ∨ ∀ entry ∈ index.entries, ¬ Matches same key entry.1

def Meets (index : VectorIndex F) : List (Call F) → Prop
  | [] => True
  | call :: calls => index.Fits same call ∧ ∀ answered ∈ index.step distances same call, Meets answered.2 calls

variable {distances : VectorDistances F D} {same : F → F → Bool} {index : VectorIndex F} {live : List (List F × Nat)}

omit [LinearOrder D] in
theorem entries_eq (index : VectorIndex F) : index.entries = (itemKeys index.items).map fun key =>
    (vectorAt index.dimension index.vectors key.1,key.2) := by
  rw [itemKeys,List.map_map]
  rfl

-- What the index behind has of the items.
def Mirrors (dimension max_items : Nat) (items : List VectorIndexItem) : VectorIndexImpl F → Prop
  | .linearSearch => True
  | .hnsw _ hnsw_index => hnsw_index.Graph ∧ hnsw_index.max_nodes = max_items ∧ hnsw_index.keys = itemKeys items
  | .ivfFlat _ ivf_index =>
    ivf_index.dimension = dimension ∧
      (∀ cluster ∈ ivf_index.clusters, cluster.record_ids.length = cluster.vector_offsets.length) ∧
      (ivf_index.clusters.flatMap IVFCluster.entries).Subperm (itemKeys items)
  | .ivfPq _ => False

variable (distances) in
theorem hnsw_selects {hnsw_index : HNSWIndex} (graph : hnsw_index.Graph) (vectors : Nat → List F) (query_vec : List F)
    (k : Nat) : ∃ found : List (Nat × Nat), found.Subperm hnsw_index.keys ∧
      hnsw_index.search vectors distances.hnsw query_vec k = found.map fun key =>
        (distances.hnsw query_vec (vectors key.1),key.2) := by
  obtain ⟨numbers,distinct,reached,results,_⟩ := graph.search_reached vectors distances.hnsw
    query_vec k
  refine ⟨numbers.map fun number => (hnsw_index.offset number,hnsw_index.record number),?_,?_⟩
  · have inside : numbers ⊆ List.range hnsw_index.nodes.length := by
      intro number member
      obtain ⟨point,start,before⟩ := reached number member
      exact List.mem_range.mpr (Nat.lt_of_le_of_lt before (graph.entry point start))
    have all : (List.range hnsw_index.nodes.length).map (fun number => (hnsw_index.offset number,hnsw_index.record number)) =
        hnsw_index.keys := by
      apply List.ext_getElem
      · rw [List.length_map,List.length_range,HNSWIndex.keys_length]
      · intro number _ early
        rw [HNSWIndex.keys_length] at early
        simp only [HNSWIndex.keys,List.getElem_map,List.getElem_range,HNSWIndex.offset,HNSWIndex.record,
          List.getElem?_eq_getElem early]
    exact all ▸ subperm_map _ (List.subperm_of_subset distinct inside)
  · rw [results,List.map_map]
    rfl

variable (distances) in
theorem closest_perm (clusters : List (IVFCluster F)) (query_vec : List F) :
    ((byDistance (clusters.map fun cluster => (distances.ivf query_vec cluster.centroid,cluster))).map Prod.snd).Perm
      clusters := by
  refine ((byDistance_perm _).map Prod.snd).trans (List.Perm.of_eq ?_)
  rw [List.map_map]
  exact List.map_id clusters

variable (distances) in
theorem ivf_selects (ivf_index : IVFIndex F) (vectors : Nat → F) (query_vec : List F) (k : Nat) :
    ∃ found : List (Nat × Nat), found.Subperm (ivf_index.clusters.flatMap IVFCluster.entries) ∧
      ivf_index.search distances.ivf vectors query_vec k = found.map fun key =>
        (distances.ivf query_vec (vectorAt ivf_index.dimension vectors key.1),key.2) := by
  refine exists_of_subperm_map ?_
  rw [IVFIndex.search,List.map_flatMap]
  refine ((List.take_sublist _ _).subperm.trans (byDistance_perm _).subperm).trans ?_
  have selected : (((byDistance (ivf_index.clusters.map fun cluster =>
      (distances.ivf query_vec cluster.centroid,cluster))).take ivf_index.nprobe).map Prod.snd).Subperm ivf_index.clusters :=
    ((List.take_sublist _ _).map Prod.snd).subperm.trans (closest_perm distances ivf_index.clusters query_vec).subperm
  obtain ⟨among,perm,sub⟩ := selected
  exact ⟨_,perm.flatMap_right _,List.Sublist.flatMap sub _⟩

variable (distances) in
theorem answers_of_mirrors (mirrors : Mirrors index.dimension index.max_items index.items index.index_impl) :
    index.Answers distances index.entries := by
  intro query_vec k
  rw [searchKnn,searchImpl]
  split
  · exact ⟨[],List.nil_subperm,rfl⟩
  · split
    · next metadata hnsw_index shape =>
      rw [shape] at mirrors
      obtain ⟨graph,_,keys⟩ := mirrors
      obtain ⟨found,selected,results⟩ := hnsw_selects distances graph
        (vectorAt index.dimension index.vectors) query_vec (min k index.items.length)
      rw [shape,results,entries_eq]
      refine ⟨_,subperm_map _ (keys ▸ selected),?_⟩
      rw [List.map_map]
      rfl
    · next metadata ivf_index shape =>
      rw [shape] at mirrors
      obtain ⟨dimension,_,held⟩ := mirrors
      obtain ⟨found,selected,results⟩ := ivf_selects distances ivf_index index.vectors query_vec
        (min k index.items.length)
      rw [shape,results,entries_eq,dimension]
      refine ⟨_,subperm_map _ (selected.trans held),?_⟩
      rw [List.map_map]
      rfl
    · next shape =>
      rw [shape] at mirrors
      exact mirrors.elim
    · next shape =>
      rw [shape,linearSearch]
      refine exists_of_subperm_map ?_
      rw [entries,List.map_map]
      exact (List.take_sublist _ _).subperm.trans (byDistance_perm _).subperm

-- The vectors stand one behind the other.
structure Stored (index : VectorIndex F) (live : List (List F × Nat)) : Prop where
  entries : index.entries.Perm live
  packed : index.items.map VectorIndexItem.vector_offset = (List.range index.items.length).map (·*index.dimension)
  vectors : index.vector_count = index.items.length
  room : index.items.length ≤ index.max_items

-- What every state has that a run of fitting calls reaches.
structure Kept (index : VectorIndex F) (live : List (List F × Nat)) : Prop extends Stored index live where
  mirrors : Mirrors index.dimension index.max_items index.items index.index_impl

omit [LinearOrder D] in
theorem Stored.size (stored : index.Stored live) : index.items.length = live.length := by
  have long := stored.entries.length_eq
  rwa [VectorIndex.entries,List.length_map] at long

theorem Kept.holds (kept : index.Kept live) : index.Holds distances live := by
  refine ⟨kept.size,kept.vectors.trans kept.size,kept.entries,?_⟩
  intro query_vec k
  obtain ⟨found,selected,results⟩ := answers_of_mirrors distances kept.mirrors query_vec k
  exact ⟨found,selected.trans kept.entries.subperm,results⟩

omit [LinearOrder D] in
theorem Stored.offset (stored : index.Stored live) {place : Nat} {item : VectorIndexItem} (here : index.items[place]? = some item) :
    item.vector_offset = place*index.dimension := by
  have at_place := congrArg (·[place]?) stored.packed
  obtain ⟨inside,_⟩ := List.getElem?_eq_some_iff.mp here
  simp only [List.getElem?_map,here,List.getElem?_range inside,Option.map_some] at at_place
  exact Option.some.inj at_place

variable (distances) in
theorem ivf_inserts {ivf_index : IVFIndex F} (filled : ivf_index.clusters ≠ [])
    (aligned : ∀ cluster ∈ ivf_index.clusters, cluster.record_ids.length = cluster.vector_offsets.length)
    (vectors : Nat → F) (start_offset record_id : Nat) :
    ∃ after, ivf_index.insert distances.ivf distances.max_distance vectors start_offset record_id = some after ∧
      after.dimension = ivf_index.dimension ∧ after.nprobe = ivf_index.nprobe ∧
      after.clusters.length = ivf_index.clusters.length ∧
      (∀ cluster ∈ after.clusters, cluster.record_ids.length = cluster.vector_offsets.length) ∧
      (after.clusters.flatMap IVFCluster.entries).Perm
        (ivf_index.clusters.flatMap IVFCluster.entries ++ [(start_offset,record_id)]) := by
  have inside := smallestFrom_inside distances.max_distance (ivf_index.clusters.map fun cluster =>
      distances.ivf (vectorAt ivf_index.dimension vectors start_offset) cluster.centroid)
    (by rw [List.length_map]; exact List.length_pos_of_ne_nil filled)
  rw [List.length_map] at inside
  obtain ⟨cluster,here⟩ : ∃ cluster, ivf_index.clusters[IVFIndex.findClosestCluster distances.ivf distances.max_distance
      ivf_index.clusters (vectorAt ivf_index.dimension vectors start_offset)]? = some cluster :=
    ⟨_,List.getElem?_eq_getElem inside⟩
  have own := aligned cluster (List.mem_of_getElem? here)
  have grown : ([] ++ (cluster.addVector start_offset record_id).entries).Perm
      (cluster.entries ++ [(start_offset,record_id)]) := by
    rw [List.nil_append,IVFCluster.entries,IVFCluster.addVector,List.zip_append own.symm]
    rfl
  rw [IVFIndex.insert,here]
  refine ⟨_,rfl,rfl,rfl,List.length_set,fun other member => ?_,flatMap_set_perm here grown⟩
  rcases List.mem_or_eq_of_mem_set member with old | rfl
  · exact aligned other old
  · rw [IVFCluster.addVector,List.length_append,List.length_append,own]
    rfl

variable (distances) in
theorem mirrors_insert {dimension max_items : Nat} {items : List VectorIndexItem} {index_impl : VectorIndexImpl F}
    (mirrors : Mirrors dimension max_items items index_impl) (room : items.length < max_items)
    (filled : ∀ metadata ivf_index, index_impl = .ivfFlat metadata ivf_index → ivf_index.clusters ≠ []) (vectors : Nat → F)
    (start_offset record_id level : Nat) :
    ∃ index_impl', insertImpl distances dimension vectors index_impl start_offset record_id level =
        some (.ok (),index_impl') ∧ Mirrors dimension max_items (items ++ [⟨start_offset,record_id⟩]) index_impl' := by
  have keys : itemKeys (items ++ [⟨start_offset,record_id⟩]) = itemKeys items ++ [(start_offset,record_id)] := List.map_append
  cases index_impl with
  | linearSearch => exact ⟨_,rfl,trivial⟩
  | ivfPq index => exact mirrors.elim
  | hnsw metadata hnsw_index =>
    obtain ⟨graph,most,held⟩ := mirrors
    have few : hnsw_index.nodes.length < hnsw_index.max_nodes := by
      rw [most,← HNSWIndex.keys_length,held,itemKeys,List.length_map]
      exact room
    obtain ⟨after,done,added,graph,same⟩ := graph.insert (vectorAt dimension vectors)
      distances.hnsw few distances.too_close start_offset record_id level
    refine ⟨.hnsw metadata after,?_,graph,same.trans most,?_⟩
    · rw [insertImpl,done]
    · rw [added,held,keys]
  | ivfFlat metadata ivf_index =>
    obtain ⟨even,aligned,held⟩ := mirrors
    obtain ⟨after,done,dimension,_,_,aligned',grown⟩ := ivf_inserts distances (filled metadata ivf_index rfl) aligned
      vectors start_offset record_id
    refine ⟨.ivfFlat metadata after,?_,dimension.trans even,aligned',?_⟩
    · rw [insertImpl,done]
      rfl
    · rw [keys]
      exact grown.subperm.trans ((List.subperm_append_right _).mpr held)

omit [LinearOrder D] in
-- Behind the last vector the storage may be written.
theorem Stored.copied_entries (stored : index.Stored live) (source : Nat → F) :
    (index.items.map fun item => (vectorAt index.dimension
      (copied index.vectors (index.vector_count*index.dimension) index.dimension source) item.vector_offset,item.record_id)) =
      index.entries := by
  refine List.map_congr_left fun item member => ?_
  obtain ⟨place,inside,here⟩ := List.mem_iff_getElem.mp member
  have offset := stored.offset (List.getElem?_eq_some_iff.mpr ⟨inside,here⟩)
  rw [vectorAt_elsewhere]
  rw [offset,stored.vectors]
  exact places_apart (Nat.ne_of_lt inside)

omit [LinearOrder D] in
theorem Stored.written (stored : index.Stored live) (source : Nat → F) (index_impl : VectorIndexImpl F) :
    Stored {index with
      vectors:=copied index.vectors (index.vector_count*index.dimension) index.dimension source
      index_impl:=index_impl} live :=
  ⟨(List.Perm.of_eq (stored.copied_entries source)).trans stored.entries,stored.packed,stored.vectors,stored.room⟩

omit [LinearOrder D] in
theorem Stored.added (stored : index.Stored live) (room : index.items.length < index.max_items) {key : List F}
    (long : index.dimension ≤ key.length) (record_id : Nat) (index_impl : VectorIndexImpl F) :
    Stored {index with
      vectors:=copied index.vectors (index.vector_count*index.dimension) index.dimension fun place =>
        key.getD place (index.vectors (index.vector_count*index.dimension+place))
      index_impl:=index_impl
      items:=index.items ++ [⟨index.vector_count*index.dimension,record_id⟩]
      vector_count:=index.items.length+1} (live ++ [(key.take index.dimension,record_id)]) := by
  refine ⟨?_,?_,?_,?_⟩
  · rw [VectorIndex.entries]
    dsimp only
    rw [List.map_append,List.map_singleton,vectorAt_copied,range_getD long,stored.copied_entries]
    exact stored.entries.append_right _
  · rw [List.map_append,List.length_append,stored.packed,List.map_singleton,List.length_singleton,List.range_succ,
      List.map_append,stored.vectors]
    rfl
  · rw [List.length_append]
    rfl
  · rw [List.length_append]
    exact room

variable (distances same) in
theorem Stored.insert (stored : index.Stored live) {key : List F} {record_id level : Nat}
    {answered : Except RemDbError Unit × VectorIndex F} (done : index.insert distances key record_id level = some answered) :
    ∃ live', ((Call.insert key record_id level).Leaves same index.dimension index.max_items live answered.1 live' ∨
        live' = live ∧ answered.1 ≠ .ok ()) ∧ answered.2.Stored live' := by
  rw [VectorIndex.insert] at done
  split at done
  · cases done
    exact ⟨live,.inr ⟨rfl,nofun⟩,stored⟩
  · next room =>
    split at done
    · cases done
      exact ⟨live,.inr ⟨rfl,nofun⟩,stored⟩
    · next long =>
      have long := Nat.le_of_not_lt long
      have room := Nat.lt_of_not_le room
      obtain ⟨behind,_,rfl⟩ := Option.map_eq_some_iff.mp done
      split
      · exact ⟨live,.inr ⟨rfl,nofun⟩,stored.written _ _⟩
      · exact ⟨_,.inl (.insert (stored.size ▸ room) long),stored.added room long record_id _⟩

variable (distances same) in
theorem Kept.insert (kept : index.Kept live) {key : List F} {record_id level : Nat}
    (fits : index.Fits same (.insert key record_id level)) :
    ∃ answered, index.insert distances key record_id level = some answered ∧
      ∃ live', (Call.insert key record_id level).Leaves same index.dimension index.max_items live answered.1 live' ∧
        answered.2.Kept live' := by
  have size := kept.size
  rw [VectorIndex.insert]
  split
  · next full => exact ⟨_,rfl,live,.refused (.inl (size ▸ full)),kept⟩
  · next room =>
    split
    · next short => exact ⟨_,rfl,live,.refused (.inr short),kept⟩
    · next long =>
      have long := Nat.le_of_not_lt long
      have room := Nat.lt_of_not_le room
      obtain ⟨index_impl,done,mirrors⟩ := mirrors_insert distances kept.mirrors room fits
        (copied index.vectors (index.vector_count*index.dimension) index.dimension fun place =>
          key.getD place (index.vectors (index.vector_count*index.dimension+place)))
        (index.vector_count*index.dimension) record_id level
      dsimp only
      rw [done]
      exact ⟨_,rfl,_,.insert (size ▸ room) long,kept.toStored.added room long record_id index_impl,mirrors⟩

omit [LinearOrder D] in
theorem delete_none {key : List F}
    (absent : ∀ entry ∈ index.entries, ¬ Matches same key entry.1) : index.delete same key = index := by
  have missing : (index.items.findIdx? fun item =>
      (key.zip (vectorAt index.dimension index.vectors item.vector_offset)).all fun pair => same pair.1 pair.2) = none := by
    refine List.findIdx?_eq_none_iff.mpr fun item member => ?_
    rw [← Bool.not_eq_true]
    exact absent _ (List.mem_map_of_mem member)
  rw [VectorIndex.delete,missing]

omit [LinearOrder D] in
theorem Stored.delete_some (stored : index.Stored live) {key : List F} {idx : Nat}
    (found : (index.items.findIdx? fun item =>
      (key.zip (vectorAt index.dimension index.vectors item.vector_offset)).all fun pair => same pair.1 pair.2) = some idx) :
    ∃ entry, Matches same key entry.1 ∧ takeAt index.entries idx = some (entry,(index.delete same key).entries) ∧
      (index.delete same key).items.map VectorIndexItem.vector_offset =
        (List.range (index.items.length-1)).map (·*index.dimension) ∧
      (index.delete same key).vector_count = index.items.length-1 := by
  obtain ⟨inside,matched,_⟩ := List.findIdx?_eq_some_iff_getElem.mp found
  obtain ⟨deleted,here⟩ : ∃ deleted, index.items[idx]? = some deleted := ⟨_,List.getElem?_eq_getElem inside⟩
  have value := (List.getElem?_eq_some_iff.mp here).2
  obtain ⟨last,final⟩ : ∃ last, index.items.getLast? = some last :=
    ⟨_,List.getLast?_eq_some_getLast (List.ne_nil_of_length_pos (Nat.zero_lt_of_lt inside))⟩
  have shorter : ((List.range index.items.length).map (·*index.dimension)).dropLast =
      (List.range (index.items.length-1)).map (·*index.dimension) := by
    obtain ⟨count,counted⟩ : ∃ count, index.items.length = count+1 := ⟨_,(Nat.sub_add_cancel (by omega)).symm⟩
    rw [counted,List.range_succ,List.map_append,List.map_singleton,List.dropLast_concat,Nat.add_sub_cancel]
  have taken : takeAt index.entries idx =
      some ((vectorAt index.dimension index.vectors deleted.vector_offset,deleted.record_id),
        (index.entries.set idx (vectorAt index.dimension index.vectors last.vector_offset,last.record_id)).dropLast) := by
    rw [takeAt,VectorIndex.entries,List.getElem?_map,List.getLast?_map,here,final]
    rfl
  have gone : index.delete same key = if idx < index.items.length-1 then
        {index with
          vectors:=copied index.vectors deleted.vector_offset index.dimension fun place =>
            index.vectors (last.vector_offset+place)
          items:=(index.items.set idx {last with vector_offset:=deleted.vector_offset}).dropLast
          vector_count:=index.items.length-1}
      else {index with items:=index.items.dropLast,vector_count:=index.items.length-1} := by
    rw [VectorIndex.delete,found]
    dsimp only
    rw [here,final]
  refine ⟨(vectorAt index.dimension index.vectors deleted.vector_offset,deleted.record_id),value ▸ matched,
    taken.trans ?_,?_,?_⟩
  · rw [gone]
    split
    · refine congrArg (fun rest => some (_,rest)) ?_
      rw [VectorIndex.entries,VectorIndex.entries,List.map_dropLast,List.map_set,vectorAt_copied]
      refine congrArg List.dropLast (List.ext_getElem ?_ ?_)
      · rw [List.length_set,List.length_set,List.length_map,List.length_map]
      · intro place first second
        rw [List.getElem_set,List.getElem_set]
        split
        · rfl
        · next differ =>
          rw [List.length_set,List.length_map] at first
          have offset := stored.offset (List.getElem?_eq_getElem first)
          rw [List.getElem_map,List.getElem_map,vectorAt_elsewhere]
          rw [offset,stored.offset here]
          exact places_apart (Ne.symm differ)
    · next late =>
      refine congrArg (fun rest => some (_,rest)) ?_
      have long : index.entries.length = index.items.length := List.length_map _
      have kept_front : (index.entries.set idx (vectorAt index.dimension index.vectors last.vector_offset,last.record_id)).dropLast =
          index.entries.dropLast := by
        rw [List.dropLast_eq_take,List.length_set,List.take_set_of_le (by omega),List.dropLast_eq_take]
      rw [kept_front,VectorIndex.entries,VectorIndex.entries,List.map_dropLast]
  · rw [gone,← shorter,← stored.packed]
    split
    · rw [List.map_dropLast,List.map_set]
      have same_place : (index.items.map VectorIndexItem.vector_offset).set idx deleted.vector_offset =
          index.items.map VectorIndexItem.vector_offset := by
        have placed : (index.items.map VectorIndexItem.vector_offset)[idx]? = some deleted.vector_offset := by
          rw [List.getElem?_map,here]
          rfl
        obtain ⟨_,equal⟩ := List.getElem?_eq_some_iff.mp placed
        rw [← equal,List.set_getElem_self]
      rw [same_place]
    · rw [List.map_dropLast]
  · rw [gone]
    split <;> rfl

variable (same) in
omit [LinearOrder D] in
theorem delete_rest (index : VectorIndex F) (key : List F) :
    (index.delete same key).dimension = index.dimension ∧ (index.delete same key).max_items = index.max_items ∧
      (index.delete same key).index_impl = index.index_impl := by
  rw [VectorIndex.delete]
  split
  · exact ⟨rfl,rfl,rfl⟩
  · split
    · split <;> exact ⟨rfl,rfl,rfl⟩
    · exact ⟨rfl,rfl,rfl⟩

variable (same) in
omit [LinearOrder D] in
theorem Stored.delete (stored : index.Stored live) (key : List F) :
    ∃ live', (Call.delete key).Leaves same index.dimension index.max_items live (.ok ()) live' ∧
      (index.delete same key).Stored live' := by
  cases found : index.items.findIdx? fun item =>
      (key.zip (vectorAt index.dimension index.vectors item.vector_offset)).all fun pair => same pair.1 pair.2 with
  | none =>
    have absent : ∀ entry ∈ index.entries, ¬ Matches same key entry.1 := by
      intro entry member matched
      obtain ⟨item,listed,rfl⟩ := List.mem_map.mp member
      exact Bool.false_ne_true ((List.findIdx?_eq_none_iff.mp found item listed).symm.trans matched)
    rw [delete_none absent]
    exact ⟨live,.missing fun entry held => absent entry (stored.entries.mem_iff.mpr held),stored⟩
  | some idx =>
    obtain ⟨entry,matched,taken,packed,count⟩ := stored.delete_some found
    obtain ⟨even,most,_⟩ := delete_rest same index key
    have size : (index.delete same key).items.length = index.items.length-1 := by
      have long := congrArg List.length packed
      rwa [List.length_map,List.length_map,List.length_range] at long
    refine ⟨(index.delete same key).entries,.delete entry matched (stored.entries.symm.trans (takeAt_perm taken)),
      List.Perm.refl _,?_,count.trans size.symm,?_⟩
    · rw [packed,size,even]
    · rw [size,most]
      exact Nat.le_trans (Nat.sub_le _ _) stored.room

omit [LinearOrder D] in
theorem Kept.delete (kept : index.Kept live) {key : List F} (fits : index.Fits same (.delete key)) :
    ∃ live', (Call.delete key).Leaves same index.dimension index.max_items live (.ok ()) live' ∧
      (index.delete same key).Kept live' := by
  obtain ⟨live',leaves,stored⟩ := kept.toStored.delete same key
  refine ⟨live',leaves,stored,?_⟩
  rcases fits with linear | absent
  · rw [(delete_rest same index key).2.2,linear]
    trivial
  · rw [delete_none absent]
    exact kept.mirrors

theorem Kept.faithful (kept : index.Kept live) {calls : List (Call F)} (meets : index.Meets distances same calls) :
    index.Faithful distances same live calls := by
  induction calls generalizing index live with
  | nil => exact kept.holds
  | cons call calls ih =>
    obtain ⟨fits,rest⟩ := meets
    cases call with
    | insert key record_id level =>
      obtain ⟨answered,done,live',leaves,next⟩ := kept.insert distances same fits
      exact ⟨kept.holds,answered,done,live',leaves,ih next (rest answered done)⟩
    | delete key =>
      obtain ⟨live',leaves,next⟩ := kept.delete fits
      exact ⟨kept.holds,_,rfl,live',leaves,ih next (rest _ rfl)⟩

end Runs

omit [LinearOrder D] in
theorem new_stored {lnFloor : Nat → Nat} {zero : F} {vector_meta : VectorMetadata} {max_items : Nat} {index : VectorIndex F}
    (built : VectorIndex.new lnFloor zero vector_meta max_items = .ok index) : index.Stored [] := by
  rw [VectorIndex.new] at built
  split at built
  · cases built
  · cases impl : VectorIndexImpl.new lnFloor zero vector_meta max_items with
    | error error =>
      rw [impl] at built
      cases built
    | ok index_impl =>
      rw [impl] at built
      cases built
      exact ⟨List.Perm.refl [],rfl,rfl,Nat.zero_le _⟩

theorem fresh_entries (zero : F) (vector_meta : VectorMetadata) :
    (List.replicate vector_meta.ivf_nlist (IVFCluster.new zero vector_meta.dimension)).flatMap IVFCluster.entries = [] :=
  List.flatMap_eq_nil_iff.mpr fun cluster member => by rw [List.eq_of_mem_replicate member]; rfl

theorem new_kept {lnFloor : Nat → Nat} {zero : F} {vector_meta : VectorMetadata} {max_items : Nat} {index : VectorIndex F}
    (uncoded : vector_meta.index_type ≠ .ivfPq) (built : VectorIndex.new lnFloor zero vector_meta max_items = .ok index) :
    index.Kept [] ∧ {index with index_impl:=.linearSearch}.Kept [] := by
  have stored := new_stored built
  refine ⟨⟨stored,?_⟩,⟨⟨stored.entries,stored.packed,stored.vectors,stored.room⟩,trivial⟩⟩
  rw [VectorIndex.new] at built
  split at built
  · cases built
  · cases impl : VectorIndexImpl.new lnFloor zero vector_meta max_items with
    | error error =>
      rw [impl] at built
      cases built
    | ok index_impl =>
      rw [impl] at built
      cases built
      rw [VectorIndexImpl.new] at impl
      split at impl
      · cases impl
        exact ⟨HNSWIndex.new_graph _ _ _ _ _,rfl,rfl⟩
      · cases impl
        exact ⟨HNSWIndex.new_graph _ _ _ _ _,rfl,rfl⟩
      · cases impl
        exact ⟨HNSWIndex.new_graph _ _ _ _ _,rfl,rfl⟩
      · cases impl
        refine ⟨rfl,?_,?_⟩
        · intro cluster member
          rw [List.eq_of_mem_replicate member]
          rfl
        · exact (List.Perm.of_eq (fresh_entries zero vector_meta)).subperm
      · next coded => exact absurd coded uncoded

theorem ivf_single (calculate_distance : List F → List F → D) (storage : Nat → F) (cluster : IVFCluster F)
    (nlist nprobe dimension vector_count : Nat) (query_vec : List F) (k : Nat) :
    IVFIndex.search calculate_distance storage ⟨[cluster],nlist,nprobe+1,dimension,vector_count⟩ query_vec k =
      (byDistance (cluster.entries.map fun entry =>
        (calculate_distance query_vec (vectorAt dimension storage entry.1),entry.2))).take k := by
  have one : byDistance [(calculate_distance query_vec cluster.centroid,cluster)] =
      [(calculate_distance query_vec cluster.centroid,cluster)] := List.mergeSort_singleton _
  rw [IVFIndex.search]
  dsimp only
  rw [List.map_singleton,one,List.take_succ_cons,List.take_nil,List.map_singleton,List.flatMap_singleton]

theorem searchKnn_ivf {distances : VectorDistances F D} {index : VectorIndex F} {metadata : VectorMetadata}
    {ivf_index : IVFIndex F} (shape : index.index_impl = .ivfFlat metadata ivf_index) (filled : index.items.length ≠ 0)
    (query_vec : List F) (k : Nat) : index.searchKnn distances query_vec k =
      ivf_index.search distances.ivf index.vectors query_vec (min k index.items.length) := by
  rw [searchKnn,if_neg filled,searchImpl,shape]

theorem insert_linear {distances : VectorDistances F D} {index : VectorIndex F} (linear : index.index_impl = .linearSearch)
    {key : List F} {record_id level : Nat} {answered : Except RemDbError Unit × VectorIndex F}
    (done : index.insert distances key record_id level = some answered) : answered.2.index_impl = .linearSearch := by
  rw [VectorIndex.insert,linear] at done
  split at done
  · cases done
    exact linear
  · split at done
    · cases done
      exact linear
    · cases done
      rfl

theorem meets_linear {distances : VectorDistances F D} {same : F → F → Bool} {index : VectorIndex F}
    (linear : index.index_impl = .linearSearch) (calls : List (Call F)) : index.Meets distances same calls := by
  induction calls generalizing index with
  | nil => trivial
  | cons call calls ih =>
    cases call with
    | insert key record_id level =>
      refine ⟨fun metadata ivf_index shape => ?_,fun answered done => ih (insert_linear linear done)⟩
      rw [linear] at shape
      cases shape
    | delete key =>
      refine ⟨.inl linear,?_⟩
      rintro _ ⟨⟩
      exact ih ((delete_rest same index key).2.2.trans linear)

section Ranges
variable (distances : VectorDistances F D) (same : F → F → Bool)

-- The items in use are the live entries, and a range query gives those of them
-- that are near enough, as many as it is asked for.
def Ranges (index : VectorIndex F) (live : List (List F × Nat)) : Prop :=
  index.items.length = live.length ∧ index.vector_count = live.length ∧
    ∀ query_vec range_value max_records, ∃ found : List (List F × Nat),
      found.Perm (live.filter fun entry => decide (distances.linear query_vec entry.1 ≤ range_value)) ∧
        index.findRangeAll distances query_vec range_value max_records = (found.take max_records).map Prod.snd

-- A call that reports an error leaves the contents alone.
def Tracked (index : VectorIndex F) (live : List (List F × Nat)) : List (Call F) → Prop
  | [] => index.Ranges distances live
  | call :: calls =>
    index.Ranges distances live ∧ ∀ answered ∈ index.step distances same call,
      ∃ live', (call.Leaves same index.dimension index.max_items live answered.1 live' ∨
        live' = live ∧ answered.1 ≠ .ok ()) ∧ Tracked answered.2 live' calls

variable {distances same} {index : VectorIndex F} {live : List (List F × Nat)}

theorem Stored.ranges (stored : index.Stored live) : index.Ranges distances live := by
  refine ⟨stored.size,stored.vectors.trans stored.size,fun query_vec range_value max_records => ?_⟩
  refine ⟨_,stored.entries.filter _,?_⟩
  rw [findRangeAll,VectorIndex.entries,List.filter_map,← List.map_take,List.map_map]
  rfl

theorem Stored.tracked (stored : index.Stored live) (calls : List (Call F)) : index.Tracked distances same live calls := by
  induction calls generalizing index live with
  | nil => exact stored.ranges
  | cons call calls ih =>
    refine ⟨stored.ranges,fun answered done => ?_⟩
    cases call with
    | insert key record_id level =>
      obtain ⟨live',leaves,next⟩ := stored.insert distances same done
      exact ⟨live',leaves,ih next⟩
    | delete key =>
      cases done
      obtain ⟨live',leaves,next⟩ := stored.delete same key
      exact ⟨live',.inl leaves,ih next⟩

end Ranges

section Probing
variable (distances : VectorDistances F D)

def insertAll (index : VectorIndex F) : List (List F × Nat × Nat) → Option (VectorIndex F)
  | [] => some index
  | (key,record_id,level) :: rows => (index.insert distances key record_id level).bind fun answered =>
    answered.2.insertAll rows

-- The first `k` in the order of their distances, and no other is nearer.
def Nearest (k : Nat) (found all : List (D × Nat)) : Prop :=
  found.length = min k all.length ∧ (found.Pairwise fun one other => one.1 ≤ other.1) ∧
    ∃ others, (found ++ others).Perm all ∧ ∀ near ∈ found, ∀ far ∈ others, near.1 ≤ far.1

-- All items are in the clusters, and a search visits all clusters.
structure Probed (index : VectorIndex F) (metadata : VectorMetadata) (ivf_index : IVFIndex F) : Prop where
  shape : index.index_impl = .ivfFlat metadata ivf_index
  dimension : ivf_index.dimension = index.dimension
  filled : ivf_index.clusters ≠ []
  wide : ivf_index.clusters.length ≤ ivf_index.nprobe
  aligned : ∀ cluster ∈ ivf_index.clusters, cluster.record_ids.length = cluster.vector_offsets.length
  whole : (ivf_index.clusters.flatMap IVFCluster.entries).Perm (itemKeys index.items)

variable {distances} {index : VectorIndex F} {metadata : VectorMetadata} {ivf_index : IVFIndex F}

theorem nearest_take {rows all : List (D × Nat)} (perm : rows.Perm all) (k : Nat) : Nearest k ((byDistance rows).take k) all := by
  have sorted := byDistance_sorted rows
  have whole := (byDistance_perm rows).trans perm
  rw [← List.take_append_drop k (byDistance rows)] at sorted whole
  obtain ⟨first,_,across⟩ := List.pairwise_append.mp sorted
  refine ⟨?_,first,(byDistance rows).drop k,whole,fun near member far other => across near member far other⟩
  rw [List.length_take,(byDistance_perm rows).length_eq,perm.length_eq]

theorem Probed.nearest (probed : index.Probed metadata ivf_index) (query_vec : List F) (k : Nat) :
    Nearest k (index.searchKnn distances query_vec k)
      (index.entries.map fun entry => (distances.ivf query_vec entry.1,entry.2)) := by
  have count : (index.entries.map fun entry => (distances.ivf query_vec entry.1,entry.2)).length = index.items.length := by
    rw [List.length_map,entries,List.length_map]
  rcases Nat.eq_zero_or_pos index.items.length with none_there | some_there
  · rw [none_there] at count
    rw [searchKnn,if_pos none_there,List.eq_nil_of_length_eq_zero count]
    exact ⟨(Nat.min_zero k).symm,.nil,[],List.Perm.refl _,nofun⟩
  have selected := closest_perm distances ivf_index.clusters query_vec
  have long := selected.length_eq
  rw [List.length_map] at long
  have rows := (selected.flatMap_right fun cluster => cluster.entries.map fun entry =>
    (distances.ivf query_vec (vectorAt ivf_index.dimension index.vectors entry.1),entry.2)).trans
      ((List.Perm.of_eq List.map_flatMap.symm).trans (probed.whole.map _))
  have found := nearest_take rows (min k index.items.length)
  rw [searchKnn_ivf probed.shape (Nat.ne_of_gt some_there),IVFIndex.search]
  rw [List.take_of_length_le (Nat.le_trans (Nat.le_of_eq long) probed.wide)]
  rw [entries_eq,List.map_map,← probed.dimension]
  rw [entries_eq,List.map_map,← probed.dimension] at count
  refine ⟨?_,found.2⟩
  rw [found.1]
  exact (congrArg (min _) count).trans (by rw [Nat.min_assoc,Nat.min_self]; exact congrArg (min k) count.symm)

variable (distances) in
theorem Probed.insert (probed : index.Probed metadata ivf_index) (key : List F) (record_id level : Nat) :
    ∃ answered, index.insert distances key record_id level = some answered ∧ ∃ after, answered.2.Probed metadata after := by
  rw [VectorIndex.insert]
  split
  · exact ⟨_,rfl,_,probed⟩
  · split
    · exact ⟨_,rfl,_,probed⟩
    · obtain ⟨after,done,dimension,nprobe,long,aligned,grown⟩ := ivf_inserts distances probed.filled probed.aligned
        (copied index.vectors (index.vector_count*index.dimension) index.dimension fun place =>
          key.getD place (index.vectors (index.vector_count*index.dimension+place)))
        (index.vector_count*index.dimension) record_id
      simp only [insertImpl,probed.shape,done]
      refine ⟨_,rfl,after,rfl,dimension.trans probed.dimension,?_,?_,aligned,?_⟩
      · exact List.ne_nil_of_length_pos (long.symm ▸ List.length_pos_of_ne_nil probed.filled)
      · rw [long,nprobe]
        exact probed.wide
      · rw [itemKeys,List.map_append]
        exact grown.trans (probed.whole.append_right _)

variable (distances) in
theorem Probed.insertAll (probed : index.Probed metadata ivf_index) (rows : List (List F × Nat × Nat)) :
    ∃ last, index.insertAll distances rows = some last ∧ ∃ after, last.Probed metadata after := by
  induction rows generalizing index ivf_index with
  | nil => exact ⟨index,rfl,ivf_index,probed⟩
  | cons row rows ih =>
    obtain ⟨answered,done,_,next⟩ := probed.insert distances row.1 row.2.1 row.2.2
    obtain ⟨last,ran,after⟩ := ih next
    refine ⟨last,?_,after⟩
    rw [VectorIndex.insertAll,done]
    exact ran

end Probing

-- An index that searches the items themselves answers from its contents in every
-- run, and any other in the runs whose deletions find nothing.
theorem vector_index_faithful (distances : VectorDistances F D) (same : F → F → Bool) (lnFloor : Nat → Nat) (zero : F)
    (vector_meta : VectorMetadata) (max_items : Nat) (index : VectorIndex F) (uncoded : vector_meta.index_type ≠ .ivfPq)
    (built : VectorIndex.new lnFloor zero vector_meta max_items = .ok index) (calls : List (Call F)) :
    (index.Meets distances same calls → index.Faithful distances same [] calls) ∧
      {index with index_impl:=.linearSearch}.Faithful distances same [] calls := by
  obtain ⟨own,linear⟩ := new_kept uncoded built
  exact ⟨own.faithful,linear.faithful (meets_linear rfl calls)⟩

def wholeDistances : VectorDistances Nat Nat :=
  let apart := fun one other : List Nat => (one.sum-other.sum)+(other.sum-one.sum)
  ⟨apart,apart,apart,apart,apart,100,0,0,(· + ·)⟩

def oneCluster : VectorMetadata := ⟨1,.l2,.ivf,false,0,3,16,200,100,1,1⟩

theorem vector_index_faithful_one : oneCluster.index_type ≠ .ivfPq ∧ ∃ index,
    VectorIndex.new (fun _ => 0) 0 oneCluster 2 = .ok index ∧
      index.Faithful wholeDistances (· == ·) [] [.insert [3] 8 0,.delete [4],.insert [5] 7 0] := by
  refine ⟨by decide,_,rfl,(vector_index_faithful wholeDistances (· == ·) (fun _ => 0) 0 oneCluster 2 _ (by decide) rfl _).1 ?_⟩
  have filled : ∀ index : VectorIndex Nat, index.index_impl = .ivfFlat oneCluster ⟨[⟨[0],0,[],[]⟩],1,1,1,0⟩ →
      index.Fits (· == ·) (.insert [3] 8 0) := by
    intro index shape metadata ivf_index other
    cases shape.symm.trans other
    exact List.cons_ne_nil _ _
  refine ⟨filled _ rfl,fun first done => ?_⟩
  obtain rfl := Option.some.inj done
  refine ⟨.inr ?_,fun second done => ?_⟩
  · intro entry member
    rw [List.mem_singleton.mp member]
    exact Bool.false_ne_true
  · obtain rfl := Option.some.inj done
    refine ⟨?_,fun _ _ => trivial⟩
    rintro metadata ivf_index ⟨⟩
    exact List.cons_ne_nil _ _

-- The last vector moves into the place of the deleted one, and the cluster has
-- the deleted record for it.
def afterDeletion : VectorIndex Nat :=
  let empty : VectorIndex Nat := ⟨.l2,1,.ivf,[],fun _ => 0,2,0,.ivfFlat oneCluster (IVFIndex.new 0 1 1 1)⟩
  let added (index : VectorIndex Nat) (key record_id : Nat) :=
    ((index.insert wholeDistances [key] record_id 0).map Prod.snd).getD index
  (added (added empty 3 8) 5 7).delete (· == ·) [3]

theorem deleted_record_found : ¬ ∀ (index : VectorIndex Nat), VectorIndex.new (fun _ => 0) 0 oneCluster 2 = .ok index →
    ∀ calls, index.Faithful wholeDistances (· == ·) [] calls := by
  intro always
  obtain ⟨_,_,first,_,_,_,_,second,_,_,_,_,third,live,_,last⟩ :=
    always _ rfl [.insert [3] 8 0,.insert [5] 7 0,.delete [3]]
  obtain rfl := Option.some.inj first
  obtain rfl := Option.some.inj second
  obtain rfl := Option.some.inj third
  have holds : afterDeletion.Holds wholeDistances live := last
  have left : [([5],7)].Perm live := holds.entries
  obtain ⟨found,selected,results⟩ := holds.answers [5] 1
  have shape : afterDeletion.index_impl = .ivfFlat oneCluster ⟨[⟨[0],2,[0,1],[8,7]⟩],1,1,1,2⟩ := rfl
  rw [searchKnn_ivf shape (by decide),ivf_single] at results
  have rows : byDistance [(0,8),(0,7)] = [(0,8),(0,7)] := List.mergeSort_of_pairwise (by decide)
  have nearest : (byDistance [(0,8),(0,7)]).take 1 = found.map fun entry => (wholeDistances.ivf [5] entry.1,entry.2) :=
    results
  rw [rows] at nearest
  have records := congrArg (List.map Prod.snd) nearest
  rw [List.map_map] at records
  have eight : 8 ∈ found.map Prod.snd := records ▸ List.mem_cons_self
  obtain ⟨entry,among,deleted⟩ := List.mem_map.mp eight
  rw [List.mem_singleton.mp (left.mem_iff.mpr (selected.subset among))] at deleted
  cases deleted

end VectorIndex
end RemDb
