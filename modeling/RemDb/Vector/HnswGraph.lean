import RemDb.Vector.HnswLayers

namespace RemDb
open Lib

namespace HNSWIndex
variable {index : HNSWIndex}

-- What the nodes stand for, whatever their links.
def keys (index : HNSWIndex) : List (Nat × Nat) := index.nodes.map fun node => (node.vector_offset,node.record_id)

theorem keys_length (index : HNSWIndex) : index.keys.length = index.nodes.length := List.length_map _

-- Every link leads to an earlier node, and the entry is a node.
structure Graph (index : HNSWIndex) : Prop where
  earlier : ∀ level number, ∀ next ∈ index.links level number, next < number
  entry : ∀ point, index.enter_point = some point → point < index.nodes.length
  room : index.nodes.length ≤ index.max_nodes

theorem leads_le (earlier : ∀ level number, ∀ next ∈ index.links level number, next < number) {level start number : Nat}
    (path : Leads (index.links level) start number) : number ≤ start := by
  induction path with
  | refl => exact Nat.le_refl _
  | tail _ link ih => exact Nat.le_trans (Nat.le_of_lt (earlier level _ _ link)) ih

theorem links_modify (index : HNSWIndex) (place : Nat) (f : HNSWNode → HNSWNode) (level number : Nat) :
    links {index with nodes:=index.nodes.modify place f} level number =
      if number = place then ((index.nodes[number]?).map fun node => (f node).getNeighborsAtLevel level).getD []
      else index.links level number := by
  rw [links,List.getElem?_modify]
  split
  · next node found =>
    split at found
    · next same =>
      subst same
      obtain ⟨before,there,rfl⟩ := Option.map_eq_some_iff.mp found
      rw [if_pos rfl,there]
      rfl
    · next apart =>
      rw [if_neg (fun same => apart same.symm),links]
      rw [id_map'] at found
      rw [found]
  · next gone =>
    have missing : index.nodes[number]? = none := Option.map_eq_none_iff.mp gone
    rw [links,missing]
    split <;> rfl

theorem keys_modify (nodes : List HNSWNode) (place : Nat) (f : HNSWNode → HNSWNode)
    (same : ∀ node, (f node).vector_offset = node.vector_offset ∧ (f node).record_id = node.record_id) :
    (nodes.modify place f).map (fun node => (node.vector_offset,node.record_id)) =
      nodes.map fun node => (node.vector_offset,node.record_id) := by
  induction nodes generalizing place with
  | nil => cases place <;> rfl
  | cons node rest ih =>
    cases place with
    | zero =>
      rw [List.modify_zero_cons,List.map_cons,List.map_cons,(same node).1,(same node).2]
    | succ place => rw [List.modify_succ_cons,List.map_cons,List.map_cons,ih]

-- Everything but the links is as before.
structure Relinked (before after : HNSWIndex) : Prop where
  keys : after.keys = before.keys
  rest : {after with nodes:=before.nodes,layer_enter_points:=before.layer_enter_points} = before

theorem Relinked.refl (index : HNSWIndex) : Relinked index index := ⟨rfl,rfl⟩

theorem modify_relinked (index : HNSWIndex) (place : Nat) (f : HNSWNode → HNSWNode)
    (same : ∀ node, (f node).vector_offset = node.vector_offset ∧ (f node).record_id = node.record_id) :
    Relinked index {index with nodes:=index.nodes.modify place f} :=
  ⟨keys_modify index.nodes place f same,rfl⟩

theorem Relinked.trans {first second third : HNSWIndex} (one : Relinked first second) (two : Relinked second third) :
    Relinked first third := by
  refine ⟨two.keys.trans one.keys,?_⟩
  have same := congrArg (fun index => {index with nodes:=first.nodes,layer_enter_points:=first.layer_enter_points}) two.rest
  exact same.trans one.rest

theorem Relinked.length {before after : HNSWIndex} (relinked : Relinked before after) :
    after.nodes.length = before.nodes.length := by
  rw [← keys_length,relinked.keys,keys_length]

theorem Relinked.enter_point {before after : HNSWIndex} (relinked : Relinked before after) :
    after.enter_point = before.enter_point := by
  have same := congrArg HNSWIndex.enter_point relinked.rest
  exact same

theorem Relinked.max_nodes {before after : HNSWIndex} (relinked : Relinked before after) :
    after.max_nodes = before.max_nodes := by
  have same := congrArg HNSWIndex.max_nodes relinked.rest
  exact same

section Linking
variable {V D : Type} [LinearOrder D] (vectors : Nat → V) (calculate_distance : V → V → D)

theorem prune_links (index : HNSWIndex) (level neighbor other number : Nat) :
    ((prune vectors calculate_distance index level neighbor).links other number).Subperm (index.links other number) := by
  rw [prune]
  dsimp only
  split
  · rw [links_modify]
    split
    · next same =>
      subst same
      rw [links]
      cases there : index.nodes[number]? with
      | none => exact List.nil_subperm
      | some node =>
        rw [Option.map_some,Option.getD_some,HNSWNode.getNeighborsAtLevel,List.getD_eq_getElem?_getD,List.getElem?_set]
        split
        · next level_same =>
          subst level_same
          split
          · rw [Option.getD_some,List.map_take]
            refine (List.take_sublist _ _).subperm.trans (((byDistance_perm _).map Prod.snd).subperm.trans ?_)
            rw [List.map_map,links,there]
            exact (List.Perm.of_eq (List.map_id _)).subperm
          · exact List.nil_subperm
        · rw [← List.getD_eq_getElem?_getD,links,there]
          exact .refl _
    · exact .refl _
  · exact .refl _

theorem prune_relinked (index : HNSWIndex) (level neighbor : Nat) :
    Relinked index (prune vectors calculate_distance index level neighbor) := by
  rw [prune]
  dsimp only
  split
  · exact modify_relinked _ _ _ fun _ => ⟨rfl,rfl⟩
  · exact .refl index

theorem connect_relinked (number level neighbor : Nat) (index : HNSWIndex) :
    Relinked index (connect vectors calculate_distance number level index neighbor) :=
  Relinked.trans (modify_relinked index number (HNSWNode.addNeighborAtLevel level neighbor) fun _ => ⟨rfl,rfl⟩)
    (prune_relinked vectors calculate_distance _ level neighbor)

theorem connect_links (index : HNSWIndex) (number level neighbor other place : Nat) :
    ((connect vectors calculate_distance number level index neighbor).links other place).Subperm
      (index.links other place ++ if place = number ∧ other = level then [neighbor] else []) := by
  refine (prune_links vectors calculate_distance _ level neighbor other place).trans ?_
  rw [links_modify]
  split
  · next same =>
    subst same
    rw [links]
    cases there : index.nodes[place]? with
    | none => exact List.nil_subperm
    | some node =>
      rw [Option.map_some,Option.getD_some,HNSWNode.getNeighborsAtLevel,HNSWNode.addNeighborAtLevel,
        List.getD_eq_getElem?_getD,List.getElem?_modify]
      dsimp only
      rw [HNSWNode.getNeighborsAtLevel,List.getD_eq_getElem?_getD]
      cases node.neighbors[other]? with
      | none => exact List.nil_subperm
      | some list =>
        rw [Option.map_eq_map,Option.map_some,Option.getD_some,Option.getD_some]
        by_cases level_same : level = other
        · rw [if_pos level_same,if_pos ⟨rfl,level_same.symm⟩]
        · rw [if_neg level_same]
          exact (List.sublist_append_left list _).subperm
  · exact (List.sublist_append_left _ _).subperm

theorem connects_relinked (number level : Nat) (selected : List Nat) (index : HNSWIndex) :
    Relinked index (selected.foldl (connect vectors calculate_distance number level) index) := by
  induction selected generalizing index with
  | nil => exact .refl index
  | cons neighbor rest ih => exact (connect_relinked vectors calculate_distance number level neighbor index).trans (ih _)

theorem connects_links (index : HNSWIndex) (number level other place : Nat) (selected : List Nat) :
    ((selected.foldl (connect vectors calculate_distance number level) index).links other place).Subperm
      (index.links other place ++ if place = number ∧ other = level then selected else []) := by
  induction selected generalizing index with
  | nil =>
    rw [ite_self,List.append_nil]
    exact .refl _
  | cons neighbor rest ih =>
    refine (ih _).trans (((connect_links vectors calculate_distance index number level neighbor other place).append
      (.refl _)).trans (List.Perm.of_eq ?_).subperm)
    rw [List.append_assoc]
    split <;> rfl

theorem pickApart_picked (index : HNSWIndex) (too_close : D) (m : Nat) (queue : List (D × Nat)) (result : List Nat)
    (few : result.length ≤ m) : (index.pickApart vectors calculate_distance too_close m queue result).length ≤ m ∧
      (index.pickApart vectors calculate_distance too_close m queue result).Sublist (result ++ queue.map Prod.snd) := by
  induction queue generalizing result with
  | nil => exact ⟨few,List.sublist_append_left _ _⟩
  | cons row queue ih =>
    obtain ⟨distance,node⟩ := row
    have later : (result ++ queue.map Prod.snd).Sublist (result ++ ((distance,node) :: queue).map Prod.snd) :=
      (List.sublist_cons_self node _).append_left result
    rw [pickApart]
    split
    · next room =>
      split
      · exact ⟨(ih result few).1,(ih result few).2.trans later⟩
      · have taken := ih (result ++ [node]) (List.length_append.trans_le room)
        rw [List.append_assoc] at taken
        exact taken
    · exact ⟨few,List.sublist_append_left _ _⟩

theorem selected_picked (index : HNSWIndex) (too_close : D) (candidates : List (D × Nat)) (m : Nat) :
    (index.selectNeighborsHeuristic vectors calculate_distance too_close candidates m).length ≤ m ∧
      (index.selectNeighborsHeuristic vectors calculate_distance too_close candidates m).Subperm (candidates.map Prod.snd) := by
  rw [selectNeighborsHeuristic]
  split
  · next few => exact ⟨(List.length_map _).trans_le few,.refl _⟩
  · obtain ⟨few,taken⟩ := pickApart_picked vectors calculate_distance index too_close m (byDistance candidates) [] (Nat.zero_le m)
    exact ⟨few,taken.subperm.trans ((byDistance_perm candidates).map Prod.snd).subperm⟩

variable (earlier : ∀ level number, ∀ next ∈ index.links level number, next < number)
include earlier

theorem searchLayer_le (query_vec : V) (entry ef level : Nat) :
    ∀ next ∈ (index.searchLayer vectors calculate_distance query_vec entry ef level).map Prod.snd, next ≤ entry := by
  intro next member
  obtain ⟨found,among,rfl⟩ := List.mem_map.mp member
  exact leads_le earlier ((searchFrom_sound _ _ _ _ _).reached found among)

theorem descend_le (query_vec : V) (stop count point : Nat) :
    index.descend vectors calculate_distance query_vec stop count point ≤ point := by
  induction count generalizing point with
  | zero => exact Nat.le_refl _
  | succ count ih =>
    rw [descend]
    split
    · next nearest first =>
      have down := searchLayer_le vectors calculate_distance earlier query_vec point 1 (stop+count+1) nearest.2
        (List.mem_map_of_mem (List.mem_of_mem_head? first))
      exact Nat.le_trans (ih nearest.2) down
    · exact ih point

theorem connectLevel_earlier (too_close : D) (vec : V) {entry number : Nat} (early : entry < number) (level : Nat) :
    Relinked index (connectLevel vectors calculate_distance too_close vec entry number index level) ∧
      ∀ other place, ∀ next ∈ (connectLevel vectors calculate_distance too_close vec entry number index level).links other place,
        next < place := by
  refine ⟨⟨(connects_relinked vectors calculate_distance number level _ index).keys,?_⟩,?_⟩
  · exact (connects_relinked vectors calculate_distance number level _ index).rest
  · intro other place next member
    rcases List.mem_append.mp ((connects_links vectors calculate_distance index number level other place _).subset member)
      with old | new
    · exact earlier other place next old
    · split at new
      · next own =>
        have found := (selected_picked vectors calculate_distance index too_close _ index.m).2.subset new
        exact Nat.lt_of_le_of_lt (searchLayer_le vectors calculate_distance earlier _ _ _ _ next found)
          (Nat.lt_of_lt_of_eq early own.1.symm)
      · cases new

theorem connectLevels_earlier (too_close : D) (vec : V) {entry number : Nat} (early : entry < number) (levels : List Nat) :
    Relinked index (levels.foldl (connectLevel vectors calculate_distance too_close vec entry number) index) ∧
      ∀ other place, ∀ next ∈ (levels.foldl (connectLevel vectors calculate_distance too_close vec entry number)
        index).links other place, next < place := by
  induction levels generalizing index with
  | nil => exact ⟨.refl index,earlier⟩
  | cons level rest ih =>
    obtain ⟨first,descends⟩ := connectLevel_earlier vectors calculate_distance earlier too_close vec early level
    obtain ⟨others,final⟩ := ih descends
    exact ⟨first.trans others,final⟩

end Linking

section Changing
variable {V D : Type} [LinearOrder D] {vectors : Nat → V} {calculate_distance : V → V → D}

theorem new_graph (lnFloor : Nat → Nat) (m ef_construction ef_search max_nodes : Nat) :
    Graph (new lnFloor m ef_construction ef_search max_nodes) :=
  ⟨fun _ _ _ => nofun,fun _ => nofun,Nat.zero_le _⟩

theorem Graph.insert_full (full : index.max_nodes ≤ index.nodes.length) (too_close : D)
    (vector_offset record_id new_level : Nat) :
    insert vectors calculate_distance too_close index vector_offset record_id new_level = (.error .outOfMemory,index) :=
  if_pos full

variable (vectors calculate_distance) in
theorem Graph.insert (graph : index.Graph) (room : index.nodes.length < index.max_nodes) (too_close : D)
    (vector_offset record_id new_level : Nat) :
    ∃ after, insert vectors calculate_distance too_close index vector_offset record_id new_level = (.ok (),after) ∧
      after.keys = index.keys ++ [(vector_offset,record_id)] ∧ after.Graph ∧ after.max_nodes = index.max_nodes := by
  let one : Insertion := ⟨vector_offset,record_id,new_level⟩
  have added : (index.grown one).keys = index.keys ++ [(vector_offset,record_id)] := by
    rw [keys,grown,List.map_append]
    rfl
  have long : (index.grown one).nodes.length = index.nodes.length+1 := by
    rw [grown,List.length_append,List.length_singleton]
  have back : ∀ level number, ∀ next ∈ (index.grown one).links level number, next < number := by
    intro level number next member
    rw [grown_links] at member
    exact graph.earlier level number next member
  rw [HNSWIndex.insert]
  dsimp only
  rw [if_neg (Nat.not_le_of_lt room)]
  split
  · next none_yet =>
    refine ⟨_,rfl,added,⟨back,?_,?_⟩,rfl⟩
    · rintro point ⟨⟩
      exact Nat.lt_of_lt_of_eq (Nat.lt_succ_self _) long.symm
    · exact Nat.le_trans (Nat.le_of_eq long) room
  · next point start =>
    have inside := graph.entry point start
    have down := descend_le vectors calculate_distance back (vectors vector_offset) new_level (index.max_level-new_level) point
    obtain ⟨relinked,descends⟩ := connectLevels_earlier vectors calculate_distance back too_close
      (vectors vector_offset) (Nat.lt_of_le_of_lt down inside)
      (List.range' (min index.max_level new_level) (new_level+1-min index.max_level new_level))
    have size := relinked.length.trans long
    have same := relinked.keys.trans added
    have most := relinked.max_nodes
    have entered := relinked.enter_point.trans start
    dsimp only [grown] at size same most entered descends ⊢
    split
    · refine ⟨_,rfl,same,⟨descends,?_,?_⟩,most⟩
      · rintro _ ⟨⟩
        exact Nat.lt_of_lt_of_eq (Nat.lt_succ_self _) size.symm
      · exact (Nat.le_of_eq size).trans (room.trans_eq most.symm)
    · refine ⟨_,rfl,same,⟨descends,?_,?_⟩,most⟩
      · intro other there
        obtain rfl : point = other := Option.some.inj (entered.symm.trans there)
        exact Nat.lt_of_lt_of_eq (Nat.lt_succ_of_lt inside) size.symm
      · exact (Nat.le_of_eq size).trans (room.trans_eq most.symm)

theorem delete_links (index : HNSWIndex) (offset level number : Nat) :
    ((index.delete offset).2.links level number).Subperm (index.links level number) := by
  rw [HNSWIndex.delete]
  split
  · exact .refl _
  · next target found =>
    rw [links,List.getElem?_set,List.getElem?_map]
    split
    · next node taken =>
      split at taken
      · split at taken
        · cases taken
          exact List.nil_subperm
        · cases taken
      · obtain ⟨before,there,rfl⟩ := Option.map_eq_some_iff.mp taken
        rw [links,there,HNSWNode.getNeighborsAtLevel,HNSWNode.removeNeighbor,List.getD_eq_getElem?_getD,List.getElem?_map]
        dsimp only
        rw [HNSWNode.getNeighborsAtLevel,List.getD_eq_getElem?_getD]
        cases before.neighbors[level]? with
        | none => exact .refl _
        | some list => exact List.filter_sublist.subperm
    · exact List.nil_subperm

theorem delete_length (index : HNSWIndex) (offset : Nat) : (index.delete offset).2.nodes.length = index.nodes.length := by
  rw [HNSWIndex.delete]
  split
  · rfl
  · rw [List.length_set,List.length_map]

theorem delete_max_nodes (index : HNSWIndex) (offset : Nat) : (index.delete offset).2.max_nodes = index.max_nodes := by
  rw [HNSWIndex.delete]
  split <;> rfl

theorem Graph.delete (graph : index.Graph) (offset : Nat) : (index.delete offset).2.Graph := by
  refine ⟨fun level number next member => graph.earlier level number next ((delete_links index offset level number).subset member),?_,?_⟩
  · intro point start
    rw [delete_length]
    rw [HNSWIndex.delete] at start
    split at start
    · exact graph.entry point start
    · dsimp only at start
      split at start
      · exact List.mem_range.mp (List.mem_of_find?_eq_some start)
      · exact graph.entry point start
  · rw [delete_length,delete_max_nodes]
    exact graph.room

variable (vectors calculate_distance) in
theorem Graph.search_reached (graph : index.Graph) (query_vec : V) (k : Nat) :
    ∃ found : List Nat, found.Nodup ∧
      (∀ number ∈ found, ∃ point, index.enter_point = some point ∧ number ≤ point) ∧
      index.search vectors calculate_distance query_vec k = found.map (fun number =>
        (calculate_distance query_vec (vectors (index.offset number)),index.record number)) ∧
      found.length ≤ k ∧
      (index.search vectors calculate_distance query_vec k).Pairwise fun left right => left.1 ≤ right.1 := by
  rw [search]
  split
  · exact ⟨[],List.nodup_nil,nofun,rfl,Nat.zero_le k,.nil⟩
  · next point start =>
    let last := index.descend vectors calculate_distance query_vec 0 index.max_level point
    let rows := index.searchLayer vectors calculate_distance query_vec last (max index.ef_search k) 0
    have sound := searchFrom_sound (index.links 0)
      (fun number => calculate_distance query_vec (vectors (index.offset number))) (max index.ef_search k) MAX_ITERATIONS last
    refine ⟨(rows.take k).map Prod.snd,?_,?_,?_,?_,?_⟩
    · rw [List.map_take]
      exact sound.distinct.sublist (List.take_sublist k _)
    · intro number member
      obtain ⟨row,taken,rfl⟩ := List.mem_map.mp member
      have within := searchLayer_le vectors calculate_distance graph.earlier query_vec last (max index.ef_search k) 0 row.2
        (List.mem_map_of_mem (List.mem_of_mem_take taken))
      exact ⟨point,start,Nat.le_trans within (descend_le vectors calculate_distance graph.earlier query_vec 0 _ point)⟩
    · rw [List.map_map]
      refine List.map_congr_left fun row taken => ?_
      rw [sound.measured row (List.mem_of_mem_take taken)]
      rfl
    · rw [List.length_map]
      exact List.length_take_le k rows
    · exact List.pairwise_map.mpr (sound.ordered.sublist (List.take_sublist k _))

end Changing

-- No list of neighbors names a node twice or grows beyond `m`.
structure Tidy (index : HNSWIndex) (m : Nat) : Prop where
  bound : index.m = m
  distinct : ∀ level number, (index.links level number).Nodup
  few : ∀ level number, (index.links level number).length ≤ m

variable {m max_nodes : Nat}

theorem nodup_of_subperm {taken all : List Nat} (among : taken.Subperm all) (distinct : all.Nodup) : taken.Nodup := by
  obtain ⟨sorted,perm,within⟩ := among
  exact perm.nodup_iff.mp (distinct.sublist within)

theorem Tidy.shrunk (tidy : index.Tidy m) {after : HNSWIndex} (same : after.m = index.m)
    (fewer : ∀ level number, (after.links level number).Subperm (index.links level number)) : after.Tidy m :=
  ⟨same.trans tidy.bound,fun level number => nodup_of_subperm (fewer level number) (tidy.distinct level number),
    fun level number => (fewer level number).length_le.trans (tidy.few level number)⟩

section Runs
variable {V D : Type} [LinearOrder D] (vectors : Nat → V) (calculate_distance : V → V → D)

-- The new node has no neighbors on a level before the level is connected.
theorem Tidy.connectLevel (tidy : index.Tidy m) (too_close : D) (vec : V) (entry : Nat) {number level : Nat}
    (fresh : index.links level number = []) :
    (connectLevel vectors calculate_distance too_close vec entry number index level).Tidy m ∧
      ∀ other ≠ level, index.links other number = [] →
        (HNSWIndex.connectLevel vectors calculate_distance too_close vec entry number index level).links other number = [] := by
  rw [HNSWIndex.connectLevel]
  generalize rows : index.searchLayer vectors calculate_distance vec entry (max index.ef_construction index.m) level = found
  generalize chosen : index.selectNeighborsHeuristic vectors calculate_distance too_close found index.m = selected
  have distinct : (found.map Prod.snd).Nodup := rows ▸ (searchFrom_sound _ _ _ _ _).distinct
  have picked := selected_picked vectors calculate_distance index too_close found index.m
  rw [chosen] at picked
  have same := congrArg HNSWIndex.m (connects_relinked vectors calculate_distance number level selected index).rest
  generalize linked : selected.foldl (connect vectors calculate_distance number level) index = after at same ⊢
  have either : ∀ other place, (after.links other place).Subperm (index.links other place) ∨
      level = other ∧ (after.links other place).Subperm selected := by
    intro other place
    have grown := connects_links vectors calculate_distance index number level other place selected
    rw [linked] at grown
    split at grown
    · next own =>
      obtain ⟨rfl,rfl⟩ := own
      exact .inr ⟨rfl,by rwa [fresh] at grown⟩
    · exact .inl (by rwa [List.append_nil] at grown)
  refine ⟨⟨same.trans tidy.bound,fun other place => ?_,fun other place => ?_⟩,fun other apart none_yet => ?_⟩
  · rcases either other place with old | ⟨_,new⟩
    · exact nodup_of_subperm old (tidy.distinct other place)
    · exact nodup_of_subperm new (nodup_of_subperm picked.2 distinct)
  · rcases either other place with old | ⟨_,new⟩
    · exact old.length_le.trans (tidy.few other place)
    · exact new.length_le.trans (picked.1.trans_eq tidy.bound)
  · rcases either other number with old | ⟨own,_⟩
    · exact List.subperm_nil.mp (none_yet ▸ old)
    · exact absurd own.symm apart

theorem Tidy.connectLevels (tidy : index.Tidy m) (too_close : D) (vec : V) (entry number : Nat) (levels : List Nat)
    (distinct : levels.Nodup) (fresh : ∀ level ∈ levels, index.links level number = []) :
    (levels.foldl (HNSWIndex.connectLevel vectors calculate_distance too_close vec entry number) index).Tidy m := by
  induction levels generalizing index with
  | nil => exact tidy
  | cons level levels ih =>
    obtain ⟨apart,distinct⟩ := List.nodup_cons.mp distinct
    obtain ⟨next,others⟩ := tidy.connectLevel vectors calculate_distance too_close vec entry (fresh level (.head _))
    exact ih next distinct fun other member =>
      others other (fun same => apart (same ▸ member)) (fresh other (.tail _ member))

theorem Tidy.insert (tidy : index.Tidy m) (too_close : D) (vector_offset record_id new_level : Nat) :
    (insert vectors calculate_distance too_close index vector_offset record_id new_level).2.Tidy m := by
  let one : Insertion := ⟨vector_offset,record_id,new_level⟩
  have grown : (index.grown one).Tidy m := tidy.shrunk rfl fun level number => by rw [grown_links]
  rw [HNSWIndex.insert]
  dsimp only
  split
  · exact tidy
  · split
    · exact ⟨grown.bound,grown.distinct,grown.few⟩
    · next point start =>
      have linked := grown.connectLevels vectors calculate_distance too_close (vectors vector_offset)
        ((index.grown one).descend vectors calculate_distance (vectors vector_offset) new_level
          (index.max_level-new_level) point) index.nodes.length
        (List.range' (min index.max_level new_level) (new_level+1-min index.max_level new_level)) List.nodup_range'
        fun level _ => (grown_links index one level _).trans (links_outside (Nat.le_refl _))
      split
      · exact ⟨linked.bound,linked.distinct,linked.few⟩
      · exact linked

-- An insertion comes with the vectors the buffer holds then.
inductive Change (V : Type) where
  | insert (vectors : Nat → V) (vector_offset record_id new_level : Nat)
  | delete (vector_offset : Nat)

variable {vectors} in
def change (too_close : D) (index : HNSWIndex) : Change V → HNSWIndex
  | .insert vectors vector_offset record_id new_level =>
    (HNSWIndex.insert vectors calculate_distance too_close index vector_offset record_id new_level).2
  | .delete vector_offset => (index.delete vector_offset).2

structure Sound (index : HNSWIndex) (m max_nodes : Nat) : Prop extends Graph index, Tidy index m where
  most : index.max_nodes = max_nodes

theorem Sound.change (sound : index.Sound m max_nodes) (too_close : D) (change : Change V) :
    (index.change calculate_distance too_close change).Sound m max_nodes := by
  cases change with
  | insert vectors vector_offset record_id new_level =>
    have tidy := sound.toTidy.insert vectors calculate_distance too_close vector_offset record_id new_level
    rcases Nat.lt_or_ge index.nodes.length index.max_nodes with room | full
    · obtain ⟨after,done,_,graph,most⟩ :=
        sound.toGraph.insert vectors calculate_distance room too_close vector_offset record_id new_level
      rw [done] at tidy
      rw [HNSWIndex.change,done]
      exact ⟨graph,tidy,most.trans sound.most⟩
    · rw [HNSWIndex.change,Graph.insert_full full]
      exact sound
  | delete vector_offset =>
    have bound : (index.delete vector_offset).2.m = index.m := by
      rw [HNSWIndex.delete]
      split <;> rfl
    exact ⟨sound.toGraph.delete vector_offset,sound.toTidy.shrunk bound (delete_links index vector_offset),
      (delete_max_nodes index vector_offset).trans sound.most⟩

-- Distinct nodes, the nearest first, each with its own distance.
def Answers (index : HNSWIndex) (query_vec : V) (k : Nat) : Prop :=
  ∃ found : List Nat, found.Nodup ∧ found.length ≤ k ∧ (∀ number ∈ found, number < index.nodes.length) ∧
    index.search vectors calculate_distance query_vec k = found.map (fun number =>
      (calculate_distance query_vec (vectors (index.offset number)),index.record number)) ∧
    (index.search vectors calculate_distance query_vec k).Pairwise fun left right => left.1 ≤ right.1

theorem Sound.answers (sound : index.Sound m max_nodes) (query_vec : V) (k : Nat) :
    index.Answers vectors calculate_distance query_vec k := by
  obtain ⟨found,distinct,within,rows,few,sorted⟩ := sound.toGraph.search_reached vectors calculate_distance query_vec k
  refine ⟨found,distinct,few,fun number member => ?_,rows,sorted⟩
  obtain ⟨point,start,le⟩ := within number member
  exact Nat.lt_of_le_of_lt le (sound.entry point start)

end Runs
end HNSWIndex
end RemDb
