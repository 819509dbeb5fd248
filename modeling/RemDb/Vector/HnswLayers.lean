import RemDb.Vector.Hnsw

namespace RemDb
open Lib

-- What is asked to be inserted, with the random level it gets.
structure Insertion where
  vector_offset : Nat
  record_id : Nat
  level : Nat
deriving DecidableEq,Repr

namespace HNSWIndex

theorem modify_last (front : List α) (last : α) (f : α → α) :
    (front ++ [last]).modify front.length f = front ++ [f last] := by
  have inside : front.length < (front ++ [last]).length := by
    rw [List.length_append,List.length_singleton]
    exact Nat.lt_succ_self _
  rw [List.modify_eq_take_cons_drop inside,List.take_left,List.getElem_append_right (Nat.le_refl _)]
  simp

-- The neighbors the new node gets, and nothing on its other levels.
def linkedNode (one : Insertion) (max_level : Nat) (neighbors : List Nat) : HNSWNode :=
  ⟨one.vector_offset,one.record_id,(List.replicate (max_level+1) []).modify one.level (· ++ neighbors)⟩

section Nodes
variable {index base : HNSWIndex} {node : HNSWNode} {level number : Nat}

theorem links_early (shape : index.nodes = base.nodes ++ [node]) (early : number < base.nodes.length) :
    index.links level number = base.links level number := by
  rw [links,links,shape,List.getElem?_append_left early]

theorem links_last (shape : index.nodes = base.nodes ++ [node]) :
    index.links level base.nodes.length = node.getNeighborsAtLevel level := by
  rw [links,shape,List.getElem?_append_right (Nat.le_refl _),Nat.sub_self]
  rfl

theorem links_outside (outside : index.nodes.length ≤ number) : index.links level number = [] := by
  rw [links,List.getElem?_eq_none outside]

end Nodes

section Connecting
variable {V D : Type} [LinearOrder D] {vectors : Nat → V} {calculate_distance : V → V → D} {index base : HNSWIndex}
  {node : HNSWNode} {level : Nat}

theorem connect_last (shape : index.nodes = base.nodes ++ [node]) {neighbor : Nat}
    (early : neighbor < base.nodes.length) (short : (base.links level neighbor).length ≤ index.m) :
    connect vectors calculate_distance base.nodes.length level index neighbor =
      {index with nodes:=base.nodes ++ [HNSWNode.addNeighborAtLevel level neighbor node]} := by
  have grown : index.nodes.modify base.nodes.length (HNSWNode.addNeighborAtLevel level neighbor) =
      base.nodes ++ [HNSWNode.addNeighborAtLevel level neighbor node] := by
    rw [shape]
    exact modify_last _ _ _
  rw [connect,grown,prune]
  have same : links {index with nodes:=base.nodes ++ [HNSWNode.addNeighborAtLevel level neighbor node]} level neighbor =
      base.links level neighbor := links_early rfl early
  rw [same]
  exact if_neg (Nat.not_lt_of_le short)

theorem connects_last (shape : index.nodes = base.nodes ++ [node])
    (short : ∀ number < base.nodes.length, (base.links level number).length ≤ index.m) {selected : List Nat}
    (early : ∀ number ∈ selected, number < base.nodes.length) :
    selected.foldl (connect vectors calculate_distance base.nodes.length level) index =
      {index with nodes:=base.nodes ++ [{node with neighbors:=node.neighbors.modify level (· ++ selected)}]} := by
  induction selected generalizing index node with
  | nil =>
    have same : node.neighbors.modify level (· ++ []) = node.neighbors := by
      have id : (fun list : List Nat => list ++ []) = id := funext List.append_nil
      rw [id,List.modify_id]
    rw [same]
    exact (congrArg (fun nodes => {index with nodes:=nodes}) shape)
  | cons neighbor rest ih =>
    obtain ⟨first,others⟩ := List.forall_mem_cons.mp early
    rw [List.foldl_cons,connect_last shape first (short neighbor first)]
    have shaped : nodes {index with nodes:=base.nodes ++ [HNSWNode.addNeighborAtLevel level neighbor node]} =
        base.nodes ++ [HNSWNode.addNeighborAtLevel level neighbor node] := rfl
    refine (ih shaped short others).trans ?_
    have merged : (node.neighbors.modify level (· ++ [neighbor])).modify level (· ++ rest) =
        node.neighbors.modify level (· ++ neighbor :: rest) := by
      rw [List.modify_modify_eq]
      congr 1
      funext list
      exact List.append_assoc list [neighbor] rest
    rw [HNSWNode.addNeighborAtLevel]
    dsimp only
    rw [merged]

end Connecting

-- The first node, and those on the top level.
def Top (inserts : List Insertion) (max_level number : Nat) : Prop :=
  number = 0 ∨ ∃ one, inserts[number]? = some one ∧ one.level = max_level

-- What insertions leave: links lead to earlier nodes, each node is linked on its
-- own level only, and the entry is on the top level.
structure Built (index : HNSWIndex) (inserts : List Insertion) : Prop where
  offsets : index.nodes.map HNSWNode.vector_offset = inserts.map Insertion.vector_offset
  records : index.nodes.map HNSWNode.record_id = inserts.map Insertion.record_id
  earlier : ∀ level number, ∀ next ∈ index.links level number, next < number
  distinct : ∀ level number, (index.links level number).Nodup
  own : ∀ number one, inserts[number]? = some one → ∀ level, level ≠ one.level → index.links level number = []
  top : ∀ number, Top inserts index.max_level number → ∀ next ∈ index.links index.max_level number,
    Top inserts index.max_level next
  started : index.enter_point = none → inserts = []
  entry : ∀ point, index.enter_point = some point → point < inserts.length ∧ Top inserts index.max_level point
  flat : index.max_level = 0 → ∀ point, index.enter_point = some point → point+1 = inserts.length ∧
    ∀ number < inserts.length, ∀ next < number, next ∈ index.links 0 number

section Building
variable {index : HNSWIndex} {inserts : List Insertion} {one : Insertion}

theorem Built.size (built : index.Built inserts) : index.nodes.length = inserts.length := by
  have long := congrArg List.length built.offsets
  rwa [List.length_map,List.length_map] at long

theorem Built.short (built : index.Built inserts) (level number : Nat) : (index.links level number).length ≤ number := by
  have within : index.links level number ⊆ List.range number := fun next member =>
    List.mem_range.mpr (built.earlier level number next member)
  have few := ((built.distinct level number).subperm within).length_le
  rwa [List.length_range] at few

theorem Built.made (lnFloor : Nat → Nat) (m ef_construction ef_search max_nodes : Nat) :
    Built (new lnFloor m ef_construction ef_search max_nodes) [] := by
  have none : ∀ level number, links (new lnFloor m ef_construction ef_search max_nodes) level number = [] := fun _ _ => rfl
  refine ⟨rfl,rfl,nofun,fun _ _ => List.nodup_nil,nofun,?_,fun _ => rfl,nofun,fun _ => nofun⟩
  intro number _ next member
  rw [none] at member
  cases member

theorem Top.append {number max_level : Nat} (top : Top inserts max_level number) :
    Top (inserts ++ [one]) max_level number := by
  rcases top with first | ⟨found,there,level⟩
  · exact .inl first
  · obtain ⟨inside,_⟩ := List.getElem?_eq_some_iff.mp there
    exact .inr ⟨found,(List.getElem?_append_left inside).trans there,level⟩

theorem Top.of_append {number max_level : Nat} (top : Top (inserts ++ [one]) max_level number)
    (early : number < inserts.length) : Top inserts max_level number := by
  rcases top with first | ⟨found,there,level⟩
  · exact .inl first
  · exact .inr ⟨found,(List.getElem?_append_left early).symm.trans there,level⟩

variable {V D : Type} [LinearOrder D] {vectors : Nat → V} {calculate_distance : V → V → D}

-- The pool with the new node, before it is linked.
def grown (index : HNSWIndex) (one : Insertion) : HNSWIndex :=
  {index with nodes:=index.nodes ++ [HNSWNode.new one.vector_offset one.record_id index.max_level]}

theorem grown_links (index : HNSWIndex) (one : Insertion) (level number : Nat) :
    (index.grown one).links level number = index.links level number := by
  rcases Nat.lt_trichotomy number index.nodes.length with early | rfl | late
  · exact links_early rfl early
  · rw [links_outside (Nat.le_refl index.nodes.length),links_last rfl,HNSWNode.new,HNSWNode.getNeighborsAtLevel,
      List.getD_eq_getElem?_getD,List.getElem?_replicate]
    split <;> rfl
  · have long : (index.grown one).nodes.length = index.nodes.length+1 := List.length_append
    rw [links_outside (Nat.le_of_lt late),links_outside (by omega)]

theorem Built.leads_le (built : index.Built inserts) {level start number : Nat}
    (path : Leads (index.links level) start number) : number ≤ start := by
  induction path with
  | refl => exact Nat.le_refl _
  | tail _ link ih => exact Nat.le_trans (Nat.le_of_lt (built.earlier level _ _ link)) ih

-- What a search of the pool finds: distinct nodes, none after the entry.
structure Layer (index : HNSWIndex) (one : Insertion) (level entry : Nat) (found : List Nat) : Prop where
  reached : ∀ number ∈ found, Leads (index.links level) entry number
  early : ∀ number ∈ found, number ≤ entry
  distinct : found.Nodup
  nonempty : found ≠ []

theorem Built.layer (built : index.Built inserts) (vec : V) (entry ef level : Nat) :
    Layer index one level entry
      (((index.grown one).searchLayer vectors calculate_distance vec entry ef level).map Prod.snd) := by
  have sound := searchFrom_sound ((index.grown one).links level)
    (fun number => calculate_distance vec (vectors ((index.grown one).offset number))) ef MAX_ITERATIONS entry
  have same : (index.grown one).links level = index.links level := funext (grown_links index one level)
  refine ⟨?_,?_,sound.distinct,fun none => sound.nonempty (List.map_eq_nil_iff.mp none)⟩
  · intro number member
    obtain ⟨found,among,rfl⟩ := List.mem_map.mp member
    rw [← same]
    exact sound.reached found among
  · intro number member
    obtain ⟨found,among,rfl⟩ := List.mem_map.mp member
    exact built.leads_le (same ▸ sound.reached found among)

theorem Layer.few {level entry : Nat} {found : List Nat} (layer : Layer index one level entry found) :
    found.length ≤ entry+1 := by
  have within : found ⊆ List.range (entry+1) := fun number member =>
    List.mem_range.mpr (Nat.lt_succ_of_le (layer.early number member))
  have few := (layer.distinct.subperm within).length_le
  rwa [List.length_range] at few

-- The descent never climbs, and stays where it is without a level to go down.
theorem Built.descend_le (built : index.Built inserts) (vec : V) (stop count point : Nat) :
    (index.grown one).descend vectors calculate_distance vec stop count point ≤ point := by
  induction count generalizing point with
  | zero => exact Nat.le_refl _
  | succ count ih =>
    rw [descend]
    split
    · next nearest first =>
      have layer : Layer index one (stop+count+1) point (((index.grown one).searchLayer vectors calculate_distance vec
          point 1 (stop+count+1)).map Prod.snd) := built.layer vec point 1 (stop+count+1)
      have early := layer.early nearest.2 (List.mem_map_of_mem (List.mem_of_mem_head? first))
      exact Nat.le_trans (ih nearest.2) early
    · exact ih point

theorem Built.connectLevel_eq (built : index.Built inserts) {too_close : D} {vec : V} {entry : Nat}
    (inside : entry < inserts.length) (few : inserts.length ≤ index.m) {found : List Nat}
    (all : found = ((index.grown one).searchLayer vectors calculate_distance vec entry
      (max index.ef_construction index.m) one.level).map Prod.snd) :
    connectLevel vectors calculate_distance too_close vec entry index.nodes.length (index.grown one) one.level =
      {index with
        nodes:=index.nodes ++ [linkedNode one index.max_level found]
        layer_enter_points:=index.layer_enter_points.modify one.level fun point =>
          some (point.getD index.nodes.length)} := by
  have size := built.size
  have layer : Layer index one one.level entry found := all ▸ built.layer vec entry _ one.level
  have selected : (index.grown one).selectNeighborsHeuristic vectors calculate_distance too_close
      ((index.grown one).searchLayer vectors calculate_distance vec entry
        (max (index.grown one).ef_construction (index.grown one).m) one.level) (index.grown one).m = found := by
    have enough := layer.few
    rw [all,List.length_map] at enough
    exact (if_pos (Nat.le_trans enough (Nat.le_trans inside few))).trans all.symm
  have early : ∀ number ∈ found, number < index.nodes.length := by
    intro number member
    have before := layer.early number member
    omega
  have short : ∀ number < index.nodes.length, (index.links one.level number).length ≤ (index.grown one).m := by
    intro number before
    have list := built.short one.level number
    change _ ≤ index.m
    omega
  have shape : (index.grown one).nodes =
      index.nodes ++ [HNSWNode.new one.vector_offset one.record_id index.max_level] := rfl
  rw [connectLevel,selected,connects_last shape short early]
  rfl

theorem Built.insert_eq (vectors : Nat → V) (calculate_distance : V → V → D) (too_close : D)
    (built : index.Built inserts) {point : Nat}
    (start : index.enter_point = some point) (room : inserts.length < index.max_nodes) (few : inserts.length ≤ index.m)
    (low : one.level ≤ index.max_level) :
    ∃ entry found points, entry ≤ point ∧ (one.level = index.max_level → entry = point) ∧
      found = ((index.grown one).searchLayer vectors calculate_distance (vectors one.vector_offset) entry
        (max index.ef_construction index.m) one.level).map Prod.snd ∧
      insert vectors calculate_distance too_close index one.vector_offset one.record_id one.level =
        (.ok (),{index with
          nodes:=index.nodes ++ [linkedNode one index.max_level found]
          layer_enter_points:=points
          enter_point:=if one.level ≥ index.max_level then some index.nodes.length else some point}) := by
  have before : (index.grown one).descend vectors calculate_distance (vectors one.vector_offset) one.level
      (index.max_level-one.level) point ≤ point := built.descend_le _ _ _ _
  have inside := (built.entry point start).1
  have size := built.size
  let points := index.layer_enter_points.modify one.level fun point => some (point.getD index.nodes.length)
  refine ⟨_,_,points,before,?_,rfl,?_⟩
  · intro top
    rw [top,Nat.sub_self]
    rfl
  · have levels : List.range' (min index.max_level one.level) (one.level+1-min index.max_level one.level) =
        [one.level] := by
      rw [Nat.min_eq_right low,Nat.add_sub_cancel_left]
      rfl
    rw [grown,insert,if_neg (by omega),start]
    dsimp only
    rw [levels,List.foldl_cons,List.foldl_nil]
    have connected : connectLevel vectors calculate_distance too_close (vectors one.vector_offset) _ _
        (index.grown one) _ = _ :=
      built.connectLevel_eq (Nat.lt_of_le_of_lt before inside) few rfl
    rw [grown,start] at connected
    rw [connected]
    split <;> rfl

theorem linkedNode_at {max_level : Nat} (low : one.level ≤ max_level) (neighbors : List Nat) (level : Nat) :
    (linkedNode one max_level neighbors).getNeighborsAtLevel level = if level = one.level then neighbors else [] := by
  rw [linkedNode,HNSWNode.getNeighborsAtLevel,List.getD_eq_getElem?_getD,List.getElem?_modify,List.getElem?_replicate]
  by_cases same : level = one.level
  · subst same
    rw [if_pos (Nat.lt_succ_of_le low),if_pos rfl]
    simp
  · rw [if_neg same]
    have other : ¬ one.level = level := fun equal => same equal.symm
    simp only [if_neg other]
    split <;> rfl

theorem linkedNode_nil (one : Insertion) (max_level : Nat) :
    linkedNode one max_level [] = HNSWNode.new one.vector_offset one.record_id max_level := by
  have same : (fun list : List Nat => list ++ []) = id := funext List.append_nil
  rw [linkedNode,HNSWNode.new,same,List.modify_id]

theorem Built.extended (built : index.Built inserts) {next : HNSWIndex} {found : List Nat}
    (nodes : next.nodes = index.nodes ++ [linkedNode one index.max_level found])
    (levels : next.max_level = index.max_level) (low : one.level ≤ index.max_level)
    (early : ∀ number ∈ found, number < inserts.length) (distinct : found.Nodup)
    (top : one.level = index.max_level → ∀ number ∈ found, Top inserts index.max_level number)
    {point : Nat} (start : next.enter_point = some point) (inside : point < inserts.length+1)
    (entry : Top (inserts ++ [one]) index.max_level point)
    (flat : index.max_level = 0 → point = inserts.length ∧ ∀ number < inserts.length, number ∈ found) :
    next.Built (inserts ++ [one]) := by
  have size := built.size
  have before : ∀ level number, number < inserts.length → next.links level number = index.links level number :=
    fun level number early => links_early nodes (size.symm ▸ early)
  have last : ∀ level, next.links level inserts.length = if level = one.level then found else [] := by
    intro level
    rw [← size,links_last nodes]
    exact linkedNode_at low found level
  have after : ∀ level number, inserts.length < number → next.links level number = [] := by
    intro level number late
    apply links_outside
    rw [nodes,List.length_append,List.length_singleton,size]
    exact late
  have place : ∀ number, number < inserts.length ∨ number = inserts.length ∨ inserts.length < number :=
    fun number => Nat.lt_trichotomy number inserts.length
  refine ⟨?_,?_,?_,?_,?_,?_,?_,?_,?_⟩
  · rw [nodes,List.map_append,List.map_append,built.offsets]
    rfl
  · rw [nodes,List.map_append,List.map_append,built.records]
    rfl
  · intro level number link member
    rcases place number with old | rfl | late
    · rw [before level number old] at member
      exact built.earlier level number link member
    · rw [last] at member
      split at member
      · exact early link member
      · cases member
    · rw [after level number late] at member
      cases member
  · intro level number
    rcases place number with old | rfl | late
    · rw [before level number old]
      exact built.distinct level number
    · rw [last]
      split
      · exact distinct
      · exact List.nodup_nil
    · rw [after level number late]
      exact List.nodup_nil
  · intro number other there level different
    rcases place number with old | rfl | late
    · rw [List.getElem?_append_left old] at there
      rw [before level number old]
      exact built.own number other there level different
    · rw [List.getElem?_append_right (Nat.le_refl _),Nat.sub_self] at there
      cases there
      rw [last,if_neg different]
    · exact after level number late
  · intro number high link member
    rw [levels] at high member ⊢
    rcases place number with old | rfl | late
    · rw [before _ number old] at member
      exact (built.top number (high.of_append old) link member).append
    · rw [last] at member
      split at member
      · next same => exact (top same.symm link member).append
      · cases member
    · rw [after _ number late] at member
      cases member
  · intro none
    rw [start] at none
    cases none
  · intro other there
    rw [start] at there
    cases there
    rw [List.length_append,List.length_singleton,levels]
    exact ⟨inside,entry⟩
  · intro zero other there
    rw [start] at there
    cases there
    rw [levels] at zero
    obtain ⟨newest,all⟩ := flat zero
    rw [List.length_append,List.length_singleton,newest]
    refine ⟨rfl,fun number within link less => ?_⟩
    rcases place number with old | rfl | late
    · rw [before 0 number old]
      cases held : index.enter_point with
      | none =>
        rw [built.started held] at old
        cases old
      | some point => exact (built.flat zero point held).2 number old link less
    · rw [last,if_pos (by omega)]
      exact all link less
    · omega

theorem Built.top_leads (built : index.Built inserts) {start number : Nat} (high : Top inserts index.max_level start)
    (path : Leads (index.links index.max_level) start number) : Top inserts index.max_level number := by
  induction path with
  | refl => exact high
  | tail _ link ih => exact built.top _ ih _ link

theorem Built.flat_leads (built : index.Built inserts) (zero : index.max_level = 0) {point number : Nat}
    (start : index.enter_point = some point) (inside : number < inserts.length) : Leads (index.links 0) point number := by
  obtain ⟨newest,all⟩ := built.flat zero point start
  by_cases same : number = point
  · rw [same]
    exact .refl
  · exact .single (all point (by omega) number (by omega))

theorem Built.range_linked (built : index.Built inserts) (level : Nat) :
    ∀ number ∈ List.range inserts.length, index.links level number ⊆ List.range inserts.length := by
  intro number member link among
  have before := built.earlier level number link among
  exact List.mem_range.mpr (Nat.lt_trans before (List.mem_range.mp member))

-- What the vectors and the levels have no part in.
def settings (index : HNSWIndex) : Nat × Nat × Nat × Nat :=
  (index.max_level,index.max_nodes,index.m,index.ef_search)

theorem Built.inserted (built : index.Built inserts) {too_close : D} (room : inserts.length < index.max_nodes)
    (few : inserts.length ≤ index.m) (cap : inserts.length ≤ MAX_ITERATIONS) (low : one.level ≤ index.max_level) :
    (insert vectors calculate_distance too_close index one.vector_offset one.record_id one.level).2.Built
      (inserts ++ [one]) ∧
      (insert vectors calculate_distance too_close index one.vector_offset one.record_id one.level).2.settings =
        index.settings := by
  have size := built.size
  have high : one.level ≥ index.max_level → Top (inserts ++ [one]) index.max_level inserts.length := by
    intro above
    refine .inr ⟨one,?_,Nat.le_antisymm low above⟩
    rw [List.getElem?_append_right (Nat.le_refl _),Nat.sub_self]
    rfl
  cases start : index.enter_point with
  | none =>
    obtain rfl := built.started start
    have empty : index.nodes.length = 0 := size
    rw [insert,if_neg (by rw [empty]; exact Nat.not_le_of_lt room),start]
    have shape : index.nodes ++ [HNSWNode.new one.vector_offset one.record_id index.max_level] =
        index.nodes ++ [linkedNode one index.max_level []] := by rw [linkedNode_nil]
    refine ⟨built.extended shape rfl low nofun List.nodup_nil (fun _ => nofun) rfl (by omega) (.inl empty) ?_,rfl⟩
    exact fun _ => ⟨empty,nofun⟩
  | some point =>
    obtain ⟨inside,entry_top⟩ := built.entry point start
    obtain ⟨entry,found,points,before,same,all,answer⟩ :=
      built.insert_eq vectors calculate_distance too_close start room few low
    have layer : Layer index one one.level entry found := by
      rw [all]
      exact built.layer _ _ _ _
    have early : ∀ number ∈ found, number < inserts.length := by
      intro number member
      have bound := layer.early number member
      omega
    have top : one.level = index.max_level → ∀ number ∈ found, Top inserts index.max_level number := by
      intro level number member
      have path := layer.reached number member
      rw [same level,level] at path
      exact built.top_leads entry_top path
    have whole : index.max_level = 0 → ∀ number < inserts.length, number ∈ found := by
      intro zero number within
      have level : one.level = 0 := by omega
      rw [all,same (by omega)]
      refine (searchFrom_whole _ (List.mem_range.mpr inside) ?_ ?_ ?_ number).mpr ?_
      · have links : (index.grown one).links one.level = index.links one.level := funext (grown_links index one _)
        rw [links]
        exact built.range_linked one.level
      · rw [List.length_range]
        omega
      · rw [List.length_range]
        exact cap
      · have links : (index.grown one).links one.level = index.links 0 := by
          rw [level]
          exact funext (grown_links index one 0)
        rw [links]
        exact built.flat_leads zero start within
    rw [answer]
    refine ⟨?_,rfl⟩
    by_cases above : one.level ≥ index.max_level
    · refine built.extended rfl rfl low early layer.distinct top (if_pos above) ?_ (size.symm ▸ high above) ?_
      · omega
      · exact fun zero => ⟨size,whole zero⟩
    · refine built.extended rfl rfl low early layer.distinct top (if_neg above) (Nat.lt_succ_of_lt inside)
        entry_top.append ?_
      exact fun zero => absurd (Nat.zero_le _) (zero ▸ above)

variable (vectors calculate_distance)

def insertAll (too_close : D) (index : HNSWIndex) (inserts : List Insertion) : HNSWIndex :=
  inserts.foldl (fun index one =>
    (insert vectors calculate_distance too_close index one.vector_offset one.record_id one.level).2) index

variable {vectors calculate_distance}

theorem Built.insertAll {done : List Insertion} (built : index.Built done) {too_close : D}
    (room : (done ++ inserts).length ≤ index.max_nodes) (few : (done ++ inserts).length ≤ index.m)
    (cap : (done ++ inserts).length ≤ MAX_ITERATIONS) (low : ∀ one ∈ inserts, one.level ≤ index.max_level) :
    (insertAll vectors calculate_distance too_close index inserts).Built (done ++ inserts) ∧
      (insertAll vectors calculate_distance too_close index inserts).settings = index.settings := by
  induction inserts generalizing index done with
  | nil => exact ⟨(List.append_nil done).symm ▸ built,rfl⟩
  | cons one rest ih =>
    rw [List.length_append,List.length_cons] at room few cap
    obtain ⟨first,others⟩ := List.forall_mem_cons.mp low
    let after := (insert vectors calculate_distance too_close index one.vector_offset one.record_id one.level).2
    have step : after.Built (done ++ [one]) ∧ after.settings = index.settings :=
      built.inserted (by omega) (by omega) (by omega) first
    obtain ⟨next,same⟩ := step
    have levels : after.max_level = index.max_level := congrArg (fun settings => settings.1) same
    have nodes : after.max_nodes = index.max_nodes := congrArg (fun settings => settings.2.1) same
    have neighbors : after.m = index.m := congrArg (fun settings => settings.2.2.1) same
    have joined : done ++ [one] ++ rest = done ++ one :: rest := List.append_cons .. |>.symm
    have long : (done ++ [one] ++ rest).length = done.length+(rest.length+1) := by
      rw [joined,List.length_append,List.length_cons]
    obtain ⟨last,kept⟩ := ih next (by omega) (by omega) (by omega) fun other member => levels ▸ others other member
    exact ⟨joined ▸ last,kept.trans same⟩

end Building

end HNSWIndex
end RemDb
