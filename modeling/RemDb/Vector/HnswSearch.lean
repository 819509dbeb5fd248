import RemDb.Vector.HnswLayers

namespace RemDb
open Lib

namespace HNSWIndex

-- No node is linked to itself or to a node that is not there.
def LinksWithin (index : HNSWIndex) : Prop :=
  ∀ level number, ∀ next ∈ index.links level number, next ≠ number ∧ next < index.nodes.length

section Finding
variable {V D : Type} [LinearOrder D] (vectors : Nat → V) (calculate_distance : V → V → D)

-- Every search of `k` gives these records, each as often as it is there and in
-- order of distance.
def Finds (index : HNSWIndex) (k : Nat) (records : List Nat) : Prop :=
  ∀ query_vec, let found := index.search vectors calculate_distance query_vec k
    (found.map Prod.snd).Perm records ∧ found.Pairwise fun left right => left.1 ≤ right.1

def deleteAll (index : HNSWIndex) (offsets : List Nat) : HNSWIndex :=
  offsets.foldl (fun index vector_offset => (index.delete vector_offset).2) index

-- What was inserted, less one insertion for each deletion of its offset.
def remaining (inserts : List Insertion) (offsets : List Nat) : List Insertion :=
  offsets.foldl (fun live vector_offset => live.eraseP (·.vector_offset == vector_offset)) inserts

variable {vectors calculate_distance} {index : HNSWIndex} {inserts : List Insertion}

theorem Built.linksWithin (built : index.Built inserts) : index.LinksWithin := by
  intro level number next member
  have before := built.earlier level number next member
  refine ⟨Nat.ne_of_lt before,Nat.lt_of_not_le fun outside => ?_⟩
  rw [links_outside (Nat.le_trans outside (Nat.le_of_lt before))] at member
  cases member

theorem Built.records_range (built : index.Built inserts) :
    (List.range inserts.length).map index.record = inserts.map Insertion.record_id := by
  rw [← built.records,← built.size]
  apply List.ext_getElem
  · rw [List.length_map,List.length_range,List.length_map]
  · intro number first second
    rw [List.length_map] at second
    rw [List.getElem_map,List.getElem_map,List.getElem_range,record,List.getElem?_eq_getElem second]

theorem Built.finds_flat (built : index.Built inserts) (zero : index.max_level = 0)
    (cap : inserts.length ≤ MAX_ITERATIONS) :
    Finds vectors calculate_distance index inserts.length (inserts.map Insertion.record_id) := by
  intro query_vec
  dsimp only
  cases start : index.enter_point with
  | none =>
    obtain rfl := built.started start
    rw [search,start]
    exact ⟨List.Perm.refl _,List.Pairwise.nil⟩
  | some point =>
    have inside := (built.entry point start).1
    let distance := fun number => calculate_distance query_vec (vectors (index.offset number))
    let rows := searchFrom (index.links 0) distance (max index.ef_search inserts.length) MAX_ITERATIONS point
    have sound := searchFrom_sound (index.links 0) distance (max index.ef_search inserts.length) MAX_ITERATIONS point
    have roomy : (List.range inserts.length).length ≤ max index.ef_search inserts.length := by
      rw [List.length_range]
      exact Nat.le_max_right _ _
    have long : (List.range inserts.length).length ≤ MAX_ITERATIONS := by
      rw [List.length_range]
      exact cap
    have all : (rows.map Prod.snd).Perm (List.range inserts.length) :=
      searchFrom_all distance (List.mem_range.mpr inside) (built.range_linked 0) roomy long List.nodup_range
        fun number member => built.flat_leads zero start (List.mem_range.mp member)
    have count := all.length_eq
    rw [List.length_map,List.length_range] at count
    have answer : index.search vectors calculate_distance query_vec inserts.length =
        rows.map fun result => (result.1,index.record result.2) := by
      rw [search,start,zero]
      dsimp only [descend]
      change (rows.take inserts.length).map _ = _
      rw [List.take_of_length_le (Nat.le_of_eq count)]
    rw [answer,List.map_map]
    refine ⟨?_,List.pairwise_map.mpr sound.ordered⟩
    have records := all.map index.record
    rw [List.map_map,built.records_range] at records
    exact records

theorem Built.top_alone (built : index.Built inserts) {number level : Nat} (inside : number < inserts.length)
    (high : Top inserts index.max_level number) (below : level < index.max_level) : index.links level number = [] := by
  rcases high with rfl | ⟨one,there,top⟩
  · refine List.eq_nil_iff_forall_not_mem.mpr fun next member => ?_
    exact Nat.not_lt_zero next (built.earlier level 0 next member)
  · exact built.own number one there level (by omega)

theorem Built.descend_top (built : index.Built inserts) (query_vec : V) {count point : Nat}
    (inside : point < inserts.length) (high : Top inserts index.max_level point) (levels : count ≤ index.max_level) :
    index.descend vectors calculate_distance query_vec 0 count point ≤ point ∧
      Top inserts index.max_level (index.descend vectors calculate_distance query_vec 0 count point) := by
  induction count generalizing point with
  | zero => exact ⟨Nat.le_refl _,high⟩
  | succ count ih =>
    rw [descend]
    split
    · next nearest first =>
      have sound := searchFrom_sound (index.links (0+count+1))
        (fun number => calculate_distance query_vec (vectors (index.offset number))) 1 MAX_ITERATIONS point
      have path := sound.reached nearest (List.mem_of_mem_head? first)
      have moved : nearest.2 ≤ point ∧ Top inserts index.max_level nearest.2 := by
        rcases Nat.lt_or_ge (0+count+1) index.max_level with below | at_top
        · have alone := built.top_alone inside high below
          rcases Relation.ReflTransGen.cases_head path with same | ⟨next,link,_⟩
          · exact same ▸ ⟨Nat.le_refl _,high⟩
          · rw [alone] at link
            cases link
        · have level : 0+count+1 = index.max_level := by omega
          rw [level] at path
          exact ⟨built.leads_le path,built.top_leads high path⟩
      obtain ⟨less,top⟩ := ih (Nat.lt_of_le_of_lt moved.1 inside) moved.2 (by omega)
      exact ⟨Nat.le_trans less moved.1,top⟩
    · exact ih inside high (by omega)

theorem Built.search_layered (vectors : Nat → V) (calculate_distance : V → V → D) (built : index.Built inserts)
    (layered : 0 < index.max_level) (query_vec : V) (k : Nat) :
    (inserts = [] ∧ index.search vectors calculate_distance query_vec k = []) ∨
    ∃ distance, ∃ number < inserts.length,
      index.search vectors calculate_distance query_vec k = [(distance,index.record number)].take k := by
  cases start : index.enter_point with
  | none =>
    left
    rw [search,start]
    exact ⟨built.started start,rfl⟩
  | some point =>
    right
    obtain ⟨inside,high⟩ := built.entry point start
    let last := index.descend vectors calculate_distance query_vec 0 index.max_level point
    obtain ⟨less,top⟩ : last ≤ point ∧ Top inserts index.max_level last :=
      built.descend_top query_vec inside high (Nat.le_refl index.max_level)
    have within := Nat.lt_of_le_of_lt less inside
    have alone := built.top_alone within top layered
    refine ⟨calculate_distance query_vec (vectors (index.offset last)),last,within,?_⟩
    rw [search,start]
    dsimp only
    rw [searchLayer,searchFrom_alone alone,List.map_take]
    rfl

theorem Built.finds_layered_iff (built : index.Built inserts) (layered : 0 < index.max_level) :
    Finds vectors calculate_distance index inserts.length (inserts.map Insertion.record_id) ↔ inserts.length ≤ 1 := by
  constructor
  · intro finds
    have all := (finds (vectors 0)).1.length_eq
    rw [List.length_map,List.length_map] at all
    rcases built.search_layered vectors calculate_distance layered (vectors 0) inserts.length with ⟨rfl,_⟩ | ⟨distance,number,_,answer⟩
    · exact Nat.zero_le 1
    · rw [answer] at all
      have short := List.length_take_le' inserts.length [(distance,index.record number)]
      rw [List.length_singleton] at short
      omega
  · intro few query_vec
    rcases built.search_layered vectors calculate_distance layered query_vec inserts.length with ⟨rfl,answer⟩ | ⟨distance,number,within,answer⟩
    · rw [answer]
      exact ⟨List.Perm.refl _,List.Pairwise.nil⟩
    · have single : inserts.length = 1 := by omega
      obtain rfl : number = 0 := by omega
      have records := built.records_range
      rw [single] at records
      rw [answer,single,← records]
      exact ⟨List.Perm.refl _,List.pairwise_singleton _ _⟩

theorem Built.finds_iff (built : index.Built inserts) (cap : inserts.length ≤ MAX_ITERATIONS) :
    Finds vectors calculate_distance index inserts.length (inserts.map Insertion.record_id) ↔
      inserts.length ≤ 1 ∨ index.max_level = 0 := by
  rcases Nat.eq_zero_or_pos index.max_level with zero | layered
  · exact iff_of_true (built.finds_flat zero cap) (.inr zero)
  · rw [built.finds_layered_iff layered]
    exact ⟨.inl,fun either => either.resolve_right (Nat.ne_of_gt layered)⟩

-- With two nodes in the pool the entry is never taken away.
theorem delete_keeps_entry (several : 2 ≤ index.nodes.length) (entered : index.enter_point ≠ none) (offset : Nat) :
    2 ≤ (index.delete offset).2.nodes.length ∧ (index.delete offset).2.enter_point ≠ none := by
  rw [delete]
  split
  · exact ⟨several,entered⟩
  · next target found =>
    dsimp only
    refine ⟨?_,?_⟩
    · rw [List.length_set,List.length_map]
      exact several
    · split
      · rw [ne_eq,List.find?_eq_none]
        intro none
        by_cases first : target = 0
        · exact none 1 (List.mem_range.mpr several) (decide_eq_true (by omega))
        · exact none 0 (List.mem_range.mpr (by omega)) (decide_eq_true (Ne.symm first))
      · exact entered

theorem deleteAll_keeps_entry (several : 2 ≤ index.nodes.length) (entered : index.enter_point ≠ none)
    (offsets : List Nat) : (index.deleteAll offsets).enter_point ≠ none := by
  induction offsets generalizing index with
  | nil => exact entered
  | cons offset rest ih =>
    obtain ⟨more,still⟩ := delete_keeps_entry several entered offset
    exact ih more still

theorem search_ne_nil (entered : index.enter_point ≠ none) (query_vec : V) {k : Nat} (positive : 0 < k) :
    index.search vectors calculate_distance query_vec k ≠ [] := by
  cases start : index.enter_point with
  | none => exact absurd start entered
  | some point =>
    rw [search,start]
    dsimp only
    intro none
    have taken := List.map_eq_nil_iff.mp none
    rcases List.take_eq_nil_iff.mp taken with zero | empty
    · omega
    · exact (searchFrom_sound _ _ _ _ _).nonempty empty

theorem remaining_nil (offsets : List Nat) : remaining [] offsets = [] := by
  induction offsets with
  | nil => rfl
  | cons offset rest ih => exact ih

theorem remaining_all (inserts : List Insertion) : remaining inserts (inserts.map Insertion.vector_offset) = [] := by
  induction inserts with
  | nil => rfl
  | cons one rest ih =>
    have first : (one :: rest).eraseP (·.vector_offset == one.vector_offset) = rest :=
      List.eraseP_cons_of_pos (beq_self_eq_true one.vector_offset)
    rw [remaining,List.map_cons,List.foldl_cons,first]
    exact ih

theorem delete_none (gone : index.enter_point = none) (offset : Nat) : (index.delete offset).2.enter_point = none := by
  rw [delete]
  split
  · exact gone
  · next target _ =>
    dsimp only
    rw [gone,if_neg (Option.some_ne_none target).symm]

theorem deleteAll_none (gone : index.enter_point = none) (offsets : List Nat) :
    (index.deleteAll offsets).enter_point = none := by
  induction offsets generalizing index with
  | nil => exact gone
  | cons offset rest ih => exact ih (delete_none gone offset)

theorem delete_single {node : HNSWNode} (nodes : index.nodes = [node]) (entered : index.enter_point = some 0) :
    (index.delete node.vector_offset).2.enter_point = none := by
  have found : index.nodes.findIdx? (·.vector_offset == node.vector_offset) = some 0 := by
    rw [nodes,List.findIdx?_cons,beq_self_eq_true]
    rfl
  rw [delete,found]
  dsimp only
  rw [entered,if_pos rfl,nodes]
  rfl

-- The one node that was inserted is gone for good once its offset was deleted.
theorem Built.finds_deleted_single {one : Insertion} (built : index.Built [one]) (cap : 1 ≤ MAX_ITERATIONS)
    {offsets : List Nat} (known : ∀ offset ∈ offsets, offset = one.vector_offset) :
    Finds vectors calculate_distance (index.deleteAll offsets) 1 ((remaining [one] offsets).map Insertion.record_id) := by
  cases offsets with
  | nil => exact (built.finds_iff cap).mpr (.inl (Nat.le_refl 1))
  | cons offset rest =>
    obtain ⟨rfl,_⟩ := List.forall_mem_cons.mp known
    obtain ⟨node,nodes⟩ := List.length_eq_one_iff.mp built.size
    have place : node.vector_offset = one.vector_offset := by
      have offsets := built.offsets
      rw [nodes] at offsets
      exact List.singleton_inj.mp offsets
    have gone : (index.delete one.vector_offset).2.enter_point = none := by
      cases start : index.enter_point with
      | none => exact delete_none start _
      | some point =>
        have inside := (built.entry point start).1
        obtain rfl : point = 0 := Nat.lt_one_iff.mp inside
        rw [← place]
        exact delete_single nodes start
    have empty : remaining [one] (one.vector_offset :: rest) = [] := by
      have first : [one].eraseP (·.vector_offset == one.vector_offset) = [] :=
        List.eraseP_cons_of_pos (beq_self_eq_true one.vector_offset)
      rw [remaining,List.foldl_cons,first]
      exact remaining_nil rest
    intro query_vec
    have none : (index.deleteAll (one.vector_offset :: rest)).enter_point = none := deleteAll_none gone rest
    rw [empty,search,none]
    exact ⟨List.Perm.refl _,List.Pairwise.nil⟩

theorem Built.finds_deleted_iff (built : index.Built inserts) (cap : inserts.length ≤ MAX_ITERATIONS) :
    (∀ offsets, (∀ offset ∈ offsets, offset ∈ inserts.map Insertion.vector_offset) →
      Finds vectors calculate_distance (index.deleteAll offsets) inserts.length
        ((remaining inserts offsets).map Insertion.record_id)) ↔ inserts.length ≤ 1 := by
  constructor
  · intro always
    by_contra many
    have several : 2 ≤ index.nodes.length := by
      rw [built.size]
      omega
    have entered : index.enter_point ≠ none := by
      intro none
      rw [built.started none] at many
      exact many (Nat.zero_le 1)
    have finds := (always _ fun _ => id) (vectors 0)
    rw [remaining_all] at finds
    have none := List.map_eq_nil_iff.mp (List.perm_nil.mp finds.1)
    exact search_ne_nil (deleteAll_keeps_entry several entered _) (vectors 0) (by omega) none
  · intro few offsets known
    match inserts, built, few with
    | [], built, _ =>
      have empty : offsets = [] := List.eq_nil_iff_forall_not_mem.mpr fun offset member => nomatch known offset member
      subst empty
      exact (built.finds_iff cap).mpr (.inl (Nat.zero_le 1))
    | [one], built, _ =>
      exact built.finds_deleted_single cap fun offset member => List.mem_singleton.mp (known offset member)

-- Links are sound whatever the levels. All vectors are found with at most one of
-- them or on a single level, and after any deletions with at most one.
theorem hnsw_complete_iff (vectors : Nat → V) (calculate_distance : V → V → D) (too_close : D) (lnFloor : Nat → Nat)
    {m ef_construction ef_search max_nodes : Nat} {inserts : List Insertion} (few : inserts.length ≤ m)
    (room : inserts.length ≤ max_nodes) (cap : inserts.length ≤ MAX_ITERATIONS)
    (low : ∀ one ∈ inserts, one.level ≤ (new lnFloor m ef_construction ef_search max_nodes).max_level) :
    let index := insertAll vectors calculate_distance too_close (new lnFloor m ef_construction ef_search max_nodes) inserts
    index.LinksWithin ∧
      (Finds vectors calculate_distance index inserts.length (inserts.map Insertion.record_id) ↔
        inserts.length ≤ 1 ∨ (new lnFloor m ef_construction ef_search max_nodes).max_level = 0) ∧
      ((∀ offsets, (∀ offset ∈ offsets, offset ∈ inserts.map Insertion.vector_offset) →
        Finds vectors calculate_distance (index.deleteAll offsets) inserts.length
          ((remaining inserts offsets).map Insertion.record_id)) ↔ inserts.length ≤ 1) := by
  intro index
  have made : index.Built inserts ∧ index.settings = (new lnFloor m ef_construction ef_search max_nodes).settings :=
    (Built.made lnFloor m ef_construction ef_search max_nodes).insertAll room few cap low
  obtain ⟨built,same⟩ := made
  have levels : index.max_level = (new lnFloor m ef_construction ef_search max_nodes).max_level :=
    congrArg (fun settings => settings.1) same
  exact ⟨built.linksWithin,levels ▸ built.finds_iff cap,built.finds_deleted_iff cap⟩

end Finding

-- The distance of two numbers, for runs on fixed inputs.
def apart (left right : Nat) : Nat := (left-right)+(right-left)

theorem hnsw_complete_iff_two :
    let inserts : List Insertion := [⟨0,7,0⟩,⟨4,9,1⟩]
    let index := insertAll id apart 0 (new (fun _ => 1) 16 200 100 3) inserts
    index.LinksWithin ∧
      (Finds id apart index inserts.length (inserts.map Insertion.record_id) ↔
        inserts.length ≤ 1 ∨ (new (fun _ => 1) 16 200 100 3).max_level = 0) ∧
      ((∀ offsets, (∀ offset ∈ offsets, offset ∈ inserts.map Insertion.vector_offset) →
        Finds id apart (index.deleteAll offsets) inserts.length
          ((remaining inserts offsets).map Insertion.record_id)) ↔ inserts.length ≤ 1) :=
  hnsw_complete_iff id apart 0 (fun _ => 1) (by decide) (by decide) (by decide) (by decide)

-- Two vectors on the lower of two levels: only the new node has a link, and the
-- search begins at the old one.
theorem second_vector_lost :
    (insertAll id apart 0 (new (fun _ => 1) 16 200 100 3) [⟨0,7,0⟩,⟨4,9,0⟩]).search id apart 4 2 = [(4,7)] ∧
      ¬ Finds id apart (insertAll id apart 0 (new (fun _ => 1) 16 200 100 3) [⟨0,7,0⟩,⟨4,9,0⟩]) 2 [7,9] := by
  have one_found : (insertAll id apart 0 (new (fun _ => 1) 16 200 100 3) [⟨0,7,0⟩,⟨4,9,0⟩]).search id apart 4 2 =
      [(4,7)] := by decide +kernel
  refine ⟨one_found,fun finds => ?_⟩
  have all := (finds 4).1.length_eq
  rw [one_found] at all
  cases all

end HNSWIndex
end RemDb
