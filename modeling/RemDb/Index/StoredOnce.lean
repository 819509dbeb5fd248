import RemDb.Index.Doubling

namespace RemDb.TTreeIndex
open RemDb.Lib TTreeNode

theorem allocateNode_refused : Keeps Refused allocateNode := by
  intro index held
  cases free : index.free_nodes with
  | nil =>
    rw [run_allocateNode_none free]
    rfl
  | cons node rest =>
    rw [run_allocateNode free]
    exact held

theorem setNode_refused (node : Nat) (value : TTreeNode) : Keeps Refused (setNode node value) :=
  keeps_modify _ fun _ held => held

theorem insertIntoNode_refused (node : Nat) (key : SecondaryIndexItem) :
    Keeps Refused (insertIntoNode node key) := by
  refine keeps_bind keeps_get ?_
  intro index
  refine keeps_bind (keeps_orPanic _) ?_
  intro keys
  refine keeps_bind (setNode_refused _ _) ?_
  intro _
  exact keeps_modify _ fun _ held => held

theorem distribute_refused (keys : List SecondaryIndexItem) (node new_node : Nat) :
    Keeps Refused (distribute keys node new_node) := by
  refine keeps_bind keeps_get ?_
  intro index
  refine keeps_bind (keeps_orPanic _) ?_
  intro lower_keys
  refine keeps_bind (setNode_refused _ _) ?_
  intro _
  refine keeps_bind keeps_get ?_
  intro index
  refine keeps_bind (keeps_orPanic _) ?_
  intro upper_keys
  exact setNode_refused _ _

theorem splitChild_refused (key : SecondaryIndexItem) (node child_node : Nat) :
    Keeps Refused (splitChild key node child_node) := by
  refine keeps_bind keeps_get ?_
  intro index
  refine keeps_bind (keeps_orPanic _) ?_
  intro keys
  refine keeps_bind allocateNode_refused ?_
  intro new_right
  refine keeps_bind (distribute_refused _ _ _) ?_
  intro _
  refine keeps_bind (keeps_orPanic _) ?_
  intro promoted_key
  refine keeps_bind (insertIntoNode_refused _ _) ?_
  intro _
  refine keeps_bind keeps_get ?_
  intro after
  exact setNode_refused _ _

theorem splitNode_refused (key : SecondaryIndexItem) (node pos : Nat) :
    Keeps Refused (splitNode key node pos) := by
  refine keeps_bind allocateNode_refused ?_
  intro new_node
  refine keeps_bind keeps_get ?_
  intro index
  refine keeps_bind (keeps_orPanic _) ?_
  intro keys
  refine keeps_bind (distribute_refused _ _ _) ?_
  intro _
  refine keeps_bind keeps_get ?_
  intro after
  exact setNode_refused _ _

theorem updateRecord_refused (node pos : Nat) (record_id : UInt16) :
    Keeps Refused (updateRecord node pos record_id) := by
  refine keeps_bind keeps_get ?_
  intro index
  refine keeps_bind (keeps_orPanic _) ?_
  intro found
  refine keeps_bind (keeps_orPanic _) ?_
  intro keys
  exact setNode_refused _ _

theorem insertRecursive_refused (key : SecondaryIndexItem) (levels : Nat) :
    ∀ node, Keeps Refused (insertRecursive key levels node) := by
  induction levels with
  | zero =>
    intro node
    exact keeps_pure _
  | succ levels ih =>
    intro node
    refine keeps_bind keeps_get ?_
    intro index
    dsimp only
    split
    · exact updateRecord_refused _ _ _
    split
    · split
      · exact splitChild_refused _ _ _
      · exact ih _
    · split
      · exact insertIntoNode_refused _ _
      · exact splitNode_refused _ _ _

theorem plantRoot_refused (item : SecondaryIndexItem) : Keeps Refused (plantRoot item) := by
  refine keeps_bind allocateNode_refused ?_
  intro root_node
  refine keeps_bind keeps_get ?_
  intro index
  refine keeps_bind (keeps_orPanic _) ?_
  intro keys
  refine keeps_bind (setNode_refused _ _) ?_
  intro _
  exact keeps_modify _ fun _ held => held

theorem splitRoot_refused (item : SecondaryIndexItem) (root : Nat) : Keeps Refused (splitRoot item root) := by
  refine keeps_bind allocateNode_refused ?_
  intro new_root
  refine keeps_bind keeps_get ?_
  intro index
  refine keeps_bind (keeps_orPanic _) ?_
  intro keys
  refine keeps_bind allocateNode_refused ?_
  intro right_node
  refine keeps_bind (distribute_refused _ _ _) ?_
  intro _
  refine keeps_bind keeps_get ?_
  intro after
  refine keeps_bind (keeps_orPanic _) ?_
  intro middle
  refine keeps_bind (keeps_orPanic _) ?_
  intro crown_keys
  refine keeps_bind (setNode_refused _ _) ?_
  intro _
  exact keeps_modify _ fun _ held => held

theorem insert_refused (key : Bytes) (record_id : UInt16) : Keeps Refused (insert key record_id) := by
  refine keeps_bind keeps_get ?_
  intro index
  dsimp only
  split
  · exact keeps_throw _
  split
  · exact plantRoot_refused _
  split
  · exact splitRoot_refused _ _
  · exact keeps_quiet (insertRecursive_refused _ _ _)

theorem insertAll_refused (calls : List (Bytes × UInt16)) : Keeps Refused (insertAll calls) :=
  keeps_forM _ _ fun _ _ => keeps_quiet (insert_refused _ _)

theorem insertAll_append (front back : List (Bytes × UInt16)) :
    insertAll (front ++ back) = (insertAll front >>= fun _ => insertAll back) := by
  simp only [insertAll,List.forM_eq_forM,List.forM_append]

theorem insertAll_one (call : Bytes × UInt16) (index : TTreeIndex) :
    (insertAll [call]).run index = (quiet (insert call.1 call.2)).run index := by
  change (quiet (insert call.1 call.2) >>= fun _ => insertAll []).run index = _
  rw [EStateM.run_bind]
  cases (quiet (insert call.1 call.2)).run index <;> rfl

theorem Crowns.doubled {index after : TTreeIndex} {root : Nat}
    (step : Crowns index after key root above fresh old) : Doubled after above := by
  obtain ⟨first,second,third,fourth,_,_,lower,_,top⟩ := step.shares
  refine ⟨root,second,step.left,?_,?_⟩
  · rw [top.filled_eq]
    rfl
  · rw [lower.filled_eq]
    simp

theorem insert_full {index : TTreeIndex} {root : Nat} (sound : Sound index root inserted)
    (full : (index.nodes root).filled.length = TTREE_ORDER)
    (short : key.length ≤ SecondaryIndexItem.KEY_LIMIT) (record_id : UInt16) :
    Refused (finalState ((quiet (insert key record_id)).run index)) ∨
      ∃ after above, (quiet (insert key record_id)).run index = .ok () after ∧
        Sound after above (inserted ++ [.ofKey key record_id]) ∧ Doubled after above := by
  have long : ¬key.length > SecondaryIndexItem.KEY_LIMIT := by omega
  obtain ⟨content,_,_⟩ := sound.filled root
  have counted := content.full_iff.mpr full
  have start : (insert key record_id).run index = (splitRoot (.ofKey key record_id) root).run index := by
    simp only [insert,EStateM.run_bind,EStateM.run_get,sound.rooted,if_neg long,counted,if_true]
  have outside := sound.parented.outside
  have distinct := sound.parented.distinct
  cases free : index.free_nodes with
  | nil =>
    left
    rw [finalState_quiet,start]
    simp only [splitRoot,EStateM.run_bind,run_allocateNode_none free]
    rfl
  | cons above rest =>
    rw [free] at outside distinct
    have one : root ≠ above := fun same => outside (same ▸ List.mem_cons_self)
    cases rest with
    | nil =>
      left
      obtain ⟨first,second,third,fourth,merge,_,_⟩ := mergeKeys_four _ full (.ofKey key record_id)
      rw [finalState_quiet,start]
      simp only [splitRoot,EStateM.run_bind,EStateM.run_get,run_allocateNode free,assign_other _ one,
        content.full_keys full,merge,orPanic,EStateM.run_pure]
      rfl
    | cons fresh rest =>
      right
      have two : root ≠ fresh := fun same => outside (same ▸ List.mem_cons_of_mem _ List.mem_cons_self)
      have three : above ≠ fresh := fun same => (List.nodup_cons.mp distinct).1 (same ▸ List.mem_cons_self)
      obtain ⟨after,ran,step⟩ := splitRoot_run content full free one two three (.ofKey key record_id)
      refine ⟨after,above,?_,(sound.widen _).crown step (by simp),step.doubled⟩
      rw [quiet_run,start,ran]

theorem insert_doubled {index : TTreeIndex} {root : Nat} (sound : Sound index root inserted)
    (doubled : Doubled index root) (short : key.length ≤ SecondaryIndexItem.KEY_LIMIT) (record_id : UInt16) :
    Refused (finalState ((quiet (insert key record_id)).run index)) ∨
      ∃ after above, (quiet (insert key record_id)).run index = .ok () after ∧
        Sound after above (inserted ++ [.ofKey key record_id]) ∧ Doubled after above := by
  obtain ⟨content,_,_⟩ := sound.filled root
  by_cases full : (index.nodes root).filled.length = TTREE_ORDER
  · exact insert_full sound full short record_id
  · have long : ¬key.length > SecondaryIndexItem.KEY_LIMIT := by omega
    have counted : ¬(index.nodes root).key_count = UInt8.ofNat TTREE_ORDER :=
      fun same => full (content.full_iff.mp same)
    have size := content.size
    have room : (index.nodes root).filled.length < TTREE_ORDER := by omega
    have wide := sound.widen (.ofKey key record_id)
    have new : SecondaryIndexItem.ofKey key record_id ∈ inserted ++ [.ofKey key record_id] := by simp
    have start : (insert key record_id).run index =
        (quiet (insertRecursive (.ofKey key record_id) (MAX_RECURSION_DEPTH+1) root)).run index := by
      simp only [insert,EStateM.run_bind,EStateM.run_get,sound.rooted,if_neg long,if_neg counted]
    rcases insertRecursive_sound new (MAX_RECURSION_DEPTH+1) index root _ wide (outer_root wide)
      sound.parented.outside room with refused | ⟨after,ran,sound',_,_⟩
    · left
      rw [finalState_quiet,start,finalState_quiet]
      exact refused
    rcases insertRecursive_doubled wide doubled new MAX_RECURSION_DEPTH room with refused | ⟨after',ran',doubled'⟩
    · left
      rw [finalState_quiet,start,finalState_quiet]
      exact refused
    · right
      rw [ran] at ran'
      cases ran'
      refine ⟨after,root,?_,sound',doubled'⟩
      rw [quiet_run,start,quiet_run,ran]

structure Single (index : TTreeIndex) (root : Nat) (items : List SecondaryIndexItem) : Prop where
  sound : Sound index root items
  content : Content (index.nodes root) items
  sorted : SortedItems items
  childless : (index.nodes root).kids = []

theorem plant_single (tdef : TableDef) (max_nodes : Nat) (short : key.length ≤ SecondaryIndexItem.KEY_LIMIT)
    (record_id : UInt16) :
    Refused (finalState ((quiet (insert key record_id)).run (new tdef max_nodes))) ∨
      ∃ after root, (quiet (insert key record_id)).run (new tdef max_nodes) = .ok () after ∧
        Single after root [.ofKey key record_id] := by
  have long : ¬key.length > SecondaryIndexItem.KEY_LIMIT := by omega
  have start : (insert key record_id).run (new tdef max_nodes) =
      (plantRoot (.ofKey key record_id)).run (new tdef max_nodes) := by
    simp only [insert,EStateM.run_bind,EStateM.run_get,if_neg long]
    rfl
  cases free : (new tdef max_nodes).free_nodes with
  | nil =>
    left
    rw [finalState_quiet,start]
    simp only [plantRoot,EStateM.run_bind,run_allocateNode_none free]
    rfl
  | cons root rest =>
    right
    obtain ⟨after,ran,rooted,spare,content,childless,others⟩ := plantRoot_run free (.ofKey key record_id)
    have distinct : (root :: rest).Nodup := free ▸ List.nodup_range
    have sorted : SortedItems [.ofKey key record_id] := List.pairwise_singleton _ _
    have bare : ∀ node, kidsOf after node = [] := by
      intro node
      by_cases here : node = root
      · rw [here]
        exact childless
      · rw [kidsOf,others node here]
        rfl
    refine ⟨after,root,?_,⟨rooted,?_,?_⟩,content,sorted,childless⟩
    · rw [quiet_run,start,ran]
    · rw [spare]
      refine ⟨?_,?_,(List.nodup_cons.mp distinct).1,fun cell _ => ⟨bare cell,?_⟩,(List.nodup_cons.mp distinct).2⟩
      · intro parent parent' cell member
        rw [bare parent] at member
        cases member
      · intro parent member
        rw [bare parent] at member
        cases member
      · intro parent member
        rw [bare parent] at member
        cases member
    · intro node
      by_cases here : node = root
      · exact ⟨_,here ▸ content,sorted,fun _ member => member⟩
      · refine ⟨[],?_,List.Pairwise.nil,fun _ member => by cases member⟩
        rw [others node here]
        exact content_blank

theorem insert_single {index : TTreeIndex} {root : Nat} (single : Single index root items)
    (room : items.length < TTREE_ORDER) (short : key.length ≤ SecondaryIndexItem.KEY_LIMIT)
    (record_id : UInt16) (fresh : ∀ item ∈ items, compareItems item (.ofKey key record_id) ≠ .eq) :
    Refused (finalState ((quiet (insert key record_id)).run index)) ∨
      ∃ after items', (quiet (insert key record_id)).run index = .ok () after ∧
        Single after root items' ∧ items'.Perm (.ofKey key record_id :: items) := by
  obtain ⟨sound,content,_,childless⟩ := single
  have long : ¬key.length > SecondaryIndexItem.KEY_LIMIT := by omega
  have counted : ¬(index.nodes root).key_count = UInt8.ofNat TTREE_ORDER := by
    intro full
    have length := content.full_iff.mp full
    omega
  have start : (insert key record_id).run index =
      (quiet (insertRecursive (.ofKey key record_id) (MAX_RECURSION_DEPTH+1) root)).run index := by
    simp only [insert,EStateM.run_bind,EStateM.run_get,sound.rooted,if_neg long,if_neg counted]
  have level := insertRecursive_level sound (.ofKey key record_id) MAX_RECURSION_DEPTH root
    sound.parented.outside (outer_root sound).acyclic (content.filled_eq ▸ room)
  generalize step : (insertRecursive (.ofKey key record_id) (MAX_RECURSION_DEPTH+1) root).run index = outcome
    at level
  cases level with
  | @known item present equal =>
    rw [content.filled_eq] at present
    exact absurd equal (fresh item present)
  | refused failed =>
    left
    rw [finalState_quiet,start,finalState_quiet,step]
    exact failed
  | @placed after front back frame split grown sorted left kids behind =>
    rw [content.filled_eq] at split
    subst items
    have more : ∀ each ∈ front ++ back, each ∈ front ++ SecondaryIndexItem.ofKey key record_id :: back :=
      fun each member => mem_widened member _
    right
    refine ⟨after,_,?_,⟨?_,grown,sorted,kids.trans childless⟩,List.perm_middle⟩
    · rw [quiet_run,start,quiet_run,step]
    · exact (sound.mono more).place frame grown sorted (fun _ member => member) kids
  | promoted kid _ =>
    rw [childless] at kid
    cases kid
  | descends kid _ =>
    rw [childless] at kid
    cases kid

def itemOf (call : Bytes × UInt16) : SecondaryIndexItem := .ofKey call.1 call.2

theorem insertAll_single (tdef : TableDef) (max_nodes : Nat) (calls : List (Bytes × UInt16))
    (few : calls.length ≤ TTREE_ORDER) (short : ∀ call ∈ calls, call.1.length ≤ SecondaryIndexItem.KEY_LIMIT)
    (distinct : calls.Nodup) :
    Refused (finalState ((insertAll calls).run (new tdef max_nodes))) ∨
      (calls = [] ∧ (insertAll calls).run (new tdef max_nodes) = .ok () (new tdef max_nodes)) ∨
      ∃ index root items, (insertAll calls).run (new tdef max_nodes) = .ok () index ∧
        Single index root items ∧ items.Perm (calls.map itemOf) := by
  induction calls using List.reverseRecOn with
  | nil => exact .inr (.inl ⟨rfl,rfl⟩)
  | append_singleton front call ih =>
    rw [List.length_append,List.length_singleton] at few
    obtain ⟨distinct',_,apart⟩ := List.nodup_append.mp distinct
    have small : call.1.length ≤ SecondaryIndexItem.KEY_LIMIT := short call (by simp)
    have small' : ∀ each ∈ front, each.1.length ≤ SecondaryIndexItem.KEY_LIMIT :=
      fun each member => short each (by simp [member])
    rcases ih (by omega) small' distinct' with refused | ⟨rfl,ran⟩ | ⟨index,root,items,ran,single,order⟩
    · left
      rw [insertAll_append]
      exact keeps_after refused fun _ => insertAll_refused [call]
    · rw [List.nil_append,insertAll_one]
      rcases plant_single tdef max_nodes small call.2 with refused | ⟨after,root,planted,single⟩
      · exact .inl refused
      · exact .inr (.inr ⟨after,root,_,planted,single,List.Perm.refl _⟩)
    · have room : items.length < TTREE_ORDER := by
        rw [order.length_eq,List.length_map]
        omega
      have fresh : ∀ item ∈ items, compareItems item (.ofKey call.1 call.2) ≠ .eq := by
        intro item member equal
        obtain ⟨each,present,rfl⟩ := List.mem_map.mp (order.mem_iff.mp member)
        have limit : SecondaryIndexItem.KEY_LIMIT ≤ SecondaryIndexItem.KEY_DATA := by decide
        have same := compareItems_ofKey ((small' each present).trans limit) (small.trans limit) equal
        exact apart each present call (by simp) (Prod.ext same.1 same.2)
      have joined : (insertAll (front ++ [call])).run (new tdef max_nodes) =
          (quiet (insert call.1 call.2)).run index := by
        rw [insertAll_append,EStateM.run_bind,ran]
        exact insertAll_one call index
      rw [joined]
      rcases insert_single single room small call.2 fresh with refused | ⟨after,items',stored,single',order'⟩
      · exact .inl refused
      · refine .inr (.inr ⟨after,root,items',stored,single',?_⟩)
        rw [List.map_append]
        exact (order'.trans (order.cons _)).trans (List.perm_append_singleton _ _).symm

-- From the fourth insert on a key stands twice.
theorem insertAll_doubled (tdef : TableDef) (max_nodes : Nat) (calls : List (Bytes × UInt16))
    (many : TTREE_ORDER < calls.length) (short : ∀ call ∈ calls, call.1.length ≤ SecondaryIndexItem.KEY_LIMIT)
    (distinct : calls.Nodup) :
    Refused (finalState ((insertAll calls).run (new tdef max_nodes))) ∨
      ∃ index root inserted, (insertAll calls).run (new tdef max_nodes) = .ok () index ∧
        Sound index root inserted ∧ inserted.Perm (calls.map itemOf) ∧ Doubled index root := by
  induction calls using List.reverseRecOn with
  | nil => cases many
  | append_singleton front call ih =>
    rw [List.length_append,List.length_singleton] at many
    have small : call.1.length ≤ SecondaryIndexItem.KEY_LIMIT := short call (by simp)
    have small' : ∀ each ∈ front, each.1.length ≤ SecondaryIndexItem.KEY_LIMIT :=
      fun each member => short each (by simp [member])
    have distinct' := (List.nodup_append.mp distinct).1
    have refuses : Refused (finalState ((insertAll front).run (new tdef max_nodes))) →
        Refused (finalState ((insertAll (front ++ [call])).run (new tdef max_nodes))) := by
      intro refused
      rw [insertAll_append]
      exact keeps_after refused fun _ => insertAll_refused [call]
    have joined : ∀ index, (insertAll front).run (new tdef max_nodes) = .ok () index →
        (insertAll (front ++ [call])).run (new tdef max_nodes) = (quiet (insert call.1 call.2)).run index := by
      intro index ran
      rw [insertAll_append,EStateM.run_bind,ran]
      exact insertAll_one call index
    have widened : ∀ inserted : List SecondaryIndexItem, inserted.Perm (front.map itemOf) →
        (inserted ++ [SecondaryIndexItem.ofKey call.1 call.2]).Perm ((front ++ [call]).map itemOf) := by
      intro inserted order
      rw [List.map_append]
      exact order.append_right _
    by_cases fourth : front.length = TTREE_ORDER
    · rcases insertAll_single tdef max_nodes front (by omega) small' distinct' with
        refused | ⟨rfl,_⟩ | ⟨index,root,items,ran,single,order⟩
      · exact .inl (refuses refused)
      · cases fourth
      · rw [joined index ran]
        have full : (index.nodes root).filled.length = TTREE_ORDER := by
          rw [single.content.filled_eq,order.length_eq,List.length_map,fourth]
        rcases insert_full single.sound full small call.2 with refused | ⟨after,above,stored,sound,doubled⟩
        · exact .inl refused
        · exact .inr ⟨after,above,_,stored,sound,widened items order,doubled⟩
    · rcases ih (by omega) small' distinct' with refused | ⟨index,root,inserted,ran,sound,order,doubled⟩
      · exact .inl (refuses refused)
      · rw [joined index ran]
        rcases insert_doubled sound doubled small call.2 with refused | ⟨after,above,stored,sound',doubled'⟩
        · exact .inl refused
        · exact .inr ⟨after,above,_,stored,sound',widened inserted order,doubled'⟩

theorem collect_run (start_item end_item : SecondaryIndexItem) (max_records : Nat) :
    ∀ (items : List SecondaryIndexItem) (found : List UInt16), found.length+items.length ≤ max_records →
      (∀ item ∈ items, compareItems item start_item ≠ .lt) →
      collect start_item end_item max_records items found =
        found ++ (items.takeWhile fun item => compareItems item end_item ≠ .gt).map (·.record_id)
  | [], found, _, _ => by simp [collect]
  | item :: rest, found, enough, begun => by
    rw [List.length_cons] at enough
    have first := begun item List.mem_cons_self
    have space : ¬found.length ≥ max_records := by omega
    rw [collect,if_neg space]
    dsimp only
    by_cases beyond : compareItems item end_item = .gt
    · simp [beyond]
    · have tail := collect_run start_item end_item max_records rest (found ++ [item.record_id])
        (by rw [List.length_append,List.length_singleton]; omega)
        fun each member => begun each (List.mem_cons_of_mem _ member)
      rw [if_neg beyond,if_pos ⟨first,beyond⟩,tail,List.takeWhile_cons_of_pos (by simpa using beyond)]
      simp

theorem rangeLoop_single {index : TTreeIndex} {root : Nat} (single : Single index root items)
    (start_item end_item : SecondaryIndexItem) (max_records fuel : Nat) (enough : items.length ≤ max_records)
    (positive : 0 < max_records) (begun : ∀ item ∈ items, compareItems item start_item ≠ .lt) :
    pushLeft index (STACK+1) index.root [] = some [root] ∧
      rangeLoop index start_item end_item max_records (fuel+1) [root] [] =
        some ((items.takeWhile fun item => compareItems item end_item ≠ .gt).map (·.record_id)) := by
  obtain ⟨sound,content,_,childless⟩ := single
  have bare : (index.nodes root).left = none ∧ (index.nodes root).right = none := by
    simp only [TTreeNode.kids,List.append_eq_nil_iff,Option.toList_eq_nil_iff] at childless
    exact ⟨childless.1.1,childless.2⟩
  have gathered := collect_run start_item end_item max_records items [] (by simpa using enough) begun
  constructor
  · rw [sound.rooted,pushLeft,if_pos (by decide),bare.1,pushLeft]
  · rw [rangeLoop,if_pos (by simpa using positive)]
    dsimp only
    rw [content.filled_eq,gathered,bare.2,pushLeft,Option.bind_some,rangeLoop,List.nil_append]

theorem findRangeAll_single {index : TTreeIndex} {root : Nat} (single : Single index root items)
    (start_key end_key : Bytes) (max_records : Nat) (enough : items.length ≤ max_records)
    (positive : 0 < max_records) (begun : ∀ item ∈ items, compareItems item (.ofKey start_key 0) ≠ .lt) :
    ∃ after, (findRangeAll start_key end_key (some max_records)).run index =
      .ok ((items.takeWhile fun item => compareItems item (.ofKey end_key 0) ≠ .gt).map (·.record_id)) after := by
  obtain ⟨touched,touched_eq⟩ : ∃ touched : TTreeIndex, touched =
      {index with stats:={index.stats with access_count:=usizeAdd index.stats.access_count 1}} := ⟨_,rfl⟩
  have single' : Single touched root items := by
    rw [touched_eq]
    exact ⟨⟨single.sound.rooted,single.sound.parented,single.sound.content⟩,single.content,single.sorted,
      single.childless⟩
  obtain ⟨pushed,walked⟩ := rangeLoop_single single' (.ofKey start_key 0) (.ofKey end_key 0) max_records
    touched.max_nodes enough positive begun
  have first : (modify fun index : TTreeIndex => {index with
      stats:={index.stats with access_count:=usizeAdd index.stats.access_count 1}} : Action PUnit).run index =
      .ok ⟨⟩ touched := by
    rw [touched_eq]
    rfl
  simp only [findRangeAll,EStateM.run_bind,first,EStateM.run_get,orError,EStateM.run_pure,pushed,orPanic,walked]
  exact ⟨_,rfl⟩

inductive InTree (index : TTreeIndex) : Nat → Prop
  | root (rooted : index.root = some node) : InTree index node
  | kid (above : InTree index parent) (kid : node ∈ (index.nodes parent).kids) : InTree index node

def StoredAt (index : TTreeIndex) (item : SecondaryIndexItem) (place : Nat × Nat) : Prop :=
  InTree index place.1 ∧ (index.nodes place.1).filled[place.2]? = some item

-- Every pair in exactly one position, and a range query that returns every
-- record id once, in the order of the items.
def Faithful (outcome : EStateM.Result IndexFault TTreeIndex Unit) (calls : List (Bytes × UInt16))
    (start_key end_key : Bytes) (max_records : Nat) : Prop :=
  ∃ index, outcome = .ok () index ∧ (∀ call ∈ calls, ∃! place, StoredAt index (itemOf call) place) ∧
    ∃ items after, (findRangeAll start_key end_key (some max_records)).run index =
      .ok (items.map (·.record_id)) after ∧ items.Perm (calls.map itemOf) ∧ SortedItems items

theorem Single.only_root {index : TTreeIndex} {root : Nat} (single : Single index root items)
    (inside : InTree index node) : node = root := by
  induction inside with
  | root rooted =>
    rw [single.sound.rooted] at rooted
    exact (Option.some.inj rooted).symm
  | kid above kid ih =>
    rw [ih,single.childless] at kid
    cases kid

theorem Single.stored_once {index : TTreeIndex} {root : Nat} (single : Single index root items)
    (distinct : items.Nodup) (member : item ∈ items) : ∃! place, StoredAt index item place := by
  obtain ⟨pos,found⟩ := List.mem_iff_getElem?.mp member
  refine ⟨(root,pos),⟨.root single.sound.rooted,?_⟩,?_⟩
  · rw [single.content.filled_eq]
    exact found
  · rintro ⟨node,other⟩ ⟨inside,found'⟩
    have here := single.only_root inside
    dsimp only at here found'
    rw [here,single.content.filled_eq] at found'
    obtain ⟨bound,_⟩ := List.getElem?_eq_some_iff.mp found'
    have same := (List.getElem?_inj bound distinct).mp (found'.trans found.symm)
    rw [here,same]

theorem Doubled.not_once {index : TTreeIndex} {root : Nat} (sound : Sound index root inserted)
    (doubled : Doubled index root) : ∃ item ∈ inserted, ¬∃! place, StoredAt index item place := by
  obtain ⟨below,item,left,head,stands⟩ := doubled
  have kid := left_mem_kids left
  have first : (index.nodes root).filled[0]? = some item := by
    rw [← List.head?_eq_getElem?]
    exact head
  refine ⟨item,(sound.filled root).2.2 item (List.mem_of_getElem? first),?_⟩
  rintro ⟨place,_,only⟩
  obtain ⟨pos,found⟩ := List.mem_iff_getElem?.mp stands
  have top := only (root,0) ⟨.root sound.rooted,first⟩
  have under := only (below,pos) ⟨.kid (.root sound.rooted) kid,found⟩
  have same : below = root := congrArg Prod.fst (under.trans top.symm)
  exact sound.parented.top root (same ▸ kid)

-- A bound of a range has record id 0, which only counts when the keys agree.
theorem compare_bound (key bound : Bytes) (record_id : UInt16) :
    compareItems (.ofKey key record_id) (.ofKey bound 0) =
      (compareItems (.ofKey key 0) (.ofKey bound 0)).then (compare record_id 0) := by
  have zero : compare (0 : UInt16) 0 = .eq := Std.ReflCmp.compare_self
  change (compare (UInt8.ofNat key.length) (UInt8.ofNat bound.length)).then
    ((compare (SecondaryIndexItem.ofKey key record_id).key (SecondaryIndexItem.ofKey bound 0).key).then
      (compare record_id 0)) =
    ((compare (UInt8.ofNat key.length) (UInt8.ofNat bound.length)).then
      ((compare (SecondaryIndexItem.ofKey key 0).key (SecondaryIndexItem.ofKey bound 0).key).then
        (compare (0 : UInt16) 0))).then (compare record_id 0)
  rw [zero,← Ordering.then_assoc,← Ordering.then_assoc,Ordering.then_eq]
  rfl

theorem compare_zero (record_id : UInt16) :
    compare record_id 0 = if record_id = 0 then Ordering.eq else .gt := by
  by_cases zero : record_id = 0
  · rw [if_pos zero,zero]
    exact Std.ReflCmp.compare_self
  · rw [if_neg zero]
    apply Std.compare_eq_gt.mpr
    exact UInt16.pos_iff_ne_zero.mpr zero

theorem beyond_end_iff (short : key.length ≤ SecondaryIndexItem.KEY_DATA)
    (short' : end_key.length ≤ SecondaryIndexItem.KEY_DATA)
    (within : (compareItems (.ofKey key 0) (.ofKey end_key 0)).isLE) (record_id : UInt16) :
    compareItems (.ofKey key record_id) (.ofKey end_key 0) = .gt ↔ key = end_key ∧ record_id ≠ 0 := by
  rw [compare_bound,compare_zero]
  constructor
  · intro beyond
    cases order : compareItems (.ofKey key 0) (.ofKey end_key 0) with
    | lt =>
      rw [order] at beyond
      cases beyond
    | eq =>
      refine ⟨(compareItems_ofKey short short' order).1,?_⟩
      rintro rfl
      rw [order] at beyond
      cases beyond
    | gt =>
      rw [order] at within
      cases within
  · rintro ⟨rfl,positive⟩
    rw [compareItems_self,if_neg positive]
    rfl

theorem not_before_start (within : (compareItems (.ofKey start_key 0) (.ofKey key 0)).isLE) (record_id : UInt16) :
    compareItems (.ofKey key record_id) (.ofKey start_key 0) ≠ .lt := by
  have reversed : (compareItems (.ofKey key 0) (.ofKey start_key 0)).isGE := Std.OrientedCmp.isGE_of_isLE within
  rw [compare_bound,compare_zero]
  cases order : compareItems (.ofKey key 0) (.ofKey start_key 0) with
  | lt =>
    rw [order] at reversed
    cases reversed
  | eq =>
    split
    · simp
    · simp
  | gt => simp

theorem takeWhile_short {items : List SecondaryIndexItem} {test : SecondaryIndexItem → Bool}
    (whole : (items.takeWhile test).length = items.length) : ∀ item ∈ items, test item = true := by
  have all : items.takeWhile test = items := (List.takeWhile_prefix test).eq_of_length whole
  exact List.takeWhile_eq_self_iff.mp all

def Spans (start_key end_key : Bytes) (calls : List (Bytes × UInt16)) : Prop :=
  ∀ call ∈ calls, (compareItems (.ofKey start_key 0) (.ofKey call.1 0)).isLE ∧
    (compareItems (.ofKey call.1 0) (.ofKey end_key 0)).isLE

instance : Decidable (Spans start_key end_key calls) :=
  inferInstanceAs (Decidable (∀ call ∈ calls, _ ∧ _))

theorem itemOf_distinct (calls : List (Bytes × UInt16))
    (short : ∀ call ∈ calls, call.1.length ≤ SecondaryIndexItem.KEY_DATA) (distinct : calls.Nodup) :
    (calls.map itemOf).Nodup := by
  refine List.Nodup.map_on ?_ distinct
  intro left member right member' same
  have parts := SecondaryIndexItem.ofKey_inj (short left member) (short right member') same
  exact Prod.ext parts.1 parts.2

section Single

variable {index : TTreeIndex} {root : Nat} {items : List SecondaryIndexItem} {calls : List (Bytes × UInt16)}
  {start_key end_key : Bytes}

theorem Single.query (single : Single index root items) (order : items.Perm (calls.map itemOf))
    (spans : Spans start_key end_key calls) (enough : calls.length ≤ max_records) (positive : 0 < max_records) :
    ∃ after, (findRangeAll start_key end_key (some max_records)).run index =
      .ok ((items.takeWhile fun item => compareItems item (.ofKey end_key 0) ≠ .gt).map (·.record_id)) after := by
  refine findRangeAll_single single start_key end_key max_records ?_ positive ?_
  · rw [order.length_eq,List.length_map]
    exact enough
  · intro item member
    obtain ⟨call,present,rfl⟩ := List.mem_map.mp (order.mem_iff.mp member)
    exact not_before_start (spans call present).1 call.2

theorem Single.faithful_iff (single : Single index root items) (order : items.Perm (calls.map itemOf))
    (short : ∀ call ∈ calls, call.1.length ≤ SecondaryIndexItem.KEY_DATA) (distinct : calls.Nodup)
    (bound : end_key.length ≤ SecondaryIndexItem.KEY_DATA) (spans : Spans start_key end_key calls)
    (enough : calls.length ≤ max_records) (positive : 0 < max_records) :
    Faithful (.ok () index) calls start_key end_key max_records ↔
      ∀ call ∈ calls, call.1 = end_key → call.2 = 0 := by
  obtain ⟨after,found⟩ := single.query order spans enough positive
  constructor
  · rintro ⟨index',same,_,items',after',found',order',_⟩ call member at_end
    cases same
    rw [found] at found'
    have lengths := congrArg List.length (EStateM.Result.ok.inj found').1
    rw [List.length_map,List.length_map,order'.length_eq,← order.length_eq] at lengths
    have within := takeWhile_short lengths (itemOf call) (order.mem_iff.mpr (List.mem_map_of_mem member))
    by_contra positive_id
    exact of_decide_eq_true within ((beyond_end_iff (short call member) bound (spans call member).2 call.2).mpr
      ⟨at_end,positive_id⟩)
  · intro ends
    refine ⟨index,rfl,?_,items,after,?_,order,single.sorted⟩
    · intro call member
      exact single.stored_once (order.nodup_iff.mpr (itemOf_distinct calls short distinct))
        (order.mem_iff.mpr (List.mem_map_of_mem member))
    · have all : items.takeWhile (fun item => compareItems item (.ofKey end_key 0) ≠ .gt) = items := by
        rw [List.takeWhile_eq_self_iff]
        intro item present
        obtain ⟨call,member,rfl⟩ := List.mem_map.mp (order.mem_iff.mp present)
        apply decide_eq_true
        intro beyond
        obtain ⟨at_end,positive_id⟩ :=
          (beyond_end_iff (short call member) bound (spans call member).2 call.2).mp beyond
        exact positive_id (ends call member at_end)
      rw [found,all]

end Single

theorem insertAll_stored_once_iff (tdef : TableDef) (max_nodes : Nat) (calls : List (Bytes × UInt16))
    (start_key end_key : Bytes) (max_records : Nat)
    (short : ∀ call ∈ calls, call.1.length ≤ SecondaryIndexItem.KEY_LIMIT) (distinct : calls.Nodup)
    (supplied : (finalState ((insertAll calls).run (new tdef max_nodes))).refused = false)
    (bound : end_key.length ≤ SecondaryIndexItem.KEY_DATA) (spans : Spans start_key end_key calls)
    (enough : calls.length ≤ max_records) :
    Faithful ((insertAll calls).run (new tdef max_nodes)) calls start_key end_key max_records ↔
      calls.length ≤ TTREE_ORDER ∧ ∀ call ∈ calls, call.1 = end_key → call.2 = 0 := by
  have supplied' : ¬Refused (finalState ((insertAll calls).run (new tdef max_nodes))) := by
    rw [Refused,supplied]
    simp
  have limit : SecondaryIndexItem.KEY_LIMIT ≤ SecondaryIndexItem.KEY_DATA := by decide
  have short' : ∀ call ∈ calls, call.1.length ≤ SecondaryIndexItem.KEY_DATA :=
    fun call member => (short call member).trans limit
  by_cases few : calls.length ≤ TTREE_ORDER
  · rcases insertAll_single tdef max_nodes calls few short distinct with
      refused | ⟨rfl,ran⟩ | ⟨index,root,items,ran,single,order⟩
    · exact absurd refused supplied'
    · constructor
      · intro _
        exact ⟨few,fun _ member => absurd member List.not_mem_nil⟩
      · intro _
        exact ⟨_,ran,fun _ member => absurd member List.not_mem_nil,[],_,rfl,List.Perm.refl _,List.Pairwise.nil⟩
    · have positive : 0 < max_records := by
        cases calls with
        | nil =>
          have rooted := single.sound.rooted
          rw [← (EStateM.Result.ok.inj ran).2] at rooted
          cases rooted
        | cons first rest => exact Nat.lt_of_lt_of_le (Nat.succ_pos _) enough
      rw [ran,single.faithful_iff order short' distinct bound spans enough positive]
      exact ⟨fun ends => ⟨few,ends⟩,fun both => both.2⟩
  · constructor
    · rintro ⟨index',ran',once,_⟩
      rcases insertAll_doubled tdef max_nodes calls (by omega) short distinct with
        refused | ⟨index,root,inserted,ran,sound,order,doubled⟩
      · exact absurd refused supplied'
      · rw [ran] at ran'
        cases ran'
        obtain ⟨item,member,twice⟩ := doubled.not_once sound
        obtain ⟨call,present,rfl⟩ := List.mem_map.mp (order.mem_iff.mp member)
        exact absurd (once call present) twice
    · rintro ⟨few',_⟩
      exact absurd few' few

-- Three keys stay in the root, and the query returns them in order.
theorem insertAll_stored_once_three :
    Faithful ((insertAll [([3],0),([1],7),([2],5)]).run (new ⟨0,"",[],[],0,4⟩ 1)) [([3],0),([1],7),([2],5)]
      [1] [3] 3 :=
  (insertAll_stored_once_iff ⟨0,"",[],[],0,4⟩ 1 [([3],0),([1],7),([2],5)] [1] [3] 3 (by decide) (by decide)
    (by decide +kernel) (by decide) (by decide +kernel) (by decide)).mpr (by decide)

-- The fourth insert splits the root and leaves its middle key in two nodes.
theorem insertAll_four_doubled : ∃ tdef calls,
    (∀ call ∈ calls, call.1.length ≤ SecondaryIndexItem.KEY_LIMIT) ∧ calls.Nodup ∧ calls.length = 4 ∧
      (finalState ((insertAll calls).run (new tdef 8))).refused = false ∧ Spans [0] [9] calls ∧
      (∃ call ∈ calls, ∀ index, (insertAll calls).run (new tdef 8) = .ok () index →
        ¬∃! place, StoredAt index (itemOf call) place) ∧
      ¬Faithful ((insertAll calls).run (new tdef 8)) calls [0] [9] 4 := by
  have short : ∀ call ∈ [(([1] : Bytes),(0 : UInt16)),([2],1),([3],2),([4],3)],
      call.1.length ≤ SecondaryIndexItem.KEY_LIMIT := by decide
  have distinct : [(([1] : Bytes),(0 : UInt16)),([2],1),([3],2),([4],3)].Nodup := by decide
  have supplied : (finalState ((insertAll [([1],0),([2],1),([3],2),([4],3)]).run
      (new ⟨0,"",[],[],0,8⟩ 8))).refused = false := by decide +kernel
  have spans : Spans [0] [9] [([1],0),([2],1),([3],2),([4],3)] := by decide +kernel
  rcases insertAll_doubled ⟨0,"",[],[],0,8⟩ 8 _ (by decide) short distinct with
    refused | ⟨index,root,inserted,ran,sound,order,doubled⟩
  · rw [Refused,supplied] at refused
    cases refused
  · obtain ⟨item,member,twice⟩ := doubled.not_once sound
    obtain ⟨call,present,rfl⟩ := List.mem_map.mp (order.mem_iff.mp member)
    refine ⟨⟨0,"",[],[],0,8⟩,_,short,distinct,rfl,supplied,spans,⟨call,present,?_⟩,?_⟩
    · intro index' ran'
      rw [ran] at ran'
      cases ran'
      exact twice
    · rintro ⟨index',ran',once,_⟩
      rw [ran] at ran'
      cases ran'
      exact twice (once call present)

end RemDb.TTreeIndex
