import RemDb.Index.Promotion

namespace RemDb.TTreeIndex
open RemDb.Lib TTreeNode

def kidsOf (index : TTreeIndex) (node : Nat) : List Nat := (index.nodes node).kids

structure Sound (index : TTreeIndex) (root : Nat) (inserted : List SecondaryIndexItem) : Prop where
  rooted : index.root = some root
  parented : Parented (kidsOf index) root index.free_nodes
  content : ∀ node, ∃ items, Content (index.nodes node) items ∧ SortedItems items ∧ ∀ each ∈ items, each ∈ inserted

theorem Sound.filled {index : TTreeIndex} {root : Nat} (sound : Sound index root inserted) (node : Nat) :
    Content (index.nodes node) (index.nodes node).filled ∧ SortedItems (index.nodes node).filled ∧
      ∀ each ∈ (index.nodes node).filled, each ∈ inserted := by
  obtain ⟨items,content,sorted,known⟩ := sound.content node
  rw [content.filled_eq]
  exact ⟨content,sorted,known⟩

theorem Sound.mono {index : TTreeIndex} {root : Nat} (sound : Sound index root inserted)
    (more : ∀ each ∈ inserted, each ∈ inserted') : Sound index root inserted' := by
  refine ⟨sound.rooted,sound.parented,?_⟩
  intro node
  obtain ⟨items,content,sorted,known⟩ := sound.content node
  exact ⟨items,content,sorted,fun each member => more each (known each member)⟩

theorem Sound.widen {index : TTreeIndex} {root : Nat} (sound : Sound index root inserted)
    (item : SecondaryIndexItem) : Sound index root (inserted ++ [item]) :=
  sound.mono fun _ member => List.mem_append_left _ member

theorem kidsOf_assign {index after : TTreeIndex}
    (same : ∀ other, other ≠ node → (after.nodes other).kids = (index.nodes other).kids) :
    kidsOf after = assign (kidsOf index) node (after.nodes node).kids := by
  funext other
  by_cases here : other = node
  · rw [here,assign_same]
    rfl
  · rw [assign_other _ here]
    exact same other here

theorem Sound.place {index after : TTreeIndex} {root : Nat} (sound : Sound index root inserted)
    (frame : Frame index after [node]) (content : Content (after.nodes node) items)
    (sorted : SortedItems items) (known : ∀ each ∈ items, each ∈ inserted)
    (kids : (after.nodes node).kids = (index.nodes node).kids) : Sound after root inserted := by
  have same : kidsOf after = kidsOf index := by
    funext other
    by_cases here : other = node
    · rw [here]
      exact kids
    · rw [kidsOf,kidsOf,frame.nodes other (by simpa using here)]
  refine ⟨frame.root.trans sound.rooted,?_,?_⟩
  · rw [same,frame.free]
    exact sound.parented
  · intro other
    by_cases here : other = node
    · exact ⟨items,here ▸ content,sorted,known⟩
    · rw [frame.nodes other (by simpa using here)]
      exact sound.content other

theorem mem_of_mem_widened (member : each ∈ front ++ item :: back) : each = item ∨ each ∈ front ++ back := by
  rcases List.mem_append.mp member with before | later
  · exact .inr (List.mem_append_left _ before)
  · rcases List.mem_cons.mp later with rfl | among
    · exact .inl rfl
    · exact .inr (List.mem_append_right _ among)

theorem mem_widened {each : SecondaryIndexItem} (member : each ∈ front ++ back) (item : SecondaryIndexItem) :
    each ∈ front ++ item :: back := by
  rcases List.mem_append.mp member with before | later
  · exact List.mem_append_left _ before
  · exact List.mem_append_right _ (List.mem_cons_of_mem _ later)

theorem sorted_halves {first second third fourth : SecondaryIndexItem}
    (sorted : SortedItems [first,second,third,fourth]) : SortedItems [first,second] ∧ SortedItems [third,fourth] := by
  have parts := List.pairwise_append.mp (show SortedItems ([first,second] ++ [third,fourth]) from sorted)
  exact ⟨parts.1,parts.2.1⟩

theorem four_known {first second third fourth key : SecondaryIndexItem} {old inserted : List SecondaryIndexItem}
    (order : [first,second,third,fourth].Perm (key :: old)) (new : key ∈ inserted)
    (known : ∀ each ∈ old, each ∈ inserted) : ∀ each ∈ [first,second,third,fourth], each ∈ inserted := by
  intro each member
  rcases List.mem_cons.mp (order.mem_iff.mp member) with rfl | among
  · exact new
  · exact known each among

theorem Sound.promote {index after : TTreeIndex} {root : Nat} (sound : Sound index root inserted)
    (step : Promotes index after key node child_node new_right (index.nodes node).filled
      (index.nodes child_node).filled) (kid : child_node ∈ (index.nodes node).kids) (new : key ∈ inserted)
    (busy : node ∉ index.free_nodes) : Sound after root inserted := by
  obtain ⟨root_same,free,shares,⟨child_kids,right_kids⟩,kids,frame⟩ := step
  obtain ⟨first,second,third,fourth,front,back,order,four,lower,upper,split,above,sorted,_,_⟩ := shares
  obtain ⟨_,node_sorted,node_known⟩ := sound.filled node
  obtain ⟨_,child_sorted,child_known⟩ := sound.filled child_node
  have known := four_known order new child_known
  obtain ⟨lower_sorted,upper_sorted⟩ := sorted_halves (four child_sorted)
  have spare := sound.parented
  rw [free] at spare busy
  refine ⟨root_same.trans sound.rooted,?_,?_⟩
  · have others : ∀ other, other ≠ node → (after.nodes other).kids = (index.nodes other).kids := by
      intro other apart
      by_cases child : other = child_node
      · rw [child,child_kids]
      by_cases right : other = new_right
      · rw [right,right_kids]
        exact (spare.idle new_right List.mem_cons_self).1.symm
      · rw [frame other apart child right]
    rw [kidsOf_assign others]
    refine spare.adopt busy ?_
    intro cell member
    rcases kids cell member with fresh | rfl | old
    · exact .inl fresh
    · exact .inr kid
    · exact .inr old
  · intro other
    by_cases here : other = node
    · subst other
      refine ⟨_,above,sorted node_sorted,?_⟩
      intro each member
      rcases mem_of_mem_widened member with rfl | old
      · exact known each (by simp)
      · exact node_known each (split ▸ old)
    by_cases child : other = child_node
    · subst other
      exact ⟨_,lower,lower_sorted,fun each member => known each (List.mem_append_left [third,fourth] member)⟩
    by_cases right : other = new_right
    · subst other
      exact ⟨_,upper,upper_sorted,fun each member => known each (List.mem_append_right [first,second] member)⟩
    · rw [frame other here child right]
      exact sound.content other

theorem Sound.crown {index after : TTreeIndex} {root : Nat} (sound : Sound index root inserted)
    (step : Crowns index after key root above fresh (index.nodes root).filled) (new : key ∈ inserted) :
    Sound after above inserted := by
  obtain ⟨rooted,free,shares,_,kids,⟨root_kids,fresh_kids⟩,frame⟩ := step
  obtain ⟨first,second,third,fourth,order,four,lower,upper,top⟩ := shares
  obtain ⟨_,root_sorted,root_known⟩ := sound.filled root
  have known := four_known order new root_known
  obtain ⟨lower_sorted,upper_sorted⟩ := sorted_halves (four root_sorted)
  have spare := sound.parented
  rw [free] at spare
  refine ⟨rooted,?_,?_⟩
  · have others : ∀ other, other ≠ above → (after.nodes other).kids = (index.nodes other).kids := by
      intro other apart
      by_cases old : other = root
      · rw [old,root_kids]
      by_cases right : other = fresh
      · rw [right,fresh_kids]
        exact (spare.idle fresh (List.mem_cons_of_mem _ List.mem_cons_self)).1.symm
      · rw [frame other old apart right]
    rw [kidsOf_assign others]
    exact spare.crown _ kids
  · intro other
    by_cases here : other = above
    · subst other
      exact ⟨_,top,List.pairwise_singleton _ _,fun each member => known each (by simp_all)⟩
    by_cases old : other = root
    · subst other
      exact ⟨_,lower,lower_sorted,fun each member => known each (List.mem_append_left [third,fourth] member)⟩
    by_cases right : other = fresh
    · subst other
      exact ⟨_,upper,upper_sorted,fun each member => known each (List.mem_append_right [first,second] member)⟩
    · rw [frame other old here right]
      exact sound.content other

def Refused (index : TTreeIndex) : Prop := index.refused = true

-- Everything that one level of an insert can do at a node that has room.
inductive Level (index : TTreeIndex) (key : SecondaryIndexItem) (levels node : Nat) :
    EStateM.Result IndexFault TTreeIndex Unit → Prop
  | known (present : item ∈ (index.nodes node).filled) (equal : compareItems item key = .eq) :
      Level index key levels node (.ok () index)
  | placed (frame : Frame index after [node]) (split : (index.nodes node).filled = front ++ back)
      (content : Content (after.nodes node) (front ++ key :: back)) (sorted : SortedItems (front ++ key :: back))
      (left : (after.nodes node).left = (index.nodes node).left)
      (kids : (after.nodes node).kids = (index.nodes node).kids)
      (behind : front = [] → (index.nodes node).left = none) : Level index key levels node (.ok () after)
  | refused (failed : Refused (finalState outcome)) : Level index key levels node outcome
  | promoted (kid : child_node ∈ (index.nodes node).kids)
      (step : Promotes index after key node child_node new_right (index.nodes node).filled
        (index.nodes child_node).filled) : Level index key levels node (.ok () after)
  | descends (kid : child_node ∈ (index.nodes node).kids)
      (room : (index.nodes child_node).filled.length < TTREE_ORDER) :
      Level index key levels node ((insertRecursive key levels child_node).run index)

theorem updateRecord_same {index : TTreeIndex} (found : (index.nodes node).filled[pos]? = some item) :
    (updateRecord node pos item.record_id).run index = .ok () index := by
  have held : (index.nodes node).keys[pos]? = some item := by
    rw [filled,List.getElem?_take] at found
    split at found
    · exact found
    · cases found
  have unchanged : store (index.nodes node).keys pos item = some (index.nodes node).keys := by
    obtain ⟨bound,same⟩ := List.getElem?_eq_some_iff.mp held
    rw [store,if_pos bound,← same,List.set_getElem_self]
  simp only [updateRecord,EStateM.run_bind,EStateM.run_get,held,orPanic,EStateM.run_pure,unchanged,run_setNode]
  have still : assign index.nodes node (index.nodes node) = index.nodes := by
    funext other
    by_cases here : other = node
    · rw [here,assign_same]
    · exact assign_other _ here _
  exact congrArg (fun nodes => EStateM.Result.ok () {index with nodes:=nodes}) still

theorem insertRecursive_level {index : TTreeIndex} {root : Nat} (sound : Sound index root inserted)
    (key : SecondaryIndexItem) (levels node : Nat) (busy : node ∉ index.free_nodes)
    (acyclic : node ∉ (index.nodes node).kids) (room : (index.nodes node).filled.length < TTREE_ORDER) :
    Level index key levels node ((insertRecursive key (levels+1) node).run index) := by
  obtain ⟨content,sorted,_⟩ := sound.filled node
  obtain ⟨front,back,split,bound,before,keeps⟩ := insertItem_place (index.nodes node).filled key
  have place : ((index.nodes node).findKeyPosition key).1 = front.length := bound
  by_cases same : ((index.nodes node).findKeyPosition key).2 = .eq
  · obtain ⟨item,found,equal⟩ : ∃ item, (index.nodes node).filled[front.length]? = some item ∧
        compareItems item key = .eq := by
      rw [findKeyPosition,bound] at same
      cases found : (index.nodes node).filled[front.length]? with
      | none => simp [found] at same
      | some item => exact ⟨item,rfl,by simpa [found] using same⟩
    have unchanged := updateRecord_same found
    rw [((compareItems_eq item key).mp equal).2.2] at unchanged
    have outcome : (insertRecursive key (levels+1) node).run index = .ok () index := by
      simp only [insertRecursive,EStateM.run_bind,EStateM.run_get,same,place,if_true,unchanged]
    rw [outcome]
    exact .known (List.mem_of_getElem? found) equal
  · cases reached : (index.nodes node).child front.length with
    | none =>
      rw [split] at content room
      obtain ⟨after,ran,frame,grown,left,kids⟩ := insertIntoNode_run content room (split ▸ bound)
      have open_node : (index.nodes node).key_count < UInt8.ofNat TTREE_ORDER := by
        rw [UInt8.lt_iff_toNat_lt,content.count]
        exact room
      have outcome : (insertRecursive key (levels+1) node).run index = .ok () after := by
        simp only [insertRecursive,EStateM.run_bind,EStateM.run_get,same,place,reached,if_false,open_node,
          if_true,ran]
      rw [outcome]
      refine .placed frame split grown (keeps sorted) left kids ?_
      intro first
      rw [first] at reached
      exact reached
    | some child_node =>
      have kid := child_mem_kids reached
      obtain ⟨below,_,_⟩ := sound.filled child_node
      by_cases full : (index.nodes child_node).filled.length = TTREE_ORDER
      · have counted := below.full_iff.mpr full
        have outcome : (insertRecursive key (levels+1) node).run index =
            (splitChild key node child_node).run index := by
          simp only [insertRecursive,EStateM.run_bind,EStateM.run_get,same,place,reached,if_false,counted,if_true]
        rw [outcome]
        cases free : index.free_nodes with
        | nil =>
          apply Level.refused
          obtain ⟨first,second,third,fourth,merge,_,_⟩ := mergeKeys_four _ full key
          simp only [splitChild,EStateM.run_bind,EStateM.run_get,below.full_keys full,merge,orPanic,
            EStateM.run_pure,run_allocateNode_none free]
          rfl
        | cons new_right rest =>
          have member : new_right ∈ index.free_nodes := free ▸ List.mem_cons_self
          have apart : child_node ≠ node := fun here => acyclic (here ▸ kid)
          obtain ⟨after,ran,step⟩ := splitChild_run content room below full apart free
            (fun here => busy (here ▸ member)) (fun here => sound.parented.kid_busy kid (here ▸ member)) key
          rw [ran]
          exact .promoted kid step
      · have counted : ¬(index.nodes child_node).key_count = UInt8.ofNat TTREE_ORDER :=
          fun same => full (below.full_iff.mp same)
        have outcome : (insertRecursive key (levels+1) node).run index =
            (insertRecursive key levels child_node).run index := by
          rw [insertRecursive]
          simp only [EStateM.run_bind,EStateM.run_get,same,place,reached,if_false,counted]
        rw [outcome]
        have size := below.size
        exact .descends kid (by omega)

-- A set of nodes that an insert below `node` cannot reach: it has the parents
-- of `node` and of its own members.
structure Outer (index : TTreeIndex) (outer : Nat → Prop) (node : Nat) : Prop where
  apart : ¬outer node
  above : ∀ parent, node ∈ (index.nodes parent).kids → outer parent
  closed : ∀ parent member, member ∈ (index.nodes parent).kids → outer member → outer parent
  busy : ∀ member, outer member → member ∉ index.free_nodes

theorem Outer.acyclic (outside : Outer index outer node) : node ∉ (index.nodes node).kids :=
  fun self => outside.apart (outside.above node self)

theorem Outer.descend {index : TTreeIndex} {root : Nat} (sound : Sound index root inserted)
    (outside : Outer index outer node) (kid : child_node ∈ (index.nodes node).kids)
    (busy : node ∉ index.free_nodes) : Outer index (fun each => outer each ∨ each = node) child_node := by
  have only : ∀ parent, child_node ∈ (index.nodes parent).kids → parent = node :=
    fun parent member => sound.parented.unique parent node child_node member kid
  refine ⟨?_,fun parent member => .inr (only parent member),?_,?_⟩
  · rintro (among | here)
    · exact outside.apart (outside.closed node child_node kid among)
    · exact outside.acyclic (here ▸ kid)
  · rintro parent member down (among | rfl)
    · exact .inl (outside.closed parent member down among)
    · exact .inl (outside.above parent down)
  · rintro member (among | rfl)
    · exact outside.busy member among
    · exact busy

theorem Promotes.filled_grows (step : Promotes index after key node child_node new_right items old) :
    ∀ each ∈ items, each ∈ (after.nodes node).filled := by
  obtain ⟨first,second,third,fourth,front,back,_,_,_,_,rfl,above,_⟩ := step.shares
  intro each member
  rw [above.filled_eq]
  exact mem_widened member second

-- An insert below `node`: the invariant stays, the node loses no key, and what
-- lies outside is as before.
theorem insertRecursive_sound {root : Nat} (new : key ∈ inserted) (levels : Nat) :
    ∀ (index : TTreeIndex) (node : Nat) (outer : Nat → Prop), Sound index root inserted →
      Outer index outer node → node ∉ index.free_nodes → (index.nodes node).filled.length < TTREE_ORDER →
      Refused (finalState ((insertRecursive key levels node).run index)) ∨
        ∃ after, (insertRecursive key levels node).run index = .ok () after ∧ Sound after root inserted ∧
          (∀ each, outer each → after.nodes each = index.nodes each) ∧
          ∀ each ∈ (index.nodes node).filled, each ∈ (after.nodes node).filled := by
  induction levels with
  | zero =>
    intro index node outer sound _ _ _
    exact .inr ⟨index,rfl,sound,fun _ _ => rfl,fun _ member => member⟩
  | succ levels ih =>
    intro index node outer sound outside busy room
    have level := insertRecursive_level sound key levels node busy outside.acyclic room
    generalize (insertRecursive key (levels+1) node).run index = outcome at level
    cases level with
    | known => exact .inr ⟨index,rfl,sound,fun _ _ => rfl,fun _ member => member⟩
    | refused failed => exact .inl failed
    | @placed after front back frame split content sorted left kids behind =>
      obtain ⟨_,_,known⟩ := sound.filled node
      right
      refine ⟨after,rfl,sound.place frame content sorted ?_ kids,?_,?_⟩
      · intro each member
        rcases mem_of_mem_widened member with rfl | old
        · exact new
        · exact known each (split ▸ old)
      · intro each among
        refine frame.nodes each ?_
        rw [List.mem_singleton]
        rintro rfl
        exact outside.apart among
      · intro each member
        rw [content.filled_eq]
        exact mem_widened (split ▸ member) key
    | @promoted child_node after new_right kid step =>
      have below := outside.descend sound kid busy
      right
      refine ⟨after,rfl,sound.promote step kid new busy,?_,step.filled_grows⟩
      intro each among
      refine step.frame each ?_ ?_ ?_
      · rintro rfl
        exact outside.apart among
      · rintro rfl
        exact below.apart (.inl among)
      · rintro rfl
        exact outside.busy each among (step.free ▸ List.mem_cons_self)
    | @descends child_node kid room' =>
      have below := outside.descend sound kid busy
      rcases ih index child_node _ sound below (sound.parented.kid_busy kid) room' with
        refused | ⟨after,ran,sound',same,_⟩
      · exact .inl refused
      · right
        refine ⟨after,ran,sound',fun each among => same each (.inl among),?_⟩
        intro each member
        rw [same node (.inr rfl)]
        exact member

def Doubled (index : TTreeIndex) (root : Nat) : Prop :=
  ∃ below item, (index.nodes root).left = some below ∧ (index.nodes root).filled.head? = some item ∧
    item ∈ (index.nodes below).filled

theorem left_mem_kids {node : TTreeNode} (left : node.left = some target) : target ∈ node.kids := by
  simp [TTreeNode.kids,left]

theorem head_of_front {front : List SecondaryIndexItem} (present : front ≠ []) (back back' : List SecondaryIndexItem) :
    (front ++ back).head? = (front ++ back').head? := by
  cases front with
  | nil => exact absurd rfl present
  | cons first rest => rfl

-- The lesser of four keys in order are the first two, when they are less than
-- the second or the second itself.
theorem among_lower {first second third fourth item : SecondaryIndexItem}
    (sorted : SortedItems [first,second,third,fourth]) (member : item ∈ [first,second,third,fourth])
    (less : compareItems item second = .lt) : item ∈ [first,second] := by
  rcases List.mem_append.mp (show item ∈ [first,second] ++ [third,fourth] from member) with lower | upper
  · exact lower
  · have order := List.rel_of_pairwise_cons (List.Pairwise.of_cons sorted) upper
    have flipped : compareItems second item = .gt := Std.OrientedCmp.gt_of_lt less
    rw [flipped] at order
    cases order

theorem Doubled.promote {index after : TTreeIndex} {root : Nat} (sound : Sound index root inserted)
    (doubled : Doubled index root) (kid : child_node ∈ (index.nodes root).kids)
    (step : Promotes index after key root child_node new_right (index.nodes root).filled
      (index.nodes child_node).filled) : Doubled after root := by
  obtain ⟨below,item,left,head,stands⟩ := doubled
  obtain ⟨first,second,third,fourth,front,back,order,four,lower,_,split,above,_,before,left'⟩ := step.shares
  by_cases empty : front = []
  · rw [if_pos empty] at left'
    refine ⟨child_node,second,left',?_,?_⟩
    · rw [above.filled_eq,empty]
      rfl
    · rw [lower.filled_eq]
      simp
  · rw [if_neg empty] at left'
    refine ⟨below,item,left'.trans left,?_,?_⟩
    · rw [above.filled_eq,← head,split]
      exact head_of_front empty _ _
    · by_cases here : below = child_node
      · subst below
        have less : compareItems item second = .lt := by
          apply before
          rw [split] at head
          cases front with
          | nil => exact absurd rfl empty
          | cons top rest =>
            cases head
            exact List.mem_cons_self
        rw [lower.filled_eq]
        exact among_lower (four (sound.filled child_node).2.1)
          (order.mem_iff.mpr (List.mem_cons_of_mem _ stands)) less
      · have busy := sound.parented.kid_busy (left_mem_kids left)
        have same : after.nodes below = index.nodes below := by
          refine step.frame below ?_ here ?_
          · rintro rfl
            exact sound.parented.top below (left_mem_kids left)
          · rintro rfl
            exact busy (step.free ▸ List.mem_cons_self)
        rw [same]
        exact stands

theorem Doubled.descend {index after : TTreeIndex} {root : Nat} (doubled : Doubled index root)
    (top : after.nodes root = index.nodes root)
    (kept : ∀ below, (index.nodes root).left = some below →
      ∀ each ∈ (index.nodes below).filled, each ∈ (after.nodes below).filled) : Doubled after root := by
  obtain ⟨below,item,left,head,stands⟩ := doubled
  refine ⟨below,item,?_,?_,kept below left item stands⟩
  · rw [top]
    exact left
  · rw [top]
    exact head

theorem outer_root {index : TTreeIndex} {root : Nat} (sound : Sound index root inserted) :
    Outer index (fun _ => False) root :=
  ⟨id,fun parent member => sound.parented.top parent member,fun _ _ _ => id,fun _ => False.elim⟩

theorem outer_siblings {index : TTreeIndex} {root : Nat} (sound : Sound index root inserted)
    (kid : child_node ∈ (index.nodes root).kids) :
    Outer index (fun each => each = root ∨ (each ∈ (index.nodes root).kids ∧ each ≠ child_node)) child_node := by
  have only : ∀ parent member, member ∈ (index.nodes root).kids → member ∈ (index.nodes parent).kids → parent = root :=
    fun parent member sibling down => sound.parented.unique parent root member down sibling
  refine ⟨?_,fun parent down => .inl (only parent child_node kid down),?_,?_⟩
  · rintro (rfl | ⟨_,other⟩)
    · exact sound.parented.top _ kid
    · exact other rfl
  · rintro parent member down (rfl | ⟨sibling,_⟩)
    · exact absurd down (sound.parented.top parent)
    · exact .inl (only parent member sibling down)
  · rintro member (rfl | ⟨sibling,_⟩)
    · exact sound.parented.outside
    · exact sound.parented.kid_busy sibling

theorem insertRecursive_doubled {index : TTreeIndex} {root : Nat} (sound : Sound index root inserted)
    (doubled : Doubled index root) (new : key ∈ inserted) (levels : Nat)
    (room : (index.nodes root).filled.length < TTREE_ORDER) :
    Refused (finalState ((insertRecursive key (levels+1) root).run index)) ∨
      ∃ after, (insertRecursive key (levels+1) root).run index = .ok () after ∧ Doubled after root := by
  have outside := outer_root sound
  have level := insertRecursive_level sound key levels root sound.parented.outside outside.acyclic room
  generalize (insertRecursive key (levels+1) root).run index = outcome at level
  cases level with
  | known => exact .inr ⟨index,rfl,doubled⟩
  | refused failed => exact .inl failed
  | @placed after front back frame split content sorted left kids behind =>
    obtain ⟨below,item,left',head,stands⟩ := doubled
    have present : front ≠ [] := by
      intro empty
      rw [behind empty] at left'
      cases left'
    have apart : below ≠ root := by
      rintro rfl
      exact sound.parented.top below (left_mem_kids left')
    refine .inr ⟨after,rfl,below,item,left.trans left',?_,?_⟩
    · rw [content.filled_eq,← head,split]
      exact head_of_front present _ _
    · rw [frame.nodes below (by simpa using apart)]
      exact stands
  | @promoted child_node after new_right kid step => exact .inr ⟨after,rfl,doubled.promote sound kid step⟩
  | @descends child_node kid room' =>
    rcases insertRecursive_sound new levels index child_node _ sound (outer_siblings sound kid)
      (sound.parented.kid_busy kid) room' with refused | ⟨after,ran,_,same,grows⟩
    · exact .inl refused
    · refine .inr ⟨after,ran,doubled.descend (same root (.inl rfl)) ?_⟩
      intro below left each member
      by_cases here : below = child_node
      · rw [here] at member ⊢
        exact grows each member
      · rw [same below (.inr ⟨left_mem_kids left,here⟩)]
        exact member

end RemDb.TTreeIndex
