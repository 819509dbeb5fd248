import RemDb.Index.TTree
import RemDb.Lib.Parents

namespace RemDb
open RemDb.Lib

namespace TTreeNode

def Content (node : TTreeNode) (items : List SecondaryIndexItem) : Prop :=
  node.key_count = UInt8.ofNat items.length ∧
    ∃ spare, node.keys = items ++ spare ∧ items.length+spare.length = TTREE_ORDER

def kids (node : TTreeNode) : List Nat := node.left.toList ++ node.middle.toList ++ node.right.toList

theorem content_blank : Content blank [] := ⟨rfl,List.replicate TTREE_ORDER .blank,rfl,rfl⟩

theorem Content.size (content : Content node items) : items.length ≤ TTREE_ORDER := by
  obtain ⟨_,spare,_,total⟩ := content
  omega

theorem Content.count (content : Content node items) : node.key_count.toNat = items.length := by
  have size := content.size
  simp only [TTREE_ORDER] at size
  rw [content.1,UInt8.toNat_ofNat']
  omega

theorem Content.filled_eq (content : Content node items) : node.filled = items := by
  obtain ⟨_,spare,keys,_⟩ := id content
  rw [filled,content.count,keys]
  exact List.take_left

theorem Content.keys_length (content : Content node items) : node.keys.length = TTREE_ORDER := by
  obtain ⟨_,spare,keys,total⟩ := content
  rw [keys,List.length_append]
  exact total

theorem Content.full_iff (content : Content node items) :
    node.key_count = UInt8.ofNat TTREE_ORDER ↔ items.length = TTREE_ORDER := by
  rw [← UInt8.toNat_inj,content.count]
  rfl

theorem Content.full_keys (content : Content node items) (full : items.length = TTREE_ORDER) :
    node.keys = items := by
  obtain ⟨_,spare,keys,total⟩ := content
  have empty : spare = [] := List.length_eq_zero_iff.mp (by omega)
  rw [keys,empty,List.append_nil]

theorem child_mem_kids {node : TTreeNode} (reached : node.child pos = some target) : target ∈ node.kids := by
  unfold child at reached
  simp only [kids,List.mem_append,Option.mem_toList]
  split at reached
  · exact .inl (.inl reached)
  split at reached
  · exact .inl (.inr reached)
  · exact .inr reached

end TTreeNode

namespace TTreeIndex
open TTreeNode

theorem run_setNode (node : Nat) (value : TTreeNode) (index : TTreeIndex) :
    (setNode node value).run index = .ok () {index with nodes:=assign index.nodes node value} := rfl

theorem run_allocateNode {index : TTreeIndex} (free : index.free_nodes = node :: rest) :
    allocateNode.run index =
      .ok node {index with free_nodes:=rest,nodes:=assign index.nodes node .blank} := by
  simp only [allocateNode,EStateM.run_bind,EStateM.run_get,free]
  rfl

structure Frame (index after : TTreeIndex) (touched : List Nat) : Prop where
  root : after.root = index.root
  free : after.free_nodes = index.free_nodes
  nodes : ∀ other, other ∉ touched → after.nodes other = index.nodes other

theorem run_allocateNode_none {index : TTreeIndex} (free : index.free_nodes = []) :
    allocateNode.run index = .error (.error .outOfMemory) {index with refused:=true} := by
  simp only [allocateNode,EStateM.run_bind,EStateM.run_get,free]
  rfl

theorem insertIntoNode_run {index : TTreeIndex} (content : Content (index.nodes node) (front ++ back))
    (room : (front ++ back).length < TTREE_ORDER)
    (bound : lowerBound compareItems (front ++ back) key = front.length) :
    ∃ after, (insertIntoNode node key).run index = .ok () after ∧ Frame index after [node] ∧
      Content (after.nodes node) (front ++ key :: back) ∧
      (after.nodes node).left = (index.nodes node).left ∧
      (after.nodes node).kids = (index.nodes node).kids := by
  obtain ⟨count,spare,keys,total⟩ := id content
  cases spare with
  | nil =>
    rw [List.length_nil] at total
    omega
  | cons old spare =>
    have inserted : insertAt (index.nodes node).keys ((index.nodes node).findKeyPosition key).1
        (index.nodes node).key_count.toNat key = some (front ++ key :: back ++ spare) := by
      rw [findKeyPosition,content.filled_eq,bound,content.count,keys,List.length_append]
      exact insertAt_filled front back spare old key
    have grown : Content {index.nodes node with
        keys:=front ++ key :: back ++ spare
        key_count:=(index.nodes node).key_count+1} (front ++ key :: back) := by
      refine ⟨?_,spare,rfl,?_⟩
      · dsimp only
        rw [count,← UInt8.ofNat_one,← UInt8.ofNat_add]
        simp [Nat.add_assoc]
      · simp only [List.length_append,List.length_cons] at total ⊢
        omega
    refine ⟨{index with
      nodes:=assign index.nodes node {index.nodes node with
        keys:=front ++ key :: back ++ spare
        key_count:=(index.nodes node).key_count+1}
      stats:={index.stats with item_count:=usizeAdd index.stats.item_count 1}},?_,⟨rfl,rfl,?_⟩,?_⟩
    · simp only [insertIntoNode,EStateM.run_bind,EStateM.run_get,inserted,orPanic,EStateM.run_pure,
        run_setNode]
      rfl
    · intro other outside
      exact assign_other _ (by simpa using outside) _
    · dsimp only
      rw [assign_same]
      exact ⟨grown,rfl,rfl⟩

theorem mergeKeys_run (keys : List SecondaryIndexItem) (length : keys.length = TTREE_ORDER)
    (key : SecondaryIndexItem) :
    ∃ merged, mergeKeys keys key = some merged ∧ merged.Perm (key :: keys) ∧
      (SortedItems keys → SortedItems merged) := by
  obtain ⟨front,back,rfl,bound,before,behind⟩ :=
    takeWhile_split (fun each => decide (compareItems each key ≠ .gt)) keys
  refine ⟨front ++ key :: back,?_,List.perm_middle,?_⟩
  · have placed := insertAt_filled front back [] .blank key
    rw [← List.length_append,length,List.append_nil] at placed
    rw [mergeKeys,bound]
    exact placed
  · intro sorted
    refine sorted.insert ?_ ?_
    · intro each member
      have order : compareItems each key ≠ .gt := by simpa using before each member
      cases outcome : compareItems each key with
      | lt => rfl
      | eq => rfl
      | gt => exact absurd outcome order
    · intro each head
      have order : compareItems each key = .gt := by simpa using behind each head
      apply Std.OrientedCmp.isLE_of_isGE
      rw [order]
      rfl

theorem mergeKeys_four (keys : List SecondaryIndexItem) (length : keys.length = TTREE_ORDER)
    (key : SecondaryIndexItem) :
    ∃ first second third fourth, mergeKeys keys key = some [first,second,third,fourth] ∧
      [first,second,third,fourth].Perm (key :: keys) ∧
      (SortedItems keys → SortedItems [first,second,third,fourth]) := by
  obtain ⟨merged,merge,order,sorted⟩ := mergeKeys_run keys length key
  have count : merged.length = 4 := by
    rw [order.length_eq,List.length_cons,length]
    rfl
  rcases merged with _ | ⟨first,_ | ⟨second,_ | ⟨third,_ | ⟨fourth,_ | ⟨fifth,more⟩⟩⟩⟩⟩
  all_goals first | exact ⟨first,second,third,fourth,merge,order,sorted⟩ | simp at count

theorem distribute_run (index : TTreeIndex) (first second third fourth : SecondaryIndexItem)
    (apart : new_node ≠ node) (lower_length : (index.nodes node).keys.length = TTREE_ORDER)
    (upper_length : (index.nodes new_node).keys.length = TTREE_ORDER) :
    ∃ after, (distribute [first,second,third,fourth] node new_node).run index = .ok () after ∧
      Frame index after [node,new_node] ∧
      Content (after.nodes node) [first,second] ∧ (after.nodes node).kids = (index.nodes node).kids ∧
      Content (after.nodes new_node) [third,fourth] ∧
      (after.nodes new_node).kids = (index.nodes new_node).kids := by
  have stays := copyFrom_fits [first,second,third,fourth] (index.nodes node).keys mid 0
    (by simp [mid,TTREE_ORDER]) (by rw [lower_length]; decide)
  have goes := copyFrom_fits [first,second,third,fourth] (index.nodes new_node).keys
    (TTREE_ORDER+1-mid) mid (by simp [mid,TTREE_ORDER]) (by rw [upper_length]; decide)
  have lower : Content {index.nodes node with
      key_count:=UInt8.ofNat mid
      keys:=[first,second] ++ (index.nodes node).keys.drop mid} [first,second] := by
    refine ⟨rfl,_,rfl,?_⟩
    rw [List.length_drop,lower_length]
    rfl
  have upper : Content {index.nodes new_node with
      key_count:=UInt8.ofNat (TTREE_ORDER+1-mid)
      keys:=[third,fourth] ++ (index.nodes new_node).keys.drop (TTREE_ORDER+1-mid)} [third,fourth] := by
    refine ⟨rfl,_,rfl,?_⟩
    rw [List.length_drop,upper_length]
    rfl
  refine ⟨{index with nodes:=assign (assign index.nodes node {index.nodes node with
      key_count:=UInt8.ofNat mid
      keys:=[first,second] ++ (index.nodes node).keys.drop mid}) new_node {index.nodes new_node with
        key_count:=UInt8.ofNat (TTREE_ORDER+1-mid)
        keys:=[third,fourth] ++ (index.nodes new_node).keys.drop (TTREE_ORDER+1-mid)}},?_,⟨rfl,rfl,?_⟩,?_⟩
  · simp only [distribute,EStateM.run_bind,EStateM.run_get,stays,orPanic,EStateM.run_pure,run_setNode,
      assign_other _ apart,goes]
    rfl
  · intro other outside
    have apart' : other ≠ node ∧ other ≠ new_node := by simpa using outside
    dsimp only
    rw [assign_other _ apart'.2,assign_other _ apart'.1]
  · dsimp only
    rw [assign_other _ (Ne.symm apart),assign_same,assign_same]
    exact ⟨lower,rfl,upper,rfl⟩

-- What the split of a full child does: the child keeps two keys, a new node
-- gets two, and the second key also goes to the node above, where the places
-- before it hold lesser keys.
structure Promotes (index after : TTreeIndex) (key : SecondaryIndexItem) (node child_node new_right : Nat)
    (items old : List SecondaryIndexItem) : Prop where
  root : after.root = index.root
  free : index.free_nodes = new_right :: after.free_nodes
  shares : ∃ first second third fourth front back, [first,second,third,fourth].Perm (key :: old) ∧
    (SortedItems old → SortedItems [first,second,third,fourth]) ∧
    Content (after.nodes child_node) [first,second] ∧ Content (after.nodes new_right) [third,fourth] ∧
    items = front ++ back ∧ Content (after.nodes node) (front ++ second :: back) ∧
    (SortedItems items → SortedItems (front ++ second :: back)) ∧
    (∀ each ∈ front, compareItems each second = .lt) ∧
    (after.nodes node).left = if front = [] then some child_node else (index.nodes node).left
  below : (after.nodes child_node).kids = (index.nodes child_node).kids ∧ (after.nodes new_right).kids = []
  kids : ∀ kid ∈ (after.nodes node).kids, kid = new_right ∨ kid = child_node ∨ kid ∈ (index.nodes node).kids
  frame : ∀ other, other ≠ node → other ≠ child_node → other ≠ new_right →
    after.nodes other = index.nodes other

theorem adopt_kids (node : TTreeNode) (place child_node new_right : Nat) :
    ∀ kid ∈ (node.adopt place child_node new_right).kids,
      kid = new_right ∨ kid = child_node ∨ kid ∈ node.kids := by
  intro kid member
  unfold adopt at member
  simp only [TTreeNode.kids,List.mem_append,Option.mem_toList] at member ⊢
  split at member
  · simp only [Option.some.injEq] at member
    rcases member with (same | same) | old
    · exact .inr (.inl same.symm)
    · exact .inl same.symm
    · exact .inr (.inr (.inr old))
  split at member
  · simp only [Option.some.injEq] at member
    rcases member with (old | same) | same
    · exact .inr (.inr (.inl (.inl old)))
    · exact .inr (.inl same.symm)
    · exact .inl same.symm
  · simp only [Option.some.injEq] at member
    rcases member with (old | old) | same
    · exact .inr (.inr (.inl (.inl old)))
    · exact .inr (.inr (.inl (.inr old)))
    · exact .inl same.symm

theorem adopt_content (content : Content node items) (place child_node new_right : Nat) :
    Content (node.adopt place child_node new_right) items := by
  unfold adopt
  split
  · exact content
  split
  · exact content
  · exact content

theorem adopt_left (node : TTreeNode) (front : List SecondaryIndexItem) (child_node new_right : Nat) :
    (node.adopt front.length child_node new_right).left =
      if front = [] then some child_node else node.left := by
  unfold adopt
  by_cases empty : front = []
  · rw [if_pos empty,if_pos (by rw [empty]; rfl)]
  · rw [if_neg empty,if_neg (by simpa using empty)]
    split
    · rfl
    · rfl

theorem compareItems_self (item : SecondaryIndexItem) : compareItems item item = .eq :=
  Std.ReflCmp.compare_self

theorem position_of_front (content : Content node (front ++ key :: back))
    (before : ∀ each ∈ front, compareItems each key = .lt) : (node.findKeyPosition key).1 = front.length := by
  rw [findKeyPosition,content.filled_eq,lowerBound,List.takeWhile_append_of_pos (by simpa using before),
    List.takeWhile_cons_of_neg (by simp [compareItems_self])]
  simp

theorem splitChild_run {index : TTreeIndex} (content : Content (index.nodes node) items)
    (room : items.length < TTREE_ORDER) (below : Content (index.nodes child_node) old)
    (full : old.length = TTREE_ORDER) (apart : child_node ≠ node)
    (free : index.free_nodes = new_right :: rest) (fresh : new_right ≠ node) (fresh' : new_right ≠ child_node)
    (key : SecondaryIndexItem) :
    ∃ after, (splitChild key node child_node).run index = .ok () after ∧
      Promotes index after key node child_node new_right items old := by
  obtain ⟨first,second,third,fourth,merge,order,sorted⟩ := mergeKeys_four old full key
  obtain ⟨front,back,rfl,bound,before,keeps⟩ := insertItem_place items second
  -- The states after the allocation, after the keys are shared out, and after
  -- the second key has moved up.
  obtain ⟨made,made_eq⟩ : ∃ made : TTreeIndex,
      made = {index with free_nodes:=rest,nodes:=assign index.nodes new_right .blank} := ⟨_,rfl⟩
  have made_new : made.nodes new_right = .blank := by rw [made_eq]; exact assign_same _ _ _
  have made_old : ∀ other, other ≠ new_right → made.nodes other = index.nodes other := by
    intro other different
    rw [made_eq]
    exact assign_other _ different _
  obtain ⟨shared,sharing,frame,lower,lower_kids,upper,upper_kids⟩ :=
    distribute_run made first second third fourth fresh'
      (by rw [made_old child_node (Ne.symm fresh')]; exact below.keys_length)
      (by rw [made_new]; rfl)
  have shared_node : shared.nodes node = index.nodes node := by
    rw [frame.nodes node (by simpa using ⟨Ne.symm apart,Ne.symm fresh⟩),made_old node (Ne.symm fresh)]
  obtain ⟨raised,raising,frame',above,above_left,above_kids⟩ :=
    insertIntoNode_run (shared_node ▸ content) room bound
  have place := position_of_front above before
  have other_nodes : ∀ other, other ≠ node → other ≠ child_node → other ≠ new_right →
      raised.nodes other = index.nodes other := by
    intro other one two three
    rw [frame'.nodes other (by simpa using one),frame.nodes other (by simpa using ⟨two,three⟩),
      made_old other three]
  have child_same : raised.nodes child_node = shared.nodes child_node :=
    frame'.nodes child_node (by simpa using apart)
  have right_same : raised.nodes new_right = shared.nodes new_right :=
    frame'.nodes new_right (by simpa using fresh)
  refine ⟨{raised with
    nodes:=assign raised.nodes node ((raised.nodes node).adopt front.length child_node new_right)},?_,?_⟩
  · have middle : [first,second,third,fourth][mid-1]? = some second := rfl
    simp only [splitChild,EStateM.run_bind,EStateM.run_get,below.full_keys full,merge,orPanic,
      EStateM.run_pure,run_allocateNode free,← made_eq,sharing,middle,raising,place,run_setNode]
  · refine ⟨?_,?_,⟨first,second,third,fourth,front,back,order,sorted,?_,?_,rfl,?_,keeps,before,?_⟩,⟨?_,?_⟩,?_,?_⟩
    all_goals dsimp only
    · rw [frame'.root,frame.root,made_eq]
    · rw [frame'.free,frame.free,made_eq,free]
    · rw [assign_other _ apart,child_same]
      exact lower
    · rw [assign_other _ fresh,right_same]
      exact upper
    · rw [assign_same]
      exact adopt_content above _ _ _
    · rw [assign_same,adopt_left,above_left,shared_node]
    · rw [assign_other _ apart,child_same,lower_kids,made_old child_node (Ne.symm fresh')]
    · rw [assign_other _ fresh,right_same,upper_kids,made_new]
      rfl
    · rw [assign_same]
      intro kid member
      rw [← shared_node,← above_kids]
      exact adopt_kids _ _ _ _ kid member
    · intro other one two three
      rw [assign_other _ one]
      exact other_nodes other one two three

-- What the split of a full root does: the old root keeps two keys and stands
-- left below a new one, whose only key is the second of the four.
structure Crowns (index after : TTreeIndex) (key : SecondaryIndexItem) (root above fresh : Nat)
    (old : List SecondaryIndexItem) : Prop where
  rooted : after.root = some above
  free : index.free_nodes = above :: fresh :: after.free_nodes
  shares : ∃ first second third fourth, [first,second,third,fourth].Perm (key :: old) ∧
    (SortedItems old → SortedItems [first,second,third,fourth]) ∧
    Content (after.nodes root) [first,second] ∧ Content (after.nodes fresh) [third,fourth] ∧
    Content (after.nodes above) [second]
  left : (after.nodes above).left = some root
  kids : ∀ kid ∈ (after.nodes above).kids, kid = root ∨ kid = fresh
  below : (after.nodes root).kids = (index.nodes root).kids ∧ (after.nodes fresh).kids = []
  frame : ∀ other, other ≠ root → other ≠ above → other ≠ fresh → after.nodes other = index.nodes other

theorem splitRoot_run {index : TTreeIndex} {root : Nat} (below : Content (index.nodes root) old)
    (full : old.length = TTREE_ORDER) (free : index.free_nodes = above :: fresh :: rest)
    (one : root ≠ above) (two : root ≠ fresh) (three : above ≠ fresh) (key : SecondaryIndexItem) :
    ∃ after, (splitRoot key root).run index = .ok () after ∧ Crowns index after key root above fresh old := by
  obtain ⟨first,second,third,fourth,merge,order,sorted⟩ := mergeKeys_four old full key
  obtain ⟨made,made_eq⟩ : ∃ made : TTreeIndex, made = {index with
      free_nodes:=rest
      nodes:=assign (assign index.nodes above .blank) fresh .blank} := ⟨_,rfl⟩
  have made_root : made.nodes root = index.nodes root := by
    rw [made_eq]
    exact (assign_other _ two _).trans (assign_other _ one _)
  have made_fresh : made.nodes fresh = .blank := by rw [made_eq]; exact assign_same _ _ _
  obtain ⟨shared,sharing,frame,lower,lower_kids,upper,upper_kids⟩ :=
    distribute_run made first second third fourth (Ne.symm two)
      (by rw [made_root]; exact below.keys_length) (by rw [made_fresh]; rfl)
  have shared_above : shared.nodes above = .blank := by
    rw [frame.nodes above (by simpa using ⟨Ne.symm one,three⟩),made_eq]
    exact (assign_other _ three _).trans (assign_same _ _ _)
  refine ⟨{shared with
    root:=some above
    nodes:=assign shared.nodes above {TTreeNode.blank with
      keys:=second :: List.replicate 2 .blank
      key_count:=1
      left:=some root
      right:=some fresh}},?_,?_⟩
  · have again : allocateNode.run {index with
        free_nodes:=fresh :: rest
        nodes:=assign index.nodes above .blank} = .ok fresh made := by
      rw [run_allocateNode rfl,made_eq]
    have middle : [first,second,third,fourth][mid-1]? = some second := rfl
    simp only [splitRoot,EStateM.run_bind,EStateM.run_get,run_allocateNode free,assign_other _ one,
      below.full_keys full,merge,orPanic,EStateM.run_pure,again,sharing,shared_above,middle]
    rfl
  · refine ⟨rfl,?_,⟨first,second,third,fourth,order,sorted,?_,?_,?_⟩,?_,?_,⟨?_,?_⟩,?_⟩
    all_goals dsimp only
    · rw [frame.free,made_eq,free]
    · rw [assign_other _ one]
      exact lower
    · rw [assign_other _ (Ne.symm three)]
      exact upper
    · rw [assign_same]
      exact ⟨rfl,List.replicate 2 .blank,rfl,rfl⟩
    · rw [assign_same]
    · rw [assign_same]
      intro kid member
      simpa [TTreeNode.kids,TTreeNode.blank] using member
    · rw [assign_other _ one,lower_kids,made_root]
    · rw [assign_other _ (Ne.symm three),upper_kids,made_fresh]
      rfl
    · intro other root' above' fresh'
      rw [assign_other _ above',frame.nodes other (by simpa using ⟨root',fresh'⟩),made_eq]
      exact (assign_other _ fresh' _).trans (assign_other _ above' _)

theorem plantRoot_run {index : TTreeIndex} (free : index.free_nodes = root_node :: rest)
    (item : SecondaryIndexItem) :
    ∃ after, (plantRoot item).run index = .ok () after ∧ after.root = some root_node ∧
      after.free_nodes = rest ∧ Content (after.nodes root_node) [item] ∧
      (after.nodes root_node).kids = [] ∧
      ∀ other, other ≠ root_node → after.nodes other = index.nodes other := by
  refine ⟨{index with
    root:=some root_node
    free_nodes:=rest
    nodes:=assign (assign index.nodes root_node .blank) root_node {TTreeNode.blank with
      keys:=item :: List.replicate 2 .blank
      key_count:=1}},?_,rfl,rfl,?_,?_,?_⟩
  · simp only [plantRoot,EStateM.run_bind,EStateM.run_get,run_allocateNode free,assign_same]
    rfl
  · dsimp only
    rw [assign_same]
    exact ⟨rfl,List.replicate 2 .blank,rfl,rfl⟩
  · dsimp only
    rw [assign_same]
    rfl
  · intro other apart
    exact (assign_other _ apart _).trans (assign_other _ apart _)

end TTreeIndex
end RemDb
