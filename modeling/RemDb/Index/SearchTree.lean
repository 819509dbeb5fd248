import RemDb.Index.SortedArray
import RemDb.Lib.Search

namespace RemDb.BTreeIndex
open RemDb.Lib

mutual
def BTree.height : BTree → Nat
  | .leaf _ => 1
  | .inner first rest => max first.height rest.height+1

def BForest.height : BForest → Nat
  | .nil => 0
  | .cons _ tree rest => max tree.height rest.height
end

def BForest.keys : BForest → List SecondaryIndexItem
  | .nil => []
  | .cons key _ rest => key :: rest.keys

def BTree.nodeKeys : BTree → List SecondaryIndexItem
  | .leaf keys => keys
  | .inner _ rest => rest.keys

-- The subtree in front of the key at a place; the last one is behind all keys.
def childAt : BTree → BForest → Nat → BTree
  | first, _, 0 => first
  | first, .nil, _+1 => first
  | _, .cons _ tree rest, place+1 => childAt tree rest place

-- What the code walks is a tree in order. A path passes each node of the pool at
-- most once.
structure SearchTree (index : BTreeIndex) (tree : BTree) (root : Nat) : Prop where
  rooted : index.root = some root
  spelled : Spells index tree root
  sorted : SortedItems tree.items
  padded : ∀ item ∈ tree.items, item.Padded
  levels : tree.height ≤ index.max_nodes

def Stores (index : BTreeIndex) (items : List SecondaryIndexItem) : Prop :=
  (index.root = none ∧ items = []) ∨ ∃ tree root, SearchTree index tree root ∧ items = tree.items

section Nodes
variable {index : BTreeIndex} {node : Nat}

theorem spellsFrom_keys : ∀ (rest : BForest) (place : Nat), SpellsFrom index rest node place →
    (index.nodes node).key_count.toNat = place+rest.keys.length ∧
      ∀ (offset : Nat), offset < rest.keys.length → (index.nodes node).keys[place+offset]? = rest.keys[offset]?
  | .nil, place, spelled => by
    refine ⟨?_,fun offset less => by cases less⟩
    rw [SpellsFrom] at spelled
    exact spelled.symm
  | .cons key tree rest, place, spelled => by
    rw [SpellsFrom] at spelled
    obtain ⟨here,_,onward⟩ := spelled
    obtain ⟨count,later⟩ := spellsFrom_keys rest (place+1) onward
    simp only [BForest.keys,List.length_cons]
    refine ⟨by omega,?_⟩
    intro offset less
    cases offset with
    | zero => exact here
    | succ offset =>
      have found := later offset (by omega)
      rw [Nat.add_right_comm] at found
      exact found

theorem spellsFrom_filled {rest : BForest} (spelled : SpellsFrom index rest node 0) :
    filled (index.nodes node) = rest.keys := by
  obtain ⟨count,keys⟩ := spellsFrom_keys rest 0 spelled
  rw [Nat.zero_add] at count
  refine List.ext_getElem? ?_
  intro place
  rw [filled,count]
  rcases Nat.lt_or_ge place rest.keys.length with less | more
  · have same := keys place less
    rw [Nat.zero_add] at same
    rw [List.getElem?_take_of_lt less,same]
  · rw [List.getElem?_eq_none more,List.getElem?_eq_none]
    exact Nat.le_trans (List.length_take_le _ _) more

theorem spells_filled {tree : BTree} (spelled : Spells index tree node) :
    filled (index.nodes node) = tree.nodeKeys := by
  cases tree with
  | leaf keys =>
    rw [Spells] at spelled
    exact spelled.2.2
  | inner first rest =>
    rw [Spells] at spelled
    exact spellsFrom_filled spelled.2.2.2

theorem keys_sublist : ∀ (rest : BForest), rest.keys.Sublist rest.items
  | .nil => List.Sublist.slnil
  | .cons key tree rest => by
    rw [BForest.keys,BForest.items]
    exact ((keys_sublist rest).trans (List.sublist_append_right tree.items rest.items)).cons_cons key

theorem nodeKeys_sublist (tree : BTree) : tree.nodeKeys.Sublist tree.items := by
  cases tree with
  | leaf keys => exact List.Sublist.refl keys
  | inner first rest =>
    rw [BTree.items]
    exact (keys_sublist rest).trans (List.sublist_append_right first.items rest.items)

theorem spellsFrom_child : ∀ (first : BTree) (rest : BForest) (place pos : Nat),
    (∃ child, (index.nodes node).children[place]? = some (some child) ∧ Spells index first child) →
    SpellsFrom index rest node place → pos ≤ rest.keys.length →
    ∃ child, (index.nodes node).children[place+pos]? = some (some child) ∧ Spells index (childAt first rest pos) child
  | first, rest, place, 0, start, _, _ => by
    rw [childAt]
    exact start
  | first, .nil, place, pos+1, _, _, bound => by cases bound
  | first, .cons key tree rest, place, pos+1, _, spelled, bound => by
    rw [SpellsFrom] at spelled
    obtain ⟨_,start,onward⟩ := spelled
    have found := spellsFrom_child tree rest (place+1) pos start onward (Nat.le_of_succ_le_succ bound)
    rw [Nat.add_right_comm] at found
    rw [childAt]
    exact found

theorem childAt_height : ∀ (first : BTree) (rest : BForest) (pos : Nat),
    (childAt first rest pos).height ≤ max first.height rest.height
  | first, rest, 0 => by
    rw [childAt]
    exact Nat.le_max_left _ _
  | first, .nil, pos+1 => by
    rw [childAt]
    exact Nat.le_max_left _ _
  | first, .cons key tree rest, pos+1 => by
    have below := childAt_height tree rest pos
    rw [childAt,BForest.height]
    omega

theorem childAt_split : ∀ (first : BTree) (rest : BForest) (pos : Nat), pos ≤ rest.keys.length →
    ∃ before behind, first.items ++ rest.items = before ++ ((childAt first rest pos).items ++ behind) ∧
      before.getLast? = (if pos = 0 then none else rest.keys[pos-1]?) ∧ behind.head? = rest.keys[pos]?
  | first, rest, 0, _ => by
    rw [childAt]
    refine ⟨[],rest.items,rfl,rfl,?_⟩
    cases rest with
    | nil => rfl
    | cons key tree rest => rfl
  | first, .nil, pos+1, bound => by cases bound
  | first, .cons key tree rest, pos+1, bound => by
    obtain ⟨before,behind,parts,last,head⟩ := childAt_split tree rest pos (Nat.le_of_succ_le_succ bound)
    refine ⟨first.items ++ key :: before,behind,?_,?_,head⟩
    · rw [BForest.items,parts,childAt]
      simp
    · rw [List.getLast?_append,List.getLast?_cons,last]
      cases pos with
      | zero => rfl
      | succ pos =>
        have less : pos < rest.keys.length := Nat.le_of_succ_le_succ bound
        simp [BForest.keys,List.getElem?_eq_getElem less]

end Nodes

section Descent
variable {index : BTreeIndex} {search_item : SecondaryIndexItem}

theorem position_split {keys : List SecondaryIndexItem} (sorted : SortedItems keys)
    (apart : ∀ key ∈ keys[lowerBound index.compareItems keys search_item]?, RemDb.compareItems key search_item ≠ .eq) :
    lowerBound index.compareItems keys search_item ≤ keys.length ∧
      (∀ key ∈ (if lowerBound index.compareItems keys search_item = 0 then none
        else keys[lowerBound index.compareItems keys search_item-1]?), RemDb.compareItems key search_item = .lt) ∧
      (∀ key ∈ keys[lowerBound index.compareItems keys search_item]?, RemDb.compareItems key search_item = .gt) ∧
      ∀ key ∈ keys, RemDb.compareItems key search_item ≠ .eq := by
  rw [compareItems_same] at apart ⊢
  obtain ⟨front,back,rfl,bound,before,behind⟩ := lowerBound_split RemDb.compareItems keys search_item
  rw [bound] at apart ⊢
  have head : (front ++ back)[front.length]? = back.head? := by
    rw [List.getElem?_append_right (Nat.le_refl _),Nat.sub_self,List.head?_eq_getElem?]
  rw [head] at apart ⊢
  have greater : ∀ key ∈ back.head?, RemDb.compareItems key search_item = .gt := by
    intro key first
    have different := apart key first
    have later := behind key first
    cases order : RemDb.compareItems key search_item with
    | lt => exact absurd order later
    | eq => exact absurd order different
    | gt => rfl
  refine ⟨by simp,?_,greater,?_⟩
  · intro key last
    split at last
    · cases last
    · next filled =>
      rw [List.getElem?_append_left (by omega)] at last
      exact before key (List.mem_of_getElem? last)
  · intro key member equal
    rcases List.mem_append.mp member with early | late
    · rw [before key early] at equal
      cases equal
    · obtain ⟨_,sorted,_⟩ := List.pairwise_append.mp sorted
      rw [Ascending.above sorted greater key late] at equal
      cases equal

theorem descend_spelled (search_item : SecondaryIndexItem) (fuel : Nat) {tree : BTree} {node : Nat} (spelled : Spells index tree node)
    (sorted : SortedItems tree.items) (enough : tree.height ≤ fuel) :
    ((∃ item ∈ tree.items, RemDb.compareItems item search_item = .eq) ∧
        index.descend search_item fuel node = some (.ok search_item.record_id)) ∨
      (∀ item ∈ tree.items, RemDb.compareItems item search_item ≠ .eq) ∧
        index.descend search_item fuel node = some (.error .recordNotFound) := by
  induction fuel generalizing tree node with
  | zero =>
    cases tree with
    | leaf keys => cases enough
    | inner first rest => cases enough
  | succ fuel ih =>
    have within := nodeKeys_sublist tree
    rw [descend]
    simp only [findKeyPosition,spells_filled spelled]
    cases here : tree.nodeKeys[lowerBound index.compareItems tree.nodeKeys search_item]?.filter
        fun key => decide (index.compareItems key search_item = .eq) with
    | some key =>
      obtain ⟨there,equal⟩ := Option.filter_eq_some_iff.mp here
      rw [compareItems_plain] at equal
      have equal := of_decide_eq_true equal
      refine .inl ⟨⟨key,within.subset (List.mem_of_getElem? there),equal⟩,?_⟩
      simp only [((compareItems_eq _ _).mp equal).2.2]
    | none =>
      have apart : ∀ key ∈ tree.nodeKeys[lowerBound index.compareItems tree.nodeKeys search_item]?,
          RemDb.compareItems key search_item ≠ .eq := by
        intro key there equal
        rw [Option.mem_def.mp there,Option.filter_eq_none_iff] at here
        refine here key rfl ?_
        rw [compareItems_plain]
        exact decide_eq_true equal
      obtain ⟨bound,before,behind,elsewhere⟩ := position_split (sorted.sublist within) apart
      cases tree with
      | leaf keys =>
        rw [Spells] at spelled
        simp only [spelled.1,if_true]
        exact .inr ⟨elsewhere,trivial⟩
      | inner first rest =>
        rw [Spells] at spelled
        obtain ⟨inner,_,start,onward⟩ := spelled
        obtain ⟨child,kid,below⟩ := spellsFrom_child first rest 0 _ start onward bound
        obtain ⟨front,back,parts,last,head⟩ := childAt_split first rest _ bound
        have items : (BTree.inner first rest).items = first.items ++ rest.items := rfl
        rw [items,parts] at sorted ⊢
        obtain ⟨sorted_front,sorted_rest,_⟩ := List.pairwise_append.mp sorted
        obtain ⟨sorted_child,sorted_back,_⟩ := List.pairwise_append.mp sorted_rest
        have front_less := Ascending.below sorted_front (last.symm ▸ before)
        have back_greater := Ascending.above sorted_back (head.symm ▸ behind)
        have levels : max first.height rest.height ≤ fuel := Nat.le_of_succ_le_succ enough
        rw [Nat.zero_add] at kid
        simp only [inner,Bool.false_eq_true,if_false,BTree.nodeKeys] at kid ⊢
        rw [kid]
        rcases ih below sorted_child (Nat.le_trans (childAt_height first rest _) levels) with
          ⟨⟨item,member,equal⟩,found⟩ | ⟨absent,missed⟩
        · exact .inl ⟨⟨item,List.mem_append_right _ (List.mem_append_left _ member),equal⟩,found⟩
        · refine .inr ⟨?_,missed⟩
          intro item member equal
          rcases List.mem_append.mp member with early | late
          · rw [front_less item early] at equal
            cases equal
          · rcases List.mem_append.mp late with among | late
            · exact absent item among equal
            · rw [back_greater item late] at equal
              cases equal

end Descent

-- `find` answers with an item of the key exactly when there is one.
def FindMeets (index : BTreeIndex) (items : List SecondaryIndexItem) (key : Bytes) : Prop :=
  (∃ item ∈ items, item.key = key ∧ index.find key = some (.ok item.record_id)) ∨
    (∀ item ∈ items, item.key ≠ key) ∧ index.find key = some (.error .recordNotFound)

theorem compare_zero_iff {item : SecondaryIndexItem} {key : Bytes} (padded : item.Padded)
    (short : key.length ≤ SecondaryIndexItem.KEY_LIMIT) :
    RemDb.compareItems item (.ofKey key 0) = .eq ↔ item.key = key ∧ item.record_id = 0 := by
  have same := SecondaryIndexItem.ofKey_key (Nat.le_trans short (by decide)) 0
  rw [compareItems_eq,same]
  constructor
  · rintro ⟨_,keys,records⟩
    exact ⟨keys,records⟩
  · rintro ⟨rfl,records⟩
    exact ⟨padded.size,rfl,records⟩

theorem find_cases {index : BTreeIndex} {items : List SecondaryIndexItem} {key : Bytes} (stores : Stores index items)
    (short : key.length ≤ SecondaryIndexItem.KEY_LIMIT) :
    ((∃ item ∈ items, item.key = key ∧ item.record_id = 0) ∧ index.find key = some (.ok 0)) ∨
      (∀ item ∈ items, item.key = key → item.record_id ≠ 0) ∧ index.find key = some (.error .recordNotFound) := by
  rw [find,if_neg (Nat.not_lt.mpr short)]
  rcases stores with ⟨empty,rfl⟩ | ⟨tree,root,search,rfl⟩
  · rw [empty]
    refine .inr ⟨?_,rfl⟩
    intro item member
    cases member
  · rw [search.rooted]
    rcases descend_spelled (.ofKey key 0) (index.max_nodes+1) search.spelled search.sorted
      (Nat.le_succ_of_le search.levels) with ⟨⟨item,member,equal⟩,found⟩ | ⟨apart,missed⟩
    · exact .inl ⟨⟨item,member,(compare_zero_iff (search.padded item member) short).mp equal⟩,found⟩
    · refine .inr ⟨?_,missed⟩
      intro item member same zero
      exact apart item member ((compare_zero_iff (search.padded item member) short).mpr ⟨same,zero⟩)

-- Exactly when a key that is stored is stored under record 0 as well.
theorem find_complete_iff (index : BTreeIndex) (items : List SecondaryIndexItem) (key : Bytes) (stores : Stores index items)
    (short : key.length ≤ SecondaryIndexItem.KEY_LIMIT) :
    FindMeets index items key ↔
      ((∃ item ∈ items, item.key = key) → ∃ item ∈ items, item.key = key ∧ item.record_id = 0) := by
  rcases find_cases stores short with ⟨⟨item,member,same,zero⟩,found⟩ | ⟨others,missed⟩
  · refine iff_of_true (.inl ⟨item,member,same,?_⟩) fun _ => ⟨item,member,same,zero⟩
    rw [found,zero]
  · constructor
    · rintro (⟨item,member,same,answered⟩ | ⟨absent,_⟩)
      · rw [missed] at answered
        cases answered
      · rintro ⟨item,member,same⟩
        exact absurd same (absent item member)
    · intro zero_too
      refine .inr ⟨?_,missed⟩
      intro item member same
      obtain ⟨other,among,key_same,zero⟩ := zero_too ⟨item,member,same⟩
      exact others other among key_same zero

def oneItem (item : SecondaryIndexItem) : BTreeIndex :=
  {new ⟨0,"",[],[],0,4⟩ none 1 with
    root:=some 0
    nodes:=fun _ => ⟨true,1,[item,.blank,.blank,.blank],List.replicate 5 none⟩
    free_nodes:=[]}

theorem oneItem_stores {item : SecondaryIndexItem} (padded : item.Padded) : Stores (oneItem item) [item] := by
  refine .inr ⟨.leaf [item],0,⟨rfl,⟨rfl,?_,rfl⟩,List.pairwise_singleton _ _,?_,?_⟩,rfl⟩
  · change 1 ≤ 4
    decide
  · intro each member
    cases List.mem_singleton.mp member
    exact padded
  · exact Nat.le_refl 1

theorem find_complete_zero : FindMeets (oneItem (.ofKey [5] 0)) [.ofKey [5] 0] [5] ↔
    ((∃ item ∈ [SecondaryIndexItem.ofKey [5] 0], item.key = [5]) →
      ∃ item ∈ [SecondaryIndexItem.ofKey [5] 0], item.key = [5] ∧ item.record_id = 0) :=
  find_complete_iff (oneItem (.ofKey [5] 0)) _ [5] (oneItem_stores (SortedArray.ofKey_padded (by decide) 0)) (by decide)

-- The key 5 is stored under record 3 and is not found.
theorem find_other_record : Stores (oneItem (.ofKey [5] 3)) [.ofKey [5] 3] ∧
    (oneItem (.ofKey [5] 3)).find [5] = some (.error .recordNotFound) ∧
    ¬FindMeets (oneItem (.ofKey [5] 3)) [.ofKey [5] 3] [5] := by
  have missed : (oneItem (.ofKey [5] 3)).find [5] = some (.error .recordNotFound) := by decide +kernel
  refine ⟨oneItem_stores (SortedArray.ofKey_padded (by decide) 3),missed,?_⟩
  rintro (⟨item,member,same,answered⟩ | ⟨absent,_⟩)
  · rw [missed] at answered
    cases answered
  · exact absent _ List.mem_cons_self (SecondaryIndexItem.ofKey_key (by decide) 3)

end RemDb.BTreeIndex
