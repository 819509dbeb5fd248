import RemDb.Index.BTreeRange
import RemDb.Index.SortedRange

namespace RemDb.BTreeIndex
open RemDb.Lib SortedArray

def BForest.subtreeItems : BForest → List SecondaryIndexItem
  | .nil => []
  | .cons _ tree rest => tree.items ++ rest.subtreeItems

section Shapes
variable (start_key end_key : Bytes)

abbrev Before (item : SecondaryIndexItem) : Prop := RemDb.compareItems item (.ofKey start_key 0) = .lt

-- An item that the walk lets pass at the end of the range; of the end key itself
-- that is the one of record 0.
abbrev Near (item : SecondaryIndexItem) : Prop := RemDb.compareItems item (.ofKey end_key 0) ≠ .gt

def UpTo (item : SecondaryIndexItem) : Prop := (keyOrder item.key end_key).isLE

def BTree.Beyond : BTree → Prop
  | .leaf keys => ∀ key ∈ keys.head?, ¬Near end_key key
  | .inner first rest => (∀ key ∈ rest.keys.head?, ¬Near end_key key) ∧ first.Beyond

-- What is in range stands in the nodes from here down to the left.
def BTree.Spined : BTree → Prop
  | .leaf keys => ∀ key ∈ keys, UpTo end_key key → Near end_key key
  | .inner first rest => (∀ key ∈ rest.keys, UpTo end_key key → Near end_key key) ∧ first.Spined ∧
      ∀ item ∈ rest.subtreeItems, ¬UpTo end_key item

-- Of the children behind the path only the last has items in range.
def BForest.Behind : BForest → Prop
  | .nil => True
  | .cons _ tree .nil => tree.Spined end_key
  | .cons _ tree (.cons key next rest) =>
    (∀ item ∈ tree.items, ¬UpTo end_key item) ∧ (BForest.cons key next rest).Behind

-- Along the path the keys in range do not go by the record of the end, and what
-- is in range beside the path is where the walk looks for it.
mutual
def BTree.Covered : BTree → Prop
  | .leaf keys => ∀ key ∈ keys, inRange start_key end_key key = true → Near end_key key
  | .inner first rest => (∀ key ∈ rest.keys, inRange start_key end_key key = true → Near end_key key) ∧
      rest.CoveredFrom first.Covered (first.Beyond end_key)

def BForest.CoveredFrom : BForest → Prop → Prop → Prop
  | .nil, here, beyond => here ∧ beyond
  | .cons key tree rest, here, _ =>
    if Before start_key key then rest.CoveredFrom tree.Covered (tree.Beyond end_key)
    else here ∧ (BForest.cons key tree rest).Behind end_key
end

end Shapes

section Facts
variable {start_key end_key : Bytes} {item : SecondaryIndexItem}

theorem inRange_iff (padded : item.Padded) (short : start_key.length ≤ SecondaryIndexItem.KEY_DATA) :
    inRange start_key end_key item = true ↔ ¬Before start_key item ∧ UpTo end_key item := by
  rw [inRange,Bool.and_eq_true_iff,Before,compare_start padded short,UpTo]
  refine and_congr_left' ?_
  constructor
  · intro reached less
    rw [Std.OrientedCmp.gt_of_lt less] at reached
    cases reached
  · intro later
    apply Std.OrientedCmp.isLE_of_isGE
    cases order : keyOrder item.key start_key with
    | lt => exact absurd order later
    | eq => rfl
    | gt => rfl

theorem Near.upTo (padded : item.Padded) (short : end_key.length ≤ SecondaryIndexItem.KEY_DATA)
    (near : Near end_key item) : UpTo end_key item := by
  rw [Near,padded.compare_ofKey short] at near
  rw [UpTo]
  cases order : keyOrder item.key end_key with
  | lt => rfl
  | eq => rfl
  | gt =>
    rw [order] at near
    exact absurd rfl near

end Facts

theorem items_perm : ∀ (rest : BForest), rest.items.Perm (rest.keys ++ rest.subtreeItems)
  | .nil => List.Perm.nil
  | .cons key tree rest => by
    rw [BForest.items,BForest.keys,BForest.subtreeItems,List.cons_append]
    refine List.Perm.cons key ?_
    have below := (items_perm rest).append_left tree.items
    refine below.trans ?_
    rw [← List.append_assoc,← List.append_assoc]
    exact List.perm_append_comm.append_right _

theorem subtreeItems_sublist : ∀ (rest : BForest), rest.subtreeItems.Sublist rest.items
  | .nil => List.Sublist.slnil
  | .cons key tree rest => by
    rw [BForest.items,BForest.subtreeItems]
    exact ((List.Sublist.refl tree.items).append (subtreeItems_sublist rest)).cons key

theorem childAt_sublist : ∀ (first : BTree) (rest : BForest),
    (childAt first rest rest.keys.length).items.Sublist (first.items ++ rest.subtreeItems)
  | first, .nil => by
    rw [BForest.keys,List.length_nil,childAt]
    exact List.sublist_append_left _ _
  | first, .cons key tree rest => by
    rw [BForest.keys,List.length_cons,childAt,BForest.subtreeItems]
    exact (childAt_sublist tree rest).trans (List.sublist_append_right _ _)

section Parts
variable (start_item end_item : SecondaryIndexItem)

theorem spine_subperm : ∀ (tree : BTree), (tree.spine end_item).Subperm tree.items
  | .leaf keys => (List.takeWhile_sublist _).subperm
  | .inner first rest => by
    rw [BTree.spine,BTree.items]
    have keys := ((List.takeWhile_sublist fun key => decide (RemDb.compareItems key end_item ≠ .gt)).trans
      (keys_sublist rest)).subperm
    exact (keys.append (spine_subperm first)).trans List.perm_append_comm.subperm

theorem mem_spine {tree : BTree} {item : SecondaryIndexItem} (taken : item ∈ tree.spine end_item) : item ∈ tree.items :=
  (spine_subperm end_item tree).subset taken

theorem within_subset (keys : List SecondaryIndexItem) : ∀ item ∈ within start_item end_item keys, item ∈ keys := by
  intro item taken
  exact List.mem_of_mem_drop (List.mem_filter.mp taken).1

end Parts

theorem takeWhile_near (end_item : SecondaryIndexItem) {keys : List SecondaryIndexItem} (sorted : SortedItems keys) :
    keys.takeWhile (fun key => decide (RemDb.compareItems key end_item ≠ .gt)) =
      keys.filter fun key => decide (RemDb.compareItems key end_item ≠ .gt) := by
  have ordered : keys.Pairwise fun left right => (RemDb.compareItems left right).isLE := sorted
  refine (filter_takeWhile (ordered.imp ?_)).symm
  intro left right less near
  refine decide_eq_true fun beyond => of_decide_eq_true near ?_
  exact Std.TransCmp.gt_of_isGE_of_gt (Std.OrientedCmp.isGE_of_isLE less) beyond

theorem within_eq {start_item end_item : SecondaryIndexItem} {keys : List SecondaryIndexItem} (sorted : SortedItems keys) :
    within start_item end_item keys = keys.filter fun key =>
      decide (RemDb.compareItems key start_item ≠ .lt ∧ RemDb.compareItems key end_item ≠ .gt) := by
  obtain ⟨front,back,rfl,bound,before,behind⟩ := lowerBound_split RemDb.compareItems keys start_item
  have sorted_back : SortedItems back := (List.pairwise_append.mp sorted).2.1
  have later : ∀ key ∈ back, RemDb.compareItems key start_item ≠ .lt := by
    intro key member early
    cases back with
    | nil => cases member
    | cons lead rest =>
      have first := behind lead rfl
      rcases List.mem_cons.mp member with rfl | among
      · exact first early
      · exact first (Std.TransCmp.lt_of_isLE_of_lt (List.rel_of_pairwise_cons sorted_back among) early)
  rw [within,bound,List.drop_left,List.filter_append]
  have none_early : front.filter (fun key =>
      decide (RemDb.compareItems key start_item ≠ .lt ∧ RemDb.compareItems key end_item ≠ .gt)) = [] := by
    refine List.filter_eq_nil_iff.mpr ?_
    intro key member kept
    exact (of_decide_eq_true kept).1 (before key member)
  rw [none_early,List.nil_append]
  refine List.filter_congr ?_
  intro key member
  simp [later key member]

section Spines
variable {end_key : Bytes}

theorem spine_nil_iff : ∀ (tree : BTree), tree.spine (.ofKey end_key 0) = [] ↔ tree.Beyond end_key
  | .leaf keys => by
    rw [BTree.spine,BTree.Beyond]
    cases keys with
    | nil => simp
    | cons key rest => simp [Near,List.takeWhile_cons]
  | .inner first rest => by
    rw [BTree.spine,BTree.Beyond,List.append_eq_nil_iff,spine_nil_iff first]
    refine and_congr_left' ?_
    cases rest.keys with
    | nil => simp
    | cons key rest => simp [Near,List.takeWhile_cons]

variable (short : end_key.length ≤ SecondaryIndexItem.KEY_DATA)
include short

theorem spined_perm : ∀ (tree : BTree), SortedItems tree.items → (∀ item ∈ tree.items, item.Padded) →
    tree.Spined end_key →
    (tree.spine (.ofKey end_key 0)).Perm (tree.items.filter fun item => (keyOrder item.key end_key).isLE)
  | .leaf keys, sorted, padded, spined => by
    rw [BTree.items] at sorted padded ⊢
    rw [BTree.spine,takeWhile_near _ sorted]
    refine .of_eq (List.filter_congr ?_)
    intro key member
    rw [Bool.eq_iff_iff,decide_eq_true_iff]
    exact ⟨Near.upTo (padded key member) short,spined key member⟩
  | .inner first rest, sorted, padded, spined => by
    rw [BTree.Spined] at spined
    obtain ⟨keys,spined,none_below⟩ := spined
    rw [BTree.items] at sorted padded ⊢
    obtain ⟨sorted_first,sorted_rest,_⟩ := List.pairwise_append.mp sorted
    have padded_keys : ∀ key ∈ rest.keys, key.Padded := fun key member =>
      padded key (List.mem_append_right _ ((keys_sublist rest).subset member))
    have own := spined_perm first sorted_first (fun item member => padded item (List.mem_append_left _ member)) spined
    have kept : (rest.keys.filter fun key => decide (RemDb.compareItems key (.ofKey end_key 0) ≠ .gt)) =
        rest.keys.filter fun item => (keyOrder item.key end_key).isLE := by
      refine List.filter_congr ?_
      intro key member
      rw [Bool.eq_iff_iff,decide_eq_true_iff]
      exact ⟨Near.upTo (padded_keys key member) short,keys key member⟩
    have others : (rest.items.filter fun item => (keyOrder item.key end_key).isLE).Perm
        (rest.keys.filter fun item => (keyOrder item.key end_key).isLE) := by
      have parts := (items_perm rest).filter fun item => (keyOrder item.key end_key).isLE
      have nothing : (rest.subtreeItems.filter fun item => (keyOrder item.key end_key).isLE) = [] :=
        List.filter_eq_nil_iff.mpr none_below
      rw [List.filter_append,nothing,List.append_nil] at parts
      exact parts
    rw [BTree.spine,takeWhile_near _ (sorted_rest.sublist (keys_sublist rest)),kept,List.filter_append]
    exact (others.symm.append own).trans List.perm_append_comm

theorem behind_perm : ∀ (tree : BTree) (rest : BForest) (key : SecondaryIndexItem),
    SortedItems (tree.items ++ rest.items) → (∀ item ∈ tree.items ++ rest.items, item.Padded) →
    (BForest.cons key tree rest).Behind end_key →
    ((childAt tree rest rest.keys.length).spine (.ofKey end_key 0)).Perm
      ((tree.items ++ rest.subtreeItems).filter fun item => (keyOrder item.key end_key).isLE)
  | tree, .nil, _, sorted, padded, behind => by
    rw [BForest.items,List.append_nil] at sorted padded
    rw [BForest.Behind] at behind
    rw [BForest.keys,List.length_nil,childAt,BForest.subtreeItems,List.append_nil]
    exact spined_perm short tree sorted padded behind
  | tree, .cons key next rest, _, sorted, padded, behind => by
    rw [BForest.Behind] at behind
    have nothing : (tree.items.filter fun item => (keyOrder item.key end_key).isLE) = [] :=
      List.filter_eq_nil_iff.mpr behind.1
    have inner : (next.items ++ rest.items).Sublist (tree.items ++ (BForest.cons key next rest).items) := by
      rw [BForest.items]
      exact (List.sublist_cons_self key _).trans (List.sublist_append_right _ _)
    have later := behind_perm next rest key (sorted.sublist inner) (fun item member => padded item (inner.subset member))
      behind.2
    rw [BForest.keys,List.length_cons,childAt,BForest.subtreeItems,List.filter_append,nothing,List.nil_append]
    exact later

end Spines

theorem perm_rotate (left middle right : List SecondaryIndexItem) :
    (left ++ (middle ++ right)).Perm (middle ++ (left ++ right)) := by
  rw [← List.append_assoc,← List.append_assoc]
  exact List.perm_append_comm.append_right right

section Exactness
variable {start_key end_key : Bytes}

theorem before_of_key {front back : List SecondaryIndexItem} {key : SecondaryIndexItem}
    (sorted : SortedItems (front ++ key :: back)) (less : Before start_key key) :
    ∀ item ∈ front, Before start_key item := by
  intro item member
  have ordered := (List.pairwise_append.mp sorted).2.2 item member key List.mem_cons_self
  exact Std.TransCmp.lt_of_isLE_of_lt ordered less

theorem late_of_key {front back : List SecondaryIndexItem} {key : SecondaryIndexItem}
    (sorted : SortedItems (front ++ key :: back)) (late : ¬Before start_key key) :
    ∀ item ∈ back, ¬Before start_key item := by
  intro item member early
  have ordered := List.rel_of_pairwise_cons (List.pairwise_append.mp sorted).2.1 member
  exact late (Std.TransCmp.lt_of_isLE_of_lt ordered early)

variable (short : start_key.length ≤ SecondaryIndexItem.KEY_DATA)
  (short' : end_key.length ≤ SecondaryIndexItem.KEY_DATA)
include short

theorem filter_upTo (end_key : Bytes) {items : List SecondaryIndexItem} (padded : ∀ item ∈ items, item.Padded)
    (late : ∀ item ∈ items, ¬Before start_key item) :
    items.filter (inRange start_key end_key) = items.filter fun item => (keyOrder item.key end_key).isLE := by
  refine List.filter_congr ?_
  intro item member
  rw [Bool.eq_iff_iff,inRange_iff (padded item member) short,and_iff_right (late item member)]
  rfl

theorem filter_before (end_key : Bytes) {items : List SecondaryIndexItem} (padded : ∀ item ∈ items, item.Padded)
    (early : ∀ item ∈ items, Before start_key item) : items.filter (inRange start_key end_key) = [] := by
  refine List.filter_eq_nil_iff.mpr ?_
  intro item member within
  exact ((inRange_iff (padded item member) short).mp within).1 (early item member)

include short'

theorem within_inRange {keys : List SecondaryIndexItem} (sorted : SortedItems keys) (padded : ∀ key ∈ keys, key.Padded)
    (near : ∀ key ∈ keys, inRange start_key end_key key = true → Near end_key key) :
    within (.ofKey start_key 0) (.ofKey end_key 0) keys = keys.filter (inRange start_key end_key) := by
  rw [within_eq sorted]
  refine List.filter_congr ?_
  intro key member
  rw [Bool.eq_iff_iff,decide_eq_true_iff,inRange_iff (padded key member) short]
  constructor
  · rintro ⟨late,close⟩
    exact ⟨late,Near.upTo (padded key member) short' close⟩
  · rintro ⟨late,upTo⟩
    exact ⟨late,near key member ((inRange_iff (padded key member) short).mpr ⟨late,upTo⟩)⟩

mutual
theorem covered_perm : ∀ (tree : BTree), SortedItems tree.items → (∀ item ∈ tree.items, item.Padded) →
    tree.Covered start_key end_key →
    (tree.reached (.ofKey start_key 0) (.ofKey end_key 0)).Perm (tree.items.filter (inRange start_key end_key))
  | .leaf keys, sorted, padded, covered => by
    rw [BTree.items] at sorted padded ⊢
    rw [BTree.Covered] at covered
    rw [BTree.reached,BTree.own,BTree.nodeKeys,BTree.lastSpine,List.append_nil,
      within_inRange short short' sorted padded covered]
  | .inner first rest, sorted, padded, covered => by
    rw [BTree.Covered] at covered
    rw [BTree.items] at sorted padded ⊢
    have sorted_keys := (List.pairwise_append.mp sorted).2.1.sublist (keys_sublist rest)
    have padded_keys : ∀ key ∈ rest.keys, key.Padded := fun key member =>
      padded key (List.mem_append_right _ ((keys_sublist rest).subset member))
    have sorted_first := (List.pairwise_append.mp sorted).1
    have below := covered_from_perm first rest sorted padded
      (covered_perm first sorted_first fun item member => padded item (List.mem_append_left _ member)) covered.2
    have keys := within_inRange short short' sorted_keys padded_keys covered.1
    have parts : (first.items ++ rest.items).Perm (rest.keys ++ (first.items ++ rest.subtreeItems)) :=
      ((items_perm rest).append_left first.items).trans (perm_rotate _ _ _)
    have whole := parts.filter (inRange start_key end_key)
    rw [List.filter_append rest.keys] at whole
    rw [BTree.reached,BTree.own,BTree.nodeKeys,BTree.lastSpine,keys]
    exact (perm_rotate _ _ _).trans ((below.append_left _).trans whole.symm)

theorem covered_from_perm : ∀ (first : BTree) (rest : BForest), SortedItems (first.items ++ rest.items) →
    (∀ item ∈ first.items ++ rest.items, item.Padded) →
    (first.Covered start_key end_key →
      (first.reached (.ofKey start_key 0) (.ofKey end_key 0)).Perm (first.items.filter (inRange start_key end_key))) →
    rest.CoveredFrom start_key end_key (first.Covered start_key end_key) (first.Beyond end_key) →
    (rest.reachedFrom (.ofKey start_key 0) (.ofKey end_key 0) (first.reached (.ofKey start_key 0) (.ofKey end_key 0)) ++
      (childAt first rest rest.keys.length).spine (.ofKey end_key 0)).Perm
      ((first.items ++ rest.subtreeItems).filter (inRange start_key end_key))
  | first, .nil, _, _, own, covered => by
    rw [BForest.CoveredFrom] at covered
    rw [BForest.reachedFrom,BForest.keys,List.length_nil,childAt,(spine_nil_iff first).mpr covered.2,
      BForest.subtreeItems,List.append_nil,List.append_nil]
    exact own covered.1
  | first, .cons key tree rest, sorted, padded, own, covered => by
    rw [BForest.CoveredFrom] at covered
    rw [BForest.items] at sorted padded
    have inner : (tree.items ++ rest.items).Sublist (first.items ++ key :: (tree.items ++ rest.items)) :=
      (List.sublist_cons_self key _).trans (List.sublist_append_right _ _)
    have sorted_inner := sorted.sublist inner
    have padded_inner : ∀ item ∈ tree.items ++ rest.items, item.Padded := fun item member => padded item (inner.subset member)
    have padded_first : ∀ item ∈ first.items, item.Padded := fun item member => padded item (List.mem_append_left _ member)
    rw [BForest.reachedFrom,BForest.keys,List.length_cons,childAt,BForest.subtreeItems,List.filter_append]
    by_cases less : Before start_key key
    · rw [if_pos less] at covered
      have nothing := filter_before short end_key padded_first (before_of_key sorted less)
      rw [if_pos less,nothing,List.nil_append]
      exact covered_from_perm tree rest sorted_inner padded_inner
        (covered_perm tree (List.pairwise_append.mp sorted_inner).1
          fun item member => padded_inner item (List.mem_append_left _ member)) covered
    · rw [if_neg less] at covered
      have among : (tree.items ++ rest.subtreeItems).Sublist (tree.items ++ rest.items) :=
        (List.Sublist.refl tree.items).append (subtreeItems_sublist rest)
      have upTo := filter_upTo short end_key (fun item member => padded_inner item (among.subset member))
        fun item member => late_of_key sorted less item (among.subset member)
      have behind := behind_perm short' tree rest key sorted_inner padded_inner covered.2
      rw [if_neg less,upTo]
      exact (own covered.1).append behind
end

end Exactness

section Members
variable (start_item end_item : SecondaryIndexItem)

mutual
theorem mem_reached : ∀ (tree : BTree), ∀ item ∈ tree.reached start_item end_item, item ∈ tree.items
  | .leaf keys => by
    intro item taken
    rw [BTree.reached,BTree.own,BTree.lastSpine,List.append_nil] at taken
    exact within_subset start_item end_item keys item taken
  | .inner first rest => by
    intro item taken
    rw [BTree.reached,BTree.own,BTree.nodeKeys,BTree.lastSpine] at taken
    have below : ∀ each ∈ first.items ++ rest.subtreeItems, each ∈ (BTree.inner first rest).items :=
      ((List.Sublist.refl first.items).append (subtreeItems_sublist rest)).subset
    rcases List.mem_append.mp taken with path | own
    · exact below item (mem_reachedFrom first rest (mem_reached first) item path)
    · rcases List.mem_append.mp own with key | last
      · exact List.mem_append_right _ ((keys_sublist rest).subset (within_subset start_item end_item _ item key))
      · exact below item ((childAt_sublist first rest).subset (mem_spine end_item last))

theorem mem_reachedFrom : ∀ (first : BTree) (rest : BForest),
    (∀ item ∈ first.reached start_item end_item, item ∈ first.items) →
    ∀ item ∈ rest.reachedFrom start_item end_item (first.reached start_item end_item), item ∈ first.items ++ rest.subtreeItems
  | first, .nil, own => by
    intro item taken
    rw [BForest.reachedFrom] at taken
    exact List.mem_append_left _ (own item taken)
  | first, .cons key tree rest, own => by
    intro item taken
    rw [BForest.reachedFrom] at taken
    split at taken
    · exact List.mem_append_right _ (mem_reachedFrom tree rest (mem_reached tree) item taken)
    · exact List.mem_append_left _ (own item taken)
end

end Members

section Necessity
variable {start_key end_key : Bytes}

theorem near_of_takeWhile {keys : List SecondaryIndexItem} {item : SecondaryIndexItem}
    (taken : item ∈ keys.takeWhile fun key => decide (RemDb.compareItems key (.ofKey end_key 0) ≠ .gt)) :
    item ∈ keys ∧ Near end_key item := by
  have near := List.mem_takeWhile_imp taken
  exact ⟨(List.takeWhile_sublist _).subset taken,of_decide_eq_true near⟩

-- What the walk would take below a last child it takes on the path too, unless it
-- is before the range.
theorem spine_reached : ∀ (tree : BTree), SortedItems tree.items →
    ∀ item ∈ tree.spine (.ofKey end_key 0), ¬Before start_key item →
      item ∈ tree.reached (.ofKey start_key 0) (.ofKey end_key 0)
  | .leaf keys, sorted => by
    intro item taken late
    rw [BTree.items] at sorted
    rw [BTree.spine] at taken
    rw [BTree.reached,BTree.own,BTree.nodeKeys,BTree.lastSpine,List.append_nil,within_eq sorted]
    obtain ⟨inside,near⟩ := near_of_takeWhile taken
    exact List.mem_filter.mpr ⟨inside,decide_eq_true ⟨late,near⟩⟩
  | .inner first rest, sorted => by
    intro item taken late
    rw [BTree.items] at sorted
    have sorted_keys := (List.pairwise_append.mp sorted).2.1.sublist (keys_sublist rest)
    rw [BTree.spine] at taken
    rw [BTree.reached]
    rcases List.mem_append.mp taken with key | left
    · obtain ⟨inside,near⟩ := near_of_takeWhile key
      rw [BTree.own,BTree.nodeKeys,within_eq sorted_keys]
      exact List.mem_append_right _ (List.mem_append_left _ (List.mem_filter.mpr ⟨inside,decide_eq_true ⟨late,near⟩⟩))
    · have own := spine_reached first (List.pairwise_append.mp sorted).1 item left late
      refine List.mem_append_left _ ?_
      cases rest with
      | nil => exact own
      | cons key tree rest =>
        rw [BForest.items] at sorted
        have behind : ¬Before start_key key := by
          intro less
          exact late (before_of_key sorted less item (mem_spine _ left))
        rw [BForest.reachedFrom,if_neg behind]
        exact own

theorem spined_of_mem : ∀ (tree : BTree), tree.items.Nodup →
    (∀ item ∈ tree.items, UpTo end_key item → item ∈ tree.spine (.ofKey end_key 0)) → tree.Spined end_key
  | .leaf keys, _, found => by
    rw [BTree.Spined]
    intro key member upTo
    have taken := found key member upTo
    rw [BTree.spine] at taken
    exact (near_of_takeWhile taken).2
  | .inner first rest, distinct, found => by
    rw [BTree.items] at distinct found
    rw [BTree.spine] at found
    obtain ⟨distinct_first,distinct_rest,apart⟩ := List.nodup_append.mp distinct
    have parts := (items_perm rest).nodup_iff.mp distinct_rest
    have sub := (subtreeItems_sublist rest).subset
    rw [BTree.Spined]
    refine ⟨?_,spined_of_mem first distinct_first ?_,?_⟩
    · intro key member upTo
      have inside := (keys_sublist rest).subset member
      rcases List.mem_append.mp (found key (List.mem_append_right _ inside) upTo) with taken | left
      · exact (near_of_takeWhile taken).2
      · exact absurd rfl (apart key (mem_spine _ left) key inside)
    · intro item member upTo
      rcases List.mem_append.mp (found item (List.mem_append_left _ member) upTo) with taken | left
      · have inside := (keys_sublist rest).subset (near_of_takeWhile taken).1
        exact absurd rfl (apart item member item inside)
      · exact left
    · intro item member upTo
      rcases List.mem_append.mp (found item (List.mem_append_right _ (sub member)) upTo) with taken | left
      · have key := (near_of_takeWhile taken).1
        exact absurd rfl ((List.nodup_append.mp parts).2.2 item key item member)
      · exact absurd rfl (apart item (mem_spine _ left) item (sub member))

theorem behind_of_mem : ∀ (tree : BTree) (rest : BForest) (key : SecondaryIndexItem), (tree.items ++ rest.items).Nodup →
    (∀ item ∈ tree.items ++ rest.subtreeItems, UpTo end_key item →
      item ∈ (childAt tree rest rest.keys.length).spine (.ofKey end_key 0)) →
    (BForest.cons key tree rest).Behind end_key
  | tree, .nil, _, distinct, found => by
    rw [BForest.items,List.append_nil] at distinct
    rw [BForest.keys,List.length_nil,childAt,BForest.subtreeItems,List.append_nil] at found
    rw [BForest.Behind]
    exact spined_of_mem tree distinct found
  | tree, .cons key next rest, _, distinct, found => by
    rw [BForest.keys,List.length_cons,childAt,BForest.subtreeItems] at found
    rw [BForest.items] at distinct
    have inner : (next.items ++ rest.items).Sublist (key :: (next.items ++ rest.items)) := List.sublist_cons_self key _
    have among : (next.items ++ rest.subtreeItems).Sublist (next.items ++ rest.items) :=
      (List.Sublist.refl next.items).append (subtreeItems_sublist rest)
    obtain ⟨_,distinct_rest,apart⟩ := List.nodup_append.mp distinct
    rw [BForest.Behind]
    refine ⟨?_,behind_of_mem next rest key (distinct_rest.sublist inner) ?_⟩
    · intro item member upTo
      have taken := found item (List.mem_append_left _ member) upTo
      have elsewhere := inner.subset (among.subset ((childAt_sublist next rest).subset (mem_spine _ taken)))
      exact absurd rfl (apart item member item elsewhere)
    · intro item member upTo
      exact found item (List.mem_append_right _ member) upTo

-- What is taken is the items in range, each once.
structure Exact (start_key end_key : Bytes) (taken items : List SecondaryIndexItem) : Prop where
  once : taken.Nodup
  ranged : ∀ item ∈ taken, inRange start_key end_key item = true
  complete : ∀ item ∈ items, inRange start_key end_key item = true → item ∈ taken

mutual
theorem covered_of_exact (short : start_key.length ≤ SecondaryIndexItem.KEY_DATA) :
    ∀ (tree : BTree), SortedItems tree.items → (∀ item ∈ tree.items, item.Padded) →
    tree.items.Nodup → Exact start_key end_key (tree.reached (.ofKey start_key 0) (.ofKey end_key 0)) tree.items →
    tree.Covered start_key end_key
  | .leaf keys, sorted, _, _, exact_walk => by
    rw [BTree.items] at sorted exact_walk
    rw [BTree.reached,BTree.own,BTree.nodeKeys,BTree.lastSpine,List.append_nil,within_eq sorted] at exact_walk
    rw [BTree.Covered]
    intro key member within
    have taken := exact_walk.complete key member within
    exact (of_decide_eq_true (List.mem_filter.mp taken).2).2
  | .inner first rest, sorted, padded, distinct, exact_walk => by
    rw [BTree.items] at sorted padded distinct exact_walk
    rw [BTree.reached,BTree.own,BTree.nodeKeys,BTree.lastSpine] at exact_walk
    obtain ⟨sorted_first,sorted_rest,_⟩ := List.pairwise_append.mp sorted
    have sorted_keys : SortedItems rest.keys := sorted_rest.sublist (keys_sublist rest)
    obtain ⟨distinct_first,distinct_rest,apart⟩ := List.nodup_append.mp distinct
    have parts := List.nodup_append.mp ((items_perm rest).nodup_iff.mp distinct_rest)
    have among : ∀ item ∈ first.items ++ rest.subtreeItems, item ∈ first.items ++ rest.items :=
      ((List.Sublist.refl first.items).append (subtreeItems_sublist rest)).subset
    -- no key of the node is an item of a subtree
    have beside : ∀ item ∈ first.items ++ rest.subtreeItems, item ∉ rest.keys := by
      intro item member key
      rcases List.mem_append.mp member with early | late
      · exact absurd rfl (apart item early item ((keys_sublist rest).subset key))
      · exact absurd rfl (parts.2.2 item key item late)
    have path_below := mem_reachedFrom (.ofKey start_key 0) (.ofKey end_key 0) first rest
      (mem_reached (.ofKey start_key 0) (.ofKey end_key 0) first)
    have last_below : ∀ item ∈ (childAt first rest rest.keys.length).spine (.ofKey end_key 0),
        item ∈ first.items ++ rest.subtreeItems := fun item taken =>
      (childAt_sublist first rest).subset (mem_spine _ taken)
    have once := (perm_rotate _ _ _).nodup_iff.mp exact_walk.once
    rw [BTree.Covered]
    refine ⟨?_,coveredFrom_of_exact short first rest sorted padded distinct
      (covered_of_exact short first sorted_first (fun item member => padded item (List.mem_append_left _ member)) distinct_first)
      ⟨(List.nodup_append.mp once).2.1,?_,?_⟩⟩
    · intro key member within
      rcases List.mem_append.mp (exact_walk.complete key (List.mem_append_right _ ((keys_sublist rest).subset member))
        within) with path | own
      · exact absurd member (beside key (path_below key path))
      · rcases List.mem_append.mp own with taken | last
        · rw [within_eq sorted_keys] at taken
          exact (of_decide_eq_true (List.mem_filter.mp taken).2).2
        · exact absurd member (beside key (last_below key last))
    · intro item taken
      refine exact_walk.ranged item ?_
      rcases List.mem_append.mp taken with path | last
      · exact List.mem_append_left _ path
      · exact List.mem_append_right _ (List.mem_append_right _ last)
    · intro item member within
      rcases List.mem_append.mp (exact_walk.complete item (among item member) within) with path | own
      · exact List.mem_append_left _ path
      · rcases List.mem_append.mp own with taken | last
        · exact absurd (within_subset _ _ _ item taken) (beside item member)
        · exact List.mem_append_right _ last

theorem coveredFrom_of_exact (short : start_key.length ≤ SecondaryIndexItem.KEY_DATA) :
    ∀ (first : BTree) (rest : BForest), SortedItems (first.items ++ rest.items) →
    (∀ item ∈ first.items ++ rest.items, item.Padded) → (first.items ++ rest.items).Nodup →
    (Exact start_key end_key (first.reached (.ofKey start_key 0) (.ofKey end_key 0)) first.items →
      first.Covered start_key end_key) →
    Exact start_key end_key (rest.reachedFrom (.ofKey start_key 0) (.ofKey end_key 0)
        (first.reached (.ofKey start_key 0) (.ofKey end_key 0)) ++
      (childAt first rest rest.keys.length).spine (.ofKey end_key 0)) (first.items ++ rest.subtreeItems) →
    rest.CoveredFrom start_key end_key (first.Covered start_key end_key) (first.Beyond end_key)
  | first, .nil, sorted, padded, _, own, exact_walk => by
    rw [BForest.items,List.append_nil] at sorted padded
    rw [BForest.reachedFrom,BForest.keys,List.length_nil,childAt,BForest.subtreeItems,List.append_nil] at exact_walk
    rw [BForest.CoveredFrom]
    have nothing : first.spine (.ofKey end_key 0) = [] := by
      refine List.eq_nil_iff_forall_not_mem.mpr ?_
      intro item left
      have within := exact_walk.ranged item (List.mem_append_right _ left)
      have late := ((inRange_iff (padded item (mem_spine _ left)) short).mp within).1
      have again := spine_reached first sorted item left late
      exact absurd rfl ((List.nodup_append.mp exact_walk.once).2.2 item again item left)
    rw [nothing,List.append_nil] at exact_walk
    exact ⟨own exact_walk,(spine_nil_iff first).mp nothing⟩
  | first, .cons key tree rest, sorted, padded, distinct, own, exact_walk => by
    rw [BForest.items] at sorted padded distinct
    rw [BForest.reachedFrom,BForest.keys,List.length_cons,childAt,BForest.subtreeItems] at exact_walk
    have inner : (tree.items ++ rest.items).Sublist (first.items ++ key :: (tree.items ++ rest.items)) :=
      (List.sublist_cons_self key _).trans (List.sublist_append_right _ _)
    have padded_inner : ∀ item ∈ tree.items ++ rest.items, item.Padded := fun item member => padded item (inner.subset member)
    have sorted_inner : SortedItems (tree.items ++ rest.items) := sorted.sublist inner
    have distinct_inner := distinct.sublist inner
    have among : (tree.items ++ rest.subtreeItems).Sublist (tree.items ++ rest.items) :=
      (List.Sublist.refl tree.items).append (subtreeItems_sublist rest)
    rw [BForest.CoveredFrom]
    by_cases less : Before start_key key
    · rw [if_pos less] at exact_walk ⊢
      refine coveredFrom_of_exact short tree rest sorted_inner padded_inner distinct_inner
        (covered_of_exact short tree (List.pairwise_append.mp sorted_inner).1
          (fun item member => padded_inner item (List.mem_append_left _ member)) (List.nodup_append.mp distinct_inner).1)
        ⟨exact_walk.once,exact_walk.ranged,?_⟩
      intro item member within
      exact exact_walk.complete item (List.mem_append_right _ member) within
    · rw [if_neg less] at exact_walk ⊢
      obtain ⟨_,_,apart⟩ := List.nodup_append.mp distinct
      have last_below : ∀ item ∈ (childAt tree rest rest.keys.length).spine (.ofKey end_key 0),
          item ∈ tree.items ++ rest.items := fun item taken =>
        among.subset ((childAt_sublist tree rest).subset (mem_spine _ taken))
      refine ⟨own ⟨(List.nodup_append.mp exact_walk.once).1,fun item taken => exact_walk.ranged item
        (List.mem_append_left _ taken),?_⟩,behind_of_mem tree rest key distinct_inner ?_⟩
      · intro item member within
        rcases List.mem_append.mp (exact_walk.complete item (List.mem_append_left _ member) within) with path | last
        · exact path
        · exact absurd rfl (apart item member item (List.mem_cons_of_mem _ (last_below item last)))
      · intro item member upTo
        have inside := among.subset member
        have late := late_of_key sorted less item inside
        have within := (inRange_iff (padded_inner item inside) short).mpr ⟨late,upTo⟩
        rcases List.mem_append.mp (exact_walk.complete item (List.mem_append_right _ member) within) with path | last
        · have early := mem_reached _ _ first item path
          exact absurd rfl (apart item early item (List.mem_cons_of_mem _ inside))
        · exact last
end

end Necessity

-- With room for all items the ids are those of the range, each as often as it is there.
def FindsAll (index : BTreeIndex) (items : List SecondaryIndexItem) (start_key end_key : Bytes) : Prop :=
  ∀ max_records, items.length ≤ max_records → ∃ record_ids,
    index.findRangeAll start_key end_key true max_records = some (.ok record_ids) ∧
      record_ids.Perm ((items.filter (inRange start_key end_key)).map (·.record_id))

def FindsOne (index : BTreeIndex) (items : List SecondaryIndexItem) (start_key end_key : Bytes) : Prop :=
  (∃ record_id, index.findRange start_key end_key = some (.ok record_id)) ↔
    ∃ item ∈ items, inRange start_key end_key item = true

-- The keys fit into an item, and the tree has its items in range where the walk
-- goes.
def Walkable (tree : BTree) (start_key end_key : Bytes) : Prop :=
  start_key.length ≤ SecondaryIndexItem.KEY_DATA ∧ end_key.length ≤ SecondaryIndexItem.KEY_DATA ∧
    tree.Covered start_key end_key

section Ranges
variable {index : BTreeIndex} {tree : BTree} {start_key end_key : Bytes}

theorem Grown.items (grown : Grown index tree) : SortedItems tree.items ∧ ∀ item ∈ tree.items, item.Padded := by
  rcases grown with ⟨_,rfl⟩ | ⟨root,search⟩
  · refine ⟨List.Pairwise.nil,?_⟩
    intro item member
    cases member
  · exact ⟨search.sorted,search.padded⟩

theorem findsOne_of_perm (grown : Grown index tree) (flat : tree.height ≤ STACK)
    (short : start_key.length ≤ SecondaryIndexItem.KEY_DATA ∧ end_key.length ≤ SecondaryIndexItem.KEY_DATA)
    (same : (tree.reached (.ofKey start_key 0) (.ofKey end_key 0)).Perm (tree.items.filter (inRange start_key end_key))) :
    FindsOne index tree.items start_key end_key := by
  rw [FindsOne,findRange_grown grown flat short]
  cases taken : tree.reached (.ofKey start_key 0) (.ofKey end_key 0) with
  | nil =>
    rw [taken] at same
    have nothing := List.filter_eq_nil_iff.mp same.symm.eq_nil
    refine iff_of_false ?_ ?_
    · rintro ⟨record_id,found⟩
      cases found
    · rintro ⟨item,member,within⟩
      exact nothing item member within
  | cons item rest =>
    rw [taken] at same
    have member := List.mem_filter.mp (same.subset List.mem_cons_self)
    exact iff_of_true ⟨item.record_id,rfl⟩ ⟨item,member⟩

theorem meets_of_walkable (grown : Grown index tree) (flat : tree.height ≤ STACK)
    (walkable : Walkable tree start_key end_key) :
    FindsAll index tree.items start_key end_key ∧ FindsOne index tree.items start_key end_key := by
  obtain ⟨short,short',covered⟩ := walkable
  obtain ⟨sorted,padded⟩ := grown.items
  have same := covered_perm short short' tree sorted padded covered
  refine ⟨?_,findsOne_of_perm grown flat ⟨short,short'⟩ same⟩
  intro max_records room
  have fits : (tree.reached (.ofKey start_key 0) (.ofKey end_key 0)).length ≤ max_records :=
    Nat.le_trans (same.length_eq ▸ List.length_filter_le _ _) room
  refine ⟨_,findRangeAll_grown grown flat ⟨short,short'⟩ max_records,?_⟩
  rw [List.take_of_length_le fits]
  exact same.map _

-- Where no two items share a record, the ids tell what was taken.
theorem walkable_of_findsAll (grown : Grown index tree) (flat : tree.height ≤ STACK)
    (apart : (tree.items.map (·.record_id)).Nodup) (found : FindsAll index tree.items start_key end_key) :
    Walkable tree start_key end_key := by
  obtain ⟨sorted,padded⟩ := grown.items
  have lengths : start_key.length ≤ SecondaryIndexItem.KEY_DATA ∧ end_key.length ≤ SecondaryIndexItem.KEY_DATA := by
    by_contra long
    obtain ⟨record_ids,ran,_⟩ := found tree.items.length (Nat.le_refl _)
    rw [findRangeAll,if_neg (by decide),if_pos (by omega)] at ran
    cases ran
  obtain ⟨record_ids,ran,same⟩ := found (tree.items.length+(tree.reached (.ofKey start_key 0) (.ofKey end_key 0)).length)
    (Nat.le_add_right _ _)
  rw [findRangeAll_grown grown flat lengths,List.take_of_length_le (Nat.le_add_left _ _)] at ran
  obtain rfl := Except.ok.inj (Option.some.inj ran)
  have unique : ∀ left ∈ tree.items, ∀ right ∈ tree.items, left.record_id = right.record_id → left = right :=
    fun left member right among => List.inj_on_of_nodup_map apart member among
  have path := mem_reached (.ofKey start_key 0) (.ofKey end_key 0) tree
  have distinct := apart.of_map
  have once : ((tree.items.filter (inRange start_key end_key)).map (·.record_id)).Nodup :=
    apart.sublist (List.filter_sublist.map _)
  refine ⟨lengths.1,lengths.2,covered_of_exact lengths.1 tree sorted padded distinct ⟨?_,?_,?_⟩⟩
  · exact (same.nodup_iff.mpr once).of_map
  · intro item taken
    obtain ⟨other,member,equal⟩ := List.mem_map.mp (same.subset (List.mem_map_of_mem taken))
    obtain ⟨among,within⟩ := List.mem_filter.mp member
    rw [← unique other among item (path item taken) equal]
    exact within
  · intro item member within
    have listed : item.record_id ∈ (tree.items.filter (inRange start_key end_key)).map (·.record_id) :=
      List.mem_map_of_mem (List.mem_filter.mpr ⟨member,within⟩)
    obtain ⟨other,taken,equal⟩ := List.mem_map.mp (same.symm.subset listed)
    rw [← unique other (path other taken) item member equal]
    exact taken

end Ranges

-- Such a tree is searched exactly; where no two items share a record, no other is.
theorem findRange_walkable (index : BTreeIndex) (tree : BTree) (start_key end_key : Bytes) (grown : Grown index tree)
    (flat : tree.height ≤ STACK) :
    (Walkable tree start_key end_key →
      FindsAll index tree.items start_key end_key ∧ FindsOne index tree.items start_key end_key) ∧
    ((tree.items.map (·.record_id)).Nodup →
      FindsAll index tree.items start_key end_key ∧ FindsOne index tree.items start_key end_key →
        Walkable tree start_key end_key) :=
  ⟨meets_of_walkable grown flat,fun apart both => walkable_of_findsAll grown flat apart both.1⟩

theorem oneItem_grown {item : SecondaryIndexItem} (padded : item.Padded) : Grown (oneItem item) (.leaf [item]) := by
  refine .inr ⟨0,rfl,⟨rfl,?_,rfl⟩,List.pairwise_singleton _ _,?_,Nat.le_refl 1⟩
  · change 1 ≤ 4
    decide
  · intro each member
    cases List.mem_singleton.mp member
    exact padded

theorem findRange_walkable_zero :
    (Walkable (.leaf [.ofKey [5] 0]) [4] [5] →
      FindsAll (oneItem (.ofKey [5] 0)) (BTree.leaf [.ofKey [5] 0]).items [4] [5] ∧
        FindsOne (oneItem (.ofKey [5] 0)) (BTree.leaf [.ofKey [5] 0]).items [4] [5]) ∧
    (((BTree.leaf [.ofKey [5] 0]).items.map (·.record_id)).Nodup →
      FindsAll (oneItem (.ofKey [5] 0)) (BTree.leaf [.ofKey [5] 0]).items [4] [5] ∧
        FindsOne (oneItem (.ofKey [5] 0)) (BTree.leaf [.ofKey [5] 0]).items [4] [5] →
      Walkable (.leaf [.ofKey [5] 0]) [4] [5]) :=
  findRange_walkable (oneItem (.ofKey [5] 0)) (.leaf [.ofKey [5] 0]) [4] [5]
    (oneItem_grown (SortedArray.ofKey_padded (by decide) 0)) (by decide)

-- A root with the keys 3 and 6 over three leaves.
def threeLeaves : BTreeIndex :=
  {new ⟨0,"",[],[],0,4⟩ none 4 with
    root:=some 0
    nodes:=fun node => match node with
      | 0 => ⟨false,2,[.ofKey [3] 3,.ofKey [6] 6,.blank,.blank],[some 1,some 2,some 3,none,none]⟩
      | 1 => ⟨true,2,[.ofKey [1] 1,.ofKey [2] 2,.blank,.blank],List.replicate 5 none⟩
      | 2 => ⟨true,2,[.ofKey [4] 4,.ofKey [5] 5,.blank,.blank],List.replicate 5 none⟩
      | _ => ⟨true,2,[.ofKey [7] 7,.ofKey [8] 8,.blank,.blank],List.replicate 5 none⟩
    free_nodes:=[]}

def threeLeavesTree : BTree :=
  .inner (.leaf [.ofKey [1] 1,.ofKey [2] 2])
    (.cons (.ofKey [3] 3) (.leaf [.ofKey [4] 4,.ofKey [5] 5])
      (.cons (.ofKey [6] 6) (.leaf [.ofKey [7] 7,.ofKey [8] 8]) .nil))

theorem threeLeaves_grown : Grown threeLeaves threeLeavesTree := by
  refine .inr ⟨0,rfl,?_,?_,?_,by decide⟩
  · refine ⟨rfl,by decide,⟨1,rfl,rfl,by decide,rfl⟩,rfl,⟨2,rfl,rfl,by decide,rfl⟩,rfl,⟨3,rfl,rfl,by decide,rfl⟩,rfl⟩
  · change List.Pairwise (fun left right => (RemDb.compareItems left right).isLE = true) threeLeavesTree.items
    decide
  · intro item member
    have listed : threeLeavesTree.items = [1,2,3,4,5,6,7,8].map fun byte =>
        SecondaryIndexItem.ofKey [UInt8.ofNat byte] (UInt16.ofNat byte) := rfl
    rw [listed] at member
    obtain ⟨byte,_,rfl⟩ := List.mem_map.mp member
    refine SortedArray.ofKey_padded ?_ _
    change 1 ≤ 64
    decide

-- The key of the end is found under record 0 only, and the leaf between is passed
-- over.
theorem findRange_not_all : Grown (oneItem (.ofKey [5] 3)) (.leaf [.ofKey [5] 3]) ∧
    (oneItem (.ofKey [5] 3)).findRangeAll [5] [5] true 1 = some (.ok []) ∧
    ¬FindsAll (oneItem (.ofKey [5] 3)) [.ofKey [5] 3] [5] [5] ∧
    Grown threeLeaves threeLeavesTree ∧
    threeLeaves.findRangeAll [1] [9] true 8 = some (.ok [1,2,3,6,7,8]) ∧
    ¬FindsAll threeLeaves threeLeavesTree.items [1] [9] := by
  have missed : (oneItem (.ofKey [5] 3)).findRangeAll [5] [5] true 1 = some (.ok []) := by decide +kernel
  have partly : threeLeaves.findRangeAll [1] [9] true 8 = some (.ok [1,2,3,6,7,8]) := by decide +kernel
  refine ⟨oneItem_grown (SortedArray.ofKey_padded (by decide) 3),missed,?_,threeLeaves_grown,partly,?_⟩
  · intro found
    obtain ⟨record_ids,ran,same⟩ := found 1 (by decide)
    rw [missed] at ran
    obtain rfl := Except.ok.inj (Option.some.inj ran)
    revert same
    decide +kernel
  · intro found
    obtain ⟨record_ids,ran,same⟩ := found 8 (by decide)
    rw [partly] at ran
    obtain rfl := Except.ok.inj (Option.some.inj ran)
    revert same
    decide +kernel

end RemDb.BTreeIndex
