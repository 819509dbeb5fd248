import RemDb.Index.SortedArray
import RemDb.Lib.Search

namespace RemDb
open RemDb.Lib

namespace SecondaryIndex

abbrev Starting (items : List SecondaryIndexItem) (start_item : SecondaryIndexItem) (low high : Nat) : Prop :=
  Window items (fun item => compareItems item start_item = .lt) (fun item => compareItems item start_item ≠ .lt) low high

section Start
variable {items : List SecondaryIndexItem} {start_item : SecondaryIndexItem}

-- Without an item in front of the range the search steps below the array.
theorem rangeStart_lost (later : ∀ item ∈ items, compareItems item start_item ≠ .lt) (fuel : Nat) {high : Nat}
    (inside : high < items.length) (start_pos : Nat) : rangeStart items start_item fuel 0 high start_pos = none := by
  induction fuel generalizing high with
  | zero => rfl
  | succ fuel ih =>
    have bound : (0+high)/2 < items.length := by omega
    have there := List.getElem?_eq_getElem bound
    rw [rangeStart,if_pos (Nat.zero_le high)]
    simp only [there,if_neg (later _ (List.getElem_mem bound))]
    split
    · rfl
    · exact ih (by omega)

theorem rangeStart_found (sorted : SortedItems items)
    (first : ∀ item, items[0]? = some item → compareItems item start_item = .lt) (fuel : Nat) {low high : Nat}
    (window : Starting items start_item low high) (enough : high+1-low < fuel) :
    ∃ front back, rangeStart items start_item fuel low high low = some front.length ∧ items = front ++ back ∧
      (∀ item ∈ front, compareItems item start_item = .lt) ∧ ∀ item ∈ back, compareItems item start_item ≠ .lt := by
  induction fuel generalizing low high with
  | zero => omega
  | succ fuel ih =>
    have falls : ∀ left right, (compareItems left right).isLE → compareItems right start_item = .lt →
        compareItems left start_item = .lt := fun _ _ => Std.TransCmp.lt_of_isLE_of_lt
    have rises : ∀ left right, (compareItems left right).isLE → compareItems left start_item ≠ .lt →
        compareItems right start_item ≠ .lt := fun left right ordered later less => later (falls left right ordered less)
    rw [rangeStart]
    by_cases more : low ≤ high
    · obtain ⟨item,there⟩ := window.middle more
      have bounds : low ≤ (low+high)/2 ∧ (low+high)/2 ≤ high := by omega
      rw [if_pos more]
      simp only [there]
      by_cases less : compareItems item start_item = .lt
      · rw [if_pos less]
        exact ih (window.up sorted falls bounds there less) (by omega)
      · have positive : (low+high)/2 ≠ 0 := by
          intro zero
          rw [zero] at there
          exact less (first item there)
        rw [if_neg less,if_neg positive]
        exact ih (window.down sorted rises bounds positive there less) (by omega)
    · obtain ⟨front,back,parts,length,before,behind⟩ := window.split (Nat.lt_of_not_le more)
      rw [if_neg more]
      exact ⟨front,back,congrArg some length.symm,parts,before,behind⟩

end Start

-- The test of the loop holds for a shorter key only where a byte of it is less.
def Passes (key end_key : Bytes) : Prop :=
  key.length = end_key.length ∨ compare key (end_key.take key.length) = .lt

section End
variable {item : SecondaryIndexItem} {end_key : Bytes}

theorem beforeEnd_key (padded : item.Padded) : beforeEnd item end_key =
    (decide (item.key.length ≤ end_key.length) &&
      match compare item.key (end_key.take item.key.length) with
      | .lt => true
      | .eq => decide (item.key.length = end_key.length)
      | .gt => false) := by
  have key : item.key_data.take item.key.length = item.key := by
    rw [← padded.length]
    rfl
  rw [beforeEnd]
  simp only [padded.length,key]
  try rfl

theorem beforeEnd_within (padded : item.Padded) (passed : beforeEnd item end_key = true) :
    (keyOrder item.key end_key).isLE := by
  rw [beforeEnd_key padded] at passed
  obtain ⟨size,bytes⟩ := Bool.and_eq_true_iff.mp passed
  have size := of_decide_eq_true size
  change ((compare item.key.length end_key.length).then (compare item.key end_key)).isLE
  rcases Nat.lt_or_eq_of_le size with less | same
  · rw [Nat.compare_eq_lt.mpr less]
    rfl
  · rw [same,List.take_length] at bytes
    rw [Nat.compare_eq_eq.mpr same]
    cases order : compare item.key end_key with
    | lt => rfl
    | eq => rfl
    | gt =>
      rw [order] at bytes
      cases bytes

theorem beforeEnd_iff (padded : item.Padded) (within : (keyOrder item.key end_key).isLE) :
    beforeEnd item end_key = true ↔ Passes item.key end_key := by
  change ((compare item.key.length end_key.length).then (compare item.key end_key)).isLE at within
  rw [beforeEnd_key padded,Passes]
  rcases Nat.lt_trichotomy item.key.length end_key.length with less | same | more
  · have size := decide_eq_true (Nat.le_of_lt less)
    have apart := Nat.ne_of_lt less
    cases order : compare item.key (end_key.take item.key.length) with
    | lt => simp [size]
    | eq => simp [apart]
    | gt => simp [apart]
  · rw [Nat.compare_eq_eq.mpr same] at within
    rw [same,List.take_length]
    cases order : compare item.key end_key with
    | lt => simp
    | eq => simp
    | gt =>
      rw [order] at within
      cases within
  · rw [Nat.compare_eq_gt.mpr more] at within
    cases within

end End
end SecondaryIndex

namespace SortedArray

def inRange (start_key end_key : Bytes) (item : SecondaryIndexItem) : Bool :=
  (keyOrder start_key item.key).isLE && (keyOrder item.key end_key).isLE

def itemsIn (array : SortedArray) (start_key end_key : Bytes) : List SecondaryIndexItem :=
  array.inUse.items.filter (inRange start_key end_key)

def FindsAll (array : SortedArray) (start_key end_key : Bytes) (max_records : Nat) : Prop :=
  array.findRangeAll start_key end_key true max_records =
    some (.ok (((array.itemsIn start_key end_key).take max_records).map (·.record_id)))

def FindsFirst (array : SortedArray) (start_key end_key : Bytes) : Prop :=
  array.inUse.findRange start_key end_key =
    some (match (array.itemsIn start_key end_key).head? with
      | some item => .ok item.record_id
      | none => .error .recordNotFound)

def Preceded (array : SortedArray) (start_key : Bytes) : Prop :=
  ∃ item ∈ array.inUse.items.head?, keyOrder item.key start_key = .lt

theorem collect_eq (end_key : Bytes) (room : Nat) (items : List SecondaryIndexItem) :
    collect end_key room items = ((items.takeWhile (SecondaryIndex.beforeEnd · end_key)).take room).map (·.record_id) := by
  induction items generalizing room with
  | nil =>
    cases room with
    | zero => rfl
    | succ room => rfl
  | cons item rest ih =>
    cases room with
    | zero => rfl
    | succ room =>
      rw [collect]
      by_cases passed : SecondaryIndex.beforeEnd item end_key = true
      · rw [if_pos passed,ih]
        simp [passed]
      · rw [if_neg passed]
        simp [passed]

section Ranges
variable {array : SortedArray} {start_key end_key : Bytes}

theorem compare_start {item : SecondaryIndexItem} (padded : item.Padded)
    (short : start_key.length ≤ SecondaryIndexItem.KEY_DATA) :
    compareItems item (.ofKey start_key 0) = .lt ↔ keyOrder item.key start_key = .lt := by
  have least : compare item.record_id 0 ≠ .lt := by
    intro less
    exact UInt16.not_lt_zero (Std.compare_eq_lt.mp less)
  rw [padded.compare_ofKey short]
  cases order : keyOrder item.key start_key with
  | lt => simp
  | eq =>
    rw [Ordering.eq_then]
    simp [least]
  | gt => simp

theorem itemsIn_split (sound : array.Sound) (short : start_key.length ≤ SecondaryIndexItem.KEY_DATA)
    {front back : List SecondaryIndexItem} (parts : array.inUse.items = front ++ back)
    (before : ∀ item ∈ front, compareItems item (.ofKey start_key 0) = .lt)
    (behind : ∀ item ∈ back, compareItems item (.ofKey start_key 0) ≠ .lt) :
    array.itemsIn start_key end_key = back.takeWhile fun item => (keyOrder item.key end_key).isLE := by
  have padded := sound.padded
  have sorted := sound.sorted
  rw [parts] at padded sorted
  have none_early : front.filter (inRange start_key end_key) = [] := by
    refine List.filter_eq_nil_iff.mpr ?_
    intro item member within
    have less := (compare_start (padded item (List.mem_append_left _ member)) short).mp (before item member)
    have reached := (Bool.and_eq_true_iff.mp within).1
    rw [Std.OrientedCmp.gt_of_lt less] at reached
    cases reached
  have late : back.filter (inRange start_key end_key) = back.filter fun item => (keyOrder item.key end_key).isLE := by
    refine List.filter_congr ?_
    intro item member
    have later := behind item member
    rw [Ne,compare_start (padded item (List.mem_append_right _ member)) short] at later
    have reached : (keyOrder start_key item.key).isLE := by
      apply Std.OrientedCmp.isLE_of_isGE
      cases order : keyOrder item.key start_key with
      | lt => exact absurd order later
      | eq => rfl
      | gt => rfl
    rw [inRange,reached,Bool.true_and]
  rw [itemsIn,parts,List.filter_append,none_early,List.nil_append,late]
  obtain ⟨_,sorted,_⟩ := List.pairwise_append.mp sorted
  refine filter_takeWhile (sorted.imp_of_mem ?_)
  intro left right here there ordered within
  have keys := (padded left (List.mem_append_right _ here)).keys_ordered (padded right (List.mem_append_right _ there)) ordered
  exact Std.TransCmp.isLE_trans keys within

theorem rangeStart_cases (sound : array.Sound) (short : start_key.length ≤ SecondaryIndexItem.KEY_DATA)
    (filled : 0 < array.inUse.items.length) (end_key : Bytes) :
    ¬array.Preceded start_key ∧ SecondaryIndex.rangeStart array.inUse.items (.ofKey start_key 0)
        (array.inUse.items.length+1) 0 (array.inUse.items.length-1) 0 = none ∨
      array.Preceded start_key ∧ ∃ front back, SecondaryIndex.rangeStart array.inUse.items (.ofKey start_key 0)
          (array.inUse.items.length+1) 0 (array.inUse.items.length-1) 0 = some front.length ∧
        array.inUse.items = front ++ back ∧
        array.itemsIn start_key end_key = back.takeWhile fun item => (keyOrder item.key end_key).isLE := by
  have sorted := sound.sorted
  have first := List.getElem?_eq_getElem filled
  have padded := sound.padded _ (List.getElem_mem filled)
  have head : ∀ item, item ∈ array.inUse.items.head? ↔ array.inUse.items[0] = item := by
    intro item
    rw [List.head?_eq_getElem?,first,Option.mem_some]
  by_cases less : compareItems array.inUse.items[0] (.ofKey start_key 0) = .lt
  · have leads : ∀ item, array.inUse.items[0]? = some item → compareItems item (.ofKey start_key 0) = .lt := by
      intro item there
      rw [first] at there
      cases there
      exact less
    have whole : SecondaryIndex.Starting array.inUse.items (.ofKey start_key 0) 0 (array.inUse.items.length-1) :=
      Window.whole filled
    obtain ⟨front,back,started,parts,before,behind⟩ :=
      SecondaryIndex.rangeStart_found sorted leads (array.inUse.items.length+1) whole (by omega)
    refine .inr ⟨⟨_,(head _).mpr rfl,(compare_start padded short).mp less⟩,front,back,started,parts,?_⟩
    exact itemsIn_split sound short parts before behind
  · refine .inl ⟨?_,?_⟩
    · rintro ⟨item,leading,before⟩
      obtain rfl := (head item).mp leading
      exact less ((compare_start padded short).mpr before)
    · refine SecondaryIndex.rangeStart_lost ?_ _ (Nat.sub_lt filled Nat.one_pos) 0
      intro item member early
      obtain ⟨place,there⟩ := List.mem_iff_getElem?.mp member
      rcases Nat.eq_zero_or_pos place with rfl | behind
      · rw [first] at there
        cases there
        exact less early
      · have ordered := pairwise_places sorted first there behind
        exact less (Std.TransCmp.lt_of_isLE_of_lt ordered early)

-- How far the loop gets among the items of the range.
theorem within_iff (sound : array.Sound) {front back : List SecondaryIndexItem}
    (parts : array.inUse.items = front ++ back)
    (range : array.itemsIn start_key end_key = back.takeWhile fun item => (keyOrder item.key end_key).isLE) (room : Nat) :
    collect end_key room (array.inUse.items.drop front.length) =
        ((array.itemsIn start_key end_key).take room).map (·.record_id) ↔
      ∀ item ∈ (array.itemsIn start_key end_key).take room, SecondaryIndex.Passes item.key end_key := by
  have padded : ∀ item ∈ back, item.Padded := fun item member =>
    sound.padded item (parts ▸ List.mem_append_right _ member)
  have implied : ∀ item ∈ back, SecondaryIndex.beforeEnd item end_key = true →
      (keyOrder item.key end_key).isLE = true := fun item member => SecondaryIndex.beforeEnd_within (padded item member)
  have rest : array.inUse.items.drop front.length = back := by
    rw [parts,List.drop_left]
  rw [collect_eq,rest,range,map_takeWhile_iff _ _ (·.record_id) back implied]
  refine forall₂_congr ?_
  intro item taken
  have among := List.mem_of_mem_take taken
  have within := List.mem_takeWhile_imp among
  exact SecondaryIndex.beforeEnd_iff (padded item ((List.takeWhile_prefix _).subset among)) within

theorem findsAll_iff (sound : array.Sound) (short : start_key.length ≤ SecondaryIndexItem.KEY_DATA) (max_records : Nat) :
    array.FindsAll start_key end_key max_records ↔ array.inUse.items = [] ∨ array.Preceded start_key ∧
      ∀ item ∈ (array.itemsIn start_key end_key).take max_records, SecondaryIndex.Passes item.key end_key := by
  have length := sound.length
  rw [FindsAll,findRangeAll,if_neg (by decide)]
  by_cases empty : array.item_count = 0
  · have none_there : array.inUse.items = [] := List.length_eq_zero_iff.mp (length.trans empty)
    rw [if_pos empty,itemsIn,none_there]
    simp
  · have filled : 0 < array.inUse.items.length := length.symm ▸ Nat.pos_of_ne_zero empty
    have some_there : array.inUse.items ≠ [] := List.ne_nil_of_length_pos filled
    rw [if_neg empty,if_neg (Nat.not_lt.mpr short),← length]
    simp only [some_there,false_or]
    rcases rangeStart_cases sound short filled end_key with ⟨behind,lost⟩ | ⟨preceded,front,back,started,parts,range⟩
    · rw [lost]
      refine iff_of_false ?_ ?_
      · intro found
        cases found
      · exact fun both => behind both.1
    · rw [started,Option.map_some,and_iff_right preceded,← within_iff sound parts range max_records]
      constructor
      · intro found
        exact Except.ok.inj (Option.some.inj found)
      · intro same
        rw [same]

theorem findsFirst_iff (sound : array.Sound) (short : start_key.length ≤ SecondaryIndexItem.KEY_DATA) :
    array.FindsFirst start_key end_key ↔ array.Preceded start_key ∧
      ∀ item ∈ (array.itemsIn start_key end_key).head?, SecondaryIndex.Passes item.key end_key := by
  rw [FindsFirst,SecondaryIndex.findRange]
  by_cases empty : array.inUse.items = []
  · rw [if_pos (.inl empty),Preceded,empty]
    simp
  · have filled := List.length_pos_of_ne_nil empty
    rw [if_neg (by simpa [empty] using short)]
    rcases rangeStart_cases sound short filled end_key with ⟨behind,lost⟩ | ⟨preceded,front,back,started,parts,range⟩
    · rw [lost]
      refine iff_of_false ?_ ?_
      · intro found
        cases found
      · exact fun both => behind both.1
    · have rest : array.inUse.items.drop front.length = back := by
        rw [parts,List.drop_left]
      have reach := within_iff sound parts range 1
      rw [rest] at reach
      have heads : (∀ item ∈ (array.itemsIn start_key end_key).head?, SecondaryIndex.Passes item.key end_key) ↔
          ∀ item ∈ (array.itemsIn start_key end_key).take 1, SecondaryIndex.Passes item.key end_key := by
        cases array.itemsIn start_key end_key with
        | nil => simp
        | cons item later => simp
      rw [started,Option.map_some,and_iff_right preceded,heads,← reach]
      rw [parts,List.getElem?_append_right (Nat.le_refl _),Nat.sub_self]
      cases back with
      | nil =>
        rw [range]
        simp [collect]
      | cons item later =>
        simp only [List.getElem?_cons_zero,collect]
        cases array.itemsIn start_key end_key with
        | nil =>
          by_cases passed : SecondaryIndex.beforeEnd item end_key = true
          · simp [passed]
          · simp [passed]
        | cons first others =>
          by_cases passed : SecondaryIndex.beforeEnd item end_key = true
          · simp [passed]
          · simp [passed]

end Ranges

-- A range is found exactly when an item stands in front of it and what is asked
-- for has only keys of the end's size or with a first different byte that is less.
-- An empty index is searched by one of the two only.
theorem findRange_exact_iff (array : SortedArray) (start_key end_key : Bytes) (max_records : Nat) (sound : array.Sound)
    (short : start_key.length ≤ SecondaryIndexItem.KEY_DATA) :
    (array.FindsAll start_key end_key max_records ↔ array.inUse.items = [] ∨ array.Preceded start_key ∧
      ∀ item ∈ (array.itemsIn start_key end_key).take max_records, SecondaryIndex.Passes item.key end_key) ∧
    (array.FindsFirst start_key end_key ↔ array.Preceded start_key ∧
      ∀ item ∈ (array.itemsIn start_key end_key).head?, SecondaryIndex.Passes item.key end_key) :=
  ⟨findsAll_iff sound short max_records,findsFirst_iff sound short⟩

def twoItems : SortedArray := ⟨[.ofKey [1] 5,.ofKey [3] 6],2,2,⟨0,0,264,2⟩⟩

theorem twoItems_sound : twoItems.Sound := by
  refine ⟨rfl,Nat.le_refl 2,?_,?_⟩
  · change List.Pairwise (fun left right => (compareItems left right).isLE = true) [.ofKey [1] 5,.ofKey [3] 6]
    decide
  · intro item among
    rcases List.mem_cons.mp among with rfl | among
    · exact ofKey_padded (by decide) 5
    · cases List.mem_singleton.mp among
      exact ofKey_padded (by decide) 6

theorem findRange_exact_two :
    (twoItems.FindsAll [2] [4] 9 ↔ twoItems.inUse.items = [] ∨ twoItems.Preceded [2] ∧
      ∀ item ∈ (twoItems.itemsIn [2] [4]).take 9, SecondaryIndex.Passes item.key [4]) ∧
    (twoItems.FindsFirst [2] [4] ↔ twoItems.Preceded [2] ∧
      ∀ item ∈ (twoItems.itemsIn [2] [4]).head?, SecondaryIndex.Passes item.key [4]) :=
  findRange_exact_iff twoItems [2] [4] 9 twoItems_sound (by decide)

-- A range that starts at the first key has no answer at all; one whose end is a
-- longer key misses the key 3.
theorem findRange_first_lost : ∃ array : SortedArray, array.Sound ∧
    array.findRangeAll [1] [4] true 9 = none ∧ ¬array.FindsAll [1] [4] 9 ∧ ¬array.FindsFirst [1] [4] ∧
      array.findRangeAll [2] [2,0] true 9 = some (.ok []) ∧ ¬array.FindsAll [2] [2,0] 9 := by
  have lost : twoItems.findRangeAll [1] [4] true 9 = none := by decide
  have first_lost : twoItems.inUse.findRange [1] [4] = none := by decide
  have missed : twoItems.findRangeAll [2] [2,0] true 9 = some (.ok []) := by decide
  refine ⟨twoItems,twoItems_sound,lost,?_,?_,missed,?_⟩
  · intro found
    rw [FindsAll,lost] at found
    cases found
  · intro found
    rw [FindsFirst,first_lost] at found
    cases found
  · intro found
    rw [FindsAll,missed] at found
    revert found
    decide

end SortedArray
end RemDb
