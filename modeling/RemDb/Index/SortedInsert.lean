import RemDb.Index.SortedArray
import RemDb.Lib.Search

namespace RemDb
open RemDb.Lib

namespace SortedArray

abbrev Placing (items : List SecondaryIndexItem) (new_item : SecondaryIndexItem) (low high : Nat) : Prop :=
  Window items (fun item => (compareItems item new_item).isLE) (fun item => compareItems new_item item = .lt) low high

section Position
variable {memory items : List SecondaryIndexItem} {new_item : SecondaryIndexItem}

theorem isLE_of_not_lt {left right : SecondaryIndexItem} (later : compareItems left right ≠ .lt) :
    (compareItems right left).isLE := by
  apply Std.OrientedCmp.isLE_of_isGE
  cases order : compareItems left right with
  | lt => exact absurd order later
  | eq => rfl
  | gt => rfl

theorem insertPosition_lost (same : ∀ (place : Nat) item, items[place]? = some item → memory[place]? = some item)
    (least : ∀ item ∈ items, compareItems new_item item = .lt) (fuel : Nat) {high : Nat} (inside : high < items.length)
    (insert_pos : Nat) : insertPosition memory new_item fuel 0 high insert_pos = none := by
  induction fuel generalizing high insert_pos with
  | zero => rfl
  | succ fuel ih =>
    have bound : (0+high)/2 < items.length := by omega
    have there := List.getElem?_eq_getElem bound
    rw [insertPosition,if_pos (Nat.zero_le high)]
    simp only [same _ _ there,least _ (List.getElem_mem bound)]
    split
    · rfl
    · exact ih (by omega) _

theorem insertPosition_found (sorted : SortedItems items)
    (same : ∀ (place : Nat) item, items[place]? = some item → memory[place]? = some item)
    (first : ∀ item, items[0]? = some item → compareItems new_item item ≠ .lt) (fuel : Nat) {low high insert_pos : Nat}
    (window : Placing items new_item low high) (enough : high+1-low < fuel)
    (known : insert_pos = high+1 ∨
      insert_pos = low ∧ ∀ (place : Nat) item, items[place]? = some item → low ≤ place → compareItems new_item item ≠ .gt) :
    ∃ front back, insertPosition memory new_item fuel low high insert_pos = some front.length ∧ items = front ++ back ∧
      (∀ item ∈ front, (compareItems item new_item).isLE) ∧ ∀ item ∈ back, compareItems new_item item = .lt := by
  induction fuel generalizing low high insert_pos with
  | zero => omega
  | succ fuel ih =>
    have falls : ∀ left right, (compareItems left right).isLE → (compareItems right new_item).isLE →
        (compareItems left new_item).isLE := fun _ _ => Std.TransCmp.isLE_trans
    have rises : ∀ left right, (compareItems left right).isLE → compareItems new_item left = .lt →
        compareItems new_item right = .lt := fun _ _ ordered less => Std.TransCmp.lt_of_lt_of_isLE less ordered
    rw [insertPosition]
    by_cases more : low ≤ high
    · obtain ⟨item,there⟩ := window.middle more
      have bounds : low ≤ (low+high)/2 ∧ (low+high)/2 ≤ high := by omega
      rw [if_pos more]
      simp only [same _ _ there]
      cases order : compareItems new_item item with
      | lt =>
        have positive : (low+high)/2 ≠ 0 := by
          intro zero
          rw [zero] at there
          exact first item there order
        simp only [if_neg positive]
        refine ih (window.down sorted rises bounds positive there order) (by omega) (.inl ?_)
        omega
      | gt =>
        have small : (compareItems item new_item).isLE := isLE_of_not_lt (by simp [order])
        refine ih (window.up sorted falls bounds there small) (by omega) ?_
        rcases known with ended | ⟨_,none_less⟩
        · exact .inl ended
        · exact absurd order (none_less _ item there bounds.1)
      | eq =>
        have small : (compareItems item new_item).isLE := isLE_of_not_lt (by simp [order])
        refine ih (window.up sorted falls bounds there small) (by omega) (.inr ⟨rfl,?_⟩)
        intro place later here behind greater
        have ordered := pairwise_places sorted there here behind
        have less := Std.TransCmp.gt_of_gt_of_isGE greater (Std.OrientedCmp.isGE_iff_isLE.mpr ordered)
        rw [order] at less
        cases less
    · obtain ⟨front,back,parts,length,before,behind⟩ := window.split (Nat.lt_of_not_le more)
      have ordered := window.ordered
      rw [if_neg more]
      refine ⟨front,back,congrArg some ?_,parts,before,behind⟩
      rcases known with rfl | ⟨rfl,_⟩
      · omega
      · exact length.symm

end Position

def itemOf (call : Bytes × UInt16) : SecondaryIndexItem := .ofKey call.1 call.2

def pairs (array : SortedArray) : List (Bytes × UInt16) := array.inUse.items.map fun item => (item.key,item.record_id)

section Insertion
variable {array : SortedArray} {call : Bytes × UInt16}

theorem Sound.backs (sound : array.Sound) :
    ∀ (place : Nat) item, array.inUse.items[place]? = some item → array.memory[place]? = some item := by
  obtain ⟨unused,parts,_⟩ := sound.memory
  intro place item there
  rw [parts,List.getElem?_append_left (List.getElem?_eq_some_iff.mp there).1]
  exact there

theorem insert_run (room : array.item_count < array.max_items) (short : call.1.length ≤ SecondaryIndexItem.KEY_LIMIT) :
    array.insert call.1 call.2 = (do
      let insert_pos ← array.placeFor (itemOf call)
      let memory ← insertAt array.memory insert_pos array.item_count (itemOf call)
      pure (.ok (),{array with
        memory:=memory,item_count:=array.item_count+1,stats:={array.stats with item_count:=array.item_count+1}})) := by
  rw [insert,if_neg (Nat.not_le.mpr room),if_neg (Nat.not_lt.mpr short)]
  rfl

theorem insert_lost (sound : array.Sound) (room : array.item_count < array.max_items)
    (short : call.1.length ≤ SecondaryIndexItem.KEY_LIMIT) {first : SecondaryIndexItem}
    (head : array.inUse.items[0]? = some first) (less : compareItems (itemOf call) first = .lt) :
    array.insert call.1 call.2 = none := by
  obtain ⟨bound,_⟩ := List.getElem?_eq_some_iff.mp head
  have sorted := sound.sorted
  have least : ∀ item ∈ array.inUse.items, compareItems (itemOf call) item = .lt := by
    intro item member
    obtain ⟨place,there⟩ := List.mem_iff_getElem?.mp member
    rcases Nat.eq_zero_or_pos place with rfl | behind
    · rw [head] at there
      cases there
      exact less
    · have ordered := pairwise_places sorted head there behind
      exact Std.TransCmp.lt_of_lt_of_isLE less ordered
  have length := sound.length
  rw [length] at bound
  have inside : array.item_count-1 < array.inUse.items.length := length.symm ▸ Nat.sub_lt bound Nat.one_pos
  have lost := insertPosition_lost sound.backs least (array.item_count+1) inside array.item_count
  rw [insert_run room short,placeFor,if_pos bound,lost]
  rfl

theorem insert_placed (sound : array.Sound) (room : array.item_count < array.max_items)
    (short : call.1.length ≤ SecondaryIndexItem.KEY_LIMIT)
    (first : ∀ item, array.inUse.items[0]? = some item → compareItems (itemOf call) item ≠ .lt) :
    ∃ after front back, array.insert call.1 call.2 = some (.ok (),after) ∧ after.Sound ∧
      after.max_items = array.max_items ∧ after.item_count = array.item_count+1 ∧
      array.inUse.items = front ++ back ∧ after.inUse.items = front ++ itemOf call :: back ∧
      ∀ item ∈ back, compareItems (itemOf call) item = .lt := by
  have length := sound.length
  have found : ∃ front back, array.placeFor (itemOf call) = some front.length ∧ array.inUse.items = front ++ back ∧
      (∀ item ∈ front, (compareItems item (itemOf call)).isLE) ∧
      ∀ item ∈ back, compareItems (itemOf call) item = .lt := by
    rw [placeFor]
    by_cases filled : array.item_count > 0
    · rw [if_pos filled]
      have whole : Placing array.inUse.items (itemOf call) 0 (array.inUse.items.length-1) :=
        Window.whole (length.symm ▸ filled)
      rw [length] at whole
      exact insertPosition_found sound.sorted sound.backs first (array.item_count+1) whole (by omega) (.inl (by omega))
    · rw [if_neg filled]
      refine ⟨array.inUse.items,[],congrArg some length.symm,(List.append_nil _).symm,?_,?_⟩
      · intro item member
        rw [List.length_eq_zero_iff.mp (length.trans (by omega))] at member
        cases member
      · intro item member
        cases member
  obtain ⟨front,back,position,parts,before,behind⟩ := found
  obtain ⟨unused,memory,spare⟩ := sound.memory
  obtain ⟨old,unused,rfl⟩ := List.exists_cons_of_length_pos (by omega : 0 < unused.length)
  have count : array.item_count = front.length+back.length := by
    rw [← length,parts,List.length_append]
  have opened := insertAt_filled front back unused old (itemOf call)
  rw [← count,← parts,← memory] at opened
  have backed := sound.backed
  have sorted : SortedItems (front ++ itemOf call :: back) := by
    refine Ascending.insert (parts ▸ sound.sorted) before ?_
    intro item head
    rw [behind item (List.mem_of_mem_head? head)]
    rfl
  have padded : ∀ item ∈ front ++ itemOf call :: back, item.Padded := by
    intro item member
    have earlier := sound.padded
    rw [parts] at earlier
    rcases List.mem_append.mp member with among | among
    · exact earlier item (List.mem_append_left _ among)
    · rcases List.mem_cons.mp among with rfl | among
      · exact ofKey_padded short call.2
      · exact earlier item (List.mem_append_right _ among)
  have whole : ((front ++ itemOf call :: back) ++ unused).length = array.max_items := by
    rw [memory,parts] at backed
    simp only [List.length_append,List.length_cons] at backed ⊢
    omega
  have counted : (front ++ itemOf call :: back).length = array.item_count+1 := by
    simp only [List.length_append,List.length_cons]
    omega
  obtain ⟨after_sound,after_items⟩ := sound_of_memory array
    {array.stats with item_count:=array.item_count+1} whole counted sorted padded
  refine ⟨_,front,back,?_,after_sound,rfl,rfl,parts,after_items,behind⟩
  rw [insert_run room short,position]
  simp only [Option.bind_eq_bind,Option.bind_some,opened,Option.pure_def]

end Insertion

def insertAll (calls : List (Bytes × UInt16)) (array : SortedArray) : Option SortedArray :=
  calls.foldlM (fun array call => (array.insert call.1 call.2).map (·.2)) array

def Filed (outcome : Option SortedArray) (calls : List (Bytes × UInt16)) : Prop :=
  ∃ array, outcome = some array ∧ SortedItems array.inUse.items ∧ array.pairs.Perm calls

section Run
variable {array after : SortedArray} {call : Bytes × UInt16}

theorem insertAll_cons (call : Bytes × UInt16) (rest : List (Bytes × UInt16)) (array : SortedArray) :
    insertAll (call :: rest) array = ((array.insert call.1 call.2).map (·.2)).bind (insertAll rest) :=
  List.foldlM_cons

theorem pairs_insert (short : call.1.length ≤ SecondaryIndexItem.KEY_LIMIT) {front back : List SecondaryIndexItem}
    (before : array.inUse.items = front ++ back) (filed : after.inUse.items = front ++ itemOf call :: back) :
    after.pairs.Perm (call :: array.pairs) := by
  have key : (itemOf call).key = call.1 := SecondaryIndexItem.ofKey_key (Nat.le_trans short (by decide)) call.2
  rw [pairs,pairs,filed,before,List.map_append,List.map_append,List.map_cons,key]
  exact List.perm_middle

theorem insertAll_from {first : SecondaryIndexItem} (calls : List (Bytes × UInt16)) (sound : array.Sound)
    (head : array.inUse.items[0]? = some first) (room : array.item_count+calls.length ≤ array.max_items)
    (short : ∀ call ∈ calls, call.1.length ≤ SecondaryIndexItem.KEY_LIMIT) :
    (∃ call ∈ calls, compareItems (itemOf call) first = .lt) ∧ insertAll calls array = none ∨
      (∀ call ∈ calls, compareItems (itemOf call) first ≠ .lt) ∧
        ∃ after, insertAll calls array = some after ∧ after.Sound ∧ after.pairs.Perm (array.pairs ++ calls) := by
  induction calls generalizing array with
  | nil =>
    refine .inr ⟨?_,array,rfl,sound,?_⟩
    · intro call among
      cases among
    · rw [List.append_nil]
  | cons call rest ih =>
    have here := short call List.mem_cons_self
    rw [List.length_cons] at room
    have free : array.item_count < array.max_items := by omega
    by_cases less : compareItems (itemOf call) first = .lt
    · refine .inl ⟨⟨call,List.mem_cons_self,less⟩,?_⟩
      rw [insertAll_cons,insert_lost sound free here head less]
      rfl
    · have least : ∀ item, array.inUse.items[0]? = some item → compareItems (itemOf call) item ≠ .lt := by
        intro item there
        rw [head] at there
        cases there
        exact less
      obtain ⟨middle,front,back,inserted,middle_sound,limit,count,before,filed,behind⟩ :=
        insert_placed sound free here least
      have same_head : middle.inUse.items[0]? = some first := by
        cases front with
        | nil =>
          rw [before] at head
          have among := List.mem_of_getElem? head
          exact absurd (behind first among) less
        | cons lead front =>
          rw [before] at head
          rw [filed]
          exact head
      have later := fun each among => short each (List.mem_cons_of_mem call among)
      have filed_pairs := pairs_insert here before filed
      rw [insertAll_cons,inserted,Option.map_some,Option.bind_some]
      rcases ih middle_sound same_head (by omega) later with ⟨⟨each,among,lost⟩,stopped⟩ | ⟨kept,after,ran,sound,order⟩
      · exact .inl ⟨⟨each,List.mem_cons_of_mem _ among,lost⟩,stopped⟩
      · refine .inr ⟨?_,after,ran,sound,?_⟩
        · intro each among
          rcases List.mem_cons.mp among with rfl | among
          · exact less
          · exact kept each among
        · exact order.trans ((filed_pairs.append_right rest).trans List.perm_middle.symm)

end Run

-- Exactly when no later item is less than the first one.
theorem insertAll_filed_iff (max_items : Nat) (calls : List (Bytes × UInt16)) (room : calls.length ≤ max_items)
    (short : ∀ call ∈ calls, call.1.length ≤ SecondaryIndexItem.KEY_LIMIT) :
    Filed (insertAll calls (new max_items)) calls ↔
      ∀ first ∈ calls.head?, ∀ call ∈ calls.tail, compareItems (itemOf call) (itemOf first) ≠ .lt := by
  cases calls with
  | nil =>
    refine iff_of_true ⟨new max_items,rfl,List.Pairwise.nil,List.Perm.nil⟩ ?_
    intro first head
    cases head
  | cons first rest =>
    rw [List.length_cons] at room
    have here := short first List.mem_cons_self
    have later := fun each among => short each (List.mem_cons_of_mem first among)
    have empty : (new max_items).inUse.items = [] := rfl
    have free : (new max_items).item_count < (new max_items).max_items := Nat.lt_of_lt_of_le (Nat.succ_pos _) room
    obtain ⟨start,front,back,inserted,sound,limit,count,before,filed,_⟩ := insert_placed (new_sound max_items) free here
      fun item there => by cases there
    obtain ⟨rfl,rfl⟩ := List.append_eq_nil_iff.mp (before.symm.trans empty)
    have head : start.inUse.items[0]? = some (itemOf first) := by
      rw [filed]
      rfl
    have filed_pairs := pairs_insert here before filed
    have fits : start.item_count+rest.length ≤ start.max_items := by
      rw [count,limit]
      change 0+1+rest.length ≤ max_items
      omega
    rw [insertAll_cons,inserted,Option.map_some,Option.bind_some]
    simp only [List.head?_cons,List.tail_cons,Option.mem_some]
    rcases insertAll_from rest sound head fits later with ⟨⟨call,among,less⟩,stopped⟩ | ⟨kept,after,ran,sound,order⟩
    · refine iff_of_false ?_ ?_
      · rintro ⟨array,ended,_⟩
        rw [stopped] at ended
        cases ended
      · intro all
        exact all first rfl call among less
    · refine iff_of_true ⟨after,ran,sound.sorted,?_⟩ ?_
      · exact order.trans (filed_pairs.append_right rest)
      · rintro _ rfl call among
        exact kept call among

theorem insertAll_filed_three :
    Filed (insertAll [([3],7),([5],8),([4],9)] (new 3)) [([3],7),([5],8),([4],9)] :=
  (insertAll_filed_iff 3 _ (by decide) (by decide)).mpr (by decide)

theorem insertAll_descending_lost : ∃ calls, calls.length ≤ 2 ∧
    (∀ call ∈ calls, call.1.length ≤ SecondaryIndexItem.KEY_LIMIT) ∧ insertAll calls (new 2) = none ∧
      ¬Filed (insertAll calls (new 2)) calls := by
  have lost : insertAll [([5],7),([3],8)] (new 2) = none := by decide
  refine ⟨[([5],7),([3],8)],by decide,by decide,lost,?_⟩
  rintro ⟨array,ended,_⟩
  rw [lost] at ended
  cases ended

end SortedArray
end RemDb
