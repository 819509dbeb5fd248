import RemDb.Index.SortedArray
import RemDb.Lib.Search

namespace RemDb
open RemDb.Lib

namespace SecondaryIndex

-- What a lookup compares an item with: the low byte of the size and the bytes
-- that an item has room for.
def probe (key : Bytes) : SecondaryIndexItem := ⟨UInt8.ofNat key.length,0,key.take SecondaryIndexItem.KEY_DATA⟩

def probeOrder (size : Nat) : SecondaryIndexItem → SecondaryIndexItem → Ordering :=
  compareLex (compareOn (·.key_size)) (compareOn fun item => item.key_data.take size)

instance : Std.TransCmp (probeOrder size) := inferInstanceAs (Std.TransCmp (compareLex _ _))

theorem compare_append {left right : Bytes} (same : left.length = right.length) (rest : Bytes)
    (apart : left ≠ right) : compare left (right ++ rest) = compare left right := by
  induction left generalizing right with
  | nil =>
    cases right with
    | nil => exact absurd rfl apart
    | cons byte right => cases same
  | cons first left ih =>
    cases right with
    | nil => cases same
    | cons byte right =>
      rw [List.cons_append,List.compare_cons_cons,List.compare_cons_cons]
      by_cases equal : first = byte
      · subst equal
        rw [ih (Nat.succ.inj same) fun tails => apart (tails ▸ rfl)]
      · cases order : compare first byte with
        | lt => rfl
        | eq => exact absurd (Std.LawfulEqCmp.compare_eq_iff_eq.mp order) equal
        | gt => rfl

theorem compare_padding (left right rest : Bytes) (same : left.length = right.length) :
    compare (left ++ rest) (right ++ rest) = compare left right := by
  induction left generalizing right with
  | nil =>
    cases right with
    | nil => exact Std.ReflCmp.compare_self
    | cons byte right => cases same
  | cons first left ih =>
    cases right with
    | nil => cases same
    | cons byte right =>
      rw [List.cons_append,List.cons_append,List.compare_cons_cons,List.compare_cons_cons,ih right (Nat.succ.inj same)]

theorem compare_take (left right : Bytes) (size : Nat) (ordered : (compare left right).isLE) :
    (compare (left.take size) (right.take size)).isLE := by
  induction left generalizing right size with
  | nil =>
    rw [List.take_nil]
    cases right.take size with
    | nil => rfl
    | cons byte right => rfl
  | cons first left ih =>
    cases right with
    | nil => cases ordered
    | cons byte right =>
      cases size with
      | zero => rfl
      | succ size =>
        rw [List.compare_cons_cons] at ordered
        rw [List.take_succ_cons,List.take_succ_cons,List.compare_cons_cons]
        cases order : compare first byte with
        | lt => rfl
        | eq =>
          rw [order,Ordering.eq_then] at ordered
          exact ih right size ordered
        | gt =>
          rw [order] at ordered
          cases ordered

theorem padded_data {item : SecondaryIndexItem} (padded : item.Padded) :
    item.key_data = item.key ++ List.replicate (SecondaryIndexItem.KEY_DATA-item.key.length) 0 :=
  congrArg SecondaryIndexItem.key_data padded.2

theorem padded_width {item : SecondaryIndexItem} (padded : item.Padded) :
    item.key_data.length = SecondaryIndexItem.KEY_DATA := by
  have short : item.key.length ≤ SecondaryIndexItem.KEY_DATA := Nat.le_trans padded.1 (by decide)
  rw [padded_data padded,List.length_append,List.length_replicate]
  omega

theorem probeOrder_ordered {left right : SecondaryIndexItem} (padded : left.Padded) (padded' : right.Padded) (size : Nat)
    (ordered : (compareItems left right).isLE) : (probeOrder size left right).isLE := by
  change ((compare left.key_size right.key_size).then
    (compare (left.key_data.take size) (right.key_data.take size))).isLE
  change ((compare left.key_size right.key_size).then ((compare left.key right.key).then
    (compare left.record_id right.record_id))).isLE at ordered
  cases sizes : compare left.key_size right.key_size with
  | lt => rfl
  | eq =>
    have lengths : left.key.length = right.key.length := by
      rw [← padded.length,← padded'.length,Std.LawfulEqCmp.compare_eq_iff_eq.mp sizes]
    have keys : (compare left.key right.key).isLE := by
      rw [sizes,Ordering.eq_then] at ordered
      cases order : compare left.key right.key with
      | lt => rfl
      | eq => rfl
      | gt =>
        rw [order] at ordered
        cases ordered
    rw [Ordering.eq_then]
    refine compare_take _ _ size ?_
    rw [padded_data padded,padded_data padded',lengths,compare_padding _ _ _ lengths]
    exact keys
  | gt =>
    rw [sizes] at ordered
    cases ordered

theorem compareKey_eq {item : SecondaryIndexItem} (width : item.key_data.length = SecondaryIndexItem.KEY_DATA)
    (key : Bytes) : compareKey item key =
      if probeOrder key.length item (probe key) = .eq ∧ SecondaryIndexItem.KEY_DATA < key.length then none
      else some (probeOrder key.length item (probe key)) := by
  have taken : (key.take SecondaryIndexItem.KEY_DATA).take key.length = key.take SecondaryIndexItem.KEY_DATA :=
    List.take_of_length_le (List.length_take_le' _ _)
  have order : probeOrder key.length item (probe key) = (compare item.key_size (UInt8.ofNat key.length)).then
      (compare (item.key_data.take key.length) (key.take SecondaryIndexItem.KEY_DATA)) := by
    change (compare item.key_size (UInt8.ofNat key.length)).then (compare (item.key_data.take key.length)
      ((key.take SecondaryIndexItem.KEY_DATA).take key.length)) = _
    rw [taken]
  rw [compareKey,order]
  simp only [width]
  by_cases sizes : item.key_size = UInt8.ofNat key.length
  · have same : compare item.key_size (UInt8.ofNat key.length) = .eq := Std.LawfulEqCmp.compare_eq_iff_eq.mpr sizes
    rw [if_neg (not_not.mpr sizes),same,Ordering.eq_then]
    by_cases long : SecondaryIndexItem.KEY_DATA < key.length
    · have whole : item.key_data.take key.length = item.key_data :=
        List.take_of_length_le (width.symm ▸ Nat.le_of_lt long)
      rw [whole]
      by_cases equal : item.key_data = key.take SecondaryIndexItem.KEY_DATA
      · rw [if_pos ⟨long,equal⟩,if_pos ⟨Std.LawfulEqCmp.compare_eq_iff_eq.mpr equal,long⟩]
      · have lengths : item.key_data.length = (key.take SecondaryIndexItem.KEY_DATA).length := by
          rw [width,List.length_take_of_le (Nat.le_of_lt long)]
        have decided := compare_append lengths (key.drop SecondaryIndexItem.KEY_DATA) equal
        rw [List.take_append_drop] at decided
        rw [if_neg fun both => equal both.2,decided,if_neg]
        intro both
        exact equal (Std.LawfulEqCmp.compare_eq_iff_eq.mp both.1)
    · rw [if_neg fun both => long both.1,if_neg fun both => long both.2,
        List.take_of_length_le (Nat.le_of_not_lt long)]
  · rw [if_pos sizes]
    cases order : compare item.key_size (UInt8.ofNat key.length) with
    | lt => simp
    | eq => exact absurd (Std.LawfulEqCmp.compare_eq_iff_eq.mp order) sizes
    | gt => simp

section Search
variable {items : List SecondaryIndexItem} {key : Bytes}

abbrev Searching (items : List SecondaryIndexItem) (key : Bytes) (low high : Nat) : Prop :=
  Window items (fun item => probeOrder key.length item (probe key) = .lt)
    (fun item => probeOrder key.length item (probe key) = .gt) low high

theorem binarySearch_spec (ordered : Ascending (probeOrder key.length) items)
    (wide : ∀ item ∈ items, item.key_data.length = SecondaryIndexItem.KEY_DATA) (fuel : Nat) {low high : Nat}
    (window : Searching items key low high) (enough : high+1-low < fuel) :
    (∃ hit item, items[hit]? = some item ∧ probeOrder key.length item (probe key) = .eq ∧
      binarySearch items key fuel low high =
        if SecondaryIndexItem.KEY_DATA < key.length then none else some (.ok hit)) ∨
    (∀ item ∈ items, probeOrder key.length item (probe key) ≠ .eq) ∧
      binarySearch items key fuel low high = some (.error .recordNotFound) := by
  induction fuel generalizing low high with
  | zero => omega
  | succ fuel ih =>
    rw [binarySearch]
    by_cases more : low ≤ high
    · obtain ⟨item,there⟩ := window.middle more
      have bounds : low ≤ (low+high)/2 ∧ (low+high)/2 ≤ high := by omega
      have member := List.mem_of_getElem? there
      rw [if_pos more]
      simp only [there,compareKey_eq (wide item member) key]
      cases order : probeOrder key.length item (probe key) with
      | lt =>
        simp only [reduceCtorEq,false_and,if_false]
        have falls : ∀ left right, (probeOrder key.length left right).isLE →
            probeOrder key.length right (probe key) = .lt → probeOrder key.length left (probe key) = .lt :=
          fun _ _ => Std.TransCmp.lt_of_isLE_of_lt
        exact ih (window.up ordered falls bounds there order) (by omega)
      | eq =>
        refine .inl ⟨(low+high)/2,item,there,order,?_⟩
        by_cases long : SecondaryIndexItem.KEY_DATA < key.length
        · simp [long]
        · simp [long]
      | gt =>
        simp only [reduceCtorEq,false_and,if_false]
        have rises : ∀ left right, (probeOrder key.length left right).isLE →
            probeOrder key.length left (probe key) = .gt → probeOrder key.length right (probe key) = .gt :=
          fun _ _ above greater => Std.TransCmp.gt_of_isGE_of_gt (Std.OrientedCmp.isGE_of_isLE above) greater
        by_cases zero : (low+high)/2 = 0
        · rw [if_pos zero]
          refine .inr ⟨?_,rfl⟩
          intro each among equal
          obtain ⟨place,here⟩ := List.mem_iff_getElem?.mp among
          rw [zero] at there
          rcases Nat.eq_zero_or_pos place with rfl | behind
          · rw [there] at here
            cases here
            rw [order] at equal
            cases equal
          · have above := pairwise_places ordered there here behind
            have greater := rises item each above order
            rw [greater] at equal
            cases equal
        · rw [if_neg zero]
          exact ih (window.down ordered rises bounds zero there order) (by omega)
    · obtain ⟨front,back,rfl,_,before,behind⟩ := window.split (Nat.lt_of_not_le more)
      rw [if_neg more]
      refine .inr ⟨?_,rfl⟩
      intro each among equal
      rcases List.mem_append.mp among with early | late
      · rw [before each early] at equal
        cases equal
      · rw [behind each late] at equal
        cases equal

theorem binarySearch_hit (fuel : Nat) {low high hit : Nat}
    (found : binarySearch items key fuel low high = some (.ok hit)) :
    low ≤ hit ∧ hit ≤ high ∧ ∃ item, items[hit]? = some item ∧ compareKey item key = some .eq := by
  induction fuel generalizing low high with
  | zero => cases found
  | succ fuel ih =>
    rw [binarySearch] at found
    split at found
    · next more =>
      simp only at found
      split at found
      · cases found
      · next item there =>
        split at found
        · cases found
        · next order =>
          obtain rfl := Except.ok.inj (Option.some.inj found)
          exact ⟨by omega,by omega,item,there,order⟩
        · obtain ⟨lower,upper,same⟩ := ih found
          exact ⟨by omega,upper,same⟩
        · split at found
          · cases found
          · obtain ⟨lower,upper,same⟩ := ih found
            exact ⟨lower,by omega,same⟩
    · cases found

theorem compareKey_short (wide : ∀ item ∈ items, item.key_data.length = SecondaryIndexItem.KEY_DATA)
    (short : key.length ≤ SecondaryIndexItem.KEY_DATA) {place : Nat} (there : items[place]? = some item) :
    compareKey item key = some (probeOrder key.length item (probe key)) := by
  rw [compareKey_eq (wide item (List.mem_of_getElem? there)) key,if_neg fun both => Nat.not_lt.mpr short both.2]

variable (ordered : Ascending (probeOrder key.length) items)
  (wide : ∀ item ∈ items, item.key_data.length = SecondaryIndexItem.KEY_DATA)
  (short : key.length ≤ SecondaryIndexItem.KEY_DATA)
include ordered wide short

-- A search that has gone up from the start has halved the rest each time. It
-- passes over an item with the key and at least two behind it from one width only.
theorem binarySearch_passes (fuel low halvings : Nat) {hit place : Nat} {item : SecondaryIndexItem}
    (halved : items.length-low = items.length/2^halvings)
    (found : binarySearch items key fuel low (items.length-1) = some (.ok hit)) (late : items.length ≤ hit+2)
    (there : items[place]? = some item) (equal : probeOrder key.length item (probe key) = .eq) (later : low ≤ place)
    (early : place+2 < items.length) : place+3 = items.length ∧ ∃ halvings, items.length/2^halvings = 3 := by
  induction fuel generalizing low halvings with
  | zero => cases found
  | succ fuel ih =>
    rw [binarySearch,if_pos (by omega)] at found
    simp only at found
    obtain ⟨mid_item,at_mid⟩ : ∃ mid_item, items[(low+(items.length-1))/2]? = some mid_item :=
      ⟨_,List.getElem?_eq_getElem (by omega)⟩
    rw [at_mid] at found
    simp only [compareKey_short wide short at_mid] at found
    cases order : probeOrder key.length mid_item (probe key) with
    | lt =>
      rw [order] at found
      have beyond : (low+(items.length-1))/2 < place := by
        by_contra behind
        rcases Nat.lt_or_eq_of_le (Nat.le_of_not_lt behind) with less | same
        · have above := pairwise_places ordered there at_mid less
          have lower := Std.TransCmp.lt_of_isLE_of_lt above order
          rw [equal] at lower
          cases lower
        · rw [← same,there] at at_mid
          cases at_mid
          rw [order] at equal
          cases equal
      refine ih ((low+(items.length-1))/2+1) (halvings+1) ?_ found (by omega)
      rw [pow_succ,← Nat.div_div_eq_div_mul,← halved]
      omega
    | eq =>
      rw [order] at found
      obtain rfl := Except.ok.inj (Option.some.inj found)
      exact ⟨by omega,halvings,by omega⟩
    | gt =>
      rw [order] at found
      simp only at found
      split at found
      · cases found
      · obtain ⟨_,upper,_⟩ := binarySearch_hit fuel found
        omega

theorem binarySearch_last_but_one (fuel low passed left : Nat) {item : SecondaryIndexItem}
    (halved : items.length-low = items.length/2^passed) (three : items.length/2^(passed+left) = 3)
    (enough : items.length-low < fuel)
    (there : items[items.length-2]? = some item) (equal : probeOrder key.length item (probe key) = .eq)
    (only : ∀ (place : Nat) item, items[place]? = some item → probeOrder key.length item (probe key) = .eq →
      items.length ≤ place+3) : binarySearch items key fuel low (items.length-1) = some (.ok (items.length-2)) := by
  induction fuel generalizing low passed left with
  | zero => omega
  | succ fuel ih =>
    have width : (items.length-low)/2^left = 3 := by
      rw [halved,Nat.div_div_eq_div_mul,← pow_add]
      exact three
    have wide_enough : 3 ≤ items.length-low := width ▸ Nat.div_le_self _ _
    rw [binarySearch,if_pos (by omega)]
    simp only
    obtain ⟨mid_item,at_mid⟩ : ∃ mid_item, items[(low+(items.length-1))/2]? = some mid_item :=
      ⟨_,List.getElem?_eq_getElem (by omega)⟩
    rw [at_mid]
    simp only [compareKey_short wide short at_mid]
    cases left with
    | zero =>
      rw [pow_zero,Nat.div_one] at width
      have middle : (low+(items.length-1))/2 = items.length-2 := by omega
      rw [middle,there] at at_mid
      cases at_mid
      rw [equal,middle]
    | succ left =>
      have double : 6 ≤ items.length-low := by
        rw [pow_succ,Nat.mul_comm,← Nat.div_div_eq_div_mul] at width
        have half : 3 ≤ (items.length-low)/2 := width ▸ Nat.div_le_self _ _
        omega
      have less : probeOrder key.length mid_item (probe key) = .lt := by
        have above := pairwise_places ordered at_mid there (by omega)
        have lower := Std.TransCmp.isLE_trans above (equal ▸ rfl : (probeOrder key.length item (probe key)).isLE)
        cases order : probeOrder key.length mid_item (probe key) with
        | lt => rfl
        | eq =>
          have bound := only _ mid_item at_mid order
          omega
        | gt =>
          rw [order] at lower
          cases lower
      rw [less]
      refine ih _ (passed+1) left ?_ ?_ (by omega)
      · rw [pow_succ,← Nat.div_div_eq_div_mul,← halved]
        omega
      · rw [← three]
        congr 2
        omega

end Search
end SecondaryIndex

namespace SortedArray
open SecondaryIndex

-- `find` answers with an item of the key exactly when there is one.
def FindMeets (array : SortedArray) (key : Bytes) : Prop :=
  (∃ item ∈ array.inUse.items, item.key = key ∧ array.inUse.find key = some (.ok item.record_id)) ∨
    (∀ item ∈ array.inUse.items, item.key ≠ key) ∧ array.inUse.find key = some (.error .recordNotFound)

def DeleteMeets (platform : Platform) (array : SortedArray) (key : Bytes) : Prop :=
  (∃ front item back after, array.inUse.items = front ++ item :: back ∧ item.key = key ∧
      array.delete platform key = some (.ok (),after) ∧ after.inUse.items = front ++ back ∧ after.Sound ∧
      after.max_items = array.max_items) ∨
    (∀ item ∈ array.inUse.items, item.key ≠ key) ∧ array.delete platform key = some (.error .recordNotFound,array)

-- A key with more bytes than an item has room for, that an item agrees with as
-- far as it goes.
def Overread (array : SortedArray) (key : Bytes) : Prop :=
  SecondaryIndexItem.KEY_DATA < key.length ∧
    ∃ item ∈ array.inUse.items, item.key_size = UInt8.ofNat key.length ∧
      item.key_data = key.take SecondaryIndexItem.KEY_DATA

-- The search hits an item with at most one behind it: no others have the key, or
-- the last but one and the last but two have, and the search skips the latter.
def NearEnd (array : SortedArray) (key : Bytes) : Prop :=
  (∀ (place : Nat) item, array.inUse.items[place]? = some item → item.key = key → array.item_count ≤ place+2) ∨
    (∃ halvings, array.item_count/2^halvings = 3) ∧
      (∀ (place : Nat) item, array.inUse.items[place]? = some item → item.key = key → array.item_count ≤ place+3) ∧
      ∃ item, array.inUse.items[array.item_count-2]? = some item ∧ item.key = key

section Lookups
variable {array : SortedArray} {key : Bytes}

theorem Sound.probes (sound : array.Sound) (size : Nat) : Ascending (probeOrder size) array.inUse.items := by
  have sorted : array.inUse.items.Pairwise fun left right => (compareItems left right).isLE := sound.sorted
  refine sorted.imp_of_mem ?_
  intro left right here there ordered
  exact probeOrder_ordered (sound.padded left here) (sound.padded right there) size ordered

theorem Sound.wide (sound : array.Sound) :
    ∀ item ∈ array.inUse.items, item.key_data.length = SecondaryIndexItem.KEY_DATA := fun item member =>
  padded_width (sound.padded item member)

theorem probe_short {item : SecondaryIndexItem} (padded : item.Padded) (short : key.length ≤ SecondaryIndexItem.KEY_DATA) :
    probeOrder key.length item (probe key) = .eq ↔ item.key = key := by
  have width := padded.length
  have size : (UInt8.ofNat key.length).toNat = key.length := by
    rw [UInt8.toNat_ofNat']
    exact Nat.mod_eq_of_lt (Nat.lt_of_le_of_lt short (by decide))
  simp only [probeOrder,compareLex_eq_eq,compareOn,Std.LawfulEqCmp.compare_eq_iff_eq,probe,
    List.take_of_length_le short,List.take_length]
  constructor
  · rintro ⟨sizes,bytes⟩
    rw [SecondaryIndexItem.key,sizes,size]
    exact bytes
  · rintro rfl
    refine ⟨padded.size,?_⟩
    rw [← width]
    rfl

theorem probe_long {item : SecondaryIndexItem} (padded : item.Padded) (long : SecondaryIndexItem.KEY_DATA < key.length) :
    probeOrder key.length item (probe key) = .eq ↔
      item.key_size = UInt8.ofNat key.length ∧ item.key_data = key.take SecondaryIndexItem.KEY_DATA := by
  have whole : item.key_data.take key.length = item.key_data :=
    List.take_of_length_le (padded_width padded ▸ Nat.le_of_lt long)
  have taken : (key.take SecondaryIndexItem.KEY_DATA).take key.length = key.take SecondaryIndexItem.KEY_DATA :=
    List.take_of_length_le (List.length_take_le' _ _)
  simp only [probeOrder,compareLex_eq_eq,compareOn,Std.LawfulEqCmp.compare_eq_iff_eq,probe,whole,taken]

theorem search_filled (sound : array.Sound) (filled : 0 < array.item_count) : array.search key =
    binarySearch array.inUse.items key (array.inUse.items.length+1) 0 (array.inUse.items.length-1) := by
  rw [search,if_neg (Nat.ne_of_gt filled),sound.length]

theorem search_cases (sound : array.Sound) (key : Bytes) :
    (key.length ≤ SecondaryIndexItem.KEY_DATA ∧ ∃ (hit : Nat) (item : SecondaryIndexItem),
      array.inUse.items[hit]? = some item ∧ item.key = key ∧ array.search key = some (.ok hit)) ∨
    (¬array.Overread key ∧ (∀ item ∈ array.inUse.items, item.key ≠ key) ∧
      array.search key = some (.error .recordNotFound)) ∨
    array.Overread key ∧ (∀ item ∈ array.inUse.items, item.key ≠ key) ∧ array.search key = none := by
  have length := sound.length
  have no_long : SecondaryIndexItem.KEY_DATA < key.length → ∀ item ∈ array.inUse.items, item.key ≠ key := by
    rintro long item member rfl
    have short := (sound.padded item member).1
    exact absurd (Nat.lt_of_lt_of_le long short) (by decide)
  by_cases empty : array.item_count = 0
  · have none_there : array.inUse.items = [] := List.length_eq_zero_iff.mp (length.trans empty)
    refine .inr (.inl ⟨?_,?_,?_⟩)
    · rintro ⟨_,item,member,_⟩
      rw [none_there] at member
      cases member
    · intro item member
      rw [none_there] at member
      cases member
    · rw [search,if_pos empty]
  · have filled := Nat.pos_of_ne_zero empty
    have window : Searching array.inUse.items key 0 (array.inUse.items.length-1) := Window.whole (length.symm ▸ filled)
    rw [search_filled sound filled]
    rcases binarySearch_spec (sound.probes key.length) sound.wide (array.inUse.items.length+1) window (by omega) with
      ⟨hit,item,there,equal,ran⟩ | ⟨apart,ran⟩
    · have padded := sound.padded item (List.mem_of_getElem? there)
      by_cases long : SecondaryIndexItem.KEY_DATA < key.length
      · rw [if_pos long] at ran
        exact .inr (.inr ⟨⟨long,item,List.mem_of_getElem? there,(probe_long padded long).mp equal⟩,no_long long,ran⟩)
      · rw [if_neg long] at ran
        have short := Nat.le_of_not_lt long
        exact .inl ⟨short,hit,item,there,(probe_short padded short).mp equal,ran⟩
    · refine .inr (.inl ⟨?_,?_,ran⟩)
      · rintro ⟨long,item,member,agrees⟩
        exact apart item member ((probe_long (sound.padded item member) long).mpr agrees)
      · intro item member same
        by_cases long : SecondaryIndexItem.KEY_DATA < key.length
        · exact no_long long item member same
        · exact apart item member ((probe_short (sound.padded item member) (Nat.le_of_not_lt long)).mpr same)

theorem nearEnd_iff (sound : array.Sound) (short : key.length ≤ SecondaryIndexItem.KEY_DATA) {hit : Nat}
    {found : SecondaryIndexItem} (here : array.inUse.items[hit]? = some found) (same : found.key = key)
    (ran : array.search key = some (.ok hit)) : array.NearEnd key ↔ array.item_count ≤ hit+2 := by
  have length := sound.length
  have bound := (List.getElem?_eq_some_iff.mp here).1
  have ordered := sound.probes key.length
  have equal_of : ∀ (place : Nat) item, array.inUse.items[place]? = some item → item.key = key →
      probeOrder key.length item (probe key) = .eq := fun place item there =>
    (probe_short (sound.padded item (List.mem_of_getElem? there)) short).mpr
  have key_of : ∀ (place : Nat) item, array.inUse.items[place]? = some item →
      probeOrder key.length item (probe key) = .eq → item.key = key := fun place item there =>
    (probe_short (sound.padded item (List.mem_of_getElem? there)) short).mp
  rw [search_filled sound (by omega)] at ran
  constructor
  · rintro (each | ⟨⟨halvings,three⟩,only,item,there,key_same⟩)
    · exact each hit found here same
    · rw [← length] at three there only
      have last := binarySearch_last_but_one ordered sound.wide short (array.inUse.items.length+1) 0 0 halvings
        (by simp) (by rw [Nat.zero_add]; exact three) (by omega) there (equal_of _ item there key_same)
        fun place item there equal => only place item there (key_of place item there equal)
      rw [last] at ran
      obtain rfl := Except.ok.inj (Option.some.inj ran)
      omega
  · intro late
    by_cases all_late : ∀ (place : Nat) item, array.inUse.items[place]? = some item → item.key = key →
        array.item_count ≤ place+2
    · exact .inl all_late
    · push Not at all_late
      obtain ⟨place,item,there,key_same,early⟩ := all_late
      have passed : ∀ (place : Nat) item, array.inUse.items[place]? = some item → item.key = key →
          place+2 < array.item_count →
          place+3 = array.inUse.items.length ∧ ∃ halvings, array.inUse.items.length/2^halvings = 3 := by
        intro place item there key_same early
        exact binarySearch_passes ordered sound.wide short (array.inUse.items.length+1) 0 0 (by simp) ran
          (length.symm ▸ late) there (equal_of place item there key_same) (Nat.zero_le _) (length.symm ▸ early)
      obtain ⟨third,halved⟩ := passed place item there key_same early
      rw [length] at third halved
      refine .inr ⟨halved,?_,?_⟩
      · intro other each at_other each_same
        by_contra less
        have reached := (passed other each at_other each_same (by omega)).1
        omega
      · -- what lies between two items of the key has it as well
        obtain ⟨middle,at_middle⟩ : ∃ middle, array.inUse.items[array.item_count-2]? = some middle :=
          ⟨_,List.getElem?_eq_getElem (by omega)⟩
        refine ⟨middle,at_middle,?_⟩
        rcases Nat.lt_or_eq_of_le (by omega : array.item_count-2 ≤ hit) with less | at_hit
        · have above := pairwise_places ordered there at_middle (by omega)
          have below := pairwise_places ordered at_middle here less
          have low_end := equal_of place item there key_same
          have high_end := equal_of hit found here same
          refine key_of _ middle at_middle ?_
          cases order : probeOrder key.length middle (probe key) with
          | lt =>
            have lower := Std.TransCmp.lt_of_isLE_of_lt above order
            rw [low_end] at lower
            cases lower
          | eq => rfl
          | gt =>
            have upper := Std.TransCmp.gt_of_isGE_of_gt (Std.OrientedCmp.isGE_of_isLE below) order
            rw [high_end] at upper
            cases upper
        · rw [at_hit,here] at at_middle
          cases at_middle
          exact same

theorem find_search (sound : array.Sound) (key : Bytes) : array.inUse.find key = match array.search key with
    | none => none
    | some (.error failure) => some (.error failure)
    | some (.ok place) => (array.inUse.items[place]?).map fun item => .ok item.record_id := by
  have length := sound.length
  by_cases empty : array.item_count = 0
  · have none_there : array.inUse.items = [] := List.length_eq_zero_iff.mp (length.trans empty)
    rw [SecondaryIndex.find,if_pos none_there,search,if_pos empty]
  · have filled := Nat.pos_of_ne_zero empty
    have some_there : array.inUse.items ≠ [] := List.ne_nil_of_length_pos (length.symm ▸ filled)
    rw [SecondaryIndex.find,if_neg some_there,search_filled sound filled]
    try rfl

-- The copy of two or more items is over its own source.
theorem delete_at (sound : array.Sound) (platform : Platform) {front back : List SecondaryIndexItem}
    {item : SecondaryIndexItem} (parts : array.inUse.items = front ++ item :: back)
    (ran : array.search key = some (.ok front.length)) :
    (platform = .posix ∧ 2 ≤ back.length) ∧ array.delete platform key = none ∨
      ¬(platform = .posix ∧ 2 ≤ back.length) ∧ ∃ after, array.delete platform key = some (.ok (),after) ∧
        after.inUse.items = front ++ back ∧ after.Sound ∧ after.max_items = array.max_items := by
  have length := sound.length
  obtain ⟨unused,memory,spare⟩ := sound.memory
  have backed := sound.backed
  rw [parts] at length memory
  rw [List.length_append,List.length_cons] at length
  have behind : array.item_count-front.length-1 = back.length := by omega
  rw [delete,ran]
  simp only
  by_cases overlaps : platform = .posix ∧ 2 ≤ back.length
  · refine .inl ⟨overlaps,?_⟩
    have copies : array.closeGap platform front.length = none := by
      rw [closeGap,if_pos (by omega),Platform.memcpyItems,if_pos ⟨overlaps.1,by omega,by omega⟩]
    rw [copies]
    rfl
  · refine .inr ⟨overlaps,?_⟩
    have moved : ∃ last, array.closeGap platform front.length = some (front ++ back ++ last :: unused) := by
      rw [closeGap,behind,memory]
      cases back with
      | nil =>
        refine ⟨item,?_⟩
        rw [if_neg (by simp only [List.length_nil] at length; omega)]
        simp
      | cons next back =>
        rw [if_pos (by simp only [List.length_cons] at length; omega),Platform.memcpyItems,if_neg]
        · exact copyDown_moves front item (next :: back) unused
        · rintro ⟨posix,_,within⟩
          exact overlaps ⟨posix,by omega⟩
    obtain ⟨last,moved⟩ := moved
    have stored := store_middle (front ++ back) last .blank unused
    have place : (front ++ back).length = array.item_count-1 := by
      rw [List.length_append]
      omega
    rw [place] at stored
    have whole : ((front ++ back) ++ (SecondaryIndexItem.blank :: unused)).length = array.max_items := by
      rw [memory] at backed
      simp only [List.length_append,List.length_cons] at backed ⊢
      omega
    have sorted : SortedItems (front ++ back) := by
      have all := sound.sorted
      rw [parts] at all
      exact all.sublist ((List.Sublist.refl front).append (List.sublist_cons_self item back))
    have padded : ∀ each ∈ front ++ back, each.Padded := by
      intro each member
      refine sound.padded each ?_
      rw [parts]
      rcases List.mem_append.mp member with among | among
      · exact List.mem_append_left _ among
      · exact List.mem_append_right _ (List.mem_cons_of_mem _ among)
    obtain ⟨after_sound,after_items⟩ := sound_of_memory array
      {array.stats with item_count:=array.item_count-1} whole place sorted padded
    refine ⟨_,?_,after_items,after_sound,rfl⟩
    rw [moved]
    simp only [Option.bind_eq_bind,Option.bind_some,stored,Option.pure_def]

theorem findMeets_iff (sound : array.Sound) : array.FindMeets key ↔ ¬array.Overread key := by
  have code := find_search sound key
  rcases search_cases sound key with ⟨short,hit,item,there,same,ran⟩ | ⟨safe,absent,ran⟩ | ⟨overread,absent,ran⟩
  · rw [ran] at code
    simp only [there,Option.map_some] at code
    refine iff_of_true (.inl ⟨item,List.mem_of_getElem? there,same,code⟩) ?_
    rintro ⟨long,_⟩
    exact Nat.not_lt.mpr short long
  · rw [ran] at code
    exact iff_of_true (.inr ⟨absent,code⟩) safe
  · rw [ran] at code
    refine iff_of_false ?_ (not_not.mpr overread)
    rintro (⟨_,_,_,found⟩ | ⟨_,missed⟩)
    · rw [code] at found
      cases found
    · rw [code] at missed
      cases missed

theorem deleteMeets_iff (sound : array.Sound) (platform : Platform) :
    array.DeleteMeets platform key ↔ ¬array.Overread key ∧ (platform = .posix → array.NearEnd key) := by
  rcases search_cases sound key with ⟨short,hit,item,there,same,ran⟩ | ⟨safe,absent,ran⟩ | ⟨overread,absent,ran⟩
  · have safe : ¬array.Overread key := fun overread => Nat.not_lt.mpr short overread.1
    have near := nearEnd_iff sound short there same ran
    obtain ⟨bound,rfl⟩ := List.getElem?_eq_some_iff.mp there
    have length := sound.length
    have parts : array.inUse.items = array.inUse.items.take hit ++ array.inUse.items[hit] :: array.inUse.items.drop (hit+1) := by
      rw [List.cons_getElem_drop_succ,List.take_append_drop]
    have front : (array.inUse.items.take hit).length = hit := List.length_take_of_le (Nat.le_of_lt bound)
    have back : (array.inUse.items.drop (hit+1)).length = array.item_count-(hit+1) := by
      rw [List.length_drop,length]
    rw [near,and_iff_right safe]
    rw [← front] at ran
    rcases delete_at sound platform parts ran with ⟨⟨posix,overlaps⟩,lost⟩ | ⟨apart,after,deleted,left,after_sound,limit⟩
    · refine iff_of_false ?_ ?_
      · rintro (⟨_,_,_,after,_,_,done,_⟩ | ⟨absent,_⟩)
        · rw [lost] at done
          cases done
        · exact absent _ (List.getElem_mem bound) same
      · intro late
        have ends := late posix
        omega
    · refine iff_of_true (.inl ⟨_,_,_,after,parts,same,deleted,left,after_sound,limit⟩) ?_
      intro posix
      by_contra early
      exact apart ⟨posix,by omega⟩
  · refine iff_of_true (.inr ⟨absent,?_⟩) ⟨safe,fun _ => .inl ?_⟩
    · rw [delete,ran]
    · intro place item there same
      exact absurd same (absent item (List.mem_of_getElem? there))
  · have lost : array.delete platform key = none := by
      rw [delete,ran]
    refine iff_of_false ?_ fun both => both.1 overread
    rintro (⟨_,_,_,after,_,_,done,_⟩ | ⟨_,missed⟩)
    · rw [lost] at done
      cases done
    · rw [lost] at missed
      cases missed

end Lookups

-- Exactly when no item is read past its bytes, and none but the last is copied
-- over itself where such a copy has no meaning.
theorem lookup_delete_iff (platform : Platform) (array : SortedArray) (key : Bytes) (sound : array.Sound) :
    array.FindMeets key ∧ array.DeleteMeets platform key ↔
      ¬array.Overread key ∧ (platform = .posix → array.NearEnd key) := by
  rw [findMeets_iff sound,deleteMeets_iff sound platform]
  constructor
  · exact fun both => both.2
  · exact fun both => ⟨both.1,both⟩

def threeItems : SortedArray := ⟨[.ofKey [1] 5,.ofKey [3] 6,.ofKey [5] 7],3,3,⟨0,0,396,3⟩⟩

theorem threeItems_sound : threeItems.Sound := by
  refine ⟨rfl,Nat.le_refl 3,?_,?_⟩
  · change List.Pairwise (fun left right => (compareItems left right).isLE = true)
      [.ofKey [1] 5,.ofKey [3] 6,.ofKey [5] 7]
    decide
  · intro item among
    rcases List.mem_cons.mp among with rfl | among
    · exact ofKey_padded (by decide) 5
    · rcases List.mem_cons.mp among with rfl | among
      · exact ofKey_padded (by decide) 6
      · cases List.mem_singleton.mp among
        exact ofKey_padded (by decide) 7

theorem lookup_delete_three : threeItems.FindMeets [3] ∧ threeItems.DeleteMeets .posix [3] ↔
    ¬threeItems.Overread [3] ∧ (Platform.posix = .posix → threeItems.NearEnd [3]) :=
  lookup_delete_iff .posix threeItems [3] threeItems_sound

def blankItem : SortedArray := ⟨[.ofKey [] 5],1,1,⟨0,0,132,1⟩⟩

theorem blankItem_sound : blankItem.Sound := by
  refine ⟨rfl,Nat.le_refl 1,List.pairwise_singleton _ _,?_⟩
  intro item among
  cases List.mem_singleton.mp among
  exact ofKey_padded (by decide) 5

def zeroKey : Bytes := List.replicate 256 0

-- The first of three is not deleted; a key of 256 zero bytes is not looked up
-- where the empty key is stored.
theorem lookup_delete_lost : threeItems.Sound ∧ threeItems.delete .posix [1] = none ∧ ¬threeItems.DeleteMeets .posix [1] ∧
    blankItem.Sound ∧ blankItem.inUse.find zeroKey = none ∧ ¬blankItem.FindMeets zeroKey := by
  have lost : threeItems.delete .posix [1] = none := by decide +kernel
  have stopped : blankItem.inUse.find zeroKey = none := by decide +kernel
  refine ⟨threeItems_sound,lost,?_,blankItem_sound,stopped,?_⟩
  · rintro (⟨_,_,_,after,_,_,done,_⟩ | ⟨_,missed⟩)
    · rw [lost] at done
      cases done
    · rw [lost] at missed
      cases missed
  · rintro (⟨_,_,_,found⟩ | ⟨_,missed⟩)
    · rw [stopped] at found
      cases found
    · rw [stopped] at missed
      cases missed

end SortedArray
end RemDb
