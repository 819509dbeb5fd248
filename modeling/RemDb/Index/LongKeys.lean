import RemDb.Index.Chains

namespace RemDb.PrimaryIndex
open RemDb.Lib PrimaryIndexItem

-- The item agrees with the key in the low byte of the size and in all bytes that
-- an item has.
def Agrees (item : PrimaryIndexItem) (key : Bytes) : Prop :=
  item.key_size = UInt8.ofNat key.length ∧ item.key_data = key.take KEY_DATA

instance (item : PrimaryIndexItem) (key : Bytes) : Decidable (Agrees item key) :=
  inferInstanceAs (Decidable (_ ∧ _))

def RejectsLong (index : PrimaryIndex) (key : Bytes) : Prop :=
  (index.find key = some (.error .recordNotFound,
    {index with stats:={index.stats with access_count:=usizeAdd index.stats.access_count 1}})) ∧
  index.delete key = some (.error .recordNotFound,index)

section Long
variable {index : PrimaryIndex} {key : Bytes} (long : KEY_DATA < key.length)
include long

theorem sameKey_long {item : PrimaryIndexItem} (width : item.key_data.length = KEY_DATA) :
    sameKey item key = if Agrees item key then none else some false := by
  have whole : item.key_data.take key.length = item.key_data :=
    List.take_of_length_le (width.symm ▸ Nat.le_of_lt long)
  rw [sameKey,whole]
  by_cases size : item.key_size = UInt8.ofNat key.length
  · rw [if_neg (not_not.mpr size)]
    by_cases bytes : item.key_data = key.take KEY_DATA
    · rw [if_neg (not_not.mpr bytes),if_neg (Nat.not_le.mpr long),if_pos ⟨size,bytes⟩]
    · rw [if_pos bytes,if_neg fun both => bytes both.2]
  · rw [if_pos size,if_neg fun both => size both.1]

theorem findLoop_long {cells : List Nat} {current : Option Nat} {fuel : Nat} (path : Segment index.next current cells none)
    (enough : cells.length < fuel) (widths : ∀ item ∈ cells, (index.items item).key_data.length = KEY_DATA) :
    findLoop index key fuel current =
      if ∃ item ∈ cells, Agrees (index.items item) key then none else some none := by
  induction cells generalizing current fuel with
  | nil =>
    obtain ⟨fuel,rfl⟩ := Nat.exists_eq_add_one_of_ne_zero (Nat.ne_of_gt enough)
    have stop : current = none := path
    subst current
    simp [findLoop]
  | cons item rest ih =>
    obtain ⟨fuel,rfl⟩ := Nat.exists_eq_add_one_of_ne_zero (Nat.ne_of_gt (Nat.lt_of_le_of_lt (Nat.zero_le _) enough))
    obtain ⟨rfl,onward⟩ := path
    rw [findLoop,sameKey_long long (widths item List.mem_cons_self)]
    by_cases agrees : Agrees (index.items item) key
    · simp [agrees]
    · have behind : (∃ each ∈ item :: rest, Agrees (index.items each) key) ↔ ∃ each ∈ rest, Agrees (index.items each) key := by
        simp [agrees]
      simp only [agrees,if_false,behind]
      exact ih onward (Nat.lt_of_succ_lt_succ enough) fun each member => widths each (List.mem_cons_of_mem _ member)

theorem deleteLoop_long (slot : Nat) (prev : Option Nat) {cells : List Nat} {current : Option Nat} {fuel : Nat}
    (path : Segment index.next current cells none) (enough : cells.length < fuel)
    (widths : ∀ item ∈ cells, (index.items item).key_data.length = KEY_DATA) :
    deleteLoop index key slot fuel prev current =
      if ∃ item ∈ cells, Agrees (index.items item) key then none else some (.error .recordNotFound,index) := by
  induction cells generalizing prev current fuel with
  | nil =>
    obtain ⟨fuel,rfl⟩ := Nat.exists_eq_add_one_of_ne_zero (Nat.ne_of_gt enough)
    have stop : current = none := path
    subst current
    simp [deleteLoop]
  | cons item rest ih =>
    obtain ⟨fuel,rfl⟩ := Nat.exists_eq_add_one_of_ne_zero (Nat.ne_of_gt (Nat.lt_of_le_of_lt (Nat.zero_le _) enough))
    obtain ⟨rfl,onward⟩ := path
    rw [deleteLoop,sameKey_long long (widths item List.mem_cons_self)]
    by_cases agrees : Agrees (index.items item) key
    · simp [agrees]
    · have behind : (∃ each ∈ item :: rest, Agrees (index.items each) key) ↔ ∃ each ∈ rest, Agrees (index.items each) key := by
        simp [agrees]
      simp only [agrees,if_false,behind]
      exact ih (some item) onward (Nat.lt_of_succ_lt_succ enough) fun each member => widths each (List.mem_cons_of_mem _ member)

end Long

-- Exactly when no item in the key's slot agrees with it as far as it goes.
theorem long_rejected_iff (index : PrimaryIndex) (entries : Multimap Bytes UInt16) (chains : Nat → List Nat)
    (spare : List Nat) (key : Bytes) (positive : 0 < index.hash_table_size) (holds : Holds index entries chains spare)
    (long : KEY_DATA < key.length) :
    RejectsLong index key ↔
      ∀ item ∈ chains (hashKey index.hash_table_size key), ¬Agrees (index.items item) key := by
  have inside := hashKey_lt positive key
  have path := holds.chained _ inside
  have enough := Nat.lt_succ_of_le (holds.chain_short inside)
  have widths : ∀ item ∈ chains (hashKey index.hash_table_size key), (index.items item).key_data.length = KEY_DATA :=
    fun item member => holds.widths item (holds.below_mem inside member)
  have searched := findLoop_long long path enough widths
  have removed := deleteLoop_long long (hashKey index.hash_table_size key) none path enough widths
  rw [RejectsLong,find,delete]
  simp only [chain] at searched removed
  rw [searched,removed]
  by_cases agrees : ∃ item ∈ chains (hashKey index.hash_table_size key), Agrees (index.items item) key
  · rw [if_pos agrees,if_pos agrees]
    obtain ⟨item,member,same⟩ := agrees
    refine iff_of_false ?_ fun all => all item member same
    rintro ⟨found,_⟩
    cases found
  · rw [if_neg agrees,if_neg agrees]
    refine iff_of_true ⟨rfl,rfl⟩ ?_
    intro item member same
    exact agrees ⟨item,member,same⟩

def emptyKey : PrimaryIndex :=
  ((new ⟨0,"t",[],[],0,1⟩ (fun _ => none) (fun _ => ⟨none,0,0,[]⟩) 1 1).insert [] 5).2

theorem emptyKey_represents : Represents emptyKey [([],5)] := by
  obtain ⟨represents,size,extent⟩ := new_represents ⟨0,"t",[],[],0,1⟩ (fun _ => none) (fun _ => ⟨none,0,0,[]⟩) 1
    (show 1 < usizeLimit by decide)
  have inserted := insert_represents (size ▸ Nat.one_pos) represents (show ([] : Bytes).length ≤ KEY_DATA by decide) 5
  rw [extent,if_neg (by decide)] at inserted
  obtain ⟨after,done,holds,_⟩ := inserted
  rw [emptyKey,done]
  exact holds

theorem long_rejected_ones : ∃ chains spare, Holds emptyKey [([],5)] chains spare ∧
    (RejectsLong emptyKey (List.replicate 200 1) ↔
      ∀ item ∈ chains (hashKey emptyKey.hash_table_size (List.replicate 200 1)),
        ¬Agrees (emptyKey.items item) (List.replicate 200 1)) := by
  obtain ⟨chains,spare,holds⟩ := emptyKey_represents
  have long : KEY_DATA < (List.replicate 200 (1 : UInt8)).length := by
    rw [List.length_replicate]
    decide
  exact ⟨chains,spare,holds,long_rejected_iff emptyKey _ chains spare (List.replicate 200 1) (by decide) holds long⟩

-- A key of 256 zero bytes runs past the bytes of the empty key.
theorem long_zeros_overrun : Represents emptyKey [([],5)] ∧ (emptyKey.find (List.replicate 256 0)).isNone ∧
    (emptyKey.delete (List.replicate 256 0)).isNone ∧ ¬RejectsLong emptyKey (List.replicate 256 0) := by
  have lost : (emptyKey.find (List.replicate 256 0)).isNone := by decide +kernel
  refine ⟨emptyKey_represents,lost,by decide +kernel,?_⟩
  rintro ⟨found,_⟩
  rw [found] at lost
  cases lost

end RemDb.PrimaryIndex
