import RemDb.Index.Primary

namespace RemDb.PrimaryIndex
open RemDb.Lib PrimaryIndexItem

def entry (index : PrimaryIndex) (item : Nat) : Bytes × UInt16 :=
  ((index.items item).key_data.take (index.items item).key_size.toNat,(index.items item).record_id)

def next (index : PrimaryIndex) (item : Nat) : Option Nat := (index.items item).next
def chain (index : PrimaryIndex) (slot : Nat) : Links := ⟨index.hash_table slot,index.next⟩
def spares (index : PrimaryIndex) : Links := ⟨index.free_items,index.next⟩

-- The slots hold the entries that hash to them, newest first, and together
-- with the spare items they use up the pool.
structure Holds (index : PrimaryIndex) (entries : Multimap Bytes UInt16) (chains : Nat → List Nat)
    (spare : List Nat) : Prop where
  chained : ∀ slot, slot < index.hash_table_size → (index.chain slot).Lists (chains slot)
  spared : index.spares.Lists spare
  partition : ((List.range index.hash_table_size).flatMap chains ++ spare).Perm (List.range index.max_items)
  bucketed : ∀ slot, slot < index.hash_table_size →
    (chains slot).map index.entry = entries.bucket (hashKey index.hash_table_size) slot
  live : ((List.range index.hash_table_size).flatMap chains).length = entries.length
  widths : ∀ item, item < index.max_items → (index.items item).key_data.length = KEY_DATA
  sizes : ∀ slot, slot < index.hash_table_size → ∀ item ∈ chains slot, (index.items item).key_size.toNat ≤ KEY_DATA
  counted : index.stats.item_count = entries.length
  bounded : index.max_items < usizeLimit

namespace Holds

variable {index : PrimaryIndex} {entries : Multimap Bytes UInt16} {chains : Nat → List Nat} {spare : List Nat}

theorem distinct (holds : Holds index entries chains spare) :
    ((List.range index.hash_table_size).flatMap chains ++ spare).Nodup :=
  holds.partition.nodup_iff.mpr List.nodup_range

theorem chain_mem (inside : slot < index.hash_table_size) (member : item ∈ chains slot) :
    item ∈ (List.range index.hash_table_size).flatMap chains :=
  List.mem_flatMap.mpr ⟨slot,List.mem_range.mpr inside,member⟩

theorem chain_nodup (holds : Holds index entries chains spare) (inside : slot < index.hash_table_size) :
    (chains slot).Nodup := by
  have whole := (List.nodup_append.mp holds.distinct).1
  exact (List.nodup_flatMap.mp whole).1 slot (List.mem_range.mpr inside)

theorem spare_apart (holds : Holds index entries chains spare) (inside : slot < index.hash_table_size)
    (member : item ∈ chains slot) : item ∉ spare := by
  intro present
  exact (List.nodup_append.mp holds.distinct).2.2 item (chain_mem inside member) item present rfl

theorem below_mem (holds : Holds index entries chains spare) (inside : slot < index.hash_table_size)
    (member : item ∈ chains slot) : item < index.max_items :=
  List.mem_range.mp (holds.partition.subset (List.mem_append_left _ (chain_mem inside member)))

theorem hashed (holds : Holds index entries chains spare) (inside : slot < index.hash_table_size)
    (member : item ∈ chains slot) : hashKey index.hash_table_size (index.entry item).1 = slot := by
  have among : index.entry item ∈ (chains slot).map index.entry := List.mem_map_of_mem member
  rw [holds.bucketed slot inside] at among
  simpa using (List.mem_filter.mp among).2

theorem slots_apart (holds : Holds index entries chains spare) (inside : slot < index.hash_table_size)
    (inside' : slot' < index.hash_table_size) (member : item ∈ chains slot) (member' : item ∈ chains slot') :
    slot = slot' :=
  (holds.hashed inside member).symm.trans (holds.hashed inside' member')

theorem chain_short (holds : Holds index entries chains spare) (inside : slot < index.hash_table_size) :
    (chains slot).length ≤ index.max_items := by
  have included : (chains slot).Subperm (List.range index.max_items) := by
    apply (holds.chain_nodup inside).subperm
    intro item member
    exact List.mem_range.mpr (holds.below_mem inside member)
  simpa using included.length_le

theorem total (holds : Holds index entries chains spare) : entries.length+spare.length = index.max_items := by
  have sizes := holds.partition.length_eq
  rw [List.length_append,List.length_range,holds.live] at sizes
  exact sizes

end Holds

theorem hashKey_lt (positive : 0 < size) (key : Bytes) : hashKey size key < size := Nat.mod_lt _ positive

theorem sameKey_entry {index : PrimaryIndex} (short : key.length ≤ KEY_DATA)
    (width : (index.items item).key_data.length = KEY_DATA)
    (size : (index.items item).key_size.toNat ≤ KEY_DATA) :
    sameKey (index.items item) key = some (decide ((index.entry item).1 = key)) := by
  have byte : (UInt8.ofNat key.length).toNat = key.length := by
    rw [UInt8.toNat_ofNat']
    simp only [KEY_DATA] at short
    omega
  by_cases same : (index.items item).key_size = UInt8.ofNat key.length
  · have whole : key.take KEY_DATA = key := List.take_of_length_le short
    rw [sameKey,if_neg (by simpa using same),whole,entry,same,byte]
    by_cases equal : (index.items item).key_data.take key.length = key
    · rw [if_neg (by simpa using equal),if_pos short,equal]
      simp
    · rw [if_pos equal]
      simpa using equal
  · rw [sameKey,if_pos same]
    have longer : (index.entry item).1 ≠ key := by
      intro equal
      apply same
      have length := congrArg List.length equal
      rw [entry,List.length_take,width,Nat.min_eq_left size] at length
      rw [← UInt8.toNat_inj,byte,length]
    simpa using longer

theorem findLoop_first {index : PrimaryIndex} (path : Segment index.next current cells none)
    (enough : cells.length < fuel)
    (compares : ∀ item ∈ cells, sameKey (index.items item) key = some (decide ((index.entry item).1 = key))) :
    findLoop index key fuel current = some (cells.find? fun item => (index.entry item).1 = key) := by
  induction cells generalizing current fuel with
  | nil =>
    obtain ⟨fuel,rfl⟩ : ∃ less, fuel = less+1 := ⟨fuel-1,by simp at enough; omega⟩
    have stop : current = none := path
    subst current
    rfl
  | cons item rest ih =>
    obtain ⟨fuel,rfl⟩ : ∃ less, fuel = less+1 := ⟨fuel-1,by simp at enough; omega⟩
    obtain ⟨rfl,onward⟩ := path
    have compared := compares item List.mem_cons_self
    rw [findLoop,compared]
    by_cases found : (index.entry item).1 = key
    · simp [found]
    · simp only [found,decide_false,Bool.false_eq_true,not_false_eq_true,List.find?_cons_of_neg]
      exact ih onward (by simp at enough; omega) fun each member =>
        compares each (List.mem_cons_of_mem _ member)

theorem find_lookup (index : PrimaryIndex) (key : Bytes) (cells : List Nat) :
    (cells.find? fun item => (index.entry item).1 = key).map (fun item => (index.items item).record_id) =
      Multimap.lookup (cells.map index.entry) key := by
  induction cells with
  | nil => rfl
  | cons item rest ih =>
    by_cases found : (index.entry item).1 = key
    · rw [List.map_cons,Multimap.lookup_head found,List.find?_cons_of_pos (by simpa using found)]
      rfl
    · rw [List.map_cons,Multimap.lookup_cons_ne found,← ih]
      simp [found]

theorem deleteLoop_finds (index : PrimaryIndex) (key : Bytes) (slot : Nat) (back : List Nat) :
    ∀ front fuel, Segment index.next ((index.chain slot).get front.getLast?) back none → back.length < fuel →
      (∀ item ∈ back, sameKey (index.items item) key = some (decide ((index.entry item).1 = key))) →
      ((∀ item ∈ back, (index.entry item).1 ≠ key) ∧
        deleteLoop index key slot fuel front.getLast? ((index.chain slot).get front.getLast?) =
          some (.error .recordNotFound,index)) ∨
      ∃ skipped item rest, back = skipped ++ item :: rest ∧
        (∀ each ∈ skipped, (index.entry each).1 ≠ key) ∧ (index.entry item).1 = key ∧
        deleteLoop index key slot fuel front.getLast? ((index.chain slot).get front.getLast?) =
          some (.ok (),index.detach slot (front ++ skipped).getLast? item) := by
  induction back with
  | nil =>
    intro front fuel path enough _
    obtain ⟨fuel,rfl⟩ : ∃ less, fuel = less+1 := ⟨fuel-1,by simp at enough; omega⟩
    have stop : (index.chain slot).get front.getLast? = none := path
    left
    rw [stop]
    exact ⟨by simp,rfl⟩
  | cons item rest ih =>
    intro front fuel path enough compares
    obtain ⟨fuel,rfl⟩ : ∃ less, fuel = less+1 := ⟨fuel-1,by simp at enough; omega⟩
    obtain ⟨here,onward⟩ := path
    have compared := compares item List.mem_cons_self
    rw [here,deleteLoop,compared]
    by_cases found : (index.entry item).1 = key
    · right
      refine ⟨[],item,rest,rfl,by simp,found,?_⟩
      simp [found]
    · have reached : (index.chain slot).get (front ++ [item]).getLast? = index.next item := by
        rw [List.getLast?_concat]
        rfl
      have outcome := ih (front ++ [item]) fuel (reached ▸ onward) (by simp at enough; omega)
        fun each member => compares each (List.mem_cons_of_mem _ member)
      rw [reached,List.getLast?_concat] at outcome
      simp only [found,decide_false]
      rcases outcome with ⟨none_left,failed⟩ | ⟨skipped,chosen,others,parts,before,same,removed⟩
      · left
        refine ⟨?_,failed⟩
        intro each member
        rcases List.mem_cons.mp member with rfl | among
        · exact found
        · exact none_left each among
      · right
        refine ⟨item :: skipped,chosen,others,by rw [parts]; rfl,?_,same,?_⟩
        · intro each member
          rcases List.mem_cons.mp member with rfl | among
          · exact found
          · exact before each among
        · rw [List.append_assoc] at removed
          exact removed

theorem attach_next (index : PrimaryIndex) (item : Nat) (key : Bytes) (record_id : UInt16) :
    (index.attach item key record_id).next =
      assign index.next item (index.hash_table (hashKey index.hash_table_size key)) :=
  assign_comp PrimaryIndexItem.next index.items item _

theorem attach_entry (index : PrimaryIndex) (item : Nat) (short : key.length ≤ KEY_DATA) (record_id : UInt16) :
    (index.attach item key record_id).entry = assign index.entry item (key,record_id) := by
  refine (assign_comp (fun each : PrimaryIndexItem => (each.key_data.take each.key_size.toNat,each.record_id))
    index.items item _).trans ?_
  have byte : (UInt8.ofNat key.length).toNat = key.length := by
    rw [UInt8.toNat_ofNat']
    simp only [KEY_DATA] at short
    omega
  dsimp only
  rw [byte,List.take_left]
  rfl

theorem Holds.attach {index : PrimaryIndex} (positive : 0 < index.hash_table_size)
    (holds : Holds index entries chains (item :: spare)) (short : key.length ≤ KEY_DATA)
    (record_id : UInt16) :
    Holds (index.attach item key record_id) ((key,record_id) :: entries)
      (assign chains (hashKey index.hash_table_size key)
        (item :: chains (hashKey index.hash_table_size key))) spare := by
  have inside := hashKey_lt positive key
  have fresh : ∀ slot, slot < index.hash_table_size → item ∉ chains slot := by
    intro slot below member
    exact holds.spare_apart below member List.mem_cons_self
  have outside : item ∉ spare := (List.nodup_cons.mp (List.nodup_append.mp holds.distinct).2.1).1
  have moved := flatMap_assign_perm (assign chains (hashKey index.hash_table_size key)
    (item :: chains (hashKey index.hash_table_size key))) inside (by rw [assign_same])
  rw [assign_back rfl] at moved
  have below : item < index.max_items := List.mem_range.mp (holds.partition.subset (by simp))
  have total := holds.total
  have bounded := holds.bounded
  refine ⟨?_,?_,?_,?_,?_,?_,?_,?_,bounded⟩
  · intro slot small
    by_cases same : slot = hashKey index.hash_table_size key
    · subst slot
      rw [assign_same]
      refine ⟨assign_same _ _ _,?_⟩
      change Segment (index.attach item key record_id).next ((index.attach item key record_id).next item) _ none
      rw [attach_next,assign_same]
      exact (holds.chained _ small).assign_outside (fresh _ small)
    · rw [assign_other _ same]
      change Segment (index.attach item key record_id).next
        (assign index.hash_table (hashKey index.hash_table_size key) (some item) slot) _ none
      rw [attach_next,assign_other _ same]
      exact (holds.chained _ small).assign_outside (fresh _ small)
  · have onward := holds.spared.2
    change Segment (index.attach item key record_id).next (index.next item) spare none
    rw [attach_next]
    exact onward.assign_outside outside
  · exact (moved.append_right spare).trans (List.perm_middle.symm.trans holds.partition)
  · intro slot small
    change _ = Multimap.bucket (hashKey index.hash_table_size) _ slot
    rw [attach_entry index item short,Multimap.bucket_cons]
    by_cases same : hashKey index.hash_table_size key = slot
    · subst slot
      rw [if_pos rfl,assign_same,List.map_cons,assign_same,map_assign_outside _ (fresh _ small),
        holds.bucketed _ small]
    · rw [if_neg same,assign_other _ (Ne.symm same),map_assign_outside _ (fresh _ small),
        holds.bucketed _ small]
  · exact moved.length_eq.trans (congrArg (·+1) holds.live)
  · intro each small
    change (assign index.items item _ each).key_data.length = KEY_DATA
    by_cases same : each = item
    · have width := holds.widths item below
      subst each
      rw [assign_same,List.length_append,List.length_drop,width]
      omega
    · rw [assign_other _ same]
      exact holds.widths each small
  · intro slot small each member
    change (assign index.items item _ each).key_size.toNat ≤ KEY_DATA
    by_cases same : each = item
    · subst each
      rw [assign_same]
      refine Nat.le_trans ?_ short
      rw [UInt8.toNat_ofNat']
      exact Nat.mod_le _ _
    · rw [assign_other _ same]
      refine holds.sizes slot small each ?_
      by_cases here : slot = hashKey index.hash_table_size key
      · subst slot
        rw [assign_same] at member
        exact (List.mem_cons.mp member).resolve_left same
      · rwa [assign_other _ here] at member
  · refine (usizeAdd_of_lt ?_).trans (congrArg (·+1) holds.counted)
    rw [holds.counted]
    rw [List.length_cons] at total
    omega

theorem detach_next (index : PrimaryIndex) (slot : Nat) (prev : Option Nat) (item : Nat) :
    (index.detach slot prev item).next =
      assign ((index.chain slot).set prev (index.next item)).next item index.free_items := by
  cases prev with
  | none => exact assign_comp PrimaryIndexItem.next index.items item _
  | some prev_item =>
    have inner := assign_comp PrimaryIndexItem.next index.items prev_item
      {index.items prev_item with next:=index.next item}
    exact (assign_comp PrimaryIndexItem.next _ item _).trans
      (congrArg (fun links => assign links item index.free_items) inner)

theorem detach_head (index : PrimaryIndex) (slot : Nat) (prev : Option Nat) (item : Nat) :
    (index.detach slot prev item).hash_table slot = ((index.chain slot).set prev (index.next item)).head := by
  cases prev with
  | none => exact assign_same _ _ _
  | some prev_item => rfl

theorem detach_other_head (index : PrimaryIndex) (prev : Option Nat) (item : Nat) (other : slot' ≠ slot) :
    (index.detach slot prev item).hash_table slot' = index.hash_table slot' := by
  cases prev with
  | none => exact assign_other _ other _
  | some prev_item => rfl

theorem detach_item (index : PrimaryIndex) (slot : Nat) (prev : Option Nat) (item each : Nat) :
    ∃ link, (index.detach slot prev item).items each = {index.items each with next:=link} := by
  have write : ∀ (base : Nat → PrimaryIndexItem) (cell : Nat) (target : Option Nat),
      (∃ link, base each = {index.items each with next:=link}) →
      ∃ link, assign base cell {base cell with next:=target} each = {index.items each with next:=link} := by
    rintro base cell target ⟨link,same⟩
    by_cases here : each = cell
    · subst cell
      rw [assign_same,same]
      exact ⟨target,rfl⟩
    · rw [assign_other _ here]
      exact ⟨link,same⟩
  cases prev with
  | none => exact write index.items item _ ⟨_,rfl⟩
  | some prev_item => exact write _ item _ (write index.items prev_item _ ⟨_,rfl⟩)

theorem detach_entry (index : PrimaryIndex) (slot : Nat) (prev : Option Nat) (item : Nat) :
    (index.detach slot prev item).entry = index.entry := by
  funext each
  obtain ⟨link,same⟩ := index.detach_item slot prev item each
  rw [entry,entry,same]

theorem detach_fixed (index : PrimaryIndex) (slot : Nat) (prev : Option Nat) (item : Nat) :
    (index.detach slot prev item).hash_table_size = index.hash_table_size ∧
      (index.detach slot prev item).max_items = index.max_items ∧
      (index.detach slot prev item).free_items = some item ∧
      (index.detach slot prev item).stats.item_count = usizeSub index.stats.item_count 1 := by
  cases prev with
  | none => exact ⟨rfl,rfl,rfl,rfl⟩
  | some prev_item => exact ⟨rfl,rfl,rfl,rfl⟩

theorem Holds.detach {index : PrimaryIndex} (positive : 0 < index.hash_table_size)
    (holds : Holds index entries chains spare)
    (parts : chains (hashKey index.hash_table_size key) = front ++ item :: back)
    (before : ∀ each ∈ front, (index.entry each).1 ≠ key) (same : (index.entry item).1 = key) :
    Holds (index.detach (hashKey index.hash_table_size key) front.getLast? item) (entries.remove key)
      (assign chains (hashKey index.hash_table_size key) (front ++ back)) (item :: spare) := by
  have inside := hashKey_lt positive key
  obtain ⟨size,extent,freed,count⟩ := index.detach_fixed (hashKey index.hash_table_size key) front.getLast? item
  have distinct : (front ++ item :: back).Nodup := parts ▸ holds.chain_nodup inside
  have member : ∀ each ∈ front ++ item :: back, each ∈ chains (hashKey index.hash_table_size key) := by
    intro each present
    rw [parts]
    exact present
  have apart : item ∉ front ++ back := by
    have middle := List.perm_middle.nodup_iff.mp distinct
    exact (List.nodup_cons.mp middle).1
  have moved := flatMap_assign_perm chains inside (parts ▸ List.perm_middle)
  have removed : entries.length = (entries.remove key).length+1 := by
    have among : index.entry item ∈ (chains (hashKey index.hash_table_size key)).map index.entry :=
      List.mem_map_of_mem (member item (by simp))
    rw [holds.bucketed _ inside] at among
    exact (same ▸ Multimap.length_remove (List.mem_filter.mp among).1).symm
  refine ⟨?_,?_,?_,?_,?_,?_,?_,?_,?_⟩
  · intro slot small
    rw [size] at small
    rw [chain,Links.Lists,detach_next]
    by_cases here : slot = hashKey index.hash_table_size key
    · subst slot
      have listed := holds.chained _ inside
      rw [parts] at listed
      rw [assign_same,detach_head]
      exact (listed.remove distinct).assign_outside apart
    · have elsewhere : ∀ each ∈ front ++ item :: back, each ∉ chains slot := by
        intro each present also
        exact here (holds.slots_apart small inside also (member each present))
      rw [assign_other _ here,detach_other_head _ _ _ here]
      refine Segment.assign_outside ?_ (elsewhere item (by simp))
      refine (holds.chained slot small).congr ?_
      intro each present
      exact Links.set_last_next _ (fun among => elsewhere each (by simp [among]) present) _
  · have listed := holds.spared
    rw [spares,Links.Lists,detach_next,freed]
    refine ⟨rfl,?_⟩
    dsimp only
    rw [assign_same]
    refine Segment.assign_outside ?_ (holds.spare_apart inside (member item (by simp)))
    refine listed.congr ?_
    intro each present
    refine Links.set_last_next _ (fun among => ?_) _
    exact holds.spare_apart inside (member each (by simp [among])) present
  · rw [size,extent]
    exact List.perm_middle.trans ((moved.symm.append_right spare).trans holds.partition)
  · intro slot small
    rw [size] at small ⊢
    rw [detach_entry,Multimap.bucket_remove,← holds.bucketed slot small]
    by_cases here : slot = hashKey index.hash_table_size key
    · subst slot
      rw [assign_same,parts,List.map_append,List.map_append,List.map_cons,Multimap.remove_append ?_ same]
      intro each present
      obtain ⟨cell,among,rfl⟩ := List.mem_map.mp present
      exact before cell among
    · rw [assign_other _ here,Multimap.remove_absent]
      intro each present equal
      obtain ⟨cell,among,rfl⟩ := List.mem_map.mp present
      exact here (equal ▸ holds.hashed small among).symm
  · rw [size]
    have shorter := moved.length_eq
    rw [holds.live,List.length_cons] at shorter
    omega
  · intro each small
    rw [extent] at small
    obtain ⟨link,kept⟩ := index.detach_item (hashKey index.hash_table_size key) front.getLast? item each
    rw [kept]
    exact holds.widths each small
  · intro slot small each present
    rw [size] at small
    obtain ⟨link,kept⟩ := index.detach_item (hashKey index.hash_table_size key) front.getLast? item each
    rw [kept]
    refine holds.sizes slot small each ?_
    by_cases here : slot = hashKey index.hash_table_size key
    · subst slot
      rw [assign_same] at present
      exact member each (by rcases List.mem_append.mp present with left | right <;> simp [*])
    · rwa [assign_other _ here] at present
  · have total := holds.total
    have bounded := holds.bounded
    rw [count,holds.counted,usizeSub_of_le] <;> omega
  · rw [extent]
    exact holds.bounded

theorem Holds.compares {index : PrimaryIndex} (holds : Holds index entries chains spare)
    (inside : slot < index.hash_table_size) (short : key.length ≤ KEY_DATA) :
    ∀ item ∈ chains slot, sameKey (index.items item) key = some (decide ((index.entry item).1 = key)) := by
  intro item member
  exact sameKey_entry short (holds.widths item (holds.below_mem inside member))
    (holds.sizes slot inside item member)

-- What the code keeps, for some way to read chains and spare items off it.
def Represents (index : PrimaryIndex) (entries : Multimap Bytes UInt16) : Prop :=
  ∃ chains spare, Holds index entries chains spare

theorem insert_represents {index : PrimaryIndex} (positive : 0 < index.hash_table_size)
    (holds : Represents index entries) (short : key.length ≤ KEY_DATA) (record_id : UInt16) :
    if entries.length = index.max_items then index.insert key record_id = (.error .outOfMemory,index)
    else ∃ inserted, index.insert key record_id = (.ok (),inserted) ∧
      Represents inserted ((key,record_id) :: entries) ∧
      inserted.hash_table_size = index.hash_table_size ∧ inserted.max_items = index.max_items := by
  obtain ⟨chains,spare,holds⟩ := holds
  have total := holds.total
  have fits : ¬key.length > KEY_DATA := by omega
  cases spare with
  | nil =>
    have free : index.free_items = none := holds.spared
    rw [if_pos (by simpa using total),insert,if_neg fits,free]
  | cons item spare =>
    have free : index.free_items = some item := holds.spared.1
    rw [List.length_cons] at total
    rw [if_neg (by omega),insert,if_neg fits,free]
    exact ⟨_,rfl,⟨_,_,holds.attach positive short record_id⟩,rfl,rfl⟩

theorem find_represents {index : PrimaryIndex} (positive : 0 < index.hash_table_size)
    (represents : Represents index entries) (short : key.length ≤ KEY_DATA) :
    ∃ found, index.find key = some ((match entries.lookup key with
        | none => .error .recordNotFound
        | some record_id => .ok record_id),found) ∧
      Represents found entries ∧ found.hash_table_size = index.hash_table_size ∧
      found.max_items = index.max_items := by
  obtain ⟨chains,spare,holds⟩ := represents
  have inside := hashKey_lt positive key
  have searched := findLoop_first (holds.chained _ inside)
    (Nat.lt_succ_of_le (holds.chain_short inside)) (holds.compares inside short)
  have answer := find_lookup index key (chains (hashKey index.hash_table_size key))
  rw [holds.bucketed _ inside,Multimap.lookup_bucket] at answer
  have keep : ∀ stats : IndexStats, stats.item_count = index.stats.item_count →
      Represents {index with stats:=stats} entries := by
    intro stats same
    exact ⟨chains,spare,holds.chained,holds.spared,holds.partition,holds.bucketed,holds.live,holds.widths,
      holds.sizes,same.trans holds.counted,holds.bounded⟩
  rw [← answer,find]
  simp only [chain] at searched
  rw [searched]
  cases (chains (hashKey index.hash_table_size key)).find? fun item => (index.entry item).1 = key with
  | none => exact ⟨_,rfl,keep _ rfl,rfl,rfl⟩
  | some item => exact ⟨_,rfl,keep _ rfl,rfl,rfl⟩

theorem delete_represents {index : PrimaryIndex} (positive : 0 < index.hash_table_size)
    (represents : Represents index entries) (short : key.length ≤ KEY_DATA) :
    ∃ deleted, index.delete key = some ((match entries.lookup key with
        | none => .error .recordNotFound
        | some _ => .ok ()),deleted) ∧
      Represents deleted (entries.remove key) ∧ deleted.hash_table_size = index.hash_table_size ∧
      deleted.max_items = index.max_items := by
  obtain ⟨chains,spare,holds⟩ := represents
  have inside := hashKey_lt positive key
  have found := deleteLoop_finds index key (hashKey index.hash_table_size key) _ [] (index.max_items+1)
    (holds.chained _ inside) (Nat.lt_succ_of_le (holds.chain_short inside)) (holds.compares inside short)
  rw [← Multimap.lookup_bucket (hashKey index.hash_table_size),← holds.bucketed _ inside]
  rcases found with ⟨absent,failed⟩ | ⟨front,item,back,parts,before,same,removed⟩
  · have missing : ∀ entry ∈ (chains (hashKey index.hash_table_size key)).map index.entry, entry.1 ≠ key := by
      intro entry member
      obtain ⟨cell,among,rfl⟩ := List.mem_map.mp member
      exact absent cell among
    rw [Multimap.lookup_none_iff.mpr missing]
    refine ⟨index,failed,⟨chains,spare,?_⟩,rfl,rfl⟩
    rw [Multimap.remove_absent]
    · exact holds
    · rw [← Multimap.lookup_none_iff,← Multimap.lookup_bucket (hashKey index.hash_table_size),
        ← holds.bucketed _ inside]
      exact Multimap.lookup_none_iff.mpr missing
  · rw [parts,List.map_append,List.map_cons,Multimap.lookup_append ?_,Multimap.lookup_head same]
    · obtain ⟨size,extent,_,_⟩ :=
        index.detach_fixed (hashKey index.hash_table_size key) front.getLast? item
      exact ⟨_,removed,⟨_,_,holds.detach positive parts before same⟩,size,extent⟩
    · intro entry member
      obtain ⟨cell,among,rfl⟩ := List.mem_map.mp member
      exact before cell among

-- The loop of `new` runs over the pool from its end, so that the spare items
-- are listed in order.
theorem thread_fold (count : Nat) : ∀ (start : Nat) (index : PrimaryIndex), index.free_items = none →
    ∃ items free, (List.range' start count).reverse.foldl thread index =
        {index with items:=items,free_items:=free} ∧
      Links.Lists ⟨free,fun item => (items item).next⟩ (List.range' start count) ∧
      ∀ item, start ≤ item → item < start+count → (items item).key_data.length = KEY_DATA := by
  induction count with
  | zero =>
    intro start index free
    exact ⟨index.items,index.free_items,rfl,free,fun item low high => by omega⟩
  | succ count ih =>
    intro start index free
    obtain ⟨items,head,folded,listed,widths⟩ := ih (start+1) index free
    rw [List.range'_succ,List.reverse_cons,List.foldl_append,folded]
    refine ⟨_,some start,rfl,⟨rfl,?_⟩,?_⟩
    · have links := assign_comp PrimaryIndexItem.next items start ⟨head,0,0,List.replicate KEY_DATA 0⟩
      change Segment (fun item => (assign items start _ item).next) (assign items start _ start).next _ none
      rw [links,assign_same]
      refine listed.assign_outside ?_
      rw [List.mem_range']
      rintro ⟨offset,_,same⟩
      omega
    · intro item low high
      change (assign items start _ item).key_data.length = KEY_DATA
      by_cases first : item = start
      · rw [first,assign_same]
        exact List.length_replicate
      · rw [assign_other _ first]
        exact widths item (by omega) (by omega)

theorem new_represents (tdef : TableDef) (hash_table_start : Nat → Option Nat)
    (items_start : Nat → PrimaryIndexItem) (hash_table_size : Nat) {max_items : Nat}
    (bounded : max_items < usizeLimit) :
    Represents (new tdef hash_table_start items_start hash_table_size max_items) [] ∧
      (new tdef hash_table_start items_start hash_table_size max_items).hash_table_size = hash_table_size ∧
      (new tdef hash_table_start items_start hash_table_size max_items).max_items = max_items := by
  rw [new,List.range_eq_range']
  obtain ⟨items,free,folded,listed,widths⟩ := thread_fold max_items 0
    { tdef := tdef
      hash_table := fun slot => if slot < hash_table_size then none else hash_table_start slot
      hash_table_size := hash_table_size
      items := items_start
      free_items := none
      stats := ⟨0,0,calculateMemorySize hash_table_size max_items,0⟩
      max_items := max_items } rfl
  rw [folded]
  have empty : (List.range hash_table_size).flatMap (fun _ => ([] : List Nat)) = [] := by simp
  refine ⟨⟨fun _ => [],List.range' 0 max_items,?_,listed,?_,?_,?_,?_,?_,rfl,bounded⟩,rfl,rfl⟩
  · intro slot small
    exact if_pos small
  · rw [empty,List.range_eq_range']
    rfl
  · intro slot _
    rfl
  · rw [empty]
    rfl
  · intro item below
    exact widths item (Nat.zero_le _) (by simpa using below)
  · intro slot _ item member
    cases member

inductive Call where
  | insert (key : Bytes) (record_id : UInt16)
  | delete (key : Bytes)
  | find (key : Bytes)
deriving DecidableEq,Repr

def Call.key : Call → Bytes
  | .insert key _ | .delete key | .find key => key

abbrev Answer := Except RemDbError (Option UInt16)

def perform (index : PrimaryIndex) : Call → Option (Answer × PrimaryIndex)
  | .insert key record_id =>
    let result := index.insert key record_id
    some (result.1.map fun _ => none,result.2)
  | .delete key => (index.delete key).map fun result => (result.1.map fun _ => none,result.2)
  | .find key => (index.find key).map fun result => (result.1.map some,result.2)

def run (index : PrimaryIndex) : List Call → Option (List Answer × PrimaryIndex)
  | [] => some ([],index)
  | call :: rest => (index.perform call).bind fun step =>
      (run step.2 rest).map fun done => (step.1 :: done.1,done.2)

-- The multimap the index is for, with room for `max_items` entries.
def respond (max_items : Nat) (entries : Multimap Bytes UInt16) : Call → Answer × Multimap Bytes UInt16
  | .insert key record_id =>
    if entries.length = max_items then (.error .outOfMemory,entries)
    else (.ok none,(key,record_id) :: entries)
  | .delete key => (match entries.lookup key with
      | none => .error .recordNotFound
      | some _ => .ok none,entries.remove key)
  | .find key => (match entries.lookup key with
      | none => .error .recordNotFound
      | some record_id => .ok (some record_id),entries)

def respondAll (max_items : Nat) (entries : Multimap Bytes UInt16) :
    List Call → List Answer × Multimap Bytes UInt16
  | [] => ([],entries)
  | call :: rest =>
    let step := respond max_items entries call
    let done := respondAll max_items step.2 rest
    (step.1 :: done.1,done.2)

theorem perform_refines {index : PrimaryIndex} (positive : 0 < index.hash_table_size)
    (represents : Represents index entries) (short : call.key.length ≤ KEY_DATA) :
    ∃ index', index.perform call = some ((respond index.max_items entries call).1,index') ∧
      Represents index' (respond index.max_items entries call).2 ∧
      index'.hash_table_size = index.hash_table_size ∧ index'.max_items = index.max_items := by
  cases call with
  | insert key record_id =>
    have inserted := insert_represents positive represents (show key.length ≤ KEY_DATA from short) record_id
    by_cases full : entries.length = index.max_items
    · rw [if_pos full] at inserted
      rw [perform,inserted,respond,if_pos full]
      exact ⟨index,rfl,represents,rfl,rfl⟩
    · rw [if_neg full] at inserted
      obtain ⟨index',stored,represents',fixed⟩ := inserted
      rw [perform,stored,respond,if_neg full]
      exact ⟨index',rfl,represents',fixed⟩
  | delete key =>
    obtain ⟨index',deleted,represents',fixed⟩ := delete_represents positive represents
      (show key.length ≤ KEY_DATA from short)
    refine ⟨index',?_,represents',fixed⟩
    rw [perform,deleted,respond]
    cases Multimap.lookup entries key <;> rfl
  | find key =>
    obtain ⟨index',found,represents',fixed⟩ := find_represents positive represents
      (show key.length ≤ KEY_DATA from short)
    refine ⟨index',?_,represents',fixed⟩
    rw [perform,found,respond]
    cases Multimap.lookup entries key <;> rfl

theorem run_represents (calls : List Call) : ∀ (index : PrimaryIndex) entries, 0 < index.hash_table_size →
    Represents index entries → (∀ call ∈ calls, call.key.length ≤ KEY_DATA) →
    ∃ index', run index calls = some ((respondAll index.max_items entries calls).1,index') ∧
      Represents index' (respondAll index.max_items entries calls).2 ∧
      index'.hash_table_size = index.hash_table_size ∧ index'.max_items = index.max_items := by
  induction calls with
  | nil =>
    intro index entries _ represents _
    exact ⟨index,rfl,represents,rfl,rfl⟩
  | cons call rest ih =>
    intro index entries positive represents short
    obtain ⟨middle,step,represents',size,extent⟩ :=
      perform_refines positive represents (short call List.mem_cons_self)
    obtain ⟨index',done,represents'',size',extent'⟩ := ih middle _ (size ▸ positive) represents'
      fun each member => short each (List.mem_cons_of_mem _ member)
    rw [extent] at done represents''
    refine ⟨index',?_,represents'',size'.trans size,extent'.trans extent⟩
    rw [run,step,Option.bind_some,done]
    rfl

-- The capacity is a `usize` and the number of slots a power of two.
theorem run_refines_multimap (tdef : TableDef) (hash_table_start : Nat → Option Nat)
    (items_start : Nat → PrimaryIndexItem) {hash_table_size max_items : Nat}
    (positive : 0 < hash_table_size) (bounded : max_items < usizeLimit)
    (calls : List Call) (short : ∀ call ∈ calls, call.key.length ≤ KEY_DATA) :
    ∃ index chains spare,
      run (new tdef hash_table_start items_start hash_table_size max_items) calls =
        some ((respondAll max_items [] calls).1,index) ∧
      index.hash_table_size = hash_table_size ∧ index.max_items = max_items ∧
      Holds index (respondAll max_items [] calls).2 chains spare ∧
      ∀ slot < hash_table_size, ∀ item ∈ chains slot,
        hashKey hash_table_size (index.entry item).1 = slot := by
  obtain ⟨represents,size,extent⟩ :=
    new_represents tdef hash_table_start items_start hash_table_size bounded
  obtain ⟨index,done,⟨chains,spare,holds⟩,size',extent'⟩ :=
    run_represents calls _ [] (Nat.lt_of_lt_of_eq positive size.symm) represents short
  rw [extent] at done holds extent'
  rw [size] at size'
  refine ⟨index,chains,spare,done,size',extent',holds,?_⟩
  intro slot small item member
  rw [← size'] at small ⊢
  exact holds.hashed small member

-- Two keys in one slot, one of them inserted twice, in a pool of three items.
theorem run_refines_multimap_shared_slot : ∃ index chains spare,
    run (new ⟨0,"t",[],[],0,3⟩ (fun _ => none) (fun _ => ⟨none,7,9,List.replicate 128 1⟩) 1 3)
        [.insert [1] 4,.insert [2] 5,.insert [1] 6,.insert [3] 7,.delete [1],.find [1],.find [3]] =
      some ([.ok none,.ok none,.ok none,.error .outOfMemory,.ok none,.ok (some 4),.error .recordNotFound],
        index) ∧ Holds index [([2],5),([1],4)] chains spare := by
  obtain ⟨index,chains,spare,done,_,_,holds,_⟩ := run_refines_multimap ⟨0,"t",[],[],0,3⟩ (fun _ => none)
    (fun _ => ⟨none,7,9,List.replicate 128 1⟩) (show 0 < 1 by decide) (show 3 < usizeLimit by decide)
    [.insert [1] 4,.insert [2] 5,.insert [1] 6,.insert [3] 7,.delete [1],.find [1],.find [3]] (by decide)
  exact ⟨index,chains,spare,done,holds⟩

end RemDb.PrimaryIndex
