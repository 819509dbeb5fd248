import RemDb.Snapshot.RoundTrip
import RemDb.Index.Composite

namespace RemDb
open RemDb.Lib RemDb.Lib.Reader

def Finds (index : Option PrimaryIndex) (key : Bytes) (record_id : UInt16) : Prop :=
  ∃ present after, index = some present ∧ present.find key = some (.ok record_id,after)

namespace MemoryTable

def recordKey (table : MemoryTable) (heap : TextHeap) (slot : Nat) : Option Bytes :=
  table.tdef.compositeKey heap (recordImage table.tdef.record_size (table.records slot))

-- An index that leads from the key of every used record to its slot, and from
-- no other key.
structure Indexed (heap : TextHeap) (table : MemoryTable) (index : Option PrimaryIndex) : Prop where
  mapped : ∀ slot, slot < table.tdef.max_records → table.used slot = true →
    ∃ key record_id, table.recordKey heap slot = some key ∧ Finds index key record_id ∧ record_id.toNat = slot
  only : ∀ key record_id, Finds index key record_id →
    ∃ slot, slot < table.tdef.max_records ∧ table.used slot = true ∧ table.recordKey heap slot = some key ∧
      record_id.toNat = slot

-- A table that is in order: its free stack, its counter and its index agree
-- with its slots, and an insert that has room takes no used slot.
structure InOrder (heap : TextHeap) (table : MemoryTable) (index : Option PrimaryIndex) : Prop where
  split : Partition table.tdef.max_records table.used table.free_slots
  count : table.record_count = usedCount table.tdef.max_records table.used
  indexed : Indexed heap table index
  inserts : ∀ tx now data slot, (table.insert tx now data).1 = .ok slot → table.record_count < table.maxRecords →
    table.used slot = false

-- The free stack and the index of one table agree with the slots of another.
structure Prepared (heap : TextHeap) (table : MemoryTable) (index : Option PrimaryIndex) (snapshot : MemoryTable) : Prop where
  split : Partition table.tdef.max_records snapshot.used table.free_slots
  indexed : Indexed heap snapshot index

def SameKeys (heap : TextHeap) (table snapshot : MemoryTable) : Prop :=
  ∀ slot, slot < table.tdef.max_records → snapshot.used slot = table.used slot ∧
    (table.used slot = true → snapshot.recordKey heap slot = table.recordKey heap slot)

section Order
variable {heap : TextHeap} {table other : MemoryTable} {index : Option PrimaryIndex}

theorem inserts_free (split : Partition table.tdef.max_records table.used table.free_slots) (tx : TransactionManager)
    (now : UInt64) (data : Bytes) (slot : Nat) (inserted : (table.insert tx now data).1 = .ok slot)
    (room : table.record_count < table.maxRecords) : table.used slot = false := by
  obtain ⟨failure,same⟩ | ⟨taken,image,logged,result,_,_,same,⟨_,full,_⟩ | ⟨_,rest,_,shape,_⟩⟩ :=
    insert_cases table tx now data
  · rw [same] at inserted
    cases inserted
  · omega
  · rw [same] at inserted
    cases inserted
    rw [shape] at split
    exact ((split.complete slot).mp (List.mem_append_right _ (List.mem_singleton_self _))).2

theorem Indexed.transfer (indexed : Indexed heap table index) (extent : other.tdef.max_records = table.tdef.max_records)
    (same : SameKeys heap table other) : Indexed heap other index := by
  constructor
  · intro slot inside busy
    rw [extent] at inside
    obtain ⟨used,key⟩ := same slot inside
    rw [used] at busy
    rw [key busy]
    exact indexed.mapped slot inside busy
  · intro key record_id found
    obtain ⟨slot,inside,busy,keyed,number⟩ := indexed.only key record_id found
    obtain ⟨used,key⟩ := same slot inside
    exact ⟨slot,extent ▸ inside,used.trans busy,(key busy).trans keyed,number⟩

theorem SameKeys.symm (same : SameKeys heap table other) (extent : other.tdef.max_records = table.tdef.max_records) :
    SameKeys heap other table := by
  intro slot inside
  obtain ⟨used,key⟩ := same slot (extent ▸ inside)
  exact ⟨used.symm,fun busy => (key (used.symm.trans busy)).symm⟩

-- Where a table is in order, its stack and index fit another table of the same
-- extent exactly if that one uses the same slots with the same keys.
theorem InOrder.prepared_iff (order : InOrder heap table index) (extent : other.tdef.max_records = table.tdef.max_records) :
    Prepared heap table index other ↔ SameKeys heap table other := by
  constructor
  · rintro ⟨split,indexed⟩ slot inside
    have used : other.used slot = table.used slot := by
      have free : other.used slot = false ↔ table.used slot = false := by
        have left := split.complete slot
        have right := order.split.complete slot
        rw [left] at right
        exact ⟨fun idle => (right.mp ⟨inside,idle⟩).2,fun idle => (right.mpr ⟨inside,idle⟩).2⟩
      cases there : table.used slot with
      | false => exact free.mpr there
      | true =>
        cases here : other.used slot with
        | true => rfl
        | false =>
          rw [free.mp here] at there
          cases there
    refine ⟨used,?_⟩
    intro busy
    obtain ⟨key,record_id,keyed,found,number⟩ := indexed.mapped slot (extent.symm ▸ inside) (used.trans busy)
    obtain ⟨slot',_,_,keyed',number'⟩ := order.indexed.only key record_id found
    have here : slot' = slot := number'.symm.trans number
    rw [here] at keyed'
    exact keyed.trans keyed'.symm
  · intro same
    exact ⟨order.split.congr fun slot inside => (same slot inside).1.symm,order.indexed.transfer extent same⟩

end Order
end MemoryTable

-- What makes a file a well-formed snapshot: every table of the database it was
-- taken from can be written, its slots add up, and its records are whole.
structure WellFormed (source : RemDbState σ) : Prop where
  places : ∀ table_id entry, source.table table_id = some entry → table_id < 2^32
  count : source.tables.countP Option.isSome < 2^32
  fits : ∀ table_id entry, source.table table_id = some entry → entry.description.Fits
  accounted : ∀ table_id entry, source.table table_id = some entry → entry.table.Accounted
  whole : ∀ table_id entry, source.table table_id = some entry → entry.tdef.savedSize = entry.tdef.record_size

def SameDefinitions (db source : RemDbState σ) : Prop :=
  ∀ table_id, (db.table table_id).map DbTable.tdef = (source.table table_id).map DbTable.tdef

def DbTable.overwritten (entry source : DbTable) (beyond : Bytes) : DbTable :=
  {entry with table:=entry.table.reset.restoreAll (source.savedRecords beyond)}

section Overwritten
variable {entry source : DbTable}

theorem overwritten_keys (heap : TextHeap) (beyond : Bytes) (same : entry.tdef = source.tdef)
    (whole : source.tdef.savedSize = source.tdef.record_size) :
    MemoryTable.SameKeys heap source.table (entry.overwritten source beyond).table := by
  have defined : (entry.overwritten source beyond).table.tdef = source.tdef :=
    (MemoryTable.restoreAll_tdef _ _).trans same
  have size : entry.table.reset.tdef.record_size = source.tdef.record_size := congrArg TableDef.record_size same
  intro slot inside
  refine ⟨restored_used beyond entry.table (congrArg TableDef.max_records same) inside,?_⟩
  intro busy
  have member : (slot,source.table.bytesFrom beyond slot source.tdef.savedSize) ∈ source.savedRecords beyond :=
    List.mem_map.mpr ⟨slot,MemoryTable.usedSlots_mem.mpr ⟨inside,busy⟩,rfl⟩
  have placed := (MemoryTable.restoreAll_image (source.savedRecords beyond) entry.table.reset
    (by rw [savedRecords_slots]; exact MemoryTable.usedSlots_nodup _)
    (by
      intro each found
      obtain ⟨slot,_,rfl⟩ := List.mem_map.mp found
      rw [MemoryTable.bytesFrom_length,whole,size])).1 _ member
  rw [size] at placed
  unfold MemoryTable.recordKey
  rw [defined]
  have image : recordImage source.tdef.record_size ((entry.overwritten source beyond).table.records slot) =
      recordImage source.tdef.record_size (source.table.records slot) := by
    refine placed.trans ?_
    rw [whole]
    exact MemoryTable.bytesFrom_image beyond inside
  rw [image]
  rfl

-- After a restore over it a table is in order exactly if its stack and its
-- index, which the restore leaves alone, already fitted the snapshot.
theorem overwritten_order_iff (heap : TextHeap) (beyond : Bytes) (index : Option PrimaryIndex)
    (same : entry.tdef = source.tdef) (whole : source.tdef.savedSize = source.tdef.record_size)
    (accounted : source.table.Accounted) :
    MemoryTable.InOrder heap (entry.overwritten source beyond).table index ↔
      MemoryTable.Prepared heap entry.table index source.table := by
  have defined : (entry.overwritten source beyond).table.tdef = source.tdef :=
    (MemoryTable.restoreAll_tdef _ _).trans same
  have extent : (entry.overwritten source beyond).table.tdef.max_records = source.table.tdef.max_records :=
    congrArg TableDef.max_records defined
  have extent' : entry.table.tdef.max_records = source.table.tdef.max_records := congrArg TableDef.max_records same
  have free : (entry.overwritten source beyond).table.free_slots = entry.table.free_slots :=
    MemoryTable.restoreAll_free _ _
  have keys := overwritten_keys heap beyond same whole
  constructor
  · intro order
    refine ⟨?_,order.indexed.transfer extent.symm (keys.symm extent)⟩
    have split := order.split
    rw [extent,free] at split
    rw [extent']
    exact split.congr fun slot inside => (keys slot inside).1
  · rintro ⟨split,indexed⟩
    rw [extent'] at split
    have split' : Partition (entry.overwritten source beyond).table.tdef.max_records
        (entry.overwritten source beyond).table.used (entry.overwritten source beyond).table.free_slots := by
      rw [extent,free]
      exact split.congr fun slot inside => (keys slot inside).1.symm
    refine ⟨split',?_,indexed.transfer extent keys,MemoryTable.inserts_free split'⟩
    have counted := MemoryTable.restoreAll_count (source.savedRecords beyond) entry.table.reset
      (by rw [savedRecords_slots]; exact MemoryTable.usedSlots_nodup _)
      (by
        intro each found
        obtain ⟨slot,busy,rfl⟩ := List.mem_map.mp found
        exact MemoryTable.reset_used (Nat.lt_of_lt_of_eq (MemoryTable.usedSlots_mem.mp busy).1 extent'.symm))
    rw [MemoryTable.reset_count,savedRecords_length beyond accounted,Nat.zero_add,accounted.count] at counted
    rw [extent,usedCount_congr fun slot inside => (keys slot inside).1]
    exact counted

end Overwritten
theorem restoreTables_held (memory : Nat → Memory) (beyond : Nat → Bytes) (rest : Bytes)
    (tables : List (Option DbTable)) : ∀ (place : Nat) (db : RemDbState σ) (state : Restoring σ),
    (∀ index source, tables[index]? = some (some source) → place+index < 2^32 ∧ source.description.Fits ∧
      source.table.Accounted ∧ ∃ entry, db.table (place+index) = some entry ∧ entry.tdef = source.tdef) →
    (restoreTables 0 memory (tables.countP Option.isSome)).run ⟨savedBytes beyond place tables ++ rest,db⟩ = .ok () state →
    state.db.primary_indices = db.primary_indices ∧ (∀ other, other < place → state.db.table other = db.table other) ∧
    ∀ index, state.db.table (place+index) =
      match (tables[index]?).join with
      | none => db.table (place+index)
      | some source => (db.table (place+index)).map fun entry => entry.overwritten source (beyond (place+index)) := by
  induction tables with
  | nil =>
    intro place db state _ ran
    cases ran
    exact ⟨rfl,fun _ _ => rfl,fun _ => rfl⟩
  | cons first tables ih =>
    intro place db state ready ran
    have shift (index : Nat) : place+(index+1) = place+1+index := by omega
    cases first with
    | none =>
      rw [List.countP_cons_of_neg (by simp)] at ran
      obtain ⟨indices,before,later⟩ := ih (place+1) db state (by
        intro index source found
        rw [← shift]
        exact ready (index+1) source found) ran
      refine ⟨indices,fun other past => before other (by omega),?_⟩
      intro index
      cases index with
      | zero => exact before place (Nat.lt_succ_self _)
      | succ index =>
        rw [shift]
        exact later index
    | some source =>
      obtain ⟨small,fits,accounted,entry,stands,same⟩ := ready 0 source rfl
      rw [Nat.add_zero] at small stands
      have count : (some source :: tables).countP Option.isSome = tables.countP Option.isSome+1 :=
        List.countP_cons_of_pos rfl
      have file : savedBytes beyond place (some source :: tables) ++ rest =
          source.snapshotBytes place (beyond place) ++ (savedBytes beyond (place+1) tables ++ rest) := by
        rw [savedBytes,List.append_assoc]
      rw [count,file] at ran
      obtain ⟨_,middle,first,ran⟩ := run_bind_ok ran
      rcases restoreTable_held memory (beyond place) (savedBytes beyond (place+1) tables ++ rest) fits accounted small
          stands same with ⟨read,_⟩ | ⟨_,_,fault,panicked⟩
      · cases first.symm.trans read
        have others := @table_place σ db place (entry.overwritten source (beyond place)) (table_inside stands)
        obtain ⟨indices,before,later⟩ := ih (place+1) _ state (by
          intro index source' found
          obtain ⟨small',fits',accounted',entry',stands',same'⟩ := ready (index+1) source' found
          rw [shift] at small' stands'
          refine ⟨small',fits',accounted',entry',?_,same'⟩
          exact (others (place+1+index)).trans ((if_neg (by omega)).trans stands')) ran
        refine ⟨indices,?_,?_⟩
        · intro other past
          rw [before other (by omega)]
          exact (others other).trans (if_neg (by omega))
        · intro index
          cases index with
          | zero =>
            rw [Nat.add_zero,before place (Nat.lt_succ_self _),stands]
            exact (others place).trans (if_pos rfl)
          | succ index =>
            rw [shift,later index]
            have kept := (others (place+1+index)).trans (if_neg (by omega))
            rw [List.getElem?_cons_succ]
            cases (tables[index]?).join with
            | none => exact kept
            | some source' => exact congrArg (Option.map _) kept
      · cases first.symm.trans panicked

def AllInOrder (heap : TextHeap) (db : RemDbState σ) : Prop :=
  ∀ table_id entry, db.table table_id = some entry →
    MemoryTable.InOrder heap entry.table (db.primaryIndex table_id)

section Restored
variable {σ : Type} {db source after : RemDbState σ}

theorem same_entry (same : SameDefinitions db source) (stands : source.table table_id = some saved) :
    ∃ entry, db.table table_id = some entry ∧ entry.tdef = saved.tdef := by
  have defined := same table_id
  rw [stands] at defined
  obtain ⟨entry,present,equal⟩ := Option.map_eq_some_iff.mp defined
  exact ⟨entry,present,equal⟩

-- What a restore over tables of the same definitions leaves.
theorem restored_tables (beyond : Nat → Bytes) (memory : Nat → Memory) (room : Option Nat) (same : SameDefinitions db source)
    (wellFormed : WellFormed source) (saved : (saveSnapshot beyond (some ⟨[],room⟩) source).1 = .ok ())
    (restored : restoreSnapshot memory (some (saveSnapshot beyond (some ⟨[],room⟩) source).2.1) db = (.ok (),after)) :
    after.primary_indices = db.primary_indices ∧
    ∀ table_id, after.table table_id = match source.table table_id with
      | none => none
      | some snapshot => (db.table table_id).map fun entry => entry.overwritten snapshot (beyond table_id) := by
  rw [saveSnapshot_ok saved,restoreSnapshot_header,Nat.mod_eq_of_lt wellFormed.count] at restored
  have run := restoreTables_held memory beyond [] source.tables 0 db
  simp only [Nat.zero_add,List.append_nil] at run
  cases ran : (restoreTables 0 memory (source.tables.countP Option.isSome)).run
      (⟨savedBytes beyond 0 source.tables,db⟩ : Restoring σ) with
  | error fault state =>
    rw [ran] at restored
    cases restored
  | ok _ state =>
    rw [ran] at restored
    cases restored
    obtain ⟨indices,_,tables⟩ := run state (by
      intro table_id snapshot found
      have stands := table_of_getElem? found
      exact ⟨wellFormed.places _ _ stands,wellFormed.fits _ _ stands,wellFormed.accounted _ _ stands,
        same_entry same stands⟩) ran
    refine ⟨indices,?_⟩
    intro table_id
    refine (tables table_id).trans ?_
    change (match source.table table_id with
      | none => db.table table_id
      | some snapshot => (db.table table_id).map fun (entry : DbTable) => entry.overwritten snapshot (beyond table_id)) = _
    cases stands : source.table table_id with
    | none =>
      have defined := same table_id
      rw [stands] at defined
      exact Option.map_eq_none_iff.mp defined
    | some snapshot => rfl

-- A restore over tables of the same definitions leaves them in order exactly
-- where their stacks and indices already were those of the snapshot. Where the
-- tables were in order before, that is where the snapshot has the same slots in
-- use with the same keys.
theorem restore_in_order_iff (heap : TextHeap) (beyond : Nat → Bytes) (memory : Nat → Memory) (room : Option Nat)
    (db source after : RemDbState σ) (same : SameDefinitions db source) (wellFormed : WellFormed source)
    (saved : (saveSnapshot beyond (some ⟨[],room⟩) source).1 = .ok ())
    (restored : restoreSnapshot memory (some (saveSnapshot beyond (some ⟨[],room⟩) source).2.1) db = (.ok (),after)) :
    (AllInOrder heap after ↔ ∀ table_id entry snapshot, db.table table_id = some entry →
      source.table table_id = some snapshot →
        MemoryTable.Prepared heap entry.table (db.primaryIndex table_id) snapshot.table) ∧
    (AllInOrder heap db → (AllInOrder heap after ↔ ∀ table_id entry snapshot, db.table table_id = some entry →
      source.table table_id = some snapshot → MemoryTable.SameKeys heap entry.table snapshot.table)) := by
  obtain ⟨indices,tables⟩ := restored_tables beyond memory room same wellFormed saved restored
  have index (table_id : Nat) : after.primaryIndex table_id = db.primaryIndex table_id := by
    rw [RemDbState.primaryIndex,indices]
    rfl
  have defined {table_id : Nat} {entry snapshot : DbTable} (stands : db.table table_id = some entry)
      (stands' : source.table table_id = some snapshot) : entry.tdef = snapshot.tdef := by
    have definitions := same table_id
    rw [stands,stands'] at definitions
    exact Option.some.inj definitions
  have order : AllInOrder heap after ↔ ∀ table_id entry snapshot, db.table table_id = some entry →
      source.table table_id = some snapshot →
        MemoryTable.Prepared heap entry.table (db.primaryIndex table_id) snapshot.table := by
    constructor
    · intro ordered table_id entry snapshot stands stands'
      have present := tables table_id
      rw [stands,stands'] at present
      have done := ordered table_id _ present
      rw [index] at done
      exact (overwritten_order_iff heap _ _ (defined stands stands') (wellFormed.whole _ _ stands')
        (wellFormed.accounted _ _ stands')).mp done
    · intro prepared table_id final present
      rw [tables] at present
      cases stands' : source.table table_id with
      | none =>
        rw [stands'] at present
        cases present
      | some snapshot =>
        rw [stands'] at present
        obtain ⟨entry,stands,rfl⟩ := Option.map_eq_some_iff.mp present
        rw [index]
        exact (overwritten_order_iff heap _ _ (defined stands stands') (wellFormed.whole _ _ stands')
          (wellFormed.accounted _ _ stands')).mpr (prepared table_id entry snapshot stands stands')
  refine ⟨order,?_⟩
  intro before
  rw [order]
  constructor
  · intro prepared table_id entry snapshot stands stands'
    have extent : snapshot.table.tdef.max_records = entry.table.tdef.max_records :=
      congrArg TableDef.max_records (defined stands stands').symm
    exact ((before table_id entry stands).prepared_iff extent).mp (prepared table_id entry snapshot stands stands')
  · intro keys table_id entry snapshot stands stands'
    have extent : snapshot.table.tdef.max_records = entry.table.tdef.max_records :=
      congrArg TableDef.max_records (defined stands stands').symm
    exact ((before table_id entry stands).prepared_iff extent).mpr (keys table_id entry snapshot stands stands')

end Restored
theorem new_finds_nothing (tdef : TableDef) (hash_table_start : Nat → Option Nat) (items_start : Nat → PrimaryIndexItem)
    (positive : 0 < size) (max_items : Nat) :
    ¬Finds (some (PrimaryIndex.new tdef hash_table_start items_start size max_items)) key record_id := by
  have kept (items : List Nat) (index : PrimaryIndex) :
      (items.foldl PrimaryIndex.thread index).hash_table = index.hash_table ∧
        (items.foldl PrimaryIndex.thread index).hash_table_size = index.hash_table_size := by
    induction items generalizing index with
    | nil => exact ⟨rfl,rfl⟩
    | cons item rest ih => exact ih _
  rintro ⟨present,after,same,found⟩
  cases same
  have slots := kept (List.range max_items).reverse
    { tdef := tdef
      hash_table := fun slot => if slot < size then none else hash_table_start slot
      hash_table_size := size
      items := items_start
      free_items := none
      stats := ⟨0,0,PrimaryIndex.calculateMemorySize size max_items,0⟩
      max_items := max_items }
  unfold PrimaryIndex.find PrimaryIndex.new at found
  rw [slots.1,slots.2] at found
  dsimp only at found
  rw [if_pos (PrimaryIndex.hashKey_lt positive key)] at found
  cases found

def doubleDef : TableDef := {byteDef with max_records:=2}

def indexedTable (table : MemoryTable) : RemDbState Unit :=
  {emptyDb 1000 with
    tables:=[some ⟨table,none,.sortedArray,0,0,0,0⟩]
    primary_indices:=[some (PrimaryIndex.new table.tdef (fun _ => none) (fun _ => ⟨none,0,0,[]⟩) 4 2)]}

def recorded : MemoryTable := ((freshTable doubleDef).insert MemoryTable.noTx 0 [7]).2.1

theorem indexedTable_only {table : MemoryTable} (stands : (indexedTable table).table table_id = some entry) :
    table_id = 0 ∧ entry = ⟨table,none,.sortedArray,0,0,0,0⟩ := by
  cases table_id with
  | zero => exact ⟨rfl,(Option.some.inj stands).symm⟩
  | succ table_id => cases stands

theorem indexedTable_wellFormed (table : MemoryTable) (defined : table.tdef = doubleDef) (accounted : table.Accounted) :
    WellFormed (indexedTable table) := by
  have fits : (⟨table.tdef.name,table.tdef.fields,table.tdef.primary_key,none,.sortedArray,table.tdef.max_records⟩ :
      Description).Fits := by
    rw [defined]
    constructor
    all_goals decide +kernel
  have one : (indexedTable table).tables.countP Option.isSome = 1 := rfl
  refine ⟨?_,by rw [one]; decide,?_,?_,?_⟩
  all_goals
    intro table_id entry stands
    obtain ⟨rfl,rfl⟩ := indexedTable_only stands
  · decide
  · exact fits
  · exact accounted
  · change table.tdef.savedSize = table.tdef.record_size
    rw [defined]
    decide

theorem freshTable_inOrder (heap : TextHeap) : AllInOrder heap (indexedTable (freshTable doubleDef)) := by
  intro table_id entry stands
  obtain ⟨rfl,rfl⟩ := indexedTable_only stands
  have accounted := freshTable_accounted doubleDef (by decide) (by decide)
  have idle (slot : Nat) : (freshTable doubleDef).used slot = false := rfl
  refine ⟨accounted.split,accounted.count,⟨?_,?_⟩,MemoryTable.inserts_free accounted.split⟩
  · intro slot _ busy
    rw [idle] at busy
    cases busy
  · intro key record_id found
    exact absurd found (new_finds_nothing _ _ _ (by decide) _)

def restoredOver (table snapshot : MemoryTable) : Except RestoreFault Unit × RemDbState Unit :=
  restoreSnapshot (fun _ => zeroed.memory)
    (some (saveSnapshot (fun _ => []) (some ⟨[],none⟩) (indexedTable snapshot)).2.1) (indexedTable table)

theorem restore_in_order_empty : (restoredOver (freshTable doubleDef) (freshTable doubleDef)).1 = .ok () ∧
    AllInOrder (fun _ _ => []) (restoredOver (freshTable doubleDef) (freshTable doubleDef)).2 := by
  have ended : (restoredOver (freshTable doubleDef) (freshTable doubleDef)).1 = .ok () := by decide +kernel
  have accounted := freshTable_accounted doubleDef (by decide) (by decide)
  refine ⟨ended,((restore_in_order_iff (fun _ _ => []) (fun _ => []) (fun _ => zeroed.memory) none
    (indexedTable (freshTable doubleDef)) (indexedTable (freshTable doubleDef)) _ (fun _ => rfl)
    (indexedTable_wellFormed _ rfl accounted) (by decide +kernel) (Prod.ext ended rfl)).2
      (freshTable_inOrder _)).mpr ?_⟩
  intro table_id entry snapshot stands stands'
  rw [stands] at stands'
  cases stands'
  exact fun _ _ => ⟨rfl,fun _ => rfl⟩

-- What a restore left of the first table: its first slot, its free stack, its
-- counter, and the slot that an insert then takes.
def firstTable (outcome : Except RestoreFault Unit × RemDbState Unit) : Option (Bool × List Nat × Nat × Option Nat) :=
  (outcome.2.table 0).map fun entry => (entry.table.used 0,entry.table.free_slots,entry.table.record_count,
    (entry.table.insert MemoryTable.noTx 0 [8]).1.toOption)

-- A record restored into an empty table: its slot is still on the free stack,
-- and the next insert overwrites it.
theorem restore_leaves_slot_free :
    AllInOrder (fun _ _ => []) (indexedTable (freshTable doubleDef)) ∧
    SameDefinitions (indexedTable (freshTable doubleDef)) (indexedTable recorded) ∧
    WellFormed (indexedTable recorded) ∧ (restoredOver (freshTable doubleDef) recorded).1 = .ok () ∧
    firstTable (restoredOver (freshTable doubleDef) recorded) = some (true,[1,0],1,some 0) ∧
    ¬AllInOrder (fun _ _ => []) (restoredOver (freshTable doubleDef) recorded).2 := by
  have left : firstTable (restoredOver (freshTable doubleDef) recorded) = some (true,[1,0],1,some 0) := by
    decide +kernel
  have accounted : recorded.Accounted :=
    MemoryTable.insert_accounted (freshTable_accounted doubleDef (by decide) (by decide)) _ _ _
  refine ⟨freshTable_inOrder _,?_,indexedTable_wellFormed recorded (by decide +kernel) accounted,by decide +kernel,left,?_⟩
  · intro table_id
    cases table_id with
    | zero => exact congrArg some (by decide +kernel)
    | succ table_id => rfl
  · intro order
    obtain ⟨entry,stands,state⟩ := Option.map_eq_some_iff.mp left
    obtain ⟨busy,free,_⟩ := Prod.mk.inj state |>.imp id Prod.mk.inj
    have split := (order 0 entry stands).split.complete 0
    rw [free,busy] at split
    have idle := (split.mp (by decide)).2
    cases idle

end RemDb
