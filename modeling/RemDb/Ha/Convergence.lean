import RemDb.Ha.Snapshot

namespace RemDb
open RemDb.Lib RemDb.Lib.Reader

namespace MemoryTable

def tableRecords (table : MemoryTable) : List (Nat × Bytes) :=
  table.usedSlots.map fun slot => (slot,recordImage table.tdef.record_size (table.records slot))

-- The copy has the used slots of the master with their bytes, and its counter
-- and its free stack agree with them.
structure Converged (master copy : MemoryTable) : Prop where
  used : ∀ slot, slot < master.tdef.max_records → copy.used slot = master.used slot
  records : ∀ slot, slot < master.tdef.max_records → master.used slot = true →
    recordImage master.tdef.record_size (copy.records slot) = recordImage master.tdef.record_size (master.records slot)
  count : copy.record_count = usedCount master.tdef.max_records copy.used
  free : Partition master.tdef.max_records copy.used copy.free_slots

-- A slave before the snapshot: it uses no slot that the master does not use,
-- its counter is right, and its free stack lists the slots the master leaves.
structure Ready (master slave : MemoryTable) : Prop where
  within : ∀ slot, slot < master.tdef.max_records → slave.used slot = true → master.used slot = true
  count : slave.record_count = usedCount master.tdef.max_records slave.used
  free : Partition master.tdef.max_records master.used slave.free_slots

section Sync
variable {table : MemoryTable}

theorem syncRecord_maxPk (table : MemoryTable) (record : Nat × Bytes) (key : UInt64) :
    syncRecord {table with max_pk:=key} record = {table.syncRecord record with max_pk:=key} := by
  unfold syncRecord
  split
  · rfl
  · rfl

theorem syncAll_maxPk (records : List (Nat × Bytes)) (table : MemoryTable) (key : UInt64) :
    syncAll {table with max_pk:=key} records = {table.syncAll records with max_pk:=key} := by
  induction records generalizing table with
  | nil => rfl
  | cons record rest ih =>
    have first := ih (table.syncRecord record)
    rw [← syncRecord_maxPk] at first
    exact first

theorem syncRecord_tdef (record : Nat × Bytes) : (table.syncRecord record).tdef = table.tdef := by
  unfold syncRecord
  split
  · rfl
  · rfl

theorem syncAll_restoreAll (records : List (Nat × Bytes)) (table : MemoryTable)
    (inside : ∀ record ∈ records, record.1 < table.tdef.max_records) :
    ∃ key, table.restoreAll records = {table.syncAll records with max_pk:=key} := by
  induction records generalizing table with
  | nil => exact ⟨table.max_pk,rfl⟩
  | cons record rest ih =>
    obtain ⟨key,first⟩ := restoreRecord_only table record.1 record.2
    have same : table.restoreRecord record.1 record.2 = {table.syncRecord record with max_pk:=key} := by
      rw [first,syncRecord,if_pos (inside record List.mem_cons_self)]
    obtain ⟨last,later⟩ := ih (table.restoreRecord record.1 record.2) (by
      intro other member
      rw [restoreRecord_tdef]
      exact inside other (List.mem_cons_of_mem _ member))
    refine ⟨last,?_⟩
    change (table.restoreRecord record.1 record.2).restoreAll rest = _
    rw [later,same,syncAll_maxPk]
    rfl

theorem syncAll_tdef (records : List (Nat × Bytes)) (table : MemoryTable) :
    (table.syncAll records).tdef = table.tdef := by
  induction records generalizing table with
  | nil => rfl
  | cons record rest ih => exact (ih _).trans (syncRecord_tdef record)

theorem syncRecord_used {record : Nat × Bytes} (inside : record.1 < table.tdef.max_records) :
    (table.syncRecord record).used = assign table.used record.1 true := by
  obtain ⟨key,same⟩ := restoreRecord_only table record.1 record.2
  rw [syncRecord,if_pos inside,← restoreRecord_used,same]
  rfl

theorem syncRecord_count {record : Nat × Bytes} (inside : record.1 < table.tdef.max_records) :
    (table.syncRecord record).record_count = table.record_count+(if table.used record.1 then 0 else 1) := by
  rw [syncRecord,if_pos inside]
  change (if (table.status record.1).status = .used then table.record_count else table.record_count+1) = _
  by_cases busy : (table.status record.1).status = .used
  · simp [used,busy]
  · simp [used,busy]

def fresh (used : Nat → Bool) (slots : List Nat) : Nat := (slots.filter fun slot => !used slot).length

theorem fresh_assign {slots : List Nat} {used : Nat → Bool} {slot : Nat} (absent : slot ∉ slots) :
    fresh (assign used slot true) slots = fresh used slots := by
  unfold fresh
  congr 1
  apply List.filter_congr
  intro other member
  have different : other ≠ slot := fun same => absent (same ▸ member)
  rw [assign_other used different]

theorem fresh_cons (used : Nat → Bool) (slot : Nat) (slots : List Nat) :
    fresh used (slot :: slots) = (if used slot then 0 else 1)+fresh used slots := by
  unfold fresh
  cases taken : used slot with
  | true => simp [taken]
  | false =>
    simp [taken]
    omega

theorem syncAll_count (records : List (Nat × Bytes)) (table : MemoryTable)
    (inside : ∀ record ∈ records, record.1 < table.tdef.max_records) (distinct : (records.map (·.1)).Nodup) :
    (table.syncAll records).record_count = table.record_count+fresh table.used (records.map (·.1)) := by
  induction records generalizing table with
  | nil => rfl
  | cons record rest ih =>
    obtain ⟨absent,distinct⟩ := List.nodup_cons.mp distinct
    have within := inside record List.mem_cons_self
    have later := ih (table.syncRecord record) (by
      intro other member
      rw [syncRecord_tdef]
      exact inside other (List.mem_cons_of_mem _ member)) distinct
    rw [syncRecord_used within,fresh_assign absent,syncRecord_count within] at later
    change ((table.syncRecord record).syncAll rest).record_count = _
    rw [later,List.map_cons,fresh_cons]
    omega

theorem usedCount_assignAll (slots : List Nat) (used : Nat → Bool) (inside : ∀ slot ∈ slots, slot < size)
    (distinct : slots.Nodup) : usedCount size (assignAll used slots) = usedCount size used+fresh used slots := by
  induction slots generalizing used with
  | nil => rfl
  | cons slot rest ih =>
    obtain ⟨absent,distinct⟩ := List.nodup_cons.mp distinct
    have later := ih (assign used slot true) (fun other member => inside other (List.mem_cons_of_mem _ member)) distinct
    change usedCount size (assignAll (assign used slot true) rest) = _
    rw [later,fresh_assign absent,fresh_cons]
    cases taken : used slot with
    | true => simp [assign_held taken]
    | false =>
      rw [usedCount_take (inside slot List.mem_cons_self) taken]
      simp
      omega

end Sync

section Converge
variable {master slave : MemoryTable}

theorem tableRecords_slots (table : MemoryTable) : table.tableRecords.map (·.1) = table.usedSlots := by
  simp [tableRecords,Function.comp_def]

theorem tableRecords_inside {record : Nat × Bytes} (member : record ∈ master.tableRecords) :
    record.1 < master.tdef.max_records ∧ record.2.length = master.tdef.record_size := by
  obtain ⟨slot,listed,rfl⟩ := List.mem_map.mp member
  exact ⟨(usedSlots_mem.mp listed).1,recordImage_length _ _⟩

theorem syncAll_records (same : slave.tdef = master.tdef) :
    (slave.syncAll master.tableRecords).used = assignAll slave.used master.usedSlots ∧
    (slave.syncAll master.tableRecords).free_slots = slave.free_slots ∧
    (slave.syncAll master.tableRecords).record_count = slave.record_count+fresh slave.used master.usedSlots ∧
    ∀ slot ∈ master.usedSlots, recordImage master.tdef.record_size ((slave.syncAll master.tableRecords).records slot) =
      recordImage master.tdef.record_size (master.records slot) := by
  have distinct : (master.tableRecords.map (·.1)).Nodup := by
    rw [tableRecords_slots]
    exact usedSlots_nodup master
  have inside (record : Nat × Bytes) (member : record ∈ master.tableRecords) : record.1 < slave.tdef.max_records := by
    rw [same]
    exact (tableRecords_inside member).1
  have whole (record : Nat × Bytes) (member : record ∈ master.tableRecords) :
      record.2.length = slave.tdef.record_size := by
    rw [same]
    exact (tableRecords_inside member).2
  obtain ⟨key,restored⟩ := syncAll_restoreAll master.tableRecords slave inside
  have used := restoreAll_used master.tableRecords slave
  have free := restoreAll_free master.tableRecords slave
  have count := syncAll_count master.tableRecords slave inside distinct
  obtain ⟨placed,_⟩ := restoreAll_image master.tableRecords slave distinct whole
  rw [restored] at used free placed
  rw [tableRecords_slots] at used count
  refine ⟨used,free,count,?_⟩
  intro slot listed
  rw [← same]
  have put := placed (slot,recordImage master.tdef.record_size (master.records slot)) (List.mem_map.mpr ⟨slot,listed,rfl⟩)
  rw [same] at put ⊢
  exact put

theorem assignAll_usedSlots (within : slot < master.tdef.max_records) :
    assignAll slave.used master.usedSlots slot = (slave.used slot || master.used slot) := by
  cases busy : master.used slot with
  | true => rw [assignAll_mem _ (usedSlots_mem.mpr ⟨within,busy⟩),Bool.or_true]
  | false =>
    have outside : slot ∉ master.usedSlots := by
      intro listed
      rw [(usedSlots_mem.mp listed).2] at busy
      cases busy
    rw [assignAll_other _ outside,Bool.or_false]

theorem Partition.congr {size : Nat} {left right : Nat → Bool} {free : List Nat}
    (agree : ∀ slot, slot < size → left slot = right slot) (split : Partition size left free) :
    Partition size right free := by
  refine ⟨split.distinct,fun slot => (split.complete slot).trans ?_⟩
  constructor
  · rintro ⟨within,idle⟩
    exact ⟨within,(agree slot within).symm.trans idle⟩
  · rintro ⟨within,idle⟩
    exact ⟨within,(agree slot within).trans idle⟩

theorem converged_iff_ready (same : slave.tdef = master.tdef) :
    Converged master (slave.syncAll master.tableRecords) ↔ Ready master slave := by
  obtain ⟨used,free,count,records⟩ := syncAll_records same
  have counted : usedCount master.tdef.max_records (assignAll slave.used master.usedSlots) =
      usedCount master.tdef.max_records slave.used+fresh slave.used master.usedSlots :=
    usedCount_assignAll master.usedSlots slave.used (fun slot listed => (usedSlots_mem.mp listed).1)
      (usedSlots_nodup master)
  constructor
  · intro converged
    have agree (slot : Nat) (within : slot < master.tdef.max_records) :
        (slave.syncAll master.tableRecords).used slot = master.used slot := converged.used slot within
    refine ⟨?_,?_,?_⟩
    · intro slot within busy
      rw [← agree slot within,used,assignAll_usedSlots within,busy,Bool.true_or]
    · have total := converged.count
      rw [count,used,counted] at total
      omega
    · have split := converged.free
      rw [free] at split
      exact Partition.congr agree split
  · intro ready
    have agree (slot : Nat) (within : slot < master.tdef.max_records) :
        (slave.syncAll master.tableRecords).used slot = master.used slot := by
      rw [used,assignAll_usedSlots within]
      cases busy : slave.used slot with
      | true => rw [ready.within slot within busy,Bool.true_or]
      | false => rw [Bool.false_or]
    refine ⟨agree,?_,?_,?_⟩
    · intro slot within busy
      exact records slot (usedSlots_mem.mpr ⟨within,busy⟩)
    · rw [count,used,counted,ready.count]
    · rw [free]
      exact Partition.congr (fun slot within => (agree slot within).symm) ready.free

end Converge
end MemoryTable

section Format
variable {table : MemoryTable} {dimension : FieldDef → UInt16}

-- The lengths that are written as one byte and the numbers written as four fit.
structure MemoryTable.Fits (table : MemoryTable) : Prop where
  name : (utf8 table.tdef.name).length < 256
  size : table.tdef.record_size < 2^32
  records : table.tdef.max_records ≤ 2^32
  fields : table.tdef.fields.length < 256
  columns : ∀ field ∈ table.tdef.fields, (utf8 field.name).length < 256
  keys : table.tdef.primary_key.length < 256

theorem reads_tableName {name : String} (short : (utf8 name).length < 256) :
    Reads SyncReceiver.tableName ([UInt8.ofNat (utf8 name).length] ++ utf8 name) (utf8 name) := by
  intro rest
  rw [SyncReceiver.tableName,List.append_assoc,bind_of_reads (reads_byte _)]
  exact reads_name short rest

theorem reads_skipField {field : FieldDef} (short : (utf8 field.name).length < 256) :
    Reads SyncReceiver.skipField (SyncHandler.fieldBytes dimension field) () := by
  intro rest
  have tail : ([field.data_type.code] ++ toLE 2 field.offset ++ toLE 2 (dimension field).toNat).length = 5 := by simp
  have behind := reads_take ([field.data_type.code] ++ toLE 2 field.offset ++ toLE 2 (dimension field).toNat)
  rw [tail] at behind
  rw [SyncReceiver.skipField,SyncHandler.fieldBytes,List.append_assoc,List.append_assoc,bind_of_reads (reads_byte _),
    bind_of_reads (reads_name short),bind_of_reads behind]
  rfl

theorem reads_tableShape (fits : table.Fits) :
    Reads SyncReceiver.tableShape (SyncHandler.shapeBytes dimension table) table.tdef.record_size := by
  intro rest
  have fields := reads_times (SyncHandler.fieldBytes dimension) (fun _ => ()) table.tdef.fields fun field member =>
    reads_skipField (fits.columns field member)
  have keys := reads_take (table.tdef.primary_key.map UInt8.ofNat)
  rw [List.length_map] at keys
  rw [SyncReceiver.tableShape,SyncHandler.shapeBytes]
  simp only [List.append_assoc]
  rw [bind_of_reads (reads_le fits.size),bind_of_reads (reads_le_mod 4 _),bind_of_reads (reads_le_mod 4 _),
    bind_of_reads (reads_byte _),toNat_ofNat_byte fits.fields,bind_of_reads fields,bind_of_reads (reads_byte _),
    toNat_ofNat_byte fits.keys,bind_of_reads keys]
  rfl

def flagged (record : Nat × Bytes) : Bytes := [1] ++ toLE 4 record.1 ++ record.2

theorem recordsWithin_listed (size : Nat) (listed : List (Nat × Bytes)) (fuel : Nat) (enough : listed.length < fuel)
    (small : ∀ record ∈ listed, record.1 < 2^32 ∧ record.2.length = size) :
    Reads (SyncReceiver.recordsWithin size fuel) (listed.flatMap flagged ++ [0]) listed := by
  induction listed generalizing fuel with
  | nil =>
    obtain ⟨fuel,rfl⟩ := Nat.exists_eq_add_of_lt enough
    exact fun _ => rfl
  | cons record tail ih =>
    obtain ⟨fuel,rfl⟩ : ∃ more, fuel = more+1 := ⟨fuel-1,by omega⟩
    obtain ⟨slot,whole⟩ := small record List.mem_cons_self
    have later := ih fuel (by simp at enough; omega) fun other member => small other (List.mem_cons_of_mem _ member)
    have data := reads_take record.2
    rw [whole] at data
    intro rest
    rw [SyncReceiver.recordsWithin,List.flatMap_cons,flagged]
    simp only [List.append_assoc]
    rw [bind_of_reads (reads_byte 1),if_neg (by decide),bind_of_reads (reads_le slot),bind_of_reads data,
      ← List.append_assoc,bind_of_reads later]
    rfl

theorem flagged_length (record : Nat × Bytes) : 1 ≤ (flagged record).length := by
  simp [flagged]

theorem listed_length (listed : List (Nat × Bytes)) : listed.length ≤ (listed.flatMap flagged).length := by
  induction listed with
  | nil => exact Nat.le_refl _
  | cons record tail ih =>
    have one := flagged_length record
    rw [List.flatMap_cons,List.length_append,List.length_cons]
    omega

theorem reads_records (size : Nat) (listed : List (Nat × Bytes))
    (small : ∀ record ∈ listed, record.1 < 2^32 ∧ record.2.length = size) :
    Reads (SyncReceiver.records size) (listed.flatMap flagged ++ [0]) listed := by
  intro rest
  refine recordsWithin_listed size listed _ ?_ small rest
  have long := listed_length listed
  simp only [List.length_append,List.length_cons,List.length_nil]
  omega

theorem tableRecords_bytes (table : MemoryTable) :
    table.usedSlots.flatMap (SyncHandler.recordBytes table) = table.tableRecords.flatMap flagged := by
  rw [MemoryTable.tableRecords,List.flatMap_map]
  rfl

end Format

def syncTables (db : Database) (tables : List MemoryTable) : Database :=
  tables.foldl (fun db table => SyncReceiver.syncTable db table.tdef.name table.tableRecords) db

section Walk
variable {dimension : FieldDef → UInt16}

theorem applyTables_table {table : MemoryTable} (fits : table.Fits) (count : Nat) (rest : Bytes) (db : Database) :
    SyncReceiver.applyTables (count+1) (SyncHandler.tableBytes dimension table ++ rest) db =
      SyncReceiver.applyTables count rest (SyncReceiver.syncTable db table.tdef.name table.tableRecords) := by
  have small (record : Nat × Bytes) (member : record ∈ table.tableRecords) :
      record.1 < 2^32 ∧ record.2.length = table.tdef.record_size := by
    obtain ⟨inside,whole⟩ := MemoryTable.tableRecords_inside member
    exact ⟨Nat.lt_of_lt_of_le inside fits.records,whole⟩
  have name (after : Bytes) := reads_tableName fits.name after
  have shape (after : Bytes) := @reads_tableShape table dimension fits after
  have records (after : Bytes) := reads_records table.tdef.record_size table.tableRecords small after
  rw [SyncReceiver.applyTables,SyncHandler.tableBytes,tableRecords_bytes]
  rw [List.append_assoc,List.append_assoc _ (SyncHandler.shapeBytes dimension table),name]
  dsimp only
  rw [fromUTF8_utf8]
  dsimp only
  rw [shape]
  dsimp only
  rw [records]

theorem applyTables_tables (tables : List MemoryTable) (fits : ∀ table ∈ tables, table.Fits) (more : Nat) (rest : Bytes)
    (db : Database) :
    SyncReceiver.applyTables (tables.length+more) (tables.flatMap (SyncHandler.tableBytes dimension) ++ rest) db =
      SyncReceiver.applyTables more rest (syncTables db tables) := by
  induction tables generalizing db with
  | nil => rw [List.length_nil,Nat.zero_add]; rfl
  | cons table tail ih =>
    rw [List.length_cons,Nat.add_right_comm,List.flatMap_cons,List.append_assoc,
      applyTables_table (fits table List.mem_cons_self)]
    exact ih (fun other member => fits other (List.mem_cons_of_mem _ member)) _

end Walk

namespace Database

def defs (db : Database) : List (Option TableDef) := db.tables.map fun entry => entry.map (·.tdef)

-- Every table fits the format and is found under its name.
structure Sendable (db : Database) : Prop where
  places : db.tables.length < 256
  tables : ∀ place table, db.table place = some table → table.Fits
  names : ∀ one two left right, db.table one = some left → db.table two = some right →
    left.tdef.name = right.tdef.name → one = two

def FullSyncConverges (dimension : FieldDef → UInt16) (master slave : Database) : Prop :=
  ∃ after, SyncReceiver.applySnapshot (SyncHandler.createDatabaseSnapshot dimension master) slave =
      some (.ok (),after) ∧
    ∀ place table, master.table place = some table → ∃ copy, after.table place = some copy ∧ table.Converged copy

section Places
variable {db master slave : Database} {table copy : MemoryTable} {place : Nat}

theorem table_mem (member : some table ∈ db.tables) : ∃ place, db.table place = some table := by
  obtain ⟨place,inside,at_place⟩ := List.getElem_of_mem member
  refine ⟨place,?_⟩
  rw [Database.table,List.getElem?_eq_getElem inside,at_place]
  rfl

theorem mem_table (stands : db.table place = some table) : some table ∈ db.tables := by
  unfold Database.table at stands
  cases found : db.tables[place]? with
  | none => rw [found] at stands; cases stands
  | some entry =>
    rw [found] at stands
    cases stands
    exact List.mem_of_getElem? found

theorem defs_table (same : db.defs = master.defs) (place : Nat) :
    (db.table place).map (·.tdef) = (master.table place).map (·.tdef) := by
  have at_place : db.defs[place]? = master.defs[place]? := by rw [same]
  rw [defs,defs,List.getElem?_map,List.getElem?_map] at at_place
  unfold Database.table
  cases left : db.tables[place]? with
  | none =>
    rw [left] at at_place
    cases right : master.tables[place]? with
    | none => rfl
    | some entry => rw [right] at at_place; cases at_place
  | some entry =>
    rw [left] at at_place
    cases right : master.tables[place]? with
    | none => rw [right] at at_place; cases at_place
    | some other =>
      rw [right] at at_place
      exact Option.some.inj at_place

theorem defs_stands (same : db.defs = master.defs) (stands : master.table place = some table) :
    ∃ copy, db.table place = some copy ∧ copy.tdef = table.tdef := by
  have at_place := defs_table same place
  rw [stands] at at_place
  cases found : db.table place with
  | none => rw [found] at at_place; cases at_place
  | some copy =>
    rw [found] at at_place
    exact ⟨copy,rfl,Option.some.inj at_place⟩

theorem defs_setTable {copy new : MemoryTable} (stands : db.table place = some copy) (kept : new.tdef = copy.tdef) :
    (db.setTable place new).defs = db.defs := by
  unfold Database.table at stands
  apply List.ext_getElem?
  intro index
  rw [defs,defs,List.getElem?_map,List.getElem?_map,Database.setTable,List.getElem?_set]
  by_cases here : place = index
  · subst index
    cases found : db.tables[place]? with
    | none => rw [found] at stands; cases stands
    | some entry =>
      rw [found] at stands
      obtain rfl : entry = some copy := stands
      have inside := (List.getElem?_eq_some_iff.mp found).1
      rw [if_pos rfl,if_pos inside]
      simp [kept]
  · rw [if_neg here]

theorem placeOf_sent (sendable : master.Sendable) (same : db.defs = master.defs) (stands : master.table place = some table) :
    db.placeOf table.tdef.name = some place := by
  obtain ⟨copy,present,tdef⟩ := defs_stands same stands
  unfold Database.placeOf
  rw [List.findIdx?_eq_some_iff_getElem]
  have found : db.tables[place]? = some (some copy) := by
    unfold Database.table at present
    cases entry : db.tables[place]? with
    | none => rw [entry] at present; cases present
    | some value =>
      rw [entry] at present
      exact congrArg some present
  obtain ⟨inside,at_place⟩ := List.getElem?_eq_some_iff.mp found
  refine ⟨inside,by simp [at_place,tdef],?_⟩
  intro earlier before taken
  cases value : db.tables[earlier] with
  | none => simp [value] at taken
  | some other =>
    have there : db.table earlier = some other := by
      rw [Database.table,List.getElem?_eq_getElem (by omega),value]
      rfl
    obtain ⟨original,at_master,original_def⟩ : ∃ original, master.table earlier = some original ∧
        original.tdef = other.tdef := defs_stands same.symm there
    have named : other.tdef.name = table.tdef.name := by simpa [value] using taken
    have equal := sendable.names earlier place original table at_master stands (by rw [original_def,named])
    omega

theorem syncTable_sent (sendable : master.Sendable) (same : db.defs = master.defs)
    (stands : master.table place = some table) (present : db.table place = some copy) (found : List (Nat × Bytes)) :
    SyncReceiver.syncTable db table.tdef.name found = db.setTable place (copy.syncAll found) := by
  rw [SyncReceiver.syncTable,placeOf_sent sendable same stands]
  dsimp only
  rw [present]

theorem syncTables_table (sendable : master.Sendable) (tables : List MemoryTable) (same : db.defs = master.defs)
    (sent : ∀ table ∈ tables, ∃ place, master.table place = some table) (distinct : (tables.map (·.tdef.name)).Nodup)
    (stands : master.table place = some table) (present : db.table place = some copy) :
    (table ∈ tables → (syncTables db tables).table place = some (copy.syncAll table.tableRecords)) ∧
    (table ∉ tables → (syncTables db tables).table place = some copy) := by
  induction tables generalizing db copy with
  | nil => exact ⟨fun member => (nomatch member),fun _ => present⟩
  | cons head tail ih =>
    obtain ⟨absent_name,distinct_tail⟩ := List.nodup_cons.mp distinct
    obtain ⟨other,at_other⟩ := sent head List.mem_cons_self
    obtain ⟨held,present_other,held_def⟩ := defs_stands same at_other
    have first := syncTable_sent sendable same at_other present_other head.tableRecords
    have kept := (defs_setTable present_other (MemoryTable.syncAll_tdef head.tableRecords held)).trans same
    have sent_tail (each : MemoryTable) (member : each ∈ tail) := sent each (List.mem_cons_of_mem _ member)
    change (_ → (syncTables (SyncReceiver.syncTable db head.tdef.name head.tableRecords) tail).table place = _) ∧
      (_ → (syncTables (SyncReceiver.syncTable db head.tdef.name head.tableRecords) tail).table place = _)
    rw [first]
    by_cases here : other = place
    · subst other
      rw [present] at present_other
      obtain rfl : copy = held := Option.some.inj present_other
      rw [stands] at at_other
      obtain rfl : table = head := Option.some.inj at_other
      have absent : table ∉ tail := fun member => absent_name (List.mem_map.mpr ⟨table,member,rfl⟩)
      have later := (ih kept sent_tail distinct_tail (table_set_same present _)).2 absent
      exact ⟨fun _ => later,fun outside => absurd List.mem_cons_self outside⟩
    · have different : table ≠ head := by
        intro equal
        rw [equal] at stands
        exact here (sendable.names other place head head at_other stands rfl)
      have later := ih kept sent_tail distinct_tail ((table_set_other db (Ne.symm here) _).trans present)
      simpa [different] using later

theorem names_distinct (entries : List (Option MemoryTable))
    (names : ∀ (one two : Nat) (left right : MemoryTable), entries[one]? = some (some left) →
      entries[two]? = some (some right) → left.tdef.name = right.tdef.name → one = two) :
    ((entries.filterMap id).map (·.tdef.name)).Nodup := by
  induction entries with
  | nil => exact List.nodup_nil
  | cons entry rest ih =>
    have tail := ih fun one two left right at_one at_two equal =>
      Nat.succ.inj (names (one+1) (two+1) left right at_one at_two equal)
    cases entry with
    | none => exact tail
    | some table =>
      refine List.nodup_cons.mpr ⟨?_,tail⟩
      intro member
      obtain ⟨other,listed,equal⟩ := List.mem_map.mp member
      obtain ⟨index,at_index⟩ := List.mem_iff_getElem?.mp (List.mem_filterMap.mp listed |>.choose_spec.1)
      have holds := (List.mem_filterMap.mp listed).choose_spec.2
      rw [id_eq] at holds
      rw [holds] at at_index
      exact absurd (names 0 (index+1) table other rfl at_index equal.symm) (by omega)

theorem sent_tables (sendable : master.Sendable) :
    (∀ each ∈ master.tables.filterMap id, ∃ place, master.table place = some each) ∧
    (∀ each ∈ master.tables.filterMap id, each.Fits) ∧
    ((master.tables.filterMap id).map (·.tdef.name)).Nodup := by
  have sent (each : MemoryTable) (member : each ∈ master.tables.filterMap id) :
      ∃ place, master.table place = some each := by
    obtain ⟨entry,listed,holds⟩ := List.mem_filterMap.mp member
    rw [id_eq] at holds
    rw [holds] at listed
    exact table_mem listed
  refine ⟨sent,?_,?_⟩
  · intro each member
    obtain ⟨place,stands⟩ := sent each member
    exact sendable.tables place each stands
  · apply names_distinct
    intro one two left right at_one at_two equal
    refine sendable.names one two left right ?_ ?_ equal
    · rw [Database.table,at_one]
      rfl
    · rw [Database.table,at_two]
      rfl

theorem filterMap_shorter {entries : List (Option α)} (dropped : none ∈ entries) :
    (entries.filterMap id).length < entries.length := by
  induction entries with
  | nil => cases dropped
  | cons entry rest ih =>
    have bound := List.length_filterMap_le id rest
    cases entry with
    | none =>
      rw [List.filterMap_cons_none rfl,List.length_cons]
      omega
    | some value =>
      have later := ih (by simpa using dropped)
      change (value :: rest.filterMap id).length < _
      rw [List.length_cons,List.length_cons]
      omega

theorem filterMap_whole {entries : List (Option α)} (whole : none ∉ entries) :
    (entries.filterMap id).length = entries.length := by
  induction entries with
  | nil => rfl
  | cons entry rest ih =>
    rw [List.mem_cons,not_or] at whole
    cases entry with
    | none => exact absurd rfl whole.1
    | some value =>
      change (value :: rest.filterMap id).length = _
      rw [List.length_cons,List.length_cons,ih whole.2]

theorem applySnapshot_walk (dimension : FieldDef → UInt16) (sendable : master.Sendable) (slave : Database) :
    SyncReceiver.applySnapshot (SyncHandler.createDatabaseSnapshot dimension master) slave =
      SyncReceiver.applyTables (master.tables.length-(master.tables.filterMap id).length) []
        (syncTables slave (master.tables.filterMap id)) := by
  obtain ⟨_,fits,_⟩ := sent_tables sendable
  have walk := @applyTables_tables dimension (master.tables.filterMap id) fits
    (master.tables.length-(master.tables.filterMap id).length) [] slave
  have bound := List.length_filterMap_le id master.tables
  rw [List.append_nil,Nat.add_sub_cancel' bound] at walk
  rw [← walk]
  change SyncReceiver.applyTables (UInt8.ofNat master.tables.length).toNat _ slave = _
  rw [toNat_ofNat_byte sendable.places]
  rfl

-- A place that a dropped table left makes the reader look for one table more
-- than the data has.
theorem applySnapshot_dropped (dimension : FieldDef → UInt16) (sendable : master.Sendable) (slave : Database)
    (dropped : none ∈ master.tables) :
    SyncReceiver.applySnapshot (SyncHandler.createDatabaseSnapshot dimension master) slave = none := by
  have short := filterMap_shorter dropped
  obtain ⟨more,left⟩ : ∃ more, master.tables.length-(master.tables.filterMap id).length = more+1 :=
    ⟨master.tables.length-(master.tables.filterMap id).length-1,by omega⟩
  rw [applySnapshot_walk dimension sendable,left]
  rfl

theorem applySnapshot_whole (dimension : FieldDef → UInt16) (sendable : master.Sendable) (slave : Database)
    (whole : none ∉ master.tables) :
    SyncReceiver.applySnapshot (SyncHandler.createDatabaseSnapshot dimension master) slave =
      some (.ok (),syncTables slave (master.tables.filterMap id)) := by
  rw [applySnapshot_walk dimension sendable,filterMap_whole whole,Nat.sub_self]
  rfl

end Places

theorem full_sync_converges_iff (dimension : FieldDef → UInt16) (master slave : Database) (sendable : master.Sendable)
    (same : slave.defs = master.defs) :
    FullSyncConverges dimension master slave ↔
      none ∉ master.tables ∧ ∀ place table copy, master.table place = some table → slave.table place = some copy →
        table.Ready copy := by
  obtain ⟨sent,_,distinct⟩ := sent_tables sendable
  have landed {place : Nat} {table copy : MemoryTable} (stands : master.table place = some table)
      (present : slave.table place = some copy) : (syncTables slave (master.tables.filterMap id)).table place =
        some (copy.syncAll table.tableRecords) :=
    (syncTables_table sendable _ same sent distinct stands present).1
      (List.mem_filterMap.mpr ⟨some table,mem_table stands,rfl⟩)
  have kept {place : Nat} {table copy : MemoryTable} (stands : master.table place = some table)
      (present : slave.table place = some copy) : copy.tdef = table.tdef := by
    obtain ⟨other,there,tdef⟩ := defs_stands same stands
    rw [present] at there
    obtain rfl : copy = other := Option.some.inj there
    exact tdef
  constructor
  · rintro ⟨after,applied,converged⟩
    have whole : none ∉ master.tables := by
      intro dropped
      rw [applySnapshot_dropped dimension sendable slave dropped] at applied
      cases applied
    rw [applySnapshot_whole dimension sendable slave whole] at applied
    obtain rfl : syncTables slave (master.tables.filterMap id) = after := (Prod.mk.inj (Option.some.inj applied)).2
    refine ⟨whole,?_⟩
    intro place table copy stands present
    obtain ⟨other,there,agrees⟩ := converged place table stands
    rw [landed stands present] at there
    obtain rfl : copy.syncAll table.tableRecords = other := Option.some.inj there
    exact (MemoryTable.converged_iff_ready (kept stands present)).mp agrees
  · rintro ⟨whole,ready⟩
    refine ⟨_,applySnapshot_whole dimension sendable slave whole,?_⟩
    intro place table stands
    obtain ⟨copy,present,_⟩ := defs_stands same stands
    exact ⟨_,landed stands present,
      (MemoryTable.converged_iff_ready (kept stands present)).mpr (ready place table copy stands present)⟩

def holding (slots : List Nat) (byte : UInt8) (free : List Nat) : MemoryTable :=
  {pairTable with
    records:=fun slot => if slot ∈ slots then [byte] else [0]
    status:=fun slot => ⟨if slot ∈ slots then .used else .free,0,0,0,0⟩
    record_count:=slots.length
    free_slots:=free}

theorem single_table {table found : MemoryTable} (stands : (⟨[some table]⟩ : Database).table place = some found) :
    place = 0 ∧ found = table := by
  cases place with
  | zero => exact ⟨rfl,(Option.some.inj stands).symm⟩
  | succ more => cases stands

theorem pairTable_fits : pairTable.Fits :=
  ⟨by decide +kernel,by decide,by decide,by decide,fun _ member => (nomatch member),by decide⟩

theorem holding_sendable (slots free : List Nat) (byte : UInt8) :
    Sendable ⟨[some (holding slots byte free)]⟩ := by
  refine ⟨Nat.le_of_ble_eq_true rfl,?_,?_⟩
  · intro place table stands
    obtain ⟨_,rfl⟩ := single_table stands
    obtain ⟨name,size,records,fields,columns,keys⟩ := pairTable_fits
    exact ⟨name,size,records,fields,columns,keys⟩
  · intro one two left right at_one at_two _
    rw [(single_table at_one).1,(single_table at_two).1]

theorem overwritten_slot_converges :
    FullSyncConverges (fun _ => 0) ⟨[some (holding [0] 7 [1])]⟩ ⟨[some (holding [0] 5 [1])]⟩ := by
  refine (full_sync_converges_iff _ _ ⟨[some (holding [0] 5 [1])]⟩ (holding_sendable [0] [1] 7) rfl).mpr ⟨by simp,?_⟩
  intro place table copy stands present
  obtain ⟨_,rfl⟩ := single_table stands
  obtain ⟨_,rfl⟩ := single_table present
  refine ⟨fun _ _ busy => busy,by decide,by decide,?_⟩
  intro slot
  change slot ∈ [1] ↔ slot < 2 ∧ decide ((if slot ∈ [0] then RecordStatus.used else .free) = .used) = false
  by_cases first : slot = 0
  · simp [first]
  · simp [first]
    omega

-- A record of the slave that the master has not stays where it is.
theorem stale_record_stays :
    ¬FullSyncConverges (fun _ => 0) ⟨[some (holding [] 0 [1,0])]⟩ ⟨[some (holding [0] 5 [1])]⟩ := by
  rintro ⟨after,applied,converged⟩
  obtain ⟨copy,there,agrees⟩ := converged 0 _ rfl
  have idle := agrees.used 0 (by decide)
  rw [applySnapshot_whole _ (holding_sendable [] [1,0] 0) _ (by simp)] at applied
  obtain rfl := (Prod.mk.inj (Option.some.inj applied)).2
  have busy : ((syncTables ⟨[some (holding [0] 5 [1])]⟩ [holding [] 0 [1,0]]).table 0).map (·.used 0) = some true := by
    decide +kernel
  change (syncTables ⟨[some (holding [0] 5 [1])]⟩ [holding [] 0 [1,0]]).table 0 = some copy at there
  rw [there] at busy
  change copy.used 0 = false at idle
  rw [Option.map_some,idle] at busy
  cases busy

end Database
end RemDb
