import RemDb.Snapshot.Records
import RemDb.Ddl.Atomicity

namespace RemDb
open RemDb.Lib RemDb.Lib.Reader

section Writing

-- Everything a full snapshot has of the tables from a place on.
def savedBytes (beyond : Nat → Bytes) : Nat → List (Option DbTable) → Bytes
  | _, [] => []
  | table_id, none :: rest => savedBytes beyond (table_id+1) rest
  | table_id, some entry :: rest =>
    entry.snapshotBytes table_id (beyond table_id) ++ savedBytes beyond (table_id+1) rest

theorem write_ok {disk after : Disk} (written : disk.write bytes = (.ok (),after)) :
    after.file = disk.file ++ bytes := by
  unfold Disk.write at written
  split at written
  · cases written
    rfl
  · split at written
    · cases written
      rfl
    · cases written

theorem saveTables_ok (version : UInt32) (beyond : Nat → Bytes) (tables : List (Option DbTable)) (place : Nat)
    (disk : Disk) (saved : (saveTables version beyond place tables disk).1 = .ok ()) :
    (saveTables version beyond place tables disk).2.2.file = disk.file ++ savedBytes beyond place tables := by
  induction tables generalizing place disk with
  | nil => exact (List.append_nil _).symm
  | cons entry rest ih =>
    cases entry with
    | none => exact ih (place+1) disk saved
    | some entry =>
      unfold saveTables at saved ⊢
      cases written : disk.write (entry.snapshotBytes place (beyond place)) with
      | mk answer filled =>
        rw [written] at saved
        cases answer with
        | error failure => cases saved
        | ok _ =>
          have later := ih (place+1) filled saved
          rw [write_ok written,List.append_assoc] at later
          exact later

theorem saveSnapshot_ok {db : RemDbState σ} (saved : (saveSnapshot beyond (some ⟨[],room⟩) db).1 = .ok ()) :
    (saveSnapshot beyond (some ⟨[],room⟩) db).2.1 =
      snapshotHeader 0 (db.snapshot_version+1) (db.tables.countP Option.isSome) ++ savedBytes beyond 0 db.tables := by
  unfold saveSnapshot at saved ⊢
  dsimp only at saved ⊢
  generalize snapshotHeader 0 (db.snapshot_version+1) (db.tables.countP Option.isSome) = header at saved ⊢
  cases written : Disk.write ⟨[],room⟩ header with
  | mk answer filled =>
    rw [written] at saved
    cases answer with
    | error failure => cases saved
    | ok _ =>
      dsimp only at saved ⊢
      rw [saveTables_ok (db.snapshot_version+1) beyond db.tables 0 filled saved,write_ok written,List.nil_append]

end Writing

section Reading
variable {σ : Type} {reader : Reader α}

theorem read_ok {state : Restoring σ} (found : reader state.file = some (value,rest)) :
    (read reader).run state = .ok value {state with file:=rest} := by
  simp only [read,EStateM.run_bind,EStateM.run_get,found]
  rfl

theorem read_short {state : Restoring σ} (short : reader state.file = none) :
    (read reader).run state = .error (.error .fileIoError) {state with file:=[]} := by
  simp only [read,EStateM.run_bind,EStateM.run_get,short]
  rfl

theorem read_bind (next : α → RestoreAction σ β) (reads : Reads reader written value) (rest : Bytes) (db : RemDbState σ) :
    (read reader >>= next).run ⟨written ++ rest,db⟩ = (next value).run ⟨rest,db⟩ := by
  rw [EStateM.run_bind,read_ok (reads rest)]

theorem restoreFile_header (memory : Nat → Memory) (snapshot_type : UInt8) (version : UInt32) (table_count : Nat)
    (rest : Bytes) (db : RemDbState σ) :
    (restoreFile memory).run ⟨snapshotHeader snapshot_type version table_count ++ rest,db⟩ =
      (do
        restoreTables snapshot_type memory (table_count % 2^32)
        modify fun (state : Restoring σ) => {state with db:={state.db with snapshot_version:=version}} :
        RestoreAction σ Unit).run ⟨rest,db⟩ := by
  have magic : SNAPSHOT_MAGIC < 256^4 := by decide
  have number : SNAPSHOT_VERSION < 256^4 := by decide
  have base : version.toNat < 256^4 := version.toNat_lt
  rw [snapshotHeader]
  simp only [List.append_assoc]
  rw [restoreFile,read_bind _ (reads_le magic),if_neg (fun differ => differ rfl),read_bind _ (reads_le number),
    if_neg (fun differ => differ rfl),read_bind _ (reads_byte _),read_bind _ (reads_le base),
    read_bind _ (reads_le_mod 4 table_count),UInt32.ofNat_toNat]
  rfl

-- How a restore ends, from how the tables of the file end.
def concluded (version : UInt32) : EStateM.Result RestoreFault (Restoring σ) Unit → Except RestoreFault Unit × RemDbState σ
  | .ok _ state => (.ok (),{state.db with snapshot_version:=version})
  | .error fault state => (.error fault,state.db)

theorem restoreSnapshot_header (memory : Nat → Memory) (snapshot_type : UInt8) (version : UInt32) (table_count : Nat)
    (rest : Bytes) (db : RemDbState σ) :
    restoreSnapshot memory (some (snapshotHeader snapshot_type version table_count ++ rest)) db =
      concluded version ((restoreTables snapshot_type memory (table_count % 2^32)).run ⟨rest,db⟩) := by
  unfold restoreSnapshot
  dsimp only
  rw [restoreFile_header,EStateM.run_bind]
  cases (restoreTables snapshot_type memory (table_count % 2^32)).run (⟨rest,db⟩ : Restoring σ) with
  | ok _ state => rfl
  | error fault state => rfl

theorem restoreTable_front (snapshot_type : UInt8) (memory : Nat → Memory) {described : Description} (fits : described.Fits)
    (small : table_id < 2^32) (rest : Bytes) (db : RemDbState σ) :
    (restoreTable snapshot_type memory).run ⟨toLE 4 table_id ++ (described.bytes ++ rest),db⟩ =
      (do
        provideTable (memory table_id) table_id described.restored
        let record_count ← read (le 4)
        restoreInto table_id snapshot_type record_count).run ⟨rest,db.widen table_id⟩ := by
  rw [restoreTable,read_bind _ (reads_le small),EStateM.run_bind]
  change (read Description.fromSnapshot >>= _).run ⟨described.bytes ++ rest,db.widen table_id⟩ = _
  rw [read_bind _ (described.reads_bytes fits)]

def RemDbState.place (db : RemDbState σ) (table_id : Nat) (entry : DbTable) : RemDbState σ :=
  {db with tables:=db.tables.set table_id (some entry)}

theorem restoreInto_full {db : RemDbState σ} (stands : db.table table_id = some entry) (records : List (Nat × Bytes))
    (rest : Bytes) (inside : ∀ each ∈ records, each.1 < entry.tdef.max_records ∧ each.1 < 2^32)
    (whole : ∀ each ∈ records, each.2.length = entry.tdef.savedSize) :
    (restoreInto table_id 0 records.length).run ⟨records.flatMap recordEntry ++ rest,db⟩ =
        .ok () ⟨rest,db.place table_id {entry with table:=entry.table.reset.restoreAll records}⟩ ∧
        (records ≠ [] → entry.tdef.keyPanics = false) ∨
      records ≠ [] ∧ entry.tdef.keyPanics = true ∧ ∃ state,
        (restoreInto table_id 0 records.length).run ⟨records.flatMap recordEntry ++ rest,db⟩ = .error .panicked state := by
  have outcome := restoreRecords_listed records entry.table.reset rest inside whole
  simp only [restoreInto,EStateM.run_bind,EStateM.run_get,stands,if_true]
  rcases outcome with ⟨read,fine⟩ | ⟨some,missing,panicked⟩
  · left
    rw [read]
    exact ⟨rfl,fine⟩
  · right
    rw [panicked]
    exact ⟨some,missing,_,rfl⟩

end Reading

def DbTable.savedRecords (entry : DbTable) (beyond : Bytes) : List (Nat × Bytes) :=
  entry.table.usedSlots.map fun slot => (slot,entry.table.bytesFrom beyond slot entry.tdef.savedSize)

section Saved
variable {entry : DbTable}

theorem savedRecords_bytes (beyond : Bytes) :
    (entry.savedRecords beyond).flatMap recordEntry = entry.table.usedSlots.flatMap (entry.recordBytes beyond) := by
  rw [DbTable.savedRecords,List.flatMap_map]
  rfl

theorem savedRecords_slots (beyond : Bytes) : (entry.savedRecords beyond).map (·.1) = entry.table.usedSlots := by
  rw [DbTable.savedRecords,List.map_map]
  exact List.map_id _

theorem savedRecords_inside (beyond : Bytes) (small : entry.tdef.max_records < 2^32) :
    ∀ each ∈ entry.savedRecords beyond, each.1 < entry.tdef.max_records ∧ each.1 < 2^32 ∧
      each.2.length = entry.tdef.savedSize := by
  intro each member
  obtain ⟨slot,busy,rfl⟩ := List.mem_map.mp member
  have within := (MemoryTable.usedSlots_mem.mp busy).1
  exact ⟨within,Nat.lt_trans within small,MemoryTable.bytesFrom_length _ _ _ _⟩

theorem savedRecords_length (beyond : Bytes) (accounted : entry.table.Accounted) :
    (entry.savedRecords beyond).length = entry.table.record_count := by
  rw [DbTable.savedRecords,List.length_map,MemoryTable.usedSlots_length,accounted.count]

theorem restored_used (beyond : Bytes) (table : MemoryTable) (same : table.tdef.max_records = entry.tdef.max_records)
    (inside : slot < entry.tdef.max_records) :
    (table.reset.restoreAll (entry.savedRecords beyond)).used slot = entry.table.used slot := by
  rw [MemoryTable.restoreAll_used,savedRecords_slots]
  by_cases busy : slot ∈ entry.table.usedSlots
  · rw [assignAll_mem _ busy,(MemoryTable.usedSlots_mem.mp busy).2]
  · have idle : entry.table.used slot = false := by
      cases used : entry.table.used slot with
      | false => rfl
      | true => exact absurd (MemoryTable.usedSlots_mem.mpr ⟨inside,used⟩) busy
    rw [assignAll_other _ busy,idle]
    exact MemoryTable.reset_used (same ▸ inside)

end Saved

section Places
variable {σ : Type} {db : RemDbState σ}

theorem table_place (inside : table_id < db.tables.length) (other : Nat) :
    (db.place table_id entry).table other = if other = table_id then some entry else db.table other := by
  unfold RemDbState.table RemDbState.place
  by_cases here : other = table_id
  · rw [if_pos here,here,List.getElem?_set_self inside]
    rfl
  · rw [if_neg here,List.getElem?_set_ne (Ne.symm here)]

theorem table_inside (stands : db.table place = some entry) : place < db.tables.length := by
  by_contra beyond
  rw [RemDbState.table,List.getElem?_eq_none (by omega)] at stands
  cases stands

theorem resize_length (values : List (Option α)) (size : Nat) : (resize values size).length = size := by
  simp only [resize,List.length_append,List.length_take,List.length_replicate]
  omega

theorem widen_inside (db : RemDbState σ) (table_id : Nat) : table_id < (db.widen table_id).tables.length := by
  unfold RemDbState.widen
  split
  · exact Nat.lt_of_lt_of_eq (Nat.lt_succ_self _) (resize_length _ _).symm
  · omega

theorem widen_table (db : RemDbState σ) (table_id other : Nat) : (db.widen table_id).table other = db.table other := by
  unfold RemDbState.widen
  split
  · rename_i beyond
    have whole : db.tables.take (table_id+1) = db.tables := List.take_of_length_le (by omega)
    change ((resize db.tables (table_id+1))[other]?).join = (db.tables[other]?).join
    rw [resize,whole,List.getElem?_append]
    split
    · rfl
    · rename_i outside
      rw [List.getElem?_eq_none (Nat.le_of_not_lt outside),List.getElem?_replicate]
      split
      · rfl
      · rfl
  · rfl

theorem widen_held (stands : db.table table_id = some entry) : db.widen table_id = db := by
  have inside := table_inside stands
  rw [RemDbState.widen,if_neg (by omega)]

theorem widen_allocator (db : RemDbState σ) (table_id : Nat) : (db.widen table_id).allocator = db.allocator := by
  unfold RemDbState.widen
  split
  · rfl
  · rfl

theorem provideTable_run (memory : Memory) (described : Description) (file : Bytes) (free : db.table table_id = none) :
    (∃ fault after, (provideTable memory table_id described).run ⟨file,db⟩ = .error fault after ∧
      (described.max_records = 0 ∨ grantAll db.allocator (described.tableDef table_id).memorySizes = none)) ∨
    ∃ entry pool, (provideTable memory table_id described).run ⟨file,db⟩ =
        .ok () ⟨file,{db with allocator:=pool}.place table_id entry⟩ ∧ described.max_records ≠ 0 ∧
      grantAll db.allocator (described.tableDef table_id).memorySizes = some pool ∧
      entry.tdef = described.tableDef table_id := by
  simp only [provideTable,EStateM.run_bind,EStateM.run_get,free]
  rcases @makeTable_run σ db memory (described.tableDef table_id) described.secondary_index
      described.secondary_index_type with ⟨fault,after,ran,refused⟩ | ⟨entry,pool,ran,full,granted,defined,_⟩
  · left
    rw [ran]
    cases fault with
    | diverged => exact ⟨_,_,rfl,refused⟩
    | error failure => exact ⟨_,_,rfl,refused⟩
  · right
    rw [ran]
    exact ⟨entry,pool,rfl,full,granted,defined⟩

theorem provideTable_held (memory : Memory) (described : Description) (file : Bytes) (stands : db.table table_id = some entry) :
    (provideTable memory table_id described).run ⟨file,db⟩ = .ok () ⟨file,db⟩ := by
  simp only [provideTable,EStateM.run_bind,EStateM.run_get,stands]
  rfl

end Places

-- One table of a full snapshot, once a table of the same extent stands in its
-- place.
section Tables
variable {σ : Type} {source : DbTable}

theorem restoreTable_saved (memory : Nat → Memory) (beyond rest : Bytes) (db : RemDbState σ)
    (fits : source.description.Fits) (accounted : source.table.Accounted) (small : table_id < 2^32) :
    (restoreTable 0 memory).run ⟨source.snapshotBytes table_id beyond ++ rest,db⟩ =
      (do
        provideTable (memory table_id) table_id source.description.restored
        let record_count ← read (le 4)
        restoreInto table_id 0 record_count).run
          ⟨toLE 4 (source.savedRecords beyond).length ++ ((source.savedRecords beyond).flatMap recordEntry ++ rest),
            db.widen table_id⟩ := by
  rw [savedRecords_length beyond accounted,savedRecords_bytes,DbTable.snapshotBytes]
  simp only [List.append_assoc]
  rw [restoreTable_front 0 memory fits small]

theorem savedRecords_count (beyond : Bytes) (fits : source.description.Fits) (accounted : source.table.Accounted) :
    (source.savedRecords beyond).length < 2^32 := by
  have total := accounted.total
  have bound : source.tdef.max_records < 2^32 := fits.records
  have same : source.table.tdef.max_records = source.tdef.max_records := rfl
  rw [savedRecords_length beyond accounted]
  omega

-- A table that stands keeps its definition, its free stack and its indices.
theorem restoreTable_held (memory : Nat → Memory) (beyond rest : Bytes) {db : RemDbState σ}
    (fits : source.description.Fits) (accounted : source.table.Accounted) (small : table_id < 2^32)
    (stands : db.table table_id = some entry) (same : entry.tdef = source.tdef) :
    (restoreTable 0 memory).run ⟨source.snapshotBytes table_id beyond ++ rest,db⟩ =
        .ok () ⟨rest,db.place table_id {entry with table:=entry.table.reset.restoreAll (source.savedRecords beyond)}⟩ ∧
        (source.savedRecords beyond ≠ [] → source.tdef.keyPanics = false) ∨
      source.savedRecords beyond ≠ [] ∧ source.tdef.keyPanics = true ∧ ∃ state,
        (restoreTable 0 memory).run ⟨source.snapshotBytes table_id beyond ++ rest,db⟩ = .error .panicked state := by
  have records := savedRecords_inside beyond fits.records
  have counted : Reads (le 4) (toLE 4 (source.savedRecords beyond).length) (source.savedRecords beyond).length :=
    reads_le (savedRecords_count beyond fits accounted)
  have read := restoreInto_full stands (source.savedRecords beyond) rest
    (fun each member => same ▸ ⟨(records each member).1,(records each member).2.1⟩)
    (fun each member => same ▸ (records each member).2.2)
  rw [restoreTable_saved memory beyond rest db fits accounted small,widen_held stands,EStateM.run_bind,
    provideTable_held _ _ _ stands]
  dsimp only
  rw [read_bind _ counted]
  rw [same] at read
  exact read

end Tables
end RemDb
