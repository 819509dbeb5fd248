import RemDb.Snapshot.RoundTrip

namespace RemDb
open RemDb.Lib RemDb.Lib.Reader

inductive RowChange where
  | insert (now : UInt64) (data : Bytes)
  | update (now : UInt64) (slot : Nat) (data : Bytes)
  | delete (now : UInt64) (slot : Nat)

def RowChange.apply (table : MemoryTable) (tx : TransactionManager) : RowChange → MemoryTable
  | .insert now data => (table.insert tx now data).2.1
  | .update now slot data => (table.update tx now slot data).2.1
  | .delete now slot => (table.delete tx now slot).2.1

-- A change in the table of a place, under whatever transaction is open.
structure PlacedChange where
  table_id : Nat
  tx : TransactionManager
  change : RowChange

namespace RemDbState

def apply (db : RemDbState σ) (placed : PlacedChange) : RemDbState σ :=
  {db with tables:=db.tables.modify placed.table_id (Option.map fun entry =>
    {entry with table:=placed.change.apply entry.table placed.tx})}

def applyAll (db : RemDbState σ) (changes : List PlacedChange) : RemDbState σ := changes.foldl apply db

end RemDbState

-- The used slots of one table and the bytes in them, in another.
structure SameRows (before after : DbTable) : Prop where
  used : ∀ slot, slot < before.tdef.max_records → after.table.used slot = before.table.used slot
  bytes : ∀ slot, slot < before.tdef.max_records → before.table.used slot = true →
    recordImage after.tdef.record_size (after.table.records slot) =
      recordImage before.tdef.record_size (before.table.records slot)

-- Where memory and the ends of data areas come from in the four calls.
structure Surroundings where
  beyond : Nat → Bytes
  beyond' : Nat → Bytes
  memory : Nat → Memory
  memory' : Nat → Memory

-- A full snapshot, some changes and an incremental snapshot; both restored, one
-- after the other, they give the rows as they were after the changes.
def Composes (around : Surroundings) (db target : RemDbState σ) (changes : List PlacedChange) : Prop :=
  let full := saveSnapshot around.beyond (some Disk.roomy) db
  let later := full.2.2.applyAll changes
  let increment := saveIncrementalSnapshot around.beyond' (some Disk.roomy) later
  ∃ middle after, restoreSnapshot around.memory (some full.2.1) target = (.ok (),middle) ∧
    restoreSnapshot around.memory' (some increment.2.1) middle = (.ok (),after) ∧
    ∀ table_id entry, later.table table_id = some entry →
      ∃ restored, after.table table_id = some restored ∧ SameRows entry restored

section Consumption
variable {σ : Type} {reader : Reader α}

theorem restoreRecords_shorter (count : Nat) (table : MemoryTable) (file : Bytes) :
    (restoreRecords count table file).2.2.length ≤ file.length := by
  induction count generalizing table file with
  | zero => exact Nat.le_refl _
  | succ count ih =>
    unfold restoreRecords
    split
    · exact Nat.zero_le _
    · rename_i slot data found
      have first := (yields_le 4 _ _ _ found).2
      split
      · change data.length ≤ file.length
        omega
      · split
        · exact Nat.zero_le _
        · rename_i bytes rest taken
          have second := (yields_take _ _ _ _ taken).2
          split
          · change rest.length ≤ file.length
            omega
          · have later := ih (table.restoreRecord slot bytes) rest
            omega

theorem read_takes {property : α → Prop} {state after : Restoring σ} (yields : Yields reader least property)
    (ran : (read reader).run state = .ok value after) : after.file.length+least ≤ state.file.length := by
  cases found : reader state.file with
  | none => cases ran.symm.trans (read_short found)
  | some outcome =>
    obtain ⟨value',rest⟩ := outcome
    cases ran.symm.trans (read_ok found)
    exact (yields _ _ _ found).2

theorem provideTable_file {state after : Restoring σ} (memory : Memory) (described : Description)
    (ran : (provideTable memory table_id described).run state = .ok value after) : after.file = state.file := by
  cases stands : state.db.table table_id with
  | some entry =>
    cases ran.symm.trans (provideTable_held memory described state.file stands)
    rfl
  | none =>
    rcases provideTable_run memory described state.file stands with ⟨fault,_,refused,_⟩ | ⟨entry,pool,made,_⟩
    · cases ran.symm.trans refused
    · cases ran.symm.trans made
      rfl

theorem restoreInto_shorter {state after : Restoring σ} (snapshot_type : UInt8) (record_count : Nat)
    (ran : (restoreInto table_id snapshot_type record_count).run state = .ok value after) :
    after.file.length ≤ state.file.length := by
  have shorter := restoreRecords_shorter record_count
  cases stands : state.db.table table_id with
  | none =>
    simp only [restoreInto,EStateM.run_bind,EStateM.run_get,stands] at ran
    cases ran
  | some entry =>
    simp only [restoreInto,EStateM.run_bind,EStateM.run_get,stands] at ran
    have less := shorter (if snapshot_type = 0 then entry.table.reset else entry.table) state.file
    generalize restoreRecords record_count (if snapshot_type = 0 then entry.table.reset else entry.table) state.file =
      outcome at ran less
    obtain ⟨answer,table,file⟩ := outcome
    cases answer with
    | ok _ =>
      cases ran
      exact less
    | error fault => cases ran

theorem restoreTable_takes {state after : Restoring σ} (snapshot_type : UInt8) (memory : Nat → Memory)
    (ran : (restoreTable snapshot_type memory).run state = .ok value after) :
    after.file.length+17 ≤ state.file.length := by
  obtain ⟨table_id,first,placed,ran⟩ := run_bind_ok ran
  obtain ⟨_,second,widened,ran⟩ := run_bind_ok ran
  obtain ⟨described,third,described',ran⟩ := run_bind_ok ran
  obtain ⟨_,fourth,provided,ran⟩ := run_bind_ok ran
  obtain ⟨record_count,fifth,counted,ran⟩ := run_bind_ok ran
  have place := read_takes (yields_le 4) placed
  have same : second.file = first.file := by
    cases widened
    rfl
  have description := read_takes Description.yields_fromSnapshot described'
  have table := provideTable_file _ _ provided
  have count := read_takes (yields_le 4) counted
  have records := restoreInto_shorter _ _ ran
  rw [same] at description
  rw [table] at count
  omega

theorem restoreTables_takes (snapshot_type : UInt8) (memory : Nat → Memory) (count : Nat) :
    ∀ (state after : Restoring σ), (restoreTables snapshot_type memory count).run state = .ok () after →
      after.file.length+17*count ≤ state.file.length := by
  induction count with
  | zero =>
    intro state after ran
    cases ran
    exact Nat.le_refl _
  | succ count ih =>
    intro state after ran
    obtain ⟨_,middle,first,ran⟩ := run_bind_ok ran
    have one := restoreTable_takes snapshot_type memory first
    have others := ih middle after ran
    omega

end Consumption
section Clearing
variable {σ : Type} {db : RemDbState σ}

theorem apply_table (db : RemDbState σ) (placed : PlacedChange) (table_id : Nat) :
    (db.apply placed).table table_id = if placed.table_id = table_id then
      (db.table table_id).map fun entry => {entry with table:=placed.change.apply entry.table placed.tx}
    else db.table table_id := by
  unfold RemDbState.table RemDbState.apply
  rw [List.getElem?_modify]
  split
  · cases db.tables[table_id]? with
    | none => rfl
    | some entry =>
      cases entry with
      | none => rfl
      | some entry => rfl
  · cases db.tables[table_id]? with
    | none => rfl
    | some entry => rfl

theorem applyAll_length (changes : List PlacedChange) (db : RemDbState σ) :
    (db.applyAll changes).tables.length = db.tables.length := by
  induction changes generalizing db with
  | nil => rfl
  | cons placed rest ih => exact (ih _).trans (List.length_modify _ _ _)

theorem delete_used (table : MemoryTable) (tx : TransactionManager) (now : UInt64) (slot : Nat) :
    (table.delete tx now slot).2.1.tdef = table.tdef ∧
    (slot < table.tdef.max_records → (table.delete tx now slot).2.1.used slot = false) ∧
    ∀ other, table.used other = false → (table.delete tx now slot).2.1.used other = false := by
  by_cases usable : slot < table.tdef.max_records ∧ table.used slot = true
  · have released : (table.delete tx now slot).2.1 = table.release slot := by
      unfold MemoryTable.delete
      rw [if_neg (by omega),if_neg (by rw [usable.2]; decide)]
    rw [released,MemoryTable.release_used]
    refine ⟨?_,fun _ => assign_same _ _ _,?_⟩
    · unfold MemoryTable.release MemoryTable.pushFree
      dsimp only
      split
      · rfl
      · rfl
    · intro other idle
      by_cases here : other = slot
      · rw [here,assign_same]
      · rw [assign_other _ here,idle]
  · have kept : (table.delete tx now slot).2.1 = table := by
      unfold MemoryTable.delete
      split
      · rfl
      · rename_i inside
        rw [if_pos]
        cases busy : table.used slot with
        | false => rfl
        | true => exact absurd ⟨Nat.lt_of_not_le inside,busy⟩ usable
    rw [kept]
    refine ⟨rfl,?_,fun _ idle => idle⟩
    intro inside
    cases busy : table.used slot with
    | false => rfl
    | true => exact absurd ⟨inside,busy⟩ usable

def deleteAt (pair : Nat × Nat) : PlacedChange := ⟨pair.1,MemoryTable.noTx,.delete 0 pair.2⟩

theorem deletes_clear (pairs : List (Nat × Nat)) (db : RemDbState σ) (table_id slot : Nat) (entry : DbTable)
    (stands : (db.applyAll (pairs.map deleteAt)).table table_id = some entry) :
    ∃ before, db.table table_id = some before ∧ entry.tdef = before.tdef ∧
      ((table_id,slot) ∈ pairs ∧ slot < before.tdef.max_records ∨ before.table.used slot = false →
        entry.table.used slot = false) := by
  induction pairs generalizing db with
  | nil => exact ⟨entry,stands,rfl,fun cleared => cleared.resolve_left fun listed => (nomatch listed.1)⟩
  | cons pair rest ih =>
    obtain ⟨middle,present,defined,cleared⟩ := ih (db.apply (deleteAt pair)) stands
    rw [apply_table] at present
    by_cases here : pair.1 = table_id
    · rw [if_pos (show (deleteAt pair).table_id = table_id from here)] at present
      obtain ⟨before,stood,rfl⟩ := Option.map_eq_some_iff.mp present
      obtain ⟨same,gone,others⟩ := delete_used before.table MemoryTable.noTx 0 pair.2
      have kept : entry.tdef = before.tdef := defined.trans same
      have extent : (before.table.delete MemoryTable.noTx 0 pair.2).2.1.tdef.max_records = before.tdef.max_records :=
        congrArg TableDef.max_records same
      refine ⟨before,stood,kept,?_⟩
      rintro (⟨listed,inside⟩ | idle)
      · rcases List.mem_cons.mp listed with same_pair | later
        · have number : slot = pair.2 := congrArg Prod.snd same_pair
          rw [number] at inside cleared ⊢
          exact cleared (.inr (gone inside))
        · exact cleared (.inl ⟨later,Nat.lt_of_lt_of_eq inside extent.symm⟩)
      · exact cleared (.inr (others slot idle))
    · rw [if_neg (show (deleteAt pair).table_id ≠ table_id from here)] at present
      refine ⟨middle,present,defined,?_⟩
      rintro (⟨listed,inside⟩ | idle)
      · rcases List.mem_cons.mp listed with same_pair | later
        · exact absurd (congrArg Prod.fst same_pair).symm here
        · exact cleared (.inl ⟨later,inside⟩)
      · exact cleared (.inr idle)

def allSlots (db : RemDbState σ) : List (Nat × Nat) :=
  (List.range db.tables.length).flatMap fun table_id =>
    (List.range (((db.table table_id).map (·.tdef.max_records)).getD 0)).map fun slot => (table_id,slot)

theorem mem_allSlots (stands : db.table table_id = some entry) (inside : slot < entry.tdef.max_records) :
    (table_id,slot) ∈ allSlots db := by
  refine List.mem_flatMap.mpr ⟨table_id,List.mem_range.mpr (table_inside stands),?_⟩
  rw [stands]
  exact List.mem_map.mpr ⟨slot,List.mem_range.mpr inside,rfl⟩

theorem cleared_slots (db : RemDbState σ) (table_id : Nat) (entry : DbTable)
    (stands : (db.applyAll ((allSlots db).map deleteAt)).table table_id = some entry) : entry.table.usedSlots = [] := by
  apply List.eq_nil_iff_forall_not_mem.mpr
  intro slot member
  obtain ⟨inside,busy⟩ := MemoryTable.usedSlots_mem.mp member
  obtain ⟨before,stood,defined,cleared⟩ := deletes_clear (allSlots db) db table_id slot entry stands
  have extent : entry.table.tdef.max_records = before.tdef.max_records := congrArg TableDef.max_records defined
  rw [extent] at inside
  rw [cleared (.inl ⟨mem_allSlots stood inside,inside⟩)] at busy
  cases busy

end Clearing

-- Without records an incremental snapshot has eight bytes for each table.
theorem saveIncrements_small (version : UInt32) (beyond : Nat → Bytes) (tables : List (Option DbTable)) (place : Nat)
    (file : Bytes) (cleared : ∀ entry, some entry ∈ tables → entry.table.usedSlots = []) :
    ∃ body, (saveIncrements version beyond place tables ⟨file,none⟩).2.2 = ⟨file ++ body,none⟩ ∧
      body.length ≤ 8*tables.length := by
  induction tables generalizing place file with
  | nil => exact ⟨[],by rw [List.append_nil]; rfl,Nat.le_refl _⟩
  | cons first rest ih =>
    have cleared' := fun entry member => cleared entry (List.mem_cons_of_mem _ member)
    cases first with
    | none =>
      obtain ⟨body,saved,short⟩ := ih (place+1) file cleared'
      refine ⟨body,saved,?_⟩
      rw [List.length_cons]
      omega
    | some entry =>
      have nothing : entry.changedSlots = [] := by
        rw [DbTable.changedSlots,cleared entry List.mem_cons_self]
        rfl
      have size : (entry.incrementBytes place (beyond place)).length = 8 := by
        rw [DbTable.incrementBytes,nothing]
        simp
      obtain ⟨body,saved,short⟩ := ih (place+1) (file ++ entry.incrementBytes place (beyond place)) cleared'
      refine ⟨entry.incrementBytes place (beyond place) ++ body,?_,?_⟩
      · rw [← List.append_assoc]
        exact saved
      · rw [List.length_append,size,List.length_cons]
        omega

theorem saveTables_length (version : UInt32) (beyond : Nat → Bytes) (tables : List (Option DbTable)) (place : Nat)
    (file : Bytes) : (saveTables version beyond place tables ⟨file,none⟩).2.1.length = tables.length := by
  induction tables generalizing place file with
  | nil => rfl
  | cons first rest ih =>
    cases first with
    | none => exact congrArg Nat.succ (ih (place+1) file)
    | some entry => exact congrArg Nat.succ (ih (place+1) (file ++ entry.snapshotBytes place (beyond place)))

theorem saveSnapshot_length (beyond : Nat → Bytes) (db : RemDbState σ) :
    (saveSnapshot beyond (some Disk.roomy) db).2.2.tables.length = db.tables.length :=
  saveTables_length _ _ _ _ _

theorem roomy_write (bytes : Bytes) : Disk.roomy.write bytes = (.ok (),⟨bytes,none⟩) := rfl

theorem saveIncrementalSnapshot_roomy (beyond : Nat → Bytes) (db : RemDbState σ) :
    (saveIncrementalSnapshot beyond (some Disk.roomy) db).2.1 =
      (saveIncrements db.snapshot_version beyond 0 (db.tables.take (db.tables.length % 2^32))
        ⟨snapshotHeader 1 db.snapshot_version (db.tables.length % 2^32),none⟩).2.2.file := by
  unfold saveIncrementalSnapshot
  dsimp only
  rw [roomy_write]

-- An incremental snapshot of a database without records cannot be restored.
theorem empty_increment_fails (beyond : Nat → Bytes) (memory : Nat → Memory) (db middle after : RemDbState σ)
    (some_place : db.tables ≠ []) (few : db.tables.length < 2^32)
    (cleared : ∀ table_id entry, db.table table_id = some entry → entry.table.usedSlots = []) :
    restoreSnapshot memory (some (saveIncrementalSnapshot beyond (some Disk.roomy) db).2.1) middle ≠ (.ok (),after) := by
  intro restored
  have whole : db.tables.take (db.tables.length % 2^32) = db.tables := by
    rw [Nat.mod_eq_of_lt few,List.take_length]
  obtain ⟨body,saved,short⟩ := saveIncrements_small db.snapshot_version beyond db.tables 0
    (snapshotHeader 1 db.snapshot_version (db.tables.length % 2^32)) (by
      intro entry member
      obtain ⟨place,found⟩ := List.mem_iff_getElem?.mp member
      exact cleared place entry (table_of_getElem? found))
  have file : (saveIncrementalSnapshot beyond (some Disk.roomy) db).2.1 =
      snapshotHeader 1 db.snapshot_version (db.tables.length % 2^32) ++ body := by
    rw [saveIncrementalSnapshot_roomy,whole,saved]
  rw [file,restoreSnapshot_header,Nat.mod_mod,Nat.mod_eq_of_lt few] at restored
  have positive : 0 < db.tables.length := List.length_pos_iff.mpr some_place
  cases ran : (restoreTables 1 memory db.tables.length).run (⟨body,middle⟩ : Restoring σ) with
  | error fault state =>
    rw [ran] at restored
    cases restored
  | ok _ state =>
    have taken := restoreTables_takes 1 memory _ _ _ ran
    have size : (⟨body,middle⟩ : Restoring σ).file.length = body.length := rfl
    omega

theorem applyAll_nil (changes : List PlacedChange) (db : RemDbState σ) (bare : db.tables = []) :
    (db.applyAll changes).tables = [] := by
  apply List.eq_nil_of_length_eq_zero
  rw [applyAll_length,bare]
  rfl

-- Over every run of changes the two snapshots compose only where there is no
-- table at all: the reader expects definitions that the incremental file does
-- not have.
theorem increments_compose_iff (around : Surroundings) (db target : RemDbState σ) (few : db.tables.length < 2^32) :
    (∀ changes, Composes around db target changes) ↔ db.tables = [] := by
  have places (changes : List PlacedChange) :
      ((saveSnapshot around.beyond (some Disk.roomy) db).2.2.applyAll changes).tables.length = db.tables.length := by
    rw [applyAll_length,saveSnapshot_length]
  constructor
  · intro composes
    by_contra some_place
    obtain ⟨middle,after,_,restored,_⟩ := composes
      ((allSlots (saveSnapshot around.beyond (some Disk.roomy) db).2.2).map deleteAt)
    apply empty_increment_fails around.beyond' around.memory' _ middle after _ _ _ restored
    · apply List.length_pos_iff.mp
      rw [places]
      exact List.length_pos_iff.mpr some_place
    · rw [places]
      exact few
    · exact cleared_slots _
  · intro bare changes
    have header : (saveSnapshot around.beyond (some Disk.roomy) db).2.1 =
        snapshotHeader 0 (db.snapshot_version+1) 0 ++ [] := by
      have written : (saveSnapshot around.beyond (some Disk.roomy) db).1 = .ok () := by
        unfold saveSnapshot
        dsimp only
        rw [roomy_write,bare]
        rfl
      have saved := saveSnapshot_ok written
      rw [bare] at saved
      exact saved
    have none_later := applyAll_nil changes (saveSnapshot around.beyond (some Disk.roomy) db).2.2
      (List.eq_nil_of_length_eq_zero (by rw [saveSnapshot_length,bare]; rfl))
    unfold Composes
    dsimp only
    generalize (saveSnapshot around.beyond (some Disk.roomy) db).2.2.applyAll changes = later at none_later
    have increment : (saveIncrementalSnapshot around.beyond' (some Disk.roomy) later).2.1 =
        snapshotHeader 1 later.snapshot_version 0 ++ [] := by
      rw [saveIncrementalSnapshot_roomy,none_later]
      exact (List.append_nil _).symm
    refine ⟨{target with snapshot_version:=db.snapshot_version+1},{target with snapshot_version:=later.snapshot_version},
      ?_,?_,?_⟩
    · rw [header,restoreSnapshot_header]
      rfl
    · rw [increment,restoreSnapshot_header]
      rfl
    · intro table_id entry stands
      rw [RemDbState.table,none_later] at stands
      cases stands

def blankSurroundings : Surroundings := ⟨fun _ => [],fun _ => [],fun _ => zeroed.memory,fun _ => zeroed.memory⟩

def addSeven : PlacedChange := ⟨0,MemoryTable.noTx,.insert 0 [7]⟩

theorem increments_compose_bare : Composes blankSurroundings (emptyDb 1000) (emptyDb 1000) [addSeven] :=
  (increments_compose_iff blankSurroundings (emptyDb 1000) (emptyDb 1000) (by decide)).mpr rfl [addSeven]

def fullFile : Bytes := (saveSnapshot (fun _ => []) (some Disk.roomy) (oneTable byteDef)).2.1
def incrementFile : Bytes :=
  (saveIncrementalSnapshot (fun _ => []) (some Disk.roomy)
    ((saveSnapshot (fun _ => []) (some Disk.roomy) (oneTable byteDef)).2.2.applyAll [addSeven])).2.1

def restoredFull : Except RestoreFault Unit × RemDbState Unit :=
  restoreSnapshot (fun _ => zeroed.memory) (some fullFile) (emptyDb 1000)

-- The full snapshot is restored, and the incremental one ends too early for
-- the definition that is looked for in it.
theorem increment_not_restored :
    restoredFull.1 = .ok () ∧
    (restoreSnapshot (fun _ => zeroed.memory) (some incrementFile) restoredFull.2).1 = .error (.error .fileIoError) ∧
    ¬Composes blankSurroundings (oneTable byteDef) (emptyDb 1000) [addSeven] := by
  have first : restoredFull.1 = .ok () := by decide +kernel
  have second : (restoreSnapshot (fun _ => zeroed.memory) (some incrementFile) restoredFull.2).1 =
      .error (.error .fileIoError) := by decide +kernel
  refine ⟨first,second,?_⟩
  rintro ⟨middle,after,full,increment,_⟩
  have middle_is : restoredFull.2 = middle := congrArg Prod.snd full
  rw [middle_is] at second
  have ended := congrArg Prod.fst increment
  cases second.symm.trans ended

end RemDb
