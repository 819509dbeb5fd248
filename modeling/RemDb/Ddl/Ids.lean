import RemDb.Ddl.Atomicity
import RemDb.Ddl.SystemTables
import RemDb.Tx.Rollback

namespace RemDb
open RemDb.Lib RemDb.Wal

inductive DdlCall (σ : Type) where
  | initSystemTables (around : SystemTables.Surroundings)
  | createTable (statement : CreateTable) (scheme : UInt8) (left : Leftover)
  | dropTable (nodes : σ → List Nat) (table_name : String) (if_exists : Bool)
  | createTimeSeriesTable (name time_field value_field : String) (tags : List String)

def DdlCall.perform : DdlCall σ → DdlAction σ Unit
  | .initSystemTables around => do
    let _ ← SystemTables.init around
  | .createTable statement scheme left => RemDb.createTable statement scheme left
  | .dropTable nodes table_name if_exists => RemDb.dropTable nodes table_name if_exists
  | .createTimeSeriesTable name time_field value_field tags =>
    RemDb.createTimeSeriesTable name time_field value_field tags

-- The states that calls lead to, each call allowed where it is made. A call
-- that fails half-way leaves its state behind as well.
inductive Reached (allowed : RemDbState σ → DdlCall σ → Prop) (first : RemDbState σ) : RemDbState σ → Prop
  | start : Reached allowed first first
  | step (before : Reached allowed first db) (made : allowed db call) :
      Reached allowed first (finalState (call.perform.run db))

-- A table has its place as its id, and a time series has the id of no table.
structure Identified (db : RemDbState σ) : Prop where
  places : ∀ place entry, db.table place = some entry → entry.tdef.id.toNat = place
  series : ∀ number series place entry, db.timeSeriesTable number = some series → db.table place = some entry →
    series.base.id ≠ entry.tdef.id

-- The tables as a rollback sees them.
def RemDbState.database (db : RemDbState σ) : Database := ⟨db.tables.map fun entry => entry.map (·.table)⟩

section Undo
variable {σ : Type} {db : RemDbState σ}

theorem database_table (place : Nat) : db.database.table place = (db.table place).map (·.table) := by
  rw [Database.table,RemDbState.database,RemDbState.table,List.getElem?_map]
  cases db.tables[place]? with
  | none => rfl
  | some entry => rfl

theorem Identified.undo (identified : Identified db) (stands : db.table place = some entry)
    {item : VariableSizeLogItem} (from_table : item.header.table_id = entry.tdef.id) :
    db.database.undo item = db.database.setTable place (entry.table.undo item) := by
  have same := identified.places place entry stands
  rw [Database.undo,from_table,same,database_table,stands]
  rfl

theorem Identified.undo_series {each : TimeSeriesTableDef} (identified : Identified db)
    (stands : db.timeSeriesTable number = some each) {item : VariableSizeLogItem}
    (from_series : item.header.table_id = each.base.id) :
    db.database.undo item = db.database := by
  rw [Database.undo,from_series,database_table]
  cases here : db.table each.base.id.toNat with
  | none => rfl
  | some entry =>
    have same := identified.places _ entry here
    exact absurd (UInt8.toNat_inj.mp same).symm (identified.series number each _ entry stands here)

end Undo

namespace SystemTables

-- The first table that is missing is refused its memory, if one is missing.
def AddsNothing (db : RemDbState σ) : Prop :=
  if db.isNamed SYSTEM_CONFIG_TABLE then
    db.isNamed SYSTEM_ROLES_TABLE = true ∨ grantAll db.allocator (roles.tableDef db.tables.length).memorySizes = none
  else grantAll db.allocator (config.tableDef db.tables.length).memorySizes = none

end SystemTables

def Allowed (db : RemDbState σ) : DdlCall σ → Prop
  | .initSystemTables _ => SystemTables.AddsNothing db
  | .createTable statement scheme _ => statement.Starts db → (statement.planned db scheme).max_records ≠ 0 →
      grantAll db.allocator (statement.planned db scheme).memorySizes ≠ none →
      db.freePlace < 256 ∧ ∀ number series, db.timeSeriesTable number = some series →
        series.base.id.toNat ≠ db.freePlace
  | .dropTable _ _ _ => True
  | .createTimeSeriesTable _ _ _ _ => ∀ place entry, db.table place = some entry →
      entry.tdef.id ≠ UInt8.ofNat (db.tables.length+db.time_series_tables.length)

section Steps
variable {σ : Type} {db : RemDbState σ}

theorem Identified.mono {after : RemDbState σ} (identified : Identified db)
    (fewer : ∀ place entry, after.table place = some entry → db.table place = some entry)
    (series : after.time_series_tables = db.time_series_tables) : Identified after := by
  refine ⟨fun place entry stands => identified.places place entry (fewer place entry stands),?_⟩
  intro number each place entry found stands
  rw [RemDbState.timeSeriesTable,series] at found
  exact identified.series number each place entry found (fewer place entry stands)

theorem created_identified {after : RemDbState σ} (identified : Identified db) (small : db.freePlace < 256)
    (apart : ∀ number series, db.timeSeriesTable number = some series → series.base.id.toNat ≠ db.freePlace)
    (tables : after.tables = putAt db.tables db.freePlace (some entry))
    (series : after.time_series_tables = db.time_series_tables)
    (id : entry.tdef.id = UInt8.ofNat db.freePlace) : Identified after := by
  have id_nat : entry.tdef.id.toNat = db.freePlace := by
    rw [id,UInt8.toNat_ofNat']
    exact Nat.mod_eq_of_lt small
  have shape := table_putAt freePlace_le tables
  refine ⟨?_,?_⟩
  · intro place other stands
    rw [shape place] at stands
    by_cases here : place = db.freePlace
    · rw [if_pos here,Option.some.injEq] at stands
      rw [← stands,here]
      exact id_nat
    · rw [if_neg here] at stands
      exact identified.places place other stands
  · intro number each place other found stands
    rw [RemDbState.timeSeriesTable,series] at found
    rw [shape place] at stands
    by_cases here : place = db.freePlace
    · rw [if_pos here,Option.some.injEq] at stands
      intro same
      apply apart number each found
      rw [same,← stands]
      exact id_nat
    · rw [if_neg here] at stands
      exact identified.series number each place other found stands

theorem granted_of_request {statement : CreateTable} (request : statement.indexRequest db scheme = some answer) :
    grantAll db.allocator (statement.planned db scheme).memorySizes ≠ none := by
  intro refused
  rw [CreateTable.indexRequest,refused] at request
  cases request

theorem createTable_identified (statement : CreateTable) (scheme : UInt8) (left : Leftover)
    (identified : Identified db) (allowed : Allowed db (.createTable statement scheme left)) :
    Identified (finalState ((createTable statement scheme left).run db)) := by
  have cases := createTable_cases db statement scheme left
  generalize (createTable statement scheme left).run db = outcome at cases
  have id : ∀ entry : DbTable, entry.tdef = statement.planned db scheme →
      entry.tdef.id = UInt8.ofNat db.freePlace := by
    intro entry defined
    rw [defined]
    rfl
  cases cases with
  | rejected bad => exact identified
  | present named => exact identified
  | starved refused => exact identified.mono (fun _ _ stands => stands) rfl
  | @orphaned after entry failure starts full refused defined =>
    obtain ⟨small,apart⟩ := allowed starts full (granted_of_request refused)
    exact created_identified identified small apart rfl rfl (id entry defined)
  | @lost pool entry starts full granted endless defined =>
    obtain ⟨small,apart⟩ := allowed starts full (by rw [granted]; simp)
    exact created_identified identified small apart rfl rfl (id entry defined)
  | @created after data entry index starts full supplied defined indexed =>
    obtain ⟨small,apart⟩ := allowed starts full (granted_of_request supplied)
    exact created_identified identified small apart rfl rfl (id entry defined)

theorem createTimeSeriesTable_identified (name time_field value_field : String) (tags : List String)
    (identified : Identified db) (allowed : Allowed db (.createTimeSeriesTable name time_field value_field tags)) :
    Identified (finalState ((createTimeSeriesTable name time_field value_field tags).run db)) := by
  refine ⟨identified.places,?_⟩
  intro number each place entry found stands
  have found' : ((db.time_series_tables ++ [some _])[number]?).join = some each := found
  rw [List.getElem?_append] at found'
  split at found'
  · exact identified.series number each place entry found' stands
  · rename_i last
    by_cases here : number-db.time_series_tables.length = 0
    · rw [here] at found'
      have same : _ = each := Option.some.inj found'
      rw [← same]
      exact Ne.symm (allowed place entry stands)
    · rw [List.getElem?_eq_none (by simp only [List.length_singleton]; omega)] at found'
      cases found'

-- An action that changes neither the tables nor the time series.
def Steady (db : RemDbState σ) (after : RemDbState σ) : Prop :=
  after.tables = db.tables ∧ after.time_series_tables = db.time_series_tables

theorem free_steady (ptr : Nat) : Keeps (Steady db) (free ptr : DdlAction σ Unit) := by
  intro before held
  rw [free,EStateM.run_bind,EStateM.run_get]
  dsimp only
  cases freeTo before.allocator ptr with
  | none => exact held
  | some allocator => exact held

theorem Steady.identified {after : RemDbState σ} (steady : Steady db after) (identified : Identified db) :
    Identified after := by
  refine identified.mono ?_ steady.2
  intro place entry stands
  rw [RemDbState.table,steady.1] at stands
  exact stands

theorem dropEntry_steady (nodes : σ → List Nat) (entry : DbTable) (secondary : Option σ) :
    Keeps (Steady db) (dropEntry nodes entry secondary) :=
  keeps_forM _ _ fun ptr _ => free_steady ptr

theorem dropTable_identified (nodes : σ → List Nat) (table_name : String) (if_exists : Bool)
    (identified : Identified db) : Identified (finalState ((dropTable nodes table_name if_exists).run db)) := by
  rw [dropTable,EStateM.run_bind,EStateM.run_get]
  dsimp only
  split
  · exact identified
  split
  · exact identified
  split
  · split
    · exact identified
    · exact identified
  · rename_i table_index found
    obtain ⟨without,without_eq⟩ : ∃ without : RemDbState σ, without = {db with
        tables:=db.tables.set table_index none
        primary_indices:=clearAt db.primary_indices table_index
        secondary_indices:=clearAt db.secondary_indices table_index} := ⟨_,rfl⟩
    have fewer : Identified without := by
      rw [without_eq]
      refine identified.mono ?_ rfl
      intro place entry stands
      have stands' : ((db.tables.set table_index none)[place]?).join = some entry := stands
      rw [List.getElem?_set] at stands'
      split at stands'
      · split at stands'
        · cases stands'
        · cases stands'
      · exact stands'
    rw [EStateM.run_bind,← without_eq]
    have rest : ∀ action : DdlAction σ Unit, Keeps (Steady without) action →
        Identified (finalState (action.run without)) :=
      fun action kept => (kept without ⟨rfl,rfl⟩).identified fewer
    cases db.table table_index with
    | none => exact rest _ (keeps_pure _)
    | some entry => exact rest _ (dropEntry_steady nodes entry _)

namespace SystemTables

theorem create_run (around : Surroundings) (shape : Shape) :
    (∃ fault after, (create around shape).run db = .error fault {db with allocator:=after} ∧
      grantAll db.allocator (shape.tableDef db.tables.length).memorySizes = none) ∨
    ∃ entry after, (create around shape).run db = .ok () {db with
        allocator:=after
        tables:=db.tables ++ [some entry]
        primary_indices:=db.primary_indices ++ [none]
        secondary_indices:=db.secondary_indices ++ [none]} ∧
      grantAll db.allocator (shape.tableDef db.tables.length).memorySizes = some after ∧
      entry.tdef = shape.tableDef db.tables.length := by
  rw [create,EStateM.run_bind,EStateM.run_get]
  dsimp only
  rw [EStateM.run_bind]
  rcases makeTable_run around.memory (shape.tableDef db.tables.length) none .sortedArray with
    ⟨fault,after,ran,empty | refused⟩ | ⟨entry,after,ran,_,granted,defined,_⟩
  · cases empty
  · left
    rw [ran]
    exact ⟨fault,after,rfl,refused⟩
  · right
    rw [ran]
    exact ⟨entry,after,rfl,granted,defined⟩

theorem create_refused (around : Surroundings) (shape : Shape)
    (refused : grantAll db.allocator (shape.tableDef db.tables.length).memorySizes = none) :
    ∃ fault after, (create around shape).run db = .error fault {db with allocator:=after} := by
  rcases create_run around shape with ⟨fault,after,ran,_⟩ | ⟨entry,after,_,granted,_⟩
  · exact ⟨fault,after,ran⟩
  · rw [refused] at granted
    cases granted

theorem init_steady (around : Surroundings) (allowed : AddsNothing db) :
    Steady db (finalState ((init around).run db)) := by
  rw [init,EStateM.run_bind,EStateM.run_get]
  dsimp only
  unfold AddsNothing at allowed
  by_cases config_exists : db.isNamed SYSTEM_CONFIG_TABLE = true
  · rw [if_pos config_exists] at allowed ⊢
    rw [EStateM.run_bind,EStateM.run_get]
    dsimp only
    by_cases roles_exist : db.isNamed SYSTEM_ROLES_TABLE = true
    · rw [if_pos roles_exist,EStateM.run_bind,EStateM.run_get]
      dsimp only
      cases db.placeOf SYSTEM_CONFIG_TABLE with
      | none => exact ⟨rfl,rfl⟩
      | some place => exact ⟨rfl,rfl⟩
    · obtain ⟨fault,after,ran⟩ := create_refused around roles (allowed.resolve_left roles_exist)
      rw [if_neg roles_exist,EStateM.run_bind,ran]
      exact ⟨rfl,rfl⟩
  · rw [if_neg config_exists] at allowed ⊢
    obtain ⟨fault,after,ran⟩ := create_refused around config allowed
    rw [EStateM.run_bind,ran]
    exact ⟨rfl,rfl⟩

end SystemTables

theorem perform_identified (call : DdlCall σ) (identified : Identified db) (allowed : Allowed db call) :
    Identified (finalState (call.perform.run db)) := by
  cases call with
  | initSystemTables around =>
    have steady := SystemTables.init_steady around allowed
    refine Steady.identified ?_ identified
    exact keeps_after steady fun _ => keeps_pure _
  | createTable statement scheme left => exact createTable_identified statement scheme left identified allowed
  | dropTable nodes table_name if_exists => exact dropTable_identified nodes table_name if_exists identified
  | createTimeSeriesTable name time_field value_field tags =>
    exact createTimeSeriesTable_identified name time_field value_field tags identified allowed

end Steps

def RemDbState.empty (config : DbConfig) (allocator : Option StaticAllocator) : RemDbState σ :=
  ⟨config,[],[],[],[],0,allocator⟩

theorem empty_identified (config : DbConfig) (allocator : Option StaticAllocator) :
    Identified (RemDbState.empty config allocator : RemDbState σ) :=
  ⟨fun _ _ stands => (by cases stands),fun _ _ _ _ found => (by cases found)⟩

theorem reached_identified {first db : RemDbState σ} (fresh : Identified first) (reached : Reached Allowed first db) :
    Identified db := by
  induction reached with
  | start => exact fresh
  | step before made ih => exact perform_identified _ ih made

theorem reached_addressed (config : DbConfig) (allocator : Option StaticAllocator) (db : RemDbState σ)
    (reached : Reached Allowed (.empty config allocator) db) :
    Identified db ∧
      (∀ place entry (item : VariableSizeLogItem), db.table place = some entry →
        item.header.table_id = entry.tdef.id →
        db.database.undo item = db.database.setTable place (entry.table.undo item)) ∧
      ∀ number series (item : VariableSizeLogItem), db.timeSeriesTable number = some series →
        item.header.table_id = series.base.id → db.database.undo item = db.database := by
  have identified := reached_identified (empty_identified config allocator) reached
  exact ⟨identified,fun _ _ _ stands => identified.undo stands,fun _ _ _ stands => identified.undo_series stands⟩

-- One table from an empty database.
theorem byteTable_addressed : ∃ db : RemDbState Unit, Reached Allowed (emptyDb 1000) db ∧ db.tables.length = 1 ∧
    Identified db := by
  have allowed : Allowed (emptyDb 1000) (.createTable byteTable 0 zeroed) :=
    fun _ _ _ => ⟨by decide,fun _ _ found => (by cases found)⟩
  have reached := Reached.step .start allowed
  exact ⟨_,reached,by decide +kernel,(reached_addressed ⟨false,none,1⟩ _ _ reached).1⟩

section Misplaced
variable {σ : Type} {place : Nat} {tdef : TableDef}

def StandsAt (place : Nat) (tdef : TableDef) (db : RemDbState σ) : Prop :=
  ∃ entry, db.table place = some entry ∧ entry.tdef = tdef

theorem StandsAt.push {db after : RemDbState σ} (stands : StandsAt place tdef db)
    (tables : after.tables = db.tables ++ more) : StandsAt place tdef after := by
  obtain ⟨entry,found,defined⟩ := stands
  refine ⟨entry,?_,defined⟩
  unfold RemDbState.table at found ⊢
  cases here : db.tables[place]? with
  | none =>
    rw [here] at found
    cases found
  | some entry' =>
    obtain ⟨inside,_⟩ := List.getElem?_eq_some_iff.mp here
    rw [tables,List.getElem?_append_left inside]
    exact found

theorem MemoryTable.insert_tdef (table : MemoryTable) (tx : TransactionManager) (now : UInt64) (data : Bytes) :
    (table.insert tx now data).2.1.tdef = table.tdef := by
  obtain ⟨failure,outcome⟩ | ⟨slot,image,logged,result,_,_,outcome,effect⟩ := table.insert_cases tx now data
  · rw [outcome]
  · rw [outcome]
    obtain ⟨_,_,_,key,rfl⟩ | ⟨_,rest,key,_,rfl⟩ := effect
    · rfl
    · rfl

theorem StandsAt.set {db : RemDbState σ} {entry entry' : DbTable} (stands : StandsAt place tdef db)
    (found : db.table other = some entry) (same : entry'.tdef = entry.tdef) :
    StandsAt place tdef {db with tables:=db.tables.set other (some entry')} := by
  obtain ⟨old,here,defined⟩ := stands
  by_cases equal : other = place
  · subst other
    rw [here,Option.some.injEq] at found
    subst found
    refine ⟨entry',?_,same.trans defined⟩
    unfold RemDbState.table at here ⊢
    cases inside : db.tables[place]? with
    | none =>
      rw [inside] at here
      cases here
    | some _ =>
      obtain ⟨bound,_⟩ := List.getElem?_eq_some_iff.mp inside
      rw [List.getElem?_set_self bound]
      rfl
  · refine ⟨old,?_,defined⟩
    unfold RemDbState.table at here ⊢
    rw [List.getElem?_set_ne equal]
    exact here

theorem orFail_keeps {property : RemDbState σ → Prop} (failure : RemDbError) (value : Option α) :
    Keeps property (orFail failure value : DdlAction σ α) := by
  cases value with
  | none => exact keeps_throw _
  | some value => exact keeps_pure _

namespace SystemTables

theorem create_stands (around : Surroundings) (shape : Shape) :
    Keeps (StandsAt place tdef) (create around shape : DdlAction σ Unit) := by
  intro db stands
  rcases create_run around shape with ⟨fault,after,ran,_⟩ | ⟨entry,after,ran,_,_⟩
  · rw [ran]
    exact stands
  · rw [ran]
    exact stands.push rfl

theorem insertRow_stands (around : Surroundings) (name : String) (record : Bytes) :
    Keeps (StandsAt place tdef) (insertRow around name record : DdlAction σ Unit) := by
  intro db stands
  simp only [insertRow,EStateM.run_bind,EStateM.run_get]
  cases db.placeOf name with
  | none => exact stands
  | some other =>
    simp only [orFail,EStateM.run_pure]
    cases found : db.table other with
    | none => exact stands
    | some entry =>
      have kept := stands.set found (show
        ({entry with table:=(entry.table.insert around.tx around.now record).2.1} : DbTable).tdef = entry.tdef from
          MemoryTable.insert_tdef _ _ _ _)
      cases outcome : (entry.table.insert around.tx around.now record).1 with
      | error failure =>
        simp only [EStateM.run_pure,outcome]
        exact kept
      | ok slot =>
        simp only [EStateM.run_pure,outcome]
        exact kept

theorem insertDefaultRbacData_stands (around : Surroundings) :
    Keeps (StandsAt place tdef) (insertDefaultRbacData around : DdlAction σ Unit) := by
  refine keeps_bind (insertRow_stands around _ _) ?_
  intro _
  refine keeps_bind (keeps_forM _ _ fun _ _ => insertRow_stands around _ _) ?_
  intro _
  refine keeps_bind (insertRow_stands around _ _) ?_
  intro _
  exact insertRow_stands around _ _

def initRest (around : Surroundings) (config_exists : Bool) : DdlAction σ Bool := do
  let roles_exist := (← get).isNamed SYSTEM_ROLES_TABLE
  if roles_exist then pure ()
  else
    create around roles
    create around rolePermissions
    create around users
    create around userRoles
    insertDefaultRbacData around
  let _ ← orFail .tableNotFound ((← get).placeOf SYSTEM_CONFIG_TABLE)
  pure (!config_exists || !roles_exist)

theorem initRest_stands (around : Surroundings) (config_exists : Bool) :
    Keeps (StandsAt place tdef) (initRest around config_exists : DdlAction σ Bool) := by
  have last (created : Bool) : Keeps (StandsAt place tdef) (do
      let _ ← orFail .tableNotFound ((← get).placeOf SYSTEM_CONFIG_TABLE)
      pure created : DdlAction σ Bool) := by
    refine keeps_bind keeps_get ?_
    intro db
    refine keeps_bind (orFail_keeps _ _) ?_
    intro _
    exact keeps_pure _
  refine keeps_bind keeps_get ?_
  intro db
  dsimp only
  split
  · exact last _
  · refine keeps_bind (create_stands around _) ?_
    intro _
    refine keeps_bind (create_stands around _) ?_
    intro _
    refine keeps_bind (create_stands around _) ?_
    intro _
    refine keeps_bind (create_stands around _) ?_
    intro _
    refine keeps_bind (insertDefaultRbacData_stands around) ?_
    intro _
    exact last _

theorem init_misplaces {db : RemDbState σ} (around : Surroundings) (fresh : db.isNamed SYSTEM_CONFIG_TABLE = false)
    (granted : grantAll db.allocator (config.tableDef db.tables.length).memorySizes ≠ none) :
    StandsAt db.tables.length (config.tableDef db.tables.length) (finalState ((init around).run db)) := by
  have start : (init around).run db = (create around config >>= fun _ =>
      insertDefaultConfigs around >>= fun _ => initRest around false).run db := by
    rw [init,EStateM.run_bind,EStateM.run_get]
    dsimp only
    rw [fresh]
    rfl
  rw [start]
  refine keeps_after ?_ ?_
  · rcases create_run around config with ⟨_,_,_,refused⟩ | ⟨entry,after,ran,_,defined⟩
    · exact absurd refused granted
    · rw [ran]
      refine ⟨entry,?_,defined⟩
      change ((db.tables ++ [some entry])[db.tables.length]?).join = some entry
      rw [List.getElem?_concat_length]
      rfl
  · intro _
    refine keeps_bind (keeps_forM _ _ fun _ _ => insertRow_stands around _ _) ?_
    intro _
    exact initRest_stands around false

end SystemTables
end Misplaced

-- From an empty database with memory for it, the configuration table stands at
-- place 0 under id 1.
theorem init_breaks_ids : ∃ db : RemDbState Unit,
    Reached (fun _ _ => True) (emptyDb 300000) db ∧
      (∃ entry, db.table 0 = some entry ∧ entry.tdef.name = SYSTEM_CONFIG_TABLE ∧ entry.tdef.id = 1) ∧
      ¬Identified db := by
  have granted : (grantAll (emptyDb 300000).allocator
      (SystemTables.config.tableDef 0).memorySizes).isSome = true := by decide +kernel
  have around : SystemTables.Surroundings := ⟨zeroed.memory,⟨none,1,none⟩,0⟩
  have misplaced : StandsAt 0 (SystemTables.config.tableDef 0)
      (finalState ((SystemTables.init around).run (emptyDb 300000))) := by
    refine SystemTables.init_misplaces around rfl ?_
    intro refused
    have refused' : grantAll (emptyDb 300000).allocator (SystemTables.config.tableDef 0).memorySizes = none := refused
    rw [refused'] at granted
    cases granted
  have performed : StandsAt 0 (SystemTables.config.tableDef 0)
      (finalState ((DdlCall.initSystemTables around).perform.run (emptyDb 300000))) :=
    keeps_after misplaced fun _ => keeps_pure _
  obtain ⟨entry,stands,defined⟩ := performed
  have id : entry.tdef.id = 1 := by
    rw [defined]
    rfl
  refine ⟨_,.step .start trivial,⟨entry,stands,by rw [defined]; rfl,id⟩,?_⟩
  intro identified
  have place := identified.places 0 entry stands
  rw [id] at place
  cases place

end RemDb
