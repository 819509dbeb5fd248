import RemDb.Ddl.Ids
import RemDb.Ddl.AlterTable
import RemDb.Ddl.SchemaLog
import RemDb.Recovery.Replay
import RemDb.Wal.Crash

namespace RemDb
open RemDb.Lib RemDb.Wal

-- What `create_index` asks of the index module: the dimension of a vector
-- column, the memory an index takes and the index that is set up in it.
structure IndexModule (σ : Type) where
  dimension : FieldDef → Option Nat
  memorySize : TableDef → IndexType → Nat → Nat
  new : TableDef → IndexType → Nat → Except RemDbError σ

-- `create_index`, without its log record; the value says whether there is one.
-- The definition with the index column goes into the index, not into the table.
def createIndex (indices : IndexModule σ) (table_name field_name : String) (index_type : IndexType) :
    DdlAction σ Bool := do
  let db ← get
  let table_id ← orFail .tableNotFound (db.placeOf table_name)
  let entry ← orFail .tableNotFound (db.table table_id)
  let field_index ← orFail .fieldNotFound (AlterTableOperation.findField entry.tdef field_name)
  let field ← orFail .fieldNotFound entry.tdef.fields[field_index]?
  if index_type = .vector ∧ ¬ (field.data_type = .vector ∧
      (indices.dimension field).any fun dimension => decide (0 < dimension ∧ dimension ≤ 1024)) then fail .typeMismatch
  else
    let missing := table_id+1-db.secondary_indices.length
    modify fun db => {db with secondary_indices:=db.secondary_indices ++ List.replicate missing none}
    if ((db.secondary_indices[table_id]?).join).isSome then pure false
    else
      let max_nodes := if index_type = .bTree ∨ index_type = .tTree then 100 else entry.tdef.max_records
      let _ ← alloc (indices.memorySize entry.tdef index_type max_nodes)
      match indices.new entry.tdef index_type max_nodes with
      | .error failure => fail failure
      | .ok index =>
        modify fun db => {db with secondary_indices:=db.secondary_indices.set table_id (some index)}
        pure true

-- The log items of schema changes. Those of `alter_table` and `drop_table`
-- announce a payload and have none.
namespace SchemaLog

def item (op_type : LogOperation) (table_id : UInt8) (size : Nat) (now : UInt64) (data : Bytes) : VariableSizeLogItem :=
  let header : LogItem := ⟨op_type,table_id,0,0,UInt16.ofNat size,0,now,0⟩
  ⟨{header with checksum:=calculateVariableSizeLogItemChecksum ⟨header,[],data⟩},[],data⟩

def nameBytes (name : String) : Bytes := (utf8 name).take 64

def indexPayload (table_name field_name : String) (index_type : IndexType) : Bytes :=
  let table_name := nameBytes table_name
  let field_name := nameBytes field_name
  padTo 65 ([UInt8.ofNat table_name.length] ++ table_name) ++ [UInt8.ofNat field_name.length] ++
    padTo 64 field_name ++ [index_type.code]

def alterSize : AlterTableOperation → Nat
  | .addColumn .. | .modifyColumn .. => 136
  | .dropColumn name => 68+(nameBytes name).length
  | .renameColumn _ new_name => 133+(nameBytes new_name).length

end SchemaLog

inductive SchemaCall (σ : Type) where
  | createTable (statement : CreateTable) (scheme : UInt8) (left : Leftover) (memory : AddressSpace) (now : UInt64)
  | alterTable (heap : TextHeap) (nodes : σ → List Nat) (left : Leftover) (table_name : String)
      (operation : AlterTableOperation) (now : UInt64)
  | createIndex (indices : IndexModule σ) (table_name field_name : String) (index_type : IndexType) (now : UInt64)
  | dropTable (nodes : σ → List Nat) (table_name : String) (if_exists : Bool) (now : UInt64)

structure Journal (σ : Type) where
  db : RemDbState σ
  log : List VariableSizeLogItem

namespace Journal

def empty (config : DbConfig) (allocator : Option StaticAllocator) : Journal σ := ⟨⟨config,[],[],[],[],0,allocator⟩,[]⟩

-- One call that succeeds. A table that is there already, an index that is and a
-- missing table that may be missing are successes without a log item.
def step (journal : Journal σ) : SchemaCall σ → Option (Journal σ)
  | .createTable statement scheme left memory now =>
    match (RemDb.createTable statement scheme left).run journal.db with
    | .ok _ db =>
      if journal.db.isNamed statement.name then some ⟨db,journal.log⟩
      else
        let table_def := statement.tableDef journal.db.config scheme journal.db.freePlace
        (SchemaLog.encode memory table_def (statement.fields.map (·.dimension))).map fun payload =>
          ⟨db,journal.log ++ [SchemaLog.item .createTable table_def.id logDataSize now payload]⟩
    | .error _ _ => none
  | .alterTable heap nodes left table_name operation now =>
    match (RemDb.alterTable heap nodes left table_name operation).run journal.db with
    | .ok (some _) db =>
      let table_index := (journal.db.placeOf table_name).getD 0
      some ⟨db,journal.log ++
        [SchemaLog.item .alterTable (UInt8.ofNat table_index) (SchemaLog.alterSize operation) now []]⟩
    | _ => none
  | .createIndex indices table_name field_name index_type now =>
    match (RemDb.createIndex indices table_name field_name index_type).run journal.db with
    | .ok true db =>
      let table_id := ((journal.db.placeOf table_name).bind journal.db.table).map (·.tdef.id)
      let payload := SchemaLog.indexPayload table_name field_name index_type
      some ⟨db,journal.log ++ [SchemaLog.item .createIndex (table_id.getD 0) payload.length now payload]⟩
    | .ok false db => some ⟨db,journal.log⟩
    | .error _ _ => none
  | .dropTable nodes table_name if_exists now =>
    match (RemDb.dropTable nodes table_name if_exists).run journal.db with
    | .ok _ db =>
      match journal.db.placeOf table_name with
      | none => some ⟨db,journal.log⟩
      | some table_index =>
        some ⟨db,journal.log ++ [SchemaLog.item .dropTable (UInt8.ofNat table_index)
          ((SchemaLog.nameBytes table_name).length+1) now []]⟩
    | .error _ _ => none

def run (journal : Journal σ) (calls : List (SchemaCall σ)) : Option (Journal σ) := calls.foldlM step journal

end Journal

-- What recovery finds around it. The creation of databases, the power mode and
-- time series are left open.
structure RecoveryWorld (σ : Type) where
  heap : TextHeap
  nodes : σ → List Nat
  left : Leftover
  indices : IndexModule σ
  others : VariableSizeLogItem → RemDbState σ → Option (RemDbState σ)

namespace Recovery

-- `let _ = ...`: an error of the action is let go; `none` is a loop that does
-- not end.
def settled : EStateM.Result DdlFault (RemDbState σ) α → Option (RemDbState σ)
  | .ok _ db => some db
  | .error (.error _) db => some db
  | .error .diverged _ => none

-- `&data[start..start + length]`, which panics beyond the end.
def slice (data : Bytes) (start length : Nat) : Option Bytes :=
  if start+length ≤ data.length then some (readAt data start length) else none

def resize (values : List (Option α)) (length : Nat) : List (Option α) :=
  values.take length ++ List.replicate (length-values.length) none

def reserve (db : RemDbState σ) (place : Nat) : RemDbState σ :=
  if place ≥ db.tables.length then
    let new_capacity := max (db.tables.length*2) (place+1)
    {db with
      tables:=resize db.tables new_capacity
      primary_indices:=resize db.primary_indices new_capacity
      secondary_indices:=resize db.secondary_indices new_capacity}
  else db

-- `MemoryTable::new_with_options(.., true)`, with its allocations.
def makeTable (memory : Memory) (tdef : TableDef) : DdlAction σ DbTable := do
  if tdef.max_records = 0 then fail .configError
  else
    let data_start ← alloc (tdef.record_size*tdef.max_records % usizeLimit)
    let status_array ← alloc (RecordHeader.SIZE*tdef.max_records % usizeLimit)
    let free_slots ← alloc (usizeBytes*tdef.max_records % usizeLimit)
    match MemoryTable.newWithOptions tdef (some memory) true with
    | .error failure => fail failure
    | .ok table => pure ⟨table,none,.sortedArray,0,data_start,status_array,free_slots⟩

-- A table that gets no memory for its index is taken away again; the value says
-- whether it stays.
def installTable (around : RecoveryWorld σ) (tdef : TableDef) : DdlAction σ Bool := do
  let place := tdef.id.toNat
  let entry ← makeTable around.left.memory tdef
  let db ← get
  match allocFrom db.allocator tdef.indexSize with
  | none => throw .diverged
  | some (.error _,allocator) =>
    set {db with tables:=db.tables.set place none,allocator:=allocator}
    dropEntry around.nodes entry none
    pure false
  | some (.ok _,allocator) =>
    let index := PrimaryIndex.new tdef around.left.hash_table_start around.left.items_start
      (hashTableSize tdef.max_records) tdef.max_records
    set {db with
      tables:=db.tables.set place (some entry)
      primary_indices:=db.primary_indices.set place (some index)
      secondary_indices:=db.secondary_indices.set place none
      allocator:=allocator}
    pure true

def recoverTable (around : RecoveryWorld σ) (item : VariableSizeLogItem) (db : RemDbState σ) : Option (RemDbState σ) := do
  match ← SchemaLog.decode db.config item.header.table_id item.new_data with
  | none => pure db
  | some tdef =>
    let place := tdef.id.toNat
    if (db.table place).isSome || db.isNamed tdef.name then pure db
    else
      let db := reserve db place
      match (installTable around tdef).run db with
      | .ok true installed =>
        if place ≥ db.primary_indices.length ∨ place ≥ db.secondary_indices.length then none else pure installed
      | outcome => settled outcome

def recoverIndex (around : RecoveryWorld σ) (item : VariableSizeLogItem) (db : RemDbState σ) : Option (RemDbState σ) := do
  let data := item.new_data
  match data.head? with
  | none => pure db
  | some table_name_len =>
    let table_name ← slice data 1 table_name_len.toNat
    if data.length ≤ 65 then pure db
    else
      let field_name ← slice data 66 (data.getD 65 0).toNat
      if data.length ≤ 130 then pure db
      else
        settled ((createIndex around.indices (SchemaLog.decodeName table_name) (SchemaLog.decodeName field_name)
          (.ofCode (data.getD 130 0))).run db)

def decodeConstraints (bits : UInt8) : FieldConstraint :=
  ⟨decide (bits &&& 1 ≠ 0),decide (bits &&& 2 ≠ 0),decide (bits &&& 4 ≠ 0),decide (bits &&& 8 ≠ 0)⟩

-- The change an AlterTable item describes behind the name of its table; `none`
-- is a panic, `some none` an item that is passed over.
def decodeAlteration (data : Bytes) : Option (Option AlterTableOperation) := do
  if data.length ≤ 65 ∨ (data.getD 65 0).toNat > 3 ∨ data.length ≤ 67 then pure none
  else
    let name := SchemaLog.decodeName (← slice data 68 (data.getD 67 0).toNat)
    match (data.getD 65 0).toNat with
    | 1 => pure (some (.dropColumn name))
    | 3 =>
      if data.length ≤ 132 then pure none
      else
        let new_name ← slice data 133 (data.getD 132 0).toNat
        pure (some (.renameColumn name (SchemaLog.decodeName new_name)))
    | code =>
      if data.length ≤ 135 then pure none
      else
        let data_type := DataType.ofCode (data.getD 132 0)
        let size := UInt16.ofNat (ofLE (readAt data 133 2))
        let constraints := decodeConstraints (data.getD 135 0)
        pure (some (if code = 0 then .addColumn name data_type size none constraints
          else .modifyColumn name data_type size none constraints))

def recoverAlteration (around : RecoveryWorld σ) (item : VariableSizeLogItem) (db : RemDbState σ) :
    Option (RemDbState σ) := do
  let data := item.new_data
  match data.head? with
  | none => pure db
  | some table_name_len =>
    let table_name ← slice data 1 table_name_len.toNat
    match ← decodeAlteration data with
    | none => pure db
    | some operation =>
      match (alterTable around.heap around.nodes around.left (SchemaLog.decodeName table_name) operation).run db with
      | .ok none _ => none
      | outcome => settled outcome

-- Phase 2. A DropTable item is none of the kinds.
def applySchema (around : RecoveryWorld σ) (db : RemDbState σ) (item : VariableSizeLogItem) : Option (RemDbState σ) :=
  match item.header.op_type with
  | .createDatabase => around.others item db
  | .createTable => recoverTable around item db
  | .createIndex => recoverIndex around item db
  | .alterTable => recoverAlteration around item db
  | _ => some db

-- The primary index is told of a record that goes and of one that comes; what it
-- answers is not looked at.
def reindex (around : RecoveryWorld σ) (db : RemDbState σ) (place : Nat) (gone come : Option Bytes) (record_id : UInt16) :
    Option (RemDbState σ) :=
  if place < db.primary_indices.length then
    match db.primaryIndex place with
    | none => some db
    | some index => do
      let index ← (match gone with
        | none => some index
        | some record => (index.deleteComposite around.heap record).map (·.2))
      let index ← (match come with
        | none => some index
        | some record => (index.insertComposite around.heap record record_id).map (·.2))
      pure {db with primary_indices:=db.primary_indices.set place (some index)}
  else none

def applyChange (around : RecoveryWorld σ) (db : RemDbState σ) (item : VariableSizeLogItem) : Option (RemDbState σ) :=
  let place := item.header.table_id.toNat
  let slot := item.header.record_id.toNat
  match db.table place with
  | none => some db
  | some entry =>
    let table := entry.table.redo item
    let changed : RemDbState σ := {db with tables:=db.tables.set place (some {entry with table:=table})}
    let gone := if item.header.op_type = .insert then table.records slot else entry.table.records slot
    let come := if item.header.op_type = .delete then none else some (table.records slot)
    if item.header.op_type = .insert ∨ entry.table.used slot = true then
      reindex around changed place (some gone) come item.header.record_id
    else some changed

-- Phase 3, with the inserts that found their table.
def applyData (around : RecoveryWorld σ) (state : RemDbState σ × Nat) (item : VariableSizeLogItem) :
    Option (RemDbState σ × Nat) :=
  match item.header.op_type with
  | .insert =>
    let found := (state.1.table item.header.table_id.toNat).isSome
    (applyChange around state.1 item).map fun db => (db,if found then state.2+1 else state.2)
  | .delete | .update => (applyChange around state.1 item).map fun db => (db,state.2)
  | .enterLowPowerMode | .exitLowPowerMode | .timeSeriesInsert =>
    (around.others item state.1).map fun db => (db,state.2)
  | _ => some state

-- `recover`, behind the scan of the file: `found` is what the scan has taken.
def recover (around : RecoveryWorld σ) (found : List VariableSizeLogItem) (db : RemDbState σ) :
    Option (Except RemDbError Unit × RemDbState σ) :=
  if found = [] then some (.error .fileIoError,db)
  else if found.any (fun item => isDataOp item.header.op_type) = false then some (.error .fileIoError,db)
  else do
    let db ← found.foldlM (applySchema around) db
    let state ← found.foldlM (applyData around) (db,0)
    pure (if state.2 = 0 then .error .fileIoError else .ok (),state.1)

end Recovery

-- What the scan can have taken of a log: its items, stamped by the log manager,
-- and the checkpoints between them.
def ReadFrom (log found : List VariableSizeLogItem) : Prop :=
  ∀ item ∈ found, item.header.op_type = .checkpoint ∨ ∃ logged ∈ log, Retimes logged item

-- The tables that are there, with their ids, names and columns.
def RemDbState.schema (db : RemDbState σ) : List (UInt8 × String × List FieldDef) :=
  db.tables.filterMap fun entry => entry.map fun entry => (entry.tdef.id,entry.tdef.name,entry.tdef.fields)

def SchemaRecovered (journal : Journal σ) (around : RecoveryWorld σ) (found : List VariableSizeLogItem)
    (fresh : RemDbState σ) : Prop :=
  ∃ after, Recovery.recover around found fresh = some (.ok (),after) ∧ after.schema = journal.db.schema

section SchemaOnly

def schemaOps : List LogOperation := [.createTable,.alterTable,.createIndex,.dropTable]

def SchemaOnly (log : List VariableSizeLogItem) : Prop := ∀ item ∈ log, item.header.op_type ∈ schemaOps

theorem SchemaOnly.snoc {log : List VariableSizeLogItem} (only : SchemaOnly log) {op_type : LogOperation}
    (schema : op_type ∈ schemaOps) (table_id : UInt8) (size : Nat) (now : UInt64) (data : Bytes) :
    SchemaOnly (log ++ [SchemaLog.item op_type table_id size now data]) := by
  intro item member
  rcases List.mem_append.mp member with member | member
  · exact only item member
  · cases List.mem_singleton.mp member
    exact schema

variable {σ : Type} {journal next : Journal σ}

theorem step_schemaOnly (only : SchemaOnly journal.log) {call : SchemaCall σ} (made : journal.step call = some next) :
    SchemaOnly next.log := by
  cases call with
  | createTable statement scheme left memory now =>
    simp only [Journal.step] at made
    split at made
    · split at made
      · cases made
        exact only
      · obtain ⟨payload,_,rfl⟩ := Option.map_eq_some_iff.mp made
        exact only.snoc (by decide) _ _ _ _
    · cases made
  | alterTable heap nodes left table_name operation now =>
    simp only [Journal.step] at made
    split at made
    · cases made
      exact only.snoc (by decide) _ _ _ _
    · cases made
  | createIndex indices table_name field_name index_type now =>
    simp only [Journal.step] at made
    split at made
    · cases made
      exact only.snoc (by decide) _ _ _ _
    · cases made
      exact only
    · cases made
  | dropTable nodes table_name if_exists now =>
    simp only [Journal.step] at made
    split at made
    · split at made
      · cases made
        exact only
      · cases made
        exact only.snoc (by decide) _ _ _ _
    · cases made

theorem run_schemaOnly (calls : List (SchemaCall σ)) (only : SchemaOnly journal.log) (made : journal.run calls = some next) :
    SchemaOnly next.log := by
  induction calls generalizing journal with
  | nil =>
    cases made
    exact only
  | cons call rest ih =>
    rw [Journal.run,List.foldlM_cons] at made
    obtain ⟨middle,first,others⟩ := Option.bind_eq_some_iff.mp made
    exact ih (step_schemaOnly only first) others

theorem read_no_data {log found : List VariableSizeLogItem} (only : SchemaOnly log) (read : ReadFrom log found) :
    found.any (fun item => isDataOp item.header.op_type) = false := by
  have none_data : ∀ item ∈ found, isDataOp item.header.op_type = false := by
    intro item member
    rcases read item member with checkpoint | ⟨logged,among,_,stamped⟩
    · rw [checkpoint]
      rfl
    · have same : item.header.op_type = logged.header.op_type := by
        rw [stamped]
        rfl
      have schema := only logged among
      rw [same]
      revert schema
      generalize logged.header.op_type = op_type
      cases op_type <;> decide
  rw [List.any_eq_false]
  intro item member
  rw [none_data item member]
  exact Bool.false_ne_true

end SchemaOnly

-- No run of schema changes is recovered: without a change to data in the log,
-- `recover` ends before it looks at the schema, and the database stays as it is.
theorem schema_never_recovered {σ : Type} (config : DbConfig) (allocator : Option StaticAllocator)
    (calls : List (SchemaCall σ)) {journal : Journal σ} (made : (Journal.empty config allocator).run calls = some journal)
    {found : List VariableSizeLogItem} (read : ReadFrom journal.log found) (around : RecoveryWorld σ) (fresh : RemDbState σ) :
    Recovery.recover around found fresh = some (.error .fileIoError,fresh) ∧
      ¬ SchemaRecovered journal around found fresh := by
  have only : SchemaOnly journal.log := run_schemaOnly calls (fun item member => absurd member List.not_mem_nil) made
  have refused : Recovery.recover around found fresh = some (.error .fileIoError,fresh) := by
    rw [Recovery.recover]
    split
    · rfl
    · rw [if_pos (read_no_data only read)]
  refine ⟨refused,?_⟩
  rintro ⟨after,recovered,_⟩
  cases refused.symm.trans recovered

section CreateOnly

def createOnly : List (SchemaCall Unit) := [.createTable byteTable 0 zeroed (fun _ => none) 7]

def emptyJournal : Journal Unit := .empty ⟨false,none,1⟩ (StaticAllocator.new (fun _ => ⟨none,0,false⟩) 8 1000)

theorem createOnly_made : ∃ journal, emptyJournal.run createOnly = some journal ∧
    journal.db.schema.map (·.2.1) = ["t"] ∧ journal.log.map (·.header.op_type) = [.createTable] := by
  have done : ((emptyJournal.run createOnly).any fun journal =>
      decide (journal.db.schema.map (·.2.1) = ["t"] ∧ journal.log.map (·.header.op_type) = [.createTable])) = true := by
    decide +kernel
  obtain ⟨journal,made,facts⟩ := (Option.any_eq_true _ _).mp done
  exact ⟨journal,made,of_decide_eq_true facts⟩

theorem one_table_never_recovered : ∃ journal, emptyJournal.run createOnly = some journal ∧
    ∀ around, Recovery.recover around (journal.log.map (restamp · 7)) (emptyDb 1000) =
        some (.error .fileIoError,emptyDb 1000) ∧
      ¬ SchemaRecovered journal around (journal.log.map (restamp · 7)) (emptyDb 1000) := by
  obtain ⟨journal,made,_⟩ := createOnly_made
  refine ⟨journal,made,fun around => ?_⟩
  refine schema_never_recovered _ _ createOnly made ?_ around (emptyDb 1000)
  intro item member
  obtain ⟨logged,among,rfl⟩ := List.mem_map.mp member
  exact .inr ⟨logged,among,(by decide : (7 : UInt64) ≠ 0),rfl⟩

-- The table is there and its item is in the log, which reads back whole.
theorem created_table_lost : ∃ journal, emptyJournal.run createOnly = some journal ∧
    journal.db.schema.map (·.2.1) = ["t"] ∧ journal.log.map (·.header.op_type) = [.createTable] ∧
    ∀ around, ¬ SchemaRecovered journal around journal.log (emptyDb 1000) := by
  obtain ⟨journal,made,names,ops⟩ := createOnly_made
  refine ⟨journal,made,names,ops,?_⟩
  rintro around ⟨after,recovered,_⟩
  have no_data : journal.log.any (fun item => isDataOp item.header.op_type) = false := by
    have mapped : (journal.log.map (·.header.op_type)).any isDataOp = false := by
      rw [ops]
      decide
    rw [List.any_map] at mapped
    exact mapped
  rw [Recovery.recover,if_pos no_data,ite_self] at recovered
  cases recovered

end CreateOnly
end RemDb
