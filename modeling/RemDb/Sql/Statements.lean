import RemDb.Sql.Expression
import RemDb.Tx.Rollback

namespace RemDb
open RemDb.Lib RemDb.Wal

inductive QueryType where
  | select | insert | update | delete | describe | createTable | createTimeSeriesTable | createIndex
  | createDatabase | createModel | createRole | grantPermission | grantRole | revokePermission | revokeRole
  | dropRole | createUser | dropUser | useDatabase | closeDatabase | dropDatabase | alterTable | dropTable
  | beginTransaction | commit | rollback | createCheckpoint | showIndexBuildStatus | reindex | showTables
  | other
deriving DecidableEq,Repr

structure SqlQuery where
  query_type : QueryType
  table_name : String
  where_clause : Option Condition
  insert_columns : List String
  values : List (List SqlValue)
  update_pairs : List (String × Expression)
  ignore_duplicates : Bool

structure ResultSet where
  columns : List String
  rows : List (List TypedValue)
deriving DecidableEq,Repr

structure TimeSeriesRecord where
  timestamp : UInt64
  value : UInt64
  tags : List UInt64
deriving DecidableEq,Repr

structure TimeSeriesPartition where
  start_time : UInt64
  end_time : UInt64
  records : List TimeSeriesRecord
deriving DecidableEq,Repr

structure TimeSeriesTable where
  base : TableDef
  time_field : Nat
  value_field : Nat
  tag_fields : List Nat
  partition_duration : UInt64
  max_partitions : Nat
  partitions : List TimeSeriesPartition
  index : List (UInt64 × Nat)
deriving DecidableEq,Repr

-- The database with the global transaction manager.
structure Session where
  db : Database
  time_series_tables : List (Option TimeSeriesTable)
  manager : TransactionManager

structure LogRequest where
  operation : LogOperation
  table : UInt8
  record : UInt16
  now : UInt64
  old : Bytes
  new : Bytes

-- All the other statements can change: `current_tx` is private to the manager,
-- and they call none of `begin`, `commit`, `rollback` and `reset`. They write to
-- the log directly or ask the open transaction to log an item.
structure Aside where
  db : Database
  time_series_tables : List (Option TimeSeriesTable)
  log_manager : Option LogManager
  logged : List LogRequest

def Aside.session (aside : Aside) (manager : TransactionManager) : Session where
  db := aside.db
  time_series_tables := aside.time_series_tables
  manager := aside.logged.foldl (fun manager item =>
    manager.log item.operation item.table item.record item.now item.old item.new)
    {manager with log_manager:=aside.log_manager}

-- What a statement finds around it: the evaluator, the clock of the log items,
-- the surroundings of the commit, the addresses of the local and of the static
-- transaction buffer, the permission check and the other statements.
structure Runtime where
  semantics : Semantics
  codecs : Codecs
  clock : Nat → UInt64
  envs : Nat → Env
  localBuffer : Nat
  staticBuffer : Nat
  permitted : Session → SqlQuery → Bool
  others : Session → SqlQuery → Except QueryExecutionError ResultSet × Aside

def counts (columns : List (String × Nat)) : ResultSet :=
  ⟨columns.map (·.1),[columns.map fun column => ⟨.uint64,toLE 8 column.2⟩]⟩

def Database.position (db : Database) (name : String) : Option Nat :=
  db.tables.findIdx? fun held => held.any fun table => table.tdef.name = name

-- The log buffer of a statement has ten places.
def statementLogItems : Nat := 10

-- Each writing statement opens a transaction of its own unless one is active;
-- the flag says whether it did.
def autoBegin (rt : Runtime) (manager : TransactionManager) :
    Except QueryExecutionError Bool × TransactionManager :=
  if manager.current_tx.isSome then (.ok false,manager)
  else
    match manager.start .readWrite (some rt.localBuffer) true statementLogItems with
    | (.ok _,begun) => (.ok true,begun)
    | (.error _,refused) => (.error .internalError,refused)

def autoRollback (state : Session) (began : Bool) (failure : QueryExecutionError) :
    Except QueryExecutionError ResultSet × Session :=
  if began then
    match state.manager.rollback state.db with
    | (.ok _,manager,db) => (.error failure,{state with db:=db,manager:=manager})
    | (.error _,manager,db) => (.error .internalError,{state with db:=db,manager:=manager})
  else (.error failure,state)

def autoCommit (rt : Runtime) (state : Session) (began : Bool) (result : ResultSet) :
    Except QueryExecutionError ResultSet × Session :=
  if began then
    match state.manager.commit rt.codecs rt.envs with
    | (.ok _,manager) => (.ok result,{state with manager:=manager})
    | (.error _,manager) => (.error .internalError,{state with manager:=manager})
  else (.ok result,state)

-- The value of a row for a field: by the position of its column in the list,
-- or by its own position where the statement has no list.
def SqlQuery.valueFor (query : SqlQuery) (values : List SqlValue) (field : FieldDef) (index : Nat) :
    Option SqlValue :=
  if query.insert_columns = [] then values[index]?
  else (query.insert_columns.idxOf? field.name).bind fun column => values[column]?

def keyLimit : DataType → UInt64
  | .uint8 => 255
  | .uint16 => 65535
  | .uint32 => 4294967295
  | .int8 => 127
  | .int16 => 32767
  | .int32 => 2147483647
  | .int64 => 9223372036854775807
  | _ => 18446744073709551615

-- The next automatic key; after the largest it starts again at one.
def nextKey (type : DataType) (maxPk : UInt64) : UInt64 := if maxPk ≥ keyLimit type then 1 else maxPk+1

def keyBytes (type : DataType) (key : UInt64) : Bytes :=
  match type with
  | .uint8 | .int8 => toLE 1 key.toNat
  | .uint16 | .int16 => toLE 2 key.toNat
  | .uint32 | .int32 => toLE 4 key.toNat
  | .uint64 | .int64 => toLE 8 key.toNat
  | _ => []

-- Only strings in CHAR and VARCHAR columns are measured.
def FieldDef.tooLong (field : FieldDef) : SqlValue → Bool
  | .string text =>
    (field.data_type = .varChar || field.data_type = .char) &&
      field.string_length.any fun limit => (utf8 text).length > limit
  | _ => false

structure BuiltRecord where
  failure : Option QueryExecutionError
  max_pk : UInt64
  record : Bytes

-- The record of one row, field by field. An automatic key moves the largest key
-- of the table on even if the row fails later.
def buildRecord (semantics : Semantics) (tdef : TableDef) (query : SqlQuery) (values : List SqlValue) :
    List (FieldDef × Nat) → UInt64 → Bytes → BuiltRecord
  | [],maxPk,record => ⟨none,maxPk,record⟩
  | (field,index) :: rest,maxPk,record =>
    match query.valueFor values field index with
    | none =>
      if field.primary_key && field.auto_increment then
        let key := nextKey field.data_type maxPk
        buildRecord semantics tdef query values rest key (writeAt record field.offset (keyBytes field.data_type key))
      else
        match field.default_value with
        | some bytes => buildRecord semantics tdef query values rest maxPk (writeAt record field.offset bytes)
        | none => buildRecord semantics tdef query values rest maxPk record
    | some value =>
      if field.tooLong value then ⟨some .typeMismatch,maxPk,record⟩
      else
        match setFieldValue semantics tdef record field (.constant value) with
        | .ok written => buildRecord semantics tdef query values rest maxPk written
        | .error failure => ⟨some failure,maxPk,record⟩

def rowRecord (semantics : Semantics) (table : MemoryTable) (query : SqlQuery) (values : List SqlValue) :
    BuiltRecord :=
  buildRecord semantics table.tdef query values table.tdef.fields.zipIdx table.max_pk
    (List.replicate table.tdef.record_size 0)

-- What a refused row means for the statement; nothing for an ignored duplicate.
def rowFailure (ignoreDuplicates : Bool) : RemDbError → Option QueryExecutionError
  | .duplicateKey => if ignoreDuplicates then none else some .constraintsConflicts
  | .invalidRecordSize | .typeMismatch => some .constraintsConflicts
  | .outOfMemory => some .outOfMemory
  | _ => some .internalError

structure InsertedRows where
  failure : Option QueryExecutionError
  slots : List Nat
  table : MemoryTable
  manager : TransactionManager

def insertRows (rt : Runtime) (query : SqlQuery) :
    List (List SqlValue × Nat) → List Nat → MemoryTable → TransactionManager → InsertedRows
  | [],slots,table,manager => ⟨none,slots,table,manager⟩
  | (values,row) :: rest,slots,table,manager =>
    let built := rowRecord rt.semantics table query values
    let keyed := {table with max_pk:=built.max_pk}
    match built.failure with
    | some failure => ⟨some failure,slots,keyed,manager⟩
    | none =>
      match keyed.insert manager (rt.clock row) built.record with
      | (.ok slot,stored,logged) => insertRows rt query rest (slots ++ [slot]) stored logged
      | (.error fault,kept,unlogged) =>
        match rowFailure query.ignore_duplicates fault with
        | some failure => ⟨some failure,slots,kept,unlogged⟩
        | none => insertRows rt query rest slots kept unlogged

def hashText (text : String) : UInt64 :=
  text.toList.foldl (fun hash letter => hash*31+UInt64.ofNat letter.toNat) 0

def maxTags : Nat := 8

-- The fields of a row of a series. Time and value have to be numbers; other
-- literals in a tag column leave a zero tag.
def seriesRecord (semantics : Semantics) (query : SqlQuery) (values : List SqlValue) (table : TimeSeriesTable) :
    List (FieldDef × Nat) → TimeSeriesRecord → Except QueryExecutionError TimeSeriesRecord
  | [],record => .ok record
  | (field,index) :: rest,record =>
    match query.valueFor values field index with
    | none => seriesRecord semantics query values table rest record
    | some value =>
      if index = table.time_field then
        match value with
        | .integer number => seriesRecord semantics query values table rest {record with timestamp:=number.toUInt64}
        | .float _ =>
          let cast := semantics.cast .uint64 (constantValue semantics value)
          seriesRecord semantics query values table rest {record with timestamp:=UInt64.ofNat (ofLE cast)}
        | _ => .error .typeMismatch
      else if index = table.value_field then
        match value with
        | .integer _ =>
          let cast := semantics.cast .float64 (constantValue semantics value)
          seriesRecord semantics query values table rest {record with value:=UInt64.ofNat (ofLE cast)}
        | .float bits => seriesRecord semantics query values table rest {record with value:=bits}
        | _ => .error .typeMismatch
      else if index ∈ table.tag_fields ∧ record.tags.length < maxTags then
        let tag :=
          match value with
          | .string text => hashText text
          | .integer number => number.toUInt64
          | _ => 0
        seriesRecord semantics query values table rest {record with tags:=record.tags ++ [tag]}
      else seriesRecord semantics query values table rest record

-- A record goes to the partition of its time, which is made if it is missing;
-- beyond the limit the first partition is dropped.
def TimeSeriesTable.write (table : TimeSeriesTable) (record : TimeSeriesRecord) (row : Nat) : TimeSeriesTable :=
  let start := record.timestamp/table.partition_duration*table.partition_duration
  let partitions :=
    match table.partitions.findIdx? (·.start_time = start) with
    | some place => table.partitions.modify place fun held => {held with records:=held.records ++ [record]}
    | none =>
      let grown := table.partitions ++ [⟨start,start+table.partition_duration,[record]⟩]
      if grown.length > table.max_partitions then grown.drop 1 else grown
  {table with partitions:=partitions,index:=table.index ++ [(record.timestamp,row)]}

def seriesRows (rt : Runtime) (query : SqlQuery) :
    List (List SqlValue × Nat) → TimeSeriesTable → Option QueryExecutionError × TimeSeriesTable
  | [],table => (none,table)
  | (values,row) :: rest,table =>
    match seriesRecord rt.semantics query values table table.base.fields.zipIdx ⟨0,0,[]⟩ with
    | .error failure => (some failure,table)
    | .ok record => seriesRows rt query rest (table.write record row)

def Session.seriesPosition (state : Session) (name : String) : Option Nat :=
  state.time_series_tables.findIdx? fun held => held.any fun table => table.base.name = name

-- The series path neither commits nor rolls back what it began.
def executeInsertTimeseriesQuery (rt : Runtime) (state : Session) (query : SqlQuery) :
    Except QueryExecutionError ResultSet × Session :=
  match state.seriesPosition query.table_name with
  | none => (.error .tableNotFound,state)
  | some place =>
    match (state.time_series_tables[place]?).join with
    | none => (.error .tableNotFound,state)
    | some table =>
      match autoBegin rt state.manager with
      | (.error failure,manager) => (.error failure,{state with manager:=manager})
      | (.ok _,manager) =>
        let written := seriesRows rt query query.values.zipIdx table
        let after := {state with
          time_series_tables:=state.time_series_tables.set place (some written.2),manager:=manager}
        match written.1 with
        | some failure => (.error failure,after)
        | none => (.ok ⟨["affected_rows"],[[⟨.int64,toLE 8 query.values.length⟩]]⟩,after)

def executeInsertQuery (rt : Runtime) (state : Session) (query : SqlQuery) :
    Except QueryExecutionError ResultSet × Session :=
  if (state.seriesPosition query.table_name).isSome then executeInsertTimeseriesQuery rt state query
  else
    match state.db.position query.table_name with
    | none => (.error .tableNotFound,state)
    | some index =>
      match state.db.table index with
      | none => (.error .internalError,state)
      | some table =>
        if query.insert_columns.all (fun column => table.tdef.fields.any (·.name = column)) then
          match autoBegin rt state.manager with
          | (.error failure,manager) => (.error failure,{state with manager:=manager})
          | (.ok began,manager) =>
            let rows := insertRows rt query query.values.zipIdx [] table manager
            let stored := {state with db:=state.db.setTable index rows.table,manager:=rows.manager}
            match rows.failure with
            | some failure => autoRollback stored began failure
            | none => autoCommit rt stored began
                (counts [("affected_rows",rows.slots.length),("last_insert_id",rows.slots.getLastD 0)])
        else (.error .fieldNotFound,state)

def MemoryTable.matching (table : MemoryTable) (semantics : Semantics) (condition : Option Condition) : List Nat :=
  (List.range table.tdef.max_records).filter fun slot =>
    table.used slot && condition.all fun clause => evaluateCondition semantics table.tdef (table.records slot) clause

-- Records that cannot be deleted are skipped.
def deleteRows (rt : Runtime) : List (Nat × Nat) → Nat → MemoryTable → TransactionManager →
    Nat × MemoryTable × TransactionManager
  | [],deleted,table,manager => (deleted,table,manager)
  | (slot,row) :: rest,deleted,table,manager =>
    match table.delete manager (rt.clock row) slot with
    | (.ok _,after,logged) => deleteRows rt rest (deleted+1) after logged
    | (.error _,after,logged) => deleteRows rt rest deleted after logged

def executeDeleteQuery (rt : Runtime) (state : Session) (query : SqlQuery) :
    Except QueryExecutionError ResultSet × Session :=
  match state.db.position query.table_name with
  | none => (.error .tableNotFound,state)
  | some index =>
    match state.db.table index with
    | none => (.error .tableNotFound,state)
    | some table =>
      match autoBegin rt state.manager with
      | (.error failure,manager) => (.error failure,{state with manager:=manager})
      | (.ok began,manager) =>
        let slots := table.matching rt.semantics query.where_clause
        let (deleted,after,logged) := deleteRows rt slots.zipIdx 0 table manager
        autoCommit rt {state with db:=state.db.setTable index after,manager:=logged} began
          (counts [("affected_rows",deleted)])

-- The SET list on one record buffer, from left to right.
def applyPairs (semantics : Semantics) (tdef : TableDef) :
    List (String × Expression) → Bytes → Except QueryExecutionError Bytes
  | [],record => .ok record
  | (name,expr) :: rest,record =>
    match tdef.fields.find? (·.name = name) with
    | none => .error .fieldNotFound
    | some field => (setFieldValue semantics tdef record field expr).bind (applyPairs semantics tdef rest)

-- The record is written in place and its version counted; nothing is checked
-- and nothing is logged.
def MemoryTable.overwrite (table : MemoryTable) (slot : Nat) (record : Bytes) : MemoryTable :=
  let header := table.status slot
  (table.setRecord slot (recordImage table.tdef.record_size record)).setStatus slot
    {header with version:=header.version+1}

def updateRows (semantics : Semantics) (pairs : List (String × Expression)) :
    List (Nat × Bytes) → MemoryTable → Option QueryExecutionError × MemoryTable
  | [],table => (none,table)
  | (slot,record) :: rest,table =>
    match applyPairs semantics table.tdef pairs record with
    | .error failure => (some failure,table)
    | .ok written => updateRows semantics pairs rest (table.overwrite slot written)

-- A failed row returns at once, past the end of the transaction.
def executeUpdateQuery (rt : Runtime) (state : Session) (query : SqlQuery) :
    Except QueryExecutionError ResultSet × Session :=
  match state.db.position query.table_name with
  | none => (.error .tableNotFound,state)
  | some index =>
    match state.db.table index with
    | none => (.error .internalError,state)
    | some table =>
      match autoBegin rt state.manager with
      | (.error failure,manager) => (.error failure,{state with manager:=manager})
      | (.ok began,manager) =>
        let slots := table.matching rt.semantics query.where_clause
        let rows := slots.map fun slot => (slot,recordImage table.tdef.record_size (table.records slot))
        let updated := updateRows rt.semantics query.update_pairs rows table
        let after := {state with db:=state.db.setTable index updated.2,manager:=manager}
        match updated.1 with
        | some failure => (.error failure,after)
        | none => autoCommit rt after began (counts [("affected_rows",rows.length)])

def sessionLogItems : Nat := 1024

-- The three statements of a session ignore what the manager answers.
def executeQuery (rt : Runtime) (state : Session) (query : SqlQuery) :
    Except QueryExecutionError ResultSet × Session :=
  match query.query_type with
  | .insert =>
    if rt.permitted state query then executeInsertQuery rt state query else (.error .internalError,state)
  | .update =>
    if rt.permitted state query then executeUpdateQuery rt state query else (.error .internalError,state)
  | .delete =>
    if rt.permitted state query then executeDeleteQuery rt state query else (.error .internalError,state)
  | .beginTransaction =>
    let begun := state.manager.start .readWrite (some rt.staticBuffer) true sessionLogItems
    (.ok ⟨[],[]⟩,{state with manager:=begun.2})
  | .commit => (.ok ⟨[],[]⟩,{state with manager:=(state.manager.commit rt.codecs rt.envs).2})
  | .rollback =>
    let (_,manager,db) := state.manager.rollback state.db
    (.ok ⟨[],[]⟩,{state with db:=db,manager:=manager})
  | _ =>
    let (result,aside) := rt.others state query
    (result,aside.session state.manager)

-- Enough of the evaluator for integers in integer columns.
def integerSemantics : Semantics where
  jsonStorage := fun _ => []
  functionCall := fun name _ => .error (.unsupportedFunction name)
  binaryOp := fun _ _ _ _ _ _ => .error .typeMismatch
  unaryOp := fun _ _ => .error .typeMismatch
  cast := fun _ _ => []
  convert := fun _ _ _ _ => .error .typeMismatch
  comparison := fun _ _ _ => false
  between := fun _ _ _ => false

def plainRuntime : Runtime where
  semantics := integerSemantics
  codecs := plainBuild
  clock := fun _ => 0
  envs := fun _ => still
  localBuffer := 1
  staticBuffer := 2
  permitted := fun _ _ => true
  others := fun state _ => (.error .internalError,⟨state.db,state.time_series_tables,state.manager.log_manager,[]⟩)

end RemDb
