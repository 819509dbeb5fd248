import RemDb.Ddl.SystemTables
import RemDb.Index.Composite

namespace RemDb
open RemDb.Lib

inductive AlterTableOperation where
  | addColumn (name : String) (data_type : DataType) (size : UInt16) (default_value : Option Bytes)
      (constraints : FieldConstraint)
  | dropColumn (name : String)
  | modifyColumn (name : String) (data_type : DataType) (size : UInt16) (default_value : Option Bytes)
      (constraints : FieldConstraint)
  | renameColumn (old_name new_name : String)
deriving DecidableEq,Repr

namespace AlterTableOperation

-- Unlike `create_table`, a text of no length has no bytes, a JSON column has
-- none at all, and vectors are never compressed.
def fieldSize (data_type : DataType) (size : UInt16) : Nat :=
  match data_type with
  | .varChar | .char => size.toNat
  | .text => TextStorage.SIZE
  | .vector => size.toNat*4
  | data_type => data_type.size.getD 0

def stringLength (data_type : DataType) (size : UInt16) : Option Nat :=
  match data_type with
  | .varChar | .char => some size.toNat
  | _ => none

-- The offsets of the remaining fields, one behind the other, and their sum.
def relay (arithmetic : Arithmetic) : Nat → List FieldDef → Option (List FieldDef × Nat)
  | new_offset, [] => some ([],new_offset)
  | new_offset, field :: rest => do
    let next ← arithmetic.add new_offset field.size
    let laid ← relay arithmetic next rest
    pure ({field with offset:=new_offset} :: laid.1,laid.2)

def shift (arithmetic : Arithmetic) (size_diff : Nat) (fields : List FieldDef) : Option (List FieldDef) :=
  fields.mapM fun field => do
    let offset ← arithmetic.add field.offset size_diff
    pure {field with offset:=offset}

def findField (tdef : TableDef) (name : String) : Option Nat := tdef.fields.findIdx? fun field => decide (field.name = name)

def newField (name : String) (data_type : DataType) (size : UInt16) (default_value : Option Bytes)
    (constraints : FieldConstraint) (offset : Nat) : FieldDef :=
  { name := name
    data_type := data_type
    size := fieldSize data_type size
    string_length := stringLength data_type size
    offset := offset
    primary_key := constraints.primary_key
    not_null := constraints.not_null
    unique := constraints.unique
    auto_increment := constraints.auto_increment
    default_value := default_value }

-- The new definition. The list of key columns, which are numbers, is left as it is.
def change (arithmetic : Arithmetic) (tdef : TableDef) : AlterTableOperation → Option (Except RemDbError TableDef)
  | addColumn name data_type size default_value constraints =>
    if tdef.fields.any fun field => decide (field.name = name) then some (.error .configError)
    else do
      let new_field := newField name data_type size default_value constraints tdef.record_size
      let record_size ← arithmetic.add tdef.record_size new_field.size
      pure (.ok {tdef with fields:=tdef.fields ++ [new_field],record_size:=record_size})
  | dropColumn name =>
    match findField tdef name with
    | none => some (.error .fieldNotFound)
    | some field_index =>
      if (tdef.fields[field_index]?).any (·.primary_key) then some (.error .configError)
      else do
        let laid ← relay arithmetic 0 (tdef.fields.eraseIdx field_index)
        pure (.ok {tdef with fields:=laid.1,record_size:=laid.2})
  | modifyColumn name data_type size default_value constraints =>
    match findField tdef name with
    | none => some (.error .fieldNotFound)
    | some field_index =>
      let new_size := fieldSize data_type size
      let old_size := ((tdef.fields[field_index]?).map (·.size)).getD 0
      let fields := tdef.fields.modify field_index fun field =>
        newField field.name data_type size default_value constraints field.offset
      if new_size = old_size then some (.ok {tdef with fields:=fields})
      else do
        let size_diff ← arithmetic.sub new_size old_size
        let later ← shift arithmetic size_diff (fields.drop (field_index+1))
        let record_size ← arithmetic.add tdef.record_size size_diff
        pure (.ok {tdef with fields:=fields.take (field_index+1) ++ later,record_size:=record_size})
  | renameColumn old_name new_name =>
    if tdef.fields.any fun field => decide (field.name = new_name) then some (.error .configError)
    else
      match findField tdef old_name with
      | none => some (.error .fieldNotFound)
      | some field_index =>
        some (.ok {tdef with fields:=tdef.fields.modify field_index fun field => {field with name:=new_name}})

end AlterTableOperation

def copyField (old_record : Bytes) (new_record : Bytes) (old_field new_field : FieldDef) : Bytes :=
  writeAt new_record new_field.offset (readAt old_record old_field.offset (min old_field.size new_field.size))

-- How many bytes of a default value go into a new column; some types get none.
def FieldDef.defaultWidth (field : FieldDef) : Nat :=
  match field.data_type with
  | .varChar | .char | .text | .json => min MAX_STRING_LEN field.size
  | .interval | .vector => 0
  | data_type => data_type.size.getD 0

def fillDefault (new_record : Bytes) (new_field : FieldDef) : Bytes :=
  match new_field.default_value with
  | some default_value => writeAt new_record new_field.offset (padTo new_field.defaultWidth default_value)
  | none => new_record

def TableDef.hasField (tdef : TableDef) (name : String) : Bool := tdef.fields.any fun field => decide (field.name = name)

-- The record as it goes into the new table: after a renaming the fields are
-- matched by their place, else by their name.
def migrateRecord (operation : AlterTableOperation) (old new : TableDef) (old_record : Bytes) : Bytes :=
  let zeros := List.replicate new.record_size 0
  match operation with
  | .renameColumn _ _ =>
    (old.fields.zip new.fields).foldl (fun record pair => copyField old_record record pair.1 pair.2) zeros
  | _ =>
    let copied := old.fields.foldl (fun record old_field =>
      match new.fields.find? fun field => decide (field.name = old_field.name) with
      | some new_field => copyField old_record record old_field new_field
      | none => record) zeros
    new.fields.foldl (fun record new_field =>
      if old.hasField new_field.name then record else fillDefault record new_field) copied

namespace MemoryTable

-- The largest key is taken from the first field that is marked as one.
def noteMaxPk (table : MemoryTable) (record : Bytes) : MemoryTable :=
  match table.tdef.fields.find? (·.primary_key) with
  | some field =>
    if keyValue field record > table.max_pk then {table with max_pk:=keyValue field record} else table
  | none => table

def placeRecord (table : MemoryTable) (slot : Nat) (image : Bytes) : MemoryTable :=
  let stored := ({table with free_slots:=table.free_slots.dropLast} : MemoryTable).store slot image true
  ({stored with record_count:=stored.record_count+1} : MemoryTable).noteMaxPk image

end MemoryTable

-- The loop over the old records. `none` is a column number beyond the columns.
def migrate (heap : TextHeap) (operation : AlterTableOperation) (old : MemoryTable) :
    List Nat → MemoryTable × PrimaryIndex → Option (Except RemDbError Unit × MemoryTable × PrimaryIndex)
  | [], (table,index) => some (.ok (),table,index)
  | slot :: rest, (table,index) =>
    if old.used slot then
      match table.free_slots.getLast? with
      | none => migrate heap operation old rest (table,index)
      | some new_slot =>
        let record := recordImage old.tdef.record_size (old.records slot)
        let image := migrateRecord operation old.tdef table.tdef record
        let placed := table.placeRecord new_slot image
        if table.tdef.primary_key = [] then migrate heap operation old rest (placed,index)
        else
          match index.insertComposite heap image (UInt16.ofNat new_slot) with
          | none => none
          | some (.error failure,after) => some (.error failure,placed,after)
          | some (.ok _,after) => migrate heap operation old rest (placed,after)
    else migrate heap operation old rest (table,index)

-- `alter_table`, without its log record. The old table is dropped when the new
-- one takes its place, and so is a new table that could not be filled; `none`
-- is a panic on a number beyond the end of a vector.
def alterTable (heap : TextHeap) (nodes : σ → List Nat) (left : Leftover) (table_name : String)
    (operation : AlterTableOperation) : DdlAction σ (Option Unit) := do
  let db ← get
  if isSystemTable table_name then fail .notAllowed
  else
    let table_index ← orFail .tableNotFound (db.placeOf table_name)
    let current ← orFail .tableNotFound (db.table table_index)
    match operation.change wrapping current.tdef with
    | none => pure none
    | some (.error failure) => fail failure
    | some (.ok new_def) =>
      let _ ← alloc new_def.indexSize
      let entry ← makeTable left.memory new_def current.secondary_index current.secondary_index_type
      let index := PrimaryIndex.new new_def left.hash_table_start left.items_start (hashTableSize new_def.max_records)
        new_def.max_records
      match migrate heap operation current.table (List.range current.tdef.max_records) (entry.table,index) with
      | none => pure none
      | some (.error failure,table,_) =>
        dropEntry nodes {entry with table:=table} none
        fail failure
      | some (.ok _,table,index) =>
        modify fun db => {db with tables:=db.tables.set table_index (some {entry with table:=table})}
        if table_index ≥ db.primary_indices.length ∨ table_index ≥ db.secondary_indices.length then pure none
        else
          modify fun db => {db with
            primary_indices:=db.primary_indices.set table_index (some index)
            secondary_indices:=db.secondary_indices.set table_index none}
          dropEntry nodes current (db.secondary_indices[table_index]?).join
          pure (some ())

end RemDb
