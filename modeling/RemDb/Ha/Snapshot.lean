import RemDb.Snapshot.Records
import RemDb.Tx.Rollback

namespace RemDb
open RemDb.Lib RemDb.Lib.Reader

inductive HAError where
  | syncFailed
deriving DecidableEq,Repr

-- The master. `dimension` is the dimension in the vector metadata of a column,
-- zero for a column that has none.
namespace SyncHandler

def fieldBytes (dimension : FieldDef → UInt16) (field : FieldDef) : Bytes :=
  [UInt8.ofNat (utf8 field.name).length] ++ utf8 field.name ++
    ([field.data_type.code] ++ toLE 2 field.offset ++ toLE 2 (dimension field).toNat)

def recordBytes (table : MemoryTable) (record_id : Nat) : Bytes :=
  [1] ++ toLE 4 record_id ++ recordImage table.tdef.record_size (table.records record_id)

def shapeBytes (dimension : FieldDef → UInt16) (table : MemoryTable) : Bytes :=
  toLE 4 table.tdef.record_size ++ toLE 4 table.record_count ++ toLE 4 table.tdef.max_records ++
    [UInt8.ofNat table.tdef.fields.length] ++ table.tdef.fields.flatMap (fieldBytes dimension) ++
    [UInt8.ofNat table.tdef.primary_key.length] ++ table.tdef.primary_key.map UInt8.ofNat

def tableBytes (dimension : FieldDef → UInt16) (table : MemoryTable) : Bytes :=
  [UInt8.ofNat (utf8 table.tdef.name).length] ++ utf8 table.tdef.name ++ shapeBytes dimension table ++
    (table.usedSlots.flatMap (recordBytes table) ++ [0])

-- The count is that of the places, also of those a dropped table left; only
-- the tables are written.
def createDatabaseSnapshot (dimension : FieldDef → UInt16) (db : Database) : Bytes :=
  [UInt8.ofNat db.tables.length] ++ (db.tables.filterMap id).flatMap (tableBytes dimension)

end SyncHandler

namespace MemoryTable

def syncRecord (table : MemoryTable) (record : Nat × Bytes) : MemoryTable :=
  if record.1 < table.tdef.max_records then (table.copyIn record.1 record.2).markUsed record.1 else table

def syncAll (table : MemoryTable) (records : List (Nat × Bytes)) : MemoryTable := records.foldl syncRecord table

end MemoryTable

def Database.placeOf (db : Database) (name : String) : Option Nat :=
  db.tables.findIdx? fun entry => entry.any fun table => decide (table.tdef.name = name)

-- The slave. `none` is an index or a slice past the end of the data, which
-- panics. Skipping is reading here: behind whatever is skipped comes a byte
-- that is read.
namespace SyncReceiver

def tableName : Reader Bytes := do
  let name_len ← byte
  take name_len.toNat

def skipField : Reader Unit := do
  let field_name_len ← byte
  let _ ← take field_name_len.toNat
  let _ ← take 5
  pure ()

def tableShape : Reader Nat := do
  let record_size ← le 4
  let _ ← le 4
  let _ ← le 4
  let field_count ← byte
  let _ ← times skipField field_count.toNat
  let pk_count ← byte
  let _ ← take pk_count.toNat
  pure record_size

def recordsWithin (record_size : Nat) : Nat → Reader (List (Nat × Bytes))
  | 0 => fun _ => none
  | fuel+1 => do
    let used_flag ← byte
    if used_flag = 0 then pure []
    else
      let record_id ← le 4
      let record_data ← take record_size
      let rest ← recordsWithin record_size fuel
      pure ((record_id,record_data) :: rest)

-- Every round takes a byte, so that the length of the data is fuel enough.
def records (record_size : Nat) : Reader (List (Nat × Bytes)) := fun file =>
  recordsWithin record_size (file.length+1) file

def syncTable (db : Database) (table_name : String) (found : List (Nat × Bytes)) : Database :=
  match db.placeOf table_name with
  | none => db
  | some place =>
    match db.table place with
    | none => db
    | some table => db.setTable place (table.syncAll found)

def applyTables : Nat → Bytes → Database → Option (Except HAError Unit × Database)
  | 0, _, db => some (.ok (),db)
  | table_count+1, data, db =>
    match tableName data with
    | none => none
    | some (name,behind_name) =>
      match String.fromUTF8? ⟨name.toArray⟩ with
      | none => some (.error .syncFailed,db)
      | some table_name =>
        match tableShape behind_name with
        | none => none
        | some (record_size,behind_shape) =>
          match records record_size behind_shape with
          | none => none
          | some (found,rest) => applyTables table_count rest (syncTable db table_name found)

def applySnapshot (data : Bytes) (db : Database) : Option (Except HAError Unit × Database) :=
  match data with
  | [] => some (.ok (),db)
  | table_count :: rest => applyTables table_count.toNat rest db

end SyncReceiver
end RemDb
