import RemDb.Snapshot.Format

namespace RemDb
open RemDb.Lib RemDb.Lib.Reader

-- The record size that snapshots go by: the sum over the columns.
def TableDef.savedSize (tdef : TableDef) : Nat := (tdef.fields.map (·.size)).sum % usizeLimit

-- The single key column that a restored record is read at is not there.
def TableDef.keyPanics (tdef : TableDef) : Bool :=
  match tdef.primary_key with
  | [pk_col_idx] => decide (pk_col_idx ≥ tdef.fields.length)
  | _ => false

namespace MemoryTable

def usedSlots (table : MemoryTable) : List Nat := (List.range table.tdef.max_records).filter table.used

-- What a pointer to a record gives, from its slot on through the slots behind
-- it; `beyond` lies behind the data area.
def bytesFrom (table : MemoryTable) (beyond : Bytes) (slot count : Nat) : Bytes :=
  padTo count (((List.range' slot (table.tdef.max_records-slot)).flatMap fun each =>
    recordImage table.tdef.record_size (table.records each)) ++ beyond)

-- Bytes written through the pointer to a record: what does not fit into its
-- slot lands in the slots behind it, and at last outside the table.
def copyIn (table : MemoryTable) (slot : Nat) (bytes : Bytes) : MemoryTable :=
  let size := table.tdef.record_size
  let piece (each : Nat) := (bytes.drop ((each-slot)*size)).take size
  {table with records:=fun each =>
    if each < slot then table.records each else memcpy (table.records each) (piece each) (piece each).length}

-- A full snapshot first clears every slot. The free stack is not touched.
def reset (table : MemoryTable) : MemoryTable :=
  {table with
    status:=fun slot =>
      let header := table.status slot
      if slot < table.tdef.max_records then {header with status:=.free,version:=header.version+1} else header
    records:=fun slot =>
      if slot < table.tdef.max_records then List.replicate table.tdef.record_size 0 else table.records slot
    record_count:=0}

def markUsed (table : MemoryTable) (slot : Nat) : MemoryTable :=
  let header := table.status slot
  {table.setStatus slot {header with status:=.used,version:=header.version+1} with
    record_count:=if header.status = .used then table.record_count else table.record_count+1}

-- One record of a snapshot. The key is read behind the pointer, so past the
-- slot where the bytes were written past it.
def restoreRecord (table : MemoryTable) (slot : Nat) (bytes : Bytes) : MemoryTable :=
  ((table.copyIn slot bytes).markUsed slot).raiseMaxPk
    (memcpy (recordImage table.tdef.record_size (table.records slot)) bytes bytes.length)

end MemoryTable

namespace DbTable

def description (entry : DbTable) : Description :=
  ⟨entry.tdef.name,entry.tdef.fields,entry.tdef.primary_key,entry.secondary_index,entry.secondary_index_type,
    entry.tdef.max_records⟩

def recordBytes (entry : DbTable) (beyond : Bytes) (slot : Nat) : Bytes :=
  toLE 4 slot ++ entry.table.bytesFrom beyond slot entry.tdef.savedSize

def snapshotBytes (entry : DbTable) (table_id : Nat) (beyond : Bytes) : Bytes :=
  toLE 4 table_id ++ entry.description.bytes ++ toLE 4 entry.table.record_count ++
    entry.table.usedSlots.flatMap (entry.recordBytes beyond)

-- The used records whose version is above that of the table's last snapshot,
-- which is cut to 16 bits.
def changedSlots (entry : DbTable) : List Nat :=
  entry.table.usedSlots.filter fun slot => decide ((entry.table.status slot).version > entry.snapshot_version.toUInt16)

def incrementBytes (entry : DbTable) (table_id : Nat) (beyond : Bytes) : Bytes :=
  toLE 4 table_id ++ toLE 4 entry.changedSlots.length ++ entry.changedSlots.flatMap (entry.recordBytes beyond)

end DbTable

-- A file that is written to, and how much the disk still takes; `none` is
-- without limit. A write that does not fit leaves its front.
structure Disk where
  file : Bytes
  room : Option Nat
deriving DecidableEq,Repr

namespace Disk

def roomy : Disk := ⟨[],none⟩

def write (disk : Disk) (bytes : Bytes) : Except RemDbError Unit × Disk :=
  match disk.room with
  | none => (.ok (),⟨disk.file ++ bytes,none⟩)
  | some room =>
    if bytes.length ≤ room then (.ok (),⟨disk.file ++ bytes,some (room-bytes.length)⟩)
    else (.error .fileIoError,⟨disk.file ++ bytes.take room,some 0⟩)

end Disk

def SNAPSHOT_MAGIC : Nat := 0x52454D44
def SNAPSHOT_VERSION : Nat := 1

def snapshotHeader (snapshot_type : UInt8) (version : UInt32) (table_count : Nat) : Bytes :=
  toLE 4 SNAPSHOT_MAGIC ++ toLE 4 SNAPSHOT_VERSION ++ [snapshot_type] ++ toLE 4 version.toNat ++ toLE 4 table_count

-- The tables one after the other from a place on. A table takes the version
-- of the snapshot before it is written.
def saveTables (version : UInt32) (beyond : Nat → Bytes) : Nat → List (Option DbTable) → Disk →
    Except RemDbError Unit × List (Option DbTable) × Disk
  | _, [], disk => (.ok (),[],disk)
  | table_id, none :: rest, disk =>
    let after := saveTables version beyond (table_id+1) rest disk
    (after.1,none :: after.2.1,after.2.2)
  | table_id, some entry :: rest, disk =>
    let marked := {entry with snapshot_version:=version}
    match disk.write (entry.snapshotBytes table_id (beyond table_id)) with
    | (.error failure,disk) => (.error failure,some marked :: rest,disk)
    | (.ok _,disk) =>
      let after := saveTables version beyond (table_id+1) rest disk
      (after.1,some marked :: after.2.1,after.2.2)

-- `save_snapshot`, with the file it leaves. A file that cannot be opened is
-- `none`.
def saveSnapshot (beyond : Nat → Bytes) (disk : Option Disk) (db : RemDbState σ) :
    Except RemDbError Unit × Bytes × RemDbState σ :=
  match disk with
  | none => (.error .fileIoError,[],db)
  | some disk =>
    let version := db.snapshot_version+1
    let counted := {db with snapshot_version:=version}
    match disk.write (snapshotHeader 0 version (db.tables.countP Option.isSome)) with
    | (.error failure,disk) => (.error failure,disk.file,counted)
    | (.ok _,disk) =>
      let after := saveTables version beyond 0 db.tables disk
      (after.1,after.2.2.file,{counted with tables:=after.2.1})

-- An incremental snapshot gives of a table its place and its changed records
-- alone, and the table takes the version after they are written.
def saveIncrements (version : UInt32) (beyond : Nat → Bytes) : Nat → List (Option DbTable) → Disk →
    Except RemDbError Unit × List (Option DbTable) × Disk
  | _, [], disk => (.ok (),[],disk)
  | table_id, none :: rest, disk =>
    let after := saveIncrements version beyond (table_id+1) rest disk
    (after.1,none :: after.2.1,after.2.2)
  | table_id, some entry :: rest, disk =>
    match disk.write (entry.incrementBytes table_id (beyond table_id)) with
    | (.error failure,disk) => (.error failure,some entry :: rest,disk)
    | (.ok _,disk) =>
      let after := saveIncrements version beyond (table_id+1) rest disk
      (after.1,some {entry with snapshot_version:=version} :: after.2.1,after.2.2)

-- `save_incremental_snapshot`. It counts every place of the vector, whether a
-- table stands there or not, in 32 bits, and goes as far as that count.
def saveIncrementalSnapshot (beyond : Nat → Bytes) (disk : Option Disk) (db : RemDbState σ) :
    Except RemDbError Unit × Bytes × RemDbState σ :=
  match disk with
  | none => (.error .fileIoError,[],db)
  | some disk =>
    let table_count := db.tables.length % 2^32
    match disk.write (snapshotHeader 1 db.snapshot_version table_count) with
    | (.error failure,disk) => (.error failure,disk.file,db)
    | (.ok _,disk) =>
      let after := saveIncrements db.snapshot_version beyond 0 (db.tables.take table_count) disk
      (after.1,after.2.2.file,{db with tables:=after.2.1 ++ db.tables.drop table_count})

-- `panicked` is a column number beyond the columns.
inductive RestoreFault where
  | diverged
  | panicked
  | error (failure : RemDbError)
deriving DecidableEq,Repr

-- The part of the file that is not read yet, and the database.
structure Restoring (σ : Type) where
  file : Bytes
  db : RemDbState σ

abbrev RestoreAction (σ : Type) := EStateM RestoreFault (Restoring σ)

def read (reader : Reader α) : RestoreAction σ α := do
  let state ← get
  match reader state.file with
  | none =>
    set {state with file:=[]}
    throw (.error .fileIoError)
  | some (value,rest) =>
    set {state with file:=rest}
    pure value

-- `resize_with(size, || None)`.
def resize (values : List (Option α)) (size : Nat) : List (Option α) :=
  values.take size ++ List.replicate (size-values.length) none

def RemDbState.widen (db : RemDbState σ) (table_id : Nat) : RemDbState σ :=
  if table_id ≥ db.tables.length then
    {db with
      tables:=resize db.tables (table_id+1)
      primary_indices:=resize db.primary_indices (table_id+1)
      secondary_indices:=resize db.secondary_indices (table_id+1)}
  else db

-- The definition of a table that a snapshot brings with it.
def Description.tableDef (described : Description) (table_id : Nat) : TableDef :=
  { id := UInt8.ofNat table_id
    name := described.name
    fields := described.fields
    primary_key := described.primary_key
    record_size := 0
    max_records := described.max_records }

-- A table that stands in the place is kept with its own definition; else one
-- is made, without an index.
def provideTable (memory : Memory) (table_id : Nat) (described : Description) : RestoreAction σ Unit := do
  let state ← get
  match state.db.table table_id with
  | some _ => pure ()
  | none =>
    match (makeTable memory (described.tableDef table_id) described.secondary_index
        described.secondary_index_type).run state.db with
    | .ok entry db => set {state with db:={db with tables:=db.tables.set table_id (some entry)}}
    | .error .diverged db =>
      set {state with db:=db}
      throw .diverged
    | .error (.error _) db =>
      set {state with db:=db}
      throw (.error .outOfMemory)

-- The records of one table. A record that is cut off is copied as far as it
-- goes.
def restoreRecords : Nat → MemoryTable → Bytes → Except RestoreFault Unit × MemoryTable × Bytes
  | 0, table, file => (.ok (),table,file)
  | count+1, table, file =>
    match le 4 file with
    | none => (.error (.error .fileIoError),table,[])
    | some (slot,data) =>
      if slot ≥ table.tdef.max_records then (.error (.error .snapshotFormatError),table,data)
      else
        match take table.tdef.savedSize data with
        | none => (.error (.error .fileIoError),table.copyIn slot data,[])
        | some (bytes,rest) =>
          if table.tdef.keyPanics then
            (.error .panicked,(table.copyIn slot bytes).markUsed slot,rest)
          else restoreRecords count (table.restoreRecord slot bytes) rest

def restoreInto (table_id : Nat) (snapshot_type : UInt8) (record_count : Nat) : RestoreAction σ Unit := do
  let state ← get
  match state.db.table table_id with
  | none => throw (.error .tableNotFound)
  | some entry =>
    let cleared := if snapshot_type = 0 then entry.table.reset else entry.table
    let after := restoreRecords record_count cleared state.file
    set (⟨after.2.2,{state.db with tables:=state.db.tables.set table_id (some {entry with table:=after.2.1})}⟩ :
      Restoring σ)
    match after.1 with
    | .ok _ => pure ()
    | .error fault => throw fault

def restoreTable (snapshot_type : UInt8) (memory : Nat → Memory) : RestoreAction σ Unit := do
  let table_id ← read (le 4)
  modify fun state => {state with db:=state.db.widen table_id}
  let described ← read Description.fromSnapshot
  provideTable (memory table_id) table_id described
  let record_count ← read (le 4)
  restoreInto table_id snapshot_type record_count

def restoreTables (snapshot_type : UInt8) (memory : Nat → Memory) : Nat → RestoreAction σ Unit
  | 0 => pure ()
  | count+1 => do
    restoreTable snapshot_type memory
    restoreTables snapshot_type memory count

def restoreFile (memory : Nat → Memory) : RestoreAction σ Unit := do
  let magic ← read (le 4)
  if magic ≠ SNAPSHOT_MAGIC then throw (.error .snapshotFormatError)
  else
    let version ← read (le 4)
    if version ≠ SNAPSHOT_VERSION then throw (.error .snapshotFormatError)
    else
      let snapshot_type ← read byte
      let base_version ← read (le 4)
      let table_count ← read (le 4)
      restoreTables snapshot_type memory table_count
      modify fun state => {state with db:={state.db with snapshot_version:=UInt32.ofNat base_version}}

-- `restore_snapshot`; `memory` is what lies in the memory of a table that is
-- made.
def restoreSnapshot (memory : Nat → Memory) (file : Option Bytes) (db : RemDbState σ) :
    Except RestoreFault Unit × RemDbState σ :=
  match file with
  | none => (.error (.error .fileIoError),db)
  | some bytes =>
    match (restoreFile memory).run ⟨bytes,db⟩ with
    | .ok _ state => (.ok (),state.db)
    | .error fault state => (.error fault,state.db)

end RemDb
