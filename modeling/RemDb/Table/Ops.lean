import RemDb.Lib.FreeList
import RemDb.Table.Def
import RemDb.Tx.Manager

namespace RemDb
open RemDb.Lib RemDb.Wal

-- `free_slots` is the filled part of the array, so its length is the counter
-- `free_slot_count` and the top of the stack is its last entry.
structure MemoryTable where
  tdef : TableDef
  records : Nat → Bytes
  status : Nat → RecordHeader
  record_count : Nat
  free_slots : List Nat
  low_power_mode : Bool
  low_power_max_records : Option Nat
  max_pk : UInt64

-- The `size` bytes a pointer to a record gives.
def recordImage (size : Nat) (data : Bytes) : Bytes := padTo size data

@[simp] theorem recordImage_length (size : Nat) (data : Bytes) : (recordImage size data).length = size :=
  padTo_length size data

theorem recordImage_exact (data : Bytes) : recordImage data.length data = data := by
  simp [recordImage,padTo]

-- What the allocator hands out: status headers and record bytes as they are.
abbrev Memory := Nat → RecordHeader × Bytes

namespace MemoryTable

def used (table : MemoryTable) (slot : Nat) : Bool := decide ((table.status slot).status = .used)

def newWithOptions (tdef : TableDef) (memory : Option Memory) (skipStatusInit : Bool) :
    Except RemDbError MemoryTable :=
  if tdef.max_records = 0 then .error .configError
  else
    match memory with
    | none => .error .outOfMemory
    | some memory =>
      let slots := (List.range tdef.max_records).map fun slot => tdef.max_records-1-slot
      .ok
        { tdef := tdef
          records := fun slot => (memory slot).2
          status := fun slot =>
            if skipStatusInit then (memory slot).1
            else {(memory slot).1 with status:=.free,version:=0}
          record_count := 0
          free_slots := if skipStatusInit then [] else slots
          low_power_mode := false
          low_power_max_records := none
          max_pk := 0 }

def new (tdef : TableDef) (memory : Option Memory) : Except RemDbError MemoryTable :=
  newWithOptions tdef memory false

def setLowPowerMode (table : MemoryTable) (enabled : Bool) (maxRecords : Option Nat) : MemoryTable :=
  {table with low_power_mode:=enabled,low_power_max_records:=maxRecords}

def maxRecords (table : MemoryTable) : Nat :=
  if table.low_power_mode then table.low_power_max_records.getD table.tdef.max_records
  else table.tdef.max_records

def validate (table : MemoryTable) (tx : TransactionManager) (record : Bytes) (exclude : Option Nat) :
    Except RemDbError Unit :=
  table.tdef.validateConstraints table.status table.records tx.tx_id_counter record exclude

-- The record insert overwrites: the first used one with the least version. A
-- version of 65535 is never below the start value of the search.
def oldest (table : MemoryTable) : Option Nat :=
  ((List.range table.tdef.max_records).foldl (fun best slot =>
    if table.used slot = true ∧ (table.status slot).version < best.2 then
      (some slot,(table.status slot).version)
    else best) (none,65535)).1

-- The slot an insert takes, whether it overwrites, and the table without it.
def takeSlot (table : MemoryTable) : Except RemDbError (Nat × Bool × MemoryTable) :=
  if table.record_count ≥ table.maxRecords then
    if table.low_power_mode then
      match table.oldest with
      | some slot => .ok (slot,true,table)
      | none => .error .noRecordsToOverwrite
    else .error .outOfMemory
  else
    match table.free_slots.getLast? with
    | some slot => .ok (slot,false,{table with free_slots:=table.free_slots.dropLast})
    | none => .error .outOfMemory

def setStatus (table : MemoryTable) (slot : Nat) (header : RecordHeader) : MemoryTable :=
  {table with status:=assign table.status slot header}

def setRecord (table : MemoryTable) (slot : Nat) (bytes : Bytes) : MemoryTable :=
  {table with records:=assign table.records slot bytes}

-- Copy a record in and mark its slot; the series path does not count versions.
def store (table : MemoryTable) (slot : Nat) (image : Bytes) (counted : Bool) : MemoryTable :=
  let header := table.status slot
  (table.setRecord slot image).setStatus slot
    {header with status:=.used,version:=if counted then header.version+1 else header.version}

-- The integer a single-column key has, sign-extended to 64 bits; other types
-- count as zero.
def keyValue (field : FieldDef) (record : Bytes) : UInt64 :=
  let unsigned (width : Nat) := UInt64.ofNat (ofLE (field.read record width))
  let signed (width : Nat) :=
    let value := ofLE (field.read record width)
    UInt64.ofNat (if value < 2^(8*width-1) then value else value+2^64-2^(8*width))
  match field.data_type with
  | .uint8 => unsigned 1
  | .uint16 => unsigned 2
  | .uint32 => unsigned 4
  | .uint64 => unsigned 8
  | .int8 => signed 1
  | .int16 => signed 2
  | .int32 => signed 4
  | .int64 => signed 8
  | _ => 0

def raiseMaxPk (table : MemoryTable) (record : Bytes) : MemoryTable :=
  match table.tdef.primary_key with
  | [column] =>
    match table.tdef.fields[column]? with
    | some field =>
      if keyValue field record > table.max_pk then {table with max_pk:=keyValue field record} else table
    | none => table
  | _ => table

def insert (table : MemoryTable) (tx : TransactionManager) (now : UInt64) (data : Bytes) :
    Except RemDbError Nat × MemoryTable × TransactionManager :=
  let image := recordImage table.tdef.record_size data
  match table.validate tx image none with
  | .error failure => (.error failure,table,tx)
  | .ok _ =>
    match table.takeSlot with
    | .error failure => (.error failure,table,tx)
    | .ok (slot,overwrite,taken) =>
      let logged := tx.log .insert table.tdef.id (UInt16.ofNat slot) now [] image
      let stored := (taken.store slot image true).raiseMaxPk image
      let counted :=
        if overwrite then stored else {stored with record_count:=stored.record_count+1}
      (.ok slot,counted,logged)

def update (table : MemoryTable) (tx : TransactionManager) (now : UInt64) (slot : Nat) (data : Bytes) :
    Except RemDbError Unit × MemoryTable × TransactionManager :=
  if slot ≥ table.tdef.max_records then (.error .recordNotFound,table,tx)
  else if table.used slot = false then (.error .recordNotFound,table,tx)
  else
    let image := recordImage table.tdef.record_size data
    match table.validate tx image (some slot) with
    | .error failure => (.error failure,table,tx)
    | .ok _ =>
      let old := recordImage table.tdef.record_size (table.records slot)
      let logged := tx.log .update table.tdef.id (UInt16.ofNat slot) now old image
      (.ok (),table.store slot image true,logged)

def pushFree (table : MemoryTable) (slot : Nat) : MemoryTable :=
  if table.free_slots.length < table.tdef.max_records then
    {table with free_slots:=table.free_slots ++ [slot]}
  else table

-- Mark a slot free, clear it, push it and count down, as delete and the undo
-- of an insert do.
def release (table : MemoryTable) (slot : Nat) : MemoryTable :=
  let header := table.status slot
  let cleared := (table.setStatus slot {header with status:=.free,version:=header.version+1}).setRecord slot
    (List.replicate table.tdef.record_size 0)
  let pushed := cleared.pushFree slot
  {pushed with record_count:=usizeSub pushed.record_count 1}

def delete (table : MemoryTable) (tx : TransactionManager) (now : UInt64) (slot : Nat) :
    Except RemDbError Unit × MemoryTable × TransactionManager :=
  if slot ≥ table.tdef.max_records then (.error .recordNotFound,table,tx)
  else if table.used slot = false then (.error .recordNotFound,table,tx)
  else
    let old := recordImage table.tdef.record_size (table.records slot)
    let logged := tx.log .delete table.tdef.id (UInt16.ofNat slot) now old []
    (.ok (),table.release slot,logged)

-- The search of a batch for the records it overwrites keeps two parallel
-- arrays, here one list of pairs. `smear` is its inner loop, which copies the
-- entry it starts from over what follows until a larger version stops it.
def smear (entry : Nat × UInt16) : List (Nat × UInt16) → List (Nat × UInt16)
  | [] => []
  | next :: rest => if next.2 > entry.2 then next :: rest else entry :: smear entry rest

def place (slot : Nat) (version : UInt16) : List (Nat × UInt16) → List (Nat × UInt16)
  | [] => []
  | entry :: rest =>
    if version < entry.2 then (slot,version) :: smear entry rest else entry :: place slot version rest

def oldestSlots (table : MemoryTable) (need : Nat) : List Nat :=
  ((List.range table.tdef.max_records).foldl (fun entries slot =>
    if table.used slot = true then place slot (table.status slot).version entries else entries)
    (List.replicate need (0,65535))).map (·.1)

def batchLimit : Nat := 256

-- How many records a batch wants to place.
def batchCount (table : MemoryTable) (count : Nat) : Nat :=
  let available := usizeSub table.maxRecords table.record_count
  if table.low_power_mode = true ∧ table.record_count ≥ table.maxRecords then count
  else if available < count then available else count

def popped (table : MemoryTable) (count : Nat) : List Nat := table.free_slots.reverse.take count

def withoutPopped (table : MemoryTable) (count : Nat) : MemoryTable :=
  {table with free_slots:=table.free_slots.take (table.free_slots.length-(table.popped count).length)}

-- The slots of a batch: free ones from the top of the stack, then, in low
-- power mode, the oldest records.
def batchSlots (table : MemoryTable) (actual : Nat) : List Nat :=
  let free := table.popped actual
  if free.length < actual ∧ table.low_power_mode = true then
    free ++ table.oldestSlots (actual-free.length)
  else free

-- What the loop of a batch does with its records, each logged and then stored.
def storeBatch (codecs : Codecs) (operation : LogOperation) (counted : Bool) (data : Nat → Bytes)
    (clock : Nat → UInt64 × Env) : List (Nat × Nat) → MemoryTable × TransactionManager →
      MemoryTable × TransactionManager
  | [],state => state
  | (slot,index) :: rest,(table,tx) =>
    let image := recordImage table.tdef.record_size (data index)
    let logged := tx.logDirect codecs operation table.tdef.id (UInt16.ofNat slot) (clock index).1
      (clock index).2 image
    storeBatch codecs operation counted data clock rest (table.store slot image counted,logged)

-- `batch_insert`. A null pointer is `none`; the outer `none` is the failed
-- assertion on the batch size, which stops the call before it changes anything.
def batchInsert (codecs : Codecs) (table : MemoryTable) (tx : TransactionManager)
    (clock : Nat → UInt64 × Env) (records : Option (Nat → Bytes)) (count : Nat) :
    Option (Except RemDbError Nat) × MemoryTable × TransactionManager :=
  match records with
  | none => (some (.error .unsupportedOperation),table,tx)
  | some data =>
    let actual := table.batchCount count
    if actual = 0 then (some (.error .outOfMemory),table,tx)
    else if actual > batchLimit then (none,table,tx)
    else
      let slots := table.batchSlots actual
      let stored := storeBatch codecs .insert true data clock slots.zipIdx (table.withoutPopped actual,tx)
      let added := if table.low_power_mode = true ∧ table.record_count ≥ table.maxRecords then 0
        else slots.length
      (some (.ok slots.length),{stored.1 with record_count:=stored.1.record_count+added},stored.2)

def timeSeriesBatchInsert (codecs : Codecs) (table : MemoryTable) (tx : TransactionManager)
    (clock : Nat → UInt64 × Env) (records : Option (Nat → Bytes)) (count : Nat) :
    Except RemDbError Nat × MemoryTable × TransactionManager :=
  match records with
  | none => (.error .unsupportedOperation,table,tx)
  | some data =>
    let available := usizeSub table.tdef.max_records table.record_count
    let actual := min (min count available) table.free_slots.length
    if actual = 0 then (.error .outOfMemory,table,tx)
    else
      let slots := table.popped actual
      let stored := storeBatch codecs .timeSeriesInsert false data clock slots.zipIdx
        (table.withoutPopped actual,tx)
      (.ok slots.length,{stored.1 with record_count:=stored.1.record_count+slots.length},stored.2)

end MemoryTable
end RemDb
