import RemDb.Lib.Actions
import RemDb.Memory.Allocator
import RemDb.Table.Ops
import RemDb.Index.Primary

namespace RemDb
open RemDb.Lib RemDb.Wal

inductive IndexType where
  | hash | sortedArray | bTree | tTree | vector | json
deriving DecidableEq,Repr

-- A table as the database holds it: with the part of its definition that the
-- table operations do not read, its snapshot version and its three allocations.
structure DbTable where
  table : MemoryTable
  secondary_index : Option (List Nat)
  secondary_index_type : IndexType
  snapshot_version : UInt32
  data_start : Nat
  status_array : Nat
  free_slots : Nat

def DbTable.tdef (entry : DbTable) : TableDef := entry.table.tdef

structure TimeSeriesTableDef where
  base : TableDef
  time_field : Nat
  value_field : Nat
  tag_fields : List Nat
deriving DecidableEq,Repr

structure DbConfig where
  low_power_mode_supported : Bool
  low_power_max_records : Option Nat
  default_max_records : Nat
deriving DecidableEq,Repr

-- Secondary indices are put in, taken out and dropped here and never looked
-- into, so their type stays open.
structure RemDbState (σ : Type) where
  config : DbConfig
  tables : List (Option DbTable)
  time_series_tables : List (Option TimeSeriesTableDef)
  primary_indices : List (Option PrimaryIndex)
  secondary_indices : List (Option σ)
  snapshot_version : UInt32
  allocator : Option StaticAllocator

-- `diverged` is an allocator loop that does not end within its pool.
inductive DdlFault where
  | diverged
  | error (failure : RemDbError)
deriving DecidableEq,Repr

abbrev DdlAction (σ : Type) := EStateM DdlFault (RemDbState σ)

def fail (failure : RemDbError) : DdlAction σ α := throw (.error failure)

def orFail (failure : RemDbError) : Option α → DdlAction σ α
  | some value => pure value
  | none => fail failure

-- `memory::allocator::alloc` and `free`, on an allocator that may not be set up.
def allocFrom (allocator : Option StaticAllocator) (size : Nat) :
    Option (Except RemDbError Nat × Option StaticAllocator) :=
  match allocator with
  | none => some (.error .outOfMemory,none)
  | some pool => (pool.allocate size).map fun granted => (granted.1,some granted.2)

def alloc (size : Nat) : DdlAction σ Nat := do
  let db ← get
  match allocFrom db.allocator size with
  | none => throw .diverged
  | some (.error failure,allocator) =>
    set {db with allocator:=allocator}
    fail failure
  | some (.ok data,allocator) =>
    set {db with allocator:=allocator}
    pure data

def freeTo (allocator : Option StaticAllocator) (ptr : Nat) : Option (Option StaticAllocator) :=
  match allocator with
  | none => some none
  | some pool => (pool.free ptr).map some

def free (ptr : Nat) : DdlAction σ Unit := do
  let db ← get
  match freeTo db.allocator ptr with
  | none => throw .diverged
  | some allocator => set {db with allocator:=allocator}

-- `values[place] = value` where there is such a place, `values.push(value)` else.
def putAt (values : List α) (place : Nat) (value : α) : List α :=
  if place < values.length then values.set place value else values ++ [value]

-- `size_of::<RecordHeader>()` and `size_of::<usize>()`.
def RecordHeader.SIZE : Nat := 32
def usizeBytes : Nat := 8

def TableDef.memorySizes (tdef : TableDef) : List Nat :=
  [tdef.record_size*tdef.max_records % usizeLimit,RecordHeader.SIZE*tdef.max_records % usizeLimit,
    usizeBytes*tdef.max_records % usizeLimit]

-- `MemoryTable::new` with its three allocations; `memory` is what the granted
-- memory holds. An allocation that fails leaves the ones before it allocated.
def makeTable (memory : Memory) (tdef : TableDef) (secondary_index : Option (List Nat))
    (secondary_index_type : IndexType) : DdlAction σ DbTable := do
  if tdef.max_records = 0 then fail .configError
  else
    let data_start ← alloc (tdef.record_size*tdef.max_records % usizeLimit)
    let status_array ← alloc (RecordHeader.SIZE*tdef.max_records % usizeLimit)
    let free_slots ← alloc (usizeBytes*tdef.max_records % usizeLimit)
    match MemoryTable.new tdef (some memory) with
    | .error failure => fail failure
    | .ok table =>
      pure
        { table := table
          secondary_index := secondary_index
          secondary_index_type := secondary_index_type
          snapshot_version := 0
          data_start := data_start
          status_array := status_array
          free_slots := free_slots }

namespace RemDbState

def table (db : RemDbState σ) (place : Nat) : Option DbTable := (db.tables[place]?).join
def primaryIndex (db : RemDbState σ) (place : Nat) : Option PrimaryIndex := (db.primary_indices[place]?).join
def timeSeriesTable (db : RemDbState σ) (place : Nat) : Option TimeSeriesTableDef :=
  (db.time_series_tables[place]?).join

def placeOf (db : RemDbState σ) (name : String) : Option Nat :=
  db.tables.findIdx? fun entry => entry.any fun entry => decide (entry.tdef.name = name)

def isNamed (db : RemDbState σ) (name : String) : Bool :=
  db.tables.any fun entry => entry.any fun entry => decide (entry.tdef.name = name)

-- The place a new table gets: the first that a dropped table left, or the end.
def freePlace (db : RemDbState σ) : Nat := (db.tables.findIdx? Option.isNone).getD db.tables.length

end RemDbState
end RemDb
