import RemDb.Lib.FreeList
import RemDb.Types

namespace RemDb
namespace TimeSeries
open RemDb.Lib

-- The value is the bits of a double; `tags` has eight entries.
structure TimeSeriesRecord where
  timestamp : UInt64
  value : UInt64
  tag_count : UInt8
  tags : List UInt64
deriving DecidableEq,Repr

-- The same record with an exact number for its value.
structure ExactRecord where
  timestamp : UInt64
  value : Rat
  tag_count : UInt8
  tags : List UInt64
deriving DecidableEq,Repr

structure TimeSeriesPartition where
  start_time : UInt64
  end_time : UInt64
  records : List TimeSeriesRecord
  record_count : Nat
deriving DecidableEq,Repr

namespace TimeSeriesPartition

def new (start_time end_time : UInt64) : TimeSeriesPartition := ⟨start_time,end_time,[],0⟩

def push (partition : TimeSeriesPartition) (record : TimeSeriesRecord) : TimeSeriesPartition :=
  {partition with records:=partition.records ++ [record],record_count:=partition.record_count+1}

end TimeSeriesPartition

structure PartitionManager where
  partitions : List TimeSeriesPartition
  partition_duration : UInt64
  max_partitions : Nat
deriving DecidableEq,Repr

namespace PartitionManager

def new (partition_duration : UInt64) (max_partitions : Nat) : PartitionManager := ⟨[],partition_duration,max_partitions⟩

def startTime (manager : PartitionManager) (timestamp : UInt64) : UInt64 :=
  timestamp/manager.partition_duration*manager.partition_duration

-- The release build does not check the addition of the end.
def fresh (manager : PartitionManager) (timestamp : UInt64) : TimeSeriesPartition :=
  .new (manager.startTime timestamp) (manager.startTime timestamp+manager.partition_duration)

def find (manager : PartitionManager) (timestamp : UInt64) : Option Nat :=
  manager.partitions.findIdx? fun partition => decide (partition.start_time = manager.startTime timestamp)

-- `get_or_create_partition`, with the place of the partition in the list. There
-- is none when the list has no room at all: then the new partition is the first
-- one and is taken out again.
def getOrCreatePartition (manager : PartitionManager) (timestamp : UInt64) : PartitionManager × Option Nat :=
  match manager.find timestamp with
  | some place => (manager,some place)
  | none =>
    let pushed := manager.partitions ++ [manager.fresh timestamp]
    if pushed.length > manager.max_partitions then
      let kept := pushed.drop 1
      ({manager with partitions:=kept},if kept = [] then none else some (kept.length-1))
    else ({manager with partitions:=pushed},some (pushed.length-1))

def getPartitionsInRange (manager : PartitionManager) (start_time end_time : UInt64) : List TimeSeriesPartition :=
  manager.partitions.filter fun partition =>
    decide (partition.start_time ≤ end_time) && decide (partition.end_time ≥ start_time)

-- The partition of a time is found or made, and something is done to it.
def putIn (manager : PartitionManager) (timestamp : UInt64) (add : TimeSeriesPartition → TimeSeriesPartition) :
    PartitionManager :=
  match manager.getOrCreatePartition timestamp with
  | (got,some place) => {got with partitions:=got.partitions.modify place add}
  | (got,none) => got

-- What one turn of the loop of `batch_write` does to the partitions.
def write (manager : PartitionManager) (record : TimeSeriesRecord) : PartitionManager :=
  match manager.getOrCreatePartition record.timestamp with
  | (got,some place) => {got with partitions:=got.partitions.modify place (·.push record)}
  | (got,none) => got

def writeAll (manager : PartitionManager) (records : List TimeSeriesRecord) : PartitionManager :=
  records.foldl write manager

end PartitionManager

structure TimeSeriesTable where
  partitions : PartitionManager
  time_index : UInt64 → List Nat

namespace TimeSeriesTable

def new (partition_duration : UInt64) (max_partitions : Nat) : TimeSeriesTable :=
  ⟨.new partition_duration max_partitions,fun _ => []⟩

def writeRecord (table : TimeSeriesTable) (record : TimeSeriesRecord) (inserted : Nat) : TimeSeriesTable :=
  { partitions := table.partitions.write record
    time_index := fun time =>
      if time = record.timestamp then table.time_index time ++ [inserted] else table.time_index time }

-- `batch_write`. A null pointer is `none`.
def batchWrite (table : TimeSeriesTable) (records : Option (Nat → TimeSeriesRecord)) (count : Nat) :
    Except RemDbError Nat × TimeSeriesTable :=
  match records with
  | none => (.error .configError,table)
  | some data =>
    if count = 0 then (.error .configError,table)
    else (.ok count,(List.range count).foldl (fun table index => table.writeRecord (data index) index) table)

def queryTimeRange (table : TimeSeriesTable) (start_time end_time : UInt64) : List TimeSeriesRecord :=
  (table.partitions.getPartitionsInRange start_time end_time).flatMap fun partition =>
    partition.records.filter fun record =>
      decide (record.timestamp ≥ start_time) && decide (record.timestamp ≤ end_time)

def run (table : TimeSeriesTable) (batches : List (Option (Nat → TimeSeriesRecord) × Nat)) : TimeSeriesTable :=
  batches.foldl (fun table batch => (table.batchWrite batch.1 batch.2).2) table

end TimeSeriesTable

-- The records of a batch in the order in which they are written.
def batchRecords (batch : Option (Nat → TimeSeriesRecord) × Nat) : List TimeSeriesRecord :=
  match batch.1 with
  | none => []
  | some data => (List.range batch.2).map data

namespace TimeSeriesTable

theorem writeRecords_partitions (data : Nat → TimeSeriesRecord) (indices : List Nat) (table : TimeSeriesTable) :
    (indices.foldl (fun table index => table.writeRecord (data index) index) table).partitions =
      table.partitions.writeAll (indices.map data) := by
  induction indices generalizing table with
  | nil => rfl
  | cons index rest ih => exact ih (table.writeRecord (data index) index)

theorem batchWrite_partitions (table : TimeSeriesTable) (batch : Option (Nat → TimeSeriesRecord) × Nat) :
    (table.batchWrite batch.1 batch.2).2.partitions = table.partitions.writeAll (batchRecords batch) := by
  obtain ⟨records,count⟩ := batch
  cases records with
  | none => rfl
  | some data =>
    unfold batchWrite
    dsimp only
    split
    · rename_i empty
      rw [empty]
      rfl
    · exact writeRecords_partitions data (List.range count) table

theorem run_partitions (batches : List (Option (Nat → TimeSeriesRecord) × Nat)) (table : TimeSeriesTable) :
    (table.run batches).partitions = table.partitions.writeAll (batches.flatMap batchRecords) := by
  induction batches generalizing table with
  | nil => rfl
  | cons batch rest ih =>
    rw [List.flatMap_cons,PartitionManager.writeAll,List.foldl_append]
    refine (ih (table.batchWrite batch.1 batch.2).2).trans ?_
    rw [batchWrite_partitions]
    rfl

end TimeSeriesTable
end TimeSeries
end RemDb
