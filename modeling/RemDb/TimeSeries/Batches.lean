import RemDb.TimeSeries.Retention
import RemDb.Tx.Rollback

namespace RemDb
namespace TimeSeries
open RemDb.Lib RemDb.Wal

-- One time series table beside the other tables, and the manager of the one
-- transaction there is.
structure SeriesDatabase where
  tables : Database
  series : TimeSeriesTable
  manager : TransactionManager

def TimeSeriesPartition.append (partition : TimeSeriesPartition) (record : TimeSeriesRecord) : TimeSeriesPartition :=
  {partition with records:=partition.records ++ [record],record_count:=(partition.records ++ [record]).length}

namespace SeriesDatabase

-- One turn of the loop of `write_timeseries_batch`; `memory` gives the bytes of a
-- record as they lie in memory. `none` is a division by zero.
def writePoint (memory : TimeSeriesRecord → Bytes) (table_id : UInt8) (now : UInt64) (db : SeriesDatabase)
    (point : Nat × TimeSeriesRecord) : Option SeriesDatabase :=
  let (i,record) := point
  if db.series.partitions.partition_duration = 0 then none
  else some
    { tables := db.tables
      series :=
        { partitions := db.series.partitions.putIn record.timestamp (·.append record)
          time_index := fun time =>
            if time = record.timestamp then db.series.time_index time ++ [i] else db.series.time_index time }
      manager := db.manager.log .timeSeriesInsert table_id (UInt16.ofNat i) now [] (memory record) }

def writeTimeseriesBatch (memory : TimeSeriesRecord → Bytes) (table_id : UInt8) (now : UInt64) (db : SeriesDatabase)
    (data_points : List TimeSeriesRecord) : Option (Except RemDbError Nat × SeriesDatabase) :=
  if data_points = [] then some (.error .configError,db)
  else if db.manager.current_tx.isNone then some (.error .transactionError,db)
  else (((List.range data_points.length).zip data_points).foldlM (writePoint memory table_id now) db).map
    fun db => (.ok data_points.length,db)

-- One round of the loop of `rollback`: other operations are not rolled back.
def undo (item : VariableSizeLogItem) (db : SeriesDatabase) : SeriesDatabase :=
  match item.header.op_type with
  | .insert | .delete | .update => {db with tables:=db.tables.undo item}
  | _ => db

def rollback (db : SeriesDatabase) : Except RemDbError Unit × SeriesDatabase :=
  match db.manager.current_tx with
  | none => (.error .transactionError,db)
  | some tx => (.ok (),tx.log_items.foldr undo {db with manager:={db.manager with current_tx:=none}})

-- The batches of one transaction, each with the time at which it is written.
def writeAll (memory : TimeSeriesRecord → Bytes) (table_id : UInt8) (db : SeriesDatabase)
    (batches : List (UInt64 × List TimeSeriesRecord)) : Option SeriesDatabase :=
  batches.foldlM (fun db batch => (db.writeTimeseriesBatch memory table_id batch.1 batch.2).map (·.2)) db

-- After the rollback every query answers as it did when the transaction began.
def Restored (memory : TimeSeriesRecord → Bytes) (table_id : UInt8) (table : TimeSeriesTable)
    (batches : List (UInt64 × List TimeSeriesRecord)) : Prop :=
  ∀ tables manager type buffer hasLog room started,
    TransactionManager.start manager type (some buffer) hasLog room = (.ok (),started) →
      ∃ db, writeAll memory table_id ⟨tables,table,started⟩ batches = some db ∧ ∀ start_time end_time,
        db.rollback.2.series.queryTimeRange start_time end_time = table.queryTimeRange start_time end_time

end SeriesDatabase

namespace PartitionManager
variable {manager : PartitionManager}

def appendAll (manager : PartitionManager) (records : List TimeSeriesRecord) : PartitionManager :=
  records.foldl (fun manager record => manager.putIn record.timestamp (·.append record)) manager

-- All the records there are, in the order of the partitions.
def contents (manager : PartitionManager) : List TimeSeriesRecord := manager.partitions.flatMap (·.records)

theorem putIn_duration (manager : PartitionManager) (timestamp : UInt64) (add : TimeSeriesPartition → TimeSeriesPartition) :
    (manager.putIn timestamp add).partition_duration = manager.partition_duration := by
  rcases manager.putIn_cases timestamp with ⟨_,_,_,_,_,_,done⟩ | ⟨_,_,⟨_,done⟩ | ⟨_,_,done⟩ | ⟨_,_,_,_,done⟩⟩ <;> rw [done]

theorem appendAll_nothing (empty : manager.partitions = []) (closed : manager.max_partitions = 0)
    (records : List TimeSeriesRecord) : manager.appendAll records = manager := by
  induction records with
  | nil => rfl
  | cons record rest ih =>
    have same : manager.putIn record.timestamp (·.append record) = manager := by
      rcases manager.putIn_cases record.timestamp with ⟨_,_,_,split,_⟩ | ⟨_,_,⟨room,_⟩ | ⟨_,_,done⟩ | ⟨_,_,_,shape,_⟩⟩
      · rw [empty] at split
        simp at split
      · rw [closed] at room
        cases room
      · exact done _
      · rw [empty] at shape
        cases shape
    rw [appendAll,List.foldl_cons,same]
    exact ih

theorem putIn_contents (keeps : ¬ (manager.partitions = [] ∧ manager.max_partitions = 0)) (timestamp : UInt64) :
    ∃ front back, ∀ record, (manager.putIn timestamp (·.append record)).contents = front ++ record :: back := by
  rcases manager.putIn_cases timestamp with ⟨before,partition,after,_,_,_,done⟩ | ⟨_,_,⟨_,done⟩ | ⟨full,empty,_⟩ | ⟨_,_,rest,_,done⟩⟩
  · refine ⟨before.flatMap (·.records) ++ partition.records,after.flatMap (·.records),fun record => ?_⟩
    rw [done,contents,List.flatMap_append,List.flatMap_cons]
    simp [TimeSeriesPartition.append]
  · refine ⟨manager.contents,[],fun record => ?_⟩
    rw [done,contents,List.flatMap_append]
    rfl
  · rw [empty] at full
    exact absurd ⟨empty,Nat.le_zero.mp full⟩ keeps
  · refine ⟨rest.flatMap (·.records),[],fun record => ?_⟩
    rw [done,contents,List.flatMap_append]
    rfl

theorem putIn_counts (room : manager.partitions.length < manager.max_partitions) (record : TimeSeriesRecord) :
    (manager.putIn record.timestamp (·.append record)).contents.length = manager.contents.length+1 ∧
      (manager.putIn record.timestamp (·.append record)).partitions.length ≤ manager.partitions.length+1 ∧
        (manager.putIn record.timestamp (·.append record)).max_partitions = manager.max_partitions := by
  rcases manager.putIn_cases record.timestamp with ⟨before,partition,after,split,_,_,done⟩ | ⟨_,_,⟨_,done⟩ | ⟨full,_⟩ | ⟨full,_⟩⟩
  · rw [done,contents,contents,split]
    refine ⟨?_,?_,rfl⟩
    · simp only [List.flatMap_append,List.flatMap_cons,List.length_append,TimeSeriesPartition.append,List.length_singleton]
      omega
    · simp
  · rw [done,contents,contents]
    refine ⟨?_,?_,rfl⟩
    · simp [TimeSeriesPartition.append,fresh,TimeSeriesPartition.new]
    · simp
  · omega
  · omega

theorem appendAll_counts (records : List TimeSeriesRecord) {manager : PartitionManager}
    (room : manager.partitions.length+records.length ≤ manager.max_partitions) :
    (manager.appendAll records).contents.length = manager.contents.length+records.length := by
  induction records generalizing manager with
  | nil => rfl
  | cons record rest ih =>
    rw [List.length_cons] at room
    obtain ⟨more,few,max⟩ := putIn_counts (by omega : manager.partitions.length < manager.max_partitions) record
    have later := ih (by omega : (manager.putIn record.timestamp (·.append record)).partitions.length+rest.length ≤
      (manager.putIn record.timestamp (·.append record)).max_partitions)
    rw [appendAll,List.foldl_cons]
    rw [appendAll,more] at later
    rw [later,List.length_cons]
    omega

end PartitionManager

namespace TimeSeriesTable

theorem query_all (table : TimeSeriesTable) :
    table.queryTimeRange 0 18446744073709551615 = table.partitions.contents := by
  have every (time : UInt64) : time ≤ 18446744073709551615 := UInt64.le_iff_toNat_le.mpr (Nat.le_of_lt_succ time.toNat_lt)
  have positive (time : UInt64) : time ≥ 0 := UInt64.le_iff_toNat_le.mpr (Nat.zero_le _)
  have all : table.partitions.getPartitionsInRange 0 18446744073709551615 = table.partitions.partitions :=
    List.filter_eq_self.mpr fun partition _ => by rw [decide_eq_true (every _),decide_eq_true (positive _)]; rfl
  rw [queryTimeRange,all,PartitionManager.contents]
  refine congrArg List.flatten (List.map_congr_left fun partition _ => ?_)
  exact List.filter_eq_self.mpr fun record _ => by rw [decide_eq_true (every _),decide_eq_true (positive _)]; rfl

theorem query_congr {left right : TimeSeriesTable} (same : left.partitions = right.partitions) (start_time end_time : UInt64) :
    left.queryTimeRange start_time end_time = right.queryTimeRange start_time end_time := by
  rw [queryTimeRange,queryTimeRange,same]

end TimeSeriesTable

namespace SeriesDatabase
variable {memory : TimeSeriesRecord → Bytes} {table_id : UInt8} {table : TimeSeriesTable} {db : SeriesDatabase}

theorem undo_series (item : VariableSizeLogItem) (db : SeriesDatabase) : (undo item db).series = db.series := by
  rw [undo]
  split <;> rfl

theorem rollback_series (db : SeriesDatabase) : db.rollback.2.series = db.series := by
  have kept (items : List VariableSizeLogItem) (db : SeriesDatabase) : (items.foldr undo db).series = db.series := by
    induction items with
    | nil => rfl
    | cons item rest ih => exact (undo_series item _).trans ih
  rw [rollback]
  split
  · rfl
  · exact kept _ _

theorem writePoints (now : UInt64) (points : List (Nat × TimeSeriesRecord)) (db : SeriesDatabase)
    (positive : db.series.partitions.partition_duration ≠ 0) :
    ∃ db', points.foldlM (writePoint memory table_id now) db = some db' ∧
      db'.series.partitions = db.series.partitions.appendAll (points.map (·.2)) ∧
      db'.series.partitions.partition_duration = db.series.partitions.partition_duration ∧
      db'.manager.current_tx.isSome = db.manager.current_tx.isSome := by
  induction points generalizing db with
  | nil => exact ⟨db,rfl,rfl,rfl,rfl⟩
  | cons point rest ih =>
    obtain ⟨i,record⟩ := point
    have kept := db.series.partitions.putIn_duration record.timestamp (·.append record)
    obtain ⟨after,stepped,parts,active⟩ : ∃ after, writePoint memory table_id now db (i,record) = some after ∧
        after.series.partitions = db.series.partitions.putIn record.timestamp (·.append record) ∧
        after.manager.current_tx.isSome = db.manager.current_tx.isSome :=
      ⟨_,if_neg positive,rfl,Option.isSome_map⟩
    rw [← parts] at kept
    obtain ⟨db',run,written,duration,still⟩ := ih after (kept ▸ positive)
    refine ⟨db',?_,?_,duration.trans kept,still.trans active⟩
    · rw [List.foldlM_cons,stepped]
      exact run
    · rw [written,parts]
      rfl

theorem numbered_points (points : List TimeSeriesRecord) : ((List.range points.length).zip points).map (·.2) = points :=
  List.map_snd_zip (by rw [List.length_range])

theorem writeBatch (now : UInt64) (points : List TimeSeriesRecord) (active : db.manager.current_tx.isSome)
    (positive : db.series.partitions.partition_duration ≠ 0) :
    ∃ outcome db', db.writeTimeseriesBatch memory table_id now points = some (outcome,db') ∧
      db'.series.partitions = db.series.partitions.appendAll points ∧
      db'.series.partitions.partition_duration = db.series.partitions.partition_duration ∧ db'.manager.current_tx.isSome := by
  rw [writeTimeseriesBatch]
  by_cases empty : points = []
  · rw [if_pos empty,empty]
    exact ⟨_,_,rfl,rfl,rfl,active⟩
  have present : ¬ db.manager.current_tx.isNone = true := by
    rw [Option.isNone_iff_eq_none,← Option.not_isSome_iff_eq_none]
    exact not_not_intro active
  obtain ⟨db',run,written,duration,still⟩ := @writePoints memory table_id now ((List.range points.length).zip points) db positive
  rw [numbered_points] at written
  rw [if_neg empty,if_neg present,run]
  exact ⟨_,_,rfl,written,duration,still.trans active⟩

theorem writeAll_partitions (batches : List (UInt64 × List TimeSeriesRecord)) (db : SeriesDatabase)
    (active : db.manager.current_tx.isSome) (positive : db.series.partitions.partition_duration ≠ 0) :
    ∃ db', writeAll memory table_id db batches = some db' ∧
      db'.series.partitions = db.series.partitions.appendAll (batches.flatMap (·.2)) := by
  induction batches generalizing db with
  | nil => exact ⟨db,rfl,rfl⟩
  | cons batch rest ih =>
    obtain ⟨outcome,after,stepped,parts,kept,still⟩ := @writeBatch memory table_id db batch.1 batch.2 active positive
    obtain ⟨db',run,written⟩ := ih after still (kept ▸ positive)
    refine ⟨db',?_,?_⟩
    · rw [writeAll,List.foldlM_cons,stepped]
      exact run
    · rw [written,parts,List.flatMap_cons,PartitionManager.appendAll,PartitionManager.appendAll,
        PartitionManager.appendAll,List.foldl_append]

theorem start_active {manager started : TransactionManager} {type : TransactionType} {buffer : Nat} {hasLog : Bool} {room : Nat}
    (begun : TransactionManager.start manager type (some buffer) hasLog room = (.ok (),started)) : started.current_tx.isSome := by
  rw [TransactionManager.start] at begun
  split at begun
  · cases begun
  · cases begun
    rfl

theorem restored_iff (positive : table.partitions.partition_duration ≠ 0) (batches : List (UInt64 × List TimeSeriesRecord)) :
    Restored memory table_id table batches ↔ ∀ start_time end_time,
      (⟨table.partitions.appendAll (batches.flatMap (·.2)),table.time_index⟩ : TimeSeriesTable).queryTimeRange start_time end_time =
        table.queryTimeRange start_time end_time := by
  constructor
  · intro restored start_time end_time
    obtain ⟨db,run,same⟩ := restored ⟨[]⟩ ⟨none,0,none⟩ .readWrite 0 true 0 _ rfl
    obtain ⟨db',again,written⟩ := @writeAll_partitions memory table_id batches
      ⟨⟨[]⟩,table,(TransactionManager.start ⟨none,0,none⟩ .readWrite (some 0) true 0).2⟩ rfl positive
    cases Option.some.inj (run.symm.trans again)
    rw [← same start_time end_time]
    exact TimeSeriesTable.query_congr (by rw [rollback_series,written]) start_time end_time
  · intro same tables manager type buffer hasLog room started begun
    obtain ⟨db,run,written⟩ := @writeAll_partitions memory table_id batches ⟨tables,table,started⟩ (start_active begun) positive
    refine ⟨db,run,fun start_time end_time => ?_⟩
    rw [← same start_time end_time]
    exact TimeSeriesTable.query_congr (by rw [rollback_series,written]) start_time end_time

theorem restored_of_empty {batches : List (UInt64 × List TimeSeriesRecord)} (empty : ∀ batch ∈ batches, batch.2 = []) :
    Restored memory table_id table batches := by
  intro tables manager type buffer hasLog room started begun
  have run : ∀ db : SeriesDatabase, writeAll memory table_id db batches = some db := by
    intro db
    induction batches with
    | nil => rfl
    | cons batch rest ih =>
      have refused : db.writeTimeseriesBatch memory table_id batch.1 batch.2 = some (.error .configError,db) :=
        if_pos (empty batch List.mem_cons_self)
      rw [writeAll,List.foldlM_cons,refused]
      exact ih fun other among => empty other (List.mem_cons_of_mem _ among)
  refine ⟨_,run _,fun start_time end_time => ?_⟩
  exact TimeSeriesTable.query_congr (by rw [rollback_series]) start_time end_time

-- Without a duration the first record is a division by zero.
theorem writeAll_faults (batches : List (UInt64 × List TimeSeriesRecord)) (zero : db.series.partitions.partition_duration = 0)
    (active : db.manager.current_tx.isSome) (filled : ¬ ∀ batch ∈ batches, batch.2 = []) :
    writeAll memory table_id db batches = none := by
  induction batches with
  | nil => exact absurd (fun _ never => absurd never List.not_mem_nil) filled
  | cons batch rest ih =>
    rw [writeAll,List.foldlM_cons]
    by_cases empty : batch.2 = []
    · have refused : db.writeTimeseriesBatch memory table_id batch.1 batch.2 = some (.error .configError,db) := if_pos empty
      rw [refused]
      exact ih fun all => filled (List.forall_mem_cons.mpr ⟨empty,all⟩)
    · have present : ¬ db.manager.current_tx.isNone = true := by
        rw [Option.isNone_iff_eq_none,← Option.not_isSome_iff_eq_none]
        exact not_not_intro active
      obtain ⟨first,others,shape⟩ := List.exists_cons_of_ne_nil empty
      have faults : writePoint memory table_id batch.1 db (0,first) = none := if_pos zero
      have none_written : db.writeTimeseriesBatch memory table_id batch.1 batch.2 = none := by
        rw [writeTimeseriesBatch,if_neg empty,if_neg present,shape,List.length_cons,List.range_succ_eq_map,List.zip_cons_cons,
          List.foldlM_cons,faults]
        rfl
      rw [none_written]
      rfl

theorem positive_of_restored {batches : List (UInt64 × List TimeSeriesRecord)} (restored : Restored memory table_id table batches)
    (filled : ¬ ∀ batch ∈ batches, batch.2 = []) : table.partitions.partition_duration ≠ 0 := by
  intro zero
  obtain ⟨db,run,_⟩ := restored ⟨[]⟩ ⟨none,0,none⟩ .readWrite 0 true 0 _ rfl
  rw [writeAll_faults batches zero rfl filled] at run
  cases run

-- Two records of one time would both have to leave no trace.
theorem nothing_of_restored (restored : ∀ batches, Restored memory table_id table batches) :
    table.partitions.partitions = [] ∧ table.partitions.max_partitions = 0 := by
  by_contra keeps
  obtain ⟨front,back,stored⟩ := PartitionManager.putIn_contents keeps 0
  have contents (value : UInt64) : front ++ ⟨0,value,0,[]⟩ :: back = table.partitions.contents := by
    have once := restored [(0,[⟨0,value,0,[]⟩])]
    have positive := positive_of_restored once (by simp)
    have same := (restored_iff positive _).mp once 0 18446744073709551615
    rw [TimeSeriesTable.query_all,TimeSeriesTable.query_all] at same
    rw [← stored]
    exact same
  have equal := (contents 0).trans (contents 1).symm
  exact absurd (List.cons.inj (List.append_cancel_left equal)).1 (by decide)

-- A rollback takes no record back: it restores a table that keeps none, and else
-- one into which none was written, as long as no partition has been discarded.
theorem batches_restored_iff (memory : TimeSeriesRecord → Bytes) (table_id : UInt8) (table : TimeSeriesTable) :
    ((∀ batches, Restored memory table_id table batches) ↔ table.partitions.partition_duration ≠ 0 ∧
      table.partitions.partitions = [] ∧ table.partitions.max_partitions = 0) ∧
    ∀ batches, ((∀ batch ∈ batches, batch.2 = []) → Restored memory table_id table batches) ∧
      (table.partitions.partitions.length+(batches.flatMap (·.2)).length ≤ table.partitions.max_partitions →
        Restored memory table_id table batches → ∀ batch ∈ batches, batch.2 = []) := by
  refine ⟨⟨fun restored => ?_,fun ⟨positive,empty,closed⟩ batches => ?_⟩,fun batches => ⟨restored_of_empty,fun room restored => ?_⟩⟩
  · exact ⟨positive_of_restored (restored [(0,[⟨0,0,0,[]⟩])]) (by simp),nothing_of_restored restored⟩
  · rw [restored_iff positive,PartitionManager.appendAll_nothing empty closed]
    exact fun _ _ => rfl
  · by_contra filled
    have positive := positive_of_restored restored filled
    have same := (restored_iff positive batches).mp restored 0 18446744073709551615
    rw [TimeSeriesTable.query_all,TimeSeriesTable.query_all] at same
    have counted := PartitionManager.appendAll_counts _ room
    rw [same] at counted
    have none_written : batches.flatMap (·.2) = [] := List.eq_nil_of_length_eq_zero (by omega)
    exact filled (List.flatMap_eq_nil_iff.mp none_written)

-- One record of an ordinary table is still there.
theorem record_stays : ¬ Restored (fun _ => []) 0 (.new 3600 1000) [(0,[⟨7200,0,0,[]⟩])] := by
  intro restored
  have same := (restored_iff (by decide) _).mp restored 0 18446744073709551615
  rw [TimeSeriesTable.query_all,TimeSeriesTable.query_all] at same
  exact absurd same (by decide)

end SeriesDatabase
end TimeSeries
end RemDb
