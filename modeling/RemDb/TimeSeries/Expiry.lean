import RemDb.TimeSeries.Batches
import RemDb.TimeSeries.Compression

namespace RemDb
namespace TimeSeries
open RemDb.Lib

namespace PartitionManager

def cleanupExpiredPartitions (build : Build) (manager : PartitionManager) (current_time retention_period : UInt64) :
    Option PartitionManager :=
  (build.sub current_time retention_period).map fun expire_time =>
    {manager with partitions:=manager.partitions.filter fun partition => decide (partition.end_time > expire_time)}

-- The managers there can be: records come in, one by one or in batches, and old
-- partitions go.
inductive Reachable (partition_duration : UInt64) (max_partitions : Nat) : PartitionManager → Prop
  | new : Reachable partition_duration max_partitions (.new partition_duration max_partitions)
  | pushed {manager : PartitionManager} (divides : partition_duration ≠ 0) (record : TimeSeriesRecord)
      (before : Reachable partition_duration max_partitions manager) :
      Reachable partition_duration max_partitions (manager.write record)
  | appended {manager : PartitionManager} (divides : partition_duration ≠ 0) (record : TimeSeriesRecord)
      (before : Reachable partition_duration max_partitions manager) :
      Reachable partition_duration max_partitions (manager.putIn record.timestamp (·.append record))
  | cleaned {manager after : PartitionManager} {build : Build} {current_time retention_period : UInt64}
      (before : Reachable partition_duration max_partitions manager)
      (done : manager.cleanupExpiredPartitions build current_time retention_period = some after) :
      Reachable partition_duration max_partitions after

-- Every time that belongs to the partition is older than the instant.
def Expired (manager : PartitionManager) (instant : Int) (partition : TimeSeriesPartition) : Prop :=
  ∀ timestamp : UInt64, manager.startTime timestamp = partition.start_time → (timestamp.toNat : Int) < instant

-- The expired partitions go, and the others stay as they are.
def CleansExactly (build : Build) (manager : PartitionManager) (current_time retention_period : UInt64) : Prop :=
  ∃ keep : TimeSeriesPartition → Bool,
    (∀ partition ∈ manager.partitions, keep partition = true ↔
      ¬ manager.Expired ((current_time.toNat : Int)-retention_period.toNat) partition) ∧
    manager.cleanupExpiredPartitions build current_time retention_period =
      some {manager with partitions:=manager.partitions.filter keep}

-- What every partition of a reachable manager was made with.
structure Built (partition_duration : UInt64) (manager : PartitionManager) : Prop where
  duration : manager.partition_duration = partition_duration
  made : ∀ partition ∈ manager.partitions, partition_duration ≠ 0 ∧ ∃ timestamp,
    partition.start_time = manager.startTime timestamp ∧ partition.end_time = partition.start_time+partition_duration

section Building
variable {partition_duration : UInt64} {max_partitions : Nat} {manager : PartitionManager}

theorem putIn_built (divides : partition_duration ≠ 0) (built : Built partition_duration manager) (timestamp : UInt64)
    {add : TimeSeriesPartition → TimeSeriesPartition}
    (keeps : ∀ partition, (add partition).start_time = partition.start_time ∧ (add partition).end_time = partition.end_time) :
    Built partition_duration (manager.putIn timestamp add) := by
  obtain ⟨rfl,made⟩ := built
  have duration := manager.putIn_duration timestamp add
  have times (other : UInt64) : (manager.putIn timestamp add).startTime other = manager.startTime other := by
    rw [startTime,startTime,duration]
  have added {partition : TimeSeriesPartition} (start : ∃ timestamp, partition.start_time = manager.startTime timestamp ∧
      partition.end_time = partition.start_time+manager.partition_duration) :
      manager.partition_duration ≠ 0 ∧ ∃ timestamp, (add partition).start_time = manager.startTime timestamp ∧
        (add partition).end_time = (add partition).start_time+manager.partition_duration := by
    rw [(keeps partition).1,(keeps partition).2]
    exact ⟨divides,start⟩
  refine ⟨duration,fun partition among => ?_⟩
  simp only [times]
  have opened : ∃ other, (manager.fresh timestamp).start_time = manager.startTime other ∧
      (manager.fresh timestamp).end_time = (manager.fresh timestamp).start_time+manager.partition_duration :=
    ⟨timestamp,rfl,rfl⟩
  rcases manager.putIn_cases timestamp with ⟨before,old,after,split,_,_,done⟩ | ⟨_,_,⟨_,done⟩ | ⟨_,_,done⟩ | ⟨_,first,rest,shape,done⟩⟩
  · rw [done] at among
    rcases List.mem_append.mp among with earlier | later
    · exact made partition (split ▸ List.mem_append_left _ earlier)
    rcases List.mem_cons.mp later with rfl | behind
    · exact added (made old (split ▸ List.mem_append_right _ List.mem_cons_self)).2
    · exact made partition (split ▸ List.mem_append_right _ (List.mem_cons_of_mem _ behind))
  · rw [done] at among
    rcases List.mem_append.mp among with old | is_new
    · exact made partition old
    · rw [List.mem_singleton.mp is_new]
      exact added opened
  · rw [done] at among
    exact made partition among
  · rw [done] at among
    rcases List.mem_append.mp among with old | is_new
    · exact made partition (shape ▸ List.mem_cons_of_mem _ old)
    · rw [List.mem_singleton.mp is_new]
      exact added opened

theorem built_of_reachable (reachable : Reachable partition_duration max_partitions manager) :
    Built partition_duration manager := by
  induction reachable with
  | new => exact ⟨rfl,fun _ never => absurd never List.not_mem_nil⟩
  | pushed divides record _ ih => exact putIn_built divides ih record.timestamp fun _ => ⟨rfl,rfl⟩
  | appended divides record _ ih => exact putIn_built divides ih record.timestamp fun _ => ⟨rfl,rfl⟩
  | cleaned _ done ih =>
    obtain ⟨expire_time,_,rfl⟩ := Option.map_eq_some_iff.mp done
    exact ⟨ih.duration,fun partition among => ih.made partition (List.mem_filter.mp among).1⟩

end Building

section Expiring
variable {partition_duration : UInt64} {max_partitions : Nat} {manager : PartitionManager} {partition : TimeSeriesPartition}

theorem expired_iff (built : Built partition_duration manager) (among : partition ∈ manager.partitions) (instant : Int) :
    manager.Expired instant partition ↔
      ((min (partition.start_time.toNat+partition_duration.toNat) (2^64) : Nat) : Int) ≤ instant := by
  obtain ⟨rfl,made⟩ := built
  obtain ⟨divides,timestamp,start,_⟩ := made partition among
  have positive : 0 < manager.partition_duration.toNat := Nat.pos_of_ne_zero fun zero => divides (UInt64.toNat_inj.mp zero)
  have aligned : manager.partition_duration.toNat ∣ partition.start_time.toNat := by
    rw [start,startTime_toNat]
    exact Nat.dvd_mul_left _ _
  have low := partition.start_time.toNat_lt
  constructor
  · intro expired
    have inside : min (partition.start_time.toNat+manager.partition_duration.toNat) (2^64)-1 < 2^64 := by omega
    have last := expired (UInt64.ofNat (min (partition.start_time.toNat+manager.partition_duration.toNat) (2^64)-1)) (by
      rw [← UInt64.toNat_inj,startTime_toNat,UInt64.toNat_ofNat_of_lt' inside]
      obtain ⟨count,shape⟩ := aligned
      rw [Nat.mul_comm] at shape
      have slot : (min (partition.start_time.toNat+manager.partition_duration.toNat) (2^64)-1) /
          manager.partition_duration.toNat = count :=
        Nat.div_eq_of_lt_le (by omega) (by rw [Nat.succ_mul]; omega)
      rw [slot,shape])
    rw [UInt64.toNat_ofNat_of_lt' inside] at last
    omega
  · intro passed other same
    have below := lt_end positive other
    have whole := other.toNat_lt
    rw [same] at below
    omega

-- Cleaning is exact when no instant is before the beginning of time, and no
-- partition that reaches to the end of time has an end before the instant.
theorem cleanup_exact_iff (reachable : Reachable partition_duration max_partitions manager) (current_time retention_period : UInt64) :
    (∀ build, CleansExactly build manager current_time retention_period) ↔ retention_period ≤ current_time ∧
      ∀ partition ∈ manager.partitions, 2^64 ≤ partition.start_time.toNat+partition_duration.toNat →
        current_time.toNat-retention_period.toNat < partition.start_time.toNat+partition_duration.toNat-2^64 := by
  have built := built_of_reachable reachable
  have ends (partition : TimeSeriesPartition) (among : partition ∈ manager.partitions) :
      partition.end_time.toNat = (partition.start_time.toNat+partition_duration.toNat) % 2^64 := by
    obtain ⟨_,_,_,is⟩ := built.made partition among
    rw [is,UInt64.toNat_add]
  constructor
  · intro exact
    obtain ⟨keep,keeps,done⟩ := exact .checked
    have below : retention_period ≤ current_time := by
      by_contra above
      rw [cleanupExpiredPartitions,Build.sub_faults above] at done
      cases done
    refine ⟨below,fun partition among overflows => ?_⟩
    rw [cleanupExpiredPartitions,Build.sub_checked below] at done
    have same := congrArg PartitionManager.partitions (Option.some.inj done)
    have whole := current_time.toNat_lt
    have kept : keep partition = true := by
      rw [keeps partition among,expired_iff built among]
      omega
    have stays : partition ∈ manager.partitions.filter fun partition => decide (partition.end_time > current_time-retention_period) := by
      rw [show manager.partitions.filter (fun partition => decide (partition.end_time > current_time-retention_period)) = _ from same]
      exact List.mem_filter.mpr ⟨among,kept⟩
    have later := UInt64.lt_iff_toNat_lt.mp (of_decide_eq_true (List.mem_filter.mp stays).2)
    rw [UInt64.toNat_sub_of_le _ _ below,ends partition among] at later
    have start := partition.start_time.toNat_lt
    have wide := partition_duration.toNat_lt
    omega
  · rintro ⟨below,wraps⟩ build
    have done : build.sub current_time retention_period = some (current_time-retention_period) := by
      cases build with
      | checked => exact Build.sub_checked below
      | release => exact Build.sub_release _ _
    refine ⟨fun partition => decide (partition.end_time > current_time-retention_period),fun partition among => ?_,
      by rw [cleanupExpiredPartitions,done]; rfl⟩
    rw [decide_eq_true_iff,gt_iff_lt,UInt64.lt_iff_toNat_lt,UInt64.toNat_sub_of_le _ _ below,ends partition among,
      expired_iff built among]
    have later := UInt64.le_iff_toNat_le.mp below
    have whole := current_time.toNat_lt
    have start := partition.start_time.toNat_lt
    have wide := partition_duration.toNat_lt
    have wraps := wraps partition among
    omega

end Expiring

-- An hour of the first day, in a manager of hours.
def firstDay : PartitionManager := (new 3600 24).write (TimeSeriesTable.atTime 7300)

theorem firstDay_reachable : Reachable 3600 24 firstDay := .pushed (by decide) (TimeSeriesTable.atTime 7300) .new

theorem cleanup_exact_iff_firstDay : Reachable 3600 24 firstDay ∧ CleansExactly .checked firstDay 20000 9200 ∧
    firstDay.cleanupExpiredPartitions .checked 20000 9200 = some {firstDay with partitions:=[]} :=
  ⟨firstDay_reachable,
    (cleanup_exact_iff firstDay_reachable 20000 9200).mpr ⟨by decide,fun partition among overflows => by
      have only := List.mem_singleton.mp among
      rw [only] at overflows
      exact absurd overflows (by decide)⟩ .checked,by decide⟩

-- With a week of retention nothing is old on the first day: the checked build faults
-- there, and the release build throws the record away.
theorem firstDay_cleaned : ¬ CleansExactly .checked firstDay 86400 604800 ∧ ¬ CleansExactly .release firstDay 86400 604800 := by
  constructor
  · rintro ⟨_,_,done⟩
    rw [show firstDay.cleanupExpiredPartitions .checked 86400 604800 = none by decide] at done
    cases done
  · rintro ⟨keep,keeps,done⟩
    rw [show firstDay.cleanupExpiredPartitions .release 86400 604800 = some {firstDay with partitions:=[]} by decide] at done
    have gone : [] = firstDay.partitions.filter keep := congrArg PartitionManager.partitions (Option.some.inj done)
    have kept : keep ⟨7200,10800,[TimeSeriesTable.atTime 7300],1⟩ = true :=
      (keeps _ (by decide)).mpr fun expired => absurd (expired 7300 (by decide)) (by decide)
    rw [show firstDay.partitions = [⟨7200,10800,[TimeSeriesTable.atTime 7300],1⟩] by decide,List.filter_cons_of_pos kept] at gone
    cases gone

end PartitionManager
end TimeSeries
end RemDb
