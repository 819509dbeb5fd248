import RemDb.TimeSeries.Partition

namespace RemDb
namespace TimeSeries
open RemDb.Lib

namespace PartitionManager

def starts (manager : PartitionManager) : List UInt64 := manager.partitions.map (·.start_time)

-- The partition a record goes to.
def partitionFor (manager : PartitionManager) (timestamp : UInt64) : TimeSeriesPartition :=
  (manager.partitions.find? fun partition => decide (partition.start_time = manager.startTime timestamp)).getD
    (manager.fresh timestamp)

structure Sound (manager : PartitionManager) : Prop where
  distinct : manager.starts.Nodup
  aligned : ∀ partition ∈ manager.partitions, manager.partition_duration.toNat ∣ partition.start_time.toNat
  ends : ∀ partition ∈ manager.partitions,
    partition.end_time.toNat = partition.start_time.toNat+manager.partition_duration.toNat
  within : ∀ partition ∈ manager.partitions, ∀ record ∈ partition.records,
    partition.start_time ≤ record.timestamp ∧ record.timestamp < partition.end_time
  few : manager.partitions.length ≤ manager.max_partitions

-- One record comes into the partition of its time, whose end does not overflow;
-- what stays keeps its records, and what is discarded starts before the rest.
structure Written (manager : PartitionManager) (record : TimeSeriesRecord) : Prop where
  lands : (manager.partitionFor record.timestamp).start_time ≤ record.timestamp ∧
    record.timestamp < (manager.partitionFor record.timestamp).end_time
  exact : (manager.partitionFor record.timestamp).end_time.toNat =
    (manager.partitionFor record.timestamp).start_time.toNat+manager.partition_duration.toNat
  stored : ∀ partition ∈ (manager.write record).partitions, partition.start_time = manager.startTime record.timestamp →
    partition.records = (manager.partitionFor record.timestamp).records ++ [record]
  kept : ∀ partition ∈ (manager.write record).partitions, partition.start_time ≠ manager.startTime record.timestamp →
    partition ∈ manager.partitions
  retains : ∀ start ∈ manager.startTime record.timestamp :: manager.starts, start ∉ (manager.write record).starts →
    ∀ other ∈ manager.startTime record.timestamp :: manager.starts, start ≤ other

-- The end of the partition can be counted, and where one has to go the first one
-- in the list has the smallest start.
structure Fits (manager : PartitionManager) (record : TimeSeriesRecord) : Prop where
  room : (manager.startTime record.timestamp).toNat+manager.partition_duration.toNat < 2^64
  oldest : manager.startTime record.timestamp ∉ manager.starts → manager.max_partitions ≤ manager.partitions.length →
    ∀ first ∈ manager.starts.head?, ∀ other ∈ manager.startTime record.timestamp :: manager.starts, first ≤ other

section Step
variable {manager : PartitionManager} {record : TimeSeriesRecord}

theorem find_cases (manager : PartitionManager) (timestamp : UInt64) :
    (∃ before partition after, manager.partitions = before ++ partition :: after ∧
      partition.start_time = manager.startTime timestamp ∧ manager.find timestamp = some before.length ∧
      manager.partitionFor timestamp = partition) ∨
    (manager.startTime timestamp ∉ manager.starts ∧ manager.find timestamp = none ∧
      manager.partitionFor timestamp = manager.fresh timestamp) := by
  by_cases present : manager.startTime timestamp ∈ manager.starts
  · left
    obtain ⟨partition,among,same⟩ := List.mem_map.mp present
    have found : (manager.partitions.find? fun partition =>
        decide (partition.start_time = manager.startTime timestamp)).isSome := by
      rw [List.find?_isSome]
      exact ⟨partition,among,decide_eq_true same⟩
    obtain ⟨first,is_first⟩ := Option.isSome_iff_exists.mp found
    obtain ⟨matches_start,before,after,split,earlier⟩ := List.find?_eq_some_iff_append.mp is_first
    refine ⟨before,first,after,split,of_decide_eq_true matches_start,?_,?_⟩
    · rw [find,split,List.findIdx?_append]
      have none_before : before.findIdx? (fun partition =>
          decide (partition.start_time = manager.startTime timestamp)) = none := by
        rw [List.findIdx?_eq_none_iff]
        intro other member
        simpa using earlier other member
      rw [none_before,List.findIdx?_cons,matches_start]
      simp
    · rw [partitionFor,is_first]
      rfl
  · right
    have absent : ∀ partition ∈ manager.partitions,
        ¬ (decide (partition.start_time = manager.startTime timestamp) = true) := by
      intro partition among same
      exact present (List.mem_map.mpr ⟨partition,among,of_decide_eq_true same⟩)
    refine ⟨present,?_,?_⟩
    · rw [find,List.findIdx?_eq_none_iff]
      intro partition among
      simpa using absent partition among
    · rw [partitionFor,List.find?_eq_none.mpr absent]
      rfl

theorem modify_middle {α : Type} (f : α → α) (before : List α) (item : α) (after : List α) :
    (before ++ item :: after).modify before.length f = before ++ f item :: after := by
  induction before with
  | nil => rfl
  | cons first rest ih => exact congrArg (first :: ·) ih

theorem putIn_cases (manager : PartitionManager) (timestamp : UInt64) :
    (∃ before partition after, manager.partitions = before ++ partition :: after ∧
      partition.start_time = manager.startTime timestamp ∧ manager.partitionFor timestamp = partition ∧
      ∀ add, manager.putIn timestamp add = {manager with partitions:=before ++ add partition :: after}) ∨
    (manager.startTime timestamp ∉ manager.starts ∧ manager.partitionFor timestamp = manager.fresh timestamp ∧
      ((manager.partitions.length < manager.max_partitions ∧ ∀ add, manager.putIn timestamp add =
          {manager with partitions:=manager.partitions ++ [add (manager.fresh timestamp)]}) ∨
        (manager.max_partitions ≤ manager.partitions.length ∧ manager.partitions = [] ∧
          ∀ add, manager.putIn timestamp add = manager) ∨
        (manager.max_partitions ≤ manager.partitions.length ∧ ∃ first rest, manager.partitions = first :: rest ∧
          ∀ add, manager.putIn timestamp add = {manager with partitions:=rest ++ [add (manager.fresh timestamp)]}))) := by
  rcases manager.find_cases timestamp with ⟨before,partition,after,split,same,found,goes⟩ | ⟨absent,missing,goes⟩
  · refine .inl ⟨before,partition,after,split,same,goes,fun add => ?_⟩
    simp only [putIn,getOrCreatePartition,found,split]
    rw [modify_middle]
  · refine .inr ⟨absent,goes,?_⟩
    have long : (manager.partitions ++ [manager.fresh timestamp]).length = manager.partitions.length+1 := by simp
    by_cases full : manager.max_partitions ≤ manager.partitions.length
    · right
      cases shape : manager.partitions with
      | nil =>
        refine .inl ⟨shape ▸ full,rfl,fun add => ?_⟩
        simp only [putIn,getOrCreatePartition,missing,long]
        rw [if_pos (by omega),shape]
        exact congrArg (PartitionManager.mk · manager.partition_duration manager.max_partitions) shape.symm
      | cons first rest =>
        refine .inr ⟨shape ▸ full,first,rest,rfl,fun add => ?_⟩
        simp only [putIn,getOrCreatePartition,missing,long]
        rw [if_pos (by omega),shape]
        simp [modify_middle]
    · refine .inl ⟨by omega,fun add => ?_⟩
      simp only [putIn,getOrCreatePartition,missing,long]
      rw [if_neg (by omega)]
      simp [modify_middle]

theorem write_cases (manager : PartitionManager) (record : TimeSeriesRecord) :
    (∃ before partition after, manager.partitions = before ++ partition :: after ∧
      partition.start_time = manager.startTime record.timestamp ∧ manager.partitionFor record.timestamp = partition ∧
      manager.write record = {manager with partitions:=before ++ partition.push record :: after}) ∨
    (manager.startTime record.timestamp ∉ manager.starts ∧
      manager.partitionFor record.timestamp = manager.fresh record.timestamp ∧
      ((manager.partitions.length < manager.max_partitions ∧ manager.write record =
          {manager with partitions:=manager.partitions ++ [(manager.fresh record.timestamp).push record]}) ∨
        (manager.max_partitions ≤ manager.partitions.length ∧ manager.partitions = [] ∧ manager.write record = manager) ∨
        (manager.max_partitions ≤ manager.partitions.length ∧ ∃ first rest, manager.partitions = first :: rest ∧
          manager.write record =
            {manager with partitions:=rest ++ [(manager.fresh record.timestamp).push record]}))) := by
  rcases manager.putIn_cases record.timestamp with ⟨before,partition,after,split,same,goes,done⟩ | ⟨absent,goes,cases⟩
  · exact .inl ⟨before,partition,after,split,same,goes,done _⟩
  refine .inr ⟨absent,goes,?_⟩
  rcases cases with ⟨room,done⟩ | ⟨full,empty,done⟩ | ⟨full,first,rest,shape,done⟩
  · exact .inl ⟨room,done _⟩
  · exact .inr (.inl ⟨full,empty,done _⟩)
  · exact .inr (.inr ⟨full,first,rest,shape,done _⟩)

theorem startTime_toNat (manager : PartitionManager) (timestamp : UInt64) : (manager.startTime timestamp).toNat =
    timestamp.toNat/manager.partition_duration.toNat*manager.partition_duration.toNat := by
  have small : timestamp.toNat/manager.partition_duration.toNat*manager.partition_duration.toNat < 2^64 :=
    Nat.lt_of_le_of_lt (Nat.div_mul_le_self _ _) timestamp.toNat_lt
  rw [startTime,UInt64.toNat_mul,UInt64.toNat_div,Nat.mod_eq_of_lt small]

theorem startTime_le (manager : PartitionManager) (timestamp : UInt64) : manager.startTime timestamp ≤ timestamp := by
  rw [UInt64.le_iff_toNat_le,startTime_toNat]
  exact Nat.div_mul_le_self _ _

theorem lt_end (positive : 0 < manager.partition_duration.toNat) (timestamp : UInt64) :
    timestamp.toNat < (manager.startTime timestamp).toNat+manager.partition_duration.toNat := by
  have divided := Nat.div_add_mod timestamp.toNat manager.partition_duration.toNat
  have small := Nat.mod_lt timestamp.toNat positive
  rw [startTime_toNat,Nat.mul_comm]
  omega

theorem fresh_end (room : (manager.startTime record.timestamp).toNat+manager.partition_duration.toNat < 2^64) :
    (manager.fresh record.timestamp).end_time.toNat =
      (manager.fresh record.timestamp).start_time.toNat+manager.partition_duration.toNat := by
  change (manager.startTime record.timestamp+manager.partition_duration).toNat = _
  rw [UInt64.toNat_add,Nat.mod_eq_of_lt room]
  rfl

theorem sound_new (duration : UInt64) (max_partitions : Nat) : (new duration max_partitions).Sound :=
  ⟨List.nodup_nil,nofun,nofun,nofun,Nat.zero_le _⟩

theorem fits_of_written (sound : manager.Sound) (written : manager.Written record) : manager.Fits record := by
  have limit := (manager.partitionFor record.timestamp).end_time.toNat_lt
  have exact := written.exact
  rcases manager.write_cases record with ⟨before,partition,after,split,same,goes,_⟩ | ⟨absent,goes,others⟩
  · rw [goes] at exact limit
    rw [same] at exact
    refine ⟨by omega,fun absent => absurd ?_ absent⟩
    rw [starts,split,← same]
    exact List.mem_map_of_mem List.mem_append_cons_self
  · rw [goes] at exact limit
    change _ = (manager.startTime record.timestamp).toNat+_ at exact
    refine ⟨by omega,fun _ full first is_first other among => ?_⟩
    rcases others with ⟨space,_⟩ | ⟨_,empty,_⟩ | ⟨_,oldest,rest,shape,result⟩
    · omega
    · rw [starts,empty] at is_first
      cases is_first
    · have listed : manager.starts = oldest.start_time :: rest.map (·.start_time) := by
        rw [starts,shape]
        rfl
      rw [listed] at is_first
      obtain rfl : oldest.start_time = first := Option.some.inj is_first
      refine written.retains oldest.start_time (by rw [listed]; simp) ?_ other among
      have distinct := sound.distinct
      rw [listed,List.nodup_cons] at distinct
      rw [listed,List.mem_cons,not_or] at absent
      rw [result]
      change oldest.start_time ∉
        (rest ++ [(manager.fresh record.timestamp).push record]).map (·.start_time)
      rw [List.map_append,List.mem_append,not_or]
      exact ⟨distinct.1,fun member => absent.1 (List.mem_singleton.mp member).symm⟩

theorem written_of_fits (positive : 0 < manager.partition_duration.toNat) (sound : manager.Sound)
    (fits : manager.Fits record) : manager.Written record := by
  have start_le := manager.startTime_le record.timestamp
  have below := lt_end positive record.timestamp
  rcases manager.write_cases record with ⟨before,partition,after,split,same,goes,result⟩ | ⟨absent,goes,others⟩
  · have among : partition ∈ manager.partitions := by
      rw [split]
      exact List.mem_append_cons_self
    have ends := sound.ends partition among
    have distinct := sound.distinct
    rw [starts,split,List.map_append,List.map_cons,List.nodup_middle] at distinct
    have others_differ (other : TimeSeriesPartition) (member : other ∈ before ++ after) :
        other.start_time ≠ partition.start_time := by
      rintro equal
      refine (List.nodup_cons.mp distinct).1 ?_
      rw [← equal,← List.map_append]
      exact List.mem_map_of_mem member
    refine ⟨by rw [goes,same,UInt64.lt_iff_toNat_lt,ends,same]; exact ⟨start_le,below⟩,by rw [goes]; exact ends,
      ?_,?_,?_⟩
    · rw [goes,result]
      intro other member is_start
      rcases List.mem_append.mp member with member | member
      · exact absurd (is_start.trans same.symm) (others_differ other (List.mem_append_left _ member))
      · rcases List.mem_cons.mp member with rfl | member
        · rfl
        · exact absurd (is_start.trans same.symm) (others_differ other (List.mem_append_right _ member))
    · rw [result]
      intro other member not_start
      rw [split]
      rcases List.mem_append.mp member with member | member
      · exact List.mem_append_left _ member
      · rcases List.mem_cons.mp member with rfl | member
        · exact absurd same not_start
        · exact List.mem_append_right _ (List.mem_cons_of_mem _ member)
    · intro start member gone
      have same_starts : (manager.write record).starts = manager.starts := by
        rw [result]
        simp only [starts,split,List.map_append,List.map_cons]
        rfl
      rw [same_starts] at gone
      rcases List.mem_cons.mp member with rfl | member
      · refine absurd ?_ gone
        rw [starts,split,← same]
        exact List.mem_map_of_mem List.mem_append_cons_self
      · exact absurd member gone
  · have exact := fresh_end fits.room
    have differ (partition : TimeSeriesPartition) (among : partition ∈ manager.partitions) :
        partition.start_time ≠ manager.startTime record.timestamp := fun same =>
      absent (same ▸ List.mem_map_of_mem among)
    have lands : (manager.fresh record.timestamp).start_time ≤ record.timestamp ∧
        record.timestamp < (manager.fresh record.timestamp).end_time := by
      rw [UInt64.lt_iff_toNat_lt,exact]
      exact ⟨start_le,below⟩
    rcases others with ⟨_,result⟩ | ⟨_,empty,result⟩ | ⟨full,oldest,rest,shape,result⟩
    · refine ⟨goes ▸ lands,goes ▸ exact,?_,?_,?_⟩
      · rw [goes,result]
        intro other member is_start
        rcases List.mem_append.mp member with member | member
        · exact absurd is_start (differ other member)
        · obtain rfl := List.mem_singleton.mp member
          rfl
      · rw [result]
        intro other member not_start
        rcases List.mem_append.mp member with member | member
        · exact member
        · obtain rfl := List.mem_singleton.mp member
          exact absurd rfl not_start
      · intro start member gone
        refine absurd ?_ gone
        rw [result]
        change start ∈ (manager.partitions ++ [(manager.fresh record.timestamp).push record]).map (·.start_time)
        rw [List.map_append,List.mem_append]
        rcases List.mem_cons.mp member with rfl | member
        · exact .inr (List.mem_singleton_self _)
        · exact .inl member
    · refine ⟨goes ▸ lands,goes ▸ exact,?_,?_,?_⟩
      · rw [result,empty]
        exact nofun
      · rw [result,empty]
        exact nofun
      · intro start member _ other among
        rw [starts,empty] at member among
        rw [List.mem_singleton.mp member,List.mem_singleton.mp among]
        exact UInt64.le_refl _
    · have listed : manager.starts = oldest.start_time :: rest.map (·.start_time) := by
        rw [starts,shape]
        rfl
      refine ⟨goes ▸ lands,goes ▸ exact,?_,?_,?_⟩
      · rw [goes,result]
        intro other member is_start
        rcases List.mem_append.mp member with member | member
        · exact absurd is_start (differ other (by rw [shape]; exact List.mem_cons_of_mem _ member))
        · obtain rfl := List.mem_singleton.mp member
          rfl
      · rw [result]
        intro other member not_start
        rcases List.mem_append.mp member with member | member
        · rw [shape]
          exact List.mem_cons_of_mem _ member
        · obtain rfl := List.mem_singleton.mp member
          exact absurd rfl not_start
      · intro start member gone
        have after_starts : (manager.write record).starts =
            rest.map (·.start_time) ++ [manager.startTime record.timestamp] := by
          rw [result]
          change (rest ++ [(manager.fresh record.timestamp).push record]).map (·.start_time) = _
          rw [List.map_append]
          rfl
        rw [after_starts,List.mem_append,not_or] at gone
        have is_oldest : start = oldest.start_time := by
          rw [listed] at member
          rcases List.mem_cons.mp member with rfl | member
          · exact absurd (List.mem_singleton_self _) gone.2
          · exact (List.mem_cons.mp member).resolve_right gone.1
        rw [is_oldest]
        exact fits.oldest absent full oldest.start_time (by rw [listed]; rfl)

theorem write_sound (positive : 0 < manager.partition_duration.toNat) (sound : manager.Sound)
    (fits : manager.Fits record) : (manager.write record).Sound := by
  obtain ⟨distinct,aligned,ends,within,few⟩ := sound
  have start_le := manager.startTime_le record.timestamp
  have below := lt_end positive record.timestamp
  have exact := fresh_end fits.room
  have aligned_start : manager.partition_duration.toNat ∣ (manager.startTime record.timestamp).toNat := by
    rw [startTime_toNat]
    exact Nat.dvd_mul_left _ _
  rcases manager.write_cases record with ⟨before,partition,after,split,same,goes,result⟩ | ⟨absent,goes,others⟩
  · have among : partition ∈ manager.partitions := by
      rw [split]
      exact List.mem_append_cons_self
    have place (other : TimeSeriesPartition) (member : other ∈ (manager.write record).partitions) :
        other ∈ manager.partitions ∨ other = partition.push record := by
      rw [result] at member
      rw [split]
      rcases List.mem_append.mp member with member | member
      · exact .inl (List.mem_append_left _ member)
      · rcases List.mem_cons.mp member with rfl | member
        · exact .inr rfl
        · exact .inl (List.mem_append_right _ (List.mem_cons_of_mem _ member))
    have kept_duration : (manager.write record).partition_duration = manager.partition_duration := by rw [result]
    refine ⟨?_,?_,?_,?_,?_⟩
    · rw [result]
      rw [starts,split] at distinct
      rw [starts,List.map_append,List.map_cons]
      rw [List.map_append,List.map_cons] at distinct
      exact distinct
    · rw [kept_duration]
      intro other member
      rcases place other member with member | rfl
      · exact aligned other member
      · exact aligned partition among
    · rw [kept_duration]
      intro other member
      rcases place other member with member | rfl
      · exact ends other member
      · exact ends partition among
    · intro other member inner is_inner
      rcases place other member with member | rfl
      · exact within other member inner is_inner
      · rcases List.mem_append.mp is_inner with is_inner | is_inner
        · exact within partition among inner is_inner
        · obtain rfl := List.mem_singleton.mp is_inner
          change partition.start_time ≤ _ ∧ _ < partition.end_time
          rw [UInt64.lt_iff_toNat_lt,ends partition among,same]
          exact ⟨start_le,below⟩
    · rw [result]
      rw [split] at few
      simpa using few
  · -- A new partition at the end of some of the old ones.
    have opened (old : List TimeSeriesPartition) (sub : old.Sublist manager.partitions)
        (space : old.length < manager.max_partitions) :
        ({manager with partitions:=old ++ [(manager.fresh record.timestamp).push record]} : PartitionManager).Sound := by
      have new_within : ∀ inner ∈ ((manager.fresh record.timestamp).push record).records,
          (manager.fresh record.timestamp).start_time ≤ inner.timestamp ∧
            inner.timestamp < (manager.fresh record.timestamp).end_time := by
        intro inner is_inner
        obtain rfl := List.mem_singleton.mp is_inner
        rw [UInt64.lt_iff_toNat_lt,exact]
        exact ⟨start_le,below⟩
      refine ⟨?_,?_,?_,?_,?_⟩
      · simp only [starts,List.map_append,List.nodup_append]
        refine ⟨distinct.sublist (sub.map _),by simp,?_⟩
        intro one member two is_two equal
        obtain rfl := List.mem_singleton.mp is_two
        have inside := (sub.map (·.start_time)).subset member
        rw [equal] at inside
        exact absent inside
      · intro other member
        rcases List.mem_append.mp member with member | member
        · exact aligned other (sub.subset member)
        · obtain rfl := List.mem_singleton.mp member
          exact aligned_start
      · intro other member
        rcases List.mem_append.mp member with member | member
        · exact ends other (sub.subset member)
        · obtain rfl := List.mem_singleton.mp member
          exact exact
      · intro other member
        rcases List.mem_append.mp member with member | member
        · exact within other (sub.subset member)
        · obtain rfl := List.mem_singleton.mp member
          exact new_within
      · rw [List.length_append,List.length_singleton]
        exact space
    rcases others with ⟨space,result⟩ | ⟨_,_,result⟩ | ⟨full,oldest,rest,shape,result⟩
    · rw [result]
      exact opened manager.partitions (List.Sublist.refl _) space
    · rw [result]
      exact ⟨distinct,aligned,ends,within,few⟩
    · rw [result]
      refine opened rest (by rw [shape]; exact List.sublist_cons_self _ _) ?_
      rw [shape,List.length_cons] at few
      omega

theorem write_duration (manager : PartitionManager) (record : TimeSeriesRecord) :
    (manager.write record).partition_duration = manager.partition_duration := by
  rcases manager.write_cases record with ⟨_,_,_,_,_,_,result⟩ | ⟨_,_,⟨_,result⟩ | ⟨_,_,result⟩ | ⟨_,_,_,_,result⟩⟩
  · rw [result]
  · rw [result]
  · rw [result]
  · rw [result]

theorem writeAll_duration (manager : PartitionManager) (records : List TimeSeriesRecord) :
    (manager.writeAll records).partition_duration = manager.partition_duration := by
  induction records generalizing manager with
  | nil => rfl
  | cons record rest ih => exact (ih (manager.write record)).trans (write_duration manager record)

theorem writeAll_concat (manager : PartitionManager) (records : List TimeSeriesRecord) (record : TimeSeriesRecord) :
    manager.writeAll (records ++ [record]) = (manager.writeAll records).write record :=
  List.foldl_append

theorem writeAll_sound (positive : 0 < manager.partition_duration.toNat) (sound : manager.Sound)
    (records : List TimeSeriesRecord)
    (each : ∀ done record rest, records = done ++ record :: rest → (manager.writeAll done).Sound →
      (manager.writeAll done).Fits record) :
    ∀ done rest, records = done ++ rest → (manager.writeAll done).Sound := by
  intro done
  induction done using List.reverseRecOn with
  | nil => exact fun _ _ => sound
  | append_singleton front record ih =>
    intro rest split
    rw [List.append_assoc,List.singleton_append] at split
    have before := ih (record :: rest) split
    rw [writeAll_concat]
    exact write_sound (by rw [writeAll_duration]; exact positive) before (each front record rest split before)

end Step
end PartitionManager
namespace TimeSeriesTable

theorem flatMap_filter_chosen {α β : Type} (chosen : α → Bool) (f : α → List β) (items : List α)
    (nothing : ∀ item ∈ items, chosen item = false → f item = []) : (items.filter chosen).flatMap f = items.flatMap f := by
  induction items with
  | nil => rfl
  | cons item rest ih =>
    have later := ih fun other among => nothing other (.tail _ among)
    cases is_chosen : chosen item with
    | true => rw [List.filter_cons_of_pos is_chosen,List.flatMap_cons,List.flatMap_cons,later]
    | false =>
      rw [List.filter_cons_of_neg (by simp [is_chosen]),List.flatMap_cons,nothing item (.head _) is_chosen,later,
        List.nil_append]

theorem query_exact {table : TimeSeriesTable} (sound : table.partitions.Sound) (start_time end_time : UInt64) :
    table.queryTimeRange start_time end_time =
      (table.partitions.partitions.flatMap (·.records)).filter fun record =>
        decide (record.timestamp ≥ start_time) && decide (record.timestamp ≤ end_time) := by
  rw [List.filter_flatMap]
  refine flatMap_filter_chosen _ _ _ fun partition among out => ?_
  rw [List.filter_eq_nil_iff]
  intro record inside chosen
  obtain ⟨above,below⟩ := sound.within partition among record inside
  simp only [Bool.and_eq_true,decide_eq_true_eq] at chosen
  have touches : partition.start_time ≤ end_time ∧ start_time ≤ partition.end_time :=
    ⟨UInt64.le_trans above chosen.2,UInt64.le_trans chosen.1 (UInt64.le_of_lt below)⟩
  simp only [touches.1,ge_iff_le,touches.2,decide_true,Bool.and_self] at out
  cases out

-- A run of batches on a new table: every record is written as it should be, and
-- in the end the partitions are in order and answer every query.
structure Kept (partition_duration : UInt64) (max_partitions : Nat)
    (batches : List (Option (Nat → TimeSeriesRecord) × Nat)) : Prop where
  written : ∀ done record rest, batches.flatMap batchRecords = done ++ record :: rest →
    ((PartitionManager.new partition_duration max_partitions).writeAll done).Written record
  sound : ((new partition_duration max_partitions).run batches).partitions.Sound
  answers : ∀ start_time end_time, ((new partition_duration max_partitions).run batches).queryTimeRange start_time end_time =
    (((new partition_duration max_partitions).run batches).partitions.partitions.flatMap (·.records)).filter fun record =>
      decide (record.timestamp ≥ start_time) && decide (record.timestamp ≤ end_time)

theorem kept_iff (partition_duration : UInt64) (max_partitions : Nat) (positive : 0 < partition_duration.toNat)
    (batches : List (Option (Nat → TimeSeriesRecord) × Nat)) :
    Kept partition_duration max_partitions batches ↔
      ∀ done record rest, batches.flatMap batchRecords = done ++ record :: rest →
        ((PartitionManager.new partition_duration max_partitions).writeAll done).Fits record := by
  have start := PartitionManager.sound_new partition_duration max_partitions
  have reaches := @PartitionManager.writeAll_sound (.new partition_duration max_partitions) positive start
    (batches.flatMap batchRecords)
  constructor
  · intro kept done record rest split
    have sound := reaches (fun done record rest split sound =>
      PartitionManager.fits_of_written sound (kept.written done record rest split)) done (record :: rest) split
    exact PartitionManager.fits_of_written sound (kept.written done record rest split)
  · intro fits
    have sound := reaches fun done record rest split _ => fits done record rest split
    have last : ((new partition_duration max_partitions).run batches).partitions.Sound := by
      rw [run_partitions]
      exact sound _ [] (List.append_nil _).symm
    refine ⟨?_,last,query_exact last⟩
    intro done record rest split
    refine PartitionManager.written_of_fits ?_ (sound done (record :: rest) split) (fits done record rest split)
    rw [PartitionManager.writeAll_duration]
    exact positive

section Bytes

def atTime (timestamp : UInt64) : TimeSeriesRecord := ⟨timestamp,0,0,[0,0,0,0,0,0,0,0]⟩

def batchOf (timestamps : List UInt64) : Option (Nat → TimeSeriesRecord) × Nat :=
  (some fun index => atTime (timestamps.getD index 0),timestamps.length)

-- Two records in the order of their times.
theorem kept_iff_ordered : Kept 10 1 [batchOf [5,25]] := by
  refine (kept_iff 10 1 (by decide) [batchOf [5,25]]).mpr ?_
  have listed : [batchOf [5,25]].flatMap batchRecords = [atTime 5,atTime 25] := by decide
  intro done record rest split
  rw [listed] at split
  rcases done with _ | ⟨first,_ | ⟨second,more⟩⟩
  · obtain ⟨rfl,_⟩ := List.cons.inj split
    exact ⟨by decide,fun _ full => absurd full (by decide)⟩
  · obtain ⟨rfl,tail⟩ := List.cons.inj split
    obtain ⟨rfl,_⟩ := List.cons.inj tail
    refine ⟨by decide,fun _ _ first is_first other _ => ?_⟩
    have opened : ((PartitionManager.new 10 1).writeAll [atTime 5]).starts = [0] := by decide
    rw [opened] at is_first
    obtain rfl : 0 = first := Option.some.inj is_first
    rw [UInt64.le_iff_toNat_le]
    exact Nat.zero_le _
  · cases more <;> cases split

-- A late record takes the place of the newest partition, and the last partition
-- of all has an end that overflows.
theorem newest_discarded : ¬ Kept 10 1 [batchOf [25,5]] ∧ ¬ Kept 10 1 [batchOf [18446744073709551615]] := by
  constructor
  · intro kept
    have written := kept.written [atTime 25] (atTime 5) [] (by decide)
    exact absurd (written.retains 20 (by decide) (by decide) 0 (by decide)) (by decide)
  · intro kept
    have written := kept.written [] (atTime 18446744073709551615) [] (by decide)
    exact absurd written.exact (by decide)

end Bytes
end TimeSeriesTable
end TimeSeries
end RemDb
