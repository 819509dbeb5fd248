import RemDb.Tx.Logging
import RemDb.Index.Composite

namespace RemDb
open RemDb.Lib RemDb.Wal

namespace MemoryTable

-- The definition stays, and free slots are slots of the table, whatever the
-- counters say.
structure Bounded (tdef : TableDef) (table : MemoryTable) : Prop where
  defined : table.tdef = tdef
  inside : ∀ slot ∈ table.free_slots, slot < tdef.max_records

theorem new_bounded (tdef : TableDef) (memory : Option Memory) (table : MemoryTable)
    (made : new tdef memory = .ok table) : Bounded tdef table := by
  unfold new newWithOptions at made
  split at made
  · cases made
  · rename_i positive
    split at made
    · cases made
    · obtain rfl := Except.ok.inj made
      refine ⟨rfl,?_⟩
      intro slot member
      simp only [Bool.false_eq_true,if_false,List.mem_map,List.mem_range] at member
      obtain ⟨place,_,rfl⟩ := member
      omega

section Steps
variable {tdef : TableDef} {table : MemoryTable}

theorem release_bounded (bounded : Bounded tdef table) (within : slot < table.tdef.max_records) :
    Bounded tdef (table.release slot) := by
  obtain ⟨same,inside⟩ := bounded
  unfold release pushFree
  dsimp only [setStatus,setRecord]
  split
  · refine ⟨same,?_⟩
    intro each member
    rcases List.mem_append.mp member with old | new
    · exact inside each old
    · rw [List.mem_singleton.mp new,← same]
      exact within
  · exact ⟨same,inside⟩

theorem batch_bounded (codecs : Codecs) (operation : LogOperation) (counted : Bool) (data : Nat → Bytes)
    (clock : Nat → UInt64 × Env) (bounded : Bounded tdef table) (actual record_count : Nat)
    (slots : List (Nat × Nat)) (tx : TransactionManager) :
    Bounded tdef {(storeBatch codecs operation counted data clock slots (table.withoutPopped actual,tx)).1 with
      record_count:=record_count} := by
  obtain ⟨same,free,_,_⟩ := storeBatch_effect codecs operation counted data clock (table.withoutPopped actual) slots tx
  refine ⟨same.trans bounded.defined,?_⟩
  intro slot member
  rw [free] at member
  exact bounded.inside slot (List.mem_of_mem_take member)

theorem call_bounded (codecs : Codecs) (tx : TransactionManager) (call : Call) (bounded : Bounded tdef table) :
    Bounded tdef (table.call codecs tx call).1 := by
  obtain ⟨same,inside⟩ := id bounded
  cases call with
  | insert now data =>
    obtain ⟨failure,outcome⟩ | ⟨slot,image,logged,result,_,_,outcome,effect⟩ := table.insert_cases tx now data
    · simp only [MemoryTable.call,outcome]
      exact bounded
    · simp only [MemoryTable.call,outcome]
      obtain ⟨_,_,_,key,rfl⟩ | ⟨_,rest,key,free,rfl⟩ := effect
      · exact ⟨same,inside⟩
      · refine ⟨same,fun slot member => inside slot ?_⟩
        rw [free]
        exact List.mem_append_left _ member
  | update now slot data =>
    obtain ⟨failure,outcome⟩ | ⟨_,_,outcome⟩ := table.update_cases tx now slot data
    · simp only [MemoryTable.call,outcome]
      exact bounded
    · simp only [MemoryTable.call,outcome]
      exact ⟨same,inside⟩
  | delete now slot =>
    obtain outcome | ⟨within,_,outcome⟩ := table.delete_cases tx now slot
    · simp only [MemoryTable.call,outcome]
      exact bounded
    · simp only [MemoryTable.call,outcome]
      exact release_bounded bounded within
  | batchInsert clock records count =>
    unfold MemoryTable.call batchInsert
    cases records with
    | none => exact bounded
    | some data =>
      dsimp only
      split
      · exact bounded
      split
      · exact bounded
      · exact batch_bounded codecs .insert true data clock bounded _ _ _ tx
  | timeSeriesBatchInsert clock records count =>
    unfold MemoryTable.call timeSeriesBatchInsert
    cases records with
    | none => exact bounded
    | some data =>
      dsimp only
      split
      · exact bounded
      · exact batch_bounded codecs .timeSeriesInsert false data clock bounded _ _ _ tx
  | setLowPowerMode enabled maxRecords => exact ⟨same,inside⟩

theorem run_bounded (codecs : Codecs) (calls : List (TransactionManager × Call)) (bounded : Bounded tdef table) :
    Bounded tdef (table.run codecs calls) := by
  induction calls generalizing table with
  | nil => exact bounded
  | cons entry rest ih => exact ih (call_bounded codecs entry.1 entry.2 bounded)

theorem changeOf_inside (bounded : Bounded tdef table) (tx : TransactionManager) (call : Call)
    (changed : table.changeOf tx call = some change) : change.slot < tdef.max_records := by
  obtain ⟨same,inside⟩ := bounded
  cases call with
  | insert now data =>
    obtain ⟨failure,outcome⟩ | ⟨slot,image,logged,result,_,_,outcome,effect⟩ := table.insert_cases tx now data
    · simp [changeOf,outcome] at changed
    · simp only [changeOf,outcome,Option.some.injEq] at changed
      subst changed
      obtain ⟨_,_,best,_⟩ | ⟨_,rest,key,free,_⟩ := effect
      · rw [← same]
        exact (oldest_used best).1
      · apply inside
        rw [free]
        simp
  | update now slot data =>
    obtain ⟨failure,outcome⟩ | ⟨within,_,outcome⟩ := table.update_cases tx now slot data
    · simp [changeOf,outcome] at changed
    · simp only [changeOf,outcome,Option.some.injEq] at changed
      subst changed
      rw [← same]
      exact within
  | delete now slot =>
    obtain outcome | ⟨within,_,outcome⟩ := table.delete_cases tx now slot
    · simp [changeOf,outcome] at changed
    · simp only [changeOf,outcome,Option.some.injEq] at changed
      subst changed
      rw [← same]
      exact within
  | batchInsert clock records count => cases changed
  | timeSeriesBatchInsert clock records count => cases changed
  | setLowPowerMode enabled maxRecords => cases changed

-- A batch of one record, which is not checked against any constraint.
def addOne (data : Bytes) : Call := .batchInsert (fun _ => (0,still)) (some fun _ => data) 1

theorem storeBatch_mode (codecs : Codecs) (operation : LogOperation) (counted : Bool) (data : Nat → Bytes)
    (clock : Nat → UInt64 × Env) (table : MemoryTable) (slots : List (Nat × Nat)) (tx : TransactionManager) :
    (storeBatch codecs operation counted data clock slots (table,tx)).1.low_power_mode = table.low_power_mode := by
  induction slots generalizing table tx with
  | nil => rfl
  | cons entry rest ih => exact ih _ _

theorem addOne_counts (codecs : Codecs) (tx : TransactionManager) (data : Bytes) (accounted : Accounted table)
    (normal : table.low_power_mode = false) (room : table.record_count < table.tdef.max_records) :
    (table.call codecs tx (addOne data)).1.record_count = table.record_count+1 ∧
      (table.call codecs tx (addOne data)).1.low_power_mode = false := by
  have total := accounted.total
  have limit : table.maxRecords = table.tdef.max_records := by simp [maxRecords,normal]
  have available : usizeSub table.maxRecords table.record_count = table.free_slots.length := by
    rw [limit,usizeSub_of_le accounted.small (by omega)]
    omega
  have ordinary : ¬(table.low_power_mode = true ∧ table.record_count ≥ table.maxRecords) := by
    rw [normal]
    simp
  have one : table.batchCount 1 = 1 := by
    unfold batchCount
    rw [available,if_neg ordinary,if_neg (by omega)]
  have slots := batchSlots_popped (show 1 ≤ table.free_slots.length by omega)
  have taken : (table.popped 1).length = 1 := by
    rw [popped,List.length_take,List.length_reverse]
    omega
  obtain ⟨_,_,kept,_⟩ := storeBatch_effect codecs .insert true (fun _ => data) (fun _ => (0,still))
    (table.withoutPopped 1) (table.popped 1).zipIdx tx
  unfold addOne MemoryTable.call batchInsert
  dsimp only
  rw [one,if_neg (by decide),if_neg (by decide),slots,if_neg ordinary,taken]
  exact ⟨congrArg (·+1) kept,(storeBatch_mode _ _ _ _ _ _ _ _).trans normal⟩

theorem addOne_fills (codecs : Codecs) (tx : TransactionManager) (data : Bytes) (accounted : Accounted table)
    (normal : table.low_power_mode = false) (count : Nat)
    (room : table.record_count+count ≤ table.tdef.max_records) :
    Accounted (table.run codecs (List.replicate count (tx,addOne data))) ∧
      (table.run codecs (List.replicate count (tx,addOne data))).record_count = table.record_count+count := by
  induction count generalizing table with
  | zero => exact ⟨accounted,rfl⟩
  | succ count ih =>
    obtain ⟨counted,normal'⟩ := addOne_counts codecs tx data accounted normal (by omega)
    have balanced : table.Balanced (addOne data) := by
      intro low
      rw [normal] at low
      cases low
    have accounted' := call_accounted codecs tx (addOne data) accounted balanced
    have tdef := (call_bounded codecs tx (addOne data)
      ⟨rfl,fun slot member => ((accounted.split.complete slot).mp member).1⟩).defined
    obtain ⟨filled,total⟩ := ih accounted' normal' (by rw [counted,tdef]; omega)
    refine ⟨filled,total.trans ?_⟩
    rw [counted]
    omega

end Steps

theorem full_run (codecs : Codecs) (tdef : TableDef) (memory : Option Memory) (table : MemoryTable)
    (small : tdef.max_records < usizeLimit) (made : new tdef memory = .ok table) :
    ∃ calls, ∀ slot, slot < tdef.max_records → (table.run codecs calls).used slot = true := by
  have accounted := new_accounted tdef memory table small made
  have bounded := new_bounded tdef memory table made
  have fresh : table.record_count = 0 ∧ table.low_power_mode = false := by
    unfold new newWithOptions at made
    split at made
    · cases made
    split at made
    · cases made
    · obtain rfl := Except.ok.inj made
      exact ⟨rfl,rfl⟩
  have start : table.record_count+tdef.max_records ≤ table.tdef.max_records := by
    rw [fresh.1,bounded.defined]
    omega
  obtain ⟨filled,total⟩ := addOne_fills codecs noTx [] accounted fresh.2 tdef.max_records start
  have same := (run_bounded codecs (List.replicate tdef.max_records (noTx,addOne [])) bounded).defined
  refine ⟨List.replicate tdef.max_records (noTx,addOne []),?_⟩
  intro slot within
  have sum := filled.total
  rw [total,fresh.1,same] at sum
  have none_free : (table.run codecs (List.replicate tdef.max_records (noTx,addOne []))).free_slots = [] :=
    List.length_eq_zero_iff.mp (by omega)
  have split := filled.split
  rw [none_free,same] at split
  exact split.full within

-- The log item of every insert, update and delete names the slot it is about.
def LogKeepsSlots (codecs : Codecs) (table : MemoryTable) : Prop :=
  ∀ tx current call change, tx.current_tx = some current → current.log_items.length < current.max_log_items →
    table.changeOf tx call = some change →
    ∃ logged item, (table.call codecs tx call).2.current_tx = some logged ∧
      logged.log_items = current.log_items ++ [item] ∧ item.header.record_id.toNat = change.slot

-- The index finds every stored record in the slot it was put in under.
def IndexKeepsSlots (table : MemoryTable) : Prop :=
  ∀ heap index entries slot key, index.tdef = table.tdef → 0 < index.hash_table_size →
    PrimaryIndex.Represents index entries → entries.length < index.max_items →
    slot < table.tdef.max_records → table.used slot = true →
    table.tdef.compositeKey heap (table.records slot) = some key → key.length ≤ PrimaryIndexItem.KEY_DATA →
    ∃ inserted record_id found,
      index.insertComposite heap (table.records slot) (UInt16.ofNat slot) = some (.ok (),inserted) ∧
      inserted.findComposite heap (table.records slot) = some (.ok record_id,found) ∧ record_id.toNat = slot

theorem logKeepsSlots_of_small {tdef : TableDef} (codecs : Codecs) (bounded : Bounded tdef table) (small : tdef.max_records ≤ 2^16) :
    LogKeepsSlots codecs table := by
  intro tx current call change active room changed
  have inside := changeOf_inside bounded tx call changed
  obtain ⟨_,now,logged⟩ := call_logged codecs call active changed
  have item_slot : (change.item current.id now).header.record_id.toNat = change.slot :=
    slot_back (Nat.lt_of_lt_of_le inside small)
  refine ⟨_,change.item current.id now,logged,?_,item_slot⟩
  rw [Transaction.beginLogItem,if_neg (by omega)]
  rfl

theorem indexKeepsSlots_of_small {tdef : TableDef} (bounded : Bounded tdef table) (small : tdef.max_records ≤ 2^16) :
    IndexKeepsSlots table := by
  intro heap index entries slot key same positive represents room inside _ encoded short
  obtain ⟨inserted,found,stored,answer⟩ := PrimaryIndex.findComposite_inserted positive represents room
    (same ▸ encoded) short (UInt16.ofNat slot)
  refine ⟨inserted,_,found,stored,answer,slot_back ?_⟩
  rw [bounded.defined] at inside
  omega

theorem delete_logs_zero (codecs : Codecs) {table : MemoryTable} (beyond : 2^16 < table.tdef.max_records)
    (taken : table.used (2^16) = true) :
    ∃ change logged item, table.changeOf (openTx 1) (.delete 0 (2^16)) = some change ∧ change.slot = 2^16 ∧
      (table.call codecs (openTx 1) (.delete 0 (2^16))).2.current_tx = some logged ∧
      logged.log_items = [item] ∧ item.header.record_id = 0 := by
  have outcome : (table.delete (openTx 1) 0 (2^16)).1 = .ok () := by
    rw [delete,if_neg (by omega),if_neg (by rw [taken]; simp)]
  have changed : table.changeOf (openTx 1) (.delete 0 (2^16)) = some ⟨.delete,table.tdef.id,2^16,
      recordImage table.tdef.record_size (table.records (2^16)),[]⟩ := by
    simp only [changeOf,outcome]
  obtain ⟨_,now,logged⟩ := call_logged codecs (.delete 0 (2^16)) rfl changed
  have zero : UInt16.ofNat (2^16) = 0 := by decide
  exact ⟨_,_,_,changed,rfl,logged,rfl,zero⟩

theorem delete_wraps (codecs : Codecs) {table : MemoryTable} (beyond : 2^16 < table.tdef.max_records)
    (taken : table.used (2^16) = true) : ¬LogKeepsSlots codecs table := by
  intro keeps
  obtain ⟨change,logged,item,changed,slot,reached,items,zero⟩ := delete_logs_zero codecs beyond taken
  obtain ⟨logged',item',reached',items',kept⟩ := keeps (openTx 1) _ _ _ rfl (by decide) changed
  rw [reached,Option.some.injEq] at reached'
  rw [← reached',items] at items'
  have same : item = item' := List.singleton_inj.mp items'
  rw [← same,zero,slot] at kept
  exact absurd kept (by decide)

theorem slots_survive_iff (codecs : Codecs) (tdef : TableDef) (memory : Option Memory) (table : MemoryTable)
    (small : tdef.max_records < usizeLimit) (made : new tdef memory = .ok table) :
    (∀ calls, LogKeepsSlots codecs (table.run codecs calls) ∧ IndexKeepsSlots (table.run codecs calls)) ↔
      tdef.max_records ≤ 2^16 := by
  have bounded := new_bounded tdef memory table made
  constructor
  · intro survives
    by_contra beyond
    obtain ⟨calls,filled⟩ := full_run codecs tdef memory table small made
    have same := (run_bounded codecs calls bounded).defined
    exact delete_wraps codecs (by rw [same]; omega) (filled (2^16) (by omega)) (survives calls).1
  · intro fits calls
    have reached := run_bounded codecs calls bounded
    exact ⟨logKeepsSlots_of_small codecs reached fits,indexKeepsSlots_of_small reached fits⟩

theorem pair_slots_survive : ∃ table, new pairDef (some blank) = .ok table ∧
    ∀ calls, LogKeepsSlots plainBuild (table.run plainBuild calls) ∧ IndexKeepsSlots (table.run plainBuild calls) :=
  ⟨_,rfl,(slots_survive_iff plainBuild pairDef (some blank) _ (by decide) rfl).mpr (by decide)⟩

def defaultDef : TableDef := ⟨0,"t",[],[],0,100000⟩

theorem default_slots_wrap : ∃ table calls, new defaultDef (some blank) = .ok table ∧
    (table.run plainBuild calls).used 65536 = true ∧
    (∃ change logged item,
      (table.run plainBuild calls).changeOf (openTx 1) (.delete 0 65536) = some change ∧ change.slot = 65536 ∧
      ((table.run plainBuild calls).call plainBuild (openTx 1) (.delete 0 65536)).2.current_tx = some logged ∧
      logged.log_items = [item] ∧ item.header.record_id = 0) ∧
    ¬LogKeepsSlots plainBuild (table.run plainBuild calls) := by
  obtain ⟨table,made⟩ : ∃ table, new defaultDef (some blank) = .ok table := ⟨_,rfl⟩
  obtain ⟨calls,filled⟩ := full_run plainBuild defaultDef (some blank) table (by decide) made
  have same := (run_bounded plainBuild calls (new_bounded defaultDef (some blank) table made)).defined
  have beyond : 2^16 < (table.run plainBuild calls).tdef.max_records := by
    rw [same]
    decide
  have taken := filled (2^16) (by decide)
  exact ⟨table,calls,made,taken,delete_logs_zero plainBuild beyond taken,delete_wraps plainBuild beyond taken⟩

end MemoryTable
end RemDb
