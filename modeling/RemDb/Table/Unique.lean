import RemDb.Table.Accounting

namespace RemDb
open RemDb.Lib RemDb.Wal

theorem floatEq_symm (mantissa exponent left right : Nat) :
    floatEq mantissa exponent left right = floatEq mantissa exponent right left := by
  unfold floatEq
  rw [Bool.and_comm (!floatNaN mantissa exponent left)]
  congr 2
  · exact decide_eq_decide.mpr eq_comm
  · exact decide_eq_decide.mpr And.comm

theorem FieldDef.sameValue_symm (field : FieldDef) (left right : Bytes) :
    field.sameValue left right = field.sameValue right left := by
  have flip : ∀ width, decide (field.read left width = field.read right width) =
      decide (field.read right width = field.read left width) := fun _ => decide_eq_decide.mpr eq_comm
  unfold FieldDef.sameValue
  cases field.data_type with
  | float32 | float64 => exact floatEq_symm _ _ _ _
  | vector | json => rfl
  | uint8 | uint16 | uint32 | uint64 | int8 | int16 | int32 | int64 | bool | timestamp | timestampTZ | varChar |
      char | text | interval => exact flip _

namespace TableDef

-- Two records that agree on the whole primary key, or on a unique column that
-- is not part of it.
def sameKey (tdef : TableDef) (left right : Bytes) : Bool :=
  decide (tdef.primary_key ≠ []) && tdef.keyFields.all (·.sameValue left right)
def sameUnique (tdef : TableDef) (left right : Bytes) : Bool :=
  (tdef.fields.filter fun field => field.unique && !field.primary_key).any (·.sameValue left right)

def conflict (tdef : TableDef) (left right : Bytes) : Bool := tdef.sameKey left right || tdef.sameUnique left right

theorem conflict_symm (tdef : TableDef) (left right : Bytes) : tdef.conflict left right = tdef.conflict right left := by
  unfold conflict sameKey sameUnique
  simp only [FieldDef.sameValue_symm _ left right]

-- The records the checks compare with: used, visible and not excluded.
def Compared (tdef : TableDef) (status : Nat → RecordHeader) (newest : UInt32) (exclude : Option Nat) (slot : Nat) :
    Prop :=
  slot < tdef.max_records ∧ exclude ≠ some slot ∧ (status slot).status = .used ∧
    isVisible (status slot).create_tx_id (status slot).delete_tx_id newest = true

section Validate
variable {tdef : TableDef} {status : Nat → RecordHeader} {records : Nat → Bytes} {newest : UInt32}
  {record : Bytes} {exclude : Option Nat}

theorem clashes_iff (same : Bytes → Bool) : tdef.clashes status records newest exclude same = true ↔
    ∃ slot, tdef.Compared status newest exclude slot ∧ same (records slot) = true := by
  unfold clashes Compared
  simp only [List.any_eq_true,List.mem_range,Bool.and_eq_true,decide_eq_true_eq]
  constructor
  · rintro ⟨slot,inside,⟨⟨other,used⟩,visible⟩,equal⟩
    exact ⟨slot,⟨inside,other,used,visible⟩,equal⟩
  · rintro ⟨slot,⟨inside,other,used,visible⟩,equal⟩
    exact ⟨slot,inside,⟨⟨other,used⟩,visible⟩,equal⟩

theorem fault_other {fault : RemDbError} (found : tdef.fields.findSome? (·.fault record) = some fault) :
    fault ≠ .duplicateKey := by
  obtain ⟨field,_,faulty⟩ := List.exists_of_findSome?_eq_some found
  unfold FieldDef.fault at faulty
  intro duplicate
  subst duplicate
  split at faulty
  · cases faulty
  · split at faulty
    · split at faulty <;> cases faulty
    · split at faulty <;> cases faulty
    · cases faulty

theorem validate_cases (tdef : TableDef) (status : Nat → RecordHeader) (records : Nat → Bytes) (newest : UInt32)
    (record : Bytes) (exclude : Option Nat) :
    (∃ fault, tdef.fields.findSome? (·.fault record) = some fault ∧
      tdef.validateConstraints status records newest record exclude = .error fault) ∨
    tdef.fields.findSome? (·.fault record) = none ∧
      (((∃ slot, tdef.Compared status newest exclude slot ∧ tdef.conflict record (records slot) = true) ∧
        tdef.validateConstraints status records newest record exclude = .error .duplicateKey) ∨
      ((∀ slot, tdef.Compared status newest exclude slot → tdef.conflict record (records slot) = false) ∧
        tdef.validateConstraints status records newest record exclude = .ok ())) := by
  unfold validateConstraints
  cases faults : tdef.fields.findSome? (·.fault record) with
  | some fault => exact .inl ⟨fault,rfl,rfl⟩
  | none =>
    refine .inr ⟨rfl,?_⟩
    dsimp only
    split
    · rename_i key
      obtain ⟨slot,compared,equal⟩ := (clashes_iff _).mp key.2
      refine .inl ⟨⟨slot,compared,?_⟩,rfl⟩
      simp [conflict,sameKey,key.1,equal]
    · rename_i key
      split
      · rename_i unique
        obtain ⟨field,among,clash⟩ := List.any_eq_true.mp unique
        obtain ⟨slot,compared,equal⟩ := (clashes_iff _).mp clash
        have some_same : tdef.sameUnique record (records slot) = true := List.any_eq_true.mpr ⟨field,among,equal⟩
        refine .inl ⟨⟨slot,compared,?_⟩,rfl⟩
        rw [conflict,some_same,Bool.or_true]
      · rename_i unique
        refine .inr ⟨?_,rfl⟩
        intro slot compared
        unfold conflict
        rw [Bool.or_eq_false_iff]
        constructor
        · by_contra same
          have both := Bool.and_eq_true_iff.mp (Bool.not_eq_false _ ▸ same)
          exact key ⟨of_decide_eq_true both.1,(clashes_iff _).mpr ⟨slot,compared,both.2⟩⟩
        · by_contra same
          obtain ⟨field,among,equal⟩ := List.any_eq_true.mp (Bool.not_eq_false _ ▸ same)
          exact unique (List.any_eq_true.mpr ⟨field,among,(clashes_iff _).mpr ⟨slot,compared,equal⟩⟩)

theorem validate_duplicate_iff :
    tdef.validateConstraints status records newest record exclude = .error .duplicateKey ↔
      tdef.fields.findSome? (·.fault record) = none ∧
        ∃ slot, tdef.Compared status newest exclude slot ∧ tdef.conflict record (records slot) = true := by
  rcases tdef.validate_cases status records newest record exclude with
    ⟨fault,found,refused⟩ | ⟨clean,⟨clash,refused⟩ | ⟨free,valid⟩⟩
  · rw [refused,found,Except.error.injEq]
    exact ⟨fun duplicate => absurd duplicate (fault_other found),fun clean => nomatch clean.1⟩
  · exact ⟨fun _ => ⟨clean,clash⟩,fun _ => refused⟩
  · rw [valid]
    refine ⟨fun duplicate => (nomatch duplicate),?_⟩
    rintro ⟨_,slot,compared,conflict⟩
    rw [free slot compared] at conflict
    cases conflict

end Validate
end TableDef

namespace MemoryTable

-- A slot written outside of any transaction.
def Untouched (header : RecordHeader) : Prop := header.create_tx_id = 0 ∧ header.delete_tx_id = 0

theorem untouched_visible {header : RecordHeader} (untouched : Untouched header) (newest : UInt32) :
    isVisible header.create_tx_id header.delete_tx_id newest = true := by
  unfold isVisible
  rw [untouched.1,untouched.2]
  by_cases first : (0 : UInt32) = newest
  · rw [if_pos first]
  · rw [if_neg first,if_neg (fun deleted => absurd deleted.1 (by decide))]
    refine decide_eq_true (UInt32.lt_iff_toNat_lt.mpr ?_)
    have nonzero : newest.toNat ≠ 0 := fun zero => first (UInt32.toNat.inj zero.symm)
    exact Nat.pos_of_ne_zero nonzero

-- No two used slots conflict. Every record has to be visible to the checks for
-- this to be kept.
structure Unique (table : MemoryTable) : Prop where
  untouched : ∀ slot, Untouched (table.status slot)
  apart : ∀ left right, left < table.tdef.max_records → right < table.tdef.max_records → left ≠ right →
    table.used left = true → table.used right = true →
      table.tdef.conflict (table.records left) (table.records right) = false

section Steps
variable {table : MemoryTable}

-- What a check with the slot to be written left out, or with no slot left out,
-- says about all the other slots.
theorem Unique.checked (unique : Unique table) {tx : TransactionManager} {record : Bytes} {exclude : Option Nat}
    (valid : table.validate tx record exclude = .ok ()) (slot other : Nat) (spared : ∀ each, exclude = some each → each = slot)
    (inside : other < table.tdef.max_records) (different : other ≠ slot) (used : table.used other = true) :
    table.tdef.conflict record (table.records other) = false := by
  rcases table.tdef.validate_cases table.status table.records tx.tx_id_counter record exclude with
    ⟨fault,_,refused⟩ | ⟨_,⟨_,refused⟩ | ⟨free,_⟩⟩
  · cases refused.symm.trans valid
  · cases refused.symm.trans valid
  · refine free other ⟨inside,?_,of_decide_eq_true used,untouched_visible (unique.untouched other) _⟩
    intro excluded
    exact different (spared other excluded)

theorem Unique.store (unique : Unique table) {slot : Nat} {image : Bytes}
    (checked : ∀ other, other < table.tdef.max_records → other ≠ slot → table.used other = true →
      table.tdef.conflict image (table.records other) = false) : Unique (table.store slot image true) := by
  have records : (table.store slot image true).records = assign table.records slot image := rfl
  constructor
  · intro each
    by_cases same : each = slot
    · subst each
      simp only [MemoryTable.store,setStatus,setRecord,assign_same]
      exact unique.untouched slot
    · simp only [MemoryTable.store,setStatus,setRecord,assign_other _ same]
      exact unique.untouched each
  · intro left right inLeft inRight different usedLeft usedRight
    rw [store_used] at usedLeft usedRight
    rw [store_tdef] at inLeft inRight
    rw [records,store_tdef]
    by_cases atLeft : left = slot
    · have away : right ≠ slot := fun same => different (atLeft.trans same.symm)
      rw [assign_other _ away] at usedRight
      rw [atLeft,assign_same,assign_other _ away]
      exact checked right inRight away usedRight
    · rw [assign_other _ atLeft] at usedLeft
      rw [assign_other _ atLeft]
      by_cases atRight : right = slot
      · rw [atRight,assign_same,TableDef.conflict_symm]
        exact checked left inLeft atLeft usedLeft
      · rw [assign_other _ atRight] at usedRight
        rw [assign_other _ atRight]
        exact unique.apart left right inLeft inRight different usedLeft usedRight

theorem insert_valid (done : table.insert tx now data = (.ok slot,result,logged)) :
    table.validate tx (recordImage table.tdef.record_size data) none = .ok () := by
  unfold insert at done
  cases checked : table.validate tx (recordImage table.tdef.record_size data) none with
  | error failure => simp [checked] at done
  | ok _ => rfl

theorem update_valid (done : table.update tx now slot data = (.ok (),result,logged)) :
    table.validate tx (recordImage table.tdef.record_size data) (some slot) = .ok () := by
  unfold update at done
  split at done
  · simp at done
  · split at done
    · simp at done
    · cases checked : table.validate tx (recordImage table.tdef.record_size data) (some slot) with
      | error failure => simp [checked] at done
      | ok _ => rfl

theorem insert_unique (unique : Unique table) (tx : TransactionManager) (now : UInt64) (data : Bytes) :
    Unique (table.insert tx now data).2.1 := by
  obtain ⟨failure,same⟩ | ⟨slot,image,logged,result,rfl,_,same,placed⟩ := insert_cases table tx now data
  · rw [same]
    exact unique
  · rw [same]
    have stored := unique.store fun other =>
      unique.checked (insert_valid same) slot other fun each none_excluded => nomatch none_excluded
    rcases placed with ⟨_,_,_,key,rfl⟩ | ⟨_,rest,key,_,rfl⟩
    · exact ⟨stored.untouched,stored.apart⟩
    · exact ⟨stored.untouched,stored.apart⟩

theorem update_unique (unique : Unique table) (tx : TransactionManager) (now : UInt64) (slot : Nat) (data : Bytes) :
    Unique (table.update tx now slot data).2.1 := by
  obtain ⟨failure,same⟩ | ⟨_,_,same⟩ := update_cases table tx now slot data
  · rw [same]
    exact unique
  · have valid := update_valid same
    rw [same]
    exact unique.store fun other =>
      unique.checked valid slot other fun each excluded => (Option.some.inj excluded).symm

theorem release_parts (table : MemoryTable) (slot : Nat) : (table.release slot).tdef = table.tdef ∧
    (table.release slot).records = assign table.records slot (List.replicate table.tdef.record_size 0) ∧
    (table.release slot).status = assign table.status slot
      {table.status slot with status:=.free,version:=(table.status slot).version+1} := by
  unfold MemoryTable.release pushFree
  dsimp only
  split
  · exact ⟨rfl,rfl,rfl⟩
  · exact ⟨rfl,rfl,rfl⟩

theorem Unique.release (unique : Unique table) (slot : Nat) : Unique (table.release slot) := by
  obtain ⟨tdef,records,status⟩ := release_parts table slot
  constructor
  · intro each
    rw [status]
    by_cases same : each = slot
    · subst each
      rw [assign_same]
      exact unique.untouched slot
    · rw [assign_other _ same]
      exact unique.untouched each
  · intro left right inLeft inRight different usedLeft usedRight
    rw [release_used] at usedLeft usedRight
    have away : ∀ each, assign table.used slot false each = true → each ≠ slot := by
      intro each used same
      rw [same,assign_same] at used
      cases used
    rw [tdef] at inLeft inRight
    have leftAway := away left usedLeft
    have rightAway := away right usedRight
    rw [assign_other _ leftAway] at usedLeft
    rw [assign_other _ rightAway] at usedRight
    rw [tdef,records,assign_other _ leftAway,assign_other _ rightAway]
    exact unique.apart left right inLeft inRight different usedLeft usedRight

theorem delete_unique (unique : Unique table) (tx : TransactionManager) (now : UInt64) (slot : Nat) :
    Unique (table.delete tx now slot).2.1 := by
  obtain same | ⟨_,_,same⟩ := delete_cases table tx now slot
  · rw [same]
    exact unique
  · rw [same]
    exact unique.release slot

end Steps

-- The calls that check the constraints or cannot break them. The batch calls
-- check none.
def Call.plain : Call → Bool
  | .insert _ _ | .update _ _ _ | .delete _ _ | .setLowPowerMode _ _ => true
  | .batchInsert _ _ _ | .timeSeriesBatchInsert _ _ _ => false

theorem call_tdef {table : MemoryTable} (codecs : Codecs) (tx : TransactionManager) (call : Call)
    (plain : call.plain = true) : (table.call codecs tx call).1.tdef = table.tdef := by
  cases call with
  | insert now data =>
    change (table.insert tx now data).2.1.tdef = table.tdef
    obtain ⟨failure,same⟩ | ⟨slot,image,logged,result,_,_,same,placed⟩ := insert_cases table tx now data
    · rw [same]
    · rw [same]
      rcases placed with ⟨_,_,_,key,rfl⟩ | ⟨_,rest,key,_,rfl⟩
      · rfl
      · rfl
  | update now slot data =>
    change (table.update tx now slot data).2.1.tdef = table.tdef
    obtain ⟨failure,same⟩ | ⟨_,_,same⟩ := update_cases table tx now slot data
    · rw [same]
    · rw [same]
      rfl
  | delete now slot =>
    change (table.delete tx now slot).2.1.tdef = table.tdef
    obtain same | ⟨_,_,same⟩ := delete_cases table tx now slot
    · rw [same]
    · rw [same]
      exact (release_parts table slot).1
  | setLowPowerMode enabled maxRecords => rfl
  | batchInsert _ _ _ | timeSeriesBatchInsert _ _ _ => cases plain

theorem call_unique {table : MemoryTable} (codecs : Codecs) (tx : TransactionManager) (call : Call)
    (plain : call.plain = true) (unique : Unique table) : Unique (table.call codecs tx call).1 := by
  cases call with
  | insert now data => exact insert_unique unique tx now data
  | update now slot data => exact update_unique unique tx now slot data
  | delete now slot => exact delete_unique unique tx now slot
  | setLowPowerMode enabled maxRecords => exact ⟨unique.untouched,unique.apart⟩
  | batchInsert _ _ _ | timeSeriesBatchInsert _ _ _ => cases plain

theorem new_unique {tdef : TableDef} {memory : Memory} {table : MemoryTable}
    (zeroed : ∀ slot, Untouched (memory slot).1) (made : new tdef (some memory) = .ok table) :
    Unique table ∧ table.tdef = tdef := by
  unfold new newWithOptions at made
  split at made
  · cases made
  · cases made
    refine ⟨⟨fun slot => zeroed slot,?_⟩,rfl⟩
    intro left right _ _ _ used
    simp [MemoryTable.used] at used

theorem run_unique {table : MemoryTable} (codecs : Codecs) (calls : List (TransactionManager × Call))
    (plain : ∀ entry ∈ calls, entry.2.plain = true) (unique : Unique table) :
    Unique (table.run codecs calls) ∧ (table.run codecs calls).tdef = table.tdef := by
  induction calls generalizing table with
  | nil => exact ⟨unique,rfl⟩
  | cons entry rest ih =>
    have here := plain entry List.mem_cons_self
    obtain ⟨last,tdef⟩ := ih (fun each present => plain each (List.mem_cons_of_mem _ present))
      (call_unique codecs entry.1 entry.2 here unique)
    exact ⟨last,tdef.trans (call_tdef codecs entry.1 entry.2 here)⟩

-- Whatever the transaction counter is at each call: two used slots never agree
-- on the whole primary key, nor on a unique column outside of it.
theorem run_keeps_unique (codecs : Codecs) (tdef : TableDef) (memory : Memory) (table : MemoryTable)
    (zeroed : ∀ slot, (memory slot).1.create_tx_id = 0 ∧ (memory slot).1.delete_tx_id = 0)
    (made : new tdef (some memory) = .ok table) (calls : List (TransactionManager × Call))
    (plain : ∀ entry ∈ calls, entry.2.plain = true) (left right : Nat) :
    let reached := table.run codecs calls
    left < tdef.max_records → right < tdef.max_records → left ≠ right →
    (reached.status left).status = .used → (reached.status right).status = .used →
      (tdef.primary_key ≠ [] → ∃ field ∈ tdef.keyFields,
        field.sameValue (reached.records left) (reached.records right) = false) ∧
      ∀ field ∈ tdef.fields, field.unique = true → field.primary_key = false →
        field.sameValue (reached.records left) (reached.records right) = false := by
  intro reached inLeft inRight different usedLeft usedRight
  obtain ⟨start,same⟩ := new_unique zeroed made
  obtain ⟨unique,kept⟩ := run_unique codecs calls plain start
  have whole := kept.trans same
  have apart := unique.apart left right (whole ▸ inLeft) (whole ▸ inRight) different
    (decide_eq_true usedLeft) (decide_eq_true usedRight)
  rw [whole] at apart
  obtain ⟨key,columns⟩ := Bool.or_eq_false_iff.mp apart
  constructor
  · intro keyed
    have some_differs : tdef.keyFields.all (·.sameValue (reached.records left) (reached.records right)) = false := by
      rw [TableDef.sameKey,decide_eq_true keyed,Bool.true_and] at key
      exact key
    obtain ⟨field,among,differs⟩ := List.all_eq_false.mp some_differs
    exact ⟨field,among,Bool.eq_false_iff.mpr differs⟩
  · intro field among marked outside
    refine Bool.eq_false_iff.mpr (List.any_eq_false.mp columns field ?_)
    rw [List.mem_filter,marked,outside]
    exact ⟨among,rfl⟩

-- A key of one byte with a unique byte behind it.
def keyedDef : TableDef :=
  ⟨1,"keyed",[⟨"key",.uint8,1,none,0,true,true,false,false,none⟩,
    ⟨"code",.uint8,1,none,1,false,false,true,false,none⟩],[0],2,2⟩

-- Two records go in; the third has the code of the first and is refused.
theorem keyed_run_unique : ∃ table, new keyedDef (some blank) = .ok table ∧
    let reached := table.run plainBuild [(noTx,.insert 0 [1,7]),(noTx,.insert 0 [2,8]),(noTx,.insert 0 [3,7])]
    (reached.status 0).status = .used ∧ (reached.status 1).status = .used ∧
      (∃ field ∈ keyedDef.keyFields, field.sameValue (reached.records 0) (reached.records 1) = false) :=
  ⟨_,rfl,by decide +kernel,by decide +kernel,
    (run_keeps_unique plainBuild keyedDef blank _ (fun _ => ⟨rfl,rfl⟩) rfl _ (by decide) 0 1 (by decide) (by decide)
      (by decide) (by decide +kernel) (by decide +kernel)).1 (by decide)⟩

end MemoryTable
end RemDb
