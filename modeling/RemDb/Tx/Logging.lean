import Mathlib.Data.List.Forall2
import RemDb.Tx.Rollback

namespace RemDb
open RemDb.Lib RemDb.Wal

-- What one successful call did, as its log item should tell it.
structure Change where
  operation : LogOperation
  table : UInt8
  slot : Nat
  old : Bytes
  new : Bytes
deriving DecidableEq,Repr

def Change.Fits (change : Change) : Prop :=
  change.slot < 2^16 ∧ change.old.length < 2^16 ∧ change.new.length < 2^16

-- The item carries the change: its slot and its sizes are sixteen bits wide.
structure Carries (change : Change) (item : VariableSizeLogItem) : Prop where
  operation : item.header.op_type = change.operation
  table : item.header.table_id = change.table
  slot : item.header.record_id.toNat = change.slot
  old : item.old_data = change.old
  new : item.new_data = change.new
  old_size : item.header.old_data_size.toNat = change.old.length
  new_size : item.header.new_data_size.toNat = change.new.length

namespace MemoryTable

def changeOf (table : MemoryTable) (tx : TransactionManager) : Call → Option Change
  | .insert now data =>
    match (table.insert tx now data).1 with
    | .ok slot => some ⟨.insert,table.tdef.id,slot,[],recordImage table.tdef.record_size data⟩
    | .error _ => none
  | .update now slot data =>
    match (table.update tx now slot data).1 with
    | .ok _ => some ⟨.update,table.tdef.id,slot,recordImage table.tdef.record_size (table.records slot),
        recordImage table.tdef.record_size data⟩
    | .error _ => none
  | .delete now slot =>
    match (table.delete tx now slot).1 with
    | .ok _ => some ⟨.delete,table.tdef.id,slot,recordImage table.tdef.record_size (table.records slot),[]⟩
    | .error _ => none
  | _ => none

end MemoryTable

-- A run of successful inserts, updates and deletes and what they did.
def Successful (codecs : Codecs) (state : Database × TransactionManager) :
    List (Nat × MemoryTable.Call) → List Change → Prop
  | [],[] => True
  | entry :: rest,change :: more =>
    (∃ table, state.1.table entry.1 = some table ∧ table.changeOf state.2 entry.2 = some change) ∧
      Successful codecs (step codecs state entry) rest more
  | _,_ => False

-- The item `begin_log_item` builds for a change.
def Change.item (change : Change) (tx : UInt32) (now : UInt64) : VariableSizeLogItem :=
  logItem tx change.operation change.table (UInt16.ofNat change.slot) now change.old change.new

theorem carries_item (change : Change) (tx : UInt32) (now : UInt64) :
    Carries change (change.item tx now) ↔ change.Fits := by
  have narrow (value : Nat) : (UInt16.ofNat value).toNat = value ↔ value < 2^16 := by
    rw [UInt16.toNat_ofNat']
    exact ⟨fun same => by omega,fun small => Nat.mod_eq_of_lt small⟩
  constructor
  · intro carries
    exact ⟨(narrow _).mp carries.slot,(narrow _).mp carries.old_size,(narrow _).mp carries.new_size⟩
  · intro fits
    exact ⟨rfl,rfl,(narrow _).mpr fits.1,rfl,rfl,(narrow _).mpr fits.2.1,(narrow _).mpr fits.2.2⟩

theorem call_logged {table : MemoryTable} {tx : TransactionManager} (codecs : Codecs) (call : MemoryTable.Call)
    (active : tx.current_tx = some current) (changed : table.changeOf tx call = some change) :
    (table.call codecs tx call).2.log_manager = tx.log_manager ∧
    ∃ now, (table.call codecs tx call).2.current_tx = some (current.beginLogItem change.operation change.table
      (UInt16.ofNat change.slot) now change.old change.new) := by
  have logged (operation : LogOperation) (id : UInt8) (record : UInt16) (now : UInt64) (old new : Bytes) :
      (tx.log operation id record now old new).current_tx =
        some (current.beginLogItem operation id record now old new) := by
    simp [TransactionManager.log,active]
  cases call with
  | insert now data =>
    obtain ⟨failure,same⟩ | ⟨slot,image,after,result,imageEq,afterEq,same,_⟩ := table.insert_cases tx now data
    · simp [MemoryTable.changeOf,same] at changed
    · simp only [MemoryTable.changeOf,same,Option.some.injEq] at changed
      subst changed
      simp only [MemoryTable.call,same]
      subst afterEq imageEq
      exact ⟨rfl,now,logged _ _ _ _ _ _⟩
  | update now slot data =>
    obtain ⟨failure,same⟩ | ⟨_,_,same⟩ := table.update_cases tx now slot data
    · simp [MemoryTable.changeOf,same] at changed
    · simp only [MemoryTable.changeOf,same,Option.some.injEq] at changed
      subst changed
      simp only [MemoryTable.call,same]
      exact ⟨rfl,now,logged _ _ _ _ _ _⟩
  | delete now slot =>
    obtain same | ⟨_,_,same⟩ := table.delete_cases tx now slot
    · simp [MemoryTable.changeOf,same] at changed
    · simp only [MemoryTable.changeOf,same,Option.some.injEq] at changed
      subst changed
      simp only [MemoryTable.call,same]
      exact ⟨rfl,now,logged _ _ _ _ _ _⟩
  | batchInsert clock records count => cases changed
  | timeSeriesBatchInsert clock records count => cases changed
  | setLowPowerMode enabled maxRecords => cases changed

-- The items a run asks for, in the order of its calls.
def itemsOf (tx : UInt32) (changes : List Change) (stamps : List UInt64) : List VariableSizeLogItem :=
  List.zipWith (fun change now => change.item tx now) changes stamps

theorem beginLogItem_items (tx : Transaction) (change : Change) (now : UInt64) (more : List VariableSizeLogItem) :
    let next := tx.beginLogItem change.operation change.table (UInt16.ofNat change.slot) now change.old change.new
    next.id = tx.id ∧ next.max_log_items = tx.max_log_items ∧ next.status = tx.status ∧
      next.log_items ++ more.take (next.max_log_items-next.log_items.length) =
        tx.log_items ++ (change.item tx.id now :: more).take (tx.max_log_items-tx.log_items.length) := by
  unfold Transaction.beginLogItem
  split
  · rename_i full
    have none_left : tx.max_log_items-tx.log_items.length = 0 := by omega
    simp [none_left]
  · rename_i room
    have left : tx.max_log_items-tx.log_items.length = (tx.max_log_items-(tx.log_items.length+1))+1 := by
      omega
    refine ⟨rfl,rfl,rfl,?_⟩
    rw [left,List.take_succ_cons]
    simp [Change.item]

theorem run_logged (codecs : Codecs) (calls : List (Nat × MemoryTable.Call)) (changes : List Change)
    {db : Database} {tx : TransactionManager} {current : Transaction} (active : tx.current_tx = some current)
    (successful : Successful codecs (db,tx) calls changes) :
    ∃ (stamps : List UInt64) (last : Transaction), stamps.length = changes.length ∧
      (runCalls codecs (db,tx) calls).2.current_tx = some last ∧
      (runCalls codecs (db,tx) calls).2.log_manager = tx.log_manager ∧ last.status = current.status ∧
      last.log_items = current.log_items ++
        (itemsOf current.id changes stamps).take (current.max_log_items-current.log_items.length) := by
  induction calls generalizing db tx current changes with
  | nil =>
    cases changes with
    | nil => exact ⟨[],current,rfl,active,rfl,rfl,by simp [itemsOf]⟩
    | cons => cases successful
  | cons entry rest ih =>
    cases changes with
    | nil => cases successful
    | cons change more =>
      obtain ⟨⟨table,here,changed⟩,remaining⟩ := successful
      obtain ⟨manager,now,logged⟩ := call_logged codecs entry.2 active changed
      have moved : step codecs (db,tx) entry =
          (db.setTable entry.1 (table.call codecs tx entry.2).1,(table.call codecs tx entry.2).2) := by
        simp only [step,here]
      rw [moved] at remaining
      obtain ⟨stamps,last,lengths,final,kept,status,items⟩ := ih more logged remaining
      obtain ⟨sameId,_,sameStatus,joined⟩ := beginLogItem_items current change now
        (itemsOf current.id more stamps)
      have folded : runCalls codecs (db,tx) (entry :: rest) =
          runCalls codecs (db.setTable entry.1 (table.call codecs tx entry.2).1,
            (table.call codecs tx entry.2).2) rest := by
        simp only [runCalls,List.foldl_cons,moved]
      rw [folded]
      refine ⟨now :: stamps,last,by simp [lengths],final,kept.trans manager,status.trans sameStatus,?_⟩
      rw [items,sameId]
      exact joined

-- Cut at the capacity of the buffer, the items still carry every change exactly
-- when none is cut and every change fits its item.
theorem carried_iff (tx : UInt32) (changes : List Change) (stamps : List UInt64) (capacity : Nat)
    (lengths : stamps.length = changes.length) :
    List.Forall₂ Carries changes ((itemsOf tx changes stamps).take capacity) ↔
      changes.length ≤ capacity ∧ ∀ change ∈ changes, change.Fits := by
  have all : List.Forall₂ Carries changes (itemsOf tx changes stamps) ↔ ∀ change ∈ changes, change.Fits := by
    induction changes generalizing stamps with
    | nil => simp [itemsOf]
    | cons change more ih =>
      cases stamps with
      | nil => cases lengths
      | cons now rest =>
        have tail := ih rest (by simpa using lengths)
        simp only [itemsOf,List.zipWith_cons_cons,List.forall₂_cons,carries_item,List.forall_mem_cons] at tail ⊢
        rw [tail]
  have size : (itemsOf tx changes stamps).length = changes.length := by simp [itemsOf,lengths]
  constructor
  · intro carried
    have equal := carried.length_eq
    rw [List.length_take,size] at equal
    rw [List.take_of_length_le (by omega)] at carried
    exact ⟨by omega,all.mp carried⟩
  · intro fits
    rw [List.take_of_length_le (by omega)]
    exact all.mpr fits.2

-- Commit hands the log manager exactly the buffered items, and these carry the
-- successful calls of the transaction exactly when the buffer took them all and
-- slots and images fit sixteen bits.
theorem committed_logged_iff (codecs : Codecs) (db : Database) (idle started : TransactionManager)
    (log : LogManager) (type : TransactionType) (buffer : Option Nat) (hasLog : Bool) (maxLogItems : Nat)
    (envs : Nat → Env) (calls : List (Nat × MemoryTable.Call)) (changes : List Change)
    (attached : idle.log_manager = some log)
    (begun : idle.start type buffer hasLog maxLogItems = (.ok (),started))
    (successful : Successful codecs (db,started) calls changes) :
    ∃ tx, (runCalls codecs (db,started) calls).2.current_tx = some tx ∧
      ((runCalls codecs (db,started) calls).2.commit codecs envs).1 =
        (log.writeItems codecs (tx.log_items.mapIdx fun index item => (envs index,item))).1 ∧
      ((runCalls codecs (db,started) calls).2.commit codecs envs).2.log_manager =
        some (log.writeItems codecs (tx.log_items.mapIdx fun index item => (envs index,item))).2 ∧
      (List.Forall₂ Carries changes tx.log_items ↔
        changes.length ≤ (if hasLog then maxLogItems else 0) ∧ ∀ change ∈ changes, change.Fits) := by
  have opened : ∃ current, started.current_tx = some current ∧ current.log_items = [] ∧
      current.status = .active ∧ current.max_log_items = (if hasLog then maxLogItems else 0) ∧
      started.log_manager = some log := by
    unfold TransactionManager.start at begun
    split at begun
    · cases begun
    · split at begun
      · cases begun
      · obtain rfl : _ = started := congrArg Prod.snd begun
        exact ⟨_,rfl,rfl,rfl,rfl,attached⟩
  obtain ⟨current,active,empty,alive,capacity,manager⟩ := opened
  obtain ⟨stamps,last,lengths,final,kept,status,items⟩ := run_logged codecs calls changes active successful
  rw [empty,List.nil_append,List.length_nil,Nat.sub_zero,capacity] at items
  have written : (runCalls codecs (db,started) calls).2.commit codecs envs =
      ((log.writeItems codecs (last.log_items.mapIdx fun index item => (envs index,item))).1,
        {(runCalls codecs (db,started) calls).2 with
          current_tx:=none,
          log_manager:=some (log.writeItems codecs
            (last.log_items.mapIdx fun index item => (envs index,item))).2}) := by
    unfold TransactionManager.commit
    simp only [final,Transaction.commitLogItem,status,alive,kept,manager]
    rfl
  refine ⟨last,final,by rw [written],by rw [written],?_⟩
  rw [items]
  exact carried_iff current.id changes stamps _ lengths

def loggedTx (maxLogItems : Nat) : TransactionManager :=
  ({MemoryTable.noTx with log_manager:=some (LogManager.new .standard 0 still.pad ⟨[],[]⟩)}.start
    .readWrite (some 1) true maxLogItems).2

def pairChanges : List Change := [⟨.insert,1,0,[],[5]⟩,⟨.insert,1,1,[],[6]⟩]

theorem pairChanges_successful (maxLogItems : Nat) :
    Successful plainBuild (pairDb,loggedTx maxLogItems) [(1,.insert 0 [5]),(1,.insert 0 [6])] pairChanges :=
  ⟨⟨_,rfl,rfl⟩,⟨_,rfl,rfl⟩,trivial⟩

theorem two_inserts_logged :
    ∃ tx, (runCalls plainBuild (pairDb,loggedTx 10) [(1,.insert 0 [5]),(1,.insert 0 [6])]).2.current_tx =
      some tx ∧ List.Forall₂ Carries pairChanges tx.log_items := by
  obtain ⟨tx,active,_,_,carried⟩ := committed_logged_iff plainBuild pairDb
    {MemoryTable.noTx with log_manager:=some (LogManager.new .standard 0 still.pad ⟨[],[]⟩)} (loggedTx 10) _
    .readWrite (some 1) true 10 (fun _ => still) _ pairChanges rfl rfl (pairChanges_successful 10)
  refine ⟨tx,active,carried.mpr ⟨by decide,?_⟩⟩
  intro change member
  simp only [pairChanges,List.mem_cons,List.not_mem_nil,or_false] at member
  rcases member with rfl | rfl
  · exact ⟨by decide,by decide,by decide⟩
  · exact ⟨by decide,by decide,by decide⟩

-- A buffer for one item: both inserts succeed, commit succeeds, and the log
-- has one record.
theorem second_insert_not_logged :
    Successful plainBuild (pairDb,loggedTx 1) [(1,.insert 0 [5]),(1,.insert 0 [6])] pairChanges ∧
      ((runCalls plainBuild (pairDb,loggedTx 1) [(1,.insert 0 [5]),(1,.insert 0 [6])]).2.commit plainBuild
        fun _ => still).1 = .ok () ∧
      (((runCalls plainBuild (pairDb,loggedTx 1) [(1,.insert 0 [5]),(1,.insert 0 [6])]).2.commit plainBuild
        fun _ => still).2.log_manager.map (·.header.record_count)) = some 1 := by
  refine ⟨pairChanges_successful 1,rfl,?_⟩
  decide +kernel

end RemDb
