import RemDb.Recovery.Replay

namespace RemDb
open RemDb.Lib RemDb.Wal

namespace MemoryTable

-- What the slave makes of a log item of a table, with the data it finds behind
-- the header. Its copies are as long as the data, whatever a record takes.
def applyInsert (table : MemoryTable) (slot : Nat) (tx : UInt32) (data : Bytes) : MemoryTable :=
  let bytes := memcpy (table.records slot) data data.length
  let copied := table.setRecord slot bytes
  let header := table.status slot
  let marked :=
    if table.used slot then
      copied.setStatus slot {header with version:=header.version+1,create_tx_id:=tx}
    else
      let taken := copied.setStatus slot ⟨.used,header.version+1,tx,0,0⟩
      {taken with record_count:=taken.record_count+1,free_slots:=redoFree taken.free_slots slot}
  marked.redoMaxPk bytes

def applyUpdate (table : MemoryTable) (slot : Nat) (tx : UInt32) (data : Bytes) : MemoryTable :=
  if table.used slot then
    let header := table.status slot
    (table.setRecord slot (memcpy (table.records slot) data data.length)).setStatus slot
      {header with version:=header.version+1,create_tx_id:=tx}
  else table

def applyItem (table : MemoryTable) (item : LogItem) (data : Bytes) : MemoryTable :=
  match item.op_type with
  | .insert => table.applyInsert item.record_id.toNat item.tx_id data
  | .delete => table.redoDelete item.record_id.toNat
  | .update => table.applyUpdate item.record_id.toNat item.tx_id data
  | _ => table

end MemoryTable

def Database.applyItem (db : Database) (item : LogItem) (data : Bytes) : Database :=
  match db.table item.table_id.toNat with
  | none => db
  | some table => db.setTable item.table_id.toNat (table.applyItem item data)

structure ReplicationManager where
  last_log_index : UInt32
  last_log_timestamp : UInt64
deriving DecidableEq,Repr

namespace ReplicationManager

def advance (manager : ReplicationManager) (item : LogItem) : ReplicationManager :=
  ⟨manager.last_log_index+1,item.timestamp⟩

-- The message is the header as it lies in memory, and nothing else.
def replicateWal (manager : ReplicationManager) (item : LogItem) (pad : Nat → UInt8) : ReplicationManager × Bytes :=
  (manager.advance item,item.encode pad)

-- The new data behind the header and the old data. `none` is a slice that
-- starts past the end of the message, which panics.
def logData (data : Bytes) (item : LogItem) : Option Bytes :=
  let log_data_start := logItemSize+item.old_data_size.toNat
  let log_data_end := log_data_start+item.new_data_size.toNat
  if log_data_end ≤ data.length then some (readAt data log_data_start item.new_data_size.toNat)
  else if log_data_start ≤ data.length then some (data.drop log_data_start)
  else none

-- `schema` stands for the items that make a table or an index.
def handleWalLog (schema : LogItem → Bytes → Database → Option Database) (slave : ReplicationManager × Database)
    (data : Bytes) : Option (ReplicationManager × Database) :=
  if data.length < logItemSize then some slave
  else
    (LogItem.decode data).bind fun item =>
      (logData data item).bind fun log_data =>
        (if item.op_type = .createTable ∨ item.op_type = .createIndex then schema item log_data slave.2
          else some (slave.2.applyItem item log_data)).map fun db => (slave.1.advance item,db)

theorem logData_header (item : LogItem) (pad : Nat → UInt8) :
    logData (item.encode pad) item = if item.old_data_size = 0 then some [] else none := by
  unfold logData
  dsimp only
  by_cases none_old : item.old_data_size = 0
  · rw [if_pos none_old,none_old,encode_length]
    split
    · rename_i whole
      have size : item.new_data_size.toNat = 0 := by
        change logItemSize+0+item.new_data_size.toNat ≤ logItemSize at whole
        omega
      rw [size]
      exact congrArg some (List.take_zero)
    · have start : logItemSize+UInt16.toNat 0 = logItemSize := rfl
      rw [start,if_pos (Nat.le_refl _)]
      exact congrArg some (List.drop_eq_nil_of_le (encode_length pad item).le)
  · have positive : 0 < item.old_data_size.toNat := by
      refine Nat.pos_of_ne_zero fun zero => none_old ?_
      exact UInt16.toNat_inj.mp zero
    rw [if_neg none_old,encode_length,if_neg (by omega),if_neg (by omega)]

theorem handleWalLog_header (schema : LogItem → Bytes → Database → Option Database)
    (slave : ReplicationManager × Database) (item : LogItem) (pad : Nat → UInt8)
    (record : item.op_type ≠ .createTable ∧ item.op_type ≠ .createIndex) :
    handleWalLog schema slave (item.encode pad) =
      if item.old_data_size = 0 then some (slave.1.advance item,slave.2.applyItem item []) else none := by
  unfold handleWalLog
  rw [if_neg (by rw [encode_length]; exact Nat.lt_irrefl _),item_roundtrip,Option.bind_some,logData_header]
  split
  · rw [Option.bind_some,if_neg (not_or.mpr record)]
    rfl
  · rfl

end ReplicationManager

namespace MemoryTable

-- The slave has the used slots of the master with their bytes, its counter and
-- its free stack.
structure Alike (original copy : MemoryTable) : Prop where
  tdef : copy.tdef = original.tdef
  used : copy.used = original.used
  records : ∀ slot, original.used slot = true → recordImage original.tdef.record_size (copy.records slot) =
    recordImage original.tdef.record_size (original.records slot)
  count : copy.record_count = original.record_count
  free : copy.free_slots = original.free_slots

theorem recordImage_image (size : Nat) (data : Bytes) : recordImage size (recordImage size data) = recordImage size data := by
  have whole := recordImage_exact (recordImage size data)
  rwa [recordImage_length] at whole

section Pieces
variable {table : MemoryTable}

theorem applyInsert_nil (table : MemoryTable) (slot : Nat) (tx : UInt32) :
    ∃ status key, table.applyInsert slot tx [] = {table with
      status:=status,max_pk:=key
      record_count:=if table.used slot then table.record_count else table.record_count+1
      free_slots:=if table.used slot then table.free_slots else redoFree table.free_slots slot} ∧
    (table.applyInsert slot tx []).used = assign table.used slot true := by
  have kept : assign table.records slot (table.records slot) = table.records := assign_held rfl
  unfold applyInsert
  dsimp only
  by_cases busy : table.used slot = true
  · obtain ⟨key,raised⟩ := redoMaxPk_only ((table.setRecord slot (memcpy (table.records slot) [] 0)).setStatus slot
      {table.status slot with version:=(table.status slot).version+1,create_tx_id:=tx}) (memcpy (table.records slot) [] 0)
    simp only [List.length_nil,busy,if_true]
    rw [raised]
    refine ⟨assign table.status slot
      {table.status slot with version:=(table.status slot).version+1,create_tx_id:=tx},key,?_,
      mark_used _ (of_decide_eq_true busy)⟩
    simp only [setRecord,setStatus,memcpy,List.take_nil,List.nil_append,List.drop_zero,kept]
  · simp only [List.length_nil,busy,Bool.false_eq_true,if_false]
    obtain ⟨key,raised⟩ := redoMaxPk_only
      {(table.setRecord slot (memcpy (table.records slot) [] 0)).setStatus slot
        ⟨.used,(table.status slot).version+1,tx,0,0⟩ with
        record_count:=table.record_count+1,free_slots:=redoFree table.free_slots slot} (memcpy (table.records slot) [] 0)
    have marked : ((table.setRecord slot (memcpy (table.records slot) [] 0)).setStatus slot
        ⟨.used,(table.status slot).version+1,tx,0,0⟩).used = assign table.used slot true := mark_used _ rfl
    refine ⟨assign table.status slot ⟨.used,(table.status slot).version+1,tx,0,0⟩,key,?_,?_⟩
    · refine raised.trans ?_
      simp only [setRecord,setStatus,memcpy,List.take_nil,List.nil_append,List.drop_zero,kept]
    · exact (congrArg MemoryTable.used raised).trans marked

theorem applyUpdate_nil (table : MemoryTable) (slot : Nat) (tx : UInt32) :
    ∃ status, table.applyUpdate slot tx [] = {table with status:=status} ∧
      (table.applyUpdate slot tx []).used = table.used := by
  have kept : assign table.records slot (table.records slot) = table.records := assign_held rfl
  unfold applyUpdate
  split
  · rename_i busy
    have marked : ((table.setRecord slot (memcpy (table.records slot) [] 0)).setStatus slot
        {table.status slot with version:=(table.status slot).version+1,create_tx_id:=tx}).used =
          assign table.used slot true := mark_used _ (of_decide_eq_true busy)
    refine ⟨assign table.status slot
      {table.status slot with version:=(table.status slot).version+1,create_tx_id:=tx},?_,
      marked.trans (assign_held busy)⟩
    simp only [setRecord,setStatus,memcpy,List.length_nil,List.take_nil,List.nil_append,List.drop_zero,kept]
  · exact ⟨table.status,rfl,rfl⟩

theorem release_alike {original copy : MemoryTable} (alike : original.Alike copy) (slot : Nat) :
    (original.release slot).Alike (copy.release slot) := by
  obtain ⟨tdef,used,records,count,free⟩ := alike
  have parts (table : MemoryTable) : (table.release slot).tdef = table.tdef ∧
      (table.release slot).records = assign table.records slot (List.replicate table.tdef.record_size 0) ∧
      (table.release slot).record_count = usizeSub table.record_count 1 ∧
      (table.release slot).free_slots =
        if table.free_slots.length < table.tdef.max_records then table.free_slots ++ [slot] else table.free_slots := by
    by_cases room : table.free_slots.length < table.tdef.max_records
    · simp [release,pushFree,setStatus,setRecord,room]
    · simp [release,pushFree,setStatus,setRecord,room]
  refine ⟨?_,?_,?_,?_,?_⟩
  · rw [(parts copy).1,(parts original).1,tdef]
  · rw [release_used,release_used,used]
  · intro other marked
    rw [release_used] at marked
    have different : other ≠ slot := by
      rintro rfl
      rw [assign_same] at marked
      cases marked
    rw [assign_other _ different] at marked
    rw [(parts copy).2.1,(parts original).2.1,(parts original).1,assign_other _ different,assign_other _ different]
    exact records other marked
  · rw [(parts copy).2.2.1,(parts original).2.2.1,count]
  · rw [(parts copy).2.2.2,(parts original).2.2.2,free,tdef]

theorem swapRemove_top (front : List Nat) (slot : Nat) : swapRemove (front ++ [slot]) slot = front := by
  by_cases again : slot ∈ front
  · obtain ⟨before,after,rfl,fresh⟩ := List.eq_append_cons_of_mem again
    rw [List.append_assoc,List.cons_append,swapRemove_found before (after ++ [slot]) fresh,List.getLast?_concat]
    simp only [List.dropLast_concat]
  · exact swapRemove_last again

theorem redoFree_concat (front : List Nat) (slot : Nat) : redoFree (front ++ [slot]) slot = front := by
  rw [redoFree,if_neg (by simp),if_pos (by simp),swapRemove_top]

end Pieces

section Steps
variable {original copy : MemoryTable} {slot : Nat}

theorem narrow_slot (slot : Nat) : (UInt16.ofNat slot).toNat = slot % 2^16 := UInt16.toNat_ofNat'

-- An insert arrives when the slave has the bytes already and the item names the
-- slot, or another one that is in use where the insert overwrites.
theorem insert_alike_iff (alike : original.Alike copy) {tx logged : TransactionManager} {now : UInt64} {data : Bytes}
    {result : MemoryTable} (placed : original.insert tx now data = (.ok slot,result,logged)) (logTx : UInt32) :
    result.Alike (copy.applyInsert (slot % 2^16) logTx []) ↔
      recordImage original.tdef.record_size data = recordImage original.tdef.record_size (copy.records slot) ∧
        if original.record_count ≥ original.maxRecords then original.used (slot % 2^16) = true
        else original.used slot = false ∧ slot < 2^16 := by
  obtain ⟨tdef,used,records,count,free⟩ := alike
  obtain ⟨status,copy_key,applied,applied_used⟩ := applyInsert_nil copy (slot % 2^16) logTx
  obtain ⟨failure,same⟩ | ⟨place,image,noted,outcome,imageEq,_,same,cases⟩ := original.insert_cases tx now data
  · rw [same] at placed
    cases placed
  rw [same] at placed
  have both := Prod.mk.inj placed
  obtain rfl : slot = place := (Except.ok.inj both.1).symm
  obtain rfl : result = outcome := (Prod.mk.inj both.2).1.symm
  have stored_image : recordImage original.tdef.record_size image = image := by
    rw [imageEq,recordImage_image]
  rw [← imageEq]
  rcases cases with ⟨low,full,found,key,rfl⟩ | ⟨below,rest,key,shape,rfl⟩
  · obtain ⟨_,busy⟩ := oldest_used found
    have result_used : (original.store slot image true).used = original.used := by
      rw [store_used,assign_held busy]
    rw [if_pos full]
    constructor
    · intro after
      constructor
      · have bytes := after.records slot (by
          change (original.store slot image true).used slot = true
          rw [result_used,busy])
        rw [applied] at bytes
        change recordImage original.tdef.record_size (copy.records slot) =
          recordImage original.tdef.record_size (assign original.records slot image slot) at bytes
        rw [assign_same,stored_image] at bytes
        exact bytes.symm
      · have marks := congrFun after.used (slot % 2^16)
        rw [applied_used,assign_same] at marks
        change true = (original.store slot image true).used (slot % 2^16) at marks
        rw [result_used] at marks
        exact marks.symm
    · rintro ⟨bytes,named⟩
      have copy_busy : copy.used (slot % 2^16) = true := by rw [used,named]
      rw [copy_busy,if_pos rfl,if_pos rfl] at applied
      refine ⟨by rw [applied]; exact tdef,?_,?_,by rw [applied]; exact count,by rw [applied]; exact free⟩
      · rw [applied_used,assign_held copy_busy,used]
        exact result_used.symm
      · intro other marked
        change (original.store slot image true).used other = true at marked
        rw [result_used] at marked
        rw [applied]
        change recordImage original.tdef.record_size (copy.records other) =
          recordImage original.tdef.record_size (assign original.records slot image other)
        by_cases equal : other = slot
        · rw [equal,assign_same,stored_image,bytes]
        · rw [assign_other _ equal]
          exact records other marked
  · rw [if_neg (by omega)]
    constructor
    · intro after
      have idle : copy.used (slot % 2^16) = false := by
        by_contra busy
        have counted := after.count
        rw [applied,if_pos (by simpa using busy)] at counted
        change copy.record_count = original.record_count+1 at counted
        omega
      have same_slot : slot % 2^16 = slot := by
        by_contra different
        have marks := congrFun after.used (slot % 2^16)
        rw [applied_used,assign_same] at marks
        change true = (original.store slot image true).used (slot % 2^16) at marks
        rw [store_used,assign_other _ different,← used,idle] at marks
        cases marks
      have bytes := after.records slot (by
        change (original.store slot image true).used slot = true
        rw [store_used,assign_same])
      rw [applied] at bytes
      change recordImage original.tdef.record_size (copy.records slot) =
        recordImage original.tdef.record_size (assign original.records slot image slot) at bytes
      rw [assign_same,stored_image] at bytes
      exact ⟨bytes.symm,by rw [← used,← same_slot,idle],by omega⟩
    · rintro ⟨bytes,idle,small⟩
      have same_slot : slot % 2^16 = slot := Nat.mod_eq_of_lt small
      rw [same_slot] at applied applied_used ⊢
      have copy_idle : ¬ copy.used slot = true := by rw [used,idle]; exact Bool.false_ne_true
      rw [if_neg copy_idle,if_neg copy_idle] at applied
      refine ⟨by rw [applied]; exact tdef,?_,?_,?_,?_⟩
      · rw [applied_used,used]
        exact (store_used image true).symm
      · intro other marked
        change (original.store slot image true).used other = true at marked
        rw [store_used] at marked
        rw [applied]
        change recordImage original.tdef.record_size (copy.records other) =
          recordImage original.tdef.record_size (assign original.records slot image other)
        by_cases equal : other = slot
        · rw [equal,assign_same,stored_image,bytes]
        · rw [assign_other _ equal] at marked ⊢
          exact records other marked
      · rw [applied]
        exact congrArg (· + 1) count
      · rw [applied]
        change redoFree copy.free_slots slot = rest
        rw [free,shape,redoFree_concat]

theorem update_alike_iff (alike : original.Alike copy) (busy : original.used slot = true) (data : Bytes) (other : Nat)
    (logTx : UInt32) :
    (original.store slot (recordImage original.tdef.record_size data) true).Alike (copy.applyUpdate other logTx []) ↔
      recordImage original.tdef.record_size data = recordImage original.tdef.record_size (original.records slot) := by
  obtain ⟨tdef,used,records,count,free⟩ := alike
  obtain ⟨status,applied,applied_used⟩ := applyUpdate_nil copy other logTx
  have result_used : (original.store slot (recordImage original.tdef.record_size data) true).used = original.used := by
    rw [store_used,assign_held busy]
  constructor
  · intro after
    have bytes := after.records slot (by rw [result_used,busy])
    rw [applied] at bytes
    change recordImage original.tdef.record_size (copy.records slot) = recordImage original.tdef.record_size
      (assign original.records slot (recordImage original.tdef.record_size data) slot) at bytes
    rw [assign_same,recordImage_image,records slot busy] at bytes
    exact bytes.symm
  · intro bytes
    refine ⟨by rw [applied]; exact tdef,by rw [applied_used,result_used,used],?_,by rw [applied]; exact count,
      by rw [applied]; exact free⟩
    intro each marked
    rw [result_used] at marked
    rw [applied]
    change recordImage original.tdef.record_size (copy.records each) = recordImage original.tdef.record_size
      (assign original.records slot (recordImage original.tdef.record_size data) each)
    by_cases equal : each = slot
    · rw [equal,assign_same,recordImage_image,bytes]
      exact records slot busy
    · rw [assign_other _ equal]
      exact records each marked

theorem delete_alike_iff (alike : original.Alike copy) (busy : original.used slot = true) :
    (original.release slot).Alike (copy.redoDelete (slot % 2^16)) ↔ slot < 2^16 := by
  have copy_busy : copy.used slot = true := by rw [alike.used,busy]
  constructor
  · intro after
    by_contra large
    have different : slot ≠ slot % 2^16 := by
      have small := Nat.mod_lt slot (by decide : 0 < 2^16)
      omega
    have marks := congrFun after.used slot
    rw [release_used,assign_same,redoDelete] at marks
    split at marks
    · rw [release_used,assign_other _ different,copy_busy] at marks
      cases marks
    · rw [copy_busy] at marks
      cases marks
  · intro small
    rw [Nat.mod_eq_of_lt small,redoDelete,if_pos copy_busy]
    exact release_alike alike slot

end Steps

end MemoryTable

-- What a change has to be for its header alone to tell the slave enough: it
-- writes the bytes that are there, and no old data is announced.
def Change.NeedsNoData (change : Change) (original copy : MemoryTable) : Prop :=
  match change.operation with
  | .insert =>
    change.new = recordImage original.tdef.record_size (copy.records change.slot) ∧
      if original.record_count ≥ original.maxRecords then original.used (change.slot % 2^16) = true
      else original.used change.slot = false ∧ change.slot < 2^16
  | .update => change.old.length % 2^16 = 0 ∧ change.new = change.old
  | .delete => change.old.length % 2^16 = 0 ∧ change.slot < 2^16
  | _ => False

namespace MemoryTable

theorem size_zero_iff (length : Nat) : UInt16.ofNat length = 0 ↔ length % 2^16 = 0 := by
  rw [← UInt16.toNat_inj,UInt16.toNat_ofNat']
  exact Iff.rfl

theorem call_alike_iff {original copy : MemoryTable} (alike : original.Alike copy) {tx : TransactionManager} {call : Call}
    {change : Change} (changed : original.changeOf tx call = some change) (codecs : Codecs) (logTx : UInt32)
    (now : UInt64) :
    ((change.item logTx now).header.old_data_size = 0 ∧
      (original.call codecs tx call).1.Alike (copy.applyItem (change.item logTx now).header [])) ↔
    change.NeedsNoData original copy := by
  cases call with
  | insert time data =>
    unfold changeOf at changed
    dsimp only at changed
    split at changed
    · rename_i slot placed
      obtain rfl := Option.some.inj changed
      have parts : original.insert tx time data =
          (.ok slot,(original.insert tx time data).2.1,(original.insert tx time data).2.2) := by rw [← placed]
      have arrives := insert_alike_iff alike parts logTx
      rw [← narrow_slot slot] at arrives
      refine ⟨fun both => ?_,fun needs => ⟨rfl,arrives.mpr ?_⟩⟩
      · have reached := arrives.mp both.2
        rw [narrow_slot] at reached
        exact reached
      · rw [narrow_slot]
        exact needs
    · cases changed
  | update time slot data =>
    unfold changeOf at changed
    dsimp only at changed
    split at changed
    · obtain rfl := Option.some.inj changed
      rename_i done
      obtain ⟨failure,same⟩ | ⟨_,busy,same⟩ := original.update_cases tx time slot data
      · rw [same] at done
        cases done
      · have after : (original.call codecs tx (.update time slot data)).1 =
            original.store slot (recordImage original.tdef.record_size data) true := congrArg (·.2.1) same
        rw [after]
        exact and_congr (size_zero_iff _) (update_alike_iff alike busy data _ logTx)
    · cases changed
  | delete time slot =>
    unfold changeOf at changed
    dsimp only at changed
    split at changed
    · obtain rfl := Option.some.inj changed
      rename_i done
      obtain same | ⟨_,busy,same⟩ := original.delete_cases tx time slot
      · rw [same] at done
        cases done
      · have after : (original.call codecs tx (.delete time slot)).1 = original.release slot := congrArg (·.2.1) same
        have arrives := delete_alike_iff alike busy
        rw [← narrow_slot slot] at arrives
        rw [after]
        exact and_congr (size_zero_iff _) arrives
    · cases changed
  | batchInsert clock records count => cases changed
  | timeSeriesBatchInsert clock records count => cases changed
  | setLowPowerMode enabled maxRecords => cases changed

theorem changeOf_record {original : MemoryTable} {tx : TransactionManager} {call : Call} {change : Change}
    (changed : original.changeOf tx call = some change) :
    change.table = original.tdef.id ∧ change.operation ≠ .createTable ∧ change.operation ≠ .createIndex := by
  unfold changeOf at changed
  split at changed
  · split at changed
    · exact Option.some.inj changed ▸ ⟨rfl,nofun,nofun⟩
    · cases changed
  · split at changed
    · exact Option.some.inj changed ▸ ⟨rfl,nofun,nofun⟩
    · cases changed
  · split at changed
    · exact Option.some.inj changed ▸ ⟨rfl,nofun,nofun⟩
    · cases changed
  · cases changed

end MemoryTable

structure Replicated where
  place : Nat
  call : MemoryTable.Call
  change : Change
  tx_id : UInt32
  timestamp : UInt64
  pad : Nat → UInt8

namespace Replicated

def header (entry : Replicated) : LogItem := (entry.change.item entry.tx_id entry.timestamp).header

def messages : ReplicationManager → List Replicated → List Bytes
  | _, [] => []
  | manager, entry :: rest =>
    let sent := manager.replicateWal entry.header entry.pad
    sent.2 :: messages sent.1 rest

def calls (entries : List Replicated) : List (Nat × MemoryTable.Call) := entries.map fun entry => (entry.place,entry.call)

def changes (entries : List Replicated) : List Change := entries.map (·.change)

end Replicated

def receiveAll (schema : LogItem → Bytes → Database → Option Database) :
    ReplicationManager × Database → List Bytes → Option (ReplicationManager × Database)
  | slave, [] => some slave
  | slave, message :: rest => (ReplicationManager.handleWalLog schema slave message).bind (receiveAll schema · rest)

def Database.Alike (master slave : Database) : Prop :=
  ∀ place original copy, master.table place = some original → slave.table place = some copy →
    original.tdef.id.toNat = place ∧ original.Alike copy

section Runs
variable {codecs : Codecs} {schema : LogItem → Bytes → Database → Option Database}

theorem call_tdef (codecs : Codecs) {original : MemoryTable} {tx : TransactionManager} {call : MemoryTable.Call}
    {change : Change} (changed : original.changeOf tx call = some change) :
    (original.call codecs tx call).1.tdef = original.tdef := by
  cases call with
  | insert time data =>
    obtain ⟨failure,same⟩ | ⟨slot,image,logged,result,_,_,same,⟨_,_,_,key,rfl⟩ | ⟨_,rest,key,_,rfl⟩⟩ :=
      original.insert_cases tx time data
    · exact congrArg (·.2.1.tdef) same
    · exact congrArg (·.2.1.tdef) same
    · exact congrArg (·.2.1.tdef) same
  | update time slot data =>
    obtain ⟨failure,same⟩ | ⟨_,_,same⟩ := original.update_cases tx time slot data
    · exact congrArg (·.2.1.tdef) same
    · exact congrArg (·.2.1.tdef) same
  | delete time slot =>
    obtain same | ⟨_,_,same⟩ := original.delete_cases tx time slot
    · exact congrArg (·.2.1.tdef) same
    · refine (congrArg (·.2.1.tdef) same).trans ?_
      by_cases room : original.free_slots.length < original.tdef.max_records
      · simp [MemoryTable.release,MemoryTable.pushFree,MemoryTable.setStatus,MemoryTable.setRecord,room]
      · simp [MemoryTable.release,MemoryTable.pushFree,MemoryTable.setStatus,MemoryTable.setRecord,room]
  | batchInsert clock records count => cases changed
  | timeSeriesBatchInsert clock records count => cases changed
  | setLowPowerMode enabled maxRecords => cases changed

theorem message_alike_iff (codecs : Codecs) (schema : LogItem → Bytes → Database → Option Database)
    {master : Database × TransactionManager} {slave : ReplicationManager × Database} (alike : master.1.Alike slave.2) {entry : Replicated} {original copy : MemoryTable}
    (stands : master.1.table entry.place = some original) (present : slave.2.table entry.place = some copy)
    (changed : original.changeOf master.2 entry.call = some entry.change) :
    (∃ after, ReplicationManager.handleWalLog schema slave (entry.header.encode entry.pad) = some after ∧
      (step codecs master (entry.place,entry.call)).1.Alike after.2) ↔ entry.change.NeedsNoData original copy := by
  obtain ⟨named,same⟩ := alike entry.place original copy stands present
  obtain ⟨table_id,record⟩ := MemoryTable.changeOf_record changed
  have moved : (step codecs master (entry.place,entry.call)).1 =
      master.1.setTable entry.place (original.call codecs master.2 entry.call).1 := by
    simp only [step,stands]
  have addressed : entry.header.table_id.toNat = entry.place := by
    change entry.change.table.toNat = entry.place
    rw [table_id,named]
  have applied : slave.2.applyItem entry.header [] =
      slave.2.setTable entry.place (copy.applyItem entry.header []) := by
    simp only [Database.applyItem,addressed,present]
  have one := MemoryTable.call_alike_iff same changed codecs entry.tx_id entry.timestamp
  rw [ReplicationManager.handleWalLog_header schema slave entry.header entry.pad record,moved,applied,← one]
  constructor
  · rintro ⟨after,taken,reached⟩
    split at taken
    · rename_i none_old
      obtain rfl := Option.some.inj taken
      exact ⟨none_old,(reached entry.place _ _ (Database.table_set_same stands _)
        (Database.table_set_same present _)).2⟩
    · cases taken
  · rintro ⟨none_old,reached⟩
    refine ⟨_,if_pos none_old,?_⟩
    intro place first second at_master at_slave
    by_cases equal : place = entry.place
    · subst equal
      rw [Database.table_set_same stands] at at_master
      rw [Database.table_set_same present] at at_slave
      obtain rfl := Option.some.inj at_master
      obtain rfl := Option.some.inj at_slave
      exact ⟨by rw [call_tdef codecs changed]; exact named,reached⟩
    · rw [Database.table_set_other _ equal] at at_master at_slave
      exact alike place first second at_master at_slave

theorem applyItem_present {db : Database} (item : LogItem) (data : Bytes) {place : Nat} {table : MemoryTable}
    (stands : db.table place = some table) : ∃ after, (db.applyItem item data).table place = some after := by
  unfold Database.applyItem
  split
  · exact ⟨table,stands⟩
  · rename_i other found
    by_cases equal : place = item.table_id.toNat
    · exact ⟨_,by rw [equal]; exact Database.table_set_same found _⟩
    · exact ⟨table,(Database.table_set_other db equal _).trans stands⟩

-- After the first `count` messages the slave stands where the master stood after
-- the calls they are about.
def FollowedAfter (codecs : Codecs) (schema : LogItem → Bytes → Database → Option Database) (manager : ReplicationManager)
    (master : Database × TransactionManager) (slave : ReplicationManager × Database) (entries : List Replicated)
    (count : Nat) : Prop :=
  ∃ after, receiveAll schema slave (Replicated.messages manager (entries.take count)) = some after ∧
    (runCalls codecs master (Replicated.calls (entries.take count))).1.Alike after.2

-- No change of the run needs any data, each in the state it finds.
def Dataless (codecs : Codecs) (schema : LogItem → Bytes → Database → Option Database) :
    Database × TransactionManager → ReplicationManager × Database → List Replicated → Prop
  | _, _, [] => True
  | master, slave, entry :: rest =>
    (∀ original copy, master.1.table entry.place = some original → slave.2.table entry.place = some copy →
      entry.change.NeedsNoData original copy) ∧
    ∀ after, ReplicationManager.handleWalLog schema slave (entry.header.encode entry.pad) = some after →
      Dataless codecs schema (step codecs master (entry.place,entry.call)) after rest

theorem followedAfter_succ {manager : ReplicationManager} {master : Database × TransactionManager}
    {slave : ReplicationManager × Database} {entry : Replicated} {rest : List Replicated} {count : Nat} :
    FollowedAfter codecs schema manager master slave (entry :: rest) (count+1) ↔
      ∃ after, ReplicationManager.handleWalLog schema slave (entry.header.encode entry.pad) = some after ∧
        FollowedAfter codecs schema (manager.advance entry.header) (step codecs master (entry.place,entry.call)) after rest
          count := by
  constructor
  · rintro ⟨last,received,reached⟩
    obtain ⟨after,taken,received⟩ := Option.bind_eq_some_iff.mp received
    exact ⟨after,taken,last,received,reached⟩
  · rintro ⟨after,taken,last,received,reached⟩
    exact ⟨last,Option.bind_eq_some_iff.mpr ⟨after,taken,received⟩,reached⟩

theorem wal_followed_iff (manager : ReplicationManager) (master : Database × TransactionManager)
    (slave : ReplicationManager × Database) (entries : List Replicated) (alike : master.1.Alike slave.2)
    (committed : Successful codecs master (Replicated.calls entries) (Replicated.changes entries))
    (shared : ∀ entry ∈ entries, ∃ copy, slave.2.table entry.place = some copy) :
    (∀ count, FollowedAfter codecs schema manager master slave entries count) ↔
      Dataless codecs schema master slave entries := by
  induction entries generalizing manager master slave with
  | nil =>
    refine ⟨fun _ => trivial,fun _ count => ⟨slave,?_,?_⟩⟩
    · rw [List.take_nil]
      rfl
    · rw [List.take_nil]
      exact alike
  | cons entry rest ih =>
    obtain ⟨⟨original,stands,changed⟩,later⟩ := committed
    obtain ⟨copy,present⟩ := shared entry List.mem_cons_self
    have arrives := message_alike_iff codecs schema alike stands present changed
    -- What holds of the rest when the first message was taken.
    have others (after : ReplicationManager × Database)
        (taken : ReplicationManager.handleWalLog schema slave (entry.header.encode entry.pad) = some after)
        (reached : (step codecs master (entry.place,entry.call)).1.Alike after.2) :=
      ih (manager.advance entry.header) (step codecs master (entry.place,entry.call)) after reached later (by
        intro other member
        obtain ⟨table,found⟩ := shared other (List.mem_cons_of_mem _ member)
        rw [ReplicationManager.handleWalLog_header _ _ _ _ (MemoryTable.changeOf_record changed).2] at taken
        split at taken
        · obtain rfl := Option.some.inj taken
          exact applyItem_present _ _ found
        · cases taken)
    constructor
    · intro followed
      obtain ⟨first,taken,last,received,reached⟩ := followedAfter_succ.mp (followed 1)
      obtain rfl : first = last := by
        rw [List.take_zero] at received
        exact Option.some.inj received
      refine ⟨?_,?_⟩
      · intro one two at_master at_slave
        obtain rfl : original = one := Option.some.inj (stands.symm.trans at_master)
        obtain rfl : copy = two := Option.some.inj (present.symm.trans at_slave)
        exact arrives.mp ⟨first,taken,reached⟩
      · intro after taken_after
        obtain rfl : first = after := Option.some.inj (taken.symm.trans taken_after)
        refine (others first taken reached).mp fun count => ?_
        obtain ⟨next,taken_next,followed_next⟩ := followedAfter_succ.mp (followed (count+1))
        obtain rfl : first = next := Option.some.inj (taken.symm.trans taken_next)
        exact followed_next
    · rintro ⟨needs,dataless⟩ count
      obtain ⟨after,taken,reached⟩ := arrives.mpr (needs original copy stands present)
      cases count with
      | zero => exact ⟨slave,rfl,alike⟩
      | succ count =>
        exact followedAfter_succ.mpr ⟨after,taken,(others after taken reached).mpr (dataless after taken) count⟩

end Runs

section Bytes

def byteInserted (byte : UInt8) : Replicated :=
  ⟨1,.insert 0 [byte],⟨.insert,1,0,[],[byte]⟩,1,0,fun _ => 0⟩

theorem pairDb_table {place : Nat} {table : MemoryTable} (stands : pairDb.table place = some table) :
    place = 1 ∧ table = pairTable := by
  rcases place with _ | _ | more
  · cases stands
  · exact ⟨rfl,(Option.some.inj stands).symm⟩
  · cases stands

theorem pairDb_alike : pairDb.Alike pairDb := by
  intro place original copy at_master at_slave
  obtain ⟨rfl,rfl⟩ := pairDb_table at_master
  obtain ⟨_,rfl⟩ := pairDb_table at_slave
  exact ⟨rfl,rfl,rfl,fun _ _ => rfl,rfl,rfl⟩

-- A record of zeros goes where zeros are.
theorem wal_followed_iff_zero :
    FollowedAfter plainBuild (fun _ _ _ => none) ⟨0,0⟩ (pairDb,loggedTx 10) (⟨0,0⟩,pairDb) [byteInserted 0] 1 := by
  refine (wal_followed_iff ⟨0,0⟩ (pairDb,loggedTx 10) (⟨0,0⟩,pairDb) [byteInserted 0] pairDb_alike
    ⟨⟨_,rfl,rfl⟩,trivial⟩ ?_).mpr ?_ 1
  · intro entry among
    obtain rfl := List.mem_singleton.mp among
    exact ⟨pairTable,rfl⟩
  · refine ⟨?_,fun _ _ => trivial⟩
    intro original copy at_master at_slave
    obtain ⟨_,rfl⟩ := pairDb_table at_master
    obtain ⟨_,rfl⟩ := pairDb_table at_slave
    exact ⟨by decide,by decide⟩

-- Any other record arrives as zeros.
theorem inserted_byte_lost :
    ¬ FollowedAfter plainBuild (fun _ _ _ => none) ⟨0,0⟩ (pairDb,loggedTx 10) (⟨0,0⟩,pairDb) [byteInserted 5] 1 := by
  intro followed
  obtain ⟨first,taken,last,received,reached⟩ := followedAfter_succ.mp followed
  obtain rfl : first = last := Option.some.inj received
  have arrives := @message_alike_iff plainBuild (fun _ _ _ => none) (pairDb,loggedTx 10) (⟨0,0⟩,pairDb) pairDb_alike
    (byteInserted 5) pairTable pairTable rfl rfl rfl
  exact absurd (arrives.mp ⟨first,taken,reached⟩).1 (by decide)

end Bytes

end RemDb
