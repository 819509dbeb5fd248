import RemDb.Wal.Layout

namespace RemDb.Wal
open RemDb.Lib

-- The public operations of the log manager. `reopen` drops the manager and
-- opens the file it leaves, after a `close` or without one.
inductive Call where
  | write (env : Env) (item : VariableSizeLogItem)
  | checkpoint (env : Env)
  | flush (env : Env)
  | close (env : Env)
  | reopen (config : WALConfig) (now : UInt64) (pad : Nat → UInt8)

namespace LogManager

def call (codecs : Codecs) (manager : LogManager) : Call → LogManager
  | .write env item => (manager.writeVariableSizeLogItem codecs env item).2
  | .checkpoint env => manager.createCheckpoint env
  | .flush env => manager.flushBuffer env
  | .close env => manager.close env
  | .reopen config now pad => new config now pad ⟨manager.log_handle.contents,[]⟩

-- The positioned writes one call makes, in order.
def issued (codecs : Codecs) (manager : LogManager) : Call → List Write
  | .reopen config now pad => (new config now pad ⟨manager.log_handle.contents,[]⟩).log_handle.journal
  | other => (manager.call codecs other).log_handle.journal.drop manager.log_handle.journal.length

def checkpointRecord (manager : LogManager) (env : Env) : Write :=
  ⟨manager.recordOffset,(checkpointItem env.checkpoint).encode env.pad⟩

-- The log records one call completes. Nothing enters `log_buffer`, so a flush
-- completes none; a write takes a due checkpoint first.
def completed (codecs : Codecs) (manager : LogManager) : Call → List Write
  | .write env item =>
    let due := if manager.CheckpointDue env then [manager.checkpointRecord env] else []
    match record codecs manager.compression_type env.pad item with
    | .ok bytes => due ++ [⟨manager.current_log_offset,bytes⟩]
    | .error _ => due
  | .checkpoint env => [manager.checkpointRecord env]
  | .close env => [manager.checkpointRecord env]
  | .flush _ => []
  | .reopen .. => []

end LogManager

-- A run's state: the manager, the records completed so far, and whether the
-- manager was opened on a log without records and took no checkpoint since.
structure Log where
  manager : LogManager
  records : List Write
  fresh : Bool

namespace Log

def fresh_after (log : Log) : Call → Bool
  | .write env _ => log.fresh && decide ¬log.manager.CheckpointDue env
  | .checkpoint _ => false
  | .close _ => false
  | .flush _ => log.fresh
  | .reopen .. => log.records.isEmpty

def step (codecs : Codecs) (log : Log) (call : Call) : Log :=
  ⟨log.manager.call codecs call,log.records ++ log.manager.completed codecs call,log.fresh_after call⟩

def run (codecs : Codecs) (log : Log) (calls : List Call) : Log := calls.foldl (step codecs) log

-- No record carries a payload.
def Bare (log : Log) : Prop := ∀ record ∈ log.records, record.bytes.length = logItemSize

-- When a call finds the end of the log. An append needs a manager that knows
-- it, a checkpoint a log in which counting headers gives it.
def Allowed (log : Log) : Call → Prop
  | .write env _ => log.fresh = true ∧ ¬log.manager.CheckpointDue env ∧ log.records.length+1 < 2^32
  | .checkpoint _ => log.Bare ∧ log.records.length+1 < 2^32
  | .close _ => log.Bare ∧ log.records.length+1 < 2^32
  | .flush _ => True
  | .reopen .. => True

instance (log : Log) : Decidable log.Bare := inferInstanceAs (Decidable (∀ record ∈ log.records, _))

instance (log : Log) : (call : Call) → Decidable (log.Allowed call)
  | .write .. => inferInstanceAs (Decidable (_ ∧ _ ∧ _))
  | .checkpoint _ => inferInstanceAs (Decidable (_ ∧ _))
  | .close _ => inferInstanceAs (Decidable (_ ∧ _))
  | .flush _ => isTrue trivial
  | .reopen .. => isTrue trivial

def Disciplined (codecs : Codecs) (log : Log) : List Call → Prop
  | [] => True
  | call :: rest => log.Allowed call ∧ (log.step codecs call).Disciplined codecs rest

instance decidableDisciplined (codecs : Codecs) : (log : Log) → (calls : List Call) →
    Decidable (log.Disciplined codecs calls)
  | _,[] => isTrue trivial
  | log,call :: rest =>
    have := decidableDisciplined codecs (log.step codecs call) rest
    inferInstanceAs (Decidable (log.Allowed call ∧ _))

end Log

-- Records standing one behind the other from an offset on.
def Chained : Nat → List Write → Prop
  | _,[] => True
  | offset,record :: rest => record.offset = offset ∧ Chained (offset+record.bytes.length) rest

def extent (records : List Write) : Nat := (records.map fun record => record.bytes.length).sum

def Apart (write record : Write) : Prop :=
  record.offset+record.bytes.length ≤ write.offset ∨ write.offset+write.bytes.length ≤ record.offset

-- A file that holds a log: its header can be read back and counts the records,
-- which fill the log region from its start.
structure Stored (file : Bytes) (records : List Write) : Prop where
  headed : logHeaderSize ≤ file.length
  magic : (LogHeader.decode (readAt file 0 logHeaderSize)).magic = logMagic
  version : (LogHeader.decode (readAt file 0 logHeaderSize)).version = 1
  count : (LogHeader.decode (readAt file 0 logHeaderSize)).record_count.toNat = records.length
  chained : Chained logRegionStart records
  large : ∀ record ∈ records, logItemSize ≤ record.bytes.length
  kept : ∀ record ∈ records, readAt file record.offset record.bytes.length = record.bytes

-- What every disciplined run maintains.
structure Intact (log : Log) : Prop where
  stored : Stored log.manager.log_handle.contents log.records
  header : LogHeader.decode (readAt log.manager.log_handle.contents 0 logHeaderSize) = log.manager.header
  idle : log.manager.log_buffer = []
  atEnd : log.fresh = true → log.manager.current_log_offset = logRegionStart+extent log.records

section Chains
variable {records more : List Write} {record : Write} {offset : Nat}

theorem chained_append (first : Chained offset records) (second : Chained (offset+extent records) more) :
    Chained offset (records ++ more) := by
  induction records generalizing offset with
  | nil => simpa [extent] using second
  | cons record rest ih =>
    refine ⟨first.1,ih first.2 ?_⟩
    simpa [extent,Nat.add_assoc] using second

theorem chained_bounds (chained : Chained offset records) (member : record ∈ records) :
    offset ≤ record.offset ∧ record.offset+record.bytes.length ≤ offset+extent records := by
  induction records generalizing offset with
  | nil => cases member
  | cons head rest ih =>
    have total : extent (head :: rest) = head.bytes.length+extent rest := rfl
    rcases List.mem_cons.mp member with rfl | member
    · have start := chained.1
      omega
    · have inside := ih chained.2 member
      omega

theorem extent_bare (bare : ∀ record ∈ records, record.bytes.length = logItemSize) :
    extent records = records.length*logItemSize := by
  induction records with
  | nil => simp [extent]
  | cons record rest ih =>
    have head := bare record List.mem_cons_self
    have tail := ih fun each member => bare each (List.mem_cons_of_mem _ member)
    have total : extent (record :: rest) = record.bytes.length+extent rest := rfl
    rw [total,head,tail,List.length_cons,Nat.add_mul]
    omega

end Chains

section Files
variable {file : Bytes} {records : List Write}

theorem Stored.inside (holds : Stored file records) (member : record ∈ records) :
    record.offset+record.bytes.length ≤ file.length := by
  have size := congrArg List.length (holds.kept record member)
  have large := holds.large record member
  rw [readAt_length] at size
  simp only [logItemSize] at large
  omega

theorem readAt_writeAt_join (file first second : Bytes) (offset : Nat)
    (inside : offset+first.length ≤ file.length)
    (here : readAt file offset first.length = first) :
    readAt (writeAt file (offset+first.length) second) offset (first ++ second).length =
      first ++ second := by
  have split (image : Bytes) : readAt image offset (first.length+second.length) =
      readAt image offset first.length ++ readAt image (offset+first.length) second.length := by
    simp [readAt,List.take_add,List.drop_drop]
  rw [List.length_append,split,readAt_writeAt_frame _ _ _ _ _ inside (.inl (Nat.le_refl _)),here,
    readAt_writeAt_self]

-- The header is the last thing a counting operation writes.
theorem stored_write (holds : Stored file records) (writes : List Write) (header : LogHeader)
    (pad : Nat → UInt8) (record : Write)
    (apart : ∀ write ∈ writes, ∀ old ∈ records, Apart write old)
    (placed : record.offset = logRegionStart+extent records) (large : logItemSize ≤ record.bytes.length)
    (written : readAt (applyWrites file writes) record.offset record.bytes.length = record.bytes)
    (magic : header.magic = logMagic) (version : header.version = 1)
    (count : header.record_count.toNat = records.length+1) :
    Stored (writeAt (applyWrites file writes) 0 (header.encode pad)) (records ++ [record]) ∧
      LogHeader.decode (readAt (writeAt (applyWrites file writes) 0 (header.encode pad)) 0 logHeaderSize) =
        header := by
  have sized := header_length pad header
  have decoded : LogHeader.decode (readAt (writeAt (applyWrites file writes) 0 (header.encode pad)) 0
      logHeaderSize) = header := by
    rw [← sized,readAt_writeAt_self,header_roundtrip]
  have grown := applyWrites_length_ge file writes
  have region : logHeaderSize ≤ logRegionStart := by decide
  have chained : Chained logRegionStart (records ++ [record]) :=
    chained_append holds.chained ⟨placed,trivial⟩
  refine ⟨⟨?_,by rw [decoded,magic],by rw [decoded,version],by simp [decoded,count],chained,?_,?_⟩,decoded⟩
  · rw [writeAt_length]
    have headed := holds.headed
    omega
  · intro each member
    rcases List.mem_append.mp member with member | member
    · exact holds.large each member
    · rw [List.mem_singleton.mp member]
      exact large
  · intro each member
    have bounds := chained_bounds chained member
    have before : readAt (applyWrites file writes) each.offset each.bytes.length = each.bytes := by
      rcases List.mem_append.mp member with member | member
      · rw [readAt_applyWrites_frame _ _ _ _ (holds.inside member)
          (fun write among => apart write among each member)]
        exact holds.kept each member
      · rw [List.mem_singleton.mp member]
        exact written
    have size := congrArg List.length before
    have some_bytes : 0 < each.bytes.length := by
      rcases List.mem_append.mp member with member | member
      · exact Nat.lt_of_lt_of_le (by decide) (holds.large each member)
      · rw [List.mem_singleton.mp member]
        exact Nat.lt_of_lt_of_le (by decide) large
    rw [readAt_length] at size
    rw [readAt_writeAt_frame _ _ _ _ _ (by omega) (.inr (by rw [sized]; omega)),before]

theorem stored_frame (holds : Stored file records) (writes : List Write)
    (behind : ∀ write ∈ writes, logRegionStart+extent records ≤ write.offset) :
    Stored (applyWrites file writes) records ∧
      readAt (applyWrites file writes) 0 logHeaderSize = readAt file 0 logHeaderSize := by
  have region : logHeaderSize ≤ logRegionStart := by decide
  have header : readAt (applyWrites file writes) 0 logHeaderSize = readAt file 0 logHeaderSize := by
    apply readAt_applyWrites_frame
    · have headed := holds.headed
      omega
    · intro write member
      have far := behind write member
      omega
  refine ⟨⟨holds.headed.trans (applyWrites_length_ge _ _),by rw [header]; exact holds.magic,
    by rw [header]; exact holds.version,by rw [header]; exact holds.count,holds.chained,holds.large,?_⟩,header⟩
  intro record member
  have bounds := chained_bounds holds.chained member
  rw [readAt_applyWrites_frame _ _ _ _ (holds.inside member) ?_]
  · exact holds.kept record member
  · intro write among
    have far := behind write among
    omega

end Files

section Calls
variable {codecs : Codecs} {log : Log} {file : Bytes} {records : List Write}

theorem contents_extend (disk : Disk) (writes : List Write) :
    Disk.contents {disk with journal:=disk.journal ++ writes} = applyWrites disk.contents writes :=
  applyWrites_append _ _ _

theorem readCheckpoint_only (manager : LogManager) :
    ∃ checkpoint, manager.readCheckpoint = {manager with checkpoint:=checkpoint} := by
  simp only [LogManager.readCheckpoint]
  split
  · exact ⟨_,rfl⟩
  · exact ⟨_,rfl⟩

theorem open_existing (holds : Stored file records) (config : WALConfig) (now : UInt64) (pad : Nat → UInt8) :
    (LogManager.new config now pad ⟨file,[]⟩).log_handle = ⟨file,[]⟩ ∧
      Intact ⟨LogManager.new config now pad ⟨file,[]⟩,records,records.isEmpty⟩ := by
  have contents : Disk.contents ⟨file,[]⟩ = file := rfl
  have whole : (readAt file 0 logHeaderSize).length ≥ logHeaderSize := by
    rw [readAt_length]
    have headed := holds.headed
    omega
  unfold LogManager.new
  simp only [contents]
  rw [if_pos ⟨whole,holds.magic,holds.version⟩]
  obtain ⟨checkpoint,same⟩ := readCheckpoint_only {LogManager.initial config now ⟨file,[]⟩ with
    header:=LogHeader.decode (readAt file 0 logHeaderSize)}
  rw [same]
  refine ⟨rfl,⟨holds,rfl,rfl,?_⟩⟩
  intro empty
  simp [List.isEmpty_iff.mp empty,extent,LogManager.initial]

theorem open_fresh (config : WALConfig) (now : UInt64) (pad : Nat → UInt8) :
    Intact ⟨LogManager.new config now pad ⟨[],[]⟩,[],true⟩ := by
  rw [new_fresh]
  generalize allocated : (LogManager.initial config now ⟨[],[]⟩).preallocate config.log_prealloc_size = manager
  have header : manager.header = ⟨logMagic,1,now,0,0,config.compression_type.toByte⟩ := by
    rw [← allocated]
    unfold LogManager.preallocate
    split <;> rfl
  have offset : manager.current_log_offset = logRegionStart := by
    rw [← allocated]
    unfold LogManager.preallocate
    split <;> rfl
  have idle : manager.log_buffer = [] := by
    rw [← allocated]
    unfold LogManager.preallocate
    split <;> rfl
  have decoded : LogHeader.decode (readAt (manager.writeHeader pad).log_handle.contents 0 logHeaderSize) =
      (manager.writeHeader pad).header := by
    have sized := header_length pad (manager.writeHeader pad).header
    rw [← sized]
    simp only [LogManager.writeHeader,contents_write,readAt_writeAt_self,header_roundtrip]
  refine ⟨⟨?_,?_,?_,?_,trivial,by simp,by simp⟩,decoded,idle,?_⟩
  · simp only [LogManager.writeHeader,contents_write,writeAt_length,header_length]
    omega
  · rw [decoded]
    simp [LogManager.writeHeader,header]
  · rw [decoded]
    simp [LogManager.writeHeader,header]
  · rw [decoded]
    simp [LogManager.writeHeader,header]
  · intro _
    simp [LogManager.writeHeader,offset,extent]

theorem count_next {count : UInt32} {total : Nat} (same : count.toNat = total) (room : total+1 < 2^32) :
    (count+1).toNat = total+1 := by
  rw [UInt32.toNat_add,same]
  exact Nat.mod_eq_of_lt room

theorem apart_before (chained : Chained logRegionStart records) (member : record ∈ records)
    (low : write.offset+write.bytes.length ≤ logRegionStart) : Apart write record :=
  .inr (low.trans (chained_bounds chained member).1)

theorem apart_behind (chained : Chained logRegionStart records) (member : record ∈ records)
    (behind : logRegionStart+extent records ≤ write.offset) : Apart write record :=
  .inl ((chained_bounds chained member).2.trans behind)

theorem record_added (pad : Nat → UInt8) (intact : Intact log) (writes : List Write) (record : Write)
    (next : LogManager) (fresh : Bool)
    (handle : next.log_handle = {log.manager.log_handle with
      journal:=log.manager.log_handle.journal ++ (writes ++ [⟨0,next.header.encode pad⟩])})
    (apart : ∀ write ∈ writes, ∀ old ∈ log.records, Apart write old)
    (placed : record.offset = logRegionStart+extent log.records) (large : logItemSize ≤ record.bytes.length)
    (present : readAt (applyWrites log.manager.log_handle.contents writes) record.offset record.bytes.length =
      record.bytes)
    (magic : next.header.magic = log.manager.header.magic)
    (version : next.header.version = log.manager.header.version)
    (count : next.header.record_count.toNat = log.records.length+1) (idle : next.log_buffer = [])
    (moved : fresh = true → next.current_log_offset = record.offset+record.bytes.length) :
    Intact ⟨next,log.records ++ [record],fresh⟩ ∧
      ∃ writes, next.log_handle.journal = log.manager.log_handle.journal ++ writes ∧
        ∀ write ∈ writes, ∀ old ∈ log.records, Apart write old := by
  obtain ⟨holds,header,_,_⟩ := intact
  rw [← header] at magic version
  have contents : next.log_handle.contents = writeAt (applyWrites log.manager.log_handle.contents writes) 0
      (next.header.encode pad) := by
    rw [handle,contents_extend,applyWrites_append]
    rfl
  obtain ⟨nextStored,nextDecoded⟩ := stored_write holds writes next.header pad record apart placed large present
    (magic.trans holds.magic) (version.trans holds.version) count
  refine ⟨⟨by rw [contents]; exact nextStored,by rw [contents]; exact nextDecoded,idle,?_⟩,_,by rw [handle],?_⟩
  · intro known
    simp only [moved known,placed,extent,List.map_append,List.sum_append,List.map_cons,List.map_nil,
      List.sum_cons,List.sum_nil]
    omega
  · intro write among old member
    rcases List.mem_append.mp among with among | last
    · exact apart write among old member
    · obtain rfl := List.mem_singleton.mp last
      exact apart_before holds.chained member (by rw [header_length]; exact Nat.le_add_right _ _)

theorem checkpoint_intact (env : Env) (intact : Intact log) (bare : log.Bare)
    (room : log.records.length+1 < 2^32) :
    Intact ⟨log.manager.createCheckpoint env,log.records ++ [log.manager.checkpointRecord env],false⟩ ∧
      ∃ writes, (log.manager.createCheckpoint env).log_handle.journal =
          log.manager.log_handle.journal ++ writes ∧
        ∀ write ∈ writes, ∀ record ∈ log.records, Apart write record := by
  have holds := intact.stored
  have counted := holds.count
  rw [intact.header] at counted
  have placed : log.manager.recordOffset = logRegionStart+extent log.records := by
    rw [LogManager.recordOffset,counted,extent_bare bare]
  generalize areaBytes : (log.manager.createCheckpoint env).checkpoint.encode = area
  have areaLength : area.length = logCheckpointSize := by rw [← areaBytes,checkpoint_length]
  have recordLength : (log.manager.checkpointRecord env).bytes.length = logItemSize := encode_length _ _
  have apart : ∀ write ∈ [log.manager.checkpointRecord env,⟨logHeaderSize,area⟩],
      ∀ record ∈ log.records, Apart write record := by
    intro write among record member
    simp only [List.mem_cons,List.not_mem_nil,or_false] at among
    rcases among with rfl | rfl
    · exact apart_behind holds.chained member (by rw [← placed]; exact Nat.le_refl _)
    · exact apart_before holds.chained member (by rw [areaLength]; exact Nat.le_refl _)
  have present : readAt (applyWrites log.manager.log_handle.contents
      [log.manager.checkpointRecord env,⟨logHeaderSize,area⟩]) log.manager.recordOffset
      (log.manager.checkpointRecord env).bytes.length = (log.manager.checkpointRecord env).bytes := by
    change readAt (writeAt (writeAt log.manager.log_handle.contents log.manager.recordOffset
      (log.manager.checkpointRecord env).bytes) logHeaderSize area) _ _ = _
    rw [readAt_writeAt_frame,readAt_writeAt_self]
    · rw [writeAt_length]
      omega
    · right
      rw [areaLength,placed]
      exact Nat.le_add_right _ _
  refine record_added env.pad intact _ _ _ false ?_ apart placed (Nat.le_of_eq recordLength.symm) present
    rfl rfl (count_next counted room) intact.idle (by simp)
  rw [← areaBytes]
  simp [LogManager.createCheckpoint,LogManager.writeHeader,LogManager.writeCheckpoint,Disk.write,
    LogManager.checkpointRecord]

theorem write_failed (intact : Intact log) (writes : List Write)
    (behind : ∀ write ∈ writes, logRegionStart+extent log.records ≤ write.offset)
    (offset : log.fresh = true) (next : LogManager)
    (same : next = {log.manager with log_handle:={log.manager.log_handle with
      journal:=log.manager.log_handle.journal ++ writes}}) :
    Intact ⟨next,log.records,true⟩ ∧ ∀ write ∈ writes, ∀ record ∈ log.records, Apart write record := by
  obtain ⟨holds,header,idle,atEnd⟩ := intact
  subst same
  obtain ⟨stillHolds,sameHeader⟩ := stored_frame holds writes behind
  refine ⟨⟨?_,?_,idle,fun _ => atEnd offset⟩,?_⟩
  · rw [contents_extend]
    exact stillHolds
  · rw [contents_extend,sameHeader]
    exact header
  · intro write among record member
    exact apart_behind holds.chained member (behind write among)

theorem write_done (pad : Nat → UInt8) (intact : Intact log) (fresh : log.fresh = true)
    (first old new : Bytes) (sized : first.length = logItemSize) (next : LogManager)
    (handle : next.log_handle = {log.manager.log_handle with journal:=log.manager.log_handle.journal ++
      [⟨log.manager.current_log_offset,first⟩,⟨log.manager.current_log_offset+logItemSize,old⟩,
        ⟨log.manager.current_log_offset+logItemSize+old.length,new⟩,⟨0,next.header.encode pad⟩]})
    (magic : next.header.magic = log.manager.header.magic)
    (version : next.header.version = log.manager.header.version)
    (count : next.header.record_count.toNat = log.records.length+1)
    (idle : next.log_buffer = [])
    (moved : next.current_log_offset =
      log.manager.current_log_offset+(logItemSize+old.length+new.length)) :
    Intact ⟨next,log.records ++ [⟨log.manager.current_log_offset,first ++ old ++ new⟩],true⟩ ∧
      ∃ writes, next.log_handle.journal = log.manager.log_handle.journal ++ writes ∧
        ∀ write ∈ writes, ∀ record ∈ log.records, Apart write record := by
  have offset := intact.atEnd fresh
  refine record_added pad intact [⟨log.manager.current_log_offset,first⟩,
    ⟨log.manager.current_log_offset+logItemSize,old⟩,
    ⟨log.manager.current_log_offset+logItemSize+old.length,new⟩]
    ⟨log.manager.current_log_offset,first ++ old ++ new⟩ next true handle ?_ offset
    (by simp only [List.length_append,sized]; omega) ?_ magic version count idle ?_
  · intro write among record member
    apply apart_behind intact.stored.chained member
    simp only [List.mem_cons,List.not_mem_nil,or_false] at among
    rcases among with rfl | rfl | rfl
    · exact Nat.le_of_eq offset.symm
    · rw [offset]
      exact Nat.le_add_right _ _
    · rw [offset,Nat.add_assoc]
      exact Nat.le_add_right _ _
  · have one := readAt_writeAt_self log.manager.log_handle.contents first log.manager.current_log_offset
    have two := readAt_writeAt_join _ first old log.manager.current_log_offset
      (by rw [writeAt_length]; omega) one
    have three := readAt_writeAt_join _ (first ++ old) new log.manager.current_log_offset
      (by rw [writeAt_length,List.length_append]; omega) two
    rw [List.length_append,sized,← Nat.add_assoc] at three
    exact three
  · intro _
    simp only [moved,List.length_append,sized]

theorem write_intact (env : Env) (item : VariableSizeLogItem) (intact : Intact log)
    (fresh : log.fresh = true) (early : ¬log.manager.CheckpointDue env)
    (room : log.records.length+1 < 2^32) :
    Intact ⟨(log.manager.writeVariableSizeLogItem codecs env item).2,
        log.records ++ log.manager.completed codecs (.write env item),true⟩ ∧
      ∃ writes, (log.manager.writeVariableSizeLogItem codecs env item).2.log_handle.journal =
          log.manager.log_handle.journal ++ writes ∧
        ∀ write ∈ writes, ∀ record ∈ log.records, Apart write record := by
  have offset := intact.atEnd fresh
  have started := LogManager.checkFlush_idle intact.idle early
  unfold LogManager.writeVariableSizeLogItem LogManager.completed LogManager.record
  simp only [started,if_neg early]
  cases oldPart : LogManager.packPart codecs log.manager.compression_type item.header.old_data_size
      item.old_data with
  | error failure =>
    obtain ⟨kept,apart⟩ := write_failed intact [⟨log.manager.current_log_offset,item.header.encode env.pad⟩]
      (by simp [offset]) fresh _ rfl
    exact ⟨by simpa [oldPart,bind,Except.bind,LogManager.put,Disk.write] using kept,_,rfl,apart⟩
  | ok old =>
    cases newPart : LogManager.packPart codecs log.manager.compression_type item.header.new_data_size
        item.new_data with
    | error failure =>
      obtain ⟨kept,apart⟩ := write_failed intact
        [⟨log.manager.current_log_offset,item.header.encode env.pad⟩,
          ⟨log.manager.current_log_offset+logItemSize,old⟩]
        (by simp only [List.mem_cons,List.not_mem_nil,or_false,forall_eq_or_imp,forall_eq,offset]; omega)
        fresh _ rfl
      exact ⟨by simpa [oldPart,newPart,bind,Except.bind,LogManager.put,Disk.write] using kept,_,
        by simp [LogManager.put,Disk.write],apart⟩
    | ok new =>
      have counted := intact.stored.count
      rw [intact.header] at counted
      simp only [bind,Except.bind,pure,Except.pure,List.nil_append]
      exact write_done env.pad intact fresh (item.header.encode env.pad) old new (encode_length _ _) _
        (by simp [LogManager.writeHeader,LogManager.put,Disk.write]) rfl rfl (count_next counted room)
        intact.idle rfl

theorem flush_idle (manager : LogManager) (env : Env) (idle : manager.log_buffer = []) :
    manager.flushBuffer env = manager := by
  unfold LogManager.flushBuffer
  rw [if_pos idle]

theorem issued_apart {next : LogManager}
    (added : ∃ writes, next.log_handle.journal = log.manager.log_handle.journal ++ writes ∧
      ∀ write ∈ writes, ∀ record ∈ log.records, Apart write record) :
    ∀ write ∈ next.log_handle.journal.drop log.manager.log_handle.journal.length,
      ∀ record ∈ log.records, Apart write record := by
  obtain ⟨writes,journal,apart⟩ := added
  rw [journal,List.drop_left]
  exact apart

theorem step_intact (call : Call) (intact : Intact log) (allowed : log.Allowed call) :
    Intact (log.step codecs call) ∧
      ∀ write ∈ log.manager.issued codecs call, ∀ record ∈ log.records, Apart write record := by
  cases call with
  | write env item =>
    obtain ⟨fresh,early,room⟩ := allowed
    obtain ⟨next,added⟩ := @write_intact codecs log env item intact fresh early room
    refine ⟨?_,issued_apart added⟩
    simpa [Log.step,Log.fresh_after,fresh,early,LogManager.call] using next
  | checkpoint env =>
    obtain ⟨next,added⟩ := checkpoint_intact env intact allowed.1 allowed.2
    exact ⟨next,issued_apart added⟩
  | close env =>
    have same : log.manager.close env = log.manager.createCheckpoint env := by
      rw [LogManager.close,flush_idle _ _ intact.idle]
    have checkpointed := checkpoint_intact env intact allowed.1 allowed.2
    rw [← same] at checkpointed
    exact ⟨checkpointed.1,issued_apart checkpointed.2⟩
  | flush env =>
    have same := flush_idle log.manager env intact.idle
    refine ⟨?_,?_⟩
    · change Intact ⟨log.manager.flushBuffer env,log.records ++ [],log.fresh⟩
      rw [same,List.append_nil]
      exact intact
    · apply issued_apart
      exact ⟨[],by rw [LogManager.call,same,List.append_nil],by simp⟩
  | reopen config now pad =>
    obtain ⟨handle,next⟩ := open_existing intact.stored config now pad
    refine ⟨?_,?_⟩
    · change Intact ⟨LogManager.new config now pad _,log.records ++ [],log.records.isEmpty⟩
      rw [List.append_nil]
      exact next
    · intro write among
      rw [LogManager.issued,handle] at among
      cases among

theorem run_intact (calls : List Call) (intact : Intact log) (disciplined : log.Disciplined codecs calls) :
    Intact (log.run codecs calls) := by
  induction calls generalizing log with
  | nil => exact intact
  | cons call rest ih => exact ih (step_intact call intact disciplined.1).1 disciplined.2

theorem run_append (first second : List Call) :
    log.run codecs (first ++ second) = (log.run codecs first).run codecs second := by
  simp [Log.run]

theorem disciplined_append (first second : List Call)
    (disciplined : log.Disciplined codecs (first ++ second)) :
    log.Disciplined codecs first ∧ (log.run codecs first).Disciplined codecs second := by
  induction first generalizing log with
  | nil => exact ⟨trivial,disciplined⟩
  | cons call rest ih =>
    obtain ⟨allowed,tail⟩ := disciplined
    obtain ⟨front,back⟩ := ih tail
    exact ⟨⟨allowed,front⟩,back⟩

theorem run_extends (calls : List Call) : log.records <+: (log.run codecs calls).records := by
  induction calls generalizing log with
  | nil => exact List.prefix_rfl
  | cons call rest ih => exact (List.prefix_append _ _).trans (@ih (log.step codecs call))

end Calls

-- A run starts by opening a fresh file, or a file that already holds a log.
inductive Opened : Log → Prop
  | fresh (config : WALConfig) (now : UInt64) (pad : Nat → UInt8) :
      Opened ⟨LogManager.new config now pad ⟨[],[]⟩,[],true⟩
  | existing (config : WALConfig) (now : UInt64) (pad : Nat → UInt8) (file : Bytes) (records : List Write) :
      Stored file records →
      Opened ⟨LogManager.new config now pad ⟨file,[]⟩,records,records.isEmpty⟩

theorem opened_intact (opened : Opened log) : Intact log := by
  cases opened with
  | fresh config now pad => exact open_fresh config now pad
  | existing config now pad file records holds => exact (open_existing holds config now pad).2

-- In a disciplined run the log only grows: at every point the records so far
-- stand unchanged where they were written, the header counts them, and the
-- next call writes into none of them.
theorem disciplined_append_only (codecs : Codecs) (log : Log) (opened : Opened log)
    (calls first second : List Call) (disciplined : log.Disciplined codecs calls)
    (split : calls = first ++ second) :
    let earlier := log.run codecs first
    let later := log.run codecs calls
    earlier.records <+: later.records ∧
      (∀ record ∈ earlier.records,
        readAt later.manager.log_handle.contents record.offset record.bytes.length = record.bytes) ∧
      later.manager.header.record_count.toNat = later.records.length ∧
      ∀ call ∈ second.head?, ∀ write ∈ earlier.manager.issued codecs call,
        ∀ record ∈ earlier.records, Apart write record := by
  subst split
  obtain ⟨front,back⟩ := disciplined_append first second disciplined
  have early := run_intact first (opened_intact opened) front
  have late := run_intact _ (opened_intact opened) disciplined
  have grown : (log.run codecs first).records <+: (log.run codecs (first ++ second)).records := by
    rw [run_append]
    exact run_extends second
  refine ⟨grown,?_,?_,?_⟩
  · intro record member
    exact late.stored.kept record (grown.subset member)
  · rw [← late.header]
    exact late.stored.count
  · intro call next
    cases second with
    | nil => cases next
    | cons head rest =>
      obtain rfl : head = call := by simpa using next
      exact (step_intact head early back.1).2

def standardLog : Log := ⟨LogManager.new .standard 0 still.pad ⟨[],[]⟩,[],true⟩
def headerOnly (record : UInt16) : VariableSizeLogItem := ⟨⟨.insert,1,record,0,0,1,7,0⟩,[],[]⟩

-- Two appends, a restart and a checkpoint at the end.
theorem bare_run_append_only :
    let calls : List Call := [.write still (headerOnly 0),.write still (headerOnly 1),.flush still,
      .reopen .standard 0 still.pad,.close still]
    standardLog.Disciplined plainBuild calls ∧
      (standardLog.run plainBuild calls).manager.header.record_count.toNat =
        (standardLog.run plainBuild calls).records.length := by
  have disciplined : standardLog.Disciplined plainBuild [.write still (headerOnly 0),
      .write still (headerOnly 1),.flush still,.reopen .standard 0 still.pad,.close still] := by
    decide +kernel
  exact ⟨disciplined,(disciplined_append_only plainBuild standardLog (.fresh .standard 0 still.pad)
    _ [] _ disciplined rfl).2.2.1⟩

-- After a restart the log offset is back at the start of the log region: the
-- next append replaces the first record.
theorem reopened_log_overwritten :
    Opened standardLog ∧
    ∃ record ∈ (standardLog.run plainBuild [.write still (headerOnly 0)]).records,
      readAt (standardLog.run plainBuild [.write still (headerOnly 0),.close still,
        .reopen .standard 0 still.pad,.write still (headerOnly 1)]).manager.log_handle.contents
        record.offset record.bytes.length ≠ record.bytes := by
  refine ⟨.fresh .standard 0 still.pad,⟨logRegionStart,(headerOnly 0).header.encode still.pad⟩,?_,?_⟩
  · decide +kernel
  · decide +kernel

end RemDb.Wal

