import RemDb.Wal.Layout

namespace RemDb.Wal
open RemDb.Lib

-- The same item logged at another time: the checksum covers the timestamp.
def restamp (item : VariableSizeLogItem) (stamp : UInt64) : VariableSizeLogItem :=
  let timed := {item with header:={item.header with timestamp:=stamp}}
  {timed with header:={timed.header with checksum:=calculateVariableSizeLogItemChecksum timed}}

def Retimes (item later : VariableSizeLogItem) : Prop :=
  later.header.timestamp ≠ 0 ∧ later = restamp item later.header.timestamp

-- No checkpoint falls due between opening the log and any of these appends.
def Quiet (config : WALConfig) (now : UInt64) (entries : List (Env × VariableSizeLogItem)) : Prop :=
  ∀ entry ∈ entries, ¬entry.1.check/1000-now/1000 ≥ config.checkpoint_interval_ms

-- Appending to a fresh log succeeds and phase 1 of recovery, run on the file
-- this leaves, ends with exactly the items appended.
def Recovers (codecs : Codecs) (config : WALConfig) (now : UInt64) (pad : Nat → UInt8)
    (entries : List (Env × VariableSizeLogItem)) : Prop :=
  ∃ manager found, (LogManager.new config now pad ⟨[],[]⟩).writeItems codecs entries = (.ok (),manager) ∧
    manager.Scans codecs manager.log_handle.contents found ∧
    found.map (·.2) = entries.map (·.2)

section Sizes
variable {codecs : Codecs} {type : WALCompressionType} {item later : VariableSizeLogItem}

theorem restamp_formed (old : item.header.old_data_size.toNat = item.old_data.length)
    (new : item.header.new_data_size.toNat = item.new_data.length) (stamped : stamp ≠ 0) :
    WellFormed (restamp item stamp) := ⟨old,new,rfl,stamped⟩

theorem restamp_self (formed : WellFormed item) : restamp item item.header.timestamp = item := by
  obtain ⟨header,old,new⟩ := item
  have sum : header.checksum = calculateVariableSizeLogItemChecksum ⟨header,old,new⟩ := formed.sum
  change VariableSizeLogItem.mk {header with
    checksum:=calculateVariableSizeLogItemChecksum ⟨header,old,new⟩} old new = _
  rw [← sum]

theorem restamp_stored (item : VariableSizeLogItem) (stamp : UInt64) :
    stored codecs type (restamp item stamp) = stored codecs type item := rfl

theorem storedPart_none (codecs : Codecs) (data : Bytes) :
    (storedPart codecs .none data).length = if data = [] then 0 else 4+data.length := by
  by_cases empty : data = []
  · simp [storedPart,empty]
  · simp [storedPart,empty,packed,compressWalData]

theorem aligned_none : (stored codecs .none item).length = plainSize item ↔
    item.old_data = [] ∧ item.new_data = [] := by
  simp only [stored,List.length_append,storedPart_none,plainSize]
  by_cases old : item.old_data = []
  · by_cases new : item.new_data = []
    · simp [old,new]
    · simp [old,new]
  · by_cases new : item.new_data = []
    · simp [old,new]
    · simp only [old,new,if_false,and_self,iff_false]
      omega

theorem aligned_readsBack (aligned : (stored codecs type item).length = plainSize item) :
    ReadsBack codecs type item := by
  intro plain
  subst plain
  obtain ⟨old,new⟩ := aligned_none.mp aligned
  simp [plainSize,old,new]

theorem advance_plain (formed : WellFormed item) :
    LogManager.advance item = logItemSize+plainSize item := by
  rw [LogManager.advance,formed.old_size,formed.new_size,plainSize]
  omega

theorem recordBytes_length : (recordBytes codecs type pad item).length =
    logItemSize+(stored codecs type item).length := by
  simp only [recordBytes,List.length_append,encode_length]

end Sizes

-- Every record but the last takes the room its plain payload would take, and
-- the last one reads back. Only its position matters for the scan to go on.
def Readable (codecs : Codecs) (type : WALCompressionType) (items : List VariableSizeLogItem) : Prop :=
  (∀ item ∈ items.dropLast, (stored codecs type item).length = plainSize item) ∧
    ∀ item ∈ items.getLast?, ReadsBack codecs type item

-- The last record ends less than one header behind the place the scan goes to.
def ShortTail (codecs : Codecs) (type : WALCompressionType) (items : List VariableSizeLogItem) : Prop :=
  ∀ item ∈ items.getLast?, (stored codecs type item).length < plainSize item+logItemSize

theorem shortTail_none (codecs : Codecs) (items : List VariableSizeLogItem) :
    ShortTail codecs .none items := by
  intro item _
  simp only [stored,List.length_append,storedPart_none,plainSize,logItemSize]
  split <;> split <;> simp_all <;> omega

def recordsOf (codecs : Codecs) (type : WALCompressionType)
    (entries : List (Env × VariableSizeLogItem)) : Bytes :=
  entries.flatMap fun entry => recordBytes codecs type entry.1.pad entry.2

section Writing
variable {codecs : Codecs} {manager : LogManager} {records : Bytes} {room : Nat}

theorem settings_type (same : settings next = settings manager) :
    next.compression_type = manager.compression_type := congrArg (·.config.compression_type) same

theorem settings_due (same : settings next = settings manager) (env : Env) :
    next.CheckpointDue env ↔ manager.CheckpointDue env := by
  have last : next.last_checkpoint_time = manager.last_checkpoint_time := congrArg (·.last_checkpoint_time) same
  have interval : next.checkpoint_interval_ms = manager.checkpoint_interval_ms :=
    congrArg (·.config.checkpoint_interval_ms) same
  unfold LogManager.CheckpointDue
  rw [last,interval]

theorem writeItems_appends (entries : List (Env × VariableSizeLogItem))
    (lawful : Lawful codecs manager.compression_type) (layout : Layout manager records room)
    (early : ∀ entry ∈ entries, ¬manager.CheckpointDue entry.1)
    (consistent : ∀ entry ∈ entries, Consistent entry.2) :
    ∃ next, manager.writeItems codecs entries = (.ok (),next) ∧
      (∃ left ≤ room, Layout next (records ++ recordsOf codecs manager.compression_type entries) left) ∧
      settings next = settings manager ∧
      next.header.record_count = manager.header.record_count+UInt32.ofNat entries.length := by
  induction entries generalizing manager records room with
  | nil => exact ⟨manager,rfl,⟨room,Nat.le_refl _,by simpa [recordsOf] using layout⟩,rfl,by simp⟩
  | cons entry rest ih =>
    obtain ⟨env,item⟩ := entry
    obtain ⟨middle,written,⟨left,leftLe,grown⟩,kept,counted⟩ := append_layout lawful layout
      (early _ List.mem_cons_self) (consistent _ List.mem_cons_self)
    have type := settings_type kept
    obtain ⟨next,rested,⟨final,finalLe,last⟩,same,total⟩ := ih (by rw [type]; exact lawful) grown
      (fun entry member => by
        rw [settings_due kept]
        exact early entry (List.mem_cons_of_mem _ member))
      (fun entry member => consistent entry (List.mem_cons_of_mem _ member))
    refine ⟨next,?_,⟨final,finalLe.trans leftLe,?_⟩,same.trans kept,?_⟩
    · rw [LogManager.writeItems,written]
      exact rested
    · simpa only [type,recordsOf,List.flatMap_cons,List.append_assoc] using last
    · rw [total,counted,List.length_cons,Nat.add_comm rest.length,UInt32.ofNat_add,UInt32.add_assoc]
      rfl

end Writing

section Scanning
variable {codecs : Codecs} {manager : LogManager} {type : WALCompressionType}

-- The invariant of the scan over well-placed records: it stands at the end of
-- what it has read, and takes the record that begins there.
theorem scan_record (manager : LogManager) (pad : Nat → UInt8) (fuel : Nat) (lawful : Lawful codecs type)
    (typed : .ofByte manager.header.compression_type = type)
    (formed : WellFormed item) (back : ReadsBack codecs type item) (before after : Bytes) :
    manager.scanFrom codecs (before ++ recordBytes codecs type pad item ++ after) (fuel+1)
        before.length 0 =
      (manager.scanFrom codecs (before ++ recordBytes codecs type pad item ++ after) fuel
        (before.length+LogManager.advance item) 0).map ((before.length,item) :: ·) := by
  have sized : (recordBytes codecs type pad item).length ≥ logItemSize := by
    rw [recordBytes_length]
    exact Nat.le_add_right _ _
  apply LogManager.scanFrom_taken
  · simp only [List.length_append,logItemSize] at *
    omega
  · rw [readAt_length]
    simp only [List.length_append,logItemSize] at *
    omega
  · rw [typed]
    exact (itemAt_record lawful formed before after).mpr back

theorem scan_aligned (entries : List (Env × VariableSizeLogItem)) (lawful : Lawful codecs type)
    (typed : .ofByte manager.header.compression_type = type)
    (formed : ∀ entry ∈ entries, WellFormed entry.2)
    (aligned : ∀ entry ∈ entries, (stored codecs type entry.2).length = plainSize entry.2)
    (before after : Bytes) :
    ∃ found, found.map (·.2) = entries.map (·.2) ∧ ∀ fuel,
      manager.scanFrom codecs (before ++ recordsOf codecs type entries ++ after)
          (fuel+entries.length) before.length 0 =
        (manager.scanFrom codecs (before ++ recordsOf codecs type entries ++ after) fuel
          (before ++ recordsOf codecs type entries).length 0).map (found ++ ·) := by
  induction entries generalizing before with
  | nil => exact ⟨[],rfl,fun fuel => by simp [recordsOf]⟩
  | cons entry entries ih =>
    obtain ⟨env,item⟩ := entry
    have itemFormed := formed _ List.mem_cons_self
    have itemAligned := aligned _ List.mem_cons_self
    have shape : before ++ recordsOf codecs type ((env,item) :: entries) =
        (before ++ recordBytes codecs type env.pad item) ++ recordsOf codecs type entries := by
      simp only [recordsOf,List.flatMap_cons,List.append_assoc]
    have position : before.length+LogManager.advance item =
        (before ++ recordBytes codecs type env.pad item).length := by
      rw [List.length_append,recordBytes_length,advance_plain itemFormed,itemAligned]
    obtain ⟨found,items,scanned⟩ := ih (fun entry member => formed entry (List.mem_cons_of_mem _ member))
      (fun entry member => aligned entry (List.mem_cons_of_mem _ member))
      (before ++ recordBytes codecs type env.pad item)
    refine ⟨(before.length,item) :: found,by simp [items],?_⟩
    intro fuel
    have step := scan_record manager env.pad (fuel+entries.length) lawful typed
      itemFormed (aligned_readsBack itemAligned) before (recordsOf codecs type entries ++ after)
    rw [← List.append_assoc,position,scanned fuel] at step
    rw [shape,List.length_cons,← Nat.add_assoc,step,Option.map_map]
    rfl

-- The last record may take more room than the scan allots to it; it is then
-- followed by bytes that belong to no record.
theorem scan_readable (entries : List (Env × VariableSizeLogItem)) (env : Env)
    (lawful : Lawful codecs type) (typed : .ofByte manager.header.compression_type = type)
    (formed : ∀ entry ∈ entries, WellFormed entry.2) (itemFormed : WellFormed item)
    (aligned : ∀ entry ∈ entries, (stored codecs type entry.2).length = plainSize entry.2)
    (back : ReadsBack codecs type item) (before : Bytes) :
    ∃ found, found.map (·.2) = entries.map (·.2) ++ [item] ∧ ∀ fuel,
      manager.scanFrom codecs (before ++ recordsOf codecs type (entries ++ [(env,item)]))
          (fuel+1+entries.length) before.length 0 =
        (manager.scanFrom codecs (before ++ recordsOf codecs type (entries ++ [(env,item)])) fuel
          ((before ++ recordsOf codecs type entries).length+(logItemSize+plainSize item)) 0).map
            (found ++ ·) := by
  obtain ⟨found,items,scanned⟩ := scan_aligned entries lawful typed formed aligned before
    (recordBytes codecs type env.pad item)
  have shape : before ++ recordsOf codecs type (entries ++ [(env,item)]) =
      before ++ recordsOf codecs type entries ++ recordBytes codecs type env.pad item := by
    simp [recordsOf]
  refine ⟨found ++ [((before ++ recordsOf codecs type entries).length,item)],by simp [items],?_⟩
  intro fuel
  have step := scan_record manager env.pad fuel lawful typed itemFormed back
    (before ++ recordsOf codecs type entries) []
  rw [List.append_nil,advance_plain itemFormed] at step
  rw [shape,scanned,step,Option.map_map]
  congr 1
  funext rest
  simp

-- Zeros at the end of a preallocated file look like an insert of transaction 0
-- at time 0, which the scan refuses; it then walks or jumps to the end.
theorem itemAt_zeros (codecs : Codecs) (type : WALCompressionType) (front : Bytes) (room offset : Nat)
    (past : front.length ≤ offset)
    (whole : (readAt (front ++ zeros room) offset logItemSize).length = logItemSize) :
    LogManager.itemAt codecs type (front ++ zeros room) offset = none := by
  obtain ⟨further,rfl⟩ := Nat.exists_eq_add_of_le past
  have blank : readAt (front ++ zeros room) (front.length+further) logItemSize = zeros logItemSize := by
    rw [readAt_skip] at whole ⊢
    unfold readAt zeros at *
    rw [List.drop_replicate,List.take_replicate] at *
    rw [List.length_replicate] at whole
    rw [whole]
  have decoded : LogItem.decode (zeros logItemSize) = some ⟨.insert,0,0,0,0,0,0,0⟩ := by decide
  unfold LogManager.itemAt
  rw [blank,decoded]
  have part (position : Nat) : LogManager.readPart codecs type (front ++ zeros room) position 0 =
      some ([],position) := by simp [LogManager.readPart]
  simp only [part]
  rw [if_neg (by simp [LogManager.admissible,LogManager.isSystemOp])]

theorem scan_zeros (manager : LogManager) (front : Bytes) (room : Nat)
    (jumps : 0 < manager.skip_block_size)
    (bounded : front.length+room+manager.skip_block_size < usizeLimit)
    (offset : Nat) (invalid : UInt32) (past : front.length ≤ offset) :
    ∃ fuel, manager.scanFrom codecs (front ++ zeros room) fuel offset invalid = some [] := by
  generalize measure : front.length+room-offset = distance
  induction distance using Nat.strongRecOn generalizing offset invalid with
  | ind distance ih =>
    by_cases inside : offset < (front ++ zeros room).length
    · by_cases whole : (readAt (front ++ zeros room) offset logItemSize).length = logItemSize
      · have refused := itemAt_zeros codecs (.ofByte manager.header.compression_type) front room offset
          past whole
        have size : (front ++ zeros room).length = front.length+room := by simp
        have jump : usizeAdd offset manager.skip_block_size = offset+manager.skip_block_size :=
          usizeAdd_of_lt (by omega)
        obtain ⟨jumped,skip⟩ := ih (front.length+room-(offset+manager.skip_block_size)) (by omega)
          (offset+manager.skip_block_size) 0 (by omega) rfl
        have step : (1 : Nat) ≤ logItemSize := by decide
        obtain ⟨walked,walk⟩ := ih (front.length+room-(offset+logItemSize)) (by omega)
          (offset+logItemSize) (invalid+1) (by omega) rfl
        refine ⟨(jumped+walked)+1,?_⟩
        have skipMore := LogManager.scanFrom_more skip walked
        have walkMore := LogManager.scanFrom_more walk jumped
        rw [Nat.add_comm] at walkMore
        simp only [LogManager.scanFrom,inside,whole,refused,jump,if_true]
        split
        · exact skipMore
        · split
          · rfl
          · exact walkMore
      · exact ⟨1,by rw [LogManager.scanFrom,if_pos inside,if_neg whole]⟩
    · exact ⟨1,by rw [LogManager.scanFrom,if_neg inside]⟩

end Scanning

section Sufficiency
variable {codecs : Codecs} {config : WALConfig} {now : UInt64} {pad : Nat → UInt8}
  {entries : List (Env × VariableSizeLogItem)}

theorem fresh_log (config : WALConfig) (now : UInt64) (pad : Nat → UInt8)
    (entries : List (Env × VariableSizeLogItem)) (lawful : Lawful codecs config.compression_type)
    (quiet : Quiet config now entries) (consistent : ∀ entry ∈ entries, Consistent entry.2) :
    ∃ manager, (LogManager.new config now pad ⟨[],[]⟩).writeItems codecs entries = (.ok (),manager) ∧
      (∃ room ≤ config.log_prealloc_size-logHeaderSize,
        Layout manager (recordsOf codecs config.compression_type entries) room) ∧
      settings manager = freshSettings config now ∧ manager.header.record_count = UInt32.ofNat entries.length := by
  have start := layout_new config now pad
  have set : settings (LogManager.new config now pad ⟨[],[]⟩) =
      freshSettings config now := by
    rw [new_fresh]
    unfold LogManager.preallocate
    split <;> rfl
  have none_yet : (LogManager.new config now pad ⟨[],[]⟩).header.record_count = 0 := by
    rw [new_fresh]
    unfold LogManager.preallocate
    split <;> rfl
  have type : (LogManager.new config now pad ⟨[],[]⟩).compression_type = config.compression_type :=
    congrArg (·.config.compression_type) set
  have last : (LogManager.new config now pad ⟨[],[]⟩).last_checkpoint_time = now/1000 :=
    congrArg (·.last_checkpoint_time) set
  have interval : (LogManager.new config now pad ⟨[],[]⟩).checkpoint_interval_ms =
      config.checkpoint_interval_ms := congrArg (·.config.checkpoint_interval_ms) set
  obtain ⟨next,written,⟨left,leftLe,layout⟩,same,counted⟩ := writeItems_appends entries (by rw [type]; exact lawful)
    start (fun entry member => by
      unfold LogManager.CheckpointDue
      rw [last,interval]
      exact quiet entry member) consistent
  refine ⟨next,written,⟨left,leftLe,?_⟩,same.trans set,?_⟩
  · rw [← type]
    simpa using layout
  · rw [counted,none_yet,UInt32.zero_add]

theorem shape_filled (shape : Shape file records room) (filled : records ≠ []) :
    ∃ before : Bytes, before.length = logRegionStart ∧ file = before ++ records ++ zeros room := by
  obtain ⟨header,sized,⟨empty,_⟩ | layout⟩ := shape
  · exact absurd empty filled
  · refine ⟨header ++ zeros logCheckpointSize,?_,layout⟩
    simp [sized,logRegionStart]

theorem recordsOf_filled (codecs : Codecs) (type : WALCompressionType) (filled : entries ≠ []) :
    recordsOf codecs type entries ≠ [] := by
  obtain ⟨entry,rest,rfl⟩ := List.exists_cons_of_ne_nil filled
  have long : (recordBytes codecs type entry.1.pad entry.2).length ≥ logItemSize := by
    rw [recordBytes_length]
    exact Nat.le_add_right _ _
  intro empty
  have zero := congrArg List.length empty
  simp only [recordsOf,List.flatMap_cons,List.length_append,List.length_nil,logItemSize] at zero long
  omega

theorem settings_header (set : settings manager = freshSettings config now) :
    WALCompressionType.ofByte manager.header.compression_type = config.compression_type := by
  have byte : manager.header.compression_type = config.compression_type.toByte :=
    congrArg (·.compression_byte) set
  rw [byte,compression_roundtrip]

-- The scan gives the list back when records stand where it looks for them and
-- nothing but a short rest follows the last one.
theorem recovers_readable (lawful : Lawful codecs config.compression_type)
    (bare : config.log_prealloc_size = 0) (quiet : Quiet config now entries)
    (formed : ∀ entry ∈ entries, WellFormed entry.2)
    (readable : Readable codecs config.compression_type (entries.map (·.2)))
    (short : ShortTail codecs config.compression_type (entries.map (·.2))) :
    Recovers codecs config now pad entries := by
  obtain ⟨manager,written,⟨room,roomLe,_,_,shape⟩,set,_⟩ :=
    fresh_log config now pad entries lawful quiet fun entry member => (formed entry member).consistent
  have noRoom : room = 0 := by omega
  subst noRoom
  obtain rfl | ⟨front,⟨env,item⟩,rfl⟩ := List.eq_nil_or_concat' entries
  · refine ⟨manager,[],written,⟨1,?_⟩,rfl⟩
    apply LogManager.scanFrom_short
    obtain ⟨header,sized,⟨_,layout⟩ | layout⟩ := shape
    · rw [layout]
      simp [zeros,sized,logRegionStart,logHeaderSize,logCheckpointSize,logItemSize]
    · rw [layout]
      simp [zeros,sized,logRegionStart,logHeaderSize,logCheckpointSize,logItemSize,recordsOf]
  · obtain ⟨before,start,file⟩ := shape_filled shape (recordsOf_filled _ _ (by simp))
    have itemFormed : WellFormed item := formed (env,item) (by simp)
    simp only [List.map_append,List.map_cons,List.map_nil] at readable short
    have tail : (stored codecs config.compression_type item).length < plainSize item+logItemSize :=
      short item (by simp)
    obtain ⟨found,items,scanned⟩ := scan_readable front env lawful (settings_header set)
      (fun entry member => formed entry (List.mem_append_left _ member)) itemFormed
      (fun entry member => readable.1 entry.2 (by simpa using ⟨entry.1,member⟩))
      (readable.2 item (by simp)) before
    have ended : manager.scanFrom codecs
        (before ++ recordsOf codecs config.compression_type (front ++ [(env,item)])) 1
        ((before ++ recordsOf codecs config.compression_type front).length+
          (logItemSize+plainSize item)) 0 = some [] := by
      apply LogManager.scanFrom_short
      simp only [recordsOf,List.flatMap_append,List.flatMap_cons,List.flatMap_nil,List.append_nil,
        List.length_append,recordBytes_length]
      omega
    refine ⟨manager,found,written,⟨1+1+front.length,?_⟩,by simp [items]⟩
    have final := scanned 1
    rw [ended,start] at final
    rw [file]
    simpa [zeros] using final

theorem recovers_aligned (lawful : Lawful codecs config.compression_type)
    (quiet : Quiet config now entries) (formed : ∀ entry ∈ entries, WellFormed entry.2)
    (aligned : ∀ entry ∈ entries,
      (stored codecs config.compression_type entry.2).length = plainSize entry.2)
    (jumps : 0 < config.skip_block_size)
    (bounded : logRegionStart+(recordsOf codecs config.compression_type entries).length+
      config.log_prealloc_size+config.skip_block_size < usizeLimit) :
    Recovers codecs config now pad entries := by
  obtain ⟨manager,written,⟨room,roomLe,_,_,shape⟩,set,_⟩ :=
    fresh_log config now pad entries lawful quiet fun entry member => (formed entry member).consistent
  have typed := settings_header set
  have block : manager.skip_block_size = config.skip_block_size :=
    congrArg (·.config.skip_block_size) set
  obtain ⟨header,sized,⟨empty,layout⟩ | layout⟩ := shape
  · have none_left : entries = [] := by
      by_contra filled
      exact recordsOf_filled _ _ filled empty
    subst none_left
    obtain ⟨fuel,ended⟩ := scan_zeros manager header room (by omega)
      (by rw [sized,block]; simp only [logRegionStart] at bounded; omega) logRegionStart 0
      (by rw [sized]; exact Nat.le_add_right _ _)
    exact ⟨manager,[],written,⟨fuel,by rw [layout]; exact ended⟩,rfl⟩
  · have start : (header ++ zeros logCheckpointSize).length = logRegionStart := by
      simp [sized,logRegionStart]
    obtain ⟨fuel,ended⟩ := scan_zeros manager
      (header ++ zeros logCheckpointSize ++ recordsOf codecs config.compression_type entries) room
      (by omega) (by rw [List.length_append,start,block]; omega) _ 0 (Nat.le_refl _)
    obtain ⟨found,items,scanned⟩ := scan_aligned entries lawful typed formed aligned
      (header ++ zeros logCheckpointSize) (zeros room)
    refine ⟨manager,found,written,⟨fuel+entries.length,?_⟩,items⟩
    rw [layout,← start,scanned,ended]
    simp

end Sufficiency
end RemDb.Wal
