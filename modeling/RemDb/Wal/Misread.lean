import Mathlib.Data.List.Forall2
import RemDb.Wal.Agreement

namespace RemDb.Wal
open RemDb.Lib

-- A scan that gives up at the first header it does not take, and one that
-- stays where it is: both are configurations a caller can ask for.
def strictConfig (type : WALCompressionType) : WALConfig := ⟨60000,0,0,0,0,0,type⟩
def stuckConfig (type : WALCompressionType) : WALConfig := ⟨60000,0,0,1,0,1,type⟩

def logSize (codecs : Codecs) (type : WALCompressionType) (items : List VariableSizeLogItem) : Nat :=
  logRegionStart+(items.map fun item => logItemSize+(stored codecs type item).length).sum

-- The list is recovered whatever the configuration, the clock and the padding,
-- as long as no checkpoint falls due and no room is preallocated.
def AlwaysRecovers (codecs : Codecs) (type : WALCompressionType) (items : List VariableSizeLogItem) : Prop :=
  ∀ (config : WALConfig) (now : UInt64) (pad : Nat → UInt8) (entries : List (Env × VariableSizeLogItem)),
    config.compression_type = type → config.log_prealloc_size = 0 → Quiet config now entries →
    List.Forall₂ Retimes items (entries.map (·.2)) → Recovers codecs config now pad entries

section Steps
variable {codecs : Codecs} {manager : LogManager} {file : Bytes}

theorem scan_head (strict : manager.skip_threshold = 0) (intolerant : manager.max_consecutive_invalid = 0)
    (done : manager.scanFrom codecs file fuel offset 0 = some found)
    (items : found.map (·.2) = item :: rest) :
    offset+logItemSize ≤ file.length ∧
      LogManager.itemAt codecs (.ofByte manager.header.compression_type) file offset = some item ∧
      ∃ later, manager.scanFrom codecs file (fuel-1) (offset+LogManager.advance item) 0 = some later ∧
        later.map (·.2) = rest := by
  cases fuel with
  | zero => simp [LogManager.scanFrom] at done
  | succ fuel =>
    have some_found : found ≠ [] := by
      intro none_found
      simp [none_found] at items
    rw [LogManager.scanFrom] at done
    split at done
    · rename_i inside
      split at done
      · rename_i whole
        rw [readAt_length] at whole
        cases taken : LogManager.itemAt codecs (.ofByte manager.header.compression_type) file offset with
        | none =>
          simp only [taken,strict,intolerant] at done
          rw [if_neg (by simp),if_pos (by decide)] at done
          exact absurd (Option.some.inj done).symm some_found
        | some read =>
          simp only [taken,Option.map_eq_some_iff] at done
          obtain ⟨later,scanned,rfl⟩ := done
          simp only [List.map_cons,List.cons.injEq] at items
          obtain ⟨rfl,same⟩ := items
          exact ⟨by omega,rfl,later,scanned,same⟩
      · exact absurd (Option.some.inj done).symm some_found
    · exact absurd (Option.some.inj done).symm some_found

theorem scan_stuck (fuel : Nat) (threshold : manager.skip_threshold = 1) (block : manager.skip_block_size = 0)
    (attempts : manager.max_skip_attempts = 1) (small : offset < usizeLimit)
    (inside : offset+logItemSize ≤ file.length)
    (refused : LogManager.itemAt codecs (.ofByte manager.header.compression_type) file offset = none) :
    manager.scanFrom codecs file fuel offset 0 = none := by
  have room : offset < file.length := by
    simp only [logItemSize] at inside
    omega
  have whole : (readAt file offset logItemSize).length = logItemSize := by
    rw [readAt_length]
    omega
  have here : usizeAdd offset 0 = offset := usizeAdd_of_lt small
  induction fuel with
  | zero => rfl
  | succ fuel ih =>
    rw [LogManager.scanFrom,if_pos room,if_pos whole,refused]
    simp only [threshold,block,attempts,here]
    rw [if_pos ⟨by decide,by decide,room⟩,ih]

theorem scan_stuck_end (threshold : manager.skip_threshold = 1) (block : manager.skip_block_size = 0)
    (attempts : manager.max_skip_attempts = 1) (small : offset < usizeLimit)
    (scanned : manager.scanFrom codecs file fuel offset 0 = some []) : file.length < offset+logItemSize := by
  by_contra long
  have inside : offset+logItemSize ≤ file.length := Nat.le_of_not_lt long
  cases taken : LogManager.itemAt codecs (.ofByte manager.header.compression_type) file offset with
  | none =>
    rw [scan_stuck fuel threshold block attempts small inside taken] at scanned
    cases scanned
  | some extra =>
    cases fuel with
    | zero => simp [LogManager.scanFrom] at scanned
    | succ fuel =>
      simp only [logItemSize] at inside
      rw [LogManager.scanFrom_taken (by omega) (by rw [readAt_length]; simp only [logItemSize]; omega)
        taken] at scanned
      simp at scanned

end Steps

-- Two files that differ in one byte agree on every range that misses it.
theorem differing_byte (front back : Bytes) (one two : UInt8) (offset count index : Nat)
    (bound : index < count)
    (left : (readAt (front ++ one :: back) offset count)[index]? ≠
      (readAt (front ++ two :: back) offset count)[index]?) : offset+index = front.length := by
  rw [readAt_getElem? _ _ _ _ bound,readAt_getElem? _ _ _ _ bound] at left
  by_contra apart
  apply left
  rcases Nat.lt_or_gt_of_ne apart with before | after
  · rw [List.getElem?_append_left before,List.getElem?_append_left before]
  · obtain ⟨further,same⟩ := Nat.exists_eq_add_of_lt after
    rw [List.getElem?_append_right (by omega),List.getElem?_append_right (by omega),same]
    have index : front.length+further+1-front.length = further+1 := by omega
    rw [index,List.getElem?_cons_succ,List.getElem?_cons_succ]

theorem itemAt_stamp (taken : LogManager.itemAt codecs type file offset = some item)
    (whole : offset+logItemSize ≤ file.length) :
    readAt file (offset+16) 8 = toLE 8 item.header.timestamp.toNat := by
  unfold LogManager.itemAt at taken
  cases decoded : LogItem.decode (readAt file offset logItemSize) with
  | none => simp [decoded] at taken
  | some header =>
    have headers : header = item.header := by
      simp only [decoded] at taken
      split at taken
      · cases taken
      · split at taken
        · cases taken
        · split at taken
          · rw [← Option.some.inj taken]
          · cases taken
    have stamp : UInt64.ofNat (ofLE (readAt (readAt file offset logItemSize) 16 8)) =
        item.header.timestamp := by
      unfold LogItem.decode at decoded
      rw [Option.map_eq_some_iff] at decoded
      obtain ⟨operation,_,same⟩ := decoded
      rw [← headers,← same]
    have nested : readAt (readAt file offset logItemSize) 16 8 = readAt file (offset+16) 8 := by
      simp [readAt,logItemSize,List.drop_take,List.take_take,List.drop_drop]
    have long : (readAt file (offset+16) 8).length = 8 := by
      rw [readAt_length]
      simp only [logItemSize] at whole
      omega
    have small := ofLE_lt (readAt file (offset+16) 8)
    rw [long] at small
    rw [nested] at stamp
    have value : ofLE (readAt file (offset+16) 8) = item.header.timestamp.toNat := by
      rw [← stamp,UInt64.toNat_ofNat',Nat.mod_eq_of_lt (by simpa using small)]
    have back := toLE_ofLE (readAt file (offset+16) 8)
    rw [long,value] at back
    exact back.symm

-- Two timestamps that differ in their top byte alone, which no checksum covers.
def stampOne : UInt64 := 0x0100000000000000
def stampTwo : UInt64 := 0x0200000000000000

theorem record_stamps (codecs : Codecs) (type : WALCompressionType) (pad : Nat → UInt8)
    (item : VariableSizeLogItem) :
    ∃ front back : Bytes, front.length = 23 ∧
      recordBytes codecs type pad (restamp item stampOne) = front ++ 1 :: back ∧
      recordBytes codecs type pad (restamp item stampTwo) = front ++ 2 :: back := by
  obtain ⟨header,old,new⟩ := item
  have one : toLE 8 stampOne.toNat = [0,0,0,0,0,0,0,1] := by decide
  have two : toLE 8 stampTwo.toNat = [0,0,0,0,0,0,0,2] := by decide
  have low : stampOne.toUInt32 = stampTwo.toUInt32 := by decide
  have sums : calculateVariableSizeLogItemChecksum ⟨{header with timestamp:=stampOne},old,new⟩ =
      calculateVariableSizeLogItemChecksum ⟨{header with timestamp:=stampTwo},old,new⟩ := by
    simp only [calculateVariableSizeLogItemChecksum,calculateLogItemChecksum,low]
  refine ⟨[header.op_type.toByte,header.table_id] ++ toLE 2 header.record_id.toNat ++
      toLE 2 header.old_data_size.toNat ++ toLE 2 header.new_data_size.toNat ++
      toLE 4 header.tx_id.toNat ++ [pad 12,pad 13,pad 14,pad 15] ++ [0,0,0,0,0,0,0],
    toLE 4 (calculateVariableSizeLogItemChecksum
      ⟨{header with timestamp:=stampTwo},old,new⟩).toNat ++ [pad 28,pad 29,pad 30,pad 31] ++
      stored codecs type ⟨header,old,new⟩,?_,?_,?_⟩
  · simp
  · simp [recordBytes,restamp,stored,LogItem.encode,one,sums]
  · simp [recordBytes,restamp,stored,LogItem.encode,two]

section Entries
variable {codecs : Codecs} {config : WALConfig} {now : UInt64} {pad : Nat → UInt8}
  {front rest : List (Env × VariableSizeLogItem)}

-- What a successful recovery says about the scan behind a well-placed prefix.
theorem recovers_rest (lawful : Lawful codecs config.compression_type)
    (bare : config.log_prealloc_size = 0) (quiet : Quiet config now (front ++ rest))
    (formed : ∀ entry ∈ front ++ rest, WellFormed entry.2) (filled : rest ≠ [])
    (aligned : ∀ entry ∈ front, (stored codecs config.compression_type entry.2).length = plainSize entry.2)
    (recovers : Recovers codecs config now pad (front ++ rest)) :
    ∃ (manager : LogManager) (before : Bytes) (fuel : Nat) (later : List (Nat × VariableSizeLogItem)),
      before.length = logRegionStart ∧
      settings manager = freshSettings config now ∧
      manager.scanFrom codecs (before ++ recordsOf codecs config.compression_type (front ++ rest)) fuel
        (before ++ recordsOf codecs config.compression_type front).length 0 = some later ∧
      later.map (·.2) = rest.map (·.2) := by
  obtain ⟨manager,written,⟨room,roomLe,_,_,shape⟩,set,_⟩ :=
    fresh_log config now pad _ lawful quiet fun entry member => (formed entry member).consistent
  obtain ⟨same,found,again,⟨fuel,scanned⟩,items⟩ := recovers
  rw [written] at again
  obtain rfl : manager = same := congrArg Prod.snd again
  have noRoom : room = 0 := by omega
  subst noRoom
  obtain ⟨before,start,file⟩ := shape_filled shape (recordsOf_filled _ _ (by simp [filled]))
  have join : before ++ recordsOf codecs config.compression_type (front ++ rest) =
      before ++ recordsOf codecs config.compression_type front ++
        recordsOf codecs config.compression_type rest := by
    simp [recordsOf]
  obtain ⟨taken,takenItems,equation⟩ := scan_aligned front lawful (settings_header set)
    (fun entry member => formed entry (List.mem_append_left _ member)) aligned before
    (recordsOf codecs config.compression_type rest)
  have more := LogManager.scanFrom_more scanned front.length
  rw [file,← start,zeros,List.replicate_zero,List.append_nil,join,equation fuel,
    Option.map_eq_some_iff] at more
  obtain ⟨later,scannedLater,rfl⟩ := more
  refine ⟨manager,before,fuel,later,start,set,by rw [join]; exact scannedLater,?_⟩
  rw [List.map_append,takenItems,List.map_append] at items
  exact List.append_cancel_left items

theorem strict_head {type : WALCompressionType} {item : VariableSizeLogItem} {env : Env}
    (lawful : Lawful codecs type)
    (quiet : Quiet (strictConfig type) 0 (front ++ (env,item) :: rest))
    (formed : ∀ entry ∈ front ++ (env,item) :: rest, WellFormed entry.2)
    (aligned : ∀ entry ∈ front, (stored codecs type entry.2).length = plainSize entry.2)
    (recovers : Recovers codecs (strictConfig type) 0 pad (front ++ (env,item) :: rest)) :
    ReadsBack codecs type item ∧ ∀ next ∈ (rest.map (·.2)).head?,
        readAt (recordsOf codecs type (front ++ (env,item) :: rest))
          ((recordsOf codecs type front).length+(logItemSize+plainSize item)+16) 8 =
            toLE 8 next.header.timestamp.toNat := by
  obtain ⟨manager,before,fuel,later,start,set,scanned,items⟩ := recovers_rest lawful rfl quiet formed
    (by simp) aligned recovers
  have threshold : manager.skip_threshold = 0 := congrArg (·.config.skip_threshold) set
  have patience : manager.max_consecutive_invalid = 0 := congrArg (·.config.max_consecutive_invalid) set
  have typed : WALCompressionType.ofByte manager.header.compression_type = type := settings_header set
  obtain ⟨_,taken,afterwards,scannedAfter,itemsAfter⟩ := scan_head threshold patience scanned items
  have itemFormed : WellFormed item := formed (env,item) (by simp)
  rw [advance_plain itemFormed] at scannedAfter
  refine ⟨?_,?_⟩
  · have join : before ++ recordsOf codecs type (front ++ (env,item) :: rest) =
        before ++ recordsOf codecs type front ++ recordBytes codecs type env.pad item ++
          recordsOf codecs type rest := by
      simp [recordsOf]
    rw [typed] at taken
    change LogManager.itemAt codecs type (before ++ recordsOf codecs type (front ++ (env,item) :: rest))
      (before ++ recordsOf codecs type front).length = some item at taken
    rw [join] at taken
    exact (itemAt_record lawful itemFormed _ _).mp taken
  · intro next first
    cases remaining : rest.map (·.2) with
    | nil => simp [remaining] at first
    | cons head others =>
      obtain rfl : head = next := by simpa [remaining] using first
      rw [remaining] at itemsAfter
      obtain ⟨whole,takenNext,_⟩ := scan_head threshold patience scannedAfter itemsAfter
      have stamp := itemAt_stamp takenNext whole
      rw [List.length_append,Nat.add_assoc,Nat.add_assoc,readAt_skip,← Nat.add_assoc] at stamp
      exact stamp

end Entries

theorem retimes_self (formed : WellFormed item) : Retimes item item :=
  ⟨formed.stamped,(restamp_self formed).symm⟩

theorem retimes_stamp (item : VariableSizeLogItem) (stamped : stamp ≠ 0) : Retimes item (restamp item stamp) :=
  ⟨stamped,rfl⟩

theorem retimes_formed (formed : WellFormed item) (retimes : Retimes item later) : WellFormed later := by
  rw [retimes.2]
  exact restamp_formed formed.old_size formed.new_size retimes.1

theorem retimes_all {items laters : List VariableSizeLogItem} (formed : ∀ item ∈ items, WellFormed item)
    (retimes : List.Forall₂ Retimes items laters) : ∀ later ∈ laters, WellFormed later := by
  induction retimes with
  | nil => simp
  | cons head _ ih =>
    intro later member
    rcases List.mem_cons.mp member with rfl | member
    · exact retimes_formed (formed _ List.mem_cons_self) head
    · exact ih (fun item inner => formed item (List.mem_cons_of_mem _ inner)) later member

theorem forall₂_self {items : List VariableSizeLogItem} (formed : ∀ item ∈ items, WellFormed item) :
    List.Forall₂ Retimes items items :=
  List.forall₂_same.mpr fun item member => retimes_self (formed item member)

-- Entries at time zero, where no checkpoint is due.
def stillEntries (items : List VariableSizeLogItem) : List (Env × VariableSizeLogItem) :=
  items.map fun item => (still,item)

theorem stillEntries_items (items : List VariableSizeLogItem) : (stillEntries items).map (·.2) = items := by
  simp [stillEntries]

theorem stillEntries_quiet (config : WALConfig) (items : List VariableSizeLogItem)
    (slow : config.checkpoint_interval_ms = 60000) : Quiet config 0 (stillEntries items) := by
  intro entry member
  obtain ⟨item,_,rfl⟩ := List.mem_map.mp member
  rw [slow]
  change ¬(0 : UInt64)/1000-0/1000 ≥ 60000
  decide

theorem recordsOf_length (codecs : Codecs) (type : WALCompressionType)
    (entries : List (Env × VariableSizeLogItem)) :
    logRegionStart+(recordsOf codecs type entries).length = logSize codecs type (entries.map (·.2)) := by
  induction entries with
  | nil => rfl
  | cons entry rest ih =>
    simp only [recordsOf,List.map_cons,List.flatMap_cons,List.length_append,
      recordBytes_length,logSize,List.sum_cons] at *
    omega

section Necessity
variable {codecs : Codecs} {type : WALCompressionType} {front rest : List VariableSizeLogItem}
  {item next : VariableSizeLogItem}

theorem always_strict (lawful : Lawful codecs type)
    (always : AlwaysRecovers codecs type items) (retimes : List.Forall₂ Retimes items (front ++ item :: rest))
    (formed : ∀ each ∈ front ++ item :: rest, WellFormed each)
    (aligned : ∀ each ∈ front, (stored codecs type each).length = plainSize each) :
    ReadsBack codecs type item ∧ ∀ next ∈ rest.head?,
      readAt (recordsOf codecs type (stillEntries (front ++ item :: rest)))
        ((recordsOf codecs type (stillEntries front)).length+(logItemSize+plainSize item)+16) 8 =
          toLE 8 next.header.timestamp.toNat := by
  have recovers := always (strictConfig type) 0 still.pad (stillEntries (front ++ item :: rest)) rfl rfl
    (stillEntries_quiet _ _ rfl) (by rw [stillEntries_items]; exact retimes)
  have shape : stillEntries (front ++ item :: rest) = stillEntries front ++ (still,item) :: stillEntries rest := by
    simp [stillEntries]
  have quiet := stillEntries_quiet (strictConfig type) (front ++ item :: rest) rfl
  have entriesFormed : ∀ entry ∈ stillEntries (front ++ item :: rest), WellFormed entry.2 := by
    intro entry member
    obtain ⟨each,inside,rfl⟩ := List.mem_map.mp member
    exact formed each inside
  have entriesAligned : ∀ entry ∈ stillEntries front, (stored codecs type entry.2).length = plainSize entry.2 := by
    intro entry member
    obtain ⟨each,inside,rfl⟩ := List.mem_map.mp member
    exact aligned each inside
  rw [shape] at recovers quiet entriesFormed
  have head := strict_head lawful quiet entriesFormed entriesAligned recovers
  rwa [stillEntries_items,← shape] at head

-- Behind a record of another size the scan cannot tell two timestamps of the
-- next item apart: it does not read the byte in which they differ.
theorem always_aligned (lawful : Lawful codecs type)
    (always : AlwaysRecovers codecs type (front ++ item :: next :: rest))
    (formed : ∀ each ∈ front ++ item :: next :: rest, WellFormed each)
    (aligned : ∀ each ∈ front, (stored codecs type each).length = plainSize each) :
    (stored codecs type item).length = plainSize item := by
  obtain ⟨head,tail,sized,one,two⟩ := record_stamps codecs type still.pad next
  have retimes (stamp : UInt64) (stamped : stamp ≠ 0) :
      List.Forall₂ Retimes (front ++ item :: next :: rest) (front ++ item :: restamp next stamp :: rest) := by
    have frontSame : List.Forall₂ Retimes front front :=
      forall₂_self fun each member => formed each (by simp [member])
    have restSame : List.Forall₂ Retimes rest rest :=
      forall₂_self fun each member => formed each (by simp [member])
    exact List.rel_append frontSame (.cons (retimes_self (formed item (by simp)))
      (.cons (retimes_stamp next stamped) restSame))
  have read (stamp : UInt64) (stamped : stamp ≠ 0) :=
    (always_strict lawful always (retimes stamp stamped)
      (retimes_all formed (retimes stamp stamped)) aligned).2 (restamp next stamp) rfl
  have split (stamp : UInt64) (byte : UInt8)
      (shape : recordBytes codecs type still.pad (restamp next stamp) = head ++ byte :: tail) :
      recordsOf codecs type (stillEntries (front ++ item :: restamp next stamp :: rest)) =
        (recordsOf codecs type (stillEntries front) ++ recordBytes codecs type still.pad item ++ head) ++
          byte :: (tail ++ recordsOf codecs type (stillEntries rest)) := by
    simp [recordsOf,stillEntries,shape]
  have first := read stampOne (by decide)
  have second := read stampTwo (by decide)
  rw [split _ _ one] at first
  rw [split _ _ two] at second
  have position := differing_byte _ _ 1 2 _ 8 7 (by decide) (by
    rw [first,second]
    change (toLE 8 stampOne.toNat)[7]? ≠ (toLE 8 stampTwo.toNat)[7]?
    decide)
  simp only [List.length_append,recordBytes_length,sized] at position
  omega

-- Whole headers behind the last record keep a scan with block size zero busy.
theorem always_short (lawful : Lawful codecs type) (always : AlwaysRecovers codecs type (front ++ [item]))
    (formed : ∀ each ∈ front ++ [item], WellFormed each)
    (fits : logSize codecs type (front ++ [item]) < usizeLimit)
    (aligned : ∀ each ∈ front, (stored codecs type each).length = plainSize each)
    (back : ReadsBack codecs type item) : (stored codecs type item).length < plainSize item+logItemSize := by
  have recovers := always (stuckConfig type) 0 still.pad (stillEntries (front ++ [item])) rfl rfl
    (stillEntries_quiet _ _ rfl) (by rw [stillEntries_items]; exact forall₂_self formed)
  have shape : stillEntries (front ++ [item]) = stillEntries front ++ [(still,item)] := by
    simp [stillEntries]
  have quiet := stillEntries_quiet (stuckConfig type) (front ++ [item]) rfl
  have entriesFormed : ∀ entry ∈ stillEntries (front ++ [item]), WellFormed entry.2 := by
    intro entry member
    obtain ⟨each,inside,rfl⟩ := List.mem_map.mp member
    exact formed each inside
  have entriesAligned : ∀ entry ∈ stillEntries front, (stored codecs type entry.2).length = plainSize entry.2 := by
    intro entry member
    obtain ⟨each,inside,rfl⟩ := List.mem_map.mp member
    exact aligned each inside
  have total := recordsOf_length codecs type (stillEntries (front ++ [item]))
  rw [stillEntries_items] at total
  rw [shape] at recovers quiet entriesFormed total
  obtain ⟨manager,before,fuel,later,start,set,scanned,items⟩ := recovers_rest lawful rfl quiet
    entriesFormed (by simp) entriesAligned recovers
  have typed : WALCompressionType.ofByte manager.header.compression_type = type := settings_header set
  change manager.scanFrom codecs (before ++ recordsOf codecs type (stillEntries front ++ [(still,item)])) fuel
    (before ++ recordsOf codecs type (stillEntries front)).length 0 = some later at scanned
  have itemFormed : WellFormed item := formed item (by simp)
  have join : before ++ recordsOf codecs type (stillEntries front ++ [(still,item)]) =
      before ++ recordsOf codecs type (stillEntries front) ++ recordBytes codecs type still.pad item ++ [] := by
    simp [recordsOf]
  have fileLength : (before ++ recordsOf codecs type (stillEntries front ++ [(still,item)])).length =
      (before ++ recordsOf codecs type (stillEntries front)).length+
        (logItemSize+(stored codecs type item).length) := by
    rw [join]
    simp only [List.length_append,recordBytes_length,List.length_nil]
    omega
  have small : (before ++ recordsOf codecs type (stillEntries front ++ [(still,item)])).length < usizeLimit := by
    rw [List.length_append,start,total]
    exact fits
  have more := LogManager.scanFrom_more scanned 1
  have step := scan_record manager still.pad fuel lawful typed itemFormed back
    (before ++ recordsOf codecs type (stillEntries front)) []
  rw [← join,more,advance_plain itemFormed] at step
  obtain ⟨final,scannedFinal,rfl⟩ := Option.map_eq_some_iff.mp step.symm
  have ended : final = [] := by simpa using items
  subst ended
  by_contra long
  have short := scan_stuck_end (congrArg (·.config.skip_threshold) set)
    (congrArg (·.config.skip_block_size) set) (congrArg (·.config.max_skip_attempts) set) (by omega) scannedFinal
  omega

-- The whole argument walks along the list: each record but the last has to be
-- aligned for the scan to find the next one.
theorem always_readable (lawful : Lawful codecs type) (always : AlwaysRecovers codecs type (front ++ rest))
    (formed : ∀ each ∈ front ++ rest, WellFormed each)
    (fits : logSize codecs type (front ++ rest) < usizeLimit)
    (aligned : ∀ each ∈ front, (stored codecs type each).length = plainSize each) :
    Readable codecs type rest ∧ ShortTail codecs type rest := by
  induction rest generalizing front with
  | nil => exact ⟨⟨by simp,by simp⟩,by simp [ShortTail]⟩
  | cons item rest ih =>
    cases rest with
    | nil =>
      have back := (always_strict lawful always (forall₂_self formed) formed aligned).1
      have short := always_short lawful always formed fits aligned back
      exact ⟨⟨by simp,by simpa using back⟩,by simpa [ShortTail] using short⟩
    | cons next rest =>
      have here := always_aligned lawful always formed aligned
      have shape : front ++ item :: next :: rest = (front ++ [item]) ++ next :: rest := by simp
      rw [shape] at always formed fits
      obtain ⟨⟨others,last⟩,short⟩ := ih always formed fits (by
        intro each member
        rcases List.mem_append.mp member with member | member
        · exact aligned each member
        · rw [List.mem_singleton.mp member]
          exact here)
      refine ⟨⟨?_,by simpa using last⟩,by simpa [ShortTail] using short⟩
      intro each member
      rw [List.dropLast_cons_cons] at member
      rcases List.mem_cons.mp member with rfl | member
      · exact here
      · exact others each member

end Necessity

theorem readable_retimes {codecs : Codecs} {type : WALCompressionType} {items laters : List VariableSizeLogItem}
    (retimes : List.Forall₂ Retimes items laters)
    (readable : Readable codecs type items ∧ ShortTail codecs type items) :
    Readable codecs type laters ∧ ShortTail codecs type laters := by
  induction retimes with
  | nil => exact readable
  | @cons item later items laters head tail ih =>
    obtain ⟨⟨others,last⟩,short⟩ := readable
    rw [head.2]
    cases tail with
    | nil =>
      have back : ReadsBack codecs type item := last item (by simp)
      have tail : (stored codecs type item).length < plainSize item+logItemSize := short item (by simp)
      refine ⟨⟨by simp,?_⟩,?_⟩
      · intro each member
        obtain rfl : restamp item later.header.timestamp = each := by simpa using member
        exact back
      · intro each member
        obtain rfl : restamp item later.header.timestamp = each := by simpa using member
        exact tail
    | cons _ _ =>
      rw [List.dropLast_cons_cons] at others
      obtain ⟨⟨othersLater,lastLater⟩,shortLater⟩ :=
        ih ⟨⟨fun each member => others each (List.mem_cons_of_mem _ member),by simpa using last⟩,
          by simpa [ShortTail] using short⟩
      refine ⟨⟨?_,by simpa using lastLater⟩,by simpa [ShortTail] using shortLater⟩
      intro each member
      rw [List.dropLast_cons_cons] at member
      rcases List.mem_cons.mp member with rfl | member
      · exact others item List.mem_cons_self
      · exact othersLater each member

theorem aligned_retimes {codecs : Codecs} {type : WALCompressionType} {items laters : List VariableSizeLogItem}
    (retimes : List.Forall₂ Retimes items laters)
    (aligned : ∀ item ∈ items, (stored codecs type item).length = plainSize item) :
    ∀ later ∈ laters, (stored codecs type later).length = plainSize later := by
  induction retimes with
  | nil => simp
  | @cons item _ _ _ head _ ih =>
    intro later member
    rcases List.mem_cons.mp member with rfl | member
    · rw [head.2]
      exact aligned item List.mem_cons_self
    · exact ih (fun item inner => aligned item (List.mem_cons_of_mem _ inner)) later member

theorem logSize_retimes (codecs : Codecs) (type : WALCompressionType)
    (retimes : List.Forall₂ Retimes items laters) : logSize codecs type laters = logSize codecs type items := by
  induction retimes with
  | nil => rfl
  | cons head _ ih =>
    simp only [logSize,List.map_cons,List.sum_cons] at *
    rw [head.2,restamp_stored]
    omega

-- Exactly the lists whose records, but for the last, take the room of their
-- plain payload come back whatever the clock and the scan's settings; lists of
-- such records alone also come back in front of preallocated room.
theorem recovered_iff_readable (codecs : Codecs) (type : WALCompressionType)
    (items : List VariableSizeLogItem) (lawful : Lawful codecs type)
    (formed : ∀ item ∈ items, WellFormed item) (fits : logSize codecs type items < usizeLimit) :
    (AlwaysRecovers codecs type items ↔ Readable codecs type items ∧ ShortTail codecs type items) ∧
      ((∀ item ∈ items, (stored codecs type item).length = plainSize item) →
        ∀ (config : WALConfig) (now : UInt64) (pad : Nat → UInt8) (entries : List (Env × VariableSizeLogItem)),
          config.compression_type = type → 0 < config.skip_block_size →
          logSize codecs type items+config.log_prealloc_size+config.skip_block_size < usizeLimit →
          Quiet config now entries → List.Forall₂ Retimes items (entries.map (·.2)) →
          Recovers codecs config now pad entries) := by
  have entriesFormed {entries : List (Env × VariableSizeLogItem)}
      (retimes : List.Forall₂ Retimes items (entries.map (·.2))) : ∀ entry ∈ entries, WellFormed entry.2 := by
    intro entry member
    exact retimes_all formed retimes entry.2 (List.mem_map_of_mem member)
  refine ⟨⟨?_,?_⟩,?_⟩
  · intro always
    exact @always_readable codecs type [] items lawful always formed fits (by simp)
  · intro readable config now pad entries typed bare quiet retimes
    subst typed
    obtain ⟨laters,short⟩ := readable_retimes retimes readable
    exact recovers_readable lawful bare quiet (entriesFormed retimes) laters short
  · intro aligned config now pad entries typed jumps bounded quiet retimes
    subst typed
    have laters := aligned_retimes retimes aligned
    refine recovers_aligned lawful quiet (entriesFormed retimes)
      (fun entry member => laters entry.2 (List.mem_map_of_mem member)) jumps ?_
    rw [recordsOf_length,logSize_retimes codecs config.compression_type retimes]
    exact bounded

def bareInsert : VariableSizeLogItem := restamp ⟨⟨.insert,1,0,0,0,1,0,0⟩,[],[]⟩ 7
def bareCommit : VariableSizeLogItem := restamp ⟨⟨.commit,0,0,0,0,1,0,0⟩,[],[]⟩ 9

theorem bare_records_recovered :
    (∀ item ∈ [bareInsert,bareCommit], WellFormed item) ∧
      AlwaysRecovers plainBuild .none [bareInsert,bareCommit] := by
  have formed : ∀ item ∈ [bareInsert,bareCommit], WellFormed item := by
    intro item member
    simp only [List.mem_cons,List.not_mem_nil,or_false] at member
    rcases member with rfl | rfl
    · exact restamp_formed rfl rfl (by decide)
    · exact restamp_formed rfl rfl (by decide)
  refine ⟨formed,(recovered_iff_readable plainBuild .none [bareInsert,bareCommit]
    (lawful_none _) formed (by decide)).1.mpr ⟨⟨?_,?_⟩,shortTail_none _ _⟩⟩
  · intro item member
    obtain rfl : item = bareInsert := by simpa using member
    rfl
  · intro item member
    obtain rfl : bareCommit = item := by simpa using member
    decide

def payloadInsert : VariableSizeLogItem := restamp ⟨⟨.insert,1,0,0,1,1,0,0⟩,[],[5]⟩ 7

-- One insert of one byte: the scan reads the low byte of the length prefix
-- instead, the checksum fails and nothing is recovered.
theorem payload_not_recovered : WellFormed payloadInsert ∧
    Quiet .standard 0 [(still,payloadInsert)] ∧
    ¬Recovers plainBuild .standard 0 still.pad [(still,payloadInsert)] := by
  refine ⟨restamp_formed rfl rfl (by decide),?_,?_⟩
  · intro entry member
    rw [List.mem_singleton.mp member]
    decide
  · intro recovers
    obtain ⟨manager,found,written,scans,items⟩ := recovers
    have last : ((LogManager.new .standard 0 still.pad ⟨[],[]⟩).writeItems plainBuild
        [(still,payloadInsert)]).2 = manager := congrArg Prod.snd written
    have none_found : manager.Scans plainBuild manager.log_handle.contents [] := by
      rw [← last]
      exact ⟨3,by decide +kernel⟩
    rw [LogManager.scans_unique scans none_found] at items
    cases items

end RemDb.Wal
