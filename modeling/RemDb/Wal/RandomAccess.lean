import RemDb.Wal.Agreement

namespace RemDb.Wal
open RemDb.Lib

namespace LogManager

-- The length in front of a payload.
def readPrefix (file : Bytes) (offset : Nat) : Except RemDbError Nat :=
  let bytes := readAt file offset 4
  if bytes.length = 4 then .ok (ofLE bytes) else .error .fileIoError

-- A header as it lies in the file. `none` is an operation byte that is none of
-- the enumeration, which the copy into the struct leaves undefined.
def readItemHeader (file : Bytes) (offset : Nat) : Option (Except RemDbError LogItem) :=
  let bytes := readAt file offset logItemSize
  if bytes.length = logItemSize then (LogItem.decode bytes).map .ok else some (.error .fileIoError)

-- Where the record behind this one starts. The two prefixes are read one after
-- the other, without passing over the old data between them.
def passItem (file : Bytes) (offset : Nat) (header : LogItem) : Except RemDbError Nat := do
  let past := offset+logItemSize
  if header.old_data_size > 0 then
    let old ← readPrefix file past
    if header.new_data_size > 0 then
      let new ← readPrefix file (past+4)
      return past+(4+old)+(4+new)
    else return past+(4+old)
  else if header.new_data_size > 0 then
    let new ← readPrefix file past
    return past+(4+new)
  else return past

-- The offset of the record that `count` records precede.
def locate (file : Bytes) : Nat → Nat → Option (Except RemDbError Nat)
  | 0,offset => some (.ok offset)
  | count+1,offset =>
    match readItemHeader file offset with
    | none => none
    | some (.error failure) => some (.error failure)
    | some (.ok header) =>
      match passItem file offset header with
      | .error failure => some (.error failure)
      | .ok next => locate file count next

-- One payload, and the offset behind it.
def readPayload (codecs : Codecs) (type : WALCompressionType) (file : Bytes) (offset : Nat) (size : UInt16) :
    Except RemDbError (Bytes × Nat) :=
  if size > 0 then do
    let compressed_size ← readPrefix file offset
    let packed := readAt file (offset+4) compressed_size
    if packed.length = compressed_size then
      let data ← decompressWalData codecs type packed
      return (data,offset+(4+compressed_size))
    else throw .fileIoError
  else return ([],offset)

def readItem (codecs : Codecs) (type : WALCompressionType) (file : Bytes) (offset : Nat) (header : LogItem) :
    Except RemDbError VariableSizeLogItem := do
  let old ← readPayload codecs type file (offset+logItemSize) header.old_data_size
  let new ← readPayload codecs type file old.2 header.new_data_size
  let item : VariableSizeLogItem := ⟨header,old.1,new.1⟩
  if header.checksum = calculateVariableSizeLogItemChecksum item then return item else throw .logChecksumError

def readVariableSizeLogItem (codecs : Codecs) (manager : LogManager) (index : UInt32) :
    Option (Except RemDbError VariableSizeLogItem) :=
  if index ≥ manager.header.record_count then some (.error .logRecordNotFound)
  else
    let file := manager.log_handle.contents
    match locate file index.toNat logRegionStart with
    | none => none
    | some (.error failure) => some (.error failure)
    | some (.ok offset) =>
      match readItemHeader file offset with
      | none => none
      | some (.error failure) => some (.error failure)
      | some (.ok header) => some (readItem codecs manager.compression_type file offset header)

end LogManager

-- Where both payloads are there, what lies behind the first prefix is taken for
-- the second one.
def Passable (codecs : Codecs) (type : WALCompressionType) (item : VariableSizeLogItem) : Prop :=
  item.old_data ≠ [] → item.new_data ≠ [] →
    (packed codecs type item.old_data ++ storedPart codecs type item.new_data).take 4 =
      toLE 4 (packed codecs type item.new_data).length

instance (codecs : Codecs) (type : WALCompressionType) (item : VariableSizeLogItem) :
    Decidable (Passable codecs type item) := inferInstanceAs (Decidable (_ → _ → _))

section Reading
variable {codecs : Codecs} {type : WALCompressionType} {data : Bytes} {item : VariableSizeLogItem} {pad : Nat → UInt8}

theorem storedPart_some (codecs : Codecs) (type : WALCompressionType) (filled : data ≠ []) :
    storedPart codecs type data = toLE 4 (packed codecs type data).length ++ packed codecs type data := by
  rw [storedPart,if_neg filled]

theorem readPrefix_toLE {n : Nat} (small : n < 2^32) (before after : Bytes) :
    LogManager.readPrefix (before ++ toLE 4 n ++ after) before.length = .ok n := by
  have field : readAt (before ++ toLE 4 n ++ after) before.length 4 = toLE 4 n := by
    rw [List.append_assoc]
    exact readAt_append before (toLE 4 n) after
  unfold LogManager.readPrefix
  simp only [field,toLE_length,if_true]
  rw [le_roundtrip (by exact small)]

theorem readItemHeader_record (before after : Bytes) :
    LogManager.readItemHeader (before ++ recordBytes codecs type pad item ++ after) before.length =
      some (.ok item.header) := by
  have field : readAt (before ++ recordBytes codecs type pad item ++ after) before.length logItemSize =
      item.header.encode pad := by
    have cut := readAt_append before (item.header.encode pad) (stored codecs type item ++ after)
    rw [encode_length] at cut
    simpa [recordBytes,List.append_assoc] using cut
  unfold LogManager.readItemHeader
  simp only [field,encode_length,if_true,item_roundtrip,Option.map_some]

theorem readPayload_stored (lawful : Lawful codecs type) {size : UInt16} (sized : size.toNat = data.length)
    (before after : Bytes) :
    LogManager.readPayload codecs type (before ++ storedPart codecs type data ++ after) before.length size =
      .ok (data,before.length+(storedPart codecs type data).length) := by
  unfold LogManager.readPayload
  by_cases empty : data = []
  · rw [if_neg (by rw [sized_positive sized]; exact fun filled => filled empty)]
    simp [storedPart,empty,pure,Except.pure]
  · obtain ⟨_,short,back⟩ := lawful_packed lawful (sized_small sized)
    have shape : before ++ storedPart codecs type data ++ after =
        before ++ toLE 4 (packed codecs type data).length ++ (packed codecs type data ++ after) := by
      rw [storedPart_some codecs type empty]
      simp only [List.append_assoc]
    have body : readAt (before ++ storedPart codecs type data ++ after) (before.length+4)
        (packed codecs type data).length = packed codecs type data := by
      have cut := readAt_append (before ++ toLE 4 (packed codecs type data).length) (packed codecs type data) after
      rw [List.length_append,toLE_length] at cut
      rw [shape,← List.append_assoc]
      simpa only [List.append_assoc] using cut
    have span : (storedPart codecs type data).length = 4+(packed codecs type data).length := by
      rw [storedPart_some codecs type empty,List.length_append,toLE_length]
    have announced : LogManager.readPrefix (before ++ storedPart codecs type data ++ after) before.length =
        .ok (packed codecs type data).length := by
      rw [shape]
      exact readPrefix_toLE short before _
    rw [if_pos ((sized_positive sized).mpr empty),announced]
    simp only [bind,Except.bind,body,if_true,back,pure,Except.pure,span]

theorem readItem_record (lawful : Lawful codecs type) (consistent : Consistent item) (before after : Bytes) :
    LogManager.readItem codecs type (before ++ recordBytes codecs type pad item ++ after) before.length item.header =
      .ok item := by
  have old := readPayload_stored lawful consistent.old_size (before ++ item.header.encode pad)
    (storedPart codecs type item.new_data ++ after)
  have new := readPayload_stored lawful consistent.new_size
    (before ++ item.header.encode pad ++ storedPart codecs type item.old_data) after
  simp only [List.length_append,encode_length,List.append_assoc] at old new
  unfold LogManager.readItem
  simp only [recordBytes,stored,List.append_assoc,old,bind,Except.bind]
  simp only [Nat.add_assoc] at new ⊢
  simp only [new]
  rw [if_pos consistent.sum]
  rfl

theorem passItem_record (lawful : Lawful codecs type) (consistent : Consistent item)
    (passable : Passable codecs type item) (before after : Bytes) :
    LogManager.passItem (before ++ recordBytes codecs type pad item ++ after) before.length item.header =
      .ok (before ++ recordBytes codecs type pad item).length := by
  have old_some := sized_positive consistent.old_size
  have new_some := sized_positive consistent.new_size
  have old_short (filled : item.old_data ≠ []) := (lawful_packed lawful (sized_small consistent.old_size)).2.1
  have new_short (filled : item.new_data ≠ []) := (lawful_packed lawful (sized_small consistent.new_size)).2.1
  unfold LogManager.passItem
  by_cases no_old : item.old_data = []
  · rw [if_neg (by rw [old_some]; exact fun filled => filled no_old)]
    by_cases no_new : item.new_data = []
    · rw [if_neg (by rw [new_some]; exact fun filled => filled no_new)]
      simp [recordBytes,stored,storedPart,no_old,no_new,pure,Except.pure]
    · have found := readPrefix_toLE (new_short no_new) (before ++ item.header.encode pad)
        (packed codecs type item.new_data ++ after)
      rw [if_pos (new_some.mpr no_new)]
      simp only [recordBytes,stored,storedPart,no_old,if_true,if_neg no_new,List.nil_append,List.append_assoc,
        List.length_append,encode_length,toLE_length] at found ⊢
      rw [found]
      simp only [bind,Except.bind,pure,Except.pure,Nat.add_assoc]
  · rw [if_pos (old_some.mpr no_old)]
    by_cases no_new : item.new_data = []
    · have found := readPrefix_toLE (old_short no_old) (before ++ item.header.encode pad)
        (packed codecs type item.old_data ++ after)
      simp only [recordBytes,stored,storedPart,no_new,if_true,if_neg no_old,List.append_nil,List.append_assoc,
        List.length_append,encode_length,toLE_length] at found ⊢
      rw [found]
      simp only [bind,Except.bind,pure,Except.pure,Nat.add_assoc]
      rw [if_neg (by rw [new_some]; exact fun filled => filled no_new)]
    · have first := readPrefix_toLE (old_short no_old) (before ++ item.header.encode pad)
        (packed codecs type item.old_data ++ storedPart codecs type item.new_data ++ after)
      have second := readPrefix_toLE (new_short no_new)
        (before ++ item.header.encode pad ++ toLE 4 (packed codecs type item.old_data).length)
        ((packed codecs type item.old_data ++ storedPart codecs type item.new_data).drop 4 ++ after)
      rw [← passable no_old no_new,List.append_assoc,← List.append_assoc (List.take 4 _),List.take_append_drop] at second
      simp only [recordBytes,stored,storedPart,if_neg no_old,if_neg no_new,List.append_assoc,
        List.length_append,encode_length,toLE_length] at first second ⊢
      rw [first]
      simp only [bind,Except.bind,Nat.add_assoc]
      rw [if_pos (new_some.mpr no_new),second]
      simp only [pure,Except.pure]

theorem locate_records (lawful : Lawful codecs type) (entries : List (Env × VariableSizeLogItem))
    (consistent : ∀ entry ∈ entries, Consistent entry.2) (passable : ∀ entry ∈ entries, Passable codecs type entry.2)
    (before after : Bytes) :
    LogManager.locate (before ++ recordsOf codecs type entries ++ after) entries.length before.length =
      some (.ok (before ++ recordsOf codecs type entries).length) := by
  induction entries generalizing before with
  | nil => simp [LogManager.locate,recordsOf]
  | cons entry rest ih =>
    have shape : before ++ recordsOf codecs type (entry :: rest) =
        before ++ recordBytes codecs type entry.1.pad entry.2 ++ recordsOf codecs type rest := by
      simp only [recordsOf,List.flatMap_cons,List.append_assoc]
    have header := @readItemHeader_record codecs type entry.2 entry.1.pad before
      (recordsOf codecs type rest ++ after)
    have passed := @passItem_record codecs type entry.2 entry.1.pad lawful (consistent _ List.mem_cons_self)
      (passable _ List.mem_cons_self) before (recordsOf codecs type rest ++ after)
    have later := ih (fun other among => consistent other (List.mem_cons_of_mem _ among))
      (fun other among => passable other (List.mem_cons_of_mem _ among))
      (before ++ recordBytes codecs type entry.1.pad entry.2)
    rw [← List.append_assoc] at header passed
    rw [shape,List.length_cons,LogManager.locate,header]
    simp only [passed]
    exact later

end Reading

-- Appending to a fresh log succeeds, and every index reads what was written at it.
def Indexed (codecs : Codecs) (config : WALConfig) (now : UInt64) (pad : Nat → UInt8)
    (entries : List (Env × VariableSizeLogItem)) : Prop :=
  ∃ final, (LogManager.new config now pad ⟨[],[]⟩).writeItems codecs entries = (.ok (),final) ∧
    ∀ index, final.readVariableSizeLogItem codecs index = some (match entries[index.toNat]? with
      | some entry => .ok entry.2
      | none => .error .logRecordNotFound)

-- Every state of a run of appends: nothing is due for a checkpoint, and every
-- item with another one behind it can be passed.
theorem random_access {codecs : Codecs} {config : WALConfig} (lawful : Lawful codecs config.compression_type)
    (now : UInt64) (pad : Nat → UInt8) (entries : List (Env × VariableSizeLogItem)) (few : entries.length < 2^32)
    (quiet : Quiet config now entries) (consistent : ∀ entry ∈ entries, Consistent entry.2)
    (passable : ∀ entry ∈ entries.dropLast, Passable codecs config.compression_type entry.2) :
    Indexed codecs config now pad entries := by
  obtain ⟨final,written,⟨room,_,layout⟩,set,counted⟩ := fresh_log config now pad entries lawful quiet consistent
  have type : final.compression_type = config.compression_type := congrArg (·.config.compression_type) set
  refine ⟨final,written,fun index => ?_⟩
  unfold LogManager.readVariableSizeLogItem
  have bound : index ≥ final.header.record_count ↔ entries.length ≤ index.toNat := by
    rw [counted,ge_iff_le,UInt32.le_iff_toNat_le,UInt32.toNat_ofNat',Nat.mod_eq_of_lt few]
  by_cases beyond : entries.length ≤ index.toNat
  · rw [if_pos (bound.mpr beyond),List.getElem?_eq_none beyond]
  · have inside : index.toNat < entries.length := by omega
    rw [if_neg (fun past => beyond (bound.mp past)),List.getElem?_eq_getElem inside]
    obtain ⟨front,entry,rest,split,long,at_index⟩ : ∃ front entry rest, entries = front ++ entry :: rest ∧
        front.length = index.toNat ∧ entries[index.toNat] = entry :=
      ⟨entries.take index.toNat,entries[index.toNat],entries.drop (index.toNat+1),
        by rw [List.getElem_cons_drop,List.take_append_drop],by rw [List.length_take]; omega,rfl⟩
    have filled : entries ≠ [] := List.ne_nil_of_length_pos (Nat.zero_lt_of_lt inside)
    obtain ⟨before,sized,contents⟩ := shape_filled layout.shape
      (recordsOf_filled codecs config.compression_type filled)
    have listed : recordsOf codecs config.compression_type entries = recordsOf codecs config.compression_type front ++
        (recordBytes codecs config.compression_type entry.1.pad entry.2 ++
          recordsOf codecs config.compression_type rest) := by
      rw [split]
      simp only [recordsOf,List.flatMap_append,List.flatMap_cons]
    have of_front (other : Env × VariableSizeLogItem) (among : other ∈ front) : other ∈ entries.dropLast := by
      rw [split,List.dropLast_append_of_ne_nil (List.cons_ne_nil _ _)]
      exact List.mem_append_left _ among
    have whole : final.log_handle.contents = before ++ recordsOf codecs config.compression_type front ++
        (recordBytes codecs config.compression_type entry.1.pad entry.2 ++
          (recordsOf codecs config.compression_type rest ++ zeros room)) := by
      rw [contents,listed]
      simp only [List.append_assoc]
    have located := locate_records lawful front
      (fun other among => consistent other (List.dropLast_subset _ (of_front other among)))
      (fun other among => passable other (of_front other among)) before
      (recordBytes codecs config.compression_type entry.1.pad entry.2 ++
        (recordsOf codecs config.compression_type rest ++ zeros room))
    have own : Consistent entry.2 := consistent entry (by rw [split]; exact List.mem_append_cons_self)
    have header := @readItemHeader_record codecs config.compression_type entry.2 entry.1.pad
      (before ++ recordsOf codecs config.compression_type front)
      (recordsOf codecs config.compression_type rest ++ zeros room)
    have item := @readItem_record codecs config.compression_type entry.2 entry.1.pad lawful own
      (before ++ recordsOf codecs config.compression_type front)
      (recordsOf codecs config.compression_type rest ++ zeros room)
    rw [List.append_assoc (before ++ _)] at header item
    rw [long,sized,← whole] at located
    rw [← whole] at header item
    simp only [located,header,type,item,at_index]

section Bytes

def logged (old new : Bytes) : Env × VariableSizeLogItem :=
  let item : VariableSizeLogItem := ⟨⟨.update,1,0,UInt16.ofNat old.length,UInt16.ofNat new.length,1,1,0⟩,old,new⟩
  (still,{item with header:={item.header with checksum:=calculateVariableSizeLogItemChecksum item}})

theorem logged_consistent {old new : Bytes} (short : old.length < 2^16) (short_new : new.length < 2^16) :
    Consistent (logged old new).2 :=
  ⟨UInt16.toNat_ofNat_of_lt' short,UInt16.toNat_ofNat_of_lt' short_new,rfl⟩

-- A last item with both payloads hides nothing.
theorem random_access_pair : Indexed plainBuild .standard 0 (fun _ => 0) [logged [] [5],logged [1] [2]] := by
  refine random_access (lawful_none plainBuild) 0 (fun _ => 0) [logged [] [5],logged [1] [2]] (by decide) ?_ ?_ ?_
  · intro entry among
    simp only [List.mem_cons,List.not_mem_nil,or_false] at among
    rcases among with rfl | rfl
    · decide
    · decide
  · intro entry among
    simp only [List.mem_cons,List.not_mem_nil,or_false] at among
    rcases among with rfl | rfl
    · exact logged_consistent (by decide) (by decide)
    · exact logged_consistent (by decide) (by decide)
  · intro entry among
    obtain rfl := List.mem_singleton.mp among
    exact fun filled => absurd rfl filled

def refused : Option (Except RemDbError VariableSizeLogItem) → Bool
  | some (.error failure) => decide (failure = .fileIoError)
  | _ => false

-- An item behind it is looked for past the end of the file.
theorem second_item_unreachable : ¬ Indexed plainBuild .standard 0 (fun _ => 0) [logged [1] [2],logged [] [5]] := by
  rintro ⟨final,written,reads⟩
  have missed : refused (((LogManager.new .standard 0 (fun _ => 0) ⟨[],[]⟩).writeItems plainBuild
      [logged [1] [2],logged [] [5]]).2.readVariableSizeLogItem plainBuild 1) = true := by decide +kernel
  rw [written,reads 1] at missed
  cases missed

end Bytes

end RemDb.Wal
