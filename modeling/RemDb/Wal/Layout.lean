import RemDb.Wal.Scan

namespace RemDb.Wal
open RemDb.Lib

def zeros (count : Nat) : Bytes := List.replicate count 0

@[simp] theorem zeros_length (count : Nat) : (zeros count).length = count := List.length_replicate

-- What the writer and the scan rely on from a compression library: it packs
-- every record image, within the length its own bound gives, and unpacks it.
def Lawful (codecs : Codecs) (type : WALCompressionType) : Prop :=
  ∀ data : Bytes, data.length < 2^16 → ∃ packed, compressWalData codecs type data = .ok packed ∧
    packed.length < 2^32 ∧ decompressWalData codecs type packed = .ok data

theorem lawful_none (codecs : Codecs) : Lawful codecs .none := by
  intro data small
  exact ⟨data,rfl,by omega,rfl⟩

def packed (codecs : Codecs) (type : WALCompressionType) (data : Bytes) : Bytes :=
  match compressWalData codecs type data with
  | .ok bytes => bytes
  | .error _ => []

def storedPart (codecs : Codecs) (type : WALCompressionType) (data : Bytes) : Bytes :=
  if data = [] then [] else toLE 4 (packed codecs type data).length ++ packed codecs type data

def stored (codecs : Codecs) (type : WALCompressionType) (item : VariableSizeLogItem) : Bytes :=
  storedPart codecs type item.old_data ++ storedPart codecs type item.new_data

def plainSize (item : VariableSizeLogItem) : Nat := item.old_data.length+item.new_data.length

def recordBytes (codecs : Codecs) (type : WALCompressionType) (pad : Nat → UInt8)
    (item : VariableSizeLogItem) : Bytes :=
  item.header.encode pad ++ stored codecs type item

section Records
variable {codecs : Codecs} {type : WALCompressionType} {data : Bytes} {pad : Nat → UInt8}
  {item : VariableSizeLogItem}

theorem lawful_packed (lawful : Lawful codecs type) (small : data.length < 2^16) :
    compressWalData codecs type data = .ok (packed codecs type data) ∧
      (packed codecs type data).length < 2^32 ∧
      decompressWalData codecs type (packed codecs type data) = .ok data := by
  obtain ⟨bytes,compressed,short,back⟩ := lawful data small
  have same : packed codecs type data = bytes := by simp [packed,compressed]
  exact ⟨by rw [same,compressed],by rw [same]; exact short,by rw [same]; exact back⟩

theorem sized_positive {size : UInt16} (sized : size.toNat = data.length) :
    size > 0 ↔ data ≠ [] := by
  rw [gt_iff_lt,UInt16.lt_iff_toNat_lt,sized]
  exact List.length_pos_iff

theorem sized_small {size : UInt16} (sized : size.toNat = data.length) : data.length < 2^16 := by
  rw [← sized]
  exact size.toNat_lt

theorem packPart_stored (lawful : Lawful codecs type) {size : UInt16}
    (sized : size.toNat = data.length) :
    LogManager.packPart codecs type size data = .ok (storedPart codecs type data) := by
  unfold LogManager.packPart storedPart
  by_cases empty : data = []
  · rw [if_neg (by rw [sized_positive sized]; exact fun h => h empty),if_pos empty]
  · rw [if_pos ((sized_positive sized).mpr empty),if_neg empty,
      (lawful_packed lawful (sized_small sized)).1]
    rfl

theorem readPart_packed (lawful : Lawful codecs type) (compressed : type ≠ .none) {size : UInt16}
    (sized : size.toNat = data.length) (before after : Bytes) :
    LogManager.readPart codecs type (before ++ storedPart codecs type data ++ after)
      before.length size = some (data,before.length+(storedPart codecs type data).length) := by
  unfold LogManager.readPart
  by_cases empty : data = []
  · rw [if_neg (by rw [sized_positive sized]; exact fun h => h empty)]
    simp [storedPart,empty]
  · obtain ⟨_,short,back⟩ := lawful_packed lawful (sized_small sized)
    have shape : before ++ storedPart codecs type data ++ after =
        before ++ (toLE 4 (packed codecs type data).length ++ (packed codecs type data ++ after)) := by
      simp [storedPart,empty]
    have lengthField : readAt (before ++ storedPart codecs type data ++ after) before.length 4 =
        toLE 4 (packed codecs type data).length := by
      rw [shape]
      exact readAt_append before (toLE 4 _) _
    have value : ofLE (toLE 4 (packed codecs type data).length) = (packed codecs type data).length :=
      le_roundtrip short
    have bodyField : readAt (before ++ storedPart codecs type data ++ after) (before.length+4)
        (packed codecs type data).length = packed codecs type data := by
      rw [shape,readAt_skip]
      exact readAt_append (toLE 4 _) _ after
    have span : (storedPart codecs type data).length = 4+(packed codecs type data).length := by
      simp [storedPart,empty]
    simp only [(sized_positive sized).mpr empty,if_true,if_neg compressed,lengthField,toLE_length,
      value,bodyField,back,span]

theorem admissible_stamped {header : LogItem} (stamped : header.timestamp ≠ 0) :
    LogManager.admissible header = true := by
  simp [LogManager.admissible,stamped]

theorem itemAt_packed (lawful : Lawful codecs type) (compressed : type ≠ .none)
    (formed : WellFormed item) (before after : Bytes) :
    LogManager.itemAt codecs type (before ++ recordBytes codecs type pad item ++ after)
      before.length = some item := by
  obtain ⟨header,old,new⟩ := item
  have headerField : readAt (before ++ recordBytes codecs type pad ⟨header,old,new⟩ ++ after)
      before.length logItemSize = header.encode pad := by
    have cut := readAt_append before (header.encode pad) (stored codecs type ⟨header,old,new⟩ ++ after)
    rw [encode_length] at cut
    simpa [recordBytes,List.append_assoc] using cut
  have oldField := readPart_packed lawful compressed formed.old_size (before ++ header.encode pad)
    (storedPart codecs type new ++ after)
  have newField := readPart_packed lawful compressed formed.new_size
    (before ++ header.encode pad ++ storedPart codecs type old) after
  simp only [List.length_append,encode_length,List.append_assoc] at oldField newField
  unfold LogManager.itemAt
  rw [headerField,item_roundtrip]
  simp only [recordBytes,stored,List.append_assoc,oldField]
  simp only [Nat.add_assoc] at newField ⊢
  simp only [newField]
  rw [if_pos ⟨formed.sum,admissible_stamped formed.stamped⟩]

theorem readAt_join (file : Bytes) (offset first second : Nat) :
    readAt file offset (first+second) = readAt file offset first ++ readAt file (offset+first) second := by
  simp [readAt,List.take_add,List.drop_drop]

theorem storedPart_longer (codecs : Codecs) (data : Bytes) :
    data.length ≤ (storedPart codecs .none data).length := by
  by_cases empty : data = []
  · simp [empty]
  · simp [storedPart,empty,packed,compressWalData]

theorem readPart_plain (codecs : Codecs) {file : Bytes} {offset : Nat} {size : UInt16}
    (inside : offset+size.toNat ≤ file.length) :
    LogManager.readPart codecs .none file offset size =
      some (readAt file offset size.toNat,offset+size.toNat) := by
  have whole : (readAt file offset size.toNat).length = size.toNat := by
    rw [readAt_length]
    omega
  unfold LogManager.readPart
  split
  · simp [whole]
  · rename_i zero
    have none_left : size.toNat = 0 := by
      rw [gt_iff_lt,UInt16.lt_iff_toNat_lt] at zero
      have unsigned : (0 : UInt16).toNat = 0 := rfl
      omega
    simp [none_left,readAt]

-- Without compression the scan reads the payload where the prefix stands, so
-- it gets the payload back only when these bytes happen to coincide.
def ReadsBack (codecs : Codecs) (type : WALCompressionType) (item : VariableSizeLogItem) : Prop :=
  type = .none → (stored codecs type item).take (plainSize item) = item.old_data ++ item.new_data

instance (codecs : Codecs) (type : WALCompressionType) (item : VariableSizeLogItem) :
    Decidable (ReadsBack codecs type item) := inferInstanceAs (Decidable (_ → _))

theorem itemAt_plain (formed : WellFormed item) (before after : Bytes) :
    LogManager.itemAt codecs .none (before ++ recordBytes codecs .none pad item ++ after)
      before.length = some item ↔ ReadsBack codecs .none item := by
  obtain ⟨header,old,new⟩ := item
  obtain ⟨oldSize,newSize,sum,stamped⟩ := formed
  dsimp only at oldSize newSize stamped
  have longer : plainSize ⟨header,old,new⟩ ≤ (stored codecs .none ⟨header,old,new⟩).length := by
    have first := storedPart_longer codecs old
    have second := storedPart_longer codecs new
    simp only [plainSize,stored,List.length_append]
    omega
  generalize shape : before ++ recordBytes codecs .none pad ⟨header,old,new⟩ ++ after = file
  have fileShape : file = (before ++ header.encode pad) ++
      (stored codecs .none ⟨header,old,new⟩ ++ after) := by
    rw [← shape,recordBytes]
    simp only [List.append_assoc]
  have fileLength : file.length =
      before.length+logItemSize+((stored codecs .none ⟨header,old,new⟩).length+after.length) := by
    rw [fileShape]
    simp only [List.length_append,encode_length]
  have headerField : readAt file before.length logItemSize = header.encode pad := by
    have cut := readAt_append before (header.encode pad) (stored codecs .none ⟨header,old,new⟩ ++ after)
    rw [encode_length] at cut
    rw [fileShape,List.append_assoc]
    exact cut
  have payload : readAt file (before.length+logItemSize) (plainSize ⟨header,old,new⟩) =
      (stored codecs .none ⟨header,old,new⟩).take (plainSize ⟨header,old,new⟩) := by
    have skip := readAt_skip (before ++ header.encode pad)
      (stored codecs .none ⟨header,old,new⟩ ++ after) 0 (plainSize ⟨header,old,new⟩)
    rw [List.length_append,encode_length,Nat.add_zero,readAt_front,
      List.take_append_of_le_length longer] at skip
    rw [fileShape]
    exact skip
  have plain : plainSize ⟨header,old,new⟩ = header.old_data_size.toNat+header.new_data_size.toNat := by
    rw [oldSize,newSize,plainSize]
  have joined := readAt_join file (before.length+logItemSize) header.old_data_size.toNat
    header.new_data_size.toNat
  rw [← plain,payload] at joined
  have oldRead := @readPart_plain codecs file (before.length+logItemSize) header.old_data_size (by omega)
  have newRead := @readPart_plain codecs file
    (before.length+logItemSize+header.old_data_size.toNat) header.new_data_size (by omega)
  unfold LogManager.itemAt
  rw [headerField,item_roundtrip]
  simp only [oldRead,newRead]
  constructor
  · intro taken _
    split at taken
    · simp only [Option.some.injEq,VariableSizeLogItem.mk.injEq,true_and] at taken
      rw [joined,taken.1,taken.2]
    · cases taken
  · intro back
    have both := (back rfl).symm.trans joined
    have oldBack : readAt file (before.length+logItemSize) header.old_data_size.toNat = old := by
      have lengths : old.length =
          (readAt file (before.length+logItemSize) header.old_data_size.toNat).length := by
        rw [readAt_length]
        omega
      exact (List.append_inj_left both lengths).symm
    have newBack : readAt file (before.length+logItemSize+header.old_data_size.toNat)
        header.new_data_size.toNat = new := by
      rw [oldBack] at both
      exact (List.append_cancel_left both).symm
    rw [oldBack,newBack,if_pos ⟨sum,admissible_stamped stamped⟩]

theorem itemAt_record (lawful : Lawful codecs type) (formed : WellFormed item) (before after : Bytes) :
    LogManager.itemAt codecs type (before ++ recordBytes codecs type pad item ++ after)
      before.length = some item ↔ ReadsBack codecs type item := by
  by_cases compressed : type = .none
  · subst compressed
    exact itemAt_plain formed before after
  · exact ⟨fun _ plain => absurd plain compressed,
      fun _ => itemAt_packed lawful compressed formed before after⟩

end Records

theorem writeAt_zeros (front bytes : Bytes) (gap room : Nat) :
    writeAt (front ++ zeros room) (front.length+gap) bytes =
      front ++ zeros gap ++ bytes ++ zeros (room-(gap+bytes.length)) := by
  have taken : (front ++ zeros room).take (front.length+gap) = front ++ zeros (min gap room) := by
    rw [List.take_append,List.take_of_length_le (by omega)]
    simp [zeros,List.take_replicate]
  have dropped : (front ++ zeros room).drop (front.length+gap+bytes.length) =
      zeros (room-(gap+bytes.length)) := by
    rw [Nat.add_assoc,List.drop_append,List.drop_eq_nil_of_le (by omega)]
    simp [zeros]
  have filled : zeros (min gap room) ++ List.replicate (front.length+gap-(front ++ zeros room).length) 0 =
      zeros gap := by
    simp only [zeros,List.length_append,List.length_replicate,List.replicate_append_replicate]
    congr 1
    omega
  rw [writeAt,taken,dropped,List.append_assoc front,filled]

-- A log file written from scratch: the header, the checkpoint area (a hole of
-- zeros until a checkpoint is taken), the records, and zeros still unused.
def Shape (file records : Bytes) (room : Nat) : Prop :=
  ∃ header : Bytes, header.length = logHeaderSize ∧
    (records = [] ∧ file = header ++ zeros room ∨
      file = header ++ zeros logCheckpointSize ++ records ++ zeros room)

theorem shape_append (shape : Shape file records room) (bytes : Bytes) :
    ∃ left ≤ room, Shape (writeAt file (logRegionStart+records.length) bytes) (records ++ bytes) left := by
  obtain ⟨header,sized,⟨rfl,layout⟩ | layout⟩ := shape
  · refine ⟨room-(logCheckpointSize+bytes.length),Nat.sub_le _ _,header,sized,.inr ?_⟩
    have start : logRegionStart+([] : Bytes).length = header.length+logCheckpointSize := by
      rw [sized]; rfl
    rw [layout,start]
    exact writeAt_zeros header bytes logCheckpointSize room
  · refine ⟨room-(0+bytes.length),Nat.sub_le _ _,header,sized,.inr ?_⟩
    have start : logRegionStart+records.length =
        (header ++ zeros logCheckpointSize ++ records).length+0 := by
      simp only [List.length_append,zeros_length,sized,logRegionStart]
      omega
    rw [layout,start,writeAt_zeros]
    simp [zeros,List.append_assoc]

theorem shape_header (shape : Shape file records room) (bytes : Bytes)
    (sized : bytes.length = logHeaderSize) : Shape (writeAt file 0 bytes) records room := by
  obtain ⟨header,old,⟨rfl,layout⟩ | layout⟩ := shape
  · refine ⟨bytes,sized,.inl ⟨rfl,?_⟩⟩
    rw [layout,writeAt_front _ _ _ (by rw [sized,old])]
  · refine ⟨bytes,sized,.inr ?_⟩
    rw [layout,List.append_assoc,List.append_assoc,writeAt_front _ _ _ (by rw [sized,old])]
    simp only [List.append_assoc]

theorem shape_fresh (room : Nat) (bytes : Bytes) (sized : bytes.length = logHeaderSize) :
    Shape (writeAt (zeros room) 0 bytes) [] (room-logHeaderSize) := by
  refine ⟨bytes,sized,.inl ⟨rfl,?_⟩⟩
  simp [writeAt,zeros,sized]

structure Layout (manager : LogManager) (records : Bytes) (room : Nat) : Prop where
  offset : manager.current_log_offset = logRegionStart+records.length
  idle : manager.log_buffer = []
  shape : Shape manager.log_handle.contents records room

theorem new_fresh (config : WALConfig) (now : UInt64) (pad : Nat → UInt8) :
    LogManager.new config now pad ⟨[],[]⟩ =
      ((LogManager.initial config now ⟨[],[]⟩).preallocate config.log_prealloc_size).writeHeader pad := by
  have empty : readAt (Disk.contents ⟨[],[]⟩) 0 logHeaderSize = [] := rfl
  have refused : ¬((readAt (Disk.contents ⟨[],[]⟩) 0 logHeaderSize).length ≥ logHeaderSize ∧
      (LogHeader.decode (readAt (Disk.contents ⟨[],[]⟩) 0 logHeaderSize)).magic = logMagic ∧
      (LogHeader.decode (readAt (Disk.contents ⟨[],[]⟩) 0 logHeaderSize)).version = 1) := by
    rw [empty]
    simp [logHeaderSize]
  unfold LogManager.new
  simp only [if_neg refused]

theorem layout_new (config : WALConfig) (now : UInt64) (pad : Nat → UInt8) :
    Layout (LogManager.new config now pad ⟨[],[]⟩) [] (config.log_prealloc_size-logHeaderSize) := by
  rw [new_fresh]
  refine ⟨?_,?_,?_⟩
  · simp only [LogManager.writeHeader,LogManager.preallocate]
    split <;> rfl
  · simp only [LogManager.writeHeader,LogManager.preallocate]
    split <;> rfl
  · have image : (LogManager.preallocate (LogManager.initial config now ⟨[],[]⟩)
        config.log_prealloc_size).log_handle.contents = zeros config.log_prealloc_size := by
      unfold LogManager.preallocate
      split
      · rename_i some_room
        have tail : zeros config.log_prealloc_size = zeros (config.log_prealloc_size-1) ++ [0] := by
          conv_lhs => rw [← Nat.sub_add_cancel some_room,zeros,List.replicate_succ']
          rfl
        simp only [contents_write,LogManager.initial]
        rw [tail]
        simp [Disk.contents,applyWrites,writeAt,zeros]
      · rename_i no_room
        have zero : config.log_prealloc_size = 0 := by omega
        rw [zero]
        rfl
    simp only [LogManager.writeHeader,contents_write,image]
    exact shape_fresh _ _ (header_length _ _)

-- The part of the manager an append leaves alone: what the checkpoint test,
-- the scan and a later opening read.
structure Settings where
  last_checkpoint_time : UInt64
  magic : UInt32
  version : UInt32
  compression_byte : UInt8
  config : WALConfig

def settings (manager : LogManager) : Settings :=
  ⟨manager.last_checkpoint_time,manager.header.magic,manager.header.version,
    manager.header.compression_type,
    ⟨manager.checkpoint_interval_ms,0,manager.max_consecutive_invalid,manager.skip_threshold,
      manager.skip_block_size,manager.max_skip_attempts,manager.compression_type⟩⟩

def freshSettings (config : WALConfig) (now : UInt64) : Settings :=
  ⟨now/1000,logMagic,1,config.compression_type.toByte,{config with log_prealloc_size:=0}⟩

section Append
variable {codecs : Codecs} {manager : LogManager} {env : Env} {item : VariableSizeLogItem}
  {records : Bytes} {room : Nat}

theorem append_layout (lawful : Lawful codecs manager.compression_type) (layout : Layout manager records room)
    (early : ¬manager.CheckpointDue env) (consistent : Consistent item) :
    ∃ next, manager.writeVariableSizeLogItem codecs env item = (.ok (),next) ∧
      (∃ left ≤ room, Layout next
        (records ++ recordBytes codecs manager.compression_type env.pad item) left) ∧
      settings next = settings manager ∧ next.header.record_count = manager.header.record_count+1 := by
  obtain ⟨offset,idle,shape⟩ := layout
  have oldPart := packPart_stored lawful consistent.old_size
  have newPart := packPart_stored lawful consistent.new_size
  obtain ⟨one,oneLe,headed⟩ := shape_append shape (item.header.encode env.pad)
  obtain ⟨two,twoLe,olded⟩ := shape_append headed (storedPart codecs manager.compression_type item.old_data)
  obtain ⟨three,threeLe,newed⟩ := shape_append olded
    (storedPart codecs manager.compression_type item.new_data)
  have filed := shape_header newed
  unfold LogManager.writeVariableSizeLogItem
  simp only [LogManager.checkFlush_idle idle early,oldPart,newPart]
  refine ⟨_,rfl,⟨three,by omega,⟨?_,idle,?_⟩⟩,rfl,rfl⟩
  · simp only [LogManager.writeHeader,offset,recordBytes,stored,List.length_append,encode_length]
    omega
  · simp only [LogManager.writeHeader,LogManager.put,contents_write,offset]
    have target := filed (LogHeader.encode env.pad
      {manager.header with
        record_count:=manager.header.record_count+1,
        checksum:=calculateChecksum (LogHeader.encode env.pad
          {manager.header with record_count:=manager.header.record_count+1,checksum:=0})})
      (header_length _ _)
    simpa only [recordBytes,stored,List.length_append,encode_length,List.append_assoc,Nat.add_assoc]
      using target

end Append
end RemDb.Wal
