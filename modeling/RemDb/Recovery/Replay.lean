import RemDb.Tx.Logging

namespace RemDb
open RemDb.Lib RemDb.Wal

namespace MemoryTable

-- The redo of an insert takes its slot out of the stack if it finds it there,
-- and else the top entry, whichever that is.
def redoFree (free : List Nat) (slot : Nat) : List Nat :=
  if free = [] then []
  else if slot ∈ free then swapRemove free slot else free.dropLast

-- Unlike insert it looks at the first column of a composite key as well.
def redoMaxPk (table : MemoryTable) (record : Bytes) : MemoryTable :=
  match table.tdef.primary_key.head? with
  | some column =>
    match table.tdef.fields[column]? with
    | some field =>
      if keyValue field record > table.max_pk then {table with max_pk:=keyValue field record} else table
    | none => table
  | none => table

def redoInsert (table : MemoryTable) (slot : Nat) (tx : UInt32) (new : Bytes) : MemoryTable :=
  let bytes := memcpy (table.records slot) new (min new.length table.tdef.record_size)
  let copied := table.setRecord slot bytes
  let header := table.status slot
  let marked :=
    if table.used slot then
      copied.setStatus slot {header with version:=header.version+1,create_tx_id:=tx}
    else
      let taken := copied.setStatus slot ⟨.used,header.version+1,tx,0,0⟩
      {taken with record_count:=taken.record_count+1,free_slots:=redoFree taken.free_slots slot}
  marked.redoMaxPk bytes

def redoDelete (table : MemoryTable) (slot : Nat) : MemoryTable :=
  if table.used slot then table.release slot else table

-- The announced size bounds the copy here, not the record size.
def redoUpdate (table : MemoryTable) (slot : Nat) (tx : UInt32) (size : Nat) (new : Bytes) : MemoryTable :=
  if table.used slot then
    let header := table.status slot
    (table.setRecord slot (memcpy (table.records slot) new (min size new.length))).setStatus slot
      {header with version:=header.version+1,create_tx_id:=tx}
  else table

-- Phase 3 of `recover` on one item of this table.
def redo (table : MemoryTable) (item : VariableSizeLogItem) : MemoryTable :=
  match item.header.op_type with
  | .insert => table.redoInsert item.header.record_id.toNat item.header.tx_id item.new_data
  | .delete => table.redoDelete item.header.record_id.toNat
  | .update => table.redoUpdate item.header.record_id.toNat item.header.tx_id
      item.header.new_data_size.toNat item.new_data
  | _ => table

def replay (table : MemoryTable) (items : List VariableSizeLogItem) : MemoryTable := items.foldl redo table

-- The changes of a run in which every insert, update and delete succeeds.
-- Switching the power mode logs nothing for the table.
def performed (codecs : Codecs) (table : MemoryTable) : List (TransactionManager × Call) → Option (List Change)
  | [] => some []
  | (tx,call) :: rest =>
    match call with
    | .setLowPowerMode enabled maxRecords => (table.setLowPowerMode enabled maxRecords).performed codecs rest
    | other =>
      (table.changeOf tx other).bind fun change =>
        ((table.call codecs tx other).1.performed codecs rest).map (change :: ·)

-- The table was full at some moment of the run.
def WasFull (codecs : Codecs) (table : MemoryTable) : List (TransactionManager × Call) → Prop
  | [] => table.record_count = table.tdef.max_records
  | (tx,call) :: rest =>
    table.record_count = table.tdef.max_records ∨ (table.call codecs tx call).1.WasFull codecs rest

-- The replayed table beside the original: the same but for the free stack,
-- which lacks the slots that were never handed out, the bottom of the original.
structure Mirrors (original copy : MemoryTable) (untouched : List Nat) : Prop where
  sound : original.Sound
  tdef : copy.tdef = original.tdef
  used : copy.used = original.used
  records : ∀ slot, original.used slot = true → copy.records slot = original.records slot
  count : copy.record_count = original.record_count
  free : original.free_slots = untouched ++ copy.free_slots
  sized : ∀ slot, (copy.records slot).length = copy.tdef.record_size
  normal : copy.low_power_mode = false

theorem redoMaxPk_only (table : MemoryTable) (record : Bytes) :
    ∃ key, table.redoMaxPk record = {table with max_pk:=key} := by
  unfold redoMaxPk
  split
  · split
    · split
      · exact ⟨_,rfl⟩
      · exact ⟨_,rfl⟩
    · exact ⟨_,rfl⟩
  · exact ⟨_,rfl⟩

section Redo
variable {original copy : MemoryTable} {slot : Nat} {untouched : List Nat}

theorem redoInsert_parts (sized : ∀ slot, (copy.records slot).length = copy.tdef.record_size) (slot : Nat)
    (tx : UInt32) {image : Bytes} (fits : image.length = copy.tdef.record_size) :
    (copy.redoInsert slot tx image).tdef = copy.tdef ∧
    (copy.redoInsert slot tx image).records = assign copy.records slot image ∧
    (copy.redoInsert slot tx image).used = assign copy.used slot true ∧
    (copy.redoInsert slot tx image).low_power_mode = copy.low_power_mode ∧
    (copy.redoInsert slot tx image).record_count =
      (if copy.used slot then copy.record_count else copy.record_count+1) ∧
    (copy.redoInsert slot tx image).free_slots =
      (if copy.used slot then copy.free_slots else redoFree copy.free_slots slot) := by
  have copied := memcpy_old image (copy.records slot) copy.tdef.record_size fits (sized slot)
  unfold redoInsert
  rw [copied]
  by_cases taken : copy.used slot = true
  · obtain ⟨key,raised⟩ := redoMaxPk_only ((copy.setRecord slot image).setStatus slot
      {copy.status slot with version:=(copy.status slot).version+1,create_tx_id:=tx}) image
    simp only [taken,if_true]
    rw [raised]
    refine ⟨rfl,rfl,?_,rfl,rfl,rfl⟩
    exact mark_used image (of_decide_eq_true taken)
  · simp only [taken,if_false,Bool.false_eq_true]
    obtain ⟨key,raised⟩ := redoMaxPk_only
      {(copy.setRecord slot image).setStatus slot ⟨.used,(copy.status slot).version+1,tx,0,0⟩ with
        record_count:=((copy.setRecord slot image).setStatus slot
          ⟨.used,(copy.status slot).version+1,tx,0,0⟩).record_count+1,
        free_slots:=redoFree ((copy.setRecord slot image).setStatus slot
          ⟨.used,(copy.status slot).version+1,tx,0,0⟩).free_slots slot} image
    rw [raised]
    refine ⟨rfl,rfl,?_,rfl,rfl,rfl⟩
    exact mark_used image rfl

-- The stack of the copy loses what the stack of the original loses, until the
-- original goes on to slots that were never handed out.
theorem redoFree_top {free : List Nat} (distinct : (untouched ++ free).Nodup) (shape : untouched ++ free = rest ++ [slot]) :
    (rest = untouched ++ redoFree free slot) ∨ (free = [] ∧ untouched = rest ++ [slot] ∧ redoFree free slot = []) := by
  rcases List.eq_nil_or_concat' free with rfl | ⟨front,top,rfl⟩
  · exact .inr ⟨rfl,by simpa using shape,rfl⟩
  · left
    rw [← List.append_assoc] at shape distinct
    obtain ⟨rfl,last⟩ := List.append_inj' shape rfl
    obtain rfl : top = slot := by simpa using last
    have absent : top ∉ front := by
      intro member
      have parts := List.nodup_append.mp distinct
      exact parts.2.2 top (List.mem_append_right _ member) top (by simp) rfl
    unfold redoFree
    rw [if_neg (by simp),if_pos (by simp),swapRemove_last absent]

theorem mirror_insert (mirrors : Mirrors original copy untouched) (tx : TransactionManager) (now : UInt64)
    (data : Bytes) (placed : (original.insert tx now data).1 = .ok slot) (logTx : UInt32) :
    ∃ fresh, Mirrors (original.insert tx now data).2.1
        (copy.redoInsert slot logTx (recordImage original.tdef.record_size data)) fresh ∧
      (fresh = untouched ∨ (untouched = fresh ++ [slot] ∧
        (original.insert tx now data).2.1.free_slots = fresh)) := by
  obtain ⟨sound,tdef,used,records,count,free,sized,normal⟩ := mirrors
  have good := insert_sound sound tx now data
  obtain ⟨redoTdef,redoRecords,redoUsed,redoMode,redoCount,redoStack⟩ := redoInsert_parts sized slot logTx
    (recordImage_length _ data |>.trans (by rw [tdef]))
  have redoSized (each : Nat) : ((copy.redoInsert slot logTx
      (recordImage original.tdef.record_size data)).records each).length =
      (copy.redoInsert slot logTx (recordImage original.tdef.record_size data)).tdef.record_size := by
    rw [redoRecords,redoTdef]
    exact assign_length sized (by rw [recordImage_length,tdef]) slot each
  have sameRecords (each : Nat) (taken : assign original.used slot true each = true) :
      assign copy.records slot (recordImage original.tdef.record_size data) each =
        assign original.records slot (recordImage original.tdef.record_size data) each := by
    apply assign_agree
    intro different
    rw [assign_other _ different] at taken
    exact records each taken
  obtain ⟨failure,same⟩ | ⟨place,image,logged,result,rfl,_,same,cases⟩ := insert_cases original tx now data
  · rw [same] at placed
    cases placed
  · rw [same] at placed good ⊢
    obtain rfl : slot = place := (Except.ok.inj placed).symm
    obtain ⟨_,_,best,key,rfl⟩ | ⟨_,rest,key,shape,rfl⟩ := cases
    · have taken := (oldest_used best).2
      have copyTaken : copy.used slot = true := by rw [used]; exact taken
      rw [if_pos copyTaken] at redoCount redoStack
      refine ⟨untouched,⟨good,redoTdef.trans tdef,?_,?_,?_,?_,redoSized,redoMode.trans normal⟩,.inl rfl⟩
      · rw [redoUsed,used]
        exact (store_used _ true).symm
      · intro each marked
        rw [redoRecords]
        exact sameRecords each (by rw [← store_used _ true]; exact marked)
      · exact redoCount.trans count
      · rw [redoStack]
        exact free
    · have split := sound.split
      rw [shape] at split
      have idle := ((split.complete slot).mp (List.mem_append_right rest List.mem_cons_self)).2
      have copyIdle : ¬copy.used slot = true := by rw [used,idle]; simp
      rw [if_neg copyIdle] at redoCount redoStack
      have distinct := sound.split.distinct
      rw [free] at distinct
      have mirrored (fresh : List Nat)
          (stack : rest = fresh ++ (copy.redoInsert slot logTx
            (recordImage original.tdef.record_size data)).free_slots) :
          Mirrors {original.store slot (recordImage original.tdef.record_size data) true with
            free_slots:=rest,max_pk:=key,record_count:=original.record_count+1}
            (copy.redoInsert slot logTx (recordImage original.tdef.record_size data)) fresh := by
        refine ⟨good,redoTdef.trans tdef,?_,?_,?_,stack,redoSized,redoMode.trans normal⟩
        · rw [redoUsed,used]
          exact (store_used _ true).symm
        · intro each marked
          rw [redoRecords]
          exact sameRecords each (by rw [← store_used _ true]; exact marked)
        · rw [redoCount,count]
      rcases redoFree_top distinct (free.symm.trans shape) with stack | ⟨_,last,empty⟩
      · exact ⟨untouched,mirrored untouched (by rw [redoStack]; exact stack),.inl rfl⟩
      · refine ⟨rest,mirrored rest (by rw [redoStack,empty,List.append_nil]),.inr ⟨last,rfl⟩⟩

theorem mirror_update (mirrors : Mirrors original copy untouched) (tx : TransactionManager) (now : UInt64)
    (data : Bytes) (done : (original.update tx now slot data).1 = .ok ()) (logTx : UInt32) (size : Nat)
    (whole : size = original.tdef.record_size) :
    Mirrors (original.update tx now slot data).2.1
      (copy.redoUpdate slot logTx size (recordImage original.tdef.record_size data)) untouched := by
  obtain ⟨sound,tdef,used,records,count,free,sized,normal⟩ := mirrors
  have good := update_sound sound tx now slot data
  obtain ⟨failure,same⟩ | ⟨_,taken,same⟩ := update_cases original tx now slot data
  · rw [same] at done
    cases done
  · rw [same] at good ⊢
    have copyTaken : copy.used slot = true := by rw [used]; exact taken
    have copied : memcpy (copy.records slot) (recordImage original.tdef.record_size data)
        (min size (recordImage original.tdef.record_size data).length) =
          recordImage original.tdef.record_size data := by
      rw [Nat.min_comm,whole]
      exact memcpy_old _ _ _ (recordImage_length _ _) (by rw [sized,tdef])
    have shape : copy.redoUpdate slot logTx size (recordImage original.tdef.record_size data) =
        (copy.setRecord slot (recordImage original.tdef.record_size data)).setStatus slot
          {copy.status slot with version:=(copy.status slot).version+1,create_tx_id:=logTx} := by
      unfold redoUpdate
      rw [if_pos copyTaken,copied]
    have marks : (copy.redoUpdate slot logTx size (recordImage original.tdef.record_size data)).used =
        copy.used := by
      have busy : (copy.status slot).status = .used := of_decide_eq_true copyTaken
      rw [shape]
      refine (mark_used _ ?_).trans (assign_held copyTaken)
      exact busy
    refine ⟨good,by rw [shape]; exact tdef,?_,?_,by rw [shape]; exact count,by rw [shape]; exact free,?_,
      by rw [shape]; exact normal⟩
    · rw [marks,used,store_used,assign_held taken]
    · intro each marked
      rw [store_used,assign_held taken] at marked
      rw [shape]
      exact assign_agree fun _ => records each marked
    · rw [shape]
      exact assign_length sized (by rw [recordImage_length,tdef]) slot

theorem mirror_delete (mirrors : Mirrors original copy untouched) (tx : TransactionManager) (now : UInt64)
    (done : (original.delete tx now slot).1 = .ok ()) :
    Mirrors (original.delete tx now slot).2.1 (copy.redoDelete slot) untouched := by
  obtain ⟨sound,tdef,used,records,count,free,sized,normal⟩ := mirrors
  obtain same | ⟨inside,taken,same⟩ := delete_cases original tx now slot
  · rw [same] at done
    cases done
  · rw [same]
    have copyTaken : copy.used slot = true := by rw [used]; exact taken
    have total := sound.toAccounted.total
    have counted := sound.count
    have someUsed := usedCount_release inside taken
    have longer : copy.free_slots.length ≤ original.free_slots.length := by rw [free]; simp
    have shape := @release_eq original (by omega) slot
    have redone : copy.redoDelete slot = copy.release slot := if_pos copyTaken
    have copyShape := @release_eq copy (by rw [tdef]; omega) slot
    rw [redone]
    refine ⟨release_sound sound inside taken,?_,?_,?_,?_,?_,?_,?_⟩
    · rw [copyShape,shape]
      exact tdef
    · rw [release_used,release_used,used]
    · intro each marked
      rw [release_used] at marked
      have different : each ≠ slot := by
        intro equal
        rw [equal,assign_same] at marked
        cases marked
      rw [assign_other _ different] at marked
      rw [copyShape,shape]
      simp only [assign_other _ different]
      exact records each marked
    · rw [copyShape,shape]
      exact congrArg (usizeSub · 1) count
    · rw [copyShape,shape]
      simp only [free,List.append_assoc]
    · rw [copyShape]
      exact assign_length sized List.length_replicate slot
    · rw [copyShape]
      exact normal

theorem mirror_call (codecs : Codecs) (mirrors : Mirrors original copy untouched) (tx : TransactionManager)
    (call : Call) (changed : original.changeOf tx call = some change) (carries : Carries change item) :
    ∃ fresh, Mirrors (original.call codecs tx call).1 (copy.redo item) fresh ∧
      (fresh = untouched ∨ (untouched ≠ [] ∧ (original.call codecs tx call).1.free_slots = fresh)) := by
  cases call with
  | insert now data =>
    unfold changeOf at changed
    dsimp only at changed
    split at changed
    · rename_i slot placed
      obtain rfl := Option.some.inj changed
      have redone : copy.redo item = copy.redoInsert slot item.header.tx_id
          (recordImage original.tdef.record_size data) := by
        unfold redo
        rw [carries.operation,carries.slot,carries.new]
      obtain ⟨fresh,mirrored,grows⟩ := mirror_insert mirrors tx now data placed item.header.tx_id
      rw [redone]
      refine ⟨fresh,mirrored,?_⟩
      rcases grows with same | ⟨last,stack⟩
      · exact .inl same
      · exact .inr ⟨by rw [last]; simp,stack⟩
    · cases changed
  | update now slot data =>
    unfold changeOf at changed
    dsimp only at changed
    split at changed
    · rename_i done
      obtain rfl := Option.some.inj changed
      have redone : copy.redo item = copy.redoUpdate slot item.header.tx_id item.header.new_data_size.toNat
          (recordImage original.tdef.record_size data) := by
        unfold redo
        rw [carries.operation,carries.slot,carries.new]
      rw [redone]
      refine ⟨untouched,?_,.inl rfl⟩
      exact mirror_update mirrors tx now data done _ _ (by rw [carries.new_size,recordImage_length])
    · cases changed
  | delete now slot =>
    unfold changeOf at changed
    dsimp only at changed
    split at changed
    · rename_i done
      obtain rfl := Option.some.inj changed
      have redone : copy.redo item = copy.redoDelete slot := by
        unfold redo
        rw [carries.operation,carries.slot]
      rw [redone]
      exact ⟨untouched,mirror_delete mirrors tx now done,.inl rfl⟩
    · cases changed
  | batchInsert clock records count => cases changed
  | timeSeriesBatchInsert clock records count => cases changed
  | setLowPowerMode enabled maxRecords => cases changed

theorem full_iff (sound : original.Sound) :
    original.record_count = original.tdef.max_records ↔ original.free_slots = [] := by
  have total := sound.toAccounted.total
  rw [← List.length_eq_zero_iff]
  omega

theorem Mirrors.full (mirrors : Mirrors original copy untouched)
    (full : original.record_count = original.tdef.max_records) : untouched = [] := by
  have empty := (full_iff mirrors.sound).mp full
  rw [mirrors.free] at empty
  exact (List.append_eq_nil_iff.mp empty).1

theorem Mirrors.full_before (mirrors : Mirrors original copy untouched) (later : Prop) :
    (untouched = [] ∨ later) ↔
      untouched = [] ∨ original.record_count = original.tdef.max_records ∨ later := by
  constructor
  · rintro (empty | full)
    · exact .inl empty
    · exact .inr (.inr full)
  · rintro (empty | full | full)
    · exact .inl empty
    · exact .inl (mirrors.full full)
    · exact .inr full

theorem wasFull_now (codecs : Codecs) (calls : List (TransactionManager × Call))
    (full : original.record_count = original.tdef.max_records) : original.WasFull codecs calls := by
  cases calls with
  | nil => exact full
  | cons entry rest => exact .inl full

theorem mirror_mode (mirrors : Mirrors original copy untouched) (enabled : Bool) (maxRecords : Option Nat) :
    Mirrors (original.setLowPowerMode enabled maxRecords) copy untouched := by
  obtain ⟨sound,tdef,used,records,count,free,sized,normal⟩ := mirrors
  exact ⟨⟨⟨sound.positive,sound.small,sound.split,sound.count⟩,sound.sized⟩,tdef,used,records,count,free,
    sized,normal⟩

-- A call that succeeds in a run is one that changes the table.
theorem performed_cons (codecs : Codecs) (tx : TransactionManager) (call : Call)
    (rest : List (TransactionManager × Call)) (done : original.performed codecs ((tx,call) :: rest) = some changes) :
    (∃ enabled maxRecords, call = .setLowPowerMode enabled maxRecords ∧
      (original.setLowPowerMode enabled maxRecords).performed codecs rest = some changes) ∨
    ∃ change more, original.changeOf tx call = some change ∧
      (original.call codecs tx call).1.performed codecs rest = some more ∧ changes = change :: more := by
  have ordinary (split : ((original.changeOf tx call).bind fun change =>
      ((original.call codecs tx call).1.performed codecs rest).map (change :: ·)) = some changes) :
      ∃ change more, original.changeOf tx call = some change ∧
        (original.call codecs tx call).1.performed codecs rest = some more ∧ changes = change :: more := by
    obtain ⟨change,changed,mapped⟩ := Option.bind_eq_some_iff.mp split
    obtain ⟨more,following,same⟩ := Option.map_eq_some_iff.mp mapped
    exact ⟨change,more,changed,following,same.symm⟩
  cases call with
  | setLowPowerMode enabled maxRecords => exact .inl ⟨enabled,maxRecords,rfl,done⟩
  | insert => exact .inr (ordinary done)
  | update => exact .inr (ordinary done)
  | delete => exact .inr (ordinary done)
  | batchInsert => exact .inr (ordinary done)
  | timeSeriesBatchInsert => exact .inr (ordinary done)

-- By induction over the calls. The slots never handed out run empty exactly
-- when the table is full at some moment.
theorem mirror_run (codecs : Codecs) (calls : List (TransactionManager × Call)) (changes : List Change)
    (items : List VariableSizeLogItem) (mirrors : Mirrors original copy untouched)
    (done : original.performed codecs calls = some changes) (carried : List.Forall₂ Carries changes items) :
    ∃ fresh, Mirrors (original.run codecs calls) (copy.replay items) fresh ∧
      (fresh = [] ↔ untouched = [] ∨ original.WasFull codecs calls) := by
  induction calls generalizing original copy untouched changes items with
  | nil =>
    obtain rfl : [] = changes := Option.some.inj done
    cases carried
    refine ⟨untouched,mirrors,.inl,?_⟩
    rintro (empty | full)
    · exact empty
    · exact mirrors.full full
  | cons entry rest ih =>
    obtain ⟨tx,call⟩ := entry
    obtain ⟨enabled,maxRecords,rfl,following⟩ | ⟨change,more,changed,following,rfl⟩ :=
      performed_cons codecs tx call rest done
    · obtain ⟨fresh,mirrored,exhausted⟩ := ih changes items (mirror_mode mirrors enabled maxRecords) following
        carried
      exact ⟨fresh,mirrored,exhausted.trans (mirrors.full_before _)⟩
    · cases carried with
      | cons carries others =>
        obtain ⟨middle,step,grows⟩ := mirror_call codecs mirrors tx call changed carries
        obtain ⟨fresh,mirrored,exhausted⟩ := ih more _ step following others
        refine ⟨fresh,mirrored,exhausted.trans ?_⟩
        rcases grows with rfl | ⟨left,stack⟩
        · exact mirrors.full_before _
        · constructor
          · rintro (empty | full)
            · refine .inr (.inr (wasFull_now codecs rest ((full_iff step.sound).mpr ?_)))
              rw [stack,empty]
            · exact .inr (.inr full)
          · rintro (empty | full | full)
            · exact absurd empty left
            · exact absurd (mirrors.full full) left
            · exact .inr full

end Redo

-- Inserts one after the other, each with a record that passes the constraints,
-- all find a slot.
def Takes (table : MemoryTable) : List (TransactionManager × UInt64 × Bytes) → Prop
  | [] => True
  | (tx,now,data) :: rest =>
    table.validate tx (recordImage table.tdef.record_size data) none = .ok () →
      ∃ slot, (table.insert tx now data).1 = .ok slot ∧ (table.insert tx now data).2.1.Takes rest

structure Restored (original copy : MemoryTable) : Prop where
  used : copy.used = original.used
  records : ∀ slot, original.used slot = true → copy.records slot = original.records slot
  count : copy.record_count = usedCount copy.tdef.max_records copy.used
  distinct : copy.free_slots.Nodup
  free : ∀ slot, slot ∈ copy.free_slots ↔ slot < copy.tdef.max_records ∧ copy.used slot = false
  room : ∀ inserts : List (TransactionManager × UInt64 × Bytes),
    inserts.length ≤ copy.tdef.max_records-copy.record_count → copy.Takes inserts

section Restored
variable {table original copy : MemoryTable} {untouched : List Nat}

theorem insert_room (accounted : Accounted table) (normal : table.low_power_mode = false)
    (tx : TransactionManager) (now : UInt64) (data : Bytes)
    (valid : table.validate tx (recordImage table.tdef.record_size data) none = .ok ())
    (room : table.record_count < table.tdef.max_records) :
    ∃ slot, (table.insert tx now data).1 = .ok slot ∧
      (table.insert tx now data).2.1.tdef = table.tdef ∧
      (table.insert tx now data).2.1.low_power_mode = false ∧
      (table.insert tx now data).2.1.record_count = table.record_count+1 := by
  have total := accounted.total
  have limit : table.maxRecords = table.tdef.max_records := by simp [maxRecords,normal]
  have found : table.free_slots ≠ [] := by
    intro empty
    rw [empty,List.length_nil] at total
    omega
  obtain ⟨failure,same⟩ | ⟨slot,image,logged,result,_,_,same,⟨low,_⟩ | ⟨_,rest,key,_,rfl⟩⟩ :=
    insert_cases table tx now data
  · have top := List.getLast?_eq_some_getLast found
    simp only [insert,valid,takeSlot,limit,top,Nat.not_le.mpr room,if_false] at same
    cases same
  · rw [normal] at low
    cases low
  · rw [same]
    exact ⟨slot,rfl,rfl,normal,rfl⟩

theorem takes_room (inserts : List (TransactionManager × UInt64 × Bytes)) (accounted : Accounted table)
    (normal : table.low_power_mode = false)
    (room : inserts.length ≤ table.tdef.max_records-table.record_count) : table.Takes inserts := by
  induction inserts generalizing table with
  | nil => trivial
  | cons entry rest ih =>
    obtain ⟨tx,now,data⟩ := entry
    intro valid
    rw [List.length_cons] at room
    obtain ⟨slot,placed,tdef,mode,count⟩ := insert_room accounted normal tx now data valid (by omega)
    exact ⟨slot,placed,ih (insert_accounted accounted tx now data) mode (by rw [tdef,count]; omega)⟩

theorem Mirrors.restored_iff (mirrors : Mirrors original copy untouched) :
    Restored original copy ↔ untouched = [] := by
  obtain ⟨sound,tdef,used,records,count,free,sized,normal⟩ := mirrors
  constructor
  · intro restored
    by_contra left
    obtain ⟨slot,member⟩ := List.exists_mem_of_ne_nil untouched left
    have distinct := sound.split.distinct
    rw [free] at distinct
    have idle := (sound.split.complete slot).mp (by rw [free]; exact List.mem_append_left _ member)
    have again := (restored.free slot).mpr (by rw [tdef,used]; exact idle)
    exact (List.nodup_append.mp distinct).2.2 slot member slot again rfl
  · rintro rfl
    rw [List.nil_append] at free
    have accounted : Accounted copy := by
      refine ⟨?_,?_,?_,?_⟩
      · rw [tdef]
        exact sound.positive
      · rw [tdef]
        exact sound.small
      · rw [tdef,used,← free]
        exact sound.split
      · rw [tdef,used,count]
        exact sound.count
    exact ⟨used,records,accounted.count,accounted.split.distinct,accounted.split.complete,
      fun inserts room => takes_room inserts accounted normal room⟩

end Restored

theorem mirrors_new (tdef : TableDef) (memory zeroed : Memory) (original copy : MemoryTable)
    (small : tdef.max_records < usizeLimit)
    (sized : ∀ slot, (memory slot).2.length = tdef.record_size ∧ (zeroed slot).2.length = tdef.record_size)
    (cleared : ∀ slot, (zeroed slot).1.status = .free) (made : new tdef (some memory) = .ok original)
    (recreated : newWithOptions tdef (some zeroed) true = .ok copy) :
    ∃ untouched, untouched ≠ [] ∧ Mirrors original copy untouched := by
  have accounted := new_accounted tdef (some memory) original small made
  unfold new newWithOptions at made
  unfold newWithOptions at recreated
  split at made
  · cases made
  · rename_i positive
    rw [if_neg positive] at recreated
    obtain rfl := Except.ok.inj made
    obtain rfl := Except.ok.inj recreated
    refine ⟨(List.range tdef.max_records).map fun slot => tdef.max_records-1-slot,?_,⟨⟨accounted,?_⟩,rfl,?_,?_,rfl,
      ?_,?_,rfl⟩⟩
    · simpa using positive
    · exact fun slot => (sized slot).1
    · funext slot
      simp [used,cleared slot]
    · intro slot taken
      simp [used] at taken
    · simp
    · exact fun slot => (sized slot).2

-- Recovery gives the table back with its free slots exactly when the table was
-- full at some moment; slots that were never handed out stay lost.
theorem replay_restores_iff (codecs : Codecs) (tdef : TableDef) (memory zeroed : Memory)
    (original copy : MemoryTable) (small : tdef.max_records < usizeLimit)
    (sized : ∀ slot, (memory slot).2.length = tdef.record_size ∧ (zeroed slot).2.length = tdef.record_size)
    (cleared : ∀ slot, (zeroed slot).1.status = .free) (made : new tdef (some memory) = .ok original)
    (recreated : newWithOptions tdef (some zeroed) true = .ok copy)
    (calls : List (TransactionManager × Call)) (changes : List Change) (items : List VariableSizeLogItem)
    (done : original.performed codecs calls = some changes) (carried : List.Forall₂ Carries changes items) :
    (copy.replay items).used = (original.run codecs calls).used ∧
    (∀ slot, (original.run codecs calls).used slot = true →
      (copy.replay items).records slot = (original.run codecs calls).records slot) ∧
    (copy.replay items).record_count =
      usedCount (copy.replay items).tdef.max_records (copy.replay items).used ∧
    (Restored (original.run codecs calls) (copy.replay items) ↔ original.WasFull codecs calls) := by
  obtain ⟨untouched,some_left,mirrors⟩ := mirrors_new tdef memory zeroed original copy small sized cleared made
    recreated
  obtain ⟨fresh,mirrored,exhausted⟩ := mirror_run codecs calls changes items mirrors done carried
  refine ⟨mirrored.used,mirrored.records,?_,?_⟩
  · rw [mirrored.tdef,mirrored.used,mirrored.count]
    exact mirrored.sound.count
  · rw [mirrored.restored_iff,exhausted]
    exact or_iff_right some_left

def pairItem (change : Change) : VariableSizeLogItem := change.item 1 0

def filledRun : List (TransactionManager × Call) :=
  [(noTx,.insert 0 [5]),(noTx,.insert 0 [6]),(noTx,.update 0 1 [7]),(noTx,.delete 0 0)]
def filledChanges : List Change :=
  [⟨.insert,1,0,[],[5]⟩,⟨.insert,1,1,[],[6]⟩,⟨.update,1,1,[6],[7]⟩,⟨.delete,1,0,[5],[]⟩]

theorem filled_table_restored :
    ∃ original copy, new pairDef (some blank) = .ok original ∧
      newWithOptions pairDef (some blank) true = .ok copy ∧
      Restored (original.run plainBuild filledRun) (copy.replay (filledChanges.map pairItem)) := by
  refine ⟨_,_,rfl,rfl,?_⟩
  refine (replay_restores_iff plainBuild pairDef blank blank _ _ (by decide) (fun _ => ⟨rfl,rfl⟩) (fun _ => rfl)
    rfl rfl filledRun filledChanges _ rfl ?_).2.2.2.mpr ?_
  · simp only [filledChanges,List.map_cons,List.map_nil,List.forall₂_cons,List.forall₂_nil_left_iff,pairItem,
      carries_item]
    exact ⟨⟨by decide,by decide,by decide⟩,⟨by decide,by decide,by decide⟩,⟨by decide,by decide,by decide⟩,
      ⟨by decide,by decide,by decide⟩,trivial⟩
  · exact .inr (.inr (.inl rfl))

-- One insert into a table of two slots: the log replays, and the next insert
-- finds no slot.
theorem second_slot_lost :
    ∃ original copy, new pairDef (some blank) = .ok original ∧
      newWithOptions pairDef (some blank) true = .ok copy ∧
      original.performed plainBuild [(noTx,.insert 0 [5])] = some [⟨.insert,1,0,[],[5]⟩] ∧
      Carries ⟨.insert,1,0,[],[5]⟩ (pairItem ⟨.insert,1,0,[],[5]⟩) ∧
      ((copy.replay [pairItem ⟨.insert,1,0,[],[5]⟩]).insert noTx 0 [6]).1 = .error .outOfMemory ∧
      ¬Restored (original.run plainBuild [(noTx,.insert 0 [5])])
        (copy.replay [pairItem ⟨.insert,1,0,[],[5]⟩]) := by
  refine ⟨_,_,rfl,rfl,rfl,?_,rfl,?_⟩
  · rw [pairItem,carries_item]
    exact ⟨by decide,by decide,by decide⟩
  · intro restored
    have listed := (restored.free 1).mpr ⟨by decide,rfl⟩
    cases listed
end MemoryTable
end RemDb
