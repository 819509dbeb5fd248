import RemDb.Table.Accounting

namespace RemDb
open RemDb.Lib RemDb.Wal

structure Database where
  tables : List (Option MemoryTable)

namespace Database

def table (db : Database) (index : Nat) : Option MemoryTable := (db.tables[index]?).join
def setTable (db : Database) (index : Nat) (table : MemoryTable) : Database :=
  {db with tables:=db.tables.set index (some table)}

theorem table_set_same {db : Database} (present : db.table index = some old) (new : MemoryTable) :
    (db.setTable index new).table index = some new := by
  have inside : index < db.tables.length := by
    by_contra outside
    simp [table,List.getElem?_eq_none (Nat.le_of_not_lt outside)] at present
  simp [table,setTable,inside]

theorem table_set_other (db : Database) (different : other ≠ index) (new : MemoryTable) :
    (db.setTable index new).table other = db.table other := by
  simp [table,setTable,List.getElem?_set_ne (Ne.symm different)]

end Database

namespace MemoryTable

def undoInsert (table : MemoryTable) (slot : Nat) : MemoryTable :=
  if table.used slot then table.release slot else table

def undoDelete (table : MemoryTable) (slot : Nat) (tx : UInt32) (old : Bytes) : MemoryTable :=
  if table.used slot then table
  else
    let bytes := memcpy (table.records slot) old (min old.length table.tdef.record_size)
    let header : RecordHeader := ⟨.used,(table.status slot).version+1,tx,0,0⟩
    let marked := (table.setRecord slot bytes).setStatus slot header
    {marked with record_count:=marked.record_count+1,free_slots:=swapRemove marked.free_slots slot}

def undoUpdate (table : MemoryTable) (slot : Nat) (tx : UInt32) (old : Bytes) : MemoryTable :=
  if table.used slot then
    let bytes := memcpy (table.records slot) old (min old.length table.tdef.record_size)
    let header := table.status slot
    (table.setRecord slot bytes).setStatus slot {header with version:=header.version+1,create_tx_id:=tx}
  else table

-- One round of the loop of `rollback` on the table the item names.
def undo (table : MemoryTable) (item : VariableSizeLogItem) : MemoryTable :=
  match item.header.op_type with
  | .insert => table.undoInsert item.header.record_id.toNat
  | .delete => table.undoDelete item.header.record_id.toNat item.header.tx_id item.old_data
  | .update => table.undoUpdate item.header.record_id.toNat item.header.tx_id item.old_data
  | _ => table

end MemoryTable

def Database.undo (db : Database) (item : VariableSizeLogItem) : Database :=
  match db.table item.header.table_id.toNat with
  | some table => db.setTable item.header.table_id.toNat (table.undo item)
  | none => db

-- `rollback`: the items of the transaction from the last to the first.
def TransactionManager.rollback (manager : TransactionManager) (db : Database) :
    Except RemDbError Unit × TransactionManager × Database :=
  match manager.current_tx with
  | none => (.error .transactionError,manager,db)
  | some tx => (.ok (),{manager with current_tx:=none},tx.log_items.foldr (fun item db => db.undo item) db)

namespace MemoryTable

-- What a rollback has to give back.
structure Same (left right : MemoryTable) : Prop where
  tdef : left.tdef = right.tdef
  used : left.used = right.used
  records : ∀ slot, left.used slot = true → left.records slot = right.records slot
  count : left.record_count = right.record_count
  free : ∀ slot, slot ∈ left.free_slots ↔ slot ∈ right.free_slots

theorem Same.refl (table : MemoryTable) : Same table table :=
  ⟨rfl,rfl,fun _ _ => rfl,rfl,fun _ => Iff.rfl⟩

theorem Same.trans (first : Same left middle) (second : Same middle right) : Same left right := by
  refine ⟨first.tdef.trans second.tdef,first.used.trans second.used,?_,first.count.trans second.count,
    fun slot => (first.free slot).trans (second.free slot)⟩
  intro slot taken
  exact (first.records slot taken).trans (second.records slot (by rw [← first.used]; exact taken))

-- Records lie in a flat array, so each has the record size.
structure Sound (table : MemoryTable) : Prop extends Accounted table where
  sized : ∀ slot, (table.records slot).length = table.tdef.record_size

section Sound
variable {table : MemoryTable}

theorem store_sized (sized : ∀ slot, (table.records slot).length = table.tdef.record_size) (slot : Nat)
    (counted : Bool) (fits : image.length = table.tdef.record_size) (each : Nat) :
    ((table.store slot image counted).records each).length = table.tdef.record_size :=
  assign_length sized fits slot each

theorem insert_sound (sound : table.Sound) (tx : TransactionManager) (now : UInt64) (data : Bytes) :
    (table.insert tx now data).2.1.Sound := by
  have accounted := insert_accounted sound.toAccounted tx now data
  obtain ⟨failure,same⟩ | ⟨slot,image,logged,result,imageEq,_,same,
    ⟨_,_,_,key,resultEq⟩ | ⟨_,rest,key,_,resultEq⟩⟩ := insert_cases table tx now data
  · rw [same]
    exact sound
  · rw [same] at accounted ⊢
    refine ⟨accounted,?_⟩
    rw [resultEq]
    exact store_sized sound.sized slot true (by rw [imageEq,recordImage_length])
  · rw [same] at accounted ⊢
    refine ⟨accounted,?_⟩
    rw [resultEq]
    exact store_sized sound.sized slot true (by rw [imageEq,recordImage_length])

theorem update_sound (sound : table.Sound) (tx : TransactionManager) (now : UInt64) (slot : Nat) (data : Bytes) :
    (table.update tx now slot data).2.1.Sound := by
  have accounted := update_accounted sound.toAccounted tx now slot data
  obtain ⟨failure,same⟩ | ⟨_,_,same⟩ := update_cases table tx now slot data
  · rw [same]
    exact sound
  · rw [same] at accounted ⊢
    exact ⟨accounted,store_sized sound.sized slot true (recordImage_length _ _)⟩

end Sound

section Undo
variable {before after other : MemoryTable} {slot : Nat}

theorem release_sound (sound : Sound other) (inside : slot < other.tdef.max_records)
    (taken : other.used slot = true) : Sound (other.release slot) := by
  obtain ⟨accounted,_⟩ := release_accounted sound.toAccounted inside taken
  have total := sound.toAccounted.total
  have some_used := usedCount_release inside taken
  have counted := sound.count
  refine ⟨accounted,?_⟩
  rw [release_eq (by omega) slot]
  exact fun each => assign_length sound.sized List.length_replicate slot each

-- The undo of an insert works on every table that agrees with the one the
-- insert left; later changes have been undone before it.
theorem undo_insert (tdef : after.tdef = before.tdef) (used : after.used = assign before.used slot true)
    (records : ∀ each, each ≠ slot → after.records each = before.records each)
    (count : after.record_count = before.record_count+1)
    (free : ∀ each, each ∈ before.free_slots ↔ each ∈ after.free_slots ∨ each = slot)
    (inside : slot < before.tdef.max_records) (idle : before.used slot = false)
    (same : Same after other) (sound : Sound other) :
    Same before (other.undoInsert slot) ∧ Sound (other.undoInsert slot) := by
  have taken : other.used slot = true := by rw [← same.used,used,assign_same]
  have otherInside : slot < other.tdef.max_records := by rw [← same.tdef,tdef]; exact inside
  have total := sound.toAccounted.total
  have some_used := usedCount_release otherInside taken
  have counted := sound.count
  have small := sound.small
  have shape := @release_eq other (by omega) slot
  have undone : other.undoInsert slot = other.release slot := if_pos taken
  rw [undone]
  refine ⟨⟨?_,?_,?_,?_,?_⟩,release_sound sound otherInside taken⟩
  · rw [shape]
    exact tdef.symm.trans same.tdef
  · rw [release_used,← same.used,used,assign_back idle]
  · intro each keeps
    have different : each ≠ slot := by
      intro equal
      rw [equal,idle] at keeps
      cases keeps
    rw [shape]
    simp only [assign_other _ different]
    rw [← records each different]
    exact same.records each (by rw [used,assign_other _ different]; exact keeps)
  · rw [shape]
    change before.record_count = usizeSub other.record_count 1
    rw [usizeSub_of_le (by omega) (by omega),← same.count,count,Nat.add_sub_cancel]
  · intro each
    rw [shape,free,same.free]
    simp

theorem memcpy_old (old target : Bytes) (size : Nat) (oldSized : old.length = size)
    (targetSized : target.length = size) : memcpy target old (min old.length size) = old := by
  have count : min old.length size = old.length := by omega
  rw [count]
  exact memcpy_whole old target (by omega)

theorem old_image_back (records : ∀ each, each ≠ slot → after.records each = before.records each)
    (used : ∀ each, each ≠ slot → after.used each = before.used each) (same : Same after other)
    (keeps : before.used each = true) :
    before.records each = assign other.records slot (before.records slot) each := by
  by_cases equal : each = slot
  · subst each
    rw [assign_same]
  · rw [assign_other _ equal,← records each equal]
    exact same.records each (by rw [used each equal]; exact keeps)

theorem undo_update (tdef : after.tdef = before.tdef) (used : after.used = before.used)
    (records : ∀ each, each ≠ slot → after.records each = before.records each)
    (count : after.record_count = before.record_count) (free : after.free_slots = before.free_slots)
    (taken : before.used slot = true) (sized : (before.records slot).length = before.tdef.record_size)
    (tx : UInt32) (same : Same after other) (sound : Sound other) :
    Same before (other.undoUpdate slot tx (before.records slot)) ∧
      Sound (other.undoUpdate slot tx (before.records slot)) := by
  have otherTaken : other.used slot = true := by rw [← same.used,used]; exact taken
  have size : other.tdef.record_size = before.tdef.record_size := by rw [← same.tdef,tdef]
  have copied := memcpy_old (before.records slot) (other.records slot) other.tdef.record_size
    (by rw [size]; exact sized) (sound.sized slot)
  generalize made : other.undoUpdate slot tx (before.records slot) = result
  have shape : result = (other.setRecord slot (before.records slot)).setStatus slot
      {other.status slot with version:=(other.status slot).version+1,create_tx_id:=tx} := by
    rw [← made]
    unfold undoUpdate
    rw [if_pos otherTaken,copied]
  have busy : (other.status slot).status = .used := of_decide_eq_true otherTaken
  have marks : result.used = other.used := by
    rw [shape]
    refine (mark_used _ ?_).trans (assign_held otherTaken)
    exact busy
  have resultTdef : result.tdef = other.tdef := by rw [shape]; rfl
  have resultFree : result.free_slots = other.free_slots := by rw [shape]; rfl
  have resultCount : result.record_count = other.record_count := by rw [shape]; rfl
  have resultRecords : result.records = assign other.records slot (before.records slot) := by rw [shape]; rfl
  refine ⟨⟨?_,?_,?_,?_,?_⟩,⟨⟨?_,?_,?_,?_⟩,?_⟩⟩
  · rw [resultTdef,← same.tdef,tdef]
  · rw [marks,← same.used,used]
  · intro each keeps
    rw [resultRecords]
    exact old_image_back records (fun each _ => by rw [used]) same keeps
  · rw [resultCount,← same.count,count]
  · intro each
    rw [resultFree,← same.free,free]
  · rw [resultTdef]
    exact sound.positive
  · rw [resultTdef]
    exact sound.small
  · rw [resultTdef,marks,resultFree]
    exact sound.split
  · rw [resultTdef,marks,resultCount]
    exact sound.count
  · intro each
    rw [resultRecords,resultTdef]
    exact assign_length sound.sized (sized.trans size.symm) slot each

theorem undo_delete (tdef : after.tdef = before.tdef) (used : after.used = assign before.used slot false)
    (records : ∀ each, each ≠ slot → after.records each = before.records each)
    (count : after.record_count+1 = before.record_count)
    (free : ∀ each, each ∈ after.free_slots ↔ each ∈ before.free_slots ∨ each = slot)
    (taken : before.used slot = true) (absent : slot ∉ before.free_slots)
    (sized : (before.records slot).length = before.tdef.record_size)
    (tx : UInt32) (same : Same after other) (sound : Sound other) :
    Same before (other.undoDelete slot tx (before.records slot)) ∧
      Sound (other.undoDelete slot tx (before.records slot)) := by
  have idle : other.used slot = false := by rw [← same.used,used,assign_same]
  have size : other.tdef.record_size = before.tdef.record_size := by rw [← same.tdef,tdef]
  have copied := memcpy_old (before.records slot) (other.records slot) other.tdef.record_size
    (by rw [size]; exact sized) (sound.sized slot)
  have present : slot ∈ other.free_slots := (same.free slot).mp ((free slot).mpr (.inr rfl))
  have inside : slot < other.tdef.max_records := ((sound.split.complete slot).mp present).1
  have removed := swapRemove_perm present
  generalize made : other.undoDelete slot tx (before.records slot) = result
  have shape : result = {(other.setRecord slot (before.records slot)).setStatus slot
      ⟨.used,(other.status slot).version+1,tx,0,0⟩ with
        record_count:=other.record_count+1,free_slots:=swapRemove other.free_slots slot} := by
    rw [← made]
    unfold undoDelete
    rw [if_neg (by simp [idle]),copied]
    rfl
  have marks : result.used = assign other.used slot true := by
    rw [shape]
    exact mark_used (before.records slot) rfl
  have resultTdef : result.tdef = other.tdef := by rw [shape]; rfl
  have resultFree : result.free_slots = swapRemove other.free_slots slot := by rw [shape]
  have resultCount : result.record_count = other.record_count+1 := by rw [shape]
  have resultRecords : result.records = assign other.records slot (before.records slot) := by rw [shape]; rfl
  refine ⟨⟨?_,?_,?_,?_,?_⟩,⟨⟨?_,?_,?_,?_⟩,?_⟩⟩
  · rw [resultTdef,← same.tdef,tdef]
  · rw [marks,← same.used,used,assign_back taken]
  · intro each keeps
    rw [resultRecords]
    exact old_image_back records (fun each equal => by rw [used,assign_other _ equal]) same keeps
  · rw [resultCount,← same.count,count]
  · intro each
    rw [resultFree,removed.mem_iff,sound.split.distinct.mem_erase_iff,← same.free,free]
    by_cases equal : each = slot
    · subst each
      simp [absent]
    · simp [equal]
  · rw [resultTdef]
    exact sound.positive
  · rw [resultTdef]
    exact sound.small
  · rw [resultTdef,marks,resultFree]
    exact (sound.split.take slot).perm removed.symm
  · rw [resultTdef,marks,resultCount,usedCount_take inside idle,sound.count]
  · intro each
    rw [resultRecords,resultTdef]
    exact assign_length sound.sized (sized.trans size.symm) slot each

end Undo
end MemoryTable

namespace Database

def Sound (db : Database) : Prop := ∀ index table, db.table index = some table → table.Sound
def Same (left right : Database) : Prop :=
  ∀ index held, left.table index = some held → ∃ other, right.table index = some other ∧ held.Same other

def undoAll (db : Database) (items : List VariableSizeLogItem) : Database :=
  items.foldr (fun item db => db.undo item) db

theorem Same.refl (db : Database) : Same db db := fun _ held here => ⟨held,here,.refl held⟩

theorem sound_set {db : Database} (sound : db.Sound) (here : db.table index = some old)
    (good : new.Sound) : (db.setTable index new).Sound := by
  intro other held found
  by_cases equal : other = index
  · subst other
    rw [table_set_same here] at found
    rw [← Option.some.inj found]
    exact good
  · rw [table_set_other db equal] at found
    exact sound other held found

end Database

-- The calls of a transaction, each on one of the tables.
def step (codecs : Codecs) (state : Database × TransactionManager) (entry : Nat × MemoryTable.Call) :
    Database × TransactionManager :=
  match state.1.table entry.1 with
  | none => state
  | some table =>
    let after := table.call codecs state.2 entry.2
    (state.1.setTable entry.1 after.1,after.2)

def runCalls (codecs : Codecs) (state : Database × TransactionManager)
    (calls : List (Nat × MemoryTable.Call)) : Database × TransactionManager :=
  calls.foldl (step codecs) state

-- A call leaves a log item that names the table and the slot it changed.
def Recorded (table : MemoryTable) (tx : TransactionManager) (index slot : Nat) : Prop :=
  table.tdef.id.toNat = index ∧ slot < 2^16 ∧
    ∀ current ∈ tx.current_tx, current.log_items.length < current.max_log_items

-- When the log of the transaction says how to undo the call: a successful
-- insert, update or delete is recorded, an insert does not overwrite, and no
-- batch goes through.
def Undoable (codecs : Codecs) (table : MemoryTable) (tx : TransactionManager) (index : Nat) :
    MemoryTable.Call → Prop
  | .insert now data => ∀ slot, (table.insert tx now data).1 = .ok slot →
      Recorded table tx index slot ∧ ¬(table.low_power_mode = true ∧ table.record_count ≥ table.maxRecords)
  | .update now slot data => (table.update tx now slot data).1 = .ok () → Recorded table tx index slot
  | .delete now slot => (table.delete tx now slot).1 = .ok () → Recorded table tx index slot
  | .batchInsert clock records count =>
      ∀ placed, (table.batchInsert codecs tx clock records count).1 ≠ some (.ok placed)
  | .timeSeriesBatchInsert clock records count =>
      ∀ placed, (table.timeSeriesBatchInsert codecs tx clock records count).1 ≠ .ok placed
  | .setLowPowerMode _ _ => True

def UndoableRun (codecs : Codecs) (state : Database × TransactionManager) :
    List (Nat × MemoryTable.Call) → Prop
  | [] => True
  | entry :: rest =>
    (∀ table, state.1.table entry.1 = some table → Undoable codecs table state.2 entry.1 entry.2) ∧
      UndoableRun codecs (step codecs state entry) rest

theorem log_room {tx : TransactionManager} (active : tx.current_tx = some current)
    (room : current.log_items.length < current.max_log_items) (operation : LogOperation) (table : UInt8)
    (record : UInt16) (now : UInt64) (old new : Bytes) :
    (tx.log operation table record now old new).current_tx = some {current with
      log_items:=current.log_items ++ [logItem current.id operation table record now old new]} := by
  simp only [TransactionManager.log,active,Option.map_some,Transaction.beginLogItem]
  rw [if_neg (by omega)]

theorem slot_back (small : slot < 2^16) : (UInt16.ofNat slot).toNat = slot := by
  rw [UInt16.toNat_ofNat',Nat.mod_eq_of_lt small]

theorem image_back {table : MemoryTable} (sized : ∀ slot, (table.records slot).length = table.tdef.record_size)
    (slot : Nat) : recordImage table.tdef.record_size (table.records slot) = table.records slot := by
  rw [← sized slot]
  exact recordImage_exact _

-- What one call adds to the log of the transaction, and that undoing this on
-- any table that agrees with the result gives the table back.
structure Undone (table after : MemoryTable) (index : Nat) (items : List VariableSizeLogItem) : Prop where
  sound : after.Sound
  back : (items = [] ∧ table.Same after) ∨
    ∃ item, items = [item] ∧ item.header.table_id.toNat = index ∧
      ∀ other : MemoryTable, after.Same other → other.Sound →
        table.Same (other.undo item) ∧ (other.undo item).Sound

section Calls
variable {table : MemoryTable} {tx : TransactionManager} {current : Transaction} {index : Nat}

theorem kept_undone (sound : table.Sound) : Undone table table index [] :=
  ⟨sound,.inl ⟨rfl,.refl table⟩⟩

theorem insert_undone (now : UInt64) (data : Bytes) (sound : table.Sound)
    (active : tx.current_tx = some current)
    (undoable : ∀ slot, (table.insert tx now data).1 = .ok slot → Recorded table tx index slot ∧
      ¬(table.low_power_mode = true ∧ table.record_count ≥ table.maxRecords)) :
    ∃ items, (table.insert tx now data).2.2.current_tx =
        some {current with log_items:=current.log_items ++ items} ∧
      Undone table (table.insert tx now data).2.1 index items := by
  have good := table.insert_sound sound tx now data
  obtain ⟨failure,same⟩ | ⟨slot,image,logged,result,_,loggedEq,same,
    ⟨low,full,_⟩ | ⟨_,rest,key,shape,resultEq⟩⟩ := table.insert_cases tx now data
  · refine ⟨[],?_,?_⟩
    · rw [same,List.append_nil]
      exact active
    · rw [same]
      exact kept_undone sound
  · exact absurd ⟨low,full⟩ (undoable slot (by rw [same])).2
  · obtain ⟨⟨named,small,room⟩,_⟩ := undoable slot (by rw [same])
    have recorded := log_room active (room current active) .insert table.tdef.id (UInt16.ofNat slot) now [] image
    rw [← loggedEq] at recorded
    rw [same] at good ⊢
    refine ⟨_,recorded,⟨good,.inr ⟨_,rfl,named,?_⟩⟩⟩
    intro other agrees otherGood
    have split := sound.split
    rw [shape] at split
    have free : slot < table.tdef.max_records ∧ table.used slot = false :=
      (split.complete slot).mp (by simp)
    have undone := @MemoryTable.undo_insert table result other slot (by rw [resultEq]; rfl)
      (by rw [resultEq]; exact MemoryTable.store_used image true)
      (by
        intro each different
        rw [resultEq]
        simp [MemoryTable.store,MemoryTable.setStatus,MemoryTable.setRecord,different])
      (by rw [resultEq]) (by intro each; rw [resultEq,shape]; simp) free.1 free.2 agrees otherGood
    simpa [MemoryTable.undo,logItem,slot_back small] using undone

theorem update_undone (now : UInt64) (slot : Nat) (data : Bytes) (sound : table.Sound)
    (active : tx.current_tx = some current)
    (undoable : (table.update tx now slot data).1 = .ok () → Recorded table tx index slot) :
    ∃ items, (table.update tx now slot data).2.2.current_tx =
        some {current with log_items:=current.log_items ++ items} ∧
      Undone table (table.update tx now slot data).2.1 index items := by
  have good := table.update_sound sound tx now slot data
  obtain ⟨failure,same⟩ | ⟨inside,taken,same⟩ := table.update_cases tx now slot data
  · refine ⟨[],?_,?_⟩
    · rw [same,List.append_nil]
      exact active
    · rw [same]
      exact kept_undone sound
  · obtain ⟨named,small,room⟩ := undoable (by rw [same])
    rw [same] at good ⊢
    rw [image_back sound.sized slot]
    refine ⟨_,log_room active (room current active) _ _ _ _ _ _,⟨good,.inr ⟨_,rfl,named,?_⟩⟩⟩
    intro other agrees otherGood
    have undone := @MemoryTable.undo_update table
      (table.store slot (recordImage table.tdef.record_size data) true) other slot rfl
      (by rw [MemoryTable.store_used,assign_held taken])
      (by
        intro each different
        simp [MemoryTable.store,MemoryTable.setStatus,MemoryTable.setRecord,different])
      rfl rfl taken (sound.sized slot) current.id agrees otherGood
    simpa [MemoryTable.undo,logItem,slot_back small] using undone

theorem delete_undone (now : UInt64) (slot : Nat) (sound : table.Sound)
    (active : tx.current_tx = some current)
    (undoable : (table.delete tx now slot).1 = .ok () → Recorded table tx index slot) :
    ∃ items, (table.delete tx now slot).2.2.current_tx =
        some {current with log_items:=current.log_items ++ items} ∧
      Undone table (table.delete tx now slot).2.1 index items := by
  obtain same | ⟨inside,taken,same⟩ := table.delete_cases tx now slot
  · refine ⟨[],?_,?_⟩
    · rw [same,List.append_nil]
      exact active
    · rw [same]
      exact kept_undone sound
  · obtain ⟨named,small,room⟩ := undoable (by rw [same])
    rw [same,image_back sound.sized slot]
    refine ⟨_,log_room active (room current active) _ _ _ _ _ _,
      ⟨MemoryTable.release_sound sound inside taken,.inr ⟨_,rfl,named,?_⟩⟩⟩
    intro other agrees good
    have total := sound.toAccounted.total
    have some_used := usedCount_release inside taken
    have counted := sound.count
    have limit := sound.small
    have shape := @MemoryTable.release_eq table (by omega) slot
    have undone := @MemoryTable.undo_delete table (table.release slot) other slot (by rw [shape])
      (MemoryTable.release_used slot)
      (by
        intro each different
        rw [shape]
        simp [different])
      (by
        rw [shape]
        change usizeSub table.record_count 1+1 = table.record_count
        rw [usizeSub_of_le (by omega) (by omega)]
        omega)
      (by intro each; rw [shape]; simp) taken
      (by rw [sound.split.complete,taken]; simp) (sound.sized slot) current.id agrees good
    simpa [MemoryTable.undo,logItem,slot_back small] using undone

-- A refused batch changes neither the table nor the transaction.
theorem batch_refused (codecs : Codecs) (clock : Nat → UInt64 × Env) (records : Option (Nat → Bytes)) (count : Nat)
    (refused : ∀ placed, (table.batchInsert codecs tx clock records count).1 ≠ some (.ok placed)) :
    (table.batchInsert codecs tx clock records count).2 = (table,tx) := by
  unfold MemoryTable.batchInsert at refused ⊢
  cases records with
  | none => rfl
  | some data =>
    dsimp only at refused ⊢
    split
    · rfl
    · split
      · rfl
      · rename_i some_wanted few
        rw [if_neg some_wanted,if_neg few] at refused
        exact absurd rfl (refused _)

theorem timeSeries_refused (codecs : Codecs) (clock : Nat → UInt64 × Env) (records : Option (Nat → Bytes))
    (count : Nat)
    (refused : ∀ placed, (table.timeSeriesBatchInsert codecs tx clock records count).1 ≠ .ok placed) :
    (table.timeSeriesBatchInsert codecs tx clock records count).2 = (table,tx) := by
  unfold MemoryTable.timeSeriesBatchInsert at refused ⊢
  cases records with
  | none => rfl
  | some data =>
    dsimp only at refused ⊢
    split
    · rfl
    · rename_i some_wanted
      rw [if_neg some_wanted] at refused
      exact absurd rfl (refused _)

theorem call_undone (codecs : Codecs) (call : MemoryTable.Call) (sound : table.Sound)
    (active : tx.current_tx = some current) (undoable : Undoable codecs table tx index call) :
    ∃ items, (table.call codecs tx call).2.current_tx =
        some {current with log_items:=current.log_items ++ items} ∧
      Undone table (table.call codecs tx call).1 index items := by
  have unchanged (same : table.call codecs tx call = (table,tx)) :
      ∃ items, (table.call codecs tx call).2.current_tx =
          some {current with log_items:=current.log_items ++ items} ∧
        Undone table (table.call codecs tx call).1 index items := by
    rw [same]
    exact ⟨[],by rw [List.append_nil]; exact active,kept_undone sound⟩
  cases call with
  | insert now data => exact insert_undone now data sound active undoable
  | update now slot data => exact update_undone now slot data sound active undoable
  | delete now slot => exact delete_undone now slot sound active undoable
  | batchInsert clock records count => exact unchanged (batch_refused codecs clock records count undoable)
  | timeSeriesBatchInsert clock records count =>
    exact unchanged (timeSeries_refused codecs clock records count undoable)
  | setLowPowerMode enabled maxRecords =>
    refine ⟨[],by rw [List.append_nil]; exact active,⟨?_,.inl ⟨rfl,?_⟩⟩⟩
    · exact ⟨⟨sound.positive,sound.small,sound.split,sound.count⟩,sound.sized⟩
    · exact ⟨rfl,rfl,fun _ _ => rfl,rfl,fun _ => Iff.rfl⟩

end Calls

theorem undo_at {db after : Database} {table changed : MemoryTable} {item : VariableSizeLogItem}
    (here : db.table index = some table) (same : Database.Same (db.setTable index changed) after)
    (sound : after.Sound) (named : item.header.table_id.toNat = index)
    (back : ∀ other : MemoryTable, changed.Same other → other.Sound →
      table.Same (other.undo item) ∧ (other.undo item).Sound) :
    Database.Same db (after.undo item) ∧ (after.undo item).Sound := by
  obtain ⟨other,there,agrees⟩ := same index changed (Database.table_set_same here changed)
  obtain ⟨restored,good⟩ := back other agrees (sound index other there)
  have shape : after.undo item = after.setTable index (other.undo item) := by
    unfold Database.undo
    rw [named,there]
  rw [shape]
  refine ⟨?_,Database.sound_set sound there good⟩
  intro place held found
  by_cases equal : place = index
  · subst place
    rw [here] at found
    rw [← Option.some.inj found]
    exact ⟨_,Database.table_set_same there _,restored⟩
  · rw [Database.table_set_other after equal]
    exact same place held (by rw [Database.table_set_other db equal]; exact found)

theorem run_undone (codecs : Codecs) (calls : List (Nat × MemoryTable.Call)) {db : Database}
    {tx : TransactionManager} {current : Transaction} (sound : db.Sound)
    (active : tx.current_tx = some current) (undoable : UndoableRun codecs (db,tx) calls) :
    ∃ items, (runCalls codecs (db,tx) calls).2.current_tx =
        some {current with log_items:=current.log_items ++ items} ∧
      (runCalls codecs (db,tx) calls).1.Sound ∧
      ∀ after, Database.Same (runCalls codecs (db,tx) calls).1 after → after.Sound →
        Database.Same db (after.undoAll items) ∧ (after.undoAll items).Sound := by
  induction calls generalizing db tx current with
  | nil =>
    exact ⟨[],by rw [List.append_nil]; exact active,sound,fun after same good => ⟨same,good⟩⟩
  | cons entry rest ih =>
    obtain ⟨index,call⟩ := entry
    obtain ⟨first,remaining⟩ := undoable
    cases here : db.table index with
    | none =>
      have same : step codecs (db,tx) (index,call) = (db,tx) := by simp only [step,here]
      rw [same] at remaining
      have tail := ih sound active remaining
      simpa only [runCalls,List.foldl_cons,same] using tail
    | some table =>
      have moved : step codecs (db,tx) (index,call) =
          (db.setTable index (table.call codecs tx call).1,(table.call codecs tx call).2) := by
        simp only [step,here]
      rw [moved] at remaining
      obtain ⟨items,logged,undone⟩ := call_undone codecs call (sound index table here) active
        (first table here)
      obtain ⟨more,final,finalSound,back⟩ := ih (Database.sound_set sound here undone.sound) logged remaining
      have folded : runCalls codecs (db,tx) ((index,call) :: rest) =
          runCalls codecs (db.setTable index (table.call codecs tx call).1,
            (table.call codecs tx call).2) rest := by
        simp only [runCalls,List.foldl_cons,moved]
      rw [folded]
      refine ⟨items ++ more,by rw [final]; simp,finalSound,?_⟩
      intro after same good
      obtain ⟨middle,middleGood⟩ := back after same good
      have joined : after.undoAll (items ++ more) = (after.undoAll more).undoAll items := by
        simp [Database.undoAll]
      rw [joined]
      obtain ⟨rfl,kept⟩ | ⟨item,rfl,named,restore⟩ := undone.back
      · refine ⟨?_,middleGood⟩
        intro place held found
        by_cases equal : place = index
        · subst place
          rw [here] at found
          obtain ⟨other,there,agrees⟩ := middle index _ (Database.table_set_same here _)
          rw [← Option.some.inj found]
          exact ⟨other,there,kept.trans agrees⟩
        · exact middle place held (by rw [Database.table_set_other db equal]; exact found)
      · exact undo_at here middle middleGood named restore

-- Rollback gives every table back as it was at `begin`: the used slots, their
-- bytes, the counter and the set of free slots.
theorem rollback_restores (codecs : Codecs) (db : Database) (idle started : TransactionManager)
    (type : TransactionType) (buffer : Option Nat) (hasLog : Bool) (maxLogItems : Nat)
    (calls : List (Nat × MemoryTable.Call)) (sound : db.Sound)
    (begun : idle.start type buffer hasLog maxLogItems = (.ok (),started))
    (undoable : UndoableRun codecs (db,started) calls) :
    ∃ finished restored, (runCalls codecs (db,started) calls).2.rollback
        (runCalls codecs (db,started) calls).1 = (.ok (),finished,restored) ∧
      ∀ index table, db.table index = some table → ∃ back, restored.table index = some back ∧
        back.used = table.used ∧
        (∀ slot, table.used slot = true → back.records slot = table.records slot) ∧
        back.record_count = table.record_count ∧
        ∀ slot, slot ∈ back.free_slots ↔ slot ∈ table.free_slots := by
  have opened : ∃ current, started.current_tx = some current ∧ current.log_items = [] := by
    unfold TransactionManager.start at begun
    split at begun
    · cases begun
    · split at begun
      · cases begun
      · obtain rfl : _ = started := congrArg Prod.snd begun
        exact ⟨_,rfl,rfl⟩
  obtain ⟨current,active,empty⟩ := opened
  obtain ⟨items,logged,_,back⟩ := run_undone codecs calls sound active undoable
  obtain ⟨restored,_⟩ := back _ (.refl _) ‹_›
  refine ⟨{(runCalls codecs (db,started) calls).2 with current_tx:=none},
    (runCalls codecs (db,started) calls).1.undoAll items,?_,?_⟩
  · unfold TransactionManager.rollback
    rw [logged,empty]
    rfl
  · intro index table here
    obtain ⟨other,there,same⟩ := restored index table here
    exact ⟨other,there,same.used.symm,fun slot taken => (same.records slot taken).symm,
      same.count.symm,fun slot => (same.free slot).symm⟩

def pairTable : MemoryTable :=
  ⟨MemoryTable.pairDef,fun _ => [0],fun _ => ⟨.free,0,0,0,0⟩,0,[1,0],false,none,0⟩
def pairDb : Database := ⟨[none,some pairTable]⟩

theorem pairTable_sound : pairTable.Sound :=
  ⟨MemoryTable.new_accounted MemoryTable.pairDef (some MemoryTable.blank) pairTable (by decide) rfl,fun _ => rfl⟩

theorem pairDb_sound : pairDb.Sound := by
  intro index table found
  match index with
  | 0 => cases found
  | 1 =>
    rw [← Option.some.inj found]
    exact pairTable_sound
  | index+2 => simp [Database.table,pairDb] at found

def openTx (maxLogItems : Nat) : TransactionManager :=
  (MemoryTable.noTx.start .readWrite (some 1) true maxLogItems).2

theorem one_insert_rolled_back :
    ∃ finished restored, (runCalls plainBuild (pairDb,openTx 1) [(1,.insert 0 [5])]).2.rollback
        (runCalls plainBuild (pairDb,openTx 1) [(1,.insert 0 [5])]).1 = (.ok (),finished,restored) ∧
      ∀ index table, pairDb.table index = some table → ∃ back, restored.table index = some back ∧
        back.used = table.used ∧
        (∀ slot, table.used slot = true → back.records slot = table.records slot) ∧
        back.record_count = table.record_count ∧
        ∀ slot, slot ∈ back.free_slots ↔ slot ∈ table.free_slots := by
  refine rollback_restores plainBuild pairDb MemoryTable.noTx (openTx 1) .readWrite (some 1) true 1
    [(1,.insert 0 [5])] pairDb_sound rfl ⟨?_,trivial⟩
  intro table found
  obtain rfl : pairTable = table := Option.some.inj found
  intro slot placed
  obtain rfl : 0 = slot := Except.ok.inj placed
  refine ⟨⟨by decide,by decide,?_⟩,by decide⟩
  intro current active
  obtain rfl : _ = current := Option.some.inj active
  decide

-- Two inserts into a log buffer for one item: the second is not undone.
theorem full_buffer_not_rolled_back :
    pairDb.Sound ∧ pairTable.used 1 = false ∧
      ∃ finished restored back, (runCalls plainBuild (pairDb,openTx 1)
          [(1,.insert 0 [5]),(1,.insert 0 [6])]).2.rollback
          (runCalls plainBuild (pairDb,openTx 1) [(1,.insert 0 [5]),(1,.insert 0 [6])]).1 =
            (.ok (),finished,restored) ∧
        restored.table 1 = some back ∧ back.used 1 = true ∧ back.record_count = 1 := by
  refine ⟨pairDb_sound,by decide,_,_,_,rfl,rfl,?_,?_⟩
  · decide +kernel
  · decide +kernel

end RemDb
