import Mathlib.Data.List.Forall2
import RemDb.Sql.Statements

namespace RemDb
open RemDb.Lib RemDb.Wal

def MemoryTable.undoAll (table : MemoryTable) (items : List VariableSizeLogItem) : MemoryTable :=
  items.foldr (fun item table => table.undo item) table

namespace Database

theorem undo_table (db : Database) (item : VariableSizeLogItem) (index : Nat) :
    (db.undo item).table index =
      if item.header.table_id.toNat = index then (db.table index).map (·.undo item) else db.table index := by
  unfold Database.undo
  by_cases same : item.header.table_id.toNat = index
  · rw [if_pos same,same]
    cases here : db.table index with
    | none => exact here
    | some held => exact table_set_same here _
  · rw [if_neg same]
    cases db.table item.header.table_id.toNat with
    | none => rfl
    | some held => exact table_set_other db (Ne.symm same) _

-- A rollback reaches a table through the items that name its index.
theorem undoAll_table (db : Database) (items : List VariableSizeLogItem) (index : Nat) :
    (db.undoAll items).table index = (db.table index).map fun held =>
      held.undoAll (items.filter fun item => item.header.table_id.toNat = index) := by
  induction items with
  | nil => simp [undoAll,MemoryTable.undoAll]
  | cons item rest ih =>
    change ((db.undoAll rest).undo item).table index = _
    rw [undo_table,ih]
    by_cases same : item.header.table_id.toNat = index
    · simp [same,MemoryTable.undoAll,Function.comp_def]
    · simp [same]

end Database

namespace MemoryTable

-- The undo of one item on one slot, as its use flag and its image: an item
-- reads and writes no other slot.
def undoRow (width slot : Nat) (item : VariableSizeLogItem) (row : Bool × Bytes) : Bool × Bytes :=
  if item.header.record_id.toNat = slot then
    match item.header.op_type with
    | .insert => if row.1 then (false,List.replicate width 0) else row
    | .delete =>
      if row.1 then row else (true,memcpy row.2 item.old_data (min item.old_data.length width))
    | .update =>
      if row.1 then (true,memcpy row.2 item.old_data (min item.old_data.length width)) else row
    | _ => row
  else row

def undoRows (width slot : Nat) (items : List VariableSizeLogItem) (row : Bool × Bytes) : Bool × Bytes :=
  items.foldr (undoRow width slot) row

def row (table : MemoryTable) (slot : Nat) : Bool × Bytes := (table.used slot,table.records slot)

theorem release_row (table : MemoryTable) (slot other : Nat) :
    (table.release slot).row other =
      if slot = other then (false,List.replicate table.tdef.record_size 0) else table.row other := by
  have flag : (table.release slot).used other = assign table.used slot false other := by rw [release_used]
  have image : (table.release slot).records other =
      assign table.records slot (List.replicate table.tdef.record_size 0) other := by
    unfold release pushFree
    dsimp only
    split <;> rfl
  rw [row,row,flag,image]
  by_cases same : slot = other
  · subst other
    simp
  · simp [same,assign_other _ (Ne.symm same)]

theorem marked_row (table : MemoryTable) (slot other : Nat) (image : Bytes) (header : RecordHeader)
    (busy : header.status = .used) :
    ((table.setRecord slot image).setStatus slot header).row other =
      if slot = other then (true,image) else table.row other := by
  have flag := congrFun (@mark_used table slot header image busy) other
  rw [row,row,flag]
  by_cases same : slot = other
  · subst other
    simp [setRecord,setStatus]
  · simp [setRecord,setStatus,same,Ne.symm same]

theorem undo_row (table : MemoryTable) (item : VariableSizeLogItem) (slot : Nat) :
    (table.undo item).row slot = undoRow table.tdef.record_size slot item (table.row slot) := by
  unfold undo undoRow
  generalize item.header.record_id.toNat = place
  by_cases same : place = slot
  · subst place
    rw [if_pos rfl]
    cases item.header.op_type with
    | insert =>
      dsimp only [undoInsert]
      cases flag : table.used slot with
      | true =>
        rw [if_pos rfl,release_row]
        simp [row,flag]
      | false => simp [row,flag]
    | delete =>
      dsimp only [undoDelete]
      cases flag : table.used slot with
      | true => simp [row,flag]
      | false =>
        rw [if_neg (by simp)]
        change ((table.setRecord _ _).setStatus _ _).row slot = _
        rw [marked_row _ _ _ _ _ rfl]
        simp [row,flag]
    | update =>
      dsimp only [undoUpdate]
      cases flag : table.used slot with
      | true =>
        have busy : (table.status slot).status = .used := of_decide_eq_true flag
        rw [if_pos rfl,marked_row]
        · simp [row,flag]
        · exact busy
      | false => simp [row,flag]
    | _ => rfl
  · rw [if_neg same]
    cases item.header.op_type with
    | insert =>
      dsimp only [undoInsert]
      split
      · rw [release_row,if_neg same]
      · rfl
    | delete =>
      dsimp only [undoDelete]
      split
      · rfl
      · change ((table.setRecord _ _).setStatus _ _).row slot = _
        rw [marked_row _ _ _ _ _ rfl,if_neg same]
    | update =>
      dsimp only [undoUpdate]
      split
      · rename_i flag
        have busy : (table.status place).status = .used := of_decide_eq_true flag
        rw [marked_row,if_neg same]
        exact busy
      · rfl
    | _ => rfl

theorem undo_tdef (table : MemoryTable) (item : VariableSizeLogItem) : (table.undo item).tdef = table.tdef := by
  unfold undo
  cases item.header.op_type with
  | insert =>
    dsimp only [undoInsert,release,pushFree]
    split
    · split <;> rfl
    · rfl
  | delete =>
    dsimp only [undoDelete]
    split <;> rfl
  | update =>
    dsimp only [undoUpdate]
    split <;> rfl
  | _ => rfl

theorem undoAll_row (table : MemoryTable) (items : List VariableSizeLogItem) (slot : Nat) :
    (table.undoAll items).tdef = table.tdef ∧
      (table.undoAll items).row slot = undoRows table.tdef.record_size slot items (table.row slot) := by
  induction items with
  | nil => exact ⟨rfl,rfl⟩
  | cons item rest ih =>
    obtain ⟨tdef,rows⟩ := ih
    refine ⟨(undo_tdef _ item).trans tdef,?_⟩
    change ((table.undoAll rest).undo item).row slot = undoRow _ slot item (undoRows _ slot rest _)
    rw [undo_row,tdef,rows]

theorem undoRows_unnamed (width slot : Nat) (items : List VariableSizeLogItem)
    (unnamed : ∀ item ∈ items, item.header.record_id.toNat ≠ slot) (row : Bool × Bytes) :
    undoRows width slot items row = row := by
  induction items with
  | nil => rfl
  | cons item rest ih =>
    change undoRow width slot item (undoRows width slot rest row) = row
    rw [ih fun each member => unnamed each (List.mem_cons_of_mem _ member),undoRow,
      if_neg (unnamed item List.mem_cons_self)]

-- Whether a slot is used after the undo does not depend on its bytes.
theorem undoRow_flag (width slot : Nat) (item : VariableSizeLogItem) {left right : Bool × Bytes}
    (same : left.1 = right.1) : (undoRow width slot item left).1 = (undoRow width slot item right).1 := by
  obtain ⟨flag,left⟩ := left
  obtain ⟨_,right⟩ := right
  obtain rfl : flag = _ := same
  unfold undoRow
  split
  · cases item.header.op_type <;> cases flag <;> rfl
  · rfl

theorem undoRows_flag (width slot : Nat) (items : List VariableSizeLogItem) {left right : Bool × Bytes}
    (same : left.1 = right.1) : (undoRows width slot items left).1 = (undoRows width slot items right).1 := by
  induction items with
  | nil => exact same
  | cons item rest ih => exact undoRow_flag width slot item ih

theorem undoAll_keeps {table : MemoryTable} (items : List VariableSizeLogItem) (slot : Nat)
    (unnamed : ∀ item ∈ items, item.header.record_id.toNat ≠ slot) (taken : table.used slot = true) :
    (table.undoAll items).used slot = true := by
  have rows := (undoAll_row table items slot).2
  rw [undoRows_unnamed _ _ _ unnamed] at rows
  exact (congrArg Prod.fst rows).trans taken

end MemoryTable

-- What an item says about the slot an undo has to visit.
def itemPlace (item : VariableSizeLogItem) : LogOperation × UInt8 × UInt16 :=
  (item.header.op_type,item.header.table_id,item.header.record_id)

def slotPlace (tdef : TableDef) (slot : Nat) : LogOperation × UInt8 × UInt16 := (.insert,tdef.id,UInt16.ofNat slot)

-- A table after some rows went into fresh slots, with the items the log took.
structure Grown (table : MemoryTable) (capacity : Nat) (fresh : List Nat) (items : List VariableSizeLogItem)
    (after : MemoryTable) : Prop where
  sound : after.Sound
  normal : after.low_power_mode = false
  tdef : after.tdef = table.tdef
  used : after.used = assignAll table.used fresh
  records : ∀ slot, slot ∉ fresh → after.records slot = table.records slot
  count : after.record_count = table.record_count+fresh.length
  free : table.free_slots = after.free_slots ++ fresh.reverse
  logged : items.map itemPlace = (fresh.map (slotPlace table.tdef)).take capacity
  back : fresh.length ≤ capacity → (∀ slot ∈ fresh, slot < 2^16) → ∀ other : MemoryTable, after.Same other →
    other.Sound → table.Same (other.undoAll items) ∧ (other.undoAll items).Sound

namespace Grown
variable {table after : MemoryTable} {fresh : List Nat} {items : List VariableSizeLogItem}

theorem refl (sound : table.Sound) (normal : table.low_power_mode = false) (capacity : Nat) (key : UInt64) :
    Grown table capacity [] [] {table with max_pk:=key} where
  sound := ⟨⟨sound.positive,sound.small,sound.split,sound.count⟩,sound.sized⟩
  normal := normal
  tdef := rfl
  used := rfl
  records := fun _ _ => rfl
  count := rfl
  free := by simp
  logged := by simp
  back := by
    intro _ _ other same good
    exact ⟨⟨same.tdef,same.used,same.records,same.count,same.free⟩,good⟩

theorem of_key {key : UInt64} (grown : Grown {table with max_pk:=key} capacity fresh items after) :
    Grown table capacity fresh items after := by
  obtain ⟨sound,normal,tdef,used,records,count,free,logged,back⟩ := grown
  refine ⟨sound,normal,tdef,used,records,count,free,logged,?_⟩
  intro few small other same good
  obtain ⟨restored,fine⟩ := back few small other same good
  exact ⟨⟨restored.tdef,restored.used,restored.records,restored.count,restored.free⟩,fine⟩

end Grown

def MemoryTable.withRow (table : MemoryTable) (slot : Nat) (image : Bytes) (stack : List Nat) (key : UInt64) :
    MemoryTable :=
  {table.store slot image true with free_slots:=stack,max_pk:=key,record_count:=table.record_count+1}

section Step
variable {table after : MemoryTable} {slot : Nat} {stack fresh : List Nat} {items : List VariableSizeLogItem}

theorem withRow_used (image : Bytes) (key : UInt64) :
    (table.withRow slot image stack key).used = assign table.used slot true :=
  MemoryTable.store_used image true

theorem withRow_sound (sound : table.Sound) (shape : table.free_slots = stack ++ [slot])
    (fits : image.length = table.tdef.record_size) (key : UInt64) :
    (table.withRow slot image stack key).Sound := by
  have split := sound.split
  rw [shape] at split
  have free : slot < table.tdef.max_records ∧ table.used slot = false := (split.complete slot).mp (by simp)
  refine ⟨⟨sound.positive,sound.small,?_,?_⟩,?_⟩
  · rw [withRow_used]
    exact split.pop
  · rw [withRow_used]
    change table.record_count+1 = usedCount table.tdef.max_records _
    rw [usedCount_take free.1 free.2,sound.count]
  · exact MemoryTable.store_sized sound.sized slot true fits

theorem withRow_records (image : Bytes) (key : UInt64) (different : each ≠ slot) :
    (table.withRow slot image stack key).records each = table.records each := by
  simp [MemoryTable.withRow,MemoryTable.store,MemoryTable.setStatus,MemoryTable.setRecord,different]

-- The books of one more row in front.
theorem Grown.cons (shape : table.free_slots = stack ++ [slot])
    (grown : Grown (table.withRow slot image stack key) capacity fresh items after) :
    after.Sound ∧ after.low_power_mode = false ∧ after.tdef = table.tdef ∧
      after.used = assignAll table.used (slot :: fresh) ∧
      (∀ each, each ∉ slot :: fresh → after.records each = table.records each) ∧
      after.record_count = table.record_count+(slot :: fresh).length ∧
      table.free_slots = after.free_slots ++ (slot :: fresh).reverse := by
  refine ⟨grown.sound,grown.normal,grown.tdef,?_,?_,?_,?_⟩
  · rw [grown.used,withRow_used]
    rfl
  · intro each absent
    rw [List.mem_cons,not_or] at absent
    rw [grown.records each absent.2,withRow_records image key absent.1]
  · rw [grown.count]
    change table.record_count+1+fresh.length = _
    rw [List.length_cons]
    omega
  · have rest := grown.free
    change stack = _ at rest
    rw [shape,rest]
    simp

theorem Grown.full (shape : table.free_slots = stack ++ [slot])
    (grown : Grown (table.withRow slot image stack key) 0 fresh items after) :
    Grown table 0 (slot :: fresh) items after := by
  obtain ⟨good,normal,tdef,used,records,count,free⟩ := grown.cons shape
  refine ⟨good,normal,tdef,used,records,count,free,by simpa using grown.logged,?_⟩
  intro few
  cases few

theorem Grown.logs (sound : table.Sound) (shape : table.free_slots = stack ++ [slot])
    (grown : Grown (table.withRow slot image stack key) capacity fresh items after)
    (named : itemPlace item = slotPlace table.tdef slot) :
    Grown table (capacity+1) (slot :: fresh) (item :: items) after := by
  obtain ⟨good,normal,tdef,used,records,count,free⟩ := grown.cons shape
  refine ⟨good,normal,tdef,used,records,count,free,?_,?_⟩
  · rw [List.map_cons,List.map_cons,List.take_succ_cons,grown.logged,named]
    rfl
  · intro few small other same fine
    obtain ⟨middle,middleGood⟩ := grown.back (by simpa using few)
      (fun each member => small each (List.mem_cons_of_mem _ member)) other same fine
    have split := sound.split
    rw [shape] at split
    have idle : slot < table.tdef.max_records ∧ table.used slot = false := (split.complete slot).mp (by simp)
    have undone := @MemoryTable.undo_insert table (table.withRow slot image stack key) (other.undoAll items) slot
      rfl (withRow_used image key) (fun each different => withRow_records image key different) rfl
      (by intro each; rw [shape]; simp [MemoryTable.withRow]) idle.1 idle.2 middle middleGood
    have visit : (other.undoAll items).undo item = (other.undoAll items).undoInsert slot := by
      have kind : item.header.op_type = .insert := congrArg (·.1) named
      have record : item.header.record_id = UInt16.ofNat slot := congrArg (·.2.2) named
      unfold MemoryTable.undo
      rw [kind,record,slot_back (small slot List.mem_cons_self)]
    change table.Same ((other.undoAll items).undo item) ∧ ((other.undoAll items).undo item).Sound
    rw [visit]
    exact undone

end Step

-- How a row can go: refused, ignored as a duplicate, or stored in the slot on
-- top of the stack.
inductive RowOutcome (rt : Runtime) (query : SqlQuery) (values : List SqlValue) (row : Nat) (table : MemoryTable)
    (manager : TransactionManager) : Prop where
  | refused (failure : QueryExecutionError) (key : UInt64)
      (stops : ∀ rest slots, insertRows rt query ((values,row) :: rest) slots table manager =
        ⟨some failure,slots,{table with max_pk:=key},manager⟩)
  | ignored (key : UInt64) (asked : query.ignore_duplicates = true)
      (skips : ∀ rest slots, insertRows rt query ((values,row) :: rest) slots table manager =
        insertRows rt query rest slots {table with max_pk:=key} manager)
  | stored (slot : Nat) (stack : List Nat) (key : UInt64) (shape : table.free_slots = stack ++ [slot])
      (built : (rowRecord rt.semantics table query values).failure = none)
      (goes : ∀ rest slots, insertRows rt query ((values,row) :: rest) slots table manager =
        insertRows rt query rest (slots ++ [slot])
          (table.withRow slot (recordImage table.tdef.record_size
            (rowRecord rt.semantics table query values).record) stack key)
          (manager.log .insert table.tdef.id (UInt16.ofNat slot) (rt.clock row) []
            (recordImage table.tdef.record_size (rowRecord rt.semantics table query values).record)))

theorem row_outcome (rt : Runtime) (query : SqlQuery) (values : List SqlValue) (row : Nat) (table : MemoryTable)
    (manager : TransactionManager) (normal : table.low_power_mode = false) :
    RowOutcome rt query values row table manager := by
  cases built : (rowRecord rt.semantics table query values).failure with
  | some failure =>
    refine .refused failure (rowRecord rt.semantics table query values).max_pk ?_
    intro rest slots
    simp only [insertRows,built]
  | none =>
    obtain ⟨fault,same⟩ | ⟨slot,image,logged,result,imageEq,loggedEq,same,⟨low,_⟩ | ⟨_,stack,key,shape,resultEq⟩⟩ :=
      MemoryTable.insert_cases {table with max_pk:=(rowRecord rt.semantics table query values).max_pk} manager
        (rt.clock row) (rowRecord rt.semantics table query values).record
    · cases meaning : rowFailure query.ignore_duplicates fault with
      | some failure =>
        refine .refused failure (rowRecord rt.semantics table query values).max_pk ?_
        intro rest slots
        simp only [insertRows,built,same,meaning]
      | none =>
        have asked : query.ignore_duplicates = true := by
          unfold rowFailure at meaning
          split at meaning
          · split at meaning
            · assumption
            · cases meaning
          · cases meaning
          · cases meaning
          · cases meaning
          · cases meaning
        refine .ignored (rowRecord rt.semantics table query values).max_pk asked ?_
        intro rest slots
        simp only [insertRows,built,same,meaning]
    · rw [normal] at low
      cases low
    · refine .stored slot stack key shape built ?_
      intro rest slots
      simp only [insertRows,built,same]
      rw [resultEq,loggedEq,imageEq]
      rfl

section Loop
variable {table : MemoryTable} {manager : TransactionManager} {current : Transaction}

theorem log_insert (active : manager.current_tx = some current) (tdef : TableDef) (slot : Nat) (now : UInt64)
    (image : Bytes) :
    (current.max_log_items-current.log_items.length = 0 ∧
      (manager.log .insert tdef.id (UInt16.ofNat slot) now [] image).current_tx = some current) ∨
    ∃ item, itemPlace item = slotPlace tdef slot ∧ current.log_items.length < current.max_log_items ∧
      (manager.log .insert tdef.id (UInt16.ofNat slot) now [] image).current_tx =
        some {current with log_items:=current.log_items ++ [item]} := by
  by_cases room : current.log_items.length < current.max_log_items
  · exact .inr ⟨_,rfl,room,log_room active room _ _ _ _ _ _⟩
  · left
    refine ⟨by omega,?_⟩
    simp only [TransactionManager.log,active,Option.map_some,Transaction.beginLogItem]
    rw [if_pos (by omega)]

theorem insertRows_grown (rt : Runtime) (query : SqlQuery) (todo : List (List SqlValue × Nat)) (slots : List Nat)
    (sound : table.Sound) (normal : table.low_power_mode = false) (active : manager.current_tx = some current) :
    ∃ fresh items, (insertRows rt query todo slots table manager).slots = slots ++ fresh ∧
      (insertRows rt query todo slots table manager).manager.current_tx =
        some {current with log_items:=current.log_items ++ items} ∧
      Grown table (current.max_log_items-current.log_items.length) fresh items
        (insertRows rt query todo slots table manager).table := by
  induction todo generalizing slots table manager current with
  | nil =>
    exact ⟨[],[],by simp [insertRows],by simpa [insertRows] using active,Grown.refl sound normal _ table.max_pk⟩
  | cons entry rest ih =>
    obtain ⟨values,row⟩ := entry
    cases row_outcome rt query values row table manager normal with
    | refused failure key stops =>
      rw [stops]
      exact ⟨[],[],by simp,by simpa using active,Grown.refl sound normal _ key⟩
    | ignored key asked skips =>
      rw [skips]
      obtain ⟨fresh,items,places,logged,grown⟩ := @ih {table with max_pk:=key} manager current slots
        (Grown.refl sound normal 0 key).sound normal active
      exact ⟨fresh,items,places,logged,grown.of_key⟩
    | stored slot stack key shape built goes =>
      rw [goes]
      generalize imageEq : recordImage table.tdef.record_size (rowRecord rt.semantics table query values).record =
        image
      have good : (table.withRow slot image stack key).Sound :=
        withRow_sound sound shape (by rw [← imageEq,recordImage_length]) key
      obtain ⟨none_left,same⟩ | ⟨item,named,room,more⟩ := log_insert active table.tdef slot (rt.clock row) image
      · obtain ⟨fresh,items,places,logged,grown⟩ := ih (slots ++ [slot]) good normal same
        rw [none_left] at grown ⊢
        exact ⟨slot :: fresh,items,by rw [places]; simp,logged,grown.full shape⟩
      · obtain ⟨fresh,items,places,logged,grown⟩ := ih (slots ++ [slot]) good normal more
        refine ⟨slot :: fresh,item :: items,by rw [places]; simp,by rw [logged]; simp,?_⟩
        have split : current.max_log_items-current.log_items.length =
            current.max_log_items-(current.log_items ++ [item]).length+1 := by
          rw [List.length_append,List.length_singleton]
          omega
        rw [split]
        exact grown.logs sound shape named

theorem Grown.fresh_nodup {after : MemoryTable} (sound : table.Sound)
    (grown : Grown table capacity fresh items after) : fresh.Nodup := by
  have distinct := sound.split.distinct
  rw [grown.free] at distinct
  exact List.nodup_reverse.mp (List.nodup_append.mp distinct).2.1

theorem Grown.fresh_idle {after : MemoryTable} (sound : table.Sound)
    (grown : Grown table capacity fresh items after) (member : slot ∈ fresh) : table.used slot = false := by
  refine ((sound.split.complete slot).mp ?_).2
  rw [grown.free]
  exact List.mem_append_right _ (List.mem_reverse.mpr member)

end Loop

def StoredAs (semantics : Semantics) (query : SqlQuery) (table after : MemoryTable) (values : List SqlValue)
    (slot : Nat) : Prop :=
  table.used slot = false ∧ after.used slot = true ∧
    ∃ maxPk, (rowRecord semantics {table with max_pk:=maxPk} query values).failure = none ∧
      after.records slot = recordImage table.tdef.record_size
        (rowRecord semantics {table with max_pk:=maxPk} query values).record

section Stored
variable {table : MemoryTable} {manager : TransactionManager} {current : Transaction}

theorem insertRows_stored (rt : Runtime) (query : SqlQuery) (todo : List (List SqlValue × Nat)) (slots : List Nat)
    (sound : table.Sound) (normal : table.low_power_mode = false) (active : manager.current_tx = some current)
    (strict : query.ignore_duplicates = false)
    (done : (insertRows rt query todo slots table manager).failure = none) :
    ∃ fresh, (insertRows rt query todo slots table manager).slots = slots ++ fresh ∧
      List.Forall₂ (fun entry slot => StoredAs rt.semantics query table
        (insertRows rt query todo slots table manager).table entry.1 slot) todo fresh := by
  induction todo generalizing slots table manager current with
  | nil => exact ⟨[],by simp [insertRows],.nil⟩
  | cons entry rest ih =>
    obtain ⟨values,row⟩ := entry
    cases row_outcome rt query values row table manager normal with
    | refused failure key stops =>
      rw [stops] at done
      cases done
    | ignored key asked skips =>
      rw [strict] at asked
      cases asked
    | stored slot stack key shape built goes =>
      rw [goes] at done ⊢
      generalize imageEq : recordImage table.tdef.record_size (rowRecord rt.semantics table query values).record =
        image at done ⊢
      have good : (table.withRow slot image stack key).Sound :=
        withRow_sound sound shape (by rw [← imageEq,recordImage_length]) key
      have logging : ∃ next, (manager.log .insert table.tdef.id (UInt16.ofNat slot) (rt.clock row) []
          image).current_tx = some next := by
        simp [TransactionManager.log,active]
      obtain ⟨next,open_still⟩ := logging
      obtain ⟨fresh,places,others⟩ := ih (slots ++ [slot]) good normal open_still done
      obtain ⟨again,items,samePlaces,_,grown⟩ := insertRows_grown rt query rest (slots ++ [slot]) good normal
        open_still
      obtain rfl : fresh = again := List.append_cancel_left (places.symm.trans samePlaces)
      have split := sound.split
      rw [shape] at split
      have idle : table.used slot = false := ((split.complete slot).mp (by simp)).2
      have absent : slot ∉ fresh := by
        intro member
        have free := grown.fresh_idle good member
        rw [withRow_used,assign_same] at free
        cases free
      refine ⟨slot :: fresh,by rw [places]; simp,.cons ⟨idle,?_,table.max_pk,built,?_⟩ (others.imp ?_)⟩
      · rw [grown.used]
        exact assignAll_keeps fresh (by rw [withRow_used,assign_same])
      · rw [grown.records slot absent,imageEq]
        simp [MemoryTable.withRow,MemoryTable.store,MemoryTable.setStatus,MemoryTable.setRecord]
      · intro entry each stored
        obtain ⟨free,taken,maxPk,whole,record⟩ := stored
        refine ⟨?_,taken,maxPk,whole,record⟩
        have different : each ≠ slot := by
          intro equal
          rw [equal,withRow_used,assign_same] at free
          cases free
        rw [withRow_used,assign_other _ different] at free
        exact free

end Stored

section Rollback
variable {table after : MemoryTable} {capacity index : Nat} {fresh : List Nat} {items : List VariableSizeLogItem}

theorem Grown.item_place (grown : Grown table capacity fresh items after) (member : item ∈ items) :
    ∃ slot ∈ fresh.take capacity, itemPlace item = slotPlace table.tdef slot := by
  have among : itemPlace item ∈ (fresh.map (slotPlace table.tdef)).take capacity := by
    rw [← grown.logged]
    exact List.mem_map_of_mem member
  rw [← List.map_take] at among
  obtain ⟨slot,taken,same⟩ := List.mem_map.mp among
  exact ⟨slot,taken,same.symm⟩

-- A slot that the undo does not visit: none is visited in another table, none
-- beyond sixteen bits, and none after the log was full.
theorem Grown.unvisited (sound : table.Sound) (grown : Grown table capacity fresh items after) (some_fresh : fresh ≠ [])
    (lost : ¬(fresh.length ≤ capacity ∧ table.tdef.id.toNat = index ∧ ∀ slot ∈ fresh, slot < 2^16)) :
    ∃ slot ∈ fresh, ∀ item ∈ items.filter (fun item => item.header.table_id.toNat = index),
      item.header.record_id.toNat ≠ slot := by
  by_cases named : table.tdef.id.toNat = index
  · by_cases small : ∀ slot ∈ fresh, slot < 2^16
    · have long : capacity < fresh.length := by
        by_contra few
        exact lost ⟨Nat.le_of_not_lt few,named,small⟩
      refine ⟨fresh[capacity],List.getElem_mem long,?_⟩
      intro item member same
      obtain ⟨slot,taken,placed⟩ := grown.item_place (List.mem_filter.mp member).1
      have record : item.header.record_id = UInt16.ofNat slot := congrArg (·.2.2) placed
      rw [record,slot_back (small slot (List.mem_of_mem_take taken))] at same
      obtain ⟨place,before,found⟩ := List.mem_take_iff_getElem.mp taken
      have bounds : place < capacity := by omega
      have equal := (List.Nodup.getElem_inj_iff (grown.fresh_nodup sound)).mp (found.trans same)
      omega
    · push Not at small
      obtain ⟨slot,member,large⟩ := small
      refine ⟨slot,member,?_⟩
      intro item _ same
      have bound := item.header.record_id.toNat_lt
      omega
  · obtain ⟨slot,member⟩ := List.exists_mem_of_ne_nil fresh some_fresh
    refine ⟨slot,member,?_⟩
    intro item among
    obtain ⟨inside,here⟩ := List.mem_filter.mp among
    obtain ⟨_,_,placed⟩ := grown.item_place inside
    have id : item.header.table_id = table.tdef.id := congrArg (·.2.1) placed
    rw [id] at here
    exact absurd (by simpa using here) named

theorem Grown.rolled_back (sound : table.Sound) (grown : Grown table capacity fresh items after) :
    table.Same (after.undoAll (items.filter fun item => item.header.table_id.toNat = index)) ↔
      fresh = [] ∨ (fresh.length ≤ capacity ∧ table.tdef.id.toNat = index ∧ ∀ slot ∈ fresh, slot < 2^16) := by
  constructor
  · intro same
    by_contra wrong
    rw [not_or] at wrong
    obtain ⟨slot,member,unnamed⟩ := grown.unvisited sound wrong.1 wrong.2
    have taken : after.used slot = true := by
      rw [grown.used]
      exact assignAll_mem fresh member
    have left := MemoryTable.undoAll_keeps _ slot unnamed taken
    rw [← same.used,grown.fresh_idle sound member] at left
    cases left
  · intro fits
    have few : fresh.length ≤ capacity ∧ ∀ slot ∈ fresh, slot < 2^16 := by
      rcases fits with rfl | fits
      · exact ⟨Nat.zero_le _,by simp⟩
      · exact ⟨fits.1,fits.2.2⟩
    have all : items.filter (fun item => item.header.table_id.toNat = index) = items := by
      rw [List.filter_eq_self]
      intro item member
      obtain ⟨slot,taken,placed⟩ := grown.item_place member
      have id : item.header.table_id = table.tdef.id := congrArg (·.2.1) placed
      rcases fits with rfl | fits
      · simp at taken
      · rw [id]
        simpa using fits.2.1
    rw [all]
    exact (grown.back few.1 few.2 after (.refl after) grown.sound).1

theorem Grown.same_iff (grown : Grown table capacity fresh items after) : table.Same after ↔ fresh = [] := by
  constructor
  · intro same
    have count := same.count
    rw [grown.count] at count
    exact List.length_eq_zero_iff.mp (by omega)
  · rintro rfl
    have nothing : items = [] := by simpa using grown.logged
    have same := (grown.back (Nat.zero_le _) (by simp) after (.refl after) grown.sound).1
    rw [nothing] at same
    exact same

end Rollback

theorem autoBegin_idle (rt : Runtime) {manager : TransactionManager} (idle : manager.current_tx = none) :
    ∃ begun current, autoBegin rt manager = (.ok true,begun) ∧ begun.current_tx = some current ∧
      current.log_items = [] ∧ current.max_log_items = statementLogItems ∧ current.status = .active ∧
      current.addr = rt.localBuffer := by
  unfold autoBegin TransactionManager.start
  simp only [idle,Option.isSome_none,Bool.false_eq_true,if_false]
  exact ⟨_,_,rfl,rfl,rfl,rfl,rfl,rfl⟩

theorem autoRollback_active {state : Session} {tx : Transaction} (active : state.manager.current_tx = some tx)
    (failure : QueryExecutionError) :
    autoRollback state true failure = (.error failure,{state with
      db:=state.db.undoAll tx.log_items,manager:={state.manager with current_tx:=none}}) := by
  simp only [autoRollback,TransactionManager.rollback,active]
  rfl

theorem autoCommit_own (rt : Runtime) (state : Session) (result : ResultSet) :
    autoCommit rt state true result =
      (((state.manager.commit rt.codecs rt.envs).1.map fun _ => result).mapError fun _ => .internalError,
        {state with manager:=(state.manager.commit rt.codecs rt.envs).2}) := by
  unfold autoCommit
  rw [if_pos rfl]
  split
  · rename_i committed
    rw [committed]
    rfl
  · rename_i failed
    rw [failed]
    rfl

-- On an error the table is as before; without IGNORE success means that every
-- row has its own slot.
def AllOrNothing (semantics : Semantics) (query : SqlQuery) (table : MemoryTable) (index : Nat)
    (outcome : Except QueryExecutionError ResultSet × Session) : Prop :=
  ∃ after, outcome.2.db.table index = some after ∧
    ((∃ failure, outcome.1 = .error failure) → table.Same after) ∧
    ((∃ result, outcome.1 = .ok result) → query.ignore_duplicates = false →
      ∃ slots, slots.Nodup ∧ List.Forall₂ (StoredAs semantics query table after) query.values slots)

def knownColumns (query : SqlQuery) (tdef : TableDef) : Bool :=
  query.insert_columns.all fun column => tdef.fields.any (·.name = column)

def ownRows (rt : Runtime) (state : Session) (query : SqlQuery) (table : MemoryTable) : InsertedRows :=
  insertRows rt query query.values.zipIdx [] table (autoBegin rt state.manager).2

def Undoes (rt : Runtime) (state : Session) (query : SqlQuery) (table : MemoryTable) (index : Nat) : Prop :=
  let rows := ownRows rt state query table
  knownColumns query table.tdef = false ∨ rows.slots = [] ∨
    match rows.failure with
    | some _ => rows.slots.length ≤ statementLogItems ∧ table.tdef.id.toNat = index ∧ ∀ slot ∈ rows.slots, slot < 2^16
    | none => (rows.manager.commit rt.codecs rt.envs).1 = .ok ()

theorem allOrNothing_error {outcome : Except QueryExecutionError ResultSet × Session} {table after : MemoryTable}
    {failure : QueryExecutionError} (semantics : Semantics) (query : SqlQuery) (present : outcome.2.db.table index = some after)
    (failed : outcome.1 = .error failure) :
    AllOrNothing semantics query table index outcome ↔ table.Same after := by
  constructor
  · rintro ⟨other,there,unchanged,_⟩
    rw [Option.some.inj (present.symm.trans there)]
    exact unchanged ⟨failure,failed⟩
  · intro same
    refine ⟨after,present,fun _ => same,?_⟩
    rintro ⟨result,wrong⟩
    rw [failed] at wrong
    cases wrong

section Own
variable {rt : Runtime} {state : Session} {query : SqlQuery} {index : Nat} {table : MemoryTable}

theorem ownRows_grown (idle : state.manager.current_tx = none) (sound : table.Sound)
    (normal : table.low_power_mode = false) :
    ∃ items tx, (ownRows rt state query table).manager.current_tx = some tx ∧ tx.log_items = items ∧
      Grown table statementLogItems (ownRows rt state query table).slots items
        (ownRows rt state query table).table := by
  obtain ⟨begun,current,begins,active,empty,places,_⟩ := autoBegin_idle rt idle
  have begunEq : (autoBegin rt state.manager).2 = begun := by rw [begins]
  obtain ⟨fresh,items,slots,logged,grown⟩ := insertRows_grown rt query query.values.zipIdx [] sound normal active
  rw [empty,List.length_nil,Nat.sub_zero,places] at grown
  rw [empty,List.nil_append] at logged
  rw [List.nil_append] at slots
  unfold ownRows
  rw [begunEq,slots]
  exact ⟨items,_,logged,rfl,grown⟩

theorem ownRows_stored (idle : state.manager.current_tx = none) (sound : table.Sound)
    (normal : table.low_power_mode = false) (strict : query.ignore_duplicates = false)
    (done : (ownRows rt state query table).failure = none) :
    List.Forall₂ (StoredAs rt.semantics query table (ownRows rt state query table).table) query.values
      (ownRows rt state query table).slots := by
  obtain ⟨begun,current,begins,active,_⟩ := autoBegin_idle rt idle
  have begunEq : (autoBegin rt state.manager).2 = begun := by rw [begins]
  unfold ownRows at done ⊢
  rw [begunEq] at done ⊢
  obtain ⟨stored,same,each⟩ := insertRows_stored rt query query.values.zipIdx [] sound normal active strict done
  rw [List.nil_append] at same
  have mapped := List.forall₂_map_left_iff.mpr each
  rw [List.zipIdx_map_fst] at mapped
  rw [same]
  exact mapped

variable (idle : state.manager.current_tx = none) (ordinary : state.seriesPosition query.table_name = none)
  (found : state.db.position query.table_name = some index) (here : state.db.table index = some table)
include idle ordinary found here

theorem own_insert_refused {failure : QueryExecutionError} (known : knownColumns query table.tdef = true)
    {tx : Transaction}
    (active : (ownRows rt state query table).manager.current_tx = some tx)
    (refused : (ownRows rt state query table).failure = some failure) :
    executeInsertQuery rt state query = (.error failure,{state with
      db:=(state.db.setTable index (ownRows rt state query table).table).undoAll tx.log_items,
      manager:={(ownRows rt state query table).manager with current_tx:=none}}) := by
  obtain ⟨begun,_,begins,_⟩ := autoBegin_idle rt idle
  unfold knownColumns at known
  unfold ownRows at refused active
  rw [begins] at refused active
  simp only [executeInsertQuery,ordinary,found,here,known,begins,refused]
  have undone := @autoRollback_active {state with
    db:=state.db.setTable index (insertRows rt query query.values.zipIdx [] table begun).table,
    manager:=(insertRows rt query query.values.zipIdx [] table begun).manager} tx active failure
  unfold ownRows
  rw [begins]
  exact undone

theorem own_insert_finished (known : knownColumns query table.tdef = true)
    (finished : (ownRows rt state query table).failure = none) :
    (executeInsertQuery rt state query).2.db = state.db.setTable index (ownRows rt state query table).table ∧
    (executeInsertQuery rt state query).1 =
      (((ownRows rt state query table).manager.commit rt.codecs rt.envs).1.map fun _ =>
        counts [("affected_rows",(ownRows rt state query table).slots.length),
          ("last_insert_id",(ownRows rt state query table).slots.getLastD 0)]).mapError fun _ => .internalError := by
  obtain ⟨begun,_,begins,_⟩ := autoBegin_idle rt idle
  unfold knownColumns at known
  unfold ownRows at finished ⊢
  rw [begins] at finished ⊢
  simp only [executeInsertQuery,ordinary,found,here,known,begins,finished]
  rw [if_neg (by simp),if_pos trivial,autoCommit_own]
  exact ⟨rfl,rfl⟩

omit idle in
theorem own_insert_unknown (unknown : knownColumns query table.tdef = false) :
    executeInsertQuery rt state query = (.error .fieldNotFound,state) := by
  unfold knownColumns at unknown
  simp only [executeInsertQuery,ordinary,found,here,unknown]
  rw [if_neg (by simp),if_neg (by simp)]

end Own

-- The statement is all or nothing unless it stores rows that its rollback does
-- not reach: more than ten, in a table whose id is not its index, in slots
-- beyond sixteen bits, or before a commit that fails.
theorem insert_all_or_nothing_iff (rt : Runtime) (state : Session) (query : SqlQuery) (index : Nat)
    (table : MemoryTable) (idle : state.manager.current_tx = none)
    (ordinary : state.seriesPosition query.table_name = none)
    (found : state.db.position query.table_name = some index) (here : state.db.table index = some table)
    (sound : table.Sound) (normal : table.low_power_mode = false) :
    AllOrNothing rt.semantics query table index (executeInsertQuery rt state query) ↔
      Undoes rt state query table index := by
  obtain ⟨items,tx,active,rfl,grown⟩ := @ownRows_grown rt state query table idle sound normal
  unfold Undoes
  cases known : knownColumns query table.tdef with
  | false =>
    have executed := @own_insert_unknown rt state query index table ordinary found here known
    have present : (executeInsertQuery rt state query).2.db.table index = some table := by
      rw [executed]
      exact here
    rw [allOrNothing_error _ _ present (by rw [executed])]
    exact iff_of_true (.refl table) (.inl rfl)
  | true =>
    simp only [Bool.true_eq_false,false_or]
    cases outcome : (ownRows rt state query table).failure with
    | some failure =>
      have executed := own_insert_refused idle ordinary found here known active outcome
      have restored : (executeInsertQuery rt state query).2.db.table index =
          some ((ownRows rt state query table).table.undoAll
            (tx.log_items.filter fun item => item.header.table_id.toNat = index)) := by
        rw [executed,Database.undoAll_table,Database.table_set_same here]
        rfl
      rw [allOrNothing_error _ _ restored (by rw [executed]),grown.rolled_back sound]
    | none =>
      obtain ⟨kept,result⟩ := own_insert_finished idle ordinary found here known outcome
      have present : (executeInsertQuery rt state query).2.db.table index =
          some (ownRows rt state query table).table := by
        rw [kept]
        exact Database.table_set_same here _
      cases committed : ((ownRows rt state query table).manager.commit rt.codecs rt.envs).1 with
      | error fault =>
        rw [committed] at result
        rw [allOrNothing_error _ _ present result,grown.same_iff]
        simp
      | ok done =>
        rw [committed] at result
        refine iff_of_true ⟨_,present,?_,?_⟩ (.inr rfl)
        · rintro ⟨failure,wrong⟩
          rw [result] at wrong
          cases wrong
        · intro _ strict
          exact ⟨_,grown.fresh_nodup sound,ownRows_stored idle sound normal strict outcome⟩

def keyField : FieldDef := ⟨"id",.uint8,1,none,0,true,true,true,false,none⟩
def keyDef : TableDef := ⟨1,"keys",[keyField],[0],1,11⟩
def keyTable : MemoryTable :=
  ⟨keyDef,fun _ => [0],fun _ => ⟨.free,0,0,0,0⟩,0,[10,9,8,7,6,5,4,3,2,1,0],false,none,0⟩
def keySession : Session := ⟨⟨[none,some keyTable]⟩,[],MemoryTable.noTx⟩
def insertKeys (keys : List Int64) : SqlQuery :=
  ⟨.insert,"keys",none,[],keys.map fun key => [.integer key],[],false⟩

theorem keyTable_sound : keyTable.Sound :=
  ⟨MemoryTable.new_accounted keyDef (some MemoryTable.blank) keyTable (by decide) rfl,fun _ => rfl⟩

-- The third row repeats a key; the first two are taken back.
theorem duplicate_key_undone :
    (executeInsertQuery plainRuntime keySession (insertKeys [1,2,2])).1 = .error .constraintsConflicts ∧
      AllOrNothing integerSemantics (insertKeys [1,2,2]) keyTable 1
        (executeInsertQuery plainRuntime keySession (insertKeys [1,2,2])) := by
  refine ⟨by decide +kernel,?_⟩
  refine (insert_all_or_nothing_iff plainRuntime keySession (insertKeys [1,2,2]) 1 keyTable rfl (by decide +kernel)
    (by decide +kernel) rfl keyTable_sound rfl).mpr (.inr (.inr ?_))
  have failed : (ownRows plainRuntime keySession (insertKeys [1,2,2]) keyTable).failure =
      some .constraintsConflicts := by decide +kernel
  have slots : (ownRows plainRuntime keySession (insertKeys [1,2,2]) keyTable).slots = [0,1] := by decide +kernel
  simp only [failed,slots]
  decide

-- Twelve rows for eleven slots: the statement fails, and the eleventh row stays.
theorem eleventh_row_stays :
    (executeInsertQuery plainRuntime keySession (insertKeys [1,2,3,4,5,6,7,8,9,10,11,12])).1 =
        .error .outOfMemory ∧
      ¬AllOrNothing integerSemantics (insertKeys [1,2,3,4,5,6,7,8,9,10,11,12]) keyTable 1
        (executeInsertQuery plainRuntime keySession (insertKeys [1,2,3,4,5,6,7,8,9,10,11,12])) := by
  have failed : (executeInsertQuery plainRuntime keySession (insertKeys [1,2,3,4,5,6,7,8,9,10,11,12])).1 =
      .error .outOfMemory := by decide +kernel
  have left : ((executeInsertQuery plainRuntime keySession
      (insertKeys [1,2,3,4,5,6,7,8,9,10,11,12])).2.db.table 1).map (·.record_count) = some 1 := by decide +kernel
  refine ⟨failed,?_⟩
  rintro ⟨after,present,unchanged,_⟩
  have count := (unchanged ⟨_,failed⟩).count
  rw [present] at left
  have one : after.record_count = 1 := Option.some.inj left
  rw [one] at count
  cases count

end RemDb
