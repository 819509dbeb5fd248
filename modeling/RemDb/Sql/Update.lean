import RemDb.Sql.Insert
import RemDb.Table.Unique

namespace RemDb
open RemDb.Lib RemDb.Wal

-- The SET list as SQL has it: every expression sees the old row.
def assignPairs (semantics : Semantics) (tdef : TableDef) (old : Bytes) :
    List (String × Expression) → Bytes → Except QueryExecutionError Bytes
  | [],record => .ok record
  | (name,expr) :: rest,record =>
    match tdef.fields.find? (·.name = name) with
    | none => .error .fieldNotFound
    | some field => (columnValue semantics tdef old field expr).bind fun bytes =>
        assignPairs semantics tdef old rest (writeAt record field.offset bytes)

-- No expression reads what an earlier pair changed.
def Independent (semantics : Semantics) (tdef : TableDef) (old : Bytes) :
    List (String × Expression) → Bytes → Prop
  | [],_ => True
  | (name,expr) :: rest,record =>
    ∀ field, tdef.fields.find? (·.name = name) = some field →
      columnValue semantics tdef record field expr = columnValue semantics tdef old field expr ∧
      ∀ bytes, columnValue semantics tdef old field expr = .ok bytes →
        Independent semantics tdef old rest (writeAt record field.offset bytes)

theorem independent_agrees (semantics : Semantics) (tdef : TableDef) (old : Bytes)
    (pairs : List (String × Expression)) (record : Bytes)
    (independent : Independent semantics tdef old pairs record) :
    applyPairs semantics tdef pairs record = assignPairs semantics tdef old pairs record := by
  induction pairs generalizing record with
  | nil => rfl
  | cons pair rest ih =>
    obtain ⟨name,expr⟩ := pair
    unfold applyPairs assignPairs
    cases found : tdef.fields.find? (·.name = name) with
    | none => rfl
    | some field =>
      obtain ⟨same,following⟩ := independent field found
      dsimp only
      rw [setFieldValue,same]
      cases value : columnValue semantics tdef old field expr with
      | error failure => rfl
      | ok bytes => exact ih _ (following bytes value)

-- NOT NULL, PRIMARY KEY and UNIQUE over the used records.
structure Satisfied (tdef : TableDef) (used : Nat → Bool) (records : Nat → Bytes) : Prop where
  not_null : ∀ slot, used slot = true → ∀ field ∈ tdef.fields, field.not_null = true →
    field.data_type.isText = true → (field.read (records slot) field.size).all (· = 0) = false
  primary : ∀ slot other, used slot = true → used other = true → slot ≠ other → tdef.primary_key ≠ [] →
    tdef.keyFields.all (·.sameValue (records slot) (records other)) = false
  unique : ∀ slot other, used slot = true → used other = true → slot ≠ other → ∀ field ∈ tdef.fields,
    field.unique = true → field.sameValue (records slot) (records other) = false

section Rows
variable (semantics : Semantics) (tdef : TableDef) (pairs : List (String × Expression))

-- What the statement makes of one matching row.
def rowAfter (old : Bytes) : Bytes :=
  match applyPairs semantics tdef pairs old with
  | .ok written => recordImage tdef.record_size written
  | .error _ => old

def rowFits (old : Bytes) : Bool := (applyPairs semantics tdef pairs old).toOption.isSome

def reached (records : Nat → Bytes) (slots : List Nat) : List Nat :=
  slots.takeWhile fun slot => rowFits semantics tdef pairs (records slot)

end Rows

theorem overwrite_used (table : MemoryTable) (slot : Nat) (record : Bytes) :
    (table.overwrite slot record).used = table.used := by
  funext each
  by_cases equal : each = slot
  · subst each
    simp [MemoryTable.used,MemoryTable.overwrite,MemoryTable.setStatus]
  · simp [MemoryTable.used,MemoryTable.overwrite,MemoryTable.setStatus,MemoryTable.setRecord,equal]

-- Every row is computed from its own copy, so the rows do not disturb each
-- other.
theorem updateRows_effect (semantics : Semantics) (pairs : List (String × Expression)) (copies : Nat → Bytes)
    (slots : List Nat) (table : MemoryTable) :
    let result := updateRows semantics pairs (slots.map fun slot => (slot,copies slot)) table
    (result.1 = none ↔ reached semantics table.tdef pairs copies slots = slots) ∧
      result.2.tdef = table.tdef ∧ result.2.used = table.used ∧
      ∀ slot, result.2.records slot =
        if slot ∈ reached semantics table.tdef pairs copies slots then
          rowAfter semantics table.tdef pairs (copies slot)
        else table.records slot := by
  induction slots generalizing table with
  | nil => simp [updateRows,reached]
  | cons head rest ih =>
    dsimp only
    cases outcome : applyPairs semantics table.tdef pairs (copies head) with
    | error failure =>
      have stops : reached semantics table.tdef pairs copies (head :: rest) = [] := by
        simp [reached,rowFits,outcome,Except.toOption]
      simp [updateRows,outcome,stops]
    | ok written =>
      have goes : reached semantics table.tdef pairs copies (head :: rest) =
          head :: reached semantics table.tdef pairs copies rest := by
        simp [reached,rowFits,outcome,Except.toOption]
      obtain ⟨finished,tdef,used,records⟩ := ih (table.overwrite head written)
      have run : updateRows semantics pairs ((head :: rest).map fun slot => (slot,copies slot)) table =
          updateRows semantics pairs (rest.map fun slot => (slot,copies slot)) (table.overwrite head written) := by
        simp [updateRows,outcome]
      rw [run,goes]
      refine ⟨finished.trans ?_,tdef,used.trans (overwrite_used table head written),?_⟩
      · exact ⟨fun same => congrArg (head :: ·) same,fun same => (List.cons.inj same).2⟩
      · intro slot
        rw [records slot]
        change (if slot ∈ reached semantics table.tdef pairs copies rest then
          rowAfter semantics table.tdef pairs (copies slot) else _) = _
        by_cases later : slot ∈ reached semantics table.tdef pairs copies rest
        · rw [if_pos later,if_pos (List.mem_cons_of_mem _ later)]
        · rw [if_neg later]
          by_cases equal : slot = head
          · subst slot
            rw [if_pos List.mem_cons_self,rowAfter,outcome]
            simp [MemoryTable.overwrite,MemoryTable.setStatus,MemoryTable.setRecord]
          · have absent : slot ∉ head :: reached semantics table.tdef pairs copies rest := by
              simp [equal,later]
            rw [if_neg absent]
            simp [MemoryTable.overwrite,MemoryTable.setStatus,MemoryTable.setRecord,equal]

-- The constraints of the rows that changed, against every other row.
def Respects (tdef : TableDef) (used : Nat → Bool) (records : Nat → Bytes) (changed : List Nat) : Prop :=
  ∀ slot ∈ changed,
    (∀ field ∈ tdef.fields, field.not_null = true → field.data_type.isText = true →
      (field.read (records slot) field.size).all (· = 0) = false) ∧
    ∀ other, used other = true → slot ≠ other →
      (tdef.primary_key ≠ [] → tdef.keyFields.all (·.sameValue (records slot) (records other)) = false) ∧
      ∀ field ∈ tdef.fields, field.unique = true → field.sameValue (records slot) (records other) = false

theorem satisfied_iff {tdef : TableDef} {used : Nat → Bool} {old records : Nat → Bytes} {changed : List Nat}
    (satisfied : Satisfied tdef used old) (taken : ∀ slot ∈ changed, used slot = true)
    (kept : ∀ slot, slot ∉ changed → records slot = old slot) :
    Satisfied tdef used records ↔ Respects tdef used records changed := by
  constructor
  · intro now slot member
    exact ⟨now.not_null slot (taken slot member),fun other busy different =>
      ⟨now.primary slot other (taken slot member) busy different,
        now.unique slot other (taken slot member) busy different⟩⟩
  · intro respects
    refine ⟨?_,?_,?_⟩
    · intro slot busy
      by_cases member : slot ∈ changed
      · exact (respects slot member).1
      · rw [kept slot member]
        exact satisfied.not_null slot busy
    · intro slot other busy otherBusy different keyed
      by_cases member : slot ∈ changed
      · exact ((respects slot member).2 other otherBusy different).1 keyed
      · by_cases otherMember : other ∈ changed
        · have back := ((respects other otherMember).2 slot busy (Ne.symm different)).1 keyed
          simpa only [FieldDef.sameValue_symm _ (records slot)] using back
        · rw [kept slot member,kept other otherMember]
          exact satisfied.primary slot other busy otherBusy different keyed
    · intro slot other busy otherBusy different field among unique
      by_cases member : slot ∈ changed
      · exact ((respects slot member).2 other otherBusy different).2 field among unique
      · by_cases otherMember : other ∈ changed
        · rw [FieldDef.sameValue_symm]
          exact ((respects other otherMember).2 slot busy (Ne.symm different)).2 field among unique
        · rw [kept slot member,kept other otherMember]
          exact satisfied.unique slot other busy otherBusy different field among unique

theorem autoBegin_active (rt : Runtime) {manager : TransactionManager} {tx : Transaction}
    (active : manager.current_tx = some tx) : autoBegin rt manager = (.ok false,manager) := by
  unfold autoBegin
  rw [if_pos (by rw [active]; rfl)]

theorem commit_empty (rt : Runtime) {manager : TransactionManager} {tx : Transaction}
    (active : manager.current_tx = some tx) (alive : tx.status = .active) (empty : tx.log_items = []) :
    (manager.commit rt.codecs rt.envs).1 = .ok () := by
  simp only [TransactionManager.commit,active,Transaction.commitLogItem,alive,empty]
  cases manager.log_manager with
  | none => rfl
  | some log => rfl

section Statement
variable (rt : Runtime) (state : Session) (query : SqlQuery) (table : MemoryTable)

-- The rows the loop works on, with their copies.
def updatedTable : Option QueryExecutionError × MemoryTable :=
  updateRows rt.semantics query.update_pairs ((table.matching rt.semantics query.where_clause).map fun slot =>
    (slot,recordImage table.tdef.record_size (table.records slot))) table

def handled : List Nat :=
  reached rt.semantics table.tdef query.update_pairs table.records (table.matching rt.semantics query.where_clause)
def newRow (slot : Nat) : Bytes := rowAfter rt.semantics table.tdef query.update_pairs (table.records slot)

variable {state query table}

theorem update_outcome {index : Nat} (found : state.db.position query.table_name = some index)
    (here : state.db.table index = some table) :
    ∃ result manager, executeUpdateQuery rt state query =
        (result,{state with db:=state.db.setTable index (updatedTable rt query table).2,manager:=manager}) ∧
      ((∃ rows, result = .ok rows) ↔ (updatedTable rt query table).1 = none) ∧
      ((∃ failure, result = .error failure) ↔ (updatedTable rt query table).1 ≠ none) ∧
      ∀ tx, state.manager.current_tx = some tx → manager = state.manager := by
  cases current : state.manager.current_tx with
  | none =>
    obtain ⟨begun,tx,begins,active,empty,_,alive,_⟩ := autoBegin_idle rt current
    cases failed : (updatedTable rt query table).1 with
    | some failure =>
      refine ⟨.error failure,begun,?_,by simp,by simp,by simp⟩
      unfold updatedTable at failed
      simp only [executeUpdateQuery,found,here,begins,failed]
      rfl
    | none =>
      refine ⟨.ok (counts [("affected_rows",((table.matching rt.semantics query.where_clause).map fun slot =>
        (slot,recordImage table.tdef.record_size (table.records slot))).length)]),
        (begun.commit rt.codecs rt.envs).2,?_,by simp,by simp,by simp⟩
      unfold updatedTable at failed
      simp only [executeUpdateQuery,found,here,begins,failed]
      rw [autoCommit_own,commit_empty rt active alive empty]
      rfl
  | some tx =>
    have begins := autoBegin_active rt current
    cases failed : (updatedTable rt query table).1 with
    | some failure =>
      refine ⟨.error failure,state.manager,?_,by simp,by simp,fun _ _ => rfl⟩
      unfold updatedTable at failed
      simp only [executeUpdateQuery,found,here,begins,failed]
      rfl
    | none =>
      refine ⟨.ok (counts [("affected_rows",((table.matching rt.semantics query.where_clause).map fun slot =>
        (slot,recordImage table.tdef.record_size (table.records slot))).length)]),state.manager,?_,by simp,by simp,
        fun _ _ => rfl⟩
      unfold updatedTable at failed
      simp only [executeUpdateQuery,found,here,begins,failed]
      rfl

theorem updatedTable_effect (query : SqlQuery)
    (sized : ∀ slot, (table.records slot).length = table.tdef.record_size) :
    ((updatedTable rt query table).1 = none ↔
      handled rt query table = table.matching rt.semantics query.where_clause) ∧
    (updatedTable rt query table).2.tdef = table.tdef ∧
    (updatedTable rt query table).2.used = table.used ∧
    ∀ slot, (updatedTable rt query table).2.records slot =
      if slot ∈ handled rt query table then newRow rt query table slot else table.records slot := by
  have copies : (fun slot => recordImage table.tdef.record_size (table.records slot)) = table.records :=
    funext fun slot => image_back sized slot
  have effect := updateRows_effect rt.semantics query.update_pairs
    (fun slot => recordImage table.tdef.record_size (table.records slot))
    (table.matching rt.semantics query.where_clause) table
  rw [copies] at effect
  obtain ⟨finished,tdef,used,records⟩ := effect
  refine ⟨finished,tdef,used,?_⟩
  intro slot
  have stored := records slot
  rw [image_back sized slot] at stored
  exact stored

variable (state query table)

-- The undo of the log makes the same of a row with other bytes.
def Covered (index : Nat) (tx : Transaction) (slot : Nat) (new : Bytes) : Prop :=
  let undo := MemoryTable.undoRows table.tdef.record_size slot
    (tx.log_items.filter fun item => item.header.table_id.toNat = index)
  (undo (table.row slot)).1 = true → undo (table.used slot,new) = undo (table.row slot)

-- What an UPDATE owes: on success every matching row holds the expressions of
-- its old values, no other row changed and the constraints hold; on failure no
-- row changed; inside a transaction the rollback gives the rows it would have
-- given before the statement.
structure Owed (index : Nat) (outcome : Except QueryExecutionError ResultSet × Session) (after : MemoryTable) :
    Prop where
  present : outcome.2.db.table index = some after
  used : after.used = table.used
  succeeds : (∃ rows, outcome.1 = .ok rows) →
    (∀ slot ∈ table.matching rt.semantics query.where_clause,
      ∃ new, assignPairs rt.semantics table.tdef (table.records slot) query.update_pairs (table.records slot) =
          .ok new ∧ after.records slot = recordImage table.tdef.record_size new) ∧
    (∀ slot, slot ∉ table.matching rt.semantics query.where_clause →
      after.records slot = table.records slot) ∧
    Satisfied table.tdef after.used after.records
  fails : (∃ failure, outcome.1 = .error failure) → ∀ slot, after.records slot = table.records slot
  undone : ∀ tx, state.manager.current_tx = some tx →
    ∃ back owed, (outcome.2.manager.rollback outcome.2.db).2.2.table index = some back ∧
      (state.manager.rollback state.db).2.2.table index = some owed ∧ back.used = owed.used ∧
      ∀ slot, owed.used slot = true → back.records slot = owed.records slot

-- When the code meets it, on the rows as they are. With no failing row, the
-- SET list from left to right gives what it gives on the old values, and the
-- new rows break no constraint. In front of a failing row the SET list changes
-- nothing. Inside a transaction it changes only what the undo of the log so far
-- puts back or removes by itself.
structure Harmless (index : Nat) : Prop where
  faithful : handled rt query table = table.matching rt.semantics query.where_clause →
    (∀ slot ∈ table.matching rt.semantics query.where_clause, ∃ new,
      assignPairs rt.semantics table.tdef (table.records slot) query.update_pairs (table.records slot) = .ok new ∧
        newRow rt query table slot = recordImage table.tdef.record_size new) ∧
    Respects table.tdef table.used
      (fun slot => if slot ∈ table.matching rt.semantics query.where_clause then newRow rt query table slot
        else table.records slot)
      (table.matching rt.semantics query.where_clause)
  unspoilt : handled rt query table ≠ table.matching rt.semantics query.where_clause →
    ∀ slot ∈ handled rt query table, newRow rt query table slot = table.records slot
  covered : ∀ tx, state.manager.current_tx = some tx → ∀ slot ∈ handled rt query table,
    Covered table index tx slot (newRow rt query table slot)

variable {state query table}

theorem matching_used {slot : Nat} (member : slot ∈ table.matching rt.semantics query.where_clause) :
    table.used slot = true := by
  have kept := (List.mem_filter.mp member).2
  exact (Bool.and_eq_true_iff.mp kept).1

end Statement

theorem rollback_table {manager : TransactionManager} {tx : Transaction} (db : Database) (index : Nat)
    (active : manager.current_tx = some tx) :
    (manager.rollback db).2.2.table index = (db.table index).map fun held =>
      held.undoAll (tx.log_items.filter fun item => item.header.table_id.toNat = index) := by
  simp only [TransactionManager.rollback,active]
  exact Database.undoAll_table db tx.log_items index

theorem undoAll_agrees {table changed : MemoryTable} (items : List VariableSizeLogItem)
    (tdef : changed.tdef = table.tdef) (used : changed.used = table.used) :
    (changed.undoAll items).used = (table.undoAll items).used ∧
    ∀ slot, ((table.undoAll items).used slot = true →
        (changed.undoAll items).records slot = (table.undoAll items).records slot) ↔
      ((MemoryTable.undoRows table.tdef.record_size slot items (table.row slot)).1 = true →
        MemoryTable.undoRows table.tdef.record_size slot items (table.used slot,changed.records slot) =
          MemoryTable.undoRows table.tdef.record_size slot items (table.row slot)) := by
  have flags (slot : Nat) : (changed.row slot).1 = (table.row slot).1 := congrFun used slot
  have rows (slot : Nat) := (MemoryTable.undoAll_row table items slot).2
  have changedRows (slot : Nat) := (MemoryTable.undoAll_row changed items slot).2
  rw [tdef] at changedRows
  have same (slot : Nat) : (changed.undoAll items).used slot = (table.undoAll items).used slot := by
    have left := congrArg Prod.fst (changedRows slot)
    have right := congrArg Prod.fst (rows slot)
    rw [MemoryTable.undoRows_flag _ _ _ (flags slot)] at left
    exact left.trans right.symm
  refine ⟨funext same,?_⟩
  intro slot
  have changedRow : changed.row slot = (table.used slot,changed.records slot) := by
    rw [MemoryTable.row,used]
  rw [← rows slot,← changedRow,← changedRows slot,MemoryTable.row,MemoryTable.row,same slot]
  simp only [Prod.mk.injEq,true_and]

section Parts
variable (rt : Runtime) {state : Session} {query : SqlQuery} {table : MemoryTable}

theorem updatedTable_whole (sized : ∀ slot, (table.records slot).length = table.tdef.record_size)
    (all : handled rt query table = table.matching rt.semantics query.where_clause) :
    (updatedTable rt query table).2.records = fun slot =>
      if slot ∈ table.matching rt.semantics query.where_clause then newRow rt query table slot
      else table.records slot := by
  obtain ⟨_,_,_,records⟩ := updatedTable_effect rt query sized
  funext slot
  rw [records slot,all]

theorem updatedTable_kept_iff (sized : ∀ slot, (table.records slot).length = table.tdef.record_size) :
    (∀ slot, (updatedTable rt query table).2.records slot = table.records slot) ↔
      ∀ slot ∈ handled rt query table, newRow rt query table slot = table.records slot := by
  obtain ⟨_,_,_,records⟩ := updatedTable_effect rt query sized
  constructor
  · intro kept slot member
    have unchanged := kept slot
    rw [records slot,if_pos member] at unchanged
    exact unchanged
  · intro kept slot
    rw [records slot]
    split
    · exact kept slot ‹_›
    · rfl

theorem updatedTable_undone_iff (sized : ∀ slot, (table.records slot).length = table.tdef.record_size)
    (index : Nat) (tx : Transaction) :
    (∀ slot, (table.undoAll (tx.log_items.filter fun item => item.header.table_id.toNat = index)).used slot = true →
      ((updatedTable rt query table).2.undoAll
        (tx.log_items.filter fun item => item.header.table_id.toNat = index)).records slot =
      (table.undoAll (tx.log_items.filter fun item => item.header.table_id.toNat = index)).records slot) ↔
    ∀ slot ∈ handled rt query table, Covered table index tx slot (newRow rt query table slot) := by
  obtain ⟨_,tdef,used,records⟩ := updatedTable_effect rt query sized
  obtain ⟨_,agrees⟩ := undoAll_agrees
    (tx.log_items.filter fun item => item.header.table_id.toNat = index) tdef used
  constructor
  · intro undone slot member
    have row := (agrees slot).mp (undone slot)
    rw [records slot,if_pos member] at row
    exact row
  · intro covered slot
    refine (agrees slot).mpr ?_
    rw [records slot]
    split
    · exact covered slot ‹_›
    · exact fun _ => rfl

end Parts

-- What the statement writes is checked nowhere, seen by later pairs of the same
-- row, kept on failure and known to no log.
theorem update_owed_iff (rt : Runtime) (state : Session) (query : SqlQuery) (index : Nat) (table : MemoryTable)
    (found : state.db.position query.table_name = some index) (here : state.db.table index = some table)
    (sized : ∀ slot, (table.records slot).length = table.tdef.record_size)
    (satisfied : Satisfied table.tdef table.used table.records) :
    (∃ after, Owed rt state query table index (executeUpdateQuery rt state query) after) ↔
      Harmless rt state query table index := by
  obtain ⟨result,manager,executed,succeeded,failed,inside⟩ := update_outcome rt found here
  obtain ⟨finished,tdef,used,_⟩ := updatedTable_effect rt query sized
  have present := Database.table_set_same here (updatedTable rt query table).2
  have undoneTable (tx : Transaction) (active : state.manager.current_tx = some tx) :
      (manager.rollback (state.db.setTable index (updatedTable rt query table).2)).2.2.table index =
        some ((updatedTable rt query table).2.undoAll
          (tx.log_items.filter fun item => item.header.table_id.toNat = index)) := by
    rw [inside tx active,rollback_table _ index active,present]
    rfl
  have owedTable (tx : Transaction) (active : state.manager.current_tx = some tx) :
      (state.manager.rollback state.db).2.2.table index =
        some (table.undoAll (tx.log_items.filter fun item => item.header.table_id.toNat = index)) := by
    rw [rollback_table _ index active,here]
    rfl
  have valid := @satisfied_iff table.tdef table.used table.records
    (fun slot => if slot ∈ table.matching rt.semantics query.where_clause then newRow rt query table slot
      else table.records slot)
    (table.matching rt.semantics query.where_clause) satisfied (fun slot member => matching_used rt member)
    (fun slot absent => if_neg absent)
  rw [executed]
  constructor
  · rintro ⟨after,owed⟩
    obtain rfl : (updatedTable rt query table).2 = after := Option.some.inj (present.symm.trans owed.present)
    refine ⟨?_,?_,?_⟩
    · intro all
      obtain ⟨values,_,holds⟩ := owed.succeeds (succeeded.mpr (finished.mpr all))
      rw [owed.used,updatedTable_whole rt sized all] at holds
      refine ⟨?_,valid.mp holds⟩
      intro slot member
      obtain ⟨new,evaluated,stored⟩ := values slot member
      rw [updatedTable_whole rt sized all] at stored
      exact ⟨new,evaluated,(if_pos member).symm.trans stored⟩
    · intro short
      exact (updatedTable_kept_iff rt sized).mp
        (owed.fails (failed.mpr fun none => short (finished.mp none)))
    · intro tx active
      obtain ⟨back,owing,there,before,_,same⟩ := owed.undone tx active
      obtain rfl : _ = back := Option.some.inj ((undoneTable tx active).symm.trans there)
      obtain rfl : _ = owing := Option.some.inj ((owedTable tx active).symm.trans before)
      exact (updatedTable_undone_iff rt sized index tx).mp same
  · intro harmless
    refine ⟨(updatedTable rt query table).2,present,used,?_,?_,?_⟩
    · intro good
      have all := finished.mp (succeeded.mp good)
      obtain ⟨values,respects⟩ := harmless.faithful all
      rw [used,updatedTable_whole rt sized all]
      refine ⟨?_,fun slot absent => if_neg absent,valid.mpr respects⟩
      intro slot member
      obtain ⟨new,evaluated,stored⟩ := values slot member
      exact ⟨new,evaluated,(if_pos member).trans stored⟩
    · intro bad
      exact (updatedTable_kept_iff rt sized).mpr
        (harmless.unspoilt fun all => failed.mp bad (finished.mpr all))
    · intro tx active
      refine ⟨_,_,undoneTable tx active,owedTable tx active,(undoAll_agrees _ tdef used).1,?_⟩
      exact (updatedTable_undone_iff rt sized index tx).mpr (harmless.covered tx active)

def numberField (name : String) (offset : Nat) : FieldDef :=
  ⟨name,.int64,8,none,offset,false,false,false,false,none⟩
def numbersDef : TableDef := ⟨1,"numbers",[numberField "a" 0,numberField "b" 8],[],16,2⟩
def numbersRow (a b : Nat) : Bytes := toLE 8 a ++ toLE 8 b
def numbersTable : MemoryTable :=
  ⟨numbersDef,assign (fun _ => numbersRow 0 0) 0 (numbersRow 1 2),
    assign (fun _ => ⟨.free,0,0,0,0⟩) 0 ⟨.used,1,0,0,0⟩,1,[1],false,none,0⟩
def numbersSession : Session := ⟨⟨[none,some numbersTable]⟩,[],MemoryTable.noTx⟩
def setNumbers (pairs : List (String × Expression)) : SqlQuery := ⟨.update,"numbers",none,[],[],pairs,false⟩

theorem numbers_satisfied (used : Nat → Bool) (records : Nat → Bytes) : Satisfied numbersDef used records := by
  refine ⟨?_,?_,?_⟩
  · intro _ _ field member required
    simp only [numbersDef,List.mem_cons,List.not_mem_nil,or_false] at member
    rcases member with rfl | rfl <;> cases required
  · intro _ _ _ _ _ keyed
    exact absurd rfl keyed
  · intro _ _ _ _ _ field member required
    simp only [numbersDef,List.mem_cons,List.not_mem_nil,or_false] at member
    rcases member with rfl | rfl <;> cases required

theorem numbers_sized (slot : Nat) : (numbersTable.records slot).length = numbersTable.tdef.record_size := by
  by_cases equal : slot = 0
  · subst slot
    decide
  · simp [numbersTable,numbersDef,numbersRow,equal]

def copyNumber : SqlQuery := setNumbers [("a",.field "b")]

theorem one_pair_owed :
    (executeUpdateQuery plainRuntime numbersSession copyNumber).1 = .ok (counts [("affected_rows",1)]) ∧
      ∃ after, Owed plainRuntime numbersSession copyNumber numbersTable 1
        (executeUpdateQuery plainRuntime numbersSession copyNumber) after := by
  have slots : numbersTable.matching plainRuntime.semantics copyNumber.where_clause = [0] := by decide +kernel
  have done : handled plainRuntime copyNumber numbersTable = [0] := by decide +kernel
  refine ⟨by decide +kernel,?_⟩
  refine (update_owed_iff plainRuntime numbersSession copyNumber 1 numbersTable (by decide +kernel) rfl numbers_sized
    (numbers_satisfied _ _)).mpr ⟨?_,?_,?_⟩
  · rw [slots]
    refine fun _ => ⟨?_,?_⟩
    · intro slot member
      obtain rfl : slot = 0 := by simpa using member
      have independent : Independent plainRuntime.semantics numbersTable.tdef (numbersTable.records 0)
          copyNumber.update_pairs (numbersTable.records 0) := fun _ _ => ⟨rfl,fun _ _ => trivial⟩
      refine ⟨numbersRow 2 2,by decide +kernel,?_⟩
      rw [newRow,rowAfter,independent_agrees _ _ _ _ _ independent]
      decide +kernel
    · refine (satisfied_iff (numbers_satisfied _ numbersTable.records) ?_ ?_).mp (numbers_satisfied _ _)
      · intro slot member
        obtain rfl : slot = 0 := by simpa using member
        decide
      · intro slot absent
        exact if_neg absent
  · rw [slots,done]
    exact fun wrong => absurd rfl wrong
  · intro tx wrong
    cases wrong

def swapNumbers : SqlQuery := setNumbers [("a",.field "b"),("b",.field "a")]

theorem swap_not_owed :
    Satisfied numbersTable.tdef numbersTable.used numbersTable.records ∧
      (executeUpdateQuery plainRuntime numbersSession swapNumbers).1 = .ok (counts [("affected_rows",1)]) ∧
      assignPairs integerSemantics numbersDef (numbersRow 1 2) swapNumbers.update_pairs (numbersRow 1 2) =
        .ok (numbersRow 2 1) ∧
      ((executeUpdateQuery plainRuntime numbersSession swapNumbers).2.db.table 1).map (·.records 0) =
        some (numbersRow 2 2) ∧
      ¬∃ after, Owed plainRuntime numbersSession swapNumbers numbersTable 1
        (executeUpdateQuery plainRuntime numbersSession swapNumbers) after := by
  have succeeded : (executeUpdateQuery plainRuntime numbersSession swapNumbers).1 =
      .ok (counts [("affected_rows",1)]) := by decide +kernel
  have meant : assignPairs integerSemantics numbersDef (numbersRow 1 2) swapNumbers.update_pairs
      (numbersRow 1 2) = .ok (numbersRow 2 1) := by decide +kernel
  have stored : ((executeUpdateQuery plainRuntime numbersSession swapNumbers).2.db.table 1).map (·.records 0) =
      some (numbersRow 2 2) := by decide +kernel
  refine ⟨numbers_satisfied _ _,succeeded,meant,stored,?_⟩
  rintro ⟨after,owed⟩
  obtain ⟨new,evaluated,written⟩ := (owed.succeeds ⟨_,succeeded⟩).1 0 (by decide +kernel)
  rw [owed.present] at stored
  have actual : after.records 0 = numbersRow 2 2 := Option.some.inj stored
  obtain rfl : numbersRow 2 1 = new := Except.ok.inj (meant.symm.trans evaluated)
  rw [actual] at written
  exact absurd written (by decide)

end RemDb
