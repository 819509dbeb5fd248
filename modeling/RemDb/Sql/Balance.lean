import Mathlib.Data.List.TakeWhile
import RemDb.Sql.Update

namespace RemDb
open RemDb.Lib RemDb.Wal

-- The pointer the manager keeps, as the address of the caller's buffer.
def TransactionManager.buffer (manager : TransactionManager) : Option Nat := manager.current_tx.map (·.addr)

section Buffer
variable {manager : TransactionManager}

theorem buffer_none : manager.buffer = none ↔ manager.current_tx = none := by
  simp [TransactionManager.buffer]

theorem log_buffer (operation : LogOperation) (table : UInt8) (record : UInt16) (now : UInt64) (old new : Bytes) :
    (manager.log operation table record now old new).buffer = manager.buffer := by
  unfold TransactionManager.buffer TransactionManager.log
  cases manager.current_tx with
  | none => rfl
  | some tx =>
    simp only [Option.map_some,Transaction.beginLogItem]
    split <;> rfl

theorem aside_buffer (aside : Aside) : (aside.session manager).manager.buffer = manager.buffer := by
  have asked (items : List LogRequest) (start : TransactionManager) :
      (items.foldl (fun manager item => manager.log item.operation item.table item.record item.now item.old
        item.new) start).buffer = start.buffer := by
    induction items generalizing start with
    | nil => rfl
    | cons item rest ih => exact (ih _).trans (log_buffer _ _ _ _ _ _)
  exact asked aside.logged _

theorem insert_buffer (table : MemoryTable) (now : UInt64) (data : Bytes) :
    (table.insert manager now data).2.2.buffer = manager.buffer := by
  obtain ⟨failure,same⟩ | ⟨slot,image,logged,result,_,loggedEq,same,_⟩ := table.insert_cases manager now data
  · rw [same]
  · rw [same,loggedEq]
    exact log_buffer _ _ _ _ _ _

theorem delete_buffer (table : MemoryTable) (now : UInt64) (slot : Nat) :
    (table.delete manager now slot).2.2.buffer = manager.buffer := by
  obtain same | ⟨_,_,same⟩ := table.delete_cases manager now slot
  · rw [same]
  · rw [same]
    exact log_buffer _ _ _ _ _ _

theorem insertRows_buffer (rt : Runtime) (query : SqlQuery) (todo : List (List SqlValue × Nat)) (slots : List Nat)
    (table : MemoryTable) : (insertRows rt query todo slots table manager).manager.buffer = manager.buffer := by
  induction todo generalizing slots table manager with
  | nil => rfl
  | cons entry rest ih =>
    obtain ⟨values,row⟩ := entry
    have kept := @insert_buffer manager {table with max_pk:=(rowRecord rt.semantics table query values).max_pk}
      (rt.clock row) (rowRecord rt.semantics table query values).record
    unfold insertRows
    dsimp only
    split
    · rfl
    · split
      · rename_i same
        rw [same] at kept
        exact (ih _ _).trans kept
      · rename_i same
        rw [same] at kept
        split
        · exact kept
        · exact (ih _ _).trans kept

theorem deleteRows_buffer (rt : Runtime) (todo : List (Nat × Nat)) (deleted : Nat) (table : MemoryTable) :
    (deleteRows rt todo deleted table manager).2.2.buffer = manager.buffer := by
  induction todo generalizing deleted table manager with
  | nil => rfl
  | cons entry rest ih =>
    obtain ⟨slot,row⟩ := entry
    have kept := @delete_buffer manager table (rt.clock row) slot
    unfold deleteRows
    split
    · rename_i same
      rw [same] at kept
      exact (ih _ _).trans kept
    · rename_i same
      rw [same] at kept
      exact (ih _ _).trans kept

end Buffer

section Ends
variable {rt : Runtime} {state : Session} {before : TransactionManager} {began : Bool}

-- What `autoBegin` did to the manager: nothing, or its own buffer.
def Opened (rt : Runtime) (before after : TransactionManager) (began : Bool) : Prop :=
  (began = false ∧ before.buffer ≠ none ∧ after.buffer = before.buffer) ∨
    (began = true ∧ before.buffer = none ∧ after.buffer = some rt.localBuffer)

theorem autoBegin_opened (rt : Runtime) (before : TransactionManager) :
    ∃ began after, autoBegin rt before = (.ok began,after) ∧ Opened rt before after began := by
  cases current : before.current_tx with
  | none =>
    obtain ⟨begun,tx,begins,active,_,_,_,here⟩ := autoBegin_idle rt current
    refine ⟨true,begun,begins,.inr ⟨rfl,buffer_none.mpr current,?_⟩⟩
    rw [TransactionManager.buffer,active,← here]
    rfl
  | some tx =>
    refine ⟨false,before,autoBegin_active rt current,.inl ⟨rfl,?_,rfl⟩⟩
    rw [TransactionManager.buffer,current]
    exact Option.some_ne_none _

theorem autoRollback_buffer (failure : QueryExecutionError) (opened : Opened rt before state.manager began) :
    (autoRollback state began failure).2.manager.buffer = before.buffer := by
  obtain ⟨rfl,_,same⟩ | ⟨rfl,idle,taken⟩ := opened
  · exact same
  · obtain ⟨tx,active,_⟩ := Option.map_eq_some_iff.mp taken
    rw [autoRollback_active active,idle]
    rfl

theorem autoCommit_buffer (result : ResultSet) (opened : Opened rt before state.manager began) :
    (autoCommit rt state began result).2.manager.buffer = before.buffer := by
  obtain ⟨rfl,_,same⟩ | ⟨rfl,idle,taken⟩ := opened
  · exact same
  · obtain ⟨tx,active,_⟩ := Option.map_eq_some_iff.mp taken
    rw [autoCommit_own,idle]
    simp only [TransactionManager.commit,active]
    rfl

end Ends

section Executors
variable (rt : Runtime) (state : Session) (query : SqlQuery)

theorem executeInsertQuery_buffer (ordinary : (state.seriesPosition query.table_name).isSome = false) :
    (executeInsertQuery rt state query).2.manager.buffer = state.manager.buffer := by
  obtain ⟨began,manager,begins,opened⟩ := autoBegin_opened rt state.manager
  unfold executeInsertQuery
  rw [if_neg (by simp [ordinary])]
  split
  · rfl
  · split
    · rfl
    · rename_i index _ table _
      split
      · rw [begins]
        dsimp only
        have rows := @insertRows_buffer manager rt query query.values.zipIdx [] table
        have still_opened : Opened rt state.manager
            (insertRows rt query query.values.zipIdx [] table manager).manager began := by
          unfold Opened
          rw [rows]
          exact opened
        split
        · exact autoRollback_buffer _ still_opened
        · exact autoCommit_buffer _ still_opened
      · rfl

theorem executeDeleteQuery_buffer :
    (executeDeleteQuery rt state query).2.manager.buffer = state.manager.buffer := by
  obtain ⟨began,manager,begins,opened⟩ := autoBegin_opened rt state.manager
  unfold executeDeleteQuery
  split
  · rfl
  · split
    · rfl
    · rename_i index _ table _
      rw [begins]
      dsimp only
      have rows := @deleteRows_buffer manager rt (table.matching rt.semantics query.where_clause).zipIdx 0 table
      apply autoCommit_buffer
      unfold Opened
      rw [rows]
      exact opened

theorem executeInsertTimeseriesQuery_buffer (series : (state.seriesPosition query.table_name).isSome = true) :
    ∃ began manager, Opened rt state.manager manager began ∧
      (executeInsertTimeseriesQuery rt state query).2.manager.buffer = manager.buffer := by
  obtain ⟨began,manager,begins,opened⟩ := autoBegin_opened rt state.manager
  obtain ⟨place,found⟩ := Option.isSome_iff_exists.mp series
  have present : ∃ table, (state.time_series_tables[place]?).join = some table := by
    obtain ⟨inside,holds,_⟩ := List.findIdx?_eq_some_iff_getElem.mp found
    rw [List.getElem?_eq_getElem inside]
    cases held : state.time_series_tables[place] with
    | none => simp [held] at holds
    | some table => exact ⟨table,rfl⟩
  obtain ⟨table,here⟩ := present
  refine ⟨began,manager,opened,?_⟩
  unfold executeInsertTimeseriesQuery
  simp only [found,here,begins]
  split <;> rfl

theorem executeUpdateQuery_buffer {index : Nat} {table : MemoryTable}
    (found : state.db.position query.table_name = some index) (here : state.db.table index = some table) :
    ∃ began manager, Opened rt state.manager manager began ∧
      ((updatedTable rt query table).1 = none →
        (executeUpdateQuery rt state query).2.manager.buffer = state.manager.buffer) ∧
      ((updatedTable rt query table).1 ≠ none →
        (executeUpdateQuery rt state query).2.manager.buffer = manager.buffer) := by
  obtain ⟨began,manager,begins,opened⟩ := autoBegin_opened rt state.manager
  refine ⟨began,manager,opened,?_,?_⟩
  · intro finished
    unfold updatedTable at finished
    simp only [executeUpdateQuery,found,here,begins,finished]
    exact autoCommit_buffer _ opened
  · intro failed
    obtain ⟨failure,stopped⟩ := Option.ne_none_iff_exists'.mp failed
    unfold updatedTable at stopped
    simp only [executeUpdateQuery,found,here,begins,stopped]

end Executors

-- The statement opens a transaction and has an exit that forgets it: an INSERT
-- into a series, or an UPDATE with a matching row on which its SET list fails.
def Leaks (rt : Runtime) (state : Session) (query : SqlQuery) : Prop :=
  state.manager.current_tx = none ∧ rt.permitted state query = true ∧
    ((query.query_type = .insert ∧ (state.seriesPosition query.table_name).isSome = true) ∨
      (query.query_type = .update ∧ ∃ index table, state.db.position query.table_name = some index ∧
        state.db.table index = some table ∧ ∃ slot ∈ table.matching rt.semantics query.where_clause,
          rowFits rt.semantics table.tdef query.update_pairs
            (recordImage table.tdef.record_size (table.records slot)) = false))

theorem opened_iff {rt : Runtime} {before after : TransactionManager} (opened : Opened rt before after began) :
    after.buffer = before.buffer ↔ before.current_tx ≠ none := by
  obtain ⟨rfl,busy,same⟩ | ⟨rfl,idle,taken⟩ := opened
  · exact iff_of_true same fun none => busy (buffer_none.mpr none)
  · rw [idle,taken]
    simp [buffer_none.mp idle]

theorem updatedTable_fails (rt : Runtime) (query : SqlQuery) (table : MemoryTable) :
    (updatedTable rt query table).1 ≠ none ↔ ∃ slot ∈ table.matching rt.semantics query.where_clause,
      rowFits rt.semantics table.tdef query.update_pairs
        (recordImage table.tdef.record_size (table.records slot)) = false := by
  have finished := (updateRows_effect rt.semantics query.update_pairs
    (fun slot => recordImage table.tdef.record_size (table.records slot))
    (table.matching rt.semantics query.where_clause) table).1
  have all : (updatedTable rt query table).1 = none ↔ _ := finished
  rw [Ne,all,reached,List.takeWhile_eq_self_iff]
  simp

section Balance
variable {rt : Runtime} {state : Session} {query : SqlQuery}

theorem insert_balanced_iff (kind : query.query_type = .insert) (allowed : rt.permitted state query = true) :
    (executeInsertQuery rt state query).2.manager.buffer = state.manager.buffer ↔ ¬Leaks rt state query := by
  cases series : (state.seriesPosition query.table_name).isSome with
  | false =>
    refine iff_of_true (executeInsertQuery_buffer rt state query series) ?_
    rintro ⟨_,_,⟨_,wrong⟩ | ⟨wrong,_⟩⟩
    · rw [series] at wrong
      cases wrong
    · rw [kind] at wrong
      cases wrong
  | true =>
    obtain ⟨began,manager,opened,kept⟩ := executeInsertTimeseriesQuery_buffer rt state query series
    have path : executeInsertQuery rt state query = executeInsertTimeseriesQuery rt state query := by
      unfold executeInsertQuery
      exact if_pos series
    rw [path,kept,opened_iff opened]
    constructor
    · intro busy leaks
      exact busy leaks.1
    · intro safe idle
      exact safe ⟨idle,allowed,.inl ⟨kind,series⟩⟩

theorem update_balanced_iff (kind : query.query_type = .update) (allowed : rt.permitted state query = true) :
    (executeUpdateQuery rt state query).2.manager.buffer = state.manager.buffer ↔ ¬Leaks rt state query := by
  have elsewhere (same : (executeUpdateQuery rt state query).2 = state)
      (missing : ∀ index table, state.db.position query.table_name = some index →
        state.db.table index ≠ some table) :
      (executeUpdateQuery rt state query).2.manager.buffer = state.manager.buffer ↔ ¬Leaks rt state query := by
    rw [same]
    refine iff_of_true rfl ?_
    rintro ⟨_,_,⟨wrong,_⟩ | ⟨_,index,table,found,here,_⟩⟩
    · rw [kind] at wrong
      cases wrong
    · exact missing index table found here
  cases found : state.db.position query.table_name with
  | none =>
    refine elsewhere (by simp only [executeUpdateQuery,found]) ?_
    intro index table other
    rw [found] at other
    cases other
  | some index =>
    cases here : state.db.table index with
    | none =>
      refine elsewhere (by simp only [executeUpdateQuery,found,here]) ?_
      intro other table same
      obtain rfl : index = other := Option.some.inj (found.symm.trans same)
      rw [here]
      exact (Option.some_ne_none table).symm
    | some table =>
      obtain ⟨began,manager,opened,balanced,leaking⟩ := executeUpdateQuery_buffer rt state query found here
      by_cases failed : (updatedTable rt query table).1 = none
      · refine iff_of_true (balanced failed) ?_
        rintro ⟨_,_,⟨wrong,_⟩ | ⟨_,other,held,same,there,fails⟩⟩
        · rw [kind] at wrong
          cases wrong
        · obtain rfl : index = other := Option.some.inj (found.symm.trans same)
          obtain rfl : table = held := Option.some.inj (here.symm.trans there)
          exact (updatedTable_fails rt query table).mpr fails failed
      · rw [leaking failed,opened_iff opened]
        constructor
        · intro busy leaks
          exact busy leaks.1
        · intro safe idle
          exact safe ⟨idle,allowed,.inr ⟨kind,index,table,found,here,(updatedTable_fails rt query table).mp failed⟩⟩

end Balance

-- A statement leaves the transaction of the manager as it found it, and the
-- next one can open its own, unless it is one of the two that leak.
theorem statement_balanced_iff (rt : Runtime) (state : Session) (query : SqlQuery)
    (plain : query.query_type ≠ .beginTransaction ∧ query.query_type ≠ .commit ∧ query.query_type ≠ .rollback) :
    ((executeQuery rt state query).2.manager.buffer = state.manager.buffer ∧
      (state.manager.current_tx = none → (autoBegin rt (executeQuery rt state query).2.manager).1 = .ok true)) ↔
      ¬Leaks rt state query := by
  have next (same : (executeQuery rt state query).2.manager.buffer = state.manager.buffer)
      (idle : state.manager.current_tx = none) :
      (autoBegin rt (executeQuery rt state query).2.manager).1 = .ok true := by
    rw [buffer_none.mpr idle] at same
    obtain ⟨begun,_,begins,_⟩ := autoBegin_idle rt (buffer_none.mp same)
    rw [begins]
  have refused (unpermitted : ¬rt.permitted state query = true) : ¬Leaks rt state query :=
    fun leaks => unpermitted leaks.2.1
  have harmless (first : query.query_type ≠ .insert) (second : query.query_type ≠ .update) :
      ¬Leaks rt state query := by
    rintro ⟨_,_,⟨wrong,_⟩ | ⟨wrong,_⟩⟩
    · exact first wrong
    · exact second wrong
  have balanced : (executeQuery rt state query).2.manager.buffer = state.manager.buffer ↔ ¬Leaks rt state query := by
    unfold executeQuery
    split
    · rename_i kind
      split
      · exact insert_balanced_iff kind ‹_›
      · exact iff_of_true rfl (refused ‹_›)
    · rename_i kind
      split
      · exact update_balanced_iff kind ‹_›
      · exact iff_of_true rfl (refused ‹_›)
    · rename_i kind
      have safe := harmless (by rw [kind]; decide) (by rw [kind]; decide)
      split
      · exact iff_of_true (executeDeleteQuery_buffer rt state query) safe
      · exact iff_of_true rfl safe
    · exact absurd ‹_› plain.1
    · exact absurd ‹_› plain.2.1
    · exact absurd ‹_› plain.2.2
    · rename_i notInsert notUpdate _ _ _ _
      exact iff_of_true (aside_buffer _) (harmless notInsert notUpdate)
  constructor
  · intro both
    exact balanced.mp both.1
  · intro safe
    exact ⟨balanced.mpr safe,next (balanced.mpr safe)⟩

theorem failed_insert_balanced :
    (executeQuery plainRuntime keySession (insertKeys [1,2,2])).1 = .error .constraintsConflicts ∧
      (executeQuery plainRuntime keySession (insertKeys [1,2,2])).2.manager.buffer = none := by
  refine ⟨by decide +kernel,?_⟩
  refine ((statement_balanced_iff plainRuntime keySession (insertKeys [1,2,2]) (by decide)).mpr ?_).1
  rintro ⟨_,_,⟨_,wrong⟩ | ⟨wrong,_⟩⟩
  · exact absurd wrong (by decide +kernel)
  · cases wrong

def timesField (name : String) (type : DataType) (offset : Nat) : FieldDef :=
  ⟨name,type,8,none,offset,false,false,false,false,none⟩
def timesTable : TimeSeriesTable :=
  ⟨⟨1,"times",[timesField "at" .uint64 0,timesField "value" .float64 8],[],16,4⟩,0,1,[],60,4,[],[]⟩
def timesSession : Session := ⟨⟨[]⟩,[some timesTable],MemoryTable.noTx⟩
def insertTime : SqlQuery := ⟨.insert,"times",none,[],[[.integer 7,.float 0]],[],false⟩

-- One row into a series: the statement succeeds, the manager keeps pointing to
-- its local buffer, and the next statement takes this for an active transaction.
theorem series_insert_leaks :
    (executeQuery plainRuntime timesSession insertTime).1.toOption.isSome = true ∧
      timesSession.manager.buffer = none ∧
      (executeQuery plainRuntime timesSession insertTime).2.manager.buffer = some plainRuntime.localBuffer ∧
      (autoBegin plainRuntime (executeQuery plainRuntime timesSession insertTime).2.manager).1 = .ok false := by
  refine ⟨by decide +kernel,by decide +kernel,by decide +kernel,by decide +kernel⟩

end RemDb
