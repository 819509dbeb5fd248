import RemDb.Sql.Select
import Mathlib.Algebra.Order.BigOperators.Group.List

namespace RemDb
open RemDb.Lib

section Rows
variable {evaluator : Evaluator} {tdef : TableDef} {columns : List SelectColumn} {query : SelectQuery}

def Evaluator.rowOf (evaluator : Evaluator) (tdef : TableDef) (columns : List SelectColumn) (record : RecordValues) :
    RecordValues × ResultRow :=
  match evaluator.selectRow tdef columns record with
  | .ok row => row
  | .error _ => (record,[])

def SelectQuery.takes (query : SelectQuery) (evaluator : Evaluator) (tdef : TableDef) (columns : List SelectColumn)
    (record : RecordValues) : Bool :=
  query.selects evaluator tdef columns (evaluator.rowOf tdef columns record)

theorem selectRows_of_ok {records : List RecordValues} {rows : List (RecordValues × ResultRow)}
    (done : records.mapM (evaluator.selectRow tdef columns) = .ok rows) :
    rows = records.map (evaluator.rowOf tdef columns) ∧
      ∀ record ∈ records, evaluator.selectRow tdef columns record = .ok (evaluator.rowOf tdef columns record) := by
  induction records generalizing rows with
  | nil =>
    cases done
    exact ⟨rfl,fun record member => absurd member List.not_mem_nil⟩
  | cons first rest ih =>
    rw [List.mapM_cons] at done
    cases one : evaluator.selectRow tdef columns first with
    | error failure =>
      rw [one] at done
      cases done
    | ok row =>
      rw [one] at done
      cases others : rest.mapM (evaluator.selectRow tdef columns) with
      | error failure =>
        rw [others] at done
        cases done
      | ok more =>
        rw [others] at done
        cases done
        have here : evaluator.rowOf tdef columns first = row := by
          rw [Evaluator.rowOf,one]
        obtain ⟨same,each⟩ := ih others
        refine ⟨?_,?_⟩
        · rw [List.map_cons,here,← same]
        · intro record member
          rcases List.mem_cons.mp member with rfl | member
          · rw [one,here]
          · exact each record member

theorem selectRows_ok {records : List RecordValues}
    (each : ∀ record ∈ records, evaluator.selectRow tdef columns record = .ok (evaluator.rowOf tdef columns record)) :
    records.mapM (evaluator.selectRow tdef columns) = .ok (records.map (evaluator.rowOf tdef columns)) := by
  induction records with
  | nil => rfl
  | cons first rest ih =>
    rw [List.mapM_cons,each first List.mem_cons_self,ih fun record member => each record (List.mem_cons_of_mem _ member)]
    rfl

theorem rows_filter (records : List RecordValues) :
    (records.map (evaluator.rowOf tdef columns)).filter (query.selects evaluator tdef columns) =
      (records.filter (query.takes evaluator tdef columns)).map (evaluator.rowOf tdef columns) := by
  rw [List.filter_map]
  rfl

end Rows

section From
variable {arithmetic : Arithmetic} {evaluator : Evaluator} {tdef : TableDef} {columns : List SelectColumn}
  {query : SelectQuery}

theorem selectFrom_of_ok {records : List RecordValues} {rows : List ResultRow}
    (done : selectFrom arithmetic evaluator tdef query columns records = some (.ok rows)) :
    evaluator.checkMemoryLimit records = .ok () ∧
      (∀ record ∈ records, evaluator.selectRow tdef columns record = .ok (evaluator.rowOf tdef columns record)) ∧
      sortAndFinish arithmetic evaluator tdef query columns
        ((records.filter (query.takes evaluator tdef columns)).map (evaluator.rowOf tdef columns)) = some (.ok rows) := by
  unfold selectFrom at done
  cases memory : evaluator.checkMemoryLimit records with
  | error failure =>
    rw [memory] at done
    cases done
  | ok checked =>
    rw [memory] at done
    simp only at done
    cases computed : records.mapM (evaluator.selectRow tdef columns) with
    | error failure =>
      rw [computed] at done
      cases done
    | ok all =>
      rw [computed] at done
      obtain ⟨same,each⟩ := selectRows_of_ok computed
      subst same
      refine ⟨rfl,each,?_⟩
      rw [← rows_filter]
      exact done

theorem selectFrom_ok {records : List RecordValues} (memory : evaluator.checkMemoryLimit records = .ok ())
    (each : ∀ record ∈ records, evaluator.selectRow tdef columns record = .ok (evaluator.rowOf tdef columns record)) :
    selectFrom arithmetic evaluator tdef query columns records = sortAndFinish arithmetic evaluator tdef query columns
      ((records.filter (query.takes evaluator tdef columns)).map (evaluator.rowOf tdef columns)) := by
  unfold selectFrom
  rw [memory,selectRows_ok each]
  simp only
  rw [rows_filter]

theorem memory_sublist {fewer records : List RecordValues} (sublist : fewer.Sublist records)
    (enough : evaluator.checkMemoryLimit records = .ok ()) : evaluator.checkMemoryLimit fewer = .ok () := by
  unfold Evaluator.checkMemoryLimit at enough ⊢
  simp only at enough ⊢
  split at enough
  · cases enough
  · rename_i small
    have less : (fewer.map List.length).sum ≤ (records.map List.length).sum :=
      (sublist.map List.length).sum_le_sum fun _ _ => Nat.zero_le _
    rw [if_neg]
    exact fun big => small (Nat.lt_of_lt_of_le big (Nat.mul_le_mul_right _ less))

end From

-- One element of a list and what a partial function makes of the others.
section Alone
variable {α β : Type} {values : List α} {value : α} {f : α → Option β}

theorem filterMap_alone (once : values.Nodup) (member : value ∈ values)
    (others : ∀ other ∈ values, other ≠ value → f other = none) : values.filterMap f = [value].filterMap f := by
  obtain ⟨front,back,rfl⟩ := List.append_of_mem member
  have apart := (List.nodup_middle.mp once)
  have nothing : ∀ other ∈ front ++ back, f other = none := by
    intro other among
    have different : other ≠ value := fun same => (List.nodup_cons.mp apart).1 (same ▸ among)
    refine others other ?_ different
    rcases List.mem_append.mp among with among | among
    · exact List.mem_append_left _ among
    · exact List.mem_append_right _ (List.mem_cons_of_mem _ among)
  have empty_front : front.filterMap f = [] :=
    List.filterMap_eq_nil_iff.mpr fun other among => nothing other (List.mem_append_left _ among)
  have empty_back : back.filterMap f = [] :=
    List.filterMap_eq_nil_iff.mpr fun other among => nothing other (List.mem_append_right _ among)
  rw [List.filterMap_append,empty_front,List.nil_append,← List.singleton_append,List.filterMap_append,empty_back,
    List.append_nil]

theorem alone_of_length (member : value ∈ values)
    (short : (values.filterMap f).length = ([value].filterMap f).length) :
    ∀ other ∈ values, f other ≠ none → other = value := by
  obtain ⟨front,back,rfl⟩ := List.append_of_mem member
  rw [List.filterMap_append,← List.singleton_append,List.filterMap_append,List.length_append,List.length_append] at short
  have empty_front : front.filterMap f = [] := List.length_eq_zero_iff.mp (by omega)
  have empty_back : back.filterMap f = [] := List.length_eq_zero_iff.mp (by omega)
  intro other among present
  rcases List.mem_append.mp among with among | among
  · exact absurd (List.filterMap_eq_nil_iff.mp empty_front other among) present
  · rcases List.mem_cons.mp among with same | among
    · exact same
    · exact absurd (List.filterMap_eq_nil_iff.mp empty_back other among) present

end Alone

-- The literal that stands for the value of a column.
def TypedValue.literal (value : TypedValue) : Option SqlValue :=
  match value.value_type with
  | .uint8 | .uint16 | .uint32 | .uint64 => some (.integer (Int64.ofNat (ofLE value.value)))
  | .int8 | .int16 | .int32 | .int64 => some (.integer (Int64.ofInt (signedValue value.value)))
  | .float64 => some (.float (UInt64.ofNat (ofLE value.value)))
  | .bool => some (.boolean (decide (value.value ≠ [0])))
  | .varChar | .char => (String.fromUTF8? ⟨(value.value.takeWhile (· ≠ 0)).toArray⟩).map .string
  | _ => none

-- One entry for every used record, with the bytes of the literal its column
-- has, and nothing else.
structure IndexHolds (evaluator : Evaluator) (entry : DbTable) (column : Nat) (index : AnySecondaryIndex) : Prop where
  stored : ∀ item, index.Stored item → item.record_id.toNat ∈ entry.table.scanned ∧ ∃ record value literal,
    evaluator.readRecord entry.tdef (entry.table.records item.record_id.toNat) = some record ∧
      record[column]? = some value ∧ value.literal = some literal ∧ convertValue literal = some item.key
  complete : ∀ slot ∈ entry.table.scanned, ∃ item, index.Stored item ∧ item.record_id.toNat = slot ∧
    ∀ other, index.Stored other → other.record_id = item.record_id → other = item

theorem IndexHolds.probe_used {evaluator : Evaluator} {entry : DbTable} {column : Nat} {index : AnySecondaryIndex}
    (holds : IndexHolds evaluator entry column index) {operation : IndexOperation} {record_id : UInt16}
    (found : index.probe operation = some (.ok record_id)) : record_id.toNat ∈ entry.table.scanned := by
  have stored : ∃ item, index.Stored item ∧ item.record_id = record_id := by
    cases operation with
    | equal key => exact AnySecondaryIndex.find_stored found
    | range start_key end_key => exact AnySecondaryIndex.findRange_stored found
  obtain ⟨item,inside,rfl⟩ := stored
  exact (holds.stored item inside).1

def DbTable.taken (entry : DbTable) (evaluator : Evaluator) (query : SelectQuery) (columns : List SelectColumn)
    (slot : Nat) : Option RecordValues :=
  (evaluator.readRecord entry.tdef (entry.table.records slot)).filter (query.takes evaluator entry.tdef columns)

-- Whatever comparison of WHERE is looked up, the lookup ends, and if it finds a
-- record then no other record satisfies WHERE.
def LookupHarmless (evaluator : Evaluator) (entry : DbTable) (index : AnySecondaryIndex) (query : SelectQuery)
    (columns : List SelectColumn) : Prop :=
  ∀ field operation, query.where_clause.bind extractIndexOperation = some (field,operation) →
    entry.indexes field = true → ∃ found, index.probe operation = some found ∧
      ∀ record_id, found = .ok record_id →
        ∀ slot ∈ entry.table.scanned, entry.taken evaluator query columns slot ≠ none → slot = record_id.toNat

-- A query whose result is its filtered rows.
def SelectQuery.RowByRow (query : SelectQuery) (columns : List SelectColumn) : Prop :=
  query.aggregates columns = false ∧ query.distinct = false ∧ query.order_by = none ∧ query.limit = none

section Answers
variable {arithmetic : Arithmetic} {evaluator : Evaluator} {entry : DbTable} {column : Nat} {index : AnySecondaryIndex}
  {query : SelectQuery} {columns : List SelectColumn}

theorem filter_filterMap_taken (slots : List Nat) :
    (slots.filterMap fun slot => evaluator.readRecord entry.tdef (entry.table.records slot)).filter
        (query.takes evaluator entry.tdef columns) =
      slots.filterMap (entry.taken evaluator query columns) := by
  induction slots with
  | nil => rfl
  | cons slot rest ih =>
    rw [List.filterMap_cons,List.filterMap_cons,DbTable.taken]
    cases read : evaluator.readRecord entry.tdef (entry.table.records slot) with
    | none => exact ih
    | some record =>
      simp only [List.filter_cons,Option.filter_some,ih]
      cases query.takes evaluator entry.tdef columns record <;> rfl

theorem scanned_nodup (table : MemoryTable) : table.scanned.Nodup := List.nodup_range.filter _

theorem answer_of_slots {slots : List Nat} {rows : List ResultRow} (defined : selectColumns entry.tdef query = .ok columns)
    (scan : executeSelectQuery arithmetic evaluator entry none query = some (.ok rows))
    (sublist : slots.Sublist entry.table.scanned) :
    selectFrom arithmetic evaluator entry.tdef query columns
        (slots.filterMap fun slot => evaluator.readRecord entry.tdef (entry.table.records slot)) =
      sortAndFinish arithmetic evaluator entry.tdef query columns
        ((slots.filterMap (entry.taken evaluator query columns)).map (evaluator.rowOf entry.tdef columns)) := by
  rw [executeSelectQuery,defined] at scan
  simp only [DbTable.candidates,Option.bind_some] at scan
  obtain ⟨memory,each,_⟩ := selectFrom_of_ok scan
  have fewer := sublist.filterMap fun slot => evaluator.readRecord entry.tdef (entry.table.records slot)
  rw [selectFrom_ok (memory_sublist fewer memory) fun record member => each record (fewer.subset member),
    filter_filterMap_taken]

theorem candidates_served (index : AnySecondaryIndex) {field : String} {operation : IndexOperation}
    (extracted : query.where_clause.bind extractIndexOperation = some (field,operation))
    (indexed : entry.indexes field = true) :
    entry.candidates (some index) query = (index.probe operation).map fun found =>
      match found with
      | .ok record_id => [record_id.toNat]
      | .error _ => entry.table.scanned := by
  unfold DbTable.candidates
  rw [extracted]
  simp only
  refine (if_pos indexed).trans ?_
  rfl

theorem candidates_unserved
    (unserved : ∀ field operation, query.where_clause.bind extractIndexOperation = some (field,operation) →
      entry.indexes field = false) :
    entry.candidates (some index) query = some entry.table.scanned := by
  unfold DbTable.candidates
  cases extracted : query.where_clause.bind extractIndexOperation with
  | none => rfl
  | some pair =>
    obtain ⟨field,operation⟩ := pair
    simp only
    rw [if_neg (Bool.not_eq_true _ ▸ unserved field operation extracted)]

theorem select_of_candidates {slots : List Nat} (defined : selectColumns entry.tdef query = .ok columns)
    (looked : entry.candidates (some index) query = some slots) :
    executeSelectQuery arithmetic evaluator entry (some index) query =
      selectFrom arithmetic evaluator entry.tdef query columns
        (slots.filterMap fun slot => evaluator.readRecord entry.tdef (entry.table.records slot)) := by
  rw [executeSelectQuery,defined]
  simp only [looked,Option.bind_some]

theorem select_of_scanned (defined : selectColumns entry.tdef query = .ok columns)
    (looked : entry.candidates (some index) query = some entry.table.scanned) :
    executeSelectQuery arithmetic evaluator entry (some index) query =
      executeSelectQuery arithmetic evaluator entry none query := by
  rw [select_of_candidates defined looked,executeSelectQuery,defined]
  simp only [DbTable.candidates,Option.bind_some]

theorem scan_answer {rows : List ResultRow} (defined : selectColumns entry.tdef query = .ok columns)
    (scan : executeSelectQuery arithmetic evaluator entry none query = some (.ok rows)) :
    sortAndFinish arithmetic evaluator entry.tdef query columns
        ((entry.table.scanned.filterMap (entry.taken evaluator query columns)).map (evaluator.rowOf entry.tdef columns)) =
      some (.ok rows) := by
  rw [← answer_of_slots defined scan (List.Sublist.refl _),← scan,executeSelectQuery,defined]
  simp only [DbTable.candidates,Option.bind_some]

theorem sortAndFinish_rowByRow (plain : query.RowByRow columns) (rows : List (RecordValues × ResultRow)) :
    sortAndFinish arithmetic evaluator entry.tdef query columns rows = some (.ok (rows.map (·.2))) := by
  obtain ⟨no_aggregates,no_distinct,no_order,no_limit⟩ := plain
  unfold sortAndFinish
  rw [no_order]
  simp only [SelectQuery.finish,no_limit,no_aggregates,no_distinct,Option.getD_none,List.take_length,Bool.false_eq_true,
    if_false]

theorem select_of_harmless {rows : List ResultRow} (holds : IndexHolds evaluator entry column index)
    (defined : selectColumns entry.tdef query = .ok columns)
    (scan : executeSelectQuery arithmetic evaluator entry none query = some (.ok rows))
    (harmless : LookupHarmless evaluator entry index query columns) :
    executeSelectQuery arithmetic evaluator entry (some index) query = some (.ok rows) := by
  by_cases served : ∃ field operation, query.where_clause.bind extractIndexOperation = some (field,operation) ∧
      entry.indexes field = true
  · obtain ⟨field,operation,extracted,indexed⟩ := served
    obtain ⟨found,probed,alone⟩ := harmless field operation extracted indexed
    have looked := candidates_served index extracted indexed
    rw [probed,Option.map_some] at looked
    cases found with
    | error failure => rw [select_of_scanned defined looked,scan]
    | ok record_id =>
      have used := holds.probe_used probed
      have one : [record_id.toNat].Sublist entry.table.scanned := List.singleton_sublist.mpr used
      have same : entry.table.scanned.filterMap (entry.taken evaluator query columns) =
          [record_id.toNat].filterMap (entry.taken evaluator query columns) := by
        refine filterMap_alone (scanned_nodup _) used fun other among different => ?_
        by_contra present
        exact different (alone record_id rfl other among present)
      rw [select_of_candidates defined looked,answer_of_slots defined scan one,← same]
      exact scan_answer defined scan
  · have unserved : ∀ field operation, query.where_clause.bind extractIndexOperation = some (field,operation) →
        entry.indexes field = false := by
      intro field operation extracted
      rw [← Bool.not_eq_true]
      exact fun indexed => served ⟨field,operation,extracted,indexed⟩
    rw [select_of_scanned defined (candidates_unserved unserved),scan]

theorem harmless_of_select {rows others : List ResultRow} (holds : IndexHolds evaluator entry column index)
    (defined : selectColumns entry.tdef query = .ok columns)
    (scan : executeSelectQuery arithmetic evaluator entry none query = some (.ok rows))
    (plain : query.RowByRow columns)
    (looked : executeSelectQuery arithmetic evaluator entry (some index) query = some (.ok others))
    (same : others.Perm rows) : LookupHarmless evaluator entry index query columns := by
  intro field operation extracted indexed
  have served := candidates_served index extracted indexed
  cases probed : index.probe operation with
  | none =>
    rw [probed,Option.map_none] at served
    rw [executeSelectQuery,defined] at looked
    simp only [served,Option.bind_none] at looked
    cases looked
  | some found =>
    refine ⟨found,rfl,?_⟩
    rintro record_id rfl slot among present
    rw [probed,Option.map_some] at served
    have used := holds.probe_used probed
    rw [select_of_candidates defined served,answer_of_slots defined scan (List.singleton_sublist.mpr used),
      sortAndFinish_rowByRow plain] at looked
    have all := scan_answer defined scan
    rw [sortAndFinish_rowByRow plain] at all
    cases looked
    cases all
    have short := same.length_eq
    simp only [List.length_map] at short
    exact alone_of_length used short.symm slot among present

-- An index changes no answer if its lookup is harmless; where every row that is
-- left counts, it changes none only then.
theorem select_index_iff {rows : List ResultRow} (holds : IndexHolds evaluator entry column index)
    (defined : selectColumns entry.tdef query = .ok columns)
    (scan : executeSelectQuery arithmetic evaluator entry none query = some (.ok rows)) :
    (LookupHarmless evaluator entry index query columns →
        executeSelectQuery arithmetic evaluator entry (some index) query = some (.ok rows)) ∧
      (query.RowByRow columns →
        ((∃ others, executeSelectQuery arithmetic evaluator entry (some index) query = some (.ok others) ∧
            others.Perm rows) ↔ LookupHarmless evaluator entry index query columns)) := by
  refine ⟨select_of_harmless holds defined scan,fun plain => ⟨?_,?_⟩⟩
  · rintro ⟨others,looked,same⟩
    exact harmless_of_select holds defined scan plain looked same
  · exact fun harmless => ⟨rows,select_of_harmless holds defined scan harmless,List.Perm.refl _⟩

end Answers

section ByteColumns

def byteColumn (name : String) (offset : Nat) : FieldDef := ⟨name,.uint8,1,none,offset,false,false,false,false,none⟩

def byteFieldValue (tdef : TableDef) (record : RecordValues) (name : String) : Option TypedValue :=
  (tdef.fields.findIdx? fun field => decide (field.name = name)).bind fun place => record[place]?

def bytesHold (tdef : TableDef) (record : RecordValues) : Condition → Bool
  | .comparison ⟨name,operator,.integer literal⟩ =>
    match byteFieldValue tdef record name, operator with
    | some value, .equal => decide ((ofLE value.value : Int) = literal.toInt)
    | some value, .lessThan => decide ((ofLE value.value : Int) < literal.toInt)
    | some value, .greaterThan => decide ((ofLE value.value : Int) > literal.toInt)
    | _, _ => false
  | .and left right => bytesHold tdef record left && bytesHold tdef record right
  | .or left right => bytesHold tdef record left || bytesHold tdef record right
  | .not inner => !bytesHold tdef record inner
  | _ => false

def countOf (records : List RecordValues) : TypedValue := ⟨.uint64,toLE 8 records.length⟩

def byteEvaluator : Evaluator where
  readField := fun _ record field => some ⟨field.data_type,readAt record field.offset field.size⟩
  expression := fun tdef record expr =>
    match expr with
    | .field name => (byteFieldValue tdef record name).elim (.error .fieldNotFound) .ok
    | .functionCall _ _ => .ok ⟨.uint64,toLE 8 1⟩
    | _ => .error .internalError
  condition := fun tdef record _ _ condition => bytesHold tdef record condition
  aggregate := fun _ _ records => .ok [countOf records]
  groupRow := fun _ _ records => .ok [countOf records]
  floatOrder := fun _ _ => .eq
  sameRow := fun left right => decide (left = right)
  orderText := fun _ => ""
  valueSize := 32
  memoryLimit := 1000

def byteEntry (first second : UInt8) : DbTable where
  table := ⟨⟨1,"t",[byteColumn "a" 0],[],1,2⟩,fun slot => if slot = 0 then [first] else [second],
    fun _ => ⟨.used,0,0,0,0⟩,2,[],false,none,0⟩
  secondary_index := some [0]
  secondary_index_type := .sortedArray
  snapshot_version := 0
  data_start := 0
  status_array := 0
  free_slots := 0

def byteItem (value : UInt8) (record_id : UInt16) : SecondaryIndexItem := .ofKey (toLE 8 value.toNat) record_id

def byteIndex (first second : UInt8) : AnySecondaryIndex := .sortedArray ⟨[byteItem first 0,byteItem second 1]⟩

theorem byteEntry_scanned (first second : UInt8) : (byteEntry first second).table.scanned = [0,1] := rfl

theorem byteIndex_holds (first second : UInt8)
    (first_key : convertValue (.integer (Int64.ofNat (ofLE [first]))) = some (byteItem first 0).key)
    (second_key : convertValue (.integer (Int64.ofNat (ofLE [second]))) = some (byteItem second 1).key) :
    IndexHolds byteEvaluator (byteEntry first second) 0 (byteIndex first second) where
  stored := by
    intro item inside
    rcases List.mem_cons.mp inside with rfl | inside
    · exact ⟨List.mem_cons_self,[⟨.uint8,[first]⟩],⟨.uint8,[first]⟩,_,rfl,rfl,rfl,first_key⟩
    · rw [List.mem_singleton.mp inside]
      exact ⟨List.mem_cons_of_mem _ List.mem_cons_self,[⟨.uint8,[second]⟩],⟨.uint8,[second]⟩,_,rfl,rfl,rfl,second_key⟩
  complete := by
    intro slot among
    rw [byteEntry_scanned] at among
    rcases List.mem_cons.mp among with rfl | among
    · refine ⟨byteItem first 0,List.mem_cons_self,rfl,?_⟩
      intro other inside same
      rcases List.mem_cons.mp inside with rfl | inside
      · rfl
      · rw [List.mem_singleton.mp inside] at same
        cases same
    · rw [List.mem_singleton.mp among]
      refine ⟨byteItem second 1,List.mem_cons_of_mem _ List.mem_cons_self,rfl,?_⟩
      intro other inside same
      rcases List.mem_cons.mp inside with rfl | inside
      · cases same
      · exact List.mem_singleton.mp inside

def allWhere (condition : Condition) : SelectQuery := ⟨"t",[],true,false,some condition,none,none,none,none⟩

def columnIs (name : String) (value : Int64) : Condition := .comparison ⟨name,.equal,.integer value⟩

theorem select_index_iff_apart :
    executeSelectQuery checked byteEvaluator (byteEntry 1 2) (some (byteIndex 1 2)) (allWhere (columnIs "a" 2)) =
      some (.ok [[⟨.uint8,[2]⟩]]) := by
  have defined : selectColumns (byteEntry 1 2).tdef (allWhere (columnIs "a" 2)) = .ok [⟨.field "a",none⟩] := rfl
  have holds := byteIndex_holds 1 2 (by decide +kernel) (by decide +kernel)
  refine (select_index_iff holds defined (by rfl)).1 ?_
  intro field operation extracted indexed
  cases extracted
  refine ⟨.ok 1,by decide +kernel,?_⟩
  intro record_id found slot among present
  cases found
  rw [byteEntry_scanned] at among
  rcases List.mem_cons.mp among with rfl | among
  · exact absurd rfl present
  · exact List.mem_singleton.mp among

-- Both records have the value that is looked up, the index gives one of them.
theorem index_drops_row : IndexHolds byteEvaluator (byteEntry 1 1) 0 (byteIndex 1 1) ∧
    executeSelectQuery checked byteEvaluator (byteEntry 1 1) none (allWhere (columnIs "a" 1)) =
      some (.ok [[⟨.uint8,[1]⟩],[⟨.uint8,[1]⟩]]) ∧
    executeSelectQuery checked byteEvaluator (byteEntry 1 1) (some (byteIndex 1 1)) (allWhere (columnIs "a" 1)) =
      some (.ok [[⟨.uint8,[1]⟩]]) ∧
    ¬ [[(⟨.uint8,[1]⟩ : TypedValue)]].Perm [[⟨.uint8,[1]⟩],[⟨.uint8,[1]⟩]] := by
  refine ⟨byteIndex_holds 1 1 (by decide +kernel) (by decide +kernel),by rfl,by decide +kernel,?_⟩
  intro same
  cases same.length_eq

end ByteColumns

end RemDb
