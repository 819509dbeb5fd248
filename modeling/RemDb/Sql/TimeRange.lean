import RemDb.Lib.Answers
import RemDb.Sql.Select
import RemDb.Sql.Comparison
import RemDb.Sql.Statements
import RemDb.TimeSeries.Retention

namespace RemDb
namespace TimeSeries
open RemDb.Lib

-- A table that could be made: both fields are there.
structure TimeSeriesTableDef where
  base : TableDef
  time_field : Fin base.fields.length
  value_field : Fin base.fields.length

namespace TimeSeriesTableDef

def timeName (tdef : TimeSeriesTableDef) : String := (tdef.base.fields.get tdef.time_field).name
def valueName (tdef : TimeSeriesTableDef) : String := (tdef.base.fields.get tdef.value_field).name

end TimeSeriesTableDef

structure SeriesQuery where
  columns : List SelectColumn
  select_all : Bool
  where_clause : Option Condition
  order_by : Option OrderByClause
  limit : Option Nat

def extractFromCondition (time_field_name : String) :
    Condition → Except QueryExecutionError (Option UInt64 × Option UInt64)
  | .comparison comp =>
    if comp.field = time_field_name then
      match comp.operator, comp.value with
      | .greaterThan, .integer value | .greaterThanOrEqual, .integer value => .ok (some value.toUInt64,none)
      | .lessThan, .integer value | .lessThanOrEqual, .integer value => .ok (none,some value.toUInt64)
      | .equal, .integer value => .ok (some value.toUInt64,some value.toUInt64)
      | .notEqual, _ | .like, _ => .ok (none,none)
      | _, _ => .error .invalidCondition
    else .ok (none,none)
  | .between between =>
    if between.field = time_field_name then
      match between.min_value, between.max_value with
      | .integer min, .integer max => .ok (some min.toUInt64,some max.toUInt64)
      | _, _ => .error .invalidCondition
    else .ok (none,none)
  | .and left right => do
    let (left_min,left_max) ← extractFromCondition time_field_name left
    let (right_min,right_max) ← extractFromCondition time_field_name right
    pure (left_min.or right_min,left_max.or right_max)
  | .or _ _ => .error (.unsupportedFunction "OR conditions in time range extraction")
  | .not _ => .error (.unsupportedFunction "NOT conditions in time range extraction")

def extractTimeRangeFromCondition (tdef : TimeSeriesTableDef) (condition : Condition) :
    Except QueryExecutionError (UInt64 × UInt64) :=
  (extractFromCondition tdef.timeName condition).map fun range => (range.1.getD 0,range.2.getD 18446744073709551615)

def recordSize : Nat := 88

def checkMemoryLimit (estimated_usage max_mb : Nat) : Except QueryExecutionError Unit :=
  if estimated_usage > max_mb*1024*1024 then
    .error (.resourceLimitExceeded ("Query exceeds memory limit: " ++ toString (estimated_usage/(1024*1024)) ++
      "MB estimated, " ++ toString max_mb ++ "MB allowed"))
  else .ok ()

-- `none` is the panic on a function without arguments.
def evaluateTimeseriesExpression (tdef : TimeSeriesTableDef) (record : TimeSeriesRecord) :
    Expression → ExceptT QueryExecutionError Option TypedValue
  | .field name =>
    match tdef.base.fields.findIdx? fun field => decide (field.name = name) with
    | some i =>
      if i = tdef.time_field then pure ⟨.uint64,toLE 8 record.timestamp.toNat⟩
      else if i = tdef.value_field then pure ⟨.float64,toLE 8 record.value.toNat⟩
      else pure ⟨.uint64,toLE 8 0⟩
    | none => throw .fieldNotFound
  | .functionCall name args =>
    if ["AVG","SUM","MIN","MAX","COUNT"].contains (upper name) then
      match args with
      | [] => ExceptT.mk none
      | first :: _ => evaluateTimeseriesExpression tdef record first
    else throw (.unsupportedFunction name)
  | _ => throw (.unsupportedFunction "Complex expression in timeseries query")

namespace SeriesQuery

def columnsOf (tdef : TimeSeriesTableDef) (query : SeriesQuery) : List SelectColumn :=
  if query.select_all then tdef.base.fields.map fun field => ⟨.field field.name,none⟩ else query.columns

def sampledRecords (tdef : TimeSeriesTableDef) (max_memory_mb : Nat) (table : TimeSeriesTable) (query : SeriesQuery) :
    Except QueryExecutionError (List TimeSeriesRecord) := do
  let (start_time,end_time) ← match query.where_clause with
    | some condition => extractTimeRangeFromCondition tdef condition
    | none => pure (0,18446744073709551615)
  let raw_records := table.queryTimeRange start_time end_time
  checkMemoryLimit (raw_records.length*recordSize) max_memory_mb
  pure raw_records

def rowOf (tdef : TimeSeriesTableDef) (query : SeriesQuery) (record : TimeSeriesRecord) :
    ExceptT QueryExecutionError Option (List TypedValue) :=
  (query.columnsOf tdef).mapM fun column => evaluateTimeseriesExpression tdef record column.expr

end SeriesQuery

def executeSelectTimeseriesQuery (tdef : TimeSeriesTableDef) (max_memory_mb : Nat) (table : TimeSeriesTable)
    (query : SeriesQuery) : ExceptT QueryExecutionError Option ResultSet := do
  let records ← ExceptT.mk (some (query.sampledRecords tdef max_memory_mb table))
  let rows ← records.mapM (query.rowOf tdef)
  pure ⟨(query.columnsOf tdef).map (·.groupName),rows⟩

-- What a condition says of a record. A time is compared with a literal as an
-- integer, another column as any table compares it.
def meets (tdef : TimeSeriesTableDef) (record : TimeSeriesRecord) : Condition → Bool
  | .comparison comp =>
    if comp.field = tdef.timeName then
      match comp.value with
      | .integer value => compareNumbers comp.operator (record.timestamp.toNat : Int) value.toInt
      | _ => false
    else
      match evaluateTimeseriesExpression tdef record (.field comp.field) with
      | some (.ok shown) => compareFieldWithCondition shown comp.operator comp.value
      | _ => false
  | .between between =>
    if between.field = tdef.timeName then
      match between.min_value, between.max_value with
      | .integer min, .integer max => decide (min.toInt ≤ record.timestamp.toNat) && decide (record.timestamp.toNat ≤ max.toInt)
      | _, _ => false
    else
      match evaluateTimeseriesExpression tdef record (.field between.field) with
      | some (.ok shown) => withinBounds shown between.min_value between.max_value
      | _ => false
  | .and left right => meets tdef record left && meets tdef record right
  | .or left right => meets tdef record left || meets tdef record right
  | .not inner => !meets tdef record inner

-- The literals that bound the time from one side, from left to right.
section Bounds
variable (time_field_name : String)

def lowerBounds : Condition → List Int64
  | .comparison comp =>
    if comp.field = time_field_name then
      match comp.operator, comp.value with
      | .greaterThan, .integer value | .greaterThanOrEqual, .integer value | .equal, .integer value => [value]
      | _, _ => []
    else []
  | .between between =>
    if between.field = time_field_name then
      match between.min_value with
      | .integer min => [min]
      | _ => []
    else []
  | .and left right => lowerBounds left ++ lowerBounds right
  | _ => []

def upperBounds : Condition → List Int64
  | .comparison comp =>
    if comp.field = time_field_name then
      match comp.operator, comp.value with
      | .lessThan, .integer value | .lessThanOrEqual, .integer value | .equal, .integer value => [value]
      | _, _ => []
    else []
  | .between between =>
    if between.field = time_field_name then
      match between.max_value with
      | .integer max => [max]
      | _ => []
    else []
  | .and left right => upperBounds left ++ upperBounds right
  | _ => []

end Bounds

-- Every record with the partition it is in.
def TimeSeriesTable.stored (table : TimeSeriesTable) : List (TimeSeriesPartition × TimeSeriesRecord) :=
  table.partitions.partitions.flatMap fun partition => partition.records.map fun record => (partition,record)

namespace SeriesQuery

def wants (tdef : TimeSeriesTableDef) (query : SeriesQuery) (record : TimeSeriesRecord) : Bool :=
  query.where_clause.all (meets tdef record)

-- What ORDER BY names: a column by its place or its alias, or a field.
def orderExpression (tdef : TimeSeriesTableDef) (query : SeriesQuery) (clause : OrderByClause) : Option Expression :=
  match parseUsize clause.field with
  | some place => if place = 0 then none else ((query.columnsOf tdef)[place-1]?).map (·.expr)
  | none =>
    match aliasPlace (query.columnsOf tdef) (lastPart clause.field) with
    | some place => ((query.columnsOf tdef)[place]?).map (·.expr)
    | none => some (.field (lastPart clause.field))

def Sortable (tdef : TimeSeriesTableDef) (query : SeriesQuery) (clause : OrderByClause) : Prop :=
  ∃ expr, query.orderExpression tdef clause = some expr ∧
    ∀ record, ∃ value, evaluateTimeseriesExpression tdef record expr = some (.ok value)

def Before (tdef : TimeSeriesTableDef) (query : SeriesQuery) (left right : TimeSeriesRecord) : Prop :=
  ∃ clause expr one two, query.order_by = some clause ∧ query.orderExpression tdef clause = some expr ∧
    evaluateTimeseriesExpression tdef left expr = some (.ok one) ∧ evaluateTimeseriesExpression tdef right expr = some (.ok two) ∧
    (if clause.direction = .ascending then one.less two else two.less one) = .ok true

-- The records of the rows are the ones the condition is true of, and ORDER BY and
-- LIMIT are applied to them.
def SelectsExactly (tdef : TimeSeriesTableDef) (table : TimeSeriesTable) (query : SeriesQuery)
    (records : List TimeSeriesRecord) : Prop :=
  (∀ clause, query.order_by = some clause → query.Sortable tdef clause) ∧
    Answers (query.Before tdef) query.limit ((table.stored.map (·.2)).filter (query.wants tdef)) records

-- The leading bounds; a negative one wraps around.
def lower (tdef : TimeSeriesTableDef) (query : SeriesQuery) : UInt64 :=
  (((query.where_clause.map (lowerBounds tdef.timeName)).getD []).head?.map (·.toUInt64)).getD 0

def upper (tdef : TimeSeriesTableDef) (query : SeriesQuery) : UInt64 :=
  (((query.where_clause.map (upperBounds tdef.timeName)).getD []).head?.map (·.toUInt64)).getD 18446744073709551615

def between (tdef : TimeSeriesTableDef) (query : SeriesQuery) (held : TimeSeriesPartition × TimeSeriesRecord) : Bool :=
  (decide (held.1.start_time ≤ query.upper tdef) && decide (held.1.end_time ≥ query.lower tdef)) &&
    (decide (held.2.timestamp ≥ query.lower tdef) && decide (held.2.timestamp ≤ query.upper tdef))

-- The leading bounds alone tell the records the condition is true of, and they lie
-- in the order asked for, no more of them than the limit.
structure BoundsTell (tdef : TimeSeriesTableDef) (table : TimeSeriesTable) (query : SeriesQuery) : Prop where
  sortable : ∀ clause, query.order_by = some clause → query.Sortable tdef clause
  kept : ∀ held ∈ table.stored, query.between tdef held = true → query.wants tdef held.2 = true
  ordered : ((table.stored.filter (query.between tdef)).map (·.2)).Pairwise fun earlier later => ¬ query.Before tdef later earlier
  counted : ∀ n, query.limit = some n → (table.stored.filter (query.between tdef)).length ≤ n
  complete : (∀ held ∈ table.stored, query.wants tdef held.2 = true → query.between tdef held = true) ∨
    query.limit = some (table.stored.filter (query.between tdef)).length ∧
      ∀ left ∈ table.stored, query.wants tdef left.2 = true → query.between tdef left = false →
        ∀ held ∈ table.stored, query.between tdef held = true → ¬ query.Before tdef left.2 held.2

theorem extract_bounds (time_field_name : String) (condition : Condition) {min max : Option UInt64}
    (extracted : extractFromCondition time_field_name condition = .ok (min,max)) :
    min = (lowerBounds time_field_name condition).head?.map (·.toUInt64) ∧
      max = (upperBounds time_field_name condition).head?.map (·.toUInt64) := by
  induction condition generalizing min max with
  | comparison comp =>
    obtain ⟨field,operator,value⟩ := comp
    simp only [extractFromCondition,lowerBounds,upperBounds] at extracted ⊢
    by_cases named : field = time_field_name
    · rw [if_pos named] at extracted ⊢
      rw [if_pos named]
      cases operator <;> cases value <;> cases extracted <;> exact ⟨rfl,rfl⟩
    · rw [if_neg named] at extracted ⊢
      rw [if_neg named]
      cases extracted
      exact ⟨rfl,rfl⟩
  | between condition =>
    obtain ⟨field,low,high⟩ := condition
    simp only [extractFromCondition,lowerBounds,upperBounds] at extracted ⊢
    by_cases named : field = time_field_name
    · rw [if_pos named] at extracted ⊢
      rw [if_pos named]
      cases low <;> cases high <;> cases extracted
      exact ⟨rfl,rfl⟩
    · rw [if_neg named] at extracted ⊢
      rw [if_neg named]
      cases extracted
      exact ⟨rfl,rfl⟩
  | and left right ihl ihr =>
    rw [extractFromCondition] at extracted
    cases one : extractFromCondition time_field_name left with
    | error failure =>
      rw [one] at extracted
      cases extracted
    | ok first =>
      cases two : extractFromCondition time_field_name right with
      | error failure =>
        rw [one,two] at extracted
        cases extracted
      | ok second =>
        rw [one,two] at extracted
        obtain ⟨first_min,first_max⟩ := first
        obtain ⟨second_min,second_max⟩ := second
        cases extracted
        obtain ⟨rfl,rfl⟩ := ihl one
        obtain ⟨rfl,rfl⟩ := ihr two
        rw [lowerBounds,upperBounds,List.head?_append,List.head?_append,Option.map_or,Option.map_or]
        exact ⟨rfl,rfl⟩
  | or left right _ _ => cases extracted
  | not inner _ => cases extracted

theorem queryTimeRange_stored (table : TimeSeriesTable) (low high : UInt64) : table.queryTimeRange low high =
    (table.stored.filter fun held => (decide (held.1.start_time ≤ high) && decide (held.1.end_time ≥ low)) &&
      (decide (held.2.timestamp ≥ low) && decide (held.2.timestamp ≤ high))).map (·.2) := by
  rw [TimeSeriesTable.queryTimeRange,PartitionManager.getPartitionsInRange,TimeSeriesTable.stored]
  induction table.partitions.partitions with
  | nil => rfl
  | cons partition rest ih =>
    rw [List.flatMap_cons,List.filter_append,List.map_append,← ih,List.filter_map,List.map_map]
    cases visited : decide (partition.start_time ≤ high) && decide (partition.end_time ≥ low) with
    | true =>
      rw [List.filter_cons,if_pos visited,List.flatMap_cons]
      refine congrArg (· ++ _) ?_
      simp only [Function.comp_def,visited,Bool.true_and,List.map_id']
    | false =>
      rw [List.filter_cons,if_neg (by simp [visited])]
      simp only [Function.comp_def,visited,Bool.false_and,List.filter_false,List.map_nil,List.nil_append]

theorem sampledRecords_ok {tdef : TimeSeriesTableDef} {max_memory_mb : Nat} {table : TimeSeriesTable} {query : SeriesQuery}
    {records : List TimeSeriesRecord} (sampled : query.sampledRecords tdef max_memory_mb table = .ok records) :
    records = (table.stored.filter (query.between tdef)).map (·.2) := by
  have queried (low high : UInt64) (checked : (do
      checkMemoryLimit ((table.queryTimeRange low high).length*recordSize) max_memory_mb
      pure (table.queryTimeRange low high)) = Except.ok (ε:=QueryExecutionError) records) :
      records = table.queryTimeRange low high := by
    cases limit : checkMemoryLimit ((table.queryTimeRange low high).length*recordSize) max_memory_mb with
    | error failure =>
      rw [limit] at checked
      cases checked
    | ok _ =>
      rw [limit] at checked
      cases checked
      rfl
  rw [sampledRecords] at sampled
  cases shape : query.where_clause with
  | none =>
    rw [shape] at sampled
    rw [queried 0 18446744073709551615 sampled,queryTimeRange_stored]
    refine congrArg (fun keep => (table.stored.filter keep).map (·.2)) (funext fun held => ?_)
    simp only [SeriesQuery.between,lower,upper,shape,Option.map_none,Option.getD_none,List.head?_nil]
  | some condition =>
    rw [shape] at sampled
    cases extracted : extractFromCondition tdef.timeName condition with
    | error failure =>
      simp only [extractTimeRangeFromCondition,extracted] at sampled
      cases sampled
    | ok range =>
      obtain ⟨min,max⟩ := range
      obtain ⟨is_min,is_max⟩ := extract_bounds tdef.timeName condition extracted
      simp only [extractTimeRangeFromCondition,extracted] at sampled
      rw [queried (min.getD 0) (max.getD 18446744073709551615) sampled,queryTimeRange_stored,is_min,is_max]
      refine congrArg (fun keep => (table.stored.filter keep).map (·.2)) (funext fun held => ?_)
      simp only [SeriesQuery.between,lower,upper,shape,Option.map_some,Option.getD_some]

theorem select_exact_iff {tdef : TimeSeriesTableDef} {max_memory_mb : Nat} {table : TimeSeriesTable} {query : SeriesQuery}
    {result : ResultSet} (done : executeSelectTimeseriesQuery tdef max_memory_mb table query = some (.ok result)) :
    ∃ records, query.sampledRecords tdef max_memory_mb table = .ok records ∧
      records.mapM (query.rowOf tdef) = some (.ok result.rows) ∧
      (query.SelectsExactly tdef table records ↔ query.BoundsTell tdef table) := by
  rw [executeSelectTimeseriesQuery] at done
  cases sampled : query.sampledRecords tdef max_memory_mb table with
  | error failure =>
    rw [sampled] at done
    cases done
  | ok records =>
    rw [sampled] at done
    refine ⟨records,rfl,?_,?_⟩
    · change (records.mapM (query.rowOf tdef) >>= fun rows => pure _ : ExceptT QueryExecutionError Option ResultSet) = _ at done
      generalize records.mapM (query.rowOf tdef) = rows at done ⊢
      match rows, done with
      | some (.ok _), rfl => rfl
    · rw [sampledRecords_ok sampled,SelectsExactly,answers_iff]
      constructor
      · rintro ⟨sortable,kept,ordered,counted,complete⟩
        exact ⟨sortable,kept,ordered,counted,complete⟩
      · intro tells
        exact ⟨tells.sortable,tells.kept,tells.ordered,tells.counted,tells.complete⟩

end SeriesQuery

def seriesTable : TimeSeriesTableDef where
  base := ⟨0,"s",[⟨"ts",.uint64,8,none,0,true,true,true,false,none⟩,⟨"v",.float64,8,none,8,false,false,false,false,none⟩],[0],16,100⟩
  time_field := ⟨0,by decide⟩
  value_field := ⟨1,by decide⟩

def oneRecord : TimeSeriesTable := ⟨(PartitionManager.new 3600 24).write ⟨5,0,0,[]⟩,fun _ => []⟩

def selectTime (operator : ComparisonOperator) (limit : Option Nat) : SeriesQuery :=
  ⟨[⟨.field "ts",none⟩],false,some (.comparison ⟨"ts",operator,.integer 5⟩),none,limit⟩

namespace SeriesQuery

theorem select_exact_iff_time :
    executeSelectTimeseriesQuery seriesTable 512 oneRecord (selectTime .greaterThanOrEqual none) =
      some (.ok ⟨["ts"],[[⟨.uint64,toLE 8 5⟩]]⟩) ∧
    ∃ records, (selectTime .greaterThanOrEqual none).sampledRecords seriesTable 512 oneRecord = .ok records ∧
      records.mapM ((selectTime .greaterThanOrEqual none).rowOf seriesTable) = some (.ok [[⟨.uint64,toLE 8 5⟩]]) ∧
      ((selectTime .greaterThanOrEqual none).SelectsExactly seriesTable oneRecord records ↔
        (selectTime .greaterThanOrEqual none).BoundsTell seriesTable oneRecord) := by
  have done : executeSelectTimeseriesQuery seriesTable 512 oneRecord (selectTime .greaterThanOrEqual none) =
      some (.ok ⟨["ts"],[[⟨.uint64,toLE 8 5⟩]]⟩) := rfl
  exact ⟨done,select_exact_iff done⟩

-- The boundary of a strict comparison is selected, and a limit lets everything in.
theorem strict_bound_selected :
    (∃ records, (selectTime .greaterThan none).sampledRecords seriesTable 512 oneRecord = .ok records ∧
      ¬ (selectTime .greaterThan none).SelectsExactly seriesTable oneRecord records) ∧
    ∃ records, (selectTime .equal (some 0)).sampledRecords seriesTable 512 oneRecord = .ok records ∧
      ¬ (selectTime .equal (some 0)).SelectsExactly seriesTable oneRecord records := by
  constructor
  · refine ⟨[⟨5,0,0,[]⟩],by decide,fun exact => ?_⟩
    obtain ⟨_,rest,perm,_⟩ := exact
    rw [show (oneRecord.stored.map (·.2)).filter ((selectTime .greaterThan none).wants seriesTable) = [] by decide] at perm
    exact absurd perm.nil_eq (List.cons_ne_nil _ _).symm
  · refine ⟨[⟨5,0,0,[]⟩],by decide,fun exact => ?_⟩
    obtain ⟨_,rest,_,_,_,counted,_⟩ := exact
    exact absurd (counted 0 rfl) (by decide)

end SeriesQuery
end TimeSeries
end RemDb
