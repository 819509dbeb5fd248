import RemDb.Ddl.AlterTable
import RemDb.Index.Lookup
import RemDb.Sql.Literals

namespace RemDb
open RemDb.Lib

structure SelectColumn where
  expr : Expression
  label : Option String

inductive OrderDirection where
  | ascending | descending
deriving DecidableEq,Repr

structure OrderByClause where
  field : String
  direction : OrderDirection
deriving DecidableEq,Repr

structure SelectQuery where
  table_name : String
  columns : List SelectColumn
  select_all : Bool
  distinct : Bool
  where_clause : Option Condition
  having_clause : Option Condition
  group_by : Option (List Expression)
  order_by : Option OrderByClause
  limit : Option Nat

-- A record as the values of its fields, and a row of the result.
abbrev RecordValues := List TypedValue
abbrev ResultRow := List TypedValue

-- The evaluation of single expressions, conditions and aggregates, the order of
-- floats, the equality of rows in a hash set, the text of an expression in an
-- ORDER BY, and the memory a query may take.
structure Evaluator where
  readField : TableDef → Bytes → FieldDef → Option TypedValue
  expression : TableDef → RecordValues → Expression → Except QueryExecutionError TypedValue
  condition : TableDef → RecordValues → List SelectColumn → ResultRow → Condition → Bool
  aggregate : TableDef → List SelectColumn → List RecordValues → Except QueryExecutionError ResultRow
  groupRow : TableDef → List SelectColumn → List RecordValues → Except QueryExecutionError ResultRow
  floatOrder : TypedValue → TypedValue → Ordering
  sameRow : ResultRow → ResultRow → Bool
  orderText : Expression → String
  valueSize : Nat
  memoryLimit : Nat

inductive IndexOperation where
  | equal (key : Bytes)
  | range (start_key end_key : Bytes)
deriving DecidableEq,Repr

def convertValue : SqlValue → Option Bytes
  | .integer value => some (toLE 8 value.toUInt64.toNat)
  | .float bits => some (toLE 8 bits.toNat)
  | .string text => some (UInt8.ofNat (utf8 text).length :: utf8 text)
  | .boolean value => some [if value then 1 else 0]
  | _ => none

-- The first comparison that can be looked up, on either side of AND and of OR.
def extractIndexOperation : Condition → Option (String × IndexOperation)
  | .comparison condition =>
    match condition.operator with
    | .equal => (convertValue condition.value).map fun key => (condition.field,.equal key)
    | .greaterThan | .greaterThanOrEqual =>
      (convertValue condition.value).map fun key => (condition.field,.range key [255])
    | .lessThan | .lessThanOrEqual =>
      (convertValue condition.value).map fun key => (condition.field,.range [0] key)
    | _ => none
  | .and left right => (extractIndexOperation left).or (extractIndexOperation right)
  | .or left right => (extractIndexOperation left).or (extractIndexOperation right)
  | _ => none

def AnySecondaryIndex.probe (index : AnySecondaryIndex) : IndexOperation → Lookup
  | .equal key => index.find key
  | .range start_key end_key => index.findRange start_key end_key

-- The column is one of those the definition of the table names as indexed.
def DbTable.indexes (entry : DbTable) (field : String) : Bool :=
  (entry.secondary_index.getD []).any fun column => (entry.tdef.fields[column]?).any fun each => decide (each.name = field)

def lastPart (name : String) : String := String.ofList ((name.toList.splitOn '.').getLastD [])

def upper (text : String) : String := String.ofList (text.toList.map upperChar)

section Columns

-- `validate_expression`.
mutual
def validExpression (tdef : TableDef) : Expression → Bool
  | .field name => decide (name = "*") || tdef.hasField (lastPart name)
  | .functionCall _ args => validExpressions tdef args
  | .constant _ => true
  | .binaryOp left _ right => validExpression tdef left && validExpression tdef right
  | .logicalOp left _ right => validExpression tdef left && validExpression tdef right
  | .unaryOp _ operand => validExpression tdef operand
def validExpressions (tdef : TableDef) : List Expression → Bool
  | [] => true
  | first :: rest => validExpression tdef first && validExpressions tdef rest
end

def selectColumns (tdef : TableDef) (query : SelectQuery) : Except QueryExecutionError (List SelectColumn) :=
  if query.select_all then .ok (tdef.fields.map fun field => ⟨.field field.name,none⟩)
  else if query.columns.all fun column => validExpression tdef column.expr then .ok query.columns
  else .error .fieldNotFound

def aggregateNames : List String :=
  ["COUNT","SUM","AVG","MIN","MAX","STDDEV","VAR","STDDEV_SAMP","VAR_SAMP","MOVING_AVERAGE","MOVING_SUM"]

def SelectColumn.isAggregate (column : SelectColumn) : Bool :=
  match column.expr with
  | .functionCall name _ => aggregateNames.contains (upper name)
  | _ => false

-- The name under which GROUP BY finds a column.
def SelectColumn.groupName (column : SelectColumn) : String :=
  column.label.getD (match column.expr with
    | .field name => name
    | .functionCall name _ => name
    | .constant _ => "constant"
    | .binaryOp _ _ _ => "binary_op"
    | .logicalOp _ _ _ => "logical_op"
    | .unaryOp _ _ => "unary_op")

-- The last column of a name, as in a map that is filled from the front.
def resolveGroup (columns : List SelectColumn) : Expression → Expression
  | .field name =>
    match columns.reverse.find? fun column => decide (upper column.groupName = upper name) with
    | some column => column.expr
    | none => .field name
  | expr => expr

end Columns

section Sorting

def signedValue (bytes : Bytes) : Int :=
  if ofLE bytes < 2^(8*bytes.length-1) then ofLE bytes else (ofLE bytes : Int)-2^(8*bytes.length)

-- The number a value is sorted by. Texts have none; booleans have none where a
-- column is given by its position.
def sortKey (booleans : Bool) (value : TypedValue) : Option Int :=
  match value.value_type with
  | .uint8 => some (ofLE (padTo 1 value.value))
  | .uint16 => some (ofLE (padTo 2 value.value))
  | .uint32 => some (ofLE (padTo 4 value.value))
  | .uint64 => some (ofLE (padTo 8 value.value))
  | .int8 => some (signedValue (padTo 1 value.value))
  | .int16 => some (signedValue (padTo 2 value.value))
  | .int32 => some (signedValue (padTo 4 value.value))
  | .int64 | .timestamp | .timestampTZ => some (signedValue (padTo 8 value.value))
  | .bool => if booleans then some (ofLE (padTo 1 value.value)) else none
  | _ => none

-- Values of different types, and values that have no number, count as equal.
def compareForSort (evaluator : Evaluator) (booleans : Bool) (left right : TypedValue) : Ordering :=
  if left.value_type = right.value_type then
    if left.value_type = .float32 ∨ left.value_type = .float64 then evaluator.floatOrder left right
    else
      match sortKey booleans left, sortKey booleans right with
      | some one, some two => compare one two
      | _, _ => .eq
  else .eq

def OrderDirection.turn : OrderDirection → Ordering → Ordering
  | .ascending, order => order
  | .descending, order => order.swap

-- `sort_by`, which is stable.
def sortBy (direction : OrderDirection) (order : α → α → Ordering) (rows : List α) : List α :=
  rows.mergeSort fun left right => (direction.turn (order left right)).isLE

-- Where a vector distance is asked for by its text, other columns than floats
-- keep their order.
def distanceOrder (evaluator : Evaluator) (left right : TypedValue) : Ordering :=
  if left.value_type = right.value_type ∧ (left.value_type = .float32 ∨ left.value_type = .float64) then
    evaluator.floatOrder left right
  else .eq

def mentionsDistance (field : String) : Bool :=
  ["<->","<#>","<=>"].any fun symbol => (List.range (field.length+1)).any fun start =>
    symbol.toList.isPrefixOf (field.toList.drop start)

def valueAt (values : List TypedValue) (place : Nat) : TypedValue := values.getD place ⟨.uint8,[]⟩

-- What a field of an ORDER BY stands for: a place among the columns or among
-- the fields of the table, and how the values there are compared.
inductive SortTarget where
  | column (place : Nat) (order : TypedValue → TypedValue → Ordering)
  | field (place : Nat) (order : TypedValue → TypedValue → Ordering)

def SortTarget.value : SortTarget → RecordValues × ResultRow → TypedValue
  | .column place _, row => valueAt row.2 place
  | .field place _, row => valueAt row.1 place

def SortTarget.order : SortTarget → RecordValues × ResultRow → RecordValues × ResultRow → Ordering
  | .column place order, left, right => order (valueAt left.2 place) (valueAt right.2 place)
  | .field place order, left, right => order (valueAt left.1 place) (valueAt right.1 place)

-- The last column with an alias; columns that are equal have equal values.
def aliasPlace (columns : List SelectColumn) (name : String) : Option Nat :=
  (columns.reverse.findIdx? fun column => decide (column.label = some name)).map fun place => columns.length-1-place

-- A name that is not a position: an alias, a distance, a field of the table.
def namedTarget (evaluator : Evaluator) (tdef : TableDef) (columns : List SelectColumn) (field : String) :
    Option SortTarget :=
  match aliasPlace columns (lastPart field) with
  | some place => some (.column place (compareForSort evaluator true))
  | none =>
    let distance := if mentionsDistance field then
      columns.findIdx? fun column => decide (evaluator.orderText column.expr = field) else none
    match distance with
    | some place => some (.column place (distanceOrder evaluator))
    | none =>
      (tdef.fields.findIdx? fun each => decide (each.name = lastPart field)).map fun place =>
        .field place (compareForSort evaluator true)

-- `sort_rows_with_alias`; `none` is a panic on a position of zero. A position is
-- tested against the first row, if there is one.
def sortRowsWithAlias (arithmetic : Arithmetic) (evaluator : Evaluator) (tdef : TableDef) (order_by : OrderByClause)
    (columns : List SelectColumn) (rows : List (RecordValues × ResultRow)) :
    Option (Except QueryExecutionError (List (RecordValues × ResultRow))) :=
  match parseUsize order_by.field with
  | some col_index =>
    (arithmetic.sub col_index 1).map fun sort_col_index =>
      match rows.head? with
      | none => .ok rows
      | some first =>
        if sort_col_index ≥ first.2.length then .error .fieldNotFound
        else .ok (sortBy order_by.direction
          (SortTarget.column sort_col_index (compareForSort evaluator false)).order rows)
  | none =>
    match namedTarget evaluator tdef columns order_by.field with
    | none => some (.error .fieldNotFound)
    | some target => some (.ok (sortBy order_by.direction target.order rows))

end Sorting

section Grouping

def trimZeros (text : List Char) : List Char := (text.reverse.dropWhile fun letter => decide (letter = Char.ofNat 0)).reverse

-- Texts go by a rolling hash of their characters, all JSON values are one.
def hashTypedValue (value : TypedValue) : UInt64 :=
  match value.value_type with
  | .uint8 | .bool => UInt64.ofNat (ofLE (padTo 1 value.value))
  | .uint16 => UInt64.ofNat (ofLE (padTo 2 value.value))
  | .uint32 | .float32 => UInt64.ofNat (ofLE (padTo 4 value.value))
  | .uint64 | .int64 | .float64 | .timestamp | .interval | .vector => UInt64.ofNat (ofLE (padTo 8 value.value))
  | .int8 => UInt64.ofInt (signedValue (padTo 1 value.value))
  | .int16 => UInt64.ofInt (signedValue (padTo 2 value.value))
  | .int32 => UInt64.ofInt (signedValue (padTo 4 value.value))
  | .timestampTZ =>
    UInt64.ofNat (ofLE (padTo 8 value.value)) ^^^ UInt64.ofInt (signedValue (padTo 2 (value.value.drop 8)))
  | .varChar | .char | .text =>
    let text := ((String.fromUTF8? ⟨(padTo maxStringLen value.value).toArray⟩).getD "").toList
    (trimZeros text).foldl (fun hash letter => hash*31+UInt64.ofNat letter.toNat) 0
  | .json => 0

def groupValues (evaluator : Evaluator) (tdef : TableDef) (columns : List SelectColumn) (group_by : List Expression)
    (record : RecordValues) : Except QueryExecutionError (List TypedValue) :=
  group_by.mapM fun expr => evaluator.expression tdef record (resolveGroup columns expr)

-- An ordered map from keys to the records that have them: the keys in order,
-- each with its records in theirs.
def groupsBy (keyed : List (List UInt64 × RecordValues)) : List (List RecordValues) :=
  let keys := (keyed.map (·.1)).mergeSort fun left right => (compare left right).isLE
  keys.dedup.map fun key => (keyed.filter fun each => each.1 = key).map (·.2)

def processGroupByQuery (evaluator : Evaluator) (tdef : TableDef) (columns : List SelectColumn)
    (group_by : List Expression) (records : List RecordValues) : Except QueryExecutionError (List ResultRow) := do
  let keyed ← records.mapM fun record =>
    (groupValues evaluator tdef columns group_by record).map fun values => (values.map hashTypedValue,record)
  (groupsBy keyed).mapM (evaluator.groupRow tdef columns)

end Grouping

-- Rows as they come into a hash set.
def distinctRows (same : α → α → Bool) : List α → List α → List α
  | _, [] => []
  | seen, row :: rest =>
    if seen.any fun each => same each row then distinctRows same seen rest
    else row :: distinctRows same (seen ++ [row]) rest

namespace SelectQuery

def aggregates (query : SelectQuery) (columns : List SelectColumn) : Bool :=
  columns.any (·.isAggregate) || query.group_by.isSome

-- The end of the query behind sorting: the limit first, then aggregation or the
-- removal of duplicates. HAVING is not looked at, nor is DISTINCT behind an
-- aggregation.
def finish (query : SelectQuery) (evaluator : Evaluator) (tdef : TableDef) (columns : List SelectColumn)
    (sorted : List (RecordValues × ResultRow)) : Except QueryExecutionError (List ResultRow) :=
  let rows_to_process := sorted.take (query.limit.getD sorted.length)
  if query.aggregates columns then
    match query.group_by with
    | some group_by => processGroupByQuery evaluator tdef columns group_by (rows_to_process.map (·.1))
    | none => (evaluator.aggregate tdef columns (rows_to_process.map (·.1))).map fun row => [row]
  else if query.distinct then .ok (distinctRows evaluator.sameRow [] (rows_to_process.map (·.2)))
  else .ok (rows_to_process.map (·.2))

def selects (query : SelectQuery) (evaluator : Evaluator) (tdef : TableDef) (columns : List SelectColumn)
    (row : RecordValues × ResultRow) : Bool :=
  query.where_clause.all fun condition => evaluator.condition tdef row.1 columns row.2 condition

end SelectQuery

-- The values of one record; a field that cannot be read leaves the record out.
def Evaluator.readRecord (evaluator : Evaluator) (tdef : TableDef) (record : Bytes) : Option RecordValues :=
  tdef.fields.mapM (evaluator.readField tdef record)

def Evaluator.checkMemoryLimit (evaluator : Evaluator) (records : List RecordValues) : Except QueryExecutionError Unit :=
  let estimated := (records.map List.length).sum*evaluator.valueSize
  if estimated > evaluator.memoryLimit then .error (.resourceLimitExceeded "Query exceeds memory limit") else .ok ()

def Evaluator.selectRow (evaluator : Evaluator) (tdef : TableDef) (columns : List SelectColumn) (record : RecordValues) :
    Except QueryExecutionError (RecordValues × ResultRow) :=
  (columns.mapM fun column => evaluator.expression tdef record column.expr).map fun row => (record,row)

def sortAndFinish (arithmetic : Arithmetic) (evaluator : Evaluator) (tdef : TableDef) (query : SelectQuery)
    (columns : List SelectColumn) (filtered : List (RecordValues × ResultRow)) :
    Option (Except QueryExecutionError (List ResultRow)) :=
  match query.order_by with
  | none => some (query.finish evaluator tdef columns filtered)
  | some order_by =>
    (sortRowsWithAlias arithmetic evaluator tdef order_by columns filtered).map fun sorted =>
      sorted.bind (query.finish evaluator tdef columns)

-- `execute_select_query` from the records on. The columns are computed for every
-- record before the condition is looked at.
def selectFrom (arithmetic : Arithmetic) (evaluator : Evaluator) (tdef : TableDef) (query : SelectQuery)
    (columns : List SelectColumn) (records : List RecordValues) : Option (Except QueryExecutionError (List ResultRow)) :=
  match evaluator.checkMemoryLimit records with
  | .error failure => some (.error failure)
  | .ok _ =>
    match records.mapM (evaluator.selectRow tdef columns) with
    | .error failure => some (.error failure)
    | .ok rows => sortAndFinish arithmetic evaluator tdef query columns (rows.filter (query.selects evaluator tdef columns))

def MemoryTable.scanned (table : MemoryTable) : List Nat := (List.range table.tdef.max_records).filter table.used

-- The slots whose records are looked at: the one that the index finds, if it is
-- asked and finds one, and else all that are used.
def DbTable.candidates (entry : DbTable) (index : Option AnySecondaryIndex) (query : SelectQuery) : Option (List Nat) :=
  match index, query.where_clause.bind extractIndexOperation with
  | some index, some (field,operation) =>
    if entry.indexes field then
      (index.probe operation).map fun found =>
        match found with
        | .ok record_id => [record_id.toNat]
        | .error _ => entry.table.scanned
    else some entry.table.scanned
  | _, _ => some entry.table.scanned

-- `execute_select_query` on an ordinary table without joins; `none` is a fault.
def executeSelectQuery (arithmetic : Arithmetic) (evaluator : Evaluator) (entry : DbTable)
    (index : Option AnySecondaryIndex) (query : SelectQuery) : Option (Except QueryExecutionError (List ResultRow)) :=
  match selectColumns entry.tdef query with
  | .error failure => some (.error failure)
  | .ok columns =>
    (entry.candidates index query).bind fun slots =>
      selectFrom arithmetic evaluator entry.tdef query columns
        (slots.filterMap fun slot => evaluator.readRecord entry.tdef (entry.table.records slot))

end RemDb
