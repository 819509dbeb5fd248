import RemDb.Sql.Aggregates

namespace RemDb
open RemDb.Lib

-- An error the query returns, or an index or an addition that panics.
inductive GroupFault where
  | error (failure : QueryExecutionError)
  | panicked
deriving DecidableEq,Repr

namespace DataType

-- Bytes and sign of the integer types.
def integerWidth : DataType → Option (Nat × Bool)
  | .uint8 => some (1,false)
  | .uint16 => some (2,false)
  | .uint32 => some (4,false)
  | .uint64 => some (8,false)
  | .int8 => some (1,true)
  | .int16 => some (2,true)
  | .int32 => some (4,true)
  | .int64 => some (8,true)
  | _ => none

def InRange (type : DataType) (number : Int) : Prop :=
  match type.integerWidth with
  | some (width,true) => -2^(8*width-1) ≤ number ∧ number < 2^(8*width-1)
  | some (width,false) => 0 ≤ number ∧ number < 2^(8*width)
  | none => False

instance (type : DataType) (number : Int) : Decidable (type.InRange number) := by
  unfold InRange
  exact match type.integerWidth with
    | some (_,true) => inferInstance
    | some (_,false) => inferInstance
    | none => inferInstance

end DataType

namespace TypedValue

-- `+=` on the member of the type. `checks` tells whether the build stops at an
-- overflow or wraps.
def addTo (checks : Bool) (total current : TypedValue) : Except GroupFault TypedValue :=
  match total.value_type.integerWidth with
  | some (width,_) =>
    match total.integer, current.integer with
    | some one, some two =>
      if checks ∧ ¬ total.value_type.InRange (one+two) then .error .panicked
      else .ok {total with value:=toLE width ((one+two) % 2^(8*width)).toNat ++ total.value.drop width}
    | _, _ => .error (.error .typeMismatch)
  | none =>
    match total.value_type with
    | .float32 => .ok {total with value:=toLE 4 (total.float32+current.float32).toBits.toNat ++ total.value.drop 4}
    | .float64 => .ok (total.setFloat64 (total.float64+current.float64))
    | _ => .error (.error .typeMismatch)

-- No value has been taken yet, or a zero was that counts as none.
def isFirst (total : TypedValue) : Bool := total.value_type = .uint64 ∧ total.word = 0

end TypedValue

def raise : Except QueryExecutionError α → Except GroupFault α := Except.mapError .error

-- `evaluate_expression` on a field: the part behind the last dot, the star
-- standing for the first value. What other expressions come to is given.
def fieldValue (tdef : TableDef) (record_values : RecordValues) (field_name : String) : Except GroupFault TypedValue :=
  if field_name = "*" then
    match record_values.head? with
    | some value => .ok value
    | none => .error .panicked
  else
    match tdef.fields.findIdx? fun field => decide (field.name = lastPart field_name) with
    | none => .error (.error .fieldNotFound)
    | some field_index =>
      match record_values[field_index]? with
      | some value => .ok value
      | none => .error .panicked

-- The functions that are given: expressions other than fields, and
-- `execute_function_call`.
structure GroupFunctions where
  expression : TableDef → RecordValues → Expression → Except GroupFault TypedValue
  functionCall : String → List TypedValue → Except GroupFault TypedValue

def GroupFunctions.evaluate (functions : GroupFunctions) (tdef : TableDef) (record_values : RecordValues) :
    Expression → Except GroupFault TypedValue
  | .field name => fieldValue tdef record_values name
  | expr => functions.expression tdef record_values expr

namespace AggregateFunction

def groupInitial : AggregateFunction → TypedValue
  | .count | .sum | .min | .max => ⟨.uint64,toLE 8 0⟩
  | _ => ⟨.float64,toLE 8 0⟩

def firstValue (arg_values : List TypedValue) : Except GroupFault TypedValue :=
  match arg_values with
  | [] => .error .panicked
  | first :: _ => .ok first

-- One row of a group. The mean starts as a float, so that its first value is
-- added to zero like the others.
def groupUpdate (checks : Bool) (name : String) (function : AggregateFunction) (agg_result : TypedValue)
    (arg_values : List TypedValue) : Except GroupFault TypedValue :=
  match function with
  | .count =>
    if checks ∧ ¬ agg_result.word+1 < 2^64 then .error .panicked
    else .ok (agg_result.setWord ((agg_result.word+1) % 2^64))
  | .sum => do
    let current ← firstValue arg_values
    if agg_result.isFirst then pure current
    else if agg_result.value_type ≠ current.value_type then throw (.error .typeMismatch)
    else agg_result.addTo checks current
  | .min => do
    let current ← firstValue arg_values
    if agg_result.isFirst then pure current
    else
      let is_less ← raise (current.less agg_result)
      pure (if is_less then current else agg_result)
  | .max => do
    let current ← firstValue arg_values
    if agg_result.isFirst then pure current
    else
      let is_greater ← raise (agg_result.less current)
      pure (if is_greater then current else agg_result)
  | .avg => do
    let current ← firstValue arg_values
    match current.asFloat with
    | some float => pure (agg_result.setFloat64 (agg_result.float64+float))
    | none => throw (.error .typeMismatch)
  | _ => .error (.error (.unsupportedFunction name))

def groupFinish (function : AggregateFunction) (count : Nat) (agg_result : TypedValue) : TypedValue :=
  match function with
  | .avg =>
    if count > 0 then agg_result.setFloat64 (agg_result.float64/WholeFloat.ofWhole count) else agg_result
  | _ => agg_result

-- The names that are taken for an aggregate of a group.
def ofGroupName (name : String) : Option AggregateFunction :=
  if aggregateNames.contains (upper name) then AggregateFunction.ofName (upper name) else none

end AggregateFunction

section Groups
variable (checks : Bool) (functions : GroupFunctions) (tdef : TableDef)

def groupColumn (group_rows : List RecordValues) : Expression → Except GroupFault TypedValue
  | .field field_name =>
    match tdef.fields.findIdx? fun field => decide (field.name = field_name) with
    | none => .error (.error .fieldNotFound)
    | some field_index =>
      match group_rows.head?.bind (·[field_index]?) with
      | some value => .ok value
      | none => .error .panicked
  | .functionCall name args =>
    match AggregateFunction.ofGroupName name with
    | none =>
      match group_rows with
      | [] => .error .panicked
      | first :: _ => do
        let arg_values ← args.mapM (functions.evaluate tdef first)
        functions.functionCall name arg_values
    | some function => do
      let agg_result ← group_rows.foldlM
        (fun agg_result record_values => do
          let arg_values ← args.mapM (functions.evaluate tdef record_values)
          function.groupUpdate checks name agg_result arg_values)
        function.groupInitial
      pure (function.groupFinish group_rows.length agg_result)
  | _ => .error (.error .invalidCondition)

-- The values a record is grouped by; the name of a column stands for the column.
def groupKey (columns : List SelectColumn) (group_by : List Expression) (record_values : RecordValues) :
    Except GroupFault (List TypedValue) :=
  group_by.mapM fun expr => functions.evaluate tdef record_values (resolveGroup columns expr)

-- The groups in the order of their hashes.
def groupRecords (columns : List SelectColumn) (group_by : List Expression) (rows_to_process : List RecordValues) :
    Except GroupFault (List (List RecordValues)) := do
  let keyed ← rows_to_process.mapM fun record_values => do
    let values ← groupKey functions tdef columns group_by record_values
    pure (values.map hashTypedValue,record_values)
  pure (groupsBy keyed)

def groupRow (columns : List SelectColumn) (group_rows : List RecordValues) : Except GroupFault ResultRow :=
  columns.mapM fun column => groupColumn checks functions tdef group_rows column.expr

-- `process_group_by_query`, with the groups its rows come from.
def processGroups (columns : List SelectColumn) (group_by : List Expression) (rows_to_process : List RecordValues) :
    Except GroupFault (List (List RecordValues) × List ResultRow) := do
  let groups ← groupRecords functions tdef columns group_by rows_to_process
  let rows ← groups.mapM (groupRow checks functions tdef columns)
  pure (groups,rows)

end Groups

end RemDb
