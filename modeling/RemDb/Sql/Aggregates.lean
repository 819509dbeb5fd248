import RemDb.Lib.WholeFloat
import RemDb.Sql.Select

namespace RemDb
open RemDb.Lib

namespace TypedValue

-- The member `u64` of the union.
def word (value : TypedValue) : Nat := ofLE (padTo 8 value.value)

def setWord (value : TypedValue) (word : Nat) : TypedValue := {value with value:=toLE 8 word}

def float64 (value : TypedValue) : Float := .ofBits (.ofNat value.word)

def setFloat64 (value : TypedValue) (float : Float) : TypedValue := value.setWord float.toBits.toNat

def float32 (value : TypedValue) : Float32 := .ofBits (.ofNat (ofLE (padTo 4 value.value)))

def integer (value : TypedValue) : Option Int :=
  match value.value_type with
  | .uint8 | .uint16 | .uint32 | .uint64 | .int8 | .int16 | .int32 | .int64 => sortKey false value
  | _ => none

-- `as f64`, for the types AVG takes.
def asFloat (value : TypedValue) : Option Float :=
  match value.value_type with
  | .float32 => some (WholeFloat.widen value.float32)
  | .float64 => some value.float64
  | _ => value.integer.map WholeFloat.ofWhole

def less (left right : TypedValue) : Except QueryExecutionError Bool :=
  if left.value_type = right.value_type then
    match left.value_type, left.integer, right.integer with
    | .float32, _, _ => .ok (decide (left.float32 < right.float32))
    | .float64, _, _ => .ok (decide (left.float64 < right.float64))
    | _, some one, some two => .ok (decide (one < two))
    | _, _, _ => .error .typeMismatch
  else .error .typeMismatch

-- The number the value has when it is read by its tag.
def number (value : TypedValue) : Option Rat :=
  match value.value_type with
  | .float32 => WholeFloat.rational value.float32.toModel.unpack
  | .float64 => WholeFloat.rational value.float64.toModel.unpack
  | _ => value.integer.map fun number => (number : Rat)

end TypedValue

inductive AggregateFunction where
  | count | sum | avg | min | max
  | stddev | var | stddevSamp | varSamp
  | movingAverage | movingSum
  | timeBucket
deriving DecidableEq,Repr

structure AggregateCall where
  function : AggregateFunction
  args : List Expression

-- What is kept for a column: its value so far, and the state of the variances.
structure AggregateState where
  value : TypedValue
  sum : Float
  sum_of_squares : Float
  count : Nat

namespace AggregateFunction

def ofName (name : String) : Option AggregateFunction :=
  match name with
  | "COUNT" => some .count
  | "SUM" => some .sum
  | "AVG" => some .avg
  | "MIN" => some .min
  | "MAX" => some .max
  | "STDDEV" => some .stddev
  | "VAR" => some .var
  | "STDDEV_SAMP" => some .stddevSamp
  | "VAR_SAMP" => some .varSamp
  | "MOVING_AVERAGE" => some .movingAverage
  | "MOVING_SUM" => some .movingSum
  | "TIME_BUCKET" => some .timeBucket
  | _ => none

def initial (function : AggregateFunction) : AggregateState where
  value :=
    match function with
    | .count | .sum | .min | .max | .timeBucket => ⟨.uint64,toLE 8 0⟩
    | _ => ⟨.float64,toLE 8 0⟩
  sum := WholeFloat.ofWhole 0
  sum_of_squares := WholeFloat.ofWhole 0
  count := 0

def update (function : AggregateFunction) (state : AggregateState) (current : TypedValue) :
    Except QueryExecutionError AggregateState :=
  match function with
  | .count => .ok {state with value:=state.value.setWord ((state.value.word+1) % 2^64)}
  | .sum =>
    match current.integer with
    | some number =>
      .ok {state with
        value:=state.value.setFloat64 (state.value.float64+WholeFloat.ofWhole number)
        count:=state.count+1}
    | none => .error .typeMismatch
  | .avg =>
    match current.asFloat with
    | some float => .ok {state with value:=state.value.setFloat64 (state.value.float64+float)}
    | none => .error .typeMismatch
  | .min =>
    if state.value.word = 0 then .ok {state with value:=current}
    else (current.less state.value).map fun is_less => if is_less then {state with value:=current} else state
  | .max =>
    if state.value.word = 0 then .ok {state with value:=current}
    else (state.value.less current).map fun is_greater => if is_greater then {state with value:=current} else state
  | .stddev | .var | .stddevSamp | .varSamp =>
    match current.asFloat with
    | some float =>
      .ok {state with
        sum:=state.sum+float,sum_of_squares:=state.sum_of_squares+float*float,count:=state.count+1}
    | none => .error .typeMismatch
  | .movingAverage | .movingSum =>
    match current.asFloat with
    | some float => .ok {state with sum:=state.sum+float,count:=state.count+1}
    | none => .error .typeMismatch
  | .timeBucket => .ok {state with value:=current}

def ofFloat64 (float : Float) : TypedValue := ⟨.float64,toLE 8 float.toBits.toNat⟩

def finish (function : AggregateFunction) (state : AggregateState) : TypedValue :=
  let count := WholeFloat.ofWhole state.count
  let mean := state.sum/count
  let variance := state.sum_of_squares/count-mean*mean
  let sample := (state.sum_of_squares-state.sum*state.sum/count)/WholeFloat.ofWhole ((state.count : Int)-1)
  match function with
  | .stddev => if state.count > 0 then ofFloat64 variance.sqrt else state.value
  | .var => if state.count > 0 then ofFloat64 variance else state.value
  | .avg => if state.count > 0 then ofFloat64 (state.value.float64/count) else state.value
  | .stddevSamp => if state.count > 1 then ofFloat64 sample.sqrt else state.value
  | .varSamp => if state.count > 1 then ofFloat64 sample else state.value
  | .movingAverage => if state.count > 0 then ofFloat64 mean else state.value
  | .movingSum => ofFloat64 state.sum
  | _ => state.value

end AggregateFunction

-- The part of a qualified name behind its first dot, up to the next one.
def aggregateField (name : String) : String :=
  match name.toList.splitOn '.' with
  | _ :: second :: _ => String.ofList second
  | _ => name

def evaluateForAggregate (semantics : Semantics) (field_index_map : String → Option Nat) (args : List Expression)
    (record_values : RecordValues) : Except QueryExecutionError TypedValue :=
  match args with
  | [] => .ok ⟨.uint64,toLE 8 1⟩
  | .constant value :: _ => .ok (constantValue semantics value)
  | .field name :: _ =>
    if name = "*" then .ok ⟨.uint64,toLE 8 1⟩
    else
      match field_index_map (aggregateField name) with
      | some index =>
        match record_values[index]? with
        | some value => .ok value
        | none => .error .internalError
      | none => .error .fieldNotFound
  | _ => .ok ⟨.uint64,toLE 8 1⟩

def aggregateCall : Expression → Except QueryExecutionError AggregateCall
  | .functionCall name args =>
    match AggregateFunction.ofName (upper name) with
    | some function => .ok ⟨function,args⟩
    | none => .error (.unsupportedFunction (upper name))
  | _ => .error .internalError

-- One row in one column.
def updateColumn (semantics : Semantics) (field_index_map : String → Option Nat) (record_values : RecordValues)
    (column : AggregateCall × AggregateState) : Except QueryExecutionError (AggregateCall × AggregateState) := do
  let current ← evaluateForAggregate semantics field_index_map column.1.args record_values
  let updated ← column.1.function.update column.2 current
  return (column.1,updated)

def processAggregateQuery (semantics : Semantics) (columns : List Expression) (rows_to_process : List RecordValues)
    (field_index_map : String → Option Nat) : Except QueryExecutionError ResultRow := do
  let calls ← columns.mapM aggregateCall
  let aggregate_values ← rows_to_process.foldlM
    (fun columns record_values => columns.mapM (updateColumn semantics field_index_map record_values))
    (calls.map fun call => (call,call.function.initial))
  return aggregate_values.map fun column => column.1.function.finish column.2

end RemDb
