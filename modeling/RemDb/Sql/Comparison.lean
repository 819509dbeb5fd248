import RemDb.Json.Document
import RemDb.Snapshot.Format
import RemDb.Sql.Aggregates
import RemDb.Sql.LikePattern
import RemDb.Sql.Literals

namespace RemDb
open RemDb.Lib

section Operators

def compareNumbers [BEq α] [LT α] [LE α] [DecidableLT α] [DecidableLE α] (operator : ComparisonOperator) (f c : α) : Bool :=
  match operator with
  | .equal => f == c
  | .notEqual => f != c
  | .greaterThan => decide (f > c)
  | .greaterThanOrEqual => decide (f ≥ c)
  | .lessThan => decide (f < c)
  | .lessThanOrEqual => decide (f ≤ c)
  | .like => false

def compareBooleans (operator : ComparisonOperator) (f c : Bool) : Bool :=
  match operator with
  | .equal => f == c
  | .notEqual => f != c
  | _ => false

def compareStrings (operator : ComparisonOperator) (f c : String) : Bool :=
  match operator with
  | .like => likePatternMatch f.toList c.toList
  | other => compareNumbers other f c

end Operators

-- The words that stand for true, in any case.
def readsTrue (text : String) : Bool :=
  ["TRUE","1","YES","ON"].contains (String.ofList (text.toList.map upperChar))

-- `as` between integers keeps the low bytes.
def castUnsigned (width : Nat) (c : Int64) : Int := ofLE (toLE width c.toUInt64.toNat)
def castSigned (width : Nat) (c : Int64) : Int := signedValue (toLE width c.toUInt64.toNat)

namespace TypedValue

def unsigned (value : TypedValue) (width : Nat) : Int := ofLE (padTo width value.value)
def signed (value : TypedValue) (width : Nat) : Int := signedValue (padTo width value.value)
def boolean (value : TypedValue) : Bool := decide (ofLE (padTo 1 value.value) ≠ 0)

def trimmed (text : String) : String := String.ofList (trimZeros text.toList)

-- `from_utf8(..).unwrap_or("")` of the string member.
def textOrEmpty (value : TypedValue) : String :=
  ((String.fromUTF8? ⟨(padTo maxStringLen value.value).toArray⟩).map trimmed).getD ""

end TypedValue

-- Rows are looked up by integers with this one, in UPDATE and DELETE.
def compareFieldWithCondition (field_value : TypedValue) (operator : ComparisonOperator) (condition_value : SqlValue) : Bool :=
  match field_value.value_type, condition_value with
  | .uint8, .integer c => compareNumbers operator (field_value.unsigned 1) (castUnsigned 1 c)
  | .uint16, .integer c => compareNumbers operator (field_value.unsigned 2) (castUnsigned 2 c)
  | .uint32, .integer c => compareNumbers operator (field_value.unsigned 4) (castUnsigned 4 c)
  | .uint64, .integer c => compareNumbers operator (field_value.unsigned 8) (castUnsigned 8 c)
  | .int8, .integer c => compareNumbers operator (field_value.signed 1) (castSigned 1 c)
  | .int16, .integer c => compareNumbers operator (field_value.signed 2) (castSigned 2 c)
  | .int32, .integer c => compareNumbers operator (field_value.signed 4) (castSigned 4 c)
  | .int64, .integer c => compareNumbers operator (field_value.signed 8) c.toInt
  | .float32, .float bits => compareNumbers operator (WholeFloat.widen field_value.float32) (.ofBits bits)
  | .float32, .integer c => compareNumbers operator (WholeFloat.widen field_value.float32) (WholeFloat.ofWhole c.toInt)
  | .float64, .float bits => compareNumbers operator field_value.float64 (.ofBits bits)
  | .float64, .integer c => compareNumbers operator field_value.float64 (WholeFloat.ofWhole c.toInt)
  | .bool, .boolean c => compareBooleans operator field_value.boolean c
  | .bool, .integer c => compareBooleans operator field_value.boolean (decide (c ≠ 0))
  | .bool, .string c => compareBooleans operator field_value.boolean (readsTrue c)
  | .timestamp, .integer c | .timestampTZ, .integer c | .interval, .integer c =>
    compareNumbers operator (field_value.unsigned 8) (castUnsigned 8 c)
  | .varChar, .string c | .char, .string c | .text, .string c =>
    compareStrings operator (TypedValue.trimmed (fromUtf8Lossy (padTo maxStringLen field_value.value))) c
  | _, _ => false

-- A slice copied into one of another length, an index past the end, and a text
-- that is none.
inductive ConditionFault where
  | copied | indexed | invalidText
deriving DecidableEq,Repr

def compareValues (left right : TypedValue) : Except ConditionFault Bool :=
  if left.value_type = right.value_type then
    match left.value_type with
    | .float32 => .ok (decide ((left.float32-right.float32).abs < 1e-6))
    | .float64 => .ok (decide ((left.float64-right.float64).abs < 1e-12))
    | .bool => .ok (left.boolean == right.boolean)
    | .varChar | .char | .text =>
      match String.fromUTF8? ⟨(padTo maxStringLen right.value).toArray⟩ with
      | some right_str => .ok (left.textOrEmpty == TypedValue.trimmed right_str)
      | none => .error .invalidText
    | .timestamp | .timestampTZ => .ok (padTo 12 left.value == padTo 12 right.value)
    | .interval => .ok (padTo 10 left.value == padTo 10 right.value)
    | .vector | .json => .ok false
    | _ => .ok (left.integer == right.integer)
  else if left.value_type.isText ∧ right.value_type.isText then .ok (left.textOrEmpty == right.textOrEmpty)
  else
    match left.value_type, right.value_type with
    | .bool, .int64 => .ok (left.boolean == decide (right.integer ≠ some 0))
    | .int64, .bool => .ok (decide (left.integer ≠ some 0) == right.boolean)
    | _, _ =>
      if left.value_type = .bool ∧ right.value_type.isText then .ok (left.boolean == readsTrue right.textOrEmpty)
      else if left.value_type.isText ∧ right.value_type = .bool then .ok (readsTrue left.textOrEmpty == right.boolean)
      else
        match left.asFloat, right.asFloat with
        | some l, some r => .ok (decide ((l-r).abs < 1e-12))
        | _, _ => .ok false

def TypedValue.ordered (value : TypedValue) : Option Float :=
  match value.value_type with
  | .timestamp | .timestampTZ => some (WholeFloat.ofWhole (value.signed 8))
  | _ => value.asFloat

def comparisonValue : SqlValue → Except ConditionFault (Option TypedValue)
  | .integer i => .ok (some ⟨.int64,toLE 8 i.toUInt64.toNat⟩)
  | .float bits => .ok (some ⟨.float64,toLE 8 bits.toNat⟩)
  | .string s =>
    if (utf8 s).length > maxStringLen then .error .copied else .ok (some ⟨.varChar,padTo maxStringLen (utf8 s)⟩)
  | .boolean b => .ok (some ⟨.bool,[if b then 1 else 0]⟩)
  | _ => .ok none

def compareResolved (field_value comparison_value : TypedValue) (operator : ComparisonOperator) : Except ConditionFault Bool :=
  match operator with
  | .equal => compareValues field_value comparison_value
  | .notEqual => (compareValues field_value comparison_value).map (!·)
  | .like =>
    if field_value.value_type.isText then
      .ok (likePatternMatch field_value.textOrEmpty.toList comparison_value.textOrEmpty.toList)
    else .ok false
  | order =>
    match field_value.ordered, comparison_value.value_type with
    | some left_num, .int64 | some left_num, .float64 =>
      .ok ((comparison_value.asFloat).any fun right_num => compareNumbers order left_num right_num)
    | _, _ => .ok false

-- What a condition is evaluated over: a record of the table, the columns of the
-- query with their values for it, and the columns by their aliases.
structure ConditionContext where
  tdef : TableDef
  record_values : List TypedValue
  columns : List Expression
  expr_values : List TypedValue
  alias_map : List (String × Expression)

-- What is left out of a comparison: the evaluation of an expression, the text of
-- a JSON value, `from_json` with `json_has`, the texts of floats, the dimension of
-- a vector column and the distances, whose loops index the second vector.
structure ConditionSemantics where
  expression : TableDef → List TypedValue → Expression → Except QueryExecutionError TypedValue
  jsonText : Bytes → String
  jsonHas : String → String → Option Bool
  number : List Char → Option Float
  dimension : FieldDef → Option Nat
  distance : BinaryOperator → Bytes → List Float → Nat → Float

-- `find`: what stands before the first occurrence of a word and behind it.
def breakOn (word : List Char) : List Char → Option (List Char × List Char)
  | [] => if word = [] then some ([],[]) else none
  | letter :: rest =>
    if word.isPrefixOf (letter :: rest) then some ([],(letter :: rest).drop word.length)
    else (breakOn word rest).map fun (before,behind) => (letter :: before,behind)

def mentions (word : String) (text : List Char) : Bool := (breakOn word.toList text).isSome

def between (first second : String) (text : List Char) : String :=
  match breakOn first.toList text with
  | some (_,behind) => String.ofList (((breakOn second.toList behind).map (·.1)).getD [])
  | none => ""

namespace ConditionContext

inductive FieldSource where
  | projected (index : Nat)
  | computed (expr : Expression)
  | column (index : Nat)

def isFieldNamed (name : String) : Expression → Bool
  | .field other => decide (other = name)
  | _ => false

def columnIndex (context : ConditionContext) (name : String) : Option Nat :=
  context.tdef.fields.findIdx? fun field => field.name = name

def fieldSource (context : ConditionContext) (field : String) : FieldSource :=
  match context.alias_map.lookup field with
  | some expr =>
    match context.columns.findIdx? (isFieldNamed field) with
    | some index => .projected index
    | none => .computed expr
  | none => .column ((context.columnIndex field).getD 0)

def fetch (values : List TypedValue) (index : Nat) : Except ConditionFault TypedValue :=
  match values[index]? with
  | some value => .ok value
  | none => .error .indexed

def fieldValue (semantics : ConditionSemantics) (context : ConditionContext) (field : String) :
    Except ConditionFault TypedValue :=
  match context.fieldSource field with
  | .projected index => fetch context.expr_values index
  | .computed expr =>
    match semantics.expression context.tdef context.record_values expr with
    | .ok value => .ok value
    | .error _ => .ok ⟨.int64,toLE 8 0⟩
  | .column index => fetch context.record_values index

-- The text that JSON is read from; other types have none.
def jsonSource (semantics : ConditionSemantics) (value : TypedValue) : String :=
  match value.value_type with
  | .json => semantics.jsonText value.value
  | .varChar | .char | .text =>
    (String.fromUTF8? ⟨((padTo maxStringLen value.value).takeWhile (· ≠ 0)).toArray⟩).getD ""
  | _ => ""

-- JSON_HAS is known by the debug text of the call.
def jsonHasBranch (semantics : ConditionSemantics) (context : ConditionContext) (comp : ComparisonCondition) :
    Except ConditionFault (Option Bool) :=
  let field := comp.field.toList
  let field_name := between "Field \x7b name: \"" "\"" field
  let json_path := between "String(\"" "\")" field
  if mentions "JSON_HAS" field ∧ field_name ≠ "" ∧ json_path ≠ "" then
    match context.columnIndex field_name with
    | none => .ok none
    | some idx =>
      (fetch context.record_values idx).map fun data_value =>
        (semantics.jsonHas (jsonSource semantics data_value) json_path).map fun has =>
          match comp.value, comp.operator with
          | .boolean comparison_value, .equal => has == comparison_value
          | .boolean comparison_value, .notEqual => has != comparison_value
          | _, _ => false
  else .ok none

def extractAge (json_str : String) : Option Int64 :=
  match breakOn "\"age\":".toList json_str.toList with
  | none => none
  | some (_,after_colon) =>
    let digit (letter : Char) := decide (48 ≤ letter.toNat ∧ letter.toNat ≤ 57)
    let num_str := (after_colon.dropWhile fun letter => !digit letter && letter != '-').takeWhile digit
    if num_str = [] then none else parseI64 num_str

def jsonExtractBranch (semantics : ConditionSemantics) (context : ConditionContext) (comp : ComparisonCondition) :
    Except ConditionFault (Option Bool) :=
  let field := comp.field.toList
  if mentions "JSON_EXTRACT" field ∧ mentions "data" field ∧ mentions "$.age" field then
    match context.columnIndex "data" with
    | none => .ok none
    | some idx =>
      (fetch context.record_values idx).bind fun data_value =>
        match extractAge (jsonSource semantics data_value), comp.value with
        | none, _ => .ok none
        | some age, .integer i =>
          if comp.operator = .like then .ok (some false)
          else (compareResolved ⟨.int64,toLE 8 age.toUInt64.toNat⟩ ⟨.int64,toLE 8 i.toUInt64.toNat⟩ comp.operator).map some
        | some age, .float bits =>
          if comp.operator = .like then .ok (some false)
          else (compareResolved ⟨.int64,toLE 8 age.toUInt64.toNat⟩ ⟨.float64,toLE 8 bits.toNat⟩ comp.operator).map some
        | some _, _ => .ok (some false)
  else .ok none

def vectorOperators : List (String × BinaryOperator) := [("<->",.vectorL2),("<#>",.vectorIP),("<=>",.vectorCosine)]

-- The name of the column, the operator and the vector it is compared with.
def parseVectorDistanceExpression (semantics : ConditionSemantics) (expr : List Char) :
    Option (String × BinaryOperator × List Float) :=
  match vectorOperators.find? fun symbol => mentions symbol.1 expr with
  | none => none
  | some (symbol,op) =>
    match breakOn symbol.toList expr with
    | none => none
    | some (before,behind) =>
      let vec_part := Json.trim behind
      if vec_part.head? = some '[' ∧ vec_part.getLast? = some ']' then
        ((vec_part.tail.dropLast.splitOn ',').mapM fun part => semantics.number (Json.trim part)).map fun values =>
          (String.ofList (Json.trim before),op,values)
      else none

def thresholdOf : SqlValue → Option Float
  | .float bits => some (.ofBits bits)
  | .integer i => some (WholeFloat.ofWhole i.toInt)
  | _ => none

def compareDistance (operator : ComparisonOperator) (distance threshold : Float) : Bool :=
  match operator with
  | .equal => decide ((distance-threshold).abs < 1e-12)
  | .notEqual => decide ((distance-threshold).abs ≥ 1e-12)
  | other => compareNumbers other distance threshold

def vectorBranch (semantics : ConditionSemantics) (context : ConditionContext) (comp : ComparisonCondition) :
    Except ConditionFault (Option Bool) :=
  let field := comp.field.toList
  if vectorOperators.any fun symbol => mentions symbol.1 field then
    match parseVectorDistanceExpression semantics field with
    | none => .ok (some false)
    | some (field_name,op,compare_vec) =>
      match context.columnIndex field_name with
      | none => .ok (some false)
      | some idx =>
        match context.tdef.fields[idx]? with
        | none => .error .indexed
        | some column =>
          if column.data_type = .vector then
            match semantics.dimension column with
            | none => .ok (some false)
            | some dimension =>
              (fetch context.record_values idx).bind fun value =>
                match thresholdOf comp.value with
                | none => .ok (some false)
                | some threshold =>
                  if compare_vec.length < dimension then .error .indexed
                  else .ok (some (compareDistance comp.operator (semantics.distance op value.value compare_vec dimension) threshold))
          else .ok (some false)
  else .ok none

end ConditionContext

open ConditionContext in
def evaluateComparisonWithAlias (semantics : ConditionSemantics) (context : ConditionContext) (comp : ComparisonCondition) :
    Except ConditionFault Bool := do
  match ← jsonHasBranch semantics context comp with
  | some answer => pure answer
  | none =>
    match ← jsonExtractBranch semantics context comp with
    | some answer => pure answer
    | none =>
      match ← vectorBranch semantics context comp with
      | some answer => pure answer
      | none =>
        let field_value ← context.fieldValue semantics comp.field
        match ← comparisonValue comp.value with
        | none => pure false
        | some comparison_value => compareResolved field_value comparison_value comp.operator

def boundOf : SqlValue → Option Float
  | .integer i => some (WholeFloat.ofWhole i.toInt)
  | .float bits => some (.ofBits bits)
  | _ => none

def withinBounds (field_value : TypedValue) (min_value max_value : SqlValue) : Bool :=
  match field_value.value_type with
  | .varChar | .char | .text =>
    match min_value, max_value with
    | .string low_str, .string high_str => decide (low_str ≤ field_value.textOrEmpty) && decide (field_value.textOrEmpty ≤ high_str)
    | _, _ => false
  | .timestamp | .timestampTZ =>
    match min_value, max_value with
    | .integer low, .integer high =>
      decide (castUnsigned 8 low ≤ field_value.unsigned 8) && decide (field_value.unsigned 8 ≤ castUnsigned 8 high)
    | _, _ => false
  | _ =>
    match boundOf min_value, boundOf max_value, field_value.asFloat with
    | some low_value, some high_value, some field_num => decide (low_value ≤ field_num) && decide (field_num ≤ high_value)
    | _, _, _ => false

def evaluateBetweenWithAlias (semantics : ConditionSemantics) (context : ConditionContext) (condition : BetweenCondition) :
    Except ConditionFault Bool :=
  (context.fieldValue semantics condition.field).map fun field_value =>
    withinBounds field_value condition.min_value condition.max_value

def evaluateConditionWithAlias (semantics : ConditionSemantics) (context : ConditionContext) :
    Condition → Except ConditionFault Bool
  | .comparison comp => evaluateComparisonWithAlias semantics context comp
  | .between condition => evaluateBetweenWithAlias semantics context condition
  | .and left right => do
    if ← evaluateConditionWithAlias semantics context left then evaluateConditionWithAlias semantics context right
    else pure false
  | .or left right => do
    if ← evaluateConditionWithAlias semantics context left then pure true
    else evaluateConditionWithAlias semantics context right
  | .not inner => (evaluateConditionWithAlias semantics context inner).map (!·)

end RemDb
