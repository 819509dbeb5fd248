import RemDb.Table.Def

namespace RemDb
open RemDb.Lib

inductive QueryExecutionError where
  | tableNotFound | fieldNotFound | typeMismatch | invalidCondition | outOfMemory | constraintsConflicts
  | internalError | notAllowed | unsupportedFunction (name : String) | invalidValue | databaseExists
  | resourceLimitExceeded (message : String)
deriving DecidableEq,Repr

-- Literals of the parser. A float is its bits.
inductive SqlValue where
  | integer (value : Int64) | float (bits : UInt64) | string (text : String) | boolean (value : Bool)
  | null | identifier (name : String) | json (text : String)
deriving DecidableEq,Repr

def utf8 (text : String) : Bytes := text.toUTF8.data.toList

inductive BinaryOperator where
  | add | subtract | multiply | divide | equal | notEqual | greaterThan | greaterThanOrEqual
  | lessThan | lessThanOrEqual | vectorL2 | vectorIP | vectorCosine
deriving DecidableEq,Repr

inductive LogicalOperator where
  | and | or
deriving DecidableEq,Repr

inductive UnaryOperator where
  | not | minus | plus
deriving DecidableEq,Repr

-- Aliases play no part in evaluation.
inductive Expression where
  | field (name : String)
  | functionCall (name : String) (args : List Expression)
  | constant (value : SqlValue)
  | binaryOp (left : Expression) (op : BinaryOperator) (right : Expression)
  | logicalOp (left : Expression) (op : LogicalOperator) (right : Expression)
  | unaryOp (op : UnaryOperator) (operand : Expression)

inductive ComparisonOperator where
  | equal | notEqual | greaterThan | greaterThanOrEqual | lessThan | lessThanOrEqual | like
deriving DecidableEq,Repr

structure ComparisonCondition where
  field : String
  operator : ComparisonOperator
  value : SqlValue
deriving DecidableEq,Repr

structure BetweenCondition where
  field : String
  min_value : SqlValue
  max_value : SqlValue
deriving DecidableEq,Repr

inductive Condition where
  | comparison (condition : ComparisonCondition)
  | between (condition : BetweenCondition)
  | and (left right : Condition)
  | or (left right : Condition)
  | not (inner : Condition)

-- The union `Value` with its tag: the bytes it has when read at that type.
structure TypedValue where
  value_type : DataType
  value : Bytes
deriving DecidableEq,Repr

-- What the evaluator leaves to the operators, the casts that involve floats,
-- the layout of JSON storage, and the text, time and vector conversions.
structure Semantics where
  jsonStorage : Option Bytes → Bytes
  functionCall : String → List TypedValue → Except QueryExecutionError TypedValue
  binaryOp : TableDef → Expression → Expression → BinaryOperator → TypedValue → TypedValue →
    Except QueryExecutionError TypedValue
  unaryOp : UnaryOperator → TypedValue → Except QueryExecutionError TypedValue
  cast : DataType → TypedValue → Bytes
  convert : DataType → Nat → Expression → TypedValue → Except QueryExecutionError Bytes
  comparison : TableDef → Bytes → ComparisonCondition → Bool
  between : TableDef → Bytes → BetweenCondition → Bool

def maxStringLen : Nat := 64
def maxInlineJson : Nat := 256

-- What `set_field_value` reads back from the record buffer. Times, intervals
-- and vectors read as zero there.
def FieldDef.typedValue (field : FieldDef) (record : Bytes) : TypedValue :=
  { value_type := field.data_type
    value :=
      match field.data_type with
      | .uint8 | .int8 => field.read record 1
      | .uint16 | .int16 => field.read record 2
      | .uint32 | .int32 | .float32 => field.read record 4
      | .uint64 | .int64 | .float64 => field.read record 8
      | .bool => if field.read record 1 = [0] then [0] else [1]
      | .varChar | .char => padTo maxStringLen (field.read record (min field.size maxStringLen))
      | .text | .json => field.read record field.size
      | .timestamp | .timestampTZ | .interval | .vector => toLE 8 0 }

def TableDef.recordValues (tdef : TableDef) (record : Bytes) : List TypedValue :=
  tdef.fields.map (·.typedValue record)

def constantValue (semantics : Semantics) : SqlValue → TypedValue
  | .integer value => ⟨.int64,toLE 8 value.toUInt64.toNat⟩
  | .float bits => ⟨.float64,toLE 8 bits.toNat⟩
  | .string text => ⟨.varChar,padTo maxStringLen (utf8 text)⟩
  | .boolean value => ⟨.bool,[if value then 1 else 0]⟩
  | .null => ⟨.json,semantics.jsonStorage none⟩
  | .identifier name => ⟨.varChar,padTo maxStringLen (utf8 name)⟩
  | .json text =>
    let bytes := utf8 text
    ⟨.json,semantics.jsonStorage (if bytes.length ≤ maxInlineJson then some (padTo maxInlineJson bytes) else none)⟩

def TypedValue.truth (value : TypedValue) : Except QueryExecutionError Bool :=
  match value.value_type with
  | .bool | .int8 | .int16 | .int32 | .int64 | .uint8 | .uint16 | .uint32 | .uint64 =>
    .ok (decide (ofLE value.value ≠ 0))
  | .float32 => .ok (!floatEq 23 8 (ofLE value.value) 0)
  | .float64 => .ok (!floatEq 52 11 (ofLE value.value) 0)
  | _ => .error .typeMismatch

-- A qualified name counts by its last part.
def TableDef.fieldIndex (tdef : TableDef) (name : String) : Option Nat :=
  let last := (name.toList.splitOn '.').getLastD []
  tdef.fields.findIdx? fun field => field.name.toList = last

def maxRecursionDepth : Nat := 100

mutual

def evaluate (semantics : Semantics) (tdef : TableDef) (values : List TypedValue) :
    Expression → Nat → Except QueryExecutionError TypedValue
  | expr,depth =>
    if depth > maxRecursionDepth then .error .internalError
    else
      match expr with
      | .field name =>
        if name = "*" then (values.head?).elim (.error .internalError) .ok
        else
          match tdef.fieldIndex name with
          | none => .error .fieldNotFound
          | some index => (values[index]?).elim (.error .internalError) .ok
      | .functionCall name args =>
        (evaluateAll semantics tdef values args (depth+1)).bind (semantics.functionCall name)
      | .constant value => .ok (constantValue semantics value)
      | .binaryOp left op right =>
        (evaluate semantics tdef values left (depth+1)).bind fun first =>
          (evaluate semantics tdef values right (depth+1)).bind fun second =>
            semantics.binaryOp tdef left right op first second
      | .logicalOp left op right =>
        (evaluate semantics tdef values left (depth+1)).bind fun first =>
          (evaluate semantics tdef values right (depth+1)).bind fun second =>
            first.truth.bind fun one => second.truth.bind fun two =>
              .ok ⟨.bool,[if (match op with | .and => one && two | .or => one || two) then 1 else 0]⟩
      | .unaryOp op operand =>
        (evaluate semantics tdef values operand (depth+1)).bind (semantics.unaryOp op)

def evaluateAll (semantics : Semantics) (tdef : TableDef) (values : List TypedValue) :
    List Expression → Nat → Except QueryExecutionError (List TypedValue)
  | [],_ => .ok []
  | arg :: rest,depth =>
    (evaluate semantics tdef values arg depth).bind fun value =>
      (evaluateAll semantics tdef values rest depth).bind fun others => .ok (value :: others)

end

-- Integer columns keep the low bytes of a 64-bit integer.
def integerBytes (semantics : Semantics) (type : DataType) (width : Nat) (value : TypedValue) :
    Except QueryExecutionError Bytes :=
  match value.value_type with
  | .int64 => .ok (value.value.take width)
  | .float64 => .ok (semantics.cast type value)
  | .bool => .ok (toLE width (ofLE value.value))
  | _ => .error .typeMismatch

def floatBytes (semantics : Semantics) (type : DataType) (value : TypedValue) :
    Except QueryExecutionError Bytes :=
  match value.value_type with
  | .int64 | .float64 | .bool => .ok (semantics.cast type value)
  | _ => .error .typeMismatch

-- The bytes written for a column, by its type.
def columnBytes (semantics : Semantics) (field : FieldDef) (expr : Expression) (value : TypedValue) :
    Except QueryExecutionError Bytes :=
  match field.data_type with
  | .uint8 | .int8 => integerBytes semantics field.data_type 1 value
  | .uint16 | .int16 => integerBytes semantics field.data_type 2 value
  | .uint32 | .int32 => integerBytes semantics field.data_type 4 value
  | .uint64 | .int64 => integerBytes semantics field.data_type 8 value
  | .float32 | .float64 => floatBytes semantics field.data_type value
  | .bool =>
    match value.value_type with
    | .int64 | .float64 | .bool => value.truth.map fun truth => [if truth then 1 else 0]
    | _ => .error .typeMismatch
  | .interval => .error .typeMismatch
  | .timestamp | .timestampTZ | .varChar | .char | .text | .vector | .json =>
    semantics.convert field.data_type field.size expr value

-- The value of an expression on a record, as the bytes of the column.
def columnValue (semantics : Semantics) (tdef : TableDef) (record : Bytes) (field : FieldDef) (expr : Expression) :
    Except QueryExecutionError Bytes :=
  (evaluate semantics tdef (tdef.recordValues record) expr 1).bind (columnBytes semantics field expr)

-- `set_field_value`: the expression sees the buffer it writes to.
def setFieldValue (semantics : Semantics) (tdef : TableDef) (record : Bytes) (field : FieldDef) (expr : Expression) :
    Except QueryExecutionError Bytes :=
  (columnValue semantics tdef record field expr).map fun bytes => writeAt record field.offset bytes

def evaluateCondition (semantics : Semantics) (tdef : TableDef) (record : Bytes) : Condition → Bool
  | .comparison condition => semantics.comparison tdef record condition
  | .between condition => semantics.between tdef record condition
  | .and left right =>
    evaluateCondition semantics tdef record left && evaluateCondition semantics tdef record right
  | .or left right =>
    evaluateCondition semantics tdef record left || evaluateCondition semantics tdef record right
  | .not inner => !evaluateCondition semantics tdef record inner

end RemDb
