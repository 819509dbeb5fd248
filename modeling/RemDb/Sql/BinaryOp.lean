import RemDb.Lib.NearestFloat
import RemDb.Sql.Aggregates

namespace RemDb
open RemDb.Lib

-- What `evaluate_binary_op` leaves to others: JSON storage, whose text is read
-- as a number, and the texts of intervals.
structure Operands where
  jsonNull : Bytes → Bool
  jsonNumber : Bytes → Except QueryExecutionError Float
  interval : String → Except QueryExecutionError Int

def DataType.isTime : DataType → Bool
  | .timestamp | .timestampTZ => true
  | _ => false

namespace TypedValue

def ofBool (truth : Bool) : TypedValue := ⟨.bool,[if truth then 1 else 0]⟩
def ofFloat (float : Float) : TypedValue := ⟨.float64,toLE 8 float.toBits.toNat⟩
def ofInterval (micros : Int) : TypedValue := ⟨.interval,toLE 8 (micros % 2^64).toNat ++ [6,0]⟩
def ofTime (type : DataType) (micros : Int) (tz_offset : Bytes) : TypedValue :=
  ⟨type,toLE 8 (micros % 2^64).toNat ++ tz_offset ++ [6,0]⟩

def time (value : TypedValue) : Int := signedValue (padTo 8 value.value)
def tzOffset (value : TypedValue) : Bytes := if value.value_type = .timestamp then toLE 2 0 else padTo 2 (value.value.drop 8)

def buffer (value : TypedValue) : Bytes := padTo maxStringLen value.value

def textValue (value : TypedValue) : Except QueryExecutionError String :=
  match String.fromUTF8? ⟨value.buffer.toArray⟩ with
  | some text => .ok (String.ofList (trimZeros text.toList))
  | none => .error .typeMismatch

-- What counts as null where the right operand is the constant zero.
def isNull (operands : Operands) (value : TypedValue) : Bool :=
  match value.value_type with
  | .float32 => value.float32 == .ofBits 0
  | .float64 => value.float64 == .ofBits 0
  | .bool => decide (ofLE (padTo 1 value.value) = 0)
  | .varChar | .char | .text => value.buffer.all (· = 0)
  | .timestamp | .timestampTZ | .interval => decide (value.time = 0)
  | .vector => decide (value.word = 0)
  | .json => operands.jsonNull value.value
  | _ => decide (value.integer = some 0)

-- `as f64`, for the operands of a comparison.
def comparand (operands : Operands) (value : TypedValue) : Except QueryExecutionError Float :=
  match value.value_type with
  | .bool => .ok (WholeFloat.ofWhole (ofLE (padTo 1 value.value)))
  | .timestamp | .timestampTZ => .ok (WholeFloat.ofWhole value.time)
  | .json => operands.jsonNumber value.value
  | _ => (value.asFloat).elim (.error .typeMismatch) .ok

end TypedValue

namespace BinaryOperator

def compares : BinaryOperator → Bool
  | .equal | .notEqual | .lessThan | .lessThanOrEqual | .greaterThan | .greaterThanOrEqual => true
  | _ => false

def relate [BEq α] [LT α] [LE α] [DecidableLT α] [DecidableLE α] (op : BinaryOperator) (left right : α) :
    Except QueryExecutionError Bool :=
  match op with
  | .equal => .ok (left == right)
  | .notEqual => .ok (left != right)
  | .lessThan => .ok (decide (left < right))
  | .lessThanOrEqual => .ok (decide (left ≤ right))
  | .greaterThan => .ok (decide (left > right))
  | .greaterThanOrEqual => .ok (decide (left ≥ right))
  | _ => .error .typeMismatch

def calculate (op : BinaryOperator) (left right : Float) : Except QueryExecutionError Float :=
  match op with
  | .add => .ok (left+right)
  | .subtract => .ok (left-right)
  | .multiply => .ok (left*right)
  | .divide => if right == .ofBits 0 then .error .internalError else .ok (left/right)
  | _ => .error .typeMismatch

end BinaryOperator

def evaluateComparison (operands : Operands) (left : TypedValue) (op : BinaryOperator) (right : TypedValue) :
    Except QueryExecutionError TypedValue :=
  if right.value_type = .int64 ∧ right.integer = some 0 then
    match op with
    | .equal => .ok (.ofBool (left.isNull operands))
    | .notEqual => .ok (.ofBool !left.isNull operands)
    | _ => .error .typeMismatch
  else if left.value_type.isText ∧ right.value_type.isText then
    left.textValue.bind fun left_str => right.textValue.bind fun right_str => (op.relate left_str right_str).map .ofBool
  else
    (left.comparand operands).bind fun left_val =>
      (right.comparand operands).bind fun right_val => (op.relate left_val right_val).map .ofBool

def intervalMicros (operands : Operands) (value : TypedValue) : Except QueryExecutionError Int :=
  match value.value_type with
  | .int64 => .ok (signedValue (padTo 8 value.value))
  | .varChar | .char | .text => value.textValue.bind operands.interval
  | _ => .error .typeMismatch

def evaluateBinaryOp (operands : Operands) (left : TypedValue) (op : BinaryOperator) (right : TypedValue) :
    Except QueryExecutionError TypedValue :=
  if op.compares then evaluateComparison operands left op right
  else if op = .subtract ∧ left.value_type.isTime ∧ right.value_type.isTime then .ok (.ofInterval (left.time-right.time))
  else
    match left.asFloat, right.asFloat with
    | some left_val, some right_val => (op.calculate left_val right_val).map .ofFloat
    | _, _ =>
      (intervalMicros operands right).bind fun micros =>
        match op with
        | .add =>
          if left.value_type.isTime then .ok (.ofTime left.value_type (left.time+micros) left.tzOffset)
          else .error .typeMismatch
        | .subtract =>
          if left.value_type.isTime then .ok (.ofTime left.value_type (left.time-micros) left.tzOffset)
          else .error .typeMismatch
        | _ => .error .typeMismatch

section Integers
variable {left right : TypedValue} {l r : Int}

def BinaryOperator.truth (op : BinaryOperator) (l r : Int) : Bool :=
  match op with
  | .equal => decide (l = r)
  | .notEqual => decide (l ≠ r)
  | .lessThan => decide (l < r)
  | .lessThanOrEqual => decide (l ≤ r)
  | .greaterThan => decide (l > r)
  | .greaterThanOrEqual => decide (l ≥ r)
  | _ => false

theorem relate_whole (op : BinaryOperator) (comparison : op.compares = true) (small_l : l.natAbs < 2^53)
    (small_r : r.natAbs < 2^53) : op.relate (WholeFloat.ofWhole l) (WholeFloat.ofWhole r) = .ok (op.truth l r) := by
  have wide_l : l.natAbs < 2^200 := Nat.lt_trans small_l (by decide)
  have wide_r : r.natAbs < 2^200 := Nat.lt_trans small_r (by decide)
  have equal := WholeFloat.beq_ofWhole wide_l wide_r
  have less := WholeFloat.lt_ofWhole wide_l wide_r
  have most := WholeFloat.le_ofWhole wide_l wide_r
  have more := WholeFloat.lt_ofWhole wide_r wide_l
  have least := WholeFloat.le_ofWhole wide_r wide_l
  simp only [WholeFloat.nearestInt_small small_l,WholeFloat.nearestInt_small small_r] at equal less most more least
  cases op with
  | equal => exact congrArg Except.ok equal
  | notEqual => exact congrArg Except.ok ((congrArg Bool.not equal).trans (decide_not).symm)
  | lessThan => exact congrArg Except.ok (decide_eq_decide.mpr less)
  | lessThanOrEqual => exact congrArg Except.ok (decide_eq_decide.mpr most)
  | greaterThan => exact congrArg Except.ok (decide_eq_decide.mpr more)
  | greaterThanOrEqual => exact congrArg Except.ok (decide_eq_decide.mpr least)
  | _ => cases comparison

namespace TypedValue

theorem isText_of_integer (read : left.integer = some l) : left.value_type.isText = false := by
  unfold integer at read
  cases type : left.value_type <;> rw [type] at read <;> first | rfl | cases read

theorem comparand_of_integer (operands : Operands) (read : left.integer = some l) :
    left.comparand operands = .ok (WholeFloat.ofWhole l) := by
  have found : left.asFloat = some (WholeFloat.ofWhole l) := by
    unfold asFloat
    rw [read]
    unfold integer at read
    cases type : left.value_type <;> rw [type] at read <;> first | rfl | cases read
  unfold comparand
  rw [found]
  unfold integer at read
  cases type : left.value_type <;> rw [type] at read <;> first | rfl | cases read

theorem isNull_of_integer (operands : Operands) (read : left.integer = some l) :
    left.isNull operands = decide (l = 0) := by
  have zero : decide (left.integer = some 0) = decide (l = 0) := by simp only [read,Option.some_inj]
  rw [← zero]
  unfold isNull
  unfold integer at read
  cases type : left.value_type <;> rw [type] at read <;> first | rfl | cases read

end TypedValue

theorem evaluateBinaryOp_integers (operands : Operands) {op : BinaryOperator} (comparison : op.compares = true)
    (read_l : left.integer = some l) (read_r : right.integer = some r) (small_l : l.natAbs < 2^53)
    (small_r : r.natAbs < 2^53) : evaluateBinaryOp operands left op right =
      if right.value_type = .int64 ∧ r = 0 ∧ op ≠ .equal ∧ op ≠ .notEqual then .error .typeMismatch
      else .ok (.ofBool (op.truth l r)) := by
  rw [evaluateBinaryOp,if_pos comparison]
  unfold evaluateComparison
  simp only [read_r,Option.some_inj]
  by_cases constant : right.value_type = .int64 ∧ r = 0
  · rw [if_pos constant]
    obtain ⟨type,rfl⟩ := constant
    cases op with
    | equal => simp [BinaryOperator.truth,TypedValue.isNull_of_integer operands read_l]
    | notEqual => simp [BinaryOperator.truth,TypedValue.isNull_of_integer operands read_l]
    | lessThan | lessThanOrEqual | greaterThan | greaterThanOrEqual => simp [type]
    | _ => cases comparison
  · rw [if_neg constant,if_neg (by simp [TypedValue.isText_of_integer read_l]),
      if_neg fun special => constant ⟨special.1,special.2.1⟩,
      TypedValue.comparand_of_integer operands read_l,TypedValue.comparand_of_integer operands read_r]
    exact congrArg (Except.map TypedValue.ofBool) (relate_whole op comparison small_l small_r)

theorem compare_integers_iff (operands : Operands) (left right : TypedValue) (op : BinaryOperator) (l r : Int)
    (comparison : op.compares = true) (read_l : left.integer = some l) (read_r : right.integer = some r)
    (small_l : l.natAbs < 2^53) (small_r : r.natAbs < 2^53) :
    evaluateBinaryOp operands left op right = .ok (.ofBool (op.truth l r)) ↔
      ¬ (right.value_type = .int64 ∧ r = 0) ∨ op = .equal ∨ op = .notEqual := by
  rw [evaluateBinaryOp_integers operands comparison read_l read_r small_l small_r]
  split
  · next special =>
    obtain ⟨type,zero,not_equal,not_other⟩ := special
    refine ⟨fun impossible => (by cases impossible),fun holds => ?_⟩
    rcases holds with ordinary | equal | other
    · exact absurd ⟨type,zero⟩ ordinary
    · exact absurd equal not_equal
    · exact absurd other not_other
  · next ordinary =>
    refine ⟨fun _ => ?_,fun _ => rfl⟩
    by_contra none
    simp only [not_or,not_not] at none
    exact ordinary ⟨none.1.1,none.1.2,none.2.1,none.2.2⟩

def plainOperands : Operands where
  jsonNull := fun bytes => bytes.all (· = 0)
  jsonNumber := fun _ => .ok (WholeFloat.ofWhole 0)
  interval := fun _ => .error .typeMismatch

def byteValue (n : Nat) : TypedValue := ⟨.uint8,toLE 1 n⟩
def constantInt (n : Nat) : TypedValue := ⟨.int64,toLE 8 n⟩

theorem compare_integers_five : evaluateBinaryOp plainOperands (byteValue 5) .greaterThan (constantInt 3) =
    .ok (.ofBool (BinaryOperator.greaterThan.truth 5 3)) :=
  (compare_integers_iff plainOperands (byteValue 5) (constantInt 3) .greaterThan 5 3 rfl (by decide) (by decide)
    (by decide) (by decide)).mpr (.inl (by decide))

-- Five is more than zero, but that is not what comes back.
theorem more_than_zero_refused :
    (byteValue 5).integer = some 5 ∧ (constantInt 0).integer = some 0 ∧ BinaryOperator.greaterThan.truth 5 0 = true ∧
      evaluateBinaryOp plainOperands (byteValue 5) .greaterThan (constantInt 0) = .error .typeMismatch := by
  refine ⟨by decide,by decide,rfl,?_⟩
  rw [evaluateBinaryOp_integers plainOperands (l := 5) (r := 0) rfl (by decide) (by decide) (by decide) (by decide)]
  rfl

end Integers
end RemDb
