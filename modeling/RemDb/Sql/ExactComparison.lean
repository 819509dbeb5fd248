import RemDb.Sql.BinaryOp
import RemDb.Sql.Comparison
import RemDb.Sql.GroupMeaning

namespace RemDb
open RemDb.Lib

-- The truth of a comparison of two integers; LIKE is none.
def ComparisonOperator.truth (operator : ComparisonOperator) (v c : Int) : Bool :=
  match operator with
  | .equal => decide (v = c)
  | .notEqual => decide (v ≠ c)
  | .greaterThan => decide (v > c)
  | .greaterThanOrEqual => decide (v ≥ c)
  | .lessThan => decide (v < c)
  | .lessThanOrEqual => decide (v ≤ c)
  | .like => false

def castTo (type : DataType) (c : Int64) : Int :=
  match type.integerWidth with
  | some (width,true) => castSigned width c
  | some (width,false) => castUnsigned width c
  | none => c.toInt

-- A literal out of the range of the type does no harm where its low bytes are on
-- the same side of the value; a time is compared as an unsigned number.
def FieldRight (type : DataType) (operator : ComparisonOperator) (v : Int) (c : Int64) : Prop :=
  if type.integerWidth = none then operator = .equal ∨ operator = .notEqual ∨ (v < 0 ↔ c.toInt < 0)
  else
    type.InRange c.toInt ∨
      match operator with
      | .equal | .notEqual => v ≠ castTo type c
      | .lessThan | .greaterThanOrEqual => v < castTo type c ↔ 0 < c.toInt
      | _ => v ≤ castTo type c ↔ 0 < c.toInt

-- Two numbers with the same double do no harm where they are in the order that
-- equal numbers are. A time is equal to no integer.
def AliasRight (type : DataType) (operator : ComparisonOperator) (v c : Int) : Prop :=
  match operator with
  | .equal | .notEqual =>
    if type = .int64 then True
    else if type.isTime then v ≠ c
    else WholeFloat.nearestInt v = WholeFloat.nearestInt c → v = c
  | .lessThan | .greaterThanOrEqual => WholeFloat.nearestInt v = WholeFloat.nearestInt c → c ≤ v
  | _ => WholeFloat.nearestInt v = WholeFloat.nearestInt c → v ≤ c

section Casting
variable {width : Nat}

theorem toNat_toInt (c : Int64) : (c.toUInt64.toNat : Int) = c.toInt % 2^64 := by
  have bits : c.toUInt64.toNat = c.toBitVec.toNat := rfl
  have signed : c.toInt = c.toBitVec.toInt := rfl
  have below := c.toBitVec.isLt
  rw [bits,signed,BitVec.toInt_eq_toNat_cond]
  split <;> omega

theorem castUnsigned_eq (known : width = 1 ∨ width = 2 ∨ width = 4 ∨ width = 8) (c : Int64) :
    castUnsigned width c = c.toInt % 2^(8*width) := by
  have number := toNat_toInt c
  rw [castUnsigned,ofLE_toLE]
  rcases known with rfl | rfl | rfl | rfl
  all_goals
    simp only [Nat.reduceMul,Nat.reducePow,Int.reducePow] at number ⊢
    omega

theorem castSigned_eq (known : width = 1 ∨ width = 2 ∨ width = 4 ∨ width = 8) (c : Int64) :
    castSigned width c = if c.toInt % 2^(8*width) < 2^(8*width-1) then c.toInt % 2^(8*width)
      else c.toInt % 2^(8*width)-2^(8*width) := by
  have unsigned := castUnsigned_eq known c
  rw [castUnsigned] at unsigned
  rw [castSigned,signedValue,toLE_length]
  rcases known with rfl | rfl | rfl | rfl
  all_goals
    simp only [Nat.reduceMul,Nat.reduceSub,Nat.reducePow,Int.reducePow] at unsigned ⊢
    rw [← unsigned]
    split <;> split <;> omega

theorem castTo_inRange {type : DataType} {c : Int64} (fits : type.InRange c.toInt) : castTo type c = c.toInt := by
  unfold DataType.InRange at fits
  unfold castTo
  cases type <;> simp only [DataType.integerWidth] at fits ⊢
  case uint8 | uint16 | uint32 | uint64 =>
    rw [castUnsigned_eq (by decide)]
    exact Int.emod_eq_of_lt fits.1 fits.2
  case int8 | int16 | int32 | int64 =>
    rw [castSigned_eq (by decide)]
    simp only [Nat.reduceMul,Nat.reduceSub,Int.reducePow] at fits ⊢
    split <;> omega

end Casting

section Field
variable {value : TypedValue} {v : Int} {c : Int64} {operator : ComparisonOperator}

theorem compareNumbers_truth (operator : ComparisonOperator) (v c : Int) : compareNumbers operator v c = operator.truth v c := by
  cases operator with
  | equal => rfl
  | notEqual => exact (@decide_not (v = c) _).symm
  | _ => rfl

theorem signedValue_bounds {bytes : Bytes} (some_byte : 0 < bytes.length) :
    -2^(8*bytes.length-1) ≤ signedValue bytes ∧ signedValue bytes < 2^(8*bytes.length-1) := by
  have below := ofLE_lt bytes
  have power : 256^bytes.length = 2*2^(8*bytes.length-1) := by
    rw [show (256 : Nat) = 2^8 from rfl,← Nat.pow_mul,← Nat.pow_succ']
    exact congrArg (2^·) (by omega)
  have whole : (2 : Int)^(8*bytes.length) = 2*2^(8*bytes.length-1) := by
    rw [← Int.pow_succ']
    exact congrArg (2^·) (by omega)
  have cast : ((2^(8*bytes.length-1) : Nat) : Int) = 2^(8*bytes.length-1) := by push_cast; rfl
  unfold signedValue
  rw [whole]
  split <;> omega

theorem inRange_of_integer (read : value.integer = some v) : value.value_type.InRange v := by
  cases found : value.value_type.integerWidth with
  | none =>
    obtain ⟨type,bytes⟩ := value
    unfold TypedValue.integer at read
    cases type <;> first | (cases read; done) | cases found
  | some shape =>
    obtain ⟨width,signed⟩ := shape
    obtain ⟨known,number⟩ := value.integer_of_width found
    cases read.symm.trans number
    have length := padTo_length width value.value
    unfold DataType.InRange
    rw [found]
    cases signed with
    | true =>
      have bounds := @signedValue_bounds (padTo width value.value) (by rw [length]; omega)
      rw [length] at bounds
      exact bounds
    | false =>
      have below := ofLE_lt (padTo width value.value)
      have power : ((256^width : Nat) : Int) = 2^(8*width) := by
        rw [Int.pow_mul]
        push_cast
        rfl
      rw [length] at below
      exact ⟨Int.natCast_nonneg _,by rw [← power]; exact Int.ofNat_lt.mpr below⟩

theorem kinds_of_sortKey (read : sortKey false value = some v) :
    (value.integer = some v ∧ value.value_type.integerWidth ≠ none ∧ value.value_type.isTime = false) ∨
      (value.value_type.isTime = true ∧ value.value_type.integerWidth = none ∧ v = value.signed 8) := by
  obtain ⟨type,bytes⟩ := value
  unfold sortKey at read
  cases type
  case uint8 | uint16 | uint32 | uint64 | int8 | int16 | int32 | int64 =>
    exact .inl ⟨read,Option.some_ne_none _,rfl⟩
  case timestamp | timestampTZ => exact .inr ⟨rfl,rfl,(Option.some.inj read).symm⟩
  all_goals cases read

theorem compareField_integer (read : value.integer = some v) (operator : ComparisonOperator) (c : Int64) :
    compareFieldWithCondition value operator (.integer c) = operator.truth v (castTo value.value_type c) := by
  rw [← compareNumbers_truth]
  obtain ⟨type,bytes⟩ := value
  unfold TypedValue.integer sortKey at read
  cases type
  case int64 =>
    cases read
    rw [@castTo_inRange .int64 c ⟨c.le_toInt,c.toInt_lt⟩]
    rfl
  case uint8 | uint16 | uint32 | uint64 | int8 | int16 | int32 =>
    cases read
    rfl
  all_goals cases read

theorem outside {type : DataType} {c : Int} (inside : type.InRange v) (out : ¬ type.InRange c) :
    0 < c ∧ v < c ∨ ¬ 0 < c ∧ c < v := by
  unfold DataType.InRange at inside out
  split at inside
  · next width found =>
    rw [found] at out
    have power : (0 : Int) < 2^(8*width-1) := by positivity
    simp only at out
    omega
  · next width found =>
    rw [found] at out
    simp only at out
    omega
  · exact absurd inside id

theorem unsigned_eq (value : TypedValue) : value.unsigned 8 = value.signed 8 % 2^64 := by
  have length := padTo_length 8 value.value
  have below := ofLE_lt (padTo 8 value.value)
  rw [length] at below
  rw [TypedValue.unsigned,TypedValue.signed,signedValue,length]
  split <;> omega

theorem signed_bounds (value : TypedValue) : -2^63 ≤ value.signed 8 ∧ value.signed 8 < 2^63 := by
  have bounds := @signedValue_bounds (padTo 8 value.value) (by rw [padTo_length]; decide)
  rwa [padTo_length] at bounds

theorem compareField_time (time : value.value_type.isTime = true) (operator : ComparisonOperator) (c : Int64) :
    compareFieldWithCondition value operator (.integer c) =
      operator.truth (value.signed 8 % 2^64) (c.toInt % 2^64) := by
  rw [← unsigned_eq,← @castUnsigned_eq 8 (by decide) c,← compareNumbers_truth]
  obtain ⟨type,bytes⟩ := value
  cases type
  case timestamp | timestampTZ => rfl
  all_goals cases time

theorem field_right_iff (read : sortKey false value = some v) (six : operator ≠ .like) :
    compareFieldWithCondition value operator (.integer c) = operator.truth v c.toInt ↔
      FieldRight value.value_type operator v c := by
  unfold FieldRight
  rcases kinds_of_sortKey read with ⟨integer,width,_⟩ | ⟨time,width,rfl⟩
  · rw [if_neg width,compareField_integer integer]
    by_cases fits : value.value_type.InRange c.toInt
    · rw [castTo_inRange fits]
      exact ⟨fun _ => .inl fits,fun _ => rfl⟩
    · have side := outside (inRange_of_integer integer) fits
      rw [or_iff_right fits]
      cases operator with
      | like => exact absurd rfl six
      | _ =>
        simp only [ComparisonOperator.truth,decide_eq_decide]
        omega
  · rw [if_pos width,compareField_time time]
    have bounds := signed_bounds value
    have low := c.le_toInt
    have high := c.toInt_lt
    cases operator with
    | like => exact absurd rfl six
    | equal | notEqual =>
      simp only [ComparisonOperator.truth,decide_eq_decide,reduceCtorEq,true_or,or_true,iff_true]
      omega
    | _ =>
      simp only [ComparisonOperator.truth,decide_eq_decide,reduceCtorEq,false_or]
      omega

end Field

section Literal
variable {value : TypedValue} {v : Int} {operator : ComparisonOperator}

def literal (c : Int64) : TypedValue := ⟨.int64,toLE 8 c.toUInt64.toNat⟩

theorem literal_integer (c : Int64) : (literal c).integer = some c.toInt := by
  have exact : padTo 8 (toLE 8 c.toUInt64.toNat) = toLE 8 c.toUInt64.toNat := by
    have front := TypedValue.padTo_front (toLE_length 8 c.toUInt64.toNat) []
    rwa [List.append_nil] at front
  have number : castSigned 8 c = c.toInt := @castTo_inRange .int64 c ⟨c.le_toInt,c.toInt_lt⟩
  change some (signedValue (padTo 8 (toLE 8 c.toUInt64.toNat))) = _
  rw [exact]
  exact congrArg some number

theorem literal_asFloat (c : Int64) : (literal c).asFloat = some (WholeFloat.ofWhole c.toInt) := by
  change (literal c).integer.map WholeFloat.ofWhole = _
  rw [literal_integer]
  rfl

theorem literal_small (c : Int64) : c.toInt.natAbs < 2^198 := by
  have low := c.le_toInt
  have high := c.toInt_lt
  omega

theorem value_small (read : sortKey false value = some v) : v.natAbs < 2^198 := by
  rcases kinds_of_sortKey read with ⟨integer,width,_⟩ | ⟨_,_,rfl⟩
  · have inside := inRange_of_integer integer
    unfold DataType.InRange at inside
    cases type : value.value_type <;> rw [type] at inside <;> simp only [DataType.integerWidth] at inside <;> omega
  · have bounds := signed_bounds value
    omega

theorem ordered_of_sortKey (read : sortKey false value = some v) : value.ordered = some (WholeFloat.ofWhole v) := by
  obtain ⟨type,bytes⟩ := value
  unfold sortKey at read
  cases type
  case uint8 | uint16 | uint32 | uint64 | int8 | int16 | int32 | int64 | timestamp | timestampTZ =>
    cases read
    rfl
  all_goals cases read

theorem tolerance_unpacked : (1e-12 : Float).toModel.unpack = .finite .positive 4951760157141521 (-92) (by decide) := rfl

theorem difference_small (read : sortKey false value = some v) (c : Int64) :
    decide ((WholeFloat.ofWhole v-WholeFloat.ofWhole c.toInt).abs < 1e-12) =
      decide (WholeFloat.nearestInt v = WholeFloat.nearestInt c.toInt) :=
  decide_eq_decide.mpr (WholeFloat.close_ofWhole tolerance_unpacked (by decide) (value_small read) (literal_small c))

theorem compareValues_literal (read : sortKey false value = some v) (c : Int64) :
    compareValues value (literal c) = .ok
      (if value.value_type = .int64 then decide (v = c.toInt)
      else if value.value_type.isTime then false
      else decide (WholeFloat.nearestInt v = WholeFloat.nearestInt c.toInt)) := by
  have close := difference_small read c
  have number := literal_integer c
  have float := literal_asFloat c
  obtain ⟨type,bytes⟩ := value
  unfold sortKey at read
  cases type
  case int64 =>
    cases read
    change Except.ok (some (signedValue (padTo 8 bytes)) == (literal c).integer) = _
    rw [number]
    rfl
  case timestamp | timestampTZ => rfl
  case uint8 | uint16 | uint32 | uint64 | int8 | int16 | int32 =>
    cases read
    unfold compareValues
    rw [float]
    exact congrArg Except.ok close
  all_goals cases read

theorem compareResolved_order (read : sortKey false value = some v) (c : Int64)
    (order : operator ≠ .equal ∧ operator ≠ .notEqual ∧ operator ≠ .like) :
    compareResolved value (literal c) operator =
      .ok (operator.truth (WholeFloat.nearestInt v) (WholeFloat.nearestInt c.toInt)) := by
  have wide_v : v.natAbs < 2^200 := Nat.lt_trans (value_small read) (by decide)
  have wide_c : c.toInt.natAbs < 2^200 := Nat.lt_trans (literal_small c) (by decide)
  obtain ⟨not_equal,not_other,not_like⟩ := order
  unfold compareResolved
  rw [ordered_of_sortKey read,literal_asFloat]
  cases operator with
  | equal => exact absurd rfl not_equal
  | notEqual => exact absurd rfl not_other
  | like => exact absurd rfl not_like
  | greaterThan => exact congrArg Except.ok (decide_eq_decide.mpr (WholeFloat.lt_ofWhole wide_c wide_v))
  | greaterThanOrEqual => exact congrArg Except.ok (decide_eq_decide.mpr (WholeFloat.le_ofWhole wide_c wide_v))
  | lessThan => exact congrArg Except.ok (decide_eq_decide.mpr (WholeFloat.lt_ofWhole wide_v wide_c))
  | lessThanOrEqual => exact congrArg Except.ok (decide_eq_decide.mpr (WholeFloat.le_ofWhole wide_v wide_c))

theorem alias_right_iff (read : sortKey false value = some v) (six : operator ≠ .like) (c : Int64) :
    compareResolved value (literal c) operator = .ok (operator.truth v c.toInt) ↔
      AliasRight value.value_type operator v c.toInt := by
  have rising := @WholeFloat.nearestInt_mono v c.toInt
  have falling := @WholeFloat.nearestInt_mono c.toInt v
  have same : v = c.toInt → WholeFloat.nearestInt v = WholeFloat.nearestInt c.toInt := congrArg _
  have equality : (if value.value_type = .int64 then decide (v = c.toInt)
      else if value.value_type.isTime then false
      else decide (WholeFloat.nearestInt v = WholeFloat.nearestInt c.toInt)) = decide (v = c.toInt) ↔
        (if value.value_type = .int64 then True else if value.value_type.isTime then v ≠ c.toInt
        else WholeFloat.nearestInt v = WholeFloat.nearestInt c.toInt → v = c.toInt) := by
    split
    · exact ⟨fun _ => trivial,fun _ => rfl⟩
    · split
      · rw [eq_comm,decide_eq_false_iff_not]
      · rw [decide_eq_decide]
        exact ⟨Iff.mp,fun only => ⟨only,same⟩⟩
  unfold AliasRight
  cases operator with
  | like => exact absurd rfl six
  | equal =>
    rw [compareResolved,compareValues_literal read,Except.ok.injEq]
    exact equality
  | notEqual =>
    rw [compareResolved,compareValues_literal read,Except.map,Except.ok.injEq,ComparisonOperator.truth,
      decide_not,Bool.not_inj_iff]
    exact equality
  | _ =>
    rw [compareResolved_order read c (by decide),Except.ok.injEq]
    simp only [ComparisonOperator.truth,decide_eq_decide]
    omega

end Literal

-- The name of a column: no letter of an expression's text.
def PlainName (field : String) : Prop := ∀ letter ∈ ['"','$','<'], letter ∉ field.toList

section Branches
open ConditionContext
variable {semantics : ConditionSemantics} {context : ConditionContext} {comp : ComparisonCondition} {field : String}

theorem breakOn_none {word text : List Char} {letter : Char} (needed : letter ∈ word) (absent : letter ∉ text) :
    breakOn word text = none := by
  induction text with
  | nil =>
    rw [breakOn,if_neg]
    rintro rfl
    cases needed
  | cons head rest ih =>
    rw [breakOn,if_neg,ih fun among => absent (.tail _ among)]
    · rfl
    · intro front
      exact absent ((List.isPrefixOf_iff_prefix.mp front).subset needed)

theorem jsonHasBranch_plain (plain : PlainName comp.field) : jsonHasBranch semantics context comp = .ok none := by
  have cut : breakOn "Field \x7b name: \"".toList comp.field.toList = none := @breakOn_none _ _ '"' (by decide) (plain _ (by decide))
  have nameless : between "Field \x7b name: \"" "\"" comp.field.toList = "" := by rw [between,cut]
  rw [jsonHasBranch,if_neg fun all => all.2.1 nameless]

theorem jsonExtractBranch_plain (plain : PlainName comp.field) : jsonExtractBranch semantics context comp = .ok none := by
  have cut : breakOn "$.age".toList comp.field.toList = none := @breakOn_none _ _ '$' (by decide) (plain _ (by decide))
  have unmentioned : mentions "$.age" comp.field.toList = false := by
    rw [mentions,cut]
    rfl
  rw [jsonExtractBranch,if_neg fun all => absurd (all.2.2.symm.trans unmentioned) (by decide)]

theorem vectorBranch_plain (plain : PlainName comp.field) : vectorBranch semantics context comp = .ok none := by
  have unmentioned : ∀ symbol ∈ vectorOperators, mentions symbol.1 comp.field.toList = false := by
    intro symbol among
    have mark : '<' ∈ symbol.1.toList := by
      rcases List.mem_cons.mp among with rfl | among
      · decide
      rcases List.mem_cons.mp among with rfl | among
      · decide
      · rw [List.mem_singleton.mp among]
        decide
    rw [mentions,breakOn_none mark (plain '<' (by decide))]
    rfl
  rw [vectorBranch,if_neg]
  intro found
  obtain ⟨symbol,among,mentioned⟩ := List.any_eq_true.mp found
  exact absurd ((unmentioned symbol among).symm.trans mentioned) (by decide)

theorem evaluateComparison_plain (plain : PlainName comp.field) :
    evaluateComparisonWithAlias semantics context comp = (do
      let field_value ← context.fieldValue semantics comp.field
      match ← comparisonValue comp.value with
      | none => pure false
      | some comparison_value => compareResolved field_value comparison_value comp.operator) := by
  rw [evaluateComparisonWithAlias,jsonHasBranch_plain plain,jsonExtractBranch_plain plain,vectorBranch_plain plain]
  rfl

theorem integer_comparison_iff (semantics : ConditionSemantics) (context : ConditionContext) (field : String)
    (value : TypedValue) (v : Int) (operator : ComparisonOperator) (c : Int64) (plain : PlainName field)
    (resolved : context.fieldValue semantics field = .ok value) (read : sortKey false value = some v) (six : operator ≠ .like) :
    (compareFieldWithCondition value operator (.integer c) = operator.truth v c.toInt ∧
      evaluateComparisonWithAlias semantics context ⟨field,operator,.integer c⟩ =
        .ok (compareFieldWithCondition value operator (.integer c))) ↔
      FieldRight value.value_type operator v c ∧ AliasRight value.value_type operator v c.toInt := by
  have second : evaluateComparisonWithAlias semantics context ⟨field,operator,.integer c⟩ =
      compareResolved value (literal c) operator := by
    rw [evaluateComparison_plain plain]
    dsimp only
    rw [resolved]
    rfl
  rw [second,← field_right_iff read six,← alias_right_iff read six]
  constructor
  · rintro ⟨first,same⟩
    exact ⟨first,same.trans (congrArg Except.ok first)⟩
  · rintro ⟨first,exact⟩
    exact ⟨first,exact.trans (congrArg Except.ok first.symm)⟩

end Branches

section Samples

def noSemantics : ConditionSemantics where
  expression := fun _ _ _ => .error .internalError
  jsonText := fun _ => ""
  jsonHas := fun _ _ => none
  number := fun _ => none
  dimension := fun _ => none
  distance := fun _ _ _ _ => WholeFloat.ofWhole 0

def ageDef : FieldDef := ⟨"age",.uint8,1,none,0,false,false,false,false,none⟩

def ageContext (age : Nat) : ConditionContext where
  tdef := ⟨0,"people",[ageDef],[],1,1⟩
  record_values := [byteValue age]
  columns := []
  expr_values := []
  alias_map := []

theorem plain_age : PlainName "age" := by
  simp [PlainName]

theorem integer_comparison_thirty :
    compareFieldWithCondition (byteValue 30) .greaterThan (.integer 18) = ComparisonOperator.greaterThan.truth 30 18 ∧
      evaluateComparisonWithAlias noSemantics (ageContext 30) ⟨"age",.greaterThan,.integer 18⟩ =
        .ok (compareFieldWithCondition (byteValue 30) .greaterThan (.integer 18)) :=
  (integer_comparison_iff noSemantics (ageContext 30) "age" (byteValue 30) 30 .greaterThan 18 plain_age rfl (by decide)
    (by decide)).mpr ⟨.inl (by decide),fun same => absurd same (by decide)⟩

-- The low byte of 261 is 5.
theorem narrowed_literal_equal : sortKey false (byteValue 5) = some 5 ∧
    compareFieldWithCondition (byteValue 5) .equal (.integer 261) ≠ ComparisonOperator.equal.truth 5 261 := by decide

end Samples
end RemDb
