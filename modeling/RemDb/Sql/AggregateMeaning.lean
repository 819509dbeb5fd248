import Mathlib.Data.Finset.Max
import RemDb.Sql.Aggregates
import RemDb.Sql.Statements

namespace RemDb
open RemDb.Lib

theorem ofLE_zero (zero : ofLE bytes = 0) : bytes = List.replicate bytes.length 0 := by
  induction bytes with
  | nil => rfl
  | cons byte rest ih =>
    rw [ofLE] at zero
    have first : byte = 0 := UInt8.toNat_inj.mp (by rw [UInt8.toNat_zero]; omega)
    rw [first,List.length_cons,List.replicate_succ,← ih (by omega)]

theorem padTo_take {narrow wide : Nat} (fits : narrow ≤ wide) (bytes : Bytes) :
    padTo narrow bytes = (padTo wide bytes).take narrow := by
  unfold padTo
  rw [List.take_append,List.take_take,List.length_take,List.take_replicate,Nat.min_eq_left fits]
  congr 2
  omega

namespace TypedValue

-- The integer a value of an integer column has.
def amount (value : TypedValue) : Int := value.integer.getD 0

theorem amount_eq {value : TypedValue} {exact : Int} (integer : value.integer = some exact) : value.amount = exact := by
  rw [amount,integer]
  rfl

theorem number_of_integer {value : TypedValue} (integer : value.integer.isSome) :
    value.number = some (value.amount : Rat) := by
  obtain ⟨number,found⟩ := Option.isSome_iff_exists.mp integer
  rw [amount_eq found]
  unfold TypedValue.number
  split
  · rename_i type
    simp [TypedValue.integer,type] at found
  · rename_i type
    simp [TypedValue.integer,type] at found
  · rw [found]
    rfl

theorem amount_of_word {value : TypedValue} (zero : value.word = 0) : value.amount = 0 := by
  have whole := ofLE_zero zero
  rw [padTo_length] at whole
  have narrow : ∀ width, width ≤ 8 → padTo width value.value = List.replicate width 0 := by
    intro width fits
    rw [padTo_take fits,whole,List.take_replicate,Nat.min_eq_left fits]
  unfold amount TypedValue.integer sortKey
  cases value.value_type with
  | uint8 | uint16 | uint32 | uint64 | int8 | int16 | int32 | int64 =>
    dsimp only
    rw [narrow _ (by decide)]
    rfl
  | _ => rfl

theorem word_toLE (type : DataType) {bits : Nat} (small : bits < 2^64) :
    (⟨type,toLE 8 bits⟩ : TypedValue).word = bits := by
  have exact : padTo 8 (toLE 8 bits) = toLE 8 bits := by
    have length := toLE_length 8 bits
    rw [padTo,length,List.take_of_length_le (by omega)]
    exact List.append_nil _
  rw [word,exact,ofLE_toLE]
  exact Nat.mod_eq_of_lt small

end TypedValue

def amounts (values : List TypedValue) : List Int := values.map (·.amount)

-- The values of one integer column, with partial sums a double holds exactly.
structure IntegerColumn (values : List TypedValue) : Prop where
  typed : ∃ type, ∀ value ∈ values, value.value_type = type
  integers : ∀ value ∈ values, value.integer.isSome
  each : ∀ value ∈ values, value.amount.natAbs < 2^53
  sums : ∀ front back, values = front ++ back → (amounts front).sum.natAbs < 2^53

namespace AggregateFunction

def exactly : AggregateFunction → Bool
  | .count | .sum | .avg | .min | .max => true
  | _ => false

-- The value read by its tag is the aggregate of the column. The least, the
-- greatest and the mean of no rows are not defined, nor is a fractional mean.
def Exact (function : AggregateFunction) (values : List TypedValue) (result : TypedValue) : Prop :=
  match function with
  | .count => result.number = some (values.length : Rat)
  | .sum => result.number = some ((amounts values).sum : Rat)
  | .avg => values ≠ [] → ∀ mean : Int, (amounts values).sum = mean*values.length →
    result.number = some (mean : Rat)
  | .min => ∀ least ∈ amounts values, (∀ each ∈ amounts values, least ≤ each) →
    result.number = some (least : Rat)
  | .max => ∀ greatest ∈ amounts values, (∀ each ∈ amounts values, each ≤ greatest) →
    result.number = some (greatest : Rat)
  | _ => True

-- Zero is the extreme nowhere, or something past it is there, or it comes last,
-- or one of the zeros has other bytes that keep it from counting as not set.
def ZeroHeld (beyond : Int → Prop) (values : List TypedValue) : Prop :=
  0 ∉ amounts values ∨ (∃ each ∈ amounts values, beyond each) ∨
    (∃ final, values.getLast? = some final ∧ final.amount = 0) ∨ ∃ value ∈ values, value.amount = 0 ∧ value.word ≠ 0

def RightWhen (function : AggregateFunction) (values : List TypedValue) : Prop :=
  match function with
  | .sum => (amounts values).sum = 0
  | .avg => values.length ≤ 1 ∨ (amounts values).sum = 0 ∨ ¬ (values.length : Int) ∣ (amounts values).sum
  | .min => ZeroHeld (· < 0) values
  | .max => ZeroHeld (0 < ·) values
  | _ => True

end AggregateFunction

section Extremes

-- What MIN and MAX keep, the sign turning one into the other.
def keepBest (sign : Int) (state current : TypedValue) : TypedValue :=
  if state.word = 0 then current
  else if sign*current.amount < sign*state.amount then current else state

structure Best (sign : Int) (values : List TypedValue) (state : TypedValue) : Prop where
  unset : values = [] → state.word = 0
  among : values ≠ [] → state ∈ values
  below : (∃ value ∈ values, sign*value.amount < 0) → ∀ value ∈ values, sign*state.amount ≤ sign*value.amount
  above : (∀ value ∈ values, 0 < sign*value.amount) → ∀ value ∈ values, sign*state.amount ≤ sign*value.amount
  held : (∀ value ∈ values, 0 ≤ sign*value.amount) → (∃ value ∈ values, value.amount = 0 ∧ value.word ≠ 0) →
    state.amount = 0 ∧ state.word ≠ 0
  last : (∀ value ∈ values, 0 ≤ sign*value.amount) → (∀ value ∈ values, value.amount = 0 → value.word = 0) →
    ∀ final, values.getLast? = some final → (state.amount = 0 ↔ final.amount = 0)

variable {sign : Int} {values : List TypedValue} {state current : TypedValue}

theorem Best.start (zero : state.word = 0) : Best sign [] state :=
  ⟨fun _ => zero,fun filled => absurd rfl filled,nofun,nofun,nofun,nofun⟩

-- After a zero that counts as not set, any value is taken.
theorem Best.replaced (best : Best sign values state) (zero : state.word = 0) :
    Best sign (values ++ [current]) current := by
  have flat := TypedValue.amount_of_word zero
  have every {property : TypedValue → Prop} (all : ∀ value ∈ values ++ [current], property value) :
      (∀ value ∈ values, property value) ∧ property current :=
    ⟨fun value among => all value (List.mem_append_left _ among),all current (by simp)⟩
  refine ⟨fun empty => by simp at empty,fun _ => by simp,?_,?_,?_,?_⟩
  · intro ⟨low,among,negative⟩ value member
    have none_below : ∀ each ∈ values, 0 ≤ sign*each.amount := by
      intro each inside
      by_contra under
      have least := best.below ⟨each,inside,by omega⟩ each inside
      rw [flat,Int.mul_zero] at least
      omega
    have newest : low = current := by
      rcases List.mem_append.mp among with inside | rest
      · have above := none_below low inside
        omega
      · exact List.mem_singleton.mp rest
    subst newest
    rcases List.mem_append.mp member with inside | rest
    · have above := none_below value inside
      omega
    · rw [List.mem_singleton.mp rest]
  · intro positive value member
    rcases List.mem_append.mp member with inside | rest
    · have filled : values ≠ [] := List.ne_nil_of_mem inside
      have above := (every positive).1 state (best.among filled)
      rw [flat,Int.mul_zero] at above
      omega
    · rw [List.mem_singleton.mp rest]
  · intro natural ⟨value,among,kept⟩
    rcases List.mem_append.mp among with inside | rest
    · exact absurd zero (best.held (every natural).1 ⟨value,inside,kept⟩).2
    · rw [← List.mem_singleton.mp rest]
      exact kept
  · intro _ _ final same
    rw [List.getLast?_concat] at same
    rw [Option.some.inj same]

theorem Best.lowered (best : Best sign values state) (lower : sign*current.amount < sign*state.amount)
    : Best sign (values ++ [current]) current := by
  refine ⟨fun empty => by simp at empty,fun _ => by simp,?_,?_,?_,?_⟩
  · intro ⟨low,among,negative⟩ value member
    rcases List.mem_append.mp member with inside | rest
    · by_cases under : ∃ each ∈ values, sign*each.amount < 0
      · have least := best.below under value inside
        omega
      · have above : 0 ≤ sign*value.amount := by
          by_contra negative
          exact under ⟨value,inside,by omega⟩
        rcases List.mem_append.mp among with inLow | rest
        · exact absurd ⟨low,inLow,negative⟩ under
        · rw [List.mem_singleton.mp rest] at negative
          omega
    · rw [List.mem_singleton.mp rest]
  · intro positive value member
    rcases List.mem_append.mp member with inside | rest
    · have least := best.above (fun each inEach => positive each (List.mem_append_left _ inEach)) value inside
      omega
    · rw [List.mem_singleton.mp rest]
  · intro natural ⟨value,among,kept⟩
    rcases List.mem_append.mp among with inside | rest
    · have still := best.held (fun each inEach => natural each (List.mem_append_left _ inEach)) ⟨value,inside,kept⟩
      have under := natural current (by simp)
      rw [still.1,Int.mul_zero] at lower
      omega
    · rw [← List.mem_singleton.mp rest]
      exact kept
  · intro _ _ final same
    rw [List.getLast?_concat] at same
    rw [Option.some.inj same]

theorem Best.stayed (best : Best sign values state) (unit : sign = 1 ∨ sign = -1) (other : state.word ≠ 0)
    (higher : sign*state.amount ≤ sign*current.amount) : Best sign (values ++ [current]) state := by
  have filled : values ≠ [] := fun empty => other (best.unset empty)
  have inside := best.among filled
  refine ⟨fun empty => by simp at empty,fun _ => List.mem_append_left _ inside,?_,?_,?_,?_⟩
  · intro ⟨low,among,negative⟩ value member
    have under : ∃ each ∈ values, sign*each.amount < 0 := by
      rcases List.mem_append.mp among with inLow | rest
      · exact ⟨low,inLow,negative⟩
      · rw [List.mem_singleton.mp rest] at negative
        exact ⟨state,inside,by omega⟩
    rcases List.mem_append.mp member with inValue | rest
    · exact best.below under value inValue
    · rw [List.mem_singleton.mp rest]
      exact higher
  · intro positive value member
    rcases List.mem_append.mp member with inValue | rest
    · exact best.above (fun each inEach => positive each (List.mem_append_left _ inEach)) value inValue
    · rw [List.mem_singleton.mp rest]
      exact higher
  · intro natural ⟨value,among,kept⟩
    rcases List.mem_append.mp among with inValue | rest
    · exact best.held (fun each inEach => natural each (List.mem_append_left _ inEach)) ⟨value,inValue,kept⟩
    · rw [← List.mem_singleton.mp rest,kept.1,Int.mul_zero] at higher
      have above := natural state (List.mem_append_left _ inside)
      refine ⟨?_,other⟩
      rcases unit with rfl | rfl <;> omega
  · intro natural plain final same
    rw [List.getLast?_concat] at same
    obtain rfl := Option.some.inj same
    have nonzero : state.amount ≠ 0 := fun zero => other (plain state (List.mem_append_left _ inside) zero)
    have above := natural state (List.mem_append_left _ inside)
    refine ⟨fun zero => absurd zero nonzero,fun zero => ?_⟩
    rw [zero,Int.mul_zero] at higher
    rcases unit with rfl | rfl <;> omega

theorem Best.step (best : Best sign values state) (unit : sign = 1 ∨ sign = -1) :
    Best sign (values ++ [current]) (keepBest sign state current) := by
  unfold keepBest
  split
  · rename_i zero
    exact best.replaced zero
  · rename_i other
    split
    · rename_i lower
      exact best.lowered lower
    · rename_i higher
      exact best.stayed unit other (Int.not_lt.mp higher)

theorem extreme_exists (sign : Int) (filled : values ≠ []) :
    ∃ least ∈ values, ∀ each ∈ values, sign*least.amount ≤ sign*each.amount := by
  have nonempty : values.toFinset.Nonempty := (List.toFinset_nonempty_iff _).mpr filled
  obtain ⟨least,among,lowest⟩ := Finset.exists_min_image values.toFinset (sign*·.amount) nonempty
  exact ⟨least,List.mem_toFinset.mp among,fun each inside => lowest each (List.mem_toFinset.mpr inside)⟩

-- What was kept is the extreme except where a zero that counts as not set was lost.
theorem Best.extreme_iff (best : Best sign values state) (unit : sign = 1 ∨ sign = -1)
    (among : extreme ∈ amounts values) (least : ∀ each ∈ amounts values, sign*extreme ≤ sign*each) :
    state.amount = extreme ↔ AggregateFunction.ZeroHeld (sign*· < 0) values := by
  have leastOf : ∀ value ∈ values, sign*extreme ≤ sign*value.amount := fun value inside =>
    least _ (List.mem_map_of_mem inside)
  obtain ⟨witness,inWitness,rfl⟩ := List.mem_map.mp among
  have filled : values ≠ [] := List.ne_nil_of_mem inWitness
  have inside := best.among filled
  have least_of_state := leastOf state inside
  have equal (low : sign*state.amount ≤ sign*witness.amount) : state.amount = witness.amount := by
    rcases unit with rfl | rfl <;> omega
  by_cases under : ∃ value ∈ values, sign*value.amount < 0
  · obtain ⟨value,inValue,negative⟩ := under
    have right := equal (best.below ⟨value,inValue,negative⟩ witness inWitness)
    exact ⟨fun _ => Or.inr (Or.inl ⟨_,List.mem_map_of_mem inValue,negative⟩),fun _ => right⟩
  · have natural : ∀ value ∈ values, 0 ≤ sign*value.amount := by
      intro value inValue
      by_contra negative
      exact under ⟨value,inValue,by omega⟩
    by_cases zero : 0 ∈ amounts values
    · obtain ⟨flat,inFlat,isFlat⟩ := List.mem_map.mp zero
      have low := leastOf flat inFlat
      have high := natural witness inWitness
      rw [isFlat,Int.mul_zero] at low
      have none_left : witness.amount = 0 := by rcases unit with rfl | rfl <;> omega
      rw [none_left]
      by_cases odd : ∃ value ∈ values, value.amount = 0 ∧ value.word ≠ 0
      · exact ⟨fun _ => Or.inr (Or.inr (Or.inr odd)),fun _ => (best.held natural odd).1⟩
      · have plain : ∀ value ∈ values, value.amount = 0 → value.word = 0 := by
          intro value inValue isZero
          by_contra other
          exact odd ⟨value,inValue,isZero,other⟩
        constructor
        · intro isZero
          have last := best.last natural plain (values.getLast filled) (List.getLast?_eq_some_getLast filled)
          exact Or.inr (Or.inr (Or.inl ⟨_,List.getLast?_eq_some_getLast filled,last.mp isZero⟩))
        · rintro (absent | ⟨_,inEach,negative⟩ | ⟨final,isLast,flat⟩ | kept)
          · exact absurd zero absent
          · obtain ⟨value,inValue,rfl⟩ := List.mem_map.mp inEach
            exact absurd ⟨value,inValue,negative⟩ under
          · exact (best.last natural plain final isLast).mpr flat
          · exact absurd kept odd
    · have positive : ∀ value ∈ values, 0 < sign*value.amount := by
        intro value inValue
        have above := natural value inValue
        have nonzero : value.amount ≠ 0 := fun flat => zero (List.mem_map.mpr ⟨value,inValue,flat⟩)
        rcases unit with rfl | rfl <;> omega
      exact ⟨fun _ => Or.inl zero,fun _ => equal (best.above positive witness inWitness)⟩

end Extremes

namespace AggregateFunction

-- The double of the sum so far, as its bits lie in the union.
def sumBits (values : List TypedValue) : Bytes := toLE 8 (WholeFloat.ofWhole (amounts values).sum).toBits.toNat

def Holds (function : AggregateFunction) (values : List TypedValue) (state : AggregateState) : Prop :=
  match function with
  | .count => state.value = ⟨.uint64,toLE 8 values.length⟩
  | .sum => state.value = ⟨.uint64,sumBits values⟩
  | .avg => state.value = ⟨.float64,sumBits values⟩ ∧ state.count = 0
  | .min => Best 1 values state.value
  | .max => Best (-1) values state.value
  | _ => True

theorem initial_holds (function : AggregateFunction) : function.Holds [] function.initial := by
  have nothing : sumBits [] = toLE 8 0 := by
    unfold sumBits
    change toLE 8 (WholeFloat.ofWhole 0).toBits.toNat = _
    rw [WholeFloat.toBits_zero]
    rfl
  cases function with
  | count => rfl
  | sum => exact congrArg (TypedValue.mk .uint64) nothing.symm
  | avg => exact ⟨congrArg (TypedValue.mk .float64) nothing.symm,rfl⟩
  | min | max => exact Best.start rfl
  | stddev | var | stddevSamp | varSamp | movingAverage | movingSum | timeBucket => trivial

variable {values : List TypedValue} {current : TypedValue} {state : AggregateState}

theorem sumBits_float (type : DataType) (small : (amounts values).sum.natAbs < 2^53) :
    (⟨type,sumBits values⟩ : TypedValue).float64 = WholeFloat.ofWhole (amounts values).sum := by
  unfold TypedValue.float64 sumBits
  rw [TypedValue.word_toLE type (UInt64.toNat_lt _),UInt64.ofNat_toNat,WholeFloat.ofBits_ofWhole small]

theorem sum_grows (type : DataType) (column : IntegerColumn (values ++ [current])) (float : Float)
    (read : float = WholeFloat.ofWhole current.amount) :
    (⟨type,sumBits values⟩ : TypedValue).setFloat64 ((⟨type,sumBits values⟩ : TypedValue).float64+float) =
      ⟨type,sumBits (values ++ [current])⟩ := by
  have before := column.sums values [current] rfl
  have after := column.sums (values ++ [current]) [] (List.append_nil _).symm
  have newest := column.each current (by simp)
  have total : (amounts (values ++ [current])).sum = (amounts values).sum+current.amount := by
    simp [amounts]
  have small : ((amounts values).sum+current.amount).natAbs < 2^53 := by
    rw [← total]
    exact after
  rw [sumBits_float type before,read,WholeFloat.add_ofWhole before newest small,← total]
  rfl

theorem asFloat_of_integer (integer : current.integer.isSome) :
    current.asFloat = some (WholeFloat.ofWhole current.amount) := by
  obtain ⟨exact,found⟩ := Option.isSome_iff_exists.mp integer
  rw [TypedValue.amount_eq found]
  unfold TypedValue.asFloat
  split
  · rename_i type
    simp [TypedValue.integer,type] at found
  · rename_i type
    simp [TypedValue.integer,type] at found
  · rw [found]
    rfl

theorem less_of_integers {left right : TypedValue} (same : left.value_type = right.value_type)
    (integer : left.integer.isSome) (other : right.integer.isSome) :
    left.less right = .ok (decide (left.amount < right.amount)) := by
  obtain ⟨one,found⟩ := Option.isSome_iff_exists.mp integer
  obtain ⟨two,foundTwo⟩ := Option.isSome_iff_exists.mp other
  rw [TypedValue.amount_eq found,TypedValue.amount_eq foundTwo]
  unfold TypedValue.less
  rw [if_pos same,found,foundTwo]
  split
  · rename_i type
    simp [TypedValue.integer,type] at found
  · rename_i type
    simp [TypedValue.integer,type] at found
  · rename_i first second _ _
    obtain rfl := Option.some.inj first
    obtain rfl := Option.some.inj second
    rfl
  · rename_i absent
    exact absurd rfl (absent _ _ rfl)

theorem keepBest_eq {sign : Int} {better : Except QueryExecutionError Bool}
    (compare : state.value.word ≠ 0 → better = .ok (decide (sign*current.amount < sign*state.value.amount))) :
    (if state.value.word = 0 then Except.ok {state with value:=current}
      else better.map fun found => if found then {state with value:=current} else state) =
        (Except.ok {state with value:=keepBest sign state.value current} :
          Except QueryExecutionError AggregateState) := by
  unfold keepBest
  split
  · rfl
  · rename_i set
    rw [compare set]
    change Except.ok (if decide (sign*current.amount < sign*state.value.amount) = true then _ else _) = _
    by_cases lower : sign*current.amount < sign*state.value.amount
    · simp [lower]
    · simp [lower]

theorem kept_compares {sign : Int} (best : Best sign values state.value)
    (column : IntegerColumn (values ++ [current])) (set : state.value.word ≠ 0) :
    state.value.value_type = current.value_type ∧ state.value.integer.isSome ∧ current.integer.isSome := by
  have inside : state.value ∈ values ++ [current] :=
    List.mem_append_left _ (best.among fun empty => set (best.unset empty))
  have newest : current ∈ values ++ [current] := by simp
  obtain ⟨type,typed⟩ := column.typed
  exact ⟨(typed _ inside).trans (typed _ newest).symm,column.integers _ inside,column.integers _ newest⟩

theorem update_holds {function : AggregateFunction} (plain : function.exactly = true) (holds : function.Holds values state)
    (column : IntegerColumn (values ++ [current])) (few : values.length+1 < 2^64) :
    ∃ next, function.update state current = .ok next ∧ function.Holds (values ++ [current]) next := by
  have integer := column.integers current (by simp)
  obtain ⟨exact,found⟩ := Option.isSome_iff_exists.mp integer
  cases function with
  | count =>
    refine ⟨_,rfl,?_⟩
    have value : state.value = ⟨.uint64,toLE 8 values.length⟩ := holds
    change state.value.setWord _ = _
    rw [value,TypedValue.word_toLE _ (by omega),Nat.mod_eq_of_lt few,List.length_append]
    rfl
  | sum =>
    have value : state.value = ⟨.uint64,sumBits values⟩ := holds
    refine ⟨_,by rw [update,found],?_⟩
    change state.value.setFloat64 _ = _
    rw [value]
    exact sum_grows _ column _ (congrArg WholeFloat.ofWhole (TypedValue.amount_eq found).symm)
  | avg =>
    obtain ⟨value,untouched⟩ := holds
    refine ⟨{state with value:=state.value.setFloat64 (state.value.float64+WholeFloat.ofWhole current.amount)},
      by rw [update,asFloat_of_integer integer],?_,untouched⟩
    change state.value.setFloat64 _ = _
    rw [value]
    exact sum_grows _ column _ rfl
  | min =>
    refine ⟨_,keepBest_eq ?_,Best.step holds (Or.inl rfl)⟩
    intro set
    obtain ⟨same,kept,newest⟩ := kept_compares holds column set
    rw [less_of_integers same.symm newest kept,Int.one_mul,Int.one_mul]
  | max =>
    refine ⟨_,keepBest_eq ?_,Best.step holds (Or.inr rfl)⟩
    intro set
    obtain ⟨same,kept,newest⟩ := kept_compares holds column set
    rw [less_of_integers same kept newest]
    congr 2
    exact propext (by omega)
  | stddev | var | stddevSamp | varSamp | movingAverage | movingSum | timeBucket => cases plain

theorem number_uint64 {bits : Nat} (small : bits < 2^64) :
    (⟨.uint64,toLE 8 bits⟩ : TypedValue).number = some (bits : Rat) := by
  have read := TypedValue.word_toLE .uint64 small
  change some (((ofLE (padTo 8 (toLE 8 bits)) : Nat) : Int) : Rat) = _
  rw [TypedValue.word] at read
  rw [read]
  rfl

-- Bits of a double read as an integer are the number only for zero.
theorem sum_exact_iff (column : IntegerColumn values) (holds : AggregateFunction.sum.Holds values state) :
    AggregateFunction.sum.Exact values (AggregateFunction.sum.finish state) ↔ AggregateFunction.sum.RightWhen values := by
  have value : state.value = ⟨.uint64,sumBits values⟩ := holds
  have small := column.sums values [] (List.append_nil _).symm
  change state.value.number = some ((amounts values).sum : Rat) ↔ (amounts values).sum = 0
  rw [value,sumBits,number_uint64 (UInt64.toNat_lt _),Option.some.injEq]
  constructor
  · intro same
    by_contra other
    have large := WholeFloat.toBits_large other small
    have equal : ((WholeFloat.ofWhole (amounts values).sum).toBits.toNat : Int) = (amounts values).sum := by
      exact_mod_cast same
    omega
  · intro zero
    rw [zero,WholeFloat.toBits_zero]
    rfl

-- The divisor is never counted, so that the mean is the sum.
theorem avg_exact_iff (column : IntegerColumn values) (holds : AggregateFunction.avg.Holds values state) :
    AggregateFunction.avg.Exact values (AggregateFunction.avg.finish state) ↔ AggregateFunction.avg.RightWhen values := by
  obtain ⟨value,untouched⟩ := holds
  have small := column.sums values [] (List.append_nil _).symm
  have result : (AggregateFunction.avg.finish state).number = some ((amounts values).sum : Rat) := by
    unfold finish
    dsimp only
    rw [untouched,if_neg (by decide),value]
    change WholeFloat.rational (TypedValue.float64 _).toModel.unpack = _
    rw [sumBits_float .float64 small,WholeFloat.rational_ofWhole small]
  change (values ≠ [] → ∀ mean : Int, _ → _) ↔ _
  rw [result]
  constructor
  · intro exact
    by_cases short : values.length ≤ 1
    · exact Or.inl short
    · by_cases divides : (values.length : Int) ∣ (amounts values).sum
      · obtain ⟨mean,product⟩ := divides
        have filled : values ≠ [] := by
          intro empty
          rw [empty] at short
          exact short (Nat.zero_le _)
        have same : (amounts values).sum = mean := by
          have equal := Option.some.inj (exact filled mean (by rw [product,Int.mul_comm]))
          exact_mod_cast equal
        rw [same] at product
        have zero : mean*((values.length : Int)-1) = 0 := by
          rw [Int.mul_sub,Int.mul_comm,← product]
          omega
        rcases Int.mul_eq_zero.mp zero with none_left | one
        · exact Or.inr (Or.inl (same.trans none_left))
        · omega
      · exact Or.inr (Or.inr divides)
  · intro right filled mean product
    rcases right with short | zero | fractional
    · have one : values.length = 1 := by
        have positive := List.length_pos_of_ne_nil filled
        omega
      rw [one,Int.natCast_one,Int.mul_one] at product
      rw [product]
    · rw [zero] at product
      have positive := List.length_pos_of_ne_nil filled
      have none_left : mean = 0 := by
        rcases Int.mul_eq_zero.mp product.symm with left | right
        · exact left
        · omega
      rw [zero,none_left]
    · exact absurd ⟨mean,product.trans (Int.mul_comm _ _)⟩ fractional

-- The kept value read by its tag, against every number that is the extreme.
theorem extreme_exact_iff {sign : Int} (unit : sign = 1 ∨ sign = -1) (column : IntegerColumn values)
    (best : Best sign values state.value) :
    (∀ extreme ∈ amounts values, (∀ each ∈ amounts values, sign*extreme ≤ sign*each) →
      state.value.number = some (extreme : Rat)) ↔ ZeroHeld (sign*· < 0) values := by
  have reads (filled : values ≠ []) (extreme : Int) :
      state.value.number = some (extreme : Rat) ↔ state.value.amount = extreme := by
    rw [TypedValue.number_of_integer (column.integers _ (best.among filled)),Option.some.injEq]
    exact Int.cast_inj
  constructor
  · intro exact
    by_cases filled : values = []
    · refine Or.inl ?_
      rw [filled]
      exact List.not_mem_nil
    · obtain ⟨least,among,lowest⟩ := extreme_exists sign filled
      have lowest_of : ∀ each ∈ amounts values, sign*least.amount ≤ sign*each := by
        intro each inside
        obtain ⟨value,inValue,rfl⟩ := List.mem_map.mp inside
        exact lowest value inValue
      have inside : least.amount ∈ amounts values := List.mem_map_of_mem among
      exact (best.extreme_iff unit inside lowest_of).mp ((reads filled _).mp (exact _ inside lowest_of))
  · intro kept extreme among lowest
    have filled : values ≠ [] := by
      intro empty
      rw [empty] at among
      cases among
    exact (reads filled _).mpr ((best.extreme_iff unit among lowest).mpr kept)

theorem finish_exact_iff {function : AggregateFunction} (plain : function.exactly = true) (column : IntegerColumn values)
    (few : values.length < 2^64) (holds : function.Holds values state) :
    function.Exact values (function.finish state) ↔ function.RightWhen values := by
  cases function with
  | count =>
    have value : state.value = ⟨.uint64,toLE 8 values.length⟩ := holds
    change state.value.number = _ ↔ True
    rw [value,number_uint64 few]
    exact iff_true_intro rfl
  | sum => exact sum_exact_iff column holds
  | avg => exact avg_exact_iff column holds
  | min =>
    have right := extreme_exact_iff (Or.inl rfl) column holds
    simp only [Int.one_mul] at right
    exact right
  | max =>
    have right := extreme_exact_iff (Or.inr rfl) column holds
    simp only [Int.neg_mul,Int.one_mul,Int.neg_le_neg_iff,Int.neg_neg_iff_pos] at right
    exact right
  | stddev | var | stddevSamp | varSamp | movingAverage | movingSum | timeBucket => cases plain

end AggregateFunction
theorem mapM_forall {R : α → β → Prop} {S : γ → β → Prop} {f : α → Except ε γ}
    (step : ∀ input label, R input label → ∃ output, f input = .ok output ∧ S output label)
    (inputs : List.Forall₂ R sources labels) :
    ∃ outputs, sources.mapM f = .ok outputs ∧ List.Forall₂ S outputs labels := by
  induction inputs with
  | nil => exact ⟨[],rfl,.nil⟩
  | cons first others ih =>
    obtain ⟨output,done,kept⟩ := step _ _ first
    obtain ⟨outputs,rest,all⟩ := ih
    refine ⟨output :: outputs,?_,.cons kept all⟩
    rw [List.mapM_cons,done,rest]
    rfl

theorem mapM_cons_ok {f : α → Except ε β} (done : (first :: rest).mapM f = .ok outputs) :
    ∃ output others, f first = .ok output ∧ rest.mapM f = .ok others ∧ outputs = output :: others := by
  rw [List.mapM_cons] at done
  cases head : f first with
  | error failure =>
    rw [head] at done
    cases done
  | ok output =>
    cases tail : rest.mapM f with
    | error failure =>
      rw [head,tail] at done
      cases done
    | ok others =>
      rw [head,tail] at done
      exact ⟨output,others,rfl,rfl,(Except.ok.inj done).symm⟩

theorem mapM_length {f : α → Except ε β} {sources : List α} {outputs : List β} (done : sources.mapM f = .ok outputs) :
    outputs.length = sources.length := by
  induction sources generalizing outputs with
  | nil =>
    obtain rfl := Except.ok.inj done
    rfl
  | cons first rest ih =>
    obtain ⟨output,others,_,tail,rfl⟩ := mapM_cons_ok done
    rw [List.length_cons,List.length_cons,ih tail]

section Query
variable {semantics : Semantics} {field_index_map : String → Option Nat}

theorem IntegerColumn.front {front back : List TypedValue} (column : IntegerColumn (front ++ back)) : IntegerColumn front := by
  obtain ⟨⟨type,typed⟩,integers,each,sums⟩ := column
  refine ⟨⟨type,fun value inside => typed value (List.mem_append_left _ inside)⟩,
    fun value inside => integers value (List.mem_append_left _ inside),
    fun value inside => each value (List.mem_append_left _ inside),?_⟩
  intro before after split
  refine sums before (after ++ back) ?_
  rw [split,List.append_assoc]

structure Aggregated (semantics : Semantics) (field_index_map : String → Option Nat) (rows : List RecordValues)
    (column : AggregateCall × List TypedValue) : Prop where
  plain : column.1.function.exactly = true
  values : rows.mapM (evaluateForAggregate semantics field_index_map column.1.args) = .ok column.2
  integers : IntegerColumn column.2

def Awaiting (semantics : Semantics) (field_index_map : String → Option Nat) (rows : List RecordValues)
    (state : AggregateCall × AggregateState) (column : AggregateCall × List TypedValue) : Prop :=
  state.1 = column.1 ∧ column.1.function.exactly = true ∧ IntegerColumn column.2 ∧ column.2.length < 2^64 ∧
    ∃ done rest, column.2 = done ++ rest ∧ column.1.function.Holds done state.2 ∧
      rows.mapM (evaluateForAggregate semantics field_index_map column.1.args) = .ok rest

theorem updateColumn_awaiting (state : AggregateCall × AggregateState) (column : AggregateCall × List TypedValue)
    (pending : Awaiting semantics field_index_map (row :: rows) state column) :
    ∃ next, updateColumn semantics field_index_map row state = .ok next ∧
      Awaiting semantics field_index_map rows next column := by
  obtain ⟨call,before⟩ := state
  obtain ⟨rfl,plain,integers,few,done,rest,split,holds,values⟩ := pending
  obtain ⟨current,others,evaluated,tail,rfl⟩ := mapM_cons_ok values
  have whole : column.2 = (done ++ [current]) ++ others := by rw [split,List.append_assoc]; rfl
  have so_far : IntegerColumn (done ++ [current]) := (whole ▸ integers).front
  have short : done.length+1 < 2^64 := by
    rw [split,List.length_append,List.length_cons] at few
    omega
  obtain ⟨after,updated,kept⟩ := AggregateFunction.update_holds plain holds so_far short
  refine ⟨(column.1,after),?_,rfl,plain,integers,few,done ++ [current],others,whole,kept,tail⟩
  unfold updateColumn
  rw [evaluated]
  change (column.1.function.update before current >>= fun updated => pure (column.1,updated)) = _
  rw [updated]
  rfl

theorem rows_awaiting (rows : List RecordValues) {states : List (AggregateCall × AggregateState)}
    {columns : List (AggregateCall × List TypedValue)}
    (pending : List.Forall₂ (Awaiting semantics field_index_map rows) states columns) :
    ∃ final, rows.foldlM (fun columns record_values =>
        columns.mapM (updateColumn semantics field_index_map record_values)) states = .ok final ∧
      List.Forall₂ (Awaiting semantics field_index_map []) final columns := by
  induction rows generalizing states with
  | nil => exact ⟨states,rfl,pending⟩
  | cons row rest ih =>
    obtain ⟨next,updated,kept⟩ := mapM_forall updateColumn_awaiting pending
    obtain ⟨final,folded,last⟩ := ih kept
    refine ⟨final,?_,last⟩
    rw [List.foldlM_cons,updated]
    exact folded

-- A row of aggregates of integer columns is exact if and only if each of them
-- is one the code gets right.
theorem aggregates_exact_iff (semantics : Semantics) (field_index_map : String → Option Nat)
    (columns : List Expression) (rows : List RecordValues) (meant : List (AggregateCall × List TypedValue))
    (calls : columns.mapM aggregateCall = .ok (meant.map (·.1))) (few : rows.length < 2^64)
    (aggregated : ∀ column ∈ meant, Aggregated semantics field_index_map rows column) :
    (∃ row, processAggregateQuery semantics columns rows field_index_map = .ok row ∧
      List.Forall₂ (fun column value => column.1.function.Exact column.2 value) meant row) ↔
        ∀ column ∈ meant, column.1.function.RightWhen column.2 := by
  have start : List.Forall₂ (Awaiting semantics field_index_map rows)
      ((meant.map (·.1)).map fun call => (call,call.function.initial)) meant := by
    rw [List.map_map,List.forall₂_map_left_iff]
    refine List.forall₂_same.mpr fun column among => ?_
    obtain ⟨plain,values,integers⟩ := aggregated column among
    refine ⟨rfl,plain,integers,?_,[],column.2,rfl,AggregateFunction.initial_holds _,values⟩
    rw [mapM_length values]
    exact few
  obtain ⟨final,folded,last⟩ := rows_awaiting rows start
  have answer : processAggregateQuery semantics columns rows field_index_map =
      .ok (final.map fun column => column.1.function.finish column.2) := by
    unfold processAggregateQuery
    rw [calls]
    change ((rows.foldlM _ _ : Except QueryExecutionError _) >>= _) = _
    rw [folded]
    rfl
  have each : List.Forall₂ (fun (column : AggregateCall × List TypedValue) (state : AggregateCall × AggregateState) =>
      column.1.function.Exact column.2 (state.1.function.finish state.2) ↔ column.1.function.RightWhen column.2)
      meant final := by
    refine List.Forall₂.flip (last.imp ?_)
    intro state column ⟨same,plain,integers,short,done,rest,split,holds,none_left⟩
    obtain rfl := Except.ok.inj none_left
    obtain split : column.2 = done := split.trans (List.append_nil done)
    change column.1.function.Exact column.2 (state.1.function.finish state.2) ↔ _
    rw [same,split]
    rw [split] at integers short
    exact AggregateFunction.finish_exact_iff plain integers short holds
  rw [answer]
  have whole : List.Forall₂ (fun column value => column.1.function.Exact column.2 value) meant
      (final.map fun column => column.1.function.finish column.2) ↔
        ∀ column ∈ meant, column.1.function.RightWhen column.2 := by
    rw [List.forall₂_map_right_iff]
    clear answer start folded last calls aggregated
    induction each with
    | nil => exact ⟨fun _ _ => nofun,fun _ => .nil⟩
    | cons first others ih =>
      rw [List.forall₂_cons,List.forall_mem_cons,first,ih]
  rw [← whole]
  constructor
  · intro ⟨row,same,exact⟩
    rw [Except.ok.inj same]
    exact exact
  · intro exact
    exact ⟨_,rfl,exact⟩

end Query

def callOf (name : String) : Expression := .functionCall name [.field "a"]
def numberRow (n : Int) : RecordValues := [⟨.int64,toLE 8 (n % 2^64).toNat⟩]

theorem column_of_small {values : List TypedValue} (short : values.length ≤ 2)
    (typed : ∀ value ∈ values, value.value_type = .int64) (small : ∀ value ∈ values, value.amount.natAbs < 2^52) :
    IntegerColumn values := by
  refine ⟨⟨.int64,typed⟩,?_,fun value inside => Nat.lt_trans (small value inside) (by decide),?_⟩
  · intro value inside
    rw [TypedValue.integer,typed value inside]
    simp [sortKey,typed value inside]
  · intro front back split
    subst split
    match front, short with
    | [], _ => decide
    | [one], _ =>
      have bound := small one (by simp)
      simp only [amounts,List.map_cons,List.map_nil,List.sum_cons,List.sum_nil]
      omega
    | [one,two], _ =>
      have first := small one (by simp)
      have second := small two (by simp)
      simp only [amounts,List.map_cons,List.map_nil,List.sum_cons,List.sum_nil]
      omega

-- COUNT and MAX of two negative numbers.
theorem aggregates_exact_pair : ∃ row,
    processAggregateQuery integerSemantics [callOf "COUNT",callOf "MAX"] [numberRow (-3),numberRow (-5)] (fun _ => some 0) =
      .ok row ∧ List.Forall₂ (fun (column : AggregateCall × List TypedValue) value =>
        column.1.function.Exact column.2 value)
          [(⟨.count,[.field "a"]⟩,[⟨.int64,toLE 8 (2^64-3)⟩,⟨.int64,toLE 8 (2^64-5)⟩]),
            (⟨.max,[.field "a"]⟩,[⟨.int64,toLE 8 (2^64-3)⟩,⟨.int64,toLE 8 (2^64-5)⟩])] row := by
  refine (aggregates_exact_iff integerSemantics (fun _ => some 0) [callOf "COUNT",callOf "MAX"]
    [numberRow (-3),numberRow (-5)] _ rfl (by decide) ?_).mpr ?_
  · intro column among
    simp only [List.mem_cons,List.not_mem_nil,or_false] at among
    rcases among with rfl | rfl
    · exact ⟨rfl,rfl,column_of_small (by decide) (by decide) (by decide)⟩
    · exact ⟨rfl,rfl,column_of_small (by decide) (by decide) (by decide)⟩
  · intro column among
    simp only [List.mem_cons,List.not_mem_nil,or_false] at among
    rcases among with rfl | rfl
    · trivial
    · exact Or.inl (by decide)

-- MIN of 0 and 5 is 5: the zero counts as not set.
theorem minimum_forgets_zero : ¬ ∀ (semantics : Semantics) (field_index_map : String → Option Nat)
    (columns : List Expression) (rows : List RecordValues) (meant : List (AggregateCall × List TypedValue)),
    columns.mapM aggregateCall = .ok (meant.map (·.1)) → rows.length < 2^64 →
      (∀ column ∈ meant, Aggregated semantics field_index_map rows column) →
        ∃ row, processAggregateQuery semantics columns rows field_index_map = .ok row ∧
          List.Forall₂ (fun column value => column.1.function.Exact column.2 value) meant row := by
  intro always
  let values : List TypedValue := [⟨.int64,toLE 8 0⟩,⟨.int64,toLE 8 5⟩]
  obtain ⟨row,answer,exact⟩ := always integerSemantics (fun _ => some 0) [callOf "MIN"] [numberRow 0,numberRow 5]
    [(⟨.min,[.field "a"]⟩,values)] rfl (by decide) (by
      intro column among
      rw [List.mem_singleton.mp among]
      exact ⟨rfl,rfl,column_of_small (by decide) (by decide) (by decide)⟩)
  obtain rfl : [(⟨.int64,toLE 8 5⟩ : TypedValue)] = row := Except.ok.inj answer
  obtain ⟨least,_⟩ := List.forall₂_cons.mp exact
  have wrong : some ((5 : Int) : Rat) = some ((0 : Int) : Rat) := least 0 (by decide) (by decide)
  exact absurd (Int.cast_injective (Option.some.inj wrong)) (by decide)

end RemDb
