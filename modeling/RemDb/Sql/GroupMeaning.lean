import RemDb.Lib.Grouping
import RemDb.Sql.AggregateMeaning
import RemDb.Sql.GroupAggregates

namespace RemDb
open RemDb.Lib

namespace TypedValue

theorem padTo_front {width : Nat} {front : Bytes} (sized : front.length = width) (rest : Bytes) :
    padTo width (front ++ rest) = front := by
  have none_left : width-(front ++ rest).length = 0 := by
    rw [List.length_append]
    omega
  rw [padTo,List.take_append_of_le_length (Nat.le_of_eq sized.symm),List.take_of_length_le (Nat.le_of_eq sized),none_left]
  exact List.append_nil front

theorem integer_of_width (value : TypedValue) {width : Nat} {signed : Bool}
    (type : value.value_type.integerWidth = some (width,signed)) :
    (width = 1 ∨ width = 2 ∨ width = 4 ∨ width = 8) ∧ value.integer =
      some (if signed then signedValue (padTo width value.value) else (ofLE (padTo width value.value) : Int)) := by
  obtain ⟨value_type,bytes⟩ := value
  unfold TypedValue.integer sortKey
  cases value_type
  case uint8 | uint16 | uint32 | uint64 | int8 | int16 | int32 | int64 =>
    cases type
    exact ⟨by decide,rfl⟩
  all_goals cases type

theorem integer_isSome {value : TypedValue} (type : value.value_type.integerWidth.isSome) :
    value.integer = some value.amount := by
  obtain ⟨⟨width,signed⟩,found⟩ := Option.isSome_iff_exists.mp type
  have whole := (integer_of_width value found).2
  rw [amount_eq whole,whole]

theorem signedValue_toLE {width : Nat} (known : width = 1 ∨ width = 2 ∨ width = 4 ∨ width = 8) {number : Int}
    (low : -2^(8*width-1) ≤ number) (high : number < 2^(8*width-1)) :
    signedValue (toLE width (number % 2^(8*width)).toNat) = number := by
  rw [signedValue,ofLE_toLE,toLE_length]
  rcases known with rfl | rfl | rfl | rfl
  all_goals
    simp only [Nat.reduceMul,Nat.reduceSub,Nat.reducePow,Int.reducePow] at low high ⊢
    omega

theorem unsigned_toLE {width : Nat} (known : width = 1 ∨ width = 2 ∨ width = 4 ∨ width = 8) {number : Int}
    (low : 0 ≤ number) (high : number < 2^(8*width)) : (ofLE (toLE width (number % 2^(8*width)).toNat) : Int) = number := by
  rw [ofLE_toLE]
  rcases known with rfl | rfl | rfl | rfl
  all_goals
    simp only [Nat.reduceMul,Nat.reducePow,Int.reducePow] at high ⊢
    omega

theorem addTo_exact (checks : Bool) (total current : TypedValue) (type : total.value_type.integerWidth.isSome)
    (alike : current.value_type = total.value_type) (fits : total.value_type.InRange (total.amount+current.amount)) :
    ∃ sum, total.addTo checks current = .ok sum ∧ sum.value_type = total.value_type ∧
      sum.amount = total.amount+current.amount := by
  obtain ⟨⟨width,signed⟩,found⟩ := Option.isSome_iff_exists.mp type
  have one := integer_isSome type
  have two : current.integer = some current.amount := integer_isSome (alike ▸ type)
  unfold addTo
  simp only [found,one,two]
  rw [if_neg (by simp [fits])]
  refine ⟨_,rfl,rfl,?_⟩
  obtain ⟨known,whole⟩ := integer_of_width ⟨total.value_type,
    toLE width ((total.amount+current.amount) % 2^(8*width)).toNat ++ total.value.drop width⟩ found
  rw [amount_eq whole,padTo_front (toLE_length _ _)]
  unfold DataType.InRange at fits
  simp only [found] at fits
  cases signed with
  | true => exact signedValue_toLE known fits.1 fits.2
  | false => exact unsigned_toLE known fits.1 fits.2

end TypedValue

namespace AggregateFunction
variable {checks : Bool} {name : String} {type : DataType} {values : List TypedValue}

-- The fold of a group over the values of its one argument.
def groupFold (checks : Bool) (name : String) (function : AggregateFunction) (values : List TypedValue) :
    Except GroupFault TypedValue :=
  values.foldlM (fun agg_result current => function.groupUpdate checks name agg_result [current]) function.groupInitial

theorem groupFold_concat (function : AggregateFunction) (front : List TypedValue) (current : TypedValue) :
    groupFold checks name function (front ++ [current]) =
      (groupFold checks name function front).bind fun total => function.groupUpdate checks name total [current] := by
  unfold groupFold
  rw [List.foldlM_append]
  cases front.foldlM (fun agg_result current => function.groupUpdate checks name agg_result [current])
    function.groupInitial with
  | error fault => rfl
  | ok total =>
    change (function.groupUpdate checks name total [current] >>= pure) = function.groupUpdate checks name total [current]
    cases function.groupUpdate checks name total [current] <;> rfl

structure OfColumn (type : DataType) (values : List TypedValue) : Prop where
  integer : type.integerWidth.isSome
  typed : ∀ value ∈ values, value.value_type = type

theorem OfColumn.front (column : OfColumn type (values ++ rest)) : OfColumn type values :=
  ⟨column.integer,fun value member => column.typed value (List.mem_append_left _ member)⟩

theorem OfColumn.last (column : OfColumn type (values ++ [current])) : current.value_type = type :=
  column.typed current (List.mem_append_right _ List.mem_cons_self)

theorem initial_word : (⟨.uint64,toLE 8 0⟩ : TypedValue).word = 0 := by decide

theorem amount_of_first {total : TypedValue} (first : total.isFirst = true) : total.amount = 0 := by
  unfold TypedValue.isFirst at first
  exact TypedValue.amount_of_word (of_decide_eq_true first).2

section Sums

-- Every sum from the first value on is in the range of the column's type.
def SumsFit (type : DataType) (values : List TypedValue) : Prop :=
  ∀ count, type.InRange (amounts (values.take count)).sum

-- No addition that the fold makes overflows.
def AdditionsFit (checks : Bool) (name : String) (type : DataType) (values : List TypedValue) : Prop :=
  ∀ front current rest, values = front ++ current :: rest → ∀ total,
    groupFold checks name .sum front = .ok total → type.InRange (total.amount+current.amount)

def Summed (type : DataType) (values : List TypedValue) (total : TypedValue) : Prop :=
  total.amount = (amounts values).sum ∧
    (values = [] ∧ total = ⟨.uint64,toLE 8 0⟩ ∨ total.value_type = type)

theorem amounts_concat (values : List TypedValue) (current : TypedValue) :
    (amounts (values ++ [current])).sum = (amounts values).sum+current.amount := by
  simp [amounts]

theorem inRange_zero (integer : type.integerWidth.isSome) : type.InRange 0 := by
  cases type
  case uint8 | uint16 | uint32 | uint64 | int8 | int16 | int32 | int64 => decide
  all_goals cases integer

theorem sumsFit_of_prefixes (inside : ∀ count ≤ values.length, type.InRange (amounts (values.take count)).sum) :
    SumsFit type values := by
  intro count
  rw [List.take_eq_take_min]
  exact inside _ (Nat.min_le_right _ _)

theorem SumsFit.front (fits : SumsFit type (values ++ rest)) : SumsFit type values := by
  intro count
  have inner := fits (Nat.min count values.length)
  rw [List.take_append_of_le_length (Nat.min_le_right _ _)] at inner
  rw [List.take_eq_take_min]
  exact inner

theorem SumsFit.whole (fits : SumsFit type values) : type.InRange (amounts values).sum := by
  have all := fits values.length
  rwa [List.take_length] at all

theorem sumsFit_concat (fits : SumsFit type values) (whole : type.InRange ((amounts values).sum+current.amount)) :
    SumsFit type (values ++ [current]) := by
  intro count
  by_cases inside : count ≤ values.length
  · rw [List.take_append_of_le_length inside]
    exact fits count
  · rw [List.take_of_length_le (by rw [List.length_append,List.length_singleton]; omega),amounts_concat]
    exact whole

theorem sum_step (checks : Bool) (name : String) {total current : TypedValue} (column : OfColumn type (values ++ [current])) (summed : Summed type values total)
    (fits : type.InRange ((amounts values).sum+current.amount)) :
    ∃ next, AggregateFunction.groupUpdate checks name .sum total [current] = .ok next ∧
      Summed type (values ++ [current]) next := by
  obtain ⟨amount,state⟩ := summed
  by_cases first : total.isFirst = true
  · refine ⟨current,?_,?_,.inr column.last⟩
    · unfold groupUpdate firstValue
      exact if_pos first
    · rw [amounts_concat,← amount,amount_of_first first,Int.zero_add]
  · have typed : total.value_type = type := by
      rcases state with ⟨_,rfl⟩ | typed
      · exact absurd (by decide) first
      · exact typed
    obtain ⟨sum,added,sum_type,sum_amount⟩ := TypedValue.addTo_exact checks total
      current (typed ▸ column.integer) (column.last.trans typed.symm) (by rw [typed,amount]; exact fits)
    refine ⟨sum,?_,?_,.inr (sum_type.trans typed)⟩
    · have alike : ¬ total.value_type ≠ current.value_type := not_not.mpr (typed.trans column.last.symm)
      unfold groupUpdate firstValue
      change (if total.isFirst = true then _ else if total.value_type ≠ current.value_type then _ else _) = _
      rw [if_neg first,if_neg alike]
      exact added
    · rw [amounts_concat,sum_amount,amount]

theorem sum_run (checks : Bool) (name : String) (column : OfColumn type values) (fits : SumsFit type values) :
    ∃ total, groupFold checks name .sum values = .ok total ∧ Summed type values total := by
  induction values using List.reverseRecOn with
  | nil => exact ⟨_,rfl,by decide,.inl ⟨rfl,rfl⟩⟩
  | append_singleton front current ih =>
    obtain ⟨total,folded,summed⟩ := ih column.front fits.front
    have whole := fits.whole
    rw [amounts_concat] at whole
    obtain ⟨next,updated,held⟩ := sum_step checks name column summed whole
    refine ⟨next,?_,held⟩
    rw [groupFold_concat,folded]
    exact updated

theorem additionsFit_iff (column : OfColumn type values) :
    AdditionsFit checks name type values ↔ SumsFit type values := by
  constructor
  · intro additions
    induction values using List.reverseRecOn with
    | nil =>
      intro count
      rw [List.take_nil]
      exact inRange_zero column.integer
    | append_singleton front current ih =>
      have earlier : AdditionsFit checks name type front := by
        intro before middle after split total folded
        exact additions before middle (after ++ [current]) (by rw [split,List.append_assoc,List.cons_append]) total folded
      have fits := ih column.front earlier
      obtain ⟨total,folded,summed⟩ := sum_run checks name column.front fits
      have whole := additions front current [] rfl total folded
      rw [summed.1] at whole
      exact sumsFit_concat fits whole
  · rintro fits front current rest rfl total folded
    have column_front : OfColumn type front := column.front
    obtain ⟨same,refolded,summed⟩ := sum_run checks name column_front fits.front
    obtain rfl := Except.ok.inj (folded.symm.trans refolded)
    have longer : SumsFit type (front ++ [current]) := by
      have split : front ++ current :: rest = (front ++ [current]) ++ rest := by simp
      rw [split] at fits
      exact fits.front
    rw [summed.1,← amounts_concat]
    exact longer.whole

end Sums

section Counts

theorem count_run : ∀ {values : List TypedValue} {total : TypedValue}, groupFold checks name .count values = .ok total →
    total = ⟨.uint64,toLE 8 (values.length % 2^64)⟩ := by
  intro values
  induction values using List.reverseRecOn with
  | nil =>
    intro total folded
    exact (Except.ok.inj folded).symm
  | append_singleton front current ih =>
    intro total folded
    rw [groupFold_concat] at folded
    cases before : groupFold checks name .count front with
    | error fault =>
      rw [before] at folded
      cases folded
    | ok earlier =>
      rw [before] at folded
      change (if checks = true ∧ ¬ earlier.word+1 < 2^64 then _ else _) = _ at folded
      split at folded
      · cases folded
      · have word : earlier.word = front.length % 2^64 := by
          rw [ih before]
          exact TypedValue.word_toLE _ (Nat.mod_lt _ (by decide))
        rw [← Except.ok.inj folded,TypedValue.setWord,word,ih before,List.length_append,Nat.mod_add_mod]
        rfl

end Counts

section Extremes
variable {sign : Int}

-- The least value so far, the sign turning it into the greatest.
structure Extreme (sign : Int) (values : List TypedValue) (total : TypedValue) : Prop where
  unset : values = [] → total = ⟨.uint64,toLE 8 0⟩
  among : values ≠ [] → total ∈ values
  least : ∀ value ∈ values, sign*total.amount ≤ sign*value.amount

theorem extreme_newest {current : TypedValue} (lowest : ∀ value ∈ values, sign*current.amount ≤ sign*value.amount) :
    Extreme sign (values ++ [current]) current := by
  refine ⟨fun empty => absurd empty (by simp),fun _ => by simp,?_⟩
  intro value member
  rcases List.mem_append.mp member with inside | newest
  · exact lowest value inside
  · rw [List.mem_singleton.mp newest]

theorem Extreme.stayed {total current : TypedValue} (extreme : Extreme sign values total) (filled : values ≠ [])
    (higher : sign*total.amount ≤ sign*current.amount) : Extreme sign (values ++ [current]) total := by
  refine ⟨fun empty => absurd empty (by simp),fun _ => List.mem_append_left _ (extreme.among filled),?_⟩
  intro value member
  rcases List.mem_append.mp member with inside | newest
  · exact extreme.least value inside
  · rw [List.mem_singleton.mp newest]
    exact higher

-- What MIN and MAX do with the next value.
def extremeStep (sign : Int) (total current : TypedValue) : TypedValue :=
  if total.isFirst then current else if sign*current.amount < sign*total.amount then current else total

theorem first_of_initial : (⟨.uint64,toLE 8 0⟩ : TypedValue).isFirst = true := by decide

theorem uint64_of_first {total : TypedValue} (first : total.isFirst = true) : total.value_type = .uint64 := by
  unfold TypedValue.isFirst at first
  exact (of_decide_eq_true first).1

theorem amount_uint64 {value : TypedValue} (unsigned : value.value_type = .uint64) : value.amount = value.word := by
  have whole := (TypedValue.integer_of_width value (by rw [unsigned]; rfl)).2
  exact TypedValue.amount_eq whole

theorem Extreme.step {total current : TypedValue} (extreme : Extreme sign values total)
    (column : OfColumn type (values ++ [current])) (plain : type ≠ .uint64 ∨ sign = -1) :
    Extreme sign (values ++ [current]) (extremeStep sign total current) := by
  unfold extremeStep
  by_cases first : total.isFirst = true
  · rw [if_pos first]
    refine extreme_newest fun value member => ?_
    -- A zero that counts as none is of the type, so no value is greater.
    have inside := extreme.among (List.ne_nil_of_mem member)
    have unsigned : type = .uint64 := (column.front.typed total inside).symm.trans (uint64_of_first first)
    obtain rfl : sign = -1 := plain.resolve_left (not_not.mpr unsigned)
    have low := extreme.least value member
    have natural := amount_uint64 (column.last.trans unsigned)
    rw [amount_of_first first] at low
    omega
  · rw [if_neg first]
    have filled : values ≠ [] := fun empty => first (by rw [extreme.unset empty]; exact first_of_initial)
    split
    · rename_i lower
      refine extreme_newest fun value member => ?_
      have low := extreme.least value member
      omega
    · rename_i higher
      exact extreme.stayed filled (Int.not_lt.mp higher)

theorem extremeStep_unsigned {total current : TypedValue} (unsigned : total.value_type = .uint64) :
    extremeStep sign total current = keepBest sign total current := by
  unfold extremeStep keepBest
  by_cases zero : total.word = 0
  · have first : total.isFirst = true := decide_eq_true ⟨unsigned,zero⟩
    rw [if_pos first,if_pos zero]
  · have other : ¬ total.isFirst = true := fun first => zero (of_decide_eq_true first).2
    rw [if_neg other,if_neg zero]

-- The state of MIN and MAX: always of the column once a value is there.
structure Extremal (sign : Int) (type : DataType) (values : List TypedValue) (total : TypedValue) : Prop where
  typed : total.isFirst = true ∨ total.value_type = type
  plain : type ≠ .uint64 ∨ sign = -1 → Extreme sign values total
  unsigned : type = .uint64 → Best sign values total ∧ total.value_type = .uint64

theorem extremal_initial : Extremal sign type [] ⟨.uint64,toLE 8 0⟩ :=
  ⟨.inl first_of_initial,fun _ => ⟨fun _ => rfl,fun filled => absurd rfl filled,nofun⟩,
    fun _ => ⟨Best.start initial_word,rfl⟩⟩

theorem Extremal.step {total current : TypedValue} (extremal : Extremal sign type values total)
    (unit : sign = 1 ∨ sign = -1) (column : OfColumn type (values ++ [current])) :
    Extremal sign type (values ++ [current]) (extremeStep sign total current) := by
  refine ⟨?_,fun plain => (extremal.plain plain).step column plain,?_⟩
  · unfold extremeStep
    by_cases first : total.isFirst = true
    · rw [if_pos first]
      exact .inr column.last
    · rw [if_neg first]
      split
      · exact .inr column.last
      · exact .inr (extremal.typed.resolve_left first)
  · intro unsigned
    obtain ⟨best,of_type⟩ := extremal.unsigned unsigned
    rw [extremeStep_unsigned of_type]
    refine ⟨best.step unit,?_⟩
    have newest := column.last.trans unsigned
    unfold keepBest
    split
    · exact newest
    · split
      · exact newest
      · exact of_type

theorem compared {total current : TypedValue} (extremal : Extremal sign type values total) (first : ¬ total.isFirst = true)
    (column : OfColumn type (values ++ [current])) :
    current.value_type = total.value_type ∧ current.integer.isSome ∧ total.integer.isSome := by
  have of_type := extremal.typed.resolve_left first
  refine ⟨column.last.trans of_type.symm,?_,?_⟩
  · rw [TypedValue.integer_isSome (column.last ▸ column.integer)]
    rfl
  · rw [TypedValue.integer_isSome (of_type ▸ column.integer)]
    rfl

theorem min_update {total current : TypedValue} (extremal : Extremal 1 type values total)
    (column : OfColumn type (values ++ [current])) :
    AggregateFunction.groupUpdate checks name .min total [current] = .ok (extremeStep 1 total current) := by
  change (if total.isFirst = true then _ else _) = _
  unfold extremeStep
  by_cases first : total.isFirst = true
  · rw [if_pos first,if_pos first]
    rfl
  · obtain ⟨same,newest,kept⟩ := compared extremal first column
    rw [if_neg first,if_neg first,less_of_integers same newest kept,Int.one_mul,Int.one_mul]
    exact congrArg Except.ok (if_congr decide_eq_true_iff rfl rfl)

theorem max_update {total current : TypedValue} (extremal : Extremal (-1) type values total)
    (column : OfColumn type (values ++ [current])) :
    AggregateFunction.groupUpdate checks name .max total [current] = .ok (extremeStep (-1) total current) := by
  change (if total.isFirst = true then _ else _) = _
  unfold extremeStep
  by_cases first : total.isFirst = true
  · rw [if_pos first,if_pos first]
    rfl
  · obtain ⟨same,newest,kept⟩ := compared extremal first column
    rw [if_neg first,if_neg first,less_of_integers same.symm kept newest]
    have turned : total.amount < current.amount ↔ -1*current.amount < -1*total.amount := by omega
    exact congrArg Except.ok (if_congr (decide_eq_true_iff.trans turned) rfl rfl)

theorem extremal_run (checks : Bool) (name : String) {function : AggregateFunction} (unit : sign = 1 ∨ sign = -1)
    (starts : function.groupInitial = ⟨.uint64,toLE 8 0⟩)
    (update : ∀ {values total current}, Extremal sign type values total → OfColumn type (values ++ [current]) →
      function.groupUpdate checks name total [current] = .ok (extremeStep sign total current))
    (column : OfColumn type values) :
    ∃ total, groupFold checks name function values = .ok total ∧ Extremal sign type values total := by
  induction values using List.reverseRecOn with
  | nil =>
    refine ⟨function.groupInitial,rfl,?_⟩
    rw [starts]
    exact extremal_initial
  | append_singleton front current ih =>
    obtain ⟨total,folded,extremal⟩ := ih column.front
    refine ⟨extremeStep sign total current,?_,extremal.step unit column⟩
    rw [groupFold_concat,folded]
    exact update extremal column

end Extremes

section Exactness

-- The aggregate of a column of a group as it is meant, the value read by its tag.
def GroupExact (checks : Bool) (name : String) (function : AggregateFunction) (type : DataType) (values : List TypedValue)
    (result : TypedValue) : Prop :=
  match function with
  | .count => result.integer = some (values.length : Int)
  | .sum => result.integer = some (amounts values).sum ∧ AdditionsFit checks name type values
  | .min => ∃ least, result.integer = some least ∧ least ∈ amounts values ∧ ∀ each ∈ amounts values, least ≤ each
  | .max => ∃ greatest, result.integer = some greatest ∧ greatest ∈ amounts values ∧
    ∀ each ∈ amounts values, each ≤ greatest
  | _ => True

-- When it is: sums in range, and no zero that MIN takes for no value.
def GroupRight (function : AggregateFunction) (type : DataType) (values : List TypedValue) : Prop :=
  match function with
  | .count => values.length < 2^64
  | .sum => SumsFit type values
  | .min => type = .uint64 → 0 ∈ amounts values → (amounts values).getLast? = some 0
  | _ => True

theorem integer_word {bits : Nat} (small : bits < 2^64) : (⟨.uint64,toLE 8 bits⟩ : TypedValue).integer = some (bits : Int) := by
  have whole := (TypedValue.integer_of_width ⟨.uint64,toLE 8 bits⟩ rfl).2
  have word := TypedValue.word_toLE .uint64 small
  unfold TypedValue.word at word
  rw [whole,word]
  rfl

theorem count_exact_iff {total : TypedValue} (folded : groupFold checks name .count values = .ok total) :
    GroupExact checks name .count type values total ↔ GroupRight .count type values := by
  have small : values.length % 2^64 < 2^64 := Nat.mod_lt _ (by decide)
  rw [GroupExact,GroupRight,count_run folded,integer_word small,Option.some.injEq,Int.ofNat_inj]
  constructor
  · intro equal
    rwa [equal] at small
  · exact Nat.mod_eq_of_lt

theorem sum_group_iff {total : TypedValue} (column : OfColumn type values) (filled : values ≠ [])
    (folded : groupFold checks name .sum values = .ok total) :
    GroupExact checks name .sum type values total ↔ GroupRight .sum type values := by
  constructor
  · exact fun exact => (additionsFit_iff column).mp exact.2
  · intro fits
    obtain ⟨same,refolded,amount,state⟩ := sum_run checks name column fits
    obtain rfl := Except.ok.inj (folded.symm.trans refolded)
    have of_type : total.value_type = type := state.resolve_left fun empty => filled empty.1
    refine ⟨?_,(additionsFit_iff column).mpr fits⟩
    rw [TypedValue.integer_isSome (of_type ▸ column.integer),amount]

-- For unsigned values the zero that comes last is the only one kept.
theorem zeroHeld_unsigned (column : OfColumn .uint64 values) :
    ZeroHeld (1*· < 0) values ↔ (0 ∈ amounts values → (amounts values).getLast? = some 0) := by
  have natural : ∀ value ∈ values, value.amount = value.word := fun value member => amount_uint64 (column.typed value member)
  have last : (amounts values).getLast? = some 0 ↔ ∃ final, values.getLast? = some final ∧ final.amount = 0 := by
    rw [amounts,List.getLast?_map]
    exact Option.map_eq_some_iff
  rw [last]
  constructor
  · rintro (absent | ⟨each,member,negative⟩ | final | ⟨value,member,zero,other⟩) among
    · exact absurd among absent
    · obtain ⟨value,inside,rfl⟩ := List.mem_map.mp member
      have word := natural value inside
      omega
    · exact final
    · have word := natural value member
      omega
  · intro kept
    by_cases among : 0 ∈ amounts values
    · exact .inr (.inr (.inl (kept among)))
    · exact .inl among

theorem Extremal.value {sign : Int} {total : TypedValue} (extremal : Extremal sign type values total)
    (column : OfColumn type values) (filled : values ≠ []) : total ∈ values ∧ total.integer = some total.amount := by
  have member : total ∈ values := by
    by_cases unsigned : type = .uint64
    · exact (extremal.unsigned unsigned).1.among filled
    · exact (extremal.plain (.inl unsigned)).among filled
  exact ⟨member,TypedValue.integer_isSome (column.typed total member ▸ column.integer)⟩

theorem min_group_iff {total : TypedValue} (column : OfColumn type values) (filled : values ≠ [])
    (folded : groupFold checks name .min values = .ok total) :
    GroupExact checks name .min type values total ↔ GroupRight .min type values := by
  obtain ⟨same,refolded,extremal⟩ := extremal_run checks name (.inl rfl) rfl min_update column
  obtain rfl := Except.ok.inj (folded.symm.trans refolded)
  obtain ⟨member,whole⟩ := extremal.value column filled
  by_cases unsigned : type = .uint64
  · subst unsigned
    have best := (extremal.unsigned rfl).1
    refine Iff.trans ?_ ((zeroHeld_unsigned column).trans ⟨fun kept _ => kept,fun kept => kept rfl⟩)
    constructor
    · intro ⟨least,value,among,lowest⟩
      have amount : total.amount = least := Option.some.inj (whole.symm.trans value)
      refine (best.extreme_iff (.inl rfl) among fun each inside => ?_).mp amount
      rw [Int.one_mul,Int.one_mul]
      exact lowest each inside
    · intro kept
      obtain ⟨least,inside,lowest⟩ := extreme_exists 1 filled
      have among : least.amount ∈ amounts values := List.mem_map_of_mem inside
      have all : ∀ each ∈ amounts values, 1*least.amount ≤ 1*each := by
        intro each inEach
        obtain ⟨value,inValue,rfl⟩ := List.mem_map.mp inEach
        exact lowest value inValue
      have amount := (best.extreme_iff (.inl rfl) among all).mpr kept
      refine ⟨least.amount,amount ▸ whole,among,fun each inEach => ?_⟩
      have low := all each inEach
      rwa [Int.one_mul,Int.one_mul] at low
  · have extreme := extremal.plain (.inl unsigned)
    refine ⟨fun _ is_unsigned => absurd is_unsigned unsigned,fun _ => ⟨total.amount,whole,List.mem_map_of_mem member,?_⟩⟩
    intro each inEach
    obtain ⟨value,inValue,rfl⟩ := List.mem_map.mp inEach
    have low := extreme.least value inValue
    rwa [Int.one_mul,Int.one_mul] at low

theorem max_group_exact {total : TypedValue} (column : OfColumn type values) (filled : values ≠ [])
    (folded : groupFold checks name .max values = .ok total) : GroupExact checks name .max type values total := by
  obtain ⟨same,refolded,extremal⟩ := extremal_run checks name (.inr rfl) rfl max_update column
  obtain rfl := Except.ok.inj (folded.symm.trans refolded)
  obtain ⟨member,whole⟩ := extremal.value column filled
  refine ⟨total.amount,whole,List.mem_map_of_mem member,?_⟩
  intro each inEach
  obtain ⟨value,inValue,rfl⟩ := List.mem_map.mp inEach
  have low := (extremal.plain (.inr rfl)).least value inValue
  omega

theorem group_exact_iff (checks : Bool) (name : String) {function : AggregateFunction} {total : TypedValue} (column : OfColumn type values)
    (filled : values ≠ []) (folded : groupFold checks name function values = .ok total) :
    GroupExact checks name function type values total ↔ GroupRight function type values := by
  cases function with
  | count => exact count_exact_iff folded
  | sum => exact sum_group_iff column filled folded
  | min => exact min_group_iff column filled folded
  | max => exact iff_of_true (max_group_exact column filled folded) trivial
  | avg | stddev | var | stddevSamp | varSamp | movingAverage | movingSum | timeBucket => exact Iff.rfl

end Exactness

end AggregateFunction

end RemDb
