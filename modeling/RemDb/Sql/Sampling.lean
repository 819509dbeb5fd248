import Mathlib.Algebra.Order.Field.Rat
import RemDb.Lib.Grouping
import RemDb.Lib.OrderedEntries
import RemDb.Sql.Expression
import RemDb.TimeSeries.Compression
import RemDb.TimeSeries.Partition

namespace RemDb
namespace TimeSeries
open RemDb.Lib

inductive FillClause where
  | prev | linear | next
  | fixedValue (value : Rat)

instance linearOrderUInt64 : LinearOrder UInt64 where
  le_refl := UInt64.le_refl
  le_trans _ _ _ := UInt64.le_trans
  le_antisymm _ _ := UInt64.le_antisymm
  le_total := UInt64.le_total
  lt_iff_le_not_ge left right := by
    rw [UInt64.lt_iff_toNat_lt,UInt64.le_iff_toNat_le,UInt64.le_iff_toNat_le]
    omega
  toDecidableLE := inferInstance

def Build.mul (build : Build) (left right : UInt64) : Option UInt64 :=
  if build = .checked ∧ 2^64 ≤ left.toNat*right.toNat then none else some (left*right)

section Interval

def unitSeconds (ch : Char) : Option UInt64 :=
  if ch = 'h' ∨ ch = 'H' then some 3600
  else if ch = 'm' ∨ ch = 'M' then some 60
  else if ch = 's' ∨ ch = 'S' then some 1
  else none

def parseIntervalFrom (build : Build) (total_seconds current_number : UInt64) :
    List Char → Option (Except QueryExecutionError UInt64)
  | [] =>
    (if current_number > 0 then build.add total_seconds current_number else some total_seconds).map fun total_seconds =>
      if total_seconds = 0 then .error .invalidValue else .ok total_seconds
  | ch :: rest =>
    if ch.isDigit then do
      let shifted ← build.mul current_number 10
      let current_number ← build.add shifted (UInt64.ofNat (ch.toNat-48))
      parseIntervalFrom build total_seconds current_number rest
    else
      match unitSeconds ch with
      | some unit => do
        let seconds ← build.mul current_number unit
        let total_seconds ← build.add total_seconds seconds
        parseIntervalFrom build total_seconds 0 rest
      | none => some (.error .invalidValue)

def parseSampleInterval (build : Build) (interval_str : String) : Option (Except QueryExecutionError UInt64) :=
  parseIntervalFrom build 0 0 interval_str.toList

end Interval

-- From here on an overflow is `none`, as a division by zero and an index past the
-- end are.
section Windows

-- The sum of the values and their number, which is a signed 32-bit integer.
def sumAndCount (window_records : List ExactRecord) : Option (Rat × Nat) :=
  window_records.foldlM (fun (state : Rat × Nat) record =>
    if state.2+1 < 2^31 then some (state.1+record.value,state.2+1) else none) (0,0)

abbrev Window := UInt64 × List ExactRecord

def windowsOf (interval_nanos : UInt64) (records : List ExactRecord) : List Window :=
  records.foldl (fun windows record =>
    let window_start := record.timestamp/interval_nanos*interval_nanos
    OrderedEntries.insert window_start ((OrderedEntries.get window_start windows).getD [] ++ [record]) windows) []

-- The data of the window before are kept as the record that was pushed for it.
def interpolateMissingWindow (window_start : UInt64) (prev_data : Option ExactRecord) (next_data : Option Window) :
    FillClause → Option (Option ExactRecord)
  | .prev => some (prev_data.map fun prev => {prev with timestamp:=window_start})
  | .next =>
    match next_data with
    | some (_,first_record :: _) => some (some {first_record with timestamp:=window_start})
    | _ => some none
  | .linear =>
    match prev_data, next_data with
    | some prev, some (next_ts,first_next_record :: _) => do
      let passed ← Build.checked.sub window_start prev.timestamp
      let gap ← Build.checked.sub next_ts prev.timestamp
      let time_ratio := (passed.toNat : Rat)/gap.toNat
      some (some {prev with
        timestamp:=window_start,value:=prev.value+(first_next_record.value-prev.value)*time_ratio})
    | _, _ => some none
  | .fixedValue value =>
    match prev_data, next_data with
    | some prev, _ => some (some {prev with timestamp:=window_start,value:=value})
    | none, some (_,first_record :: _) => some (some {first_record with timestamp:=window_start,value:=value})
    | none, _ => some none

def averageRecord (current_window : UInt64) (window_records : List ExactRecord) : Option ExactRecord := do
  let (sum,count) ← sumAndCount window_records
  let first_record ← window_records.head?
  some {first_record with timestamp:=current_window,value:=sum/count}

-- One turn of the loop: what is pushed, the windows that are left, and the data of
-- the window before.
def sampleWindow (fill_clause : Option FillClause) (windows : List Window) (prev_window_data : Option ExactRecord)
    (current_window : UInt64) : Option (Option ExactRecord × List Window × Option ExactRecord) :=
  match windows with
  | (window_start,window_records) :: rest =>
    if window_start = current_window then do
      let record ← averageRecord current_window window_records
      some (some record,rest,some record)
    else
      match fill_clause with
      | some fill => (interpolateMissingWindow current_window prev_window_data (some (window_start,window_records)) fill).map
          fun record => (record,windows,prev_window_data)
      | none => some (none,windows,prev_window_data)
  | [] =>
    match fill_clause with
    | some fill => (interpolateMissingWindow current_window prev_window_data none fill).map
        fun record => (record,windows,prev_window_data)
    | none => some (none,windows,prev_window_data)

def sampleWindows (fill_clause : Option FillClause) (interval_nanos last_window : UInt64) (positive : 0 < interval_nanos.toNat)
    (windows : List Window) (prev_window_data : Option ExactRecord) (current_window : UInt64) : Option (List ExactRecord) :=
  if current_window ≤ last_window then
    match sampleWindow fill_clause windows prev_window_data current_window with
    | none => none
    | some (pushed,left,prev) =>
      if 2^64 ≤ current_window.toNat+interval_nanos.toNat then none
      else (sampleWindows fill_clause interval_nanos last_window positive left prev (current_window+interval_nanos)).map
        (pushed.toList ++ ·)
  else some []
termination_by last_window.toNat+1-current_window.toNat
decreasing_by
  rename_i inside overflows
  rw [UInt64.toNat_add,Nat.mod_eq_of_lt (Nat.lt_of_not_le overflows)]
  rw [UInt64.le_iff_toNat_le] at inside
  omega

def downsampleRecords (records : List ExactRecord) (sample_interval : String) (fill_clause : Option FillClause) :
    Option (Except QueryExecutionError (List ExactRecord)) :=
  match (records.map (·.timestamp)).min?, (records.map (·.timestamp)).max? with
  | some min_timestamp, some max_timestamp =>
    match parseSampleInterval .checked sample_interval with
    | none => none
    | some (.error failure) => some (.error failure)
    | some (.ok interval_seconds) => do
      let interval_nanos ← Build.checked.mul interval_seconds 1000000000
      if positive : 0 < interval_nanos.toNat then
        (sampleWindows fill_clause interval_nanos (max_timestamp/interval_nanos*interval_nanos) positive
          (windowsOf interval_nanos records) none (min_timestamp/interval_nanos*interval_nanos)).map .ok
      else none
  | _, _ => some (.ok [])

end Windows

section Parsing

-- What an interval means, without a bound.
def secondsFrom (total_seconds current_number : Nat) : List Char → Option Nat
  | [] => some (total_seconds+current_number)
  | ch :: rest =>
    if ch.isDigit then secondsFrom total_seconds (current_number*10+(ch.toNat-48)) rest
    else
      match unitSeconds ch with
      | some unit => secondsFrom (total_seconds+current_number*unit.toNat) 0 rest
      | none => none

theorem secondsFrom_least (chars : List Char) {total_seconds current_number seconds : Nat}
    (means : secondsFrom total_seconds current_number chars = some seconds) : total_seconds+current_number ≤ seconds := by
  induction chars generalizing total_seconds current_number with
  | nil =>
    cases means
    exact Nat.le_refl _
  | cons ch rest ih =>
    rw [secondsFrom] at means
    split at means
    · have later := ih means
      omega
    · cases named : unitSeconds ch with
      | none =>
        rw [named] at means
        cases means
      | some unit =>
        rw [named] at means
        have later := ih means
        have least : 0 < unit.toNat := by
          unfold unitSeconds at named
          split at named
          · cases named
            decide
          split at named
          · cases named
            decide
          split at named
          · cases named
            decide
          · cases named
        have more : current_number ≤ current_number*unit.toNat := Nat.le_mul_of_pos_right _ least
        omega

theorem Build.add_small (build : Build) {left right : UInt64} (small : left.toNat+right.toNat < 2^64) :
    build.add left right = some (left+right) := if_neg fun never => absurd never.2 (Nat.not_le_of_lt small)

theorem Build.mul_small (build : Build) {left right : UInt64} (small : left.toNat*right.toNat < 2^64) :
    build.mul left right = some (left*right) := if_neg fun never => absurd never.2 (Nat.not_le_of_lt small)

theorem Build.add_large {left right : UInt64} (large : 2^64 ≤ left.toNat+right.toNat) :
    Build.checked.add left right = none := if_pos ⟨rfl,large⟩

theorem Build.mul_large {left right : UInt64} (large : 2^64 ≤ left.toNat*right.toNat) :
    Build.checked.mul left right = none := if_pos ⟨rfl,large⟩

theorem toNat_add_small {left right : UInt64} (small : left.toNat+right.toNat < 2^64) :
    (left+right).toNat = left.toNat+right.toNat := by rw [UInt64.toNat_add,Nat.mod_eq_of_lt small]

theorem toNat_mul_small {left right : UInt64} (small : left.toNat*right.toNat < 2^64) :
    (left*right).toNat = left.toNat*right.toNat := by rw [UInt64.toNat_mul,Nat.mod_eq_of_lt small]

theorem digit_toNat {ch : Char} (digit : ch.isDigit = true) : (UInt64.ofNat (ch.toNat-48)).toNat = ch.toNat-48 := by
  have most : ch.toNat ≤ 57 := (Char.isDigit_iff_toNat.mp digit).2
  exact UInt64.toNat_ofNat_of_lt' (by
    change ch.toNat-48 < 2^64
    omega)

theorem parseIntervalFrom_ok {build : Build} (chars : List Char) {total_seconds current_number value : UInt64}
    (parsed : parseIntervalFrom build total_seconds current_number chars = some (.ok value)) (total current : Nat) :
    ∃ seconds, secondsFrom total current chars = some seconds := by
  induction chars generalizing total_seconds current_number total current with
  | nil => exact ⟨_,rfl⟩
  | cons ch rest ih =>
    rw [parseIntervalFrom] at parsed
    rw [secondsFrom]
    split at parsed
    · rename_i digit
      rw [if_pos digit]
      obtain ⟨shifted,_,parsed⟩ := Option.bind_eq_some_iff.mp parsed
      obtain ⟨number,_,parsed⟩ := Option.bind_eq_some_iff.mp parsed
      exact ih parsed _ _
    · rename_i other
      rw [if_neg other]
      cases named : unitSeconds ch with
      | none =>
        rw [named] at parsed
        cases parsed
      | some unit =>
        rw [named] at parsed
        obtain ⟨product,_,parsed⟩ := Option.bind_eq_some_iff.mp parsed
        obtain ⟨more,_,parsed⟩ := Option.bind_eq_some_iff.mp parsed
        exact ih parsed _ _

theorem parseIntervalFrom_means (chars : List Char) {total_seconds current_number : UInt64} {seconds : Nat}
    (means : secondsFrom total_seconds.toNat current_number.toNat chars = some seconds) :
    (seconds < 2^64 → ∀ build, parseIntervalFrom build total_seconds current_number chars =
      some (if seconds = 0 then .error .invalidValue else .ok (UInt64.ofNat seconds))) ∧
    (2^64 ≤ seconds → parseIntervalFrom .checked total_seconds current_number chars = none) := by
  induction chars generalizing total_seconds current_number with
  | nil =>
    cases means
    have whole := total_seconds.toNat_lt
    constructor
    · intro small build
      have added : (if current_number > 0 then build.add total_seconds current_number else some total_seconds) =
          some (total_seconds+current_number) := by
        split
        · exact build.add_small small
        · rename_i none_left
          have zero : current_number = 0 := by
            rw [gt_iff_lt,UInt64.lt_iff_toNat_lt,UInt64.toNat_zero] at none_left
            exact UInt64.toNat_inj.mp (by rw [UInt64.toNat_zero]; omega)
          rw [zero,UInt64.add_zero]
      rw [parseIntervalFrom,added]
      have same : total_seconds+current_number = UInt64.ofNat (total_seconds.toNat+current_number.toNat) :=
        UInt64.toNat_inj.mp (by rw [toNat_add_small small,UInt64.toNat_ofNat_of_lt' small])
      have zero_iff : total_seconds+current_number = 0 ↔ total_seconds.toNat+current_number.toNat = 0 := by
        rw [← UInt64.toNat_inj,toNat_add_small small,UInt64.toNat_zero]
      rw [Option.map_some]
      by_cases zero : total_seconds.toNat+current_number.toNat = 0
      · rw [if_pos zero,if_pos (zero_iff.mpr zero)]
      · rw [if_neg zero,if_neg fun is_zero => zero (zero_iff.mp is_zero),same]
    · intro large
      have positive : current_number > 0 := by
        rw [gt_iff_lt,UInt64.lt_iff_toNat_lt,UInt64.toNat_zero]
        omega
      rw [parseIntervalFrom,if_pos positive,Build.add_large large]
      rfl
  | cons ch rest ih =>
    rw [secondsFrom] at means
    split at means
    · rename_i digit
      have least := secondsFrom_least rest means
      have value := digit_toNat digit
      have ten : (10 : UInt64).toNat = 10 := rfl
      by_cases fits : current_number.toNat*10+(ch.toNat-48) < 2^64
      · have shifted : (current_number*10).toNat = current_number.toNat*10 := toNat_mul_small (by rw [ten]; omega)
        have number : (current_number*10+UInt64.ofNat (ch.toNat-48)).toNat = current_number.toNat*10+(ch.toNat-48) := by
          rw [toNat_add_small (by rw [shifted,value]; exact fits),shifted,value]
        rw [← number] at means
        have step (build : Build) : parseIntervalFrom build total_seconds current_number (ch :: rest) =
            parseIntervalFrom build total_seconds (current_number*10+UInt64.ofNat (ch.toNat-48)) rest := by
          rw [parseIntervalFrom,if_pos digit,build.mul_small (by rw [ten]; omega),Option.bind_eq_bind,Option.bind_some,
            build.add_small (by rw [shifted,value]; exact fits),Option.bind_some]
        exact ⟨fun small build => (step build).trans ((ih means).1 small build),fun large => (step .checked).trans ((ih means).2 large)⟩
      · refine ⟨fun small => by omega,fun _ => ?_⟩
        rw [parseIntervalFrom,if_pos digit]
        by_cases shifts : current_number.toNat*10 < 2^64
        · have shifted : (current_number*10).toNat = current_number.toNat*10 := toNat_mul_small (by rw [ten]; exact shifts)
          rw [Build.mul_small _ (by rw [ten]; exact shifts),Option.bind_eq_bind,Option.bind_some,
            Build.add_large (by rw [shifted,value]; omega)]
          rfl
        · rw [Build.mul_large (by rw [ten]; omega)]
          rfl
    · rename_i other
      cases named : unitSeconds ch with
      | none =>
        rw [named] at means
        cases means
      | some unit =>
        rw [named] at means
        have least := secondsFrom_least rest means
        by_cases fits : total_seconds.toNat+current_number.toNat*unit.toNat < 2^64
        · have product : (current_number*unit).toNat = current_number.toNat*unit.toNat := toNat_mul_small (by omega)
          have total : (total_seconds+current_number*unit).toNat = total_seconds.toNat+current_number.toNat*unit.toNat := by
            rw [toNat_add_small (by rw [product]; exact fits),product]
          dsimp only at means
          rw [← total,← UInt64.toNat_zero] at means
          have step (build : Build) : parseIntervalFrom build total_seconds current_number (ch :: rest) =
              parseIntervalFrom build (total_seconds+current_number*unit) 0 rest := by
            rw [parseIntervalFrom,if_neg other,named]
            dsimp only
            rw [build.mul_small (by omega),Option.bind_eq_bind,Option.bind_some,
              build.add_small (by rw [product]; exact fits),Option.bind_some]
          exact ⟨fun small build => (step build).trans ((ih means).1 small build),fun large => (step .checked).trans ((ih means).2 large)⟩
        · refine ⟨fun small => by omega,fun _ => ?_⟩
          rw [parseIntervalFrom,if_neg other,named]
          dsimp only
          by_cases fits_product : current_number.toNat*unit.toNat < 2^64
          · have product : (current_number*unit).toNat = current_number.toNat*unit.toNat := toNat_mul_small fits_product
            rw [Build.mul_small _ fits_product,Option.bind_eq_bind,Option.bind_some,
              Build.add_large (by rw [product]; omega)]
            rfl
          · rw [Build.mul_large (by omega)]
            rfl

end Parsing

end TimeSeries
end RemDb
