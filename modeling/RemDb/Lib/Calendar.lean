import Mathlib.Tactic.IntervalCases

namespace RemDb.Lib

-- The Gregorian calendar from a given year on, in days.
def leap (year : Nat) : Bool := decide (year%4 = 0 ∧ year%100 ≠ 0 ∨ year%400 = 0)

def monthLength (year : Nat) : Nat → Nat
  | 1 | 3 | 5 | 7 | 8 | 10 | 12 => 31
  | 4 | 6 | 9 | 11 => 30
  | 2 => if leap year then 29 else 28
  | _ => 0

def commonLengths : List Nat := [31,28,31,30,31,30,31,31,30,31,30,31]

def yearLength (year : Nat) : Nat := if leap year then 366 else 365

def ValidDate (year month day : Nat) : Prop := 1 ≤ month ∧ month ≤ 12 ∧ 1 ≤ day ∧ day ≤ monthLength year month

instance (year month day : Nat) : Decidable (ValidDate year month day) :=
  inferInstanceAs (Decidable (1 ≤ month ∧ month ≤ 12 ∧ 1 ≤ day ∧ day ≤ monthLength year month))

def daysToYear (epoch year : Nat) : Nat := ((List.range (year-epoch)).map fun passed => yearLength (epoch+passed)).sum
def daysToMonth (year month : Nat) : Nat := ((List.range (month-1)).map fun passed => monthLength year (passed+1)).sum

def dayNumber (epoch year month day : Nat) : Nat := daysToYear epoch year+daysToMonth year month+(day-1)

def leapYears (epoch year : Nat) : Nat := (List.range (year-epoch)).countP fun passed => leap (epoch+passed)

-- The leap days that are over when a month begins.
def leapDays (epoch year month : Nat) : Nat := leapYears epoch year+if leap year && decide (2 < month) then 1 else 0

section Days
variable {epoch year month : Nat}

theorem daysToYear_eq (epoch year : Nat) : daysToYear epoch year = 365*(year-epoch)+leapYears epoch year := by
  rw [daysToYear,leapYears]
  induction year-epoch with
  | zero => rfl
  | succ count ih =>
    rw [List.range_succ,List.map_append,List.sum_append,List.countP_append,ih]
    cases leapYear : leap (epoch+count) with
    | true =>
      simp only [List.map_singleton,List.sum_singleton,List.countP_singleton,yearLength,leapYear,if_true]
      omega
    | false =>
      simp only [List.map_singleton,List.sum_singleton,List.countP_singleton,yearLength,leapYear,Bool.false_eq_true,if_false]
      omega

theorem daysToMonth_eq (first : 1 ≤ month) (last : month ≤ 12) :
    daysToMonth year month = (commonLengths.take (month-1)).sum+if leap year && decide (2 < month) then 1 else 0 := by
  obtain ⟨before,rfl⟩ : ∃ before, month = before+1 := ⟨month-1,by omega⟩
  have few : before < 12 := by omega
  rw [daysToMonth,Nat.add_sub_cancel]
  cases leapYear : leap year with
  | true => interval_cases before <;> simp [List.range_succ,monthLength,commonLengths,leapYear]
  | false => interval_cases before <;> simp [List.range_succ,monthLength,commonLengths,leapYear]

theorem dayNumber_eq (first : 1 ≤ month) (last : month ≤ 12) (day : Nat) :
    dayNumber epoch year month day = 365*(year-epoch)+
      (commonLengths.take (month-1)).sum+(day-1)+leapDays epoch year month := by
  rw [dayNumber,daysToYear_eq,daysToMonth_eq first last,leapDays]
  omega

theorem leapYears_mono {earlier later : Nat} (order : earlier ≤ later) : leapYears epoch earlier ≤ leapYears epoch later := by
  have split : later-epoch = (earlier-epoch)+((later-epoch)-(earlier-epoch)) := by omega
  rw [leapYears,leapYears,split,List.range_add,List.countP_append]
  exact Nat.le_add_right _ _

end Days

end RemDb.Lib
