import Mathlib.Tactic.IntervalCases
import RemDb.Lib.Calendar
import RemDb.Sql.InsertLiterals

namespace RemDb
open RemDb.Lib

-- The form `YYYY-MM-DD HH:MM:SS[+HH[:MM]]`: a month and a day of any two
-- digits, a clock within its day.
structure Offset where
  behind : Bool
  hours : Nat
  minutes : Option Nat
  dayHours : hours < 24
  hourMinutes : ∀ count, minutes = some count → count < 60

structure Clock where
  hour : Nat
  minute : Nat
  second : Nat
  offset : Option Offset
  dayHours : hour < 24
  hourMinutes : minute < 60
  minuteSeconds : second < 60

structure TimeText where
  year : Nat
  month : Nat
  day : Nat
  clock : Option Clock
  era : 1970 ≤ year ∧ year ≤ 9999
  monthDigits : month < 100
  dayDigits : day < 100

def twoDigits (n : Nat) : List Char := [(n/10).digitChar,(n%10).digitChar]
def fourDigits (n : Nat) : List Char := twoDigits (n/100) ++ twoDigits (n%100)

namespace Offset

def text (offset : Offset) : List Char :=
  (if offset.behind then '-' else '+') :: (twoDigits offset.hours ++ (offset.minutes.map fun count => ':' :: twoDigits count).getD [])

def ahead (offset : Offset) : Int :=
  (if offset.behind then -1 else 1)*(offset.hours*3600+offset.minutes.getD 0*60 : Nat)

theorem ahead_bounds (offset : Offset) : -86400 < offset.ahead ∧ offset.ahead < 86400 := by
  have few : offset.minutes.getD 0 < 60 := by
    cases given : offset.minutes with
    | none => decide
    | some count => exact offset.hourMinutes count given
  have hours := offset.dayHours
  unfold ahead
  split <;> omega

end Offset

namespace Clock

def timeText (clock : Clock) : List Char :=
  twoDigits clock.hour ++ ':' :: (twoDigits clock.minute ++ ':' :: twoDigits clock.second)

def text (clock : Clock) : List Char := clock.timeText ++ (clock.offset.map Offset.text).getD []

def sinceMidnight (clock : Clock) : Nat := clock.hour*3600+clock.minute*60+clock.second
def ahead (clock : Clock) : Int := (clock.offset.map Offset.ahead).getD 0

end Clock

namespace TimeText

def dateText (stamp : TimeText) : List Char :=
  fourDigits stamp.year ++ '-' :: (twoDigits stamp.month ++ '-' :: twoDigits stamp.day)

def text (stamp : TimeText) : List Char := stamp.dateText ++ (stamp.clock.map fun clock => ' ' :: clock.text).getD []

def ahead (stamp : TimeText) : Int := (stamp.clock.map Clock.ahead).getD 0

-- Microseconds since 1970-01-01 00:00:00 UTC.
def instant (stamp : TimeText) : Int :=
  ((dayNumber 1970 stamp.year stamp.month stamp.day*86400 : Nat)+((stamp.clock.map Clock.sinceMidnight).getD 0 : Nat)-stamp.ahead)*1000000

def Valid (stamp : TimeText) : Prop := ValidDate stamp.year stamp.month stamp.day

-- A date of the calendar is read as its instant, any other is an error.
def Read (stamp : TimeText) : Prop :=
  (stamp.Valid → ∃ timestamp, TimeString.parse stamp.text = .ok (some timestamp) ∧ timestamp.toInt = stamp.instant) ∧
    (¬ stamp.Valid → TimeString.parse stamp.text = .ok none)

-- Before the first leap day is over, and in UTC.
def Plain (stamp : TimeText) : Prop :=
  stamp.Valid ∧ (stamp.year < 1972 ∨ stamp.year = 1972 ∧ stamp.month ≤ 2) ∧ stamp.ahead = 0

end TimeText

section Digits

theorem twoDigits_digit (n : Nat) (small : n < 100) : ∀ letter ∈ twoDigits n, letter.isDigit = true := by
  intro letter among
  have high : n/10 < 10 := by omega
  have low : n%10 < 10 := by omega
  rcases List.mem_cons.mp among with rfl | among
  · rw [Nat.isDigit_digitChar,decide_eq_true high]
  · rw [List.mem_singleton.mp among,Nat.isDigit_digitChar,decide_eq_true low]

theorem fourDigits_digit (n : Nat) (small : n < 10000) : ∀ letter ∈ fourDigits n, letter.isDigit = true := by
  intro letter among
  rcases List.mem_append.mp among with high | low
  · exact twoDigits_digit _ (by omega) letter high
  · exact twoDigits_digit _ (by omega) letter low

theorem digitsValue_two {n : Nat} (small : n < 100) : digitsValue (twoDigits n) = some n := by
  have high : n/10 < 10 := by omega
  have low : n%10 < 10 := by omega
  rw [digitsValue,if_pos ⟨List.cons_ne_nil _ _,List.all_eq_true.mpr (twoDigits_digit n small)⟩]
  simp only [twoDigits,List.foldl_cons,List.foldl_nil,Nat.toNat_digitChar_sub_48_of_lt_ten high,
    Nat.toNat_digitChar_sub_48_of_lt_ten low]
  exact congrArg some (by omega)

theorem digitsValue_four {n : Nat} (small : n < 10000) : digitsValue (fourDigits n) = some n := by
  rw [digitsValue,if_pos ⟨List.cons_ne_nil _ _,List.all_eq_true.mpr (fourDigits_digit n small)⟩]
  simp only [fourDigits,twoDigits,List.cons_append,List.nil_append,List.foldl_cons,List.foldl_nil,
    Nat.toNat_digitChar_sub_48_of_lt_ten (show n/100/10 < 10 by omega),Nat.toNat_digitChar_sub_48_of_lt_ten (show n/100%10 < 10 by omega),
    Nat.toNat_digitChar_sub_48_of_lt_ten (show n%100/10 < 10 by omega),Nat.toNat_digitChar_sub_48_of_lt_ten (show n%100%10 < 10 by omega)]
  exact congrArg some (by omega)

theorem parseI64_digits {digits : List Char} {n : Nat} (all : ∀ letter ∈ digits, letter.isDigit = true)
    (value : digitsValue digits = some n) (small : n < 10000) : parseI64 digits = some (Int64.ofNat n) := by
  have fits : n < 2^63 := by omega
  unfold parseI64
  split
  · exact absurd (all '-' List.mem_cons_self) (by decide)
  · exact absurd (all '+' List.mem_cons_self) (by decide)
  · rw [value]
    exact if_pos fits

theorem parseI64_dashed {digits : List Char} (all : ∀ letter ∈ digits, letter.isDigit = true) (filled : digits ≠ [])
    (rest : List Char) : parseI64 (digits ++ '-' :: rest) = none := by
  obtain ⟨first,more,rfl⟩ := List.exists_cons_of_ne_nil filled
  have digit := all first List.mem_cons_self
  have unread : digitsValue (first :: more ++ '-' :: rest) = none := by
    refine if_neg fun both => ?_
    have dash := List.all_eq_true.mp both.2 '-' (List.mem_append_right _ List.mem_cons_self)
    exact absurd dash (by decide)
  rw [List.cons_append] at unread ⊢
  unfold parseI64
  split
  · rename_i same
    rw [(List.cons.inj same).1] at digit
    exact absurd digit (by decide)
  · rename_i same
    rw [(List.cons.inj same).1] at digit
    exact absurd digit (by decide)
  · rw [unread]

end Digits

namespace TimeString

section Splitting

theorem digit_not_space {letter : Char} (digit : letter.isDigit = true) : isSpace letter = false := by
  obtain ⟨low,high⟩ := SqlParser.digit_range digit
  rw [isSpace]
  generalize letter.toNat = code at low high
  interval_cases code <;> rfl

theorem components_three {mark : Char} {one two three : List Char} {first second third : Int64} (outside : mark.isDigit = false)
    (digits : ∀ letter ∈ one ++ two ++ three, letter.isDigit = true) (read_one : parseI64 one = some first)
    (read_two : parseI64 two = some second) (read_three : parseI64 three = some third) :
    components mark (one ++ mark :: (two ++ mark :: three)) = some (first,second,third) := by
  have apart {part : List Char} (inside : part ⊆ one ++ two ++ three) : mark ∉ part := by
    intro among
    have digit := digits mark (inside among)
    rw [outside] at digit
    cases digit
  have split : splitAt mark (one ++ mark :: (two ++ mark :: three)) = [one,two,three] := by
    rw [splitAt,List.splitOn_append_cons_self_of_not_mem (apart fun _ => by simp +contextual),
      List.splitOn_append_cons_self_of_not_mem (apart fun _ => by simp +contextual),
      List.splitOn_eq_singleton (apart fun _ => by simp +contextual)]
  rw [components,split]
  simp only [read_one,read_two,read_three]
  rfl

theorem words_one {word : List Char} (filled : word ≠ []) (solid : ∀ letter ∈ word, isSpace letter = false) :
    words word = [word] := by
  rw [words,List.splitOnP_eq_singleton solid,List.filter_cons_of_pos]
  · rfl
  · rw [List.isEmpty_eq_false_iff.mpr filled]
    rfl

theorem words_two {first second : List Char} (filled : first ≠ [] ∧ second ≠ [])
    (solid : ∀ letter ∈ first ++ second, isSpace letter = false) : words (first ++ ' ' :: second) = [first,second] := by
  have front : ∀ letter ∈ first, isSpace letter = false := fun letter among => solid letter (List.mem_append_left _ among)
  have back : ∀ letter ∈ second, isSpace letter = false := fun letter among => solid letter (List.mem_append_right _ among)
  have rest := words_one filled.2 back
  rw [words] at rest
  rw [words,List.splitOnP_append_cons_of_forall_mem front ' ' (by decide),List.filter_cons_of_pos,rest]
  rw [List.isEmpty_eq_false_iff.mpr filled.1]
  rfl

end Splitting

end TimeString

section Letters

def Marks (letter : Char) : Prop := letter.isDigit = true ∨ letter ∈ ['-','+',':']

theorem marks_digits {letters : List Char} (digits : ∀ letter ∈ letters, letter.isDigit = true) : ∀ letter ∈ letters, Marks letter :=
  fun letter among => .inl (digits letter among)

theorem marks_joined {first second : List Char} {mark : Char} (between : mark ∈ ['-','+',':'])
    (front : ∀ letter ∈ first, Marks letter) (back : ∀ letter ∈ second, Marks letter) :
    ∀ letter ∈ first ++ mark :: second, Marks letter := by
  intro letter among
  rcases List.mem_append.mp among with before | among
  · exact front letter before
  · rcases List.mem_cons.mp among with rfl | after
    · exact .inr between
    · exact back letter after

theorem marks_solid {letter : Char} (marks : Marks letter) :
    TimeString.isSpace letter = false ∧ letter ∉ ['Y','M','D','H','I','S'] ∧ letter ≠ '[' := by
  rcases marks with digit | mark
  · refine ⟨TimeString.digit_not_space digit,?_,?_⟩
    · intro among
      simp only [List.mem_cons,List.not_mem_nil,or_false] at among
      rcases among with rfl | rfl | rfl | rfl | rfl | rfl <;> exact absurd digit (by decide)
    · rintro rfl
      exact absurd digit (by decide)
  · simp only [List.mem_cons,List.not_mem_nil,or_false] at mark
    rcases mark with rfl | rfl | rfl <;> decide

theorem Offset.marks (offset : Offset) : ∀ letter ∈ offset.text, Marks letter := by
  have sign : (if offset.behind then '-' else '+') ∈ ['-','+',':'] := by cases offset.behind <;> decide
  have hours := marks_digits (twoDigits_digit offset.hours (Nat.lt_trans offset.dayHours (by decide)))
  unfold Offset.text
  cases given : offset.minutes with
  | none =>
    rw [Option.map_none,Option.getD_none,List.append_nil]
    exact @marks_joined [] _ _ sign (fun _ => nofun) hours
  | some count =>
    have minutes := marks_digits (twoDigits_digit count (Nat.lt_trans (offset.hourMinutes count given) (by decide)))
    rw [Option.map_some,Option.getD_some]
    exact @marks_joined [] _ _ sign (fun _ => nofun) (marks_joined (by decide) hours minutes)

theorem Clock.digits (clock : Clock) :
    ∀ letter ∈ twoDigits clock.hour ++ twoDigits clock.minute ++ twoDigits clock.second, letter.isDigit = true := by
  intro letter among
  rcases List.mem_append.mp among with before | third
  · rcases List.mem_append.mp before with first | second
    · exact twoDigits_digit _ (Nat.lt_trans clock.dayHours (by decide)) letter first
    · exact twoDigits_digit _ (Nat.lt_trans clock.hourMinutes (by decide)) letter second
  · exact twoDigits_digit _ (Nat.lt_trans clock.minuteSeconds (by decide)) letter third

theorem Clock.timeMarks (clock : Clock) : ∀ letter ∈ clock.timeText, Marks letter :=
  marks_joined (by decide) (marks_digits fun letter among => clock.digits letter (by simp [among]))
    (marks_joined (by decide) (marks_digits fun letter among => clock.digits letter (by simp [among]))
      (marks_digits fun letter among => clock.digits letter (by simp [among])))

theorem Clock.marks (clock : Clock) : ∀ letter ∈ clock.text, Marks letter := by
  intro letter among
  rcases List.mem_append.mp among with before | behind
  · exact clock.timeMarks letter before
  · cases given : clock.offset with
    | none =>
      rw [given] at behind
      cases behind
    | some offset =>
      rw [given] at behind
      exact offset.marks letter behind

theorem TimeText.digits (stamp : TimeText) :
    ∀ letter ∈ fourDigits stamp.year ++ twoDigits stamp.month ++ twoDigits stamp.day, letter.isDigit = true := by
  intro letter among
  rcases List.mem_append.mp among with before | third
  · rcases List.mem_append.mp before with first | second
    · exact fourDigits_digit _ (Nat.lt_of_le_of_lt stamp.era.2 (by decide)) letter first
    · exact twoDigits_digit _ stamp.monthDigits letter second
  · exact twoDigits_digit _ stamp.dayDigits letter third

theorem TimeText.dateMarks (stamp : TimeText) : ∀ letter ∈ stamp.dateText, Marks letter :=
  marks_joined (by decide) (marks_digits fun letter among => stamp.digits letter (by simp [among]))
    (marks_joined (by decide) (marks_digits fun letter among => stamp.digits letter (by simp [among]))
      (marks_digits fun letter among => stamp.digits letter (by simp [among])))

end Letters

section Parsing

theorem Offset.calm (offset : Offset) : TimeString.offsetPanics (offset.text.drop 1) = false := by
  have digits := twoDigits_digit offset.hours (Nat.lt_trans offset.dayHours (by decide))
  unfold Offset.text TimeString.offsetPanics
  rw [List.drop_one,List.tail_cons]
  cases given : offset.minutes with
  | none =>
    have single (letter : Char) (among : letter ∈ twoDigits offset.hours) : TimeString.bytesOf letter = 1 :=
      if_pos (Nat.lt_of_le_of_lt (SqlParser.digit_range (digits letter among)).2 (by decide))
    have bytes : ((twoDigits offset.hours).map TimeString.bytesOf).sum = 2 := by
      rw [twoDigits,List.map_cons,List.map_cons,List.map_nil,single _ List.mem_cons_self,
        single _ (List.mem_cons_of_mem _ List.mem_cons_self)]
      rfl
    rw [Option.map_none,Option.getD_none,List.append_nil,bytes]
    exact Bool.and_eq_false_iff.mpr (.inl (decide_eq_false fun both => absurd both.2 (by decide)))
  | some count =>
    have minutes := twoDigits_digit count (Nat.lt_trans (offset.hourMinutes count given) (by decide))
    have colon {letters : List Char} (all : ∀ letter ∈ letters, letter.isDigit = true) : ':' ∉ letters :=
      fun among => absurd (all ':' among) (by decide)
    have split : TimeString.splitAt ':' (twoDigits offset.hours ++ ':' :: twoDigits count) = [twoDigits offset.hours,twoDigits count] := by
      rw [TimeString.splitAt,List.splitOn_append_cons_self_of_not_mem (colon digits),List.splitOn_eq_singleton (colon minutes)]
    rw [Option.map_some,Option.getD_some,split]
    rfl

theorem Clock.splitTimezone (clock : Clock) : TimeString.splitTimezone clock.text = .ok clock.timeText := by
  have unsigned : ∀ letter ∈ clock.timeText, decide (letter ≠ '+' ∧ letter ≠ '-') = true := by
    intro letter among
    refine decide_eq_true ?_
    have split : letter.isDigit = true ∨ letter = ':' := by
      rcases List.mem_append.mp among with digit | among
      · exact .inl (clock.digits letter (by simp [digit]))
      · rcases List.mem_cons.mp among with rfl | among
        · exact .inr rfl
        · rcases List.mem_append.mp among with digit | among
          · exact .inl (clock.digits letter (by simp [digit]))
          · rcases List.mem_cons.mp among with rfl | digit
            · exact .inr rfl
            · exact .inl (clock.digits letter (by simp [digit]))
    rcases split with digit | rfl
    · constructor <;> rintro rfl <;> exact absurd digit (by decide)
    · decide
  have filled : clock.timeText ≠ [] := by
    intro empty
    cases empty
  cases given : clock.offset with
  | none =>
    have whole : clock.text = clock.timeText := by rw [Clock.text,given,Option.map_none,Option.getD_none,List.append_nil]
    have before : clock.timeText.takeWhile (fun letter => decide (letter ≠ '+' ∧ letter ≠ '-')) = clock.timeText :=
      List.takeWhile_eq_self_iff.mpr unsigned
    rw [whole,TimeString.splitTimezone,before,List.drop_length,if_neg (by simp)]
  | some offset =>
    have whole : clock.text = clock.timeText ++ offset.text := by rw [Clock.text,given,Option.map_some,Option.getD_some]
    have before : clock.text.takeWhile (fun letter => decide (letter ≠ '+' ∧ letter ≠ '-')) = clock.timeText := by
      rw [whole,List.takeWhile_append_of_pos unsigned,Offset.text,List.takeWhile_cons_of_neg,List.append_nil]
      cases offset.behind <;> decide
    have digit : ((offset.text[1]?).any Char.isDigit) = true :=
      twoDigits_digit offset.hours (Nat.lt_trans offset.dayHours (by decide)) _ List.mem_cons_self
    rw [TimeString.splitTimezone,before,whole,List.drop_left,if_pos ⟨filled,digit⟩,offset.calm]
    rfl

theorem Clock.components (clock : Clock) : TimeString.components ':' clock.timeText =
    some (Int64.ofNat clock.hour,Int64.ofNat clock.minute,Int64.ofNat clock.second) := by
  have hours := clock.dayHours
  have minutes := clock.hourMinutes
  have seconds := clock.minuteSeconds
  refine TimeString.components_three (by decide) clock.digits ?_ ?_ ?_
  · exact parseI64_digits (twoDigits_digit _ (by omega)) (digitsValue_two (by omega)) (by omega)
  · exact parseI64_digits (twoDigits_digit _ (by omega)) (digitsValue_two (by omega)) (by omega)
  · exact parseI64_digits (twoDigits_digit _ (by omega)) (digitsValue_two (by omega)) (by omega)

theorem TimeText.components (stamp : TimeText) : TimeString.components '-' stamp.dateText =
    some (Int64.ofNat stamp.year,Int64.ofNat stamp.month,Int64.ofNat stamp.day) := by
  have years := stamp.era
  have months := stamp.monthDigits
  have days := stamp.dayDigits
  refine TimeString.components_three (by decide) stamp.digits ?_ ?_ ?_
  · exact parseI64_digits (fourDigits_digit _ (by omega)) (digitsValue_four (by omega)) (by omega)
  · exact parseI64_digits (twoDigits_digit _ months) (digitsValue_two months) (by omega)
  · exact parseI64_digits (twoDigits_digit _ days) (digitsValue_two days) (by omega)

theorem TimeText.letters (stamp : TimeText) : ∀ letter ∈ stamp.text, Marks letter ∨ letter = ' ' := by
  intro letter among
  rcases List.mem_append.mp among with date | behind
  · exact .inl (stamp.dateMarks letter date)
  · cases given : stamp.clock with
    | none =>
      rw [given] at behind
      cases behind
    | some clock =>
      rw [given,Option.map_some,Option.getD_some] at behind
      rcases List.mem_cons.mp behind with rfl | behind
      · exact .inr rfl
      · exact .inl (clock.marks letter behind)

theorem TimeText.parse_eq (stamp : TimeText) : TimeString.parse stamp.text =
    (TimeString.seconds (Int64.ofNat stamp.year) (Int64.ofNat stamp.month) (Int64.ofNat stamp.day)
      (Int64.ofNat ((stamp.clock.map Clock.hour).getD 0)) (Int64.ofNat ((stamp.clock.map Clock.minute).getD 0))
      (Int64.ofNat ((stamp.clock.map Clock.second).getD 0))).map fun total => some (total*1000000) := by
  have other (letter : Char) (among : letter ∈ stamp.text) : letter ∉ ['Y','M','D','H','I','S'] ∧ letter ≠ '[' := by
    rcases stamp.letters letter among with marks | rfl
    · exact (marks_solid marks).2
    · decide
  have no_bracket : ¬ (stamp.text.head? = some '[' ∧ stamp.text.getLast? = some ']') :=
    fun both => (other '[' (List.mem_of_head? both.1)).2 rfl
  have no_format : ¬ (stamp.text.any fun letter => letter ∈ ['Y','M','D','H','I','S']) = true := by
    intro found
    obtain ⟨letter,among,format⟩ := List.any_eq_true.mp found
    exact (other letter among).1 (of_decide_eq_true format)
  have no_number : parseI64 stamp.text = none := by
    rw [TimeText.text,TimeText.dateText,List.append_assoc,List.cons_append]
    have years : ∀ letter ∈ fourDigits stamp.year, letter.isDigit = true :=
      fun letter among => stamp.digits letter (List.mem_append_left _ (List.mem_append_left _ among))
    exact parseI64_dashed years (List.cons_ne_nil _ _) _
  have date_filled : stamp.dateText ≠ [] := by
    intro empty
    cases empty
  have date_solid : ∀ letter ∈ stamp.dateText, TimeString.isSpace letter = false :=
    fun letter among => (marks_solid (stamp.dateMarks letter among)).1
  rw [TimeString.parse,if_neg no_bracket,if_neg no_format,no_number]
  cases given : stamp.clock with
  | none =>
    have words : TimeString.words stamp.text = [stamp.dateText] := by
      rw [TimeText.text,given,Option.map_none,Option.getD_none,List.append_nil]
      exact TimeString.words_one date_filled date_solid
    simp only [words,stamp.components]
    rfl
  | some clock =>
    have words : TimeString.words stamp.text = [stamp.dateText,clock.text] := by
      rw [TimeText.text,given,Option.map_some,Option.getD_some]
      refine TimeString.words_two ⟨date_filled,fun empty => by cases empty⟩ fun letter among => ?_
      rcases List.mem_append.mp among with date | time
      · exact date_solid letter date
      · exact (marks_solid (clock.marks letter time)).1
    simp only [words,stamp.components,clock.splitTimezone,bind,Except.bind,clock.components,Option.map_some,Option.getD_some]
    cases TimeString.seconds (Int64.ofNat stamp.year) (Int64.ofNat stamp.month) (Int64.ofNat stamp.day) (Int64.ofNat clock.hour)
        (Int64.ofNat clock.minute) (Int64.ofNat clock.second) with
    | error fault => rfl
    | ok total => rfl

end Parsing

section Seconds

-- The seconds that are counted: every year has 365 days.
def TimeText.counted (stamp : TimeText) : Int :=
  ((stamp.year-1970 : Nat)*365+((commonLengths.take (stamp.month-1)).sum : Nat)+((stamp.day : Int)-1))*86400+
    ((stamp.clock.map Clock.sinceMidnight).getD 0 : Nat)

theorem toInt_small {n : Nat} (small : n < 10000) : (Int64.ofNat n).toInt = n := by
  rw [Int64.toInt_ofNat_of_lt (by omega)]

theorem monthDays_sum (months : Fin 13) :
    (TimeString.monthDays.take months).foldl (·+·) 0 = Int64.ofInt ((commonLengths.take months).sum : Nat) := by
  revert months
  decide

theorem TimeText.month_before (stamp : TimeText) : (Int64.ofNat stamp.month-1).toInt = (stamp.month : Int)-1 := by
  have digits := stamp.monthDigits
  rw [Int64.toInt_sub,toInt_small (by omega)]
  exact Int.bmod_eq_of_le (by change _ ≤ (stamp.month : Int)-1; omega) (by change (stamp.month : Int)-1 < _; omega)

theorem TimeText.seconds_eq (stamp : TimeText) (inside : stamp.month ≤ 13) :
    TimeString.seconds (Int64.ofNat stamp.year) (Int64.ofNat stamp.month) (Int64.ofNat stamp.day)
      (Int64.ofNat ((stamp.clock.map Clock.hour).getD 0)) (Int64.ofNat ((stamp.clock.map Clock.minute).getD 0))
      (Int64.ofNat ((stamp.clock.map Clock.second).getD 0)) = .ok (Int64.ofInt stamp.counted) := by
  have year : max 0 ((Int64.ofNat stamp.year).toInt-1970) = (stamp.year-1970 : Nat) := by
    have era := stamp.era
    rw [toInt_small (by omega)]
    omega
  have months : ((stamp.month : Int)-1).toNat = stamp.month-1 := by omega
  have days := monthDays_sum ⟨stamp.month-1,by omega⟩
  have since : ((stamp.clock.map Clock.sinceMidnight).getD 0 : Nat) = (stamp.clock.map Clock.hour).getD 0*(60*60)+
      (stamp.clock.map Clock.minute).getD 0*60+(stamp.clock.map Clock.second).getD 0 := by cases stamp.clock <;> rfl
  have spelled : stamp.counted = ((stamp.year-1970 : Nat) : Int)*(365*24*60*60)+((commonLengths.take (stamp.month-1)).sum : Nat)*(24*60*60)+
      ((stamp.day : Int)-1)*(24*60*60)+((stamp.clock.map Clock.hour).getD 0 : Nat)*(60*60)+
      ((stamp.clock.map Clock.minute).getD 0 : Nat)*60+((stamp.clock.map Clock.second).getD 0 : Nat) := by
    rw [TimeText.counted,since]
    omega
  rw [TimeString.seconds,stamp.month_before,if_neg (by omega),year,months,days,spelled]
  simp only [Int64.ofInt_add,Int64.ofInt_mul,Int64.ofInt_sub,Int64.ofInt_eq_ofNat]
  rfl

theorem TimeText.parse_counted (stamp : TimeText) : TimeString.parse stamp.text =
    if stamp.month ≤ 13 then .ok (some (Int64.ofInt (stamp.counted*1000000))) else .error .panicked := by
  rw [stamp.parse_eq]
  by_cases inside : stamp.month ≤ 13
  · rw [stamp.seconds_eq inside,if_pos inside,Int64.ofInt_mul]
    rfl
  · rw [TimeString.seconds,stamp.month_before,if_pos (by omega),if_neg inside]
    rfl

end Seconds

section Instants

theorem leapDays_none {year month : Nat} (era : 1970 ≤ year) :
    leapDays 1970 year month = 0 ↔ year < 1972 ∨ year = 1972 ∧ month ≤ 2 := by
  have before_first : leapYears 1970 1972 = 0 := by decide
  have first_over : leapYears 1970 1973 = 1 := by decide
  constructor
  · intro none_over
    rcases Nat.lt_trichotomy year 1972 with before | rfl | behind
    · exact .inl before
    · refine .inr ⟨rfl,Nat.not_lt.mp fun late => ?_⟩
      have passed : (leap 1972 && decide (2 < month)) = true := Bool.and_eq_true_iff.mpr ⟨by decide,decide_eq_true late⟩
      rw [leapDays,if_pos passed] at none_over
      omega
    · have gone := @leapYears_mono 1970 1973 year (by omega)
      rw [first_over] at gone
      unfold leapDays at none_over
      omega
  · rintro (before | ⟨rfl,early⟩)
    · have years := @leapYears_mono 1970 year 1972 (by omega)
      rw [before_first] at years
      have common : leap year = false := by
        obtain rfl | rfl : year = 1970 ∨ year = 1971 := by omega
        · decide
        · decide
      rw [leapDays,common,Nat.le_zero.mp years]
      rfl
    · have ahead : ¬ (leap 1972 && decide (2 < month)) = true :=
        fun passed => Nat.not_lt.mpr early (of_decide_eq_true (Bool.and_eq_true_iff.mp passed).2)
      rw [leapDays,before_first,if_neg ahead]

namespace TimeText
variable (stamp : TimeText)

theorem ahead_bounds : -86400 < stamp.ahead ∧ stamp.ahead < 86400 := by
  rw [TimeText.ahead]
  cases stamp.clock with
  | none => decide
  | some clock =>
    rw [Option.map_some,Option.getD_some,Clock.ahead]
    cases clock.offset with
    | none => decide
    | some offset => exact offset.ahead_bounds

theorem since_bound : (stamp.clock.map Clock.sinceMidnight).getD 0 < 86400 := by
  cases stamp.clock with
  | none => decide
  | some clock =>
    have hours := clock.dayHours
    have minutes := clock.hourMinutes
    have seconds := clock.minuteSeconds
    rw [Option.map_some,Option.getD_some,Clock.sinceMidnight]
    omega

theorem counted_toInt (inside : stamp.month ≤ 13) :
    (Int64.ofInt (stamp.counted*1000000)).toInt = stamp.counted*1000000 := by
  have era := stamp.era
  have days := stamp.dayDigits
  have clock := stamp.since_bound
  have sums : ∀ months : Fin 13, (commonLengths.take months).sum ≤ 365 := by decide
  have months := sums ⟨stamp.month-1,by omega⟩
  change (commonLengths.take (stamp.month-1)).sum ≤ 365 at months
  refine Int64.toInt_ofInt_of_le ?_ ?_ <;> rw [counted] <;> omega

-- What the counted seconds leave out: the leap days, and the offset.
theorem instant_eq (valid : stamp.Valid) :
    stamp.instant = (stamp.counted+leapDays 1970 stamp.year stamp.month*86400-stamp.ahead)*1000000 := by
  obtain ⟨first,last,positive,_⟩ := valid
  rw [instant,counted,dayNumber_eq first last]
  omega

theorem read_iff : stamp.Read ↔ stamp.Plain := by
  have bounds := stamp.ahead_bounds
  by_cases valid : stamp.Valid
  · have inside : stamp.month ≤ 13 := Nat.le_trans valid.2.1 (by decide)
    rw [Plain,← leapDays_none stamp.era.1,Read,stamp.parse_counted,if_pos inside]
    constructor
    · rintro ⟨read,_⟩
      obtain ⟨timestamp,parsed,value⟩ := read valid
      obtain rfl := Option.some.inj (Except.ok.inj parsed)
      rw [stamp.counted_toInt inside,stamp.instant_eq valid] at value
      exact ⟨valid,by omega,by omega⟩
    · rintro ⟨_,none_over,utc⟩
      refine ⟨fun _ => ⟨_,rfl,?_⟩,fun other => absurd valid other⟩
      rw [stamp.counted_toInt inside,stamp.instant_eq valid,none_over,utc]
      omega
  · refine ⟨fun read => ?_,fun plain => absurd plain.1 valid⟩
    have refused := read.2 valid
    rw [stamp.parse_counted] at refused
    split at refused <;> cases refused

end TimeText

-- A time literal is read as its instant exactly if it is a date of the calendar
-- up to the first leap day, in UTC; such literals are read in their order.
theorem time_literal_iff (stamp : TimeText) : (stamp.Read ↔ stamp.Plain) ∧
    ∀ later : TimeText, stamp.Plain → later.Plain → stamp.instant < later.instant →
      ∃ first second, TimeString.parse stamp.text = .ok (some first) ∧
        TimeString.parse later.text = .ok (some second) ∧ first < second := by
  refine ⟨stamp.read_iff,fun later plain other order => ?_⟩
  obtain ⟨first,read,value⟩ := (stamp.read_iff.mpr plain).1 plain.1
  obtain ⟨second,later_read,later_value⟩ := (later.read_iff.mpr other).1 other.1
  refine ⟨first,second,read,later_read,Int64.lt_iff_toInt_lt.mpr ?_⟩
  rw [value,later_value]
  exact order

def marchFirst : TimeText :=
  ⟨1972,3,1,some ⟨0,0,0,none,by decide,by decide,by decide⟩,by decide,by decide,by decide⟩

-- The day behind the first leap day is read as the leap day itself.
theorem leap_day_missed : marchFirst.text = "1972-03-01 00:00:00".toList ∧ marchFirst.Valid ∧
    marchFirst.instant = 68256000000000 ∧ TimeString.parse marchFirst.text = .ok (some 68169600000000) ∧ ¬ marchFirst.Read := by
  have read : TimeString.parse marchFirst.text = .ok (some 68169600000000) := by
    rw [marchFirst.parse_counted]
    rfl
  have instant : marchFirst.instant = 68256000000000 := by decide +kernel
  have valid : ValidDate 1972 3 1 := by decide
  refine ⟨by decide +kernel,valid,instant,read,fun claimed => ?_⟩
  obtain ⟨timestamp,parsed,value⟩ := claimed.1 valid
  rw [read] at parsed
  obtain rfl := Option.some.inj (Except.ok.inj parsed)
  rw [instant] at value
  exact absurd value (by decide)

end Instants

end RemDb
