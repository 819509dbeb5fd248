import Mathlib.Algebra.BigOperators.Group.List.Basic
import Mathlib.Tactic.FieldSimp
import RemDb.Sql.Sampling

namespace RemDb
namespace TimeSeries
open RemDb.Lib

section Meaning
variable (width : Nat) (records : List ExactRecord)

def windowOf (record : ExactRecord) : Nat := record.timestamp.toNat/width

def recordsIn (k : Nat) : List ExactRecord := itemsAt (windowOf width) records k

def average (window_records : List ExactRecord) : Rat := (window_records.map (·.value)).sum/window_records.length

def firstValue (window_records : List ExactRecord) : Rat := (window_records.head?.map (·.value)).getD 0

-- The nearest windows with records on either side.
def Before (k j : Nat) : Prop := j < k ∧ recordsIn width records j ≠ [] ∧ ∀ i, j < i → i < k → recordsIn width records i = []

def After (k l : Nat) : Prop := k < l ∧ recordsIn width records l ≠ [] ∧ ∀ i, k < i → i < l → recordsIn width records i = []

-- What fills a window between two others, if the next one counts as `ahead` says.
def Filled (ahead : List ExactRecord → Rat) (k j l : Nat) (value : Rat) : Option FillClause → Prop
  | none => False
  | some .prev => value = average (recordsIn width records j)
  | some .next => value = ahead (recordsIn width records l)
  | some .linear => value = average (recordsIn width records j)+
      (ahead (recordsIn width records l)-average (recordsIn width records j))*(((k : Rat)-j)/((l : Rat)-j))
  | some (.fixedValue constant) => value = constant

def RowValue (fill_clause : Option FillClause) (ahead : List ExactRecord → Rat) (k : Nat) (value : Rat) : Prop :=
  recordsIn width records k ≠ [] ∧ value = average (recordsIn width records k) ∨
    recordsIn width records k = [] ∧ ∃ j l, Before width records k j ∧ After width records k l ∧
      Filled width records ahead k j l value fill_clause

end Meaning

def timeAndValue (record : ExactRecord) : Nat × Rat := (record.timestamp.toNat,record.value)

-- The rows: their times go up, and they are those of the windows with records and,
-- where there is a FILL, of the empty windows between them.
structure Sampled (width : Nat) (fill_clause : Option FillClause) (ahead : List ExactRecord → Rat) (records : List ExactRecord)
    (rows : List (Nat × Rat)) : Prop where
  increasing : rows.Pairwise fun earlier later => earlier.1 < later.1
  exact : ∀ time value, (time,value) ∈ rows ↔ ∃ k, time = k*width ∧ RowValue width records fill_clause ahead k value

def intervalSeconds (interval_str : String) : Nat := (secondsFrom 0 0 interval_str.toList).getD 0

-- One answer for every order of the records, and it is the right one.
def SamplesExactly (records : List ExactRecord) (sample_interval : String) (fill_clause : Option FillClause) : Prop :=
  ∃ pairs, Sampled (intervalSeconds sample_interval*10^9) fill_clause average records pairs ∧
    ∀ arranged, arranged.Perm records → ∃ rows, downsampleRecords arranged sample_interval fill_clause = some (.ok rows) ∧
      rows.map timeAndValue = pairs

-- Every window ends before the end of time and its records can be counted, and the
-- windows that fill the gap before them are flat.
structure Sampleable (width : Nat) (fill_clause : Option FillClause) (records : List ExactRecord) : Prop where
  ends : ∀ record ∈ records, (windowOf width record+1)*width < 2^64
  counts : ∀ k, (recordsIn width records k).length < 2^31
  flat : fill_clause = some .next ∨ fill_clause = some .linear → ∀ k j l, recordsIn width records k = [] →
    Before width records k j → After width records k l →
      ∀ one ∈ recordsIn width records l, ∀ other ∈ recordsIn width records l, one.value = other.value

section Counting

theorem sumAndCount_from (window_records : List ExactRecord) (sum : Rat) (count : Nat) :
    window_records.foldlM (fun (state : Rat × Nat) record =>
      if state.2+1 < 2^31 then some (state.1+record.value,state.2+1) else none) (sum,count) =
      if window_records = [] ∨ count+window_records.length < 2^31 then
        some (sum+(window_records.map (·.value)).sum,count+window_records.length) else none := by
  induction window_records generalizing sum count with
  | nil =>
    rw [if_pos (.inl rfl),List.map_nil,List.sum_nil,add_zero]
    rfl
  | cons record rest ih =>
    rw [List.foldlM_cons]
    have length : count+(record :: rest).length = count+1+rest.length := by
      rw [List.length_cons]
      omega
    by_cases fits : count+1 < 2^31
    · rw [if_pos (show (sum,count).2+1 < 2^31 from fits),Option.bind_eq_bind,Option.bind_some,ih,List.map_cons,List.sum_cons,
        ← add_assoc,length]
      by_cases more : count+1+rest.length < 2^31
      · rw [if_pos (.inr more),if_pos (.inr more)]
      · have filled : rest ≠ [] := by
          rintro rfl
          exact more fits
        rw [if_neg (fun either => either.elim filled more),if_neg (fun either => either.elim (List.cons_ne_nil _ _) more)]
    · rw [if_neg (show ¬ (sum,count).2+1 < 2^31 from fits),length,
        if_neg (fun either => either.elim (List.cons_ne_nil _ _) fun more => fits (by omega))]
      rfl

theorem averageRecord_filled (current_window : UInt64) {window_records : List ExactRecord} (filled : window_records ≠ []) :
    ∃ record : ExactRecord, record.timestamp = current_window ∧ record.value = average window_records ∧
      averageRecord current_window window_records = if window_records.length < 2^31 then some record else none := by
  obtain ⟨first,rest,rfl⟩ := List.exists_cons_of_ne_nil filled
  refine ⟨{first with timestamp:=current_window,value:=average (first :: rest)},rfl,rfl,?_⟩
  have counted := sumAndCount_from (first :: rest) 0 0
  rw [Nat.zero_add,zero_add] at counted
  rw [averageRecord,sumAndCount,counted]
  by_cases small : (first :: rest).length < 2^31
  · rw [if_pos (.inr small),if_pos small]
    rfl
  · rw [if_neg (fun either => either.elim (List.cons_ne_nil _ _) small),if_neg small]
    rfl

end Counting

section Walking
variable {width : Nat} {records : List ExactRecord} {interval_nanos : UInt64}

theorem windowStart_toNat (interval_nanos timestamp : UInt64) : (timestamp/interval_nanos*interval_nanos).toNat =
    timestamp.toNat/interval_nanos.toNat*interval_nanos.toNat := by
  have whole := timestamp.toNat_lt
  have below := Nat.div_mul_le_self timestamp.toNat interval_nanos.toNat
  rw [UInt64.toNat_mul,UInt64.toNat_div,Nat.mod_eq_of_lt (by omega)]

theorem windowsOf_get (interval_nanos key : UInt64) (records : List ExactRecord) :
    OrderedEntries.Ascending (windowsOf interval_nanos records) ∧
    OrderedEntries.get key (windowsOf interval_nanos records) =
      (some (itemsAt (fun record => record.timestamp/interval_nanos*interval_nanos) records key)).filter (· ≠ []) := by
  induction records using List.reverseRecOn generalizing key with
  | nil => exact ⟨List.Pairwise.nil,rfl⟩
  | append_singleton before record ih =>
    rw [windowsOf,List.foldl_append,← windowsOf]
    refine ⟨OrderedEntries.insert_ascending (ih key).1,?_⟩
    rw [List.foldl_cons,List.foldl_nil,OrderedEntries.get_insert,itemsAt,List.filter_append]
    by_cases here : key = record.timestamp/interval_nanos*interval_nanos
    · rw [if_pos here,(ih _).2,← here,List.filter_cons_of_pos (by simpa using here.symm),List.filter_nil,itemsAt]
      generalize before.filter (fun record => decide (record.timestamp/interval_nanos*interval_nanos = key)) = held
      cases held <;> rfl
    · rw [if_neg here,(ih key).2,List.filter_cons_of_neg (by simpa using Ne.symm here),List.filter_nil,List.append_nil,itemsAt]

structure Ahead (width : Nat) (records : List ExactRecord) (k : Nat) (windows : List Window) : Prop where
  ascending : OrderedEntries.Ascending windows
  holds : ∀ start held, (start,held) ∈ windows ↔
    ∃ i, k ≤ i ∧ start.toNat = i*width ∧ held = recordsIn width records i ∧ held ≠ []

def Behind (width : Nat) (records : List ExactRecord) (k : Nat) : Option ExactRecord → Prop
  | none => ∀ j, j < k → recordsIn width records j = []
  | some prev => ∃ j, Before width records k j ∧ prev.timestamp.toNat = j*width ∧ prev.value = average (recordsIn width records j)

theorem recordsIn_start (positive : 0 < interval_nanos.toNat) (wide : interval_nanos.toNat = width) {start : UInt64} {i : Nat}
    (at_start : start.toNat = i*width) :
    itemsAt (fun record => record.timestamp/interval_nanos*interval_nanos) records start = recordsIn width records i := by
  refine List.filter_congr fun record _ => ?_
  have same : record.timestamp/interval_nanos*interval_nanos = start ↔ windowOf width record = i := by
    rw [← UInt64.toNat_inj,windowStart_toNat,at_start,wide,windowOf]
    exact Nat.mul_left_inj (Nat.pos_iff_ne_zero.mp (wide ▸ positive))
  simp only [same]

theorem windowsOf_ahead (positive : 0 < interval_nanos.toNat) (wide : interval_nanos.toNat = width) {k : Nat}
    (first : ∀ i, i < k → recordsIn width records i = []) : Ahead width records k (windowsOf interval_nanos records) := by
  have ascending := (windowsOf_get interval_nanos 0 records).1
  refine ⟨ascending,fun start held => ⟨fun among => ?_,?_⟩⟩
  · have found := OrderedEntries.get_of_mem ascending among
    rw [(windowsOf_get interval_nanos start records).2,Option.filter_eq_some_iff] at found
    obtain ⟨is,filled⟩ := found
    have is := Option.some.inj is
    have filled : held ≠ [] := by simpa using filled
    obtain ⟨record,inside⟩ := List.exists_mem_of_ne_nil held filled
    have listed : record ∈ itemsAt (fun record => record.timestamp/interval_nanos*interval_nanos) records start := by
      rw [is]
      exact inside
    have at_start : start.toNat = windowOf width record*width := by
      rw [← (mem_itemsAt.mp listed).2,windowStart_toNat,wide,windowOf]
    have same := @recordsIn_start _ records _ positive wide _ _ at_start
    refine ⟨windowOf width record,?_,at_start,is.symm.trans same,filled⟩
    by_contra before
    exact filled (is.symm.trans (same.trans (first _ (Nat.lt_of_not_le before))))
  · rintro ⟨i,_,at_start,rfl,filled⟩
    refine OrderedEntries.mem_of_get ?_
    rw [(windowsOf_get interval_nanos start records).2,recordsIn_start positive wide at_start,Option.filter_some,if_pos (by simpa using filled)]

theorem ahead_filled {k : Nat} {windows : List Window} {current_window : UInt64} (positive : 0 < width)
    (ahead : Ahead width records k windows) (here : current_window.toNat = k*width) (filled : recordsIn width records k ≠ []) :
    ∃ rest, windows = (current_window,recordsIn width records k) :: rest ∧ Ahead width records (k+1) rest := by
  obtain ⟨ascending,holds⟩ := ahead
  have among : (current_window,recordsIn width records k) ∈ windows := (holds _ _).mpr ⟨k,Nat.le_refl k,here,rfl,filled⟩
  cases windows with
  | nil => exact absurd among List.not_mem_nil
  | cons head rest =>
    obtain ⟨below,ascending_rest⟩ := List.pairwise_cons.mp ascending
    have is_head : head = (current_window,recordsIn width records k) := by
      rcases List.mem_cons.mp among with is | behind
      · exact is.symm
      · obtain ⟨i,late,start,_⟩ := (holds head.1 head.2).mp List.mem_cons_self
        have less := UInt64.lt_iff_toNat_lt.mp (below _ behind)
        rw [start,here] at less
        exact absurd (Nat.lt_of_mul_lt_mul_right less) (Nat.not_lt_of_le late)
    subst is_head
    refine ⟨rest,rfl,ascending_rest,fun start held => ⟨fun inside => ?_,fun ⟨i,late,at_start,is,some_held⟩ => ?_⟩⟩
    · obtain ⟨i,late,at_start,is,some_held⟩ := (holds start held).mp (List.mem_cons_of_mem _ inside)
      have less := UInt64.lt_iff_toNat_lt.mp (below _ inside)
      rw [at_start,here] at less
      exact ⟨i,Nat.lt_of_mul_lt_mul_right less,at_start,is,some_held⟩
    · rcases List.mem_cons.mp ((holds start held).mpr ⟨i,Nat.le_of_succ_le late,at_start,is,some_held⟩) with same | inside
      · have same_start : k*width = i*width := by rw [← here,← at_start,(Prod.mk.inj same).1]
        exact absurd (Nat.eq_of_mul_eq_mul_right positive same_start) (Nat.ne_of_lt late)
      · exact inside

theorem ahead_empty {k : Nat} {windows : List Window} (positive : 0 < width) (ahead : Ahead width records k windows)
    (empty : recordsIn width records k = []) (more : ∃ l, k ≤ l ∧ recordsIn width records l ≠ [] ∧ l*width < 2^64) :
    Ahead width records (k+1) windows ∧ ∃ start l rest, windows = (start,recordsIn width records l) :: rest ∧
      start.toNat = l*width ∧ After width records k l := by
  obtain ⟨ascending,holds⟩ := ahead
  have later {i : Nat} (late : k ≤ i) (filled : recordsIn width records i ≠ []) : k < i :=
    Nat.lt_of_le_of_ne late fun same => filled (same ▸ empty)
  refine ⟨⟨ascending,fun start held => (holds start held).trans ⟨?_,?_⟩⟩,?_⟩
  · rintro ⟨i,late,at_start,rfl,filled⟩
    exact ⟨i,later late filled,at_start,rfl,filled⟩
  · rintro ⟨i,late,at_start,is,filled⟩
    exact ⟨i,Nat.le_of_succ_le late,at_start,is,filled⟩
  -- A window with records is there under its start.
  have placed {i : Nat} (late : k ≤ i) (filled : recordsIn width records i ≠ []) (inside : i*width < 2^64) :
      (UInt64.ofNat (i*width),recordsIn width records i) ∈ windows :=
    (holds _ _).mpr ⟨i,late,UInt64.toNat_ofNat_of_lt' inside,rfl,filled⟩
  obtain ⟨some_l,late,some_filled,some_inside⟩ := more
  cases windows with
  | nil => exact absurd (placed late some_filled some_inside) List.not_mem_nil
  | cons head rest =>
    obtain ⟨l,late_l,at_start,is,filled⟩ := (holds head.1 head.2).mp List.mem_cons_self
    rw [is] at filled
    refine ⟨head.1,l,rest,by rw [← is],at_start,later late_l filled,filled,fun i after before => ?_⟩
    by_contra other
    have inside : i*width < 2^64 := Nat.lt_of_le_of_lt (Nat.mul_le_mul_right width (Nat.le_of_lt before)) (at_start ▸ head.1.toNat_lt)
    rcases List.mem_cons.mp (placed (Nat.le_of_lt after) other inside) with same | behind
    · have start : i*width = l*width := by
        rw [← at_start,← same,UInt64.toNat_ofNat_of_lt' inside]
      exact absurd (Nat.eq_of_mul_eq_mul_right positive start) (Nat.ne_of_lt before)
    · have less := UInt64.lt_iff_toNat_lt.mp ((List.pairwise_cons.mp ascending).1 _ behind)
      rw [at_start,UInt64.toNat_ofNat_of_lt' inside] at less
      exact absurd (Nat.lt_of_mul_lt_mul_right less) (Nat.not_lt_of_lt before)

theorem interpolate_filled (positive : 0 < width) {k j l : Nat} (before : j < k) (after : k < l) {prev : ExactRecord}
    {current_window start : UInt64} {held : List ExactRecord} (here : current_window.toNat = k*width)
    (at_prev : prev.timestamp.toNat = j*width) (value_of : prev.value = average (recordsIn width records j))
    (at_next : start.toNat = l*width) (is : held = recordsIn width records l) (filled : held ≠ []) (fill_clause : FillClause) :
    ∃ row : ExactRecord, interpolateMissingWindow current_window (some prev) (some (start,held)) fill_clause = some (some row) ∧
      row.timestamp = current_window ∧
      ∀ value, Filled width records firstValue k j l value (some fill_clause) ↔ row.value = value := by
  obtain ⟨first,rest,shape⟩ := List.exists_cons_of_ne_nil filled
  have first_of : firstValue (recordsIn width records l) = first.value := by rw [← is,shape]; rfl
  subst shape
  cases fill_clause with
  | prev => exact ⟨{prev with timestamp:=current_window},rfl,rfl,fun value => by rw [Filled,value_of,eq_comm]⟩
  | next => exact ⟨{first with timestamp:=current_window},rfl,rfl,fun value => by rw [Filled,first_of,eq_comm]⟩
  | fixedValue constant =>
    exact ⟨{prev with timestamp:=current_window,value:=constant},rfl,rfl,fun value => by rw [Filled,eq_comm]⟩
  | linear =>
    have low : prev.timestamp ≤ current_window := UInt64.le_iff_toNat_le.mpr (by
      rw [at_prev,here]
      exact Nat.mul_le_mul_right width (Nat.le_of_lt before))
    have wide : prev.timestamp ≤ start := UInt64.le_iff_toNat_le.mpr (by
      rw [at_prev,at_next]
      exact Nat.mul_le_mul_right width (Nat.le_of_lt (Nat.lt_trans before after)))
    have passed : ((current_window-prev.timestamp).toNat : Rat) = ((k : Rat)-j)*width := by
      rw [UInt64.toNat_sub_of_le _ _ low,here,at_prev,← Nat.sub_mul,Nat.cast_mul,Nat.cast_sub (Nat.le_of_lt before)]
    have gap : ((start-prev.timestamp).toNat : Rat) = ((l : Rat)-j)*width := by
      rw [UInt64.toNat_sub_of_le _ _ wide,at_next,at_prev,← Nat.sub_mul,Nat.cast_mul,
        Nat.cast_sub (Nat.le_of_lt (Nat.lt_trans before after))]
    have ratio : ((current_window-prev.timestamp).toNat : Rat)/(start-prev.timestamp).toNat = ((k : Rat)-j)/((l : Rat)-j) := by
      rw [passed,gap]
      exact mul_div_mul_right _ _ (Nat.cast_ne_zero.mpr (Nat.pos_iff_ne_zero.mp positive))
    refine ⟨{prev with timestamp:=current_window,value:=prev.value+(first.value-prev.value)*(((k : Rat)-j)/((l : Rat)-j))},?_,rfl,?_⟩
    · rw [interpolateMissingWindow,Build.sub_checked low,Option.bind_eq_bind,Option.bind_some,Build.sub_checked wide,
        Option.bind_some,ratio]
    · intro value
      rw [Filled,first_of,value_of,eq_comm]

-- Only one window is the last before, and only one the next.
theorem rowValue_between (fill_clause : Option FillClause) (counts_as : List ExactRecord → Rat) {k j l : Nat}
    (empty : recordsIn width records k = []) (before : Before width records k j) (after : After width records k l) (value : Rat) :
    RowValue width records fill_clause counts_as k value ↔ Filled width records counts_as k j l value fill_clause := by
  constructor
  · rintro (⟨filled,_⟩ | ⟨_,other_j,other_l,before_other,after_other,value_other⟩)
    · exact absurd empty filled
    · have same_j : other_j = j := by
        rcases Nat.lt_trichotomy other_j j with less | same | more
        · exact absurd (before_other.2.2 j less before.1) before.2.1
        · exact same
        · exact absurd (before.2.2 other_j more before_other.1) before_other.2.1
      have same_l : other_l = l := by
        rcases Nat.lt_trichotomy other_l l with less | same | more
        · exact absurd (after.2.2 other_l after_other.1 less) after_other.2.1
        · exact same
        · exact absurd (after_other.2.2 l after.1 more) after.2.1
      rw [← same_j,← same_l]
      exact value_other
  · exact fun value_of => .inr ⟨empty,j,l,before,after,value_of⟩

theorem sampleWindow_step (positive : 0 < width) (fill_clause : Option FillClause) {k : Nat} {windows : List Window}
    {prev_window_data : Option ExactRecord} {current_window : UInt64} (ahead : Ahead width records k windows)
    (behind : Behind width records k prev_window_data) (here : current_window.toNat = k*width)
    (started : ∃ j, j ≤ k ∧ recordsIn width records j ≠ [])
    (more : ∃ l, k ≤ l ∧ recordsIn width records l ≠ [] ∧ l*width < 2^64) :
    ∃ pushed left prev, Ahead width records (k+1) left ∧ Behind width records (k+1) prev ∧
      (∀ row, pushed = some row → row.timestamp = current_window) ∧
      (∀ value, RowValue width records fill_clause firstValue k value ↔ ∃ row, pushed = some row ∧ row.value = value) ∧
      sampleWindow fill_clause windows prev_window_data current_window =
        if (recordsIn width records k).length < 2^31 then some (pushed,left,prev) else none := by
  by_cases filled : recordsIn width records k = []
  · obtain ⟨ahead_next,start,l,rest,rfl,at_next,after⟩ := ahead_empty positive ahead filled more
    have other : ¬ start = current_window := by
      rintro rfl
      exact absurd (Nat.eq_of_mul_eq_mul_right positive (at_next.symm.trans here)) (Nat.ne_of_gt after.1)
    have small : (recordsIn width records k).length < 2^31 := by
      rw [filled]
      decide
    cases prev_window_data with
    | none =>
      obtain ⟨j,early,some_records⟩ := started
      rcases Nat.lt_or_eq_of_le early with before | rfl
      · exact absurd (behind j before) some_records
      · exact absurd filled some_records
    | some prev =>
      obtain ⟨j,before,at_prev,value_of⟩ := behind
      have behind_next : Behind width records (k+1) (some prev) :=
        ⟨j,⟨Nat.lt_succ_of_lt before.1,before.2.1,fun i late early => by
          rcases Nat.lt_or_eq_of_le (Nat.le_of_lt_succ early) with below | rfl
          · exact before.2.2 i late below
          · exact filled⟩,at_prev,value_of⟩
      have only := rowValue_between fill_clause firstValue filled before after
      cases fill_clause with
      | none =>
        refine ⟨none,_,some prev,ahead_next,behind_next,fun _ never => (nomatch never),fun value => ?_,?_⟩
        · rw [only]
          exact ⟨False.elim,fun ⟨_,never,_⟩ => (nomatch never)⟩
        · rw [sampleWindow,if_neg other,if_pos small]
      | some fill =>
        obtain ⟨row,read,at_row,value_row⟩ := interpolate_filled positive before.1 after.1 here at_prev value_of at_next rfl
          after.2.1 fill
        refine ⟨some row,_,some prev,ahead_next,behind_next,fun _ is => Option.some.inj is ▸ at_row,fun value => ?_,?_⟩
        · rw [only,value_row]
          exact ⟨fun is => ⟨row,rfl,is⟩,fun ⟨_,is,value_of⟩ => Option.some.inj is ▸ value_of⟩
        · rw [sampleWindow,if_neg other,if_pos small]
          rw [read]
          rfl
  · obtain ⟨rest,rfl,ahead_next⟩ := ahead_filled positive ahead here filled
    obtain ⟨row,at_row,value_row,read⟩ := averageRecord_filled current_window filled
    refine ⟨some row,rest,some row,ahead_next,⟨k,⟨Nat.lt_succ_self k,filled,fun i late early => by omega⟩,
      at_row ▸ here,value_row⟩,fun _ is => Option.some.inj is ▸ at_row,fun value => ?_,?_⟩
    · constructor
      · rintro (⟨_,is⟩ | ⟨empty,_⟩)
        · exact ⟨row,rfl,value_row.trans is.symm⟩
        · exact absurd empty filled
      · rintro ⟨_,is,value_of⟩
        exact .inl ⟨filled,by rw [← value_row,← value_of,Option.some.inj is]⟩
    · unfold sampleWindow
      dsimp only
      rw [if_pos rfl,read]
      split <;> rfl

structure Standing (width : Nat) (records : List ExactRecord) (k : Nat) (windows : List Window)
    (prev_window_data : Option ExactRecord) (current_window : UInt64) : Prop where
  ahead : Ahead width records k windows
  behind : Behind width records k prev_window_data
  here : current_window.toNat = k*width
  started : ∃ j, j ≤ k ∧ recordsIn width records j ≠ []

variable {last : Nat} {last_window : UInt64} {fill_clause : Option FillClause}

theorem sampleWindows_end (positive : 0 < interval_nanos.toNat) {windows : List Window} {prev_window_data : Option ExactRecord}
    {current_window : UInt64} (passed : last_window.toNat < current_window.toNat) :
    sampleWindows fill_clause interval_nanos last_window positive windows prev_window_data current_window = some [] := by
  rw [sampleWindows,if_neg (fun inside => absurd (UInt64.le_iff_toNat_le.mp inside) (Nat.not_le_of_lt passed))]

theorem sampleWindows_next (fill_clause : Option FillClause) (positive : 0 < interval_nanos.toNat) (wide : interval_nanos.toNat = width)
    (at_last : last_window.toNat = last*width) (filled_last : recordsIn width records last ≠ []) {k : Nat} (inside : k ≤ last)
    {windows : List Window} {prev_window_data : Option ExactRecord} {current_window : UInt64}
    (standing : Standing width records k windows prev_window_data current_window) :
    ∃ pushed left prev, (∀ row, pushed = some row → row.timestamp = current_window) ∧
      (∀ value, RowValue width records fill_clause firstValue k value ↔ ∃ row, pushed = some row ∧ row.value = value) ∧
      ((k+1)*width < 2^64 → Standing width records (k+1) left prev (current_window+interval_nanos)) ∧
      sampleWindows fill_clause interval_nanos last_window positive windows prev_window_data current_window =
        if (recordsIn width records k).length < 2^31 ∧ (k+1)*width < 2^64 then
          (sampleWindows fill_clause interval_nanos last_window positive left prev (current_window+interval_nanos)).map
            (pushed.toList ++ ·)
        else none := by
  obtain ⟨ahead,behind,here,started⟩ := standing
  have positive_width : 0 < width := wide ▸ positive
  obtain ⟨pushed,left,prev,ahead_next,behind_next,at_row,value_row,step⟩ := sampleWindow_step positive_width fill_clause ahead
    behind here started ⟨last,inside,filled_last,at_last ▸ last_window.toNat_lt⟩
  have sum : current_window.toNat+interval_nanos.toNat = (k+1)*width := by
    rw [here,wide,Nat.succ_mul]
  refine ⟨pushed,left,prev,at_row,value_row,fun fits => ?_,?_⟩
  · obtain ⟨j,early,some_records⟩ := started
    exact ⟨ahead_next,behind_next,by rw [toNat_add_small (by omega),sum],j,Nat.le_succ_of_le early,some_records⟩
  · have within : current_window ≤ last_window := UInt64.le_iff_toNat_le.mpr (by
      rw [here,at_last]
      exact Nat.mul_le_mul_right width inside)
    rw [sampleWindows,if_pos within,step]
    by_cases counted : (recordsIn width records k).length < 2^31
    · rw [if_pos counted]
      by_cases fits : (k+1)*width < 2^64
      · rw [if_pos ⟨counted,fits⟩]
        dsimp only
        rw [if_neg (by omega)]
      · rw [if_neg (fun both => fits both.2)]
        dsimp only
        rw [if_pos (by omega)]
    · rw [if_neg counted,if_neg (fun both => counted both.1)]

theorem sampleWindows_rows (positive : 0 < interval_nanos.toNat) (wide : interval_nanos.toNat = width)
    (at_last : last_window.toNat = last*width) (filled_last : recordsIn width records last ≠ []) (n : Nat) {k : Nat}
    (distance : last+1 = k+n) (counts : ∀ i, (recordsIn width records i).length < 2^31) (fits : (last+1)*width < 2^64)
    {windows : List Window} {prev_window_data : Option ExactRecord} {current_window : UInt64}
    (standing : Standing width records k windows prev_window_data current_window) :
    ∃ rows, sampleWindows fill_clause interval_nanos last_window positive windows prev_window_data current_window = some rows ∧
      (rows.map timeAndValue).Pairwise (fun earlier later => earlier.1 < later.1) ∧
      ∀ time value, (time,value) ∈ rows.map timeAndValue ↔
        ∃ i, k ≤ i ∧ i ≤ last ∧ time = i*width ∧ RowValue width records fill_clause firstValue i value := by
  have positive_width : 0 < width := wide ▸ positive
  induction n generalizing k windows prev_window_data current_window with
  | zero =>
    have passed : last_window.toNat < current_window.toNat := by
      rw [at_last,standing.here]
      exact Nat.mul_lt_mul_of_pos_right (by omega) positive_width
    exact ⟨[],sampleWindows_end positive passed,.nil,fun time value =>
      ⟨fun never => absurd never List.not_mem_nil,fun ⟨i,late,early,_⟩ => by omega⟩⟩
  | succ n ih =>
    obtain ⟨pushed,left,prev,at_row,value_row,next,run⟩ := sampleWindows_next fill_clause positive wide at_last filled_last (k:=k)
      (by omega) standing
    have inside : (k+1)*width < 2^64 := Nat.lt_of_le_of_lt (Nat.mul_le_mul_right width (by omega)) fits
    obtain ⟨rows,rest,ordered,exact⟩ := ih (by omega) (next inside)
    refine ⟨pushed.toList ++ rows,by rw [run,if_pos ⟨counts k,inside⟩,rest]; rfl,?_,fun time value => ?_⟩
    · rw [List.map_append,List.pairwise_append]
      refine ⟨?_,ordered,fun first among later behind => ?_⟩
      · cases pushed with
        | none => exact .nil
        | some row => exact List.pairwise_singleton _ _
      · obtain ⟨row,is_row,rfl⟩ := List.mem_map.mp among
        obtain ⟨i,late,_,at_time,_⟩ := (exact later.1 later.2).mp behind
        rw [timeAndValue,at_row row (Option.mem_toList.mp is_row),standing.here,at_time]
        exact Nat.mul_lt_mul_of_pos_right late positive_width
    · rw [List.map_append,List.mem_append,exact]
      constructor
      · rintro (among | ⟨i,late,early,at_time,is⟩)
        · obtain ⟨row,is_row,same⟩ := List.mem_map.mp among
          obtain ⟨rfl,rfl⟩ := Prod.mk.inj same
          have is_row := Option.mem_toList.mp is_row
          exact ⟨k,Nat.le_refl k,by omega,by rw [at_row row is_row,standing.here],(value_row _).mpr ⟨row,is_row,rfl⟩⟩
        · exact ⟨i,Nat.le_of_succ_le late,early,at_time,is⟩
      · rintro ⟨i,late,early,at_time,is⟩
        rcases Nat.lt_or_eq_of_le late with later | rfl
        · exact .inr ⟨i,later,early,at_time,is⟩
        · obtain ⟨row,is_row,value_of⟩ := (value_row value).mp is
          refine .inl (List.mem_map.mpr ⟨row,Option.mem_toList.mpr is_row,?_⟩)
          rw [timeAndValue,at_row row is_row,standing.here,at_time,value_of]

theorem sampleWindows_fits (positive : 0 < interval_nanos.toNat) (wide : interval_nanos.toNat = width)
    (at_last : last_window.toNat = last*width) (filled_last : recordsIn width records last ≠ []) (n : Nat) {k : Nat}
    (distance : last = k+n) {windows : List Window} {prev_window_data : Option ExactRecord} {current_window : UInt64}
    (standing : Standing width records k windows prev_window_data current_window) {rows : List ExactRecord}
    (run : sampleWindows fill_clause interval_nanos last_window positive windows prev_window_data current_window = some rows) :
    (∀ i, k ≤ i → i ≤ last → (recordsIn width records i).length < 2^31) ∧ (last+1)*width < 2^64 := by
  induction n generalizing k windows prev_window_data current_window rows with
  | zero =>
    obtain ⟨pushed,left,prev,_,_,_,step⟩ := sampleWindows_next fill_clause positive wide at_last filled_last (k:=k)
      (by omega) standing
    rw [run] at step
    split at step
    · rename_i both
      obtain rfl : last = k := distance
      refine ⟨fun i late early => ?_,both.2⟩
      rw [Nat.le_antisymm early late]
      exact both.1
    · cases step
  | succ n ih =>
    obtain ⟨pushed,left,prev,_,_,next,step⟩ := sampleWindows_next fill_clause positive wide at_last filled_last (k:=k)
      (by omega) standing
    rw [run] at step
    split at step
    · rename_i both
      obtain ⟨rest,later,_⟩ := Option.map_eq_some_iff.mp step.symm
      obtain ⟨counts,fits⟩ := ih (by omega) (next both.2) later
      refine ⟨fun i late early => ?_,fits⟩
      rcases Nat.lt_or_eq_of_le late with behind | rfl
      · exact counts i behind early
      · exact both.1
    · cases step

end Walking

section Arranging
variable {width : Nat} {records arranged : List ExactRecord}

theorem recordsIn_perm (perm : arranged.Perm records) (k : Nat) : (recordsIn width arranged k).Perm (recordsIn width records k) :=
  perm.filter _

theorem recordsIn_empty (perm : arranged.Perm records) (k : Nat) : recordsIn width arranged k = [] ↔ recordsIn width records k = [] := by
  rw [← List.length_eq_zero_iff,(recordsIn_perm perm k).length_eq,List.length_eq_zero_iff]

theorem average_perm {left right : List ExactRecord} (perm : left.Perm right) : average left = average right := by
  rw [average,average,perm.length_eq,(perm.map (·.value)).sum_eq]

theorem average_flat {held : List ExactRecord} {one : ExactRecord} (among : one ∈ held)
    (flat : ∀ other ∈ held, other.value = one.value) : average held = one.value := by
  have sum : (held.map (·.value)).sum = held.length • one.value := by
    rw [List.sum_eq_card_nsmul _ one.value (by simpa using flat),List.length_map]
  have some_records : (held.length : Rat) ≠ 0 := Nat.cast_ne_zero.mpr (Nat.pos_iff_ne_zero.mp (List.length_pos_of_mem among))
  rw [average,sum,nsmul_eq_mul,mul_div_cancel_left₀ _ some_records]

theorem before_perm (perm : arranged.Perm records) (k j : Nat) : Before width arranged k j ↔ Before width records k j := by
  simp only [Before,ne_eq,recordsIn_empty perm]

theorem after_perm (perm : arranged.Perm records) (k l : Nat) : After width arranged k l ↔ After width records k l := by
  simp only [After,ne_eq,recordsIn_empty perm]

theorem firstValue_mem {held : List ExactRecord} (filled : held ≠ []) : ∃ first ∈ held, firstValue held = first.value := by
  obtain ⟨first,rest,rfl⟩ := List.exists_cons_of_ne_nil filled
  exact ⟨first,List.mem_cons_self,rfl⟩

-- Where the windows behind a gap are flat, their first record is as good as all.
theorem rowValue_flat {fill_clause : Option FillClause} (perm : arranged.Perm records) (sampleable : Sampleable width fill_clause records)
    (k : Nat) (value : Rat) :
    RowValue width arranged fill_clause firstValue k value ↔ RowValue width records fill_clause average k value := by
  have filled_iff {j l : Nat} (empty : recordsIn width records k = []) (before : Before width records k j)
      (after : After width records k l) :
      Filled width arranged firstValue k j l value fill_clause ↔ Filled width records average k j l value fill_clause := by
    have averages := average_perm (@recordsIn_perm width _ _ perm j)
    have first (fills : fill_clause = some .next ∨ fill_clause = some .linear) :
        firstValue (recordsIn width arranged l) = average (recordsIn width records l) := by
      obtain ⟨one,among,is⟩ := firstValue_mem fun none_there => after.2.1 ((recordsIn_empty perm l).mp none_there)
      have among := (recordsIn_perm perm l).mem_iff.mp among
      rw [is,average_flat among fun other inside => sampleable.flat fills k j l empty before after other inside one among]
    match fill_clause with
    | none => exact Iff.rfl
    | some .prev => rw [Filled,Filled,averages]
    | some .next => rw [Filled,Filled,first (.inl rfl)]
    | some .linear => rw [Filled,Filled,first (.inr rfl),averages]
    | some (.fixedValue _) => exact Iff.rfl
  rw [RowValue,RowValue,ne_eq,recordsIn_empty perm,average_perm (recordsIn_perm perm k)]
  refine or_congr Iff.rfl (and_congr_right fun empty => exists_congr fun j => exists_congr fun l => ?_)
  rw [before_perm perm,after_perm perm]
  exact and_congr_right fun before => and_congr_right fun after => filled_iff empty before after

theorem sampled_unique {fill_clause : Option FillClause} {counts_as : List ExactRecord → Rat} {left right : List (Nat × Rat)}
    (sampled : Sampled width fill_clause counts_as records left) (again : Sampled width fill_clause counts_as records right) :
    left = right := by
  have same (pair : Nat × Rat) : pair ∈ left ↔ pair ∈ right := (sampled.exact pair.1 pair.2).trans (again.exact pair.1 pair.2).symm
  have distinct {rows : List (Nat × Rat)} (ordered : rows.Pairwise fun earlier later => earlier.1 < later.1) : rows.Nodup :=
    ordered.imp fun less equal => absurd (congrArg Prod.fst equal) (Nat.ne_of_lt less)
  have perm := (List.perm_ext_iff_of_nodup (distinct sampled.increasing) (distinct again.increasing)).mpr same
  exact perm.eq_of_pairwise (fun one two _ _ less more => absurd less (Nat.lt_asymm more)) sampled.increasing again.increasing

end Arranging

theorem ends_of (records : List ExactRecord) (filled : records ≠ []) : ∃ low high,
    (records.map (·.timestamp)).min? = some low ∧ (records.map (·.timestamp)).max? = some high ∧
      (∃ record ∈ records, record.timestamp = low) ∧ (∃ record ∈ records, record.timestamp = high) ∧
      ∀ record ∈ records, low ≤ record.timestamp ∧ record.timestamp ≤ high := by
  cases least : (records.map (·.timestamp)).min? with
  | none => exact absurd (List.map_eq_nil_iff.mp (List.min?_eq_none_iff.mp least)) filled
  | some low =>
    cases most : (records.map (·.timestamp)).max? with
    | none => exact absurd (List.map_eq_nil_iff.mp (List.max?_eq_none_iff.mp most)) filled
    | some high =>
      obtain ⟨low_among,below⟩ := List.min?_eq_some_iff.mp least
      obtain ⟨high_among,above⟩ := List.max?_eq_some_iff.mp most
      exact ⟨low,high,rfl,rfl,List.mem_map.mp low_among,List.mem_map.mp high_among,
        fun record among => ⟨below _ (List.mem_map_of_mem among),above _ (List.mem_map_of_mem among)⟩⟩

section Running
variable {records : List ExactRecord} {sample_interval : String} {fill_clause : Option FillClause}

theorem sampleWindows_whole (fill_clause : Option FillClause) {width : Nat} {interval_nanos low high : UInt64}
    (positive : 0 < interval_nanos.toNat) (wide : interval_nanos.toNat = width)
    (low_among : ∃ record ∈ records, record.timestamp = low) (high_among : ∃ record ∈ records, record.timestamp = high)
    (bounds : ∀ record ∈ records, low ≤ record.timestamp ∧ record.timestamp ≤ high) {run : Option (List ExactRecord)}
    (is_run : run = sampleWindows fill_clause interval_nanos (high/interval_nanos*interval_nanos) positive
      (windowsOf interval_nanos records) none (low/interval_nanos*interval_nanos)) :
    (∀ rows, run = some rows → Sampleable width none records ∧
      Sampled width fill_clause firstValue records (rows.map timeAndValue)) ∧
    (Sampleable width none records → ∃ rows, run = some rows) := by
  subst is_run
  have positive_width : 0 < width := wide ▸ positive
  have at_low : (low/interval_nanos*interval_nanos).toNat = low.toNat/width*width := by rw [windowStart_toNat,wide]
  have at_high : (high/interval_nanos*interval_nanos).toNat = high.toNat/width*width := by rw [windowStart_toNat,wide]
  obtain ⟨low_record,low_inside,is_low⟩ := low_among
  obtain ⟨high_record,high_inside,is_high⟩ := high_among
  have filled_last : recordsIn width records (high.toNat/width) ≠ [] :=
    List.ne_nil_of_mem (mem_itemsAt.mpr ⟨high_inside,by rw [windowOf,is_high]⟩)
  have filled_first : recordsIn width records (low.toNat/width) ≠ [] :=
    List.ne_nil_of_mem (mem_itemsAt.mpr ⟨low_inside,by rw [windowOf,is_low]⟩)
  -- All the records are in the windows from the first to the last.
  have inside {k : Nat} (filled : recordsIn width records k ≠ []) : low.toNat/width ≤ k ∧ k ≤ high.toNat/width := by
    obtain ⟨record,among⟩ := List.exists_mem_of_ne_nil _ filled
    obtain ⟨listed,at_k⟩ := mem_itemsAt.mp among
    obtain ⟨least,most⟩ := bounds record listed
    rw [← at_k,windowOf]
    exact ⟨Nat.div_le_div_right (UInt64.le_iff_toNat_le.mp least),Nat.div_le_div_right (UInt64.le_iff_toNat_le.mp most)⟩
  have before_first (i : Nat) (early : i < low.toNat/width) : recordsIn width records i = [] := by
    by_contra filled
    exact absurd (inside filled).1 (Nat.not_le_of_lt early)
  have standing : Standing width records (low.toNat/width) (windowsOf interval_nanos records) none
      (low/interval_nanos*interval_nanos) :=
    ⟨windowsOf_ahead positive wide before_first,before_first,at_low,low.toNat/width,Nat.le_refl _,filled_first⟩
  have ordered : low.toNat/width ≤ high.toNat/width := (inside filled_last).1
  constructor
  · intro rows run
    obtain ⟨counted,fits⟩ := sampleWindows_fits positive wide at_high filled_last (high.toNat/width-low.toNat/width) (by omega) standing run
    have counts (k : Nat) : (recordsIn width records k).length < 2^31 := by
      by_cases empty : recordsIn width records k = []
      · rw [empty]
        decide
      · exact counted k (inside empty).1 (inside empty).2
    refine ⟨⟨fun record among => ?_,counts,fun never => never.elim (fun is => (nomatch is)) fun is => (nomatch is)⟩,?_⟩
    · have listed : record ∈ recordsIn width records (windowOf width record) := mem_itemsAt.mpr ⟨among,rfl⟩
      have below := (inside (List.ne_nil_of_mem listed)).2
      exact Nat.lt_of_le_of_lt (Nat.mul_le_mul_right width (Nat.succ_le_succ below)) fits
    · obtain ⟨all,again,increasing,exact⟩ := @sampleWindows_rows width records interval_nanos _ _ fill_clause positive wide at_high
        filled_last (high.toNat/width+1-low.toNat/width) _ (by omega) counts fits _ _ _ standing
      obtain rfl : all = rows := Option.some.inj (again.symm.trans run)
      refine ⟨increasing,fun time value => (exact time value).trans ⟨?_,?_⟩⟩
      · rintro ⟨i,_,_,at_time,is⟩
        exact ⟨i,at_time,is⟩
      · rintro ⟨i,at_time,is⟩
        have between : low.toNat/width ≤ i ∧ i ≤ high.toNat/width := by
          rcases is with ⟨filled,_⟩ | ⟨_,j,l,before,after,_⟩
          · exact inside filled
          · exact ⟨Nat.le_of_lt (Nat.lt_of_le_of_lt (inside before.2.1).1 before.1),
              Nat.le_of_lt (Nat.lt_of_lt_of_le after.1 (inside after.2.1).2)⟩
        exact ⟨i,between.1,between.2,at_time,is⟩
  · intro sampleable
    have fits := sampleable.ends high_record high_inside
    rw [windowOf,is_high] at fits
    obtain ⟨rows,run,_⟩ := @sampleWindows_rows width records interval_nanos _ _ fill_clause positive wide at_high
      filled_last (high.toNat/width+1-low.toNat/width) _ (by omega) sampleable.counts fits _ _ _ standing
    exact ⟨rows,run⟩

def Accepted (interval_str : String) : Prop := ∃ build seconds, parseSampleInterval build interval_str = some (.ok seconds)

theorem parseSampleInterval_means (accepted : Accepted sample_interval) : 0 < intervalSeconds sample_interval ∧
    (intervalSeconds sample_interval < 2^64 →
      parseSampleInterval .checked sample_interval = some (.ok (UInt64.ofNat (intervalSeconds sample_interval)))) ∧
    (2^64 ≤ intervalSeconds sample_interval → parseSampleInterval .checked sample_interval = none) := by
  obtain ⟨build,value,parsed⟩ := accepted
  obtain ⟨seconds,means⟩ := parseIntervalFrom_ok _ parsed 0 0
  obtain ⟨small,overflow⟩ := @parseIntervalFrom_means sample_interval.toList 0 0 seconds means
  have is : intervalSeconds sample_interval = seconds := by rw [intervalSeconds,means,Option.getD_some]
  rw [is]
  have positive : 0 < seconds := Nat.pos_of_ne_zero fun zero => by
    have refused := small (by omega) build
    rw [if_pos zero,← parseSampleInterval,parsed] at refused
    cases refused
  exact ⟨positive,fun fits => (small fits .checked).trans (by rw [if_neg (Nat.pos_iff_ne_zero.mp positive)]),overflow⟩

theorem downsample_overflows (accepted : Accepted sample_interval) (large : 2^64 ≤ intervalSeconds sample_interval*10^9)
    (filled : records ≠ []) : downsampleRecords records sample_interval fill_clause = none := by
  obtain ⟨_,small,overflow⟩ := parseSampleInterval_means accepted
  obtain ⟨low,high,least,most,_⟩ := ends_of records filled
  rw [downsampleRecords,least,most]
  dsimp only
  by_cases fits : intervalSeconds sample_interval < 2^64
  · rw [small fits]
    dsimp only
    rw [Build.mul_large (by rw [UInt64.toNat_ofNat_of_lt' fits]; exact large)]
    rfl
  · rw [overflow (Nat.le_of_not_lt fits)]

theorem downsample_run (accepted : Accepted sample_interval) (fill_clause : Option FillClause)
    (small : intervalSeconds sample_interval*10^9 < 2^64) (filled : records ≠ []) :
    (∀ rows, downsampleRecords records sample_interval fill_clause = some (.ok rows) →
      Sampleable (intervalSeconds sample_interval*10^9) none records ∧
      Sampled (intervalSeconds sample_interval*10^9) fill_clause firstValue records (rows.map timeAndValue)) ∧
    (Sampleable (intervalSeconds sample_interval*10^9) none records →
      ∃ rows, downsampleRecords records sample_interval fill_clause = some (.ok rows)) := by
  obtain ⟨some_seconds,parsed,_⟩ := parseSampleInterval_means accepted
  obtain ⟨low,high,least,most,low_among,high_among,bounds⟩ := ends_of records filled
  have fits : intervalSeconds sample_interval < 2^64 := by omega
  have seconds_toNat : (UInt64.ofNat (intervalSeconds sample_interval)).toNat = intervalSeconds sample_interval :=
    UInt64.toNat_ofNat_of_lt' fits
  have wide : (UInt64.ofNat (intervalSeconds sample_interval)*1000000000).toNat = intervalSeconds sample_interval*10^9 := by
    rw [toNat_mul_small (by rw [seconds_toNat]; exact small),seconds_toNat]
    rfl
  have positive : 0 < (UInt64.ofNat (intervalSeconds sample_interval)*1000000000).toNat := by
    rw [wide]
    exact Nat.mul_pos some_seconds (by decide)
  generalize shape : UInt64.ofNat (intervalSeconds sample_interval)*1000000000 = interval_nanos at wide positive
  obtain ⟨rows_of,ends⟩ := sampleWindows_whole fill_clause positive wide low_among high_among bounds rfl
  have run : downsampleRecords records sample_interval fill_clause =
      (sampleWindows fill_clause interval_nanos (high/interval_nanos*interval_nanos) positive (windowsOf interval_nanos records) none
        (low/interval_nanos*interval_nanos)).map .ok := by
    subst shape
    rw [downsampleRecords,least,most]
    dsimp only
    rw [parsed fits]
    dsimp only
    rw [Build.mul_small _ (by rw [seconds_toNat]; exact small),Option.bind_eq_bind,Option.bind_some,dif_pos positive]
  rw [run]
  constructor
  · intro rows done
    obtain ⟨_,all,same⟩ := Option.map_eq_some_iff.mp done
    exact rows_of rows (Except.ok.inj same ▸ all)
  · intro sampleable
    obtain ⟨rows,all⟩ := ends sampleable
    exact ⟨rows,by rw [all]; rfl⟩

theorem sampled_nil (width : Nat) (fill_clause : Option FillClause) : Sampled width fill_clause average [] [] := by
  refine ⟨.nil,fun time value => ⟨fun never => absurd never List.not_mem_nil,?_⟩⟩
  rintro ⟨k,_,⟨filled,_⟩ | ⟨_,j,_,before,_⟩⟩
  · exact absurd rfl filled
  · exact absurd rfl before.2.1

theorem sampleable_perm {width : Nat} {arranged : List ExactRecord} (perm : arranged.Perm records)
    (sampleable : Sampleable width fill_clause records) : Sampleable width none arranged where
  ends record among := sampleable.ends record (perm.mem_iff.mp among)
  counts k := (recordsIn_perm perm k).length_eq ▸ sampleable.counts k
  flat never := never.elim (fun is => (nomatch is)) fun is => (nomatch is)

-- What an order of the records makes of a gap is what its first record behind the
-- gap makes of it, and any record there can be the first.
theorem flat_of_samples {width : Nat} (pairs : List (Nat × Rat)) (sampled : Sampled width fill_clause average records pairs)
    (positive : 0 < width) (all : ∀ arranged, arranged.Perm records → Sampled width fill_clause firstValue arranged pairs)
    (fills : fill_clause = some .next ∨ fill_clause = some .linear) {k j l : Nat} (empty : recordsIn width records k = [])
    (before : Before width records k j) (after : After width records k l) {one : ExactRecord}
    (among : one ∈ recordsIn width records l) : one.value = average (recordsIn width records l) := by
  obtain ⟨listed,at_l⟩ := mem_itemsAt.mp among
  have perm : (one :: records.erase one).Perm records := (List.perm_cons_erase listed).symm
  have first : firstValue (recordsIn width (one :: records.erase one) l) = one.value := by
    rw [recordsIn,itemsAt,List.filter_cons_of_pos (by simpa using at_l)]
    rfl
  have averages := average_perm (@recordsIn_perm width _ _ perm j)
  have same (value : Rat) : Filled width (one :: records.erase one) firstValue k j l value fill_clause ↔
      Filled width records average k j l value fill_clause := by
    rw [← rowValue_between fill_clause firstValue ((recordsIn_empty perm k).mpr empty) ((before_perm perm k j).mpr before)
      ((after_perm perm k l).mpr after),← rowValue_between fill_clause average empty before after]
    have both := ((all _ perm).exact (k*width) value).symm.trans (sampled.exact (k*width) value)
    have only {other : Nat} (at_time : k*width = other*width) : k = other := Nat.eq_of_mul_eq_mul_right positive at_time
    constructor
    · intro row
      obtain ⟨other,at_time,is⟩ := both.mp ⟨k,rfl,row⟩
      exact only at_time ▸ is
    · intro row
      obtain ⟨other,at_time,is⟩ := both.mpr ⟨k,rfl,row⟩
      exact only at_time ▸ is
  rcases fills with rfl | rfl
  · simp only [Filled,first] at same
    exact (same one.value).mp rfl
  · simp only [Filled,first,averages] at same
    have sums := add_left_cancel ((same _).mp rfl)
    have ratio : ((k : Rat)-j)/((l : Rat)-j) ≠ 0 :=
      div_ne_zero (sub_ne_zero.mpr (Nat.cast_injective.ne (Nat.ne_of_gt before.1)))
        (sub_ne_zero.mpr (Nat.cast_injective.ne (Nat.ne_of_gt (Nat.lt_trans before.1 after.1))))
    exact sub_left_injective (mul_right_cancel₀ ratio sums)

theorem samples_sampleable (accepted : Accepted sample_interval) (filled : records ≠ [])
    (samples : SamplesExactly records sample_interval fill_clause) :
    Sampleable (intervalSeconds sample_interval*10^9) fill_clause records := by
  obtain ⟨pairs,sampled,all⟩ := samples
  have positive : 0 < intervalSeconds sample_interval*10^9 := Nat.mul_pos (parseSampleInterval_means accepted).1 (by decide)
  have small : intervalSeconds sample_interval*10^9 < 2^64 := by
    by_contra large
    obtain ⟨rows,run,_⟩ := all records (.refl _)
    rw [downsample_overflows accepted (Nat.le_of_not_lt large) filled] at run
    cases run
  have each (arranged : List ExactRecord) (perm : arranged.Perm records) :
      Sampled (intervalSeconds sample_interval*10^9) fill_clause firstValue arranged pairs := by
    have arranged_filled : arranged ≠ [] := fun empty => filled (List.nil_perm.mp (empty ▸ perm))
    obtain ⟨rows,run,same⟩ := all arranged perm
    exact same ▸ ((downsample_run accepted fill_clause small arranged_filled).1 rows run).2
  obtain ⟨rows,run,_⟩ := all records (.refl _)
  have sampleable := ((downsample_run accepted fill_clause small filled).1 rows run).1
  refine ⟨sampleable.ends,sampleable.counts,fun fills k j l empty before after one among other among_other => ?_⟩
  exact (flat_of_samples pairs sampled positive each fills empty before after among).trans
    (flat_of_samples pairs sampled positive each fills empty before after among_other).symm

theorem samples_exactly_iff (accepted : Accepted sample_interval) (records : List ExactRecord) (fill_clause : Option FillClause) :
    SamplesExactly records sample_interval fill_clause ↔
      records = [] ∨ Sampleable (intervalSeconds sample_interval*10^9) fill_clause records := by
  by_cases filled : records = []
  · subst filled
    refine ⟨fun _ => .inl rfl,fun _ => ⟨[],sampled_nil _ fill_clause,fun arranged perm => ⟨[],?_,rfl⟩⟩⟩
    rw [List.perm_nil.mp perm]
    rfl
  constructor
  · exact fun samples => .inr (samples_sampleable accepted filled samples)
  · intro condition
    have sampleable := condition.resolve_left filled
    have small : intervalSeconds sample_interval*10^9 < 2^64 := by
      obtain ⟨record,among⟩ := List.exists_mem_of_ne_nil _ filled
      exact Nat.lt_of_le_of_lt (Nat.le_mul_of_pos_left _ (Nat.succ_pos _)) (sampleable.ends record among)
    have each (arranged : List ExactRecord) (perm : arranged.Perm records) : ∃ rows,
        downsampleRecords arranged sample_interval fill_clause = some (.ok rows) ∧
        Sampled (intervalSeconds sample_interval*10^9) fill_clause average records (rows.map timeAndValue) := by
      have arranged_filled : arranged ≠ [] := fun empty => filled (List.nil_perm.mp (empty ▸ perm))
      obtain ⟨rows_of,ends⟩ := downsample_run accepted fill_clause small arranged_filled
      obtain ⟨rows,run⟩ := ends (sampleable_perm perm sampleable)
      obtain ⟨_,increasing,exact⟩ := rows_of rows run
      refine ⟨rows,run,increasing,fun time value => (exact time value).trans ?_⟩
      exact exists_congr fun k => and_congr_right fun _ => rowValue_flat perm sampleable k value
    obtain ⟨rows,_,sampled⟩ := each records (.refl _)
    refine ⟨rows.map timeAndValue,sampled,fun arranged perm => ?_⟩
    obtain ⟨others,run,again⟩ := each arranged perm
    exact ⟨others,run,sampled_unique again sampled⟩

end Running

theorem accepted_second : Accepted "1s" := ⟨.checked,1,by decide⟩

def gapRecords : List ExactRecord := [⟨1000000000,1,0,[]⟩,⟨3000000000,4,0,[]⟩,⟨3500000000,8,0,[]⟩]

theorem samples_exactly_iff_gap : Accepted "1s" ∧
    (SamplesExactly gapRecords "1s" (some .prev) ↔ gapRecords = [] ∨ Sampleable (intervalSeconds "1s"*10^9) (some .prev) gapRecords) :=
  ⟨accepted_second,samples_exactly_iff accepted_second gapRecords (some .prev)⟩

-- The second second is filled with the first record of the third one.
theorem next_not_average : ¬ SamplesExactly gapRecords "1s" (some .next) := by
  intro samples
  have sampleable := samples_sampleable accepted_second (by decide) samples
  rw [show intervalSeconds "1s"*10^9 = 1000000000 by decide] at sampleable
  have flat := sampleable.flat (.inl rfl) 2 1 3 (by decide) ⟨by decide,by decide,fun i late early => by omega⟩
    ⟨by decide,by decide,fun i late early => by omega⟩ ⟨3000000000,4,0,[]⟩ (by decide) ⟨3500000000,8,0,[]⟩ (by decide)
  exact absurd flat (by decide)

end TimeSeries
end RemDb
