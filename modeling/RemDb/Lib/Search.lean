import Mathlib.Data.List.Basic

namespace RemDb.Lib

-- A search between two inclusive bounds: what stands before the window is
-- `below`, what stands behind it is `above`.
structure Window (values : List α) (below above : α → Prop) (low high : Nat) : Prop where
  ordered : low ≤ high+1
  inside : high < values.length
  before : ∀ (place : Nat) value, values[place]? = some value → place < low → below value
  behind : ∀ (place : Nat) value, values[place]? = some value → high < place → above value

theorem pairwise_places {values : List α} {rel : α → α → Prop} {early late : Nat} (sorted : values.Pairwise rel)
    (first : values[early]? = some left) (second : values[late]? = some right) (less : early < late) : rel left right := by
  obtain ⟨bound,rfl⟩ := List.getElem?_eq_some_iff.mp first
  obtain ⟨bound',rfl⟩ := List.getElem?_eq_some_iff.mp second
  exact List.pairwise_iff_getElem.mp sorted early late bound bound' less

namespace Window
variable {values : List α} {below above : α → Prop} {low high : Nat}

theorem whole (some_value : 0 < values.length) : Window values below above 0 (values.length-1) := by
  refine ⟨Nat.zero_le _,by omega,?_,?_⟩
  · intro place value there early
    cases early
  · intro place value there late
    have bound := (List.getElem?_eq_some_iff.mp there).1
    omega

theorem middle (window : Window values below above low high) (open_window : low ≤ high) :
    ∃ value, values[(low+high)/2]? = some value := by
  have bound : (low+high)/2 < values.length := Nat.lt_of_le_of_lt (by omega) window.inside
  exact ⟨values[(low+high)/2],List.getElem?_eq_getElem bound⟩

variable {rel : α → α → Prop} {mid : Nat} {value : α}

theorem up (window : Window values below above low high) (sorted : values.Pairwise rel)
    (falls : ∀ left right, rel left right → below right → below left) (bounds : low ≤ mid ∧ mid ≤ high)
    (there : values[mid]? = some value) (small : below value) : Window values below above (mid+1) high := by
  refine ⟨Nat.succ_le_succ bounds.2,window.inside,?_,window.behind⟩
  intro place each here early
  rcases Nat.lt_or_eq_of_le (Nat.le_of_lt_succ early) with less | rfl
  · exact falls each value (pairwise_places sorted here there less) small
  · rw [there] at here
    cases here
    exact small

theorem down (window : Window values below above low high) (sorted : values.Pairwise rel)
    (rises : ∀ left right, rel left right → above left → above right) (bounds : low ≤ mid ∧ mid ≤ high)
    (positive : mid ≠ 0) (there : values[mid]? = some value) (large : above value) :
    Window values below above low (mid-1) := by
  refine ⟨by omega,Nat.lt_of_le_of_lt (by omega) window.inside,window.before,?_⟩
  intro place each here late
  rcases Nat.lt_or_ge mid place with less | least
  · exact rises value each (pairwise_places sorted there here less) large
  · have same : place = mid := by omega
    subst same
    rw [there] at here
    cases here
    exact large

theorem split (window : Window values below above low high) (closed : high < low) :
    ∃ front back, values = front ++ back ∧ front.length = low ∧ (∀ each ∈ front, below each) ∧ ∀ each ∈ back, above each := by
  have meets : low = high+1 := Nat.le_antisymm window.ordered closed
  have bound := window.inside
  refine ⟨values.take low,values.drop low,(List.take_append_drop _ _).symm,List.length_take_of_le (by omega),?_,?_⟩
  · intro each member
    obtain ⟨place,there⟩ := List.mem_iff_getElem?.mp member
    have early : place < low := by
      by_contra late
      rw [List.getElem?_eq_none (Nat.le_trans (List.length_take_le _ _) (Nat.le_of_not_lt late))] at there
      cases there
    rw [List.getElem?_take_of_lt early] at there
    exact window.before place each there early
  · intro each member
    obtain ⟨place,there⟩ := List.mem_iff_getElem?.mp member
    rw [List.getElem?_drop] at there
    exact window.behind (low+place) each there (by omega)

end Window

section Prefix
variable {values : List α} {test : α → Bool}

theorem filter_takeWhile (falls : values.Pairwise fun left right => test right = true → test left = true) :
    values.filter test = values.takeWhile test := by
  induction values with
  | nil => rfl
  | cons first rest ih =>
    obtain ⟨ahead,falls⟩ := List.pairwise_cons.mp falls
    by_cases passes : test first = true
    · rw [List.filter_cons_of_pos passes,List.takeWhile_cons_of_pos passes,ih falls]
    · rw [List.filter_cons_of_neg passes,List.takeWhile_cons_of_neg passes]
      refine List.filter_eq_nil_iff.mpr ?_
      intro each member passed
      exact passes (ahead each member passed)

theorem map_takeWhile_iff (wide narrow : α → Bool) (image : α → β) (values : List α)
    (implied : ∀ value ∈ values, narrow value = true → wide value = true) (count : Nat) :
    ((values.takeWhile narrow).take count).map image = ((values.takeWhile wide).take count).map image ↔
      ∀ value ∈ (values.takeWhile wide).take count, narrow value = true := by
  induction values generalizing count with
  | nil => simp
  | cons first rest ih =>
    cases count with
    | zero => simp
    | succ count =>
      by_cases strict : narrow first = true
      · rw [List.takeWhile_cons_of_pos strict,List.takeWhile_cons_of_pos (implied first List.mem_cons_self strict)]
        simp only [List.take_succ_cons,List.map_cons,List.cons_inj_right,List.forall_mem_cons,strict,true_and]
        exact ih (fun value among => implied value (List.mem_cons_of_mem first among)) count
      · rw [List.takeWhile_cons_of_neg strict]
        by_cases loose : wide first = true
        · rw [List.takeWhile_cons_of_pos loose]
          simp [strict]
        · rw [List.takeWhile_cons_of_neg loose]
          simp

end Prefix
end RemDb.Lib
