import RemDb.Sql.Expression
import Mathlib.Algebra.Group.Nat.Even
import Mathlib.Data.List.Nodup

namespace RemDb
open RemDb.Lib

namespace Condition

def truth (atoms : Condition → Bool) : Condition → Bool
  | .comparison condition => atoms (.comparison condition)
  | .between condition => atoms (.between condition)
  | .and left right => left.truth atoms && right.truth atoms
  | .or left right => left.truth atoms || right.truth atoms
  | .not inner => !inner.truth atoms

def leaves : Condition → List Condition
  | .comparison condition => [.comparison condition]
  | .between condition => [.between condition]
  | .and left right => left.leaves ++ right.leaves
  | .or left right => left.leaves ++ right.leaves
  | .not inner => inner.leaves

def Same (left right : Condition) : Prop := ∀ atoms, left.truth atoms = right.truth atoms

theorem truth_congr (condition : Condition) (agree : ∀ leaf ∈ condition.leaves, first leaf = second leaf) :
    condition.truth first = condition.truth second := by
  induction condition with
  | comparison condition => exact agree _ (List.mem_singleton.mpr rfl)
  | between condition => exact agree _ (List.mem_singleton.mpr rfl)
  | and left right one two =>
    rw [truth,truth,one fun leaf among => agree leaf (List.mem_append_left _ among),
      two fun leaf among => agree leaf (List.mem_append_right _ among)]
  | or left right one two =>
    rw [truth,truth,one fun leaf among => agree leaf (List.mem_append_left _ among),
      two fun leaf among => agree leaf (List.mem_append_right _ among)]
  | not inner ih => rw [truth,truth,ih agree]

theorem pick {left right : List Condition} (apart : left.Disjoint right) (first second : Condition → Bool) :
    ∃ atoms, (∀ condition : Condition, condition.leaves ⊆ left → condition.truth atoms = condition.truth first) ∧
      ∀ condition : Condition, condition.leaves ⊆ right → condition.truth atoms = condition.truth second := by
  classical
  refine ⟨fun leaf => if leaf ∈ left then first leaf else second leaf,?_,?_⟩
  · intro condition within
    refine condition.truth_congr fun leaf among => if_pos (within among)
  · intro condition within
    refine condition.truth_congr fun leaf among => if_neg fun both => ?_
    exact apart both (within among)

-- A condition in which no comparison occurs twice can be true and false.
theorem either (condition : Condition) (once : condition.leaves.Nodup) (value : Bool) :
    ∃ atoms, condition.truth atoms = value := by
  induction condition generalizing value with
  | comparison condition => exact ⟨fun _ => value,rfl⟩
  | between condition => exact ⟨fun _ => value,rfl⟩
  | and left right one two =>
    obtain ⟨leftOnce,rightOnce,apart⟩ := List.nodup_append'.mp once
    obtain ⟨first,leftValue⟩ := one leftOnce value
    obtain ⟨second,rightValue⟩ := two rightOnce value
    obtain ⟨atoms,atLeft,atRight⟩ := pick apart first second
    refine ⟨atoms,?_⟩
    rw [truth,atLeft left (List.Subset.refl _),atRight right (List.Subset.refl _),leftValue,rightValue,Bool.and_self]
  | or left right one two =>
    obtain ⟨leftOnce,rightOnce,apart⟩ := List.nodup_append'.mp once
    obtain ⟨first,leftValue⟩ := one leftOnce value
    obtain ⟨second,rightValue⟩ := two rightOnce value
    obtain ⟨atoms,atLeft,atRight⟩ := pick apart first second
    refine ⟨atoms,?_⟩
    rw [truth,atLeft left (List.Subset.refl _),atRight right (List.Subset.refl _),leftValue,rightValue,Bool.or_self]
  | not inner ih =>
    obtain ⟨atoms,inverse⟩ := ih once (!value)
    exact ⟨atoms,by rw [truth,inverse,Bool.not_not]⟩

end Condition

inductive Connective where
  | and | or
deriving DecidableEq,Repr

def Connective.join : Connective → Condition → Condition → Condition
  | .and => .and
  | .or => .or

-- The value that decides a connective, whatever the other side is.
def Connective.decisive : Connective → Bool
  | .and => false
  | .or => true

section Join
open Condition

theorem join_leaves (connective : Connective) (left right : Condition) :
    (connective.join left right).leaves = left.leaves ++ right.leaves := by cases connective <;> rfl

theorem join_decided (connective : Connective) {left right : Condition}
    (decided : left.truth atoms = connective.decisive ∨ right.truth atoms = connective.decisive) :
    (connective.join left right).truth atoms = connective.decisive := by
  cases connective with
  | and =>
    rw [Connective.join,truth]
    rcases decided with left | right
    · rw [left]
      rfl
    · rw [right]
      exact Bool.and_false _
  | or =>
    rw [Connective.join,truth]
    rcases decided with left | right
    · rw [left]
      rfl
    · rw [right]
      exact Bool.or_true _

theorem join_open (connective : Connective) {left right : Condition}
    (left_open : left.truth atoms ≠ connective.decisive) (right_open : right.truth atoms ≠ connective.decisive) :
    (connective.join left right).truth atoms ≠ connective.decisive := by
  cases connective with
  | and =>
    rw [Connective.decisive,Bool.ne_false_iff] at left_open right_open ⊢
    rw [Connective.join,truth,left_open,right_open]
    rfl
  | or =>
    rw [Connective.decisive,ne_eq,Bool.not_eq_true] at left_open right_open ⊢
    rw [Connective.join,truth,left_open,right_open]
    rfl

theorem join_same (connective : Connective) {left right other another : Condition} (first : Same left other)
    (second : Same right another) : Same (connective.join left right) (connective.join other another) := by
  intro atoms
  cases connective with
  | and => rw [Connective.join,truth,truth,first atoms,second atoms]
  | or => rw [Connective.join,truth,truth,first atoms,second atoms]

theorem truth_ne_of_not_same {left right : Condition} (different : left.truth atoms ≠ right.truth atoms) :
    ∀ value, left.truth atoms = value ∨ right.truth atoms = value := by
  intro value
  cases one : left.truth atoms <;> cases two : right.truth atoms <;> cases value <;> simp_all

variable {connective : Connective} {left right other another : Condition}

-- The sides of a connective on different comparisons can be told apart.
theorem join_same_left (same : Same (connective.join left right) (connective.join other another))
    (leaves_left : left.leaves = other.leaves) (leaves_right : right.leaves = another.leaves)
    (once : (left.leaves ++ right.leaves).Nodup) : Same left other := by
  obtain ⟨_,rightOnce,apart⟩ := List.nodup_append'.mp once
  intro first
  by_contra different
  -- one of the two is decisive; the other side is kept open where it counts
  rcases truth_ne_of_not_same different connective.decisive with decided | decided
  · have other_open : other.truth first ≠ connective.decisive := decided ▸ Ne.symm different
    obtain ⟨second,opened⟩ := another.either (leaves_right ▸ rightOnce) (!connective.decisive)
    obtain ⟨atoms,atLeft,atRight⟩ := pick apart first second
    have joined := same atoms
    rw [join_decided connective (.inl ((atLeft left (List.Subset.refl _)).trans decided))] at joined
    refine join_open connective ?_ ?_ joined.symm
    · rw [atLeft other (by rw [leaves_left]; exact List.Subset.refl _)]
      exact other_open
    · rw [atRight another (by rw [leaves_right]; exact List.Subset.refl _),opened]
      exact Bool.not_ne_self _
  · have left_open : left.truth first ≠ connective.decisive := decided ▸ different
    obtain ⟨second,opened⟩ := right.either rightOnce (!connective.decisive)
    obtain ⟨atoms,atLeft,atRight⟩ := pick apart first second
    have joined := same atoms
    have other_decided := (atLeft other (by rw [leaves_left]; exact List.Subset.refl _)).trans decided
    rw [join_decided connective (.inl other_decided)] at joined
    refine join_open connective ?_ ?_ joined
    · rw [atLeft left (List.Subset.refl _)]
      exact left_open
    · rw [atRight right (List.Subset.refl _),opened]
      exact Bool.not_ne_self _

theorem join_comm (connective : Connective) (left right : Condition) :
    Same (connective.join left right) (connective.join right left) := by
  intro atoms
  cases connective with
  | and => exact Bool.and_comm _ _
  | or => exact Bool.or_comm _ _

theorem join_same_right (same : Same (connective.join left right) (connective.join other another))
    (leaves_left : left.leaves = other.leaves) (leaves_right : right.leaves = another.leaves)
    (once : (left.leaves ++ right.leaves).Nodup) : Same right another := by
  have swapped : Same (connective.join right left) (connective.join another other) := fun atoms =>
    (join_comm connective right left atoms).trans ((same atoms).trans (join_comm connective other another atoms))
  exact join_same_left swapped leaves_right leaves_left (List.nodup_append_comm.mp once)

end Join

-- The grammar of conditions with the usual precedence: a disjunction of
-- conjunctions of operands, each with its NOTs. Comparisons are of any type
-- that says which condition stands for them.
mutual
inductive Operand (α : Type) where
  | atom (atom : α)
  | paren (inner : Disjunction α)
inductive Conjunction (α : Type) where
  | one (nots : Nat) (operand : Operand α)
  | and (nots : Nat) (operand : Operand α) (rest : Conjunction α)
inductive Disjunction (α : Type) where
  | one (first : Conjunction α)
  | or (first : Conjunction α) (rest : Disjunction α)
end

def negated : Nat → Condition → Condition
  | 0, condition => condition
  | nots+1, condition => .not (negated nots condition)

section Meaning
variable {α : Type} (leaf : α → Condition)

-- What SQL means: NOT binds an operand, AND before OR.
mutual
def Operand.meant : Operand α → Condition
  | .atom atom => leaf atom
  | .paren inner => inner.meant
def Conjunction.meant : Conjunction α → Condition
  | .one nots operand => negated nots operand.meant
  | .and nots operand rest => .and (negated nots operand.meant) rest.meant
def Disjunction.meant : Disjunction α → Condition
  | .one first => first.meant
  | .or first rest => .or first.meant rest.meant
end

abbrev Pending := Option (Connective × Condition)

def connected (condition : Condition) : Pending → Condition
  | none => condition
  | some (connective,right) => connective.join condition right

-- What the parser makes of it: the right side of a connective is all that
-- follows, and a NOT takes that in as well.
mutual
def Operand.grouped : Operand α → Condition
  | .atom atom => leaf atom
  | .paren inner => inner.grouped
def Conjunction.grouped : Conjunction α → Pending → Condition
  | .one nots operand, pending => negated nots (connected operand.grouped pending)
  | .and nots operand rest, pending => negated nots (connected operand.grouped (some (.and,rest.grouped pending)))
def Disjunction.grouped : Disjunction α → Condition
  | .one first => first.grouped none
  | .or first rest => first.grouped (some (.or,rest.grouped))
end

end Meaning

-- The conditions that are read as they are meant: an operand with an odd number
-- of NOTs stands last, and no AND comes before an OR.
mutual
def Operand.Plain : Operand α → Prop
  | .atom _ => True
  | .paren inner => inner.Plain
def Conjunction.Plain : Conjunction α → Bool → Prop
  | .one nots operand, followed => (followed = true → Even nots) ∧ operand.Plain
  | .and nots operand rest, followed => followed = false ∧ Even nots ∧ operand.Plain ∧ rest.Plain followed
def Disjunction.Plain : Disjunction α → Prop
  | .one first => first.Plain false
  | .or first rest => first.Plain true ∧ rest.Plain
end

mutual
def Operand.atoms : Operand α → List α
  | .atom atom => [atom]
  | .paren inner => inner.atoms
def Conjunction.atoms : Conjunction α → List α
  | .one _ operand => operand.atoms
  | .and _ operand rest => operand.atoms ++ rest.atoms
def Disjunction.atoms : Disjunction α → List α
  | .one first => first.atoms
  | .or first rest => first.atoms ++ rest.atoms
end

section Sufficient
open Condition
variable {α : Type} (leaf : α → Condition)

theorem negated_same (nots : Nat) {left right : Condition} (same : Same left right) :
    Same (negated nots left) (negated nots right) := by
  induction nots with
  | zero => exact same
  | succ nots ih =>
    intro atoms
    rw [negated,negated,truth,truth,ih atoms]

theorem negated_truth (nots : Nat) (condition : Condition) (atoms : Condition → Bool) :
    (negated nots condition).truth atoms = if Even nots then condition.truth atoms else !condition.truth atoms := by
  induction nots with
  | zero => simp [negated]
  | succ nots ih =>
    rw [negated,truth,ih]
    by_cases even : Even nots
    · simp [even,Nat.even_add_one]
    · simp [even,Nat.even_add_one]

theorem negated_even (even : Even nots) (condition : Condition) : Same (negated nots condition) condition := by
  intro atoms
  rw [negated_truth,if_pos even]

theorem negated_odd (odd : ¬ Even nots) (condition : Condition) (atoms : Condition → Bool) :
    (negated nots condition).truth atoms = !condition.truth atoms := by
  rw [negated_truth,if_neg odd]

mutual

theorem Operand.plain_same (operand : Operand α) (plain : operand.Plain) :
    Same (operand.grouped leaf) (operand.meant leaf) := by
  cases operand with
  | atom atom =>
    intro atoms
    rw [Operand.grouped,Operand.meant]
  | paren inner =>
    rw [Operand.grouped,Operand.meant]
    exact inner.plain_same plain

theorem Conjunction.plain_alone (conjunction : Conjunction α) (plain : conjunction.Plain false) :
    Same (conjunction.grouped leaf none) (conjunction.meant leaf) := by
  cases conjunction with
  | one nots operand =>
    rw [Conjunction.grouped,Conjunction.meant]
    exact negated_same nots (operand.plain_same plain.2)
  | and nots operand rest =>
    obtain ⟨_,even,inner,others⟩ := plain
    rw [Conjunction.grouped,Conjunction.meant]
    intro atoms
    have first := operand.plain_same inner
    have second := rest.plain_alone others
    rw [negated_even even,connected,join_same .and first second atoms]
    exact join_same .and (fun atoms => (negated_even even _ atoms).symm) (fun _ => rfl) atoms

theorem Disjunction.plain_same (disjunction : Disjunction α) (plain : disjunction.Plain) :
    Same (disjunction.grouped leaf) (disjunction.meant leaf) := by
  cases disjunction with
  | one first =>
    rw [Disjunction.grouped,Disjunction.meant]
    exact first.plain_alone plain
  | or first rest =>
    obtain ⟨before,others⟩ := plain
    rw [Disjunction.grouped,Disjunction.meant]
    have second := rest.plain_same others
    cases first with
    | one nots operand =>
      have even := before.1 rfl
      rw [Conjunction.grouped,Conjunction.meant,connected]
      intro atoms
      have one := operand.plain_same before.2
      rw [negated_even even,join_same .or one second atoms]
      exact join_same .or (fun atoms => (negated_even even _ atoms).symm) (fun _ => rfl) atoms
    | and nots operand rest => exact absurd before.1 (by decide)

end
end Sufficient

section Necessary
open Condition

theorem negated_leaves (nots : Nat) (condition : Condition) : (negated nots condition).leaves = condition.leaves := by
  induction nots with
  | zero => rfl
  | succ nots ih => exact ih

def Single (leaf : α → Condition) : Prop := ∀ atom, (leaf atom).leaves = [leaf atom]

variable {α : Type} {leaf : α → Condition}

mutual

theorem Operand.grouped_leaves (single : Single leaf) (operand : Operand α) :
    (operand.grouped leaf).leaves = operand.atoms.map leaf := by
  cases operand with
  | atom atom =>
    rw [Operand.grouped,Operand.atoms]
    exact single atom
  | paren inner =>
    rw [Operand.grouped,Operand.atoms]
    exact inner.grouped_leaves single

theorem Conjunction.grouped_leaves (single : Single leaf) (conjunction : Conjunction α) (pending : Pending) :
    (conjunction.grouped leaf pending).leaves =
      conjunction.atoms.map leaf ++ (pending.map (·.2.leaves)).getD [] := by
  cases conjunction with
  | one nots operand =>
    rw [Conjunction.grouped,Conjunction.atoms,negated_leaves,← operand.grouped_leaves single]
    cases pending with
    | none => exact (List.append_nil _).symm
    | some pending => exact join_leaves _ _ _
  | and nots operand rest =>
    rw [Conjunction.grouped,Conjunction.atoms,negated_leaves,List.map_append,← operand.grouped_leaves single,
      List.append_assoc,← rest.grouped_leaves single pending,connected]
    exact join_leaves _ _ _

theorem Disjunction.grouped_leaves (single : Single leaf) (disjunction : Disjunction α) :
    (disjunction.grouped leaf).leaves = disjunction.atoms.map leaf := by
  cases disjunction with
  | one first =>
    rw [Disjunction.grouped,Disjunction.atoms,first.grouped_leaves single]
    exact List.append_nil _
  | or first rest =>
    rw [Disjunction.grouped,Disjunction.atoms,first.grouped_leaves single,List.map_append,← rest.grouped_leaves single]
    rfl

end

mutual

theorem Operand.meant_leaves (single : Single leaf) (operand : Operand α) : (operand.meant leaf).leaves = operand.atoms.map leaf := by
  cases operand with
  | atom atom =>
    rw [Operand.meant,Operand.atoms]
    exact single atom
  | paren inner =>
    rw [Operand.meant,Operand.atoms]
    exact inner.meant_leaves single

theorem Conjunction.meant_leaves (single : Single leaf) (conjunction : Conjunction α) :
    (conjunction.meant leaf).leaves = conjunction.atoms.map leaf := by
  cases conjunction with
  | one nots operand =>
    rw [Conjunction.meant,Conjunction.atoms,negated_leaves]
    exact operand.meant_leaves single
  | and nots operand rest =>
    rw [Conjunction.meant,Conjunction.atoms,leaves,negated_leaves,List.map_append,operand.meant_leaves single,
      rest.meant_leaves single]

theorem Disjunction.meant_leaves (single : Single leaf) (disjunction : Disjunction α) :
    (disjunction.meant leaf).leaves = disjunction.atoms.map leaf := by
  cases disjunction with
  | one first =>
    rw [Disjunction.meant,Disjunction.atoms]
    exact first.meant_leaves single
  | or first rest =>
    rw [Disjunction.meant,Disjunction.atoms,leaves,List.map_append,first.meant_leaves single,rest.meant_leaves single]

end

section Apart

variable {connective : Connective} {left right other another : Condition}

theorem negated_not_same (odd : ¬ Even nots) (once : (other.leaves ++ right.leaves).Nodup) :
    ¬ Same (negated nots (connective.join left right)) (connective.join (negated nots other) another) := by
  intro same
  obtain ⟨leftOnce,rightOnce,apart⟩ := List.nodup_append'.mp once
  obtain ⟨first,open_left⟩ := other.either leftOnce (!connective.decisive)
  obtain ⟨second,decided⟩ := right.either rightOnce connective.decisive
  obtain ⟨atoms,atLeft,atRight⟩ := pick apart first second
  have one := (atLeft other (List.Subset.refl _)).trans open_left
  have two := (atRight right (List.Subset.refl _)).trans decided
  have reached := same atoms
  have turned : (negated nots other).truth atoms = connective.decisive := by
    rw [negated_odd odd,one,Bool.not_not]
  rw [negated_odd odd,join_decided connective (.inr two),join_decided connective (.inl turned)] at reached
  exact Bool.not_ne_self _ reached

theorem operand_same (same : Same (negated nots (connective.join left right)) (connective.join (negated nots other) another))
    (leaves_left : left.leaves = other.leaves) (leaves_right : right.leaves = another.leaves)
    (once : (left.leaves ++ right.leaves).Nodup) : Even nots ∧ Same left other ∧ Same right another := by
  by_cases even : Even nots
  · have joined : Same (connective.join left right) (connective.join other another) := by
      intro atoms
      have undone := join_same connective (negated_even even other) (fun _ => rfl : Same another another)
      exact (negated_even even _ atoms).symm.trans ((same atoms).trans (undone atoms))
    exact ⟨even,join_same_left joined leaves_left leaves_right once,join_same_right joined leaves_left leaves_right once⟩
  · exact absurd same (negated_not_same even (leaves_left ▸ once))

-- A conjunction in front of an OR takes the rest of it into its last operand.
theorem conjunction_not_same (nots : Nat) {first after following last : Condition}
    (once : (left.leaves ++ (after.leaves ++ last.leaves)).Nodup) :
    ¬ Same (negated nots (.and left following)) (.or (.and first after) last) := by
  intro same
  obtain ⟨leftOnce,othersOnce,apart⟩ := List.nodup_append'.mp once
  obtain ⟨values,low⟩ := left.either leftOnce false
  by_cases even : Even nots
  · obtain ⟨second,high⟩ := last.either (List.nodup_append'.mp othersOnce).2.1 true
    obtain ⟨atoms,atLeft,atRight⟩ := pick apart values second
    have reached := same atoms
    rw [negated_even even,truth,atLeft left (List.Subset.refl _),low,truth,
      atRight last (List.subset_append_right _ _),high,Bool.or_true] at reached
    cases reached
  · obtain ⟨second,lows⟩ := (Condition.or after last).either othersOnce false
    obtain ⟨atoms,atLeft,atRight⟩ := pick apart values second
    rw [truth,Bool.or_eq_false_iff] at lows
    have reached := same atoms
    rw [negated_odd even,truth,atLeft left (List.Subset.refl _),low,truth,truth,
      atRight after (List.subset_append_left _ _),lows.1,atRight last (List.subset_append_right _ _),lows.2,
      Bool.and_false] at reached
    cases reached

end Apart

theorem negated_cancel (nots : Nat) {left right : Condition} (same : Same (negated nots left) (negated nots right)) :
    Same left right := by
  intro atoms
  have reached := same atoms
  by_cases even : Even nots
  · rw [negated_even even,negated_even even] at reached
    exact reached
  · rw [negated_odd even,negated_odd even] at reached
    exact Bool.not_inj reached

mutual

theorem Operand.same_plain (single : Single leaf) (operand : Operand α) (once : (operand.atoms.map leaf).Nodup)
    (same : Same (operand.grouped leaf) (operand.meant leaf)) : operand.Plain := by
  cases operand with
  | atom atom => trivial
  | paren inner =>
    rw [Operand.grouped,Operand.meant] at same
    exact inner.same_plain single once same

theorem Conjunction.same_plain (single : Single leaf) (conjunction : Conjunction α)
    (once : (conjunction.atoms.map leaf).Nodup)
    (same : Same (conjunction.grouped leaf none) (conjunction.meant leaf)) : conjunction.Plain false := by
  cases conjunction with
  | one nots operand =>
    rw [Conjunction.grouped,Conjunction.meant,connected] at same
    exact ⟨fun followed => (nomatch followed),operand.same_plain single once (negated_cancel nots same)⟩
  | and nots operand rest =>
    rw [Conjunction.grouped,Conjunction.meant,connected] at same
    rw [Conjunction.atoms,List.map_append] at once
    have firstLeaves := (operand.grouped_leaves single).trans (operand.meant_leaves single).symm
    have restLeaves : (rest.grouped leaf none).leaves = rest.atoms.map leaf :=
      (rest.grouped_leaves single none).trans (List.append_nil _)
    obtain ⟨even,first,second⟩ := operand_same same firstLeaves
      (restLeaves.trans (rest.meant_leaves single).symm) (by rw [operand.grouped_leaves single,restLeaves]; exact once)
    exact ⟨rfl,even,operand.same_plain single (List.nodup_append'.mp once).1 first,
      rest.same_plain single (List.nodup_append'.mp once).2.1 second⟩

theorem Disjunction.same_plain (single : Single leaf) (disjunction : Disjunction α)
    (once : (disjunction.atoms.map leaf).Nodup)
    (same : Same (disjunction.grouped leaf) (disjunction.meant leaf)) : disjunction.Plain := by
  cases disjunction with
  | one first =>
    rw [Disjunction.grouped,Disjunction.meant] at same
    exact first.same_plain single once same
  | or first rest =>
    rw [Disjunction.grouped,Disjunction.meant] at same
    rw [Disjunction.atoms,List.map_append] at once
    cases first with
    | one nots operand =>
      rw [Conjunction.grouped,Conjunction.meant,connected] at same
      rw [Conjunction.atoms] at once
      have firstLeaves := (operand.grouped_leaves single).trans (operand.meant_leaves single).symm
      have restLeaves := (rest.grouped_leaves single).trans (rest.meant_leaves single).symm
      obtain ⟨even,one,two⟩ := operand_same same firstLeaves restLeaves
        (by rw [operand.grouped_leaves single,rest.grouped_leaves single]; exact once)
      exact ⟨⟨fun _ => even,operand.same_plain single (List.nodup_append'.mp once).1 one⟩,
        rest.same_plain single (List.nodup_append'.mp once).2.1 two⟩
    | and nots operand others =>
      rw [Conjunction.grouped,Conjunction.meant,connected] at same
      rw [Conjunction.atoms,List.map_append,List.append_assoc] at once
      refine absurd same (conjunction_not_same nots ?_)
      rw [operand.grouped_leaves single,others.meant_leaves single,rest.meant_leaves single]
      exact once

end
end Necessary
end RemDb
