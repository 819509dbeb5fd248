import Mathlib.Data.List.Basic
import Mathlib.Data.List.Count

namespace RemDb.Lib

inductive Wildcard (α : Type) where
  | any
  | one
  | lit (letter : α)
deriving DecidableEq,Repr

namespace Wildcard

def isAny : Wildcard α → Bool
  | .any => true
  | _ => false

def Takes : Wildcard α → α → Prop
  | .any, _ => False
  | .one, _ => True
  | .lit letter, other => letter = other

def Like : List (Wildcard α) → List α → Prop
  | [], word => word = []
  | .any :: parts, word => ∃ front back, word = front ++ back ∧ Like parts back
  | .one :: parts, word => ∃ letter back, word = letter :: back ∧ Like parts back
  | .lit letter :: parts, word => ∃ back, word = letter :: back ∧ Like parts back

-- A word as short as the pattern allows.
def fill (filler : α) : List (Wildcard α) → List α
  | [] => []
  | .any :: parts => fill filler parts
  | .one :: parts => filler :: fill filler parts
  | .lit letter :: parts => letter :: fill filler parts

def need (parts : List (Wildcard α)) : Nat := parts.countP fun part => !part.isAny

section Words
variable {parts rest : List (Wildcard α)} {part : Wildcard α} {word : List α} {filler : α}

theorem count_le [DecidableEq α] (letter : α) (like : Like parts word) : parts.count (.lit letter) ≤ word.count letter := by
  induction parts generalizing word with
  | nil => exact Nat.zero_le _
  | cons part parts ih =>
    cases part with
    | any =>
      obtain ⟨front,back,rfl,like⟩ := like
      have fewer := ih like
      rw [List.count_cons_of_ne (by simp),List.count_append]
      omega
    | one =>
      obtain ⟨other,back,rfl,like⟩ := like
      have fewer := ih like
      rw [List.count_cons_of_ne (by simp)]
      exact Nat.le_trans fewer (List.count_le_count_cons)
    | lit other =>
      obtain ⟨back,rfl,like⟩ := like
      have fewer := ih like
      rw [List.count_cons,List.count_cons]
      have same : (Wildcard.lit other == Wildcard.lit letter) = (other == letter) := by simp
      rw [same]
      omega

end Words

end Wildcard
end RemDb.Lib
