import Mathlib.Data.List.Basic

namespace RemDb.Lib

-- Expressions of atoms and operators between them, each of a strength; written
-- on a line they need brackets where the strengths alone do not group them.
inductive Infix (α ω : Type) where
  | atom (a : α)
  | node (left : Infix α ω) (op : ω) (right : Infix α ω)
deriving DecidableEq,Repr

-- What stands between two operators of a line.
inductive Item (α ω : Type) where
  | atom (a : α)
  | bracketed (inner : Infix α ω)

namespace Infix
variable {α ω : Type} (strength : ω → Nat)

def weaker (bound : Nat) : Infix α ω → Bool
  | .atom _ => false
  | .node _ op _ => decide (strength op < bound)

def items : Infix α ω → Item α ω × List (ω × Item α ω)
  | .atom a => (.atom a,[])
  | .node left op right =>
    let front := if left.weaker strength (strength op) then (.bracketed left,[]) else left.items
    let back := if right.weaker strength (strength op+1) then (.bracketed right,[]) else right.items
    (front.1,front.2 ++ (op,back.1) :: back.2)

def leftmost (first : Infix α ω) (rest : List (ω × α)) : Infix α ω :=
  rest.foldl (fun left step => .node left step.1 (.atom step.2)) first

-- Every right side is an atom, and no operator binds stronger than one before.
def Chain : Infix α ω → Prop
  | .atom _ => True
  | .node left op right => (∃ a, right = .atom a) ∧ left.weaker strength (strength op) = false ∧ left.Chain

def Every (property : α → Prop) : Infix α ω → Prop
  | .atom a => property a
  | .node left _ right => left.Every property ∧ right.Every property

section Lines
variable {strength} {first : α} {rest : List (ω × α)}

def plainItems (first : α) (rest : List (ω × α)) : Item α ω × List (ω × Item α ω) :=
  (.atom first,rest.map fun step => (step.1,.atom step.2))

theorem leftmost_snoc (first : Infix α ω) (rest : List (ω × α)) (op : ω) (last : α) :
    leftmost first (rest ++ [(op,last)]) = .node (leftmost first rest) op (.atom last) := by
  rw [leftmost,List.foldl_append]
  rfl

theorem every_leftmost {property : α → Prop} {first : Infix α ω} {rest : List (ω × α)} :
    (leftmost first rest).Every property ↔ first.Every property ∧ ∀ step ∈ rest, property step.2 := by
  induction rest generalizing first with
  | nil => exact ⟨fun every => ⟨every,fun _ => nofun⟩,And.left⟩
  | cons step rest ih =>
    rw [leftmost,List.foldl_cons,← leftmost,ih,List.forall_mem_cons]
    exact and_assoc

theorem chain_items {tree : Infix α ω} (chain : tree.Chain strength) :
    ∃ first rest, tree.items strength = plainItems first rest ∧ leftmost (.atom first) rest = tree := by
  induction tree with
  | atom a => exact ⟨a,[],rfl,rfl⟩
  | node left op right ih =>
    obtain ⟨⟨last,rfl⟩,bound,inner⟩ := chain
    obtain ⟨first,rest,items,grouped⟩ := ih inner
    refine ⟨first,rest ++ [(op,last)],?_,?_⟩
    · rw [Infix.items,bound,items,weaker]
      simp only [Bool.false_eq_true,if_false,Infix.items,plainItems,List.map_append]
      rfl
    · rw [leftmost_snoc,grouped]

theorem chain_of_items {tree : Infix α ω} (items : tree.items strength = plainItems first rest)
    (grouped : leftmost (.atom first) rest = tree) : tree.Chain strength := by
  induction tree generalizing first rest with
  | atom a => trivial
  | node left op right ih =>
    rcases List.eq_nil_or_concat rest with rfl | ⟨before,⟨last,atom⟩,rfl⟩
    · cases grouped
    · rw [List.concat_eq_append,leftmost_snoc] at grouped
      obtain ⟨inner,rfl,rfl⟩ := Infix.node.inj grouped
      rw [Infix.items,plainItems,List.concat_eq_append,List.map_append] at items
      cases bound : left.weaker strength (strength last) with
      | true =>
        rw [bound] at items
        cases (Prod.mk.inj items).1
      | false =>
        rw [bound] at items
        simp only [weaker,Bool.false_eq_true,if_false,Infix.items,Prod.mk.injEq] at items
        obtain ⟨start,steps⟩ := items
        have line := (List.append_inj' steps rfl).1
        exact ⟨⟨atom,rfl⟩,bound,ih (Prod.ext start line) inner⟩

end Lines

end Infix
end RemDb.Lib
