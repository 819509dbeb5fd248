import Mathlib.Tactic.Common

namespace RemDb.Lib

-- Actions that end with a value or with a fault, and with a state either way.
def finalState : EStateM.Result ε σ α → σ
  | .ok _ state => state
  | .error _ state => state

def Keeps (property : σ → Prop) (action : EStateM ε σ α) : Prop :=
  ∀ state, property state → property (finalState (action.run state))

section Keeps

variable {ε σ α β : Type} {property : σ → Prop}

theorem keeps_pure (value : α) : Keeps property (pure value : EStateM ε σ α) := fun _ held => held
theorem keeps_throw (fault : ε) : Keeps property (throw fault : EStateM ε σ α) := fun _ held => held
theorem keeps_get : Keeps property (get : EStateM ε σ σ) := fun _ held => held

theorem keeps_modify (change : σ → σ) (kept : ∀ state, property state → property (change state)) :
    Keeps property (modify change : EStateM ε σ PUnit) := kept

theorem keeps_after {first : EStateM ε σ α} {second : α → EStateM ε σ β} {state : σ}
    (reached : property (finalState (first.run state))) (right : ∀ value, Keeps property (second value)) :
    property (finalState ((first >>= second).run state)) := by
  rw [EStateM.run_bind]
  cases outcome : first.run state with
  | ok value after =>
    rw [outcome] at reached
    exact right value after reached
  | error fault after =>
    rw [outcome] at reached
    exact reached

theorem keeps_bind {first : EStateM ε σ α} {second : α → EStateM ε σ β} (left : Keeps property first)
    (right : ∀ value, Keeps property (second value)) : Keeps property (first >>= second) :=
  fun state held => keeps_after (left state held) right

theorem keeps_forM (actions : List β) (action : β → EStateM ε σ PUnit)
    (kept : ∀ each ∈ actions, Keeps property (action each)) : Keeps property (actions.forM action) := by
  induction actions with
  | nil => exact keeps_pure _
  | cons first rest ih =>
    change Keeps property (action first >>= fun _ => rest.forM action)
    exact keeps_bind (kept first List.mem_cons_self) fun _ =>
      ih fun each member => kept each (List.mem_cons_of_mem _ member)

end Keeps

def returned : EStateM.Result ε σ α → Option α
  | .ok value _ => some value
  | .error _ _ => none

theorem ok_of_returned {result : EStateM.Result ε σ α} {value : α} (done : returned result = some value) :
    result = .ok value (finalState result) := by
  cases result with
  | ok _ _ =>
    cases done
    rfl
  | error _ _ => cases done

theorem run_bind_ok {first : EStateM ε σ α} {second : α → EStateM ε σ β} {state after : σ} {result : β}
    (ran : (first >>= second).run state = .ok result after) :
    ∃ value middle, first.run state = .ok value middle ∧ (second value).run middle = .ok result after := by
  rw [EStateM.run_bind] at ran
  cases outcome : first.run state with
  | ok value middle =>
    rw [outcome] at ran
    exact ⟨value,middle,rfl,ran⟩
  | error fault middle =>
    rw [outcome] at ran
    cases ran

def Ensures (property : α → Prop) (action : EStateM ε σ α) : Prop :=
  ∀ state value after, action.run state = .ok value after → property value

section Ensures
variable {ε σ α β : Type} {property : β → Prop}

theorem ensures_pure {value : β} (held : property value) : Ensures property (pure value : EStateM ε σ β) := by
  intro state result after ran
  cases ran
  exact held

theorem ensures_bind (first : EStateM ε σ α) {second : α → EStateM ε σ β}
    (right : ∀ value, Ensures property (second value)) : Ensures property (first >>= second) := by
  intro state result after ran
  obtain ⟨value,middle,_,done⟩ := run_bind_ok ran
  exact right value middle result after done

end Ensures

theorem run_bind_of_ok {first : EStateM ε σ α} {state middle : σ} {value : α}
    (done : first.run state = .ok value middle) (second : α → EStateM ε σ β) :
    (first >>= second).run state = (second value).run middle := by
  rw [EStateM.run_bind,done]

end RemDb.Lib
