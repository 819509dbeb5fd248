import RemDb.Lib.Actions
import RemDb.Lib.Arrays
import RemDb.Index.Primary

namespace RemDb
open RemDb.Lib

structure SecondaryIndexItem where
  key_size : UInt8
  record_id : UInt16
  key_data : Bytes
deriving DecidableEq,Repr

namespace SecondaryIndexItem

def KEY_DATA : Nat := 128

-- The longest key that the tree indexes take.
def KEY_LIMIT : Nat := 64

def blank : SecondaryIndexItem := ⟨0,0,List.replicate KEY_DATA 0⟩

def ofKey (key : Bytes) (record_id : UInt16) : SecondaryIndexItem :=
  ⟨UInt8.ofNat key.length,record_id,key ++ List.replicate (KEY_DATA-key.length) 0⟩

def key (item : SecondaryIndexItem) : Bytes := item.key_data.take item.key_size.toNat

theorem ofKey_key (short : given.length ≤ KEY_DATA) (record_id : UInt16) :
    (ofKey given record_id).key = given := by
  have byte : (UInt8.ofNat given.length).toNat = given.length := by
    rw [UInt8.toNat_ofNat']
    simp only [KEY_DATA] at short
    omega
  rw [key,ofKey,byte]
  exact List.take_left

theorem ofKey_inj (short : left.length ≤ KEY_DATA) (short' : right.length ≤ KEY_DATA)
    (same : ofKey left leftId = ofKey right rightId) : left = right ∧ leftId = rightId := by
  have keys := congrArg key same
  rw [ofKey_key short,ofKey_key short'] at keys
  exact ⟨keys,congrArg record_id same⟩

end SecondaryIndexItem

-- `compare_items` without its text branch: by size, then by the first byte that
-- differs, then by record id.
def compareItems : SecondaryIndexItem → SecondaryIndexItem → Ordering :=
  compareLex (compareOn (·.key_size)) (compareLex (compareOn (·.key)) (compareOn (·.record_id)))

instance : Std.TransCmp compareItems :=
  inferInstanceAs (Std.TransCmp (compareLex _ (compareLex _ _)))

def SortedItems (items : List SecondaryIndexItem) : Prop := Ascending compareItems items

theorem compareItems_eq (left right : SecondaryIndexItem) :
    compareItems left right = .eq ↔
      left.key_size = right.key_size ∧ left.key = right.key ∧ left.record_id = right.record_id := by
  simp only [compareItems,compareLex_eq_eq,compareOn,Std.LawfulEqCmp.compare_eq_iff_eq]

theorem compareItems_ofKey (short : left.length ≤ SecondaryIndexItem.KEY_DATA)
    (short' : right.length ≤ SecondaryIndexItem.KEY_DATA)
    (same : compareItems (.ofKey left leftId) (.ofKey right rightId) = .eq) :
    left = right ∧ leftId = rightId := by
  obtain ⟨_,keys,ids⟩ := (compareItems_eq _ _).mp same
  rw [SecondaryIndexItem.ofKey_key short,SecondaryIndexItem.ofKey_key short'] at keys
  exact ⟨keys,ids⟩

-- `diverged` would be a descent through more nodes than the pool has.
inductive IndexFault where
  | panic
  | diverged
  | error (failure : RemDbError)
deriving DecidableEq,Repr

abbrev IndexAction (index : Type) := EStateM IndexFault index

def orPanic : Option α → IndexAction σ α
  | some value => pure value
  | none => throw .panic

def orError (failure : RemDbError) : Option α → IndexAction σ α
  | some value => pure value
  | none => throw (.error failure)

-- `let _ = ...`: an error is dropped, a panic is not.
def quiet (action : IndexAction σ Unit) : IndexAction σ Unit :=
  tryCatch action fun fault => match fault with
    | .error _ => pure ()
    | fault => throw fault

theorem quiet_run (action : IndexAction σ Unit) (index : σ) :
    (quiet action).run index = match action.run index with
      | .ok _ after => .ok () after
      | .error (.error _) after => .ok () after
      | .error fault after => .error fault after := by
  simp only [quiet,tryCatch,tryCatchThe,MonadExceptOf.tryCatch,EStateM.tryCatch,EStateM.run]
  cases action index with
  | ok value after => rfl
  | error fault after =>
    cases fault with
    | panic => rfl
    | diverged => rfl
    | error failure => rfl

theorem finalState_quiet (action : IndexAction σ Unit) (index : σ) :
    finalState ((quiet action).run index) = finalState (action.run index) := by
  rw [quiet_run]
  cases action.run index with
  | ok value after => rfl
  | error fault after =>
    cases fault with
    | panic => rfl
    | diverged => rfl
    | error failure => rfl

section Keeps

variable {σ : Type} {property : σ → Prop}

theorem keeps_quiet {action : IndexAction σ Unit} (kept : Keeps property action) :
    Keeps property (quiet action) := by
  intro index held
  rw [finalState_quiet]
  exact kept index held

theorem keeps_orPanic {α : Type} (value : Option α) : Keeps property (orPanic value : IndexAction σ α) := by
  cases value with
  | none => exact keeps_throw _
  | some value => exact keeps_pure _

theorem keeps_orError {α : Type} (failure : RemDbError) (value : Option α) :
    Keeps property (orError failure value : IndexAction σ α) := by
  cases value with
  | none => exact keeps_throw _
  | some value => exact keeps_pure _

end Keeps

theorem insertItem_place (items : List SecondaryIndexItem) (item : SecondaryIndexItem) :
    ∃ front back, items = front ++ back ∧ lowerBound compareItems items item = front.length ∧
      (∀ each ∈ front, compareItems each item = .lt) ∧
      (SortedItems items → SortedItems (front ++ item :: back)) := by
  obtain ⟨front,back,rfl,bound,before,behind⟩ := lowerBound_split compareItems items item
  refine ⟨front,back,rfl,bound,before,?_⟩
  intro sorted
  refine sorted.insert ?_ ?_
  · intro each member
    rw [before each member]
    rfl
  · intro each head
    have later := behind each head
    apply Std.OrientedCmp.isLE_of_isGE
    cases order : compareItems each item with
    | lt => exact absurd order later
    | eq => rfl
    | gt => rfl

end RemDb
