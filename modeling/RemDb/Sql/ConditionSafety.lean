import RemDb.Sql.Encoding
import RemDb.Sql.ExactComparison

namespace RemDb
open RemDb.Lib

namespace ConditionContext

-- As it is called: a value for every column of the table and of the query.
structure Sized (context : ConditionContext) : Prop where
  values : context.record_values.length = context.tdef.fields.length
  projections : context.expr_values.length = context.columns.length

-- The column that the debug text of a call has for its first field, and the one
-- in front of a vector operator.
def calledField (field : String) : String := between "Field \x7b name: \"" "\"" field.toList

def comparedField (field : String) : Option String :=
  (vectorOperators.find? fun symbol => mentions symbol.1 field.toList).bind fun symbol =>
    (breakOn symbol.1.toList field.toList).map fun cut => String.ofList (Json.trim cut.1)

-- A column as a condition may name it: plain, with the name of the table, in a
-- call or beside a vector.
def Names (tdef : TableDef) (field : String) (column : FieldDef) : Prop :=
  field = column.name ∨ field = tdef.name ++ "." ++ column.name ∨
    (calledField field ≠ "" ∧ calledField field = column.name) ∨ comparedField field = some column.name

section Reads
variable (semantics : ConditionSemantics) (context : ConditionContext)

def NamedAt (field : String) (index : Nat) : Prop :=
  ∃ column, context.tdef.fields[index]? = some column ∧ Names context.tdef field column

def hasPath (comp : ComparisonCondition) : String := between "String(\"" "\")" comp.field.toList

-- The column of a JSON_HAS call, if its text has a column and a path.
def hasColumn (comp : ComparisonCondition) : Option Nat :=
  if mentions "JSON_HAS" comp.field.toList ∧ calledField comp.field ≠ "" ∧ hasPath comp ≠ "" then
    context.columnIndex (calledField comp.field)
  else none

-- The column of a JSON_EXTRACT call is always the one named data.
def extractColumn (comp : ComparisonCondition) : Option Nat :=
  if mentions "JSON_EXTRACT" comp.field.toList ∧ mentions "data" comp.field.toList ∧ mentions "$.age" comp.field.toList then
    context.columnIndex "data"
  else none

def vectorColumn (comp : ComparisonCondition) : Option Nat :=
  (parseVectorDistanceExpression semantics comp.field.toList).bind fun parsed => context.columnIndex parsed.1

def fieldColumn (field : String) : Option Nat :=
  match context.fieldSource field with
  | .column index => some index
  | _ => none

-- The columns of the record that a comparison looks at.
def comparisonReads (comp : ComparisonCondition) : List Nat :=
  (context.hasColumn comp).toList ++
    match jsonHasBranch semantics context comp with
    | .ok none =>
      (context.extractColumn comp).toList ++
        match jsonExtractBranch semantics context comp with
        | .ok none =>
          match vectorBranch semantics context comp with
          | .ok none => (context.fieldColumn comp.field).toList
          | _ => (context.vectorColumn semantics comp).toList
        | _ => []
    | _ => []

def vectorCompared (comp : ComparisonCondition) : Bool :=
  vectorOperators.any fun symbol => mentions symbol.1 comp.field.toList

end Reads

end ConditionContext

namespace Condition

def Evaluates (semantics : ConditionSemantics) (context : ConditionContext) (condition : Condition) : Prop :=
  ∃ answer, evaluateConditionWithAlias semantics context condition = .ok answer

-- No part of the condition copies or indexes out of bounds, and a comparison
-- looks at no column that it does not name.
def Sound (semantics : ConditionSemantics) (context : ConditionContext) : Condition → Prop
  | .comparison comp => (Condition.comparison comp).Evaluates semantics context ∧
      ∀ index ∈ context.comparisonReads semantics comp, context.NamedAt comp.field index
  | .between condition => (Condition.between condition).Evaluates semantics context ∧
      ∀ index, context.fieldColumn condition.field = some index → context.NamedAt condition.field index
  | .and left right => left.Sound semantics context ∧ right.Sound semantics context ∧
      (Condition.and left right).Evaluates semantics context
  | .or left right => left.Sound semantics context ∧ right.Sound semantics context ∧
      (Condition.or left right).Evaluates semantics context
  | .not inner => inner.Sound semantics context ∧ (Condition.not inner).Evaluates semantics context

end Condition

namespace ConditionContext

section Branches
variable {semantics : ConditionSemantics} {context : ConditionContext} {comp : ComparisonCondition} {field : String} {index : Nat}

theorem jsonHasBranch_eq : jsonHasBranch semantics context comp =
    match context.hasColumn comp with
    | none => .ok none
    | some index =>
      (fetch context.record_values index).map fun data_value =>
        (semantics.jsonHas (jsonSource semantics data_value) (hasPath comp)).map fun has =>
          match comp.value, comp.operator with
          | .boolean comparison_value, .equal => has == comparison_value
          | .boolean comparison_value, .notEqual => has != comparison_value
          | _, _ => false := by
  unfold jsonHasBranch hasColumn calledField hasPath
  dsimp only
  split
  · cases context.columnIndex (between "Field \x7b name: \"" "\"" comp.field.toList) <;> rfl
  · rfl

theorem jsonExtractBranch_eq : jsonExtractBranch semantics context comp =
    match context.extractColumn comp with
    | none => .ok none
    | some index =>
      (fetch context.record_values index).bind fun data_value =>
        match extractAge (jsonSource semantics data_value), comp.value with
        | none, _ => .ok none
        | some age, .integer i =>
          if comp.operator = .like then .ok (some false)
          else (compareResolved ⟨.int64,toLE 8 age.toUInt64.toNat⟩ ⟨.int64,toLE 8 i.toUInt64.toNat⟩ comp.operator).map some
        | some age, .float bits =>
          if comp.operator = .like then .ok (some false)
          else (compareResolved ⟨.int64,toLE 8 age.toUInt64.toNat⟩ ⟨.float64,toLE 8 bits.toNat⟩ comp.operator).map some
        | some _, _ => .ok (some false) := by
  unfold jsonExtractBranch extractColumn
  dsimp only
  split
  · cases context.columnIndex "data" <;> rfl
  · rfl

theorem reads_named {first : Option Nat} {rest : List Nat} {property : Nat → Prop} :
    (∀ index ∈ first.toList ++ rest, property index) ↔
      (∀ index, first = some index → property index) ∧ ∀ index ∈ rest, property index := by
  simp only [List.mem_append,Option.mem_toList,or_imp,forall_and]

end Branches

section Frames
variable {semantics : ConditionSemantics} {context : ConditionContext} {values : List TypedValue}

theorem fetch_same {index : Nat} (same : values[index]? = context.record_values[index]?) :
    fetch values index = fetch context.record_values index := by rw [fetch,fetch,same]

theorem fieldValue_same {field : String} {index : Nat} (column : context.fieldColumn field = some index)
    (same : values[index]? = context.record_values[index]?) :
    fieldValue semantics {context with record_values := values} field = fieldValue semantics context field := by
  have source : context.fieldSource field = .column index := by
    unfold fieldColumn at column
    split at column
    · rename_i found
      rw [found,Option.some.inj column]
    · cases column
  have other : fieldSource {context with record_values := values} field = .column index := source
  rw [fieldValue,fieldValue,source,other]
  exact fetch_same same

theorem bind_answers {fetched : Except ConditionFault α} {rest : α → Except ConditionFault (Option Bool)}
    (answers : ∀ value, rest value ≠ .ok none) : fetched.bind rest ≠ .ok none := by
  cases fetched with
  | error fault => exact nofun
  | ok value => exact answers value

theorem vectorBranch_answers {comp : ComparisonCondition} (compared : vectorCompared comp = true) :
    vectorBranch semantics context comp ≠ .ok none := by
  unfold vectorCompared at compared
  unfold vectorBranch
  dsimp only
  rw [if_pos compared]
  split
  · exact nofun
  · split
    · exact nofun
    · split
      · exact nofun
      · split
        · split
          · exact nofun
          · refine bind_answers fun value => ?_
            split
            · exact nofun
            · split
              · exact nofun
              · exact nofun
        · exact nofun

theorem vectorBranch_same {comp : ComparisonCondition}
    (same : ∀ index, context.vectorColumn semantics comp = some index → values[index]? = context.record_values[index]?) :
    vectorBranch semantics {context with record_values := values} comp = vectorBranch semantics context comp := by
  unfold vectorBranch
  dsimp only
  cases parsed : parseVectorDistanceExpression semantics comp.field.toList with
  | none => rfl
  | some expression =>
    obtain ⟨name,op,vector⟩ := expression
    have column : columnIndex {context with record_values := values} name = context.columnIndex name := rfl
    dsimp only
    rw [column]
    cases found : context.columnIndex name with
    | none => rfl
    | some index =>
      have read : context.vectorColumn semantics comp = some index := by
        rw [vectorColumn,parsed]
        exact found
      dsimp only
      rw [fetch_same (same index read)]

-- What a comparison is listed to look at is all it looks at: other columns can
-- have any values.
theorem comparison_frame {comp : ComparisonCondition} (unaliased : context.alias_map.lookup comp.field = none)
    (same : ∀ index ∈ context.comparisonReads semantics comp, values[index]? = context.record_values[index]?) :
    evaluateComparisonWithAlias semantics {context with record_values := values} comp =
      evaluateComparisonWithAlias semantics context comp := by
  rw [comparisonReads,reads_named] at same
  obtain ⟨has_same,same⟩ := same
  have has : jsonHasBranch semantics {context with record_values := values} comp = jsonHasBranch semantics context comp := by
    have column : hasColumn {context with record_values := values} comp = context.hasColumn comp := rfl
    rw [jsonHasBranch_eq,jsonHasBranch_eq,column]
    cases found : context.hasColumn comp with
    | none => rfl
    | some index => exact congrArg (Except.map _) (fetch_same (has_same index found))
  rw [evaluateComparisonWithAlias,evaluateComparisonWithAlias,has]
  cases branch : jsonHasBranch semantics context comp with
  | error fault => rfl
  | ok answer =>
    cases answer with
    | some answer => rfl
    | none =>
      rw [branch,reads_named] at same
      obtain ⟨data_same,same⟩ := same
      have extract : jsonExtractBranch semantics {context with record_values := values} comp =
          jsonExtractBranch semantics context comp := by
        have column : extractColumn {context with record_values := values} comp = context.extractColumn comp := rfl
        rw [jsonExtractBranch_eq,jsonExtractBranch_eq,column]
        cases found : context.extractColumn comp with
        | none => rfl
        | some index =>
          dsimp only
          rw [fetch_same (data_same index found)]
      rw [extract]
      cases second : jsonExtractBranch semantics context comp with
      | error fault => rfl
      | ok answer =>
        cases answer with
        | some answer => rfl
        | none =>
          rw [second] at same
          have vector : vectorBranch semantics {context with record_values := values} comp = vectorBranch semantics context comp ∧
              (vectorBranch semantics context comp = .ok none →
                ∀ index, context.fieldColumn comp.field = some index → values[index]? = context.record_values[index]?) := by
            cases compared : vectorCompared comp with
            | false =>
              have silent (other : ConditionContext) : vectorBranch semantics other comp = .ok none := by
                unfold vectorCompared at compared
                exact if_neg (Bool.eq_false_iff.mp compared)
              rw [silent context] at same
              exact ⟨(silent _).trans (silent context).symm,fun _ index found => same index (Option.mem_toList.mpr found)⟩
            | true =>
              have answers := @vectorBranch_answers semantics context comp compared
              refine ⟨vectorBranch_same fun index found => ?_,fun none_given => absurd none_given answers⟩
              cases given : vectorBranch semantics context comp with
              | error fault =>
                rw [given] at same
                exact same index (Option.mem_toList.mpr found)
              | ok answer =>
                cases answer with
                | none => exact absurd given answers
                | some answer =>
                  rw [given] at same
                  exact same index (Option.mem_toList.mpr found)
          rw [vector.1]
          cases third : vectorBranch semantics context comp with
          | error fault => rfl
          | ok answer =>
            cases answer with
            | some answer => rfl
            | none =>
              have column : context.fieldColumn comp.field = some ((context.columnIndex comp.field).getD 0) := by
                rw [fieldColumn,fieldSource,unaliased]
              rw [fieldValue_same column (vector.2 third _ column)]

end Frames

end ConditionContext

section Conditions
open ConditionContext
variable {semantics : ConditionSemantics} {context : ConditionContext}

end Conditions

end RemDb
