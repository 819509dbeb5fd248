import Mathlib.Algebra.BigOperators.Group.List.Basic
import RemDb.Ddl.AlterTable

namespace RemDb
open RemDb.Lib

-- The fields one behind the other, and the record as long as all of them.
structure TableDef.Laid (tdef : TableDef) : Prop where
  offsets : ∀ number field, tdef.fields[number]? = some field →
    field.offset = ((tdef.fields.take number).map (·.size)).sum
  total : tdef.record_size = (tdef.fields.map (·.size)).sum
  small : tdef.record_size < usizeLimit

def LaidFrom : Nat → List FieldDef → Prop
  | _, [] => True
  | start, field :: rest => field.offset = start ∧ LaidFrom (start+field.size) rest

def sizes (fields : List FieldDef) : Nat := (fields.map (·.size)).sum

section Fields
variable {fields front back : List FieldDef} {field : FieldDef}

theorem sizes_cons (field : FieldDef) (rest : List FieldDef) : sizes (field :: rest) = field.size+sizes rest := by
  simp [sizes]

theorem sizes_append (front back : List FieldDef) : sizes (front ++ back) = sizes front+sizes back := by
  simp [sizes]

theorem laidFrom_append (start : Nat) :
    LaidFrom start (front ++ back) ↔ LaidFrom start front ∧ LaidFrom (start+sizes front) back := by
  induction front generalizing start with
  | nil => simp [LaidFrom,sizes]
  | cons field rest ih =>
    rw [List.cons_append,LaidFrom,LaidFrom,ih,sizes_cons,and_assoc,Nat.add_assoc]

theorem laidFrom_iff (start : Nat) (fields : List FieldDef) : LaidFrom start fields ↔
    ∀ number field, fields[number]? = some field → field.offset = start+sizes (fields.take number) := by
  induction fields generalizing start with
  | nil => simp [LaidFrom]
  | cons first rest ih =>
    rw [LaidFrom,ih]
    constructor
    · rintro ⟨here,later⟩ number field present
      cases number with
      | zero =>
        cases present
        exact here
      | succ number =>
        rw [List.getElem?_cons_succ] at present
        rw [later number field present,List.take_succ_cons,sizes_cons,Nat.add_assoc]
    · intro each
      refine ⟨each 0 first rfl,?_⟩
      intro number field present
      have placed := each (number+1) field present
      rw [List.take_succ_cons,sizes_cons,← Nat.add_assoc] at placed
      exact placed

theorem TableDef.laid_iff (tdef : TableDef) :
    tdef.Laid ↔ LaidFrom 0 tdef.fields ∧ tdef.record_size = sizes tdef.fields ∧ tdef.record_size < usizeLimit := by
  constructor
  · rintro ⟨offsets,total,small⟩
    refine ⟨(laidFrom_iff 0 _).mpr ?_,total,small⟩
    intro number field present
    rw [offsets number field present,Nat.zero_add]
    rfl
  · rintro ⟨laid,total,small⟩
    refine ⟨?_,total,small⟩
    intro number field present
    have placed := (laidFrom_iff 0 _).mp laid number field present
    rw [Nat.zero_add] at placed
    exact placed

theorem LaidFrom.congr {other : List FieldDef} (start : Nat)
    (same : fields.map (fun field => (field.offset,field.size)) = other.map fun field => (field.offset,field.size))
    (laid : LaidFrom start fields) : LaidFrom start other := by
  induction fields generalizing start other with
  | nil =>
    cases other with
    | nil => trivial
    | cons _ _ => cases same
  | cons first rest ih =>
    cases other with
    | nil => cases same
    | cons second more =>
      simp only [List.map_cons,List.cons.injEq,Prod.mk.injEq] at same
      obtain ⟨⟨offset,size⟩,later⟩ := same
      exact ⟨offset ▸ laid.1,size ▸ ih _ later laid.2⟩

end Fields

theorem CreateTable.fieldDefs_laid (statement : CreateTable) (scheme : UInt8) (columns : List Column) (number start : Nat) :
    LaidFrom start (statement.fieldDefs scheme number start columns) ∧
      sizes (statement.fieldDefs scheme number start columns) = (columns.map (fieldSize scheme)).sum := by
  induction columns generalizing number start with
  | nil => exact ⟨trivial,rfl⟩
  | cons column rest ih =>
    obtain ⟨laid,total⟩ := ih (number+1) (start+fieldSize scheme column)
    refine ⟨⟨rfl,laid⟩,?_⟩
    rw [fieldDefs,sizes_cons,total,List.map_cons,List.sum_cons]
    rfl

theorem CreateTable.tableDef_laid (statement : CreateTable) (config : DbConfig) (scheme : UInt8) (table_id : Nat)
    (small : (statement.fields.map (fieldSize scheme)).sum < usizeLimit) :
    (statement.tableDef config scheme table_id).Laid := by
  obtain ⟨laid,total⟩ := statement.fieldDefs_laid scheme statement.fields 0 0
  exact (TableDef.laid_iff _).mpr ⟨laid,total.symm,small⟩

-- Sums that stay in range are exact, however the others are treated.
def Exact (arithmetic : Arithmetic) : Prop :=
  ∀ left right, left+right < usizeLimit → arithmetic.add left right = some (left+right)

theorem wrapping_exact : Exact wrapping := fun _ _ small => congrArg some (usizeAdd_of_lt small)
theorem checked_exact : Exact checked := fun _ _ small => if_pos small

namespace AlterTableOperation

section Moves
variable {arithmetic : Arithmetic}

def relaid : Nat → List FieldDef → List FieldDef
  | _, [] => []
  | start, field :: rest => {field with offset:=start} :: relaid (start+field.size) rest

def shifted (size_diff : Nat) (fields : List FieldDef) : List FieldDef :=
  fields.map fun field => {field with offset:=field.offset+size_diff}

theorem relay_exact (exact_sums : Exact arithmetic) (fields : List FieldDef) (start : Nat)
    (small : start+sizes fields < usizeLimit) :
    relay arithmetic start fields = some (relaid start fields,start+sizes fields) := by
  induction fields generalizing start with
  | nil => rfl
  | cons field rest ih =>
    rw [sizes_cons] at small ⊢
    have next := exact_sums start field.size (by omega)
    rw [relay,next,Option.bind_eq_bind,Option.bind_some,ih (start+field.size) (by omega),Nat.add_assoc]
    rfl

theorem relaid_laid (start : Nat) (fields : List FieldDef) : LaidFrom start (relaid start fields) := by
  induction fields generalizing start with
  | nil => trivial
  | cons field rest ih => exact ⟨rfl,ih _⟩

theorem relaid_sizes (start : Nat) (fields : List FieldDef) : sizes (relaid start fields) = sizes fields := by
  induction fields generalizing start with
  | nil => rfl
  | cons field rest ih => rw [relaid,sizes_cons,sizes_cons,ih]

theorem relaid_names (start : Nat) (fields : List FieldDef) :
    (relaid start fields).map (·.name) = fields.map (·.name) := by
  induction fields generalizing start with
  | nil => rfl
  | cons field rest ih => rw [relaid,List.map_cons,List.map_cons,ih]

theorem shift_exact (exact_sums : Exact arithmetic) (size_diff : Nat) (fields : List FieldDef) (start : Nat)
    (laid : LaidFrom start fields) (small : start+size_diff+sizes fields < usizeLimit) :
    shift arithmetic size_diff fields = some (shifted size_diff fields) := by
  induction fields generalizing start with
  | nil => rfl
  | cons field rest ih =>
    rw [sizes_cons] at small
    have here := laid.1
    have next := exact_sums field.offset size_diff (by omega)
    have later := ih (start+field.size) laid.2 (by omega)
    rw [shift] at later
    rw [shift,List.mapM_cons,next,later]
    rfl

theorem shifted_laid (size_diff start : Nat) {fields : List FieldDef} (laid : LaidFrom start fields) :
    LaidFrom (start+size_diff) (shifted size_diff fields) := by
  induction fields generalizing start with
  | nil => trivial
  | cons field rest ih =>
    have later := ih (start+field.size) laid.2
    rw [Nat.add_right_comm] at later
    refine ⟨?_,later⟩
    dsimp only
    rw [laid.1]

theorem shifted_sizes (size_diff : Nat) (fields : List FieldDef) : sizes (shifted size_diff fields) = sizes fields := by
  simp [sizes,shifted,Function.comp_def]

theorem shifted_names (size_diff : Nat) (fields : List FieldDef) :
    (shifted size_diff fields).map (·.name) = fields.map (·.name) := by
  simp [shifted,Function.comp_def]

end Moves

def columnName (tdef : TableDef) (number : Nat) : Option String := (tdef.fields[number]?).map (·.name)

def expectedName (tdef : TableDef) (operation : AlterTableOperation) (number : Nat) : Option String :=
  match operation with
  | renameColumn old_name new_name =>
    if findField tdef old_name = some number then some new_name else columnName tdef number
  | _ => columnName tdef number

-- The new definition is laid out like the old one, no sum or difference on the
-- way to it left its range, and the key columns are the ones they were.
structure SchemaKept (operation : AlterTableOperation) (old new : TableDef) : Prop where
  laid : new.Laid
  in_range : operation.change checked old = some (.ok new)
  key : new.primary_key.map (columnName new) = old.primary_key.map (expectedName old operation)

def KeepsSchema (tdef : TableDef) : AlterTableOperation → Prop
  | addColumn _ data_type size _ _ =>
    tdef.record_size+fieldSize data_type size < usizeLimit ∧ tdef.fields.length ∉ tdef.primary_key
  | dropColumn name => ∀ field_index, findField tdef name = some field_index → ∀ column ∈ tdef.primary_key,
    column < field_index ∨ columnName tdef (column+1) = columnName tdef column
  | modifyColumn name data_type size _ _ =>
    ∀ field, tdef.fields.find? (fun field => decide (field.name = name)) = some field →
      field.size ≤ fieldSize data_type size ∧
        tdef.record_size+(fieldSize data_type size-field.size) < usizeLimit
  | renameColumn _ _ => True

section Each
variable {old new : TableDef}

theorem columnName_names (tdef : TableDef) (number : Nat) :
    columnName tdef number = (tdef.fields.map (·.name))[number]? := List.getElem?_map.symm

theorem addColumn_iff (arithmetic : Arithmetic) (name : String) (data_type : DataType) (size : UInt16)
    (default_value : Option Bytes) (constraints : FieldConstraint) :
    (addColumn name data_type size default_value constraints).change arithmetic old = some (.ok new) ↔
      (old.fields.any fun field => decide (field.name = name)) = false ∧
        ∃ record_size, arithmetic.add old.record_size (fieldSize data_type size) = some record_size ∧
          {old with
            fields:=old.fields ++ [newField name data_type size default_value constraints old.record_size]
            record_size:=record_size} = new := by
  rw [change]
  cases old.fields.any fun field => decide (field.name = name) with
  | true => simp
  | false =>
    simp only [Bool.false_eq_true,if_false,true_and,Option.bind_eq_bind,Option.bind_eq_some_iff,newField]
    simp [pure]

theorem dropColumn_iff (arithmetic : Arithmetic) (name : String) :
    (dropColumn name).change arithmetic old = some (.ok new) ↔
      ∃ field_index, findField old name = some field_index ∧
        (old.fields[field_index]?).any (·.primary_key) = false ∧
        ∃ laid, relay arithmetic 0 (old.fields.eraseIdx field_index) = some laid ∧
          {old with
            fields:=laid.1
            record_size:=laid.2} = new := by
  rw [change]
  cases findField old name with
  | none => simp
  | some field_index =>
    dsimp only
    cases flag : (old.fields[field_index]?).any (·.primary_key) with
    | true => simp [flag]
    | false =>
      simp only [Bool.false_eq_true,if_false,Option.bind_eq_bind,Option.bind_eq_some_iff]
      simp [pure,flag]

theorem renameColumn_iff (arithmetic : Arithmetic) (old_name new_name : String) :
    (renameColumn old_name new_name).change arithmetic old = some (.ok new) ↔
      (old.fields.any fun field => decide (field.name = new_name)) = false ∧
        ∃ field_index, findField old old_name = some field_index ∧
          {old with fields:=old.fields.modify field_index fun field => {field with name:=new_name}} = new := by
  rw [change]
  cases old.fields.any fun field => decide (field.name = new_name) with
  | true => simp
  | false =>
    cases findField old old_name with
    | none => simp
    | some field_index => simp

theorem findField_split {tdef : TableDef} {name : String} {field_index : Nat}
    (found : findField tdef name = some field_index) :
    ∃ front field back, tdef.fields = front ++ field :: back ∧ front.length = field_index ∧ field.name = name ∧
      ∀ each ∈ front, each.name ≠ name := by
  obtain ⟨inside,named,before⟩ := List.findIdx?_eq_some_iff_getElem.mp found
  refine ⟨tdef.fields.take field_index,tdef.fields[field_index],tdef.fields.drop (field_index+1),?_,?_,?_,?_⟩
  · rw [← List.drop_eq_getElem_cons inside,List.take_append_drop]
  · rw [List.length_take]
    omega
  · exact of_decide_eq_true named
  · intro each among same
    obtain ⟨number,below,rfl⟩ := List.mem_iff_getElem.mp among
    rw [List.length_take] at below
    rw [List.getElem_take] at same
    exact before number (by omega) (decide_eq_true same)

theorem modify_at (front back : List α) (value : α) (change : α → α) :
    (front ++ value :: back).modify front.length change = front ++ change value :: back := by
  induction front with
  | nil => rfl
  | cons first rest ih =>
    rw [List.cons_append,List.length_cons,List.modify_succ_cons,ih]
    rfl

theorem modifyColumn_iff (arithmetic : Arithmetic) {front back : List FieldDef} {field : FieldDef} {name : String}
    (data_type : DataType) (size : UInt16) (default_value : Option Bytes) (constraints : FieldConstraint)
    (found : findField old name = some front.length) (split : old.fields = front ++ field :: back) :
    (modifyColumn name data_type size default_value constraints).change arithmetic old = some (.ok new) ↔
      (fieldSize data_type size = field.size ∧
        {old with fields:=front ++ newField field.name data_type size default_value constraints field.offset :: back} =
          new) ∨
      fieldSize data_type size ≠ field.size ∧
        ∃ size_diff later record_size, arithmetic.sub (fieldSize data_type size) field.size = some size_diff ∧
          shift arithmetic size_diff back = some later ∧
          arithmetic.add old.record_size size_diff = some record_size ∧
          {old with
            fields:=front ++ newField field.name data_type size default_value constraints field.offset :: later
            record_size:=record_size} = new := by
  have own : old.fields[front.length]? = some field := by
    rw [split,List.getElem?_append_right (Nat.le_refl _),Nat.sub_self]
    rfl
  have modified : (old.fields.modify front.length fun field =>
      newField field.name data_type size default_value constraints field.offset) =
        front ++ newField field.name data_type size default_value constraints field.offset :: back := by
    rw [split]
    exact modify_at front back field _
  have taken : (front ++ newField field.name data_type size default_value constraints field.offset :: back).take
      (front.length+1) = front ++ [newField field.name data_type size default_value constraints field.offset] := by
    rw [List.take_append,List.take_of_length_le (Nat.le_succ _),Nat.add_sub_cancel_left]
    rfl
  have dropped : (front ++ newField field.name data_type size default_value constraints field.offset :: back).drop
      (front.length+1) = back := by
    rw [List.drop_append,List.drop_of_length_le (Nat.le_succ _),Nat.add_sub_cancel_left]
    rfl
  rw [change]
  simp only [found,own,modified,Option.map_some,Option.getD_some]
  by_cases same : fieldSize data_type size = field.size
  · simp [same]
  · rw [if_neg same]
    simp only [same,false_and,false_or,ne_eq,not_false_eq_true,true_and,taken,dropped,Option.bind_eq_bind,
      Option.bind_eq_some_iff,List.append_assoc,List.cons_append,List.nil_append]
    constructor
    · rintro ⟨size_diff,sub,later,moved,record_size,add,done⟩
      cases done
      exact ⟨size_diff,later,record_size,sub,moved,add,rfl⟩
    · rintro ⟨size_diff,later,record_size,sub,moved,add,rfl⟩
      exact ⟨size_diff,sub,later,moved,record_size,add,rfl⟩

end Each

section Kept
variable {old new : TableDef}

theorem addColumn_schema {name : String} {data_type : DataType} {size : UInt16} {default_value : Option Bytes}
    {constraints : FieldConstraint} (laid : old.Laid)
    (changed : (addColumn name data_type size default_value constraints).change wrapping old = some (.ok new)) :
    SchemaKept (addColumn name data_type size default_value constraints) old new ↔
      KeepsSchema old (addColumn name data_type size default_value constraints) := by
  obtain ⟨places,total,small⟩ := old.laid_iff.mp laid
  obtain ⟨fresh,record_size,sum,rfl⟩ := (addColumn_iff wrapping _ _ _ _ _).mp changed
  constructor
  · rintro ⟨_,in_range,key⟩
    obtain ⟨_,checked_size,checked_sum,_⟩ := (addColumn_iff checked _ _ _ _ _).mp in_range
    refine ⟨?_,?_⟩
    · by_contra beyond
      rw [checked] at checked_sum
      dsimp only at checked_sum
      rw [if_neg beyond] at checked_sum
      cases checked_sum
    · intro member
      have named := List.map_inj_left.mp key _ member
      simp [columnName,expectedName] at named
  · rintro ⟨fits,apart⟩
    have exact_size : record_size = old.record_size+fieldSize data_type size := by
      have exact_sum := wrapping_exact old.record_size _ fits
      rw [sum] at exact_sum
      exact Option.some.inj exact_sum
    subst exact_size
    refine ⟨(TableDef.laid_iff _).mpr ⟨?_,?_,fits⟩,?_,?_⟩
    · refine (laidFrom_append 0).mpr ⟨places,?_,trivial⟩
      dsimp only [newField]
      rw [total,Nat.zero_add]
    · rw [sizes_append,sizes_cons,total]
      simp [newField,sizes]
    · exact (addColumn_iff checked _ _ _ _ _).mpr ⟨fresh,_,checked_exact _ _ fits,rfl⟩
    · refine List.map_inj_left.mpr fun column member => ?_
      change columnName _ column = columnName old column
      rw [columnName,columnName]
      dsimp only
      by_cases below : column < old.fields.length
      · rw [List.getElem?_append_left below]
      · have other : column ≠ old.fields.length := fun same => apart (same ▸ member)
        rw [List.getElem?_eq_none (Nat.le_of_not_lt below),List.getElem?_eq_none]
        rw [List.length_append,List.length_singleton]
        omega

theorem sizes_eraseIdx (fields : List FieldDef) (number : Nat) : sizes (fields.eraseIdx number) ≤ sizes fields := by
  induction fields generalizing number with
  | nil => exact Nat.le_refl _
  | cons field rest ih =>
    cases number with
    | zero =>
      rw [List.eraseIdx_cons_zero,sizes_cons]
      omega
    | succ number =>
      have less := ih number
      rw [List.eraseIdx_cons_succ,sizes_cons,sizes_cons]
      omega

theorem dropColumn_schema {name : String} (laid : old.Laid)
    (changed : (dropColumn name).change wrapping old = some (.ok new)) :
    SchemaKept (dropColumn name) old new ↔ KeepsSchema old (dropColumn name) := by
  obtain ⟨places,total,small⟩ := old.laid_iff.mp laid
  obtain ⟨field_index,found,unflagged,fields,ran,rfl⟩ := (dropColumn_iff wrapping _).mp changed
  have less := sizes_eraseIdx old.fields field_index
  have fits : 0+sizes (old.fields.eraseIdx field_index) < usizeLimit := by omega
  cases ran.symm.trans (relay_exact wrapping_exact _ 0 fits)
  have named : ∀ column, ((relaid 0 (old.fields.eraseIdx field_index)).map (·.name))[column]? =
      if column < field_index then columnName old column else columnName old (column+1) := by
    intro column
    rw [relaid_names,List.getElem?_map,List.getElem?_eraseIdx]
    split
    · rfl
    · rfl
  constructor
  · rintro ⟨_,_,key⟩ other same column member
    cases found.symm.trans same
    have kept := List.map_inj_left.mp key column member
    rw [columnName_names,named] at kept
    by_cases before : column < field_index
    · exact .inl before
    · rw [if_neg before] at kept
      exact .inr kept
  · intro keeps
    refine ⟨(TableDef.laid_iff _).mpr ⟨relaid_laid 0 _,?_,fits⟩,?_,?_⟩
    · dsimp only
      rw [relaid_sizes,Nat.zero_add]
    · exact (dropColumn_iff checked _).mpr ⟨field_index,found,unflagged,_,relay_exact checked_exact _ 0 fits,rfl⟩
    · refine List.map_inj_left.mpr fun column member => ?_
      change columnName _ column = columnName old column
      rw [columnName_names,named]
      rcases keeps field_index found column member with before | same
      · rw [if_pos before]
      · split
        · rfl
        · exact same

theorem modifyColumn_schema {name : String} {data_type : DataType} {size : UInt16} {default_value : Option Bytes}
    {constraints : FieldConstraint} (laid : old.Laid)
    (changed : (modifyColumn name data_type size default_value constraints).change wrapping old = some (.ok new)) :
    SchemaKept (modifyColumn name data_type size default_value constraints) old new ↔
      KeepsSchema old (modifyColumn name data_type size default_value constraints) := by
  obtain ⟨places,total,small⟩ := old.laid_iff.mp laid
  obtain ⟨field_index,found⟩ : ∃ field_index, findField old name = some field_index := by
    cases found : findField old name with
    | none => simp [change,found] at changed
    | some field_index => exact ⟨field_index,rfl⟩
  obtain ⟨front,field,back,split,rfl,own,before⟩ := findField_split found
  have first : old.fields.find? (fun field => decide (field.name = name)) = some field := by
    rw [split]
    refine List.find?_eq_some_iff_append.mpr ⟨decide_eq_true own,front,back,rfl,?_⟩
    intro each among
    simpa using before each among
  rw [split,laidFrom_append] at places
  rw [split,sizes_append,sizes_cons] at total
  obtain ⟨front_laid,here,back_laid⟩ := places
  have keeps_iff : KeepsSchema old (modifyColumn name data_type size default_value constraints) ↔
      field.size ≤ fieldSize data_type size ∧
        old.record_size+(fieldSize data_type size-field.size) < usizeLimit := by
    rw [KeepsSchema,first]
    constructor
    · exact fun keeps => keeps field rfl
    · rintro keeps _ same
      cases same
      exact keeps
  rw [keeps_iff]
  have names : ∀ later : List FieldDef, later.map (·.name) = back.map (·.name) →
      (front ++ newField field.name data_type size default_value constraints field.offset :: later).map (·.name) =
        old.fields.map (·.name) := by
    intro later same
    rw [split,List.map_append,List.map_append,List.map_cons,List.map_cons,same]
    rfl
  have key : ∀ later record_size, later.map (·.name) = back.map (·.name) →
      old.primary_key.map (columnName {old with
        fields:=front ++ newField field.name data_type size default_value constraints field.offset :: later
        record_size:=record_size}) =
      old.primary_key.map (expectedName old (modifyColumn name data_type size default_value constraints)) := by
    intro later record_size same
    refine List.map_inj_left.mpr fun column _ => ?_
    change columnName _ column = columnName old column
    rw [columnName_names,columnName_names]
    dsimp only
    rw [names later same]
  rcases (modifyColumn_iff wrapping data_type size default_value constraints found split).mp changed with
    ⟨same,rfl⟩ | ⟨differs,size_diff,later,record_size,sub,moved,sum,rfl⟩
  · refine ⟨fun _ => ⟨Nat.le_of_eq same.symm,by omega⟩,fun _ => ⟨(TableDef.laid_iff _).mpr ⟨?_,?_,small⟩,?_,?_⟩⟩
    · refine (laidFrom_append 0).mpr ⟨front_laid,here,?_⟩
      dsimp only [newField]
      rw [same]
      exact back_laid
    · rw [total,sizes_append,sizes_cons]
      dsimp only [newField]
      rw [same]
    · exact (modifyColumn_iff checked data_type size default_value constraints found split).mpr (.inl ⟨same,rfl⟩)
    · exact key back old.record_size rfl
  · constructor
    · rintro ⟨_,in_range,_⟩
      rcases (modifyColumn_iff checked data_type size default_value constraints found split).mp in_range with
        ⟨same,_⟩ | ⟨_,diff,_,_,difference,_,grown,_⟩
      · exact absurd same differs
      · simp only [checked,Option.ite_none_right_eq_some,Option.some.injEq] at difference grown
        obtain ⟨ordered,rfl⟩ := difference
        exact ⟨ordered,grown.1⟩
    · rintro ⟨ordered,fits⟩
      have difference : usizeSub (fieldSize data_type size) field.size = fieldSize data_type size-field.size :=
        usizeSub_of_le (by omega) ordered
      cases sub.symm.trans (congrArg some difference)
      have room : 0+sizes front+field.size+(fieldSize data_type size-field.size)+sizes back < usizeLimit := by omega
      cases moved.symm.trans (shift_exact wrapping_exact _ back _ back_laid room)
      cases sum.symm.trans (wrapping_exact _ _ fits)
      refine ⟨(TableDef.laid_iff _).mpr ⟨?_,?_,fits⟩,?_,?_⟩
      · refine (laidFrom_append 0).mpr ⟨front_laid,here,?_⟩
        have placed := shifted_laid (fieldSize data_type size-field.size) _ back_laid
        have start : 0+sizes front+field.size+(fieldSize data_type size-field.size) =
            0+sizes front+fieldSize data_type size := by omega
        rw [start] at placed
        exact placed
      · rw [sizes_append,sizes_cons,shifted_sizes,total]
        dsimp only [newField]
        omega
      · refine (modifyColumn_iff checked data_type size default_value constraints found split).mpr
          (.inr ⟨differs,_,_,_,if_pos ordered,shift_exact checked_exact _ back _ back_laid room,
            checked_exact _ _ fits,rfl⟩)
      · exact key _ _ (shifted_names _ _)

theorem renameColumn_schema {old_name new_name : String} (laid : old.Laid)
    (changed : (renameColumn old_name new_name).change wrapping old = some (.ok new)) :
    SchemaKept (renameColumn old_name new_name) old new := by
  obtain ⟨places,total,small⟩ := old.laid_iff.mp laid
  obtain ⟨fresh,field_index,found,rfl⟩ := (renameColumn_iff wrapping _ _).mp changed
  obtain ⟨front,field,back,split,rfl,own,_⟩ := findField_split found
  have modified : (old.fields.modify front.length fun field => {field with name:=new_name}) =
      front ++ {field with name:=new_name} :: back := by
    rw [split]
    exact modify_at front back field _
  have pairs : (old.fields.map fun field => (field.offset,field.size)) =
      (front ++ {field with name:=new_name} :: back).map fun field => (field.offset,field.size) := by
    rw [split,List.map_append,List.map_append,List.map_cons,List.map_cons]
  refine ⟨(TableDef.laid_iff _).mpr ⟨?_,?_,small⟩,?_,?_⟩
  · rw [modified]
    exact places.congr 0 pairs
  · rw [total,modified,split,sizes_append,sizes_append,sizes_cons,sizes_cons]
  · exact (renameColumn_iff checked _ _).mpr ⟨fresh,_,found,rfl⟩
  · refine List.map_inj_left.mpr fun column member => ?_
    rw [columnName,expectedName,found]
    dsimp only
    by_cases here : front.length = column
    · rw [if_pos (congrArg some here),← here,List.getElem?_modify_eq,split,
        List.getElem?_append_right (Nat.le_refl _),Nat.sub_self]
      rfl
    · rw [if_neg (fun same => here (Option.some.inj same)),List.getElem?_modify_ne _ _ here]
      rfl

theorem change_schema {operation : AlterTableOperation} (laid : old.Laid)
    (changed : operation.change wrapping old = some (.ok new)) :
    SchemaKept operation old new ↔ KeepsSchema old operation := by
  cases operation with
  | addColumn name data_type size default_value constraints => exact addColumn_schema laid changed
  | dropColumn name => exact dropColumn_schema laid changed
  | modifyColumn name data_type size default_value constraints => exact modifyColumn_schema laid changed
  | renameColumn old_name new_name => exact ⟨fun _ => trivial,fun _ => renameColumn_schema laid changed⟩

end Kept
end AlterTableOperation
end RemDb
