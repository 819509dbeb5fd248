import RemDb.Rbac.Rows
import RemDb.Ha.Convergence

namespace RemDb
open RemDb.Lib RemDb.Wal

namespace RbacManager

def Keepable (width : Nat) (text : String) : Prop := (0 : UInt8) ∉ utf8 text ∧ (utf8 text).length ≤ width

instance (width : Nat) (text : String) : Decidable (Keepable width text) := inferInstanceAs (Decidable (_ ∧ _))

theorem column_eq (keepable : Keepable width text) :
    column width text = utf8 text ++ List.replicate (width-(utf8 text).length) 0 := by
  rw [column,padTo,List.take_of_length_le keepable.2]

theorem column_read (keepable : Keepable width text) :
    String.fromUTF8? ⟨((column width text).takeWhile (· ≠ 0)).toArray⟩ = some text := by
  have front : (column width text).takeWhile (· ≠ 0) = utf8 text := by
    rw [column_eq keepable]
    rw [List.takeWhile_append_of_pos]
    · cases width-(utf8 text).length with
      | zero => simp
      | succ more => simp [List.replicate_succ]
    · intro byte among
      exact decide_eq_true fun zero => keepable.1 (zero ▸ among)
  rw [front,fromUTF8_utf8]

theorem column_inj (left : Keepable width first) (right : Keepable width second)
    (same : column width first = column width second) : first = second := by
  have read := column_read left
  rw [same,column_read right] at read
  exact (Option.some.inj read).symm

theorem utf8_nil (empty : utf8 text = []) : text = "" := by
  have read := fromUTF8_utf8 text
  rw [empty] at read
  have none_read := fromUTF8_utf8 ""
  have blank : utf8 "" = [] := rfl
  rw [blank,read] at none_read
  exact Option.some.inj none_read

theorem column_set (keepable : Keepable width text) (named : text ≠ "") : ¬ (column width text).all (· = 0) := by
  intro zeros
  cases bytes : utf8 text with
  | nil => exact named (utf8_nil bytes)
  | cons first rest =>
    rw [column_eq keepable,List.all_append,Bool.and_eq_true_iff] at zeros
    have zero := List.all_eq_true.mp zeros.1 first (by rw [bytes]; exact List.mem_cons_self)
    have among : first ∈ utf8 text := by rw [bytes]; exact List.mem_cons_self
    exact keepable.1 ((of_decide_eq_true zero) ▸ among)

end RbacManager

def Spells (fields : List FieldDef) (values : List String) (row : Bytes) : Prop :=
  ∀ (place : Nat) (value : String), values[place]? = some value → ∃ field : FieldDef, fields[place]? = some field ∧
    field.data_type = .varChar ∧ RbacManager.Keepable field.size value ∧
    field.read row field.size = RbacManager.column field.size value

theorem Spells.text {table : MemoryTable} (spelled : Spells table.tdef.fields values row)
    (listed : values[place]? = some value) : table.strOrEmpty place row = value := by
  obtain ⟨field,found,kind,keepable,read⟩ := spelled place value listed
  have whole : table.getStr place row = some value := by
    rw [MemoryTable.getStr,found]
    dsimp only
    rw [kind,if_pos (by decide),read,RbacManager.column_read keepable]
  rw [MemoryTable.strOrEmpty,whole]
  rfl

namespace Database

def named (db : Database) (name : String) : Option MemoryTable := (db.placeOf name).bind db.table

theorem placeOf_congr {left right : Database} (same : left.defs = right.defs) (name : String) :
    left.placeOf name = right.placeOf name := by
  have by_defs (db : Database) : db.placeOf name =
      db.defs.findIdx? fun tdef => tdef.any fun tdef => decide (tdef.name = name) := by
    rw [placeOf,defs,List.findIdx?_map]
    congr 1
    funext entry
    cases entry <;> rfl
  rw [by_defs,by_defs,same]

theorem named_place {db : Database} {entry : MemoryTable} (found : db.named name = some entry) :
    ∃ place, db.placeOf name = some place ∧ db.table place = some entry := by
  rw [named,Option.bind_eq_some_iff] at found
  exact found

theorem placeOf_name {db : Database} {entry : MemoryTable} (found : db.placeOf name = some place)
    (stands : db.table place = some entry) : entry.tdef.name = name := by
  rw [placeOf,List.findIdx?_eq_some_iff_getElem] at found
  obtain ⟨inside,here,_⟩ := found
  rw [Database.table,List.getElem?_eq_getElem inside,Option.join_some] at stands
  rw [stands] at here
  exact of_decide_eq_true here

section Replace
variable {db : Database} {place : Nat} {name : String} {old new : MemoryTable}

theorem named_setTable (found : db.placeOf name = some place) (stands : db.table place = some old)
    (kept : new.tdef = old.tdef) : (db.setTable place new).named name = some new := by
  rw [named,placeOf_congr (defs_setTable stands kept),found,Option.bind_some,table_set_same stands]

theorem named_setTable_other (found : db.placeOf name = some place) (stands : db.table place = some old)
    (kept : new.tdef = old.tdef) (different : other ≠ name) : (db.setTable place new).named other = db.named other := by
  rw [named,named,placeOf_congr (defs_setTable stands kept)]
  cases there : db.placeOf other with
  | none => rfl
  | some elsewhere =>
    rw [Option.bind_some,Option.bind_some]
    by_cases same : elsewhere = place
    · subst same
      exact absurd ((placeOf_name there stands).symm.trans (placeOf_name found stands)) different
    · exact table_set_other db same new

end Replace
end Database

namespace SystemTables

-- Strings make up the key, they alone may not be missing, and nothing else is
-- checked.
structure Shape.Plain (shape : Shape) : Prop where
  keyed : shape.primary_key ≠ []
  strings : ∀ field ∈ shape.primary_key.filterMap (shape.fields[·]?), field.data_type = .varChar
  only : ∀ field ∈ shape.fields, (field.unique && !field.primary_key) = false
  required : ∀ entry ∈ shape.fields.zipIdx, entry.1.not_null = true → entry.2 ∈ shape.primary_key
  unchecked : ∀ field ∈ shape.fields, field.data_type ≠ .float32 ∧ field.data_type ≠ .float64

theorem roles_plain : roles.Plain :=
  ⟨by decide +kernel,by decide +kernel,by decide +kernel,by decide +kernel,by decide +kernel⟩
theorem rolePermissions_plain : rolePermissions.Plain :=
  ⟨by decide +kernel,by decide +kernel,by decide +kernel,by decide +kernel,by decide +kernel⟩
theorem users_plain : users.Plain :=
  ⟨by decide +kernel,by decide +kernel,by decide +kernel,by decide +kernel,by decide +kernel⟩
theorem userRoles_plain : userRoles.Plain :=
  ⟨by decide +kernel,by decide +kernel,by decide +kernel,by decide +kernel,by decide +kernel⟩

def Shape.keyColumns (shape : Shape) (values : List String) : List Bytes :=
  shape.primary_key.filterMap fun place =>
    (shape.fields[place]?).bind fun field => (values[place]?).map (RbacManager.column field.size)

end SystemTables

-- One of the tables of access control: its shape, and what its rows may say.
structure Filed (shape : SystemTables.Shape) (facts : List String → Prop) (table : MemoryTable) : Prop where
  fields : table.tdef.fields = shape.fields
  primary_key : table.tdef.primary_key = shape.primary_key
  record_size : table.tdef.record_size = shape.record_size
  max_records : table.tdef.max_records = 512
  orderly : table.Orderly
  rows : ∀ row ∈ table.scanRef, ∃ values, facts values ∧ Spells shape.fields values row

-- What can be said: every key column has a name, and there are not too many.
structure Sayable (shape : SystemTables.Shape) (facts : List String → Prop) (keys : List (List Bytes)) : Prop where
  named : ∀ values, facts values → ∀ place ∈ shape.primary_key, ∃ value, values[place]? = some value ∧ value ≠ ""
  known : ∀ values, facts values → shape.keyColumns values ∈ keys
  room : keys.length ≤ 512

section Save
variable {shape : SystemTables.Shape} {facts : List String → Prop} {keys : List (List Bytes)} {table : MemoryTable}

theorem Filed.textKeyed (filed : Filed shape facts table) (plain : shape.Plain) : table.tdef.TextKeyed := by
  refine ⟨by rw [filed.primary_key]; exact plain.keyed,?_,by rw [filed.fields]; exact plain.only⟩
  rw [TableDef.keyFields,filed.primary_key,filed.fields]
  exact plain.strings

theorem Filed.keyBytes (filed : Filed shape facts table) (spelled : Spells shape.fields values row)
    (inside : ∀ place ∈ shape.primary_key, ∃ value : String, values[place]? = some value ∧ value ≠ "") :
    table.tdef.keyBytes row = shape.keyColumns values := by
  rw [TableDef.keyBytes,TableDef.keyFields,filed.primary_key,filed.fields,List.map_filterMap]
  refine List.filterMap_congr fun place among => ?_
  obtain ⟨value,listed,_⟩ := inside place among
  obtain ⟨field,found,_,_,read⟩ := spelled place value listed
  rw [found,listed,Option.bind_some,Option.map_some,Option.map_some,read]

theorem clean_row (plain : shape.Plain) (spelled : Spells shape.fields values row)
    (named : ∀ place ∈ shape.primary_key, ∃ value : String, values[place]? = some value ∧ value ≠ "") :
    shape.fields.findSome? (·.fault row) = none := by
  rw [List.findSome?_eq_none_iff]
  intro field among
  obtain ⟨place,inside,rfl⟩ := List.getElem_of_mem among
  have set : ¬ ((shape.fields[place]).not_null = true ∧ (shape.fields[place]).data_type.isText = true ∧
      ((shape.fields[place]).read row (shape.fields[place]).size).all (· = 0) = true) := by
    rintro ⟨required,_,zeros⟩
    have listed := plain.required (shape.fields[place],place) (List.mk_mem_zipIdx_iff_getElem?.mpr (by simp)) required
    obtain ⟨value,found,filled⟩ := named place listed
    obtain ⟨field,here,_,keepable,read⟩ := spelled place value found
    rw [List.getElem?_eq_getElem inside,Option.some.injEq] at here
    rw [here,read] at zeros
    exact RbacManager.column_set keepable filled zeros
  obtain ⟨single,double⟩ := plain.unchecked _ among
  unfold FieldDef.fault
  rw [if_neg set]
  split
  · exact absurd (by assumption) single
  · exact absurd (by assumption) double
  · rfl

-- Saving rows that say what may be said: the table stays as it should be, every
-- row has one with its key, and nothing else changes.
theorem saveRows_filed {state : RbacDb} (plain : shape.Plain) (sayable : Sayable shape facts keys)
    (found : state.db.named shape.name = some table) (filed : Filed shape facts table) (now : UInt64) (rows : List Bytes)
    (fit : ∀ row ∈ rows, row.length = shape.record_size ∧ ∃ values, facts values ∧ Spells shape.fields values row) :
    ∃ after, (RbacManager.saveRows now shape.name rows state).db.named shape.name = some after ∧
      Filed shape facts after ∧
      (∀ row ∈ rows, ∃ each ∈ after.scanRef, after.tdef.keyBytes each = after.tdef.keyBytes row) ∧
      (∀ other, other ≠ shape.name →
        (RbacManager.saveRows now shape.name rows state).db.named other = state.db.named other) ∧
      (RbacManager.saveRows now shape.name rows state).rbac_manager = state.rbac_manager := by
  obtain ⟨place,at_place,stands⟩ := Database.named_place found
  have known : ∀ old ∈ table.scanRef, table.tdef.keyBytes old ∈ keys := by
    intro old among
    obtain ⟨values,said,spelled⟩ := filed.rows old among
    rw [filed.keyBytes spelled (sayable.named values said)]
    exact sayable.known values said
  have acceptable : ∀ row ∈ rows, row.length = table.tdef.record_size ∧
      table.tdef.fields.findSome? (·.fault row) = none ∧ table.tdef.keyBytes row ∈ keys := by
    intro row among
    obtain ⟨sized,values,said,spelled⟩ := fit row among
    have named := sayable.named values said
    refine ⟨sized.trans filed.record_size.symm,by rw [filed.fields]; exact clean_row plain spelled named,?_⟩
    rw [filed.keyBytes spelled named]
    exact sayable.known values said
  obtain ⟨orderly,tdef,_,grown,placed⟩ := MemoryTable.insertRows_effect now rows state.tx filed.orderly
    (filed.textKeyed plain) (by rw [filed.max_records]; exact sayable.room) known acceptable
  have saved : RbacManager.saveRows now shape.name rows state =
      {state with
        db:=state.db.setTable place (RbacManager.insertRows now rows table state.tx).1
        tx:=(RbacManager.insertRows now rows table state.tx).2} := by
    rw [RbacManager.saveRows,at_place]
    dsimp only
    rw [stands]
  rw [saved]
  refine ⟨_,Database.named_setTable at_place stands tdef,⟨?_,?_,?_,?_,orderly,?_⟩,?_,?_,rfl⟩
  · rw [tdef]; exact filed.fields
  · rw [tdef]; exact filed.primary_key
  · rw [tdef]; exact filed.record_size
  · rw [tdef]; exact filed.max_records
  · intro row among
    rcases grown row among with before | added
    · exact filed.rows row before
    · exact (fit row added).2
  · rw [tdef]; exact placed
  · intro other different
    exact Database.named_setTable_other at_place stands tdef different

end Save
end RemDb
