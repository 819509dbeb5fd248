import RemDb.Snapshot.Tables

namespace RemDb
open RemDb.Lib RemDb.Lib.Reader

-- A column as two definitions have it in common.
structure SameColumn (before after : FieldDef) : Prop where
  name : after.name = before.name
  data_type : after.data_type = before.data_type
  size : after.size = before.size
  offset : after.offset = before.offset
  primary_key : after.primary_key = before.primary_key
  not_null : after.not_null = before.not_null
  unique : after.unique = before.unique
  auto_increment : after.auto_increment = before.auto_increment

-- Two tables with the same definition, the same used slots and the same bytes
-- in them.
structure SameTable (before after : DbTable) : Prop where
  name : after.tdef.name = before.tdef.name
  fields : List.Forall₂ SameColumn before.tdef.fields after.tdef.fields
  record_size : after.tdef.record_size = before.tdef.record_size
  primary_key : after.tdef.primary_key = before.tdef.primary_key
  max_records : after.tdef.max_records = before.tdef.max_records
  used : ∀ slot, slot < before.tdef.max_records → after.table.used slot = before.table.used slot
  bytes : ∀ slot, slot < before.tdef.max_records → before.table.used slot = true →
    recordImage after.tdef.record_size (after.table.records slot) =
      recordImage before.tdef.record_size (before.table.records slot)

-- For every table id the same table, or none before and after.
def SameTables (before after : RemDbState σ) : Prop :=
  ∀ table_id, Option.Rel SameTable (before.table table_id) (after.table table_id)

-- The databases that snapshots are for: names and index lists whose length is
-- one byte, keys made of columns of the table, and slots that add up.
structure Saveable (db : RemDbState σ) : Prop where
  accounted : ∀ table_id entry, db.table table_id = some entry → entry.table.Accounted
  name : ∀ table_id entry, db.table table_id = some entry → (utf8 entry.tdef.name).length ≤ 255
  columns : ∀ table_id entry, db.table table_id = some entry → ∀ field ∈ entry.tdef.fields,
    (utf8 field.name).length ≤ 255
  secondary : ∀ table_id entry, db.table table_id = some entry → (entry.secondary_index.getD []).length ≤ 255
  keys : ∀ table_id entry, db.table table_id = some entry → ∀ pk_idx ∈ entry.tdef.primary_key,
    pk_idx < entry.tdef.fields.length

def DbTable.restoredSizes (entry : DbTable) : List Nat := {entry.tdef with record_size:=0}.memorySizes

def restoredSizes (tables : List (Option DbTable)) : List Nat :=
  tables.flatMap fun entry => (entry.map DbTable.restoredSizes).getD []

structure Flat (entry : DbTable) : Prop where
  record_size : entry.tdef.record_size = 0
  offset : ∀ field ∈ entry.tdef.fields, field.offset = 0

-- The counts and numbers of a table fit into the one and four bytes they have.
structure Narrow (entry : DbTable) : Prop where
  fields : entry.tdef.fields.length < 256
  size : ∀ field ∈ entry.tdef.fields, field.size < 2^32
  keys : entry.tdef.primary_key.length < 256
  key : ∀ pk_idx ∈ entry.tdef.primary_key, pk_idx < 256
  records : entry.tdef.max_records < 2^32

structure Restorable (db target : RemDbState σ) : Prop where
  flat : ∀ table_id entry, db.table table_id = some entry → Flat entry
  narrow : ∀ table_id entry, db.table table_id = some entry → Narrow entry
  places : ∀ table_id entry, db.table table_id = some entry → table_id < 2^32
  count : db.tables.countP Option.isSome < 2^32
  granted : grantAll target.allocator (restoredSizes db.tables) ≠ none

theorem Narrow.fits {entry : DbTable} (narrow : Narrow entry) (name : (utf8 entry.tdef.name).length ≤ 255)
    (columns : ∀ field ∈ entry.tdef.fields, (utf8 field.name).length ≤ 255)
    (secondary : (entry.secondary_index.getD []).length ≤ 255) : entry.description.Fits :=
  ⟨Nat.lt_succ_of_le name,narrow.fields,
    fun field member => ⟨Nat.lt_succ_of_le (columns field member),narrow.size field member⟩,narrow.keys,narrow.key,
    Nat.lt_succ_of_le secondary,narrow.records⟩

-- What a restored table is, made from the description and the records.
structure RestoredFrom (table_id : Nat) (source made : DbTable) : Prop where
  tdef : made.tdef = source.description.restored.tableDef table_id
  used : ∀ slot, slot < source.tdef.max_records → made.table.used slot = source.table.used slot

theorem forall₂_restored (fields : List FieldDef) (flat : ∀ field ∈ fields, field.offset = 0) :
    List.Forall₂ SameColumn fields (fields.map FieldDef.restored) := by
  induction fields with
  | nil => exact .nil
  | cons field rest ih =>
    refine .cons ⟨rfl,rfl,rfl,?_,rfl,rfl,rfl,rfl⟩ (ih fun other member => flat other (List.mem_cons_of_mem _ member))
    exact (flat field List.mem_cons_self).symm

theorem RestoredFrom.same {source made : DbTable} (restored : RestoredFrom table_id source made) (flat : Flat source) :
    SameTable source made := by
  obtain ⟨defined,used⟩ := restored
  refine ⟨?_,?_,?_,?_,?_,used,?_⟩
  · rw [defined]
    rfl
  · rw [defined]
    exact forall₂_restored source.tdef.fields flat.offset
  · rw [defined,flat.record_size]
    rfl
  · rw [defined]
    rfl
  · rw [defined]
    rfl
  · intro slot _ _
    have nothing (data : Bytes) : recordImage 0 data = [] := List.eq_nil_of_length_eq_zero (recordImage_length 0 data)
    rw [defined,flat.record_size]
    exact (nothing _).trans (nothing _).symm

theorem grantAll_append (first second : List Nat) (allocator : Option StaticAllocator) :
    grantAll allocator (first ++ second) = (grantAll allocator first).bind (grantAll · second) := by
  induction first generalizing allocator with
  | nil => rfl
  | cons size rest ih =>
    simp only [List.cons_append,grantAll]
    split
    · exact ih _
    · rfl

theorem keyPanics_false {tdef : TableDef} (keys : ∀ pk_idx ∈ tdef.primary_key, pk_idx < tdef.fields.length) :
    tdef.keyPanics = false := by
  unfold TableDef.keyPanics
  split
  · rename_i column single
    have inside := keys column (by rw [single]; exact List.mem_singleton_self _)
    exact decide_eq_false (by omega)
  · rfl

theorem restored_savedSize (source : DbTable) (table_id : Nat) :
    (source.description.restored.tableDef table_id).savedSize = source.tdef.savedSize := by
  change ((source.tdef.fields.map FieldDef.restored).map (·.size)).sum % usizeLimit = _
  rw [List.map_map]
  rfl

theorem restored_keys {source : DbTable} (table_id : Nat)
    (keys : ∀ pk_idx ∈ source.tdef.primary_key, pk_idx < source.tdef.fields.length) :
    (source.description.restored.tableDef table_id).keyPanics = false := by
  apply keyPanics_false
  intro pk_idx member
  change pk_idx < (source.tdef.fields.map FieldDef.restored).length
  rw [List.length_map]
  exact keys pk_idx member

theorem restoreTable_fresh (memory : Nat → Memory) (beyond rest : Bytes) {db : RemDbState σ} {source : DbTable}
    (fits : source.description.Fits) (accounted : source.table.Accounted) (small : table_id < 2^32)
    (keys : ∀ pk_idx ∈ source.tdef.primary_key, pk_idx < source.tdef.fields.length) (free : db.table table_id = none) :
    (∃ fault state, (restoreTable 0 memory).run ⟨source.snapshotBytes table_id beyond ++ rest,db⟩ = .error fault state ∧
      grantAll db.allocator source.restoredSizes = none) ∨
    ∃ after made, (restoreTable 0 memory).run ⟨source.snapshotBytes table_id beyond ++ rest,db⟩ = .ok () ⟨rest,after⟩ ∧
      grantAll db.allocator source.restoredSizes = some after.allocator ∧ RestoredFrom table_id source made ∧
      ∀ other, after.table other = if other = table_id then some made else db.table other := by
  have records := savedRecords_inside beyond fits.records
  have counted : Reads (le 4) (toLE 4 (source.savedRecords beyond).length) (source.savedRecords beyond).length :=
    reads_le (savedRecords_count beyond fits accounted)
  have sizes : (source.description.restored.tableDef table_id).memorySizes = source.restoredSizes := rfl
  have positive : source.description.restored.max_records ≠ 0 := Nat.ne_of_gt accounted.positive
  rw [restoreTable_saved memory beyond rest db fits accounted small,EStateM.run_bind]
  rcases provideTable_run (memory table_id) source.description.restored
      (toLE 4 (source.savedRecords beyond).length ++ ((source.savedRecords beyond).flatMap recordEntry ++ rest))
      ((widen_table db table_id table_id).trans free) with
    ⟨fault,after,ran,refused⟩ | ⟨entry,pool,ran,_,granted,defined⟩
  · left
    rw [ran]
    rw [sizes,widen_allocator] at refused
    exact ⟨fault,after,rfl,refused.resolve_left positive⟩
  · right
    rw [ran]
    dsimp only
    rw [read_bind _ counted]
    rw [sizes,widen_allocator] at granted
    have inside : table_id < {db.widen table_id with allocator:=pool}.tables.length := widen_inside db table_id
    have stands : ({db.widen table_id with allocator:=pool}.place table_id entry).table table_id = some entry := by
      rw [table_place inside,if_pos rfl]
    have inside' : table_id < ({db.widen table_id with allocator:=pool}.place table_id entry).tables.length :=
      table_inside stands
    have read := restoreInto_full stands (source.savedRecords beyond) rest
      (fun each member => by
        rw [defined]
        exact ⟨(records each member).1,(records each member).2.1⟩)
      (fun each member => by
        rw [defined,restored_savedSize]
        exact (records each member).2.2)
    have key : entry.tdef.keyPanics = false := by
      rw [defined]
      exact restored_keys table_id keys
    rcases read with ⟨read,_⟩ | ⟨_,missing,_⟩
    · refine ⟨_,{entry with table:=entry.table.reset.restoreAll (source.savedRecords beyond)},read,granted,⟨?_,?_⟩,?_⟩
      · exact (MemoryTable.restoreAll_tdef _ _).trans defined
      · intro slot within
        apply restored_used beyond entry.table _ within
        change entry.tdef.max_records = _
        rw [defined]
        rfl
      · intro other
        rw [table_place inside',table_place inside]
        by_cases here : other = table_id
        · rw [if_pos here,if_pos here]
        · rw [if_neg here,if_neg here,if_neg here]
          exact widen_table db table_id other
    · rw [key] at missing
      cases missing

-- What a table of a snapshot has to be to be read back.
structure Readable (table_id : Nat) (source : DbTable) : Prop where
  place : table_id < 2^32
  fits : source.description.Fits
  accounted : source.table.Accounted
  keys : ∀ pk_idx ∈ source.tdef.primary_key, pk_idx < source.tdef.fields.length

-- The tables from a place on, restored where there are none. By induction on
-- the vector that was saved; the places before are done and stay.
theorem restoreTables_fresh (memory : Nat → Memory) (beyond : Nat → Bytes) (rest : Bytes)
    (tables : List (Option DbTable)) : ∀ (place : Nat) (db : RemDbState σ),
    (∀ index source, tables[index]? = some (some source) → Readable (place+index) source) →
    (∀ other, place ≤ other → db.table other = none) →
    (∃ fault state, (restoreTables 0 memory (tables.countP Option.isSome)).run ⟨savedBytes beyond place tables ++ rest,db⟩ =
        .error fault state ∧ grantAll db.allocator (restoredSizes tables) = none) ∨
    ∃ after, (restoreTables 0 memory (tables.countP Option.isSome)).run ⟨savedBytes beyond place tables ++ rest,db⟩ =
        .ok () ⟨rest,after⟩ ∧ grantAll db.allocator (restoredSizes tables) = some after.allocator ∧
      (∀ other, other < place → after.table other = db.table other) ∧
      ∀ index, Option.Rel (RestoredFrom (place+index)) (tables[index]?).join (after.table (place+index)) := by
  induction tables with
  | nil =>
    intro place db _ free
    refine .inr ⟨db,rfl,rfl,fun _ _ => rfl,?_⟩
    intro index
    rw [free _ (Nat.le_add_right _ _)]
    exact .none
  | cons first tables ih =>
    intro place db ready free
    have ready' : ∀ index source, tables[index]? = some (some source) → Readable (place+1+index) source := by
      intro index source found
      have later := ready (index+1) source found
      rw [← Nat.add_assoc,Nat.add_right_comm] at later
      exact later
    have shift (index : Nat) : place+(index+1) = place+1+index := by omega
    cases first with
    | none =>
      rw [List.countP_cons_of_neg (by simp)]
      rcases ih (place+1) db ready' (fun other past => free other (by omega)) with
        failed | ⟨after,ran,granted,before,restored⟩
      · exact .inl failed
      · refine .inr ⟨after,ran,granted,fun other past => before other (by omega),?_⟩
        intro index
        cases index with
        | zero =>
          rw [Nat.add_zero,before place (Nat.lt_succ_self _),free place (Nat.le_refl _)]
          exact .none
        | succ index =>
          rw [shift]
          exact restored index
    | some source =>
      obtain ⟨small,fits,accounted,keys⟩ := ready 0 source rfl
      rw [Nat.add_zero] at small
      rw [List.countP_cons_of_pos (by rfl),restoreTables,EStateM.run_bind,savedBytes,List.append_assoc]
      have sizes : restoredSizes (some source :: tables) = source.restoredSizes ++ restoredSizes tables := rfl
      rw [sizes,grantAll_append]
      rcases restoreTable_fresh memory (beyond place) (savedBytes beyond (place+1) tables ++ rest) fits accounted small
          keys (free place (Nat.le_refl _)) with ⟨fault,state,ran,refused⟩ | ⟨middle,made,ran,granted,restored,others⟩
      · left
        rw [ran,refused]
        exact ⟨fault,state,rfl,rfl⟩
      · rw [ran,granted,Option.bind_some]
        have still : ∀ other, place+1 ≤ other → middle.table other = none := by
          intro other past
          rw [others,if_neg (by omega)]
          exact free other (by omega)
        rcases ih (place+1) middle ready' still with failed | ⟨after,ran,granted,before,later⟩
        · exact .inl failed
        · refine .inr ⟨after,ran,granted,?_,?_⟩
          · intro other past
            rw [before other (by omega),others,if_neg (by omega)]
          · intro index
            cases index with
            | zero =>
              rw [Nat.add_zero,before place (Nat.lt_succ_self _),others,if_pos rfl]
              exact .some restored
            | succ index =>
              rw [shift]
              exact later index

theorem Flat.of_tdef {entry other : DbTable} (flat : Flat entry) (same : other.tdef = entry.tdef) : Flat other := by
  constructor
  all_goals rw [same]
  · exact flat.record_size
  · exact flat.offset

theorem Narrow.of_tdef {entry other : DbTable} (narrow : Narrow entry) (same : other.tdef = entry.tdef) :
    Narrow other := by
  constructor
  all_goals rw [same]
  · exact narrow.fields
  · exact narrow.size
  · exact narrow.keys
  · exact narrow.key
  · exact narrow.records

-- What every table is that a restore has made: without a layout, and with
-- numbers that were read from one and four bytes.
def AllRebuilt (state : Restoring σ) : Prop :=
  ∀ table_id entry, state.db.table table_id = some entry → table_id < 2^32 ∧ Flat entry ∧ Narrow entry

section Rebuilding
variable {σ : Type} {reader : Reader α}

theorem restoreRecords_tdef (count : Nat) (table : MemoryTable) (file : Bytes) :
    (restoreRecords count table file).2.1.tdef = table.tdef := by
  induction count generalizing table file with
  | zero => rfl
  | succ count ih =>
    unfold restoreRecords
    split
    · rfl
    · split
      · rfl
      · split
        · rfl
        · split
          · rfl
          · exact (ih _ _).trans MemoryTable.restoreRecord_tdef

theorem rebuilt_tables {state after : Restoring σ} (held : AllRebuilt state)
    (same : ∀ table_id, after.db.table table_id = state.db.table table_id) : AllRebuilt after := by
  intro table_id entry stands
  rw [same] at stands
  exact held table_id entry stands

theorem rebuilt_read {state : Restoring σ} {property : α → Prop} (held : AllRebuilt state)
    (yields : Yields reader least property) (next : α → RestoreAction σ β)
    (kept : ∀ value rest, property value → AllRebuilt (finalState ((next value).run {state with file:=rest}))) :
    AllRebuilt (finalState ((read reader >>= next).run state)) := by
  rw [EStateM.run_bind]
  cases found : reader state.file with
  | none =>
    rw [read_short found]
    exact rebuilt_tables held fun _ => rfl
  | some outcome =>
    obtain ⟨value,rest⟩ := outcome
    rw [read_ok found]
    exact kept value rest (yields _ _ _ found).1

theorem rebuilt_place {state : Restoring σ} {db : RemDbState σ} (held : AllRebuilt state) (small : table_id < 2^32) (flat : Flat entry)
    (narrow : Narrow entry) (inside : table_id < db.tables.length)
    (same : ∀ other, db.table other = state.db.table other) : AllRebuilt ⟨file,db.place table_id entry⟩ := by
  intro other found stands
  change (db.place table_id entry).table other = some found at stands
  rw [table_place inside] at stands
  by_cases here : other = table_id
  · rw [if_pos here] at stands
    cases stands
    exact ⟨here ▸ small,flat,narrow⟩
  · rw [if_neg here,same] at stands
    exact held other found stands

theorem rebuilt_provide (memory : Memory) (small : table_id < 2^32) {described : Description} (rebuilt : described.Rebuilt)
    (state : Restoring σ) (held : AllRebuilt state) (inside : table_id < state.db.tables.length) :
    AllRebuilt (finalState ((provideTable memory table_id described).run state)) := by
  cases stands : state.db.table table_id with
  | some entry =>
    rw [provideTable_held memory described state.file stands]
    exact held
  | none =>
    simp only [provideTable,EStateM.run_bind,EStateM.run_get,stands]
    rcases @makeTable_run σ state.db memory (described.tableDef table_id) described.secondary_index
        described.secondary_index_type with ⟨fault,after,ran,_⟩ | ⟨entry,pool,ran,_,_,defined,_⟩
    · rw [ran]
      cases fault with
      | diverged => exact rebuilt_tables held fun _ => rfl
      | error failure => exact rebuilt_tables held fun _ => rfl
    · rw [ran]
      have flat : Flat entry := by
        constructor
        · rw [defined]
          rfl
        · rw [defined]
          exact fun field member => (rebuilt.columns field member).2
      have narrow : Narrow entry := by
        constructor
        all_goals rw [defined]
        · exact rebuilt.fields
        · exact fun field member => (rebuilt.columns field member).1
        · exact rebuilt.keys
        · exact rebuilt.key
        · exact rebuilt.records
      exact rebuilt_place held small flat narrow inside fun _ => rfl

theorem rebuilt_restoreInto (table_id : Nat) (snapshot_type : UInt8) (record_count : Nat) :
    Keeps AllRebuilt (restoreInto table_id snapshot_type record_count : RestoreAction σ Unit) := by
  intro state held
  cases stands : state.db.table table_id with
  | none =>
    simp only [restoreInto,EStateM.run_bind,EStateM.run_get,stands]
    exact held
  | some entry =>
    obtain ⟨small,flat,narrow⟩ := held table_id entry stands
    have placed (cleared : MemoryTable) (same : cleared.tdef = entry.tdef) (file : Bytes) :
        AllRebuilt ⟨file,state.db.place table_id
          {entry with table:=(restoreRecords record_count cleared state.file).2.1}⟩ := by
      have defined := (restoreRecords_tdef record_count cleared state.file).trans same
      exact rebuilt_place held small (flat.of_tdef defined) (narrow.of_tdef defined) (table_inside stands) fun _ => rfl
    have cleared : (if snapshot_type = 0 then entry.table.reset else entry.table).tdef = entry.tdef := by
      split
      · rfl
      · rfl
    simp only [restoreInto,EStateM.run_bind,EStateM.run_get,stands]
    have final := placed _ cleared
      (restoreRecords record_count (if snapshot_type = 0 then entry.table.reset else entry.table) state.file).2.2
    generalize restoreRecords record_count (if snapshot_type = 0 then entry.table.reset else entry.table) state.file =
      outcome at final
    obtain ⟨answer,table,file⟩ := outcome
    cases answer with
    | ok _ => exact final
    | error fault => exact final

theorem rebuilt_restoreTable (snapshot_type : UInt8) (memory : Nat → Memory) :
    Keeps AllRebuilt (restoreTable snapshot_type memory : RestoreAction σ Unit) := by
  intro state held
  apply rebuilt_read held (yields_le 4)
  intro table_id file small
  have widened (file : Bytes) : AllRebuilt (⟨file,state.db.widen table_id⟩ : Restoring σ) :=
    rebuilt_tables held (widen_table state.db table_id)
  rw [EStateM.run_bind]
  change AllRebuilt (finalState ((read Description.fromSnapshot >>= _).run ⟨file,state.db.widen table_id⟩))
  apply rebuilt_read (widened file) Description.yields_fromSnapshot
  intro described rest rebuilt
  have provided := rebuilt_provide (memory table_id) small rebuilt ⟨rest,state.db.widen table_id⟩ (widened rest)
    (widen_inside state.db table_id)
  refine keeps_after provided fun _ reached held => ?_
  apply rebuilt_read held (yields_le 4)
  intro record_count rest _
  exact rebuilt_restoreInto table_id snapshot_type record_count _ (rebuilt_tables held fun _ => rfl)

theorem rebuilt_restoreTables (snapshot_type : UInt8) (memory : Nat → Memory) (count : Nat) :
    Keeps AllRebuilt (restoreTables snapshot_type memory count : RestoreAction σ Unit) := by
  induction count with
  | zero => exact keeps_pure _
  | succ count ih => exact keeps_bind (rebuilt_restoreTable snapshot_type memory) fun _ => ih

end Rebuilding

theorem SameTable.back {before after : DbTable} (same : SameTable before after) (flat : Flat after)
    (narrow : Narrow after) : Flat before ∧ Narrow before := by
  obtain ⟨_,fields,record_size,primary_key,max_records,_,_⟩ := same
  have column : ∀ field ∈ before.tdef.fields, field.offset = 0 ∧ field.size < 2^32 := by
    intro field member
    obtain ⟨index,inside,rfl⟩ := List.getElem_of_mem member
    obtain ⟨total,paired⟩ := List.forall₂_iff_get.mp fields
    have pair := paired index inside (total ▸ inside)
    have other := List.get_mem after.tdef.fields ⟨index,total ▸ inside⟩
    exact ⟨pair.offset.symm.trans (flat.offset _ other),pair.size ▸ narrow.size _ other⟩
  refine ⟨⟨record_size.symm.trans flat.record_size,fun field member => (column field member).1⟩,?_,
    fun field member => (column field member).2,?_,?_,?_⟩
  · exact fields.length_eq ▸ narrow.fields
  · exact primary_key ▸ narrow.keys
  · exact primary_key ▸ narrow.key
  · exact max_records ▸ narrow.records

theorem count_below {tables : List (Option DbTable)} (limit : Nat)
    (below : ∀ place entry, tables[place]? = some (some entry) → place < limit) :
    tables.countP Option.isSome ≤ limit := by
  have none_left : (tables.drop limit).countP Option.isSome = 0 := by
    rw [List.countP_eq_zero]
    intro entry member
    obtain ⟨index,inside,rfl⟩ := List.getElem_of_mem member
    intro stands
    obtain ⟨found,same⟩ := Option.isSome_iff_exists.mp stands
    have place := below (limit+index) found (by
      rw [← List.getElem?_drop,List.getElem?_eq_getElem inside,same])
    omega
  have taken : (tables.take limit).countP Option.isSome ≤ limit :=
    List.countP_le_length.trans (by rw [List.length_take]; omega)
  have split : (tables.take limit).countP Option.isSome+(tables.drop limit).countP Option.isSome =
      tables.countP Option.isSome := by
    rw [← List.countP_append,List.take_append_drop]
  omega

theorem relates_some {relation : α → β → Prop} {right : Option β} (related : Option.Rel relation (some value) right) :
    ∃ other, right = some other ∧ relation value other := by
  cases related with
  | some held => exact ⟨_,rfl,held⟩

section RoundTrip
variable {σ : Type} {db target : RemDbState σ}

theorem Saveable.readable (saveable : Saveable db) (stands : db.table table_id = some entry) (narrow : Narrow entry)
    (place : table_id < 2^32) : Readable table_id entry :=
  ⟨place,narrow.fits (saveable.name _ _ stands) (saveable.columns _ _ stands) (saveable.secondary _ _ stands),
    saveable.accounted _ _ stands,saveable.keys _ _ stands⟩

theorem table_of_getElem? (found : db.tables[place]? = some (some entry)) : db.table place = some entry := by
  rw [RemDbState.table,found]
  rfl

theorem restored_bounds (empty : ∀ table_id, target.table table_id = none) (memory : Nat → Memory) (count : Nat)
    (file : Bytes) (ran : (restoreTables 0 memory count).run ⟨file,target⟩ = .ok () state)
    (same : ∀ table_id, Option.Rel SameTable (db.table table_id) (state.db.table table_id)) (table_id : Nat)
    (entry : DbTable) (stands : db.table table_id = some entry) : table_id < 2^32 ∧ Flat entry ∧ Narrow entry := by
  have start : AllRebuilt (⟨file,target⟩ : Restoring σ) := by
    intro table_id entry stands
    rw [empty] at stands
    cases stands
  have rebuilt := rebuilt_restoreTables 0 memory count _ start
  rw [ran] at rebuilt
  have related := same table_id
  rw [stands] at related
  obtain ⟨made,present,alike⟩ := relates_some related
  obtain ⟨small,flat,narrow⟩ := rebuilt table_id made present
  exact ⟨small,alike.back flat narrow⟩

-- A full snapshot brings a database back into an empty one exactly where no
-- table has a layout to lose, the numbers fit, and the memory is there.
theorem restore_roundtrip_iff (beyond : Nat → Bytes) (memory : Nat → Memory) (room : Option Nat) (db target : RemDbState σ)
    (saveable : Saveable db) (empty : ∀ table_id, target.table table_id = none)
    (saved : (saveSnapshot beyond (some ⟨[],room⟩) db).1 = .ok ()) :
    (∃ after, restoreSnapshot memory (some (saveSnapshot beyond (some ⟨[],room⟩) db).2.1) target = (.ok (),after) ∧
      SameTables db after) ↔ Restorable db target := by
  have run := restoreTables_fresh memory beyond [] db.tables 0 target
  simp only [Nat.zero_add,List.append_nil] at run
  rw [saveSnapshot_ok saved,restoreSnapshot_header]
  constructor
  · rintro ⟨after,restored,same⟩
    cases ran : (restoreTables 0 memory (db.tables.countP Option.isSome % 2^32)).run
        (⟨savedBytes beyond 0 db.tables,target⟩ : Restoring σ) with
    | error fault state =>
      rw [ran] at restored
      cases restored
    | ok _ state =>
      rw [ran] at restored
      cases restored
      have bounds := restored_bounds empty memory _ _ ran same
      have few : db.tables.countP Option.isSome ≤ 2^32 :=
        count_below (2^32) fun place entry found => (bounds place entry (table_of_getElem? found)).1
      have count : db.tables.countP Option.isSome < 2^32 := by
        -- a count of 2^32 is written as zero, and then nothing is restored
        by_contra many
        have full : db.tables.countP Option.isSome = 2^32 := by omega
        rw [full,Nat.mod_self] at ran
        cases ran
        obtain ⟨present,member,stands⟩ := List.countP_pos_iff.mp (by rw [full]; decide)
        obtain ⟨entry,rfl⟩ := Option.isSome_iff_exists.mp stands
        obtain ⟨place,found⟩ := List.mem_iff_getElem?.mp member
        have related := same place
        rw [table_of_getElem? found] at related
        obtain ⟨made,there,_⟩ := relates_some related
        have absent := empty place
        rw [show target.table place = some made from there] at absent
        cases absent
      refine ⟨fun _ _ stands => (bounds _ _ stands).2.1,fun _ _ stands => (bounds _ _ stands).2.2,
        fun _ _ stands => (bounds _ _ stands).1,count,?_⟩
      rw [Nat.mod_eq_of_lt count] at ran
      rcases run (fun place source found => by
          obtain ⟨small,_,narrow⟩ := bounds place source (table_of_getElem? found)
          exact saveable.readable (table_of_getElem? found) narrow small) (fun other _ => empty other) with
        ⟨fault,state',ran',_⟩ | ⟨after,_,granted,_⟩
      · rw [ran] at ran'
        cases ran'
      · rw [granted]
        exact Option.some_ne_none _
  · intro restorable
    rw [Nat.mod_eq_of_lt restorable.count]
    rcases run (fun place source found =>
        saveable.readable (table_of_getElem? found) (restorable.narrow _ _ (table_of_getElem? found))
          (restorable.places _ _ (table_of_getElem? found))) (fun other _ => empty other) with
      ⟨_,_,_,refused⟩ | ⟨after,ran,_,_,restored⟩
    · exact absurd refused restorable.granted
    · rw [ran]
      refine ⟨_,rfl,?_⟩
      intro table_id
      have related := restored table_id
      change Option.Rel SameTable (db.tables[table_id]?).join (after.table table_id)
      cases stands : (db.tables[table_id]?).join with
      | none =>
        rw [stands] at related
        cases found : after.table table_id with
        | none => exact .none
        | some made =>
          rw [found] at related
          cases related
      | some entry =>
        rw [stands] at related
        obtain ⟨made,present,from_source⟩ := relates_some related
        rw [present]
        exact .some (from_source.same (restorable.flat table_id entry stands))

end RoundTrip

def freshTable (tdef : TableDef) : MemoryTable :=
  { tdef := tdef
    records := fun _ => []
    status := fun _ => ⟨.free,0,0,0,0⟩
    record_count := 0
    free_slots := (List.range tdef.max_records).map fun slot => tdef.max_records-1-slot
    low_power_mode := false
    low_power_max_records := none
    max_pk := 0 }

def oneTable (tdef : TableDef) : RemDbState Unit :=
  {emptyDb 1000 with tables:=[some ⟨freshTable tdef,none,.sortedArray,0,0,0,0⟩]}

theorem freshTable_accounted (tdef : TableDef) (positive : tdef.max_records ≠ 0) (small : tdef.max_records < usizeLimit) :
    (freshTable tdef).Accounted := by
  apply MemoryTable.new_accounted tdef (some fun _ => (⟨.free,0,0,0,0⟩,[])) _ small
  rw [MemoryTable.new,MemoryTable.newWithOptions,if_neg positive]
  rfl

theorem oneTable_only {tdef : TableDef} (stands : (oneTable tdef).table table_id = some entry) :
    table_id = 0 ∧ entry = ⟨freshTable tdef,none,.sortedArray,0,0,0,0⟩ := by
  cases table_id with
  | zero => exact ⟨rfl,(Option.some.inj stands).symm⟩
  | succ table_id => cases stands

theorem oneTable_saveable (tdef : TableDef) (accounted : (freshTable tdef).Accounted)
    (name : (utf8 tdef.name).length ≤ 255) (columns : ∀ field ∈ tdef.fields, (utf8 field.name).length ≤ 255)
    (keys : ∀ pk_idx ∈ tdef.primary_key, pk_idx < tdef.fields.length) : Saveable (oneTable tdef) := by
  constructor
  all_goals
    intro table_id entry stands
    obtain ⟨_,rfl⟩ := oneTable_only stands
  · exact accounted
  · exact name
  · exact columns
  · exact Nat.zero_le _
  · exact keys

def bareDef : TableDef := ⟨0,"t",[],[],0,1⟩

theorem restore_roundtrip_bare :
    ∃ after, restoreSnapshot (fun _ => zeroed.memory)
        (some (saveSnapshot (fun _ => []) (some ⟨[],none⟩) (oneTable bareDef)).2.1) (emptyDb 1000) = (.ok (),after) ∧
      SameTables (oneTable bareDef) after := by
  refine (restore_roundtrip_iff (fun _ => []) (fun _ => zeroed.memory) none (oneTable bareDef) (emptyDb 1000)
    (oneTable_saveable bareDef (freshTable_accounted bareDef (by decide) (by decide)) (by decide +kernel)
      (fun _ member => (nomatch member)) (fun _ member => (nomatch member)))
    (fun _ => rfl) (by decide +kernel)).mpr ?_
  have granted : (grantAll (emptyDb 1000).allocator (restoredSizes (oneTable bareDef).tables)).isSome = true := by
    decide +kernel
  refine ⟨?_,?_,?_,by decide,fun refused => by rw [refused] at granted; cases granted⟩
  all_goals
    intro table_id entry stands
    obtain ⟨rfl,rfl⟩ := oneTable_only stands
  · exact ⟨rfl,fun _ member => (nomatch member)⟩
  · exact ⟨by decide,fun _ member => (nomatch member),by decide,fun _ member => (nomatch member),by decide⟩
  · decide

def byteDef : TableDef := ⟨0,"t",[⟨"a",.uint8,1,none,0,true,true,true,false,none⟩],[0],1,1⟩

-- Whether a restore went well, and the record size of the first table after it.
def recordSizeAfter (outcome : Except RestoreFault Unit × RemDbState Unit) : Bool × Option Nat :=
  (outcome.1.isOk,(outcome.2.table 0).map (·.tdef.record_size))

-- A table of one byte a record comes back with records of no bytes.
theorem restore_loses_record_size :
    Saveable (oneTable byteDef) ∧ (∀ table_id, (emptyDb 1000).table table_id = none) ∧
    (saveSnapshot (fun _ => []) (some ⟨[],none⟩) (oneTable byteDef)).1 = .ok () ∧
    recordSizeAfter (restoreSnapshot (fun _ => zeroed.memory)
      (some (saveSnapshot (fun _ => []) (some ⟨[],none⟩) (oneTable byteDef)).2.1) (emptyDb 1000)) = (true,some 0) ∧
    ¬∃ after, restoreSnapshot (fun _ => zeroed.memory)
        (some (saveSnapshot (fun _ => []) (some ⟨[],none⟩) (oneTable byteDef)).2.1) (emptyDb 1000) = (.ok (),after) ∧
      SameTables (oneTable byteDef) after := by
  have lost : recordSizeAfter (restoreSnapshot (fun _ => zeroed.memory)
      (some (saveSnapshot (fun _ => []) (some ⟨[],none⟩) (oneTable byteDef)).2.1) (emptyDb 1000)) = (true,some 0) := by
    decide +kernel
  refine ⟨oneTable_saveable byteDef (freshTable_accounted byteDef (by decide) (by decide)) (by decide +kernel)
    (by decide +kernel) (by decide),fun _ => rfl,by decide +kernel,lost,?_⟩
  rintro ⟨after,restored,same⟩
  rw [restored] at lost
  obtain ⟨made,present,alike⟩ := relates_some (same 0)
  have size : made.tdef.record_size = 0 := by
    have read := (Prod.mk.inj lost).2
    rw [present] at read
    exact Option.some.inj read
  have kept := alike.record_size
  rw [size] at kept
  cases kept

end RemDb
