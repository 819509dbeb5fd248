import Mathlib.Data.Set.Function
import RemDb.Ddl.Columns

namespace RemDb
open RemDb.Lib

namespace AlterTableOperation

-- Only a changed column may change its size.
def modifies : AlterTableOperation → Bool
  | modifyColumn _ _ _ _ _ => true
  | _ => false

def survivors (old : TableDef) : AlterTableOperation → List FieldDef
  | dropColumn name => old.fields.eraseIdx ((findField old name).getD old.fields.length)
  | _ => old.fields

def additions (old : TableDef) : AlterTableOperation → List FieldDef
  | addColumn name data_type size default_value constraints =>
    [newField name data_type size default_value constraints old.record_size]
  | _ => []

def columns (old : TableDef) (operation : AlterTableOperation) : List FieldDef :=
  let kept := relaid 0 (operation.survivors old)
  match operation with
  | renameColumn old_name new_name =>
    kept.modify ((findField old old_name).getD old.fields.length) fun field => {field with name:=new_name}
  | _ => kept ++ operation.additions old

def reshaped (old : TableDef) (operation : AlterTableOperation) : TableDef :=
  {old with
    fields:=operation.columns old
    record_size:=sizes (operation.columns old)}

-- The row as it is to be: what stays, and the default of what is new.
def expectedRow (old : TableDef) (operation : AlterTableOperation) (row : Bytes) : Bytes :=
  ((operation.survivors old).map (·.column row)).flatten ++ ((operation.additions old).map (·.filled)).flatten

-- Surviving columns have their bytes, new ones their default or zeros.
structure RowKept (operation : AlterTableOperation) (old new : TableDef) (before after : Bytes) : Prop where
  surviving : ∀ (number : Nat) (source target : FieldDef), (operation.survivors old)[number]? = some source →
    new.fields[number]? = some target → target.column after = source.column before
  added : ∀ (number : Nat) (target : FieldDef), (operation.survivors old).length ≤ number →
    new.fields[number]? = some target → target.column after = target.defaultBytes ∨ Blank (target.column after)

-- A migrated text gets the first bytes of its default only.
def DefaultFits (data_type : DataType) (default_value : Option Bytes) : Prop :=
  data_type = .text → ∀ value, default_value = some value →
    Blank ((value.take TextStorage.SIZE).drop MAX_STRING_LEN) ∨ Blank (value.take MAX_STRING_LEN)

def RowFits (old : TableDef) (row : Bytes) : AlterTableOperation → Prop
  | addColumn _ data_type _ default_value _ => NamesFit old.fields row ∧ DefaultFits data_type default_value
  | dropColumn name => NamesFit ((dropColumn name).survivors old) row
  | _ => True

section Shape
variable {old new : TableDef} {operation : AlterTableOperation}

theorem relaid_of_laid (start : Nat) {fields : List FieldDef} (laid : LaidFrom start fields) :
    relaid start fields = fields := by
  induction fields generalizing start with
  | nil => rfl
  | cons field rest ih =>
    rw [relaid,ih _ laid.2,← laid.1]

theorem modify_pairs (fields : List FieldDef) (number : Nat) (name : String) :
    ((fields.modify number fun field => {field with name:=name}).map fun field => (field.offset,field.size)) =
      fields.map fun field => (field.offset,field.size) := by
  induction fields generalizing number with
  | nil => cases number <;> rfl
  | cons field rest ih =>
    cases number with
    | zero => rfl
    | succ number => rw [List.modify_succ_cons,List.map_cons,List.map_cons,ih]

theorem sizes_pairs (fields : List FieldDef) :
    sizes fields = ((fields.map fun field => (field.offset,field.size)).map (·.2)).sum := by
  simp [sizes,Function.comp_def]

theorem columns_addColumn {name : String} {data_type : DataType} {size : UInt16} {default_value : Option Bytes}
    {constraints : FieldConstraint} (places : LaidFrom 0 old.fields) :
    (addColumn name data_type size default_value constraints).columns old =
      old.fields ++ [newField name data_type size default_value constraints old.record_size] := by
  change relaid 0 old.fields ++ _ = _
  rw [relaid_of_laid 0 places]
  rfl

theorem survivors_dropColumn {name : String} {field_index : Nat} (found : findField old name = some field_index) :
    (dropColumn name).survivors old = old.fields.eraseIdx field_index := by
  change old.fields.eraseIdx ((findField old name).getD _) = _
  rw [found]
  rfl

theorem columns_dropColumn (name : String) :
    (dropColumn name).columns old = relaid 0 ((dropColumn name).survivors old) := List.append_nil _

theorem columns_renameColumn {old_name new_name : String} {field_index : Nat} (places : LaidFrom 0 old.fields)
    (found : findField old old_name = some field_index) : (renameColumn old_name new_name).columns old =
      old.fields.modify field_index fun field => {field with name:=new_name} := by
  change (relaid 0 old.fields).modify ((findField old old_name).getD _) _ = _
  rw [relaid_of_laid 0 places,found]
  rfl

theorem columns_laid (laid : old.Laid) (operation : AlterTableOperation) : LaidFrom 0 (operation.columns old) := by
  obtain ⟨places,total,_⟩ := old.laid_iff.mp laid
  cases operation with
  | addColumn name data_type size default_value constraints =>
    rw [columns_addColumn places]
    refine (laidFrom_append 0).mpr ⟨places,?_,trivial⟩
    rw [Nat.zero_add,← total]
    rfl
  | dropColumn name =>
    rw [columns_dropColumn]
    exact relaid_laid 0 _
  | modifyColumn name data_type size default_value constraints =>
    change LaidFrom 0 (relaid 0 _ ++ [])
    rw [List.append_nil]
    exact relaid_laid 0 _
  | renameColumn old_name new_name =>
    exact (relaid_laid 0 old.fields).congr 0 (modify_pairs _ _ _).symm

theorem change_reshaped (laid : old.Laid) (plain : operation.modifies = false)
    (room : old.record_size+sizes (operation.additions old) < usizeLimit)
    (changed : operation.change wrapping old = some (.ok new)) : new = operation.reshaped old := by
  obtain ⟨places,total,small⟩ := old.laid_iff.mp laid
  cases operation with
  | addColumn name data_type size default_value constraints =>
    obtain ⟨_,record_size,sum,rfl⟩ := (addColumn_iff wrapping _ _ _ _ _).mp changed
    have extent : sizes [newField name data_type size default_value constraints old.record_size] =
        fieldSize data_type size := by simp [sizes,newField]
    rw [additions,extent] at room
    cases sum.symm.trans (wrapping_exact _ _ room)
    rw [reshaped,columns_addColumn places,sizes_append,extent,← total]
  | dropColumn name =>
    obtain ⟨field_index,found,_,relayed,ran,rfl⟩ := (dropColumn_iff wrapping _).mp changed
    have less := sizes_eraseIdx old.fields field_index
    cases ran.symm.trans (relay_exact wrapping_exact _ 0 (by omega))
    rw [reshaped,columns_dropColumn,survivors_dropColumn found,relaid_sizes,Nat.zero_add]
  | modifyColumn name data_type size default_value constraints => cases plain
  | renameColumn old_name new_name =>
    obtain ⟨_,field_index,found,rfl⟩ := (renameColumn_iff wrapping _ _).mp changed
    rw [reshaped,columns_renameColumn places found]
    congr 1
    rw [sizes_pairs,modify_pairs,← sizes_pairs,← total]

theorem addColumn_placement {name : String} {data_type : DataType} {size : UInt16} {default_value : Option Bytes}
    {constraints : FieldConstraint} (laid : old.Laid) :
    Placement old.fields old.fields ((addColumn name data_type size default_value constraints).columns old) := by
  refine ⟨columns_laid laid _,?_,?_⟩
  · intro number source present
    rw [columns_addColumn (old.laid_iff.mp laid).1,
      List.getElem?_append_left (List.getElem?_eq_some_iff.mp present).1]
    exact ⟨source,present,rfl,rfl⟩
  · intro front source back split first
    refine ⟨[],?_⟩
    rw [split,List.filter_append,List.filter_eq_nil_iff.mpr (fun each member => by simpa using first each member),
      List.filter_cons_of_pos (by simp)]

theorem relaid_getElem? (start : Nat) {fields : List FieldDef} {number : Nat} {source : FieldDef}
    (present : fields[number]? = some source) :
    ∃ offset, (relaid start fields)[number]? = some {source with offset:=offset} := by
  induction fields generalizing start number with
  | nil => cases present
  | cons field rest ih =>
    cases number with
    | zero =>
      cases present
      exact ⟨start,rfl⟩
    | succ number => exact ih _ present

theorem dropColumn_placement {name : String} {field_index : Nat} (laid : old.Laid)
    (found : findField old name = some field_index) :
    Placement old.fields ((dropColumn name).survivors old) ((dropColumn name).columns old) := by
  refine ⟨columns_laid laid _,?_,?_⟩
  · intro number source present
    obtain ⟨offset,placed⟩ := relaid_getElem? 0 present
    rw [columns_dropColumn]
    exact ⟨_,placed,rfl,rfl⟩
  · obtain ⟨before,gone,behind,parts,rfl,named,absent⟩ := findField_split found
    have remaining : (dropColumn name).survivors old = before ++ behind := by
      rw [survivors_dropColumn found,parts,List.eraseIdx_append_of_length_le (Nat.le_refl _),Nat.sub_self]
      rfl
    intro front source back split first
    rw [remaining] at split
    rw [parts]
    have none_of (list : List FieldDef) (apart : ∀ each ∈ list, each.name ≠ source.name) :
        (list.filter fun each => decide (each.name = source.name)) = [] :=
      List.filter_eq_nil_iff.mpr fun each member => by simpa using apart each member
    have own (list : List FieldDef) : ((source :: list).filter fun each => decide (each.name = source.name)) =
        source :: list.filter fun each => decide (each.name = source.name) := List.filter_cons_of_pos (by simp)
    have apart (list : List FieldDef) : gone :: list = [gone] ++ list := rfl
    rcases List.append_eq_append_iff.mp split with ⟨middle,rfl,rfl⟩ | ⟨middle,rfl,rest⟩
    · -- the column lies behind the one that goes
      refine ⟨[gone].filter fun each => decide (each.name = source.name),?_⟩
      have first_before := none_of before fun each member => first each (List.mem_append_left _ member)
      have first_middle := none_of middle fun each member => first each (List.mem_append_right _ member)
      rw [apart,List.filter_append,List.filter_append,List.filter_append,first_before,first_middle,own,
        List.nil_append,List.nil_append]
    · cases middle with
      | nil =>
        cases rest
        refine ⟨[gone].filter fun each => decide (each.name = source.name),?_⟩
        rw [List.append_nil,List.filter_append,none_of front first,apart,List.filter_append,own,List.nil_append]
      | cons head middle =>
        obtain ⟨rfl,behind_eq⟩ := List.cons.inj rest
        change back = middle ++ behind at behind_eq
        have other : ¬gone.name = source.name := by
          rw [named]
          exact fun same => absent source (by simp) same.symm
        refine ⟨[],?_⟩
        rw [behind_eq,List.append_assoc,List.filter_append,none_of front first,List.cons_append,own,List.filter_append,
          List.filter_append,List.filter_cons_of_neg (by simpa using other)]

end Shape

section Fill
variable {old : TableDef} {name : String} {data_type : DataType} {size : UInt16} {default_value : Option Bytes}
  {constraints : FieldConstraint} {offset : Nat}

theorem defaultWidth_le : (newField name data_type size default_value constraints offset).defaultWidth ≤
    fieldSize data_type size := by
  cases data_type <;> simp [FieldDef.defaultWidth,newField,fieldSize,DataType.size]

@[simp] theorem filled_length (field : FieldDef) : field.filled.length = field.size := by
  rw [FieldDef.filled]
  split
  · exact padTo_length _ _
  · exact List.length_replicate

theorem overlay_zeros (count : Nat) (bytes : Bytes) :
    overlay (List.replicate count 0) bytes = padTo count bytes := by
  rw [overlay,padTo,List.length_replicate,List.drop_replicate]

theorem fillDefault_column {record : Bytes} {field : FieldDef} (inside : field.offset+field.size ≤ record.length)
    (narrow : field.defaultWidth ≤ field.size) (zeros : field.column record = List.replicate field.size 0) :
    field.column (fillDefault record field) = field.filled ∧ (fillDefault record field).length = record.length := by
  rw [fillDefault,FieldDef.filled]
  cases field.default_value with
  | none => exact ⟨zeros,rfl⟩
  | some value =>
    dsimp only
    have whole : (padTo field.defaultWidth value).length = field.defaultWidth := padTo_length _ _
    have part : padTo field.defaultWidth value = (padTo field.defaultWidth value).take field.size :=
      (List.take_of_length_le (by omega)).symm
    constructor
    · have written := readAt_writeAt_overlay record (padTo field.defaultWidth value) field.offset field.size inside
      rw [← part] at written
      rw [FieldDef.column] at zeros ⊢
      rw [written,zeros,overlay_zeros]
    · rw [writeAt_length,whole]
      omega

theorem fillDefault_other {record : Bytes} {field other : FieldDef}
    (before : other.offset+other.size ≤ field.offset) (inside : field.offset ≤ record.length) :
    other.column (fillDefault record field) = other.column record := by
  rw [fillDefault]
  split
  · refine readAt_writeAt_frame _ _ _ _ _ (by omega) (.inl before)
  · rfl

theorem fill_known (old : TableDef) (fields : List FieldDef) (known : ∀ field ∈ fields, old.hasField field.name = true)
    (record : Bytes) : (fields.foldl (fun record new_field =>
      if old.hasField new_field.name then record else fillDefault record new_field) record) = record := by
  induction fields generalizing record with
  | nil => rfl
  | cons field rest ih =>
    rw [List.foldl_cons,if_pos (known field List.mem_cons_self)]
    exact ih (fun each member => known each (List.mem_cons_of_mem _ member)) record

theorem hasField_of_mem {field : FieldDef} (member : field ∈ old.fields) (same : field.name = name) :
    old.hasField name = true :=
  List.any_eq_true.mpr ⟨field,member,decide_eq_true same⟩

end Fill

-- What a record becomes when its columns are matched by their names.
structure Matched (old : TableDef) (operation : AlterTableOperation) : Prop where
  placement : Placement old.fields (operation.survivors old) (operation.columns old)
  length : ∀ row, (migrateRecord operation old (operation.reshaped old) row).length = sizes (operation.columns old)
  surviving : ∀ (row : Bytes) (number : Nat) (field : FieldDef), number < (operation.survivors old).length →
    (operation.columns old)[number]? = some field →
      field.column (migrateRecord operation old (operation.reshaped old) row) =
        field.column (Placement.copied (operation.columns old) old.fields row)
  added : ∀ (row : Bytes) (number : Nat) (field : FieldDef), (operation.survivors old).length ≤ number →
    (operation.columns old)[number]? = some field →
      field.column (migrateRecord operation old (operation.reshaped old) row) = field.filled

section Matched
variable {old : TableDef}

theorem addColumn_matched {name : String} {data_type : DataType} {size : UInt16} {default_value : Option Bytes}
    {constraints : FieldConstraint} (laid : old.Laid)
    (fresh : (old.fields.any fun field => decide (field.name = name)) = false) :
    Matched old (addColumn name data_type size default_value constraints) := by
  obtain ⟨places,total,_⟩ := old.laid_iff.mp laid
  have placement : Placement old.fields old.fields
      ((addColumn name data_type size default_value constraints).columns old) := addColumn_placement laid
  obtain ⟨added,added_eq⟩ : ∃ added, newField name data_type size default_value constraints old.record_size = added :=
    ⟨_,rfl⟩
  have shape : (addColumn name data_type size default_value constraints).columns old = old.fields ++ [added] :=
    (columns_addColumn places).trans (by rw [added_eq])
  have named : added.name = name := by rw [← added_eq]; rfl
  have start : added.offset = old.record_size := by rw [← added_eq]; rfl
  have narrow : added.defaultWidth ≤ added.size := by rw [← added_eq]; exact defaultWidth_le
  have last : ((addColumn name data_type size default_value constraints).columns old)[old.fields.length]? =
      some added := by
    rw [shape,List.getElem?_append_right (Nat.le_refl _),Nat.sub_self]
    rfl
  have same : ∀ row, migrateRecord (addColumn name data_type size default_value constraints) old
      ((addColumn name data_type size default_value constraints).reshaped old) row = fillDefault (Placement.copied
        ((addColumn name data_type size default_value constraints).columns old) old.fields row) added := by
    intro row
    change ((addColumn name data_type size default_value constraints).columns old).foldl _ (Placement.copied
      ((addColumn name data_type size default_value constraints).columns old) old.fields row) = _
    rw [shape,List.foldl_append,fill_known old old.fields fun field member => hasField_of_mem member rfl]
    change (if old.hasField added.name then _ else _) = _
    rw [named,TableDef.hasField,fresh]
    rfl
  have inside := placement.laid.inside last
  have zeros : ∀ row, added.column (Placement.copied
      ((addColumn name data_type size default_value constraints).columns old) old.fields row) =
        List.replicate added.size 0 := by
    intro row
    have nothing : (old.fields.filter fun source => decide (source.name = added.name)) = [] := by
      rw [named]
      exact List.filter_eq_nil_iff.mpr fun field member => List.any_eq_false.mp fresh field member
    rw [Placement.copied,copyAll_column row old.fields placement.laid List.length_replicate last,nothing,List.map_nil,
      List.foldl_nil,ite_self,FieldDef.column,readAt,List.drop_replicate,List.take_replicate]
    congr 1
    omega
  refine ⟨placement,?_,?_,?_⟩
  · intro row
    have whole := placement.copied_length row
    rw [same,(fillDefault_column (by omega) narrow (zeros row)).2,whole]
  · intro row number field below present
    have apart := placement.laid.apart below present last
    have whole := placement.copied_length row
    rw [same]
    exact fillDefault_other apart (by omega)
  · intro row number field beyond present
    have within := (List.getElem?_eq_some_iff.mp present).1
    rw [shape,List.length_append,List.length_singleton] at within
    change old.fields.length ≤ number at beyond
    obtain rfl : number = old.fields.length := by omega
    cases last.symm.trans present
    have whole := placement.copied_length row
    rw [same]
    exact (fillDefault_column (by omega) narrow (zeros row)).1

theorem dropColumn_matched {name : String} {field_index : Nat} (laid : old.Laid)
    (found : findField old name = some field_index) : Matched old (dropColumn name) := by
  have placement := dropColumn_placement laid found
  have same : ∀ row, migrateRecord (dropColumn name) old ((dropColumn name).reshaped old) row =
      Placement.copied ((dropColumn name).columns old) old.fields row := by
    intro row
    refine fill_known old _ ?_ _
    intro field member
    change field ∈ (dropColumn name).columns old at member
    rw [columns_dropColumn] at member
    have named : field.name ∈ ((dropColumn name).survivors old).map (·.name) := by
      rw [← relaid_names 0]
      exact List.mem_map_of_mem member
    obtain ⟨source,among,same⟩ := List.mem_map.mp named
    rw [survivors_dropColumn found] at among
    exact hasField_of_mem (List.mem_of_mem_eraseIdx among) same
  refine ⟨placement,?_,?_,?_⟩
  · intro row
    rw [same]
    exact placement.copied_length row
  · intro row number field _ _
    rw [same]
  · intro row number field beyond present
    have inside := (List.getElem?_eq_some_iff.mp present).1
    have extent : ((dropColumn name).columns old).length = ((dropColumn name).survivors old).length := by
      have names := congrArg List.length (relaid_names 0 ((dropColumn name).survivors old))
      rw [List.length_map,List.length_map] at names
      rw [columns_dropColumn,names]
    omega

end Matched

section Places
variable {old : TableDef}

theorem copy_in_place (row : Bytes) (sources fields : List FieldDef) (start : Nat) (front : Bytes)
    (laid : LaidFrom start fields) (before : front.length = start)
    (sized : sources.map (·.size) = fields.map (·.size))
    (read : ∀ source ∈ sources, (source.column row).length = source.size) :
    (sources.zip fields).foldl (fun record pair => copyField row record pair.1 pair.2)
      (front ++ List.replicate (sizes fields) 0) = front ++ (sources.map (·.column row)).flatten := by
  induction fields generalizing sources start front with
  | nil =>
    rw [List.map_nil,List.map_eq_nil_iff] at sized
    rw [sized]
    rfl
  | cons field rest ih =>
    cases sources with
    | nil => cases sized
    | cons source more =>
      rw [List.map_cons,List.map_cons,List.cons.injEq] at sized
      have own := read source List.mem_cons_self
      have copy : copyField row (front ++ List.replicate (sizes (field :: rest)) 0) source field =
          (front ++ source.column row) ++ List.replicate (sizes rest) 0 := by
        have part : readAt row source.offset (min source.size field.size) = source.column row := by
          rw [sized.1,Nat.min_self,← sized.1]
          rfl
        rw [copyField,part,laid.1,← before,writeAt,own,List.take_left,Nat.sub_eq_zero_of_le (by simp),
          List.drop_append,List.drop_eq_nil_of_le (by omega),Nat.add_sub_cancel_left,sizes_cons,sized.1,
          List.drop_replicate,Nat.add_sub_cancel_left]
        simp
      rw [List.zip_cons_cons,List.foldl_cons,copy,List.map_cons,List.flatten_cons,← List.append_assoc]
      refine ih more (start+field.size) _ laid.2 ?_ sized.2 fun each member => read each (List.mem_cons_of_mem _ member)
      rw [List.length_append,before,own,sized.1]

end Places

section Rows
variable {old new : TableDef} {operation : AlterTableOperation} {row : Bytes}

theorem survivors_mem {source : FieldDef} (member : source ∈ operation.survivors old) : source ∈ old.fields := by
  cases operation with
  | dropColumn name => exact List.mem_of_mem_eraseIdx member
  | addColumn _ _ _ _ _ => exact member
  | modifyColumn _ _ _ _ _ => exact member
  | renameColumn _ _ => exact member

theorem survivors_read (laid : old.Laid) (whole : row.length = old.record_size) :
    ∀ source ∈ operation.survivors old, (source.column row).length = source.size := by
  obtain ⟨places,total,_⟩ := old.laid_iff.mp laid
  intro source member
  obtain ⟨number,present⟩ := List.mem_iff_getElem?.mp (survivors_mem member)
  have inside := places.inside present
  exact FieldDef.column_length (by omega)

theorem columns_sizes (operation : AlterTableOperation) : (operation.columns old).map (·.size) =
    (operation.survivors old).map (·.size) ++ (operation.additions old).map (·.size) := by
  have kept (start : Nat) (fields : List FieldDef) : (relaid start fields).map (·.size) = fields.map (·.size) := by
    induction fields generalizing start with
    | nil => rfl
    | cons field rest ih => rw [relaid,List.map_cons,List.map_cons,ih]
  have renamed (fields : List FieldDef) (number : Nat) (name : String) :
      (fields.modify number fun field => {field with name:=name}).map (·.size) = fields.map (·.size) := by
    have pairs := congrArg (List.map Prod.snd) (modify_pairs fields number name)
    rw [List.map_map,List.map_map] at pairs
    exact pairs
  cases operation with
  | addColumn _ _ _ _ _ => exact (List.map_append).trans (congrArg (· ++ _) (kept 0 _))
  | dropColumn _ => exact (List.map_append).trans (congrArg (· ++ _) (kept 0 _))
  | modifyColumn _ _ _ _ _ => exact (List.map_append).trans (congrArg (· ++ _) (kept 0 _))
  | renameColumn _ _ =>
    change ((relaid 0 _).modify _ _).map _ = _ ++ []
    rw [renamed,kept,List.append_nil]

theorem expectedRow_column (laid : old.Laid) (whole : row.length = old.record_size) {number : Nat} {field : FieldDef}
    (present : (operation.columns old)[number]? = some field) : some (field.column (operation.expectedRow old row)) =
      ((operation.survivors old).map (·.column row) ++ (operation.additions old).map (·.filled))[number]? := by
  have fitting : ((operation.survivors old).map (·.column row) ++ (operation.additions old).map (·.filled)).map
      List.length = (operation.columns old).map (·.size) := by
    rw [columns_sizes,List.map_append,List.map_map,List.map_map]
    congr 1
    · exact List.map_inj_left.mpr fun source member => survivors_read laid whole source member
    · exact List.map_inj_left.mpr fun field _ => filled_length field
  have found := (columns_laid laid operation).column_flatten 0 fitting [] rfl present
  rw [List.nil_append,List.flatten_append] at found
  exact found

theorem expectedRow_length (laid : old.Laid) (whole : row.length = old.record_size) :
    (operation.expectedRow old row).length = sizes (operation.columns old) := by
  rw [expectedRow,List.length_append,List.length_flatten,List.length_flatten,sizes,columns_sizes,List.sum_append,
    List.map_map,List.map_map]
  congr 2
  · exact List.map_inj_left.mpr fun source member => survivors_read laid whole source member
  · exact List.map_inj_left.mpr fun field _ => filled_length field

theorem relaid_length (start : Nat) (fields : List FieldDef) : (relaid start fields).length = fields.length := by
  have names := congrArg List.length (relaid_names start fields)
  rw [List.length_map,List.length_map] at names
  exact names

theorem columns_added {number : Nat} {field : FieldDef} (beyond : (operation.survivors old).length ≤ number)
    (present : (operation.columns old)[number]? = some field) :
    (operation.additions old)[number-(operation.survivors old).length]? = some field := by
  have inside := (List.getElem?_eq_some_iff.mp present).1
  have lengths := congrArg List.length (@columns_sizes old operation)
  rw [List.length_map,List.length_append,List.length_map,List.length_map] at lengths
  cases operation with
  | addColumn name data_type size default_value constraints =>
    change (relaid 0 old.fields ++ _)[number]? = _ at present
    change old.fields.length ≤ number at beyond
    rw [List.getElem?_append_right (by rw [relaid_length]; exact beyond),relaid_length] at present
    exact present
  | dropColumn name =>
    change _ = _+0 at lengths
    omega
  | modifyColumn _ _ _ _ _ =>
    change _ = _+0 at lengths
    omega
  | renameColumn _ _ =>
    change _ = _+0 at lengths
    omega

theorem getElem?_split {values : List α} {number : Nat} {value : α} (present : values[number]? = some value) :
    ∃ front back, values = front ++ value :: back ∧ front.length = number := by
  obtain ⟨inside,rfl⟩ := List.getElem?_eq_some_iff.mp present
  refine ⟨values.take number,values.drop (number+1),?_,?_⟩
  · rw [← List.drop_eq_getElem_cons inside,List.take_append_drop]
  · rw [List.length_take]
    omega

theorem expectedRow_surviving (laid : old.Laid) (whole : row.length = old.record_size) {number : Nat}
    {source field : FieldDef} (stays : (operation.survivors old)[number]? = some source)
    (present : (operation.columns old)[number]? = some field) :
    field.column (operation.expectedRow old row) = source.column row := by
  have found := expectedRow_column laid whole present
  have inside := (List.getElem?_eq_some_iff.mp stays).1
  rw [List.getElem?_append_left (by rw [List.length_map]; exact inside),List.getElem?_map,stays] at found
  exact Option.some.inj found

theorem expectedRow_added (laid : old.Laid) (whole : row.length = old.record_size) {number : Nat} {field : FieldDef}
    (beyond : (operation.survivors old).length ≤ number) (present : (operation.columns old)[number]? = some field) :
    field.column (operation.expectedRow old row) = field.filled := by
  have found := expectedRow_column laid whole present
  rw [List.getElem?_append_right (by rw [List.length_map]; exact beyond),List.length_map,List.getElem?_map,
    columns_added beyond present] at found
  exact Option.some.inj found

theorem Matched.expected (matched : Matched old operation) (laid : old.Laid) (whole : row.length = old.record_size)
    (fits : NamesFit (operation.survivors old) row) :
    migrateRecord operation old (operation.reshaped old) row = operation.expectedRow old row := by
  refine (columns_laid laid operation).ext (matched.length row) (expectedRow_length laid whole) ?_
  intro number field present
  by_cases below : number < (operation.survivors old).length
  · have stays := List.getElem?_eq_getElem below
    obtain ⟨front,back,split,rfl⟩ := getElem?_split stays
    rw [matched.surviving row _ field below present,expectedRow_surviving laid whole stays present]
    exact matched.placement.copied_column (survivors_read laid whole) fits split present
  · rw [matched.added row number field (by omega) present,expectedRow_added laid whole (by omega) present]

end Rows

section Defaults
variable {name : String} {data_type : DataType} {size : UInt16} {constraints : FieldConstraint} {offset : Nat}

theorem padTo_getElem? (count : Nat) (bytes : Bytes) (place : Nat) :
    (padTo count bytes)[place]? = if place < count then some ((bytes[place]?).getD 0) else none := by
  split
  · rename_i inside
    rw [padTo,List.getElem?_append,List.length_take]
    split
    · rw [List.getElem?_take_of_lt inside,List.getElem?_eq_getElem (by omega)]
      rfl
    · rw [List.getElem?_replicate,if_pos (by omega),List.getElem?_eq_none (by omega : bytes.length ≤ place)]
      rfl
  · exact List.getElem?_eq_none (by rw [padTo_length]; omega)

theorem padTo_padTo (count width : Nat) (bytes : Bytes) :
    padTo count (padTo (min width count) bytes) = padTo count (bytes.take width) := by
  apply List.ext_getElem?
  intro place
  rw [padTo_getElem?,padTo_getElem?,padTo_getElem?,List.getElem?_take]
  by_cases inside : place < count
  · by_cases below : place < width
    · rw [if_pos inside,if_pos inside,if_pos (by omega),if_pos below]
      rfl
    · rw [if_pos inside,if_pos inside,if_neg (by omega),if_neg below]
  · rw [if_neg inside,if_neg inside]

theorem padTo_cut_iff (count width : Nat) (bytes : Bytes) :
    padTo count (bytes.take width) = padTo count (bytes.take count) ↔ Blank ((bytes.take count).drop width) := by
  constructor
  · intro same byte member
    obtain ⟨place,found⟩ := List.mem_iff_getElem?.mp member
    rw [List.getElem?_drop,List.getElem?_take,Option.ite_none_right_eq_some] at found
    have here := congrArg (fun list : Bytes => list[width+place]?) same
    rw [padTo_getElem?,padTo_getElem?,if_pos found.1,List.getElem?_take,List.getElem?_take,if_neg (by omega),
      if_pos found.1,found.2] at here
    have zero := Option.some.inj here
    rw [if_pos found.1] at zero
    exact zero.symm
  · intro blank
    apply List.ext_getElem?
    intro place
    rw [padTo_getElem?,padTo_getElem?]
    by_cases inside : place < count
    · rw [if_pos inside,if_pos inside,List.getElem?_take,List.getElem?_take,if_pos inside]
      by_cases below : place < width
      · rw [if_pos below]
      · rw [if_neg below]
        cases held : bytes[place]? with
        | none => rfl
        | some byte =>
          have zero : byte = 0 := by
            refine blank byte (List.mem_of_getElem? (?_ : ((bytes.take count).drop width)[place-width]? = some byte))
            rw [List.getElem?_drop,Nat.add_sub_cancel' (by omega),List.getElem?_take,if_pos inside,held]
          rw [zero]
          rfl
    · rw [if_neg inside,if_neg inside]

theorem blank_padTo (count : Nat) (bytes : Bytes) : Blank (padTo count bytes) ↔ Blank (bytes.take count) := by
  constructor
  · exact fun blank byte member => blank byte (List.mem_append_left _ member)
  · intro blank byte member
    rcases List.mem_append.mp member with inside | behind
    · exact blank byte inside
    · exact List.eq_of_mem_replicate behind

theorem filled_same {field : FieldDef} (cut : field.defaultWidth = min field.valueWidth field.size) :
    field.filled = field.defaultBytes := by
  rw [FieldDef.filled,FieldDef.defaultBytes]
  cases field.default_value with
  | none => rfl
  | some value =>
    dsimp only
    rw [cut,padTo_padTo]

theorem filled_blank {field : FieldDef} (nothing : field.defaultWidth = 0) : Blank field.filled := by
  rw [FieldDef.filled]
  cases field.default_value with
  | none => exact blank_replicate _
  | some value =>
    dsimp only
    rw [blank_padTo,nothing,padTo,List.take_zero,Nat.zero_sub]
    intro byte member
    simp at member

theorem filled_kept_iff (default_value : Option Bytes) :
    ((newField name data_type size default_value constraints offset).filled =
        (newField name data_type size default_value constraints offset).defaultBytes ∨
      Blank (newField name data_type size default_value constraints offset).filled) ↔
        DefaultFits data_type default_value := by
  cases default_value with
  | none =>
    refine ⟨fun _ _ value same => ?_,fun _ => .inl rfl⟩
    cases same
  | some value =>
    by_cases textual : data_type = .text
    · subst textual
      change (padTo TextStorage.SIZE (padTo (min MAX_STRING_LEN TextStorage.SIZE) value) =
          padTo TextStorage.SIZE (value.take TextStorage.SIZE) ∨
        Blank (padTo TextStorage.SIZE (padTo (min MAX_STRING_LEN TextStorage.SIZE) value))) ↔ _
      rw [padTo_padTo,padTo_cut_iff,blank_padTo,List.take_take]
      constructor
      · rintro kept _ other same
        cases same
        exact kept
      · intro fits
        exact fits rfl value rfl
    · refine ⟨fun _ textual' => absurd textual' textual,fun _ => ?_⟩
      cases data_type with
      | text => exact absurd rfl textual
      | json => exact .inr (filled_blank rfl)
      | interval => exact .inr (filled_blank rfl)
      | vector => exact .inr (filled_blank rfl)
      | _ => exact .inl (filled_same rfl)

end Defaults

section Kept
variable {old new : TableDef} {operation : AlterTableOperation} {row : Bytes}

theorem additions_kept_iff (operation : AlterTableOperation) : (∀ field ∈ operation.additions old,
    field.filled = field.defaultBytes ∨ Blank field.filled) ↔ ∀ name data_type size default_value constraints,
      operation = addColumn name data_type size default_value constraints → DefaultFits data_type default_value := by
  cases operation with
  | addColumn name data_type size default_value constraints =>
    constructor
    · intro kept _ _ _ _ _ same
      cases same
      exact (filled_kept_iff default_value).mp (kept _ List.mem_cons_self)
    · intro fits field member
      cases List.mem_singleton.mp member
      exact (filled_kept_iff default_value).mpr (fits _ _ _ _ _ rfl)
  | dropColumn name => exact ⟨fun _ _ _ _ _ _ same => (nomatch same),fun _ field member => (nomatch member)⟩
  | modifyColumn _ _ _ _ _ => exact ⟨fun _ _ _ _ _ _ same => (nomatch same),fun _ field member => (nomatch member)⟩
  | renameColumn _ _ => exact ⟨fun _ _ _ _ _ _ same => (nomatch same),fun _ field member => (nomatch member)⟩

theorem expectedRow_kept (laid : old.Laid) (whole : row.length = old.record_size) (fits : RowFits old row operation) :
    RowKept operation old (operation.reshaped old) row (operation.expectedRow old row) := by
  refine ⟨fun number source target stays present => expectedRow_surviving laid whole stays present,?_⟩
  intro number target beyond present
  rw [expectedRow_added laid whole beyond present]
  refine (additions_kept_iff operation).mpr ?_ target (List.mem_of_getElem? (columns_added beyond present))
  rintro name data_type size default_value constraints rfl
  exact fits.2

theorem migrateRecord_expected (laid : old.Laid) (whole : row.length = old.record_size)
    (plain : operation.modifies = false) (changed : operation.change wrapping old = some (.ok new))
    (fits : RowFits old row operation) :
    migrateRecord operation old (operation.reshaped old) row = operation.expectedRow old row := by
  cases operation with
  | addColumn name data_type size default_value constraints =>
    obtain ⟨fresh,_⟩ := (addColumn_iff wrapping _ _ _ _ _).mp changed
    exact (addColumn_matched laid fresh).expected laid whole fits.1
  | dropColumn name =>
    obtain ⟨field_index,found,_⟩ := (dropColumn_iff wrapping _).mp changed
    exact (dropColumn_matched laid found).expected laid whole fits
  | modifyColumn _ _ _ _ _ => cases plain
  | renameColumn old_name new_name =>
    have same := @columns_sizes old (renameColumn old_name new_name)
    change _ = _ ++ [] at same
    rw [List.append_nil] at same
    have copied := copy_in_place row old.fields _ 0 [] (columns_laid laid (renameColumn old_name new_name)) rfl same.symm
      (@survivors_read old (renameColumn old_name new_name) row laid whole)
    exact copied.trans (List.append_nil _).symm

theorem Matched.fits (matched : Matched old operation) (laid : old.Laid) (rows : Set Bytes)
    (whole : ∀ row ∈ rows, row.length = old.record_size)
    (kept : ∀ row ∈ rows, ∃ from_row ∈ rows,
      RowKept operation old (operation.reshaped old) row (migrateRecord operation old (operation.reshaped old) from_row)) :
    ∀ row ∈ rows, NamesFit (operation.survivors old) row := by
  have moved : ∀ row ∈ rows, ∃ from_row ∈ rows, ∀ front source back field,
      operation.survivors old = front ++ source :: back → (operation.columns old)[front.length]? = some field →
        field.column (Placement.copied (operation.columns old) old.fields from_row) = source.column row := by
    intro row member
    obtain ⟨from_row,member',same⟩ := kept row member
    refine ⟨from_row,member',?_⟩
    intro front source back field split present
    have stays : (operation.survivors old)[front.length]? = some source := by
      rw [split,List.getElem?_append_right (Nat.le_refl _),Nat.sub_self]
      rfl
    rw [← matched.surviving from_row _ field (List.getElem?_eq_some_iff.mp stays).1 present]
    exact same.surviving _ source field stays present
  have blank : ∀ row ∈ rows, ∀ front source back, operation.survivors old = front ++ source :: back →
      (¬∀ each ∈ front, each.name ≠ source.name) → Blank (source.column row) := by
    intro row member front source back split repeated
    obtain ⟨from_row,_,same⟩ := moved row member
    obtain ⟨field,present,_⟩ := matched.placement.target split
    rw [← same front source back field split present]
    exact matched.placement.other_blank split present repeated
  intro row member
  obtain ⟨from_row,member',same⟩ := moved row member
  exact matched.placement.fits_of_copied (survivors_read laid (whole from_row member')) same (blank from_row member')

theorem rowFits_of_kept (laid : old.Laid) (plain : operation.modifies = false)
    (changed : operation.change wrapping old = some (.ok new)) (rows : Set Bytes)
    (whole : ∀ row ∈ rows, row.length = old.record_size)
    (kept : ∀ row ∈ rows, ∃ from_row ∈ rows,
      RowKept operation old (operation.reshaped old) row (migrateRecord operation old (operation.reshaped old) from_row)) :
    ∀ row ∈ rows, RowFits old row operation := by
  cases operation with
  | addColumn name data_type size default_value constraints =>
    obtain ⟨fresh,_⟩ := (addColumn_iff wrapping _ _ _ _ _).mp changed
    have matched : Matched old (addColumn name data_type size default_value constraints) := addColumn_matched laid fresh
    intro row member
    refine ⟨matched.fits laid rows whole kept row member,?_⟩
    obtain ⟨from_row,_,same⟩ := kept row member
    have last : ((addColumn name data_type size default_value constraints).columns old)[old.fields.length]? =
        some (newField name data_type size default_value constraints old.record_size) := by
      rw [columns_addColumn (old.laid_iff.mp laid).1,List.getElem?_append_right (Nat.le_refl _),Nat.sub_self]
      rfl
    have held := same.added _ _ (Nat.le_refl _) last
    rw [matched.added from_row _ _ (Nat.le_refl _) last] at held
    exact (filled_kept_iff default_value).mp held
  | dropColumn name =>
    obtain ⟨field_index,found,_⟩ := (dropColumn_iff wrapping _).mp changed
    exact (dropColumn_matched laid found).fits laid rows whole kept
  | modifyColumn _ _ _ _ _ => cases plain
  | renameColumn old_name new_name => exact fun _ _ => trivial

end Kept
end AlterTableOperation
end RemDb
