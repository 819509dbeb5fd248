import RemDb.Lib.Overlay
import RemDb.Ddl.Layout

namespace RemDb
open RemDb.Lib

namespace FieldDef

def column (field : FieldDef) (record : Bytes) : Bytes := readAt record field.offset field.size

-- How much of a default value belongs to the type of a column. That of a
-- vector is a pointer, whose bytes go into no record.
def valueWidth (field : FieldDef) : Nat :=
  match field.data_type with
  | .varChar | .char | .json => MAX_STRING_LEN
  | .text => TextStorage.SIZE
  | .vector => 0
  | data_type => data_type.size.getD 0

-- The default of a column, as an insert writes it.
def defaultBytes (field : FieldDef) : Bytes :=
  match field.default_value with
  | some default_value => padTo field.size (default_value.take field.valueWidth)
  | none => List.replicate field.size 0

def filled (field : FieldDef) : Bytes :=
  match field.default_value with
  | some default_value => padTo field.size (padTo field.defaultWidth default_value)
  | none => List.replicate field.size 0

theorem column_length {field : FieldDef} {record : Bytes} (inside : field.offset+field.size ≤ record.length) :
    (field.column record).length = field.size := by
  rw [column,readAt_length]
  omega

end FieldDef

section Laid
variable {fields : List FieldDef} {record : Bytes}

theorem sizes_take_succ {number : Nat} {field : FieldDef} (present : fields[number]? = some field) :
    sizes (fields.take (number+1)) = sizes (fields.take number)+field.size := by
  rw [List.take_add_one,present,sizes_append]
  simp [sizes]

theorem sizes_take_le (fields : List FieldDef) {first second : Nat} (ordered : first ≤ second) :
    sizes (fields.take first) ≤ sizes (fields.take second) := by
  have split : fields.take second = fields.take first ++ (fields.take second).drop first := by
    have prefixed : fields.take first = (fields.take second).take first := by
      rw [List.take_take,Nat.min_eq_left ordered]
    rw [prefixed,List.take_append_drop]
  rw [split,sizes_append]
  omega

theorem LaidFrom.inside (laid : LaidFrom 0 fields) {number : Nat} {field : FieldDef}
    (present : fields[number]? = some field) : field.offset+field.size ≤ sizes fields := by
  have place := (laidFrom_iff 0 fields).mp laid number field present
  have upto := sizes_take_le fields (List.getElem?_eq_some_iff.mp present).1
  rw [Nat.succ_eq_add_one,sizes_take_succ present] at upto
  have whole : sizes (fields.take fields.length) = sizes fields := by rw [List.take_length]
  omega

theorem LaidFrom.apart (laid : LaidFrom 0 fields) {first second : Nat} {left right : FieldDef}
    (ordered : first < second) (at_first : fields[first]? = some left) (at_second : fields[second]? = some right) :
    left.offset+left.size ≤ right.offset := by
  have place := (laidFrom_iff 0 fields).mp laid first left at_first
  have place' := (laidFrom_iff 0 fields).mp laid second right at_second
  have upto := sizes_take_le fields (Nat.succ_le_of_lt ordered)
  rw [Nat.succ_eq_add_one,sizes_take_succ at_first] at upto
  omega

theorem LaidFrom.columns (start : Nat) (laid : LaidFrom start fields) (whole : start+sizes fields ≤ record.length) :
    (fields.map (·.column record)).flatten = readAt record start (sizes fields) := by
  induction fields generalizing start with
  | nil => simp [sizes,readAt]
  | cons field rest ih =>
    rw [sizes_cons] at whole ⊢
    rw [List.map_cons,List.flatten_cons,ih (start+field.size) laid.2 (by omega),FieldDef.column,laid.1,readAt,readAt,
      readAt,← List.drop_drop,List.take_add]

theorem LaidFrom.whole_record (laid : LaidFrom 0 fields) (whole : record.length = sizes fields) :
    (fields.map (·.column record)).flatten = record := by
  rw [laid.columns 0 (by omega),readAt_front,← whole,List.take_length]

theorem LaidFrom.ext {other : Bytes} (laid : LaidFrom 0 fields) (whole : record.length = sizes fields)
    (whole' : other.length = sizes fields)
    (same : ∀ (number : Nat) (field : FieldDef), fields[number]? = some field → field.column record = field.column other) :
    record = other := by
  rw [← laid.whole_record whole,← laid.whole_record whole']
  congr 1
  refine List.map_inj_left.mpr fun field member => ?_
  obtain ⟨number,present⟩ := List.mem_iff_getElem?.mp member
  exact same number field present

theorem LaidFrom.column_flatten (start : Nat) (laid : LaidFrom start fields) {blocks : List Bytes}
    (fitting : blocks.map List.length = fields.map (·.size)) (front : Bytes) (before : front.length = start)
    {number : Nat} {field : FieldDef} (present : fields[number]? = some field) :
    some (field.column (front ++ blocks.flatten)) = blocks[number]? := by
  induction fields generalizing start blocks front number with
  | nil => cases present
  | cons first rest ih =>
    cases blocks with
    | nil => cases fitting
    | cons block more =>
      rw [List.map_cons,List.map_cons,List.cons.injEq] at fitting
      cases number with
      | zero =>
        cases present
        rw [FieldDef.column,laid.1,← before,← fitting.1,List.flatten_cons,readAt_append]
        rfl
      | succ number =>
        rw [List.flatten_cons,← List.append_assoc,List.getElem?_cons_succ]
        refine ih (start+first.size) laid.2 fitting.2 (front ++ block) ?_ present
        rw [List.length_append,before,fitting.1]

end Laid

section Copies
variable {fields : List FieldDef} {record : Bytes} {number place : Nat} {field target : FieldDef}

theorem copyField_length (old_record : Bytes) (source : FieldDef) (laid : LaidFrom 0 fields)
    (whole : record.length = sizes fields) (present : fields[place]? = some target) :
    (copyField old_record record source target).length = sizes fields := by
  have inside := laid.inside present
  rw [copyField,writeAt_length,readAt_length]
  omega

theorem copyField_column (old_record : Bytes) (source : FieldDef) (laid : LaidFrom 0 fields)
    (whole : record.length = sizes fields) (present : fields[place]? = some target)
    (at_number : fields[number]? = some field) :
    field.column (copyField old_record record source target) =
      if number = place then overlay (field.column record) (source.column old_record) else field.column record := by
  have inside := laid.inside present
  have inside' := laid.inside at_number
  have part : readAt old_record source.offset (min source.size target.size) =
      (source.column old_record).take target.size := by
    rw [FieldDef.column,readAt,readAt,List.take_take,Nat.min_comm]
  rw [copyField,part]
  split
  · rename_i same
    subst same
    cases present.symm.trans at_number
    exact readAt_writeAt_overlay record _ _ _ (by omega)
  · rename_i different
    refine readAt_writeAt_frame _ _ _ _ _ (by omega) ?_
    rw [List.length_take]
    rcases Nat.lt_or_gt_of_ne different with before | behind
    · have apart := laid.apart before at_number present
      omega
    · have apart := laid.apart behind present at_number
      omega

-- All old columns, each to the first column of its name.
def copyAll (fields : List FieldDef) (old_record record : Bytes) (sources : List FieldDef) : Bytes :=
  sources.foldl (fun record source =>
    match fields.find? fun field => decide (field.name = source.name) with
    | some target => copyField old_record record source target
    | none => record) record

theorem copyAll_cons (fields : List FieldDef) (old_record record : Bytes) (source : FieldDef) (rest : List FieldDef) :
    copyAll fields old_record record (source :: rest) = copyAll fields old_record
      (match fields.find? fun field => decide (field.name = source.name) with
        | some target => copyField old_record record source target
        | none => record) rest := rfl

def firstNamed (fields : List FieldDef) (name : String) : Option Nat :=
  fields.findIdx? fun field => decide (field.name = name)

theorem firstNamed_find {name : String} (found : (fields.find? fun field => decide (field.name = name)) = some target) :
    ∃ place, fields[place]? = some target ∧ firstNamed fields name = some place ∧ target.name = name := by
  obtain ⟨named,front,back,split,before⟩ := List.find?_eq_some_iff_append.mp found
  refine ⟨front.length,?_,?_,of_decide_eq_true named⟩
  · rw [split,List.getElem?_append_right (Nat.le_refl _),Nat.sub_self]
    rfl
  · rw [firstNamed,split,List.findIdx?_append,List.findIdx?_eq_none_iff.mpr ?_]
    · rw [List.findIdx?_cons,named]
      simp
    · intro each among
      simpa using before each among

theorem copyAll_length (old_record : Bytes) (sources : List FieldDef) (laid : LaidFrom 0 fields)
    (whole : record.length = sizes fields) : (copyAll fields old_record record sources).length = sizes fields := by
  induction sources generalizing record with
  | nil => exact whole
  | cons source rest ih =>
    rw [copyAll_cons]
    apply ih
    split
    · rename_i target found
      obtain ⟨place,present,_⟩ := firstNamed_find found
      exact copyField_length old_record source laid whole present
    · exact whole

-- A column gets the columns of its name on top of each other, if it is the
-- first of it, and else nothing.
theorem copyAll_column (old_record : Bytes) (sources : List FieldDef) (laid : LaidFrom 0 fields)
    (whole : record.length = sizes fields) (present : fields[number]? = some field) :
    field.column (copyAll fields old_record record sources) =
      if firstNamed fields field.name = some number then
        ((sources.filter fun source => decide (source.name = field.name)).map (·.column old_record)).foldl overlay
          (field.column record)
      else field.column record := by
  induction sources generalizing record with
  | nil =>
    split
    · rfl
    · rfl
  | cons source rest ih =>
    rw [copyAll_cons]
    cases found : fields.find? fun field => decide (field.name = source.name) with
    | none =>
      have other : ¬source.name = field.name := by
        have absent := List.find?_eq_none.mp found field (List.mem_of_getElem? present)
        intro same
        exact absent (decide_eq_true same.symm)
      rw [ih whole,List.filter_cons_of_neg (by simpa using other)]
    | some target =>
      obtain ⟨place,at_place,first,named⟩ := firstNamed_find found
      dsimp only
      rw [ih (copyField_length old_record source laid whole at_place),
        copyField_column old_record source laid whole at_place present]
      by_cases same : source.name = field.name
      · rw [List.filter_cons_of_pos (by simpa using same),List.map_cons,List.foldl_cons,← same,first]
        by_cases here : number = place
        · rw [if_pos here,if_pos (congrArg some here.symm),if_pos (congrArg some here.symm)]
        · rw [if_neg here,if_neg (fun other => here (Option.some.inj other).symm),
            if_neg (fun other => here (Option.some.inj other).symm)]
      · rw [List.filter_cons_of_neg (by simpa using same)]
        have elsewhere : number ≠ place := by
          rintro rfl
          cases at_place.symm.trans present
          exact same named.symm
        rw [if_neg elsewhere]

end Copies

-- Columns that keep their order, names and sizes in a new layout. All columns
-- that are copied under the name of the first of them are this one and the
-- later ones, and before these at most the column that is dropped.
structure Placement (sources survivors fields : List FieldDef) : Prop where
  laid : LaidFrom 0 fields
  placed : ∀ (number : Nat) (source : FieldDef), survivors[number]? = some source →
    ∃ field, fields[number]? = some field ∧ field.name = source.name ∧ field.size = source.size
  carried : ∀ (front : List FieldDef) (source : FieldDef) (back : List FieldDef), survivors = front ++ source :: back →
    (∀ each ∈ front, each.name ≠ source.name) → ∃ dropped : List FieldDef,
      (sources.filter fun each => decide (each.name = source.name)) =
        dropped ++ source :: back.filter fun each => decide (each.name = source.name)

-- Columns of one name end in the first of them, one over the other, and the
-- others stay empty: this changes nothing where they hold zeros.
def NamesFit (survivors : List FieldDef) (row : Bytes) : Prop :=
  survivors.Pairwise fun first second => first.name = second.name →
    Blank (second.column row) ∧ Blank ((first.column row).take second.size)

theorem pairwise_of_splits {relation : α → α → Prop} {values : List α}
    (each : ∀ front first middle second back, values = front ++ first :: (middle ++ second :: back) →
      relation first second) : values.Pairwise relation := by
  induction values with
  | nil => exact .nil
  | cons value rest ih =>
    refine .cons ?_ (ih fun front first middle second back split => ?_)
    · intro other member
      obtain ⟨middle,back,split⟩ := List.append_of_mem member
      exact each [] value middle other back (by rw [split]; rfl)
    · exact each (value :: front) first middle second back (by rw [split]; rfl)

namespace Placement
variable {sources survivors fields front back : List FieldDef} {source field : FieldDef} {row : Bytes}

theorem target (placement : Placement sources survivors fields) (split : survivors = front ++ source :: back) :
    ∃ field, fields[front.length]? = some field ∧ field.name = source.name ∧ field.size = source.size := by
  refine placement.placed front.length source ?_
  rw [split,List.getElem?_append_right (Nat.le_refl _),Nat.sub_self]
  rfl

theorem first_iff (placement : Placement sources survivors fields) (split : survivors = front ++ source :: back) :
    firstNamed fields source.name = some front.length ↔ ∀ each ∈ front, each.name ≠ source.name := by
  have earlier : ∀ number (inside : number < front.length),
      ∃ field, fields[number]? = some field ∧ field.name = front[number].name := by
    intro number inside
    obtain ⟨field,present,named,_⟩ := placement.placed number front[number] (by
      rw [split,List.getElem?_append_left inside,List.getElem?_eq_getElem inside])
    exact ⟨field,present,named⟩
  obtain ⟨field,present,named,_⟩ := placement.target split
  obtain ⟨inside,held⟩ := List.getElem?_eq_some_iff.mp present
  rw [firstNamed,List.findIdx?_eq_some_iff_getElem]
  constructor
  · rintro ⟨_,_,before⟩ each member same
    obtain ⟨number,below,rfl⟩ := List.mem_iff_getElem.mp member
    obtain ⟨other,at_number,named'⟩ := earlier number below
    obtain ⟨inside',held'⟩ := List.getElem?_eq_some_iff.mp at_number
    refine before number below (decide_eq_true ?_)
    rw [held',named',same]
  · intro before
    refine ⟨inside,decide_eq_true (by rw [held,named]),?_⟩
    intro number below
    obtain ⟨other,at_number,named'⟩ := earlier number below
    obtain ⟨inside',held'⟩ := List.getElem?_eq_some_iff.mp at_number
    rw [held',decide_eq_true_eq,named']
    exact before _ (List.getElem_mem below)

theorem first_column (placement : Placement sources survivors fields) {record : Bytes}
    (whole : record.length = sizes fields) (split : survivors = front ++ source :: back)
    (present : fields[front.length]? = some field) (first : ∀ each ∈ front, each.name ≠ source.name)
    (read : (source.column row).length = source.size) :
    field.column (copyAll fields row record sources) =
      ((back.filter fun each => decide (each.name = source.name)).map (·.column row)).foldl overlay
        (source.column row) := by
  obtain ⟨_,present',named,sized⟩ := placement.target split
  cases present.symm.trans present'
  obtain ⟨dropped,carried⟩ := placement.carried front source back split first
  have inside := placement.laid.inside present
  rw [copyAll_column row sources placement.laid whole present,named,
    if_pos ((placement.first_iff split).mpr first),carried,List.map_append,List.map_cons]
  refine layers_above _ _ _ _ ?_
  rw [read,FieldDef.column_length (by omega),sized]

theorem other_column (placement : Placement sources survivors fields) {record : Bytes}
    (whole : record.length = sizes fields) (split : survivors = front ++ source :: back)
    (present : fields[front.length]? = some field) (other : ¬∀ each ∈ front, each.name ≠ source.name) :
    field.column (copyAll fields row record sources) = field.column record := by
  obtain ⟨_,present',named,_⟩ := placement.target split
  cases present.symm.trans present'
  rw [copyAll_column row sources placement.laid whole present,named,
    if_neg (fun first => other ((placement.first_iff split).mp first))]

def copied (fields sources : List FieldDef) (row : Bytes) : Bytes :=
  copyAll fields row (List.replicate (sizes fields) 0) sources

theorem copied_length (placement : Placement sources survivors fields) (row : Bytes) :
    (copied fields sources row).length = sizes fields :=
  copyAll_length row sources placement.laid List.length_replicate

theorem other_blank (placement : Placement sources survivors fields) (split : survivors = front ++ source :: back)
    (present : fields[front.length]? = some field) (other : ¬∀ each ∈ front, each.name ≠ source.name) :
    Blank (field.column (copied fields sources row)) := by
  rw [copied,placement.other_column List.length_replicate split present other,FieldDef.column,readAt]
  intro byte member
  exact List.eq_of_mem_replicate (List.mem_of_mem_drop (List.mem_of_mem_take member))

theorem copied_column (placement : Placement sources survivors fields)
    (read : ∀ source ∈ survivors, (source.column row).length = source.size) (fits : NamesFit survivors row)
    (split : survivors = front ++ source :: back) (present : fields[front.length]? = some field) :
    field.column (copied fields sources row) = source.column row := by
  have own : source ∈ survivors := by simp [split]
  rw [NamesFit,split,List.pairwise_append,List.pairwise_cons] at fits
  obtain ⟨_,⟨later,_⟩,across⟩ := fits
  by_cases first : ∀ each ∈ front, each.name ≠ source.name
  · rw [copied,placement.first_column List.length_replicate split present first (read source own)]
    refine layers_blank ?_
    intro layer member
    obtain ⟨each,among,rfl⟩ := List.mem_map.mp member
    obtain ⟨behind,same⟩ := List.mem_filter.mp among
    have there : each ∈ survivors := by simp [split,behind]
    rw [read each there]
    exact later each behind (of_decide_eq_true same).symm
  · obtain ⟨_,present',_,sized⟩ := placement.target split
    cases present.symm.trans present'
    refine (placement.other_blank split present first).eq ?_ ?_
    · simp only [not_forall,not_not] at first
      obtain ⟨each,member,same⟩ := first
      exact (across each member source List.mem_cons_self same).1
    · have inside := placement.laid.inside present
      have whole := placement.copied_length row
      rw [read source own,FieldDef.column_length (by omega),sized]

theorem fits_of_copied (placement : Placement sources survivors fields) {from_row : Bytes}
    (read : ∀ source ∈ survivors, (source.column from_row).length = source.size)
    (kept : ∀ front source back field, survivors = front ++ source :: back → fields[front.length]? = some field →
      field.column (copied fields sources from_row) = source.column row)
    (blank : ∀ front source back, survivors = front ++ source :: back → (¬∀ each ∈ front, each.name ≠ source.name) →
      Blank (source.column from_row)) : NamesFit survivors row := by
  have others : ∀ front source back, survivors = front ++ source :: back →
      (¬∀ each ∈ front, each.name ≠ source.name) → Blank (source.column row) := by
    intro front source back split other
    obtain ⟨field,present,_⟩ := placement.target split
    rw [← kept front source back field split present]
    exact placement.other_blank split present other
  refine pairwise_of_splits fun front first middle second back split same => ?_
  have split' : survivors = (front ++ first :: middle) ++ second :: back := by
    rw [split,List.append_assoc,List.cons_append]
  have repeated : ¬∀ each ∈ front ++ first :: middle, each.name ≠ second.name :=
    fun apart => apart first (by simp) same
  refine ⟨others _ second back split' repeated,?_⟩
  by_cases earliest : ∀ each ∈ front, each.name ≠ first.name
  · obtain ⟨field,present,_⟩ := placement.target split
    have own : first ∈ survivors := by simp [split]
    have there : second ∈ survivors := by simp [split']
    rw [← kept front first _ field split present,copied,
      placement.first_column List.length_replicate split present earliest (read first own),← read second there]
    refine layers_front ?_ (List.mem_map_of_mem (List.mem_filter.mpr ⟨by simp,decide_eq_true same.symm⟩))
    intro layer member
    obtain ⟨each,among,rfl⟩ := List.mem_map.mp member
    obtain ⟨behind,named⟩ := List.mem_filter.mp among
    obtain ⟨before,after,parts⟩ := List.append_of_mem behind
    refine blank (front ++ first :: before) each after ?_ ?_
    · rw [split,parts,List.append_assoc,List.cons_append]
    · exact fun apart => apart first (by simp) (of_decide_eq_true named).symm
  · exact (others front first _ split earliest).take _

end Placement
end RemDb
