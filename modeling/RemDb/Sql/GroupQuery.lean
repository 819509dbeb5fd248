import Mathlib.Data.List.DropRight
import RemDb.Sql.GroupMeaning

namespace RemDb
open RemDb.Lib

namespace TypedValue

-- The bits of a float for what it is equal to: both zeros are one number, and
-- what is not a number is one value.
def floatCode (width fraction bits : Nat) : Nat :=
  let magnitude := bits % 2^(width-1)
  if magnitude = 0 then 0
  else if 2^(width-1)-2^fraction < magnitude then 2^(width-1)-1
  else bits

-- Two values of a column are equal when their types and these bytes are. A text
-- goes up to its trailing zeros.
def content (value : TypedValue) : DataType × Bytes :=
  (value.value_type,
    match value.value_type with
    | .uint8 | .int8 | .bool => padTo 1 value.value
    | .uint16 | .int16 => padTo 2 value.value
    | .uint32 | .int32 => padTo 4 value.value
    | .uint64 | .int64 | .timestamp | .interval | .vector => padTo 8 value.value
    | .timestampTZ => padTo 10 value.value
    | .float32 => toLE 4 (floatCode 32 23 (ofLE (padTo 4 value.value)))
    | .float64 => toLE 8 (floatCode 64 52 (ofLE (padTo 8 value.value)))
    | .varChar | .char => padTo maxStringLen value.value
    | .text | .json => value.value.rdropWhile (· = 0))

end TypedValue

section Query
variable {checks : Bool} {functions : GroupFunctions} {tdef : TableDef} {columns : List SelectColumn}
  {group_by : List Expression} {records : List RecordValues}

-- The grouping columns of a row, each seen through `view`. A row that has none
-- ends the query.
def groupedBy (functions : GroupFunctions) (tdef : TableDef) (columns : List SelectColumn) (group_by : List Expression)
    (view : TypedValue → α) (record_values : RecordValues) : List α :=
  ((groupKey functions tdef columns group_by record_values).toOption.getD []).map view

def RowsTyped (tdef : TableDef) (records : List RecordValues) : Prop :=
  ∀ record ∈ records, record.map (·.value_type) = tdef.fields.map (·.data_type)

def integerPlace (tdef : TableDef) (field_name : String) : Option (Nat × DataType) :=
  if field_name = "*" then none
  else do
    let place ← tdef.fields.findIdx? fun field => decide (field.name = lastPart field_name)
    let field ← tdef.fields[place]?
    if field.data_type.integerWidth.isSome then some (place,field.data_type) else none

-- A column of the query that aggregates an integer column.
def IntegerAggregate (tdef : TableDef) (column : SelectColumn) (name : String) (function : AggregateFunction) (place : Nat)
    (type : DataType) : Prop :=
  ∃ field_name args, column.expr = .functionCall name (.field field_name :: args) ∧
    AggregateFunction.ofGroupName name = some function ∧ integerPlace tdef field_name = some (place,type)

def placed (place : Nat) (group_rows : List RecordValues) : List TypedValue := group_rows.filterMap (·[place]?)

def ColumnExact (checks : Bool) (tdef : TableDef) (group_rows : List RecordValues) (column : SelectColumn)
    (value : TypedValue) : Prop :=
  ∀ name function place type, IntegerAggregate tdef column name function place type →
    AggregateFunction.GroupExact checks name function type (placed place group_rows) value

def RowExact (checks : Bool) (tdef : TableDef) (columns : List SelectColumn) (group_rows : List RecordValues)
    (row : ResultRow) : Prop := List.Forall₂ (ColumnExact checks tdef group_rows) columns row

theorem mapM_outputs {f : α → Except ε β} {sources : List α} {outputs : List β} (done : sources.mapM f = .ok outputs) :
    List.Forall₂ (fun source output => f source = .ok output) sources outputs := by
  induction sources generalizing outputs with
  | nil =>
    obtain rfl := Except.ok.inj done
    exact .nil
  | cons first rest ih =>
    obtain ⟨output,others,head,tail,rfl⟩ := mapM_cons_ok done
    exact .cons head (ih tail)

theorem groupedBy_ok {record : RecordValues} {values : List TypedValue}
    (key : groupKey functions tdef columns group_by record = .ok values) (view : TypedValue → α) :
    groupedBy functions tdef columns group_by view record = values.map view := by
  rw [groupedBy,key]
  rfl

theorem groupRecords_eq {groups : List (List RecordValues)}
    (done : groupRecords functions tdef columns group_by records = .ok groups) :
    groups = (((records.map (groupedBy functions tdef columns group_by hashTypedValue)).mergeSort
      fun left right => (compare left right).isLE).dedup).map
        (itemsAt (groupedBy functions tdef columns group_by hashTypedValue) records) := by
  let keyOf := groupedBy functions tdef columns group_by hashTypedValue
  have keyed_eq : ∀ (rows : List RecordValues) {keyed}, rows.mapM (fun record_values => do
        let values ← groupKey functions tdef columns group_by record_values
        pure (values.map hashTypedValue,record_values)) = .ok keyed →
      keyed = rows.map fun record => (keyOf record,record) := by
    intro rows
    induction rows with
    | nil =>
      intro keyed done
      exact (Except.ok.inj done).symm
    | cons first rest ih =>
      intro keyed done
      obtain ⟨output,others,head,tail,rfl⟩ := mapM_cons_ok done
      rw [ih tail,List.map_cons]
      cases key : groupKey functions tdef columns group_by first with
      | error fault =>
        rw [key] at head
        cases head
      | ok values =>
        rw [key] at head
        rw [← Except.ok.inj head]
        congr 2
        exact (groupedBy_ok key hashTypedValue).symm
  unfold groupRecords at done
  cases keys : records.mapM (fun record_values => do
      let values ← groupKey functions tdef columns group_by record_values
      pure (values.map hashTypedValue,record_values)) with
  | error fault =>
    rw [keys] at done
    cases done
  | ok keyed =>
    rw [keys] at done
    rw [← Except.ok.inj done,keyed_eq records keys,groupsBy,List.map_map]
    refine List.map_congr_left fun wanted _ => ?_
    rw [List.filter_map,List.map_map]
    exact List.map_id _

theorem integerPlace_parts {field_name : String} (found : integerPlace tdef field_name = some (place,type)) :
    field_name ≠ "*" ∧ (tdef.fields.findIdx? fun field => decide (field.name = lastPart field_name)) = some place ∧
      ∃ field, tdef.fields[place]? = some field ∧ field.data_type = type ∧ type.integerWidth.isSome := by
  unfold integerPlace at found
  split at found
  · cases found
  · rename_i named
    obtain ⟨index,at_index,found⟩ := Option.bind_eq_some_iff.mp found
    obtain ⟨field,inside,found⟩ := Option.bind_eq_some_iff.mp found
    split at found
    · rename_i integer
      obtain ⟨rfl,rfl⟩ := Prod.mk.inj (Option.some.inj found)
      exact ⟨named,at_index,field,inside,rfl,integer⟩
    · cases found

theorem evaluate_place (functions : GroupFunctions) {record : RecordValues} {field_name : String}
    (typed : record.map (·.value_type) = tdef.fields.map (·.data_type))
    (found : integerPlace tdef field_name = some (place,type)) :
    ∃ value, record[place]? = some value ∧ value.value_type = type ∧
      functions.evaluate tdef record (.field field_name) = .ok value := by
  obtain ⟨named,at_index,field,inside,of_type,_⟩ := integerPlace_parts found
  have here := congrArg (·[place]?) typed
  simp only [List.getElem?_map,inside,Option.map_some] at here
  obtain ⟨value,at_place,same⟩ := Option.map_eq_some_iff.mp here
  refine ⟨value,at_place,same.trans of_type,?_⟩
  change fieldValue tdef record field_name = _
  unfold fieldValue
  rw [if_neg named]
  simp only [at_index,at_place]

theorem groupUpdate_first (function : AggregateFunction) (total first : TypedValue) (rest : List TypedValue) :
    AggregateFunction.groupUpdate checks name function total (first :: rest) =
      AggregateFunction.groupUpdate checks name function total [first] := by
  cases function <;> rfl

theorem placed_cons {record : RecordValues} {value : TypedValue} (at_place : record[place]? = some value)
    (rest : List RecordValues) : placed place (record :: rest) = value :: placed place rest := by
  rw [placed,List.filterMap_cons,at_place]
  rfl

theorem placed_column {group_rows : List RecordValues} {field_name : String} (typed : RowsTyped tdef group_rows)
    (found : integerPlace tdef field_name = some (place,type)) :
    AggregateFunction.OfColumn type (placed place group_rows) := by
  obtain ⟨_,_,_,_,_,integer⟩ := integerPlace_parts found
  refine ⟨integer,fun value member => ?_⟩
  obtain ⟨record,inside,at_place⟩ := List.mem_filterMap.mp member
  obtain ⟨same,there,of_type,_⟩ := evaluate_place ⟨fun _ _ _ => .error .panicked,fun _ _ => .error .panicked⟩
    (typed record inside) found
  rw [Option.some.inj (at_place.symm.trans there)]
  exact of_type

theorem column_fold {function : AggregateFunction} {field_name : String} {args : List Expression}
    (found : integerPlace tdef field_name = some (place,type)) {group_rows : List RecordValues}
    (typed : RowsTyped tdef group_rows) {total result : TypedValue}
    (folded : group_rows.foldlM (fun agg_result record_values => do
        let arg_values ← (Expression.field field_name :: args).mapM (functions.evaluate tdef record_values)
        function.groupUpdate checks name agg_result arg_values) total = .ok result) :
    (placed place group_rows).foldlM (fun agg_result current => function.groupUpdate checks name agg_result [current]) total =
      .ok result := by
  induction group_rows generalizing total with
  | nil => exact folded
  | cons record rest ih =>
    obtain ⟨value,at_place,_,evaluated⟩ := evaluate_place functions (typed record List.mem_cons_self) found
    rw [placed_cons at_place,List.foldlM_cons]
    rw [List.foldlM_cons,List.mapM_cons,evaluated] at folded
    cases others : args.mapM (functions.evaluate tdef record) with
    | error fault =>
      rw [others] at folded
      cases folded
    | ok values =>
      rw [others] at folded
      change (function.groupUpdate checks name total (value :: values) >>= _) = _ at folded
      rw [groupUpdate_first] at folded
      cases next : function.groupUpdate checks name total [value] with
      | error fault =>
        rw [next] at folded
        cases folded
      | ok updated =>
        rw [next] at folded
        exact ih (fun record member => typed record (List.mem_cons_of_mem _ member)) folded

theorem column_exact_iff {group_rows : List RecordValues} {column : SelectColumn} {value : TypedValue}
    {function : AggregateFunction} (typed : RowsTyped tdef group_rows) (filled : group_rows ≠ [])
    (shown : groupColumn checks functions tdef group_rows column.expr = .ok value)
    (aggregate : IntegerAggregate tdef column name function place type) :
    AggregateFunction.GroupExact checks name function type (placed place group_rows) value ↔
      AggregateFunction.GroupRight function type (placed place group_rows) := by
  obtain ⟨field_name,args,call,of_name,found⟩ := aggregate
  have column_of := placed_column typed found
  have some_value : placed place group_rows ≠ [] := by
    obtain ⟨first,rest,rfl⟩ := List.exists_cons_of_ne_nil filled
    obtain ⟨_,at_place,_⟩ := evaluate_place functions (typed first List.mem_cons_self) found
    rw [placed_cons at_place]
    exact List.cons_ne_nil _ _
  rw [call] at shown
  simp only [groupColumn,of_name] at shown
  cases folded : group_rows.foldlM (fun agg_result record_values => do
      let arg_values ← (Expression.field field_name :: args).mapM (functions.evaluate tdef record_values)
      function.groupUpdate checks name agg_result arg_values) function.groupInitial with
  | error fault =>
    rw [folded] at shown
    cases shown
  | ok total =>
    rw [folded] at shown
    have finished : function.groupFinish group_rows.length total = value := Except.ok.inj shown
    have exact := AggregateFunction.group_exact_iff checks name column_of some_value
      (column_fold found typed folded)
    cases function with
    | count | sum | min | max =>
      obtain rfl : total = value := finished
      exact exact
    | avg | stddev | var | stddevSamp | varSamp | movingAverage | movingSum | timeBucket => exact Iff.rfl

-- The row of a group is exact if and only if each aggregate in it is one that
-- comes out right.
theorem row_exact_iff {group_rows : List RecordValues} {row : ResultRow} (typed : RowsTyped tdef group_rows)
    (filled : group_rows ≠ []) (shown : groupRow checks functions tdef columns group_rows = .ok row) :
    RowExact checks tdef columns group_rows row ↔
      ∀ column ∈ columns, ∀ name function place type, IntegerAggregate tdef column name function place type →
        AggregateFunction.GroupRight function type (placed place group_rows) := by
  have each := mapM_outputs shown
  clear shown
  unfold RowExact
  induction each with
  | nil => exact ⟨fun _ _ => nofun,fun _ => .nil⟩
  | cons first others ih =>
    rw [List.forall₂_cons,List.forall_mem_cons]
    refine and_congr ?_ ih
    constructor
    · intro exact name function place type aggregate
      exact (column_exact_iff typed filled first aggregate).mp (exact name function place type aggregate)
    · intro right name function place type aggregate
      exact (column_exact_iff typed filled first aggregate).mpr (right name function place type aggregate)

-- Groups are exact and so is every row if and only if two rows have equal
-- hashes exactly when they are equal on the grouping columns, and each
-- aggregate of an integer column is one that comes out right on its group.
theorem group_by_exact_iff (checks : Bool) (functions : GroupFunctions) (tdef : TableDef) (columns : List SelectColumn)
    (group_by : List Expression) (records : List RecordValues) (groups : List (List RecordValues)) (rows : List ResultRow)
    (typed : RowsTyped tdef records)
    (done : processGroups checks functions tdef columns group_by records = .ok (groups,rows)) :
    (Grouped (fun one other => groupedBy functions tdef columns group_by TypedValue.content one =
        groupedBy functions tdef columns group_by TypedValue.content other) records groups ∧
      List.Forall₂ (RowExact checks tdef columns) groups rows) ↔
    (∀ one ∈ records, ∀ other ∈ records,
      (groupedBy functions tdef columns group_by hashTypedValue one =
          groupedBy functions tdef columns group_by hashTypedValue other ↔
        groupedBy functions tdef columns group_by TypedValue.content one =
          groupedBy functions tdef columns group_by TypedValue.content other)) ∧
    ∀ record ∈ records, ∀ column ∈ columns, ∀ name function place type,
      IntegerAggregate tdef column name function place type →
        AggregateFunction.GroupRight function type (placed place
          (itemsAt (groupedBy functions tdef columns group_by TypedValue.content) records
            (groupedBy functions tdef columns group_by TypedValue.content record))) := by
  let hashes := groupedBy functions tdef columns group_by hashTypedValue
  let tuple := groupedBy functions tdef columns group_by TypedValue.content
  let keys := ((records.map hashes).mergeSort fun left right => (compare left right).isLE).dedup
  have occurs : ∀ wanted, wanted ∈ keys ↔ ∃ record ∈ records, hashes record = wanted := by
    intro wanted
    rw [List.mem_dedup,List.mem_mergeSort,List.mem_map]
  unfold processGroups at done
  cases grouped : groupRecords functions tdef columns group_by records with
  | error fault =>
    rw [grouped] at done
    cases done
  | ok made =>
    rw [grouped] at done
    cases shown : made.mapM (groupRow checks functions tdef columns) with
    | error fault =>
      change (made.mapM (groupRow checks functions tdef columns) >>= fun rows => pure (made,rows)) = _ at done
      rw [shown] at done
      cases done
    | ok output =>
      change (made.mapM (groupRow checks functions tdef columns) >>= fun rows => pure (made,rows)) = _ at done
      rw [shown] at done
      obtain ⟨rfl,rfl⟩ := Prod.mk.inj (Except.ok.inj done)
      have made_eq : made = keys.map (itemsAt hashes records) := groupRecords_eq grouped
      have exact_groups := grouped_iff hashes (fun one other => tuple one = tuple other) (fun _ _ same => same.symm)
        (List.nodup_dedup _) records occurs
      rw [← made_eq] at exact_groups
      refine (and_congr_left' exact_groups).trans (and_congr_right fun telling => ?_)
      -- The groups are those of the tuples now.
      have alike : ∀ record ∈ records, itemsAt hashes records (hashes record) = itemsAt tuple records (tuple record) := by
        intro record inside
        refine List.filter_congr fun other member => ?_
        rw [decide_eq_decide]
        exact telling other member record inside
      have each := mapM_outputs shown
      have rows_iff : List.Forall₂ (RowExact checks tdef columns) made output ↔ ∀ group ∈ made, ∀ column ∈ columns,
          ∀ name function place type, IntegerAggregate tdef column name function place type →
            AggregateFunction.GroupRight function type (placed place group) := by
        have filled : ∀ group ∈ made, group ≠ [] ∧ RowsTyped tdef group := by
          intro group member
          rw [made_eq] at member
          obtain ⟨wanted,inside,rfl⟩ := List.mem_map.mp member
          obtain ⟨record,among,at_wanted⟩ := (occurs wanted).mp inside
          exact ⟨List.ne_nil_of_mem (mem_itemsAt.mpr ⟨among,at_wanted⟩),
            fun each inGroup => typed each (mem_itemsAt.mp inGroup).1⟩
        clear made_eq exact_groups grouped shown done
        induction each with
        | nil => exact ⟨fun _ _ => nofun,fun _ => .nil⟩
        | cons first others ih =>
          obtain ⟨head,tail⟩ := List.forall_mem_cons.mp filled
          rw [List.forall₂_cons,List.forall_mem_cons]
          exact and_congr (row_exact_iff head.2 head.1 first) (ih tail)
      rw [rows_iff]
      constructor
      · intro right record inside
        have member : itemsAt hashes records (hashes record) ∈ made := by
          rw [made_eq]
          exact List.mem_map_of_mem ((occurs _).mpr ⟨record,inside,rfl⟩)
        rw [← alike record inside]
        exact right _ member
      · intro right group member
        rw [made_eq] at member
        obtain ⟨wanted,inKeys,rfl⟩ := List.mem_map.mp member
        obtain ⟨record,inside,rfl⟩ := (occurs wanted).mp inKeys
        rw [alike record inside]
        exact right record inside

theorem toOption_ok {outcome : Except ε α} (some_value : outcome.toOption = some value) : outcome = .ok value := by
  cases outcome with
  | error fault => cases some_value
  | ok found => exact congrArg Except.ok (Option.some.inj some_value)

theorem processGroups_sorted (keyed : List (List UInt64 × RecordValues)) {groups : List (List RecordValues)}
    {rows : List ResultRow}
    (keys : (records.mapM fun record_values => do
      let values ← groupKey functions tdef columns group_by record_values
      pure (values.map hashTypedValue,record_values)).toOption = some keyed)
    (sorted : (keyed.map (·.1)).Pairwise fun left right => (compare left right).isLE)
    (made : ((keyed.map (·.1)).dedup.map fun key => (keyed.filter fun each => each.1 = key).map (·.2)) = groups)
    (shown : (groups.mapM (groupRow checks functions tdef columns)).toOption = some rows) :
    processGroups checks functions tdef columns group_by records = .ok (groups,rows) := by
  have grouped : groupRecords functions tdef columns group_by records = .ok groups := by
    rw [groupRecords,toOption_ok keys]
    change Except.ok (groupsBy keyed) = _
    rw [groupsBy,List.mergeSort_of_pairwise sorted,made]
  rw [processGroups,grouped]
  change (groups.mapM (groupRow checks functions tdef columns) >>= fun rows => pure (groups,rows)) = _
  rw [toOption_ok shown]
  rfl

end Query

def salesDef : TableDef :=
  ⟨0,"sales",[⟨"kind",.varChar,8,some 8,0,true,true,false,false,none⟩,⟨"price",.uint8,1,none,8,false,false,false,false,none⟩],
    [0],9,8⟩
def sale (kind : String) (price : UInt8) : RecordValues := [⟨.varChar,padTo maxStringLen (utf8 kind)⟩,⟨.uint8,[price]⟩]
def fieldsOnly : GroupFunctions := ⟨fun _ _ _ => .error (.error .invalidCondition),fun _ _ => .error (.error .invalidCondition)⟩
def kindAndPrice : List SelectColumn := [⟨.field "kind",none⟩,⟨.functionCall "SUM" [.field "price"],none⟩]

theorem sales_typed (sales : List (String × UInt8)) : RowsTyped salesDef (sales.map fun each => sale each.1 each.2) := by
  intro record member
  obtain ⟨each,_,rfl⟩ := List.mem_map.mp member
  rfl

theorem price_aggregate {column : SelectColumn} {function : AggregateFunction} (among : column ∈ kindAndPrice)
    (aggregate : IntegerAggregate salesDef column name function place type) :
    function = .sum ∧ place = 1 ∧ type = .uint8 := by
  obtain ⟨field_name,args,call,of_name,found⟩ := aggregate
  simp only [kindAndPrice,List.mem_cons,List.not_mem_nil,or_false] at among
  rcases among with rfl | rfl
  · cases call
  · obtain ⟨rfl,rfl,rfl⟩ : "SUM" = name ∧ "price" = field_name ∧ [] = args := by
      injection call with called given
      injection given with first rest
      injection first with same
      exact ⟨called,same,rest⟩
    have known : AggregateFunction.ofGroupName "SUM" = some .sum := by decide +kernel
    have located : integerPlace salesDef "price" = some (1,.uint8) := by decide +kernel
    obtain ⟨rfl,rfl⟩ := Prod.mk.inj (Option.some.inj (found.symm.trans located))
    exact ⟨Option.some.inj (of_name.symm.trans known),rfl,rfl⟩

-- Two kinds whose texts do not collide, and prices with sums that fit.
theorem group_by_exact_sales :
    Grouped (fun one other => groupedBy fieldsOnly salesDef kindAndPrice [.field "kind"] TypedValue.content one =
        groupedBy fieldsOnly salesDef kindAndPrice [.field "kind"] TypedValue.content other)
      [sale "jam" 5,sale "tea" 3,sale "tea" 4] [[sale "jam" 5],[sale "tea" 3,sale "tea" 4]] ∧
    List.Forall₂ (RowExact false salesDef kindAndPrice) [[sale "jam" 5],[sale "tea" 3,sale "tea" 4]]
      [sale "jam" 5,sale "tea" 7] := by
  refine (group_by_exact_iff false fieldsOnly salesDef kindAndPrice [.field "kind"] [sale "jam" 5,sale "tea" 3,sale "tea" 4]
    _ _ (sales_typed [("jam",5),("tea",3),("tea",4)]) (processGroups_sorted
      [([106*31*31+97*31+109],sale "jam" 5),([116*31*31+101*31+97],sale "tea" 3),([116*31*31+101*31+97],sale "tea" 4)]
      (by decide +kernel) (by decide +kernel) (by decide +kernel) (by decide +kernel))).mpr ⟨by decide +kernel,?_⟩
  intro record inside column among name function place type aggregate
  obtain ⟨rfl,rfl,rfl⟩ := price_aggregate among aggregate
  have small : ∀ record ∈ [sale "jam" 5,sale "tea" 3,sale "tea" 4], ∀ count ≤ 3, DataType.uint8.InRange
      (amounts ((placed 1 (itemsAt (groupedBy fieldsOnly salesDef kindAndPrice [.field "kind"] TypedValue.content)
        [sale "jam" 5,sale "tea" 3,sale "tea" 4]
        (groupedBy fieldsOnly salesDef kindAndPrice [.field "kind"] TypedValue.content record))).take count)).sum := by
    decide +kernel
  refine AggregateFunction.sumsFit_of_prefixes fun count short => small record inside count (Nat.le_trans short ?_)
  refine Nat.le_trans (List.length_filterMap_le _ _) ?_
  exact List.length_filter_le _ [sale "jam" 5,sale "tea" 3,sale "tea" 4]

-- The texts `Aa` and `BB` have one hash, and so one group.
theorem kinds_collide : ¬ ∀ (checks : Bool) (functions : GroupFunctions) (tdef : TableDef) (columns : List SelectColumn)
    (group_by : List Expression) (records : List RecordValues) (groups : List (List RecordValues)) (rows : List ResultRow),
    RowsTyped tdef records → processGroups checks functions tdef columns group_by records = .ok (groups,rows) →
      Grouped (fun one other => groupedBy functions tdef columns group_by TypedValue.content one =
          groupedBy functions tdef columns group_by TypedValue.content other) records groups ∧
        List.Forall₂ (RowExact checks tdef columns) groups rows := by
  intro always
  have exact := (always false fieldsOnly salesDef kindAndPrice [.field "kind"] [sale "Aa" 1,sale "BB" 2]
    [[sale "Aa" 1,sale "BB" 2]] [sale "Aa" 3] (sales_typed [("Aa",1),("BB",2)]) (processGroups_sorted
      [([65*31+97],sale "Aa" 1),([66*31+66],sale "BB" 2)]
      (by decide +kernel) (by decide +kernel) (by decide +kernel) (by decide +kernel))).1
  have alike := exact.together _ List.mem_cons_self (sale "Aa" 1) (by simp) (sale "BB" 2) (by simp)
  exact absurd alike (by decide +kernel)

end RemDb
