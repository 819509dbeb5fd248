import Mathlib.Algebra.Order.Field.Rat
import Mathlib.Tactic.Linarith
import Mathlib.Tactic.NormNum
import RemDb.Lib.Grouping
import RemDb.Lib.Keyed
import RemDb.TimeSeries.Partition

namespace RemDb
namespace TimeSeries
open RemDb.Lib

structure PreAggregationConfig where
  interval_seconds : UInt64
  aggregation : String
deriving DecidableEq,Repr

structure Aggregate where
  time_bucket : UInt64
  tag_hash : UInt64
  value : Rat
deriving DecidableEq,Repr

def Aggregate.place (entry : Aggregate) : UInt64 × UInt64 := (entry.time_bucket,entry.tag_hash)

structure PreAggregationStore where
  configs : List PreAggregationConfig
  data : Keyed Aggregate.place

-- `f64::MAX`.
def maxDouble : Rat := (2^53-1)*2^971

-- The width of a bucket, which the release build does not check.
def PreAggregationConfig.nanos (config : PreAggregationConfig) : UInt64 := config.interval_seconds*1000000000

-- The bucket of a record and its tags, of which only the number counts.
def placeIn (interval_nanos : UInt64) (record : ExactRecord) : UInt64 × UInt64 :=
  (record.timestamp/interval_nanos,record.tag_count.toUInt64)

-- What an aggregation makes of the value that is stored so far.
def updated (aggregation : String) (current : Option Rat) (value : Rat) : Option Rat :=
  if aggregation = "avg" then some ((current.getD 0+value)/2)
  else if aggregation = "sum" then some (current.getD 0+value)
  else if aggregation = "min" then some (min (current.getD maxDouble) value)
  else if aggregation = "max" then some (max (current.getD (-maxDouble)) value)
  else none

-- One turn of the loop over the configurations. `none` is a division by zero.
def updateConfig (record : ExactRecord) (data : Keyed Aggregate.place) (config : PreAggregationConfig) :
    Option (Keyed Aggregate.place) :=
  if config.nanos = 0 then none
  else
    let key := placeIn config.nanos record
    match updated config.aggregation ((data.get key).map (·.value)) record.value with
    | some value => some (data.insert ⟨key.1,key.2,value⟩)
    | none => some data

namespace PreAggregationStore

def new : PreAggregationStore := ⟨[],.empty⟩

def addPreAggregation (store : PreAggregationStore) (config : PreAggregationConfig) : PreAggregationStore :=
  if config ∈ store.configs then store else {store with configs:=store.configs ++ [config]}

def updatePreAggregations (store : PreAggregationStore) (record : ExactRecord) : Option PreAggregationStore :=
  (store.configs.foldlM (updateConfig record) store.data).map fun data => {store with data:=data}

def bucketRows (data : Keyed Aggregate.place) (interval_nanos : UInt64) (bucket : Nat) : List ExactRecord :=
  (data.entries.filter fun entry => decide (entry.time_bucket.toNat = bucket)).map fun entry =>
    ⟨UInt64.ofNat bucket*interval_nanos,entry.value,0,[0,0,0,0,0,0,0,0]⟩

def queryPreAggregated (store : PreAggregationStore) (start_time end_time : UInt64) (config : PreAggregationConfig) :
    Option (Except RemDbError (List ExactRecord)) :=
  if config ∈ store.configs then
    if config.nanos = 0 then none
    else
      let start_bucket := (start_time/config.nanos).toNat
      let end_bucket := (end_time/config.nanos).toNat
      some (.ok ((List.range' start_bucket (end_bucket+1-start_bucket)).flatMap (bucketRows store.data config.nanos)))
  else some (.error .configError)

-- The configurations first, and then the records.
def written (adds : List PreAggregationConfig) (records : List ExactRecord) : Option PreAggregationStore :=
  records.foldlM updatePreAggregations (adds.foldl addPreAggregation new)

end PreAggregationStore

-- The aggregates that a query stands for, over the records themselves: one for
-- each bucket that the range touches and each number of tags in it.
section Recomputing

def aggregate (aggregation : String) : List Rat → Rat
  | [] => 0
  | first :: rest =>
    if aggregation = "sum" then rest.foldl (· + ·) first
    else if aggregation = "min" then rest.foldl min first
    else rest.foldl max first

def groupOf (width : Nat) (record : ExactRecord) : Nat × Nat := (record.timestamp.toNat/width,record.tag_count.toNat)

def recomputed (records : List ExactRecord) (start_time end_time width : Nat) (aggregation : String) : List (Nat × Rat) :=
  ((records.map (groupOf width)).dedup.filter fun group =>
    decide (group.1*width ≤ end_time) && decide (start_time < (group.1+1)*width)).map fun group =>
      (group.1*width,aggregate aggregation ((itemsAt (groupOf width) records group).map (·.value)))

end Recomputing

-- An integer that a double can hold.
structure Whole (value : Rat) : Prop where
  integer : ∃ n : Int, value = n
  least : -maxDouble ≤ value
  most : value ≤ maxDouble

-- Every query of every configuration gives the aggregates of the records.
def PreAggregates (adds : List PreAggregationConfig) : Prop :=
  ∀ records : List ExactRecord, (∀ record ∈ records, Whole record.value) →
    ∃ store, PreAggregationStore.written adds records = some store ∧
      ∀ config ∈ adds, ∀ start_time end_time : UInt64, ∃ rows,
        store.queryPreAggregated start_time end_time config = some (.ok rows) ∧
          (rows.map fun row => (row.timestamp.toNat,row.value)).Perm
            (recomputed records start_time.toNat end_time.toNat (config.interval_seconds.toNat*10^9) config.aggregation)

section Folding
variable {σ α : Type} {step : σ → α → Option σ} {P : σ → Prop}

theorem foldlM_keeps (keeps : ∀ state item after, step state item = some after → P state → P after) (items : List α)
    {state last : σ} (run : items.foldlM step state = some last) (held : P state) : P last := by
  induction items generalizing state with
  | nil =>
    cases run
    exact held
  | cons item rest ih =>
    obtain ⟨after,stepped,run_rest⟩ := Option.bind_eq_some_iff.mp run
    exact ih run_rest (keeps state item after stepped held)

theorem foldlM_reaches (keeps : ∀ state item after, step state item = some after → P state → P after) {wanted : α}
    (sets : ∀ state after, step state wanted = some after → P after) (items : List α) (among : wanted ∈ items)
    {state last : σ} (run : items.foldlM step state = some last) : P last := by
  induction items generalizing state with
  | nil => cases among
  | cons item rest ih =>
    obtain ⟨after,stepped,run_rest⟩ := Option.bind_eq_some_iff.mp run
    rcases List.mem_cons.mp among with rfl | later
    · exact foldlM_keeps keeps rest run_rest (sets state after stepped)
    · exact ih later run_rest

end Folding

namespace PreAggregationStore

section Writing

theorem add_configs (adds : List PreAggregationConfig) (store : PreAggregationStore) (config : PreAggregationConfig) :
    config ∈ (adds.foldl addPreAggregation store).configs ↔ config ∈ store.configs ∨ config ∈ adds := by
  induction adds generalizing store with
  | nil => exact ⟨.inl,fun held => held.resolve_right List.not_mem_nil⟩
  | cons add rest ih =>
    rw [List.foldl_cons,ih,List.mem_cons,← or_assoc]
    refine or_congr_left ?_
    rw [addPreAggregation]
    split
    · rename_i there
      refine ⟨.inl,fun held => held.elim id ?_⟩
      rintro rfl
      exact there
    · rw [List.mem_append,List.mem_singleton]

theorem add_same (config : PreAggregationConfig) (adds : List PreAggregationConfig) (same : ∀ add ∈ adds, add = config) :
    adds = [] ∨ adds.foldl addPreAggregation new = ⟨[config],.empty⟩ := by
  have held : ∀ adds : List PreAggregationConfig, (∀ add ∈ adds, add = config) →
      adds.foldl addPreAggregation ⟨[config],.empty⟩ = ⟨[config],.empty⟩ := by
    intro adds same
    induction adds with
    | nil => rfl
    | cons add rest ih =>
      obtain rfl := same add List.mem_cons_self
      rw [List.foldl_cons,addPreAggregation,if_pos List.mem_cons_self]
      exact ih fun other among => same other (List.mem_cons_of_mem _ among)
  cases adds with
  | nil => exact .inl rfl
  | cons add rest =>
    obtain rfl := same add List.mem_cons_self
    refine .inr ?_
    rw [List.foldl_cons,addPreAggregation,new,if_neg List.not_mem_nil]
    exact held rest fun other among => same other (List.mem_cons_of_mem _ among)

theorem written_data (records : List ExactRecord) (store : PreAggregationStore) :
    records.foldlM updatePreAggregations store =
      (records.foldlM (fun data record => store.configs.foldlM (updateConfig record) data) store.data).map
        fun data => ({store with data:=data} : PreAggregationStore) := by
  induction records generalizing store with
  | nil => rfl
  | cons record rest ih =>
    rw [List.foldlM_cons,List.foldlM_cons,updatePreAggregations]
    cases store.configs.foldlM (updateConfig record) store.data with
    | none => rfl
    | some data => exact ih {store with data:=data}

end Writing

section Keys
variable {record : ExactRecord} {config : PreAggregationConfig} {data data' : Keyed Aggregate.place}

def Exact (aggregation : String) : Prop := aggregation = "sum" ∨ aggregation = "min" ∨ aggregation = "max"

-- A value for each of the aggregations that are exact.
def combine (aggregation : String) (current : Option Rat) (value : Rat) : Rat :=
  if aggregation = "sum" then current.getD 0+value
  else if aggregation = "min" then min (current.getD maxDouble) value
  else max (current.getD (-maxDouble)) value

theorem updated_exact {aggregation : String} (exact : Exact aggregation) (current : Option Rat) (value : Rat) :
    updated aggregation current value = some (combine aggregation current value) := by
  rcases exact with rfl | rfl | rfl <;> rfl

theorem updateConfig_exact (exact : Exact config.aggregation) (positive : config.nanos ≠ 0) :
    updateConfig record data config = some (data.insert ⟨(placeIn config.nanos record).1,(placeIn config.nanos record).2,
      combine config.aggregation ((data.get (placeIn config.nanos record)).map (·.value)) record.value⟩) := by
  rw [updateConfig,if_neg positive]
  dsimp only
  rw [updated_exact exact]

theorem updateConfig_keeps (config : PreAggregationConfig) (key : UInt64 × UInt64)
    (done : updateConfig record data config = some data') (held : data.get key ≠ none) : data'.get key ≠ none := by
  rw [updateConfig] at done
  split at done
  · cases done
  dsimp only at done
  split at done
  · cases done
    rw [Keyed.get_insert]
    split
    · exact Option.some_ne_none _
    · exact held
  · cases done
    exact held

theorem updateConfig_sets (exact : Exact config.aggregation) (done : updateConfig record data config = some data') :
    data'.get (placeIn config.nanos record) ≠ none := by
  by_cases zero : config.nanos = 0
  · rw [updateConfig,if_pos zero] at done
    cases done
  · rw [updateConfig_exact exact zero] at done
    cases done
    rw [Keyed.get_insert]
    exact if_pos rfl ▸ Option.some_ne_none _

theorem written_keys {adds : List PreAggregationConfig} {records : List ExactRecord} {store : PreAggregationStore}
    (done : written adds records = some store) (among : config ∈ adds) (exact : Exact config.aggregation)
    (written : record ∈ records) : config ∈ store.configs ∧ store.data.get (placeIn config.nanos record) ≠ none := by
  rw [PreAggregationStore.written,written_data] at done
  obtain ⟨data,run,rfl⟩ := Option.map_eq_some_iff.mp done
  have known : config ∈ (adds.foldl addPreAggregation new).configs := (add_configs adds new config).mpr (.inr among)
  refine ⟨known,?_⟩
  refine foldlM_reaches (P := fun data : Keyed Aggregate.place => data.get (placeIn config.nanos record) ≠ none) ?_ ?_ records written run
  · intro before other after stepped held
    exact foldlM_keeps (fun _ config _ done held => updateConfig_keeps config _ done held) _ stepped held
  · intro before after stepped
    exact foldlM_reaches (fun _ config _ done held => updateConfig_keeps config _ done held)
      (fun _ _ done => updateConfig_sets exact done) _ known stepped

theorem written_positive {adds : List PreAggregationConfig} {records : List ExactRecord} {store : PreAggregationStore}
    (done : written adds records = some store) (among : config ∈ adds) (written : record ∈ records) : config.nanos ≠ 0 := by
  intro zero
  rw [PreAggregationStore.written,written_data] at done
  obtain ⟨data,run,rfl⟩ := Option.map_eq_some_iff.mp done
  have known : config ∈ (adds.foldl addPreAggregation new).configs := (add_configs adds new config).mpr (.inr among)
  refine foldlM_reaches (P := fun _ => False) (fun _ _ _ _ never => never) ?_ records written run
  intro before after stepped
  refine foldlM_reaches (P := fun _ => False) (fun _ _ _ _ never => never) ?_ _ known stepped
  intro before after stepped
  rw [updateConfig,if_pos zero] at stepped
  cases stepped

end Keys
section Rows

theorem buckets_perm (entries : List Aggregate) (first count : Nat) :
    ((List.range' first count).flatMap fun bucket =>
      entries.filter fun entry => decide (entry.time_bucket.toNat = bucket)).Perm
        (entries.filter fun entry =>
          decide (first ≤ entry.time_bucket.toNat) && decide (entry.time_bucket.toNat < first+count)) := by
  have within (entry : Aggregate) : (decide (first ≤ entry.time_bucket.toNat) && decide (entry.time_bucket.toNat < first+count)) = true ↔
      entry.time_bucket.toNat ∈ List.range' first count := by
    rw [Bool.and_eq_true,decide_eq_true_iff,decide_eq_true_iff,List.mem_range'_1]
  have grouped := itemsAt_perm (fun entry : Aggregate => entry.time_bucket.toNat) (@List.nodup_range' first count 1 (by decide))
    (entries.filter fun entry => decide (first ≤ entry.time_bucket.toNat) && decide (entry.time_bucket.toNat < first+count))
    (fun entry among => (within entry).mp (List.mem_filter.mp among).2)
  rw [List.flatMap_def]
  refine (List.Perm.of_eq (congrArg List.flatten (List.map_congr_left fun bucket inside => ?_))).trans grouped
  rw [itemsAt,List.filter_filter]
  refine List.filter_congr fun entry _ => ?_
  by_cases here : entry.time_bucket.toNat = bucket
  · rw [(within entry).mpr (here ▸ inside),Bool.and_true]
  · rw [decide_eq_false here,Bool.false_and]

def pair (row : ExactRecord) : Nat × Rat := (row.timestamp.toNat,row.value)

theorem rows_perm (data : Keyed Aggregate.place) (interval_nanos : UInt64) (first count : Nat) :
    (((List.range' first count).flatMap (bucketRows data interval_nanos)).map pair).Perm
      ((data.entries.filter fun entry =>
        decide (first ≤ entry.time_bucket.toNat) && decide (entry.time_bucket.toNat < first+count)).map
          fun entry => ((entry.time_bucket*interval_nanos).toNat,entry.value)) := by
  refine List.Perm.trans (List.Perm.of_eq ?_) ((buckets_perm data.entries first count).map _)
  rw [List.map_flatMap,List.map_flatMap]
  refine congrArg List.flatten (List.map_congr_left fun bucket _ => ?_)
  rw [bucketRows,List.map_map]
  refine List.map_congr_left fun entry among => ?_
  have here := of_decide_eq_true (List.mem_filter.mp among).2
  rw [← here,Function.comp_apply,pair,UInt64.ofNat_toNat]

end Rows

section Holding
variable {config : PreAggregationConfig} {records : List ExactRecord} {data : Keyed Aggregate.place}

def stored (aggregation : String) (values : List Rat) : Option Rat :=
  if values = [] then none else some (aggregate aggregation values)

def valuesAt (config : PreAggregationConfig) (records : List ExactRecord) (key : UInt64 × UInt64) : List Rat :=
  (itemsAt (placeIn config.nanos) records key).map (·.value)

-- The map has the aggregates of the records so far.
def Holds (config : PreAggregationConfig) (records : List ExactRecord) (data : Keyed Aggregate.place) : Prop :=
  ∀ key, (data.get key).map (·.value) = stored config.aggregation (valuesAt config records key)

theorem combine_stored {aggregation : String} (exact : Exact aggregation) (values : List Rat) {value : Rat} (whole : Whole value) :
    some (combine aggregation (stored aggregation values) value) = stored aggregation (values ++ [value]) := by
  have filled : values ++ [value] ≠ [] := List.append_ne_nil_of_right_ne_nil _ (List.cons_ne_nil _ _)
  have last : stored aggregation (values ++ [value]) = some (aggregate aggregation (values ++ [value])) := if_neg filled
  rw [last,stored]
  cases values with
  | nil =>
    rcases exact with rfl | rfl | rfl
    · exact congrArg some (zero_add value)
    · exact congrArg some (min_eq_right whole.most)
    · exact congrArg some (max_eq_right whole.least)
  | cons first rest =>
    rw [if_neg (List.cons_ne_nil _ _),List.cons_append,aggregate,aggregate]
    rcases exact with rfl | rfl | rfl
    · exact congrArg some (List.foldl_concat (· + ·) first value rest).symm
    · exact congrArg some (List.foldl_concat min first value rest).symm
    · exact congrArg some (List.foldl_concat max first value rest).symm

theorem valuesAt_concat (record : ExactRecord) (key : UInt64 × UInt64) : valuesAt config (records ++ [record]) key =
    valuesAt config records key ++ if placeIn config.nanos record = key then [record.value] else [] := by
  rw [valuesAt,itemsAt,List.filter_append,List.map_append]
  refine congrArg (valuesAt config records key ++ ·) ?_
  by_cases here : placeIn config.nanos record = key
  · rw [if_pos here,List.filter_singleton,decide_eq_true here]
    rfl
  · rw [if_neg here,List.filter_singleton,decide_eq_false here]
    rfl

theorem update_holds (exact : Exact config.aggregation) (positive : config.nanos ≠ 0) (holds : Holds config records data)
    {record : ExactRecord} (whole : Whole record.value) :
    ∃ data', [config].foldlM (updateConfig record) data = some data' ∧ Holds config (records ++ [record]) data' := by
  refine ⟨_,by rw [List.foldlM_cons,updateConfig_exact exact positive]; rfl,fun key => ?_⟩
  rw [Keyed.get_insert,valuesAt_concat]
  change Option.map _ (if placeIn config.nanos record = key then _ else _) = _
  by_cases here : placeIn config.nanos record = key
  · rw [if_pos here,if_pos here,← here,holds,← combine_stored exact _ whole]
    rfl
  · rw [if_neg here,if_neg here,List.append_nil,holds]

theorem run_holds (exact : Exact config.aggregation) (positive : config.nanos ≠ 0) (records : List ExactRecord)
    (whole : ∀ record ∈ records, Whole record.value) :
    ∃ data, records.foldlM (fun data record => [config].foldlM (updateConfig record) data) Keyed.empty = some data ∧
      Holds config records data := by
  induction records using List.reverseRecOn with
  | nil => exact ⟨_,rfl,fun _ => rfl⟩
  | append_singleton rest record ih =>
    obtain ⟨data,run,holds⟩ := ih fun other among => whole other (List.mem_append_left _ among)
    obtain ⟨data',stepped,after⟩ := update_holds exact positive holds (whole record (List.mem_append_right _ List.mem_cons_self))
    refine ⟨data',?_,after⟩
    rw [List.foldlM_append,run]
    rw [Option.bind_eq_bind,Option.bind_some,List.foldlM_cons,stepped]
    rfl

end Holding
section Exact
variable {config : PreAggregationConfig} {records : List ExactRecord} {data : Keyed Aggregate.place} {width : Nat}

-- The interval is not zero, and its nanoseconds fit into 64 bits.
def Sized (config : PreAggregationConfig) : Prop :=
  0 < config.interval_seconds.toNat ∧ config.interval_seconds.toNat*10^9 < 2^64

theorem nanos_toNat (sized : Sized config) : config.nanos.toNat = config.interval_seconds.toNat*10^9 := by
  rw [PreAggregationConfig.nanos,UInt64.toNat_mul]
  exact Nat.mod_eq_of_lt sized.2

def counted (key : UInt64 × UInt64) : Nat × Nat := (key.1.toNat,key.2.toNat)

theorem counted_injective {left right : UInt64 × UInt64} (same : counted left = counted right) : left = right :=
  Prod.ext (UInt64.toNat_inj.mp (Prod.mk.inj same).1) (UInt64.toNat_inj.mp (Prod.mk.inj same).2)

theorem counted_placeIn (wide : config.nanos.toNat = width) (record : ExactRecord) :
    counted (placeIn config.nanos record) = groupOf width record := by
  rw [counted,placeIn,groupOf,UInt64.toNat_div,wide,UInt8.toNat_toUInt64]

theorem itemsAt_counted (wide : config.nanos.toNat = width) (key : UInt64 × UInt64) :
    itemsAt (groupOf width) records (counted key) = itemsAt (placeIn config.nanos) records key := by
  refine List.filter_congr fun record _ => decide_eq_decide.mpr ?_
  rw [← counted_placeIn wide]
  exact ⟨counted_injective,congrArg counted⟩

theorem holds_value (holds : Holds config records data) {entry : Aggregate} (among : entry ∈ data.entries) :
    (∃ record ∈ records, placeIn config.nanos record = entry.place) ∧
      entry.value = aggregate config.aggregation (valuesAt config records entry.place) := by
  have found := holds entry.place
  rw [data.get_of_mem among,Option.map_some,stored] at found
  by_cases empty : valuesAt config records entry.place = []
  · rw [if_pos empty] at found
    cases found
  · rw [if_neg empty] at found
    obtain ⟨value,listed⟩ := List.exists_mem_of_ne_nil _ empty
    obtain ⟨record,here,_⟩ := List.mem_map.mp listed
    exact ⟨⟨record,mem_itemsAt.mp here⟩,Option.some.inj found⟩

theorem holds_keys (wide : config.nanos.toNat = width) (holds : Holds config records data) :
    (data.entries.map fun entry => counted entry.place).Perm
      (records.map (groupOf width)).dedup := by
  have distinct : (data.entries.map fun entry => counted entry.place).Nodup := by
    have mapped := data.distinct.map (f := counted) fun _ _ => counted_injective
    rwa [List.map_map] at mapped
  refine (List.perm_ext_iff_of_nodup distinct (List.nodup_dedup _)).mpr fun group => ?_
  rw [List.mem_dedup]
  constructor
  · intro listed
    obtain ⟨entry,among,rfl⟩ := List.mem_map.mp listed
    obtain ⟨record,written,here⟩ := (holds_value holds among).1
    exact List.mem_map.mpr ⟨record,written,by rw [← counted_placeIn wide,here]⟩
  · intro listed
    obtain ⟨record,written,rfl⟩ := List.mem_map.mp listed
    have found := holds (placeIn config.nanos record)
    have filled : valuesAt config records (placeIn config.nanos record) ≠ [] := by
      refine List.ne_nil_of_mem (List.mem_map.mpr ⟨record,mem_itemsAt.mpr ⟨written,rfl⟩,rfl⟩)
    rw [stored,if_neg filled,Option.map_eq_some_iff] at found
    obtain ⟨entry,got,_⟩ := found
    obtain ⟨among,named⟩ := data.get_eq_some.mp got
    exact List.mem_map.mpr ⟨entry,among,by rw [named,counted_placeIn wide]⟩

theorem within_iff {bucket first last : Nat} (positive : 0 < width) :
    (first/width ≤ bucket ∧ bucket < first/width+(last/width+1-first/width)) ↔ bucket*width ≤ last ∧ first < (bucket+1)*width := by
  have below : bucket*width ≤ last ↔ bucket ≤ last/width := (Nat.le_div_iff_mul_le positive).symm
  have above : first < (bucket+1)*width ↔ first/width < bucket+1 := (Nat.div_lt_iff_lt_mul positive).symm
  rw [below,above]
  omega

theorem rows_recomputed (wide : config.nanos.toNat = width) (positive : 0 < width) (holds : Holds config records data)
    (start_time end_time : UInt64) :
    (((List.range' (start_time/config.nanos).toNat ((end_time/config.nanos).toNat+1-(start_time/config.nanos).toNat)).flatMap
      (bucketRows data config.nanos)).map pair).Perm
        (recomputed records start_time.toNat end_time.toNat width config.aggregation) := by
  refine (rows_perm data config.nanos _ _).trans ?_
  rw [UInt64.toNat_div,UInt64.toNat_div,wide]
  have listed := ((holds_keys wide holds).filter fun group =>
    decide (group.1*width ≤ end_time.toNat) &&
      decide (start_time.toNat < (group.1+1)*width)).map fun group =>
        (group.1*width,
          aggregate config.aggregation ((itemsAt (groupOf width) records group).map (·.value)))
  refine (List.Perm.of_eq ?_).trans listed
  rw [List.filter_map,List.map_map]
  have same : (data.entries.filter fun entry =>
      decide (start_time.toNat/width ≤ entry.time_bucket.toNat) &&
        decide (entry.time_bucket.toNat < start_time.toNat/width+
          (end_time.toNat/width+1-start_time.toNat/width))) =
      data.entries.filter ((fun group : Nat × Nat =>
        decide (group.1*width ≤ end_time.toNat) &&
          decide (start_time.toNat < (group.1+1)*width)) ∘ fun entry => counted entry.place) := by
    refine List.filter_congr fun entry _ => ?_
    rw [Function.comp_apply,← Bool.decide_and,← Bool.decide_and]
    exact decide_eq_decide.mpr (within_iff positive)
  rw [same]
  refine List.map_congr_left fun entry among => ?_
  obtain ⟨held,inside⟩ := List.mem_filter.mp among
  have low : entry.time_bucket.toNat*width ≤ end_time.toNat :=
    of_decide_eq_true (Bool.and_eq_true_iff.mp inside).1
  have start : (entry.time_bucket*config.nanos).toNat = entry.time_bucket.toNat*width := by
    rw [UInt64.toNat_mul,wide]
    exact Nat.mod_eq_of_lt (Nat.lt_of_le_of_lt low end_time.toNat_lt)
  rw [Function.comp_apply,itemsAt_counted wide,start,(holds_value holds held).2]
  rfl

end Exact
section Counting
variable {config : PreAggregationConfig} {records : List ExactRecord} {store : PreAggregationStore} {width : Nat}

theorem two_le_length {α : Type} {items : List α} {one two : α} (first : one ∈ items) (second : two ∈ items)
    (different : one ≠ two) : 2 ≤ items.length := by
  match items with
  | [] => cases first
  | [_] =>
    rw [List.mem_singleton] at first second
    exact absurd (first.trans second.symm) different
  | _ :: _ :: rest => exact Nat.le_add_left 2 rest.length

theorem at_most_one {α : Type} {items : List α} (distinct : items.Nodup) {only : α} (all : ∀ item ∈ items, item = only) :
    items.length ≤ 1 := by
  match items with
  | [] => exact Nat.zero_le 1
  | [_] => exact Nat.le_refl 1
  | first :: second :: rest =>
    have same : first = second := (all first List.mem_cons_self).trans (all second (by simp)).symm
    exact absurd (same ▸ List.mem_cons_self) (List.nodup_cons.mp distinct).1

theorem recomputed_single {group : Nat × Nat} (one : ∀ record ∈ records, groupOf width record = group)
    (start_time end_time : Nat) (aggregation : String) :
    (recomputed records start_time end_time width aggregation).length ≤ 1 := by
  rw [recomputed,List.length_map]
  refine (List.length_filter_le _ _).trans (@at_most_one _ _ (List.nodup_dedup _) group fun listed among => ?_)
  obtain ⟨record,written,rfl⟩ := List.mem_map.mp (List.mem_dedup.mp among)
  exact one record written

-- Two keys in the first two buckets are two rows of a query over all times.
theorem two_rows (known : config ∈ store.configs) (positive : config.nanos ≠ 0) {tag : UInt64}
    (first : store.data.get (0,tag) ≠ none) (second : store.data.get (1,tag) ≠ none) {rows : List ExactRecord}
    (asked : store.queryPreAggregated 0 18446744073709551615 config = some (.ok rows)) : 2 ≤ rows.length := by
  rw [queryPreAggregated,if_pos known,if_neg positive] at asked
  obtain rfl := Except.ok.inj (Option.some.inj asked)
  have wide : 0 < config.nanos.toNat := Nat.pos_of_ne_zero fun zero => positive (UInt64.toNat_inj.mp zero)
  have start : ((0 : UInt64)/config.nanos).toNat = 0 := by
    rw [UInt64.toNat_div]
    exact Nat.zero_div _
  have last : 1 ≤ ((18446744073709551615 : UInt64)/config.nanos).toNat := by
    rw [UInt64.toNat_div,Nat.le_div_iff_mul_le wide,Nat.one_mul]
    exact Nat.le_of_lt_succ config.nanos.toNat_lt
  obtain ⟨one,got_one⟩ := Option.ne_none_iff_exists'.mp first
  obtain ⟨two,got_two⟩ := Option.ne_none_iff_exists'.mp second
  obtain ⟨among_one,named_one⟩ := store.data.get_eq_some.mp got_one
  obtain ⟨among_two,named_two⟩ := store.data.get_eq_some.mp got_two
  have perm := (rows_perm store.data config.nanos ((0 : UInt64)/config.nanos).toNat
    (((18446744073709551615 : UInt64)/config.nanos).toNat+1-((0 : UInt64)/config.nanos).toNat)).length_eq
  rw [List.length_map,List.length_map] at perm
  rw [perm,start]
  have bucket_one : one.time_bucket = 0 := (Prod.mk.inj named_one).1
  have bucket_two : two.time_bucket = 1 := (Prod.mk.inj named_two).1
  have listed (entry : Aggregate) (among : entry ∈ store.data.entries) (low : entry.time_bucket.toNat ≤ 1) :
      entry ∈ store.data.entries.filter fun entry => decide (0 ≤ entry.time_bucket.toNat) &&
        decide (entry.time_bucket.toNat < 0+(((18446744073709551615 : UInt64)/config.nanos).toNat+1-0)) := by
    refine List.mem_filter.mpr ⟨among,Bool.and_eq_true_iff.mpr ⟨decide_eq_true (Nat.zero_le _),decide_eq_true ?_⟩⟩
    omega
  refine two_le_length (listed one among_one (by rw [bucket_one]; decide)) (listed two among_two (by rw [bucket_two]; decide)) ?_
  intro same
  rw [same,bucket_two] at bucket_one
  cases bucket_one

end Counting

section Failing
variable {adds : List PreAggregationConfig} {config other : PreAggregationConfig}

def taken (timestamp : UInt64) (value : Rat) : ExactRecord := ⟨timestamp,value,0,[0,0,0,0,0,0,0,0]⟩

theorem two_le_maxDouble : 2 ≤ maxDouble := by
  have grown : (1 : Rat) ≤ 2^971 := one_le_pow₀ (by norm_num)
  calc (2 : Rat) ≤ (2^53-1)*1 := by norm_num
    _ ≤ (2^53-1)*2^971 := mul_le_mul_of_nonneg_left grown (by norm_num)

theorem whole_one : Whole 1 := by
  have large := two_le_maxDouble
  exact ⟨⟨1,rfl⟩,by linarith,by linarith⟩

theorem whole_two : Whole 2 := by
  have large := two_le_maxDouble
  exact ⟨⟨2,rfl⟩,by linarith,large⟩

theorem nanos_positive (aggregates : PreAggregates adds) (among : config ∈ adds) : config.nanos ≠ 0 := by
  obtain ⟨store,done,_⟩ := aggregates [taken 0 1] (by simpa [taken] using whole_one)
  exact written_positive done among List.mem_cons_self

theorem not_two_buckets (aggregates : PreAggregates adds) (exact : ∀ config ∈ adds, Exact config.aggregation)
    (among : config ∈ adds) (among_other : other ∈ adds) {records : List ExactRecord} (whole : ∀ record ∈ records, Whole record.value)
    {first second : ExactRecord} (written_first : first ∈ records) (written_second : second ∈ records) {tag : UInt64}
    (in_zero : placeIn other.nanos first = (0,tag)) (in_one : placeIn config.nanos second = (1,tag)) {group : Nat × Nat}
    (one : ∀ record ∈ records, groupOf (config.interval_seconds.toNat*10^9) record = group) : False := by
  obtain ⟨store,done,queries⟩ := aggregates records whole
  obtain ⟨rows,asked,perm⟩ := queries config among 0 18446744073709551615
  obtain ⟨known,there⟩ := written_keys done among (exact config among) written_second
  obtain ⟨_,there_other⟩ := written_keys done among_other (exact other among_other) written_first
  have many := two_rows known (nanos_positive aggregates among) (in_zero ▸ there_other) (in_one ▸ there) asked
  have few := perm.length_eq ▸ recomputed_single one (UInt64.toNat 0) (UInt64.toNat 18446744073709551615) config.aggregation
  rw [List.length_map] at few
  omega

theorem sized_of_aggregates (aggregates : PreAggregates adds) (exact : ∀ config ∈ adds, Exact config.aggregation)
    (among : config ∈ adds) : Sized config := by
  have positive := nanos_positive aggregates among
  have some_seconds : 0 < config.interval_seconds.toNat := by
    refine Nat.pos_of_ne_zero fun zero => positive ?_
    have no_seconds : config.interval_seconds = 0 := UInt64.toNat_inj.mp zero
    rw [PreAggregationConfig.nanos,no_seconds,UInt64.zero_mul]
  refine ⟨some_seconds,?_⟩
  by_contra wide
  -- The width wraps around: all times are in one bucket, but not for the code.
  have low (time : UInt64) : time.toNat/(config.interval_seconds.toNat*10^9) = 0 :=
    Nat.div_eq_of_lt (Nat.lt_of_lt_of_le time.toNat_lt (Nat.not_lt.mp wide))
  refine @not_two_buckets adds config config aggregates exact among among [taken 0 1,taken config.nanos 1]
    (by simpa [taken] using whole_one) (taken 0 1) (taken config.nanos 1) List.mem_cons_self
    (List.mem_cons_of_mem _ List.mem_cons_self) 0 ?_ ?_ (0,0) ?_
  · rw [placeIn,taken,UInt64.zero_div]
    rfl
  · rw [placeIn,taken,UInt64.div_self,if_neg positive]
    rfl
  · intro record among
    simp only [List.mem_cons,List.not_mem_nil,or_false] at among
    rcases among with rfl | rfl <;> rw [groupOf,low] <;> rfl

theorem same_interval (aggregates : PreAggregates adds) (exact : ∀ config ∈ adds, Exact config.aggregation)
    (among : config ∈ adds) (among_other : other ∈ adds) : config.interval_seconds.toNat ≤ other.interval_seconds.toNat := by
  by_contra shorter
  have sized := sized_of_aggregates aggregates exact among
  have sized_other := sized_of_aggregates aggregates exact among_other
  have wide := nanos_toNat sized
  have wide_other := nanos_toNat sized_other
  -- A record one short interval in is in the first of the long ones.
  refine @not_two_buckets adds other config aggregates exact among_other among [taken other.nanos 1]
    (by simpa [taken] using whole_one) (taken other.nanos 1) (taken other.nanos 1) List.mem_cons_self List.mem_cons_self 0
    ?_ ?_ (1,0) ?_
  · have low : other.nanos/config.nanos = 0 := by
      rw [← UInt64.toNat_inj,UInt64.toNat_div]
      exact Nat.div_eq_of_lt (by omega)
    rw [placeIn,taken,low]
    rfl
  · rw [placeIn,taken,UInt64.div_self,if_neg (nanos_positive aggregates among_other)]
    rfl
  · intro record listed
    rw [List.mem_singleton] at listed
    rw [listed,groupOf,taken,wide_other,Nat.div_self (Nat.mul_pos sized_other.1 (by decide))]
    rfl

theorem recomputed_pair {width : Nat} (positive : 0 < width) (aggregation : String) :
    recomputed [taken 0 1,taken 0 2] 0 0 width aggregation = [(0,aggregate aggregation [1,2])] := by
  have first : groupOf width (taken 0 1) = (0,0) := congrArg (·,0) (Nat.zero_div width)
  have second : groupOf width (taken 0 2) = (0,0) := congrArg (·,0) (Nat.zero_div width)
  have once : ([(0,0),(0,0)] : List (Nat × Nat)).dedup = [(0,0)] := by decide
  have touches : 0 < (0+1)*width := by omega
  have listed : itemsAt (groupOf width) [taken 0 1,taken 0 2] (0,0) = [taken 0 1,taken 0 2] := by
    rw [itemsAt,List.filter_cons,first,List.filter_cons,second]
    rfl
  rw [recomputed,List.map_cons,List.map_cons,List.map_nil,first,second,once,List.filter_singleton,Nat.zero_mul,
    decide_eq_true (Nat.le_refl 0),decide_eq_true touches]
  rw [Bool.and_self,cond_true,List.map_singleton,listed,Nat.zero_mul]
  rfl

theorem aggregate_pair {first second : String} (exact : Exact first) (exact_second : Exact second)
    (same : aggregate first [1,2] = aggregate second [1,2]) : first = second := by
  have ordered : (1 : Rat) ≤ 2 := by norm_num
  have sum : aggregate "sum" [1,2] = 1+2 := rfl
  have least : aggregate "min" [1,2] = 1 := min_eq_left ordered
  have most : aggregate "max" [1,2] = 2 := max_eq_right ordered
  rcases exact with rfl | rfl | rfl <;> rcases exact_second with rfl | rfl | rfl <;>
    first | rfl | norm_num only [sum,least,most] at same

theorem same_aggregation (aggregates : PreAggregates adds) (exact : ∀ config ∈ adds, Exact config.aggregation)
    (among : config ∈ adds) (among_other : other ∈ adds) (same : config.interval_seconds = other.interval_seconds) :
    config.aggregation = other.aggregation := by
  obtain ⟨store,done,queries⟩ := aggregates [taken 0 1,taken 0 2] (by
    intro record listed
    simp only [List.mem_cons,List.not_mem_nil,or_false] at listed
    rcases listed with rfl | rfl
    · exact whole_one
    · exact whole_two)
  obtain ⟨rows,asked,perm⟩ := queries config among 0 0
  obtain ⟨rows_other,asked_other,perm_other⟩ := queries other among_other 0 0
  have known := (written_keys done among (exact config among) List.mem_cons_self).1
  have known_other := (written_keys done among_other (exact other among_other) List.mem_cons_self).1
  have nanos : config.nanos = other.nanos := by rw [PreAggregationConfig.nanos,PreAggregationConfig.nanos,same]
  have again : rows = rows_other := by
    rw [queryPreAggregated,if_pos known,nanos] at asked
    rw [queryPreAggregated,if_pos known_other] at asked_other
    exact Except.ok.inj (Option.some.inj (asked.symm.trans asked_other))
  have positive : 0 < config.interval_seconds.toNat*10^9 :=
    Nat.mul_pos (sized_of_aggregates aggregates exact among).1 (by decide)
  change List.Perm _ (recomputed _ 0 0 _ _) at perm perm_other
  rw [recomputed_pair positive] at perm
  rw [← same,recomputed_pair positive,← again] at perm_other
  have value := (Prod.mk.inj (List.singleton_perm_singleton.mp (perm.symm.trans perm_other))).2
  exact aggregate_pair (exact config among) (exact other among_other) value

end Failing

theorem pre_aggregation_iff (adds : List PreAggregationConfig) (exact : ∀ config ∈ adds, Exact config.aggregation) :
    PreAggregates adds ↔ ∀ config ∈ adds, Sized config ∧ ∀ other ∈ adds, other = config := by
  constructor
  · intro aggregates config among
    refine ⟨sized_of_aggregates aggregates exact among,fun other among_other => ?_⟩
    have interval : other.interval_seconds = config.interval_seconds := UInt64.toNat_inj.mp
      (Nat.le_antisymm (same_interval aggregates exact among_other among) (same_interval aggregates exact among among_other))
    have aggregation := same_aggregation aggregates exact among_other among interval
    cases other
    cases config
    cases interval
    cases aggregation
    rfl
  · intro condition records whole
    cases adds with
    | nil =>
      have done : written [] records = some new := by
        clear whole
        induction records with
        | nil => rfl
        | cons record rest ih => exact ih
      exact ⟨new,done,fun _ never => absurd never List.not_mem_nil⟩
    | cons config rest =>
      obtain ⟨sized,same⟩ := condition config List.mem_cons_self
      have wide := nanos_toNat sized
      have positive : config.nanos ≠ 0 := by
        intro zero
        have some_nanos : 0 < config.nanos.toNat := wide ▸ Nat.mul_pos sized.1 (by decide)
        rw [zero] at some_nanos
        exact Nat.lt_irrefl 0 some_nanos
      have added := (add_same config (config :: rest) same).resolve_left (List.cons_ne_nil _ _)
      obtain ⟨data,run,holds⟩ := run_holds (exact config List.mem_cons_self) positive records whole
      refine ⟨⟨[config],data⟩,by rw [written,added,written_data,run]; rfl,?_⟩
      intro asked among start_time end_time
      obtain rfl := same asked among
      exact ⟨_,(if_pos List.mem_cons_self).trans (if_neg positive),rows_recomputed wide (Nat.mul_pos sized.1 (by decide)) holds start_time end_time⟩

theorem pre_aggregation_iff_minutes : (∀ config ∈ [(⟨60,"sum"⟩ : PreAggregationConfig)], Exact config.aggregation) ∧
    (PreAggregates [⟨60,"sum"⟩] ↔ ∀ config ∈ [(⟨60,"sum"⟩ : PreAggregationConfig)],
      Sized config ∧ ∀ other ∈ [(⟨60,"sum"⟩ : PreAggregationConfig)], other = config) := by
  have exact : ∀ config ∈ [(⟨60,"sum"⟩ : PreAggregationConfig)], Exact config.aggregation := by
    intro config among
    rw [List.mem_singleton.mp among]
    exact .inl rfl
  exact ⟨exact,pre_aggregation_iff [⟨60,"sum"⟩] exact⟩

-- The minima of a minute are mixed into its sums.
theorem sum_beside_min : ¬ PreAggregates [⟨60,"sum"⟩,⟨60,"min"⟩] := by
  intro aggregates
  have exact : ∀ config ∈ [(⟨60,"sum"⟩ : PreAggregationConfig),⟨60,"min"⟩], Exact config.aggregation := by
    intro config among
    rcases List.mem_cons.mp among with rfl | later
    · exact .inl rfl
    · rw [List.mem_singleton.mp later]
      exact .inr (.inl rfl)
  have same := same_aggregation aggregates exact List.mem_cons_self (List.mem_cons_of_mem _ List.mem_cons_self) rfl
  exact absurd same (by decide)

end PreAggregationStore
end TimeSeries
end RemDb
