import RemDb.Table.Ops

namespace RemDb
open RemDb.Lib RemDb.Wal

namespace MemoryTable

-- Status array, free stack and counter tell the same story.
structure Accounted (table : MemoryTable) : Prop where
  positive : 0 < table.tdef.max_records
  small : table.tdef.max_records < usizeLimit
  split : Partition table.tdef.max_records table.used table.free_slots
  count : table.record_count = usedCount table.tdef.max_records table.used

theorem Accounted.total (accounted : Accounted table) :
    table.record_count+table.free_slots.length = table.tdef.max_records := by
  have whole := accounted.split.length
  rw [accounted.count]
  omega

section Effects
variable {table : MemoryTable} {slot : Nat}

theorem mark_used {header : RecordHeader} (image : Bytes) (busy : header.status = .used) :
    ((table.setRecord slot image).setStatus slot header).used = assign table.used slot true := by
  funext other
  by_cases equal : other = slot
  · subst other
    simp [used,setStatus,setRecord,busy]
  · simp [used,setStatus,setRecord,equal]

@[simp] theorem store_used (image : Bytes) (counted : Bool) :
    (table.store slot image counted).used = assign table.used slot true := mark_used image rfl

@[simp] theorem store_tdef (image : Bytes) (counted : Bool) :
    (table.store slot image counted).tdef = table.tdef := rfl
@[simp] theorem store_free (image : Bytes) (counted : Bool) :
    (table.store slot image counted).free_slots = table.free_slots := rfl
@[simp] theorem store_count (image : Bytes) (counted : Bool) :
    (table.store slot image counted).record_count = table.record_count := rfl

theorem raiseMaxPk_only (table : MemoryTable) (record : Bytes) :
    ∃ key, table.raiseMaxPk record = {table with max_pk:=key} := by
  unfold raiseMaxPk
  split
  · split
    · split
      · exact ⟨_,rfl⟩
      · exact ⟨_,rfl⟩
    · exact ⟨_,rfl⟩
  · exact ⟨_,rfl⟩

theorem storeBatch_effect (codecs : Codecs) (operation : LogOperation) (counted : Bool) (data : Nat → Bytes)
    (clock : Nat → UInt64 × Env) (table : MemoryTable) (slots : List (Nat × Nat)) (tx : TransactionManager) :
    let result := (storeBatch codecs operation counted data clock slots (table,tx)).1
    result.tdef = table.tdef ∧ result.free_slots = table.free_slots ∧
      result.record_count = table.record_count ∧
      result.used = assignAll table.used (slots.map (·.1)) := by
  induction slots generalizing table tx with
  | nil => exact ⟨rfl,rfl,rfl,rfl⟩
  | cons entry rest ih =>
    obtain ⟨slot,index⟩ := entry
    obtain ⟨tdef,free,count,used⟩ := ih
      (table.store slot (recordImage table.tdef.record_size (data index)) counted) _
    refine ⟨tdef,free,count,?_⟩
    rw [store_used] at used
    exact used

theorem release_used (slot : Nat) : (table.release slot).used = assign table.used slot false := by
  unfold release pushFree
  funext other
  by_cases equal : other = slot
  · subst other
    dsimp only
    split <;> simp [used,setStatus,setRecord]
  · dsimp only
    split <;> simp [used,setStatus,setRecord,equal]

end Effects

theorem new_accounted (tdef : TableDef) (memory : Option Memory) (table : MemoryTable)
    (small : tdef.max_records < usizeLimit) (made : new tdef memory = .ok table) : Accounted table := by
  unfold new newWithOptions at made
  split at made
  · cases made
  · rename_i positive
    split at made
    · cases made
    · rename_i memory
      obtain rfl := Except.ok.inj made
      refine ⟨Nat.pos_of_ne_zero positive,small,(Partition.fresh _ _ ?_).1,((Partition.fresh _ _ ?_).2).symm⟩
      · intro slot
        simp [used]
      · intro slot
        simp [used]

section Steps
variable {table : MemoryTable}

theorem release_eq (room : table.free_slots.length < table.tdef.max_records) (slot : Nat) :
    table.release slot =
      {table with
        status:=assign table.status slot
          {table.status slot with status:=.free,version:=(table.status slot).version+1},
        records:=assign table.records slot (List.replicate table.tdef.record_size 0),
        free_slots:=table.free_slots ++ [slot],
        record_count:=usizeSub table.record_count 1} := by
  simp only [release,pushFree,setStatus,setRecord,room,if_true]

-- A slot given back: the guard of the push always holds, and the counter does
-- not wrap.
theorem release_accounted (accounted : Accounted table) (inside : slot < table.tdef.max_records)
    (taken : table.used slot = true) : Accounted (table.release slot) ∧
      (table.release slot).free_slots = table.free_slots ++ [slot] := by
  obtain ⟨positive,small,split,count⟩ := accounted
  have whole := split.length
  have some_used := usedCount_release inside taken
  have room : table.free_slots.length < table.tdef.max_records := by omega
  have shape := release_eq room slot
  have tdef : (table.release slot).tdef = table.tdef := by rw [shape]
  have free : (table.release slot).free_slots = table.free_slots ++ [slot] := by rw [shape]
  have counted : (table.release slot).record_count = table.record_count-1 := by
    rw [shape]
    exact usizeSub_of_le (by omega) (by omega)
  refine ⟨⟨by rw [tdef]; exact positive,by rw [tdef]; exact small,?_,?_⟩,free⟩
  · rw [tdef,release_used,free]
    exact split.push inside taken
  · rw [tdef,release_used,counted]
    omega

theorem takeSlot_cases (found : table.takeSlot = .ok (slot,overwrite,taken)) :
    (overwrite = true ∧ table.low_power_mode = true ∧ table.oldest = some slot ∧ taken = table) ∨
    (overwrite = false ∧ table.record_count < table.maxRecords ∧
      ∃ rest, table.free_slots = rest ++ [slot] ∧ taken = {table with free_slots:=rest}) := by
  unfold takeSlot at found
  split at found
  · split at found
    · rename_i low
      split at found
      · rename_i best
        simp only [Except.ok.injEq,Prod.mk.injEq] at found
        obtain ⟨rfl,rfl,rfl⟩ := found
        exact .inl ⟨rfl,low,best,rfl⟩
      · cases found
    · cases found
  · rename_i below
    split at found
    · rename_i top
      simp only [Except.ok.injEq,Prod.mk.injEq] at found
      obtain ⟨rfl,rfl,rfl⟩ := found
      obtain ⟨rest,shape⟩ := List.getLast?_eq_some_iff.mp top
      exact .inr ⟨rfl,Nat.lt_of_not_le below,rest,shape,by rw [shape,List.dropLast_concat]⟩
    · cases found

theorem oldest_used (found : table.oldest = some slot) :
    slot < table.tdef.max_records ∧ table.used slot = true := by
  have invariant (slots : List Nat) (best : Option Nat × UInt16)
      (inside : ∀ slot ∈ slots, slot < table.tdef.max_records)
      (start : ∀ slot, best.1 = some slot → slot < table.tdef.max_records ∧ table.used slot = true) :
      ∀ slot, (slots.foldl (fun best slot =>
        if table.used slot = true ∧ (table.status slot).version < best.2 then
          (some slot,(table.status slot).version)
        else best) best).1 = some slot → slot < table.tdef.max_records ∧ table.used slot = true := by
    induction slots generalizing best with
    | nil => exact start
    | cons head rest ih =>
      apply ih
      · exact fun slot member => inside slot (List.mem_cons_of_mem _ member)
      · intro slot chosen
        dsimp only at chosen
        split at chosen
        · rename_i older
          obtain rfl : head = slot := Option.some.inj chosen
          exact ⟨inside head List.mem_cons_self,older.1⟩
        · exact start slot chosen
  exact invariant _ (none,65535) (fun slot member => List.mem_range.mp member) (by simp) slot found

theorem insert_cases (table : MemoryTable) (tx : TransactionManager) (now : UInt64) (data : Bytes) :
    (∃ failure, table.insert tx now data = (.error failure,table,tx)) ∨
    ∃ slot image logged result,
      image = recordImage table.tdef.record_size data ∧
      logged = tx.log .insert table.tdef.id (UInt16.ofNat slot) now [] image ∧
      table.insert tx now data = (.ok slot,result,logged) ∧
      ((table.low_power_mode = true ∧ table.record_count ≥ table.maxRecords ∧
          table.oldest = some slot ∧ ∃ key, result = {table.store slot image true with max_pk:=key}) ∨
        (table.record_count < table.maxRecords ∧ ∃ rest key, table.free_slots = rest ++ [slot] ∧
          result = {table.store slot image true with
            free_slots:=rest,max_pk:=key,record_count:=table.record_count+1})) := by
  unfold insert
  cases checked : table.validate tx (recordImage table.tdef.record_size data) none with
  | error failure => exact .inl ⟨failure,by simp only [checked]⟩
  | ok _ =>
    cases found : table.takeSlot with
    | error failure => exact .inl ⟨failure,by simp only [checked]⟩
    | ok result =>
      obtain ⟨slot,overwrite,taken⟩ := result
      obtain ⟨key,raised⟩ := raiseMaxPk_only
        (taken.store slot (recordImage table.tdef.record_size data) true)
        (recordImage table.tdef.record_size data)
      refine .inr ⟨slot,_,_,_,rfl,rfl,by simp only [checked]; rfl,?_⟩
      rw [raised]
      obtain ⟨rfl,low,best,rfl⟩ | ⟨rfl,below,rest,shape,rfl⟩ := takeSlot_cases found
      · refine .inl ⟨low,?_,best,key,rfl⟩
        by_contra below
        unfold takeSlot at found
        rw [if_neg below] at found
        split at found <;> simp at found
      · exact .inr ⟨below,rest,key,shape,rfl⟩

theorem insert_accounted (accounted : Accounted table) (tx : TransactionManager) (now : UInt64)
    (data : Bytes) : Accounted (table.insert tx now data).2.1 := by
  obtain ⟨positive,small,split,count⟩ := accounted
  obtain ⟨failure,same⟩ | ⟨slot,image,logged,result,_,_,same,
    ⟨_,_,best,key,rfl⟩ | ⟨_,rest,key,shape,rfl⟩⟩ := insert_cases table tx now data
  · rw [same]
    exact ⟨positive,small,split,count⟩
  · rw [same]
    have taken := (oldest_used best).2
    have kept : ({table.store slot image true with max_pk:=key} : MemoryTable).used = table.used := by
      change (table.store slot image true).used = table.used
      rw [store_used,assign_held taken]
    exact ⟨positive,small,by rw [kept]; exact split,by rw [kept]; exact count⟩
  · rw [same]
    rw [shape] at split
    have free : slot < table.tdef.max_records ∧ table.used slot = false :=
      (split.complete slot).mp (by simp)
    have kept : ({table.store slot image true with
        free_slots:=rest,max_pk:=key,record_count:=table.record_count+1} : MemoryTable).used =
          assign table.used slot true := store_used image true
    refine ⟨positive,small,by rw [kept]; exact split.pop,?_⟩
    rw [kept]
    change table.record_count+1 = _
    rw [count]
    exact (usedCount_take free.1 free.2).symm

theorem update_cases (table : MemoryTable) (tx : TransactionManager) (now : UInt64) (slot : Nat)
    (data : Bytes) :
    (∃ failure, table.update tx now slot data = (.error failure,table,tx)) ∨
    (slot < table.tdef.max_records ∧ table.used slot = true ∧
      table.update tx now slot data =
        (.ok (),table.store slot (recordImage table.tdef.record_size data) true,
          tx.log .update table.tdef.id (UInt16.ofNat slot) now
            (recordImage table.tdef.record_size (table.records slot))
            (recordImage table.tdef.record_size data))) := by
  unfold update
  split
  · exact .inl ⟨_,rfl⟩
  · rename_i inside
    split
    · exact .inl ⟨_,rfl⟩
    · rename_i taken
      cases checked : table.validate tx (recordImage table.tdef.record_size data) (some slot) with
      | error failure => exact .inl ⟨failure,by simp only [checked]⟩
      | ok _ => exact .inr ⟨Nat.lt_of_not_le inside,by simpa using taken,by simp only [checked]⟩

theorem delete_cases (table : MemoryTable) (tx : TransactionManager) (now : UInt64) (slot : Nat) :
    table.delete tx now slot = (.error .recordNotFound,table,tx) ∨
    (slot < table.tdef.max_records ∧ table.used slot = true ∧
      table.delete tx now slot =
        (.ok (),table.release slot,tx.log .delete table.tdef.id (UInt16.ofNat slot) now
          (recordImage table.tdef.record_size (table.records slot)) [])) := by
  unfold delete
  split
  · exact .inl rfl
  · rename_i inside
    split
    · exact .inl rfl
    · rename_i taken
      exact .inr ⟨Nat.lt_of_not_le inside,by simpa using taken,rfl⟩

theorem update_accounted (accounted : Accounted table) (tx : TransactionManager) (now : UInt64)
    (slot : Nat) (data : Bytes) : Accounted (table.update tx now slot data).2.1 := by
  obtain ⟨failure,same⟩ | ⟨_,taken,same⟩ := update_cases table tx now slot data
  · rw [same]
    exact accounted
  · rw [same]
    obtain ⟨positive,small,split,count⟩ := accounted
    refine ⟨positive,small,?_,?_⟩
    · simpa [assign_held taken] using split
    · simpa [assign_held taken] using count

theorem delete_accounted (accounted : Accounted table) (tx : TransactionManager) (now : UInt64)
    (slot : Nat) : Accounted (table.delete tx now slot).2.1 := by
  obtain same | ⟨inside,taken,same⟩ := delete_cases table tx now slot
  · rw [same]
    exact accounted
  · rw [same]
    exact (release_accounted accounted inside taken).1

theorem popped_split (table : MemoryTable) (count : Nat) : table.free_slots =
    table.free_slots.take (table.free_slots.length-(table.popped count).length) ++
      (table.popped count).reverse := by
  have reversed : (table.popped count).reverse =
      table.free_slots.drop (table.free_slots.length-count) := by
    rw [popped,List.take_reverse,List.reverse_reverse]
  have start : table.free_slots.length-(table.popped count).length = table.free_slots.length-count := by
    rw [popped,List.length_take,List.length_reverse]
    omega
  rw [reversed,start,List.take_append_drop]

theorem popped_accounted (codecs : Codecs) (operation : LogOperation) (counted : Bool) (data : Nat → Bytes)
    (clock : Nat → UInt64 × Env) (accounted : Accounted table) (count : Nat) (tx : TransactionManager) :
    Accounted
      {(storeBatch codecs operation counted data clock (table.popped count).zipIdx
        (table.withoutPopped count,tx)).1 with
        record_count:=table.record_count+(table.popped count).length} := by
  obtain ⟨positive,small,split,total⟩ := accounted
  obtain ⟨tdef,free,_,marked⟩ := storeBatch_effect codecs operation counted data clock
    (table.withoutPopped count) (table.popped count).zipIdx tx
  rw [List.zipIdx_map_fst] at marked
  rw [popped_split table count] at split
  obtain ⟨remaining,grown⟩ := split.popAll
  refine ⟨?_,?_,?_,?_⟩
  · exact tdef ▸ positive
  · exact tdef ▸ small
  · change Partition (storeBatch codecs operation counted data clock _ _).1.tdef.max_records
      (storeBatch codecs operation counted data clock _ _).1.used
      (storeBatch codecs operation counted data clock _ _).1.free_slots
    rw [tdef,free,marked]
    exact remaining
  · change table.record_count+(table.popped count).length =
      usedCount (storeBatch codecs operation counted data clock _ _).1.tdef.max_records
        (storeBatch codecs operation counted data clock _ _).1.used
    rw [tdef,marked,total]
    exact grown.symm

-- The search for old records only ever names slots of the table.
theorem smear_inside (bound : Nat) (entry : Nat × UInt16) (entries : List (Nat × UInt16))
    (first : entry.1 < bound) (inside : ∀ each ∈ entries, each.1 < bound) :
    ∀ each ∈ smear entry entries, each.1 < bound := by
  induction entries with
  | nil => simp [smear]
  | cons next rest ih =>
    intro each member
    rw [smear] at member
    split at member
    · exact inside each member
    · rcases List.mem_cons.mp member with rfl | member
      · exact first
      · exact ih (fun other among => inside other (List.mem_cons_of_mem _ among)) each member

theorem place_inside (bound : Nat) (version : UInt16) (entries : List (Nat × UInt16)) (within : slot < bound)
    (inside : ∀ each ∈ entries, each.1 < bound) : ∀ each ∈ place slot version entries, each.1 < bound := by
  induction entries with
  | nil => simp [place]
  | cons entry rest ih =>
    intro each member
    rw [place] at member
    split at member
    · rcases List.mem_cons.mp member with rfl | member
      · exact within
      · exact smear_inside bound entry rest (inside entry List.mem_cons_self)
          (fun other among => inside other (List.mem_cons_of_mem _ among)) each member
    · rcases List.mem_cons.mp member with rfl | member
      · exact inside _ List.mem_cons_self
      · exact ih (fun other among => inside other (List.mem_cons_of_mem _ among)) each member

theorem oldestSlots_inside (positive : 0 < table.tdef.max_records) (need : Nat) :
    ∀ slot ∈ table.oldestSlots need, slot < table.tdef.max_records := by
  have invariant (slots : List Nat) (entries : List (Nat × UInt16))
      (within : ∀ slot ∈ slots, slot < table.tdef.max_records)
      (start : ∀ each ∈ entries, each.1 < table.tdef.max_records) :
      ∀ each ∈ slots.foldl (fun entries slot =>
        if table.used slot = true then place slot (table.status slot).version entries else entries) entries,
        each.1 < table.tdef.max_records := by
    induction slots generalizing entries with
    | nil => exact start
    | cons head rest ih =>
      apply ih
      · exact fun slot member => within slot (List.mem_cons_of_mem _ member)
      · dsimp only
        split
        · exact place_inside _ _ entries (within head List.mem_cons_self) start
        · exact start
  intro slot member
  obtain ⟨entry,among,rfl⟩ := List.mem_map.mp member
  refine invariant _ _ (fun slot member => List.mem_range.mp member) ?_ entry among
  intro each member
  rw [(List.mem_replicate.mp member).2]
  exact positive

-- When a batch keeps the books. Outside low power mode always; in low power
-- mode a batch at or above the limit must not find a free slot, and one below
-- it must not run out of them. Refused batches change nothing.
def BatchBalanced (table : MemoryTable) (count : Nat) : Prop :=
  table.low_power_mode = true →
    (table.record_count ≥ table.maxRecords →
      table.free_slots = [] ∨ count = 0 ∨ batchLimit < count) ∧
    (table.record_count < table.maxRecords →
      table.batchCount count ≤ table.free_slots.length ∨ batchLimit < table.batchCount count)

theorem batchSlots_popped (enough : actual ≤ table.free_slots.length) :
    table.batchSlots actual = table.popped actual := by
  have whole : (table.popped actual).length = actual := by
    rw [popped,List.length_take,List.length_reverse]
    omega
  unfold batchSlots
  exact if_neg (by omega)

theorem overwrite_accounted (codecs : Codecs) (operation : LogOperation) (counted : Bool) (data : Nat → Bytes)
    (clock : Nat → UInt64 × Env) (accounted : Accounted table) (full : table.free_slots = [])
    (actual : Nat) (tx : TransactionManager) :
    Accounted
      {(storeBatch codecs operation counted data clock (table.batchSlots actual).zipIdx
        (table.withoutPopped actual,tx)).1 with record_count:=table.record_count} := by
  obtain ⟨positive,small,split,total⟩ := accounted
  obtain ⟨tdef,free,_,marked⟩ := storeBatch_effect codecs operation counted data clock
    (table.withoutPopped actual) (table.batchSlots actual).zipIdx tx
  rw [List.zipIdx_map_fst] at marked
  rw [full] at split
  have empty : table.popped actual = [] := by simp [popped,full]
  have inside : ∀ slot ∈ table.batchSlots actual, slot < table.tdef.max_records := by
    intro slot member
    unfold batchSlots at member
    rw [empty] at member
    dsimp only at member
    split at member
    · exact oldestSlots_inside positive _ slot (by simpa using member)
    · cases member
  have same : assignAll table.used (table.batchSlots actual) = table.used :=
    assignAll_taken _ fun slot member => split.full (inside slot member)
  refine ⟨?_,?_,?_,?_⟩
  · exact tdef ▸ positive
  · exact tdef ▸ small
  · change Partition (storeBatch codecs operation counted data clock _ _).1.tdef.max_records
      (storeBatch codecs operation counted data clock _ _).1.used
      (storeBatch codecs operation counted data clock _ _).1.free_slots
    rw [tdef,free,marked]
    change Partition table.tdef.max_records (assignAll table.used _) (table.free_slots.take _)
    rw [same,full,List.take_nil]
    exact split
  · change table.record_count =
      usedCount (storeBatch codecs operation counted data clock _ _).1.tdef.max_records
        (storeBatch codecs operation counted data clock _ _).1.used
    rw [tdef,marked]
    change table.record_count = usedCount table.tdef.max_records (assignAll table.used _)
    rw [same]
    exact total

theorem batch_accounted (codecs : Codecs) (accounted : Accounted table) (tx : TransactionManager)
    (clock : Nat → UInt64 × Env) (records : Option (Nat → Bytes)) (count : Nat)
    (balanced : table.BatchBalanced count) :
    Accounted (table.batchInsert codecs tx clock records count).2.1 := by
  unfold batchInsert
  cases records with
  | none => exact accounted
  | some data =>
    dsimp only
    by_cases nothing : table.batchCount count = 0
    · rw [if_pos nothing]
      exact accounted
    rw [if_neg nothing]
    by_cases large : table.batchCount count > batchLimit
    · rw [if_pos large]
      exact accounted
    rw [if_neg large]
    have kept := (storeBatch_effect codecs .insert true data clock (table.withoutPopped (table.batchCount count))
      (table.batchSlots (table.batchCount count)).zipIdx tx).2.2.1
    by_cases beyond : table.low_power_mode = true ∧ table.record_count ≥ table.maxRecords
    · have actual : table.batchCount count = count := by
        unfold batchCount
        exact if_pos beyond
      have full : table.free_slots = [] := by
        rcases (balanced beyond.1).1 beyond.2 with empty | zero | more
        · exact empty
        · exact absurd (actual.trans zero) nothing
        · exact absurd (by rw [actual]; exact more) large
      have done := overwrite_accounted codecs .insert true data clock accounted full (table.batchCount count) tx
      simp only [if_pos beyond,Nat.add_zero,kept]
      exact done
    · have enough : table.batchCount count ≤ table.free_slots.length := by
        by_cases low : table.low_power_mode = true
        · have below : table.record_count < table.maxRecords := by
            by_contra above
            exact beyond ⟨low,Nat.le_of_not_lt above⟩
          rcases (balanced low).2 below with fits | more
          · exact fits
          · exact absurd more large
        · have total := accounted.total
          have limit : table.maxRecords = table.tdef.max_records := by simp [maxRecords,low]
          have available : usizeSub table.maxRecords table.record_count = table.free_slots.length := by
            rw [limit,usizeSub_of_le accounted.small (by omega)]
            omega
          unfold batchCount
          rw [available,if_neg beyond]
          split <;> omega
      have done := popped_accounted codecs .insert true data clock accounted (table.batchCount count) tx
      have slots := batchSlots_popped enough
      rw [slots] at kept
      simp only [if_neg beyond,slots,kept]
      exact done

theorem timeSeries_accounted (codecs : Codecs) (accounted : Accounted table) (tx : TransactionManager)
    (clock : Nat → UInt64 × Env) (records : Option (Nat → Bytes)) (count : Nat) :
    Accounted (table.timeSeriesBatchInsert codecs tx clock records count).2.1 := by
  unfold timeSeriesBatchInsert
  cases records with
  | none => exact accounted
  | some data =>
    dsimp only
    split
    · exact accounted
    · have done := popped_accounted codecs .timeSeriesInsert false data clock accounted
        (min (min count (usizeSub table.tdef.max_records table.record_count)) table.free_slots.length) tx
      rw [(storeBatch_effect codecs .timeSeriesInsert false data clock (table.withoutPopped _)
        (table.popped _).zipIdx tx).2.2.1]
      exact done

end Steps

inductive Call where
  | insert (now : UInt64) (data : Bytes)
  | update (now : UInt64) (slot : Nat) (data : Bytes)
  | delete (now : UInt64) (slot : Nat)
  | batchInsert (clock : Nat → UInt64 × Env) (records : Option (Nat → Bytes)) (count : Nat)
  | timeSeriesBatchInsert (clock : Nat → UInt64 × Env) (records : Option (Nat → Bytes)) (count : Nat)
  | setLowPowerMode (enabled : Bool) (maxRecords : Option Nat)

def call (codecs : Codecs) (table : MemoryTable) (tx : TransactionManager) : Call →
    MemoryTable × TransactionManager
  | .insert now data => (table.insert tx now data).2
  | .update now slot data => (table.update tx now slot data).2
  | .delete now slot => (table.delete tx now slot).2
  | .batchInsert clock records count => (table.batchInsert codecs tx clock records count).2
  | .timeSeriesBatchInsert clock records count => (table.timeSeriesBatchInsert codecs tx clock records count).2
  | .setLowPowerMode enabled maxRecords => (table.setLowPowerMode enabled maxRecords,tx)

def Balanced (table : MemoryTable) : Call → Prop
  | .batchInsert _ (some _) count => table.BatchBalanced count
  | _ => True

theorem call_accounted {table : MemoryTable} (codecs : Codecs) (tx : TransactionManager) (call : Call)
    (accounted : Accounted table) (balanced : table.Balanced call) :
    Accounted (table.call codecs tx call).1 := by
  cases call with
  | insert now data => exact insert_accounted accounted tx now data
  | update now slot data => exact update_accounted accounted tx now slot data
  | delete now slot => exact delete_accounted accounted tx now slot
  | batchInsert clock records count =>
    cases records with
    | none => exact accounted
    | some data => exact batch_accounted codecs accounted tx clock (some data) count balanced
  | timeSeriesBatchInsert clock records count =>
    exact timeSeries_accounted codecs accounted tx clock records count
  | setLowPowerMode enabled maxRecords => exact ⟨accounted.1,accounted.2,accounted.3,accounted.4⟩

-- A run: calls one after the other, each under whatever transaction is open.
def run (codecs : Codecs) (table : MemoryTable) (calls : List (TransactionManager × Call)) : MemoryTable :=
  calls.foldl (fun table entry => (table.call codecs entry.1 entry.2).1) table

def BalancedRun (codecs : Codecs) (table : MemoryTable) : List (TransactionManager × Call) → Prop
  | [] => True
  | entry :: rest => table.Balanced entry.2 ∧ BalancedRun codecs (table.call codecs entry.1 entry.2).1 rest

theorem run_accounted {table : MemoryTable} (codecs : Codecs) (calls : List (TransactionManager × Call))
    (accounted : Accounted table) (balanced : table.BalancedRun codecs calls) :
    Accounted (table.run codecs calls) := by
  induction calls generalizing table with
  | nil => exact accounted
  | cons entry rest ih => exact ih (call_accounted codecs entry.1 entry.2 accounted balanced.1) balanced.2

theorem balancedRun_append {table : MemoryTable} (codecs : Codecs) (first second : List (TransactionManager × Call))
    (balanced : table.BalancedRun codecs (first ++ second)) : table.BalancedRun codecs first := by
  induction first generalizing table with
  | nil => trivial
  | cons entry rest ih => exact ⟨balanced.1,ih balanced.2⟩

-- In every state of a balanced run the free stack lists the slots that are not
-- used, each once, and the counter counts the others.
theorem balanced_run_accounted (codecs : Codecs) (tdef : TableDef) (memory : Option Memory)
    (table : MemoryTable) (small : tdef.max_records < usizeLimit) (made : new tdef memory = .ok table)
    (calls first second : List (TransactionManager × Call)) (balanced : table.BalancedRun codecs calls)
    (split : calls = first ++ second) :
    let reached := table.run codecs first
    reached.free_slots.Nodup ∧
      (∀ slot, slot ∈ reached.free_slots ↔
        slot < reached.tdef.max_records ∧ (reached.status slot).status ≠ .used) ∧
      reached.record_count = usedCount reached.tdef.max_records reached.used ∧
      reached.record_count+reached.free_slots.length = reached.tdef.max_records := by
  subst split
  have accounted := run_accounted codecs first (new_accounted tdef memory table small made)
    (balancedRun_append codecs first second balanced)
  refine ⟨accounted.split.distinct,?_,accounted.count,accounted.total⟩
  intro slot
  rw [accounted.split.complete]
  simp [used]

def pairDef : TableDef := ⟨1,"pair",[],[],1,2⟩
def blank : Memory := fun _ => (⟨.free,0,0,0,0⟩,[0])
def noClock : Nat → UInt64 × Env := fun _ => (0,still)
def noTx : TransactionManager := ⟨none,1,none⟩

theorem ordinary_calls_accounted :
    ∃ table, new pairDef (some blank) = .ok table ∧
      let reached := table.run plainBuild [(noTx,.insert 0 [5]),(noTx,.delete 0 0),
        (noTx,.batchInsert noClock (some fun _ => [7]) 3)]
      reached.record_count+reached.free_slots.length = reached.tdef.max_records := by
  refine ⟨_,rfl,?_⟩
  refine (balanced_run_accounted plainBuild pairDef (some blank) _ (by decide) rfl
    [(noTx,.insert 0 [5]),(noTx,.delete 0 0),(noTx,.batchInsert noClock (some fun _ => [7]) 3)]
    _ [] ?_ (List.append_nil _).symm).2.2.2
  refine ⟨trivial,trivial,?_,trivial⟩
  intro low
  cases low

-- A low-power limit of zero: the batch takes a free slot, and counts it as if
-- it had overwritten a record.
theorem low_power_batch_miscounts :
    ∃ table, new pairDef (some blank) = .ok table ∧
      let reached := table.run plainBuild [(noTx,.setLowPowerMode true (some 0)),
        (noTx,.batchInsert noClock (some fun _ => [7]) 1)]
      reached.record_count ≠ usedCount reached.tdef.max_records reached.used ∧
        reached.record_count+reached.free_slots.length ≠ reached.tdef.max_records := by
  refine ⟨_,rfl,?_⟩
  decide +kernel

end MemoryTable
end RemDb
