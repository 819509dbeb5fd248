import RemDb.Table.Unique

namespace RemDb
open RemDb.Lib RemDb.Wal

-- The integer `insert` compares with the largest key seen so far. Zero stands
-- for a key it does not count.
def TableDef.countedKey (tdef : TableDef) (record : Bytes) : UInt64 :=
  match tdef.primary_key with
  | [column] =>
    match tdef.fields[column]? with
    | some field => MemoryTable.keyValue field record
    | none => 0
  | _ => 0

namespace MemoryTable

theorem raiseMaxPk_eq (table : MemoryTable) (record : Bytes) : table.raiseMaxPk record =
    {table with max_pk:=if table.tdef.countedKey record > table.max_pk then table.tdef.countedKey record
      else table.max_pk} := by
  have raised (key : UInt64) : (if key > table.max_pk then {table with max_pk:=key} else table) =
      {table with max_pk:=if key > table.max_pk then key else table.max_pk} := by
    split <;> rfl
  have none_raised := raised 0
  rw [if_neg (UInt64.not_lt_zero (a := table.max_pk))] at none_raised
  unfold raiseMaxPk TableDef.countedKey
  rcases table.tdef.primary_key with _ | ⟨column,_ | _⟩
  · exact none_raised
  · cases found : table.tdef.fields[column]? with
    | some field =>
      simp only [found]
      exact raised _
    | none =>
      simp only [found]
      exact none_raised
  · exact none_raised

def placeTop (table : MemoryTable) (image : Bytes) : MemoryTable :=
  match table.free_slots.getLast? with
  | some slot =>
    {table.store slot image true with
      free_slots:=table.free_slots.dropLast,record_count:=table.record_count+1}
  | none => table

def imageOf (table : MemoryTable) (data : Nat → Bytes) (index : Nat) : Bytes :=
  recordImage table.tdef.record_size (data index)

def placed (table : MemoryTable) (data : Nat → Bytes) : Nat → MemoryTable
  | 0 => table
  | index+1 => (table.placed data index).placeTop (table.imageOf data index)

-- The slot the record gets that `index` records of the batch precede.
def topSlot (table : MemoryTable) (index : Nat) : Option Nat := table.free_slots.reverse[index]?

-- How many records a batch takes in normal mode.
def batchTake (table : MemoryTable) (count : Nat) : Nat := min (table.batchCount count) table.free_slots.length

-- One insert after the other; the first refusal ends it.
def insertFirst (table : MemoryTable) (tx : TransactionManager) (now : Nat → UInt64) (data : Nat → Bytes) :
    Nat → Except RemDbError (MemoryTable × TransactionManager)
  | 0 => .ok (table,tx)
  | index+1 =>
    match table.insertFirst tx now data index with
    | .error failure => .error failure
    | .ok (reached,logged) =>
      match reached.insert logged (now index) (data index) with
      | (.ok _,next,after) => .ok (next,after)
      | (.error failure,_,_) => .error failure

section Placing
variable {table : MemoryTable} {data : Nat → Bytes}

-- The stack and the counter after some records, and what is the same as before.
structure Placed (table : MemoryTable) (count : Nat) (after : MemoryTable) : Prop where
  tdef : after.tdef = table.tdef
  free : after.free_slots = table.free_slots.take (table.free_slots.length-count)
  counted : after.record_count = table.record_count+count
  mode : after.low_power_mode = table.low_power_mode
  limit : after.low_power_max_records = table.low_power_max_records
  key : after.max_pk = table.max_pk
  ids : ∀ slot, (after.status slot).create_tx_id = (table.status slot).create_tx_id ∧
    (after.status slot).delete_tx_id = (table.status slot).delete_tx_id

theorem topSlot_eq {index : Nat} (below : index < table.free_slots.length) :
    table.topSlot index = some (table.free_slots[table.free_slots.length-1-index]) := by
  rw [topSlot,List.getElem?_reverse (by omega),List.getElem?_eq_getElem (by omega)]

theorem last_taken (below : index < table.free_slots.length) :
    (table.free_slots.take (table.free_slots.length-index)).getLast? = table.topSlot index := by
  rw [topSlot_eq below,List.getLast?_eq_getElem?,List.length_take,
    List.getElem?_take_of_lt (by omega),List.getElem?_eq_getElem (by omega)]
  congr 2
  omega

theorem placeTop_eq (top : table.free_slots.getLast? = some slot) (image : Bytes) : table.placeTop image =
    {table.store slot image true with
      free_slots:=table.free_slots.dropLast,record_count:=table.record_count+1} := by
  rw [placeTop,top]

theorem placeTop_key (table : MemoryTable) (key : UInt64) (image : Bytes) :
    ({table with max_pk:=key} : MemoryTable).placeTop image = {table.placeTop image with max_pk:=key} := by
  unfold placeTop
  dsimp only
  cases table.free_slots.getLast? with
  | some slot => rfl
  | none => rfl

theorem placed_parts (data : Nat → Bytes) (enough : count ≤ table.free_slots.length) : Placed table count (table.placed data count) := by
  induction count with
  | zero => exact ⟨rfl,by simp [placed],rfl,rfl,rfl,rfl,fun _ => ⟨rfl,rfl⟩⟩
  | succ count ih =>
    obtain ⟨tdef,free,counted,mode,limit,key,ids⟩ := ih (by omega)
    have top : (table.placed data count).free_slots.getLast? = table.topSlot count := by
      rw [free]
      exact last_taken (by omega)
    rw [topSlot_eq (by omega)] at top
    rw [placed,placeTop_eq top]
    refine ⟨tdef,?_,?_,mode,limit,key,?_⟩
    · change (table.placed data count).free_slots.dropLast = _
      rw [free,List.dropLast_eq_take,List.length_take,List.take_take]
      congr 1
      omega
    · change (table.placed data count).record_count+1 = _
      rw [counted]
      rfl
    · intro slot
      rw [← (ids slot).1,← (ids slot).2]
      change ((store _ _ _ _).status slot).create_tx_id = _ ∧ ((store _ _ _ _).status slot).delete_tx_id = _
      simp only [MemoryTable.store,setStatus,setRecord]
      by_cases here : slot = table.free_slots[table.free_slots.length-1-count]
      · rw [here,assign_same]
        exact ⟨rfl,rfl⟩
      · rw [assign_other _ here]
        exact ⟨rfl,rfl⟩

theorem placed_succ (below : index < table.free_slots.length) (at_top : table.topSlot index = some slot) :
    table.placed data (index+1) =
      {(table.placed data index).store slot (table.imageOf data index) true with
        free_slots:=table.free_slots.take (table.free_slots.length-(index+1)),
        record_count:=table.record_count+(index+1)} := by
  have before := placed_parts data (Nat.le_of_lt below)
  have after := placed_parts data below
  have top : (table.placed data index).free_slots.getLast? = some slot := by
    rw [before.free,last_taken below,at_top]
  have free := after.free
  have counted := after.counted
  rw [placed,placeTop_eq top] at free counted ⊢
  rw [← free,← counted]

def LastIn (table : MemoryTable) (count slot index : Nat) : Prop :=
  index < count ∧ table.topSlot index = some slot ∧
    ∀ later, index < later → later < count → table.topSlot later ≠ some slot

theorem lastIn_or (table : MemoryTable) (count slot : Nat) :
    (∃ index, LastIn table count slot index) ∨ ∀ index, index < count → table.topSlot index ≠ some slot := by
  induction count with
  | zero => exact Or.inr fun index below => absurd below (Nat.not_lt_zero index)
  | succ count ih =>
    by_cases here : table.topSlot count = some slot
    · exact Or.inl ⟨count,Nat.lt_succ_self count,here,fun later after before => by omega⟩
    · rcases ih with ⟨index,below,taken,last⟩ | none_taken
      · refine Or.inl ⟨index,by omega,taken,?_⟩
        intro later after before
        by_cases top : later = count
        · rw [top]
          exact here
        · exact last later after (by omega)
      · refine Or.inr ?_
        intro index below
        by_cases top : index = count
        · rw [top]
          exact here
        · exact none_taken index (by omega)

theorem placed_last (data : Nat → Bytes) (enough : count ≤ table.free_slots.length) (last : LastIn table count slot index) :
    (table.placed data count).used slot = true ∧
      (table.placed data count).records slot = table.imageOf data index := by
  induction count with
  | zero => exact absurd last.1 (Nat.not_lt_zero index)
  | succ count ih =>
    obtain ⟨below,taken,later⟩ := last
    have at_top : table.topSlot count = _ := topSlot_eq (by omega)
    rw [placed_succ (by omega) at_top]
    change (store _ _ _ _).used slot = true ∧ assign _ _ _ slot = _
    rw [store_used]
    by_cases newest : index = count
    · obtain rfl : index = count := newest
      rw [at_top] at taken
      rw [Option.some.inj taken,assign_same,assign_same]
      exact ⟨rfl,rfl⟩
    · have other := later count (by omega) (Nat.lt_succ_self count)
      rw [at_top] at other
      have away : slot ≠ table.free_slots[table.free_slots.length-1-count] := fun same => other (by rw [same])
      rw [assign_other _ away,assign_other _ away]
      exact ih (by omega) ⟨by omega,taken,fun each after before => later each after (by omega)⟩

theorem placed_untaken (data : Nat → Bytes) (enough : count ≤ table.free_slots.length)
    (untaken : ∀ index, index < count → table.topSlot index ≠ some slot) :
    (table.placed data count).used slot = table.used slot ∧
      (table.placed data count).records slot = table.records slot := by
  induction count with
  | zero => exact ⟨rfl,rfl⟩
  | succ count ih =>
    have at_top : table.topSlot count = _ := topSlot_eq (by omega)
    have other := untaken count (Nat.lt_succ_self count)
    rw [at_top] at other
    have away : slot ≠ table.free_slots[table.free_slots.length-1-count] := fun same => other (by rw [same])
    rw [placed_succ (by omega) at_top]
    change (store _ _ _ _).used slot = _ ∧ assign _ _ _ slot = _
    rw [store_used,assign_other _ away,assign_other _ away]
    exact ih (by omega) fun index below => untaken index (by omega)

-- The record passes its own checks, and conflicts neither with a record that
-- stays nor with the batch's own record that a slot holds by then.
structure Acceptable (table : MemoryTable) (newest : UInt32) (data : Nat → Bytes) (index : Nat) : Prop where
  clean : table.tdef.fields.findSome? (·.fault (table.imageOf data index)) = none
  stored : ∀ slot, table.tdef.Compared table.status newest none slot →
    (∀ earlier, earlier < index → table.topSlot earlier ≠ some slot) →
      table.tdef.conflict (table.imageOf data index) (table.records slot) = false
  batch : ∀ slot earlier, slot < table.tdef.max_records →
    isVisible (table.status slot).create_tx_id (table.status slot).delete_tx_id newest = true →
      LastIn table index slot earlier →
        table.tdef.conflict (table.imageOf data index) (table.imageOf data earlier) = false

theorem placed_valid_iff (enough : index ≤ table.free_slots.length) (tx : TransactionManager) :
    (table.placed data index).validate tx (table.imageOf data index) none = .ok () ↔
      Acceptable table tx.tx_id_counter data index := by
  have parts := placed_parts data enough
  have compared (slot : Nat) :
      table.tdef.Compared (table.placed data index).status tx.tx_id_counter none slot ↔
        slot < table.tdef.max_records ∧ (table.placed data index).used slot = true ∧
          isVisible (table.status slot).create_tx_id (table.status slot).delete_tx_id tx.tx_id_counter = true := by
    rw [← (parts.ids slot).1,← (parts.ids slot).2]
    exact ⟨fun ⟨inside,_,used,visible⟩ => ⟨inside,decide_eq_true used,visible⟩,
      fun ⟨inside,used,visible⟩ => ⟨inside,nofun,of_decide_eq_true used,visible⟩⟩
  unfold validate
  rw [parts.tdef]
  rcases table.tdef.validate_cases (table.placed data index).status (table.placed data index).records
      tx.tx_id_counter (table.imageOf data index) none with
    ⟨fault,found,refused⟩ | ⟨clean,⟨⟨slot,taken,clash⟩,refused⟩ | ⟨free,valid⟩⟩
  · rw [refused]
    refine ⟨nofun,fun fits => ?_⟩
    rw [fits.clean] at found
    cases found
  · rw [refused]
    refine ⟨nofun,fun fits => ?_⟩
    obtain ⟨inside,used,visible⟩ := (compared slot).mp taken
    rcases lastIn_or table index slot with ⟨earlier,last⟩ | untaken
    · rw [(placed_last data enough last).2,fits.batch slot earlier inside visible last] at clash
      cases clash
    · obtain ⟨kept,same⟩ := placed_untaken data enough untaken
      rw [kept] at used
      rw [same,fits.stored slot ⟨inside,nofun,of_decide_eq_true used,visible⟩ untaken] at clash
      cases clash
  · rw [valid]
    refine ⟨fun _ => ⟨clean,?_,?_⟩,fun _ => rfl⟩
    · intro slot ⟨inside,_,used,visible⟩ untaken
      obtain ⟨kept,same⟩ := placed_untaken data enough untaken
      rw [← same]
      exact free slot ((compared slot).mpr ⟨inside,kept.trans (decide_eq_true used),visible⟩)
    · intro slot earlier inside visible last
      obtain ⟨used,same⟩ := placed_last data enough last
      rw [← same]
      exact free slot ((compared slot).mpr ⟨inside,used,visible⟩)

end Placing

section Batch
variable {table : MemoryTable} {data : Nat → Bytes}

-- The loop of a batch, on the table without the slots it took off the stack.
theorem storeBatch_placed (codecs : Codecs) (operation : LogOperation) (clock : Nat → UInt64 × Env)
    (kept : List Nat) (total : Nat) (slots : List Nat) (index : Nat) (tx : TransactionManager)
    (taken : ∀ place, (below : place < slots.length) → table.topSlot (index+place) = some slots[place])
    (enough : index+slots.length ≤ table.free_slots.length) :
    (storeBatch codecs operation true data clock (slots.zipIdx index)
      ({table.placed data index with free_slots:=kept,record_count:=total},tx)).1 =
        {table.placed data (index+slots.length) with free_slots:=kept,record_count:=total} := by
  induction slots generalizing index tx with
  | nil => rfl
  | cons slot rest ih =>
    have top := taken 0 (Nat.zero_lt_succ _)
    have tdef := (placed_parts data (show index ≤ table.free_slots.length by
      rw [List.length_cons] at enough
      omega)).tdef
    rw [List.length_cons] at enough ⊢
    have image : recordImage (table.placed data index).tdef.record_size (data index) = table.imageOf data index := by
      rw [tdef]
      rfl
    have stored : ({table.placed data index with free_slots:=kept,record_count:=total} : MemoryTable).store slot
        (recordImage (table.placed data index).tdef.record_size (data index)) true =
          {table.placed data (index+1) with free_slots:=kept,record_count:=total} := by
      rw [image,placed_succ (by omega) top]
      rfl
    rw [List.zipIdx_cons]
    refine (congrArg (fun next => (storeBatch codecs operation true data clock (rest.zipIdx (index+1))
      (next,_)).1) stored).trans ?_
    rw [ih (index+1) _ (by
        intro place below
        have shifted := taken (place+1) (Nat.succ_lt_succ below)
        rw [Nat.add_right_comm,Nat.add_assoc]
        exact shifted) (by omega),Nat.add_right_comm,Nat.add_assoc]

theorem batch_placed (normal : table.low_power_mode = false)
    (done : batchInsert codecs table tx clock (some data) count = (some (.ok taken),after,logged)) :
    taken = table.batchTake count ∧ after = table.placed data taken := by
  have popped_slots : table.batchSlots (table.batchCount count) = table.popped (table.batchCount count) := by
    rw [batchSlots,normal]
    rw [if_neg]
    exact fun low => Bool.noConfusion low.2
  have length : (table.popped (table.batchCount count)).length = table.batchTake count := by
    rw [popped,List.length_take,List.length_reverse]
    rfl
  have never : ∀ full : Prop, ¬ (false = true ∧ full) := fun _ low => Bool.noConfusion low.1
  unfold batchInsert at done
  simp only [popped_slots,normal,if_neg (never _)] at done
  split at done
  · cases done
  · split at done
    · cases done
    · have low : table.batchTake count ≤ table.free_slots.length := Nat.min_le_right _ _
      have parts := placed_parts data low
      have free : (table.withoutPopped (table.batchCount count)).free_slots =
          (table.placed data (table.batchTake count)).free_slots := by
        rw [parts.free,← length]
        rfl
      have stored : (storeBatch codecs .insert true data clock (table.popped (table.batchCount count)).zipIdx
          (table.withoutPopped (table.batchCount count),tx)).1 =
            {table.placed data (0+(table.popped (table.batchCount count)).length) with
              free_slots:=(table.withoutPopped (table.batchCount count)).free_slots,
              record_count:=table.record_count} := by
        refine storeBatch_placed codecs .insert clock _ table.record_count _ 0 tx ?_ (by omega)
        intro place below
        rw [Nat.zero_add,topSlot]
        simp only [popped,List.length_take] at below ⊢
        rw [List.getElem_take,List.getElem?_eq_getElem]
      simp only [Prod.mk.injEq,Option.some.injEq,Except.ok.injEq] at done
      obtain ⟨rfl,rfl,_⟩ := done
      refine ⟨length,?_⟩
      rw [stored,length,Nat.zero_add,free]
      have counted := parts.counted
      change {table.placed data (table.batchTake count) with
        record_count:=table.record_count+table.batchTake count} = _
      rw [← counted]

theorem insert_normal (normal : table.low_power_mode = false) (top : table.free_slots.getLast? = some slot)
    (tx : TransactionManager) (now : UInt64) (whole : recordImage table.tdef.record_size bytes = image) :
    table.insert tx now bytes =
      match table.validate tx image none with
      | .error failure => (.error failure,table,tx)
      | .ok _ =>
        if table.record_count ≥ table.maxRecords then (.error .outOfMemory,table,tx)
        else (.ok slot,{table.placeTop image with
          max_pk:=if table.tdef.countedKey image > table.max_pk then table.tdef.countedKey image
            else table.max_pk},tx.log .insert table.tdef.id (UInt16.ofNat slot) now [] image) := by
  rw [placeTop_eq top]
  unfold MemoryTable.insert
  rw [whole]
  dsimp only
  cases table.validate tx image none with
  | error failure => rfl
  | ok _ =>
    by_cases full : table.record_count ≥ table.maxRecords
    · have refused : table.takeSlot = .error .outOfMemory := by
        rw [takeSlot,if_pos full,normal]
        rfl
      simp only [refused,if_pos full]
    · have taken : table.takeSlot = .ok (slot,false,{table with free_slots:=table.free_slots.dropLast}) := by
        rw [takeSlot,if_neg full,top]
      simp only [taken,if_neg full,raiseMaxPk_eq]
      rfl

theorem larger_key {first reached key : UInt64} (low : first ≤ reached) :
    first ≤ (if key > reached then key else reached) ∧
      ((if key > reached then key else reached) = first ↔ reached = first ∧ key ≤ first) := by
  simp only [UInt64.le_iff_toNat_le,UInt64.lt_iff_toNat_lt,gt_iff_lt,← UInt64.toNat_inj] at low ⊢
  split <;> omega

structure Inserted (table : MemoryTable) (newest : UInt32) (data : Nat → Bytes) (count : Nat)
    (reached : MemoryTable) : Prop where
  placed : reached = {table.placed data count with max_pk:=reached.max_pk}
  raised : table.max_pk ≤ reached.max_pk
  kept : reached.max_pk = table.max_pk ↔
    ∀ index, index < count → table.tdef.countedKey (table.imageOf data index) ≤ table.max_pk

theorem insertFirst_step (normal : table.low_power_mode = false) (below : count < table.free_slots.length)
    (inserted : Inserted table newest data count reached) (now : UInt64)
    (counter : logged.tx_id_counter = newest) :
    (Acceptable table newest data count ∧ table.record_count+count < table.maxRecords ∧
      ∃ slot next after, reached.insert logged now (data count) = (.ok slot,next,after) ∧
        after.tx_id_counter = newest ∧ Inserted table newest data (count+1) next) ∨
    (¬ (Acceptable table newest data count ∧ table.record_count+count < table.maxRecords) ∧
      ∃ failure, reached.insert logged now (data count) = (.error failure,reached,logged)) := by
  obtain ⟨shape,raised,kept⟩ := inserted
  have parts := placed_parts data (Nat.le_of_lt below)
  have top : reached.free_slots.getLast? = some (table.free_slots[table.free_slots.length-1-count]) := by
    rw [shape]
    change (table.placed data count).free_slots.getLast? = _
    rw [parts.free,last_taken below,topSlot_eq below]
  have tdef : reached.tdef = table.tdef := by
    rw [shape]
    exact parts.tdef
  have whole : recordImage reached.tdef.record_size (data count) = table.imageOf data count := by
    rw [tdef]
    rfl
  have quiet : reached.low_power_mode = false := by
    rw [shape]
    exact parts.mode.trans normal
  have room : reached.record_count ≥ reached.maxRecords ↔ ¬ table.record_count+count < table.maxRecords := by
    have counted : reached.record_count = table.record_count+count := by
      rw [shape]
      exact parts.counted
    unfold maxRecords
    rw [quiet,normal,counted,tdef]
    exact Nat.not_lt.symm
  have valid : reached.validate logged (table.imageOf data count) none = .ok () ↔ Acceptable table newest data count := by
    rw [← counter,← placed_valid_iff (Nat.le_of_lt below) logged,shape]
    rfl
  have outcome := insert_normal quiet top logged now whole
  cases checked : reached.validate logged (table.imageOf data count) none with
  | error failure =>
    rw [checked] at outcome valid
    exact Or.inr ⟨fun fine => (nomatch valid.mpr fine.1),failure,outcome⟩
  | ok _ =>
    rw [checked] at outcome valid
    by_cases full : reached.record_count ≥ reached.maxRecords
    · rw [if_pos full] at outcome
      exact Or.inr ⟨fun fine => room.mp full fine.2,_,outcome⟩
    · rw [if_neg full] at outcome
      refine Or.inl ⟨valid.mp rfl,not_not.mp (fun far => full (room.mpr far)),_,_,_,outcome,counter,?_,?_,?_⟩
      · have grown : reached.placeTop (table.imageOf data count) =
            {table.placed data (count+1) with max_pk:=reached.max_pk} := by
          rw [shape,placeTop_key]
          rfl
        rw [grown]
      · exact (larger_key raised).1
      · refine (larger_key raised).2.trans ?_
        rw [kept,tdef]
        constructor
        · intro ⟨before,last⟩ index reach
          by_cases newest : index = count
          · rw [newest]
            exact last
          · exact before index (by omega)
        · intro every
          exact ⟨fun index reach => every index (by omega),every count (Nat.lt_succ_self count)⟩

theorem error_ne_ok {ε α : Type} {failure : ε} {value : α} : Except.error failure ≠ Except.ok value :=
  fun same => nomatch same

-- While every record fits, the inserts go on as the batch does; they stop at the
-- first that does not.
theorem insertFirst_iff (data : Nat → Bytes) (normal : table.low_power_mode = false) (tx : TransactionManager)
    (now : Nat → UInt64) (enough : count ≤ table.free_slots.length) :
    (∀ reached logged, table.insertFirst tx now data count = .ok (reached,logged) →
      logged.tx_id_counter = tx.tx_id_counter ∧ Inserted table tx.tx_id_counter data count reached) ∧
    ((∃ result, table.insertFirst tx now data count = .ok result) ↔
      ∀ index, index < count → Acceptable table tx.tx_id_counter data index ∧ table.record_count+index < table.maxRecords) := by
  induction count with
  | zero =>
    refine ⟨?_,?_⟩
    · intro reached logged done
      obtain ⟨rfl,rfl⟩ := Prod.mk.inj (Except.ok.inj done)
      exact ⟨rfl,rfl,UInt64.le_refl _,fun _ index below => absurd below (Nat.not_lt_zero index),fun _ => rfl⟩
    · exact ⟨fun _ index below => absurd below (Nat.not_lt_zero index),fun _ => ⟨_,rfl⟩⟩
  | succ count ih =>
    obtain ⟨reaches,goes⟩ := ih (by omega)
    cases before : table.insertFirst tx now data count with
    | error failure =>
      have stopped : table.insertFirst tx now data (count+1) = .error failure := by
        rw [insertFirst,before]
      rw [stopped]
      refine ⟨fun _ _ same => absurd same error_ne_ok,⟨fun ⟨_,same⟩ => absurd same error_ne_ok,fun every => ?_⟩⟩
      obtain ⟨result,done⟩ := goes.mpr fun index below => every index (by omega)
      rw [before] at done
      cases done
    | ok result =>
      obtain ⟨reached,logged⟩ := result
      obtain ⟨counter,inserted⟩ := reaches reached logged before
      have earlier := goes.mp ⟨_,before⟩
      rcases insertFirst_step normal (by omega) inserted (now count) counter with
        ⟨fits,room,slot,next,after,done,kept,advanced⟩ | ⟨unfit,failure,done⟩
      · have went : table.insertFirst tx now data (count+1) = .ok (next,after) := by
          rw [insertFirst,before]
          dsimp only
          rw [done]
        rw [went]
        refine ⟨?_,fun _ index below => ?_,fun _ => ⟨_,rfl⟩⟩
        · intro final last same
          obtain ⟨rfl,rfl⟩ := Prod.mk.inj (Except.ok.inj same)
          exact ⟨kept,advanced⟩
        · by_cases newest : index = count
          · rw [newest]
            exact ⟨fits,room⟩
          · exact earlier index (by omega)
      · have stopped : table.insertFirst tx now data (count+1) = .error failure := by
          rw [insertFirst,before]
          dsimp only
          rw [done]
        rw [stopped]
        exact ⟨fun _ _ same => absurd same error_ne_ok,fun ⟨_,same⟩ => absurd same error_ne_ok,
          fun every => absurd (every count (Nat.lt_succ_self count)) unfit⟩

-- A batch does what that many inserts do exactly when each of its records would
-- pass the checks it skips and has a key no larger than the largest so far.
theorem batch_agrees_with_inserts (codecs : Codecs) (table : MemoryTable) (tx : TransactionManager)
    (clock : Nat → UInt64 × Env) (now : Nat → UInt64) (data : Nat → Bytes) (count taken : Nat)
    (after : MemoryTable) (logged : TransactionManager) (normal : table.low_power_mode = false)
    (done : batchInsert codecs table tx clock (some data) count = (some (.ok taken),after,logged)) :
    (∃ final, table.insertFirst tx now data taken = .ok (after,final)) ↔
      ∀ index, index < table.batchTake count →
        Acceptable table tx.tx_id_counter data index ∧ table.record_count+index < table.maxRecords ∧
          table.tdef.countedKey (table.imageOf data index) ≤ table.max_pk := by
  obtain ⟨rfl,rfl⟩ := batch_placed normal done
  have enough : table.batchTake count ≤ table.free_slots.length := Nat.min_le_right _ _
  have key := (placed_parts data enough).key
  obtain ⟨reaches,goes⟩ := insertFirst_iff data normal tx now enough
  constructor
  · intro ⟨final,same⟩ index below
    obtain ⟨_,inserted⟩ := reaches _ _ same
    obtain ⟨fits,room⟩ := goes.mp ⟨_,same⟩ index below
    exact ⟨fits,room,inserted.kept.mp key index below⟩
  · intro every
    obtain ⟨⟨reached,final⟩,same⟩ := goes.mpr fun index below => ⟨(every index below).1,(every index below).2.1⟩
    obtain ⟨_,inserted⟩ := reaches _ _ same
    have untouched := inserted.kept.mpr fun index below => (every index below).2.2
    refine ⟨final,?_⟩
    rw [same,inserted.placed,untouched,← key]

end Batch

def freshPair : MemoryTable := ⟨pairDef,fun _ => [0],fun _ => ⟨.free,0,0,0,0⟩,0,[1,0],false,none,0⟩
def freshKeyed : MemoryTable := ⟨keyedDef,fun _ => [0,0],fun _ => ⟨.free,0,0,0,0⟩,0,[1,0],false,none,0⟩

theorem batch_split {outcome : Option (Except RemDbError Nat) × MemoryTable × TransactionManager} (taken : outcome.1 = some (.ok count)) :
    outcome = (some (.ok count),outcome.2.1,outcome.2.2) := by
  rw [← taken]

theorem freshPair_batch : (batchInsert plainBuild freshPair noTx noClock (some fun _ => [7]) 2).1 = some (.ok 2) := by
  decide +kernel

theorem freshKeyed_batch : (batchInsert plainBuild freshKeyed noTx noClock (some fun _ => [5,0]) 2).1 = some (.ok 2) := by
  decide +kernel

-- Two records into a table without a key.
theorem batch_agrees_with_inserts_pair : ∃ final, freshPair.insertFirst noTx (fun _ => 0) (fun _ => [7]) 2 =
    .ok ((batchInsert plainBuild freshPair noTx noClock (some fun _ => [7]) 2).2.1,final) := by
  have same := batch_agrees_with_inserts plainBuild freshPair noTx noClock (fun _ => 0) (fun _ => [7]) 2 2
    (batchInsert plainBuild freshPair noTx noClock (some fun _ => [7]) 2).2.1
    (batchInsert plainBuild freshPair noTx noClock (some fun _ => [7]) 2).2.2 rfl (batch_split freshPair_batch)
  apply same.mpr
  intro index below
  have taken : freshPair.batchTake 2 = 2 := by decide
  refine ⟨⟨rfl,fun _ _ _ => rfl,fun _ _ _ _ _ => rfl⟩,?_,?_⟩
  · change 0+index < 2
    omega
  · change (0 : UInt64) ≤ 0
    decide

-- A batch of two records with one key is taken; the second insert is refused.
theorem batch_takes_duplicates : ¬ ∀ (codecs : Codecs) (table : MemoryTable) (tx : TransactionManager)
    (clock : Nat → UInt64 × Env) (now : Nat → UInt64) (data : Nat → Bytes) (count taken : Nat)
    (after : MemoryTable) (logged : TransactionManager), table.low_power_mode = false → count ≤ 256 →
      batchInsert codecs table tx clock (some data) count = (some (.ok taken),after,logged) →
        ∃ final, table.insertFirst tx now data taken = .ok (after,final) := by
  intro always
  obtain ⟨final,same⟩ := always plainBuild freshKeyed noTx noClock (fun _ => 0) (fun _ => [5,0]) 2 2
    (batchInsert plainBuild freshKeyed noTx noClock (some fun _ => [5,0]) 2).2.1
    (batchInsert plainBuild freshKeyed noTx noClock (some fun _ => [5,0]) 2).2.2
    rfl (by decide) (batch_split freshKeyed_batch)
  have refused : (freshKeyed.insertFirst noTx (fun _ => 0) (fun _ => [5,0]) 2).isOk = false := by decide
  rw [same] at refused
  cases refused

end MemoryTable
end RemDb
