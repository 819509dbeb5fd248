import RemDb.Ddl.Altered
import RemDb.Ddl.Rows
import RemDb.Snapshot.Store

namespace RemDb
open RemDb.Lib

namespace MemoryTable

def storedRow (table : MemoryTable) (slot : Nat) : Bytes := recordImage table.tdef.record_size (table.records slot)

def occupied (table : MemoryTable) : Set Nat := {slot | slot < table.tdef.max_records ∧ table.used slot = true}

end MemoryTable

-- The index entries of keys that were put in one after the other.
def entriesOf (keys : List Bytes) : Multimap Bytes UInt16 :=
  (keys.mapIdx fun number key => (key,UInt16.ofNat number)).reverse

-- The new table and its index when the records of some slots have been moved:
-- they lie in its first slots, in the order of the old ones.
structure Moved (heap : TextHeap) (operation : AlterTableOperation) (old : MemoryTable) (tdef : TableDef)
    (done : List Nat) (table : MemoryTable) (index : PrimaryIndex) : Prop where
  tdef_eq : table.tdef = tdef
  used : ∀ slot, table.used slot = decide (slot < done.length)
  free : table.free_slots = (List.range' done.length (tdef.max_records-done.length)).reverse
  count : table.record_count = done.length
  records : ∀ (number slot : Nat), done[number]? = some slot →
    table.records number = migrateRecord operation old.tdef tdef (old.storedRow slot)
  index_tdef : index.tdef = tdef
  index_slots : index.hash_table_size = hashTableSize tdef.max_records
  indexed : tdef.primary_key ≠ [] → ∃ keys : List Bytes,
    done.map (fun slot => tdef.compositeKey heap (migrateRecord operation old.tdef tdef (old.storedRow slot))) =
      keys.map some ∧
    (∀ key ∈ keys, key.length ≤ PrimaryIndexItem.KEY_DATA) ∧ index.Represents (entriesOf keys)

section Loop
variable {heap : TextHeap} {operation : AlterTableOperation} {old : MemoryTable} {tdef : TableDef} {done : List Nat}
  {table : MemoryTable} {index : PrimaryIndex}

theorem moved_start {memory : Memory} (left : Leftover) (small : tdef.max_records < usizeLimit)
    (made : MemoryTable.new tdef (some memory) = .ok table) :
    Moved heap operation old tdef [] table (PrimaryIndex.new tdef left.hash_table_start left.items_start
      (hashTableSize tdef.max_records) tdef.max_records) := by
  rw [MemoryTable.new,MemoryTable.newWithOptions] at made
  split at made
  · cases made
  cases made
  obtain ⟨represents,slots,_⟩ := PrimaryIndex.new_represents tdef left.hash_table_start left.items_start
    (hashTableSize tdef.max_records) small
  refine ⟨rfl,?_,?_,rfl,?_,PrimaryIndex.new_tdef _ _ _ _ _,slots,?_⟩
  · intro slot
    simp [MemoryTable.used]
  · rw [List.length_nil,Nat.sub_zero,List.reverse_range',Nat.zero_add]
    rfl
  · intro number slot present
    cases present
  · exact fun _ => ⟨[],rfl,fun _ member => absurd member List.not_mem_nil,represents⟩

theorem placeRecord_only (table : MemoryTable) (slot : Nat) (image : Bytes) :
    ∃ key, table.placeRecord slot image = {table.store slot image true with
      free_slots:=table.free_slots.dropLast
      record_count:=table.record_count+1
      max_pk:=key} := by
  unfold MemoryTable.placeRecord MemoryTable.noteMaxPk
  dsimp only
  split
  · split
    · exact ⟨_,rfl⟩
    · exact ⟨_,rfl⟩
  · exact ⟨_,rfl⟩

theorem entriesOf_push (keys : List Bytes) (key : Bytes) :
    entriesOf (keys ++ [key]) = (key,UInt16.ofNat keys.length) :: entriesOf keys := by
  rw [entriesOf,List.mapIdx_append,List.reverse_append,List.mapIdx_singleton,Nat.zero_add]
  rfl

theorem insertComposite_represents {image : Bytes} {record_id : UInt16} {after : PrimaryIndex}
    {entries : Multimap Bytes UInt16} (slots : 0 < index.hash_table_size) (represents : index.Represents entries)
    (inserted : index.insertComposite heap image record_id = some (.ok (),after)) :
    ∃ key, index.tdef.compositeKey heap image = some key ∧ key.length ≤ PrimaryIndexItem.KEY_DATA ∧
      after.Represents ((key,record_id) :: entries) ∧ after.hash_table_size = index.hash_table_size ∧
      after.tdef = index.tdef := by
  obtain ⟨key,encoded,outcome⟩ := Option.map_eq_some_iff.mp inserted
  have same := PrimaryIndex.insert_tdef index key record_id
  rw [outcome] at same
  have short : key.length ≤ PrimaryIndexItem.KEY_DATA := by
    by_contra long
    rw [PrimaryIndex.insert,if_pos (Nat.lt_of_not_le long)] at outcome
    cases outcome
  have effect := PrimaryIndex.insert_represents slots represents short record_id
  split at effect
  · cases effect.symm.trans outcome
  · obtain ⟨stored,ran,holds,size,_⟩ := effect
    cases ran.symm.trans outcome
    exact ⟨key,encoded,short,holds,size,same⟩

theorem Moved.free_split (moved : Moved heap operation old tdef done table index)
    (room : done.length < tdef.max_records) : table.free_slots =
      (List.range' (done.length+1) (tdef.max_records-(done.length+1))).reverse ++ [done.length] := by
  obtain ⟨more,extent⟩ : ∃ more, tdef.max_records-done.length = more+1 := ⟨tdef.max_records-done.length-1,by omega⟩
  rw [moved.free,extent,List.range'_succ,List.reverse_cons]
  congr 3
  omega

theorem Moved.step (moved : Moved heap operation old tdef done table index) (slot : Nat)
    (room : done.length < tdef.max_records) {after : PrimaryIndex}
    (keyed : if tdef.primary_key = [] then after = index else
      index.insertComposite heap (migrateRecord operation old.tdef tdef (old.storedRow slot)) (UInt16.ofNat done.length) =
        some (.ok (),after)) (slots : 0 < hashTableSize tdef.max_records) :
    Moved heap operation old tdef (done ++ [slot])
      (table.placeRecord done.length (migrateRecord operation old.tdef tdef (old.storedRow slot))) after := by
  have free := moved.free_split room
  obtain ⟨key,placed⟩ := placeRecord_only table done.length (migrateRecord operation old.tdef tdef (old.storedRow slot))
  rw [placed]
  refine ⟨moved.tdef_eq,?_,?_,?_,?_,?_,?_,?_⟩
  · intro other
    change (table.store done.length _ true).used other = _
    rw [MemoryTable.store_used,List.length_append,List.length_singleton]
    by_cases same : other = done.length
    · rw [same,assign_same]
      exact (decide_eq_true (by omega)).symm
    · rw [assign_other _ same,moved.used other]
      exact decide_eq_decide.mpr (by omega)
  · dsimp only
    rw [free,List.dropLast_concat,List.length_append]
    rfl
  · dsimp only
    rw [moved.count,List.length_append]
    rfl
  · intro number each present
    change assign table.records done.length _ number = _
    rw [List.getElem?_append] at present
    split at present
    · rename_i below
      rw [assign_other _ (by omega),moved.records number each present]
    · rename_i beyond
      have inside := (List.getElem?_eq_some_iff.mp present).1
      rw [List.length_singleton] at inside
      obtain rfl : number = done.length := by omega
      rw [Nat.sub_self] at present
      cases present
      exact assign_same _ _ _
  · split at keyed
    · rw [keyed,moved.index_tdef]
    · rename_i many
      obtain ⟨keys,_,_,represents⟩ := moved.indexed many
      obtain ⟨_,_,_,_,_,same⟩ := insertComposite_represents (by rw [moved.index_slots]; exact slots) represents keyed
      exact same.trans moved.index_tdef
  · split at keyed
    · rw [keyed,moved.index_slots]
    · rename_i many
      obtain ⟨keys,_,_,represents⟩ := moved.indexed many
      obtain ⟨_,_,_,_,same,_⟩ := insertComposite_represents (by rw [moved.index_slots]; exact slots) represents keyed
      exact same.trans moved.index_slots
  · intro many
    rw [if_neg many] at keyed
    obtain ⟨keys,encoded,short,represents⟩ := moved.indexed many
    obtain ⟨key,own,fits,represents',_,_⟩ :=
      insertComposite_represents (by rw [moved.index_slots]; exact slots) represents keyed
    have extent := congrArg List.length encoded
    rw [List.length_map,List.length_map] at extent
    rw [moved.index_tdef] at own
    refine ⟨keys ++ [key],?_,?_,?_⟩
    · rw [List.map_append,List.map_append,encoded,List.map_singleton,own]
      rfl
    · intro each member
      rcases List.mem_append.mp member with among | last
      · exact short each among
      · cases List.mem_singleton.mp last
        exact fits
    · rw [entriesOf_push,← extent]
      exact represents'

theorem migrate_moved (slots : 0 < hashTableSize tdef.max_records) (rest : List Nat) {table' : MemoryTable}
    {index' : PrimaryIndex} (moved : Moved heap operation old tdef done table index)
    (room : done.length+(rest.filter old.used).length ≤ tdef.max_records)
    (ran : migrate heap operation old rest (table,index) = some (.ok (),table',index')) :
    Moved heap operation old tdef (done ++ rest.filter old.used) table' index' := by
  induction rest generalizing done table index with
  | nil =>
    cases ran
    rw [List.filter_nil,List.append_nil]
    exact moved
  | cons slot rest ih =>
    rw [migrate] at ran
    by_cases taken : old.used slot = true
    · rw [if_pos taken] at ran
      rw [List.filter_cons_of_pos taken] at room ⊢
      rw [List.length_cons] at room
      have onward : ∀ after, (if tdef.primary_key = [] then after = index else
          index.insertComposite heap (migrateRecord operation old.tdef tdef (old.storedRow slot))
            (UInt16.ofNat done.length) = some (.ok (),after)) →
          migrate heap operation old rest (table.placeRecord done.length
            (migrateRecord operation old.tdef tdef (old.storedRow slot)),after) = some (.ok (),table',index') →
          Moved heap operation old tdef (done ++ slot :: rest.filter old.used) table' index' := by
        intro after keyed ran
        have next := ih (moved.step slot (by omega) keyed slots)
          (by rw [List.length_append,List.length_singleton]; omega) ran
        rw [List.append_assoc] at next
        exact next
      have last : table.free_slots.getLast? = some done.length := by
        rw [moved.free_split (by omega),List.getLast?_concat]
      simp only [last,moved.tdef_eq] at ran
      split at ran
      · rename_i none_keyed
        exact onward index (if_pos none_keyed ▸ rfl) ran
      · rename_i many
        split at ran
        · cases ran
        · cases ran
        · rename_i after inserted
          refine onward after ?_ ran
          rw [if_neg many]
          exact inserted
    · rw [if_neg taken] at ran
      rw [List.filter_cons_of_neg taken] at room ⊢
      exact ih moved room ran

end Loop

-- All rows of the old table are in the new one, accounted for and found by their keys.
structure RowsKept (heap : TextHeap) (operation : AlterTableOperation) (old new : MemoryTable) (index : PrimaryIndex) :
    Prop where
  accounted : new.Accounted
  rows : ∃ moved : Nat → Nat, Set.BijOn moved old.occupied new.occupied ∧
    ∀ slot ∈ old.occupied, operation.RowKept old.tdef new.tdef (old.storedRow slot) (new.storedRow (moved slot))
  found : new.tdef.primary_key ≠ [] → ∀ slot ∈ new.occupied, ∃ record_id after,
    index.findComposite heap (new.storedRow slot) = some (.ok record_id,after) ∧ record_id.toNat = slot

-- An index holds slots of 16 bits, and of the rows of one key it finds the last.
structure KeepsRows (heap : TextHeap) (operation : AlterTableOperation) (old : MemoryTable) : Prop where
  rows : ∀ slot ∈ old.occupied, operation.RowFits old.tdef (old.storedRow slot)
  slots : old.tdef.primary_key ≠ [] → old.record_count ≤ 65536
  keys : old.tdef.primary_key ≠ [] → ∀ first ∈ old.occupied, ∀ second ∈ old.occupied,
    (operation.reshaped old.tdef).compositeKey heap (operation.expectedRow old.tdef (old.storedRow first)) =
      (operation.reshaped old.tdef).compositeKey heap (operation.expectedRow old.tdef (old.storedRow second)) →
    first = second

section Kept
variable {heap : TextHeap} {operation : AlterTableOperation} {old table : MemoryTable} {index : PrimaryIndex}

theorem mem_usedSlots (table : MemoryTable) (slot : Nat) : slot ∈ table.usedSlots ↔ slot ∈ table.occupied := by
  rw [MemoryTable.usedSlots,List.mem_filter,List.mem_range]
  rfl

theorem usedSlots_nodup (table : MemoryTable) : table.usedSlots.Nodup := List.nodup_range.filter _

theorem usedSlots_length (accounted : table.Accounted) : table.usedSlots.length = table.record_count := by
  rw [accounted.count,usedCount,Nat.count,List.countP_eq_length_filter,MemoryTable.usedSlots]
  simp

theorem row_length (table : MemoryTable) (slot : Nat) : (table.storedRow slot).length = table.tdef.record_size :=
  recordImage_length _ _

theorem Moved.accounted {tdef : TableDef} {done : List Nat} (moved : Moved heap operation old tdef done table index)
    (positive : 0 < tdef.max_records) (small : tdef.max_records < usizeLimit)
    (fits : done.length ≤ tdef.max_records) : table.Accounted := by
  have split : Partition tdef.max_records table.used table.free_slots := by
    refine ⟨?_,?_⟩
    · rw [moved.free]
      exact List.nodup_reverse.mpr List.nodup_range'
    · intro slot
      rw [moved.free,List.mem_reverse,List.mem_range'_1,moved.used slot,decide_eq_false_iff_not]
      omega
  have whole := split.length
  rw [moved.free,List.length_reverse,List.length_range'] at whole
  refine ⟨?_,?_,?_,?_⟩
  · rw [moved.tdef_eq]
    exact positive
  · rw [moved.tdef_eq]
    exact small
  · rw [moved.tdef_eq]
    exact split
  · rw [moved.count,moved.tdef_eq]
    omega

theorem migrateRecord_length {old new : TableDef} {row : Bytes} (laid : old.Laid)
    (whole : row.length = old.record_size) (plain : operation.modifies = false)
    (changed : operation.change wrapping old = some (.ok new)) :
    (migrateRecord operation old (operation.reshaped old) row).length = (operation.reshaped old).record_size := by
  cases operation with
  | addColumn name data_type size default_value constraints =>
    obtain ⟨fresh,_⟩ := (AlterTableOperation.addColumn_iff wrapping _ _ _ _ _).mp changed
    exact (AlterTableOperation.addColumn_matched laid fresh).length row
  | dropColumn name =>
    obtain ⟨field_index,found,_⟩ := (AlterTableOperation.dropColumn_iff wrapping _).mp changed
    exact (AlterTableOperation.dropColumn_matched laid found).length row
  | modifyColumn _ _ _ _ _ => cases plain
  | renameColumn old_name new_name =>
    rw [AlterTableOperation.migrateRecord_expected laid whole plain changed trivial]
    exact AlterTableOperation.expectedRow_length laid whole

theorem usedSlots_le (table : MemoryTable) : table.usedSlots.length ≤ table.tdef.max_records := by
  have bound := List.length_filter_le table.used (List.range table.tdef.max_records)
  rw [List.length_range] at bound
  exact bound

end Kept

section Complete
variable {heap : TextHeap} {operation : AlterTableOperation} {old table : MemoryTable} {index : PrimaryIndex}
  {new : TableDef} (laid : old.tdef.Laid) (plain : operation.modifies = false)
  (changed : operation.change wrapping old.tdef = some (.ok new))
  (moved : Moved heap operation old (operation.reshaped old.tdef) old.usedSlots table index)

include moved in
theorem moved_used (slot : Nat) : slot ∈ table.occupied ↔ slot < old.usedSlots.length := by
  have bound := usedSlots_le old
  have extent : table.tdef.max_records = old.tdef.max_records := by
    rw [moved.tdef_eq]
    rfl
  change (slot < table.tdef.max_records ∧ table.used slot = true) ↔ _
  rw [moved.used,decide_eq_true_eq,extent]
  omega

include laid plain changed moved in
theorem moved_row {number slot : Nat} (present : old.usedSlots[number]? = some slot) :
    table.storedRow number = migrateRecord operation old.tdef (operation.reshaped old.tdef) (old.storedRow slot) := by
  have whole := migrateRecord_length laid (row_length old slot) plain changed
  rw [MemoryTable.storedRow,moved.tdef_eq,moved.records number slot present,← whole,recordImage_exact]

-- Where each row went.
include moved in
theorem moved_bijOn : Set.BijOn (fun slot => old.usedSlots.idxOf slot) old.occupied table.occupied := by
  refine ⟨?_,?_,?_⟩
  · intro slot used
    exact (moved_used moved _).mpr (List.idxOf_lt_length_of_mem ((mem_usedSlots old slot).mpr used))
  · intro first used second used' same
    exact (List.idxOf_inj ((mem_usedSlots old first).mpr used)).mp same
  · intro number used
    have inside := (moved_used moved number).mp used
    refine ⟨old.usedSlots[number],(mem_usedSlots old _).mp (List.getElem_mem inside),?_⟩
    exact (usedSlots_nodup old).idxOf_getElem number inside

theorem usedSlots_idxOf {slot : Nat} (used : slot ∈ old.occupied) :
    old.usedSlots[old.usedSlots.idxOf slot]? = some slot := by
  have inside := List.idxOf_lt_length_of_mem ((mem_usedSlots old slot).mpr used)
  rw [List.getElem?_eq_getElem inside,List.getElem_idxOf]

include laid plain changed moved in
theorem rowFits_of_bijOn {target : Nat → Nat} (bijective : Set.BijOn target old.occupied table.occupied)
    (kept : ∀ slot ∈ old.occupied, operation.RowKept old.tdef table.tdef (old.storedRow slot) (table.storedRow (target slot))) :
    ∀ slot ∈ old.occupied, operation.RowFits old.tdef (old.storedRow slot) := by
  intro slot used
  refine AlterTableOperation.rowFits_of_kept laid plain changed (old.storedRow '' old.occupied) ?_ ?_ _ ⟨slot,used,rfl⟩
  · rintro row ⟨each,_,rfl⟩
    exact row_length old each
  · rintro row ⟨each,used',rfl⟩
    have inside := (moved_used moved _).mp (bijective.mapsTo used')
    have present := List.getElem?_eq_getElem inside
    refine ⟨_,⟨old.usedSlots[target each],(mem_usedSlots old _).mp (List.getElem_mem inside),rfl⟩,?_⟩
    rw [← moved_row laid plain changed moved present,← moved.tdef_eq]
    exact kept each used'

theorem entriesOf_mem {keys : List Bytes} {number : Nat} {key : Bytes} (present : keys[number]? = some key) :
    (key,UInt16.ofNat number) ∈ entriesOf keys := by
  obtain ⟨inside,rfl⟩ := List.getElem?_eq_some_iff.mp present
  rw [entriesOf,List.mem_reverse]
  exact List.mem_mapIdx.mpr ⟨number,inside,rfl⟩

theorem entriesOf_keys (keys : List Bytes) : (entriesOf keys).map (·.1) = keys.reverse := by
  rw [entriesOf,List.map_reverse]
  congr 1
  refine List.ext_getElem (by simp) ?_
  intro number inside inside'
  simp

theorem entriesOf_lookup_iff (keys : List Bytes) : (∀ number key, keys[number]? = some key →
    ∃ record_id, (entriesOf keys).lookup key = some record_id ∧ record_id.toNat = number) ↔
      keys.Nodup ∧ keys.length ≤ 65536 := by
  constructor
  · intro found
    constructor
    · rw [List.nodup_iff_getElem?_ne_getElem?]
      intro first second ordered inside same
      obtain ⟨_,answer,own⟩ := found first _ (List.getElem?_eq_getElem (Nat.lt_trans ordered inside))
      obtain ⟨_,answer',own'⟩ := found second _ (List.getElem?_eq_getElem inside)
      rw [List.getElem?_eq_getElem inside,List.getElem?_eq_getElem (Nat.lt_trans ordered inside),
        Option.some.injEq] at same
      rw [same,answer'] at answer
      cases answer
      omega
    · by_contra many
      obtain ⟨record_id,_,own⟩ := found 65536 _ (List.getElem?_eq_getElem (by omega))
      have below := record_id.toNat_lt
      omega
  · rintro ⟨apart,few⟩ number key present
    refine ⟨UInt16.ofNat number,Multimap.lookup_unique ?_ (entriesOf_mem present),?_⟩
    · rw [entriesOf_keys]
      exact List.nodup_reverse.mpr apart
    · have inside := (List.getElem?_eq_some_iff.mp present).1
      exact UInt16.toNat_ofNat_of_lt' (Nat.lt_of_lt_of_le inside few)

include laid plain changed moved in
theorem moved_found_iff (slots : 0 < hashTableSize old.tdef.max_records)
    (many : (operation.reshaped old.tdef).primary_key ≠ []) : ∃ keys : List Bytes,
      old.usedSlots.map (fun slot => (operation.reshaped old.tdef).compositeKey heap
        (migrateRecord operation old.tdef (operation.reshaped old.tdef) (old.storedRow slot))) = keys.map some ∧
      ((∀ slot ∈ table.occupied, ∃ record_id after,
          index.findComposite heap (table.storedRow slot) = some (.ok record_id,after) ∧ record_id.toNat = slot) ↔
        keys.Nodup ∧ keys.length ≤ 65536) := by
  obtain ⟨keys,encoded,short,represents⟩ := moved.indexed many
  refine ⟨keys,encoded,?_⟩
  have extent := congrArg List.length encoded
  rw [List.length_map,List.length_map] at extent
  have answers : ∀ number key, keys[number]? = some key → ∃ after, index.findComposite heap (table.storedRow number) =
      some (((entriesOf keys).lookup key).elim (.error .recordNotFound) .ok,after) := by
    intro number key present
    have inside := (List.getElem?_eq_some_iff.mp present).1
    have below : number < old.usedSlots.length := by omega
    have at_number := List.getElem?_eq_getElem below
    have own : (operation.reshaped old.tdef).compositeKey heap
        (migrateRecord operation old.tdef (operation.reshaped old.tdef) (old.storedRow (old.usedSlots[number]))) =
          some key := by
      have same := congrArg (fun list : List (Option Bytes) => list[number]?) encoded
      rw [List.getElem?_map,List.getElem?_map,present,at_number] at same
      exact Option.some.inj same
    obtain ⟨after,answer,_⟩ := PrimaryIndex.find_represents (by rw [moved.index_slots]; exact slots) represents
      (short key (List.mem_of_getElem? present))
    refine ⟨after,?_⟩
    rw [PrimaryIndex.findComposite,moved.index_tdef,moved_row laid plain changed moved at_number,
      own,Option.bind_some,answer]
    cases (entriesOf keys).lookup key with
    | none => rfl
    | some record_id => rfl
  rw [← entriesOf_lookup_iff]
  constructor
  · intro found number key present
    have inside := (List.getElem?_eq_some_iff.mp present).1
    obtain ⟨record_id,_,answer,own⟩ := found number ((moved_used moved number).mpr (by omega))
    obtain ⟨_,answer'⟩ := answers number key present
    rw [answer] at answer'
    cases result : (entriesOf keys).lookup key with
    | none =>
      rw [result] at answer'
      cases answer'
    | some found_id =>
      rw [result] at answer'
      cases answer'
      exact ⟨record_id,rfl,own⟩
  · intro found slot used
    have inside := (moved_used moved slot).mp used
    have present := List.getElem?_eq_getElem (by omega : slot < keys.length)
    obtain ⟨record_id,result,own⟩ := found slot _ present
    obtain ⟨after,answer⟩ := answers slot _ present
    rw [result] at answer
    exact ⟨record_id,after,answer,own⟩

include laid plain changed moved in
theorem rowsKept_iff (accounted : old.Accounted) (slots : 0 < hashTableSize old.tdef.max_records) :
    RowsKept heap operation old table index ↔ KeepsRows heap operation old := by
  have expected : (∀ slot ∈ old.occupied, operation.RowFits old.tdef (old.storedRow slot)) → ∀ slot ∈ old.occupied,
      migrateRecord operation old.tdef (operation.reshaped old.tdef) (old.storedRow slot) =
        operation.expectedRow old.tdef (old.storedRow slot) :=
    fun fits slot used => AlterTableOperation.migrateRecord_expected laid (row_length old slot) plain changed
      (fits slot used)
  -- the keys of the rows, in the order in which they were moved
  have keys_iff : (∀ slot ∈ old.occupied, operation.RowFits old.tdef (old.storedRow slot)) →
      ((table.tdef.primary_key ≠ [] → ∀ slot ∈ table.occupied, ∃ record_id after,
          index.findComposite heap (table.storedRow slot) = some (.ok record_id,after) ∧ record_id.toNat = slot) ↔
        (old.tdef.primary_key ≠ [] → old.record_count ≤ 65536) ∧
        (old.tdef.primary_key ≠ [] → ∀ first ∈ old.occupied, ∀ second ∈ old.occupied,
          (operation.reshaped old.tdef).compositeKey heap (operation.expectedRow old.tdef (old.storedRow first)) =
            (operation.reshaped old.tdef).compositeKey heap (operation.expectedRow old.tdef (old.storedRow second)) →
          first = second)) := by
    intro fits
    have same : table.tdef.primary_key = old.tdef.primary_key := by
      rw [moved.tdef_eq]
      rfl
    rw [same]
    by_cases many : old.tdef.primary_key = []
    · simp [many]
    obtain ⟨keys,encoded,answers⟩ := moved_found_iff laid plain changed moved slots many
    have extent := congrArg List.length encoded
    rw [List.length_map,List.length_map,usedSlots_length accounted] at extent
    have apart_iff : keys.Nodup ↔ ∀ first ∈ old.occupied, ∀ second ∈ old.occupied,
        (operation.reshaped old.tdef).compositeKey heap (operation.expectedRow old.tdef (old.storedRow first)) =
          (operation.reshaped old.tdef).compositeKey heap (operation.expectedRow old.tdef (old.storedRow second)) →
        first = second := by
      rw [← List.nodup_map_iff (Option.some_injective Bytes),← encoded,
        List.nodup_map_iff_inj_on (usedSlots_nodup old)]
      constructor
      · intro apart first used second used' equal
        refine apart first ((mem_usedSlots old _).mpr used) second ((mem_usedSlots old _).mpr used') ?_
        rw [expected fits first used,expected fits second used',equal]
      · intro apart first member second member' equal
        have used := (mem_usedSlots old _).mp member
        have used' := (mem_usedSlots old _).mp member'
        rw [expected fits first used,expected fits second used'] at equal
        exact apart first used second used' equal
    simp only [many,ne_eq,not_false_eq_true,forall_const]
    rw [answers,extent,apart_iff,and_comm]
  constructor
  · rintro ⟨_,⟨target,bijective,kept⟩,found⟩
    have fits := rowFits_of_bijOn laid plain changed moved bijective kept
    obtain ⟨few,apart⟩ := (keys_iff fits).mp found
    exact ⟨fits,few,apart⟩
  · rintro ⟨fits,few,apart⟩
    refine ⟨moved.accounted accounted.positive accounted.small (usedSlots_le old),
      ⟨_,moved_bijOn moved,?_⟩,(keys_iff fits).mpr ⟨few,apart⟩⟩
    intro slot used
    rw [moved_row laid plain changed moved (usedSlots_idxOf used),expected fits slot used,moved.tdef_eq]
    exact AlterTableOperation.expectedRow_kept laid (row_length old slot) (fits slot used)

end Complete

-- No object has more than `isize::MAX` bytes; only beyond 2^62 records the
-- number of slots of the hash table wraps to none.
structure InMemory (tdef : TableDef) : Prop where
  row : tdef.record_size < usizeLimit/2
  slots : 0 < hashTableSize tdef.max_records

theorem additions_small (old : TableDef) (operation : AlterTableOperation) :
    sizes (operation.additions old) < usizeLimit/2 := by
  cases operation with
  | addColumn name data_type size default_value constraints =>
    change AlterTableOperation.fieldSize data_type size+0 < _
    have bound := size.toNat_lt
    have limit : usizeLimit/2 = 2^63 := rfl
    cases data_type <;> simp only [AlterTableOperation.fieldSize,DataType.size,TextStorage.SIZE,Option.getD_some,
      Option.getD_none,limit] <;> omega
  | dropColumn _ => exact (by decide : 0 < usizeLimit/2)
  | modifyColumn _ _ _ _ _ => exact (by decide : 0 < usizeLimit/2)
  | renameColumn _ _ => exact (by decide : 0 < usizeLimit/2)

-- Every accepted alteration but a change of a column keeps the rows exactly
-- under the condition.
theorem alter_keeps_rows_iff {σ : Type} {heap : TextHeap} {nodes : σ → List Nat} {left : Leftover} {table_name : String}
    {operation : AlterTableOperation} {db after : RemDbState σ} {place : Nat} {current : DbTable}
    (found : db.placeOf table_name = some place) (stands : db.table place = some current)
    (accounted : current.table.Accounted) (laid : current.tdef.Laid) (memory : InMemory current.tdef)
    (plain : operation.modifies = false)
    (ran : (alterTable heap nodes left table_name operation).run db = .ok (some ()) after) :
    ∃ altered index, after.table place = some altered ∧ after.primaryIndex place = some index ∧
      (RowsKept heap operation current.table altered.table index ↔ KeepsRows heap operation current.table) := by
  obtain ⟨_,_,entry,table,index,altered⟩ := alterTable_altered ran
  cases found.symm.trans altered.found
  cases stands.symm.trans altered.stands
  have room := additions_small current.tdef operation
  have shape := AlterTableOperation.change_reshaped laid plain (by have := memory.row; omega) altered.changed
  have made := altered.made
  have migrated := altered.migrated
  rw [shape] at made migrated
  have start : Moved heap operation current.table (operation.reshaped current.tdef) [] entry.table _ :=
    moved_start left (show (operation.reshaped current.tdef).max_records < usizeLimit from accounted.small) made
  have moved := migrate_moved (show 0 < hashTableSize (operation.reshaped current.tdef).max_records from memory.slots) _
    start (by rw [List.length_nil,Nat.zero_add]; exact usedSlots_le _) migrated
  exact ⟨_,index,altered.table_after,altered.primaryIndex_after,
    rowsKept_iff laid plain altered.changed moved accounted memory.slots⟩

section Example

def twoRows : CreateTable := {middleKey with max_records:=some 2}

def twoRowsDb : RemDbState Unit := finalState ((do
  createTable twoRows 0 zeroed
  SystemTables.insertRow ⟨MemoryTable.blank,MemoryTable.noTx,0⟩ "t" [1,1,9]
  SystemTables.insertRow ⟨MemoryTable.blank,MemoryTable.noTx,0⟩ "t" [2,2,9] : DdlAction Unit Unit).run (emptyDb 4000))

def twoRowsDef : TableDef := twoRows.tableDef ⟨false,none,1⟩ 0 0

theorem twoRowsDb_stands : ∃ current, twoRowsDb.table 0 = some current ∧ current.tdef = twoRowsDef ∧
    current.table.free_slots = [] ∧ current.table.record_count = 2 ∧ current.table.used 0 = true ∧
    current.table.used 1 = true ∧ current.table.storedRow 0 = [1,1,9] ∧ current.table.storedRow 1 = [2,2,9] := by
  have facts : (twoRowsDb.table 0).any (fun current => decide (current.tdef = twoRowsDef ∧
      current.table.free_slots = [] ∧ current.table.record_count = 2 ∧ current.table.used 0 = true ∧
      current.table.used 1 = true ∧ current.table.storedRow 0 = [1,1,9] ∧ current.table.storedRow 1 = [2,2,9])) = true := by
    decide +kernel
  obtain ⟨current,stands,held⟩ := (Option.any_eq_true _ _).mp facts
  exact ⟨current,stands,of_decide_eq_true held⟩

theorem full_accounted {table : MemoryTable} (size : table.tdef.max_records = 2) (free : table.free_slots = [])
    (count : table.record_count = 2) (first : table.used 0 = true) (second : table.used 1 = true) :
    table.Accounted := by
  have split : Partition table.tdef.max_records table.used table.free_slots := by
    rw [size,free]
    refine ⟨.nil,?_⟩
    intro slot
    constructor
    · exact fun member => (nomatch member)
    · rintro ⟨inside,idle⟩
      obtain rfl | rfl : slot = 0 ∨ slot = 1 := by omega
      · rw [first] at idle
        cases idle
      · rw [second] at idle
        cases idle
  have whole := split.length
  rw [free,List.length_nil,Nat.zero_add] at whole
  exact ⟨by omega,by rw [size]; decide,split,by omega⟩

theorem twoRowsDef_laid : twoRowsDef.Laid := twoRows.tableDef_laid _ _ _ (by decide)

theorem twoRowsDef_inMemory : InMemory twoRowsDef := ⟨by decide,by decide +kernel⟩

def oneByte : AlterTableOperation := .addColumn "n" .uint8 0 (some [7]) ⟨false,false,false,false⟩

-- A new column with a default.
theorem add_keeps_rows : ∃ db after : RemDbState Unit, ∃ current altered index,
    (alterTable (fun _ _ => []) (fun _ => []) zeroed "t" oneByte).run db = .ok (some ()) after ∧
      db.table 0 = some current ∧ current.table.record_count = 2 ∧ after.table 0 = some altered ∧
      after.primaryIndex 0 = some index ∧ RowsKept (fun _ _ => []) oneByte current.table altered.table index := by
  obtain ⟨current,stands,defined,free,count,first,second,row,row'⟩ := twoRowsDb_stands
  have ran : (alterTable (fun _ _ => []) (fun _ => []) zeroed "t" oneByte).run twoRowsDb = .ok (some ()) _ :=
    ok_of_returned (by decide +kernel)
  have found : twoRowsDb.placeOf "t" = some 0 := by decide +kernel
  have size : current.table.tdef.max_records = 2 := congrArg TableDef.max_records defined
  have two : ∀ slot ∈ current.table.occupied, slot = 0 ∨ slot = 1 := by
    rintro slot ⟨inside,_⟩
    omega
  obtain ⟨altered,index,stands',indexed,kept⟩ := alter_keeps_rows_iff found stands
    (full_accounted size free count first second) (by rw [defined]; exact twoRowsDef_laid)
    (by rw [defined]; exact twoRowsDef_inMemory) rfl ran
  refine ⟨_,_,current,altered,index,ran,stands,count,stands',indexed,kept.mpr ⟨?_,?_,?_⟩⟩
  · intro slot _
    refine ⟨?_,fun textual => nomatch textual⟩
    have names : (twoRowsDef.fields.map (·.name)).Nodup := by decide
    change NamesFit current.tdef.fields _
    rw [defined]
    exact (List.pairwise_map.mp names).imp fun apart same => absurd same apart
  · intro _
    omega
  · intro _ left used right used' same
    change (oneByte.reshaped current.tdef).compositeKey _ (oneByte.expectedRow current.tdef _) =
      (oneByte.reshaped current.tdef).compositeKey _ (oneByte.expectedRow current.tdef _) at same
    rw [defined] at same
    rcases two left used with rfl | rfl <;> rcases two right used' with rfl | rfl
    · rfl
    · rw [row,row'] at same
      exact absurd same (by decide)
    · rw [row,row'] at same
      exact absurd same (by decide)
    · rfl

-- Without the first column the key list stands for the last one, where the two
-- rows agree: the first row is not found by its key.
theorem drop_loses_key : ∃ db after : RemDbState Unit, ∃ current altered index,
    (alterTable (fun _ _ => []) (fun _ => []) zeroed "t" (.dropColumn "x")).run db = .ok (some ()) after ∧
      db.table 0 = some current ∧ current.table.Accounted ∧ current.tdef.Laid ∧ InMemory current.tdef ∧
      after.table 0 = some altered ∧ after.primaryIndex 0 = some index ∧
      ¬RowsKept (fun _ _ => []) (.dropColumn "x") current.table altered.table index := by
  obtain ⟨current,stands,defined,free,count,first,second,_⟩ := twoRowsDb_stands
  have ran : (alterTable (fun _ _ => []) (fun _ => []) zeroed "t" (.dropColumn "x")).run twoRowsDb = .ok (some ()) _ :=
    ok_of_returned (by decide +kernel)
  have size : current.table.tdef.max_records = 2 := congrArg TableDef.max_records defined
  obtain ⟨altered,stands',facts⟩ : ∃ altered, (finalState ((alterTable (fun _ _ => []) (fun _ => []) zeroed "t"
      (.dropColumn "x")).run twoRowsDb)).table 0 = some altered ∧ altered.table.tdef.primary_key = [1] ∧
        altered.table.tdef.max_records = 2 ∧ altered.table.used 0 = true ∧ altered.table.storedRow 0 = [1,9] := by
    have answer : ((finalState ((alterTable (fun _ _ => []) (fun _ => []) zeroed "t" (.dropColumn "x")).run
        twoRowsDb)).table 0).any (fun altered => decide (altered.table.tdef.primary_key = [1] ∧
          altered.table.tdef.max_records = 2 ∧ altered.table.used 0 = true ∧ altered.table.storedRow 0 = [1,9])) = true := by
      decide +kernel
    obtain ⟨altered,stands,held⟩ := (Option.any_eq_true _ _).mp answer
    exact ⟨altered,stands,of_decide_eq_true held⟩
  obtain ⟨index,indexed,answered⟩ : ∃ index, (finalState ((alterTable (fun _ _ => []) (fun _ => []) zeroed "t"
      (.dropColumn "x")).run twoRowsDb)).primaryIndex 0 = some index ∧
        (index.findComposite (fun _ _ => []) [1,9]).bind (·.1.toOption) = some 1 := by
    have answer : ((finalState ((alterTable (fun _ _ => []) (fun _ => []) zeroed "t" (.dropColumn "x")).run
        twoRowsDb)).primaryIndex 0).any (fun index => decide
          ((index.findComposite (fun _ _ => []) [1,9]).bind (·.1.toOption) = some 1)) = true := by
      decide +kernel
    obtain ⟨index,indexed,held⟩ := (Option.any_eq_true _ _).mp answer
    exact ⟨index,indexed,of_decide_eq_true held⟩
  refine ⟨_,_,current,altered,index,ran,stands,full_accounted size free count first second,
    by rw [defined]; exact twoRowsDef_laid,by rw [defined]; exact twoRowsDef_inMemory,stands',indexed,?_⟩
  intro kept
  obtain ⟨keyed,extent,used,row⟩ := facts
  obtain ⟨record_id,found,own,number⟩ := kept.found (by rw [keyed]; decide) 0 ⟨by omega,used⟩
  rw [row] at own
  rw [own] at answered
  cases answered
  exact absurd number (by decide)

end Example
end RemDb
