import RemDb.Rbac.Persistence
import RemDb.Snapshot.Records
import RemDb.Table.Unique

namespace RemDb
open RemDb.Lib RemDb.Wal

namespace MemoryTable

theorem mem_scanRef {table : MemoryTable} : row ∈ table.scanRef ↔
    ∃ slot, slot < table.tdef.max_records ∧ table.used slot = true ∧ table.records slot = row := by
  simp only [scanRef,List.mem_map,usedSlots,List.mem_filter,List.mem_range,and_assoc]

-- What the inserts of a save rely on and keep.
structure Orderly (table : MemoryTable) : Prop where
  accounted : Accounted table
  unique : Unique table
  powered : table.low_power_mode = false

section Insert
variable {table : MemoryTable}

theorem Orderly.scanRef_length (orderly : Orderly table) : table.scanRef.length = table.record_count := by
  rw [scanRef,List.length_map,orderly.accounted.count]
  exact usedSlots_length table

theorem insert_orderly (orderly : Orderly table) (tx : TransactionManager) (now : UInt64) (row : Bytes) :
    Orderly (table.insert tx now row).2.1 ∧ (table.insert tx now row).2.1.tdef = table.tdef := by
  have accounted := insert_accounted orderly.accounted tx now row
  have unique := insert_unique orderly.unique tx now row
  obtain ⟨failure,same⟩ | ⟨slot,image,logged,result,_,_,same,
    ⟨_,_,_,key,rfl⟩ | ⟨_,rest,key,_,rfl⟩⟩ := insert_cases table tx now row
  all_goals
    rw [same] at accounted unique ⊢
    exact ⟨⟨accounted,unique,orderly.powered⟩,rfl⟩

theorem insert_clashing (orderly : Orderly table) (tx : TransactionManager) (now : UInt64) {row old : Bytes}
    (sized : row.length = table.tdef.record_size) (stored : old ∈ table.scanRef)
    (clash : table.tdef.conflict row old = true) : (table.insert tx now row).2.1 = table := by
  obtain ⟨slot,inside,used,rfl⟩ := mem_scanRef.mp stored
  obtain ⟨failure,same⟩ | ⟨taken,image,logged,result,_,_,same,_⟩ := insert_cases table tx now row
  · rw [same]
  · have valid := insert_valid same
    rw [← sized,recordImage_exact] at valid
    have apart : table.tdef.conflict row (table.records slot) = false := by
      rcases table.tdef.validate_cases table.status table.records tx.tx_id_counter row none with
        ⟨fault,_,refused⟩ | ⟨_,⟨_,refused⟩ | ⟨free,_⟩⟩
      · cases refused.symm.trans valid
      · cases refused.symm.trans valid
      · exact free slot ⟨inside,nofun,of_decide_eq_true used,untouched_visible (orderly.unique.untouched slot) _⟩
    rw [apart] at clash
    cases clash

theorem insert_fresh (orderly : Orderly table) (tx : TransactionManager) (now : UInt64) {row : Bytes}
    (sized : row.length = table.tdef.record_size) (clean : table.tdef.fields.findSome? (·.fault row) = none)
    (apart : ∀ old ∈ table.scanRef, table.tdef.conflict row old = false)
    (room : table.record_count < table.tdef.max_records) (each : Bytes) :
    each ∈ (table.insert tx now row).2.1.scanRef ↔ each ∈ table.scanRef ∨ each = row := by
  have valid : table.validate tx row none = .ok () := by
    rcases table.tdef.validate_cases table.status table.records tx.tx_id_counter row none with
      ⟨fault,found,_⟩ | ⟨_,⟨⟨slot,compared,clash⟩,_⟩ | ⟨_,valid⟩⟩
    · cases found.symm.trans clean
    · have stored := mem_scanRef.mpr ⟨slot,compared.1,decide_eq_true compared.2.2.1,rfl⟩
      rw [apart _ stored] at clash
      cases clash
    · exact valid
  have whole : table.maxRecords = table.tdef.max_records := by
    rw [maxRecords,orderly.powered]
    rfl
  have nonempty : table.free_slots ≠ [] := by
    intro empty
    have total := orderly.accounted.total
    rw [empty,List.length_nil] at total
    omega
  obtain ⟨rest,slot,shape⟩ := List.eq_nil_or_concat table.free_slots |>.resolve_left nonempty
  have top : table.free_slots.getLast? = some slot := by rw [shape]; simp
  obtain ⟨failure,same⟩ | ⟨taken,image,logged,result,made,_,same,
    ⟨low,_⟩ | ⟨_,others,key,popped,rfl⟩⟩ := insert_cases table tx now row
  · -- the insert cannot have failed
    unfold insert at same
    rw [← sized,recordImage_exact] at same
    have found : table.takeSlot = .ok (slot,false,{table with free_slots:=table.free_slots.dropLast}) := by
      rw [takeSlot,if_neg (by omega),top]
    simp only [valid,found] at same
    cases same
  · rw [orderly.powered] at low
    cases low
  · rw [← sized,recordImage_exact] at made
    subst made
    rw [same]
    have free : taken < table.tdef.max_records ∧ table.used taken = false :=
      (orderly.accounted.split.complete taken).mp (by rw [popped]; simp)
    simp only [mem_scanRef]
    have marked : ({table.store taken image true with
        free_slots:=others,max_pk:=key,record_count:=table.record_count+1} : MemoryTable).used =
          assign table.used taken true := store_used image true
    rw [marked]
    change (∃ slot, slot < table.tdef.max_records ∧ assign table.used taken true slot = true ∧
      assign table.records taken image slot = each) ↔ _
    constructor
    · rintro ⟨slot,inside,used,held⟩
      by_cases same : slot = taken
      · rw [same,assign_same] at held
        exact .inr held.symm
      · rw [assign_other _ same] at used held
        exact .inl ⟨slot,inside,used,held⟩
    · rintro (⟨slot,inside,used,held⟩ | rfl)
      · have away : slot ≠ taken := by
          rintro rfl
          rw [free.2] at used
          cases used
        exact ⟨slot,inside,by rw [assign_other _ away]; exact used,by rw [assign_other _ away]; exact held⟩
      · exact ⟨taken,free.1,assign_same _ _ _,assign_same _ _ _⟩

end Insert
end MemoryTable

namespace TableDef

def keyBytes (tdef : TableDef) (row : Bytes) : List Bytes := tdef.keyFields.map fun field => field.read row field.size

-- A table whose key is made of strings and which has no other unique column.
structure TextKeyed (tdef : TableDef) : Prop where
  keyed : tdef.primary_key ≠ []
  strings : ∀ field ∈ tdef.keyFields, field.data_type = .varChar
  only : ∀ field ∈ tdef.fields, (field.unique && !field.primary_key) = false

theorem TextKeyed.conflict_iff (keyed : TextKeyed tdef) (left right : Bytes) :
    tdef.conflict left right = true ↔ tdef.keyBytes left = tdef.keyBytes right := by
  have none_unique : tdef.sameUnique left right = false := by
    rw [sameUnique,List.filter_eq_nil_iff.mpr fun field among => by simp [keyed.only field among]]
    rfl
  rw [conflict,none_unique,Bool.or_false,sameKey,decide_eq_true keyed.keyed,Bool.true_and,List.all_eq_true,
    keyBytes,keyBytes,List.map_inj_left]
  refine forall₂_congr fun field among => ?_
  simp [FieldDef.sameValue,keyed.strings field among]

end TableDef

namespace MemoryTable

section Fold
variable {table : MemoryTable}

theorem Orderly.keys_nodup (orderly : Orderly table) (keyed : table.tdef.TextKeyed) :
    (table.scanRef.map table.tdef.keyBytes).Nodup := by
  rw [scanRef,List.map_map]
  refine (usedSlots_nodup table).map_on ?_
  intro left amongLeft right amongRight same
  by_contra different
  obtain ⟨inLeft,usedLeft⟩ := usedSlots_mem.mp amongLeft
  obtain ⟨inRight,usedRight⟩ := usedSlots_mem.mp amongRight
  have apart := orderly.unique.apart left right inLeft inRight different usedLeft usedRight
  rw [(keyed.conflict_iff _ _).mpr same] at apart
  cases apart

-- The row goes in, or one with its key is there. `keys` are all keys that the
-- table may come to hold.
theorem insert_step (orderly : Orderly table) (keyed : table.tdef.TextKeyed) (tx : TransactionManager) (now : UInt64)
    {row : Bytes} {keys : List (List Bytes)} (sized : row.length = table.tdef.record_size)
    (clean : table.tdef.fields.findSome? (·.fault row) = none) (room : keys.length ≤ table.tdef.max_records)
    (known : ∀ old ∈ table.scanRef, table.tdef.keyBytes old ∈ keys) (new : table.tdef.keyBytes row ∈ keys) :
    let after := (table.insert tx now row).2.1
    (∀ each ∈ table.scanRef, each ∈ after.scanRef) ∧ (∀ each ∈ after.scanRef, each ∈ table.scanRef ∨ each = row) ∧
      ∃ each ∈ after.scanRef, table.tdef.keyBytes each = table.tdef.keyBytes row := by
  dsimp only
  by_cases held : ∃ old ∈ table.scanRef, table.tdef.conflict row old = true
  · obtain ⟨old,stored,clash⟩ := held
    rw [insert_clashing orderly tx now sized stored clash]
    exact ⟨fun _ among => among,fun _ among => .inl among,old,stored,((keyed.conflict_iff _ _).mp clash).symm⟩
  · have apart : ∀ old ∈ table.scanRef, table.tdef.conflict row old = false := by
      intro old stored
      exact Bool.eq_false_iff.mpr fun clash => held ⟨old,stored,clash⟩
    -- the keys of the table and the new one are different and among `keys`
    have distinct : (table.tdef.keyBytes row :: table.scanRef.map table.tdef.keyBytes).Nodup := by
      refine List.nodup_cons.mpr ⟨?_,orderly.keys_nodup keyed⟩
      intro same
      obtain ⟨old,stored,equal⟩ := List.mem_map.mp same
      have clash := (keyed.conflict_iff row old).mpr equal.symm
      rw [apart old stored] at clash
      cases clash
    have within : table.tdef.keyBytes row :: table.scanRef.map table.tdef.keyBytes ⊆ keys := by
      intro key among
      rcases List.mem_cons.mp among with rfl | among
      · exact new
      · obtain ⟨old,stored,rfl⟩ := List.mem_map.mp among
        exact known old stored
    have counted := (distinct.subperm within).length_le
    rw [List.length_cons,List.length_map,orderly.scanRef_length] at counted
    have stored := insert_fresh orderly tx now sized clean apart (by omega)
    refine ⟨fun each among => (stored each).mpr (.inl among),fun each among => (stored each).mp among,row,?_,rfl⟩
    exact (stored row).mpr (.inr rfl)

theorem insertRows_effect (now : UInt64) (rows : List Bytes) (tx : TransactionManager) (orderly : Orderly table)
    (keyed : table.tdef.TextKeyed) {keys : List (List Bytes)} (room : keys.length ≤ table.tdef.max_records)
    (known : ∀ old ∈ table.scanRef, table.tdef.keyBytes old ∈ keys)
    (fit : ∀ row ∈ rows, row.length = table.tdef.record_size ∧ table.tdef.fields.findSome? (·.fault row) = none ∧
      table.tdef.keyBytes row ∈ keys) :
    let after := (RbacManager.insertRows now rows table tx).1
    Orderly after ∧ after.tdef = table.tdef ∧ (∀ each ∈ table.scanRef, each ∈ after.scanRef) ∧
      (∀ each ∈ after.scanRef, each ∈ table.scanRef ∨ each ∈ rows) ∧
      ∀ row ∈ rows, ∃ each ∈ after.scanRef, table.tdef.keyBytes each = table.tdef.keyBytes row := by
  induction rows generalizing table tx with
  | nil => exact ⟨orderly,rfl,fun _ among => among,fun _ among => .inl among,nofun⟩
  | cons row rest ih =>
    obtain ⟨sized,clean,new⟩ := fit row List.mem_cons_self
    obtain ⟨kept,grown,placed⟩ := insert_step orderly keyed tx now sized clean room known new
    obtain ⟨still,same⟩ := insert_orderly orderly tx now row
    have rest_known : ∀ old ∈ (table.insert tx now row).2.1.scanRef, table.tdef.keyBytes old ∈ keys := by
      intro old among
      rcases grown old among with before | rfl
      · exact known old before
      · exact new
    have step := ih (table.insert tx now row).2.2 still (by rw [same]; exact keyed) (by rw [same]; exact room)
      (by rw [same]; exact rest_known) (by rw [same]; exact fun each among => fit each (List.mem_cons_of_mem _ among))
    rw [same] at step
    obtain ⟨done,shape,rest_kept,rest_grown,rest_placed⟩ := step
    refine ⟨done,shape,fun each among => rest_kept each (kept each among),?_,?_⟩
    · intro each among
      rcases rest_grown each among with middle | later
      · rcases grown each middle with before | rfl
        · exact .inl before
        · exact .inr List.mem_cons_self
      · exact .inr (List.mem_cons_of_mem _ later)
    · intro each among
      rcases List.mem_cons.mp among with rfl | among
      · obtain ⟨found,stored,key⟩ := placed
        exact ⟨found,rest_kept found stored,key⟩
      · exact rest_placed each among

end Fold
end MemoryTable
end RemDb
