import RemDb.Snapshot.Store
import RemDb.Table.Accounting

namespace RemDb
open RemDb.Lib RemDb.Lib.Reader

namespace MemoryTable
section Effects
variable {table : MemoryTable} {slot : Nat} {bytes : Bytes}

@[simp] theorem reset_tdef : table.reset.tdef = table.tdef := rfl
@[simp] theorem reset_free : table.reset.free_slots = table.free_slots := rfl
@[simp] theorem reset_count : table.reset.record_count = 0 := rfl

theorem reset_used (inside : slot < table.tdef.max_records) : table.reset.used slot = false := by
  simp [used,reset,inside]

theorem restoreRecord_only (table : MemoryTable) (slot : Nat) (bytes : Bytes) :
    ∃ key, table.restoreRecord slot bytes = {(table.copyIn slot bytes).markUsed slot with max_pk:=key} :=
  raiseMaxPk_only _ _

@[simp] theorem restoreRecord_tdef : (table.restoreRecord slot bytes).tdef = table.tdef := by
  obtain ⟨key,same⟩ := restoreRecord_only table slot bytes
  rw [same]
  rfl

@[simp] theorem restoreRecord_free : (table.restoreRecord slot bytes).free_slots = table.free_slots := by
  obtain ⟨key,same⟩ := restoreRecord_only table slot bytes
  rw [same]
  rfl

theorem restoreRecord_used : (table.restoreRecord slot bytes).used = assign table.used slot true := by
  obtain ⟨key,same⟩ := restoreRecord_only table slot bytes
  rw [same]
  funext other
  by_cases equal : other = slot
  · subst other
    simp [used,markUsed,setStatus]
  · simp [used,markUsed,setStatus,copyIn,equal]

theorem restoreRecord_count (idle : table.used slot = false) :
    (table.restoreRecord slot bytes).record_count = table.record_count+1 := by
  obtain ⟨key,same⟩ := restoreRecord_only table slot bytes
  have free : (table.status slot).status ≠ .used := of_decide_eq_false idle
  rw [same]
  exact if_neg free

theorem restoreRecord_image (slot : Nat) (whole : bytes.length = table.tdef.record_size) (each : Nat) :
    recordImage table.tdef.record_size ((table.restoreRecord slot bytes).records each) =
      if each = slot then bytes else recordImage table.tdef.record_size (table.records each) := by
  obtain ⟨key,same⟩ := restoreRecord_only table slot bytes
  rw [same]
  change recordImage _ ((table.copyIn slot bytes).records each) = _
  simp only [copyIn]
  by_cases here : each = slot
  · rw [if_pos here,if_neg (by omega),here,Nat.sub_self,Nat.zero_mul,List.drop_zero,← whole,List.take_length,memcpy,
      List.take_length,recordImage,padTo,List.take_left,List.length_append]
    have full : bytes.length-(bytes.length+((table.records slot).drop bytes.length).length) = 0 := by omega
    rw [full,List.replicate_zero,List.append_nil]
  · rw [if_neg here]
    by_cases before : each < slot
    · rw [if_pos before]
    · have past : bytes.length ≤ (each-slot)*table.tdef.record_size := by
        rw [whole]
        exact Nat.le_mul_of_pos_left _ (by omega)
      rw [if_neg before,List.drop_eq_nil_of_le past,List.take_nil]
      rfl

end Effects

def restoreAll (table : MemoryTable) (records : List (Nat × Bytes)) : MemoryTable :=
  records.foldl (fun table entry => table.restoreRecord entry.1 entry.2) table

section Runs
variable {table : MemoryTable}

theorem restoreAll_tdef (records : List (Nat × Bytes)) (table : MemoryTable) :
    (table.restoreAll records).tdef = table.tdef := by
  induction records generalizing table with
  | nil => rfl
  | cons entry rest ih => exact (ih _).trans restoreRecord_tdef

theorem restoreAll_free (records : List (Nat × Bytes)) (table : MemoryTable) :
    (table.restoreAll records).free_slots = table.free_slots := by
  induction records generalizing table with
  | nil => rfl
  | cons entry rest ih => exact (ih _).trans restoreRecord_free

theorem restoreAll_used (records : List (Nat × Bytes)) (table : MemoryTable) :
    (table.restoreAll records).used = assignAll table.used (records.map (·.1)) := by
  induction records generalizing table with
  | nil => rfl
  | cons entry rest ih =>
    have tail := ih (table.restoreRecord entry.1 entry.2)
    rw [restoreRecord_used] at tail
    exact tail

theorem restoreAll_count (records : List (Nat × Bytes)) (table : MemoryTable) (distinct : (records.map (·.1)).Nodup)
    (idle : ∀ entry ∈ records, table.used entry.1 = false) :
    (table.restoreAll records).record_count = table.record_count+records.length := by
  induction records generalizing table with
  | nil => rfl
  | cons entry rest ih =>
    obtain ⟨fresh,distinct⟩ := List.nodup_cons.mp distinct
    have tail := ih (table.restoreRecord entry.1 entry.2) distinct (by
      intro other member
      have different : other.1 ≠ entry.1 := fun same => fresh (List.mem_map.mpr ⟨other,member,same⟩)
      rw [restoreRecord_used,assign_other _ different]
      exact idle other (List.mem_cons_of_mem _ member))
    rw [restoreRecord_count (idle entry List.mem_cons_self)] at tail
    change (restoreAll _ rest).record_count = _
    rw [tail,List.length_cons]
    omega

theorem restoreAll_image (records : List (Nat × Bytes)) (table : MemoryTable) (distinct : (records.map (·.1)).Nodup)
    (whole : ∀ entry ∈ records, entry.2.length = table.tdef.record_size) :
    (∀ entry ∈ records, recordImage table.tdef.record_size ((table.restoreAll records).records entry.1) = entry.2) ∧
    ∀ slot, slot ∉ records.map (·.1) → recordImage table.tdef.record_size ((table.restoreAll records).records slot) =
      recordImage table.tdef.record_size (table.records slot) := by
  induction records generalizing table with
  | nil => exact ⟨fun _ member => (nomatch member),fun _ _ => rfl⟩
  | cons entry rest ih =>
    obtain ⟨fresh,distinct⟩ := List.nodup_cons.mp distinct
    obtain ⟨placed,kept⟩ := ih (table.restoreRecord entry.1 entry.2) distinct (by
      intro other member
      rw [restoreRecord_tdef]
      exact whole other (List.mem_cons_of_mem _ member))
    rw [restoreRecord_tdef] at placed kept
    have first (slot : Nat) := restoreRecord_image entry.1 (whole entry List.mem_cons_self) slot
    constructor
    · intro other member
      rcases List.mem_cons.mp member with rfl | later
      · exact (kept _ fresh).trans ((first _).trans (if_pos rfl))
      · exact placed other later
    · intro slot outside
      rw [List.map_cons,List.mem_cons,not_or] at outside
      exact (kept slot outside.2).trans ((first slot).trans (if_neg outside.1))

end Runs

theorem usedSlots_mem {table : MemoryTable} :
    slot ∈ table.usedSlots ↔ slot < table.tdef.max_records ∧ table.used slot = true := by
  rw [usedSlots,List.mem_filter,List.mem_range]

theorem usedSlots_nodup (table : MemoryTable) : table.usedSlots.Nodup := List.nodup_range.filter _

theorem usedSlots_length (table : MemoryTable) :
    table.usedSlots.length = usedCount table.tdef.max_records table.used := by
  unfold usedSlots
  induction table.tdef.max_records with
  | zero => rfl
  | succ size ih =>
    rw [List.range_succ,List.filter_append,List.length_append,ih,usedCount_succ]
    cases last : table.used size with
    | false => simp [last]
    | true => simp [last]

theorem bytesFrom_image {table : MemoryTable} (beyond : Bytes) (inside : slot < table.tdef.max_records) :
    table.bytesFrom beyond slot table.tdef.record_size = recordImage table.tdef.record_size (table.records slot) := by
  obtain ⟨count,more⟩ : ∃ count, table.tdef.max_records-slot = count+1 := ⟨table.tdef.max_records-slot-1,by omega⟩
  have size := recordImage_length table.tdef.record_size (table.records slot)
  rw [bytesFrom,more,List.range'_succ,List.flatMap_cons,List.append_assoc,padTo]
  have whole : (recordImage table.tdef.record_size (table.records slot)).length = table.tdef.record_size := size
  rw [List.take_append_of_le_length (by omega),List.take_of_length_le (by omega),List.length_append,size]
  have full (more : Nat) : table.tdef.record_size-(table.tdef.record_size+more) = 0 := by omega
  rw [full,List.replicate_zero,List.append_nil]

theorem bytesFrom_length (table : MemoryTable) (beyond : Bytes) (slot count : Nat) :
    (table.bytesFrom beyond slot count).length = count := padTo_length _ _

end MemoryTable

def recordEntry (entry : Nat × Bytes) : Bytes := toLE 4 entry.1 ++ entry.2

theorem restoreRecords_listed (records : List (Nat × Bytes)) (table : MemoryTable) (rest : Bytes)
    (inside : ∀ entry ∈ records, entry.1 < table.tdef.max_records ∧ entry.1 < 2^32)
    (whole : ∀ entry ∈ records, entry.2.length = table.tdef.savedSize) :
    restoreRecords records.length table (records.flatMap recordEntry ++ rest) =
        (.ok (),table.restoreAll records,rest) ∧ (records ≠ [] → table.tdef.keyPanics = false) ∨
      records ≠ [] ∧ table.tdef.keyPanics = true ∧
        (restoreRecords records.length table (records.flatMap recordEntry ++ rest)).1 = .error .panicked := by
  induction records generalizing table with
  | nil => exact .inl ⟨rfl,fun some => absurd rfl some⟩
  | cons entry tail ih =>
    obtain ⟨within,small⟩ := inside entry List.mem_cons_self
    have size := whole entry List.mem_cons_self
    have slot (after : Bytes) : le 4 (toLE 4 entry.1 ++ after) = some (entry.1,after) := reads_le small after
    have data (after : Bytes) : take table.tdef.savedSize (entry.2 ++ after) = some (entry.2,after) := by
      rw [← size]
      exact reads_take entry.2 after
    have step : restoreRecords (entry :: tail).length table ((entry :: tail).flatMap recordEntry ++ rest) =
        if table.tdef.keyPanics then
          (.error .panicked,(table.copyIn entry.1 entry.2).markUsed entry.1,tail.flatMap recordEntry ++ rest)
        else restoreRecords tail.length (table.restoreRecord entry.1 entry.2) (tail.flatMap recordEntry ++ rest) := by
      rw [List.length_cons,restoreRecords,List.flatMap_cons,recordEntry,List.append_assoc,List.append_assoc,slot]
      dsimp only
      rw [if_neg (by omega),data]
    rw [step]
    cases missing : table.tdef.keyPanics with
    | true => exact .inr ⟨List.cons_ne_nil _ _,rfl,rfl⟩
    | false =>
      have later := ih (table.restoreRecord entry.1 entry.2)
        (fun other member => by simpa using inside other (List.mem_cons_of_mem _ member))
        (fun other member => by simpa using whole other (List.mem_cons_of_mem _ member))
      rw [MemoryTable.restoreRecord_tdef,missing] at later
      rcases later with ⟨read,_⟩ | ⟨_,impossible,_⟩
      · exact .inl ⟨read,fun _ => rfl⟩
      · cases impossible

end RemDb
