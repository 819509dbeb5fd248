import RemDb.Ddl.Ids
import RemDb.Ddl.Layout

namespace RemDb
open RemDb.Lib

-- What an alteration that went well did. The secondary index goes with the old table.
structure Altered (heap : TextHeap) (left : Leftover) (table_name : String) (operation : AlterTableOperation)
    (db after : RemDbState σ) (place : Nat) (current entry : DbTable) (table : MemoryTable) (index : PrimaryIndex) :
    Prop where
  found : db.placeOf table_name = some place
  stands : db.table place = some current
  changed : operation.change wrapping current.tdef = some (.ok table.tdef)
  made : MemoryTable.new table.tdef (some left.memory) = .ok entry.table
  migrated : migrate heap operation current.table (List.range current.tdef.max_records)
    (entry.table,PrimaryIndex.new table.tdef left.hash_table_start left.items_start
      (hashTableSize table.tdef.max_records) table.tdef.max_records) = some (.ok (),table,index)
  tables : after.tables = db.tables.set place (some {entry with table:=table})
  primary_indices : after.primary_indices = db.primary_indices.set place (some index)
  indexed : place < db.primary_indices.length

section Tables
variable {heap : TextHeap} {operation : AlterTableOperation} {old : MemoryTable}

theorem MemoryTable.placeRecord_tdef (table : MemoryTable) (slot : Nat) (image : Bytes) :
    (table.placeRecord slot image).tdef = table.tdef := by
  unfold MemoryTable.placeRecord MemoryTable.noteMaxPk
  dsimp only
  split
  · split
    · rfl
    · rfl
  · rfl

theorem migrate_tdef {slots : List Nat} {table : MemoryTable} {index : PrimaryIndex}
    {result : Except RemDbError Unit} {table' : MemoryTable} {index' : PrimaryIndex}
    (ran : migrate heap operation old slots (table,index) = some (result,table',index')) : table'.tdef = table.tdef := by
  induction slots generalizing table index with
  | nil =>
    cases ran
    rfl
  | cons slot rest ih =>
    rw [migrate] at ran
    split at ran
    · split at ran
      · exact ih ran
      · dsimp only at ran
        split at ran
        · exact (ih ran).trans (table.placeRecord_tdef _ _)
        · split at ran
          · cases ran
          · cases ran
            exact table.placeRecord_tdef _ _
          · exact (ih ran).trans (table.placeRecord_tdef _ _)
    · exact ih ran

end Tables

section Runs
variable {σ : Type} {db after : RemDbState σ}

-- Freeing memory leaves the tables and indices where they are.
def Stands (db after : RemDbState σ) : Prop :=
  after.tables = db.tables ∧ after.primary_indices = db.primary_indices

theorem dropEntry_stands (nodes : σ → List Nat) (entry : DbTable) (secondary : Option σ) :
    Keeps (Stands db) (dropEntry nodes entry secondary) := by
  refine keeps_forM _ _ fun ptr _ before held => ?_
  rw [free,EStateM.run_bind,EStateM.run_get]
  dsimp only
  cases freeTo before.allocator ptr with
  | none => exact held
  | some allocator => exact held

theorem dropEntry_ok {nodes : σ → List Nat} {entry : DbTable} {secondary : Option σ} {result : Unit}
    (ran : (dropEntry nodes entry secondary).run db = .ok result after) : Stands db after := by
  have kept : Stands db (finalState ((dropEntry nodes entry secondary).run db)) :=
    dropEntry_stands nodes entry secondary db ⟨rfl,rfl⟩
  rw [ran] at kept
  exact kept

theorem orFail_ok {failure : RemDbError} {value : Option α} {result : α}
    (ran : (orFail failure value : DdlAction σ α).run db = .ok result after) : value = some result ∧ after = db := by
  cases value with
  | none => cases ran
  | some value =>
    cases ran
    exact ⟨rfl,rfl⟩

theorem alloc_run {size data : Nat} (ran : (alloc size).run db = .ok data after) :
    ∃ allocator, after = {db with allocator:=allocator} := by
  cases granted : allocFrom db.allocator size with
  | none => cases (alloc_diverged granted).symm.trans ran
  | some outcome =>
    obtain ⟨answer,allocator⟩ := outcome
    cases answer with
    | error failure => cases (alloc_refused granted).symm.trans ran
    | ok data =>
      cases (alloc_ok granted).symm.trans ran
      exact ⟨allocator,rfl⟩

theorem alterTable_altered {heap : TextHeap} {nodes : σ → List Nat} {left : Leftover} {table_name : String}
    {operation : AlterTableOperation}
    (ran : (alterTable heap nodes left table_name operation).run db = .ok (some ()) after) :
    ∃ place current entry table index, Altered heap left table_name operation db after place current entry table index := by
  rw [alterTable,EStateM.run_bind,EStateM.run_get] at ran
  dsimp only at ran
  split at ran
  · cases ran
  obtain ⟨place,_,first,ran⟩ := run_bind_ok ran
  obtain ⟨found,rfl⟩ := orFail_ok first
  obtain ⟨current,_,second,ran⟩ := run_bind_ok ran
  obtain ⟨stands,rfl⟩ := orFail_ok second
  split at ran
  · cases ran
  · cases ran
  rename_i tdef changed
  obtain ⟨_,_,third,ran⟩ := run_bind_ok ran
  obtain ⟨allocator,rfl⟩ := alloc_run third
  obtain ⟨entry,middle,fourth,ran⟩ := run_bind_ok ran
  rcases makeTable_run left.memory tdef current.secondary_index current.secondary_index_type with
    ⟨_,_,failed,_⟩ | ⟨_,allocator',succeeded,_,_,defined,made,_⟩
  · cases failed.symm.trans fourth
  cases succeeded.symm.trans fourth
  split at ran
  · cases ran
  · obtain ⟨_,_,_,ran⟩ := run_bind_ok ran
    cases ran
  rename_i table index migrated
  obtain ⟨_,_,fifth,ran⟩ := run_bind_ok ran
  cases fifth
  split at ran
  · cases ran
  rename_i inside
  obtain ⟨_,_,sixth,ran⟩ := run_bind_ok ran
  cases sixth
  obtain ⟨_,_,dropped,ran⟩ := run_bind_ok ran
  cases ran
  have kept := dropEntry_ok dropped
  have same : table.tdef = tdef := (migrate_tdef migrated).trans defined
  subst same
  exact ⟨place,current,entry,table,index,found,stands,changed,made,migrated,kept.1,kept.2,by omega⟩

namespace Altered
variable {heap : TextHeap} {left : Leftover} {table_name : String} {operation : AlterTableOperation} {place : Nat}
  {current entry : DbTable} {table : MemoryTable} {index : PrimaryIndex}

theorem table_after (altered : Altered heap left table_name operation db after place current entry table index) :
    after.table place = some {entry with table:=table} := by
  have inside : place < db.tables.length := by
    by_contra beyond
    have stands := altered.stands
    rw [RemDbState.table,List.getElem?_eq_none (Nat.le_of_not_lt beyond)] at stands
    cases stands
  rw [RemDbState.table,altered.tables,List.getElem?_set_self inside]
  rfl

theorem primaryIndex_after (altered : Altered heap left table_name operation db after place current entry table index) :
    after.primaryIndex place = some index := by
  rw [RemDbState.primaryIndex,altered.primary_indices,List.getElem?_set_self altered.indexed]
  rfl

end Altered

-- Every accepted alteration keeps the schema well formed exactly under the condition.
theorem alter_keeps_schema_iff {heap : TextHeap} {nodes : σ → List Nat} {left : Leftover} {table_name : String}
    {operation : AlterTableOperation} {place : Nat} {current : DbTable} (found : db.placeOf table_name = some place)
    (stands : db.table place = some current) (laid : current.tdef.Laid)
    (ran : (alterTable heap nodes left table_name operation).run db = .ok (some ()) after) :
    ∃ altered, after.table place = some altered ∧
      (AlterTableOperation.SchemaKept operation current.tdef altered.tdef ↔
        AlterTableOperation.KeepsSchema current.tdef operation) := by
  obtain ⟨_,_,entry,table,index,altered⟩ := alterTable_altered ran
  cases found.symm.trans altered.found
  cases stands.symm.trans altered.stands
  exact ⟨_,altered.table_after,AlterTableOperation.change_schema laid altered.changed⟩

end Runs

section Example

def middleKey : CreateTable :=
  ⟨"t",[⟨"x",.uint8,0,none⟩,⟨"k",.uint8,0,none⟩,⟨"v",.uint8,0,none⟩],none,some [1],none⟩

def middleKeyDb : RemDbState Unit := finalState ((createTable middleKey 0 zeroed).run (emptyDb 2000))

def middleKeyDef : TableDef := middleKey.tableDef ⟨false,none,1⟩ 0 0

theorem middleKeyDb_stands : ∃ current, middleKeyDb.table 0 = some current ∧ current.tdef = middleKeyDef :=
  Option.map_eq_some_iff.mp (show (middleKeyDb.table 0).map (·.tdef) = some middleKeyDef by decide +kernel)

theorem middleKeyDef_laid : middleKeyDef.Laid := middleKey.tableDef_laid _ _ _ (by decide)

-- Without the last column the key stays where it was.
theorem drop_last_keeps_schema : ∃ db after : RemDbState Unit, ∃ current altered,
    (alterTable (fun _ _ => []) (fun _ => []) zeroed "t" (.dropColumn "v")).run db = .ok (some ()) after ∧
      db.table 0 = some current ∧ after.table 0 = some altered ∧
      AlterTableOperation.SchemaKept (.dropColumn "v") current.tdef altered.tdef := by
  obtain ⟨current,stands,defined⟩ := middleKeyDb_stands
  have ran : (alterTable (fun _ _ => []) (fun _ => []) zeroed "t" (.dropColumn "v")).run middleKeyDb = .ok (some ()) _ :=
    ok_of_returned (by decide +kernel)
  have laid : current.tdef.Laid := by
    rw [defined]
    exact middleKeyDef_laid
  have found : middleKeyDb.placeOf "t" = some 0 := by decide +kernel
  obtain ⟨altered,stands',kept⟩ := alter_keeps_schema_iff found stands laid ran
  refine ⟨_,_,current,altered,ran,stands,stands',kept.mpr ?_⟩
  rw [defined]
  intro field_index same column member
  cases same
  cases List.mem_singleton.mp member
  exact .inl (by decide)

-- Without the first column the number of the key column is that of the last.
theorem drop_first_moves_key : ∃ db after : RemDbState Unit, ∃ current altered,
    (alterTable (fun _ _ => []) (fun _ => []) zeroed "t" (.dropColumn "x")).run db = .ok (some ()) after ∧
      db.table 0 = some current ∧ after.table 0 = some altered ∧ current.tdef.Laid ∧
      ¬AlterTableOperation.SchemaKept (.dropColumn "x") current.tdef altered.tdef := by
  obtain ⟨current,stands,defined⟩ := middleKeyDb_stands
  have ran : (alterTable (fun _ _ => []) (fun _ => []) zeroed "t" (.dropColumn "x")).run middleKeyDb = .ok (some ()) _ :=
    ok_of_returned (by decide +kernel)
  have laid : current.tdef.Laid := by
    rw [defined]
    exact middleKeyDef_laid
  obtain ⟨altered,stands',moved⟩ : ∃ altered, (finalState ((alterTable (fun _ _ => []) (fun _ => []) zeroed "t"
      (.dropColumn "x")).run middleKeyDb)).table 0 = some altered ∧
        altered.tdef.primary_key.map (AlterTableOperation.columnName altered.tdef) = [some "v"] := by
    have answer : ((finalState ((alterTable (fun _ _ => []) (fun _ => []) zeroed "t"
        (.dropColumn "x")).run middleKeyDb)).table 0).map (fun altered =>
          altered.tdef.primary_key.map (AlterTableOperation.columnName altered.tdef)) = some [some "v"] := by
      decide +kernel
    exact Option.map_eq_some_iff.mp answer
  refine ⟨_,_,current,altered,ran,stands,stands',laid,?_⟩
  intro kept
  have key := kept.key
  rw [moved,defined] at key
  exact absurd key (by decide)

end Example
end RemDb
