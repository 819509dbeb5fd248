import RemDb.Ddl.CreateTable

namespace RemDb
open RemDb.Lib

-- The allocator after a row of requests that are all granted.
def grantAll (allocator : Option StaticAllocator) : List Nat → Option (Option StaticAllocator)
  | [] => some allocator
  | size :: rest =>
    match allocFrom allocator size with
    | some (.ok _,after) => grantAll after rest
    | _ => none

section Runs
variable {σ : Type} {db : RemDbState σ}

theorem run_modify (change : RemDbState σ → RemDbState σ) :
    (modify change : DdlAction σ PUnit).run db = .ok ⟨⟩ (change db) := rfl

theorem alloc_ok (granted : allocFrom db.allocator size = some (.ok data,after)) :
    (alloc size).run db = .ok data {db with allocator:=after} := by
  simp only [alloc,EStateM.run_bind,EStateM.run_get,granted]
  rfl

theorem alloc_refused {failure : RemDbError} (refused : allocFrom db.allocator size = some (.error failure,after)) :
    (alloc size).run db = .error (.error failure) {db with allocator:=after} := by
  simp only [alloc,EStateM.run_bind,EStateM.run_get,refused]
  rfl

theorem alloc_diverged (lost : allocFrom db.allocator size = none) :
    (alloc size).run db = .error .diverged db := by
  simp only [alloc,EStateM.run_bind,EStateM.run_get,lost]
  rfl

theorem alloc_bind (db : RemDbState σ) (size : Nat) (next : Nat → DdlAction σ α) :
    (∃ fault after, (alloc size >>= next).run db = .error fault {db with allocator:=after} ∧
      ∀ rest, grantAll db.allocator (size :: rest) = none) ∨
    ∃ data after, allocFrom db.allocator size = some (.ok data,after) ∧
      (alloc size >>= next).run db = (next data).run {db with allocator:=after} := by
  cases request : allocFrom db.allocator size with
  | none =>
    left
    refine ⟨.diverged,db.allocator,?_,?_⟩
    · rw [EStateM.run_bind,alloc_diverged request]
    · intro rest
      rw [grantAll,request]
  | some outcome =>
    obtain ⟨answer,after⟩ := outcome
    cases answer with
    | error failure =>
      left
      refine ⟨.error failure,after,?_,?_⟩
      · rw [EStateM.run_bind,alloc_refused request]
      · intro rest
        rw [grantAll,request]
    | ok data =>
      right
      refine ⟨data,after,rfl,?_⟩
      rw [EStateM.run_bind,alloc_ok request]

theorem makeTable_run (memory : Memory) (tdef : TableDef) (secondary_index : Option (List Nat))
    (secondary_index_type : IndexType) :
    (∃ fault after, (makeTable memory tdef secondary_index secondary_index_type).run db =
        .error fault {db with allocator:=after} ∧
      (tdef.max_records = 0 ∨ grantAll db.allocator tdef.memorySizes = none)) ∨
    ∃ entry after, (makeTable memory tdef secondary_index secondary_index_type).run db =
        .ok entry {db with allocator:=after} ∧ tdef.max_records ≠ 0 ∧
      grantAll db.allocator tdef.memorySizes = some after ∧ entry.tdef = tdef ∧
      MemoryTable.new tdef (some memory) = .ok entry.table ∧ entry.secondary_index = secondary_index ∧
      entry.secondary_index_type = secondary_index_type ∧ entry.snapshot_version = 0 := by
  by_cases empty : tdef.max_records = 0
  · left
    refine ⟨.error .configError,db.allocator,?_,.inl empty⟩
    rw [makeTable,if_pos empty]
    rfl
  rw [makeTable,if_neg empty,TableDef.memorySizes]
  rcases alloc_bind db _ _ with ⟨fault,after,ran,refused⟩ | ⟨data_start,first,granted,ran⟩
  · exact .inl ⟨fault,after,ran,.inr (refused _)⟩
  rw [ran]
  rcases alloc_bind {db with allocator:=first} _ _ with ⟨fault,after,ran,refused⟩ | ⟨status_array,second,granted',ran⟩
  · refine .inl ⟨fault,after,ran,.inr ?_⟩
    rw [grantAll,granted]
    exact refused _
  rw [ran]
  rcases alloc_bind {db with allocator:=second} _ _ with ⟨fault,after,ran,refused⟩ | ⟨free_slots,third,granted'',ran⟩
  · refine .inl ⟨fault,after,ran,.inr ?_⟩
    rw [grantAll,granted]
    dsimp only
    rw [grantAll,granted']
    exact refused _
  rw [ran]
  obtain ⟨table,made⟩ : ∃ table, MemoryTable.new tdef (some memory) = .ok table := by
    rw [MemoryTable.new,MemoryTable.newWithOptions,if_neg empty]
    exact ⟨_,rfl⟩
  right
  refine ⟨⟨table,secondary_index,secondary_index_type,0,data_start,status_array,free_slots⟩,third,?_,empty,?_,?_,made,
    rfl,rfl,rfl⟩
  · rw [made]
    rfl
  · rw [grantAll,granted]
    dsimp only
    rw [grantAll,granted']
    dsimp only
    rw [grantAll,granted'']
    rfl
  · rw [MemoryTable.new,MemoryTable.newWithOptions,if_neg empty] at made
    cases made
    rfl

end Runs

namespace CreateTable

def Accepted (statement : CreateTable) : Prop :=
  statement.fields ≠ [] ∧ ∀ pk_index ∈ statement.primary_key.getD [], pk_index < statement.fields.length

def Starts (statement : CreateTable) (db : RemDbState σ) : Prop :=
  statement.Accepted ∧ db.isNamed statement.name = false

def planned (statement : CreateTable) (db : RemDbState σ) (scheme : UInt8) : TableDef :=
  statement.tableDef db.config scheme db.freePlace

-- The answer to the request for the index, once the table has its memory.
def indexRequest (statement : CreateTable) (db : RemDbState σ) (scheme : UInt8) :
    Option (Except RemDbError Nat × Option StaticAllocator) :=
  (grantAll db.allocator (statement.planned db scheme).memorySizes).bind
    (allocFrom · (statement.planned db scheme).indexSize)

end CreateTable

-- Everything that `create_table` can do.
inductive Creation (db : RemDbState σ) (statement : CreateTable) (scheme : UInt8) :
    EStateM.Result DdlFault (RemDbState σ) Unit → Prop
  | rejected (bad : ¬statement.Accepted) : Creation db statement scheme (.error (.error .configError) db)
  | present (named : db.isNamed statement.name = true) : Creation db statement scheme (.ok () db)
  | starved (refused : (statement.planned db scheme).max_records = 0 ∨
      grantAll db.allocator (statement.planned db scheme).memorySizes = none) :
      Creation db statement scheme (.error fault {db with allocator:=after})
  | orphaned {failure : RemDbError} (starts : statement.Starts db)
      (full : (statement.planned db scheme).max_records ≠ 0)
      (refused : statement.indexRequest db scheme = some (.error failure,after))
      (defined : entry.tdef = statement.planned db scheme) :
      Creation db statement scheme (.error (.error failure) {db with
        allocator:=after
        tables:=putAt db.tables db.freePlace (some entry)})
  | lost (starts : statement.Starts db) (full : (statement.planned db scheme).max_records ≠ 0)
      (granted : grantAll db.allocator (statement.planned db scheme).memorySizes = some pool)
      (endless : statement.indexRequest db scheme = none) (defined : entry.tdef = statement.planned db scheme) :
      Creation db statement scheme (.error .diverged {db with
        allocator:=pool
        tables:=putAt db.tables db.freePlace (some entry)})
  | created (starts : statement.Starts db) (full : (statement.planned db scheme).max_records ≠ 0)
      (supplied : statement.indexRequest db scheme = some (.ok data,after))
      (defined : entry.tdef = statement.planned db scheme) (indexed : index.tdef = statement.planned db scheme) :
      Creation db statement scheme (.ok () {db with
        allocator:=after
        tables:=putAt db.tables db.freePlace (some entry)
        primary_indices:=putAt db.primary_indices db.freePlace (some index)
        secondary_indices:=putAt db.secondary_indices db.freePlace none})

theorem PrimaryIndex.new_tdef (tdef : TableDef) (hash_table_start : Nat → Option Nat)
    (items_start : Nat → PrimaryIndexItem) (hash_table_size max_items : Nat) :
    (PrimaryIndex.new tdef hash_table_start items_start hash_table_size max_items).tdef = tdef := by
  have kept (items : List Nat) (index : PrimaryIndex) :
      (items.foldl PrimaryIndex.thread index).tdef = index.tdef := by
    induction items generalizing index with
    | nil => rfl
    | cons item rest ih => exact ih _
  exact kept _ _

theorem createTable_cases (db : RemDbState σ) (statement : CreateTable) (scheme : UInt8) (left : Leftover) :
    Creation db statement scheme ((createTable statement scheme left).run db) := by
  rw [createTable,EStateM.run_bind,EStateM.run_get]
  dsimp only
  by_cases bare : statement.fields = []
  · rw [if_pos bare]
    exact .rejected fun accepted => accepted.1 bare
  rw [if_neg bare]
  by_cases outside : ((statement.primary_key.getD []).any fun pk_index =>
      decide (pk_index ≥ statement.fields.length)) = true
  · rw [if_pos outside]
    apply Creation.rejected
    intro accepted
    obtain ⟨pk_index,member,beyond⟩ := List.any_eq_true.mp outside
    have inside := accepted.2 pk_index member
    have beyond' : pk_index ≥ statement.fields.length := of_decide_eq_true beyond
    omega
  rw [if_neg outside]
  by_cases named : db.isNamed statement.name = true
  · rw [if_pos named]
    exact .present named
  rw [if_neg named]
  have starts : statement.Starts db := by
    refine ⟨⟨bare,?_⟩,by simpa using named⟩
    intro pk_index member
    by_contra beyond
    exact outside (List.any_eq_true.mpr ⟨pk_index,member,decide_eq_true (by omega)⟩)
  have same : statement.tableDef db.config scheme db.freePlace = statement.planned db scheme := rfl
  rcases makeTable_run left.memory (statement.planned db scheme) none .sortedArray with
    ⟨fault,after,ran,refused⟩ | ⟨entry,pool,ran,full,granted,defined,_⟩
  · rw [EStateM.run_bind,same,ran]
    exact .starved refused
  rw [EStateM.run_bind,same,ran]
  dsimp only
  rw [EStateM.run_bind,run_modify]
  dsimp only
  rw [EStateM.run_bind]
  have asked : statement.indexRequest db scheme = allocFrom pool (statement.planned db scheme).indexSize := by
    rw [CreateTable.indexRequest,granted]
    rfl
  cases request : allocFrom pool (statement.planned db scheme).indexSize with
  | none =>
    rw [alloc_diverged request]
    exact .lost starts full granted (asked.trans request) defined
  | some outcome =>
    obtain ⟨answer,after⟩ := outcome
    cases answer with
    | error failure =>
      rw [alloc_refused request]
      exact .orphaned starts full (asked.trans request) defined
    | ok data =>
      rw [alloc_ok request]
      exact .created starts full (asked.trans request) defined (PrimaryIndex.new_tdef _ _ _ _ _)

-- Three vectors of one length, with an index exactly where there is a table.
structure Aligned (db : RemDbState σ) : Prop where
  primary : db.primary_indices.length = db.tables.length
  secondary : db.secondary_indices.length = db.tables.length
  indexed : ∀ place, (db.primaryIndex place).isSome = (db.table place).isSome

-- On an error the vectors are as before. On success there was such a table
-- already, or one stands in a place that had none, with its index beside it and
-- with this place as its id, and everything else is as before.
def Atomic (db : RemDbState σ) (name : String) : EStateM.Result DdlFault (RemDbState σ) Unit → Prop
  | .error .diverged _ => True
  | .error (.error _) after => after.tables = db.tables ∧ after.primary_indices = db.primary_indices ∧
      after.secondary_indices = db.secondary_indices
  | .ok _ after => Aligned after ∧
      ((db.isNamed name = true ∧ after.tables = db.tables ∧ after.primary_indices = db.primary_indices ∧
        after.secondary_indices = db.secondary_indices) ∨
      ∃ place entry index, db.table place = none ∧ after.tables = putAt db.tables place (some entry) ∧
        after.primary_indices = putAt db.primary_indices place (some index) ∧
        after.secondary_indices = putAt db.secondary_indices place none ∧
        after.table place = some entry ∧ after.primaryIndex place = some index ∧
        entry.tdef.name = name ∧ index.tdef = entry.tdef ∧ entry.tdef.id.toNat = place)

-- The table gets its memory, and then the index does not, or the place is
-- beyond what an id can say.
def Halts (db : RemDbState σ) (statement : CreateTable) (scheme : UInt8) : Prop :=
  statement.Starts db ∧ (statement.planned db scheme).max_records ≠ 0 ∧
    ((∃ failure after, statement.indexRequest db scheme = some (.error failure,after)) ∨
      256 ≤ db.freePlace ∧ ∃ data after, statement.indexRequest db scheme = some (.ok data,after))

section Places
variable {σ : Type} {db : RemDbState σ}

theorem length_putAt (values : List α) (place : Nat) (value : α) :
    (putAt values place value).length = if place < values.length then values.length else values.length+1 := by
  unfold putAt
  split
  · exact List.length_set
  · exact List.length_append

theorem getElem?_putAt (values : List α) (place other : Nat) (value : α) (close : place ≤ values.length) :
    (putAt values place value)[other]? = if other = place then some value else values[other]? := by
  unfold putAt
  by_cases inside : place < values.length
  · rw [if_pos inside]
    by_cases here : other = place
    · rw [here,if_pos rfl,List.getElem?_set_self inside]
    · rw [if_neg here,List.getElem?_set_ne (Ne.symm here)]
  · rw [if_neg inside]
    have last : place = values.length := by omega
    by_cases here : other = place
    · rw [here,if_pos rfl,last,List.getElem?_concat_length]
    · rw [if_neg here,List.getElem?_append]
      by_cases before : other < values.length
      · rw [if_pos before]
      · rw [if_neg before,List.getElem?_eq_none (show values.length ≤ other by omega)]
        apply List.getElem?_eq_none
        rw [List.length_singleton]
        omega

theorem freePlace_le : db.freePlace ≤ db.tables.length := by
  unfold RemDbState.freePlace
  cases found : db.tables.findIdx? Option.isNone with
  | none => exact Nat.le_refl _
  | some place => exact Nat.le_of_lt (List.findIdx?_eq_some_iff_findIdx_eq.mp found).1

theorem freePlace_free : db.table db.freePlace = none := by
  unfold RemDbState.freePlace RemDbState.table
  cases found : db.tables.findIdx? Option.isNone with
  | none =>
    rw [Option.getD_none,List.getElem?_eq_none (Nat.le_refl _)]
    rfl
  | some place =>
    obtain ⟨inside,empty,_⟩ := List.findIdx?_eq_some_iff_getElem.mp found
    rw [Option.getD_some,List.getElem?_eq_getElem inside]
    exact Option.isNone_iff_eq_none.mp empty

theorem table_putAt {after : RemDbState σ} (close : place ≤ db.tables.length)
    (tables : after.tables = putAt db.tables place entry) (other : Nat) :
    after.table other = if other = place then entry else db.table other := by
  rw [RemDbState.table,tables,getElem?_putAt _ _ _ _ close]
  split
  · rfl
  · rfl

theorem primaryIndex_putAt {after : RemDbState σ} (close : place ≤ db.primary_indices.length)
    (indices : after.primary_indices = putAt db.primary_indices place index) (other : Nat) :
    after.primaryIndex other = if other = place then index else db.primaryIndex other := by
  rw [RemDbState.primaryIndex,indices,getElem?_putAt _ _ _ _ close]
  split
  · rfl
  · rfl

theorem created_aligned (aligned : Aligned db) (after : RemDbState σ)
    (tables : after.tables = putAt db.tables db.freePlace (some entry))
    (primary : after.primary_indices = putAt db.primary_indices db.freePlace (some index))
    (secondary : after.secondary_indices = putAt db.secondary_indices db.freePlace none) : Aligned after := by
  refine ⟨?_,?_,?_⟩
  · rw [primary,tables,length_putAt,length_putAt,aligned.primary]
  · rw [secondary,tables,length_putAt,length_putAt,aligned.secondary]
  · intro place
    rw [table_putAt freePlace_le tables,primaryIndex_putAt (aligned.primary ▸ freePlace_le) primary]
    split
    · rfl
    · exact aligned.indexed place

end Places

theorem createTable_atomic_iff (db : RemDbState σ) (statement : CreateTable) (scheme : UInt8) (left : Leftover)
    (aligned : Aligned db) :
    Atomic db statement.name ((createTable statement scheme left).run db) ↔ ¬Halts db statement scheme := by
  have cases := createTable_cases db statement scheme left
  generalize (createTable statement scheme left).run db = outcome at cases
  cases cases with
  | rejected bad => exact ⟨fun _ halts => bad halts.1.1,fun _ => ⟨rfl,rfl,rfl⟩⟩
  | present named =>
    refine ⟨fun _ halts => ?_,fun _ => ⟨aligned,.inl ⟨named,rfl,rfl,rfl⟩⟩⟩
    have fresh := halts.1.2
    rw [named] at fresh
    cases fresh
  | @starved fault after refused =>
    constructor
    · rintro _ ⟨_,full,answered⟩
      rcases refused with empty | refused
      · exact full empty
      · rw [CreateTable.indexRequest,refused] at answered
        rcases answered with ⟨_,_,refused⟩ | ⟨_,_,_,supplied⟩
        · cases refused
        · cases supplied
    · intro _
      cases fault with
      | diverged => trivial
      | error failure => exact ⟨rfl,rfl,rfl⟩
  | @orphaned after entry failure starts full refused defined =>
    constructor
    · rintro ⟨tables,_⟩
      have changed := table_putAt freePlace_le tables.symm db.freePlace
      rw [freePlace_free,if_pos rfl] at changed
      cases changed
    · intro fine
      exact absurd ⟨starts,full,.inl ⟨failure,after,refused⟩⟩ fine
  | lost _ _ _ endless _ =>
    refine ⟨?_,fun _ => trivial⟩
    rintro _ ⟨_,_,answered⟩
    rw [endless] at answered
    rcases answered with ⟨_,_,refused⟩ | ⟨_,_,_,supplied⟩
    · cases refused
    · cases supplied
  | @created after data entry index starts full supplied defined indexed =>
    constructor
    · rintro ⟨_,named | ⟨place,entry',index',free,_,_,_,stands,_,_,_,id⟩⟩ ⟨_,_,answered⟩
      · have fresh := starts.2
        rw [named.1] at fresh
        cases fresh
      · rw [supplied] at answered
        rcases answered with ⟨failure,_,refused⟩ | ⟨beyond,_⟩
        · cases refused
        · have small := entry'.tdef.id.toNat_lt
          rw [table_putAt freePlace_le rfl,if_neg (by omega),free] at stands
          cases stands
    · intro fine
      have small : db.freePlace < 256 := by
        by_contra beyond
        exact fine ⟨starts,full,.inr ⟨by omega,data,after,supplied⟩⟩
      refine ⟨created_aligned aligned _ rfl rfl rfl,.inr ⟨db.freePlace,entry,index,freePlace_free,rfl,rfl,rfl,?_,?_,?_,?_,?_⟩⟩
      · rw [table_putAt freePlace_le rfl,if_pos rfl]
      · rw [primaryIndex_putAt (aligned.primary ▸ freePlace_le) rfl,if_pos rfl]
      · rw [defined]
        rfl
      · rw [defined,indexed]
      · rw [defined]
        exact (UInt8.toNat_ofNat').trans (Nat.mod_eq_of_lt small)

def emptyDb (bytes : Nat) : RemDbState Unit :=
  ⟨⟨false,none,1⟩,[],[],[],[],0,StaticAllocator.new (fun _ => ⟨none,0,false⟩) 8 bytes⟩

def byteTable : CreateTable := ⟨"t",[⟨"a",.uint8,0,none⟩],none,none,none⟩

def zeroed : Leftover := ⟨fun _ => (⟨.free,0,0,0,0⟩,[0]),fun _ => none,fun _ => ⟨none,0,0,[]⟩⟩

theorem emptyDb_aligned (bytes : Nat) : Aligned (emptyDb bytes) := ⟨rfl,rfl,fun _ => rfl⟩

theorem createTable_atomic_roomy : Atomic (emptyDb 1000) "t" ((createTable byteTable 0 zeroed).run (emptyDb 1000)) := by
  refine (createTable_atomic_iff (emptyDb 1000) byteTable 0 zeroed (emptyDb_aligned 1000)).mpr ?_
  have granted : ((byteTable.indexRequest (emptyDb 1000) 0).map (·.1.isOk)) = some true := by decide +kernel
  rintro ⟨_,_,⟨failure,after,refused⟩ | ⟨beyond,_⟩⟩
  · rw [refused] at granted
    cases granted
  · cases beyond

def failedWith : EStateM.Result DdlFault (RemDbState σ) Unit → Option (RemDbError × Nat × Nat)
  | .error (.error failure) after => some (failure,after.tables.length,after.primary_indices.length)
  | _ => none

-- A pool with room for the table but not for its index: the statement fails
-- and the table stays.
theorem createTable_leaves_table :
    Aligned (emptyDb 200) ∧
      failedWith ((createTable byteTable 0 zeroed).run (emptyDb 200)) = some (.outOfMemory,1,0) ∧
      ¬Atomic (emptyDb 200) "t" ((createTable byteTable 0 zeroed).run (emptyDb 200)) := by
  have failed : failedWith ((createTable byteTable 0 zeroed).run (emptyDb 200)) = some (.outOfMemory,1,0) := by
    decide +kernel
  refine ⟨emptyDb_aligned 200,failed,?_⟩
  generalize (createTable byteTable 0 zeroed).run (emptyDb 200) = outcome at failed
  intro atomic
  cases outcome with
  | ok _ after => cases failed
  | error fault after =>
    cases fault with
    | diverged => cases failed
    | error failure =>
      obtain ⟨tables,_⟩ := atomic
      have one := congrArg (fun entry => entry.2.1) (Option.some.inj failed)
      dsimp only at one
      rw [tables] at one
      cases one

end RemDb
