import RemDb.Memory.Coverage
import RemDb.Ddl.Atomicity
import RemDb.Ddl.SystemTables

namespace RemDb
open RemDb.Lib StaticAllocator

-- The allocator with the tiles its blocks make; one that is not set up has none.
inductive Tiles : Option StaticAllocator → List Tile → Prop where
  | unset : Tiles none []
  | pool {pool : StaticAllocator} {tiles : List Tile} (tiled : Tiled pool tiles) (apart : Coalesced tiles) :
      Tiles (some pool) tiles

def usedBytes (allocator : Option StaticAllocator) : Nat := (allocator.map (·.used)).getD 0

def NoRoom (allocator : Option StaticAllocator) (tiles : List Tile) (size : Nat) : Prop :=
  ∀ pool ∈ allocator, ∀ block ∈ freeStarts tiles, (pool.blocks block).size < roundUp size

section Requests
variable {σ : Type} {db : RemDbState σ} {allocator : Option StaticAllocator} {tiles : List Tile}

theorem Tiles.used (laid : Tiles allocator tiles) : usedBytes allocator = takenLength tiles := by
  cases laid with
  | unset => rfl
  | pool tiled apart => exact tiled.counted

theorem takenLength_perm (order : (takenTiles left).Perm (tile :: takenTiles right)) :
    takenLength left = tile.length+takenLength right := by
  have sums := (order.map (·.length)).sum_eq
  rw [List.map_cons,List.sum_cons] at sums
  exact sums

theorem allocFrom_tiles (laid : Tiles allocator tiles) (size : Nat) :
    (NoRoom allocator tiles size ∧ allocFrom allocator size = some (.error .outOfMemory,allocator)) ∨
    ¬NoRoom allocator tiles size ∧ ∃ tile tiles' after,
      allocFrom allocator size = some (.ok (tile.start+MemoryBlock.SIZE),after) ∧
      Tiles after tiles' ∧ (takenTiles tiles').Perm (tile :: takenTiles tiles) ∧ 0 < tile.length := by
  cases laid with
  | unset => exact .inl ⟨fun pool present => (nomatch present),rfl⟩
  | @pool pool tiles tiled apart =>
    rcases allocate_outcome tiled size with ⟨small,failed⟩ | ⟨before,tile,after,rfl,free,fits,granted⟩
    · refine .inl ⟨?_,?_⟩
      · intro other here
        cases here
        exact small
      · rw [allocFrom,failed]
        rfl
    · obtain ⟨answer,tiles',length,enough,tiled',apart',taken⟩ := grant_tiled tiled apart free fits
      refine .inr ⟨?_,⟨tile.start,length,false⟩,tiles',_,?_,.pool tiled' apart',?_,?_⟩
      · intro none_fits
        have listed : tile.start ∈ freeStarts (before ++ tile :: after) := by
          rw [freeStarts_append,freeStarts_cons_free free]
          exact List.mem_append_right _ List.mem_cons_self
        exact absurd fits (Nat.not_le_of_lt (none_fits pool rfl tile.start listed))
      · rw [allocFrom,granted,Option.map_some,answer]
      · have same : takenTiles (before ++ tile :: after) = takenTiles before ++ takenTiles after := by
          simp [takenTiles,free]
        rw [taken,same]
        exact List.perm_middle
      · dsimp only
        simp only [MemoryBlock.SIZE] at enough
        omega

theorem freeTo_tiles (laid : Tiles allocator tiles) (tile : Tile) (held : tile ∈ takenTiles tiles) :
    ∃ tiles' after, freeTo allocator (tile.start+MemoryBlock.SIZE) = some after ∧ Tiles after tiles' ∧
      (takenTiles tiles).Perm (tile :: takenTiles tiles') := by
  cases laid with
  | unset => cases held
  | @pool pool tiles tiled apart =>
    obtain ⟨present,busy⟩ := List.mem_filter.mp held
    have taken : tile.free = false := by simpa using busy
    obtain ⟨before,after,rfl⟩ := List.append_of_mem present
    obtain ⟨freed,ran,tiled'⟩ := free_tiled tiled taken
    refine ⟨_,some freed,?_,.pool tiled' (coalesce_coalesced _),?_⟩
    · rw [freeTo,ran]
      rfl
    · have same : takenTiles (before ++ tile :: after) = takenTiles before ++ tile :: takenTiles after := by
        simp [takenTiles,taken]
      have rest : takenTiles (before ++ {tile with free:=true} :: after) = takenTiles before ++ takenTiles after := by
        simp [takenTiles]
      rw [coalesce_takenTiles,same,rest]
      exact List.perm_middle

theorem free_ok {ptr : Nat} {after : Option StaticAllocator} (freed : freeTo db.allocator ptr = some after) :
    (free ptr).run db = .ok () {db with allocator:=after} := by
  simp only [free,EStateM.run_bind,EStateM.run_get,freed]
  rfl

end Requests

def TableDef.dataSize (tdef : TableDef) : Nat := tdef.record_size*tdef.max_records % usizeLimit

structure Owned (entry : DbTable) (data status free : Tile) : Prop where
  data_start : entry.data_start = data.start+MemoryBlock.SIZE
  status_array : entry.status_array = status.start+MemoryBlock.SIZE
  free_slots : entry.free_slots = free.start+MemoryBlock.SIZE

section Tables
variable {σ : Type} {db : RemDbState σ} {tiles : List Tile}

-- Without room for the records nothing is taken. A later request that fails
-- leaves the blocks before it taken.
theorem makeTable_tiles (laid : Tiles db.allocator tiles) (memory : Memory) (tdef : TableDef)
    (secondary_index : Option (List Nat)) (secondary_index_type : IndexType) (full : tdef.max_records ≠ 0) :
    (NoRoom db.allocator tiles tdef.dataSize ∧
      (makeTable memory tdef secondary_index secondary_index_type).run db = .error (.error .outOfMemory) db) ∨
    ¬NoRoom db.allocator tiles tdef.dataSize ∧
      ((∃ after tiles', (makeTable memory tdef secondary_index secondary_index_type).run db =
          .error (.error .outOfMemory) {db with allocator:=after} ∧ Tiles after tiles' ∧
          takenLength tiles < takenLength tiles') ∨
      ∃ entry after tiles' data status free,
        (makeTable memory tdef secondary_index secondary_index_type).run db = .ok entry {db with allocator:=after} ∧
          Tiles after tiles' ∧ (takenTiles tiles').Perm (free :: status :: data :: takenTiles tiles) ∧
          0 < data.length ∧ Owned entry data status free ∧ MemoryTable.new tdef (some memory) = .ok entry.table) := by
  rw [makeTable,if_neg full]
  unfold TableDef.dataSize
  rcases allocFrom_tiles laid (tdef.record_size*tdef.max_records % usizeLimit) with
    ⟨tight,refused⟩ | ⟨room,data,tiles₁,first,granted,laid₁,order₁,positive⟩
  · refine .inl ⟨tight,?_⟩
    rw [EStateM.run_bind,alloc_refused refused]
  refine .inr ⟨room,?_⟩
  have more₁ := takenLength_perm order₁
  rw [EStateM.run_bind,alloc_ok granted]
  dsimp only
  rcases allocFrom_tiles laid₁ (RecordHeader.SIZE*tdef.max_records % usizeLimit) with
    ⟨_,refused⟩ | ⟨_,status,tiles₂,second,granted,laid₂,order₂,_⟩
  · refine .inl ⟨first,tiles₁,?_,laid₁,by omega⟩
    rw [EStateM.run_bind,alloc_refused refused]
  have more₂ := takenLength_perm order₂
  rw [EStateM.run_bind,alloc_ok granted]
  dsimp only
  rcases allocFrom_tiles laid₂ (usizeBytes*tdef.max_records % usizeLimit) with
    ⟨_,refused⟩ | ⟨_,free,tiles₃,third,granted,laid₃,order₃,_⟩
  · refine .inl ⟨second,tiles₂,?_,laid₂,by omega⟩
    rw [EStateM.run_bind,alloc_refused refused]
  rw [EStateM.run_bind,alloc_ok granted]
  dsimp only
  obtain ⟨table,made⟩ : ∃ table, MemoryTable.new tdef (some memory) = .ok table := by
    rw [MemoryTable.new,MemoryTable.newWithOptions,if_neg full]
    exact ⟨_,rfl⟩
  refine .inr ⟨⟨table,secondary_index,secondary_index_type,0,data.start+MemoryBlock.SIZE,
    status.start+MemoryBlock.SIZE,free.start+MemoryBlock.SIZE⟩,third,tiles₃,data,status,free,?_,laid₃,?_,positive,
    ⟨rfl,rfl,rfl⟩,made⟩
  · rw [made]
    rfl
  · exact order₃.trans ((order₂.trans (order₁.cons status)).cons free)

theorem createTable_starts {statement : CreateTable} (starts : statement.Starts db) (scheme : UInt8) (left : Leftover) :
    (createTable statement scheme left).run db =
      match (makeTable left.memory (statement.planned db scheme) none .sortedArray).run db with
      | .error fault after => .error fault after
      | .ok entry after =>
        match (alloc (statement.planned db scheme).indexSize).run
            {after with tables:=putAt after.tables db.freePlace (some entry)} with
        | .error fault after => .error fault after
        | .ok _ after =>
          .ok () {after with
            primary_indices:=putAt after.primary_indices db.freePlace (some (PrimaryIndex.new
              (statement.planned db scheme) left.hash_table_start left.items_start
              (hashTableSize (statement.planned db scheme).max_records) (statement.planned db scheme).max_records))
            secondary_indices:=putAt after.secondary_indices db.freePlace none} := by
  obtain ⟨⟨some_field,keys⟩,fresh⟩ := starts
  have inside : ((statement.primary_key.getD []).any fun pk_index =>
      decide (pk_index ≥ statement.fields.length)) = false := by
    refine List.any_eq_false.mpr fun pk_index member beyond => ?_
    have below := keys pk_index member
    have above : pk_index ≥ statement.fields.length := of_decide_eq_true beyond
    omega
  rw [createTable,EStateM.run_bind,EStateM.run_get]
  dsimp only
  rw [if_neg some_field,inside,if_neg Bool.false_ne_true,fresh,if_neg Bool.false_ne_true]
  have same : statement.tableDef db.config scheme db.freePlace = statement.planned db scheme := rfl
  rw [EStateM.run_bind,same]
  cases (makeTable left.memory (statement.planned db scheme) none .sortedArray).run db with
  | error fault after => rfl
  | ok entry after =>
    dsimp only
    rw [EStateM.run_bind,run_modify]
    dsimp only
    rw [EStateM.run_bind]
    cases (alloc (statement.planned db scheme).indexSize).run
        {after with tables:=putAt after.tables db.freePlace (some entry)} with
    | error fault after => rfl
    | ok data after => rfl

theorem createTable_other {statement : CreateTable} (other : ¬statement.Starts db) (scheme : UInt8) (left : Leftover) :
    (createTable statement scheme left).run db = .error (.error .configError) db ∨
      db.isNamed statement.name = true ∧ (createTable statement scheme left).run db = .ok () db := by
  rw [createTable,EStateM.run_bind,EStateM.run_get]
  dsimp only
  by_cases bare : statement.fields = []
  · rw [if_pos bare]
    exact .inl rfl
  rw [if_neg bare]
  by_cases outside : ((statement.primary_key.getD []).any fun pk_index =>
      decide (pk_index ≥ statement.fields.length)) = true
  · rw [if_pos outside]
    exact .inl rfl
  rw [if_neg outside]
  by_cases named : db.isNamed statement.name = true
  · rw [if_pos named]
    exact .inr ⟨named,rfl⟩
  · refine absurd ⟨⟨bare,?_⟩,Bool.eq_false_iff.mpr named⟩ other
    intro pk_index member
    by_contra beyond
    exact outside (List.any_eq_true.mpr ⟨pk_index,member,decide_eq_true (Nat.le_of_not_lt beyond)⟩)

theorem dropEntry_tiles {entry : DbTable} {data status free : Tile} {rest : List Tile} (db : RemDbState σ)
    (laid : Tiles db.allocator tiles) (owned : Owned entry data status free) (empty : ∀ slot, entry.table.used slot = false)
    (order : (takenTiles tiles).Perm (free :: status :: data :: rest)) (nodes : σ → List Nat) :
    ∃ after tiles', (dropEntry nodes entry none).run db = .ok () {db with allocator:=after} ∧ Tiles after tiles' ∧
      (takenTiles tiles').Perm rest := by
  have texts : entry.externalTexts = [] := by
    have unused : (List.range entry.tdef.max_records).filter entry.table.used = [] :=
      List.filter_eq_nil_iff.mpr fun slot _ used => by
        rw [empty slot] at used
        cases used
    rw [DbTable.externalTexts,unused,List.flatMap_nil]
  obtain ⟨tiles₁,first,freed₁,laid₁,order₁⟩ := freeTo_tiles laid data (order.symm.subset (by simp))
  have left₁ : (takenTiles tiles₁).Perm (free :: status :: rest) := by
    refine (order₁.symm.trans (order.trans ?_)).cons_inv
    exact ((List.Perm.swap _ _ _).cons free).trans (List.Perm.swap _ _ _)
  obtain ⟨tiles₂,second,freed₂,laid₂,order₂⟩ := freeTo_tiles laid₁ status (left₁.symm.subset (by simp))
  have left₂ : (takenTiles tiles₂).Perm (free :: rest) := by
    refine (order₂.symm.trans (left₁.trans ?_)).cons_inv
    exact List.Perm.swap _ _ _
  obtain ⟨tiles₃,third,freed₃,laid₃,order₃⟩ := freeTo_tiles laid₂ free (left₂.symm.subset (by simp))
  refine ⟨third,tiles₃,?_,laid₃,(order₃.symm.trans left₂).cons_inv⟩
  rw [dropEntry,texts,owned.data_start,owned.status_array,owned.free_slots]
  simp only [List.nil_append,Option.map_none,Option.getD_none,List.append_nil,List.forM_eq_forM,List.forM_cons,
    List.forM_nil]
  rw [EStateM.run_bind,free_ok freed₁]
  dsimp only
  rw [EStateM.run_bind,free_ok freed₂]
  dsimp only
  rw [EStateM.run_bind,free_ok freed₃]
  rfl

theorem placeOf_created {after : RemDbState σ} {entry : DbTable} {name : String} (fresh : db.isNamed name = false)
    (tables : after.tables = putAt db.tables db.freePlace (some entry)) (own : entry.tdef.name = name) :
    after.placeOf name = some db.freePlace := by
  have held (place : Nat) := getElem?_putAt db.tables db.freePlace place (some entry) freePlace_le
  have here := held db.freePlace
  rw [if_pos rfl] at here
  obtain ⟨inside,value⟩ := List.getElem?_eq_some_iff.mp here
  unfold RemDbState.placeOf
  rw [tables]
  refine List.findIdx?_eq_some_iff_getElem.mpr ⟨inside,?_,?_⟩
  · rw [value]
    exact decide_eq_true own
  · intro place before
    have other := held place
    rw [if_neg (Nat.ne_of_lt before),List.getElem?_eq_getElem (Nat.lt_trans before inside)] at other
    intro named
    have present := List.mem_of_getElem? other.symm
    exact absurd named (List.any_eq_false.mp fresh _ present)

end Tables

section Returned
variable {σ : Type} {db : RemDbState σ} {tiles : List Tile}

theorem created_tiles {statement : CreateTable} {scheme : UInt8} {left : Leftover} {after : RemDbState σ}
    (laid : Tiles db.allocator tiles) (starts : statement.Starts db)
    (done : (createTable statement scheme left).run db = .ok () after) :
    ∃ entry tiles' data status free index, Tiles after.allocator tiles' ∧
      (takenTiles tiles').Perm (index :: free :: status :: data :: takenTiles tiles) ∧ 0 < index.length ∧
      Owned entry data status free ∧ (∀ slot, entry.table.used slot = false) ∧ entry.tdef.name = statement.name ∧
      after.tables = putAt db.tables db.freePlace (some entry) ∧
      after.secondary_indices = putAt db.secondary_indices db.freePlace none := by
  rw [createTable_starts starts] at done
  by_cases empty : (statement.planned db scheme).max_records = 0
  · rw [makeTable,if_pos empty] at done
    cases done
  rcases makeTable_tiles laid left.memory (statement.planned db scheme) none .sortedArray empty with
    ⟨_,ran⟩ | ⟨_,⟨middle,tiles',ran,_,_⟩ | ⟨entry,middle,tiles',data,status,free,ran,laid',order,_,owned,made⟩⟩
  · rw [ran] at done
    cases done
  · rw [ran] at done
    cases done
  rw [ran] at done
  dsimp only at done
  rcases allocFrom_tiles laid' (statement.planned db scheme).indexSize with
    ⟨_,refused⟩ | ⟨_,index,tiles'',last,granted,laid'',order',positive⟩
  · rw [alloc_refused refused] at done
    cases done
  rw [alloc_ok granted] at done
  cases done
  have shape : entry.tdef = statement.planned db scheme ∧ ∀ slot, entry.table.used slot = false := by
    rw [MemoryTable.new,MemoryTable.newWithOptions,if_neg empty] at made
    have fields := Except.ok.inj made
    refine ⟨?_,fun slot => ?_⟩
    · rw [DbTable.tdef,← fields]
    · rw [← fields]
      rfl
  refine ⟨entry,tiles'',data,status,free,index,laid'',order'.trans (order.cons index),positive,owned,shape.2,?_,rfl,rfl⟩
  rw [shape.1]
  rfl

-- Creating a table and dropping it again leaves the block of the index taken.
theorem created_dropped_tiles {statement : CreateTable} {scheme : UInt8} {left : Leftover} {after : RemDbState σ}
    (laid : Tiles db.allocator tiles) (starts : statement.Starts db)
    (done : (createTable statement scheme left).run db = .ok () after) (nodes : σ → List Nat) (if_exists : Bool) :
    takenLength tiles < usedBytes (finalState ((dropTable nodes statement.name if_exists).run after)).allocator := by
  obtain ⟨entry,tiles',data,status,free,index,laid',order,positive,owned,empty,own,tables,secondary⟩ :=
    created_tiles laid starts done
  have grown : takenLength tiles < usedBytes after.allocator := by
    have total := (order.map (·.length)).sum_eq
    simp only [List.map_cons,List.sum_cons] at total
    rw [laid'.used]
    unfold takenLength
    omega
  rw [dropTable,EStateM.run_bind,EStateM.run_get]
  dsimp only
  by_cases nameless : statement.name = ""
  · rw [if_pos nameless]
    exact grown
  rw [if_neg nameless]
  by_cases system : isSystemTable statement.name = true
  · rw [if_pos system]
    exact grown
  rw [if_neg system,placeOf_created starts.2 tables own]
  have here : after.table db.freePlace = some entry := by
    rw [table_putAt freePlace_le tables,if_pos rfl]
  have bare : (after.secondary_indices[db.freePlace]?).join = none := by
    rw [secondary,putAt]
    split
    · rename_i inside
      rw [List.getElem?_set_self inside]
      rfl
    · rename_i beyond
      rw [List.getElem?_append_right (Nat.le_of_not_lt beyond)]
      cases db.freePlace-db.secondary_indices.length with
      | zero => rfl
      | succ _ => rfl
  simp only [here,bare]
  have reordered : (takenTiles tiles').Perm (free :: status :: data :: index :: takenTiles tiles) := by
    refine order.trans ?_
    exact (@List.perm_middle _ index [free,status,data] (takenTiles tiles)).symm
  obtain ⟨last,tiles'',ran,laid'',rest⟩ := dropEntry_tiles
    {after with
      tables:=after.tables.set db.freePlace none
      primary_indices:=clearAt after.primary_indices db.freePlace
      secondary_indices:=clearAt after.secondary_indices db.freePlace} laid' owned empty reordered nodes
  rw [EStateM.run_bind]
  have stored : (set {after with
      tables:=after.tables.set db.freePlace none
      primary_indices:=clearAt after.primary_indices db.freePlace
      secondary_indices:=clearAt after.secondary_indices db.freePlace} : DdlAction σ PUnit).run after = .ok ⟨⟩ _ := rfl
  rw [stored]
  dsimp only
  rw [ran]
  have total := takenLength_perm rest
  simp only [finalState]
  rw [laid''.used]
  omega

theorem makeTable_returned_iff (laid : Tiles db.allocator tiles) {memory : Memory} {tdef : TableDef}
    {secondary_index : Option (List Nat)} {secondary_index_type : IndexType} {after : RemDbState σ}
    (failed : (makeTable memory tdef secondary_index secondary_index_type).run db = .error (.error .outOfMemory) after) :
    usedBytes after.allocator = usedBytes db.allocator ↔ NoRoom db.allocator tiles tdef.dataSize := by
  by_cases empty : tdef.max_records = 0
  · rw [makeTable,if_pos empty] at failed
    cases failed
  rcases makeTable_tiles laid memory tdef secondary_index secondary_index_type empty with
    ⟨tight,ran⟩ | ⟨room,⟨middle,tiles',ran,laid',grown⟩ | ⟨_,_,_,_,_,_,ran,_⟩⟩
  · rw [ran] at failed
    cases failed
    exact ⟨fun _ => tight,fun _ => rfl⟩
  · rw [ran] at failed
    cases failed
    rw [laid'.used,laid.used]
    exact ⟨fun same => absurd same (by omega),fun tight => absurd tight room⟩
  · rw [ran] at failed
    cases failed

theorem createTable_returned_iff (laid : Tiles db.allocator tiles) {statement : CreateTable} {scheme : UInt8}
    {left : Leftover} {after : RemDbState σ}
    (failed : (createTable statement scheme left).run db = .error (.error .outOfMemory) after) :
    usedBytes after.allocator = usedBytes db.allocator ↔
      NoRoom db.allocator tiles (statement.planned db scheme).dataSize := by
  by_cases starts : statement.Starts db
  · rw [createTable_starts starts] at failed
    cases outcome : (makeTable left.memory (statement.planned db scheme) none .sortedArray).run db with
    | error fault middle =>
      rw [outcome] at failed
      cases failed
      exact makeTable_returned_iff laid outcome
    | ok entry middle =>
      -- the table is in its place, and the index did not get its memory
      have full : (statement.planned db scheme).max_records ≠ 0 := by
        intro empty
        rw [makeTable,if_pos empty] at outcome
        cases outcome
      rcases makeTable_tiles laid left.memory (statement.planned db scheme) none .sortedArray full with
        ⟨_,ran⟩ | ⟨room,⟨_,_,ran,_⟩ | ⟨entry',granted,tiles',data,status,free,ran,laid',order,positive,_⟩⟩
      · cases outcome.symm.trans ran
      · cases outcome.symm.trans ran
      cases outcome.symm.trans ran
      rw [ran] at failed
      dsimp only at failed
      have total := (order.map (·.length)).sum_eq
      simp only [List.map_cons,List.sum_cons] at total
      have grown : takenLength tiles < takenLength tiles' := by
        unfold takenLength
        omega
      rcases allocFrom_tiles laid' (statement.planned db scheme).indexSize with
        ⟨_,refused⟩ | ⟨_,index,_,_,supplied,_⟩
      · rw [alloc_refused refused] at failed
        cases failed
        rw [laid'.used,laid.used]
        exact ⟨fun same => absurd same (by omega),fun tight => absurd tight room⟩
      · rw [alloc_ok supplied] at failed
        cases failed
  · rcases createTable_other starts scheme left with ran | ⟨_,ran⟩
    · cases ran.symm.trans failed
    · cases ran.symm.trans failed

end Returned

-- A table that was created and dropped leaves the memory of its index taken. A
-- call that fails for want of memory leaves none taken exactly when there was
-- no room for the records, the first thing it asks for.
theorem memory_returned_iff {db : RemDbState σ} {tiles : List Tile} (laid : Tiles db.allocator tiles)
    (statement : CreateTable) (scheme : UInt8) (left : Leftover) (nodes : σ → List Nat) :
    (∀ after, db.isNamed statement.name = false → (createTable statement scheme left).run db = .ok () after →
      ∀ if_exists, usedBytes (finalState ((dropTable nodes statement.name if_exists).run after)).allocator ≠
        usedBytes db.allocator) ∧
    (∀ after, (createTable statement scheme left).run db = .error (.error .outOfMemory) after →
      (usedBytes after.allocator = usedBytes db.allocator ↔
        NoRoom db.allocator tiles (statement.planned db scheme).dataSize)) ∧
    ∀ memory tdef secondary_index secondary_index_type after,
      (makeTable memory tdef secondary_index secondary_index_type).run db = .error (.error .outOfMemory) after →
      (usedBytes after.allocator = usedBytes db.allocator ↔ NoRoom db.allocator tiles tdef.dataSize) := by
  refine ⟨?_,fun _ failed => createTable_returned_iff laid failed,fun _ _ _ _ _ failed => makeTable_returned_iff laid failed⟩
  intro after fresh done if_exists
  have starts : statement.Starts db := by
    by_contra other
    rcases createTable_other other scheme left with ran | ⟨named,_⟩
    · cases ran.symm.trans done
    · rw [fresh] at named
      cases named
  have leaked := created_dropped_tiles laid starts done nodes if_exists
  rw [laid.used]
  omega

theorem emptyDb_tiles : Tiles (emptyDb 100).allocator [⟨8,100,true⟩] := by
  have region : Region 8 100 := by decide
  exact .pool (new_tiled region rfl) (List.isChain_singleton _)

-- One record of 80 bytes does not fit in a pool of 100: the call takes nothing.
theorem no_room_for_records : ∃ after : RemDbState Unit,
    (makeTable zeroed.memory ⟨0,"t",[],[],80,1⟩ none .sortedArray).run (emptyDb 100) =
      .error (.error .outOfMemory) after ∧ usedBytes after.allocator = usedBytes (emptyDb 100).allocator := by
  have tight : NoRoom (emptyDb 100).allocator [⟨8,100,true⟩] (TableDef.dataSize ⟨0,"t",[],[],80,1⟩) := by
    intro pool here
    cases here
    decide +kernel
  rcases makeTable_tiles emptyDb_tiles zeroed.memory ⟨0,"t",[],[],80,1⟩ none .sortedArray (by decide) with
    ⟨_,ran⟩ | ⟨room,_⟩
  · refine ⟨_,ran,?_⟩
    exact ((memory_returned_iff emptyDb_tiles byteTable 0 zeroed (fun _ => [])).2.2 _ _ _ _ _ ran).mpr tight
  · exact absurd tight room

-- A table created and dropped in a fresh pool: the index keeps its block.
theorem index_memory_leaks : ∃ after dropped, (emptyDb 1000).isNamed byteTable.name = false ∧
    (createTable byteTable 0 zeroed).run (emptyDb 1000) = .ok () after ∧
    (dropTable (fun _ => []) byteTable.name false).run after = .ok () dropped ∧
    usedBytes dropped.allocator ≠ usedBytes (emptyDb 1000).allocator :=
  ⟨_,_,rfl,ok_of_returned (by decide +kernel),ok_of_returned (by decide +kernel),by decide +kernel⟩

end RemDb
