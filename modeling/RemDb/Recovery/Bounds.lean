import RemDb.Recovery.Schema

namespace RemDb
open RemDb.Lib RemDb.Wal

namespace SchemaLog

-- Whether a column has a default, and where the next one begins.
def hasDefault (data : Bytes) (offset : Nat) : Bool := data.getD (offset+41) 0 ≠ 0

def columnNext (data : Bytes) (offset : Nat) : Nat :=
  if offset+33 > data.length then offset+1
  else if offset+36 ≥ data.length then offset+33
  else if hasDefault data offset then (decodeDefault data (.ofCode (data.getD (offset+33) 0)) (offset+42)).2
  else offset+42

def columnPlaces (data : Bytes) : Nat → Nat → List Nat
  | 0,_ => []
  | count+1,offset => if offset ≥ data.length then [] else offset :: columnPlaces data count (columnNext data offset)

-- A column has its name within the payload and, where it has a type, the mark
-- of its default as well; or it is cut off within its name.
def ColumnFits (data : Bytes) (offset : Nat) : Prop :=
  offset+33 > data.length ∨
    offset+1+(data.getD offset 0).toNat ≤ data.length ∧ (offset+36 ≥ data.length ∨ offset+41 < data.length)

def keyCount (data : Bytes) : Nat := (data.getD 66 0).toNat
def places (data : Bytes) : List Nat := columnPlaces data (data.getD 65 0).toNat (67+keyCount data)

-- An item the reader passes over before it comes to the columns.
def PassedOver (data : Bytes) : Prop :=
  data = [] ∨ (data.getD 0 0).toNat = 0 ∨ (data.getD 0 0).toNat+1 > data.length ∨ data.length ≤ 66 ∨
    67+keyCount data ≥ data.length

def TableFits (data : Bytes) : Prop := PassedOver data ∨ ∀ place ∈ places data, ColumnFits data place

end SchemaLog

namespace Recovery

def NameFits (data : Bytes) (place : Nat) : Prop := place+1+(data.getD place 0).toNat ≤ data.length

def DatabaseFits (data : Bytes) : Prop := data = [] ∨ NameFits data 0

def IndexFits (data : Bytes) : Prop := data = [] ∨ NameFits data 0 ∧ (data.length ≤ 65 ∨ NameFits data 65)

def AlterationFits (data : Bytes) : Prop :=
  data = [] ∨ NameFits data 0 ∧
    (data.length ≤ 65 ∨ (data.getD 65 0).toNat > 3 ∨ data.length ≤ 67 ∨
      NameFits data 67 ∧ ((data.getD 65 0).toNat = 3 → data.length ≤ 132 ∨ NameFits data 132))

def SchemaFits (item : VariableSizeLogItem) : Prop :=
  match item.header.op_type with
  | .createDatabase => DatabaseFits item.new_data
  | .createTable => SchemaLog.TableFits item.new_data
  | .createIndex => IndexFits item.new_data
  | .alterTable => AlterationFits item.new_data
  | _ => True

section Steps
variable {σ : Type} (around : RecoveryWorld σ)

-- One item as recovery meets it: with the schema it is added to, or with the
-- tables it is replayed on.
inductive Step (σ : Type) where
  | schema (db : RemDbState σ) (item : VariableSizeLogItem)
  | data (db : RemDbState σ) (item : VariableSizeLogItem)

def schemaSteps : List VariableSizeLogItem → RemDbState σ → List (Step σ)
  | [],_ => []
  | item :: rest,db =>
    .schema db item ::
      match applySchema around db item with
      | none => []
      | some after => schemaSteps rest after

def dataSteps : List VariableSizeLogItem → RemDbState σ × Nat → List (Step σ)
  | [],_ => []
  | item :: rest,state =>
    .data state.1 item ::
      match applyData around state item with
      | none => []
      | some after => dataSteps rest after

def steps (found : List VariableSizeLogItem) (db : RemDbState σ) : List (Step σ) :=
  if found = [] ∨ found.any (fun item => isDataOp item.header.op_type) = false then []
  else schemaSteps around found db ++
    match found.foldlM (applySchema around) db with
    | none => []
    | some db => dataSteps around found (db,0)

end Steps

-- The slots of a table whose status or record the replay of an item takes.
def touchedSlots (item : VariableSizeLogItem) : List Nat :=
  if isDataOp item.header.op_type then [item.header.record_id.toNat] else []

theorem redoInsert_elsewhere (table : MemoryTable) {slot other : Nat} (apart : other ≠ slot) (tx : UInt32) (new : Bytes) :
    (table.redoInsert slot tx new).records other = table.records other ∧
      (table.redoInsert slot tx new).status other = table.status other := by
  unfold MemoryTable.redoInsert
  dsimp only
  split
  · obtain ⟨key,only⟩ := MemoryTable.redoMaxPk_only _ _
    rw [only]
    exact ⟨if_neg apart,if_neg apart⟩
  · obtain ⟨key,only⟩ := MemoryTable.redoMaxPk_only _ _
    rw [only]
    exact ⟨if_neg apart,if_neg apart⟩

theorem release_elsewhere (table : MemoryTable) {slot other : Nat} (apart : other ≠ slot) :
    (table.release slot).records other = table.records other ∧ (table.release slot).status other = table.status other := by
  unfold MemoryTable.release MemoryTable.pushFree
  dsimp only
  split
  · exact ⟨if_neg apart,if_neg apart⟩
  · exact ⟨if_neg apart,if_neg apart⟩

-- The replay leaves all other slots as they are.
theorem redo_elsewhere (table : MemoryTable) {item : VariableSizeLogItem} {slot : Nat} (other : slot ∉ touchedSlots item) :
    (table.redo item).records slot = table.records slot ∧ (table.redo item).status slot = table.status slot := by
  have apart (data : isDataOp item.header.op_type = true) : slot ≠ item.header.record_id.toNat := by
    rintro rfl
    apply other
    rw [touchedSlots,if_pos data]
    exact List.mem_cons_self
  unfold MemoryTable.redo
  cases op : item.header.op_type
  case insert => exact redoInsert_elsewhere table (apart (by rw [op]; rfl)) _ _
  case delete =>
    dsimp only
    unfold MemoryTable.redoDelete
    split
    · exact release_elsewhere table (apart (by rw [op]; rfl))
    · exact ⟨rfl,rfl⟩
  case update =>
    have apart := apart (by rw [op]; rfl)
    dsimp only
    unfold MemoryTable.redoUpdate
    split
    · exact ⟨if_neg apart,if_neg apart⟩
    · exact ⟨rfl,rfl⟩
  all_goals exact ⟨rfl,rfl⟩

namespace Step
variable {σ : Type}

def Fits : Step σ → Prop
  | .schema _ item => SchemaFits item
  | .data db item => isDataOp item.header.op_type = true →
      ∀ entry, db.table item.header.table_id.toNat = some entry → item.header.record_id.toNat < entry.tdef.max_records

end Step

section File
variable {σ : Type} (codecs : Codecs) (manager : LogManager) (around : RecoveryWorld σ)

end File

section Example

end Example

end Recovery
end RemDb
