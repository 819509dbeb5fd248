import RemDb.Wal.Manager

namespace RemDb.Wal
open RemDb.Lib

namespace LogManager

-- One payload as the scan reads it. Without compression it takes the announced
-- number of bytes where the writer put the length prefix.
def readPart (codecs : Codecs) (type : WALCompressionType) (file : Bytes) (offset : Nat)
    (size : UInt16) : Option (Bytes × Nat) :=
  if size > 0 then
    if type = .none then
      let data := readAt file offset size.toNat
      if data.length = size.toNat then some (data,offset+size.toNat) else none
    else
      let prefixBytes := readAt file offset 4
      if prefixBytes.length = 4 then
        let packed := readAt file (offset+4) (ofLE prefixBytes)
        if packed.length = ofLE prefixBytes then
          match decompressWalData codecs type packed with
          | .ok data => some (data,offset+(4+ofLE prefixBytes))
          | .error _ => none
        else none
      else none
  else some ([],offset)

def isSystemOp : LogOperation → Bool
  | .createTable | .createIndex | .checkpoint | .commit | .abort | .enterLowPowerMode
  | .exitLowPowerMode | .alterTable => true
  | _ => false

-- The test an item with the right checksum passes before it is taken.
def admissible (header : LogItem) : Bool :=
  let zeroInitialized := header.tx_id = 0 ∧ header.timestamp = 0
  let hasValidData := header.old_data_size > 0 ∨ header.new_data_size > 0
  let validInsert := header.op_type = .insert ∧ hasValidData
  decide (¬zeroInitialized) || decide validInsert || decide hasValidData || isSystemOp header.op_type

-- The item the scan accepts at an offset that has a whole header, if any.
def itemAt (codecs : Codecs) (type : WALCompressionType) (file : Bytes) (offset : Nat) :
    Option VariableSizeLogItem :=
  match LogItem.decode (readAt file offset logItemSize) with
  | none => none
  | some header =>
    match readPart codecs type file (offset+logItemSize) header.old_data_size with
    | none => none
    | some (old,next) =>
      match readPart codecs type file next header.new_data_size with
      | none => none
      | some (new,_) =>
        let item : VariableSizeLogItem := ⟨header,old,new⟩
        if header.checksum = calculateVariableSizeLogItemChecksum item ∧ admissible header = true then
          some item
        else none

-- The scan goes on by the sizes the header announces, not by what it has read.
def advance (item : VariableSizeLogItem) : Nat :=
  logItemSize+item.header.old_data_size.toNat+item.header.new_data_size.toNat

-- The loop of `recover` phase 1, with the offsets at which items were taken.
-- The inner `while` always leaves after one round, so it is one test here.
-- Fuel stands for the loop, which need not end; `none` is fuel running out.
def scanFrom (codecs : Codecs) (manager : LogManager) (file : Bytes) :
    Nat → Nat → UInt32 → Option (List (Nat × VariableSizeLogItem))
  | 0,_,_ => none
  | fuel+1,offset,invalid =>
    if offset < file.length then
      if (readAt file offset logItemSize).length = logItemSize then
        match itemAt codecs (.ofByte manager.header.compression_type) file offset with
        | some item =>
          (manager.scanFrom codecs file fuel (offset+advance item) 0).map ((offset,item) :: ·)
        | none =>
          let skipped := usizeAdd offset manager.skip_block_size
          if invalid+1 = manager.skip_threshold ∧ 0 < manager.max_skip_attempts ∧
              skipped < file.length then
            manager.scanFrom codecs file fuel skipped 0
          else if invalid+1 > manager.max_consecutive_invalid then some []
          else manager.scanFrom codecs file fuel (offset+logItemSize) (invalid+1)
      else some []
    else some []

-- The scan of a whole file ends with these items.
def Scans (codecs : Codecs) (manager : LogManager) (file : Bytes)
    (found : List (Nat × VariableSizeLogItem)) : Prop :=
  ∃ fuel, manager.scanFrom codecs file fuel logRegionStart 0 = some found

theorem scanFrom_more (done : scanFrom codecs manager file fuel offset invalid = some found)
    (extra : Nat) : scanFrom codecs manager file (fuel+extra) offset invalid = some found := by
  induction fuel generalizing offset invalid found with
  | zero => simp [scanFrom] at done
  | succ fuel ih =>
    have order : fuel+1+extra = (fuel+extra)+1 := by omega
    rw [order]
    unfold scanFrom at done ⊢
    split
    · rename_i inside
      rw [if_pos inside] at done
      split
      · rename_i whole
        rw [if_pos whole] at done
        cases taken : itemAt codecs (.ofByte manager.header.compression_type) file offset with
        | some item =>
          simp only [taken,Option.map_eq_some_iff] at done
          obtain ⟨rest,scanned,rfl⟩ := done
          simp [ih scanned]
        | none =>
          simp only [taken] at done
          dsimp only
          split
          · rename_i skip
            rw [if_pos skip] at done
            exact ih done
          · rename_i stay
            rw [if_neg stay] at done
            split
            · rename_i stop
              rw [if_pos stop] at done
              exact done
            · rename_i more
              rw [if_neg more] at done
              exact ih done
      · rename_i short
        rw [if_neg short] at done
        exact done
    · rename_i outside
      rw [if_neg outside] at done
      exact done

theorem scans_unique (one : Scans codecs manager file left) (two : Scans codecs manager file right) :
    left = right := by
  obtain ⟨first,one⟩ := one
  obtain ⟨second,two⟩ := two
  have long := scanFrom_more one second
  have same := scanFrom_more two first
  rw [Nat.add_comm,long] at same
  exact Option.some.inj same

theorem scanFrom_taken (inside : offset < file.length)
    (whole : (readAt file offset logItemSize).length = logItemSize)
    (taken : itemAt codecs (.ofByte manager.header.compression_type) file offset = some item) :
    scanFrom codecs manager file (fuel+1) offset invalid =
      (scanFrom codecs manager file fuel (offset+advance item) 0).map ((offset,item) :: ·) := by
  rw [scanFrom,if_pos inside,if_pos whole,taken]

theorem scanFrom_short (short : file.length < offset+logItemSize) :
    scanFrom codecs manager file (fuel+1) offset invalid = some [] := by
  have cut : (readAt file offset logItemSize).length ≠ logItemSize := by
    rw [readAt_length]
    simp only [logItemSize] at *
    omega
  simp [scanFrom,cut]

end LogManager
end RemDb.Wal
