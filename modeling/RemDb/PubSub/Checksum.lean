import RemDb.Lib.Crc
import RemDb.PubSub.Frames

namespace RemDb
open RemDb.Lib

def crcPolynomial : BitVec 32 := 0x04C11DB7#32
def crcInitial : BitVec 32 := 0xFFFFFFFF#32

-- The bits of a payload in the order in which the division takes them: each byte
-- from its highest bit on.
def byteBits (byte : UInt8) : List Bool := (List.range 8).map fun place => byte.toBitVec.getMsbD place
def payloadBits (data : Bytes) : List Bool := data.flatMap byteBits

-- The division of the whole payload, one bit after the other.
def bitSerialCrc (data : Bytes) : BitVec 32 := Crc.divide crcPolynomial crcInitial (payloadBits data) ^^^ crcInitial

theorem crcPolynomial_odd : crcPolynomial.getLsbD 0 = true := by decide

theorem byteBits_length (byte : UInt8) : (byteBits byte).length = 8 := by
  rw [byteBits,List.length_map,List.length_range]

section Entry

def entryStep (crc : UInt32) : UInt32 := if crc &&& 0x80000000 ≠ 0 then (crc <<< 1) ^^^ 0x04C11DB7 else crc <<< 1

theorem highest_bit (crc : UInt32) : crc &&& 0x80000000 ≠ 0 ↔ crc.toBitVec.msb = true := by
  have bits : (crc &&& 0x80000000).toBitVec = crc.toBitVec &&& BitVec.twoPow 32 31 := rfl
  rw [BitVec.and_twoPow,← BitVec.msb_eq_getLsbD_last] at bits
  have back : crc &&& 0x80000000 = 0 ↔ (crc &&& 0x80000000).toBitVec = 0#32 := UInt32.toBitVec_inj.symm
  rw [ne_eq,back,bits]
  cases crc.toBitVec.msb <;> decide

theorem entryStep_bits (crc : UInt32) : (entryStep crc).toBitVec = Crc.step crcPolynomial crc.toBitVec false := by
  unfold entryStep Crc.step
  rw [Bool.xor_false]
  by_cases high : crc.toBitVec.msb = true
  · rw [if_pos ((highest_bit crc).mpr high),if_pos high]
    rfl
  · rw [if_neg (mt (highest_bit crc).mp high),if_neg high,BitVec.xor_zero]
    rfl

theorem entrySteps_bits (rounds : List Nat) (crc : UInt32) :
    (rounds.foldl (fun crc _ => entryStep crc) crc).toBitVec =
      Crc.divide crcPolynomial crc.toBitVec (List.replicate rounds.length false) := by
  induction rounds generalizing crc with
  | nil => rfl
  | cons round rest ih =>
    rw [List.foldl_cons,ih,entryStep_bits]
    rfl

theorem crc32Entry_bits (index : UInt8) :
    (crc32Entry index).toBitVec = Crc.divide crcPolynomial (index.toUInt32 <<< 24).toBitVec (List.replicate 8 false) :=
  entrySteps_bits (List.range 8) (index.toUInt32 <<< 24)

end Entry

section Bytewise

theorem byteBits_word (byte : UInt8) : Crc.word (byteBits byte) = byte.toBitVec.setWidth 32 <<< 24 := by
  apply BitVec.eq_of_getMsbD_eq
  intro place inside
  rw [Crc.word_bit _ _ inside,BitVec.getMsbD_shiftLeft]
  by_cases within : place < 8
  · have back : place+24-(32-8) = place := by omega
    rw [List.getD_eq_getElem _ _ (by rw [byteBits_length]; exact within)]
    simp [byteBits,BitVec.getMsbD_setWidth]
  · rw [List.getD_eq_default _ _ (by rw [byteBits_length]; omega),BitVec.getMsbD_of_ge _ _ (by omega)]

theorem tableIndex_bits (crc : UInt32) (byte : UInt8) :
    ((((crc >>> 24) ^^^ byte.toUInt32).toUInt8).toUInt32 <<< 24).toBitVec =
      ((crc.toBitVec ^^^ (byte.toBitVec.setWidth 32 <<< 24)) >>> 24) <<< 24 := by
  have parts : ((((crc >>> 24) ^^^ byte.toUInt32).toUInt8).toUInt32 <<< 24).toBitVec =
      (((crc.toBitVec >>> 24) ^^^ byte.toBitVec.setWidth 32).setWidth 8).setWidth 32 <<< 24 := rfl
  rw [parts]
  apply BitVec.eq_of_getLsbD_eq
  intro place inside
  simp only [BitVec.getLsbD_shiftLeft,BitVec.getLsbD_setWidth,BitVec.getLsbD_xor,BitVec.getLsbD_ushiftRight]
  by_cases low : place < 24
  · simp [low]
  · have octet : place-24 < 8 := by omega
    have narrow : place-24 < 32 := by omega
    have whole : 24+(place-24) = place := by omega
    simp [low,inside,octet,narrow,whole]

theorem tableStep_bits (crc : UInt32) (byte : UInt8) :
    ((crc <<< 8) ^^^ crc32Entry ((crc >>> 24) ^^^ byte.toUInt32).toUInt8).toBitVec =
      Crc.divide crcPolynomial crc.toBitVec (byteBits byte) := by
  have gone : (byte.toBitVec.setWidth 32 <<< 24) <<< 8 = 0#32 := by
    rw [← BitVec.shiftLeft_add]
    exact BitVec.shiftLeft_eq_zero (Nat.le_refl _)
  rw [Crc.divide_chunk crcPolynomial_odd _ _ (by rw [byteBits_length]; decide),byteBits_length,byteBits_word,
    Crc.divide_table _ 8 (by decide),BitVec.shiftLeft_xor_distrib,gone,BitVec.xor_zero,← tableIndex_bits,← crc32Entry_bits]
  rfl

theorem tableSteps_bits (data : Bytes) (crc : UInt32) :
    (data.foldl (fun (crc : UInt32) (byte : UInt8) => (crc <<< 8) ^^^ crc32Entry ((crc >>> 24) ^^^ byte.toUInt32).toUInt8) crc).toBitVec =
      Crc.divide crcPolynomial crc.toBitVec (payloadBits data) := by
  induction data generalizing crc with
  | nil => rfl
  | cons byte rest ih =>
    rw [List.foldl_cons,ih,tableStep_bits,payloadBits,payloadBits,List.flatMap_cons,Crc.divide_append]

theorem calculateCrc32_bits (data : Bytes) : (calculateCrc32 data).toBitVec = bitSerialCrc data := by
  have steps := tableSteps_bits data 0xFFFFFFFF
  change (_ : BitVec 32) ^^^ _ = _ ^^^ _
  rw [steps]
  rfl

theorem byteBits_inj {left right : UInt8} (same : byteBits left = byteBits right) : left = right := by
  apply UInt8.toBitVec_inj.mp
  apply BitVec.eq_of_getMsbD_eq
  intro place inside
  have at_place := congrArg (·[place]?) same
  simpa [byteBits,inside] using at_place

theorem payloadBits_length (data : Bytes) : (payloadBits data).length = 8*data.length := by
  induction data with
  | nil => rfl
  | cons byte rest ih =>
    rw [payloadBits] at ih
    rw [payloadBits,List.flatMap_cons,List.length_append,byteBits_length,ih,List.length_cons]
    omega

theorem payloadBits_inj {left right : Bytes} (same : payloadBits left = payloadBits right) : left = right := by
  induction left generalizing right with
  | nil =>
    have none_right := congrArg List.length same
    rw [payloadBits_length,payloadBits_length,List.length_nil] at none_right
    exact (List.length_eq_zero_iff.mp (by omega)).symm
  | cons byte rest ih =>
    cases right with
    | nil =>
      have none_left := congrArg List.length same
      rw [payloadBits_length,payloadBits_length,List.length_nil,List.length_cons] at none_left
      omega
    | cons other more =>
      rw [payloadBits,payloadBits,List.flatMap_cons,List.flatMap_cons] at same
      obtain ⟨first,others⟩ := List.append_inj same (by rw [byteBits_length,byteBits_length])
      rw [byteBits_inj first,ih others]

end Bytewise

-- The checksum by the table is the division bit by bit, and two payloads of one
-- length that differ within 32 bits in a row have different checksums.
theorem crc32_exact :
    (∀ data : Bytes, (calculateCrc32 data).toBitVec = bitSerialCrc data) ∧
    ∀ (left right : Bytes) (start : Nat), left.length = right.length → left ≠ right →
      (∀ place, (payloadBits left)[place]? ≠ (payloadBits right)[place]? → start ≤ place ∧ place < start+32) →
        calculateCrc32 left ≠ calculateCrc32 right := by
  refine ⟨calculateCrc32_bits,?_⟩
  intro left right start same different window equal
  have sums := congrArg UInt32.toBitVec equal
  rw [calculateCrc32_bits,calculateCrc32_bits,bitSerialCrc,bitSerialCrc] at sums
  have remainders : Crc.divide crcPolynomial crcInitial (payloadBits left) =
      Crc.divide crcPolynomial crcInitial (payloadBits right) := (BitVec.xor_left_inj _).mp sums
  have bits := Crc.burst_detected crcPolynomial_odd (by decide) crcInitial
    (by rw [payloadBits_length,payloadBits_length,same]) start window remainders
  exact different (payloadBits_inj bits)

theorem crc32_exact_byte : calculateCrc32 [1,2,3] ≠ calculateCrc32 [1,7,3] := by
  refine crc32_exact.2 [1,2,3] [1,7,3] 0 rfl (by decide) ?_
  intro place apart
  refine ⟨Nat.zero_le _,?_⟩
  by_contra beyond
  have none_of (data : Bytes) (short : data.length = 3) : (payloadBits data)[place]? = none := by
    apply List.getElem?_eq_none
    rw [payloadBits_length,short]
    omega
  exact apart ((none_of [1,2,3] rfl).trans (none_of [1,7,3] rfl).symm)

end RemDb
