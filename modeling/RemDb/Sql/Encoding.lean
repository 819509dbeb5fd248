import RemDb.Sql.Expression

namespace RemDb

theorem utf8_append (first second : String) : utf8 (first ++ second) = utf8 first ++ utf8 second := by
  simp [utf8]

theorem utf8_cons (letter : Char) (text : List Char) :
    utf8 (String.ofList (letter :: text)) = String.utf8EncodeChar letter ++ utf8 (String.ofList text) := by
  rw [String.ofList_cons,utf8_append]
  congr 1
  change (String.singleton letter).toByteArray.data.toList = _
  rw [String.toByteArray_singleton,List.utf8Encode_singleton,List.data_toByteArray]

theorem encoded_ascii {letter : Char} (small : letter.toNat < 128) :
    String.utf8EncodeChar letter = [UInt8.ofNat letter.toNat] := by
  have size : letter.utf8Size = 1 := Char.utf8Size_eq_one_iff.mpr (by
    rw [UInt32.le_iff_toNat_le]
    change letter.toNat ≤ 127
    omega)
  rw [String.utf8EncodeChar_eq_singleton size]
  rfl

theorem encoded_high {letter : Char} (high : 128 ≤ letter.toNat) :
    2 ≤ (String.utf8EncodeChar letter).length ∧ ∀ byte ∈ String.utf8EncodeChar letter, 128 ≤ byte.toNat := by
  have marked {bits mark : UInt8} (top : 128 ≤ mark.toNat) : 128 ≤ (bits ||| mark).toNat :=
    Nat.le_trans top (UInt8.le_iff_toNat_le.mp UInt8.right_le_or)
  have sized := Char.utf8Size_le_four letter
  have positive := Char.utf8Size_pos letter
  have wide : letter.utf8Size ≠ 1 := by
    intro one
    have small := UInt32.le_iff_toNat_le.mp (Char.utf8Size_eq_one_iff.mp one)
    change letter.toNat ≤ 127 at small
    omega
  rw [String.length_utf8EncodeChar]
  refine ⟨by omega,?_⟩
  obtain two | three | four : letter.utf8Size = 2 ∨ letter.utf8Size = 3 ∨ letter.utf8Size = 4 := by omega
  · rw [String.utf8EncodeChar_eq_cons_cons two]
    intro byte member
    rcases List.mem_cons.mp member with rfl | member
    · exact marked (by decide)
    · rw [List.mem_singleton.mp member]
      exact marked (by decide)
  · rw [String.utf8EncodeChar_eq_cons_cons_cons three]
    intro byte member
    rcases List.mem_cons.mp member with rfl | member
    · exact marked (by decide)
    · rcases List.mem_cons.mp member with rfl | member
      · exact marked (by decide)
      · rw [List.mem_singleton.mp member]
        exact marked (by decide)
  · rw [String.utf8EncodeChar_eq_cons_cons_cons_cons four]
    intro byte member
    rcases List.mem_cons.mp member with rfl | member
    · exact marked (by decide)
    · rcases List.mem_cons.mp member with rfl | member
      · exact marked (by decide)
      · rcases List.mem_cons.mp member with rfl | member
        · exact marked (by decide)
        · rw [List.mem_singleton.mp member]
          exact marked (by decide)

theorem length_le_utf8 (text : String) : text.toList.length ≤ (utf8 text).length := by
  have whole : ∀ letters : List Char, letters.length ≤ (utf8 (String.ofList letters)).length := by
    intro letters
    induction letters with
    | nil => exact Nat.le_refl _
    | cons letter rest ih =>
      have positive := Char.utf8Size_pos letter
      rw [utf8_cons,List.length_append,String.length_utf8EncodeChar,List.length_cons]
      omega
  have letters := whole text.toList
  rwa [String.ofList_toList] at letters

theorem utf8_replicate {letter : Char} (small : letter.toNat < 128) (count : Nat) :
    utf8 (String.ofList (List.replicate count letter)) = List.replicate count (UInt8.ofNat letter.toNat) := by
  induction count with
  | zero => rfl
  | succ count ih => rw [List.replicate_succ,utf8_cons,encoded_ascii small,ih,List.replicate_succ,List.singleton_append]

end RemDb
