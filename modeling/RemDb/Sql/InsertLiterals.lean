import RemDb.Sql.AlterMeaning
import RemDb.Sql.InsertText

namespace RemDb
open RemDb.Lib

namespace SqlParser

section Encoding

def solidByte (byte : UInt8) : Bool := byte != 39 && byte != 34
def solidLetter (letter : Char) : Bool := letter != apostrophe && letter != quotation

theorem ofNat_byte_inj (one other : UInt8) : Char.ofNat one.toNat = Char.ofNat other.toNat ↔ one = other := by
  have valid (byte : UInt8) : (Char.ofNat byte.toNat).toNat = byte.toNat := by
    rw [Char.ofNat,dif_pos (Or.inl (Nat.lt_trans byte.toNat_lt (by decide)))]
    rfl
  constructor
  · intro same
    have equal := congrArg Char.toNat same
    rw [valid,valid] at equal
    exact UInt8.toNat_inj.mp equal
  · exact fun same => by rw [same]

theorem toList_latin (bytes : Bytes) : (latin bytes).toList = bytes.map fun byte => Char.ofNat byte.toNat :=
  String.toList_ofList

theorem count_latin (bytes : Bytes) : (latin bytes).toList.count apostrophe = bytes.count 39 := by
  rw [toList_latin,List.count_eq_countP,List.countP_map,List.count_eq_countP]
  refine List.countP_congr fun byte _ => ?_
  have same : Char.ofNat byte.toNat = apostrophe ↔ byte = 39 := ofNat_byte_inj _ 39
  simp only [Function.comp_apply,beq_iff_eq,same]

theorem solid_latin (bytes : Bytes) : (latin bytes).toList.countP solidLetter = bytes.countP solidByte := by
  rw [toList_latin,List.countP_map]
  refine List.countP_congr fun byte _ => ?_
  have single : Char.ofNat byte.toNat = apostrophe ↔ byte = 39 := ofNat_byte_inj _ 39
  have double : Char.ofNat byte.toNat = quotation ↔ byte = 34 := ofNat_byte_inj _ 34
  simp only [Function.comp_apply,solidLetter,solidByte,Bool.and_eq_true,bne_iff_ne,ne_eq,single,double]

theorem latin_of_ascii {text : String} (ascii : ∀ letter ∈ text.toList, letter.toNat < 128) : latin (utf8 text) = text := by
  have whole : ∀ letters : List Char, (∀ letter ∈ letters, letter.toNat < 128) →
      latin (utf8 (String.ofList letters)) = String.ofList letters := by
    intro letters
    induction letters with
    | nil => exact fun _ => rfl
    | cons letter rest ih =>
      intro small
      have first := small letter List.mem_cons_self
      rw [utf8_cons,encoded_ascii first,List.singleton_append]
      have split : latin (UInt8.ofNat letter.toNat :: utf8 (String.ofList rest)) =
          String.singleton (Char.ofNat (UInt8.ofNat letter.toNat).toNat) ++ latin (utf8 (String.ofList rest)) := String.ofList_cons
      rw [split,ih fun each member => small each (List.mem_cons_of_mem _ member),String.ofList_cons,
        UInt8.toNat_ofNat_of_lt' (by unfold UInt8.size; omega),Char.ofNat_toNat]
  have named := whole text.toList ascii
  rwa [String.ofList_toList] at named

-- The encoding has no more apostrophes, and more letters beside the quotation
-- marks wherever a letter takes several bytes.
theorem encoded_counts (letters : List Char) :
    (utf8 (String.ofList letters)).count 39 = letters.count apostrophe ∧
    letters.countP solidLetter ≤ (utf8 (String.ofList letters)).countP solidByte ∧
    ((utf8 (String.ofList letters)).countP solidByte ≤ letters.countP solidLetter → ∀ letter ∈ letters, letter.toNat < 128) := by
  induction letters with
  | nil => exact ⟨rfl,Nat.le_refl _,fun _ => nofun⟩
  | cons letter rest ih =>
    obtain ⟨marks,more,ascii⟩ := ih
    rw [utf8_cons,List.count_append,List.countP_append,List.count_cons,List.countP_cons]
    by_cases small : letter.toNat < 128
    · have code : letter = Char.ofNat (UInt8.ofNat letter.toNat).toNat := by
        rw [UInt8.toNat_ofNat_of_lt' (by unfold UInt8.size; omega),Char.ofNat_toNat]
      have mark : letter = apostrophe ↔ UInt8.ofNat letter.toNat = 39 := by
        conv_lhs => rw [code]
        exact ofNat_byte_inj _ 39
      have double : letter = quotation ↔ UInt8.ofNat letter.toNat = 34 := by
        conv_lhs => rw [code]
        exact ofNat_byte_inj _ 34
      have alike : solidByte (UInt8.ofNat letter.toNat) = solidLetter letter := by
        rw [Bool.eq_iff_iff]
        simp only [solidLetter,solidByte,Bool.and_eq_true,bne_iff_ne,ne_eq,mark,double]
      rw [encoded_ascii small,List.count_singleton,List.countP_singleton,alike,marks]
      refine ⟨?_,by omega,?_⟩
      · simp only [beq_iff_eq,mark]
        omega
      · intro few each member
        rcases List.mem_cons.mp member with rfl | member
        · exact small
        · exact ascii (by omega) each member
    · have high : 128 ≤ letter.toNat := Nat.not_lt.mp small
      obtain ⟨long,bytes⟩ := encoded_high high
      have other : (letter == apostrophe) = false := beq_false_of_ne fun same => small (by rw [same]; decide)
      have none_marked : (String.utf8EncodeChar letter).count 39 = 0 :=
        List.count_eq_zero.mpr fun member => absurd (bytes 39 member) (by decide)
      have all_solid : (String.utf8EncodeChar letter).countP solidByte = (String.utf8EncodeChar letter).length := by
        refine List.countP_eq_length.mpr fun byte member => ?_
        have top := bytes byte member
        rw [solidByte,Bool.and_eq_true,bne_iff_ne,bne_iff_ne]
        exact ⟨fun same => absurd (same ▸ top) (by decide),fun same => absurd (same ▸ top) (by decide)⟩
      have solid : solidLetter letter = true := by
        rw [solidLetter,Bool.and_eq_true,bne_iff_ne,bne_iff_ne]
        exact ⟨fun same => small (by rw [same]; decide),fun same => small (by rw [same]; decide)⟩
      rw [none_marked,all_solid,other,solid,marks]
      simp only [Bool.false_eq_true,if_false,if_true]
      exact ⟨by omega,by omega,fun few => absurd few (by omega)⟩

end Encoding

section Quotes

-- What is read between apostrophes: the letters that are no quotation marks
-- stay, and a closed text has read one apostrophe more than two for each.
theorem quoted_counts (input : Bytes) :
    (quoted 39 input).2 ≤ input.length ∧
    (quoted 39 input).1.countP solidByte = (input.take (quoted 39 input).2).countP solidByte ∧
    ((input.take (quoted 39 input).2).count 39 = 2*(quoted 39 input).1.count 39+1 ∨ (quoted 39 input).2 = input.length) := by
  fun_induction quoted 39 input with
  | case1 => exact ⟨Nat.le_refl _,rfl,.inr rfl⟩
  | case2 more inner ih =>
    obtain ⟨short,solid,marks⟩ := ih
    refine ⟨?_,?_,?_⟩
    · rw [List.length_cons,List.length_cons]
      exact Nat.add_le_add_right short 2
    · rw [List.take_succ_cons,List.take_succ_cons,List.countP_cons,List.countP_cons,List.countP_cons]
      exact solid
    · rw [List.take_succ_cons,List.take_succ_cons,List.count_cons,List.count_cons,List.count_cons,List.length_cons,List.length_cons]
      rcases marks with closed | ended
      · refine .inl ?_
        change (more.take inner.2).count 39+1+1 = 2*(inner.1.count 39+1)+1
        have same : (more.take inner.2).count 39 = 2*inner.1.count 39+1 := closed
        omega
      · exact .inr (congrArg (·+2) ended)
  | case3 second more other => exact ⟨by rw [List.length_cons]; omega,rfl,.inl rfl⟩
  | case4 => exact ⟨Nat.le_refl _,rfl,.inl rfl⟩
  | case5 first rest other inner ih =>
    obtain ⟨short,solid,marks⟩ := ih
    refine ⟨?_,?_,?_⟩
    · rw [List.length_cons]
      exact Nat.add_le_add_right short 1
    · rw [List.take_succ_cons,List.countP_cons,List.countP_cons]
      exact congrArg (· + _) solid
    · have unmarked : (first == 39) = false := beq_false_of_ne other
      rw [List.take_succ_cons,List.count_cons,List.count_cons,List.length_cons,unmarked]
      rcases marks with closed | ended
      · exact .inl closed
      · exact .inr (congrArg (·+1) ended)

theorem quoted_plain {text : Bytes} (plain : 39 ∉ text) {after : Bytes} (stop : after.head? ≠ some 39) :
    quoted 39 (text ++ 39 :: after) = (text,text.length+1) := by
  induction text with
  | nil =>
    cases after with
    | nil => rfl
    | cons next more =>
      have other : next ≠ 39 := fun same => stop (congrArg some same)
      simp only [List.nil_append,quoted,if_true,if_neg other]
      rfl
  | cons first rest ih =>
    have other : first ≠ 39 := fun same => plain (same ▸ List.mem_cons_self)
    rw [List.cons_append,quoted.eq_def]
    dsimp only
    rw [if_neg other,ih fun member => plain (List.mem_cons_of_mem _ member)]
    rfl

-- A text with an apostrophe is never what is read of it: either the apostrophes
-- are too few, or what stands behind the closing one has been read as well.
theorem quoted_no_mark {text : Bytes} {next : UInt8} {more : Bytes} (solid : solidByte next = true)
    (marks : text.count 39 ≤ (quoted 39 (text ++ 39 :: next :: more)).1.count 39)
    (few : (quoted 39 (text ++ 39 :: next :: more)).1.countP solidByte ≤ text.countP solidByte) : 39 ∉ text := by
  obtain ⟨short,same,closed⟩ := quoted_counts (text ++ 39 :: next :: more)
  have split : text ++ 39 :: next :: more = (text ++ [39]) ++ next :: more := by simp
  rw [same] at few
  by_cases inside : (quoted 39 (text ++ 39 :: next :: more)).2 ≤ text.length+1
  · have prefix_marks : ((text ++ 39 :: next :: more).take (quoted 39 (text ++ 39 :: next :: more)).2).count 39 ≤
        text.count 39+1 := by
      have sub := ((text ++ [39]).take_sublist (quoted 39 (text ++ 39 :: next :: more)).2).count_le 39
      rw [List.count_append] at sub
      rw [congrArg (List.take (quoted 39 (text ++ 39 :: next :: more)).2) split,
        List.take_append_of_le_length (by rw [List.length_append]; exact inside)]
      exact sub
    have one := closed.resolve_right fun whole => by
      rw [List.length_append,List.length_cons,List.length_cons] at whole
      omega
    exact List.count_eq_zero.mp (by omega)
  · have beyond : (text ++ [39] ++ [next]).Sublist
        ((text ++ 39 :: next :: more).take (quoted 39 (text ++ 39 :: next :: more)).2) := by
      have longer : text ++ 39 :: next :: more = (text ++ [39] ++ [next]) ++ more := by simp
      rw [congrArg (List.take (quoted 39 (text ++ 39 :: next :: more)).2) longer,List.take_append]
      refine List.Sublist.trans ?_ (List.sublist_append_left _ _)
      rw [List.take_of_length_le (by rw [List.length_append,List.length_append]; change text.length+1+1 ≤ _; omega)]
    have more_solid := beyond.countP_le (p:=solidByte)
    rw [List.countP_append,List.countP_append,List.countP_singleton,List.countP_singleton,solid] at more_solid
    simp only [if_true] at more_solid
    omega

end Quotes

section Texts

def jsonHint : List Char := "__JSON__:".toList
def unquoted (text : List Char) : List Char := trimEnd apostrophe (trimStart apostrophe (trimEnd quotation (trimStart quotation text)))
def jsonLike (text : List Char) : Bool := text.head? = some (Char.ofNat 123) ∨ text.head? = some (Char.ofNat 91)

theorem stringValue_eq (text : List Char) : stringValue text =
    if jsonHint.isPrefixOf text then .ok (.json (String.ofList (trimPrefix jsonHint text.length text)))
    else if jsonLike (unquoted text) then .ok (.json (String.ofList (unquoted text)))
    else (TimeString.parse text).map fun
      | some timestamp => .integer timestamp
      | none => .string (String.ofList text) := by
  unfold stringValue
  by_cases hinted : jsonHint.isPrefixOf text = true
  · rw [if_pos hinted]
    exact if_pos hinted
  · rw [if_neg hinted]
    refine (if_neg hinted).trans ?_
    by_cases like : jsonLike (unquoted text) = true
    · rw [if_pos like]
      exact if_pos (of_decide_eq_true like)
    · rw [if_neg like]
      refine (if_neg fun holds => like (decide_eq_true holds)).trans ?_
      cases TimeString.parse text with
      | error fault => rfl
      | ok timestamp => cases timestamp <;> rfl

theorem trimStart_counts (mark : Char) (marked : solidLetter mark = false) (text : List Char) :
    (trimStart mark text).countP solidLetter = text.countP solidLetter ∧
      (trimStart mark text).count apostrophe ≤ text.count apostrophe := by
  refine ⟨?_,(List.dropWhile_sublist _).count_le _⟩
  induction text with
  | nil => rfl
  | cons first rest ih =>
    rw [trimStart,List.dropWhile_cons]
    by_cases same : first = mark
    · subst same
      rw [if_pos (decide_eq_true rfl),List.countP_cons,marked]
      exact ih
    · rw [if_neg (by simp [same])]

theorem trimEnd_counts (mark : Char) (marked : solidLetter mark = false) (text : List Char) :
    (trimEnd mark text).countP solidLetter = text.countP solidLetter ∧
      (trimEnd mark text).count apostrophe ≤ text.count apostrophe := by
  obtain ⟨solid,marks⟩ := trimStart_counts mark marked text.reverse
  rw [trimEnd,List.countP_reverse,List.count_reverse,solid,List.countP_reverse]
  rw [List.count_reverse] at marks
  exact ⟨rfl,marks⟩

theorem unquoted_counts (text : List Char) :
    (unquoted text).countP solidLetter = text.countP solidLetter ∧ (unquoted text).count apostrophe ≤ text.count apostrophe := by
  obtain ⟨one,low⟩ := trimStart_counts quotation (by decide) text
  obtain ⟨two,lower⟩ := trimEnd_counts quotation (by decide) (trimStart quotation text)
  obtain ⟨three,lowest⟩ := trimStart_counts apostrophe (by decide) (trimEnd quotation (trimStart quotation text))
  obtain ⟨four,last⟩ := trimEnd_counts apostrophe (by decide) (trimStart apostrophe (trimEnd quotation (trimStart quotation text)))
  exact ⟨four.trans (three.trans (two.trans one)),by unfold unquoted; omega⟩

theorem trimPrefix_ends (front : List Char) (filled : front ≠ []) :
    ∀ (fuel : Nat) (text : List Char), text.length ≤ fuel → front.isPrefixOf (trimPrefix front fuel text) = false := by
  intro fuel
  induction fuel with
  | zero =>
    intro text short
    rw [List.length_eq_zero_iff.mp (Nat.le_zero.mp short)]
    cases front with
    | nil => exact absurd rfl filled
    | cons => rfl
  | succ fuel ih =>
    intro text short
    rw [trimPrefix]
    by_cases starts : front.isPrefixOf text = true
    · rw [if_pos starts]
      have positive := List.length_pos_iff.mpr filled
      exact ih _ (by rw [List.length_drop]; omega)
    · rw [if_neg starts]
      exact Bool.eq_false_iff.mpr starts

theorem quoted_begins {front : Bytes} (plain : 39 ∉ front) {input : Bytes} (begins : front <+: (quoted 39 input).1) :
    front <+: input := by
  induction front generalizing input with
  | nil => exact List.nil_prefix
  | cons first rest ih =>
    have other : first ≠ 39 := fun same => plain (same ▸ List.mem_cons_self)
    cases input with
    | nil => exact begins
    | cons head tail =>
      rw [quoted.eq_def] at begins
      dsimp only at begins
      by_cases mark : head = 39
      · rw [if_pos mark] at begins
        cases tail with
        | nil => exact absurd (List.prefix_nil.mp begins) (List.cons_ne_nil _ _)
        | cons second more =>
          dsimp only at begins
          by_cases double : second = 39
          · rw [if_pos double] at begins
            exact absurd (List.cons_prefix_cons.mp begins).1 other
          · rw [if_neg double] at begins
            exact absurd (List.prefix_nil.mp begins) (List.cons_ne_nil _ _)
      · rw [if_neg mark] at begins
        obtain ⟨rfl,tail_begins⟩ := List.cons_prefix_cons.mp begins
        exact List.cons_prefix_cons.mpr ⟨rfl,ih (fun member => plain (List.mem_cons_of_mem _ member)) tail_begins⟩

theorem all_ascii {text : List Char} (bounded : (text.all fun letter => decide (letter.toNat < 128)) = true) :
    ∀ letter ∈ text, letter.toNat < 128 := fun letter member => of_decide_eq_true (List.all_eq_true.mp bounded letter member)

theorem prefix_of_encoded {front : List Char} (ascii : ∀ letter ∈ front, letter.toNat < 128) {letters : List Char}
    (begins : utf8 (String.ofList front) <+: utf8 (String.ofList letters)) : front <+: letters := by
  induction front generalizing letters with
  | nil => exact List.nil_prefix
  | cons first rest ih =>
    have small := ascii first List.mem_cons_self
    rw [utf8_cons,encoded_ascii small,List.singleton_append] at begins
    cases letters with
    | nil => exact absurd (List.prefix_nil.mp begins) (List.cons_ne_nil _ _)
    | cons letter more =>
      rw [utf8_cons] at begins
      by_cases low : letter.toNat < 128
      · rw [encoded_ascii low,List.singleton_append] at begins
        obtain ⟨same,tail_begins⟩ := List.cons_prefix_cons.mp begins
        have equal : first.toNat = letter.toNat := by
          have bytes := congrArg UInt8.toNat same
          rwa [UInt8.toNat_ofNat_of_lt' (by unfold UInt8.size; omega),UInt8.toNat_ofNat_of_lt' (by unfold UInt8.size; omega)]
            at bytes
        obtain rfl : first = letter := by rw [← Char.ofNat_toNat first,equal,Char.ofNat_toNat]
        exact List.cons_prefix_cons.mpr ⟨rfl,ih (fun each member => ascii each (List.mem_cons_of_mem _ member)) tail_begins⟩
      · obtain ⟨long,high⟩ := encoded_high (Nat.not_lt.mp low)
        obtain ⟨byte,others,encoded⟩ := List.exists_cons_of_ne_nil (List.length_pos_iff.mp (by omega : 0 < (String.utf8EncodeChar letter).length))
        rw [encoded,List.cons_append] at begins
        have same := (List.cons_prefix_cons.mp begins).1
        have top := high byte (by rw [encoded]; exact List.mem_cons_self)
        rw [← same,UInt8.toNat_ofNat_of_lt' (by unfold UInt8.size; omega)] at top
        omega

end Texts

end SqlParser

open SqlParser

-- A sign, a digit, and digits and dots to the end.
def Numeral (value : String) : Prop := numberLength (utf8 value) = some (utf8 value).length

-- A literal that denotes a string: the number it is, the truth value it is, or
-- the same text where it does not look like either.
def Denotes (texts : Renderings) (value : String) : SqlValue → Prop
  | .integer number => parseI64 value.toList = some number
  | .float bits => Numeral value ∧ texts.float (utf8 value) = some bits
  | .boolean truth => value = if truth then "true" else "false"
  | .string text => text = value ∧ looksPlain value = false
  | .json text => text = value
  | .null | .identifier _ => False

-- The strings that come through: truth values, numerals that are numbers, and
-- ASCII texts without an apostrophe that are read neither as a hinted document
-- nor as a point in time, nor lose a quotation mark.
def ComesThrough (texts : Renderings) (value : String) : Prop :=
  if value = "true" ∨ value = "false" then True
  else if looksPlain value then
    Numeral value ∧ if 46 ∈ utf8 value then (texts.float (utf8 value)).isSome else (parseI64 value.toList).isSome
  else
    (∀ letter ∈ value.toList, letter.toNat < 128) ∧ apostrophe ∉ value.toList ∧
      jsonHint.isPrefixOf value.toList = false ∧
      if jsonLike (unquoted value.toList) then unquoted value.toList = value.toList
      else TimeString.parse value.toList = .ok (parseI64 value.toList)

namespace SqlParser

section Quoted
variable {texts : Renderings} {value : String} {literal : SqlValue} {next : UInt8} {more : Bytes}

theorem hinted_text (hinted : jsonHint.isPrefixOf (latin (quoted 39 (utf8 value ++ 39 :: more)).1).toList = true) :
    jsonHint.isPrefixOf value.toList = true := by
  let text := (quoted 39 (utf8 value ++ 39 :: more)).1
  have back : (latin text).toList.map (fun letter => UInt8.ofNat letter.toNat) = text := by
    rw [toList_latin,List.map_map]
    refine List.map_id'' (fun byte => ?_) _
    change UInt8.ofNat (Char.ofNat byte.toNat).toNat = byte
    rw [Char.ofNat,dif_pos (Or.inl (Nat.lt_trans byte.toNat_lt (by decide)))]
    exact UInt8.ofNat_toNat
  have bytes : jsonHint.map (fun letter => UInt8.ofNat letter.toNat) = utf8 (String.ofList jsonHint) := by decide +kernel
  have begins := (List.isPrefixOf_iff_prefix.mp hinted).map fun letter : Char => UInt8.ofNat letter.toNat
  rw [back,bytes] at begins
  have unmarked : 39 ∉ utf8 (String.ofList jsonHint) := by decide +kernel
  have input := quoted_begins unmarked begins
  have whole : utf8 value ++ [39] <+: utf8 value ++ 39 :: more := ⟨more,by rw [List.append_assoc]; rfl⟩
  have inside : utf8 (String.ofList jsonHint) <+: utf8 value := by
    rcases List.prefix_or_prefix_of_prefix input whole with short | long
    · rcases List.prefix_concat_iff.mp short with same | inner
      · rw [same] at unmarked
        exact absurd (by simp) unmarked
      · exact inner
    · exact absurd (long.subset (by simp)) unmarked
  rw [← String.ofList_toList (s := value)] at inside
  exact List.isPrefixOf_iff_prefix.mpr (prefix_of_encoded (all_ascii (by decide +kernel)) inside)

theorem text_read (solid : solidByte next = true)
    (same : value.toList.countP solidLetter =
      (latin (quoted 39 (utf8 value ++ 39 :: next :: more)).1).toList.countP solidLetter)
    (marks : value.toList.count apostrophe ≤
      (latin (quoted 39 (utf8 value ++ 39 :: next :: more)).1).toList.count apostrophe) :
    (∀ letter ∈ value.toList, letter.toNat < 128) ∧ apostrophe ∉ value.toList ∧
      latin (quoted 39 (utf8 value ++ 39 :: next :: more)).1 = value := by
  obtain ⟨encoded,longer,ascii⟩ := encoded_counts value.toList
  rw [String.ofList_toList] at encoded longer ascii
  rw [solid_latin] at same
  rw [count_latin,← encoded] at marks
  have unmarked := quoted_no_mark solid marks (by rw [← same]; exact longer)
  have other : (next :: more).head? ≠ some 39 := by
    intro here
    rw [Option.some.inj here] at solid
    exact absurd solid (by decide)
  rw [quoted_plain unmarked other] at same ⊢
  have small := ascii (Nat.le_of_eq same.symm)
  refine ⟨small,?_,latin_of_ascii small⟩
  rw [← List.count_eq_zero,← encoded,List.count_eq_zero]
  exact unmarked

theorem integer_letters {text : List Char} {number : Int64} (reads : parseI64 text = some number) :
    ∀ letter ∈ text, letter.isDigit = true ∨ letter = '-' ∨ letter = '+' := by
  have digits {rest : List Char} {found : Nat} (read : digitsValue rest = some found) : ∀ letter ∈ rest, letter.isDigit = true := by
    unfold digitsValue at read
    split at read
    · rename_i all
      exact List.all_eq_true.mp all.2
    · cases read
  intro letter member
  unfold parseI64 at reads
  split at reads
  · split at reads
    · rename_i read
      rcases List.mem_cons.mp member with rfl | member
      · exact .inr (.inl rfl)
      · exact .inl (digits read letter member)
    · cases reads
  · split at reads
    · rename_i read
      rcases List.mem_cons.mp member with rfl | member
      · exact .inr (.inr rfl)
      · exact .inl (digits read letter member)
    · cases reads
  · split at reads
    · rename_i read
      exact .inl (digits read letter member)
    · cases reads

theorem parse_of_integer {text : List Char} {number : Int64} (reads : parseI64 text = some number) :
    TimeString.parse text = .ok (some number) := by
  have letters := integer_letters reads
  have no_letter : ∀ letter ∈ text, letter ∉ ['Y','M','D','H','I','S','['] := by
    intro letter member among
    have other : (['Y','M','D','H','I','S','['].all fun letter =>
        decide ¬ (letter.isDigit = true ∨ letter = '-' ∨ letter = '+')) = true := by decide +kernel
    exact of_decide_eq_true (List.all_eq_true.mp other letter among) (letters letter member)
  have open_bracket : ¬ (text.head? = some '[' ∧ text.getLast? = some ']') := by
    intro both
    exact no_letter '[' (List.mem_of_head? both.1) (by decide)
  have format : ¬ (text.any fun letter => letter ∈ ['Y','M','D','H','I','S']) = true := by
    intro found
    obtain ⟨letter,member,among⟩ := List.any_eq_true.mp found
    refine no_letter letter member ?_
    have inside : letter ∈ ['Y','M','D','H','I','S'] := of_decide_eq_true among
    exact List.mem_append_left ['['] inside
  rw [TimeString.parse,if_neg open_bracket,if_neg format,reads]

theorem not_truth (other : looksPlain value = false) : ¬ (value = "true" ∨ value = "false") := by
  rintro (rfl | rfl)
  · cases other
  · cases other

theorem comes_of_denotes (other : looksPlain value = false) (solid : solidByte next = true)
    (read : stringValue (latin (quoted 39 (utf8 value ++ 39 :: next :: more)).1).toList = .ok literal)
    (denotes : Denotes texts value literal) : ComesThrough texts value := by
  have through (ascii : ∀ letter ∈ value.toList, letter.toNat < 128) (unmarked : apostrophe ∉ value.toList)
      (plain : jsonHint.isPrefixOf value.toList = false)
      (rest : if jsonLike (unquoted value.toList) then unquoted value.toList = value.toList
        else TimeString.parse value.toList = .ok (parseI64 value.toList)) : ComesThrough texts value := by
    rw [ComesThrough,if_neg (not_truth other),other]
    exact ⟨ascii,unmarked,plain,rest⟩
  have named {text : List Char} (same : String.ofList text = value) : value.toList = text := by
    rw [← same,String.toList_ofList]
  rw [stringValue_eq] at read
  by_cases hinted : jsonHint.isPrefixOf (latin (quoted 39 (utf8 value ++ 39 :: next :: more)).1).toList = true
  · rw [if_pos hinted] at read
    obtain rfl := Except.ok.inj read
    have ends := trimPrefix_ends jsonHint (by decide) _ _
      (Nat.le_refl (latin (quoted 39 (utf8 value ++ 39 :: next :: more)).1).toList.length)
    rw [← named denotes,hinted_text hinted] at ends
    cases ends
  · rw [if_neg hinted] at read
    by_cases like : jsonLike (unquoted (latin (quoted 39 (utf8 value ++ 39 :: next :: more)).1).toList) = true
    · rw [if_pos like] at read
      obtain rfl := Except.ok.inj read
      obtain ⟨letters,marks⟩ := unquoted_counts (latin (quoted 39 (utf8 value ++ 39 :: next :: more)).1).toList
      have text := named denotes
      rw [← text] at letters marks
      obtain ⟨ascii,unmarked,whole⟩ := text_read solid letters marks
      rw [whole] at hinted like text
      exact through ascii unmarked (Bool.eq_false_iff.mpr hinted) (by rw [if_pos like]; exact text.symm)
    · rw [if_neg like] at read
      cases time : TimeString.parse (latin (quoted 39 (utf8 value ++ 39 :: next :: more)).1).toList with
      | error fault =>
        rw [time] at read
        cases read
      | ok timestamp =>
        rw [time] at read
        have whole : (∀ letter ∈ value.toList, letter.toNat < 128) ∧ apostrophe ∉ value.toList ∧
            latin (quoted 39 (utf8 value ++ 39 :: next :: more)).1 = value := by
          cases timestamp with
          | some number =>
            obtain rfl := Except.ok.inj read
            have letters := integer_letters denotes
            have unmarked : apostrophe ∉ value.toList := by
              intro member
              exact absurd (letters _ member) (by decide)
            have ascii : ∀ letter ∈ value.toList, letter.toNat < 128 := by
              intro letter member
              rcases letters letter member with digit | rfl | rfl
              · have range : letter.val ≤ 57 := by
                  rw [Char.isDigit,Bool.and_eq_true] at digit
                  exact of_decide_eq_true digit.2
                have small := UInt32.le_iff_toNat_le.mp range
                change letter.toNat ≤ 57 at small
                omega
              · decide
              · decide
            obtain ⟨encoded,_,_⟩ := encoded_counts value.toList
            rw [String.ofList_toList,List.count_eq_zero.mpr unmarked] at encoded
            have stop : (next :: more).head? ≠ some 39 := by
              intro here
              rw [Option.some.inj here] at solid
              exact absurd solid (by decide)
            refine ⟨ascii,unmarked,?_⟩
            rw [quoted_plain (List.count_eq_zero.mp encoded) stop]
            exact latin_of_ascii ascii
          | none =>
            obtain rfl := Except.ok.inj read
            have text := named denotes.1
            exact text_read solid (by rw [← text]) (Nat.le_of_eq (by rw [← text]))
        obtain ⟨ascii,unmarked,same⟩ := whole
        rw [same] at hinted like time
        refine through ascii unmarked (Bool.eq_false_iff.mpr hinted) ?_
        rw [if_neg like,time]
        cases timestamp with
        | some number =>
          obtain rfl := Except.ok.inj read
          exact congrArg Except.ok (Eq.symm denotes)
        | none =>
          cases integer : parseI64 value.toList with
          | none => rfl
          | some number =>
            rw [parse_of_integer integer] at time
            cases time

theorem denotes_of_comes (other : looksPlain value = false) (comes : ComesThrough texts value) :
    (∃ literal, stringValue value.toList = .ok literal ∧ Denotes texts value literal) ∧
      (∀ letter ∈ value.toList, letter.toNat < 128) ∧ apostrophe ∉ value.toList := by
  rw [ComesThrough,if_neg (not_truth other),other] at comes
  obtain ⟨ascii,unmarked,plain,rest⟩ := comes
  refine ⟨?_,ascii,unmarked⟩
  rw [stringValue_eq,plain]
  by_cases like : jsonLike (unquoted value.toList) = true
  · rw [if_pos like] at rest
    exact ⟨_,if_pos like,(congrArg String.ofList rest).trans String.ofList_toList⟩
  · rw [if_neg like] at rest
    refine ⟨_,(if_neg like).trans (congrArg _ rest),?_⟩
    cases integer : parseI64 value.toList with
    | some number => exact integer
    | none => exact ⟨String.ofList_toList,other⟩

end Quoted

section Bare
variable {texts : Renderings} {value : String} {literal : SqlValue} {next : UInt8} {more : Bytes}

theorem lower_small {byte : UInt8} (small : byte.toNat < 65) : lower byte = byte := by
  have other : isUpper byte = false := by
    simp only [isUpper,decide_eq_false_iff_not,UInt8.le_iff_toNat_le]
    change ¬ (65 ≤ byte.toNat ∧ byte.toNat ≤ 90)
    omega
  rw [lower,other]
  rfl

theorem parseValue_small {parser : SqlParser} {first : UInt8} {rest : Bytes} (standing : parser.rest = first :: rest)
    (small : first.toNat < 65) (single : first ≠ 39) (double : first ≠ 34) :
    (parseValue texts).run parser =
      if isDigit first || first == 45 then (parseNumberValue texts).run parser else .error (.error .invalidValue) parser := by
  have head : parser.rest.head? = some first := by
    rw [standing]
    rfl
  have other (keyword : String) {letter : UInt8} {letters : Bytes} (starts : utf8 keyword = letter :: letters)
      (word : 65 ≤ (lower letter).toNat) : keywordAt (utf8 keyword) parser.rest = false := by
    rw [standing]
    refine keywordAt_other_letter starts ?_ _
    rw [lower_small small]
    intro same
    rw [same] at small
    omega
  have no_quote : ¬ (some first = some 34 ∨ some first = some 39) := by
    rintro (same | same)
    · exact double (Option.some.inj same)
    · exact single (Option.some.inj same)
  have no_square : some first ≠ some 91 := by
    intro same
    rw [Option.some.inj same] at small
    exact absurd small (by decide)
  have no_curly : some first ≠ some 123 := by
    intro same
    rw [Option.some.inj same] at small
    exact absurd small (by decide)
  have no_name : startsIdentifier first = false := by
    rw [startsIdentifier,isAlphabetic,Bool.or_eq_false_iff,Bool.or_eq_false_iff,beq_eq_false_iff_ne]
    simp only [isUpper,isLower,decide_eq_false_iff_not,UInt8.le_iff_toNat_le]
    change (¬ (65 ≤ first.toNat ∧ first.toNat ≤ 90) ∧ ¬ (97 ≤ first.toNat ∧ first.toNat ≤ 122)) ∧ _
    refine ⟨⟨by omega,by omega⟩,?_⟩
    intro same
    rw [same] at small
    exact absurd small (by decide)
  have peeked : peekChar.run parser = .ok (some first) parser := by
    rw [run_peekChar,head]
  unfold parseValue
  rw [run_bind_of_ok peeked,if_neg no_quote,without_keyword "NULL" (other _ rfl (by decide)),
    without_keyword "TRUE" (other _ rfl (by decide)),without_keyword "FALSE" (other _ rfl (by decide)),
    without_keyword "NOW" (other _ rfl (by decide)),without_keyword "CURRENT_TIMESTAMP" (other _ rfl (by decide)),
    without_keyword "LOCALTIMESTAMP" (other _ rfl (by decide)),without_keyword "TIMEZONE" (other _ rfl (by decide)),
    without_keyword "TO_CHAR" (other _ rfl (by decide)),without_keyword "TO_ISO8601" (other _ rfl (by decide)),
    without_keyword "TO_EPOCH" (other _ rfl (by decide)),if_neg no_square,if_neg no_curly]
  simp only [Option.any_some,no_name]
  by_cases number : (isDigit first || first == 45) = true
  · rw [if_pos number,if_pos number]
  · rw [if_neg number,if_neg number]
    rfl

def numeric (byte : UInt8) : Bool := isDigit byte || byte == 46

theorem takeWhile_stopped {front : Bytes} (stop : numeric next = false) (more : Bytes) :
    (front ++ next :: more).takeWhile numeric = front.takeWhile numeric := by
  rw [List.takeWhile_append,List.takeWhile_cons,stop]
  split
  · rename_i whole
    rw [if_neg (by decide),List.append_nil]
    exact ((List.takeWhile_prefix numeric).eq_of_length whole).symm
  · rfl

theorem numberLength_stopped {front : Bytes} (filled : front ≠ []) (stop : numeric next = false) (more : Bytes) :
    numberLength (front ++ next :: more) = numberLength front := by
  have no_digit : isDigit next = false := (Bool.or_eq_false_iff.mp stop).1
  obtain ⟨first,rest,rfl⟩ := List.exists_cons_of_ne_nil filled
  have inside {part : Bytes} : ((part ++ next :: more).head?.any isDigit) = part.head?.any isDigit := by
    cases part with
    | nil => exact no_digit
    | cons => rfl
  unfold numberLength
  rw [List.cons_append]
  by_cases sign : first = 45
  · subst sign
    change (if (rest ++ next :: more).head?.any isDigit = true then some (1+((rest ++ next :: more).takeWhile numeric).length)
      else none) = if rest.head?.any isDigit = true then some (1+(rest.takeWhile numeric).length) else none
    rw [inside,takeWhile_stopped stop]
  · simp only [List.head?_cons,Option.some.injEq,if_neg sign,List.drop_zero,Nat.zero_add]
    change (if isDigit first = true then some (((first :: rest) ++ next :: more).takeWhile numeric).length else none) =
      if isDigit first = true then some ((first :: rest).takeWhile numeric).length else none
    rw [takeWhile_stopped stop]

theorem parseNumberValue_taken (texts : Renderings) {parser : SqlParser} {length : Nat}
    (whole : numberLength parser.rest = some length) :
    (parseNumberValue texts).run parser =
      if 46 ∈ parser.rest.take length then
        match texts.float (parser.rest.take length) with
        | some bits => .ok (.float bits) (parser.advance length)
        | none => .error (.error .invalidValue) (parser.advance length)
      else
        match parseI64 (latin (parser.rest.take length)).toList with
        | some number => .ok (.integer number) (parser.advance length)
        | none => .error (.error .invalidValue) (parser.advance length) := by
  have text : parseNumberStr.run parser = .ok (parser.rest.take length) (parser.advance length) := by
    unfold parseNumberStr
    rw [EStateM.run_bind,EStateM.run_get]
    simp only [whole]
    rfl
  unfold parseNumberValue
  rw [run_bind_of_ok text]
  by_cases dot : 46 ∈ parser.rest.take length
  · rw [if_pos dot,if_pos dot]
    cases texts.float (parser.rest.take length) <;> rfl
  · rw [if_neg dot,if_neg dot]
    cases parseI64 (latin (parser.rest.take length)).toList <;> rfl

theorem parseNumberValue_eq (texts : Renderings) {parser : SqlParser} {front : Bytes} (standing : parser.rest = front ++ next :: more)
    (filled : front ≠ []) (stop : numeric next = false) {length : Nat} (number : numberLength front = some length)
    (inside : length ≤ front.length) :
    (parseNumberValue texts).run parser =
      if 46 ∈ front.take length then
        match texts.float (front.take length) with
        | some bits => .ok (.float bits) (parser.advance length)
        | none => .error (.error .invalidValue) (parser.advance length)
      else
        match parseI64 (latin (front.take length)).toList with
        | some number => .ok (.integer number) (parser.advance length)
        | none => .error (.error .invalidValue) (parser.advance length) := by
  have whole : numberLength parser.rest = some length := by rw [standing,numberLength_stopped filled stop,number]
  have taken : parser.rest.take length = front.take length := by rw [standing,List.take_append_of_le_length inside]
  rw [parseNumberValue_taken texts whole,taken]

theorem numberLength_inside {front : Bytes} {length : Nat} (number : numberLength front = some length) :
    length ≤ front.length := by
  have short (part : Bytes) : (part.takeWhile numeric).length ≤ part.length := (List.takeWhile_prefix numeric).length_le
  unfold numberLength at number
  cases front with
  | nil => cases number
  | cons first rest =>
    by_cases sign : first = 45
    · subst sign
      change (if rest.head?.any isDigit = true then some (1+(rest.takeWhile numeric).length) else none) = _ at number
      split at number
      · rw [← Option.some.inj number,List.length_cons]
        have bound := short rest
        omega
      · cases number
    · simp only [List.head?_cons,Option.some.injEq,if_neg sign,List.drop_zero,Nat.zero_add] at number
      split at number
      · rw [← Option.some.inj number]
        exact short (first :: rest)
      · cases number

theorem parseNumberValue_none {parser : SqlParser} {front : Bytes} (standing : parser.rest = front ++ next :: more)
    (filled : front ≠ []) (stop : numeric next = false) (number : numberLength front = none) {after : SqlParser} :
    (parseNumberValue texts).run parser ≠ .ok literal after := by
  have whole : numberLength parser.rest = none := by rw [standing,numberLength_stopped filled stop,number]
  intro read
  unfold parseNumberValue at read
  obtain ⟨text,middle,taken,_⟩ := run_bind_ok read
  unfold parseNumberStr at taken
  rw [EStateM.run_bind,EStateM.run_get] at taken
  simp only [whole] at taken
  split at taken
  · obtain ⟨_,_,_,refused⟩ := run_bind_ok taken
    cases refused
  · cases taken

theorem plain_letters (plain : looksPlain value = true) (truth : ¬ (value = "true" ∨ value = "false")) :
    ∀ letter ∈ value.toList, letter.isDigit = true ∨ letter = '.' ∨ letter = '-' := by
  rw [looksPlain,Bool.or_eq_true,Bool.or_eq_true,beq_iff_eq,beq_iff_eq,or_assoc] at plain
  have all := plain.resolve_right truth
  intro letter member
  have kind := List.all_eq_true.mp all letter member
  rw [Bool.or_eq_true,Bool.or_eq_true,beq_iff_eq,beq_iff_eq,or_assoc] at kind
  exact kind

theorem digit_range {letter : Char} (digit : letter.isDigit = true) : 48 ≤ letter.toNat ∧ letter.toNat ≤ 57 := by
  rw [Char.isDigit,Bool.and_eq_true,decide_eq_true_iff,decide_eq_true_iff] at digit
  exact ⟨UInt32.le_iff_toNat_le.mp digit.1,UInt32.le_iff_toNat_le.mp digit.2⟩

theorem utf8_of_ascii {text : String} (ascii : ∀ letter ∈ text.toList, letter.toNat < 128) :
    utf8 text = text.toList.map fun letter => UInt8.ofNat letter.toNat := by
  have back := congrArg String.toList (latin_of_ascii ascii)
  rw [toList_latin] at back
  rw [← back,List.map_map]
  refine (List.map_id'' (fun byte => ?_) _).symm
  change UInt8.ofNat (Char.ofNat byte.toNat).toNat = byte
  rw [Char.ofNat,dif_pos (Or.inl (Nat.lt_trans byte.toNat_lt (by decide)))]
  exact UInt8.ofNat_toNat

theorem digit_byte {letter : Char} (digit : letter.isDigit = true) : isDigit (UInt8.ofNat letter.toNat) = true := by
  have range := digit_range digit
  have same : (UInt8.ofNat letter.toNat).toNat = letter.toNat := UInt8.toNat_ofNat_of_lt' (by unfold UInt8.size; omega)
  simp only [isDigit,decide_eq_true_eq,UInt8.le_iff_toNat_le]
  change 48 ≤ (UInt8.ofNat letter.toNat).toNat ∧ (UInt8.ofNat letter.toNat).toNat ≤ 57
  omega

theorem plain_bytes (plain : looksPlain value = true) (truth : ¬ (value = "true" ∨ value = "false")) :
    (∀ letter ∈ value.toList, letter.toNat < 128) ∧
      ∀ byte ∈ utf8 value, byte.toNat < 65 ∧ byte ≠ 39 ∧ byte ≠ 34 := by
  have letters := plain_letters plain truth
  have ascii : ∀ letter ∈ value.toList, letter.toNat < 128 := by
    intro letter member
    rcases letters letter member with digit | rfl | rfl
    · have range := digit_range digit
      omega
    · decide
    · decide
  refine ⟨ascii,?_⟩
  rw [utf8_of_ascii ascii]
  intro byte member
  obtain ⟨letter,inside,rfl⟩ := List.mem_map.mp member
  rcases letters letter inside with digit | rfl | rfl
  · have range := digit_range digit
    have same : (UInt8.ofNat letter.toNat).toNat = letter.toNat := UInt8.toNat_ofNat_of_lt' (by unfold UInt8.size; omega)
    refine ⟨by omega,?_,?_⟩
    · intro mark
      rw [mark] at same
      change 39 = letter.toNat at same
      omega
    · intro mark
      rw [mark] at same
      change 34 = letter.toNat at same
      omega
  · decide
  · decide

theorem integer_numeral (plain : looksPlain value = true) (truth : ¬ (value = "true" ∨ value = "false")) {number : Int64}
    (reads : parseI64 value.toList = some number) : Numeral value ∧ 46 ∉ utf8 value := by
  obtain ⟨ascii,_⟩ := plain_bytes plain truth
  have letters := plain_letters plain truth
  have digits {text : List Char} {found : Nat} (read : digitsValue text = some found) :
      text ≠ [] ∧ ∀ letter ∈ text, letter.isDigit = true := by
    unfold digitsValue at read
    split at read
    · rename_i all
      exact ⟨all.1,List.all_eq_true.mp all.2⟩
    · cases read
  have run {text : List Char} (all : ∀ letter ∈ text, letter.isDigit = true) :
      (text.map fun letter => UInt8.ofNat letter.toNat).takeWhile numeric = text.map fun letter => UInt8.ofNat letter.toNat := by
    refine List.takeWhile_eq_self_iff.mpr fun byte member => ?_
    obtain ⟨letter,inside,rfl⟩ := List.mem_map.mp member
    rw [numeric,digit_byte (all letter inside)]
    rfl
  have no_dot {text : List Char} (all : ∀ letter ∈ text, letter.isDigit = true) :
      46 ∉ text.map fun letter => UInt8.ofNat letter.toNat := by
    intro member
    obtain ⟨letter,inside,same⟩ := List.mem_map.mp member
    have digit := digit_byte (all letter inside)
    rw [same] at digit
    exact absurd digit (by decide)
  have starts {text : List Char} (filled : text ≠ []) (all : ∀ letter ∈ text, letter.isDigit = true) :
      ((text.map fun letter => UInt8.ofNat letter.toNat).head?.any isDigit) = true := by
    obtain ⟨first,rest,rfl⟩ := List.exists_cons_of_ne_nil filled
    exact digit_byte (all first List.mem_cons_self)
  unfold Numeral
  rw [utf8_of_ascii ascii]
  cases text : value.toList with
  | nil =>
    rw [text] at reads
    cases reads
  | cons first rest =>
    rw [text] at reads letters
    by_cases minus : first = '-'
    · subst minus
      obtain ⟨found,read⟩ : ∃ found, digitsValue rest = some found := by
        cases read : digitsValue rest with
        | some found => exact ⟨found,rfl⟩
        | none =>
          simp only [parseI64,read] at reads
          cases reads
      obtain ⟨filled,all⟩ := digits read
      constructor
      · rw [List.map_cons,List.length_cons]
        change (if (rest.map fun letter => UInt8.ofNat letter.toNat).head?.any isDigit = true then
          some (1+((rest.map fun letter => UInt8.ofNat letter.toNat).takeWhile numeric).length) else none) = _
        rw [if_pos (starts filled all),run all,Nat.add_comm]
      · rw [List.map_cons]
        exact List.not_mem_cons_of_ne_of_not_mem (by decide) (no_dot all)
    · have plus : first ≠ '+' := by
        rintro rfl
        exact absurd (letters _ List.mem_cons_self) (by decide)
      have all : ∀ letter ∈ first :: rest, letter.isDigit = true := by
        unfold parseI64 at reads
        split at reads
        · rename_i same
          exact absurd (List.cons.inj same).1 minus
        · rename_i same
          exact absurd (List.cons.inj same).1 plus
        · split at reads
          · rename_i read
            exact (digits read).2
          · cases reads
      have digit := digit_byte (all first List.mem_cons_self)
      have sign : UInt8.ofNat first.toNat ≠ 45 := by
        intro same
        rw [same] at digit
        exact absurd digit (by decide)
      refine ⟨?_,no_dot all⟩
      unfold numberLength
      simp only [List.map_cons,List.head?_cons,Option.some.injEq,if_neg sign,List.drop_zero,Nat.zero_add,Option.any_some,digit,
        if_true]
      exact congrArg List.length (run all)

def Delimits (next : UInt8) : Prop := next = 44 ∨ next = 41

theorem delimits_byte (delimits : Delimits next) :
    solidByte next = true ∧ numeric next = false ∧ next.toNat < 65 ∧ next ≠ 39 ∧ next ≠ 34 ∧
      (isDigit next || next == 45) = false ∧ isWhitespace next = false ∧ isAlphanumeric next = false := by
  rcases delimits with rfl | rfl
  · decide
  · decide

theorem truth_reads (delimits : Delimits next) (before : Bytes) (truth : Bool) :
    (parseValue texts).run (facing before (utf8 (if truth then "true" else "false") ++ next :: more)) =
      .ok (.boolean truth) (facing (before ++ utf8 (if truth then "true" else "false")) (next :: more)) := by
  have letter : (!isAlphanumeric next) = true := by rw [(delimits_byte delimits).2.2.2.2.2.2.2]; rfl
  cases truth with
  | true =>
    have peeked : peekChar.run (facing before (utf8 "true" ++ next :: more)) =
        .ok (some 116) (facing before (utf8 "true" ++ next :: more)) := by
      rw [run_peekChar,facing_rest]
      rfl
    have found : keywordAt (utf8 "TRUE") (utf8 "true" ++ next :: more) = true := letter
    change (parseValue texts).run (facing before (utf8 "true" ++ next :: more)) = _
    unfold parseValue
    rw [run_bind_of_ok peeked,if_neg (by decide),passes_keyword before "NULL" rfl,
      with_keyword "TRUE" (by rw [facing_rest]; exact found)]
    exact congrArg _ (facing_advance before (utf8 "true") (next :: more))
  | false =>
    have peeked : peekChar.run (facing before (utf8 "false" ++ next :: more)) =
        .ok (some 102) (facing before (utf8 "false" ++ next :: more)) := by
      rw [run_peekChar,facing_rest]
      rfl
    have found : keywordAt (utf8 "FALSE") (utf8 "false" ++ next :: more) = true := letter
    change (parseValue texts).run (facing before (utf8 "false" ++ next :: more)) = _
    unfold parseValue
    rw [run_bind_of_ok peeked,if_neg (by decide),passes_keyword before "NULL" rfl,passes_keyword before "TRUE" rfl,
      with_keyword "FALSE" (by rw [facing_rest]; exact found)]
    exact congrArg _ (facing_advance before (utf8 "false") (next :: more))

theorem quoteValue_quoted (other : looksPlain value = false) : utf8 (quoteValue value) = 39 :: (utf8 value ++ [39]) := by
  rw [quoteValue,other]
  change utf8 ("'" ++ value ++ "'") = _
  rw [utf8_append,utf8_append]
  rfl

theorem quoteValue_plain (plain : looksPlain value = true) : quoteValue value = value := if_pos plain

theorem quoted_run (other : looksPlain value = false) (before : Bytes) :
    (parseValue texts).run (facing before (utf8 (quoteValue value) ++ next :: more)) =
      (liftFault (stringValue (latin (quoted 39 (utf8 value ++ 39 :: next :: more)).1).toList)).run
        ((facing before (39 :: (utf8 value ++ 39 :: next :: more))).advance
          ((quoted 39 (utf8 value ++ 39 :: next :: more)).2+1)) := by
  have bytes : utf8 (quoteValue value) ++ next :: more = 39 :: (utf8 value ++ 39 :: next :: more) := by
    rw [quoteValue_quoted other,List.cons_append,List.append_assoc]
    rfl
  have peeked : peekChar.run (facing before (39 :: (utf8 value ++ 39 :: next :: more))) =
      .ok (some 39) (facing before (39 :: (utf8 value ++ 39 :: next :: more))) := by
    rw [run_peekChar,facing_rest]
    rfl
  rw [bytes]
  unfold parseValue
  rw [run_bind_of_ok peeked,if_pos (.inr rfl),EStateM.run_bind,EStateM.run_get]
  simp only [facing_rest]
  rfl

theorem liftFault_run (outcome : Except ParseFault α) (parser : SqlParser) :
    (liftFault outcome).run parser = match outcome with
      | .ok value => .ok value parser
      | .error fault => .error fault parser := by
  cases outcome <;> rfl

def Reads (element : Parse α) (text : Bytes) (value : α) : Prop :=
  ∀ before next more, Delimits next →
    element.run (facing before (text ++ next :: more)) = .ok value (facing (before ++ text) (next :: more))

theorem quoted_reads (plain : looksPlain value = false) (ascii : ∀ letter ∈ value.toList, letter.toNat < 128)
    (unmarked : apostrophe ∉ value.toList) (read : stringValue value.toList = .ok literal) :
    Reads (parseValue texts) (utf8 (quoteValue value)) literal := by
  intro before next more delimits
  obtain ⟨_,_,_,single,_⟩ := delimits_byte delimits
  obtain ⟨encoded,_,_⟩ := encoded_counts value.toList
  rw [String.ofList_toList,List.count_eq_zero.mpr unmarked] at encoded
  have text : quoted 39 (utf8 value ++ 39 :: next :: more) = (utf8 value,(utf8 value).length+1) :=
    quoted_plain (List.count_eq_zero.mp encoded) fun here => single (Option.some.inj here)
  rw [quoted_run plain,text,latin_of_ascii ascii,read,liftFault_run]
  have whole := facing_advance before (utf8 (quoteValue value)) (next :: more)
  rw [quoteValue_quoted plain] at whole ⊢
  rw [← whole,List.cons_append,List.append_assoc,List.length_cons,List.length_append]
  rfl

theorem numeral_run (plain : looksPlain value = true) (truth : ¬ (value = "true" ∨ value = "false")) (numeral : Numeral value)
    (delimits : Delimits next) (before : Bytes) :
    (parseValue texts).run (facing before (utf8 (quoteValue value) ++ next :: more)) =
      if 46 ∈ utf8 value then
        match texts.float (utf8 value) with
        | some bits => .ok (.float bits) (facing (before ++ utf8 (quoteValue value)) (next :: more))
        | none => .error (.error .invalidValue) (facing (before ++ utf8 (quoteValue value)) (next :: more))
      else
        match parseI64 value.toList with
        | some number => .ok (.integer number) (facing (before ++ utf8 (quoteValue value)) (next :: more))
        | none => .error (.error .invalidValue) (facing (before ++ utf8 (quoteValue value)) (next :: more)) := by
  obtain ⟨ascii,small⟩ := plain_bytes plain truth
  rw [quoteValue_plain plain]
  have filled : utf8 value ≠ [] := by
    intro empty
    rw [Numeral,empty] at numeral
    cases numeral
  have standing : (facing before (utf8 value ++ next :: more)).rest = utf8 value ++ next :: more := facing_rest before _
  have run := parseNumberValue_eq texts standing filled (delimits_byte delimits).2.1 numeral (Nat.le_refl _)
  rw [List.take_length,latin_of_ascii ascii,facing_advance] at run
  obtain ⟨first,rest,front⟩ := List.exists_cons_of_ne_nil filled
  obtain ⟨low,mark,double⟩ := small first (by rw [front]; exact List.mem_cons_self)
  have here : (facing before (utf8 value ++ next :: more)).rest = first :: (rest ++ next :: more) := by
    rw [standing,front]
    rfl
  have starts : (isDigit first || first == 45) = true := by
    rw [Numeral,front] at numeral
    unfold numberLength at numeral
    by_cases sign : first = 45
    · rw [sign]
      rfl
    · simp only [List.head?_cons,Option.some.injEq,if_neg sign,List.drop_zero,Option.any_some] at numeral
      split at numeral
      · rename_i digit
        rw [digit]
        rfl
      · cases numeral
  rw [parseValue_small here low mark double,if_pos starts,run]

-- A string that comes through is read as a literal that denotes it, and
-- nothing behind it is touched.
theorem value_reads (comes : ComesThrough texts value) :
    ∃ literal, Reads (parseValue texts) (utf8 (quoteValue value)) literal ∧ Denotes texts value literal := by
  by_cases truth : value = "true" ∨ value = "false"
  · rcases truth with rfl | rfl
    · exact ⟨_,fun before _ _ delimits => truth_reads delimits before true,rfl⟩
    · exact ⟨_,fun before _ _ delimits => truth_reads delimits before false,rfl⟩
  · cases plain : looksPlain value with
    | false =>
      obtain ⟨⟨literal,read,denotes⟩,ascii,unmarked⟩ := denotes_of_comes plain comes
      exact ⟨literal,quoted_reads plain ascii unmarked read,denotes⟩
    | true =>
      rw [ComesThrough,if_neg truth,plain,if_pos rfl] at comes
      obtain ⟨numeral,number⟩ := comes
      by_cases dot : 46 ∈ utf8 value
      · rw [if_pos dot] at number
        obtain ⟨bits,float⟩ := Option.isSome_iff_exists.mp number
        refine ⟨.float bits,fun before next more delimits => ?_,numeral,float⟩
        rw [numeral_run plain truth numeral delimits,if_pos dot,float]
      · rw [if_neg dot] at number
        obtain ⟨integer,reads⟩ := Option.isSome_iff_exists.mp number
        refine ⟨.integer integer,fun before next more delimits => ?_,reads⟩
        rw [numeral_run plain truth numeral delimits,if_neg dot,reads]

-- And a string read as a literal that denotes it is one that comes through.
theorem value_comes (delimits : Delimits next) {before : Bytes} {after : SqlParser}
    (read : (parseValue texts).run (facing before (utf8 (quoteValue value) ++ next :: more)) = .ok literal after)
    (denotes : Denotes texts value literal) : ComesThrough texts value := by
  obtain ⟨solid,stop,low_next,single,double_next,no_number,_⟩ := delimits_byte delimits
  by_cases truth : value = "true" ∨ value = "false"
  · rw [ComesThrough,if_pos truth]
    trivial
  · cases plain : looksPlain value with
    | false =>
      rw [quoted_run plain,liftFault_run] at read
      cases text : stringValue (latin (quoted 39 (utf8 value ++ 39 :: next :: more)).1).toList with
      | error fault =>
        rw [text] at read
        cases read
      | ok found =>
        rw [text] at read
        cases read
        exact comes_of_denotes plain solid text denotes
    | true =>
      rw [ComesThrough,if_neg truth,plain,if_pos rfl]
      obtain ⟨ascii,small⟩ := plain_bytes plain truth
      rw [quoteValue_plain plain] at read
      have standing : (facing before (utf8 value ++ next :: more)).rest = utf8 value ++ next :: more := facing_rest before _
      by_cases filled : utf8 value = []
      · rw [filled] at read
        have here : (facing before ([] ++ next :: more)).rest = next :: more := facing_rest before _
        rw [parseValue_small here low_next single double_next,if_neg (by rw [no_number]; decide)] at read
        cases read
      · obtain ⟨first,rest,front⟩ := List.exists_cons_of_ne_nil filled
        obtain ⟨low,mark,double⟩ := small first (by rw [front]; exact List.mem_cons_self)
        have here : (facing before (utf8 value ++ next :: more)).rest = first :: (rest ++ next :: more) := by
          rw [standing,front]
          rfl
        rw [parseValue_small here low mark double] at read
        split at read
        · cases number : numberLength (utf8 value) with
          | none => exact absurd read (parseNumberValue_none standing filled stop number)
          | some length =>
            have inside := numberLength_inside number
            rw [parseNumberValue_eq texts standing filled stop number inside] at read
            split at read
            · split at read
              · rename_i dot _ bits float
                cases read
                obtain ⟨numeral,same⟩ := denotes
                refine ⟨numeral,?_⟩
                rw [if_pos (List.mem_of_mem_take dot),same]
                rfl
              · cases read
            · split at read
              · rename_i integer _
                cases read
                have whole : parseI64 value.toList = some integer := denotes
                obtain ⟨numeral,no_dot⟩ := integer_numeral plain truth whole
                refine ⟨numeral,?_⟩
                rw [if_neg no_dot,whole]
                rfl
              · cases read
        · cases read

end Bare

end SqlParser
end RemDb
