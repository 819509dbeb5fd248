import RemDb.Sql.InsertLiterals

namespace RemDb
open RemDb.Lib

namespace SqlParser

def doubleMarks (text : List Char) : List Char :=
  text.flatMap fun letter => if letter = apostrophe then [apostrophe,apostrophe] else [letter]

def quotedLiteral (s : String) : String := String.ofList (apostrophe :: (doubleMarks s.toList ++ [apostrophe]))

def doubledBytes (text : Bytes) : Bytes := text.flatMap fun byte => if byte = 39 then [39,39] else [byte]

section Quoting

theorem doubledBytes_solid {text : Bytes} (plain : 39 ∉ text) : doubledBytes text = text := by
  induction text with
  | nil => rfl
  | cons byte text ih =>
    have other : byte ≠ 39 := fun same => plain (same ▸ List.mem_cons_self)
    have rest := ih fun among => plain (List.mem_cons_of_mem _ among)
    rw [doubledBytes] at rest ⊢
    rw [List.flatMap_cons,if_neg other,rest]
    rfl

theorem utf8_doubleMarks (text : List Char) :
    utf8 (String.ofList (doubleMarks text)) = doubledBytes (utf8 (String.ofList text)) := by
  induction text with
  | nil => rfl
  | cons letter text ih =>
    have doubled : ∀ front back : Bytes, doubledBytes (front ++ back) = doubledBytes front ++ doubledBytes back :=
      fun front back => List.flatMap_append
    rw [doubleMarks,List.flatMap_cons,← doubleMarks,utf8_cons,doubled,← ih]
    by_cases mark : letter = apostrophe
    · subst mark
      rw [if_pos rfl,List.cons_append,List.cons_append,List.nil_append,utf8_cons,utf8_cons,← List.append_assoc]
      rfl
    · rw [if_neg mark,List.singleton_append,utf8_cons,doubledBytes_solid]
      intro among
      by_cases small : letter.toNat < 128
      · rw [encoded_ascii small,List.mem_singleton] at among
        have code := congrArg UInt8.toNat among
        rw [UInt8.toNat_ofNat_of_lt' (by unfold UInt8.size; omega)] at code
        exact mark (by rw [← Char.ofNat_toNat letter,← code]; rfl)
      · exact absurd ((encoded_high (Nat.not_lt.mp small)).2 39 among) (by decide)

theorem quoted_doubled (text : Bytes) {after : Bytes} (closed : after.head? ≠ some 39) :
    quoted 39 (doubledBytes text ++ 39 :: after) = (text,(doubledBytes text).length+1) := by
  induction text with
  | nil =>
    have empty : quoted 39 (39 :: after) = ([],1) := quoted_plain List.not_mem_nil closed
    exact empty
  | cons byte text ih =>
    rw [doubledBytes,List.flatMap_cons,← doubledBytes]
    by_cases mark : byte = 39
    · subst mark
      rw [if_pos rfl]
      simp only [List.cons_append,List.nil_append]
      rw [quoted.eq_def]
      simp only [if_true,ih,List.length_cons]
    · rw [if_neg mark,List.singleton_append,List.cons_append,quoted.eq_def]
      simp only [if_neg mark,ih,List.length_cons]

theorem utf8_quotedLiteral (s : String) : utf8 (quotedLiteral s) = 39 :: (doubledBytes (utf8 s) ++ [39]) := by
  have split : String.ofList (doubleMarks s.toList ++ [apostrophe]) =
      String.ofList (doubleMarks s.toList) ++ String.ofList [apostrophe] := String.ofList_append
  rw [quotedLiteral,utf8_cons,split,utf8_append,utf8_doubleMarks,String.ofList_toList]
  rfl

end Quoting

section Reading
variable {texts : Renderings} {parser : SqlParser} {s : String}

theorem parseValue_quoted {tail : Bytes} (standing : parser.rest = 39 :: tail) :
    (parseValue texts).run parser = (liftFault (stringValue (latin (quoted 39 tail).1).toList)).run
      (parser.advance ((quoted 39 tail).2+1)) := by
  have peeked : peekChar.run parser = .ok (some 39) parser := by
    rw [run_peekChar,standing]
    rfl
  unfold parseValue
  rw [run_bind_of_ok peeked,if_pos (.inr rfl),EStateM.run_bind,EStateM.run_get]
  simp only [standing]
  rfl

theorem parseValue_literal {after : Bytes} (standing : parser.rest = utf8 (quotedLiteral s) ++ after)
    (closed : after.head? ≠ some 39) :
    (parseValue texts).run parser =
      (liftFault (stringValue (latin (utf8 s)).toList)).run (parser.advance (utf8 (quotedLiteral s)).length) := by
  rw [utf8_quotedLiteral,List.cons_append,List.append_assoc,List.singleton_append] at standing
  rw [parseValue_quoted standing,quoted_doubled (utf8 s) closed,utf8_quotedLiteral,List.length_cons,List.length_append]
  rfl

-- A letter outside ASCII is read as two letters and more.
theorem ascii_of_latin (same : latin (utf8 s) = s) : ∀ letter ∈ s.toList, letter.toNat < 128 := by
  obtain ⟨_,_,ascii⟩ := encoded_counts s.toList
  rw [String.ofList_toList] at ascii
  refine ascii ?_
  rw [← solid_latin,same]

theorem stringValue_plain {text : List Char} (hinted : jsonHint.isPrefixOf text = false)
    (document : jsonLike (unquoted text) = false) :
    stringValue text = .ok (.string (String.ofList text)) ↔ TimeString.parse text = .ok none := by
  rw [stringValue_eq,hinted,document]
  cases read : TimeString.parse text with
  | error fault => constructor <;> intro same <;> cases same
  | ok timestamp =>
    cases timestamp with
    | none => exact ⟨fun _ => rfl,fun _ => rfl⟩
    | some timestamp => constructor <;> intro same <;> cases same

theorem stringValue_string {text : List Char} (read : stringValue text = .ok (.string s)) : s = String.ofList text := by
  rw [stringValue_eq] at read
  split at read
  · cases read
  · split at read
    · cases read
    · cases time : TimeString.parse text with
      | error fault =>
        rw [time] at read
        cases read
      | ok timestamp =>
        rw [time] at read
        cases timestamp with
        | none => exact (SqlValue.string.inj (Except.ok.inj read)).symm
        | some timestamp => cases read

end Reading

section Text
variable {texts : Renderings} {parser : SqlParser} {s : String}

-- A string between apostrophes is read back as itself exactly if it is ASCII
-- and no number or point in time is seen in it.
theorem quoted_string_iff {after : Bytes} (standing : parser.rest = utf8 (quotedLiteral s) ++ after)
    (closed : after.head? ≠ some 39) (hinted : jsonHint.isPrefixOf s.toList = false)
    (document : jsonLike (unquoted s.toList) = false) :
    (parseValue texts).run parser = .ok (.string s) (parser.advance (utf8 (quotedLiteral s)).length) ↔
      (∀ letter ∈ s.toList, letter.toNat < 128) ∧ TimeString.parse s.toList = .ok none := by
  rw [parseValue_literal standing closed,liftFault_run]
  constructor
  · intro read
    cases value : stringValue (latin (utf8 s)).toList with
    | error fault =>
      rw [value] at read
      cases read
    | ok literal =>
      rw [value] at read
      obtain rfl : literal = .string s := (EStateM.Result.ok.inj read).1
      have same := stringValue_string value
      rw [String.ofList_toList] at same
      rw [← same] at value
      refine ⟨ascii_of_latin same.symm,(stringValue_plain hinted document).mp ?_⟩
      rw [value,String.ofList_toList]
  · rintro ⟨ascii,plain⟩
    rw [latin_of_ascii ascii,(stringValue_plain hinted document).mpr plain,String.ofList_toList]

theorem quoted_string_abc :
    (parseValue noTexts.toRenderings).run (SqlParser.new "'abc'") = .ok (.string "abc") ((SqlParser.new "'abc'").advance 5) ↔
      (∀ letter ∈ "abc".toList, letter.toNat < 128) ∧ TimeString.parse "abc".toList = .ok none := by
  have encoded : (utf8 (quotedLiteral "abc")).length = 5 := by decide +kernel
  have read := @quoted_string_iff noTexts.toRenderings (SqlParser.new "'abc'") "abc" [] (by decide +kernel) (by decide)
    (by decide +kernel) (by decide +kernel)
  rwa [encoded] at read

-- Digits are made a number.
theorem digits_not_string : (parseValue noTexts.toRenderings).run (SqlParser.new (quotedLiteral "123")) ≠
      .ok (.string "123") ((SqlParser.new (quotedLiteral "123")).advance (utf8 (quotedLiteral "123")).length) ∧
    ∃ after, (parseValue noTexts.toRenderings).run (SqlParser.new (quotedLiteral "123")) = .ok (.integer 123) after := by
  have standing : (SqlParser.new (quotedLiteral "123")).rest = utf8 (quotedLiteral "123") ++ [] := by
    rw [List.append_nil]
    rfl
  have integer : parseI64 "123".toList = some 123 := by decide +kernel
  have hinted : jsonHint.isPrefixOf "123".toList = false := by decide +kernel
  have document : jsonLike (unquoted "123".toList) = false := by decide +kernel
  have value : stringValue "123".toList = .ok (.integer 123) := by
    rw [stringValue_eq,hinted,document,parse_of_integer integer]
    rfl
  have ascii : ∀ letter ∈ "123".toList, letter.toNat < 128 := all_ascii (by decide +kernel)
  rw [parseValue_literal standing (by decide),liftFault_run,latin_of_ascii ascii,value]
  exact ⟨fun same => (SqlValue.noConfusion (EStateM.Result.ok.inj same).1),_,rfl⟩

end Text

end SqlParser
end RemDb
