import RemDb.Sql.Reading

namespace RemDb
open RemDb.Lib

namespace SqlParser

def symbol : ComparisonOperator → String
  | .equal => "="
  | .notEqual => "<>"
  | .greaterThanOrEqual => ">="
  | .greaterThan => ">"
  | .lessThanOrEqual => "<="
  | .lessThan => "<"
  | .like => "LIKE"

section Pieces
variable {parser : SqlParser} {texts : DebugTexts}

theorem without_str (text : String) (other : (utf8 text).isPrefixOf parser.rest = false) (matched unmatched : Parse α) :
    (do if ← matchStr text then matched else unmatched : Parse α).run parser = unmatched.run parser := by
  have refused : (matchStr text).run parser = .ok false parser := by
    unfold matchStr
    rw [EStateM.run_bind,EStateM.run_get]
    simp only [other]
    rfl
  rw [run_bind_of_ok refused]
  rfl

theorem with_str (text : String) (found : (utf8 text).isPrefixOf parser.rest = true) (matched unmatched : Parse α) :
    (do if ← matchStr text then matched else unmatched : Parse α).run parser =
      matched.run (parser.advance (utf8 text).length) := by
  have taken : (matchStr text).run parser = .ok true (parser.advance (utf8 text).length) := by
    unfold matchStr
    rw [EStateM.run_bind,EStateM.run_get]
    simp only [found]
    rfl
  rw [run_bind_of_ok taken]
  rfl

theorem symbol_reads (operator : ComparisonOperator) {more : Bytes}
    (standing : parser.rest = utf8 (symbol operator) ++ 32 :: more) :
    (do if ← matchKeyword "LIKE" then pure .like else parseComparisonOperator : Parse ComparisonOperator).run parser =
      .ok operator (parser.advance (utf8 (symbol operator)).length) := by
  by_cases like : operator = .like
  · subst like
    rw [with_keyword "LIKE" (by rw [standing]; rfl)]
    rfl
  · rw [without_keyword "LIKE" (by rw [standing]; cases operator <;> first | rfl | exact absurd rfl like)]
    unfold parseComparisonOperator
    cases operator with
    | equal =>
      rw [with_str "=" (by rw [standing]; rfl)]
      rfl
    | notEqual =>
      rw [without_str "=" (by rw [standing]; rfl),with_str "<>" (by rw [standing]; rfl)]
      rfl
    | greaterThanOrEqual =>
      rw [without_str "=" (by rw [standing]; rfl),without_str "<>" (by rw [standing]; rfl),
        without_str "!=" (by rw [standing]; rfl),with_str ">=" (by rw [standing]; rfl)]
      rfl
    | greaterThan =>
      rw [without_str "=" (by rw [standing]; rfl),without_str "<>" (by rw [standing]; rfl),
        without_str "!=" (by rw [standing]; rfl),without_str ">=" (by rw [standing]; rfl),
        with_str ">" (by rw [standing]; rfl)]
      rfl
    | lessThanOrEqual =>
      rw [without_str "=" (by rw [standing]; rfl),without_str "<>" (by rw [standing]; rfl),
        without_str "!=" (by rw [standing]; rfl),without_str ">=" (by rw [standing]; rfl),
        without_str ">" (by rw [standing]; rfl),with_str "<=" (by rw [standing]; rfl)]
      rfl
    | lessThan =>
      rw [without_str "=" (by rw [standing]; rfl),without_str "<>" (by rw [standing]; rfl),
        without_str "!=" (by rw [standing]; rfl),without_str ">=" (by rw [standing]; rfl),
        without_str ">" (by rw [standing]; rfl),without_str "<=" (by rw [standing]; rfl),
        with_str "<" (by rw [standing]; rfl)]
      rfl
    | like => exact absurd rfl like

theorem attempt_ok {parse : Parse α} {value : α} {after : SqlParser} (done : parse.run parser = .ok value after) :
    (attempt parse).run parser = .ok (some value) after := by
  simp only [attempt,EStateM.run] at done ⊢
  rw [done]

theorem attempt_error {parse : Parse α} {failure : QueryParseError} {after : SqlParser}
    (failed : parse.run parser = .error (.error failure) after) : (attempt parse).run parser = .ok none after := by
  simp only [attempt,EStateM.run] at failed ⊢
  rw [failed]

theorem takeWhile_append_stop {p : UInt8 → Bool} {front after : Bytes} (all : front.all p = true)
    (stop : (after.head?.any p) = false) : (front ++ after).takeWhile p = front := by
  induction front with
  | nil =>
    cases after with
    | nil => rfl
    | cons first rest =>
      change p first = false at stop
      rw [List.nil_append,List.takeWhile_cons,stop]
      rfl
  | cons first rest ih =>
    rw [List.all_cons,Bool.and_eq_true] at all
    rw [List.cons_append,List.takeWhile_cons,all.1,if_pos rfl,ih all.2]

end Pieces

-- A name that is not taken for a keyword or a constant.
structure FieldName where
  first : UInt8
  others : Bytes
  letter : isAlphabetic first = true
  word : others.all inIdentifier = true
  free : ∀ keyword ∈ ["NOT","TRUE","FALSE","NULL"], ∀ more,
    keywordAt (utf8 keyword) (first :: (others ++ 32 :: more)) = false
  unit : eqIgnoreCase (utf8 (latin (first :: others))) (utf8 "INTERVAL") = false

namespace FieldName

def text (name : FieldName) : Bytes := name.first :: name.others

variable {texts : DebugTexts} {parser : SqlParser} (name : FieldName)

theorem alphabetic_range {byte : UInt8} (letter : isAlphabetic byte = true) :
    (65 ≤ byte.toNat ∧ byte.toNat ≤ 90) ∨ (97 ≤ byte.toNat ∧ byte.toNat ≤ 122) := by
  simp only [isAlphabetic,isUpper,isLower,Bool.or_eq_true,decide_eq_true_eq,UInt8.le_iff_toNat_le] at letter
  exact letter

theorem first_ne (byte : UInt8) (other : isAlphabetic byte = false) : name.first ≠ byte := by
  intro same
  have letter := name.letter
  rw [same,other] at letter
  cases letter

theorem first_solid : isWhitespace name.first = false := by
  have range := alphabetic_range name.letter
  simp only [isWhitespace,Bool.or_eq_false_iff,decide_eq_false_iff_not,UInt8.le_iff_toNat_le,← UInt8.toNat_inj]
  change ¬ (9 ≤ name.first.toNat ∧ name.first.toNat ≤ 13) ∧
    ¬ (name.first.toNat = 32 ∨ name.first.toNat = 133 ∨ name.first.toNat = 160)
  omega

theorem first_no_digit : isDigit name.first = false := by
  have range := alphabetic_range name.letter
  simp only [isDigit,decide_eq_false_iff_not,UInt8.le_iff_toNat_le]
  change ¬ (48 ≤ name.first.toNat ∧ name.first.toNat ≤ 57)
  omega

theorem parseIdentifier_name (standing : parser.rest = name.text ++ 32 :: more) :
    parseIdentifier.run parser = .ok (latin name.text) (parser.advance name.text.length) := by
  have length : identifierLength parser.rest = name.text.length := by
    have starts : startsIdentifier name.first = true := by
      rw [startsIdentifier,name.letter]
      rfl
    rw [standing,text,List.cons_append,identifierLength,if_pos starts,takeWhile_append_stop name.word rfl]
    rfl
  unfold parseIdentifier
  rw [EStateM.run_bind,EStateM.run_get]
  simp only [length]
  rw [standing,List.take_left]
  rfl

theorem parseConstant_name (standing : parser.rest = name.text ++ 32 :: more) :
    (parseConstant texts name.first).run parser = .ok none parser := by
  have free (keyword : String) (among : keyword ∈ ["NOT","TRUE","FALSE","NULL"]) :
      keywordAt (utf8 keyword) parser.rest = false := by
    rw [standing]
    exact name.free keyword among more
  have constant : (isDigit name.first || name.first == 45 || name.first == 34 || name.first == 39) = false := by
    simp only [name.first_no_digit,Bool.false_or,Bool.or_eq_false_iff,beq_eq_false_iff_ne]
    exact ⟨⟨name.first_ne 45 (by decide),name.first_ne 34 (by decide)⟩,name.first_ne 39 (by decide)⟩
  unfold parseConstant
  rw [constant,name.letter,Bool.or_true,if_pos rfl,without_keyword "TRUE" (free _ (by decide)),
    without_keyword "FALSE" (free _ (by decide)),without_keyword "NULL" (free _ (by decide))]
  rfl

theorem parseCallee_name {next : UInt8} (standing : parser.rest = name.text ++ 32 :: next :: more)
    (solid : isWhitespace next = false) (no_bracket : next ≠ 40) : parseCallee.run parser = .ok none parser := by
  have behind := rest_after standing
  have next_here := rest_next behind
  unfold parseCallee
  rw [EStateM.run_bind,EStateM.run_get]
  simp only []
  rw [run_bind_of_ok (attempt_ok (name.parseIdentifier_name standing))]
  simp only []
  rw [run_bind_of_ok (skipWhitespace_one behind solid),
    run_bind_of_ok (matchChar_refused (by rw [next_here]; exact fun same => no_bracket (Option.some.inj same)))]
  rfl

theorem parsePrimaryExpression_name {next : UInt8} (standing : parser.rest = name.text ++ 32 :: next :: more)
    (solid : isWhitespace next = false) (no_bracket : next ≠ 40) (fuel : Nat) :
    (parsePrimaryExpression texts (fuel+1)).run parser =
      .ok (.field (latin name.text) none) (parser.advance name.text.length) := by
  have front : parser.rest = name.first :: (name.others ++ 32 :: next :: more) := standing
  have head : parser.rest.head? = some name.first := by rw [front]; rfl
  have no_star : parser.rest.head? ≠ some 42 := by
    rw [head]
    exact fun same => name.first_ne 42 (by decide) (Option.some.inj same)
  have no_vector : parser.rest.head? ≠ some 91 := by
    rw [head]
    exact fun same => name.first_ne 91 (by decide) (Option.some.inj same)
  unfold parsePrimaryExpression
  rw [run_bind_of_ok (skipWhitespace_none front name.first_solid),EStateM.run_bind,EStateM.run_get]
  simp only []
  rw [run_bind_of_ok (matchChar_refused no_star)]
  simp only [no_vector,if_false,Bool.false_eq_true,pure_bind]
  simp only [head]
  rw [EStateM.run_bind,EStateM.run_set]
  simp only []
  rw [run_bind_of_ok (name.parseConstant_name standing)]
  simp only []
  rw [run_bind_of_ok (name.parseCallee_name standing solid no_bracket)]
  simp only []
  unfold parseField
  rw [run_bind_of_ok (name.parseIdentifier_name standing),text,name.unit]
  rfl

theorem parseVectorExpression_name {next : UInt8} (standing : parser.rest = name.text ++ 32 :: next :: more)
    (solid : isWhitespace next = false) (no_bracket : next ≠ 40) (no_vector : vectorOperator (next :: more) = none) :
    (parseVectorExpression texts).run parser =
      .ok (.field (latin name.text) none) (parser.advance (name.text.length+1)) := by
  have behind := rest_after standing
  have next_here := rest_next behind
  have rounds : expressionFuel parser = 4*parser.rest.length+3+1 := by
    rw [expressionFuel]
    omega
  unfold parseVectorExpression
  rw [EStateM.run_bind,EStateM.run_get]
  simp only [rounds]
  rw [run_bind_of_ok (name.parsePrimaryExpression_name standing solid no_bracket _),
    run_bind_of_ok (skipWhitespace_one behind solid),EStateM.run_bind,EStateM.run_get]
  simp only [next_here,no_vector]
  rw [advance_advance]
  rfl

end FieldName

-- A whole number as it is written, with what it is worth.
structure Literal where
  first : UInt8
  others : Bytes
  value : Int64
  digit : isDigit first = true
  digits : others.all isDigit = true
  worth : parseI64 (latin (first :: others)).toList = some value

namespace Literal

def text (literal : Literal) : Bytes := literal.first :: literal.others

variable {texts : Renderings} {parser : SqlParser} (literal : Literal)

theorem digit_range {byte : UInt8} (digit : isDigit byte = true) : 48 ≤ byte.toNat ∧ byte.toNat ≤ 57 := by
  simp only [isDigit,decide_eq_true_eq,UInt8.le_iff_toNat_le] at digit
  exact digit

theorem digit_ne {byte : UInt8} (digit : isDigit byte = true) (other : UInt8) (no_digit : isDigit other = false) :
    byte ≠ other := by
  intro same
  rw [same,no_digit] at digit
  cases digit

theorem lower_digit {byte : UInt8} (digit : isDigit byte = true) : lower byte = byte := by
  have range := digit_range digit
  have small : isUpper byte = false := by
    simp only [isUpper,decide_eq_false_iff_not,UInt8.le_iff_toNat_le]
    change ¬ (65 ≤ byte.toNat ∧ byte.toNat ≤ 90)
    omega
  rw [lower,small]
  rfl

theorem no_keyword {keyword letters : Bytes} {letter : UInt8} (starts : keyword = letter :: letters)
    (no_digit : isDigit (lower letter) = false) (rest : Bytes) : keywordAt keyword (literal.first :: rest) = false := by
  refine keywordAt_other_letter starts ?_ rest
  rw [lower_digit literal.digit]
  exact digit_ne literal.digit _ no_digit

theorem ends_stop {after : Bytes} (ends : Ends after) :
    (after.head?.any fun byte => isDigit byte || byte == 46) = false := by
  rcases ends with (rfl | ⟨more,rfl⟩) | ⟨connective,more,rfl⟩
  · rfl
  · rfl
  · rfl

theorem parseNumberValue_literal {after : Bytes} (standing : parser.rest = literal.text ++ after) (ends : Ends after) :
    (parseNumberValue texts).run parser = .ok (.integer literal.value) (parser.advance literal.text.length) := by
  have all : literal.text.all (fun byte => isDigit byte || byte == 46) = true := by
    rw [List.all_eq_true]
    intro byte among
    have digit : isDigit byte = true := by
      rcases List.mem_cons.mp among with rfl | among
      · exact literal.digit
      · exact List.all_eq_true.mp literal.digits byte among
    rw [digit]
    rfl
  have no_dot : 46 ∉ literal.text := by
    intro among
    rcases List.mem_cons.mp among with same | among
    · exact digit_ne literal.digit 46 (by decide) same.symm
    · have digit := List.all_eq_true.mp literal.digits 46 among
      exact absurd digit (by decide)
  have length : numberLength parser.rest = some literal.text.length := by
    have no_sign : parser.rest.head? ≠ some 45 := by
      rw [standing]
      exact fun same => digit_ne literal.digit 45 (by decide) (Option.some.inj same)
    have first : (parser.rest.head?.any isDigit) = true := by
      rw [standing]
      exact literal.digit
    unfold numberLength
    simp only [no_sign,if_false,List.drop_zero,first,if_true]
    rw [standing,takeWhile_append_stop all (ends_stop ends),Nat.zero_add]
  have number : parseNumberStr.run parser = .ok literal.text (parser.advance literal.text.length) := by
    unfold parseNumberStr
    rw [EStateM.run_bind,EStateM.run_get]
    simp only [length]
    rw [standing,List.take_left]
    rfl
  unfold parseNumberValue
  rw [run_bind_of_ok number,if_neg no_dot]
  simp only [text,literal.worth]
  rfl

theorem parseValue_literal {after : Bytes} (standing : parser.rest = literal.text ++ after) (ends : Ends after) :
    (parseValue texts).run parser = .ok (.integer literal.value) (parser.advance literal.text.length) := by
  have front : parser.rest = literal.first :: (literal.others ++ after) := standing
  have head : parser.rest.head? = some literal.first := by
    rw [front]
    rfl
  have other (keyword : String) {letter : UInt8} {letters : Bytes} (starts : utf8 keyword = letter :: letters)
      (no_digit : isDigit (lower letter) = false) : keywordAt (utf8 keyword) parser.rest = false := by
    rw [front]
    exact literal.no_keyword starts no_digit _
  have no_quote : ¬ (some literal.first = some 34 ∨ some literal.first = some 39) := by
    rintro (same | same)
    · exact digit_ne literal.digit 34 (by decide) (Option.some.inj same)
    · exact digit_ne literal.digit 39 (by decide) (Option.some.inj same)
  have no_square : some literal.first ≠ some 91 := fun same => digit_ne literal.digit 91 (by decide) (Option.some.inj same)
  have no_curly : some literal.first ≠ some 123 := fun same => digit_ne literal.digit 123 (by decide) (Option.some.inj same)
  have number : ((some literal.first).any fun byte => isDigit byte || byte == 45) = true := by
    rw [Option.any_some,literal.digit]
    rfl
  unfold parseValue
  have peeked : peekChar.run parser = .ok (some literal.first) parser := by
    rw [run_peekChar,head]
  rw [run_bind_of_ok peeked,if_neg no_quote,without_keyword "NULL" (other _ rfl (by decide)),
    without_keyword "TRUE" (other _ rfl (by decide)),without_keyword "FALSE" (other _ rfl (by decide)),
    without_keyword "NOW" (other _ rfl (by decide)),without_keyword "CURRENT_TIMESTAMP" (other _ rfl (by decide)),
    without_keyword "LOCALTIMESTAMP" (other _ rfl (by decide)),without_keyword "TIMEZONE" (other _ rfl (by decide)),
    without_keyword "TO_CHAR" (other _ rfl (by decide)),without_keyword "TO_ISO8601" (other _ rfl (by decide)),
    without_keyword "TO_EPOCH" (other _ rfl (by decide)),if_neg no_square,if_neg no_curly,if_pos number]
  exact literal.parseNumberValue_literal standing ends

end Literal

section Integers
variable {parser : SqlParser} (texts : DebugTexts) {name : FieldName} {operator : ComparisonOperator} {literal : Literal}

theorem symbol_first (operator : ComparisonOperator) (rest : Bytes) : ∃ next more,
    utf8 (symbol operator) ++ 32 :: rest = next :: more ∧ isWhitespace next = false ∧ next ≠ 40 ∧
      vectorOperator (next :: more) = none ∧ keywordAt (utf8 "BETWEEN") (next :: more) = false := by
  cases operator
  all_goals exact ⟨_,_,rfl,by decide,by decide,rfl,rfl⟩

theorem left_reads {rest : Bytes} (standing : parser.rest = name.text ++ 32 :: (utf8 (symbol operator) ++ 32 :: rest)) :
    (parseVectorExpression texts).run parser =
        .ok (.field (latin name.text) none) (parser.advance (name.text.length+1)) ∧
      (parser.advance (name.text.length+1)).rest = utf8 (symbol operator) ++ 32 :: rest ∧
      skipWhitespace.run (parser.advance (name.text.length+1)) = .ok () (parser.advance (name.text.length+1)) := by
  obtain ⟨next,more,begins,solid,no_bracket,no_vector,_⟩ := symbol_first operator rest
  have behind := rest_next (rest_after standing)
  rw [advance_advance] at behind
  rw [begins] at standing
  exact ⟨name.parseVectorExpression_name standing solid no_bracket no_vector,behind,
    skipWhitespace_none (behind.trans begins) solid⟩

theorem between_refused {rest : Bytes} (standing : parser.rest = name.text ++ 32 :: (utf8 (symbol operator) ++ 32 :: rest)) :
    (attempt (parseBetweenCondition texts)).run parser = .ok none (parser.advance (name.text.length+1)) := by
  obtain ⟨left,behind,skipped⟩ := left_reads texts standing
  obtain ⟨next,more,begins,_,_,_,no_between⟩ := symbol_first operator rest
  have failed : (parseBetweenCondition texts).run parser =
      .error (.error .invalidSyntax) (parser.advance (name.text.length+1)) := by
    unfold parseBetweenCondition
    rw [run_bind_of_ok left,run_bind_of_ok skipped]
    unfold expectKeyword
    rw [EStateM.run_bind,without_keyword "BETWEEN" (by rw [behind,begins]; exact no_between)]
    rfl
  exact attempt_error failed

theorem comparison_reads {after : Bytes}
    (standing : parser.rest = name.text ++ 32 :: (utf8 (symbol operator) ++ 32 :: (literal.text ++ after)))
    (ends : Ends after) :
    (parseComparisonCondition texts).run parser = .ok (.comparison ⟨latin name.text,operator,.integer literal.value⟩)
      (parser.advance (name.text.length+1+(utf8 (symbol operator)).length+1+literal.text.length)) := by
  obtain ⟨left,behind,skipped⟩ := left_reads texts standing
  have blank := rest_after behind
  have number := rest_next blank
  have solid : isWhitespace literal.first = false := by
    have range := Literal.digit_range literal.digit
    simp only [isWhitespace,Bool.or_eq_false_iff,decide_eq_false_iff_not,UInt8.le_iff_toNat_le,← UInt8.toNat_inj]
    change ¬ (9 ≤ literal.first.toNat ∧ literal.first.toNat ≤ 13) ∧
      ¬ (literal.first.toNat = 32 ∨ literal.first.toNat = 133 ∨ literal.first.toNat = 160)
    omega
  unfold parseComparisonCondition
  rw [run_bind_of_ok left,run_bind_of_ok skipped,run_bind_of_ok (symbol_reads operator behind),
    run_bind_of_ok (skipWhitespace_one blank solid),run_bind_of_ok (literal.parseValue_literal number ends),
    advance_advance,advance_advance,advance_advance,← Nat.add_assoc,← Nat.add_assoc]
  rfl

end Integers
end SqlParser

open SqlParser

def Comparison.integer (texts : DebugTexts) (name : FieldName) (operator : ComparisonOperator) (literal : Literal) :
    Comparison texts where
  text := name.text ++ 32 :: (utf8 (symbol operator) ++ 32 :: literal.text)
  condition := .comparison ⟨latin name.text,operator,.integer literal.value⟩
  single := rfl
  starts := ⟨name.first,_,rfl,name.first_solid,name.first_ne 40 (by decide)⟩
  plain := by
    intro after _
    have free := name.free "NOT" (by decide) (utf8 (symbol operator) ++ 32 :: literal.text ++ after)
    rw [List.append_assoc,List.cons_append]
    exact free
  reads := by
    intro parser after standing ends
    rw [List.append_assoc,List.cons_append,List.append_assoc,List.cons_append] at standing
    have read := attempt_ok (comparison_reads texts standing ends)
    unfold parseAtomicCondition
    rw [EStateM.run_bind,EStateM.run_get]
    simp only []
    rw [run_bind_of_ok (between_refused texts standing)]
    simp only []
    rw [EStateM.run_bind,EStateM.run_set]
    simp only []
    rw [run_bind_of_ok read]
    have total : name.text.length+1+(utf8 (symbol operator)).length+1+literal.text.length =
        (name.text ++ 32 :: (utf8 (symbol operator) ++ 32 :: literal.text)).length := by
      simp only [List.length_append,List.length_cons]
      omega
    rw [total]
    rfl


-- A printed condition, wherever it stands, is read to its end, and for every
-- value of its comparisons it has the value that NOT before AND before OR gives.
def MeansWhatItSays {texts : DebugTexts} (disjunction : Disjunction (Comparison texts)) : Prop :=
  ∀ parser : SqlParser, parser.rest = disjunction.printed →
    ∃ condition after, (parseCondition texts).run parser = .ok condition after ∧ after.rest = [] ∧
      ∀ atoms, condition.truth atoms = (disjunction.meant (·.condition)).truth atoms

theorem means_iff_same {texts : DebugTexts} (disjunction : Disjunction (Comparison texts)) :
    MeansWhatItSays disjunction ↔
      Condition.Same (disjunction.grouped (·.condition)) (disjunction.meant (·.condition)) := by
  constructor
  · intro means
    obtain ⟨condition,after,parsed,_,same⟩ := means ⟨disjunction.printed,0⟩ rfl
    rw [parseCondition_printed disjunction rfl] at parsed
    cases parsed
    exact same
  · intro same parser standing
    refine ⟨_,_,parseCondition_printed disjunction standing,?_,same⟩
    rw [rest_advance,standing,List.drop_length]

-- A condition is read as SQL means it when no AND stands before an OR and no
-- operand with an odd number of NOTs before either, in any bracket. Where no
-- comparison occurs twice this is the only case.
theorem where_meaning {texts : DebugTexts} (disjunction : Disjunction (Comparison texts)) :
    (disjunction.Plain → MeansWhatItSays disjunction) ∧
      ((disjunction.atoms.map (·.condition)).Nodup → (MeansWhatItSays disjunction ↔ disjunction.Plain)) := by
  have enough : disjunction.Plain → MeansWhatItSays disjunction := fun plain =>
    (means_iff_same disjunction).mpr (disjunction.plain_same _ plain)
  refine ⟨enough,fun once => ⟨fun means => ?_,enough⟩⟩
  exact disjunction.same_plain (fun atom => atom.single) once ((means_iff_same disjunction).mp means)

section Letters

def noTexts : DebugTexts := ⟨⟨fun _ => none,fun _ => ""⟩,fun _ => ""⟩

def digitOne : Literal := ⟨49,[],1,by decide,by decide,by decide⟩

def letterName (letter : UInt8) (small : letter = 97 ∨ letter = 98 ∨ letter = 99) : FieldName where
  first := letter
  others := []
  letter := by rcases small with rfl | rfl | rfl <;> decide
  word := rfl
  free := by
    intro keyword among more
    rcases List.mem_cons.mp among with rfl | among
    · exact keywordAt_other_letter rfl (by rcases small with rfl | rfl | rfl <;> decide) _
    rcases List.mem_cons.mp among with rfl | among
    · exact keywordAt_other_letter rfl (by rcases small with rfl | rfl | rfl <;> decide) _
    rcases List.mem_cons.mp among with rfl | among
    · exact keywordAt_other_letter rfl (by rcases small with rfl | rfl | rfl <;> decide) _
    cases List.mem_singleton.mp among
    exact keywordAt_other_letter rfl (by rcases small with rfl | rfl | rfl <;> decide) _
  unit := by rcases small with rfl | rfl | rfl <;> decide

def aIsOne : Operand (Comparison noTexts) := .atom (.integer noTexts (letterName 97 (by decide)) .equal digitOne)
def bIsOne : Operand (Comparison noTexts) := .atom (.integer noTexts (letterName 98 (by decide)) .equal digitOne)
def cIsOne : Operand (Comparison noTexts) := .atom (.integer noTexts (letterName 99 (by decide)) .equal digitOne)

theorem where_meaning_nots_last :
    (Disjunction.or (.one 0 aIsOne) (.one (.and 2 bIsOne (.one 1 cIsOne)))).printed =
        utf8 "a = 1 OR NOT NOT b = 1 AND NOT c = 1" ∧
      MeansWhatItSays (.or (.one 0 aIsOne) (.one (.and 2 bIsOne (.one 1 cIsOne)))) := by
  refine ⟨by decide +kernel,(where_meaning _).1 ?_⟩
  exact ⟨⟨fun _ => ⟨0,rfl⟩,trivial⟩,rfl,⟨1,rfl⟩,trivial,fun followed => absurd followed Bool.false_ne_true,trivial⟩

-- With only the last comparison true the whole is true; the parser has taken it
-- into the right side of the AND.
theorem and_before_or_misread :
    (Disjunction.or (.and 0 aIsOne (.one 0 bIsOne)) (.one (.one 0 cIsOne))).printed = utf8 "a = 1 AND b = 1 OR c = 1" ∧
      ¬ MeansWhatItSays (.or (.and 0 aIsOne (.one 0 bIsOne)) (.one (.one 0 cIsOne))) := by
  refine ⟨by decide +kernel,fun means => ?_⟩
  have same := (means_iff_same _).mp means fun leaf =>
    match leaf with
    | .comparison condition => condition.field == "c"
    | _ => false
  exact absurd same (by decide +kernel)

end Letters
end RemDb
