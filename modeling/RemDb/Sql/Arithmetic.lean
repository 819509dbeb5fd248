import RemDb.Lib.Infix
import RemDb.Sql.InsertLiterals

namespace RemDb
open RemDb.Lib

inductive ArithmeticOperator where
  | add | subtract | multiply | divide
deriving DecidableEq,Repr

namespace ArithmeticOperator

def strength : ArithmeticOperator → Nat
  | .add | .subtract => 1
  | .multiply | .divide => 2

def byte : ArithmeticOperator → UInt8
  | .add => 43
  | .subtract => 45
  | .multiply => 42
  | .divide => 47

def binary : ArithmeticOperator → BinaryOperator
  | .add => .add
  | .subtract => .subtract
  | .multiply => .multiply
  | .divide => .divide

end ArithmeticOperator

inductive ArithmeticAtom where
  | field (name : Identifier)
  | literal (value : Int64)

abbrev ArithmeticExpression := Infix ArithmeticAtom ArithmeticOperator

def decimal (value : Int64) : String := toString value.toInt

namespace ArithmeticAtom

def bytes : ArithmeticAtom → Bytes
  | .field name => name.bytes
  | .literal value => utf8 (decimal value)

def tree : ArithmeticAtom → ParsedExpression
  | .field name => .field name.name none
  | .literal value => .constant (.integer value) none

-- A name that is not taken for a constant or an interval; a keyword with an
-- underscore or a dot behind it is taken for the keyword.
def Plain : ArithmeticAtom → Prop
  | .field name => (∀ keyword ∈ ["TRUE","FALSE","NULL"], SqlParser.keywordAt (utf8 keyword) name.bytes = false) ∧
      SqlParser.eqIgnoreCase name.bytes (utf8 "INTERVAL") = false
  | .literal _ => True

end ArithmeticAtom

namespace ArithmeticExpression

def side (brackets : Bool) (text : Bytes) : Bytes := if brackets then 40 :: (text ++ [41]) else text

-- Single blanks around the operators, brackets where they are needed.
def printed : ArithmeticExpression → Bytes
  | .atom a => a.bytes
  | .node left op right =>
    side (left.weaker ArithmeticOperator.strength op.strength) (printed left) ++
      32 :: op.byte :: 32 :: side (right.weaker ArithmeticOperator.strength (op.strength+1)) (printed right)

def tree : ArithmeticExpression → ParsedExpression
  | .atom a => a.tree
  | .node left op right => .binaryOp (tree left) op.binary (tree right) none

end ArithmeticExpression

section Numerals

theorem decimal_letters (value : Int64) :
    (decimal value).toList = (if value.toInt < 0 then ['-'] else []) ++ Nat.toDigits 10 value.toInt.natAbs := by
  unfold decimal
  cases value.toInt with
  | ofNat n =>
    have positive : ¬ Int.ofNat n < 0 := Int.not_lt.mpr (Int.natCast_nonneg n)
    rw [if_neg positive]
    exact Nat.toList_repr
  | negSucc n =>
    rw [if_pos (Int.negSucc_lt_zero n)]
    change ("-" ++ (n+1).repr).toList = _
    rw [String.toList_append,Nat.toList_repr]
    rfl

theorem digits_digit (n : Nat) : ∀ letter ∈ Nat.toDigits 10 n, letter.isDigit = true :=
  fun _ among => Nat.isDigit_of_mem_toDigits (by decide) (by decide) among

theorem decimal_parsed (value : Int64) : parseI64 (decimal value).toList = some value := by
  have low := Int64.le_toInt value
  have high := Int64.toInt_lt value
  rw [decimal_letters]
  by_cases negative : value.toInt < 0
  · have fits : value.toInt.natAbs ≤ 2^63 := by omega
    have back : -(value.toInt.natAbs : Int) = value.toInt := by omega
    rw [if_pos negative,List.singleton_append,parseI64,digitsValue_toDigits]
    change (if value.toInt.natAbs ≤ 2^63 then some (Int64.ofInt (-value.toInt.natAbs)) else none) = _
    rw [if_pos fits,back,Int64.ofInt_toInt]
  · have fits : value.toInt.natAbs < 2^63 := by omega
    have back : (value.toInt.natAbs : Int) = value.toInt := by omega
    have digits := digits_digit value.toInt.natAbs
    rw [if_neg negative,List.nil_append]
    unfold parseI64
    split
    · rename_i same
      exact absurd (digits '-' (by rw [same]; exact List.mem_cons_self)) (by decide)
    · rename_i same
      exact absurd (digits '+' (by rw [same]; exact List.mem_cons_self)) (by decide)
    · rw [digitsValue_toDigits]
      change (if value.toInt.natAbs < 2^63 then some (Int64.ofNat value.toInt.natAbs) else none) = _
      rw [if_pos fits,← Int64.ofInt_eq_ofNat,back,Int64.ofInt_toInt]

end Numerals

namespace SqlParser

section Operands
variable {texts : DebugTexts} {before after : Bytes}

-- What stands behind an operand: nothing, or an operator between blanks.
def Follows (after : Bytes) : Prop := after = [] ∨ ∃ (op : ArithmeticOperator) (more : Bytes), after = 32 :: op.byte :: 32 :: more

theorem follows_stops (follows : Follows after) : Stops after := by
  rcases follows with rfl | ⟨op,more,rfl⟩
  · exact .inl rfl
  · exact .inr ⟨_,rfl⟩

theorem decimal_plain (value : Int64) : looksPlain (decimal value) = true ∧ ¬ (decimal value = "true" ∨ decimal value = "false") := by
  have letters : ∀ letter ∈ (decimal value).toList, letter.isDigit = true ∨ letter = '-' := by
    intro letter among
    rw [decimal_letters] at among
    rcases List.mem_append.mp among with sign | digit
    · split at sign
      · exact .inr (List.mem_singleton.mp sign)
      · cases sign
    · exact .inl (digits_digit _ letter digit)
  constructor
  · rw [looksPlain,Bool.or_eq_true,Bool.or_eq_true]
    refine .inl (.inl (List.all_eq_true.mpr fun letter among => ?_))
    rcases letters letter among with digit | rfl
    · rw [digit]
      rfl
    · rfl
  · rintro (same | same)
    · exact absurd (letters 't' (by rw [same]; decide)) (by decide)
    · exact absurd (letters 'f' (by rw [same]; decide)) (by decide)

theorem decimal_starts (value : Int64) : ∃ first others, utf8 (decimal value) = first :: others ∧
    (isDigit first || first == 45) = true ∧ first.toNat < 65 ∧ first ≠ 39 ∧ first ≠ 34 := by
  obtain ⟨plain,truth⟩ := decimal_plain value
  obtain ⟨numeral,_⟩ := integer_numeral plain truth (decimal_parsed value)
  obtain ⟨_,small⟩ := plain_bytes plain truth
  rw [Numeral] at numeral
  cases bytes : utf8 (decimal value) with
  | nil =>
    rw [bytes] at numeral
    cases numeral
  | cons first others =>
    refine ⟨first,others,rfl,?_,small first (by rw [bytes]; exact List.mem_cons_self)⟩
    rw [bytes] at numeral
    unfold numberLength at numeral
    by_cases sign : first = 45
    · rw [sign]
      rfl
    · simp only [List.head?_cons,Option.some.injEq,if_neg sign,List.drop_zero,Option.any_some] at numeral
      split at numeral
      · rename_i digit
        rw [digit]
        rfl
      · cases numeral

theorem decimal_reads (value : Int64) (stops : Stops after) :
    (parseValue texts.toRenderings).run (facing before (utf8 (decimal value) ++ after)) =
      .ok (.integer value) (facing (before ++ utf8 (decimal value)) after) := by
  obtain ⟨plain,truth⟩ := decimal_plain value
  obtain ⟨numeral,no_dot⟩ := integer_numeral plain truth (decimal_parsed value)
  obtain ⟨ascii,_⟩ := plain_bytes plain truth
  obtain ⟨first,others,bytes,starts,low,single,double⟩ := decimal_starts value
  have filled : utf8 (decimal value) ≠ [] := by rw [bytes]; exact List.cons_ne_nil _ _
  have standing := facing_rest before (utf8 (decimal value) ++ after)
  have front : (facing before (utf8 (decimal value) ++ after)).rest = first :: (others ++ after) := by
    rw [standing,bytes]
    rfl
  have whole : numberLength (facing before (utf8 (decimal value) ++ after)).rest = some (utf8 (decimal value)).length := by
    rw [Numeral] at numeral
    rw [standing]
    rcases stops with rfl | ⟨more,rfl⟩
    · rw [List.append_nil,numeral]
    · rw [numberLength_stopped filled (by decide),numeral]
  rw [parseValue_small front low single double,if_pos starts,parseNumberValue_taken _ whole,standing,
    List.take_left,if_neg no_dot,latin_of_ascii ascii,decimal_parsed]
  exact congrArg _ (facing_advance before (utf8 (decimal value)) after)

theorem starts_high {byte : UInt8} (starts : startsIdentifier byte = true) : 65 ≤ byte.toNat ∧ byte.toNat ≤ 122 ∧ byte ≠ 91 := by
  rw [startsIdentifier,Bool.or_eq_true,beq_iff_eq] at starts
  rcases starts with letter | rfl
  · have range := FieldName.alphabetic_range letter
    refine ⟨by omega,by omega,?_⟩
    rintro rfl
    exact absurd letter (by decide)
  · decide

theorem primary_eq {parser : SqlParser} {first : UInt8} {rest : Bytes} (standing : parser.rest = first :: rest)
    (solid : isWhitespace first = false) (no_star : first ≠ 42) (no_vector : first ≠ 91) (fuel : Nat) :
    (parsePrimaryExpression texts (fuel+1)).run parser = (do
      match ← parseConstant texts first with
      | some constant => pure constant
      | none =>
        match ← parseCallee with
        | some name =>
          let args ← parseArguments texts fuel
          skipWhitespace
          expectChar 41
          pure (.functionCall name args none)
        | none => parseField texts : Parse ParsedExpression).run parser := by
  have head : parser.rest.head? = some first := by
    rw [standing]
    rfl
  have star : parser.rest.head? ≠ some 42 := by
    rw [head]
    exact fun same => no_star (Option.some.inj same)
  have vector : parser.rest.head? ≠ some 91 := by
    rw [head]
    exact fun same => no_vector (Option.some.inj same)
  unfold parsePrimaryExpression
  rw [run_bind_of_ok (skipWhitespace_none standing solid),EStateM.run_bind,EStateM.run_get]
  simp only []
  rw [run_bind_of_ok (matchChar_refused star)]
  simp only [vector,if_false,Bool.false_eq_true,pure_bind]
  simp only [head]
  rw [EStateM.run_bind,EStateM.run_set]
  try rfl

theorem constant_number {parser : SqlParser} {first : UInt8} {rest : Bytes} {value : SqlValue} {behind : SqlParser}
    (standing : parser.rest = first :: rest) (starts : (isDigit first || first == 45) = true) (small : first.toNat < 65)
    (read : (parseValue texts.toRenderings).run parser = .ok value behind) :
    (parseConstant texts first).run parser = .ok (some (.constant value none)) behind := by
  have other (keyword : String) {letter : UInt8} {letters : Bytes} (front : utf8 keyword = letter :: letters)
      (word : 65 ≤ (lower letter).toNat) : keywordAt (utf8 keyword) parser.rest = false := by
    rw [standing]
    refine keywordAt_other_letter front ?_ _
    rw [lower_small small]
    intro same
    rw [same] at small
    omega
  have number : (isDigit first || first == 45 || first == 34 || first == 39) = true := by rw [starts]; rfl
  unfold parseConstant
  rw [number,Bool.true_or,if_pos rfl,without_keyword "TRUE" (other _ rfl (by decide)),
    without_keyword "FALSE" (other _ rfl (by decide)),without_keyword "NULL" (other _ rfl (by decide)),if_pos rfl,
    run_bind_of_ok read]
  rfl

theorem constant_name {name : Identifier} (stops : Stops after) :
    (parseConstant texts name.first).run (facing before (name.bytes ++ after)) =
      if keywordAt (utf8 "TRUE") name.bytes then .ok (some (.constant (.boolean true) none)) ((facing before (name.bytes ++ after)).advance 4)
      else if keywordAt (utf8 "FALSE") name.bytes then
        .ok (some (.constant (.boolean false) none)) ((facing before (name.bytes ++ after)).advance 5)
      else if keywordAt (utf8 "NULL") name.bytes then .ok (some (.constant .null none)) ((facing before (name.bytes ++ after)).advance 4)
      else .ok none (facing before (name.bytes ++ after)) := by
  have word (keyword : String) (letters : (utf8 keyword).all (fun letter => lower letter != 32) = true) :
      keywordAt (utf8 keyword) (facing before (name.bytes ++ after)).rest = keywordAt (utf8 keyword) name.bytes := by
    rw [facing_rest,keywordAt_name (fun letter among => bne_iff_ne.mp (List.all_eq_true.mp letters letter among)) stops]
  have true_word := word "TRUE" (by decide)
  have false_word := word "FALSE" (by decide)
  have null_word := word "NULL" (by decide)
  have constant : (isDigit name.first || name.first == 45 || name.first == 34 || name.first == 39) = false := by
    have high := starts_high name.starts
    simp only [isDigit,Bool.or_eq_false_iff,decide_eq_false_iff_not,beq_eq_false_iff_ne,UInt8.le_iff_toNat_le,ne_eq,
      ← UInt8.toNat_inj]
    change ((¬ (48 ≤ name.first.toNat ∧ name.first.toNat ≤ 57) ∧ ¬ name.first.toNat = 45) ∧ ¬ name.first.toNat = 34) ∧
      ¬ name.first.toNat = 39
    omega
  unfold parseConstant
  rw [constant,Bool.false_or]
  cases letter : isAlphabetic name.first with
  | true =>
    rw [if_pos rfl]
    cases first : keywordAt (utf8 "TRUE") name.bytes with
    | true =>
      rw [with_keyword "TRUE" (true_word.trans first)]
      rfl
    | false =>
      rw [without_keyword "TRUE" (true_word.trans first)]
      cases second : keywordAt (utf8 "FALSE") name.bytes with
      | true =>
        rw [with_keyword "FALSE" (false_word.trans second)]
        rfl
      | false =>
        rw [without_keyword "FALSE" (false_word.trans second)]
        cases third : keywordAt (utf8 "NULL") name.bytes with
        | true =>
          rw [with_keyword "NULL" (null_word.trans third)]
          rfl
        | false =>
          rw [without_keyword "NULL" (null_word.trans third)]
          rfl
  | false =>
    have underscore : name.first = 95 := by
      have starts := name.starts
      rw [startsIdentifier,letter,Bool.false_or,beq_iff_eq] at starts
      exact starts
    have other (keyword : String) {first : UInt8} {letters : Bytes} (front : utf8 keyword = first :: letters)
        (different : lower 95 ≠ lower first) : keywordAt (utf8 keyword) name.bytes = false := by
      rw [Identifier.bytes,underscore]
      exact keywordAt_other_letter front different _
    rw [other "TRUE" rfl (by decide),other "FALSE" rfl (by decide),other "NULL" rfl (by decide)]
    rfl

theorem op_byte (op : ArithmeticOperator) : isWhitespace op.byte = false ∧ op.byte ≠ 40 ∧ op.byte.toNat < 65 ∧ op.byte ≠ 39 ∧
    op.byte ≠ 34 := by cases op <;> decide

theorem callee_name {name : Identifier} (follows : Follows after) :
    parseCallee.run (facing before (name.bytes ++ after)) = .ok none (facing before (name.bytes ++ after)) := by
  have read := attempt_ok (reads_name before name (follows_stops follows))
  unfold parseCallee
  rw [EStateM.run_bind,EStateM.run_get]
  simp only []
  rw [run_bind_of_ok read]
  simp only []
  rcases follows with rfl | ⟨op,more,rfl⟩
  · rw [run_bind_of_ok (skips_end _),run_bind_of_ok (matchChar_refused (by rw [facing_rest]; exact nofun))]
    rfl
  · obtain ⟨solid,no_bracket,_⟩ := op_byte op
    have blank := skipWhitespace_one (facing_rest (before ++ name.bytes) (32 :: op.byte :: 32 :: more)) solid
    have next := rest_next (facing_rest (before ++ name.bytes) (32 :: op.byte :: 32 :: more))
    rw [run_bind_of_ok blank,
      run_bind_of_ok (matchChar_refused (by rw [next]; exact fun same => no_bracket (Option.some.inj same)))]
    rfl

theorem parseValue_end {parser : SqlParser} (standing : parser.rest = []) :
    (parseValue texts.toRenderings).run parser = .error (.error .invalidValue) parser := by
  have peeked : peekChar.run parser = .ok none parser := by
    rw [run_peekChar,standing]
    rfl
  have other (keyword : String) (none_left : keywordAt (utf8 keyword) [] = false) : keywordAt (utf8 keyword) parser.rest = false := by
    rw [standing]
    exact none_left
  unfold parseValue
  rw [run_bind_of_ok peeked,if_neg (by decide),without_keyword "NULL" (other _ rfl),without_keyword "TRUE" (other _ rfl),
    without_keyword "FALSE" (other _ rfl),without_keyword "NOW" (other _ rfl),
    without_keyword "CURRENT_TIMESTAMP" (other _ rfl),without_keyword "LOCALTIMESTAMP" (other _ rfl),
    without_keyword "TIMEZONE" (other _ rfl),without_keyword "TO_CHAR" (other _ rfl),
    without_keyword "TO_ISO8601" (other _ rfl),without_keyword "TO_EPOCH" (other _ rfl)]
  rfl

theorem interval_refused (follows : Follows after) {result : ParsedExpression} {behind : SqlParser} :
    (parseInterval texts).run (facing before after) ≠ .ok result behind := by
  intro read
  unfold parseInterval at read
  rcases follows with rfl | ⟨op,more,rfl⟩
  · rw [run_bind_of_ok (skips_end _)] at read
    obtain ⟨value,middle,valued,_⟩ := run_bind_ok read
    rw [parseValue_end (facing_rest before [])] at valued
    cases valued
  · obtain ⟨solid,_,small,single,double⟩ := op_byte op
    have blank := skipWhitespace_one (facing_rest before (32 :: op.byte :: 32 :: more)) solid
    have next := rest_next (facing_rest before (32 :: op.byte :: 32 :: more))
    rw [run_bind_of_ok blank] at read
    obtain ⟨value,middle,valued,_⟩ := run_bind_ok read
    rw [parseValue_small next small single double] at valued
    split at valued
    · rename_i starts
      have sign : op.byte = 45 := by
        cases op with
        | subtract => rfl
        | add | multiply | divide => exact absurd starts (by decide)
      rw [sign] at next
      have dash : ((facing before (32 :: op.byte :: 32 :: more)).advance 1).rest = [45] ++ 32 :: more := by
        rw [sign]
        exact next
      exact parseNumberValue_none dash (List.cons_ne_nil _ _) (by decide) (by decide) valued
    · cases valued

theorem name_solid (name : Identifier) : isWhitespace name.first = false ∧ name.first ≠ 42 ∧ name.first ≠ 91 := by
  obtain ⟨high,_,no_vector⟩ := starts_high name.starts
  refine ⟨identifier_solid (starts_in name.starts),?_,no_vector⟩
  intro same
  rw [same] at high
  exact absurd high (by decide)

theorem name_unit (name : Identifier) : eqIgnoreCase (utf8 name.name) (utf8 "INTERVAL") = eqIgnoreCase name.bytes (utf8 "INTERVAL") := by
  rw [name.utf8_name]

theorem atom_starts (atom : ArithmeticAtom) : ∃ first rest, atom.bytes = first :: rest ∧ isWhitespace first = false := by
  cases atom with
  | field name => exact ⟨_,_,rfl,(name_solid name).1⟩
  | literal value =>
    obtain ⟨first,others,bytes,starts,_⟩ := decimal_starts value
    refine ⟨first,others,bytes,?_⟩
    rw [Bool.or_eq_true,beq_iff_eq] at starts
    rcases starts with digit | rfl
    · have range := Literal.digit_range digit
      simp only [isWhitespace,Bool.or_eq_false_iff,decide_eq_false_iff_not,UInt8.le_iff_toNat_le,← UInt8.toNat_inj]
      change ¬ (9 ≤ first.toNat ∧ first.toNat ≤ 13) ∧ ¬ (first.toNat = 32 ∨ first.toNat = 133 ∨ first.toNat = 160)
      omega
    · decide

theorem primary_atom {atom : ArithmeticAtom} (plain : atom.Plain) (follows : Follows after) (fuel : Nat) :
    (parsePrimaryExpression texts (fuel+1)).run (facing before (atom.bytes ++ after)) =
      .ok atom.tree (facing (before ++ atom.bytes) after) := by
  cases atom with
  | field name =>
    obtain ⟨words,unit⟩ := plain
    obtain ⟨solid,no_star,no_vector⟩ := name_solid name
    have standing : (facing before (name.bytes ++ after)).rest = name.first :: (name.others ++ after) := facing_rest before _
    have constant := @constant_name texts before after name (follows_stops follows)
    rw [words "TRUE" (by decide),words "FALSE" (by decide),words "NULL" (by decide)] at constant
    rw [ArithmeticAtom.bytes,primary_eq standing solid no_star no_vector,run_bind_of_ok constant]
    simp only []
    rw [run_bind_of_ok (callee_name follows)]
    simp only []
    unfold parseField
    rw [run_bind_of_ok (reads_name before name (follows_stops follows)),name_unit,unit]
    rfl
  | literal value =>
    obtain ⟨first,others,bytes,starts,small,_⟩ := decimal_starts value
    have read := @decimal_reads texts before after value (follows_stops follows)
    have standing : (facing before (utf8 (decimal value) ++ after)).rest = first :: (others ++ after) := by
      rw [facing_rest,bytes]
      rfl
    have solid : isWhitespace first = false := by
      obtain ⟨_,_,same,solid⟩ := atom_starts (.literal value)
      rw [(List.cons.inj (bytes.symm.trans same)).1]
      exact solid
    have no_star : first ≠ 42 := by
      rintro rfl
      exact absurd starts (by decide)
    have no_vector : first ≠ 91 := by
      rintro rfl
      exact absurd starts (by decide)
    rw [ArithmeticAtom.bytes,primary_eq standing solid no_star no_vector,
      run_bind_of_ok (constant_number standing starts small read)]
    rfl

-- A truth value or NULL among the operands, which no arithmetic expression has.
def Marked : ParsedExpression → Prop
  | .constant (.boolean _) _ => True
  | .constant .null _ => True
  | .binaryOp left _ right _ => Marked left ∨ Marked right
  | _ => False

theorem primary_marked {atom : ArithmeticAtom} (misread : ¬ atom.Plain) (follows : Follows after) {fuel : Nat}
    {result : ParsedExpression} {behind : SqlParser}
    (read : (parsePrimaryExpression texts (fuel+1)).run (facing before (atom.bytes ++ after)) = .ok result behind) :
    Marked result := by
  cases atom with
  | literal value => exact absurd trivial misread
  | field name =>
    obtain ⟨solid,no_star,no_vector⟩ := name_solid name
    have standing : (facing before (name.bytes ++ after)).rest = name.first :: (name.others ++ after) := facing_rest before _
    have constant := @constant_name texts before after name (follows_stops follows)
    rw [ArithmeticAtom.bytes,primary_eq standing solid no_star no_vector] at read
    split at constant
    · rw [run_bind_of_ok constant] at read
      cases read
      trivial
    · split at constant
      · rw [run_bind_of_ok constant] at read
        cases read
        trivial
      · split at constant
        · rw [run_bind_of_ok constant] at read
          cases read
          trivial
        · rename_i no_true no_false no_null
          rw [run_bind_of_ok constant] at read
          simp only [] at read
          rw [run_bind_of_ok (callee_name follows)] at read
          simp only [] at read
          unfold parseField at read
          rw [run_bind_of_ok (reads_name before name (follows_stops follows)),name_unit] at read
          split at read
          · exact absurd read (interval_refused follows)
          · rename_i other
            refine absurd ⟨fun keyword among => ?_,Bool.eq_false_iff.mpr other⟩ misread
            simp only [List.mem_cons,List.not_mem_nil,or_false] at among
            rcases among with rfl | rfl | rfl
            · exact Bool.eq_false_iff.mpr no_true
            · exact Bool.eq_false_iff.mpr no_false
            · exact Bool.eq_false_iff.mpr no_null

theorem primary_bracket {fuel : Nat} {more : Bytes} {result : ParsedExpression} {behind : SqlParser} :
    (parsePrimaryExpression texts (fuel+1)).run (facing before (40 :: more)) ≠ .ok result behind := by
  intro read
  have standing : (facing before (40 :: more)).rest = 40 :: more := facing_rest before _
  have nameless : parseIdentifier.run (facing before (40 :: more)) = .error (.error .invalidSyntax) (facing before (40 :: more)) := by
    unfold parseIdentifier
    rw [EStateM.run_bind,EStateM.run_get]
    simp only [standing]
    rfl
  have callee : parseCallee.run (facing before (40 :: more)) = .ok none (facing before (40 :: more)) := by
    unfold parseCallee
    rw [EStateM.run_bind,EStateM.run_get]
    simp only []
    rw [run_bind_of_ok (attempt_error nameless)]
    rfl
  rw [primary_eq standing (by decide) (by decide) (by decide)] at read
  have constant : (parseConstant texts 40).run (facing before (40 :: more)) = .ok none (facing before (40 :: more)) := rfl
  rw [run_bind_of_ok constant] at read
  simp only [] at read
  rw [run_bind_of_ok callee] at read
  simp only [] at read
  unfold parseField at read
  obtain ⟨_,_,named,_⟩ := run_bind_ok read
  rw [nameless] at named
  cases named

end Operands

section Lines
variable {texts : DebugTexts}

def itemBytes : Item ArithmeticAtom ArithmeticOperator → Bytes
  | .atom atom => atom.bytes
  | .bracketed inner => 40 :: (ArithmeticExpression.printed inner ++ [41])

def stepsBytes (steps : List (ArithmeticOperator × Item ArithmeticAtom ArithmeticOperator)) : Bytes :=
  steps.flatMap fun step => 32 :: step.1.byte :: 32 :: itemBytes step.2

theorem stepsBytes_cons (op : ArithmeticOperator) (item : Item ArithmeticAtom ArithmeticOperator)
    (rest : List (ArithmeticOperator × Item ArithmeticAtom ArithmeticOperator)) :
    stepsBytes ((op,item) :: rest) = 32 :: op.byte :: 32 :: (itemBytes item ++ stepsBytes rest) := by
  rw [stepsBytes,List.flatMap_cons,← stepsBytes]
  rfl

theorem steps_follow (steps : List (ArithmeticOperator × Item ArithmeticAtom ArithmeticOperator)) : Follows (stepsBytes steps) := by
  cases steps with
  | nil => exact .inl rfl
  | cons step rest => exact .inr ⟨step.1,_,stepsBytes_cons step.1 step.2 rest⟩

theorem side_item (brackets : Bool) (inner : ArithmeticExpression) :
    ArithmeticExpression.side brackets (ArithmeticExpression.printed inner) =
      if brackets then itemBytes (.bracketed inner) else ArithmeticExpression.printed inner := by
  cases brackets <;> rfl

theorem printed_items (expression : ArithmeticExpression) : ArithmeticExpression.printed expression =
    itemBytes (expression.items ArithmeticOperator.strength).1 ++ stepsBytes (expression.items ArithmeticOperator.strength).2 := by
  induction expression with
  | atom a => exact (List.append_nil _).symm
  | node left op right ih_left ih_right =>
    have joined : ∀ front back : List (ArithmeticOperator × Item ArithmeticAtom ArithmeticOperator),
        stepsBytes (front ++ back) = stepsBytes front ++ stepsBytes back := fun front back => List.flatMap_append
    rw [ArithmeticExpression.printed,side_item,side_item,Infix.items]
    simp only []
    rw [joined,stepsBytes_cons,← List.append_assoc]
    congr 1
    · split
      · exact (List.append_nil _).symm
      · exact ih_left
    · congr 3
      split
      · exact (List.append_nil _).symm
      · exact ih_right

theorem operator_taken {before more : Bytes} (op : ArithmeticOperator) :
    takeOperator.run (facing before (op.byte :: 32 :: more)) = .ok (some op.binary) (facing (before ++ [op.byte]) (32 :: more)) := by
  unfold takeOperator
  rw [EStateM.run_bind,EStateM.run_get]
  simp only [facing_rest]
  cases op with
  | add => exact congrArg _ (facing_advance before [43] (32 :: more))
  | subtract => exact congrArg _ (facing_advance before [45] (32 :: more))
  | multiply => exact congrArg _ (facing_advance before [42] (32 :: more))
  | divide => exact congrArg _ (facing_advance before [47] (32 :: more))

theorem operands_end {before : Bytes} (fuel : Nat) (left : ParsedExpression) :
    (parseOperands texts (fuel+1) left).run (facing before []) = .ok left (facing before []) := by
  have taken : takeOperator.run (facing before []) = .ok none (facing before []) := by
    unfold takeOperator
    rw [EStateM.run_bind,EStateM.run_get]
    simp only [facing_rest]
    rfl
  unfold parseOperands
  rw [run_bind_of_ok (skips_end _),run_bind_of_ok taken]
  rfl

-- One round: the operator, and then its right side.
theorem operands_step {before after : Bytes} {op : ArithmeticOperator} {first : UInt8} (solid : isWhitespace first = false)
    (fuel : Nat) (left : ParsedExpression) :
    (parseOperands texts (fuel+1) left).run (facing before (32 :: op.byte :: 32 :: first :: after)) = (do
      let right ← parsePrimaryExpression texts fuel
      parseOperands texts fuel (.binaryOp left op.binary right none) : Parse ParsedExpression).run
        (facing (before ++ [32,op.byte,32]) (first :: after)) := by
  have blank := skipWhitespace_one (facing_rest before (32 :: op.byte :: 32 :: first :: after)) (op_byte op).1
  have moved : (facing before (32 :: op.byte :: 32 :: first :: after)).advance 1 =
      facing (before ++ [32]) (op.byte :: 32 :: first :: after) := facing_advance before [32] _
  have second := skipWhitespace_one (facing_rest (before ++ [32] ++ [op.byte]) (32 :: first :: after)) solid
  have last : (facing (before ++ [32] ++ [op.byte]) (32 :: first :: after)).advance 1 =
      facing (before ++ [32] ++ [op.byte] ++ [32]) (first :: after) := facing_advance _ [32] _
  rw [moved] at blank
  have place : before ++ [32] ++ [op.byte] ++ [32] = before ++ [32,op.byte,32] := by simp
  rw [last,place] at second
  conv_lhs => unfold parseOperands
  rw [run_bind_of_ok blank,run_bind_of_ok (operator_taken op)]
  simp only []
  rw [run_bind_of_ok second]

theorem operands_marked {fuel : Nat} {left result : ParsedExpression} {parser behind : SqlParser} (marked : Marked left)
    (read : (parseOperands texts fuel left).run parser = .ok result behind) : Marked result := by
  induction fuel generalizing left parser with
  | zero => cases read
  | succ fuel ih =>
    unfold parseOperands at read
    obtain ⟨_,_,_,read⟩ := run_bind_ok read
    obtain ⟨found,_,_,read⟩ := run_bind_ok read
    cases found with
    | none =>
      cases read
      exact marked
    | some op =>
      obtain ⟨_,_,_,read⟩ := run_bind_ok read
      obtain ⟨right,_,_,read⟩ := run_bind_ok read
      have kept : Marked (.binaryOp left op right none) := .inl marked
      exact ih kept read

theorem item_starts (item : Item ArithmeticAtom ArithmeticOperator) :
    ∃ first rest, itemBytes item = first :: rest ∧ isWhitespace first = false := by
  cases item with
  | atom atom => exact atom_starts atom
  | bracketed inner => exact ⟨40,_,rfl,by decide⟩

def atomSteps (rest : List (ArithmeticOperator × ArithmeticAtom)) : List (ArithmeticOperator × Item ArithmeticAtom ArithmeticOperator) :=
  rest.map fun step => (step.1,.atom step.2)

theorem operands_read (rest : List (ArithmeticOperator × ArithmeticAtom)) (plain : ∀ step ∈ rest, step.2.Plain)
    (left : ArithmeticExpression) {before : Bytes} {fuel : Nat} (enough : rest.length+1 ≤ fuel) :
    (parseOperands texts fuel (ArithmeticExpression.tree left)).run (facing before (stepsBytes (atomSteps rest))) =
      .ok (ArithmeticExpression.tree (left.leftmost rest)) (facing (before ++ stepsBytes (atomSteps rest)) []) := by
  induction rest generalizing left before fuel with
  | nil =>
    obtain ⟨fuel,rfl⟩ : ∃ rounds, fuel = rounds+1 := ⟨fuel-1,by omega⟩
    have none_left : stepsBytes (atomSteps []) = [] := rfl
    rw [none_left,List.append_nil]
    exact operands_end fuel _
  | cons step rest ih =>
    obtain ⟨op,atom⟩ := step
    obtain ⟨fuel,rfl⟩ : ∃ rounds, fuel = rounds+2 := ⟨fuel-2,by rw [List.length_cons] at enough; omega⟩
    rw [List.length_cons] at enough
    obtain ⟨first,others,bytes,solid⟩ := atom_starts atom
    have line : stepsBytes (atomSteps ((op,atom) :: rest)) = 32 :: op.byte :: 32 :: (atom.bytes ++ stepsBytes (atomSteps rest)) :=
      stepsBytes_cons op (.atom atom) (atomSteps rest)
    have spelled : stepsBytes (atomSteps ((op,atom) :: rest)) = 32 :: op.byte :: 32 :: first :: (others ++ stepsBytes (atomSteps rest)) := by
      rw [line,bytes]
      rfl
    have operand := @primary_atom texts (before ++ [32,op.byte,32]) _ atom (plain _ List.mem_cons_self) (steps_follow (atomSteps rest)) fuel
    have back : first :: (others ++ stepsBytes (atomSteps rest)) = atom.bytes ++ stepsBytes (atomSteps rest) := by
      rw [bytes]
      rfl
    have more := @ih (fun each among => plain each (List.mem_cons_of_mem _ among)) (.node left op (.atom atom))
      (before ++ [32,op.byte,32] ++ atom.bytes) (fuel+1) (by omega)
    have place : before ++ [32,op.byte,32] ++ atom.bytes ++ stepsBytes (atomSteps rest) =
        before ++ stepsBytes (atomSteps ((op,atom) :: rest)) := by
      rw [line,List.append_assoc,List.append_assoc]
      rfl
    rw [place] at more
    rw [congrArg (facing before) spelled,operands_step solid,back,run_bind_of_ok operand]
    exact more

-- The loop returns the operands taken from left to right, or it has met a
-- keyword; it does not come past a bracket.
theorem operands_only (steps : List (ArithmeticOperator × Item ArithmeticAtom ArithmeticOperator)) (left : ArithmeticExpression)
    {before : Bytes} {fuel : Nat} {result : ParsedExpression} {behind : SqlParser}
    (read : (parseOperands texts fuel (ArithmeticExpression.tree left)).run (facing before (stepsBytes steps)) = .ok result behind) :
    Marked result ∨ ∃ rest, steps = atomSteps rest ∧ (∀ step ∈ rest, step.2.Plain) ∧
      result = ArithmeticExpression.tree (left.leftmost rest) := by
  induction steps generalizing left before fuel with
  | nil =>
    cases fuel with
    | zero => cases read
    | succ fuel =>
      have none_left : stepsBytes [] = [] := rfl
      rw [none_left,operands_end] at read
      cases read
      exact .inr ⟨[],rfl,fun _ => nofun,rfl⟩
  | cons step steps ih =>
    obtain ⟨op,item⟩ := step
    cases fuel with
    | zero => cases read
    | succ fuel =>
      obtain ⟨first,others,bytes,solid⟩ := item_starts item
      have spelled : stepsBytes ((op,item) :: steps) = 32 :: op.byte :: 32 :: first :: (others ++ stepsBytes steps) := by
        rw [stepsBytes_cons,bytes]
        rfl
      have back : first :: (others ++ stepsBytes steps) = itemBytes item ++ stepsBytes steps := by
        rw [bytes]
        rfl
      rw [spelled,operands_step solid,back] at read
      obtain ⟨right,middle,operand,looped⟩ := run_bind_ok read
      cases fuel with
      | zero => cases operand
      | succ fuel =>
        cases item with
        | bracketed inner => exact absurd operand primary_bracket
        | atom atom =>
          by_cases plain : atom.Plain
          · have here := @primary_atom texts (before ++ [32,op.byte,32]) _ atom plain (steps_follow steps) fuel
            obtain ⟨rfl,rfl⟩ := EStateM.Result.ok.inj (operand.symm.trans here)
            rcases ih (.node left op (.atom atom)) looped with marked | ⟨rest,rfl,all,rfl⟩
            · exact .inl marked
            · refine .inr ⟨(op,atom) :: rest,rfl,?_,rfl⟩
              intro each among
              rcases List.mem_cons.mp among with rfl | among
              · exact plain
              · exact all each among
          · have marked : Marked (.binaryOp (ArithmeticExpression.tree left) op.binary right none) :=
              .inr (primary_marked plain (steps_follow steps) operand)
            exact .inl (operands_marked marked looped)

end Lines

section Trees

theorem identifier_inj {one other : Identifier} (same : one.name = other.name) : one = other := by
  have bytes := congrArg utf8 same
  rw [one.utf8_name,other.utf8_name] at bytes
  obtain ⟨first,others⟩ := List.cons.inj bytes
  cases one
  cases other
  subst first
  subst others
  rfl

theorem tree_inj {one other : ArithmeticExpression} (same : ArithmeticExpression.tree one = ArithmeticExpression.tree other) :
    one = other := by
  induction one generalizing other with
  | atom a =>
    cases other with
    | atom b =>
      cases a with
      | field name =>
        cases b with
        | field other => rw [identifier_inj (ParsedExpression.field.inj same).1]
        | literal value => cases same
      | literal value =>
        cases b with
        | field name => cases same
        | literal other => rw [SqlValue.integer.inj (ParsedExpression.constant.inj same).1]
    | node left op right => cases a <;> cases same
  | node left op right ih_left ih_right =>
    cases other with
    | atom b => cases b <;> cases same
    | node other_left other_op other_right =>
      obtain ⟨first,second,third,_⟩ := ParsedExpression.binaryOp.inj same
      have operator : op = other_op := by
        cases op <;> cases other_op <;> first | rfl | cases second
      rw [ih_left first,operator,ih_right third]

theorem tree_unmarked (expression : ArithmeticExpression) : ¬ Marked (ArithmeticExpression.tree expression) := by
  induction expression with
  | atom a => cases a <;> exact id
  | node left op right ih_left ih_right => exact not_or.mpr ⟨ih_left,ih_right⟩

theorem marked_alias {tree : ParsedExpression} (marked : Marked tree) (label : Option String) : Marked (tree.withAlias label) := by
  cases tree with
  | field name own => exact marked
  | functionCall name args own => exact marked
  | constant value own => cases value <;> exact marked
  | binaryOp left op right own => exact marked

theorem tree_plain (expression : ArithmeticExpression) :
    (ArithmeticExpression.tree expression).withAlias none = ArithmeticExpression.tree expression := by
  cases expression with
  | atom a => cases a <;> rfl
  | node left op right => rfl

theorem tree_of_alias {one other : ArithmeticExpression} {label : Option String}
    (same : (ArithmeticExpression.tree one).withAlias label = ArithmeticExpression.tree other) : one = other := by
  refine tree_inj ?_
  cases label with
  | none => rwa [tree_plain] at same
  | some label =>
    cases one with
    | atom a =>
      cases other with
      | atom b =>
        cases a with
        | field name =>
          cases b with
          | field other => cases (ParsedExpression.field.inj same).2
          | literal value => cases same
        | literal value =>
          cases b with
          | field name => cases same
          | literal other => cases (ParsedExpression.constant.inj same).2
      | node left op right => cases a <;> cases same
    | node left op right =>
      cases other with
      | atom b => cases b <;> cases same
      | node other_left other_op other_right => cases (ParsedExpression.binaryOp.inj same).2.2.2

theorem printed_ascii (expression : ArithmeticExpression) : ∀ byte ∈ ArithmeticExpression.printed expression, byte.toNat < 128 := by
  have bracketed {brackets : Bool} {text : Bytes} (ascii : ∀ byte ∈ text, byte.toNat < 128) :
      ∀ byte ∈ ArithmeticExpression.side brackets text, byte.toNat < 128 := by
    cases brackets with
    | false => exact ascii
    | true =>
      intro byte among
      rcases List.mem_cons.mp among with rfl | among
      · decide
      · rcases List.mem_append.mp among with inside | last
        · exact ascii byte inside
        · rw [List.mem_singleton.mp last]
          decide
  induction expression with
  | atom a =>
    intro byte among
    cases a with
    | field name =>
      have range := identifier_ascii (List.all_eq_true.mp name.bytes_word byte among)
      omega
    | literal value =>
      obtain ⟨plain,truth⟩ := decimal_plain value
      have small := ((plain_bytes plain truth).2 byte among).1
      omega
  | node left op right ih_left ih_right =>
    intro byte among
    rcases List.mem_append.mp among with front | among
    · exact bracketed ih_left byte front
    · rcases List.mem_cons.mp among with rfl | among
      · decide
      · rcases List.mem_cons.mp among with rfl | among
        · cases op <;> decide
        · rcases List.mem_cons.mp among with rfl | among
          · decide
          · exact bracketed ih_right byte among

end Trees

section Whole
variable {texts : DebugTexts}

theorem peekIdentifier_end (text : String) : peekIdentifier (facing (utf8 text) []) = .ok none := by
  have input : (facing (utf8 text) []).input = utf8 text := List.append_nil _
  have behind : text.toList.drop (facing (utf8 text) []).position = [] := List.drop_eq_nil_of_le (length_le_utf8 text)
  unfold peekIdentifier
  rw [input,fromUTF8_utf8]
  simp only [behind]

theorem alias_end (text : String) : parseAlias.run (facing (utf8 text) []) = .ok none (facing (utf8 text) []) := by
  have keyword : keywordAt (utf8 "AS") (facing (utf8 text) []).rest = false := by
    rw [facing_rest]
    rfl
  have peeked : (liftFault (peekIdentifier (facing (utf8 text) []))).run (facing (utf8 text) []) =
      .ok none (facing (utf8 text) []) := by
    rw [peekIdentifier_end]
    rfl
  have next : peekChar.run (facing (utf8 text) []) = .ok none (facing (utf8 text) []) := by
    rw [run_peekChar,facing_rest]
    rfl
  unfold parseAlias
  rw [run_bind_of_ok (skips_end _),without_keyword "AS" keyword]
  rw [EStateM.run_bind,EStateM.run_get]
  simp only []
  rw [run_bind_of_ok peeked,if_neg (by simp),run_bind_of_ok next]
  rfl

theorem steps_long (rest : List (ArithmeticOperator × ArithmeticAtom)) : rest.length ≤ (stepsBytes (atomSteps rest)).length := by
  induction rest with
  | nil => exact Nat.le_refl _
  | cons step rest ih =>
    have line : stepsBytes (atomSteps (step :: rest)) = 32 :: step.1.byte :: 32 :: (step.2.bytes ++ stepsBytes (atomSteps rest)) :=
      stepsBytes_cons step.1 (.atom step.2) (atomSteps rest)
    rw [line]
    simp only [List.length_cons,List.length_append]
    omega

theorem line_read (text : String) (first : ArithmeticAtom) (rest : List (ArithmeticOperator × ArithmeticAtom)) {before : Bytes}
    (plain : first.Plain ∧ ∀ step ∈ rest, step.2.Plain)
    (whole : before ++ first.bytes ++ stepsBytes (atomSteps rest) = utf8 text) {fuel : Nat} (enough : rest.length+2 ≤ fuel) :
    (parseExpression texts fuel).run (facing before (first.bytes ++ stepsBytes (atomSteps rest))) =
      .ok (ArithmeticExpression.tree (Infix.leftmost (.atom first) rest)) (facing (utf8 text) []) := by
  obtain ⟨fuel,rfl⟩ : ∃ rounds, fuel = rounds+2 := ⟨fuel-2,by omega⟩
  obtain ⟨letter,others,bytes,solid⟩ := atom_starts first
  have starts : first.bytes ++ stepsBytes (atomSteps rest) = letter :: (others ++ stepsBytes (atomSteps rest)) := by
    rw [bytes]
    rfl
  have skipped := @skips_nothing before letter (others ++ stepsBytes (atomSteps rest)) solid
  rw [← starts] at skipped
  have operand := @primary_atom texts before _ first plain.1 (steps_follow (atomSteps rest)) fuel
  have looped := @operands_read texts rest plain.2 (.atom first) (before ++ first.bytes) (fuel+1) (by omega)
  have single : ArithmeticExpression.tree (.atom first) = first.tree := rfl
  rw [whole,single] at looped
  have no_is : keywordAt (utf8 "IS") (facing (utf8 text) []).rest = false := by
    rw [facing_rest]
    rfl
  unfold parseExpression
  rw [run_bind_of_ok skipped,run_bind_of_ok operand,run_bind_of_ok looped,run_bind_of_ok (skips_end _),EStateM.run_bind,
    without_keyword "IS" no_is,EStateM.run_pure]
  simp only []
  rw [run_bind_of_ok (skips_end _),run_bind_of_ok (alias_end text),tree_plain]
  rfl

theorem line_only (line : Item ArithmeticAtom ArithmeticOperator × List (ArithmeticOperator × Item ArithmeticAtom ArithmeticOperator))
    {before : Bytes} {fuel : Nat} {result : ParsedExpression} {behind : SqlParser}
    (read : (parseExpression texts fuel).run (facing before (itemBytes line.1 ++ stepsBytes line.2)) = .ok result behind) :
    Marked result ∨ ∃ first rest, line = Infix.plainItems first rest ∧ (first.Plain ∧ ∀ step ∈ rest, step.2.Plain) ∧
      ∃ label, result = (ArithmeticExpression.tree (Infix.leftmost (.atom first) rest)).withAlias label := by
  obtain ⟨item,steps⟩ := line
  cases fuel with
  | zero => cases read
  | succ fuel =>
    obtain ⟨letter,others,bytes,solid⟩ := item_starts item
    have starts : itemBytes item ++ stepsBytes steps = letter :: (others ++ stepsBytes steps) := by
      rw [bytes]
      rfl
    have skipped := @skips_nothing before letter (others ++ stepsBytes steps) solid
    rw [← starts] at skipped
    unfold parseExpression at read
    rw [run_bind_of_ok skipped] at read
    obtain ⟨primary,middle,operand,read⟩ := run_bind_ok read
    obtain ⟨whole,ended,looped,read⟩ := run_bind_ok read
    obtain ⟨_,_,_,read⟩ := run_bind_ok read
    obtain ⟨tested,_,isNull,read⟩ := run_bind_ok read
    obtain ⟨_,_,_,read⟩ := run_bind_ok read
    obtain ⟨label,_,_,read⟩ := run_bind_ok read
    obtain ⟨rfl,rfl⟩ := EStateM.Result.ok.inj read
    have shape : tested = whole ∨ Marked tested := by
      obtain ⟨is,_,_,isNull⟩ := run_bind_ok isNull
      cases is with
      | false =>
        cases isNull
        exact .inl rfl
      | true =>
        obtain ⟨_,_,_,isNull⟩ := run_bind_ok isNull
        obtain ⟨_,_,_,isNull⟩ := run_bind_ok isNull
        obtain ⟨_,_,_,isNull⟩ := run_bind_ok isNull
        obtain ⟨null,_,_,isNull⟩ := run_bind_ok isNull
        cases null with
        | false =>
          cases isNull
          exact .inl rfl
        | true =>
          cases isNull
          exact .inr (.inr trivial)
    have of_marked (marked : Marked whole) : Marked (tested.withAlias label) := by
      refine marked_alias ?_ label
      rcases shape with rfl | other
      · exact marked
      · exact other
    cases fuel with
    | zero => cases operand
    | succ fuel =>
      cases item with
      | bracketed inner => exact absurd operand primary_bracket
      | atom atom =>
        by_cases plain : atom.Plain
        · have here := @primary_atom texts before _ atom plain (steps_follow steps) fuel
          obtain ⟨rfl,rfl⟩ := EStateM.Result.ok.inj (operand.symm.trans here)
          rcases operands_only steps (.atom atom) looped with marked | ⟨rest,rfl,all,rfl⟩
          · exact .inl (of_marked marked)
          · rcases shape with rfl | marked
            · exact .inr ⟨atom,rest,rfl,⟨plain,all⟩,label,rfl⟩
            · exact .inl (marked_alias marked label)
        · exact .inl (of_marked (operands_marked (primary_marked plain (steps_follow steps) operand) looped))

end Whole

end SqlParser

section Precedence
open SqlParser
variable (texts : DebugTexts)

-- An arithmetic expression at the end of a text is read as it is meant exactly
-- if taking its operators from left to right is what it means, without brackets,
-- and no name in it begins with a keyword.
theorem arithmetic_read_iff (front : String) (expression : ArithmeticExpression) :
    (parseExpression texts (expressionFuel (facing (utf8 front) (ArithmeticExpression.printed expression)))).run
        (facing (utf8 front) (ArithmeticExpression.printed expression)) =
      .ok (ArithmeticExpression.tree expression) (facing (utf8 front ++ ArithmeticExpression.printed expression) []) ↔
    expression.Chain ArithmeticOperator.strength ∧ expression.Every ArithmeticAtom.Plain := by
  constructor
  · intro read
    rw [printed_items] at read
    rcases line_only _ read with marked | ⟨first,rest,line,plain,label,same⟩
    · exact absurd marked (tree_unmarked expression)
    · have grouped := tree_of_alias same.symm
      refine ⟨Infix.chain_of_items line grouped,?_⟩
      rw [← grouped]
      exact Infix.every_leftmost.mpr plain
  · rintro ⟨chain,every⟩
    obtain ⟨first,rest,line,grouped⟩ := Infix.chain_items chain
    rw [← grouped] at every
    have plain := Infix.every_leftmost.mp every
    have bytes : ArithmeticExpression.printed expression = first.bytes ++ stepsBytes (atomSteps rest) := by
      rw [printed_items,line]
      rfl
    have whole : utf8 front ++ first.bytes ++ stepsBytes (atomSteps rest) =
        utf8 (front ++ latin (ArithmeticExpression.printed expression)) := by
      rw [utf8_append,utf8_latin (printed_ascii expression),bytes,List.append_assoc]
    have room : rest.length+2 ≤ expressionFuel (facing (utf8 front) (ArithmeticExpression.printed expression)) := by
      have long := steps_long rest
      rw [expressionFuel,facing_rest,bytes,List.length_append]
      omega
    have read := @line_read texts _ first rest _ plain whole _ room
    rw [← whole,← bytes,List.append_assoc,← bytes,grouped] at read
    exact read

def fieldA : ArithmeticAtom := .field ⟨97,[],Eq.refl true,Eq.refl true⟩
def fieldB : ArithmeticAtom := .field ⟨98,[],Eq.refl true,Eq.refl true⟩
def fieldC : ArithmeticAtom := .field ⟨99,[],Eq.refl true,Eq.refl true⟩

-- The sum is taken first.
theorem product_misread :
    ArithmeticExpression.printed (.node (.atom fieldA) .add (.node (.atom fieldB) .multiply (.atom fieldC))) = utf8 "a + b * c" ∧
    (parseExpression noTexts (expressionFuel (SqlParser.new "a + b * c"))).run (SqlParser.new "a + b * c") =
      .ok (.binaryOp (.binaryOp (.field "a" none) .add (.field "b" none) none) .multiply (.field "c" none) none)
        (facing (utf8 "a + b * c") []) ∧
    ArithmeticExpression.tree (.node (.atom fieldA) .add (.node (.atom fieldB) .multiply (.atom fieldC))) =
      .binaryOp (.field "a" none) .add (.binaryOp (.field "b" none) .multiply (.field "c" none) none) none := by
  have first : fieldA.Plain := ⟨by decide +kernel,by decide +kernel⟩
  have rest (step : ArithmeticOperator × ArithmeticAtom) (among : step ∈ [(.add,fieldB),(.multiply,fieldC)]) : step.2.Plain := by
    simp only [List.mem_cons,List.not_mem_nil,or_false] at among
    rcases among with rfl | rfl <;> exact ⟨by decide +kernel,by decide +kernel⟩
  have read := @line_read noTexts "a + b * c" fieldA _ [] ⟨first,rest⟩ (by decide +kernel) 40 (by decide)
  exact ⟨by decide +kernel,read,rfl⟩

end Precedence

end RemDb
