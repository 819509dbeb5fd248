import RemDb.Json.Grammar

namespace RemDb
namespace Json

section Spacing

theorem asciiWhitespace_iff {letter : Char} : asciiWhitespace letter = true ↔ isSpace .lax letter := by
  simp only [asciiWhitespace,decide_eq_true_eq,isSpace,true_and]
  grind

theorem skipWhitespace_spaces {space : List Char} (spaces : Spaces .lax space) (letters : List Char) :
    skipWhitespace (space ++ letters) = skipWhitespace letters := by
  induction space with
  | nil => rfl
  | cons letter space ih =>
    have first : asciiWhitespace letter = true := asciiWhitespace_iff.mpr (spaces letter (.head _))
    simp only [skipWhitespace,List.cons_append,List.dropWhile_cons,first,if_true]
    exact ih fun other among => spaces other (.tail _ among)

theorem skipWhitespace_cons {letter : Char} (dark : asciiWhitespace letter = false) (rest : List Char) :
    skipWhitespace (letter :: rest) = letter :: rest := by
  simp only [skipWhitespace,List.dropWhile_cons,dark]
  rfl

-- What is skipped is a run of spaces, and a letter that is none comes after it.
theorem skipWhitespace_split (letters : List Char) :
    ∃ space, Spaces .lax space ∧ letters = space ++ skipWhitespace letters ∧
      ∀ letter ∈ (skipWhitespace letters).head?, ¬ isSpace .lax letter := by
  induction letters with
  | nil => exact ⟨[],nofun,rfl,nofun⟩
  | cons letter rest ih =>
    cases is_space : asciiWhitespace letter with
    | false =>
      refine ⟨[],nofun,(skipWhitespace_cons is_space rest).symm,?_⟩
      rw [skipWhitespace_cons is_space]
      intro other head
      obtain rfl : letter = other := Option.some.inj head
      exact fun space => by simp [asciiWhitespace_iff.mpr space] at is_space
    | true =>
      have skipped : skipWhitespace (letter :: rest) = skipWhitespace rest := by
        simp only [skipWhitespace,List.dropWhile_cons,is_space,if_true]
      obtain ⟨space,spaces,split,behind⟩ := ih
      refine ⟨letter :: space,?_,?_,skipped ▸ behind⟩
      · intro other among
        rcases List.mem_cons.mp among with rfl | among
        · exact asciiWhitespace_iff.mp is_space
        · exact spaces other among
      · rw [skipped,List.cons_append,← split]

end Spacing

section Strings

theorem parseString_quote (rest : List Char) : parseString (quote :: rest) = .ok ([],rest) := by
  unfold parseString
  rw [if_pos rfl]

theorem parseString_plain {letter : Char} (not_quote : letter ≠ quote) (not_escape : letter ≠ backslash)
    (rest : List Char) :
    parseString (letter :: rest) = (parseString rest).map fun read => (letter :: read.1,read.2) := by
  conv_lhs => unfold parseString
  rw [if_neg not_quote,if_neg not_escape]

theorem unescape_unicode : unescape 'u' = none := by decide

theorem parseString_escaped {letter meant : Char} (means : unescape letter = some meant) (rest : List Char) :
    parseString (backslash :: letter :: rest) = (parseString rest).map fun read => (meant :: read.1,read.2) := by
  have not_u : letter ≠ 'u' := by
    rintro rfl
    cases unescape_unicode.symm.trans means
  conv_lhs => unfold parseString
  rw [if_neg (by decide),if_pos rfl]
  simp only [if_neg not_u,means]

theorem parseString_unicode {first second third fourth : Char} {code : Nat}
    (digits : hexCode first second third fourth = some code) (behind : Char) (rest : List Char) :
    parseString (backslash :: 'u' :: first :: second :: third :: fourth :: behind :: rest) =
      (parseString rest).map fun read => (fromCode code ++ read.1,read.2) := by
  conv_lhs => unfold parseString
  rw [if_neg (by decide),if_pos rfl]
  simp only [if_true,digits]

theorem parseString_body {body content : List Char} (written : Body .lax body content) (rest : List Char) :
    parseString (body ++ quote :: rest) = .ok (content,rest) := by
  induction written with
  | done => exact parseString_quote rest
  | plain not_quote not_escape _ ih =>
    rw [List.cons_append,parseString_plain not_quote not_escape,ih]
    rfl
  | escaped means _ ih =>
    rw [List.cons_append,List.cons_append,parseString_escaped means,ih]
    rfl
  | unicode never => cases never
  | pair never => cases never
  | eaten _ digits _ ih =>
    simp only [List.cons_append]
    rw [parseString_unicode digits,ih]
    rfl

theorem map_ok {ε α β : Type} {f : α → β} {result : Except ε α} {value : β} (ok : result.map f = .ok value) :
    ∃ before, result = .ok before ∧ f before = value := by
  cases result with
  | error failure => cases ok
  | ok before => exact ⟨before,rfl,Except.ok.inj ok⟩

theorem body_of_parseString {letters content rest : List Char} (ok : parseString letters = .ok (content,rest)) :
    ∃ body, letters = body ++ quote :: rest ∧ Body .lax body content := by
  induction letters using parseString.induct generalizing content rest with
  | case1 => cases ok
  | case2 others =>
    obtain ⟨rfl,rfl⟩ := Prod.mk.inj (Except.ok.inj ((parseString_quote others).symm.trans ok))
    exact ⟨[],rfl,.done⟩
  | case3 => cases ok
  | case4 first second third fourth code digits =>
    unfold parseString at ok
    rw [if_neg (by decide),if_pos rfl] at ok
    simp [digits] at ok
  | case5 first second third fourth code digits behind others _ ih =>
    obtain ⟨⟨later,left⟩,read,same⟩ := map_ok ((parseString_unicode digits behind others).symm.trans ok)
    obtain ⟨rfl,rfl⟩ := Prod.mk.inj same
    obtain ⟨body,rfl,written⟩ := ih read
    exact ⟨_,rfl,.eaten rfl digits written⟩
  | case6 first second third fourth more no_code =>
    unfold parseString at ok
    rw [if_neg (by decide),if_pos rfl] at ok
    simp [no_code] at ok
  | case7 others _ few =>
    unfold parseString at ok
    rw [if_neg (by decide),if_pos rfl] at ok
    simp only [if_true] at ok
    cases ok
  | case8 letter others not_u meant means _ ih =>
    obtain ⟨⟨later,left⟩,read,same⟩ := map_ok ((parseString_escaped means others).symm.trans ok)
    obtain ⟨rfl,rfl⟩ := Prod.mk.inj same
    obtain ⟨body,rfl,written⟩ := ih read
    exact ⟨_,rfl,.escaped means written⟩
  | case9 letter others not_u no_meaning =>
    unfold parseString at ok
    rw [if_neg (by decide),if_pos rfl] at ok
    simp [not_u,no_meaning] at ok
  | case10 letter others not_quote not_escape ih =>
    obtain ⟨⟨later,left⟩,read,same⟩ := map_ok ((parseString_plain not_quote not_escape others).symm.trans ok)
    obtain ⟨rfl,rfl⟩ := Prod.mk.inj same
    obtain ⟨body,rfl,written⟩ := ih read
    exact ⟨_,rfl,.plain not_quote not_escape written⟩

end Strings

section Numbers

open NumberParts

theorem digits_stop {rest : List Char} (stop : noDigit rest) :
    rest.takeWhile asciiDigit = [] ∧ rest.dropWhile asciiDigit = rest := by
  cases rest with
  | nil => exact ⟨rfl,rfl⟩
  | cons letter rest =>
    have no : asciiDigit letter = false := stop letter rfl
    simp [no]

theorem digits_taken {digits rest : List Char} (all : ∀ letter ∈ digits, asciiDigit letter = true)
    (stop : noDigit rest) :
    (digits ++ rest).takeWhile asciiDigit = digits ∧ (digits ++ rest).dropWhile asciiDigit = rest := by
  rw [List.takeWhile_append_of_pos all,List.dropWhile_append_of_pos all,(digits_stop stop).1,(digits_stop stop).2,
    List.append_nil]
  exact ⟨rfl,rfl⟩

theorem digits_split (letters : List Char) :
    (∀ letter ∈ letters.takeWhile asciiDigit, asciiDigit letter = true) ∧ noDigit (letters.dropWhile asciiDigit) := by
  refine ⟨fun letter among => List.all_eq_true.mp List.all_takeWhile letter among,?_⟩
  intro letter head
  have stopped := List.head?_dropWhile_not asciiDigit letters
  rw [Option.mem_def.mp head] at stopped
  exact stopped

theorem readDigits_text {failure : String} {digits rest : List Char} (some_digits : Digits digits)
    (stop : noDigit rest) : readDigits failure (digits ++ rest) = .ok (digits,rest) := by
  obtain ⟨taken,left⟩ := digits_taken some_digits.2 stop
  rw [readDigits,taken,left,if_neg some_digits.1]

theorem readDigits_ok {failure : String} {letters digits rest : List Char}
    (ok : readDigits failure letters = .ok (digits,rest)) :
    letters = digits ++ rest ∧ Digits digits ∧ noDigit rest := by
  simp only [readDigits] at ok
  split at ok
  · cases ok
  · rename_i nonempty
    obtain ⟨rfl,rfl⟩ := Prod.mk.inj (Except.ok.inj ok)
    exact ⟨List.takeWhile_append_dropWhile.symm,⟨nonempty,(digits_split letters).1⟩,(digits_split letters).2⟩

def IntegerPart (integer rest : List Char) : Prop :=
  (integer = ['0'] ∨ ∃ first later, integer = first :: later ∧ first ≠ '0' ∧ Digits (first :: later)) ∧
    (integer ≠ ['0'] → noDigit rest)

def FractionPart (fraction rest : List Char) : Prop :=
  (fraction = [] ∧ rest.head? ≠ some '.') ∨ ∃ digits, fraction = '.' :: digits ∧ Digits digits ∧ noDigit rest

def ExponentPart (exponent rest : List Char) : Prop :=
  (exponent = [] ∧ rest.head? ≠ some 'e' ∧ rest.head? ≠ some 'E') ∨ ∃ mark sign digits,
    exponent = mark :: sign ++ digits ∧ (mark = 'e' ∨ mark = 'E') ∧ (sign = [] ∨ sign = ['+'] ∨ sign = ['-']) ∧
      Digits digits ∧ noDigit rest

theorem readInteger_iff {letters integer rest : List Char} :
    readInteger letters = .ok (integer,rest) ↔ letters = integer ++ rest ∧ IntegerPart integer rest := by
  constructor
  · intro ok
    cases letters with
    | nil => cases ok
    | cons letter letters =>
      simp only [readInteger] at ok
      split at ok
      · rename_i is_zero
        obtain ⟨rfl,rfl⟩ := Prod.mk.inj (Except.ok.inj ok)
        exact ⟨is_zero ▸ rfl,.inl rfl,fun not_zero => absurd rfl not_zero⟩
      · rename_i not_zero
        split at ok
        · rename_i is_digit
          obtain ⟨rfl,rfl⟩ := Prod.mk.inj (Except.ok.inj ok)
          refine ⟨by rw [List.cons_append,List.takeWhile_append_dropWhile],.inr ⟨letter,_,rfl,not_zero,by simp,?_⟩,
            fun _ => (digits_split letters).2⟩
          intro other among
          rcases List.mem_cons.mp among with rfl | among
          · exact is_digit
          · exact (digits_split letters).1 other among
        · cases ok
  · rintro ⟨rfl,rfl | ⟨first,later,rfl,not_zero,nonempty,all⟩,stop⟩
    · rfl
    · have stopped := stop fun same => not_zero (List.cons.inj same).1
      obtain ⟨taken,left⟩ := digits_taken (fun letter among => all letter (.tail _ among)) stopped
      rw [List.cons_append,readInteger,if_neg not_zero,if_pos (all first (.head _)),taken,left]

theorem readFraction_iff {letters fraction rest : List Char} :
    readFraction letters = .ok (fraction,rest) ↔ letters = fraction ++ rest ∧ FractionPart fraction rest := by
  constructor
  · intro ok
    unfold readFraction at ok
    split at ok
    · rename_i letters
      obtain ⟨⟨digits,left⟩,read,same⟩ := map_ok ok
      obtain ⟨rfl,rfl⟩ := Prod.mk.inj same
      obtain ⟨rfl,digits_ok,stop⟩ := readDigits_ok read
      exact ⟨rfl,.inr ⟨digits,rfl,digits_ok,stop⟩⟩
    · rename_i no_point
      obtain ⟨rfl,rfl⟩ := Prod.mk.inj (Except.ok.inj ok)
      refine ⟨rfl,.inl ⟨rfl,fun head => ?_⟩⟩
      obtain ⟨others,rfl⟩ := List.head?_eq_some_iff.mp head
      exact no_point others rfl
  · rintro ⟨rfl,⟨rfl,no_point⟩ | ⟨digits,rfl,digits_ok,stop⟩⟩
    · unfold readFraction
      split
      · rename_i others same
        exact absurd (congrArg List.head? same) no_point
      · rfl
    · rw [List.cons_append,readFraction,readDigits_text digits_ok stop]
      rfl

theorem readExponentSign_split (letters : List Char) :
    letters = (readExponentSign letters).1 ++ (readExponentSign letters).2 ∧
      ((readExponentSign letters).1 = [] ∨ (readExponentSign letters).1 = ['+'] ∨ (readExponentSign letters).1 = ['-']) := by
  unfold readExponentSign
  split
  · exact ⟨rfl,.inr (.inl rfl)⟩
  · exact ⟨rfl,.inr (.inr rfl)⟩
  · exact ⟨rfl,.inl rfl⟩

theorem readExponentSign_digits {sign digits rest : List Char} (signs : sign = [] ∨ sign = ['+'] ∨ sign = ['-'])
    (digits_ok : Digits digits) : readExponentSign (sign ++ (digits ++ rest)) = (sign,digits ++ rest) := by
  rcases signs with rfl | rfl | rfl
  · obtain ⟨nonempty,all⟩ := digits_ok
    obtain ⟨first,later,rfl⟩ := List.exists_cons_of_ne_nil nonempty
    have is_digit := all first (.head _)
    unfold readExponentSign
    split
    · rename_i same
      obtain rfl : first = '+' := (List.cons.inj same).1
      cases is_digit
    · rename_i same
      obtain rfl : first = '-' := (List.cons.inj same).1
      cases is_digit
    · rfl
  · rfl
  · rfl

theorem readExponent_iff {letters exponent rest : List Char} :
    readExponent letters = .ok (exponent,rest) ↔ letters = exponent ++ rest ∧ ExponentPart exponent rest := by
  constructor
  · intro ok
    cases letters with
    | nil =>
      obtain ⟨rfl,rfl⟩ := Prod.mk.inj (Except.ok.inj ok)
      exact ⟨rfl,.inl ⟨rfl,nofun,nofun⟩⟩
    | cons letter letters =>
      simp only [readExponent] at ok
      split at ok
      · rename_i mark
        obtain ⟨⟨digits,left⟩,read,same⟩ := map_ok ok
        obtain ⟨rfl,rfl⟩ := Prod.mk.inj same
        obtain ⟨behind,digits_ok,stop⟩ := readDigits_ok read
        obtain ⟨split,signs⟩ := readExponentSign_split letters
        refine ⟨?_,.inr ⟨letter,_,digits,rfl,mark,signs,digits_ok,stop⟩⟩
        change letter :: letters = letter :: ((readExponentSign letters).1 ++ digits ++ left)
        rw [List.append_assoc,← behind,← split]
      · rename_i no_mark
        obtain ⟨rfl,rfl⟩ := Prod.mk.inj (Except.ok.inj ok)
        exact ⟨rfl,.inl ⟨rfl,fun head => no_mark (.inl (Option.some.inj head)),
          fun head => no_mark (.inr (Option.some.inj head))⟩⟩
  · rintro ⟨rfl,⟨rfl,no_e,no_capital⟩ | ⟨mark,sign,digits,rfl,is_mark,signs,digits_ok,stop⟩⟩
    · cases rest with
      | nil => rfl
      | cons letter rest =>
        rw [List.nil_append,readExponent,if_neg]
        rintro (rfl | rfl)
        · exact no_e rfl
        · exact no_capital rfl
    · rw [List.cons_append,List.cons_append,List.append_assoc,readExponent,if_pos is_mark]
      simp only [readExponentSign_digits signs digits_ok,readDigits_text digits_ok stop]
      rfl

theorem readSign_split (letters : List Char) : letters = (readSign letters).1 ++ (readSign letters).2 ∧
    ((readSign letters).1 = [] ∨ (readSign letters).1 = ['-']) := by
  unfold readSign
  split
  · exact ⟨rfl,.inr rfl⟩
  · exact ⟨rfl,.inl rfl⟩

theorem IntegerPart.first {integer rest : List Char} (part : IntegerPart integer rest) :
    ∃ letter later, integer = letter :: later ∧ asciiDigit letter = true := by
  rcases part.1 with rfl | ⟨letter,later,rfl,_,_,all⟩
  · exact ⟨'0',[],rfl,by decide⟩
  · exact ⟨letter,later,rfl,all letter (.head _)⟩

theorem readSign_integer {sign integer behind rest : List Char} (signs : sign = [] ∨ sign = ['-'])
    (part : IntegerPart integer behind) : readSign (sign ++ (integer ++ rest)) = (sign,integer ++ rest) := by
  rcases signs with rfl | rfl
  · obtain ⟨letter,later,rfl,is_digit⟩ := part.first
    unfold readSign
    split
    · rename_i same
      obtain rfl : letter = '-' := (List.cons.inj same).1
      cases is_digit
    · rfl
  · rfl

theorem NumberParts.Valid.parts {parts : NumberParts} {rest : List Char} (valid : parts.Valid) (ends : parts.Ends rest) :
    IntegerPart parts.integer (parts.fraction ++ (parts.exponent ++ rest)) ∧
      FractionPart parts.fraction (parts.exponent ++ rest) ∧ ExponentPart parts.exponent rest := by
  have no_digit_of_point (digits behind : List Char) : noDigit ('.' :: digits ++ behind) := by
    intro letter head
    obtain rfl : '.' = letter := Option.some.inj head
    decide
  have no_digit_of_mark {mark : Char} (is_mark : mark = 'e' ∨ mark = 'E') (behind : List Char) :
      noDigit (mark :: behind) := by
    intro letter head
    obtain rfl : mark = letter := Option.some.inj head
    rcases is_mark with rfl | rfl <;> decide
  have not_point_of_mark {mark : Char} (is_mark : mark = 'e' ∨ mark = 'E') (behind : List Char) :
      (mark :: behind).head? ≠ some '.' := by
    intro head
    obtain rfl : mark = '.' := Option.some.inj head
    rcases is_mark with is | is <;> cases is
  obtain ⟨sign,integer,fraction,exponent⟩ := parts
  obtain ⟨signs,integers,fractions,exponents⟩ := valid
  dsimp only at *
  refine ⟨⟨integers,?_⟩,?_,?_⟩
  · intro not_zero
    rcases fractions with rfl | ⟨digits,rfl,_⟩
    · rcases exponents with rfl | ⟨mark,exponent_sign,digits,rfl,is_mark,_⟩
      · exact ends.integer rfl rfl not_zero
      · exact no_digit_of_mark is_mark _
    · exact no_digit_of_point digits _
  · rcases fractions with rfl | ⟨digits,rfl,digits_ok⟩
    · rcases exponents with rfl | ⟨mark,exponent_sign,digits,rfl,is_mark,_⟩
      · exact .inl ⟨rfl,ends.point rfl rfl⟩
      · exact .inl ⟨rfl,not_point_of_mark is_mark _⟩
    · refine .inr ⟨digits,rfl,digits_ok,?_⟩
      rcases exponents with rfl | ⟨mark,exponent_sign,others,rfl,is_mark,_⟩
      · exact ends.fraction (List.cons_ne_nil _ _) rfl
      · exact no_digit_of_mark is_mark _
  · rcases exponents with rfl | ⟨mark,exponent_sign,digits,rfl,is_mark,exponent_signs,digits_ok⟩
    · exact .inl ⟨rfl,ends.mark rfl⟩
    · exact .inr ⟨mark,exponent_sign,digits,rfl,is_mark,exponent_signs,digits_ok,
        ends.exponent (List.cons_ne_nil _ _)⟩

theorem parseNumber_parts {parts : NumberParts} {rest : List Char} (valid : parts.Valid) (ends : parts.Ends rest) :
    parseNumber (parts.text ++ rest) = .ok (.number (String.ofList parts.text),rest) := by
  obtain ⟨integer,fraction,exponent⟩ := valid.parts ends
  have split : parts.text ++ rest =
      parts.sign ++ (parts.integer ++ (parts.fraction ++ (parts.exponent ++ rest))) := by
    simp only [NumberParts.text,List.append_assoc]
  rw [parseNumber,split,readSign_integer valid.sign integer]
  simp only [readInteger_iff.mpr ⟨rfl,integer⟩,readFraction_iff.mpr ⟨rfl,fraction⟩,
    readExponent_iff.mpr ⟨rfl,exponent⟩,bind,Except.bind,pure,Except.pure,NumberParts.text]

theorem bind_ok {ε α β : Type} {result : Except ε α} {next : α → Except ε β} {value : β}
    (ok : result >>= next = .ok value) : ∃ before, result = .ok before ∧ next before = .ok value := by
  cases result with
  | error failure => cases ok
  | ok before => exact ⟨before,rfl,ok⟩

theorem parts_of_parseNumber {letters rest : List Char} {value : JsonValue}
    (ok : parseNumber letters = .ok (value,rest)) :
    ∃ parts : NumberParts, parts.Valid ∧ parts.Ends rest ∧ letters = parts.text ++ rest ∧
      value = .number (String.ofList parts.text) := by
  obtain ⟨⟨integer,behind_integer⟩,integer_ok,ok⟩ := bind_ok ok
  obtain ⟨⟨fraction,behind_fraction⟩,fraction_ok,ok⟩ := bind_ok ok
  obtain ⟨⟨exponent,behind_exponent⟩,exponent_ok,ok⟩ := bind_ok ok
  obtain ⟨rfl,rfl⟩ := Prod.mk.inj (Except.ok.inj ok)
  obtain ⟨after_sign,integers,stop⟩ := readInteger_iff.mp integer_ok
  obtain ⟨rfl,fractions⟩ := readFraction_iff.mp fraction_ok
  obtain ⟨rfl,exponents⟩ := readExponent_iff.mp exponent_ok
  obtain ⟨split,signs⟩ := readSign_split letters
  refine ⟨⟨(readSign letters).1,integer,fraction,exponent⟩,⟨signs,integers,?_,?_⟩,⟨?_,?_,?_,?_,?_⟩,?_,rfl⟩
  · rcases fractions with ⟨none,_⟩ | ⟨digits,is,digits_ok,_⟩
    · exact .inl none
    · exact .inr ⟨digits,is,digits_ok⟩
  · rcases exponents with ⟨none,_⟩ | ⟨mark,sign,digits,is,is_mark,sign_ok,digits_ok,_⟩
    · exact .inl none
    · exact .inr ⟨mark,sign,digits,is,is_mark,sign_ok,digits_ok⟩
  · rintro rfl rfl not_zero
    exact stop not_zero
  · rintro rfl rfl
    exact (fractions.resolve_right fun some_digits => by simp at some_digits).2
  · rintro some_fraction rfl
    obtain ⟨_,_,_,stop⟩ := fractions.resolve_left fun none => some_fraction none.1
    exact stop
  · rintro rfl
    exact (exponents.resolve_right fun some_digits => by simp at some_digits).2
  · intro some_exponent
    obtain ⟨_,_,_,_,_,_,_,stop⟩ := exponents.resolve_left fun none => some_exponent none.1
    exact stop
  · refine split.trans ?_
    rw [after_sign]
    simp only [NumberParts.text,List.append_assoc]

end Numbers

section Values

-- What is read of a value does not go on in what follows it.
def Stops (value : JsonValue) (text rest : List Char) : Prop :=
  ∀ number, value = .number number → ∃ parts : NumberParts, parts.Valid ∧ text = parts.text ∧ parts.Ends rest

def Apart (rest : List Char) : Prop :=
  ∀ letter ∈ rest.head?, asciiDigit letter = false ∧ letter ≠ '.' ∧ letter ≠ 'e' ∧ letter ≠ 'E'

theorem Apart.ends {rest : List Char} (apart : Apart rest) (parts : NumberParts) : parts.Ends rest where
  integer _ _ _ := fun letter head => (apart letter head).1
  point _ _ := fun head => (apart '.' head).2.1 rfl
  fraction _ _ := fun letter head => (apart letter head).1
  mark _ := ⟨fun head => (apart 'e' head).2.2.1 rfl,fun head => (apart 'E' head).2.2.2 rfl⟩
  exponent _ := fun letter head => (apart letter head).1

theorem Apart.stops {mode : Mode} {text rest : List Char} {value : JsonValue} (apart : Apart rest)
    (written : Text mode text (.value value)) : Stops value text rest := by
  rintro number rfl
  cases written with
  | number valid => exact ⟨_,valid,rfl,apart.ends _⟩

theorem dark_of_unicode {letter : Char} (dark : unicodeWhitespace letter = false) : asciiWhitespace letter = false := by
  refine Bool.eq_false_iff.mpr fun white => ?_
  simp only [asciiWhitespace,decide_eq_true_eq] at white
  rcases white with rfl | rfl | rfl | rfl | rfl <;> cases dark

theorem digit_dark {letter : Char} (is_digit : asciiDigit letter = true) :
    unicodeWhitespace letter = false ∧ letter ≠ ']' ∧ letter ≠ quote ∧ letter ≠ Char.ofNat 123 ∧ letter ≠ '[' ∧
      letter ≠ 't' ∧ letter ≠ 'f' ∧ letter ≠ 'n' := by
  simp only [asciiDigit,decide_eq_true_eq] at is_digit
  have differs {other : Char} (out : other.toNat < 48 ∨ 57 < other.toNat) : letter ≠ other := by
    rintro rfl
    omega
  refine ⟨?_,differs (by decide),differs (by decide),differs (by decide),differs (by decide),differs (by decide),
    differs (by decide),differs (by decide)⟩
  simp only [unicodeWhitespace,decide_eq_false_iff_not]
  omega

theorem NumberParts.Valid.first {parts : NumberParts} (valid : parts.Valid) :
    ∃ letter later, parts.text = letter :: later ∧ (letter = '-' ∨ asciiDigit letter = true) := by
  have integer : IntegerPart parts.integer [] := ⟨valid.integer,fun _ => nofun⟩
  obtain ⟨letter,later,is,is_digit⟩ := integer.first
  rcases valid.sign with none | minus
  · exact ⟨letter,_,by rw [NumberParts.text,none,is]; rfl,.inr is_digit⟩
  · exact ⟨'-',_,by rw [NumberParts.text,minus]; rfl,.inl rfl⟩

theorem Text.first {mode : Mode} {text : List Char} {value : JsonValue} (written : Text mode text (.value value)) :
    ∃ letter later, text = letter :: later ∧ unicodeWhitespace letter = false ∧ letter ≠ ']' := by
  cases written with
  | null => exact ⟨'n',_,rfl,by decide,by decide⟩
  | boolean value =>
    cases value with
    | true => exact ⟨'t',_,rfl,by decide,by decide⟩
    | false => exact ⟨'f',_,rfl,by decide,by decide⟩
  | number valid =>
    obtain ⟨letter,later,is,rfl | is_digit⟩ := valid.first
    · exact ⟨'-',later,is,by decide,by decide⟩
    · exact ⟨letter,later,is,(digit_dark is_digit).1,(digit_dark is_digit).2.1⟩
  | string => exact ⟨quote,_,rfl,by decide,by decide⟩
  | array => exact ⟨'[',_,rfl,by decide,by decide⟩
  | object => exact ⟨Char.ofNat 123,_,rfl,by decide,by decide⟩

theorem apart_behind {behind : List Char} {letter : Char} (spaces : Spaces .lax behind)
    (end_letter : letter = ']' ∨ letter = Char.ofNat 125 ∨ letter = ',') (rest : List Char) :
    Apart (behind ++ letter :: rest) := by
  intro other head
  cases behind with
  | nil =>
    obtain rfl : letter = other := Option.some.inj head
    rcases end_letter with rfl | rfl | rfl <;> decide
  | cons first behind =>
    obtain rfl : first = other := Option.some.inj head
    rcases spaces first (.head _) with rfl | rfl | rfl | rfl | ⟨_,rfl⟩ <;> decide

end Values

section Steps

theorem parseValue_spaces {space : List Char} (spaces : Spaces .lax space) (fuel : Nat) (letters : List Char) :
    parseValue fuel (space ++ letters) = parseValue fuel letters := by
  cases fuel with
  | zero => rfl
  | succ fuel => rw [parseValue,parseValue,skipWhitespace_spaces spaces]

theorem parseItems_spaces {space : List Char} (spaces : Spaces .lax space) (fuel : Nat) (arr : List JsonValue)
    (letters : List Char) : parseItems fuel arr (space ++ letters) = parseItems fuel arr letters := by
  cases fuel with
  | zero => rfl
  | succ fuel => rw [parseItems,parseItems,skipWhitespace_spaces spaces]

theorem parseMembers_spaces {space : List Char} (spaces : Spaces .lax space) (fuel : Nat)
    (obj : List (String × JsonValue)) (letters : List Char) :
    parseMembers fuel obj (space ++ letters) = parseMembers fuel obj letters := by
  cases fuel with
  | zero => rfl
  | succ fuel => rw [parseMembers,parseMembers,skipWhitespace_spaces spaces]

theorem parseValue_cons {letter : Char} (dark : asciiWhitespace letter = false) (fuel : Nat) (rest : List Char) :
    parseValue (fuel+1) (letter :: rest) =
      if letter = quote then (parseString rest).map fun read => (.string (String.ofList read.1),read.2)
      else if letter = Char.ofNat 123 then (parseMembers fuel [] rest).map fun read => (.object read.1,read.2)
      else if letter = '[' then (parseItems fuel [] rest).map fun read => (.array read.1,read.2)
      else if letter = 't' then parseLiteral "true" (.boolean true) (letter :: rest)
      else if letter = 'f' then parseLiteral "false" (.boolean false) (letter :: rest)
      else if letter = 'n' then parseLiteral "null" .null (letter :: rest)
      else if letter = '-' ∨ asciiDigit letter then parseNumber (letter :: rest)
      else .error "Invalid JSON value" := by
  rw [parseValue,skipWhitespace_cons dark]

theorem parseItems_close (fuel : Nat) (arr : List JsonValue) (rest : List Char) :
    parseItems (fuel+1) arr (']' :: rest) = .ok (arr,rest) := by
  rw [parseItems,skipWhitespace_cons (by decide)]
  exact if_pos rfl

theorem parseItems_item {fuel : Nat} {arr : List JsonValue} {letters behind rest : List Char} {value : JsonValue}
    {next : Char} (first : ∀ letter ∈ letters.head?, asciiWhitespace letter = false ∧ letter ≠ ']')
    (read : parseValue fuel letters = .ok (value,behind ++ next :: rest)) (spaces : Spaces .lax behind)
    (dark : asciiWhitespace next = false) :
    parseItems (fuel+1) arr letters =
      if next = ']' then .ok (arr ++ [value],rest)
      else if next ≠ ',' then .error "Expected comma after array value"
      else parseItems fuel (arr ++ [value]) rest := by
  cases letters with
  | nil =>
    cases fuel with
    | zero => cases read
    | succ fuel => cases read
  | cons letter later =>
    obtain ⟨first_dark,not_end⟩ := first letter rfl
    rw [parseItems,skipWhitespace_cons first_dark]
    simp only [if_neg not_end,read,skipWhitespace_spaces spaces,skipWhitespace_cons dark]

theorem parseMembers_close (fuel : Nat) (obj : List (String × JsonValue)) (rest : List Char) :
    parseMembers (fuel+1) obj (Char.ofNat 125 :: rest) = .ok (obj,rest) := by
  rw [parseMembers,skipWhitespace_cons (by decide)]
  exact if_pos rfl

theorem parseMembers_member {fuel : Nat} {obj : List (String × JsonValue)}
    {key content colon_space letters behind rest : List Char} {delimiter next : Char} {value : JsonValue}
    (not_end : delimiter ≠ Char.ofNat 125) (delimiter_dark : asciiWhitespace delimiter = false)
    (named : Body .lax key content) (colon_spaces : Spaces .lax colon_space)
    (read : parseValue fuel letters = .ok (value,behind ++ next :: rest)) (spaces : Spaces .lax behind)
    (dark : asciiWhitespace next = false) :
    parseMembers (fuel+1) obj (delimiter :: (key ++ quote :: (colon_space ++ ':' :: letters))) =
      if next = Char.ofNat 125 then .ok (insertEntry (String.ofList content) value obj,rest)
      else if next ≠ ',' then .error "Expected comma after object value"
      else parseMembers fuel (insertEntry (String.ofList content) value obj) rest := by
  have colon_dark : asciiWhitespace ':' = false := by decide
  rw [parseMembers,skipWhitespace_cons delimiter_dark]
  simp only [if_neg not_end,parseString_body named,skipWhitespace_spaces colon_spaces,
    skipWhitespace_cons colon_dark,ne_eq,not_true_eq_false,if_false,read,skipWhitespace_spaces spaces,
    skipWhitespace_cons dark]

theorem parseLiteral_text {literal : String} {value : JsonValue} (rest : List Char) :
    parseLiteral literal value (literal.toList ++ rest) = .ok (value,rest) := by
  rw [parseLiteral,if_pos (List.isPrefixOf_iff_prefix.mpr (List.prefix_append _ _)),← String.length_toList,
    List.drop_left]

end Steps

section Completeness

def Part.Read (fuel : Nat) (letters rest : List Char) : Part → Prop
  | .value result => parseValue fuel letters = .ok (result,rest)
  | .items _ results => ∀ arr, parseItems fuel arr letters = .ok (arr ++ results,rest)
  | .members _ before after => parseMembers fuel before letters = .ok (after,rest)

def Part.Stops (text rest : List Char) : Part → Prop
  | .value result => Json.Stops result text rest
  | .items _ _ => True
  | .members _ _ _ => True

theorem delimiter_dark {delimiter : Char}
    (delimits : delimiter = quote ∨ (Mode.lax = .lax ∧ delimiter ≠ Char.ofNat 125 ∧ ¬ isSpace .lax delimiter)) :
    delimiter ≠ Char.ofNat 125 ∧ asciiWhitespace delimiter = false := by
  rcases delimits with rfl | ⟨_,not_end,dark⟩
  · decide
  · exact ⟨not_end,Bool.eq_false_iff.mpr fun white => dark (asciiWhitespace_iff.mp white)⟩

theorem parseValue_boolean (fuel : Nat) (value : Bool) (rest : List Char) :
    parseValue (fuel+1) ((if value then "true".toList else "false".toList) ++ rest) = .ok (.boolean value,rest) := by
  cases value with
  | true =>
    change parseValue (fuel+1) ('t' :: ("rue".toList ++ rest)) = _
    rw [parseValue_cons (by decide),if_neg (by decide),if_neg (by decide),if_neg (by decide),if_pos rfl]
    exact parseLiteral_text rest
  | false =>
    change parseValue (fuel+1) ('f' :: ("alse".toList ++ rest)) = _
    rw [parseValue_cons (by decide),if_neg (by decide),if_neg (by decide),if_neg (by decide),if_neg (by decide),
      if_pos rfl]
    exact parseLiteral_text rest

theorem parseValue_number {parts : NumberParts} {rest : List Char} (valid : parts.Valid) (ends : parts.Ends rest)
    (fuel : Nat) : parseValue (fuel+1) (parts.text ++ rest) = .ok (.number (String.ofList parts.text),rest) := by
  have read := parseNumber_parts valid ends
  obtain ⟨letter,later,is,first⟩ := valid.first
  rw [is,List.cons_append] at read ⊢
  have number_letter : unicodeWhitespace letter = false ∧ letter ≠ quote ∧ letter ≠ Char.ofNat 123 ∧ letter ≠ '[' ∧
      letter ≠ 't' ∧ letter ≠ 'f' ∧ letter ≠ 'n' := by
    rcases first with rfl | is_digit
    · decide
    · obtain ⟨dark,_,others⟩ := digit_dark is_digit
      exact ⟨dark,others⟩
  obtain ⟨dark,not_quote,not_brace,not_bracket,not_t,not_f,not_n⟩ := number_letter
  rw [parseValue_cons (dark_of_unicode dark),if_neg not_quote,if_neg not_brace,if_neg not_bracket,if_neg not_t,
    if_neg not_f,if_neg not_n,if_pos first,read]

theorem value_first {text : List Char} {value : JsonValue} (written : Text .lax text (.value value))
    (rest : List Char) : ∀ letter ∈ (text ++ rest).head?, asciiWhitespace letter = false ∧ letter ≠ ']' := by
  obtain ⟨first,later,rfl,dark,not_end⟩ := written.first
  intro letter head
  obtain rfl : first = letter := Option.some.inj head
  exact ⟨dark_of_unicode dark,not_end⟩

-- By induction on the text, behind which anything may stand.
theorem Text.read {text : List Char} {part : Part} (written : Text .lax text part) :
    ∀ fuel rest, 2*text.length ≤ fuel → part.Stops text rest → part.Read fuel (text ++ rest) rest := by
  induction written with
  | null =>
    intro fuel rest enough _
    obtain ⟨fuel,rfl⟩ := Nat.exists_eq_succ_of_ne_zero (by rintro rfl; simp at enough : fuel ≠ 0)
    change parseValue (fuel+1) ('n' :: ("ull".toList ++ rest)) = _
    rw [parseValue_cons (by decide),if_neg (by decide),if_neg (by decide),if_neg (by decide),if_neg (by decide),
      if_neg (by decide),if_pos rfl]
    exact parseLiteral_text rest
  | boolean value =>
    intro fuel rest enough _
    obtain ⟨fuel,rfl⟩ := Nat.exists_eq_succ_of_ne_zero (by rintro rfl; cases value <;> simp at enough : fuel ≠ 0)
    exact parseValue_boolean fuel value rest
  | number valid =>
    intro fuel rest enough stops
    obtain ⟨parts,parts_valid,same,ends⟩ := stops _ rfl
    obtain ⟨letter,later,is,_⟩ := valid.first
    obtain ⟨fuel,rfl⟩ := Nat.exists_eq_succ_of_ne_zero (by rintro rfl; simp [is] at enough : fuel ≠ 0)
    rw [same]
    exact parseValue_number parts_valid ends fuel
  | @string body content written =>
    intro fuel rest enough _
    obtain ⟨fuel,rfl⟩ := Nat.exists_eq_succ_of_ne_zero (by rintro rfl; simp at enough : fuel ≠ 0)
    change parseValue (fuel+1) (quote :: (body ++ [quote] ++ rest)) = _
    rw [parseValue_cons (by decide),if_pos rfl,List.append_assoc,List.singleton_append,parseString_body written]
    rfl
  | @array inner items _ ih =>
    intro fuel rest enough _
    simp only [List.length_cons] at enough
    obtain ⟨fuel,rfl⟩ := Nat.exists_eq_succ_of_ne_zero (by omega : fuel ≠ 0)
    have read : parseItems fuel [] (inner ++ rest) = .ok (items,rest) := ih fuel rest (by omega) trivial []
    change parseValue (fuel+1) ('[' :: (inner ++ rest)) = _
    rw [parseValue_cons (by decide),if_neg (by decide),if_neg (by decide),if_pos rfl,read]
    rfl
  | @object inner entries _ ih =>
    intro fuel rest enough _
    simp only [List.length_cons] at enough
    obtain ⟨fuel,rfl⟩ := Nat.exists_eq_succ_of_ne_zero (by omega : fuel ≠ 0)
    have read : parseMembers fuel [] (inner ++ rest) = .ok (entries,rest) := ih fuel rest (by omega) trivial
    change parseValue (fuel+1) (Char.ofNat 123 :: (inner ++ rest)) = _
    rw [parseValue_cons (by decide),if_neg (by decide),if_pos rfl,read]
    rfl
  | @noItem first space spaces _ =>
    intro fuel rest enough _ arr
    simp only [List.length_append,List.length_singleton] at enough
    obtain ⟨fuel,rfl⟩ := Nat.exists_eq_succ_of_ne_zero (by omega : fuel ≠ 0)
    rw [List.append_assoc,parseItems_spaces spaces,List.append_nil]
    exact parseItems_close fuel arr rest
  | @lastItem first space text behind value spaces written spaces_behind ih =>
    intro fuel rest enough _ arr
    simp only [List.length_append,List.length_singleton] at enough
    obtain ⟨fuel,rfl⟩ := Nat.exists_eq_succ_of_ne_zero (by omega : fuel ≠ 0)
    have apart := apart_behind spaces_behind (.inl rfl) rest
    have read : parseValue fuel (text ++ (behind ++ ']' :: rest)) = .ok (value,behind ++ ']' :: rest) :=
      ih fuel _ (by omega) (apart.stops written)
    simp only [List.append_assoc,List.singleton_append]
    rw [parseItems_spaces spaces,parseItems_item (value_first written _) read spaces_behind (by decide),if_pos rfl]
  | @moreItems first space text behind others value items spaces written spaces_behind _ ih ih_later =>
    intro fuel rest enough _ arr
    simp only [List.length_append,List.length_cons] at enough
    obtain ⟨fuel,rfl⟩ := Nat.exists_eq_succ_of_ne_zero (by omega : fuel ≠ 0)
    have apart := apart_behind spaces_behind (.inr (.inr rfl)) (others ++ rest)
    have read : parseValue fuel (text ++ (behind ++ ',' :: (others ++ rest))) =
        .ok (value,behind ++ ',' :: (others ++ rest)) :=
      ih fuel _ (by omega) (apart.stops written)
    have later : parseItems fuel (arr ++ [value]) (others ++ rest) = .ok (arr ++ [value] ++ items,rest) :=
      ih_later fuel rest (by omega) trivial (arr ++ [value])
    simp only [List.append_assoc,List.cons_append]
    rw [parseItems_spaces spaces,parseItems_item (value_first written _) read spaces_behind (by decide),
      if_neg (by decide),if_neg (by decide),later,List.append_assoc,List.singleton_append]
  | @noMember first space before spaces _ =>
    intro fuel rest enough _
    simp only [List.length_append,List.length_singleton] at enough
    obtain ⟨fuel,rfl⟩ := Nat.exists_eq_succ_of_ne_zero (by omega : fuel ≠ 0)
    change parseMembers (fuel+1) before (space ++ [Char.ofNat 125] ++ rest) = _
    rw [List.append_assoc,parseMembers_spaces spaces]
    exact parseMembers_close fuel before rest
  | @lastMember first space key content colon_space value_space text behind delimiter value before spaces delimits named
      colon_spaces value_spaces written spaces_behind ih =>
    intro fuel rest enough _
    simp only [List.length_append,List.length_cons,List.length_nil] at enough
    obtain ⟨fuel,rfl⟩ := Nat.exists_eq_succ_of_ne_zero (by omega : fuel ≠ 0)
    obtain ⟨not_end,dark⟩ := delimiter_dark delimits
    have apart := apart_behind spaces_behind (.inr (.inl rfl)) rest
    have read : parseValue fuel (value_space ++ (text ++ (behind ++ Char.ofNat 125 :: rest))) =
        .ok (value,behind ++ Char.ofNat 125 :: rest) := by
      rw [parseValue_spaces value_spaces]
      exact ih fuel _ (by omega) (apart.stops written)
    simp only [Part.Read,List.append_assoc,List.cons_append,List.nil_append]
    rw [parseMembers_spaces spaces,
      parseMembers_member not_end dark named colon_spaces read spaces_behind (by decide),if_pos rfl]
  | @moreMembers first space key content colon_space value_space text behind others delimiter value before after spaces
      delimits named colon_spaces value_spaces written spaces_behind _ ih ih_later =>
    intro fuel rest enough _
    simp only [List.length_append,List.length_cons] at enough
    obtain ⟨fuel,rfl⟩ := Nat.exists_eq_succ_of_ne_zero (by omega : fuel ≠ 0)
    obtain ⟨not_end,dark⟩ := delimiter_dark delimits
    have apart := apart_behind spaces_behind (.inr (.inr rfl)) (others ++ rest)
    have read : parseValue fuel (value_space ++ (text ++ (behind ++ ',' :: (others ++ rest)))) =
        .ok (value,behind ++ ',' :: (others ++ rest)) := by
      rw [parseValue_spaces value_spaces]
      exact ih fuel _ (by omega) (apart.stops written)
    have later : parseMembers fuel (insertEntry (String.ofList content) value before) (others ++ rest) =
        .ok (after,rest) := ih_later fuel rest (by omega) trivial
    simp only [Part.Read,List.append_assoc,List.cons_append]
    rw [parseMembers_spaces spaces,
      parseMembers_member not_end dark named colon_spaces read spaces_behind (by decide),if_neg (by decide),
      if_neg (by decide),later]

end Completeness

section Soundness

def Part.Written (letters rest : List Char) (part : Part) : Prop :=
  ∃ text, letters = text ++ rest ∧ Text .lax text part

theorem literal_of_parseLiteral {literal : String} {value result : JsonValue} {letters rest : List Char}
    (ok : parseLiteral literal value letters = .ok (result,rest)) : letters = literal.toList ++ rest ∧ result = value := by
  rw [parseLiteral] at ok
  split at ok
  · rename_i begins
    obtain ⟨rfl,rfl⟩ := Prod.mk.inj (Except.ok.inj ok)
    obtain ⟨later,rfl⟩ := List.isPrefixOf_iff_prefix.mp begins
    rw [← String.length_toList,List.drop_left]
    exact ⟨rfl,rfl⟩
  · cases ok

theorem not_number {value : JsonValue} {text rest : List Char} (other : ∀ number, value ≠ .number number) :
    Stops value text rest := fun number is => absurd is (other number)

def ValueRead (letters rest : List Char) (value : JsonValue) : Prop :=
  ∃ space text, letters = space ++ (text ++ rest) ∧ Spaces .lax space ∧ Text .lax text (.value value) ∧
    Stops value text rest

theorem ValueRead.of_text {space text rest : List Char} {value : JsonValue} (spaces : Spaces .lax space)
    (written : Text .lax text (.value value)) (other : ∀ number, value ≠ .number number) :
    ValueRead (space ++ (text ++ rest)) rest value :=
  ⟨space,text,rfl,spaces,written,not_number other⟩

theorem skipped (letters : List Char) : (∃ space, Spaces .lax space ∧ letters = space ∧ skipWhitespace letters = []) ∨
    ∃ space letter later, Spaces .lax space ∧ letters = space ++ letter :: later ∧ asciiWhitespace letter = false ∧
      skipWhitespace letters = letter :: later := by
  obtain ⟨space,spaces,split,stop⟩ := skipWhitespace_split letters
  cases skips : skipWhitespace letters with
  | nil => exact .inl ⟨space,spaces,by rw [skips,List.append_nil] at split; exact split,rfl⟩
  | cons letter later =>
    rw [skips] at split stop
    refine .inr ⟨space,letter,later,spaces,split,?_,rfl⟩
    exact Bool.eq_false_iff.mpr fun white => stop letter rfl (asciiWhitespace_iff.mp white)

theorem parseItems_cases {fuel : Nat} {arr items : List JsonValue} {letters rest : List Char}
    (ok : parseItems (fuel+1) arr letters = .ok (items,rest)) :
    ∃ space later, Spaces .lax space ∧ letters = space ++ later ∧
      ((later = ']' :: rest ∧ items = arr) ∨ ∃ value after_value behind next others,
        parseValue fuel later = .ok (value,after_value) ∧ Spaces .lax behind ∧ after_value = behind ++ next :: others ∧
        ((next = ']' ∧ others = rest ∧ items = arr ++ [value]) ∨
          (next = ',' ∧ parseItems fuel (arr ++ [value]) others = .ok (items,rest)))) := by
  rw [parseItems] at ok
  rcases skipped letters with ⟨space,_,_,none⟩ | ⟨space,letter,later,spaces,rfl,dark,skips⟩
  · rw [none] at ok
    cases ok
  · refine ⟨space,letter :: later,spaces,rfl,?_⟩
    simp only [skips] at ok
    split at ok
    · rename_i is_end
      obtain ⟨rfl,rfl⟩ := Prod.mk.inj (Except.ok.inj ok)
      exact .inl ⟨is_end ▸ rfl,rfl⟩
    · cases read : parseValue fuel (letter :: later) with
      | error failure =>
        rw [read] at ok
        cases ok
      | ok pair =>
        obtain ⟨value,after_value⟩ := pair
        simp only [read] at ok
        rcases skipped after_value with ⟨_,_,_,none⟩ | ⟨behind,next,others,spaces_behind,rfl,_,skips_behind⟩
        · rw [none] at ok
          cases ok
        · refine .inr ⟨value,_,behind,next,others,rfl,spaces_behind,rfl,?_⟩
          simp only [skips_behind] at ok
          split at ok
          · rename_i is_end
            obtain ⟨rfl,rfl⟩ := Prod.mk.inj (Except.ok.inj ok)
            exact .inl ⟨is_end,rfl,rfl⟩
          · split at ok
            · cases ok
            · rename_i is_comma
              exact .inr ⟨not_not.mp is_comma,ok⟩

theorem parseMembers_cases {fuel : Nat} {before after : List (String × JsonValue)} {letters rest : List Char}
    (ok : parseMembers (fuel+1) before letters = .ok (after,rest)) :
    ∃ space letter later, Spaces .lax space ∧ letters = space ++ letter :: later ∧ asciiWhitespace letter = false ∧
      ((letter = Char.ofNat 125 ∧ later = rest ∧ after = before) ∨
        ∃ key colon_space value_letters value after_value behind next others, letter ≠ Char.ofNat 125 ∧
          parseString later = .ok (key,colon_space ++ ':' :: value_letters) ∧ Spaces .lax colon_space ∧
          parseValue fuel value_letters = .ok (value,after_value) ∧ Spaces .lax behind ∧
          after_value = behind ++ next :: others ∧
          ((next = Char.ofNat 125 ∧ others = rest ∧ after = insertEntry (String.ofList key) value before) ∨
            (next = ',' ∧ parseMembers fuel (insertEntry (String.ofList key) value before) others = .ok (after,rest)))) := by
  rw [parseMembers] at ok
  rcases skipped letters with ⟨space,_,_,none⟩ | ⟨space,letter,later,spaces,rfl,dark,skips⟩
  · rw [none] at ok
    cases ok
  · refine ⟨space,letter,later,spaces,rfl,dark,?_⟩
    simp only [skips] at ok
    split at ok
    · rename_i is_end
      obtain ⟨rfl,rfl⟩ := Prod.mk.inj (Except.ok.inj ok)
      exact .inl ⟨is_end,rfl,rfl⟩
    · rename_i not_end
      cases named : parseString later with
      | error failure =>
        rw [named] at ok
        cases ok
      | ok pair =>
        obtain ⟨key,after_key⟩ := pair
        simp only [named] at ok
        rcases skipped after_key with ⟨_,_,_,none⟩ | ⟨colon_space,colon,value_letters,colon_spaces,rfl,_,skips_key⟩
        · rw [none] at ok
          cases ok
        · simp only [skips_key] at ok
          split at ok
          · cases ok
          · rename_i is_colon
            obtain rfl := not_not.mp is_colon
            cases read : parseValue fuel value_letters with
            | error failure =>
              rw [read] at ok
              cases ok
            | ok pair =>
              obtain ⟨value,after_value⟩ := pair
              simp only [read] at ok
              rcases skipped after_value with ⟨_,_,_,none⟩ | ⟨behind,next,others,spaces_behind,rfl,_,skips_behind⟩
              · rw [none] at ok
                cases ok
              · refine .inr ⟨key,colon_space,value_letters,value,_,behind,next,others,not_end,rfl,colon_spaces,read,
                  spaces_behind,rfl,?_⟩
                simp only [skips_behind] at ok
                split at ok
                · rename_i is_end
                  obtain ⟨rfl,rfl⟩ := Prod.mk.inj (Except.ok.inj ok)
                  exact .inl ⟨is_end,rfl,rfl⟩
                · split at ok
                  · cases ok
                  · rename_i is_comma
                    exact .inr ⟨not_not.mp is_comma,ok⟩

theorem read_cases {fuel : Nat} {letters rest : List Char} {value : JsonValue}
    (ok : parseValue (fuel+1) letters = .ok (value,rest)) :
    ∃ space letter later, Spaces .lax space ∧ letters = space ++ letter :: later ∧
      ((letter = quote ∧ ∃ content, parseString later = .ok (content,rest) ∧ value = .string (String.ofList content)) ∨
        (letter = Char.ofNat 123 ∧ ∃ entries, parseMembers fuel [] later = .ok (entries,rest) ∧ value = .object entries) ∨
        (letter = '[' ∧ ∃ items, parseItems fuel [] later = .ok (items,rest) ∧ value = .array items) ∨
        (∃ result, letter :: later = (if result then "true".toList else "false".toList) ++ rest ∧
          value = .boolean result) ∨
        (letter :: later = "null".toList ++ rest ∧ value = .null) ∨
        parseNumber (letter :: later) = .ok (value,rest)) := by
  rcases skipped letters with ⟨space,_,_,none⟩ | ⟨space,letter,later,spaces,rfl,dark,_⟩
  · rw [parseValue,none] at ok
    cases ok
  · refine ⟨space,letter,later,spaces,rfl,?_⟩
    rw [parseValue_spaces spaces,parseValue_cons dark] at ok
    split at ok
    · rename_i is_quote
      obtain ⟨⟨content,left⟩,read,same⟩ := map_ok ok
      obtain ⟨rfl,rfl⟩ := Prod.mk.inj same
      exact .inl ⟨is_quote,content,read,rfl⟩
    split at ok
    · rename_i is_brace
      obtain ⟨⟨entries,left⟩,read,same⟩ := map_ok ok
      obtain ⟨rfl,rfl⟩ := Prod.mk.inj same
      exact .inr (.inl ⟨is_brace,entries,read,rfl⟩)
    split at ok
    · rename_i is_bracket
      obtain ⟨⟨items,left⟩,read,same⟩ := map_ok ok
      obtain ⟨rfl,rfl⟩ := Prod.mk.inj same
      exact .inr (.inr (.inl ⟨is_bracket,items,read,rfl⟩))
    split at ok
    · obtain ⟨is,rfl⟩ := literal_of_parseLiteral ok
      exact .inr (.inr (.inr (.inl ⟨true,is,rfl⟩)))
    split at ok
    · obtain ⟨is,rfl⟩ := literal_of_parseLiteral ok
      exact .inr (.inr (.inr (.inl ⟨false,is,rfl⟩)))
    split at ok
    · obtain ⟨is,rfl⟩ := literal_of_parseLiteral ok
      exact .inr (.inr (.inr (.inr (.inl ⟨is,rfl⟩))))
    split at ok
    · exact .inr (.inr (.inr (.inr (.inr ok))))
    · cases ok

-- Whatever is read has a text, by induction on the fuel.
theorem texts_read (fuel : Nat) :
    (∀ letters value rest, parseValue fuel letters = .ok (value,rest) → ValueRead letters rest value) ∧
    (∀ first arr items letters rest, parseItems fuel arr letters = .ok (items,rest) →
      ∃ later, items = arr ++ later ∧ Part.Written letters rest (.items first later)) ∧
    (∀ first before after letters rest, parseMembers fuel before letters = .ok (after,rest) →
      Part.Written letters rest (.members first before after)) := by
  induction fuel with
  | zero => exact ⟨nofun,nofun,nofun⟩
  | succ fuel ih =>
    obtain ⟨values,lists,objects⟩ := ih
    refine ⟨?_,?_,?_⟩
    · intro letters value rest ok
      obtain ⟨space,letter,later,spaces,rfl,kinds⟩ := read_cases ok
      rcases kinds with ⟨rfl,content,read,rfl⟩ | ⟨rfl,entries,read,rfl⟩ | ⟨rfl,items,read,rfl⟩ | ⟨result,is,rfl⟩ |
        ⟨is,rfl⟩ | read
      · obtain ⟨body,rfl,written⟩ := body_of_parseString read
        have text : ValueRead (space ++ ((quote :: body ++ [quote]) ++ rest)) rest (.string (String.ofList content)) :=
          .of_text spaces (.string written) nofun
        simpa only [List.append_assoc,List.cons_append,List.nil_append] using text
      · obtain ⟨text,rfl,written⟩ := objects true [] entries later rest read
        exact .of_text spaces (.object written) nofun
      · obtain ⟨_,rfl,text,rfl,written⟩ := lists true [] items later rest read
        exact .of_text spaces (.array written) nofun
      · rw [is]
        exact .of_text spaces (.boolean result) nofun
      · rw [is]
        exact .of_text spaces .null nofun
      · obtain ⟨parts,valid,ends,is,rfl⟩ := parts_of_parseNumber read
        rw [is]
        exact ⟨space,parts.text,rfl,spaces,.number valid,fun number _ => ⟨parts,valid,rfl,ends⟩⟩
    · intro first arr items letters rest ok
      obtain ⟨space,later,spaces,rfl,⟨rfl,rfl⟩ | ⟨value,_,behind,next,others,read,spaces_behind,rfl,closes⟩⟩ :=
        parseItems_cases ok
      · refine ⟨[],(List.append_nil _).symm,space ++ [']'],?_,.noItem spaces (.inr rfl)⟩
        rw [List.append_assoc,List.singleton_append]
      · obtain ⟨value_space,text,rfl,value_spaces,written,_⟩ := values later value _ read
        have all_spaces : Spaces .lax (space ++ value_space) := fun letter among =>
          (List.mem_append.mp among).elim (spaces letter) (value_spaces letter)
        rcases closes with ⟨rfl,rfl,rfl⟩ | ⟨rfl,read_later⟩
        · refine ⟨[value],rfl,_,?_,.lastItem all_spaces written spaces_behind⟩
          simp only [List.append_assoc,List.cons_append,List.nil_append]
        · obtain ⟨later,rfl,text_later,rfl,written_later⟩ := lists false (arr ++ [value]) items others rest read_later
          refine ⟨value :: later,by rw [List.append_assoc,List.singleton_append],_,?_,
            .moreItems all_spaces written spaces_behind written_later⟩
          simp only [List.append_assoc,List.cons_append]
    · intro first before after letters rest ok
      obtain ⟨space,letter,later,spaces,rfl,dark,⟨rfl,rfl,rfl⟩ | ⟨key,colon_space,value_letters,value,_,behind,next,
        others,not_end,named,colon_spaces,read,spaces_behind,rfl,closes⟩⟩ := parseMembers_cases ok
      · refine ⟨space ++ [Char.ofNat 125],?_,.noMember spaces (.inr rfl)⟩
        rw [List.append_assoc,List.singleton_append]
      · obtain ⟨body,rfl,body_written⟩ := body_of_parseString named
        obtain ⟨value_space,text,rfl,value_spaces,written,_⟩ := values value_letters value _ read
        have delimits : letter = quote ∨ (Mode.lax = .lax ∧ letter ≠ Char.ofNat 125 ∧ ¬ isSpace .lax letter) :=
          .inr ⟨rfl,not_end,fun space => by simp [asciiWhitespace_iff.mpr space] at dark⟩
        rcases closes with ⟨rfl,rfl,rfl⟩ | ⟨rfl,read_later⟩
        · refine ⟨_,?_,.lastMember spaces delimits body_written colon_spaces value_spaces written spaces_behind⟩
          simp only [List.append_assoc,List.cons_append,List.nil_append]
        · obtain ⟨text_later,rfl,written_later⟩ :=
            objects false (insertEntry (String.ofList key) value before) after others rest read_later
          refine ⟨_,?_,.moreMembers spaces delimits body_written colon_spaces value_spaces written spaces_behind
            written_later⟩
          simp only [List.append_assoc,List.cons_append]

end Soundness

section Trimming

theorem isSpace.white {mode : Mode} {letter : Char} (space : isSpace mode letter) : unicodeWhitespace letter = true := by
  rcases space with rfl | rfl | rfl | rfl | ⟨_,rfl⟩ <;> decide

theorem NumberParts.Valid.dark {parts : NumberParts} (valid : parts.Valid) :
    ∀ letter ∈ parts.text, unicodeWhitespace letter = false := by
  have digits_dark {digits : List Char} (digits_ok : NumberParts.Digits digits) :
      ∀ letter ∈ digits, unicodeWhitespace letter = false :=
    fun letter among => (digit_dark (digits_ok.2 letter among)).1
  have signs_dark {sign : List Char} (signs : sign = [] ∨ sign = ['+'] ∨ sign = ['-']) :
      ∀ letter ∈ sign, unicodeWhitespace letter = false := by
    rcases signs with rfl | rfl | rfl
    · exact nofun
    · exact fun letter among => List.mem_singleton.mp among ▸ by decide
    · exact fun letter among => List.mem_singleton.mp among ▸ by decide
  intro letter among
  simp only [NumberParts.text,List.mem_append] at among
  rcases among with ((among | among) | among) | among
  · exact signs_dark (valid.sign.imp_right .inr) letter among
  · rcases valid.integer with zero | ⟨first,later,is,_,digits_ok⟩
    · rw [zero] at among
      exact List.mem_singleton.mp among ▸ by decide
    · exact digits_dark digits_ok letter (is ▸ among)
  · rcases valid.fraction with none | ⟨digits,is,digits_ok⟩
    · rw [none] at among
      cases among
    · rw [is] at among
      rcases List.mem_cons.mp among with rfl | among
      · decide
      · exact digits_dark digits_ok letter among
  · rcases valid.exponent with none | ⟨mark,sign,digits,is,is_mark,signs,digits_ok⟩
    · rw [none] at among
      cases among
    · rw [is,List.cons_append] at among
      rcases List.mem_cons.mp among with rfl | among
      · rcases is_mark with rfl | rfl <;> decide
      · exact (List.mem_append.mp among).elim (signs_dark signs letter) (digits_dark digits_ok letter)

theorem Text.last {mode : Mode} {text : List Char} {part : Part} (written : Text mode text part) :
    ∃ front letter, text = front ++ [letter] ∧ unicodeWhitespace letter = false := by
  induction written with
  | null => exact ⟨"nul".toList,'l',rfl,by decide⟩
  | boolean value =>
    cases value with
    | true => exact ⟨"tru".toList,'e',rfl,by decide⟩
    | false => exact ⟨"fals".toList,'e',rfl,by decide⟩
  | @number parts valid =>
    obtain ⟨letter,later,is,_⟩ := valid.first
    have nonempty : parts.text ≠ [] := by
      rw [is]
      exact List.cons_ne_nil _ _
    exact ⟨_,_,(List.dropLast_append_getLast nonempty).symm,valid.dark _ (List.getLast_mem nonempty)⟩
  | string => exact ⟨_,quote,rfl,by decide⟩
  | array _ ih =>
    obtain ⟨front,letter,rfl,dark⟩ := ih
    exact ⟨'[' :: front,letter,rfl,dark⟩
  | object _ ih =>
    obtain ⟨front,letter,rfl,dark⟩ := ih
    exact ⟨Char.ofNat 123 :: front,letter,rfl,dark⟩
  | @noItem _ space => exact ⟨space,']',rfl,by decide⟩
  | @lastItem _ space text behind => exact ⟨space ++ (text ++ behind),']',by simp only [List.append_assoc],by decide⟩
  | @moreItems _ space text behind _ _ _ _ _ _ _ _ ih =>
    obtain ⟨front,letter,rfl,dark⟩ := ih
    exact ⟨space ++ (text ++ (behind ++ ',' :: front)),letter,by simp only [List.append_assoc,List.cons_append],dark⟩
  | @noMember _ space => exact ⟨space,Char.ofNat 125,rfl,by decide⟩
  | @lastMember _ space key _ colon_space value_space text behind delimiter =>
    exact ⟨space ++ delimiter :: (key ++ quote :: (colon_space ++ ':' :: (value_space ++ (text ++ behind)))),
      Char.ofNat 125,by simp only [List.append_assoc,List.cons_append],by decide⟩
  | @moreMembers _ space key _ colon_space value_space text behind _ delimiter _ _ _ _ _ _ _ _ _ _ _ _ ih =>
    obtain ⟨front,letter,rfl,dark⟩ := ih
    exact ⟨space ++ delimiter :: (key ++ quote :: (colon_space ++ ':' :: (value_space ++ (text ++ (behind ++
      ',' :: front))))),letter,by simp only [List.append_assoc,List.cons_append],dark⟩

theorem dropWhile_white {space : List Char} (white : ∀ letter ∈ space, unicodeWhitespace letter = true) {first : Char}
    (dark : unicodeWhitespace first = false) (later : List Char) :
    (space ++ first :: later).dropWhile unicodeWhitespace = first :: later := by
  rw [List.dropWhile_append_of_pos white,List.dropWhile_cons,dark]
  rfl

theorem Text.trimmed {mode : Mode} {space text behind : List Char} {value : JsonValue} (spaces : Spaces mode space)
    (written : Text mode text (.value value)) (spaces_behind : Spaces mode behind) :
    trim (space ++ (text ++ behind)) = text := by
  obtain ⟨first,later,is_first,first_dark,_⟩ := written.first
  obtain ⟨front,last,is_last,last_dark⟩ := written.last
  have dropped : (space ++ (text ++ behind)).dropWhile unicodeWhitespace = text ++ behind := by
    rw [is_first,List.cons_append]
    exact dropWhile_white (fun letter among => (spaces letter among).white) first_dark _
  have turned : (text ++ behind).reverse.dropWhile unicodeWhitespace = text.reverse := by
    rw [List.reverse_append,is_last,List.reverse_append,List.reverse_singleton,List.singleton_append]
    exact dropWhile_white (fun letter among => (spaces_behind letter (List.mem_reverse.mp among)).white) last_dark _
  rw [trim,dropped,turned,List.reverse_reverse]

-- The parser reads a value from the front of the trimmed text.
theorem parseJsonStr_iff {text : String} (filled : trim text.toList ≠ []) (value : JsonValue) :
    parseJsonStr text = .ok value ↔ ∃ rest, ValueRead (trim text.toList) rest value := by
  simp only [parseJsonStr,if_neg filled]
  constructor
  · intro ok
    obtain ⟨⟨_,rest⟩,read,rfl⟩ := map_ok ok
    exact ⟨rest,(texts_read _).1 _ _ _ read⟩
  · rintro ⟨rest,space,written,is,spaces,is_text,stops⟩
    have enough : 2*written.length ≤ 2*(trim text.toList).length+2 := by
      rw [is]
      simp only [List.length_append]
      omega
    have read : parseValue (2*(trim text.toList).length+2) (written ++ rest) = .ok (value,rest) :=
      is_text.read _ rest enough stops
    rw [← parseValue_spaces spaces,← is] at read
    rw [read]
    rfl

theorem parseJsonStr_text {text : String} {value : JsonValue} (denotes : Denotes .lax text.toList value) :
    parseJsonStr text = .ok value := by
  obtain ⟨space,written,behind,is,spaces,is_text,spaces_behind⟩ := denotes
  have trimmed : trim text.toList = written := is ▸ is_text.trimmed spaces spaces_behind
  obtain ⟨first,later,is_first,_⟩ := is_text.first
  have filled : trim text.toList ≠ [] := by
    rw [trimmed,is_first]
    exact List.cons_ne_nil _ _
  have apart : Apart [] := nofun
  exact (parseJsonStr_iff filled value).mpr ⟨[],[],written,by rw [trimmed,List.append_nil]; rfl,nofun,is_text,
    apart.stops is_text⟩

end Trimming
end Json
end RemDb
