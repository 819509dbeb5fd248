import RemDb.Json.Document

namespace RemDb
namespace Json

-- The texts of JSON, those of them without Unicode escapes, and the texts that
-- the parser reads: where spaces may be form feeds, a comma may stand before a
-- closing bracket, a key may begin with any letter, and a Unicode escape takes
-- the letter behind it along.
inductive Mode where
  | strict | plain | lax
deriving DecidableEq

def isSpace (mode : Mode) (letter : Char) : Prop :=
  letter = ' ' ∨ letter = '\t' ∨ letter = '\n' ∨ letter = '\r' ∨ (mode = .lax ∧ letter = formFeed)

def Spaces (mode : Mode) (letters : List Char) : Prop := ∀ letter ∈ letters, isSpace mode letter

-- Control characters may stand in strings as they are.
inductive Body (mode : Mode) : List Char → List Char → Prop
  | done : Body mode [] []
  | plain {letter : Char} {rest content : List Char} (not_quote : letter ≠ quote) (not_escape : letter ≠ backslash)
      (others : Body mode rest content) : Body mode (letter :: rest) (letter :: content)
  | escaped {letter meant : Char} {rest content : List Char} (means : unescape letter = some meant)
      (others : Body mode rest content) : Body mode (backslash :: letter :: rest) (meant :: content)
  | unicode {first second third fourth : Char} {code : Nat} {rest content : List Char} (strict : mode = .strict)
      (digits : hexCode first second third fourth = some code) (single : code < 0xD800 ∨ 0xDFFF < code)
      (others : Body mode rest content) :
      Body mode (backslash :: 'u' :: first :: second :: third :: fourth :: rest) (Char.ofNat code :: content)
  | pair {first second third fourth fifth sixth seventh eighth : Char} {high low : Nat} {rest content : List Char}
      (strict : mode = .strict) (high_digits : hexCode first second third fourth = some high)
      (low_digits : hexCode fifth sixth seventh eighth = some low) (is_high : 0xD800 ≤ high ∧ high ≤ 0xDBFF)
      (is_low : 0xDC00 ≤ low ∧ low ≤ 0xDFFF) (others : Body mode rest content) :
      Body mode (backslash :: 'u' :: first :: second :: third :: fourth ::
        backslash :: 'u' :: fifth :: sixth :: seventh :: eighth :: rest)
        (Char.ofNat (0x10000+(high-0xD800)*0x400+(low-0xDC00)) :: content)
  | eaten {first second third fourth behind : Char} {code : Nat} {rest content : List Char} (lax : mode = .lax)
      (digits : hexCode first second third fourth = some code) (others : Body mode rest content) :
      Body mode (backslash :: 'u' :: first :: second :: third :: fourth :: behind :: rest) (fromCode code ++ content)

structure NumberParts where
  sign : List Char
  integer : List Char
  fraction : List Char
  exponent : List Char

namespace NumberParts

def text (parts : NumberParts) : List Char := parts.sign ++ parts.integer ++ parts.fraction ++ parts.exponent

def Digits (letters : List Char) : Prop := letters ≠ [] ∧ ∀ letter ∈ letters, asciiDigit letter = true

structure Valid (parts : NumberParts) : Prop where
  sign : parts.sign = [] ∨ parts.sign = ['-']
  integer : parts.integer = ['0'] ∨ ∃ first rest, parts.integer = first :: rest ∧ first ≠ '0' ∧ Digits (first :: rest)
  fraction : parts.fraction = [] ∨ ∃ digits, parts.fraction = '.' :: digits ∧ Digits digits
  exponent : parts.exponent = [] ∨ ∃ mark sign digits, parts.exponent = mark :: sign ++ digits ∧ (mark = 'e' ∨ mark = 'E') ∧
    (sign = [] ∨ sign = ['+'] ∨ sign = ['-']) ∧ Digits digits

def noDigit (rest : List Char) : Prop := ∀ letter ∈ rest.head?, asciiDigit letter = false

structure Ends (parts : NumberParts) (rest : List Char) : Prop where
  integer : parts.fraction = [] → parts.exponent = [] → parts.integer ≠ ['0'] → noDigit rest
  point : parts.fraction = [] → parts.exponent = [] → rest.head? ≠ some '.'
  fraction : parts.fraction ≠ [] → parts.exponent = [] → noDigit rest
  mark : parts.exponent = [] → rest.head? ≠ some 'e' ∧ rest.head? ≠ some 'E'
  exponent : parts.exponent ≠ [] → noDigit rest

end NumberParts

-- A value, or what stands behind the opening bracket of an array or an object or
-- behind a comma there. An object is built from the entries it has so far, and a
-- key that comes again replaces its value.
inductive Part where
  | value (value : JsonValue)
  | items (first : Bool) (items : List JsonValue)
  | members (first : Bool) (before after : List (String × JsonValue))

inductive Text (mode : Mode) : List Char → Part → Prop
  | null : Text mode "null".toList (.value .null)
  | boolean (value : Bool) : Text mode (if value then "true".toList else "false".toList) (.value (.boolean value))
  | number {parts : NumberParts} (valid : parts.Valid) :
      Text mode parts.text (.value (.number (String.ofList parts.text)))
  | string {body content : List Char} (written : Body mode body content) :
      Text mode (quote :: body ++ [quote]) (.value (.string (String.ofList content)))
  | array {inner : List Char} {items : List JsonValue} (inside : Text mode inner (.items true items)) :
      Text mode ('[' :: inner) (.value (.array items))
  | object {inner : List Char} {entries : List (String × JsonValue)} (inside : Text mode inner (.members true [] entries)) :
      Text mode (Char.ofNat 123 :: inner) (.value (.object entries))
  | noItem {first : Bool} {space : List Char} (spaces : Spaces mode space) (allowed : first = true ∨ mode = .lax) :
      Text mode (space ++ [']']) (.items first [])
  | lastItem {first : Bool} {space text behind : List Char} {value : JsonValue} (spaces : Spaces mode space)
      (written : Text mode text (.value value)) (spaces_behind : Spaces mode behind) :
      Text mode (space ++ (text ++ (behind ++ [']']))) (.items first [value])
  | moreItems {first : Bool} {space text behind others : List Char} {value : JsonValue} {items : List JsonValue}
      (spaces : Spaces mode space) (written : Text mode text (.value value)) (spaces_behind : Spaces mode behind)
      (later : Text mode others (.items false items)) :
      Text mode (space ++ (text ++ (behind ++ ',' :: others))) (.items first (value :: items))
  | noMember {first : Bool} {space : List Char} {before : List (String × JsonValue)} (spaces : Spaces mode space)
      (allowed : first = true ∨ mode = .lax) : Text mode (space ++ [Char.ofNat 125]) (.members first before before)
  | lastMember {first : Bool} {space key content colon_space value_space text behind : List Char} {delimiter : Char}
      {value : JsonValue} {before : List (String × JsonValue)} (spaces : Spaces mode space)
      (delimits : delimiter = quote ∨ (mode = .lax ∧ delimiter ≠ Char.ofNat 125 ∧ ¬ isSpace mode delimiter))
      (named : Body mode key content) (colon_spaces : Spaces mode colon_space) (value_spaces : Spaces mode value_space)
      (written : Text mode text (.value value)) (spaces_behind : Spaces mode behind) :
      Text mode (space ++ delimiter :: (key ++ quote :: (colon_space ++ ':' :: (value_space ++ (text ++ (behind ++
        [Char.ofNat 125])))))) (.members first before (insertEntry (String.ofList content) value before))
  | moreMembers {first : Bool} {space key content colon_space value_space text behind others : List Char}
      {delimiter : Char} {value : JsonValue} {before after : List (String × JsonValue)} (spaces : Spaces mode space)
      (delimits : delimiter = quote ∨ (mode = .lax ∧ delimiter ≠ Char.ofNat 125 ∧ ¬ isSpace mode delimiter))
      (named : Body mode key content) (colon_spaces : Spaces mode colon_space) (value_spaces : Spaces mode value_space)
      (written : Text mode text (.value value)) (spaces_behind : Spaces mode behind)
      (later : Text mode others (.members false (insertEntry (String.ofList content) value before) after)) :
      Text mode (space ++ delimiter :: (key ++ quote :: (colon_space ++ ':' :: (value_space ++ (text ++ (behind ++
        ',' :: others)))))) (.members first before after)

def Denotes (mode : Mode) (letters : List Char) (value : JsonValue) : Prop :=
  ∃ space text behind, letters = space ++ (text ++ behind) ∧ Spaces mode space ∧ Text mode text (.value value) ∧
    Spaces mode behind

section Modes

-- Without Unicode escapes there is nothing that the parser reads otherwise.
theorem Body.of_plain {mode : Mode} {body content : List Char} (written : Body .plain body content) :
    Body mode body content := by
  induction written with
  | done => exact .done
  | plain not_quote not_escape _ ih => exact .plain not_quote not_escape ih
  | escaped means _ ih => exact .escaped means ih
  | unicode never => cases never
  | pair never => cases never
  | eaten never => cases never

theorem isSpace.of_plain {letter : Char} (mode : Mode) (space : isSpace .plain letter) : isSpace mode letter := by
  rcases space with is | is | is | is | ⟨never,_⟩
  · exact .inl is
  · exact .inr (.inl is)
  · exact .inr (.inr (.inl is))
  · exact .inr (.inr (.inr (.inl is)))
  · cases never

theorem Spaces.of_plain {letters : List Char} (mode : Mode) (spaces : Spaces .plain letters) : Spaces mode letters :=
  fun letter among => (spaces letter among).of_plain mode

theorem Text.of_plain {mode : Mode} {text : List Char} {part : Part} (written : Text .plain text part) :
    Text mode text part := by
  induction written with
  | null => exact .null
  | boolean value => exact .boolean value
  | number valid => exact .number valid
  | string written => exact .string written.of_plain
  | array _ ih => exact .array ih
  | object _ ih => exact .object ih
  | noItem spaces allowed => exact .noItem (spaces.of_plain mode) (.inl (allowed.resolve_right Mode.noConfusion))
  | lastItem spaces _ behind ih => exact .lastItem (spaces.of_plain mode) ih (behind.of_plain mode)
  | moreItems spaces _ behind _ ih later => exact .moreItems (spaces.of_plain mode) ih (behind.of_plain mode) later
  | noMember spaces allowed => exact .noMember (spaces.of_plain mode) (.inl (allowed.resolve_right Mode.noConfusion))
  | lastMember spaces delimits named colon value _ behind ih =>
    exact .lastMember (spaces.of_plain mode) (.inl (delimits.resolve_right fun never => Mode.noConfusion never.1))
      named.of_plain (colon.of_plain mode) (value.of_plain mode) ih (behind.of_plain mode)
  | moreMembers spaces delimits named colon value _ behind _ ih later =>
    exact .moreMembers (spaces.of_plain mode) (.inl (delimits.resolve_right fun never => Mode.noConfusion never.1))
      named.of_plain (colon.of_plain mode) (value.of_plain mode) ih (behind.of_plain mode) later

theorem Denotes.of_plain {letters : List Char} {value : JsonValue} (mode : Mode) (denotes : Denotes .plain letters value) :
    Denotes mode letters value := by
  obtain ⟨space,text,behind,rfl,spaces,written,spaces_behind⟩ := denotes
  exact ⟨space,text,behind,rfl,spaces.of_plain mode,written.of_plain,spaces_behind.of_plain mode⟩

end Modes
end Json
end RemDb
