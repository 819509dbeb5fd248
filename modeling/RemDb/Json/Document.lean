import Mathlib.Data.String.Basic

namespace RemDb

-- An object is its entries in the order of their keys.
inductive JsonValue where
  | string (text : String)
  | number (text : String)
  | boolean (value : Bool)
  | null
  | object (entries : List (String × JsonValue))
  | array (items : List JsonValue)

namespace Json

def quote : Char := Char.ofNat 34
def backslash : Char := Char.ofNat 92
def backspace : Char := Char.ofNat 8
def formFeed : Char := Char.ofNat 12

-- `BTreeMap::insert`.
def insertEntry (key : String) (value : JsonValue) : List (String × JsonValue) → List (String × JsonValue)
  | [] => [(key,value)]
  | entry :: rest =>
    if key < entry.1 then (key,value) :: entry :: rest
    else if key = entry.1 then (key,value) :: rest
    else entry :: insertEntry key value rest

section Printing

def escapeChar (letter : Char) : List Char :=
  if letter = quote then [backslash,quote]
  else if letter = backslash then [backslash,backslash]
  else if letter = '\n' then [backslash,'n']
  else if letter = '\r' then [backslash,'r']
  else if letter = '\t' then [backslash,'t']
  else if letter = backspace then [backslash,'b']
  else if letter = formFeed then [backslash,'f']
  else [letter]

-- In a key only quotes and backslashes are escaped.
def escapeKey (letter : Char) : List Char :=
  if letter = quote then [backslash,quote]
  else if letter = backslash then [backslash,backslash]
  else [letter]

mutual
def toJsonChars : JsonValue → List Char
  | .null => "null".toList
  | .boolean value => if value then "true".toList else "false".toList
  | .string text => quote :: text.toList.flatMap escapeChar ++ [quote]
  | .number text => text.toList
  | .array items => '[' :: itemsChars true items ++ [']']
  | .object entries => Char.ofNat 123 :: entriesChars true entries ++ [Char.ofNat 125]
def itemsChars : Bool → List JsonValue → List Char
  | _, [] => []
  | first, item :: rest => (if first then [] else [',']) ++ toJsonChars item ++ itemsChars false rest
def entriesChars : Bool → List (String × JsonValue) → List Char
  | _, [] => []
  | first, (key,value) :: rest =>
    (if first then [] else [',']) ++ quote :: key.toList.flatMap escapeKey ++ quote :: ':' :: toJsonChars value ++
      entriesChars false rest
end

def toJsonString (value : JsonValue) : String := String.ofList (toJsonChars value)

end Printing

section Parsing

-- `char::is_ascii_whitespace` and `char::is_whitespace`.
def asciiWhitespace (letter : Char) : Bool :=
  decide (letter = ' ' ∨ letter = '\t' ∨ letter = '\n' ∨ letter = formFeed ∨ letter = '\r')

def unicodeWhitespace (letter : Char) : Bool :=
  let code := letter.toNat
  decide ((9 ≤ code ∧ code ≤ 13) ∨ code = 32 ∨ code = 0x85 ∨ code = 0xA0 ∨ code = 0x1680 ∨
    (0x2000 ≤ code ∧ code ≤ 0x200A) ∨ code = 0x2028 ∨ code = 0x2029 ∨ code = 0x202F ∨ code = 0x205F ∨ code = 0x3000)

def trim (letters : List Char) : List Char :=
  (((letters.dropWhile unicodeWhitespace).reverse).dropWhile unicodeWhitespace).reverse

def skipWhitespace (letters : List Char) : List Char := letters.dropWhile asciiWhitespace

def asciiDigit (letter : Char) : Bool := decide (48 ≤ letter.toNat ∧ letter.toNat ≤ 57)

def hexDigit (letter : Char) : Option Nat :=
  let code := letter.toNat
  if 48 ≤ code ∧ code ≤ 57 then some (code-48)
  else if 97 ≤ code ∧ code ≤ 102 then some (code-87)
  else if 65 ≤ code ∧ code ≤ 70 then some (code-55)
  else none

def hexCode (first second third fourth : Char) : Option Nat := do
  let one ← hexDigit first
  let two ← hexDigit second
  let three ← hexDigit third
  let four ← hexDigit fourth
  pure (((one*16+two)*16+three)*16+four)

-- `char::from_u32`, which has nothing for a surrogate.
def fromCode (code : Nat) : List Char := if 0xD800 ≤ code ∧ code ≤ 0xDFFF then [] else [Char.ofNat code]

def unescape (letter : Char) : Option Char :=
  if letter = quote then some quote
  else if letter = backslash then some backslash
  else if letter = '/' then some '/'
  else if letter = 'b' then some backspace
  else if letter = 'f' then some formFeed
  else if letter = 'n' then some '\n'
  else if letter = 'r' then some '\r'
  else if letter = 't' then some '\t'
  else none

-- The string behind its opening quote. The four digits of a Unicode escape are
-- stepped over one by one, and then the step of every other letter is made too.
def parseString : List Char → Except String (List Char × List Char)
  | [] => .error "Unterminated string"
  | letter :: rest =>
    if letter = quote then .ok ([],rest)
    else if letter = backslash then
      match rest with
      | [] => .error "Unexpected end of JSON"
      | escaped :: after =>
        if escaped = 'u' then
          match after with
          | first :: second :: third :: fourth :: more =>
            match hexCode first second third fourth with
            | some code =>
              match more with
              | [] => .error "Unterminated string"
              | _ :: others => (parseString others).map fun read => (fromCode code ++ read.1,read.2)
            | none => .error "Invalid Unicode escape"
          | _ => .error "Invalid Unicode escape"
        else
          match unescape escaped with
          | some meant => (parseString after).map fun read => (meant :: read.1,read.2)
          | none => .error "Invalid escape sequence"
    else (parseString rest).map fun read => (letter :: read.1,read.2)

def readInteger : List Char → Except String (List Char × List Char)
  | [] => .error "Invalid number"
  | letter :: rest =>
    if letter = '0' then .ok (['0'],rest)
    else if asciiDigit letter then .ok (letter :: rest.takeWhile asciiDigit,rest.dropWhile asciiDigit)
    else .error "Invalid number"

def readDigits (failure : String) (letters : List Char) : Except String (List Char × List Char) :=
  let digits := letters.takeWhile asciiDigit
  if digits = [] then .error failure else .ok (digits,letters.dropWhile asciiDigit)

def readFraction : List Char → Except String (List Char × List Char)
  | '.' :: rest => (readDigits "Invalid decimal part" rest).map fun read => ('.' :: read.1,read.2)
  | letters => .ok ([],letters)

def readExponentSign : List Char → List Char × List Char
  | '+' :: rest => (['+'],rest)
  | '-' :: rest => (['-'],rest)
  | letters => ([],letters)

def readExponent : List Char → Except String (List Char × List Char)
  | [] => .ok ([],[])
  | letter :: rest =>
    if letter = 'e' ∨ letter = 'E' then
      let signed := readExponentSign rest
      (readDigits "Invalid exponent part" signed.2).map fun read => (letter :: signed.1 ++ read.1,read.2)
    else .ok ([],letter :: rest)

def readSign : List Char → List Char × List Char
  | '-' :: rest => (['-'],rest)
  | letters => ([],letters)

def parseNumber (letters : List Char) : Except String (JsonValue × List Char) := do
  let sign := readSign letters
  let integer ← readInteger sign.2
  let fraction ← readFraction integer.2
  let exponent ← readExponent fraction.2
  pure (.number (String.ofList (sign.1 ++ integer.1 ++ fraction.1 ++ exponent.1)),exponent.2)

def parseLiteral (literal : String) (value : JsonValue) (letters : List Char) : Except String (JsonValue × List Char) :=
  if literal.toList.isPrefixOf letters then .ok (value,letters.drop literal.length)
  else .error ("Expected " ++ literal)

-- Each call has at least as much fuel as twice the letters in front of it. A key
-- is read as a string from behind whatever letter it begins with.
mutual
def parseValue : Nat → List Char → Except String (JsonValue × List Char)
  | 0, _ => .error "Unexpected end of JSON"
  | fuel+1, letters =>
    match skipWhitespace letters with
    | [] => .error "Unexpected end of JSON"
    | letter :: rest =>
      if letter = quote then (parseString rest).map fun read => (.string (String.ofList read.1),read.2)
      else if letter = Char.ofNat 123 then (parseMembers fuel [] rest).map fun read => (.object read.1,read.2)
      else if letter = '[' then (parseItems fuel [] rest).map fun read => (.array read.1,read.2)
      else if letter = 't' then parseLiteral "true" (.boolean true) (letter :: rest)
      else if letter = 'f' then parseLiteral "false" (.boolean false) (letter :: rest)
      else if letter = 'n' then parseLiteral "null" .null (letter :: rest)
      else if letter = '-' ∨ asciiDigit letter then parseNumber (letter :: rest)
      else .error "Invalid JSON value"
def parseMembers : Nat → List (String × JsonValue) → List Char → Except String (List (String × JsonValue) × List Char)
  | 0, _, _ => .error "Unexpected end of JSON"
  | fuel+1, obj, letters =>
    match skipWhitespace letters with
    | [] => .error "Unexpected end of JSON"
    | letter :: rest =>
      if letter = Char.ofNat 125 then .ok (obj,rest)
      else
        match parseString rest with
        | .error _ => .error "Invalid object key"
        | .ok (key,after_key) =>
          match skipWhitespace after_key with
          | [] => .error "Expected colon after object key"
          | colon :: behind =>
            if colon ≠ ':' then .error "Expected colon after object key"
            else
              match parseValue fuel behind with
              | .error failure => .error failure
              | .ok (value,after_value) =>
                let inserted := insertEntry (String.ofList key) value obj
                match skipWhitespace after_value with
                | [] => .error "Unexpected end of JSON"
                | next :: others =>
                  if next = Char.ofNat 125 then .ok (inserted,others)
                  else if next ≠ ',' then .error "Expected comma after object value"
                  else parseMembers fuel inserted others
def parseItems : Nat → List JsonValue → List Char → Except String (List JsonValue × List Char)
  | 0, _, _ => .error "Unexpected end of JSON"
  | fuel+1, arr, letters =>
    match skipWhitespace letters with
    | [] => .error "Unexpected end of JSON"
    | letter :: rest =>
      if letter = ']' then .ok (arr,rest)
      else
        match parseValue fuel (letter :: rest) with
        | .error failure => .error failure
        | .ok (value,after_value) =>
          match skipWhitespace after_value with
          | [] => .error "Unexpected end of JSON"
          | next :: others =>
            if next = ']' then .ok (arr ++ [value],others)
            else if next ≠ ',' then .error "Expected comma after array value"
            else parseItems fuel (arr ++ [value]) others
end

def parseJsonStr (text : String) : Except String JsonValue :=
  let trimmed := trim text.toList
  if trimmed = [] then .ok .null
  else (parseValue (2*trimmed.length+2) trimmed).map (·.1)

end Parsing
end Json
end RemDb
