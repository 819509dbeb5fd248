import RemDb.Sql.Lexer

namespace RemDb
open RemDb.Lib

-- `str::parse::<i64>`: a sign and at least one digit, within range.
def digitsValue (digits : List Char) : Option Nat :=
  if digits ≠ [] ∧ digits.all Char.isDigit then
    some (digits.foldl (fun value digit => value*10+(digit.toNat-48)) 0)
  else none

theorem digitsValue_eq {digits : List Char} (filled : digits ≠ []) (all : ∀ letter ∈ digits, letter.isDigit = true) :
    digitsValue digits = some (Nat.ofDigitChars 10 digits 0) := by
  rw [digitsValue,if_pos ⟨filled,List.all_eq_true.mpr all⟩,Nat.ofDigitChars_eq_foldl]
  congr 3
  funext value digit
  rw [Nat.mul_comm]
  rfl

theorem digitsValue_toDigits (n : Nat) : digitsValue (Nat.toDigits 10 n) = some n := by
  rw [digitsValue_eq Nat.toDigits_ne_nil fun letter among => Nat.isDigit_of_mem_toDigits (by decide) (by decide) among,
    Nat.ofDigitChars_ten_toDigits]

def parseI64 : List Char → Option Int64
  | '-' :: digits =>
    match digitsValue digits with
    | some value => if value ≤ 2^63 then some (Int64.ofInt (-value)) else none
    | none => none
  | '+' :: digits =>
    match digitsValue digits with
    | some value => if value < 2^63 then some (Int64.ofNat value) else none
    | none => none
  | digits =>
    match digitsValue digits with
    | some value => if value < 2^63 then some (Int64.ofNat value) else none
    | none => none

def parseUsize (text : String) : Option Nat :=
  let digits := match text.toList with
    | '+' :: digits => digits
    | digits => digits
  (digitsValue digits).filter fun value => decide (value < usizeLimit)

theorem parseUsize_repr {n : Nat} (small : n < usizeLimit) : parseUsize n.repr = some n := by
  have digits : n.repr.toList = Nat.toDigits 10 n := Nat.toList_repr
  have unsigned : (match Nat.toDigits 10 n with
      | '+' :: digits => digits
      | digits => digits) = Nat.toDigits 10 n := by
    split
    · rename_i digits is
      have digit : '+'.isDigit = true := Nat.isDigit_of_mem_toDigits (by decide) (by decide) (is ▸ List.mem_cons_self)
      exact absurd digit (by decide)
    · rfl
  rw [parseUsize,digits,unsigned,digitsValue_toDigits]
  simp only [Option.filter,small,decide_true,if_true]

namespace TimeString

-- The text of a literal holds characters up to 255 only.
def isSpace (letter : Char) : Bool := SqlParser.isWhitespace (UInt8.ofNat letter.toNat)

def splitAt (mark : Char) (text : List Char) : List (List Char) := text.splitOn mark

def bytesOf (letter : Char) : Nat := if letter.toNat < 128 then 1 else 2

-- `parse_timezone_offset` on what follows the sign, for its slices: the first
-- character is a digit, and a cut behind two bytes must not split the second.
def offsetPanics (offset_str : List Char) : Bool :=
  decide ((splitAt ':' offset_str).length ≠ 2 ∧ (offset_str.map bytesOf).sum = 4) &&
    (offset_str[1]?).any fun second => decide (bytesOf second ≠ 1)

-- `split_timezone_from_time`; the offset itself is not used.
def splitTimezone (time_part : List Char) : Except ParseFault (List Char) :=
  let before := time_part.takeWhile fun letter => decide (letter ≠ '+' ∧ letter ≠ '-')
  let after := time_part.drop before.length
  if before ≠ [] ∧ ((after[1]?).any Char.isDigit) = true then
    if offsetPanics (after.drop 1) then .error .panicked else .ok before
  else .ok time_part

def monthDays : List Int64 := [31,28,31,30,31,30,31,31,30,31,30,31]

-- Days and seconds in wrapping arithmetic; a month beyond the thirteenth runs
-- over the end of the table.
def seconds (year month day hour minute second : Int64) : Except ParseFault Int64 :=
  if (month-1).toInt > 12 then .error .panicked
  else
    let years : Int64 := Int64.ofInt (max 0 (year.toInt-1970))
    let days := (monthDays.take (month-1).toInt.toNat).foldl (·+·) 0
    .ok (years*(365*24*60*60)+days*(24*60*60)+(day-1)*(24*60*60)+hour*(60*60)+minute*60+second)

def components (mark : Char) (text : List Char) : Option (Int64 × Int64 × Int64) :=
  match splitAt mark text with
  | [first,second,third] => do
    let first ← parseI64 first
    let second ← parseI64 second
    let third ← parseI64 third
    pure (first,second,third)
  | _ => none

def words (text : List Char) : List (List Char) :=
  (text.splitOnP isSpace).filter fun word => !word.isEmpty

-- `parse_time_string`; `none` is its error.
def parse (text : List Char) : Except ParseFault (Option Int64) :=
  if text.head? = some '[' ∧ text.getLast? = some ']' then .ok none
  else if text.any fun letter => letter ∈ ['Y','M','D','H','I','S'] then .ok none
  else
    match parseI64 text with
    | some timestamp => .ok (some timestamp)
    | none =>
      match words text with
      | [] => .ok none
      | date_part :: rest =>
        match components '-' date_part with
        | none => .ok none
        | some (year,month,day) =>
          match rest with
          | [] => (seconds year month day 0 0 0).map fun total => some (total*1000000)
          | time_part :: _ => do
            let time_only ← splitTimezone time_part
            match components ':' time_only with
            | none => pure none
            | some (hour,minute,second) =>
              let total ← seconds year month day hour minute second
              pure (some (total*1000000))

end TimeString

-- Floating point and the debug texts of expressions are left open.
structure Renderings where
  float : Bytes → Option UInt64
  debugValue : SqlValue → String

namespace SqlParser

-- The text between quotes and the bytes it takes up, the closing quote
-- included; a doubled quote stands for one, and the end of the input closes.
def quoted (quote : UInt8) : Bytes → Bytes × Nat
  | [] => ([],0)
  | first :: rest =>
    if first = quote then
      match rest with
      | second :: more =>
        if second = quote then
          let inner := quoted quote more
          (quote :: inner.1,inner.2+2)
        else ([],1)
      | [] => ([],1)
    else
      let inner := quoted quote rest
      (first :: inner.1,inner.2+1)

def trimStart (mark : Char) (text : List Char) : List Char := text.dropWhile fun letter => decide (letter = mark)
def trimEnd (mark : Char) (text : List Char) : List Char := (trimStart mark text.reverse).reverse

-- `trim_start_matches` with a text.
def trimPrefix (front : List Char) : Nat → List Char → List Char
  | 0, text => text
  | fuel+1, text =>
    if front.isPrefixOf text then trimPrefix front fuel (text.drop front.length) else text

def quotation : Char := Char.ofNat 34
def apostrophe : Char := Char.ofNat 39

def stringValue (text : List Char) : Except ParseFault SqlValue :=
  let hint := "__JSON__:".toList
  if hint.isPrefixOf text then .ok (.json (String.ofList (trimPrefix hint text.length text)))
  else
    let unquoted := trimEnd apostrophe (trimStart apostrophe (trimEnd quotation (trimStart quotation text)))
    if unquoted.head? = some (Char.ofNat 123) ∨ unquoted.head? = some (Char.ofNat 91) then .ok (.json (String.ofList unquoted))
    else do
      match ← TimeString.parse text with
      | some timestamp => pure (.integer timestamp)
      | none => pure (.string (String.ofList text))

-- The bytes of a bracketed literal up to the bracket that closes it.
def bracketed (opening closing : UInt8) : Bytes → Nat → Option UInt8 → Option Nat
  | _, 0, _ => some 0
  | [], _+1, _ => none
  | byte :: rest, depth+1, inside =>
    let inside :=
      if byte = 34 ∨ byte = 39 then
        match inside with
        | none => some byte
        | some quote => if byte = quote then none else inside
      else inside
    let depth :=
      if inside.isSome then depth+1
      else if byte = opening then depth+2
      else if byte = closing then depth
      else depth+1
    (bracketed opening closing rest depth inside).map (·+1)

def parseBracketed (opening closing : UInt8) : Parse SqlValue := do
  let parser ← get
  match bracketed opening closing (parser.rest.drop 1) 1 none with
  | none =>
    set (parser.advance parser.rest.length)
    reject .invalidSyntax
  | some length =>
    set (parser.advance (length+1))
    match String.fromUTF8? ⟨(parser.rest.take (length+1)).toArray⟩ with
    | some text => pure (.json text)
    | none => throw .panicked

-- The bytes of a number: a sign, a digit, and digits and dots.
def numberLength (rest : Bytes) : Option Nat :=
  let sign := if rest.head? = some 45 then 1 else 0
  let body := rest.drop sign
  if body.head?.any isDigit then some (sign+(body.takeWhile fun byte => isDigit byte || byte == 46).length) else none

def parseNumberStr : Parse Bytes := do
  let parser ← get
  match numberLength parser.rest with
  | none =>
    if parser.rest.head? = some 45 then set (parser.advance 1) else pure ()
    reject .invalidValue
  | some length =>
    set (parser.advance length)
    pure (parser.rest.take length)

def parseNumberValue (texts : Renderings) : Parse SqlValue := do
  let number_str ← parseNumberStr
  if 46 ∈ number_str then
    match texts.float number_str with
    | some bits => pure (.float bits)
    | none => reject .invalidValue
  else
    match parseI64 (latin number_str).toList with
    | some value => pure (.integer value)
    | none => reject .invalidValue

-- The functions whose arguments are skipped; without a closing bracket the
-- skipping does not end.
def skipCall : Parse SqlValue := do
  skipWhitespace
  expectChar 40
  skipWhitespace
  let parser ← get
  if 41 ∈ parser.rest then
    set (parser.advance ((parser.rest.takeWhile (· ≠ 41)).length+1))
    pure (.integer 0)
  else throw .endless

def emptyCall : Parse SqlValue := do
  skipWhitespace
  expectChar 40
  skipWhitespace
  expectChar 41
  pure (.integer 0)

def optionalCall : Parse SqlValue := do
  skipWhitespace
  if ← matchChar 40 then
    skipWhitespace
    expectChar 41
    pure (.integer 0)
  else pure (.integer 0)

def liftFault : Except ParseFault α → Parse α
  | .ok value => pure value
  | .error fault => throw fault

def parseValue (texts : Renderings) : Parse SqlValue := do
  let next ← peekChar
  if next = some 34 ∨ next = some 39 then
    let parser ← get
    let literal := quoted (next.getD 0) (parser.rest.drop 1)
    set (parser.advance (literal.2+1))
    liftFault (stringValue (latin literal.1).toList)
  else if ← matchKeyword "NULL" then pure .null
  else if ← matchKeyword "TRUE" then pure (.boolean true)
  else if ← matchKeyword "FALSE" then pure (.boolean false)
  else if ← matchKeyword "NOW" then emptyCall
  else if ← matchKeyword "CURRENT_TIMESTAMP" then optionalCall
  else if ← matchKeyword "LOCALTIMESTAMP" then optionalCall
  else if ← matchKeyword "TIMEZONE" then skipCall
  else if ← matchKeyword "TO_CHAR" then skipCall
  else if ← matchKeyword "TO_ISO8601" then skipCall
  else if ← matchKeyword "TO_EPOCH" then skipCall
  else if next = some 91 then parseBracketed 91 93
  else if next = some 123 then parseBracketed 123 125
  else if next.any fun byte => isDigit byte || byte == 45 then parseNumberValue texts
  else if next.any startsIdentifier then
    let name ← parseIdentifier
    pure (.identifier name)
  else reject .invalidValue

end SqlParser
end RemDb
