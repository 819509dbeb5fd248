import RemDb.Lib.Actions
import RemDb.Sql.Expression

namespace RemDb
open RemDb.Lib

inductive QueryParseError where
  | invalidSyntax | unsupportedKeyword | invalidTableName | invalidFieldName | invalidCondition
  | invalidOperator | invalidValue | missingClause
deriving DecidableEq,Repr

-- `panicked` is an index or a slice out of place; `endless` is a loop that does
-- not end within its input.
inductive ParseFault where
  | error (failure : QueryParseError)
  | panicked
  | endless
deriving DecidableEq,Repr

-- Line and column are counted and never read.
structure SqlParser where
  input : Bytes
  position : Nat
deriving DecidableEq,Repr

abbrev Parse := EStateM ParseFault SqlParser

def reject (failure : QueryParseError) : Parse α := throw (.error failure)

namespace SqlParser

def new (input : String) : SqlParser := ⟨utf8 input,0⟩

def rest (parser : SqlParser) : Bytes := parser.input.drop parser.position
def advance (parser : SqlParser) (count : Nat) : SqlParser := {parser with position:=parser.position+count}

theorem rest_advance (parser : SqlParser) (count : Nat) :
    (parser.advance count).rest = parser.rest.drop count := by
  rw [rest,rest,advance,List.drop_drop]

theorem advance_advance (parser : SqlParser) (first second : Nat) :
    (parser.advance first).advance second = parser.advance (first+second) := by
  simp only [advance,Nat.add_assoc]

-- Characters are single bytes, so that a letter outside ASCII counts as two or
-- more of the range above 127.
def isWhitespace (byte : UInt8) : Bool :=
  decide (9 ≤ byte ∧ byte ≤ 13) || decide (byte = 32 ∨ byte = 0x85 ∨ byte = 0xA0)
def isUpper (byte : UInt8) : Bool := decide (65 ≤ byte ∧ byte ≤ 90)
def isLower (byte : UInt8) : Bool := decide (97 ≤ byte ∧ byte ≤ 122)
def isDigit (byte : UInt8) : Bool := decide (48 ≤ byte ∧ byte ≤ 57)
def isAlphabetic (byte : UInt8) : Bool := isUpper byte || isLower byte
def isAlphanumeric (byte : UInt8) : Bool := isAlphabetic byte || isDigit byte
def startsIdentifier (byte : UInt8) : Bool := isAlphabetic byte || byte == 95
def inIdentifier (byte : UInt8) : Bool := isAlphanumeric byte || byte == 95 || byte == 46

def lower (byte : UInt8) : UInt8 := if isUpper byte then byte+32 else byte
def eqIgnoreCase (left right : Bytes) : Bool := decide (left.map lower = right.map lower)

def latin (bytes : Bytes) : String := String.ofList (bytes.map fun byte => Char.ofNat byte.toNat)

def peekChar : Parse (Option UInt8) := do
  let parser ← get
  pure parser.rest.head?

theorem run_peekChar (parser : SqlParser) : peekChar.run parser = .ok parser.rest.head? parser := rfl

def nextChar : Parse (Option UInt8) := do
  let parser ← get
  match parser.rest.head? with
  | none => pure none
  | some byte =>
    set (parser.advance 1)
    pure (some byte)

-- The guard of the loop counts as many rounds as the input has bytes and is
-- never reached.
def skipWhitespace : Parse Unit :=
  modify fun parser => parser.advance (parser.rest.takeWhile isWhitespace).length

-- An underscore behind a keyword does not make it part of a longer word.
def keywordAt (keyword : Bytes) (rest : Bytes) : Bool :=
  eqIgnoreCase (rest.take keyword.length) keyword && (rest[keyword.length]?).all fun next => !isAlphanumeric next

def matchKeyword (keyword : String) : Parse Bool := do
  let parser ← get
  if keywordAt (utf8 keyword) parser.rest then
    set (parser.advance (utf8 keyword).length)
    pure true
  else pure false

def matchStr (text : String) : Parse Bool := do
  let parser ← get
  if (utf8 text).isPrefixOf parser.rest then
    set (parser.advance (utf8 text).length)
    pure true
  else pure false

def matchChar (byte : UInt8) : Parse Bool := do
  let parser ← get
  if parser.rest.head? = some byte then
    set (parser.advance 1)
    pure true
  else pure false

def expectKeyword (keyword : String) : Parse Unit := do
  if ← matchKeyword keyword then pure () else reject .invalidSyntax

def expectChar (byte : UInt8) : Parse Unit := do
  if ← matchChar byte then pure () else reject .invalidSyntax

def identifierLength : Bytes → Nat
  | [] => 0
  | first :: rest => if startsIdentifier first then (rest.takeWhile inIdentifier).length+1 else 0

-- The slice of an identifier is of ASCII bytes and ends before one that is not
-- a continuation byte.
def parseIdentifier : Parse String := do
  let parser ← get
  let length := identifierLength parser.rest
  if length = 0 then reject .invalidSyntax
  else
    set (parser.advance length)
    pure (latin (parser.rest.take length))

section Runs
variable {parser : SqlParser}

theorem matchKeyword_refused (keyword : String) (other : keywordAt (utf8 keyword) parser.rest = false) :
    (matchKeyword keyword).run parser = .ok false parser := by
  unfold matchKeyword
  rw [EStateM.run_bind,EStateM.run_get]
  simp only [other]
  rfl

theorem matchKeyword_found (keyword : String) (found : keywordAt (utf8 keyword) parser.rest = true) :
    (matchKeyword keyword).run parser = .ok true (parser.advance (utf8 keyword).length) := by
  unfold matchKeyword
  rw [EStateM.run_bind,EStateM.run_get]
  simp only [found]
  rfl

theorem keywordAt_other_letter {letter first : UInt8} (starts : keyword = letter :: others) (different : lower first ≠ lower letter)
    (rest : Bytes) : keywordAt keyword (first :: rest) = false := by
  subst starts
  rw [keywordAt,eqIgnoreCase,Bool.and_eq_false_iff]
  left
  apply decide_eq_false
  intro same
  exact different (List.cons.inj same).1

theorem skipWhitespace_none {first : UInt8} {rest : Bytes} (standing : parser.rest = first :: rest)
    (solid : isWhitespace first = false) : skipWhitespace.run parser = .ok () parser := by
  change EStateM.Result.ok () (parser.advance (parser.rest.takeWhile isWhitespace).length) = _
  rw [standing,List.takeWhile_cons,solid]
  rfl

theorem without_keyword (keyword : String) (other : keywordAt (utf8 keyword) parser.rest = false)
    (matched unmatched : Parse α) :
    (do if ← matchKeyword keyword then matched else unmatched : Parse α).run parser = unmatched.run parser := by
  rw [run_bind_of_ok (matchKeyword_refused keyword other)]
  rfl

theorem with_keyword (keyword : String) (found : keywordAt (utf8 keyword) parser.rest = true)
    (matched unmatched : Parse α) :
    (do if ← matchKeyword keyword then matched else unmatched : Parse α).run parser =
      matched.run (parser.advance (utf8 keyword).length) := by
  rw [run_bind_of_ok (matchKeyword_found keyword found)]
  rfl

end Runs

end SqlParser
end RemDb
