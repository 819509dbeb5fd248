import RemDb.Sql.Literals

namespace RemDb
open RemDb.Lib

-- Expressions as the parser makes them, with the aliases it finds.
inductive ParsedExpression where
  | field (name : String) (label : Option String)
  | functionCall (name : String) (args : List ParsedExpression) (label : Option String)
  | constant (value : SqlValue) (label : Option String)
  | binaryOp (left : ParsedExpression) (op : BinaryOperator) (right : ParsedExpression) (label : Option String)

-- `alias.or(expr_alias)` for the first three kinds; the alias of an operation is
-- the one just read.
def ParsedExpression.withAlias (label : Option String) : ParsedExpression → ParsedExpression
  | .field name own => .field name (label.or own)
  | .functionCall name args own => .functionCall name args (label.or own)
  | .constant value own => .constant value (label.or own)
  | .binaryOp left op right _ => .binaryOp left op right label

-- The debug texts that stand for fields where the left side is not a name.
structure DebugTexts extends Renderings where
  debug : ParsedExpression → String

namespace SqlParser

-- `if let Ok(..)`: an error is let go, the position is where it happened.
def attempt (parser : Parse α) : Parse (Option α) := fun state =>
  match parser.run state with
  | .ok value after => .ok (some value) after
  | .error (.error _) after => .ok none after
  | .error fault after => .error fault after

-- `peek_identifier` counts characters where the position counts bytes. It can
-- look past what it should, and cut the text inside a character.
def peekIdentifier (parser : SqlParser) : Except ParseFault (Option String) :=
  match String.fromUTF8? ⟨parser.input.toArray⟩ with
  | none => .error .panicked
  | some text =>
    match text.toList.drop parser.position with
    | [] => .ok none
    | first :: rest =>
      let inWord (letter : Char) := letter.isAlphanum || letter == '_'
      if first.isAlpha || first == '_' then
        let length := (rest.takeWhile inWord).length+1
        match String.fromUTF8? ⟨(readAt parser.input parser.position length).toArray⟩ with
        | some word =>
          if parser.position+length ≤ parser.input.length then .ok (some word) else .error .panicked
        | none => .error .panicked
      else .ok none

def notAliases : List String :=
  ["FROM","WHERE","ORDER","LIMIT","GROUP","HAVING","JOIN","ON","IN","AND","OR","NOT"]

def parseAlias : Parse (Option String) := do
  skipWhitespace
  if ← matchKeyword "AS" then skipWhitespace else pure ()
  let token ← liftFault (peekIdentifier (← get))
  if token.any fun token => notAliases.contains (String.ofList (token.toList.map upperChar)) then pure none
  else if (← peekChar).any startsIdentifier then
    let label ← parseIdentifier
    pure (some label)
  else pure none

-- The operators of `parse_expression`: the operator and its bytes, or none. A
-- lone exclamation mark is taken and ends the loop.
inductive OperatorFound where
  | operator (op : BinaryOperator) (length : Nat)
  | stop (length : Nat)
deriving DecidableEq,Repr

def expressionOperator : Bytes → OperatorFound
  | 43 :: _ => .operator .add 1
  | 45 :: _ => .operator .subtract 1
  | 42 :: _ => .operator .multiply 1
  | 47 :: _ => .operator .divide 1
  | 60 :: 45 :: rest => if rest.head? = some 62 then .operator .vectorL2 3 else .stop 0
  | 60 :: 35 :: rest => if rest.head? = some 62 then .operator .vectorIP 3 else .stop 0
  | 60 :: 61 :: rest => if rest.head? = some 62 then .operator .vectorCosine 3 else .operator .lessThanOrEqual 2
  | 60 :: _ => .operator .lessThan 1
  | 62 :: rest => if rest.head? = some 61 then .operator .greaterThanOrEqual 2 else .operator .greaterThan 1
  | 61 :: _ => .operator .equal 1
  | 33 :: rest => if rest.head? = some 61 then .operator .notEqual 2 else .stop 1
  | _ => .stop 0

-- The operator that may stand between the left side of a comparison and a vector.
def vectorOperator : Bytes → Option BinaryOperator
  | 60 :: 45 :: 62 :: _ => some .vectorL2
  | 60 :: 35 :: 62 :: _ => some .vectorIP
  | 60 :: 61 :: 62 :: _ => some .vectorCosine
  | _ => none

def takeOperator : Parse (Option BinaryOperator) := do
  let parser ← get
  match expressionOperator parser.rest with
  | .operator op length =>
    set (parser.advance length)
    pure (some op)
  | .stop length =>
    set (parser.advance length)
    pure none

def parseInterval (texts : DebugTexts) : Parse ParsedExpression := do
  skipWhitespace
  let interval_value ← parseValue texts.toRenderings
  skipWhitespace
  match ← attempt parseIdentifier with
  | some unit =>
    match interval_value with
    | .integer value => pure (.constant (.string (toString value.toInt ++ " " ++ unit)) none)
    | .string text => pure (.constant (.string (text ++ " " ++ unit)) none)
    | _ => reject .invalidValue
  | none => pure (.constant interval_value none)

def parseField (texts : DebugTexts) : Parse ParsedExpression := do
  let identifier ← parseIdentifier
  if eqIgnoreCase (utf8 identifier) (utf8 "INTERVAL") then parseInterval texts
  else pure (.field identifier none)

-- Constants that are told by their first character or by a keyword.
def parseConstant (texts : DebugTexts) (current : UInt8) : Parse (Option ParsedExpression) := do
  if isDigit current || current == 45 || current == 34 || current == 39 || isAlphabetic current then
    if ← matchKeyword "TRUE" then pure (some (.constant (.boolean true) none))
    else if ← matchKeyword "FALSE" then pure (some (.constant (.boolean false) none))
    else if ← matchKeyword "NULL" then pure (some (.constant .null none))
    else if isDigit current || current == 45 || current == 34 || current == 39 then
      let value ← parseValue texts.toRenderings
      pure (some (.constant value none))
    else pure none
  else pure none

-- The name of a function with its opening bracket; back to the start otherwise.
def parseCallee : Parse (Option String) := do
  let start ← get
  match ← attempt parseIdentifier with
  | none =>
    set start
    pure none
  | some name =>
    skipWhitespace
    if ← matchChar 40 then pure (some name)
    else
      set start
      pure none

mutual

-- Every nesting and every round of a loop takes a byte.
def parsePrimaryExpression (texts : DebugTexts) : Nat → Parse ParsedExpression
  | 0 => throw .endless
  | fuel+1 => do
    skipWhitespace
    let start ← get
    if ← matchChar 42 then pure (.field "*" none)
    else
      let vector ← (if start.rest.head? = some 91 then attempt (parseValue texts.toRenderings) else pure none)
      match vector with
      | some value => pure (.constant value none)
      | none =>
        set start
        match start.rest.head? with
        | none => reject .invalidSyntax
        | some current =>
          match ← parseConstant texts current with
          | some constant => pure constant
          | none =>
            match ← parseCallee with
            | some name =>
              let args ← parseArguments texts fuel
              skipWhitespace
              expectChar 41
              pure (.functionCall name args none)
            | none => parseField texts

def parseArguments (texts : DebugTexts) : Nat → Parse (List ParsedExpression)
  | 0 => throw .endless
  | fuel+1 => do
    skipWhitespace
    if (← peekChar) = some 41 then pure []
    else
      let argument ← parseExpression texts fuel
      skipWhitespace
      if ← matchChar 44 then
        let rest ← parseArguments texts fuel
        pure (argument :: rest)
      else pure [argument]

def parseExpression (texts : DebugTexts) : Nat → Parse ParsedExpression
  | 0 => throw .endless
  | fuel+1 => do
    skipWhitespace
    let first ← parsePrimaryExpression texts fuel
    let whole ← parseOperands texts fuel first
    skipWhitespace
    let tested ← (do
      if ← matchKeyword "IS" then
        skipWhitespace
        let is_not ← matchKeyword "NOT"
        skipWhitespace
        if ← matchKeyword "NULL" then
          pure (.binaryOp whole (if is_not then .notEqual else .equal) (.constant .null none) none)
        else pure whole
      else pure whole)
    skipWhitespace
    let label ← parseAlias
    pure (tested.withAlias label)

def parseOperands (texts : DebugTexts) : Nat → ParsedExpression → Parse ParsedExpression
  | 0, _ => throw .endless
  | fuel+1, left => do
    skipWhitespace
    match ← takeOperator with
    | none => pure left
    | some op =>
      skipWhitespace
      let right ← parsePrimaryExpression texts fuel
      parseOperands texts fuel (.binaryOp left op right none)

end

-- Four rounds for each byte are more than any nesting needs.
def expressionFuel (parser : SqlParser) : Nat := 4*(parser.rest.length+1)

def parseVectorExpression (texts : DebugTexts) : Parse ParsedExpression := do
  let left ← parsePrimaryExpression texts (expressionFuel (← get))
  skipWhitespace
  let parser ← get
  match vectorOperator parser.rest with
  | none => pure left
  | some op =>
    set (parser.advance 3)
    skipWhitespace
    let right ← parsePrimaryExpression texts (expressionFuel (← get))
    skipWhitespace
    pure (.binaryOp left op right none)

def parseComparisonOperator : Parse ComparisonOperator := do
  if ← matchStr "=" then pure .equal
  else if ← matchStr "<>" then pure .notEqual
  else if ← matchStr "!=" then pure .notEqual
  else if ← matchStr ">=" then pure .greaterThanOrEqual
  else if ← matchStr ">" then pure .greaterThan
  else if ← matchStr "<=" then pure .lessThanOrEqual
  else if ← matchStr "<" then pure .lessThan
  else reject .invalidOperator

def operatorText : BinaryOperator → String
  | .add => "+"
  | .subtract => "-"
  | .multiply => "*"
  | .equal => "="
  | .notEqual => "!="
  | .greaterThan => ">"
  | .greaterThanOrEqual => ">="
  | .lessThan => "<"
  | .lessThanOrEqual => "<="
  | .vectorL2 => "<->"
  | .vectorIP => "<#>"
  | .vectorCosine => "<=>"
  | .divide => "?"

def betweenField (texts : DebugTexts) : ParsedExpression → String
  | .field name none => name
  | .binaryOp left op right none =>
    let left_name := match left with
      | .field name none => name
      | _ => texts.debug left
    let right_str := match right with
      | .constant value none => texts.debugValue value
      | _ => texts.debug right
    left_name ++ " " ++ operatorText op ++ " " ++ right_str
  | expression => texts.debug expression

def comparisonField (texts : DebugTexts) : ParsedExpression → Option String
  | .field name none => some name
  | .binaryOp (.field name none) op (.constant (.string text) none) none =>
    if op ∈ [.vectorL2,.vectorIP,.vectorCosine] then some (name ++ " " ++ operatorText op ++ " " ++ text) else none
  | .binaryOp (.field name none) op (.constant (.json text) none) none =>
    if op ∈ [.vectorL2,.vectorIP,.vectorCosine] then some (name ++ " " ++ operatorText op ++ " " ++ text) else none
  | .binaryOp _ _ _ none => none
  | expression => some (texts.debug expression)

def parseBetweenCondition (texts : DebugTexts) : Parse Condition := do
  let left ← parseVectorExpression texts
  skipWhitespace
  expectKeyword "BETWEEN"
  skipWhitespace
  let min_value ← parseValue texts.toRenderings
  skipWhitespace
  expectKeyword "AND"
  skipWhitespace
  let max_value ← parseValue texts.toRenderings
  pure (.between ⟨betweenField texts left,min_value,max_value⟩)

def parseComparisonCondition (texts : DebugTexts) : Parse Condition := do
  let left ← parseVectorExpression texts
  skipWhitespace
  let operator ← (do
    if ← matchKeyword "LIKE" then pure .like else parseComparisonOperator)
  skipWhitespace
  let right_value ← parseValue texts.toRenderings
  match comparisonField texts left with
  | some field => pure (.comparison ⟨field,operator,right_value⟩)
  | none => reject .invalidSyntax

-- A bare expression is compared with TRUE.
def expressionField (texts : DebugTexts) : ParsedExpression → String
  | .field name none => name
  | expression => texts.debug expression

-- BETWEEN, a comparison or an expression, each tried from the same place.
def parseAtomicCondition (texts : DebugTexts) : Parse Condition := do
  let start ← get
  match ← attempt (parseBetweenCondition texts) with
  | some condition => pure condition
  | none =>
    set start
    match ← attempt (parseComparisonCondition texts) with
    | some condition => pure condition
    | none =>
      set start
      let expression ← parseExpression texts (expressionFuel start)
      pure (.comparison ⟨expressionField texts expression,.equal,.boolean true⟩)

mutual

-- A NOT takes all that follows, and what follows AND or OR is a whole condition
-- again.
def parseWhereCondition (texts : DebugTexts) : Nat → Parse Condition
  | 0 => throw .endless
  | fuel+1 => do
    skipWhitespace
    if ← matchKeyword "NOT" then
      let inner ← parseWhereCondition texts fuel
      pure (.not inner)
    else
      let first ← parseSingleCondition texts fuel
      parseConnected texts fuel first

def parseConnected (texts : DebugTexts) : Nat → Condition → Parse Condition
  | 0, _ => throw .endless
  | fuel+1, condition => do
    skipWhitespace
    if ← matchKeyword "AND" then
      let right ← parseWhereCondition texts fuel
      parseConnected texts fuel (.and condition right)
    else if ← matchKeyword "OR" then
      let right ← parseWhereCondition texts fuel
      parseConnected texts fuel (.or condition right)
    else pure condition

def parseSingleCondition (texts : DebugTexts) : Nat → Parse Condition
  | 0 => throw .endless
  | fuel+1 => do
    skipWhitespace
    if ← matchKeyword "NOT" then
      let inner ← parseSingleCondition texts fuel
      pure (.not inner)
    else if ← matchChar 40 then
      let inner ← parseWhereCondition texts fuel
      skipWhitespace
      expectChar 41
      pure inner
    else parseAtomicCondition texts

end

-- `parse_condition`; three rounds for each byte are more than any nesting needs.
def parseCondition (texts : DebugTexts) : Parse Condition := do
  parseWhereCondition texts (3*((← get).rest.length+1))

end SqlParser
end RemDb
