import RemDb.Sql.Access
import RemDb.Sql.Literals

namespace RemDb
open RemDb.Lib

-- Digits, dots and signs only, or a truth value: such a value goes into the
-- statement as it is.
def looksPlain (value : String) : Bool :=
  value.toList.all (fun letter => letter.isDigit || letter == '.' || letter == '-') || value == "true" || value == "false"

def quoteValue (value : String) : String := if looksPlain value then value else "'" ++ value ++ "'"

def bracketedText (parts : List String) : String := "(" ++ ", ".intercalate parts ++ ")\n"

def columnsText (column_names : List String) : String :=
  if column_names.isEmpty then "" else bracketedText column_names

def insertText (table_name : String) (column_names : List String) (values_str : String) : String :=
  "INSERT INTO " ++ table_name ++ columnsText column_names ++ " VALUES " ++ values_str

-- The statement `insert_record` executes.
def insertRecordSql (table_name : String) (column_names values : List String) : String :=
  insertText table_name column_names (bracketedText (values.map quoteValue))

-- The statement `batch_insert_record` executes, none where there is no record.
def batchInsertRecordSql (table_name : String) (column_names : List String) (records : List (List String)) : Option String :=
  if records.isEmpty then none
  else some (insertText table_name column_names
    (", ".intercalate (records.map fun values => bracketedText (values.map quoteValue))))

namespace SqlParser

-- What is separated by commas up to the bracket behind it. Each round takes a
-- comma, so that the length of the rest is fuel enough.
def parseListed (element : Parse α) : Nat → List α → Parse (List α)
  | 0, _ => throw .endless
  | fuel+1, listed => do
    skipWhitespace
    let value ← element
    skipWhitespace
    if ← matchChar 41 then pure (listed ++ [value])
    else if ← matchChar 44 then parseListed element fuel (listed ++ [value])
    else reject .invalidSyntax

def parseInsertColumns : Parse (List String) := do
  skipWhitespace
  if ← matchChar 40 then
    let parser ← get
    parseListed parseIdentifier (parser.rest.length+1) []
  else pure []

def parseRows (texts : Renderings) : Nat → List (List SqlValue) → Parse (List (List SqlValue))
  | 0, _ => throw .endless
  | fuel+1, all_values => do
    skipWhitespace
    expectChar 40
    let parser ← get
    let values ← parseListed (parseValue texts) (parser.rest.length+1) []
    skipWhitespace
    if ← matchChar 44 then parseRows texts fuel (all_values ++ [values])
    else pure (all_values ++ [values])

def parseValues (texts : Renderings) : Parse (List (List SqlValue)) := do
  let parser ← get
  parseRows texts (parser.rest.length+1) []

def parseInsertQuery (texts : Renderings) : Parse SqlQuery := do
  skipWhitespace
  let ignore_duplicates ← matchKeyword "IGNORE"
  skipWhitespace
  expectKeyword "INTO"
  skipWhitespace
  let table_name ← parseIdentifier
  let insert_columns ← parseInsertColumns
  skipWhitespace
  expectKeyword "VALUES"
  let values ← parseValues texts
  pure ⟨.insert,table_name,none,insert_columns,values,[],ignore_duplicates⟩

-- `parse`, with the parsers of all other statements given.
def parseStatements (texts : Renderings) (others : QueryType → Parse SqlQuery) : Parse SqlQuery := do
  skipWhitespace
  let query_type ← parseQueryType
  let query ←
    match query_type with
    | .insert => parseInsertQuery texts
    | query_type => others query_type
  skipWhitespace
  let _ ← matchChar 59
  pure query

end SqlParser
end RemDb
