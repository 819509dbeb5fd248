import RemDb.Ddl.AlterTable
import RemDb.Sql.Access
import RemDb.Sql.Conditions
import RemDb.Sql.Select

namespace RemDb
open RemDb.Lib

namespace SqlParser

def constraintWords : List String := ["PRIMARY","NOT","UNIQUE","AUTOINCREMENT","AUTO_INCREMENT","DEFAULT"]

def isConstraint (token : Option String) : Bool := token.any fun word => constraintWords.contains (upper word)

-- The bytes up to the bracket that closes `depth` open ones.
def closingBracket : Nat → Bytes → Option Nat
  | _,[] => none
  | depth,byte :: rest =>
    let inside := if byte = 40 then depth+1 else if byte = 41 then depth-1 else depth
    if inside = 0 then some 1 else (closingBracket inside rest).map (·+1)

def parseParameters : Parse String := do
  if ← matchChar 40 then
    let parser ← get
    match closingBracket 1 parser.rest with
    | none => reject .invalidSyntax
    | some length =>
      set (parser.advance length)
      pure ("(" ++ latin (parser.rest.take length))
  else pure ""

-- What follows WITH: a word, and a value behind an equals sign.
def parseWithModifier (result : String) : Parse String := do
  skipWhitespace
  match ← peekChar with
  | none => pure result
  | some next =>
    match ← liftFault (peekIdentifier (← get)) with
    | none => pure result
    | some token =>
      if isConstraint (some token) || !startsIdentifier next then pure result
      else
        let with_modifier ← parseIdentifier
        skipWhitespace
        if ← matchChar 61 then
          let value ← parseIdentifier
          pure (result ++ " " ++ with_modifier ++ "=" ++ value)
        else pure (result ++ " " ++ with_modifier)

def parseDataType : Parse String := do
  let base_type ← parseIdentifier
  skipWhitespace
  let parameters ← parseParameters
  let result := base_type ++ parameters
  skipWhitespace
  match ← peekChar with
  | none => pure result
  | some next =>
    let token ← liftFault (peekIdentifier (← get))
    if isConstraint token || !startsIdentifier next then pure result
    else
      let modifier ← parseIdentifier
      if eqIgnoreCase (utf8 modifier) (utf8 "WITH") then parseWithModifier (result ++ " " ++ modifier)
      else pure (result ++ " " ++ modifier)

-- Every round takes a keyword, so that the length of the rest is fuel enough.
def parseConstraints (texts : Renderings) : Nat → FieldConstraint × Option SqlValue →
    Parse (FieldConstraint × Option SqlValue)
  | 0,_ => throw .endless
  | fuel+1,(constraints,default_value) => do
    skipWhitespace
    if ← matchKeyword "PRIMARY" then
      skipWhitespace
      expectKeyword "KEY"
      parseConstraints texts fuel ({constraints with primary_key:=true},default_value)
    else if ← matchKeyword "NOT" then
      skipWhitespace
      expectKeyword "NULL"
      parseConstraints texts fuel ({constraints with not_null:=true},default_value)
    else if ← matchKeyword "UNIQUE" then
      parseConstraints texts fuel ({constraints with unique:=true},default_value)
    else if ← (do if ← matchKeyword "AUTOINCREMENT" then pure true else matchKeyword "AUTO_INCREMENT") then
      parseConstraints texts fuel ({constraints with auto_increment:=true},default_value)
    else if ← matchKeyword "DEFAULT" then
      skipWhitespace
      let value ← parseValue texts
      parseConstraints texts fuel (constraints,some value)
    else pure (constraints,default_value)

def columnEntry (name data_type : String) (found : FieldConstraint × Option SqlValue) : ColumnEntry :=
  (name,data_type,found.1.primary_key,found.1.not_null,found.1.unique,found.1.auto_increment,found.2)

def parseColumnDefinition (texts : Renderings) : Parse ColumnEntry := do
  let field_name ← parseIdentifier
  skipWhitespace
  let data_type ← parseDataType
  let parser ← get
  let found ← parseConstraints texts (parser.rest.length+1) (⟨false,false,false,false⟩,none)
  pure (columnEntry field_name (upper data_type) found)

-- The word COLUMN may be left out.
def optionalColumn : Parse Unit := do
  skipWhitespace
  if ← matchKeyword "COLUMN" then skipWhitespace else pure ()

-- What a statement drops or renames goes where a column has its type.
def parseAlteration (texts : Renderings) : Parse ColumnEntry := do
  if ← matchKeyword "ADD" then
    optionalColumn
    parseColumnDefinition texts
  else if ← matchKeyword "DROP" then
    optionalColumn
    let field_name ← parseIdentifier
    pure (field_name,"DROP",false,false,false,false,none)
  else if ← matchKeyword "MODIFY" then
    optionalColumn
    parseColumnDefinition texts
  else if ← matchKeyword "RENAME" then
    optionalColumn
    let old_name ← parseIdentifier
    skipWhitespace
    expectKeyword "TO"
    skipWhitespace
    let new_name ← parseIdentifier
    pure (old_name,new_name,false,false,false,false,none)
  else reject .unsupportedKeyword

def parseAlterTableQuery (texts : Renderings) : Parse AccessQuery := do
  skipWhitespace
  let table_name ← parseIdentifier
  skipWhitespace
  let field_def ← parseAlteration texts
  pure ⟨.alterTable,table_name,none,[],[field_def]⟩

-- The parsers of all statements but this one are given.
def withAlterTable (texts : Renderings) (others : QueryType → Parse AccessQuery) : QueryType → Parse AccessQuery
  | .alterTable => parseAlterTableQuery texts
  | query_type => others query_type

end SqlParser

def trimBlanks (text : List Char) : List Char :=
  ((text.dropWhile TimeString.isSpace).reverse.dropWhile TimeString.isSpace).reverse

-- `parse::<u16>`, which takes a plus sign.
def parseU16 (text : List Char) : Option UInt16 :=
  let digits := match text with
    | '+' :: digits => digits
    | digits => digits
  ((digitsValue digits).filter fun value => decide (value < 2^16)).map UInt16.ofNat

def plainTypes : List String :=
  ["INT","INTEGER","BIGINT","TINYINT","SMALLINT","INT16","INT32","INT64","UINT","UINTEGER","UBIGINT","UTINYINT",
    "USMALLINT","UINT16","UINT32","UINT64","FLOAT","DOUBLE","REAL","FLOAT32","FLOAT64","BOOL","BOOLEAN"]

def otherTypes : List String := ["VARCHAR","CHAR","TEXT","TIMESTAMP","TIMESTAMPTZ","JSON"]

-- What a type has without a bracket.
def defaultPrecision (base_type : String) : Option UInt16 :=
  if plainTypes.contains base_type then some 8
  else if ["VARCHAR","CHAR"].contains base_type then some 64
  else if ["TEXT","JSON"].contains base_type then some 512
  else if ["TIMESTAMP","TIMESTAMPTZ"].contains base_type then some 6
  else none

-- `parse_data_type_with_precision`, without the distance of a vector. The first
-- closing bracket counts, wherever it stands.
def parseDataTypeWithPrecision (type_str : String) : Except QueryExecutionError (String × UInt16) :=
  let text := (upper type_str).toList
  match text.findIdx? (· = '(') with
  | some open_paren =>
    match text.findIdx? (· = ')') with
    | none => .error .typeMismatch
    | some close_paren =>
      match parseU16 (trimBlanks ((text.take close_paren).drop (open_paren+1))) with
      | none => .error .typeMismatch
      | some param =>
        let base_type := String.ofList (trimBlanks (text.take open_paren))
        if base_type = "VECTOR" ∧ ¬ (1 ≤ param ∧ param ≤ 4096) then .error .typeMismatch
        else if (plainTypes ++ otherTypes ++ ["VECTOR"]).contains base_type then .ok (base_type,param)
        else .error .typeMismatch
  | none =>
    let base_type := String.ofList (trimBlanks text)
    match defaultPrecision base_type with
    | some size => .ok (base_type,size)
    | none => .error .typeMismatch

-- The type names of ALTER TABLE, in `execute_query`.
def alterDataType (base_type : String) : Option DataType :=
  if ["INT","INTEGER","BIGINT","TINYINT","SMALLINT","INT16","INT32","INT64"].contains base_type then some .int64
  else if ["UINT","UINTEGER","UBIGINT","UTINYINT","USMALLINT","UINT16","UINT32","UINT64"].contains base_type then
    some .uint64
  else if ["FLOAT","DOUBLE","REAL","FLOAT32","FLOAT64"].contains base_type then some .float32
  else
    match base_type with
    | "VARCHAR" => some .varChar
    | "CHAR" => some .char
    | "TEXT" => some .text
    | "BOOL" | "BOOLEAN" => some .bool
    | "TIMESTAMP" => some .timestamp
    | "TIMESTAMPTZ" => some .timestampTZ
    | "INTERVAL" => some .interval
    | "VECTOR" => some .vector
    | "JSON" => some .json
    | _ => none

-- The type names of CREATE TABLE, in `execute_create_table_query`.
def createDataType (base_type : String) : Option DataType :=
  match base_type with
  | "UINT8" | "TINYINT UNSIGNED" => some .uint8
  | "UINT16" | "SMALLINT UNSIGNED" => some .uint16
  | "UINT32" | "MEDIUMINT UNSIGNED" | "INT UNSIGNED" | "INTEGER UNSIGNED" => some .uint32
  | "UINT64" | "BIGINT UNSIGNED" => some .uint64
  | "INT8" | "TINYINT" => some .int8
  | "INT16" | "SMALLINT" => some .int16
  | "INT32" | "MEDIUMINT" | "INT" | "INTEGER" => some .int32
  | "INT64" | "BIGINT" => some .int64
  | "FLOAT32" | "FLOAT" => some .float32
  | "FLOAT64" | "DOUBLE" | "DOUBLE PRECISION" | "REAL" => some .float64
  | "BOOL" | "BOOLEAN" => some .bool
  | "TIMESTAMP" | "DATETIME" | "DATE" | "TIME" => some .timestamp
  | "TIMESTAMPTZ" | "TIMESTAMP WITH TIME ZONE" => some .timestampTZ
  | "STRING" | "TEXT" => some .text
  | "VARCHAR" | "NVARCHAR" => some .varChar
  | "CHAR" => some .char
  | "VECTOR" => some .vector
  | "JSON" => some .json
  | _ => none

-- The type and the size a CREATE TABLE hands on for a column.
def createColumnType (data_type_str : String) : Except QueryExecutionError (DataType × UInt16) :=
  match parseDataTypeWithPrecision data_type_str with
  | .error failure => .error failure
  | .ok (base_type,precision) =>
    match createDataType base_type with
    | some data_type => .ok (data_type,precision)
    | none => .error .typeMismatch

def alterDefault : SqlValue → Bytes
  | .integer value => toLE 8 value.toUInt64.toNat
  | .float bits => toLE 4 (Float.ofBits bits).toFloat32.toBits.toNat
  | .string text => padTo 64 (utf8 text)
  | .boolean value => [if value then 1 else 0]
  | _ => toLE 8 0

-- The operation the executor makes of an entry. Whether a column is added or
-- changed is read off the table, and what is no type is a new name.
def alterOperation (field_exists : Bool) (entry : ColumnEntry) :
    Except QueryExecutionError (Option AlterTableOperation) :=
  let (field1,field2,primary_key,not_null,unique,auto_increment,default_val) := entry
  if field2 = "DROP" then .ok (some (.dropColumn field1))
  else if field2 = "" then .ok none
  else
    match parseDataTypeWithPrecision field2 with
    | .error _ => .ok (some (.renameColumn field1 field2))
    | .ok (base_type,size) =>
      match alterDataType base_type with
      | none => .error .typeMismatch
      | some data_type =>
        let constraints : FieldConstraint := ⟨primary_key,not_null,unique,auto_increment⟩
        let default_value := default_val.map alterDefault
        if field_exists then .ok (some (.modifyColumn field1 data_type size default_value constraints))
        else .ok (some (.addColumn field1 data_type size default_value constraints))

-- The database as far as ALTER TABLE asks for it: the columns of a table, none
-- where there is no such table, and the call it makes.
structure Altering (δ : Type) where
  fields : δ → String → List String
  alterTable : String → AlterTableOperation → δ → Except RemDbError Unit × δ

-- The branch of `execute_query`, with the calls it made beside its result.
def executeAlterTable (altering : Altering δ) (table_name : String) :
    List ColumnEntry → δ → Except QueryExecutionError Unit × δ × List (String × AlterTableOperation)
  | [],db => (.ok (),db,[])
  | entry :: rest,db =>
    match alterOperation ((altering.fields db table_name).contains entry.1) entry with
    | .error failure => (.error failure,db,[])
    | .ok none => executeAlterTable altering table_name rest db
    | .ok (some operation) =>
      match altering.alterTable table_name operation db with
      | (.error _,after) => (.error .internalError,after,[(table_name,operation)])
      | (.ok _,after) =>
        let (result,final,calls) := executeAlterTable altering table_name rest after
        (result,final,(table_name,operation) :: calls)

end RemDb
