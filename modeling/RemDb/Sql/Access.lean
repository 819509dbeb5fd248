import RemDb.Rbac.Persistence
import RemDb.Sql.Lexer
import RemDb.Sql.Statements

namespace RemDb
open RemDb.Lib

abbrev ColumnEntry := String × String × Bool × Bool × Bool × Bool × Option SqlValue

structure AccessQuery where
  query_type : QueryType
  table_name : String
  table_alias : Option String
  columns : List Expression
  table_def : List ColumnEntry

namespace SqlParser

def parseQueryType : Parse QueryType := do
  if ← matchKeyword "SELECT" then pure .select
  else if ← matchKeyword "INSERT" then pure .insert
  else if ← matchKeyword "UPDATE" then pure .update
  else if ← matchKeyword "DELETE" then pure .delete
  else if ← matchKeyword "DESCRIBE" then pure .describe
  else if ← matchKeyword "CREATE" then
    skipWhitespace
    if ← matchKeyword "CHECKPOINT" then pure .createCheckpoint
    else if ← matchKeyword "TIMESERIES" then
      skipWhitespace
      if ← matchKeyword "TABLE" then pure .createTimeSeriesTable else pure .other
    else if ← matchKeyword "TABLE" then pure .createTable
    else if ← matchKeyword "INDEX" then pure .createIndex
    else if ← matchKeyword "DATABASE" then pure .createDatabase
    else if ← matchKeyword "MODEL" then pure .createModel
    else if ← matchKeyword "ROLE" then pure .createRole
    else if ← matchKeyword "USER" then pure .createUser
    else pure .other
  else if ← matchKeyword "ALTER" then
    skipWhitespace
    if ← matchKeyword "TABLE" then pure .alterTable else pure .other
  else if ← matchKeyword "DROP" then
    skipWhitespace
    if ← matchKeyword "TABLE" then pure .dropTable
    else if ← matchKeyword "DATABASE" then pure .dropDatabase
    else if ← matchKeyword "ROLE" then pure .dropRole
    else if ← matchKeyword "USER" then pure .dropUser
    else pure .other
  else if ← matchKeyword "GRANT" then
    skipWhitespace
    if ← matchKeyword "ROLE" then pure .grantRole else pure .grantPermission
  else if ← matchKeyword "REVOKE" then
    skipWhitespace
    if ← matchKeyword "ROLE" then pure .revokeRole else pure .revokePermission
  else if ← matchKeyword "USE" then
    skipWhitespace
    if ← matchKeyword "DATABASE" then pure .useDatabase else pure .other
  else if ← matchKeyword "CLOSE" then
    skipWhitespace
    if ← matchKeyword "DATABASE" then pure .closeDatabase else pure .other
  else if ← matchKeyword "BEGIN" then
    skipWhitespace
    let _ ← matchKeyword "TRANSACTION"
    pure .beginTransaction
  else if ← matchKeyword "COMMIT" then pure .commit
  else if ← matchKeyword "ROLLBACK" then pure .rollback
  else if ← matchKeyword "SHOW" then
    skipWhitespace
    if ← matchKeyword "INDEX" then
      skipWhitespace
      if ← matchKeyword "BUILD" then
        skipWhitespace
        if ← matchKeyword "STATUS" then pure .showIndexBuildStatus else pure .other
      else pure .other
    else if ← matchKeyword "TABLES" then pure .showTables
    else pure .other
  else if ← matchKeyword "REINDEX" then pure .reindex
  else pure .other

-- Every round takes a byte, so that the length of the rest is fuel enough.
def parsePermissions : Nat → Parse (List String)
  | 0 => throw .endless
  | fuel+1 => do
    skipWhitespace
    let permission ← parseIdentifier
    skipWhitespace
    if ← matchChar 44 then
      let rest ← parsePermissions fuel
      pure (permission :: rest)
    else pure [permission]

-- GRANT and REVOKE differ in their last keyword. The role goes where an alias
-- of the table would be, and the permissions where columns would be.
def parsePermissionQuery (query_type : QueryType) (preposition : String) : Parse AccessQuery := do
  let parser ← get
  let permissions ← parsePermissions (parser.rest.length+1)
  skipWhitespace
  expectKeyword "ON"
  skipWhitespace
  let table_name ← parseIdentifier
  skipWhitespace
  expectKeyword preposition
  skipWhitespace
  let role_name ← parseIdentifier
  pure ⟨query_type,table_name,some role_name,permissions.map Expression.field,[]⟩

def parseGrantPermissionQuery : Parse AccessQuery := parsePermissionQuery .grantPermission "TO"
def parseRevokePermissionQuery : Parse AccessQuery := parsePermissionQuery .revokePermission "FROM"

def parseRoleQuery (query_type : QueryType) (preposition : String) : Parse AccessQuery := do
  skipWhitespace
  let role_name ← parseIdentifier
  skipWhitespace
  expectKeyword preposition
  skipWhitespace
  let user_name ← parseIdentifier
  pure ⟨query_type,role_name,some user_name,[],[]⟩

def parseGrantRoleQuery : Parse AccessQuery := parseRoleQuery .grantRole "TO"
def parseRevokeRoleQuery : Parse AccessQuery := parseRoleQuery .revokeRole "FROM"

def parseNameQuery (query_type : QueryType) : Parse AccessQuery := do
  skipWhitespace
  let name ← parseIdentifier
  pure ⟨query_type,name,none,[],[]⟩

def parseCreateRoleQuery : Parse AccessQuery := parseNameQuery .createRole
def parseCreateUserQuery : Parse AccessQuery := parseNameQuery .createUser
def parseDropRoleQuery : Parse AccessQuery := parseNameQuery .dropRole
def parseDropUserQuery : Parse AccessQuery := parseNameQuery .dropUser

-- `others` are the parsers of the statements that are not about access.
def parseStatement (others : QueryType → Parse AccessQuery) : QueryType → Parse AccessQuery
  | .createRole => parseCreateRoleQuery
  | .createUser => parseCreateUserQuery
  | .grantPermission => parseGrantPermissionQuery
  | .grantRole => parseGrantRoleQuery
  | .revokePermission => parseRevokePermissionQuery
  | .revokeRole => parseRevokeRoleQuery
  | .dropRole => parseDropRoleQuery
  | .dropUser => parseDropUserQuery
  | .other => reject .unsupportedKeyword
  | query_type => others query_type

def parse (others : QueryType → Parse AccessQuery) : Parse AccessQuery := do
  skipWhitespace
  let query_type ← parseQueryType
  let query ← parseStatement others query_type
  skipWhitespace
  let _ ← matchChar 59
  pure query

end SqlParser

namespace RbacDb

def executed (result : Except RemDbError Unit × RbacDb) : Except QueryExecutionError Unit × RbacDb :=
  match result.1 with
  | .ok _ => (.ok (),result.2)
  | .error _ => (.error .internalError,result.2)

-- The part of `execute_query` that is about access. It looks for permission,
-- table and role in the column definitions of a CREATE TABLE, and has no branch
-- for users; `others` stands for the statements that are not about access.
def executeQuery (others : RbacDb → AccessQuery → Except QueryExecutionError Unit × RbacDb) (hashing : Hashing)
    (now : UInt64) (state : RbacDb) (query : AccessQuery) : Except QueryExecutionError Unit × RbacDb :=
  match query.query_type with
  | .createRole => executed (state.createRole hashing now query.table_name)
  | .dropRole => executed (state.dropRole hashing now query.table_name)
  | .grantPermission =>
    match query.table_def.head? with
    | none => (.error .internalError,state)
    | some (permission_str,table_name,_) =>
      match Permission.fromStr permission_str with
      | none => (.error .internalError,state)
      | some permission =>
        executed (state.grantPermission hashing now query.table_name permission (some table_name) none)
  | .revokePermission =>
    match query.table_def.head? with
    | none => (.error .internalError,state)
    | some (permission_str,table_name,_) =>
      match Permission.fromStr permission_str with
      | none => (.error .internalError,state)
      | some permission =>
        executed (state.revokePermission hashing now query.table_name permission (some table_name) none)
  | .grantRole =>
    match query.table_def.head? with
    | none => (.error .internalError,state)
    | some (role_name,_) => executed (state.grantRole hashing now query.table_name role_name)
  | .revokeRole =>
    match query.table_def.head? with
    | none => (.error .internalError,state)
    | some (role_name,_) => executed (state.revokeRole hashing now query.table_name role_name)
  | .createUser | .dropUser => (.error .internalError,state)
  | _ => others state query

end RbacDb

inductive SqlFailure where
  | parse (fault : ParseFault)
  | execution (failure : QueryExecutionError)
deriving DecidableEq,Repr

structure OtherStatements where
  parse : QueryType → Parse AccessQuery
  execute : RbacDb → AccessQuery → Except QueryExecutionError Unit × RbacDb

def sqlQuery (others : OtherStatements) (hashing : Hashing) (now : UInt64) (state : RbacDb) (sql : String) :
    Except SqlFailure Unit × RbacDb :=
  match (SqlParser.parse others.parse).run (.new sql) with
  | .error fault _ => (.error (.parse fault),state)
  | .ok query _ =>
    match state.executeQuery others.execute hashing now query with
    | (.ok _,after) => (.ok (),after)
    | (.error failure,after) => (.error (.execution failure),after)

end RemDb
