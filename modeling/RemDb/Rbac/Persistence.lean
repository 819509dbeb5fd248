import RemDb.Ddl.SystemTables
import RemDb.Ha.Snapshot
import RemDb.Rbac.Manager

namespace RemDb
open RemDb.Lib RemDb.Wal

namespace MemoryTable

def scanRef (table : MemoryTable) : List Bytes := table.usedSlots.map table.records

-- `RecordRef::get_str` on a string column; none of the tables read here has a
-- column of type TEXT.
def getStr (table : MemoryTable) (col : Nat) (record : Bytes) : Option String :=
  match table.tdef.fields[col]? with
  | none => none
  | some field =>
    if field.data_type.isText then
      String.fromUTF8? ⟨((field.read record field.size).takeWhile (· ≠ 0)).toArray⟩
    else none

def strOrEmpty (table : MemoryTable) (col : Nat) (record : Bytes) : String := (table.getStr col record).getD ""

end MemoryTable

-- The order in which a hash map gives its values is its own.
structure Hashing where
  order : {α : Type} → List α → List α
  complete : ∀ {α : Type} (values : List α), (order values).Perm values

def Hashing.inOrder : Hashing := ⟨fun values => values,fun values => .refl values⟩

-- The part of the database that access control reads and writes.
structure RbacDb where
  rbac_manager : RbacManager
  db : Database
  tx : TransactionManager

namespace RbacManager

def column (width : Nat) (text : String) : Bytes := padTo width (utf8 text)

def roleRow (now : UInt64) (role : Role) : Bytes :=
  column 64 role.name ++ List.replicate 256 0 ++ toLE 8 now.toNat ++ toLE 8 now.toNat

-- The column of a grant is not written.
def grantRow (now : UInt64) (role : Role) (grant : Grant) : Bytes :=
  column 64 role.name ++ column 64 grant.1.toText ++ column 256 (grant.2.1.getD "") ++ toLE 8 now.toNat

def userRow (now : UInt64) (user : User) : Bytes :=
  column 64 user.name ++ List.replicate 256 0 ++ toLE 8 now.toNat ++ toLE 8 now.toNat

def userRoleRow (now : UInt64) (user : User) (role_name : String) : Bytes :=
  column 64 user.name ++ column 64 role_name ++ toLE 8 now.toNat

-- The result of an insert is not looked at.
def insertRows (now : UInt64) (rows : List Bytes) (table : MemoryTable) (tx : TransactionManager) :
    MemoryTable × TransactionManager :=
  rows.foldl (fun state row => (state.1.insert state.2 now row).2) (table,tx)

-- The rows of an earlier save stay: the calls that would clear the tables are
-- commented out.
def saveRows (now : UInt64) (table_name : String) (rows : List Bytes) (state : RbacDb) : RbacDb :=
  match state.db.placeOf table_name with
  | none => state
  | some place =>
    match state.db.table place with
    | none => state
    | some table =>
      let inserted := insertRows now rows table state.tx
      {state with db:=state.db.setTable place inserted.1,tx:=inserted.2}

def saveToSystemTables (hashing : Hashing) (now : UInt64) (state : RbacDb) : RbacDb :=
  let roles := hashing.order state.rbac_manager.roles.entries
  let users := hashing.order state.rbac_manager.users.entries
  let with_roles := saveRows now SYSTEM_ROLES_TABLE (roles.map (roleRow now)) state
  let with_grants := saveRows now SYSTEM_ROLE_PERMISSIONS_TABLE
    (roles.flatMap fun role => role.permissions.map (grantRow now role)) with_roles
  let with_users := saveRows now SYSTEM_USERS_TABLE (users.map (userRow now)) with_grants
  saveRows now SYSTEM_USER_ROLES_TABLE
    (users.flatMap fun user => user.roles.map (userRoleRow now user)) with_users

-- Visit the records of a table in the order of their slots.
def forRecords (db : Database) (table_name : String) (visit : MemoryTable → RbacManager → Bytes → RbacManager)
    (manager : RbacManager) : RbacManager :=
  match db.placeOf table_name with
  | none => manager
  | some place =>
    match db.table place with
    | none => manager
    | some table => table.scanRef.foldl (visit table) manager

def loadRole (table : MemoryTable) (manager : RbacManager) (record : Bytes) : RbacManager :=
  let role_name := table.strOrEmpty 0 record
  if role_name ≠ "" then {manager with roles:=manager.roles.insert (.new role_name)} else manager

-- A grant comes back for all columns.
def loadGrant (table : MemoryTable) (manager : RbacManager) (record : Bytes) : RbacManager :=
  let role_name := table.strOrEmpty 0 record
  let perm_str := table.strOrEmpty 1 record
  let table_name := table.strOrEmpty 2 record
  if role_name ≠ "" ∧ perm_str ≠ "" then
    match manager.roles.get role_name with
    | none => manager
    | some role =>
      match Permission.fromStr perm_str with
      | none => manager
      | some permission =>
        let table_name_opt := if table_name = "" then none else some table_name
        {manager with roles:=manager.roles.insert (role.addPermission permission table_name_opt none)}
  else manager

def loadUser (table : MemoryTable) (manager : RbacManager) (record : Bytes) : RbacManager :=
  let username := table.strOrEmpty 0 record
  if username ≠ "" then {manager with users:=manager.users.insert (.new username)} else manager

def loadUserRole (table : MemoryTable) (manager : RbacManager) (record : Bytes) : RbacManager :=
  let username := table.strOrEmpty 0 record
  let role_name := table.strOrEmpty 1 record
  if username ≠ "" ∧ role_name ≠ "" then
    match manager.users.get username with
    | none => manager
    | some user => {manager with users:=manager.users.insert (user.addRole role_name)}
  else manager

def loadFromSystemTables (db : Database) : RbacManager :=
  let roles := forRecords db SYSTEM_ROLES_TABLE loadRole empty
  let grants := forRecords db SYSTEM_ROLE_PERMISSIONS_TABLE loadGrant roles
  let users := forRecords db SYSTEM_USERS_TABLE loadUser grants
  forRecords db SYSTEM_USER_ROLES_TABLE loadUserRole users

end RbacManager

-- The calls of the database: the manager's own, then a save whose result is not
-- looked at.
namespace RbacDb

def changed (hashing : Hashing) (now : UInt64) (state : RbacDb) (result : Except RbacError RbacManager) :
    Except RemDbError Unit × RbacDb :=
  match result with
  | .error _ => (.error .configError,state)
  | .ok manager => (.ok (),RbacManager.saveToSystemTables hashing now {state with rbac_manager:=manager})

def createRole (hashing : Hashing) (now : UInt64) (state : RbacDb) (role_name : String) :=
  state.changed hashing now (state.rbac_manager.createRole role_name)
def dropRole (hashing : Hashing) (now : UInt64) (state : RbacDb) (role_name : String) :=
  state.changed hashing now (state.rbac_manager.dropRole role_name)
def grantPermission (hashing : Hashing) (now : UInt64) (state : RbacDb) (role_name : String)
    (permission : Permission) (table_name column_name : Option String) :=
  state.changed hashing now (state.rbac_manager.grantPermission role_name permission table_name column_name)
def revokePermission (hashing : Hashing) (now : UInt64) (state : RbacDb) (role_name : String)
    (permission : Permission) (table_name column_name : Option String) :=
  state.changed hashing now (state.rbac_manager.revokePermission role_name permission table_name column_name)
def grantRole (hashing : Hashing) (now : UInt64) (state : RbacDb) (user_name role_name : String) :=
  state.changed hashing now (state.rbac_manager.grantRole user_name role_name)
def revokeRole (hashing : Hashing) (now : UInt64) (state : RbacDb) (user_name role_name : String) :=
  state.changed hashing now (state.rbac_manager.revokeRole user_name role_name)

end RbacDb
end RemDb
