import RemDb.Lib.Keyed
import RemDb.Types

namespace RemDb
open RemDb.Lib

inductive Permission where
  | admin | select | insert | update | delete | create | drop
deriving DecidableEq,Repr

namespace Permission

def toText : Permission → String
  | .admin => "ADMIN"
  | .select => "SELECT"
  | .insert => "INSERT"
  | .update => "UPDATE"
  | .delete => "DELETE"
  | .create => "CREATE"
  | .drop => "DROP"

def all : List Permission := [.admin,.select,.insert,.update,.delete,.create,.drop]

def fromStr (text : String) : Option Permission :=
  all.find? fun permission => decide (text.toList.map upperChar = permission.toText.toList)

theorem fromStr_toText (permission : Permission) : fromStr permission.toText = some permission := by
  cases permission <;> decide +kernel

end Permission

abbrev Grant := Permission × Option String × Option String

structure Role where
  name : String
  permissions : List Grant
deriving DecidableEq,Repr

namespace Role

def new (name : String) : Role := ⟨name,[]⟩

def addPermission (role : Role) (permission : Permission) (table_name column_name : Option String) : Role :=
  {role with permissions:=role.permissions ++ [(permission,table_name,column_name)]}

def removePermission (role : Role) (permission : Permission) (table_name column_name : Option String) : Role :=
  let kept (grant : Grant) := decide (grant.1 ≠ permission ∨ grant.2.1 ≠ table_name ∨ grant.2.2 ≠ column_name)
  {role with permissions:=role.permissions.filter kept}

-- A name that is left out, in the grant or in the question, stands for any.
def covers (granted asked : Option String) : Bool :=
  granted.isNone || asked.isNone || decide (granted = asked)

def hasPermission (role : Role) (permission : Permission) (table_name column_name : Option String) : Bool :=
  role.permissions.any fun grant =>
    decide (grant.1 = permission) && covers grant.2.1 table_name && covers grant.2.2 column_name

end Role

structure User where
  name : String
  roles : List String
deriving DecidableEq,Repr

namespace User

def new (name : String) : User := ⟨name,[]⟩

def addRole (user : User) (role_name : String) : User :=
  if role_name ∈ user.roles then user else {user with roles:=user.roles ++ [role_name]}

def removeRole (user : User) (role_name : String) : User :=
  {user with roles:=user.roles.filter fun role => decide (role ≠ role_name)}

theorem removeRole_name (user : User) (role_name : String) : (user.removeRole role_name).name = user.name := rfl

end User

inductive RbacError where
  | roleAlreadyExists (role : String) | roleNotFound (role : String) | userAlreadyExists (user : String)
  | userNotFound (user : String) | permissionNotFound
deriving DecidableEq,Repr

-- Roles and users are filed under their own names.
structure RbacManager where
  roles : Keyed Role.name
  users : Keyed User.name

namespace RbacManager

def createRole (manager : RbacManager) (role_name : String) : Except RbacError RbacManager :=
  if manager.roles.contains role_name then .error (.roleAlreadyExists role_name)
  else .ok {manager with roles:=manager.roles.insert (.new role_name)}

def dropRole (manager : RbacManager) (role_name : String) : Except RbacError RbacManager :=
  if manager.roles.contains role_name then
    .ok
      { roles := manager.roles.remove role_name
        users := manager.users.adjust (·.removeRole role_name) fun user => user.removeRole_name role_name }
  else .error (.roleNotFound role_name)

def grantPermission (manager : RbacManager) (role_name : String) (permission : Permission)
    (table_name column_name : Option String) : Except RbacError RbacManager :=
  match manager.roles.get role_name with
  | none => .error (.roleNotFound role_name)
  | some role =>
    .ok {manager with roles:=manager.roles.insert (role.addPermission permission table_name column_name)}

def revokePermission (manager : RbacManager) (role_name : String) (permission : Permission)
    (table_name column_name : Option String) : Except RbacError RbacManager :=
  match manager.roles.get role_name with
  | none => .error (.roleNotFound role_name)
  | some role =>
    .ok {manager with roles:=manager.roles.insert (role.removePermission permission table_name column_name)}

def createUser (manager : RbacManager) (user_name : String) : Except RbacError RbacManager :=
  if manager.users.contains user_name then .error (.userAlreadyExists user_name)
  else .ok {manager with users:=manager.users.insert (.new user_name)}

def dropUser (manager : RbacManager) (user_name : String) : Except RbacError RbacManager :=
  if manager.users.contains user_name then .ok {manager with users:=manager.users.remove user_name}
  else .error (.userNotFound user_name)

def grantRole (manager : RbacManager) (user_name role_name : String) : Except RbacError RbacManager :=
  if manager.roles.contains role_name then
    match manager.users.get user_name with
    | none => .error (.userNotFound user_name)
    | some user => .ok {manager with users:=manager.users.insert (user.addRole role_name)}
  else .error (.roleNotFound role_name)

def revokeRole (manager : RbacManager) (user_name role_name : String) : Except RbacError RbacManager :=
  match manager.users.get user_name with
  | none => .error (.userNotFound user_name)
  | some user => .ok {manager with users:=manager.users.insert (user.removeRole role_name)}

-- A role that a user has and that does not exist gives nothing.
def checkPermission (manager : RbacManager) (user_name : String) (permission : Permission)
    (table_name column_name : Option String) : Except RbacError Bool :=
  match manager.users.get user_name with
  | none => .error (.userNotFound user_name)
  | some user => .ok (user.roles.any fun role_name =>
      (manager.roles.get role_name).any (·.hasPermission permission table_name column_name))

def empty : RbacManager := ⟨Keyed.empty,Keyed.empty⟩

-- `new`: a role with every permission and a user that has it.
def new : RbacManager where
  roles := Keyed.empty.insert ⟨"admin",Permission.all.map fun permission => (permission,none,none)⟩
  users := Keyed.empty.insert ⟨"root",["admin"]⟩

end RbacManager
end RemDb
