import Mathlib.Data.List.Dedup
import RemDb.Rbac.Loading

namespace RemDb
open RemDb.Lib

namespace RbacManager

def Named (text : String) : Prop := text ≠ "" ∧ Keepable 64 text
def TableNamed (text : String) : Prop := text ≠ "" ∧ Keepable 256 text

-- What the rows of the four tables say of a manager.
def roleFacts (manager : RbacManager) (values : List String) : Prop :=
  ∃ role, manager.roles.contains role = true ∧ values = [role]
def grantFacts (manager : RbacManager) (values : List String) : Prop :=
  ∃ role permission table, manager.HasGrant role (permission,table,none) ∧
    values = [role,permission.toText,table.getD ""]
def userFacts (manager : RbacManager) (values : List String) : Prop :=
  ∃ user, manager.users.contains user = true ∧ values = [user]
def assignmentFacts (manager : RbacManager) (values : List String) : Prop :=
  ∃ user role, manager.HasRole user role ∧ values = [user,role]

-- A manager that can be written down: the rows have no place for a column, and
-- one place only for the table of a permission that a role has.
structure Valid (manager : RbacManager) : Prop where
  role_names : ∀ role, manager.roles.contains role = true → Named role
  user_names : ∀ user, manager.users.contains user = true → Named user
  assigned : ∀ user role, manager.HasRole user role → Named role
  grants : ∀ role permission table column, manager.HasGrant role (permission,table,column) →
    column = none ∧ ∀ name, table = some name → TableNamed name
  one_table : ∀ role permission table column other another, manager.HasGrant role (permission,table,column) →
    manager.HasGrant role (permission,other,another) → table = other

-- The tables have 512 places each.
structure Fits (manager : RbacManager) : Prop where
  roles : manager.roles.entries.length ≤ 512
  grants : (manager.roles.entries.flatMap fun role => (role.permissions.map (·.1)).dedup).length ≤ 512
  users : manager.users.entries.length ≤ 512
  assignments : (manager.users.entries.flatMap (·.roles)).length ≤ 512

theorem hasGrant_iff {manager : RbacManager} : manager.HasGrant role grant ↔
    ∃ entry ∈ manager.roles.entries, entry.name = role ∧ grant ∈ entry.permissions := by
  simp only [HasGrant,Keyed.get_eq_some,and_assoc]

theorem hasRole_iff {manager : RbacManager} : manager.HasRole user role ↔
    ∃ entry ∈ manager.users.entries, entry.name = user ∧ role ∈ entry.roles := by
  simp only [HasRole,Keyed.get_eq_some,and_assoc]

theorem hasGrant_contains {manager : RbacManager} (given : manager.HasGrant role grant) :
    manager.roles.contains role = true := by
  obtain ⟨entry,found,_⟩ := given
  rw [Keyed.contains,found]
  rfl

theorem hasRole_contains {manager : RbacManager} (given : manager.HasRole user role) :
    manager.users.contains user = true := by
  obtain ⟨entry,found,_⟩ := given
  rw [Keyed.contains,found]
  rfl

@[simp] theorem column_length (width : Nat) (text : String) : (column width text).length = width :=
  padTo_length width (utf8 text)

theorem read_first (width : Nat) (text : String) (rest : Bytes) :
    readAt (column width text ++ rest) 0 width = column width text := by
  have read := readAt_append [] (column width text) rest
  simpa using read

theorem read_next (before : Bytes) (width : Nat) (text : String) (rest : Bytes) :
    readAt (before ++ (column width text ++ rest)) before.length width = column width text := by
  have read := readAt_append before (column width text) rest
  simpa using read

theorem permission_keepable (permission : Permission) : permission.toText ≠ "" ∧ Keepable 64 permission.toText := by
  cases permission <;> decide +kernel

theorem toText_inj {first second : Permission} (same : first.toText = second.toText) : first = second := by
  have read := Permission.fromStr_toText first
  rw [same,Permission.fromStr_toText] at read
  exact (Option.some.inj read).symm

section Rows
variable (now : UInt64)

theorem roleRow_length (role : Role) : (roleRow now role).length = SystemTables.roles.record_size := by
  simp only [roleRow,List.length_append,column_length,List.length_replicate,toLE_length]
  rfl

theorem userRow_length (user : User) : (userRow now user).length = SystemTables.users.record_size := by
  simp only [userRow,List.length_append,column_length,List.length_replicate,toLE_length]
  rfl

theorem grantRow_length (role : Role) (grant : Grant) :
    (grantRow now role grant).length = SystemTables.rolePermissions.record_size := by
  simp only [grantRow,List.length_append,column_length,toLE_length]
  rfl

theorem userRoleRow_length (user : User) (role : String) :
    (userRoleRow now user role).length = SystemTables.userRoles.record_size := by
  simp only [userRoleRow,List.length_append,column_length,toLE_length]
  rfl

theorem roleRow_spells (role : Role) (named : Named role.name) :
    Spells SystemTables.roles.fields [role.name] (roleRow now role) := by
  intro place value listed
  match place with
  | 0 =>
    cases listed
    refine ⟨_,rfl,rfl,named.2,?_⟩
    rw [roleRow,List.append_assoc,List.append_assoc]
    exact read_first 64 _ _
  | _+1 => cases listed

theorem userRow_spells (user : User) (named : Named user.name) :
    Spells SystemTables.users.fields [user.name] (userRow now user) := by
  intro place value listed
  match place with
  | 0 =>
    cases listed
    refine ⟨_,rfl,rfl,named.2,?_⟩
    rw [userRow,List.append_assoc,List.append_assoc]
    exact read_first 64 _ _
  | _+1 => cases listed

theorem userRoleRow_spells (user : User) (role : String) (named : Named user.name) (assigned : Named role) :
    Spells SystemTables.userRoles.fields [user.name,role] (userRoleRow now user role) := by
  intro place value listed
  rw [userRoleRow,List.append_assoc]
  match place with
  | 0 =>
    cases listed
    exact ⟨_,rfl,rfl,named.2,read_first 64 _ _⟩
  | 1 =>
    cases listed
    refine ⟨_,rfl,rfl,assigned.2,?_⟩
    have read := read_next (column 64 user.name) 64 role (toLE 8 now.toNat)
    rw [column_length] at read
    exact read
  | _+2 => cases listed

theorem grantRow_spells (role : Role) (grant : Grant) (named : Named role.name)
    (table : Keepable 256 (grant.2.1.getD "")) :
    Spells SystemTables.rolePermissions.fields [role.name,grant.1.toText,grant.2.1.getD ""]
      (grantRow now role grant) := by
  intro place value listed
  rw [grantRow,List.append_assoc,List.append_assoc]
  match place with
  | 0 =>
    cases listed
    exact ⟨_,rfl,rfl,named.2,read_first 64 _ _⟩
  | 1 =>
    cases listed
    refine ⟨_,rfl,rfl,(permission_keepable grant.1).2,?_⟩
    have read := read_next (column 64 role.name) 64 grant.1.toText
      (column 256 (grant.2.1.getD "") ++ toLE 8 now.toNat)
    rw [column_length] at read
    exact read
  | 2 =>
    cases listed
    refine ⟨_,rfl,rfl,table,?_⟩
    have read := read_next (column 64 role.name ++ column 64 grant.1.toText) 256 (grant.2.1.getD "")
      (toLE 8 now.toNat)
    rw [List.length_append,column_length,column_length,List.append_assoc] at read
    exact read
  | _+3 => cases listed

end Rows
end RbacManager

-- Rows that say each fact and nothing else; the key of a row tells the fact.
structure Writes (shape : SystemTables.Shape) (facts : List String → Prop) (rows : List Bytes) : Prop where
  fit : ∀ row ∈ rows, row.length = shape.record_size ∧ ∃ values, facts values ∧ Spells shape.fields values row
  cover : ∀ values, facts values → ∃ row ∈ rows, Spells shape.fields values row
  determined : ∀ values others, facts values → facts others →
    shape.keyColumns values = shape.keyColumns others → values = others

def Told (db : Database) (shape : SystemTables.Shape) (facts : List String → Prop) : Prop :=
  ∃ table, db.named shape.name = some table ∧ Filed shape facts table ∧
    ∀ values, facts values → ∃ row ∈ table.scanRef, Spells shape.fields values row

theorem saveRows_told {shape : SystemTables.Shape} {facts : List String → Prop} {keys : List (List Bytes)}
    {rows : List Bytes} {table : MemoryTable} {state : RbacDb} (plain : shape.Plain)
    (sayable : Sayable shape facts keys) (writes : Writes shape facts rows)
    (found : state.db.named shape.name = some table) (filed : Filed shape facts table) (now : UInt64) :
    let after := RbacManager.saveRows now shape.name rows state
    Told after.db shape facts ∧ (∀ other, other ≠ shape.name → after.db.named other = state.db.named other) ∧
      after.rbac_manager = state.rbac_manager := by
  obtain ⟨after,stands,still,placed,others,manager⟩ :=
    saveRows_filed plain sayable found filed now rows writes.fit
  refine ⟨⟨after,stands,still,?_⟩,others,manager⟩
  intro values said
  obtain ⟨row,written,spelled⟩ := writes.cover values said
  obtain ⟨each,stored,same⟩ := placed row written
  obtain ⟨told,fact,reads⟩ := still.rows each stored
  rw [still.keyBytes reads (sayable.named told fact),still.keyBytes spelled (sayable.named values said)] at same
  rw [writes.determined values told said fact same.symm]
  exact ⟨each,stored,reads⟩

namespace RbacManager

section Kinds
variable {manager : RbacManager} (now : UInt64) (hashing : Hashing)

theorem mem_order {α : Type} {values : List α} {each : α} : each ∈ hashing.order values ↔ each ∈ values :=
  (hashing.complete values).mem_iff

theorem roles_written (valid : Valid manager) :
    Writes SystemTables.roles manager.roleFacts ((hashing.order manager.roles.entries).map (roleRow now)) := by
  refine ⟨?_,?_,?_⟩
  · intro row written
    obtain ⟨role,listed,rfl⟩ := List.mem_map.mp written
    have known := manager.roles.contains_iff.mpr ⟨role,(mem_order hashing).mp listed,rfl⟩
    refine ⟨?_,[role.name],⟨role.name,known,rfl⟩,roleRow_spells now role (valid.role_names _ known)⟩
    exact roleRow_length now role
  · rintro values ⟨name,known,rfl⟩
    obtain ⟨role,listed,rfl⟩ := manager.roles.contains_iff.mp known
    exact ⟨_,List.mem_map_of_mem ((mem_order hashing).mpr listed),roleRow_spells now role (valid.role_names _ known)⟩
  · rintro values others ⟨first,known,rfl⟩ ⟨second,other_known,rfl⟩ same
    rw [column_inj (valid.role_names _ known).2 (valid.role_names _ other_known).2 (List.cons.inj same).1]

theorem roles_sayable (valid : Valid manager) (fits : Fits manager) :
    Sayable SystemTables.roles manager.roleFacts (manager.roles.entries.map fun role => [column 64 role.name]) := by
  refine ⟨?_,?_,by rw [List.length_map]; exact fits.roles⟩
  · rintro values ⟨role,known,rfl⟩ place among
    cases List.mem_singleton.mp among
    exact ⟨role,rfl,(valid.role_names role known).1⟩
  · rintro values ⟨name,known,rfl⟩
    obtain ⟨role,listed,rfl⟩ := manager.roles.contains_iff.mp known
    exact List.mem_map_of_mem listed

theorem users_written (valid : Valid manager) :
    Writes SystemTables.users manager.userFacts ((hashing.order manager.users.entries).map (userRow now)) := by
  refine ⟨?_,?_,?_⟩
  · intro row written
    obtain ⟨user,listed,rfl⟩ := List.mem_map.mp written
    have known := manager.users.contains_iff.mpr ⟨user,(mem_order hashing).mp listed,rfl⟩
    refine ⟨?_,[user.name],⟨user.name,known,rfl⟩,userRow_spells now user (valid.user_names _ known)⟩
    exact userRow_length now user
  · rintro values ⟨name,known,rfl⟩
    obtain ⟨user,listed,rfl⟩ := manager.users.contains_iff.mp known
    exact ⟨_,List.mem_map_of_mem ((mem_order hashing).mpr listed),userRow_spells now user (valid.user_names _ known)⟩
  · rintro values others ⟨first,known,rfl⟩ ⟨second,other_known,rfl⟩ same
    rw [column_inj (valid.user_names _ known).2 (valid.user_names _ other_known).2 (List.cons.inj same).1]

theorem users_sayable (valid : Valid manager) (fits : Fits manager) :
    Sayable SystemTables.users manager.userFacts (manager.users.entries.map fun user => [column 64 user.name]) := by
  refine ⟨?_,?_,by rw [List.length_map]; exact fits.users⟩
  · rintro values ⟨user,known,rfl⟩ place among
    cases List.mem_singleton.mp among
    exact ⟨user,rfl,(valid.user_names user known).1⟩
  · rintro values ⟨name,known,rfl⟩
    obtain ⟨user,listed,rfl⟩ := manager.users.contains_iff.mp known
    exact List.mem_map_of_mem listed

theorem assignments_written (valid : Valid manager) : Writes SystemTables.userRoles manager.assignmentFacts
    ((hashing.order manager.users.entries).flatMap fun user => user.roles.map (userRoleRow now user)) := by
  refine ⟨?_,?_,?_⟩
  · intro row written
    obtain ⟨user,listed,written⟩ := List.mem_flatMap.mp written
    obtain ⟨role,given,rfl⟩ := List.mem_map.mp written
    have held : manager.HasRole user.name role := hasRole_iff.mpr ⟨user,(mem_order hashing).mp listed,rfl,given⟩
    refine ⟨?_,_,⟨user.name,role,held,rfl⟩,userRoleRow_spells now user role
      (valid.user_names _ (hasRole_contains held)) (valid.assigned _ _ held)⟩
    exact userRoleRow_length now user role
  · rintro values ⟨name,role,held,rfl⟩
    obtain ⟨user,listed,rfl,given⟩ := hasRole_iff.mp held
    refine ⟨_,List.mem_flatMap.mpr ⟨user,(mem_order hashing).mpr listed,List.mem_map_of_mem given⟩,?_⟩
    exact userRoleRow_spells now user role (valid.user_names _ (hasRole_contains held)) (valid.assigned _ _ held)
  · rintro values others ⟨user,role,held,rfl⟩ ⟨other,another,also,rfl⟩ same
    obtain ⟨first,second⟩ := List.cons.inj same
    rw [column_inj (valid.user_names _ (hasRole_contains held)).2 (valid.user_names _ (hasRole_contains also)).2 first,
      column_inj (valid.assigned _ _ held).2 (valid.assigned _ _ also).2 (List.cons.inj second).1]

theorem assignments_sayable (valid : Valid manager) (fits : Fits manager) : Sayable SystemTables.userRoles manager.assignmentFacts
    (manager.users.entries.flatMap fun user => user.roles.map fun role => [column 64 user.name,column 64 role]) := by
  refine ⟨?_,?_,?_⟩
  · rintro values ⟨user,role,held,rfl⟩ place among
    rcases List.mem_cons.mp among with rfl | among
    · exact ⟨user,rfl,(valid.user_names user (hasRole_contains held)).1⟩
    · cases List.mem_singleton.mp among
      exact ⟨role,rfl,(valid.assigned user role held).1⟩
  · rintro values ⟨name,role,held,rfl⟩
    obtain ⟨user,listed,rfl,given⟩ := hasRole_iff.mp held
    exact List.mem_flatMap.mpr ⟨user,listed,List.mem_map.mpr ⟨role,given,rfl⟩⟩
  · have counted := fits.assignments
    rw [List.length_flatMap] at counted ⊢
    simpa using counted

theorem grants_written (valid : Valid manager) : Writes SystemTables.rolePermissions manager.grantFacts
    ((hashing.order manager.roles.entries).flatMap fun role => role.permissions.map (grantRow now role)) := by
  have keepable {role : String} {permission : Permission} {table : Option String} {column : Option String}
      (given : manager.HasGrant role (permission,table,column)) : Keepable 256 (table.getD "") := by
    cases table with
    | none => decide +kernel
    | some name => exact ((valid.grants _ _ _ _ given).2 name rfl).2
  refine ⟨?_,?_,?_⟩
  · intro row written
    obtain ⟨role,listed,written⟩ := List.mem_flatMap.mp written
    obtain ⟨⟨permission,table,column⟩,given,rfl⟩ := List.mem_map.mp written
    have held : manager.HasGrant role.name (permission,table,column) :=
      hasGrant_iff.mpr ⟨role,(mem_order hashing).mp listed,rfl,given⟩
    obtain ⟨rfl,_⟩ := valid.grants _ _ _ _ held
    refine ⟨?_,_,⟨role.name,permission,table,held,rfl⟩,grantRow_spells now role (permission,table,none)
      (valid.role_names _ (hasGrant_contains held)) (keepable held)⟩
    exact grantRow_length now role (permission,table,none)
  · rintro values ⟨name,permission,table,held,rfl⟩
    obtain ⟨role,listed,rfl,given⟩ := hasGrant_iff.mp held
    refine ⟨_,List.mem_flatMap.mpr ⟨role,(mem_order hashing).mpr listed,List.mem_map_of_mem given⟩,?_⟩
    exact grantRow_spells now role (permission,table,none) (valid.role_names _ (hasGrant_contains held)) (keepable held)
  · rintro values others ⟨role,permission,table,held,rfl⟩ ⟨other,allowed,another,also,rfl⟩ same
    obtain ⟨first,second⟩ := List.cons.inj same
    have same_role := column_inj (valid.role_names _ (hasGrant_contains held)).2
      (valid.role_names _ (hasGrant_contains also)).2 first
    have same_permission := toText_inj (column_inj (permission_keepable permission).2 (permission_keepable allowed).2
      (List.cons.inj second).1)
    subst same_role same_permission
    rw [valid.one_table _ _ _ _ _ _ held also]

theorem grants_sayable (valid : Valid manager) (fits : Fits manager) : Sayable SystemTables.rolePermissions manager.grantFacts
    (manager.roles.entries.flatMap fun role => (role.permissions.map (·.1)).dedup.map fun permission =>
      [column 64 role.name,column 64 permission.toText]) := by
  refine ⟨?_,?_,?_⟩
  · rintro values ⟨role,permission,table,held,rfl⟩ place among
    rcases List.mem_cons.mp among with rfl | among
    · exact ⟨role,rfl,(valid.role_names role (hasGrant_contains held)).1⟩
    · cases List.mem_singleton.mp among
      exact ⟨_,rfl,(permission_keepable permission).1⟩
  · rintro values ⟨name,permission,table,held,rfl⟩
    obtain ⟨role,listed,rfl,given⟩ := hasGrant_iff.mp held
    refine List.mem_flatMap.mpr ⟨role,listed,List.mem_map.mpr ⟨permission,?_,rfl⟩⟩
    exact List.mem_dedup.mpr (List.mem_map_of_mem given)
  · have counted := fits.grants
    rw [List.length_flatMap] at counted ⊢
    simpa using counted

end Kinds
end RbacManager
end RemDb
