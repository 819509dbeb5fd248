import RemDb.Rbac.Saving

namespace RemDb
open RemDb.Lib

namespace RbacManager

section Calls
variable {manager after : RbacManager} {name : String}

theorem createRole_effect (done : manager.createRole name = .ok after) : after.users = manager.users ∧
    (∀ role, after.roles.contains role = true ↔ manager.roles.contains role = true ∨ name = role) ∧
    ∀ role grant, after.HasGrant role grant ↔ manager.HasGrant role grant := by
  unfold createRole at done
  split at done
  · cases done
  · rename_i fresh
    cases done
    refine ⟨rfl,contains_insert _ _,?_⟩
    intro role grant
    unfold HasGrant
    dsimp only
    rw [Keyed.get_insert]
    change (∃ entry, (if name = role then _ else _) = some entry ∧ _) ↔ _
    split
    · rename_i same
      subst same
      have missing : manager.roles.get name = none := by
        rw [Keyed.contains,Bool.not_eq_true,Option.isSome_eq_false_iff,Option.isNone_iff_eq_none] at fresh
        exact fresh
      rw [missing]
      simp [Role.new]
    · exact Iff.rfl

theorem createUser_effect (done : manager.createUser name = .ok after) : after.roles = manager.roles ∧
    (∀ user, after.users.contains user = true ↔ manager.users.contains user = true ∨ name = user) ∧
    ∀ user role, after.HasRole user role ↔ manager.HasRole user role := by
  unfold createUser at done
  split at done
  · cases done
  · rename_i fresh
    cases done
    refine ⟨rfl,contains_insert _ _,?_⟩
    intro user role
    unfold HasRole
    dsimp only
    rw [Keyed.get_insert]
    change (∃ entry, (if name = user then _ else _) = some entry ∧ _) ↔ _
    split
    · rename_i same
      subst same
      have missing : manager.users.get name = none := by
        rw [Keyed.contains,Bool.not_eq_true,Option.isSome_eq_false_iff,Option.isNone_iff_eq_none] at fresh
        exact fresh
      rw [missing]
      simp [User.new]
    · exact Iff.rfl

theorem contains_remove {α : Type} {key : α → String} (map : Keyed key) (gone other : String) :
    (map.remove gone).contains other = true ↔ map.contains other = true ∧ other ≠ gone := by
  rw [Keyed.contains,Keyed.get_remove]
  split
  · rename_i same
    simp [same]
  · rename_i different
    simp [Keyed.contains,different]

theorem dropRole_effect (done : manager.dropRole name = .ok after) : manager.roles.contains name = true ∧
    (∀ role, after.roles.contains role = true ↔ manager.roles.contains role = true ∧ role ≠ name) ∧
    (∀ role grant, after.HasGrant role grant ↔ manager.HasGrant role grant ∧ role ≠ name) ∧
    (∀ user, after.users.contains user = manager.users.contains user) ∧
    ∀ user role, after.HasRole user role ↔ manager.HasRole user role ∧ role ≠ name := by
  unfold dropRole at done
  split at done
  · rename_i known
    cases done
    refine ⟨known,contains_remove _ _,?_,?_,?_⟩
    · intro role grant
      unfold HasGrant
      dsimp only
      rw [Keyed.get_remove]
      split
      · rename_i same
        simp [same]
      · rename_i different
        simp [different]
    · intro user
      rw [Keyed.contains,Keyed.get_adjust,Option.isSome_map]
      rfl
    · intro user role
      unfold HasRole
      dsimp only
      rw [Keyed.get_adjust]
      simp only [Option.map_eq_some_iff]
      constructor
      · rintro ⟨_,⟨entry,found,rfl⟩,kept⟩
        obtain ⟨given,different⟩ := List.mem_filter.mp kept
        exact ⟨⟨entry,found,given⟩,of_decide_eq_true different⟩
      · rintro ⟨⟨entry,found,given⟩,different⟩
        exact ⟨_,⟨entry,found,rfl⟩,List.mem_filter.mpr ⟨given,decide_eq_true different⟩⟩
  · cases done

theorem dropUser_effect (done : manager.dropUser name = .ok after) : manager.users.contains name = true ∧
    after.roles = manager.roles ∧
    (∀ user, after.users.contains user = true ↔ manager.users.contains user = true ∧ user ≠ name) ∧
    ∀ user role, after.HasRole user role ↔ manager.HasRole user role ∧ user ≠ name := by
  unfold dropUser at done
  split at done
  · rename_i known
    cases done
    refine ⟨known,rfl,contains_remove _ _,?_⟩
    intro user role
    unfold HasRole
    dsimp only
    rw [Keyed.get_remove]
    split
    · rename_i same
      simp [same]
    · rename_i different
      simp [different]
  · cases done

theorem hasGrant_put_back {role : Role} (found : manager.roles.get name = some role) (changed : Role)
    (same : changed.name = role.name) (other : String) (grant : Grant) :
    HasGrant {manager with roles:=manager.roles.insert changed} other grant ↔
      if other = name then grant ∈ changed.permissions else manager.HasGrant other grant := by
  have named := (get_own found).2
  unfold HasGrant
  dsimp only
  rw [Keyed.get_insert,same,named]
  by_cases here : name = other
  · subst here
    simp
  · rw [if_neg here,if_neg (Ne.symm here)]

theorem hasRole_put_back {user : User} (found : manager.users.get name = some user) (changed : User)
    (same : changed.name = user.name) (other : String) (role : String) :
    HasRole {manager with users:=manager.users.insert changed} other role ↔
      if other = name then role ∈ changed.roles else manager.HasRole other role := by
  have named := (get_own found).2
  unfold HasRole
  dsimp only
  rw [Keyed.get_insert,same,named]
  by_cases here : name = other
  · subst here
    simp
  · rw [if_neg here,if_neg (Ne.symm here)]

theorem hasGrant_of_get {role : Role} (found : manager.roles.get name = some role) (grant : Grant) :
    manager.HasGrant name grant ↔ grant ∈ role.permissions := by
  simp [HasGrant,found]

theorem hasRole_of_get {user : User} (found : manager.users.get name = some user) (role : String) :
    manager.HasRole name role ↔ role ∈ user.roles := by
  simp [HasRole,found]

theorem grantPermission_effect (done : manager.grantPermission name permission table column_name = .ok after) :
    manager.roles.contains name = true ∧ after.users = manager.users ∧
    (∀ role, after.roles.contains role = true ↔ manager.roles.contains role = true) ∧
    ∀ role grant, after.HasGrant role grant ↔
      manager.HasGrant role grant ∨ role = name ∧ grant = (permission,table,column_name) := by
  unfold grantPermission at done
  split at done
  · cases done
  · rename_i role found
    cases done
    have named : (role.addPermission permission table column_name).name = role.name := rfl
    refine ⟨by rw [Keyed.contains,found]; rfl,rfl,contains_put_back (get_own found).1 named,?_⟩
    · intro other grant
      rw [hasGrant_put_back found _ named]
      split
      · rename_i here
        subst here
        rw [hasGrant_of_get found]
        simp [Role.addPermission]
      · rename_i away
        simp [away]

theorem revokePermission_effect (done : manager.revokePermission name permission table column_name = .ok after) :
    after.users = manager.users ∧
    (∀ role, after.roles.contains role = true ↔ manager.roles.contains role = true) ∧
    ∀ role grant, after.HasGrant role grant ↔
      manager.HasGrant role grant ∧ ¬ (role = name ∧ grant = (permission,table,column_name)) := by
  unfold revokePermission at done
  split at done
  · cases done
  · rename_i role found
    cases done
    have named : (role.removePermission permission table column_name).name = role.name := rfl
    refine ⟨rfl,contains_put_back (get_own found).1 named,?_⟩
    · intro other grant
      rw [hasGrant_put_back found _ named]
      split
      · rename_i here
        subst here
        rw [hasGrant_of_get found]
        obtain ⟨first,second,third⟩ := grant
        simp only [Role.removePermission,List.mem_filter,decide_eq_true_eq,true_and,Prod.mk.injEq,not_and_or,ne_eq]
      · rename_i away
        simp [away]

theorem grantRole_effect (done : manager.grantRole name role = .ok after) :
    manager.roles.contains role = true ∧ after.roles = manager.roles ∧
    (∀ user, after.users.contains user = true ↔ manager.users.contains user = true) ∧
    ∀ user other, after.HasRole user other ↔ manager.HasRole user other ∨ user = name ∧ other = role := by
  unfold grantRole at done
  split at done
  · rename_i known
    split at done
    · cases done
    · rename_i user found
      cases done
      refine ⟨known,rfl,contains_put_back (get_own found).1 (addRole_name _ _),?_⟩
      intro other given
      rw [hasRole_put_back found _ (addRole_name _ _)]
      split
      · rename_i here
        subst here
        rw [hasRole_of_get found,mem_addRole]
        simp
      · rename_i away
        simp [away]
  · cases done

theorem revokeRole_effect (done : manager.revokeRole name role = .ok after) : after.roles = manager.roles ∧
    (∀ user, after.users.contains user = true ↔ manager.users.contains user = true) ∧
    ∀ user other, after.HasRole user other ↔ manager.HasRole user other ∧ ¬ (user = name ∧ other = role) := by
  unfold revokeRole at done
  split at done
  · cases done
  · rename_i user found
    cases done
    have named : (user.removeRole role).name = user.name := rfl
    refine ⟨rfl,contains_put_back (get_own found).1 named,?_⟩
    intro other given
    rw [hasRole_put_back found _ named]
    split
    · rename_i here
      subst here
      rw [hasRole_of_get found]
      simp [User.removeRole]
    · rename_i away
      simp [away]

end Calls
end RbacManager

-- The calls on the manager and the saves between them.
inductive RbacCall where
  | createRole (role : String)
  | dropRole (role : String)
  | grantPermission (role : String) (permission : Permission) (table_name column_name : Option String)
  | revokePermission (role : String) (permission : Permission) (table_name column_name : Option String)
  | createUser (user : String)
  | dropUser (user : String)
  | grantRole (user role : String)
  | revokeRole (user role : String)
  | save (hashing : Hashing) (now : UInt64)

namespace RbacDb

-- A call that fails changes nothing.
def keep (state : RbacDb) : Except RbacError RbacManager → RbacDb
  | .ok manager => {state with rbac_manager:=manager}
  | .error _ => state

def call (state : RbacDb) : RbacCall → RbacDb
  | .createRole role => state.keep (state.rbac_manager.createRole role)
  | .dropRole role => state.keep (state.rbac_manager.dropRole role)
  | .grantPermission role permission table_name column_name =>
    state.keep (state.rbac_manager.grantPermission role permission table_name column_name)
  | .revokePermission role permission table_name column_name =>
    state.keep (state.rbac_manager.revokePermission role permission table_name column_name)
  | .createUser user => state.keep (state.rbac_manager.createUser user)
  | .dropUser user => state.keep (state.rbac_manager.dropUser user)
  | .grantRole user role => state.keep (state.rbac_manager.grantRole user role)
  | .revokeRole user role => state.keep (state.rbac_manager.revokeRole user role)
  | .save hashing now => RbacManager.saveToSystemTables hashing now state

def run (state : RbacDb) (calls : List RbacCall) : RbacDb := calls.foldl call state

def Saved (state : RbacDb) (shape : SystemTables.Shape) (values : List String) : Prop :=
  ∃ table, state.db.named shape.name = some table ∧ ∃ row ∈ table.scanRef, Spells shape.fields values row

-- When a call does not run into what saving leaves out: a row is never deleted,
-- a row has no column, a table without name is one, a role has one row for each
-- permission, and what does not fit is dropped.
def Safe (state : RbacDb) : RbacCall → Prop
  | .createRole role => RbacManager.Named role
  | .createUser user => RbacManager.Named user
  | .grantPermission role permission table_name column_name =>
    state.rbac_manager.roles.contains role = true → column_name = none ∧
      (∀ name, table_name = some name → RbacManager.TableNamed name) ∧
      ∀ other another, state.rbac_manager.HasGrant role (permission,other,another) → other = table_name
  | .grantRole _ _ => True
  | .dropRole role => state.rbac_manager.roles.contains role = true →
    ¬ state.Saved SystemTables.roles [role] ∧
      (∀ permission table, ¬ state.Saved SystemTables.rolePermissions [role,permission,table]) ∧
      ∀ user, ¬ state.Saved SystemTables.userRoles [user,role]
  | .dropUser user => state.rbac_manager.users.contains user = true →
    ¬ state.Saved SystemTables.users [user] ∧ ∀ role, ¬ state.Saved SystemTables.userRoles [user,role]
  | .revokePermission role permission table_name column_name =>
    state.rbac_manager.HasGrant role (permission,table_name,column_name) →
      ¬ state.Saved SystemTables.rolePermissions [role,permission.toText,table_name.getD ""]
  | .revokeRole user role => state.rbac_manager.HasRole user role →
    ¬ state.Saved SystemTables.userRoles [user,role]
  | .save _ _ => state.rbac_manager.Fits

def SafeRun (state : RbacDb) : List RbacCall → Prop
  | [] => True
  | call :: rest => state.Safe call ∧ (state.call call).SafeRun rest

def Held (state : RbacDb) (shape : SystemTables.Shape) (facts : List String → Prop) : Prop :=
  ∃ table, state.db.named shape.name = some table ∧ Filed shape facts table

-- The manager can be written down, and what the tables say of it is true.
structure Truthful (state : RbacDb) : Prop where
  valid : state.rbac_manager.Valid
  roles : state.Held SystemTables.roles state.rbac_manager.roleFacts
  grants : state.Held SystemTables.rolePermissions state.rbac_manager.grantFacts
  users : state.Held SystemTables.users state.rbac_manager.userFacts
  assignments : state.Held SystemTables.userRoles state.rbac_manager.assignmentFacts

-- What the rows of a table still say after the manager has changed.
theorem Held.still {state : RbacDb} {facts kept : List String → Prop} (held : state.Held shape facts)
    (true_still : ∀ values, facts values → state.Saved shape values → kept values) (manager : RbacManager) :
    Held {state with rbac_manager:=manager} shape kept := by
  obtain ⟨table,found,filed⟩ := held
  refine ⟨table,found,filed.fields,filed.primary_key,filed.record_size,filed.max_records,filed.orderly,?_⟩
  intro row stored
  obtain ⟨values,said,spelled⟩ := filed.rows row stored
  exact ⟨values,true_still values said ⟨table,found,row,stored,spelled⟩,spelled⟩

section Steps
variable {state : RbacDb} {after : RbacManager}

-- Truth is kept when the changed manager can be written down and has lost
-- nothing that is saved.
theorem Truthful.change (truthful : state.Truthful) (valid : after.Valid)
    (roles : ∀ role, state.rbac_manager.roles.contains role = true → state.Saved SystemTables.roles [role] →
      after.roles.contains role = true)
    (grants : ∀ role permission table, state.rbac_manager.HasGrant role (permission,table,none) →
      state.Saved SystemTables.rolePermissions [role,permission.toText,table.getD ""] →
      after.HasGrant role (permission,table,none))
    (users : ∀ user, state.rbac_manager.users.contains user = true → state.Saved SystemTables.users [user] →
      after.users.contains user = true)
    (assignments : ∀ user role, state.rbac_manager.HasRole user role →
      state.Saved SystemTables.userRoles [user,role] → after.HasRole user role) :
    Truthful {state with rbac_manager:=after} := by
  refine ⟨valid,truthful.roles.still ?_ _,truthful.grants.still ?_ _,truthful.users.still ?_ _,
    truthful.assignments.still ?_ _⟩
  · rintro values ⟨role,known,rfl⟩ saved
    exact ⟨role,roles role known saved,rfl⟩
  · rintro values ⟨role,permission,table,given,rfl⟩ saved
    exact ⟨role,permission,table,grants _ _ _ given saved,rfl⟩
  · rintro values ⟨user,known,rfl⟩ saved
    exact ⟨user,users user known saved,rfl⟩
  · rintro values ⟨user,role,held,rfl⟩ saved
    exact ⟨user,role,assignments user role held saved,rfl⟩

theorem valid_of_less {before : RbacManager} (valid : before.Valid)
    (roles : ∀ role, after.roles.contains role = true → before.roles.contains role = true)
    (grants : ∀ role grant, after.HasGrant role grant → before.HasGrant role grant)
    (users : ∀ user, after.users.contains user = true → before.users.contains user = true)
    (assignments : ∀ user role, after.HasRole user role → before.HasRole user role) : after.Valid where
  role_names role known := valid.role_names role (roles role known)
  user_names user known := valid.user_names user (users user known)
  assigned user role held := valid.assigned user role (assignments user role held)
  grants role permission table column given := valid.grants role permission table column (grants _ _ given)
  one_table role permission table column other another given also :=
    valid.one_table role permission table column other another (grants _ _ given) (grants _ _ also)

theorem hasRole_congr {left right : RbacManager} (same : left.users = right.users) (user role : String) :
    left.HasRole user role ↔ right.HasRole user role := by
  rw [RbacManager.HasRole,same]
  rfl

theorem hasGrant_congr {left right : RbacManager} (same : left.roles = right.roles) (role : String) (grant : Grant) :
    left.HasGrant role grant ↔ right.HasGrant role grant := by
  rw [RbacManager.HasGrant,same]
  rfl

theorem createRole_truthful (truthful : state.Truthful) (named : RbacManager.Named name)
    (done : state.rbac_manager.createRole name = .ok after) : Truthful {state with rbac_manager:=after} := by
  obtain ⟨users,contains,grants⟩ := RbacManager.createRole_effect done
  have valid := truthful.valid
  have assigned := hasRole_congr users
  refine truthful.change ⟨?_,?_,?_,?_,?_⟩ ?_ ?_ ?_ ?_
  · intro role known
    rcases (contains role).mp known with before | rfl
    · exact valid.role_names role before
    · exact named
  · exact fun user known => valid.user_names user (users ▸ known)
  · exact fun user role held => valid.assigned user role ((assigned user role).mp held)
  · exact fun role permission table column given => valid.grants _ _ _ _ ((grants _ _).mp given)
  · exact fun role permission table column other another given also =>
      valid.one_table _ _ _ _ _ _ ((grants _ _).mp given) ((grants _ _).mp also)
  · exact fun role known _ => (contains role).mpr (.inl known)
  · exact fun role permission table given _ => (grants _ _).mpr given
  · exact fun user known _ => users ▸ known
  · exact fun user role held _ => (assigned user role).mpr held

theorem createUser_truthful (truthful : state.Truthful) (named : RbacManager.Named name)
    (done : state.rbac_manager.createUser name = .ok after) : Truthful {state with rbac_manager:=after} := by
  obtain ⟨roles,contains,assigned⟩ := RbacManager.createUser_effect done
  have valid := truthful.valid
  have grants := hasGrant_congr roles
  refine truthful.change ⟨?_,?_,?_,?_,?_⟩ ?_ ?_ ?_ ?_
  · exact fun role known => valid.role_names role (roles ▸ known)
  · intro user known
    rcases (contains user).mp known with before | rfl
    · exact valid.user_names user before
    · exact named
  · exact fun user role held => valid.assigned user role ((assigned user role).mp held)
  · exact fun role permission table column given => valid.grants _ _ _ _ ((grants _ _).mp given)
  · exact fun role permission table column other another given also =>
      valid.one_table _ _ _ _ _ _ ((grants _ _).mp given) ((grants _ _).mp also)
  · exact fun role known _ => roles ▸ known
  · exact fun role permission table given _ => (grants _ _).mpr given
  · exact fun user known _ => (contains user).mpr (.inl known)
  · exact fun user role held _ => (assigned user role).mpr held

theorem dropRole_truthful (truthful : state.Truthful) (safe : state.Safe (.dropRole name))
    (done : state.rbac_manager.dropRole name = .ok after) : Truthful {state with rbac_manager:=after} := by
  obtain ⟨known,contains,grants,users,assigned⟩ := RbacManager.dropRole_effect done
  obtain ⟨no_role,no_grant,no_assignment⟩ := safe known
  refine truthful.change (valid_of_less truthful.valid ?_ ?_ ?_ ?_) ?_ ?_ ?_ ?_
  · exact fun role held => ((contains role).mp held).1
  · exact fun role grant given => ((grants role grant).mp given).1
  · exact fun user held => users user ▸ held
  · exact fun user role held => ((assigned user role).mp held).1
  · intro role held saved
    refine (contains role).mpr ⟨held,?_⟩
    rintro rfl
    exact no_role saved
  · intro role permission table given saved
    refine (grants _ _).mpr ⟨given,?_⟩
    rintro rfl
    exact no_grant _ _ saved
  · exact fun user held _ => (users user).symm ▸ held
  · intro user role held saved
    refine (assigned user role).mpr ⟨held,?_⟩
    rintro rfl
    exact no_assignment user saved

theorem dropUser_truthful (truthful : state.Truthful) (safe : state.Safe (.dropUser name))
    (done : state.rbac_manager.dropUser name = .ok after) : Truthful {state with rbac_manager:=after} := by
  obtain ⟨known,roles,contains,assigned⟩ := RbacManager.dropUser_effect done
  obtain ⟨no_user,no_assignment⟩ := safe known
  have grants := hasGrant_congr roles
  refine truthful.change (valid_of_less truthful.valid ?_ ?_ ?_ ?_) ?_ ?_ ?_ ?_
  · exact fun role held => roles ▸ held
  · exact fun role grant given => (grants role grant).mp given
  · exact fun user held => ((contains user).mp held).1
  · exact fun user role held => ((assigned user role).mp held).1
  · exact fun role held _ => roles ▸ held
  · exact fun role permission table given _ => (grants _ _).mpr given
  · intro user held saved
    refine (contains user).mpr ⟨held,?_⟩
    rintro rfl
    exact no_user saved
  · intro user role held saved
    refine (assigned user role).mpr ⟨held,?_⟩
    rintro rfl
    exact no_assignment role saved

theorem grantPermission_truthful (truthful : state.Truthful)
    (safe : state.Safe (.grantPermission name permission table_name column_name))
    (done : state.rbac_manager.grantPermission name permission table_name column_name = .ok after) :
    Truthful {state with rbac_manager:=after} := by
  obtain ⟨known,users,contains,grants⟩ := RbacManager.grantPermission_effect done
  obtain ⟨whole,table_named,alone⟩ := safe known
  have valid := truthful.valid
  have assigned := hasRole_congr users
  -- every grant of this permission to this role has the table of the new one
  have same_table {role : String} {other another : Option String} (given : after.HasGrant role (permission,other,another))
      (here : role = name) : other = table_name := by
    subst here
    rcases (grants _ _).mp given with before | ⟨_,new⟩
    · exact alone _ _ before
    · exact (Prod.mk.inj (Prod.mk.inj new).2).1
  refine truthful.change ⟨?_,?_,?_,?_,?_⟩ ?_ ?_ ?_ ?_
  · exact fun role held => valid.role_names role ((contains role).mp held)
  · exact fun user held => valid.user_names user (users ▸ held)
  · exact fun user role held => valid.assigned user role ((assigned user role).mp held)
  · intro role allowed table column given
    rcases (grants _ _).mp given with before | ⟨_,new⟩
    · exact valid.grants _ _ _ _ before
    · cases new
      exact ⟨whole,table_named⟩
  · intro role allowed table column other another given also
    by_cases here : role = name ∧ allowed = permission
    · obtain ⟨here,rfl⟩ := here
      exact (same_table given here).trans (same_table also here).symm
    · have before {table column : Option String} (given : after.HasGrant role (allowed,table,column)) :
          state.rbac_manager.HasGrant role (allowed,table,column) := by
        rcases (grants _ _).mp given with before | ⟨same,new⟩
        · exact before
        · exact absurd ⟨same,(Prod.mk.inj new).1⟩ here
      exact valid.one_table _ _ _ _ _ _ (before given) (before also)
  · exact fun role held _ => (contains role).mpr held
  · exact fun role allowed table given _ => (grants _ _).mpr (.inl given)
  · exact fun user held _ => users ▸ held
  · exact fun user role held _ => (assigned user role).mpr held

theorem revokePermission_truthful (truthful : state.Truthful)
    (safe : state.Safe (.revokePermission name permission table_name column_name))
    (done : state.rbac_manager.revokePermission name permission table_name column_name = .ok after) :
    Truthful {state with rbac_manager:=after} := by
  obtain ⟨users,contains,grants⟩ := RbacManager.revokePermission_effect done
  have assigned := hasRole_congr users
  refine truthful.change (valid_of_less truthful.valid ?_ ?_ ?_ ?_) ?_ ?_ ?_ ?_
  · exact fun role held => (contains role).mp held
  · exact fun role grant given => ((grants role grant).mp given).1
  · exact fun user held => users ▸ held
  · exact fun user role held => (assigned user role).mp held
  · exact fun role held _ => (contains role).mpr held
  · intro role allowed table given saved
    refine (grants _ _).mpr ⟨given,?_⟩
    rintro ⟨rfl,same⟩
    cases same
    exact safe given saved
  · exact fun user held _ => users ▸ held
  · exact fun user role held _ => (assigned user role).mpr held

theorem grantRole_truthful (truthful : state.Truthful) (done : state.rbac_manager.grantRole name given = .ok after) :
    Truthful {state with rbac_manager:=after} := by
  obtain ⟨known,roles,contains,assigned⟩ := RbacManager.grantRole_effect done
  have valid := truthful.valid
  have grants := hasGrant_congr roles
  refine truthful.change ⟨?_,?_,?_,?_,?_⟩ ?_ ?_ ?_ ?_
  · exact fun role held => valid.role_names role (roles ▸ held)
  · exact fun user held => valid.user_names user ((contains user).mp held)
  · intro user role held
    rcases (assigned user role).mp held with before | ⟨_,rfl⟩
    · exact valid.assigned user role before
    · exact valid.role_names role known
  · exact fun role permission table column given => valid.grants _ _ _ _ ((grants _ _).mp given)
  · exact fun role permission table column other another given also =>
      valid.one_table _ _ _ _ _ _ ((grants _ _).mp given) ((grants _ _).mp also)
  · exact fun role held _ => roles ▸ held
  · exact fun role permission table given _ => (grants _ _).mpr given
  · exact fun user held _ => (contains user).mpr held
  · exact fun user role held _ => (assigned user role).mpr (.inl held)

theorem revokeRole_truthful (truthful : state.Truthful) (safe : state.Safe (.revokeRole name taken))
    (done : state.rbac_manager.revokeRole name taken = .ok after) : Truthful {state with rbac_manager:=after} := by
  obtain ⟨roles,contains,assigned⟩ := RbacManager.revokeRole_effect done
  have grants := hasGrant_congr roles
  refine truthful.change (valid_of_less truthful.valid ?_ ?_ ?_ ?_) ?_ ?_ ?_ ?_
  · exact fun role held => roles ▸ held
  · exact fun role grant given => (grants role grant).mp given
  · exact fun user held => (contains user).mp held
  · exact fun user role held => ((assigned user role).mp held).1
  · exact fun role held _ => roles ▸ held
  · exact fun role permission table given _ => (grants _ _).mpr given
  · exact fun user held _ => (contains user).mpr held
  · intro user role held saved
    refine (assigned user role).mpr ⟨held,?_⟩
    rintro ⟨rfl,rfl⟩
    exact safe held saved

end Steps

theorem saveRows_manager (now : UInt64) (table_name : String) (rows : List Bytes) (state : RbacDb) :
    (RbacManager.saveRows now table_name rows state).rbac_manager = state.rbac_manager := by
  unfold RbacManager.saveRows
  split
  · rfl
  · split <;> rfl

theorem save_manager (hashing : Hashing) (now : UInt64) (state : RbacDb) :
    (RbacManager.saveToSystemTables hashing now state).rbac_manager = state.rbac_manager := by
  unfold RbacManager.saveToSystemTables
  simp only [saveRows_manager]

theorem call_save_manager (hashing : Hashing) (now : UInt64) (state : RbacDb) :
    (state.call (.save hashing now)).rbac_manager = state.rbac_manager := save_manager hashing now state

section Save
variable {state : RbacDb}

theorem told_of_named {before after : Database} (same : after.named shape.name = before.named shape.name)
    (told : Told before shape facts) : Told after shape facts := by
  obtain ⟨table,found,rest⟩ := told
  exact ⟨table,same.trans found,rest⟩

theorem save_told (truthful : state.Truthful) (fits : state.rbac_manager.Fits) (hashing : Hashing) (now : UInt64) :
    let after := RbacManager.saveToSystemTables hashing now state
    after.rbac_manager = state.rbac_manager ∧
      Told after.db SystemTables.roles state.rbac_manager.roleFacts ∧
      Told after.db SystemTables.rolePermissions state.rbac_manager.grantFacts ∧
      Told after.db SystemTables.users state.rbac_manager.userFacts ∧
      Told after.db SystemTables.userRoles state.rbac_manager.assignmentFacts := by
  have valid := truthful.valid
  obtain ⟨role_table,role_named,role_filed⟩ := truthful.roles
  obtain ⟨grant_table,grant_named,grant_filed⟩ := truthful.grants
  obtain ⟨user_table,user_named,user_filed⟩ := truthful.users
  obtain ⟨assignment_table,assignment_named,assignment_filed⟩ := truthful.assignments
  unfold RbacManager.saveToSystemTables
  intro after
  have first := saveRows_told SystemTables.roles_plain (RbacManager.roles_sayable valid fits)
    (RbacManager.roles_written now hashing valid) role_named role_filed now
  generalize at_first : RbacManager.saveRows now SystemTables.roles.name _ state = with_roles at first
  obtain ⟨role_told,first_kept,first_manager⟩ := first
  have second := saveRows_told SystemTables.rolePermissions_plain (RbacManager.grants_sayable valid fits)
    (RbacManager.grants_written now hashing valid) ((first_kept _ (by decide +kernel)).trans grant_named) grant_filed now
  generalize at_second : RbacManager.saveRows now SystemTables.rolePermissions.name _ with_roles = with_grants at second
  obtain ⟨grant_told,second_kept,second_manager⟩ := second
  have third := saveRows_told SystemTables.users_plain (RbacManager.users_sayable valid fits)
    (RbacManager.users_written now hashing valid)
    ((second_kept _ (by decide +kernel)).trans ((first_kept _ (by decide +kernel)).trans user_named)) user_filed now
  generalize at_third : RbacManager.saveRows now SystemTables.users.name _ with_grants = with_users at third
  obtain ⟨user_told,third_kept,third_manager⟩ := third
  have fourth := saveRows_told SystemTables.userRoles_plain (RbacManager.assignments_sayable valid fits)
    (RbacManager.assignments_written now hashing valid)
    ((third_kept _ (by decide +kernel)).trans ((second_kept _ (by decide +kernel)).trans
      ((first_kept _ (by decide +kernel)).trans assignment_named))) assignment_filed now
  generalize at_fourth : RbacManager.saveRows now SystemTables.userRoles.name _ with_users = last at fourth
  have whole : after = last := by
    rw [← at_fourth,← at_third,← at_second,← at_first]
    rfl
  rw [← whole] at fourth
  obtain ⟨assignment_told,fourth_kept,fourth_manager⟩ := fourth
  refine ⟨fourth_manager.trans (third_manager.trans (second_manager.trans first_manager)),?_,?_,?_,assignment_told⟩
  · refine told_of_named ?_ role_told
    exact (fourth_kept _ (by decide +kernel)).trans ((third_kept _ (by decide +kernel)).trans
      (second_kept _ (by decide +kernel)))
  · refine told_of_named ?_ grant_told
    exact (fourth_kept _ (by decide +kernel)).trans (third_kept _ (by decide +kernel))
  · exact told_of_named (fourth_kept _ (by decide +kernel)) user_told

theorem save_truthful (truthful : state.Truthful) (fits : state.rbac_manager.Fits) (hashing : Hashing) (now : UInt64) :
    (RbacManager.saveToSystemTables hashing now state).Truthful := by
  obtain ⟨same,⟨_,role_named,role_filed,_⟩,⟨_,grant_named,grant_filed,_⟩,⟨_,user_named,user_filed,_⟩,
    _,assignment_named,assignment_filed,_⟩ := save_told truthful fits hashing now
  constructor
  all_goals rw [same]
  · exact truthful.valid
  · exact ⟨_,role_named,role_filed⟩
  · exact ⟨_,grant_named,grant_filed⟩
  · exact ⟨_,user_named,user_filed⟩
  · exact ⟨_,assignment_named,assignment_filed⟩

end Save

theorem keep_truthful {state : RbacDb} (truthful : state.Truthful) {result : Except RbacError RbacManager}
    (kept : ∀ manager, result = .ok manager → Truthful {state with rbac_manager:=manager}) :
    (state.keep result).Truthful := by
  cases result with
  | ok manager => exact kept manager rfl
  | error _ => exact truthful

theorem call_truthful {state : RbacDb} (truthful : state.Truthful) (call : RbacCall) (safe : state.Safe call) :
    (state.call call).Truthful := by
  cases call with
  | createRole role => exact keep_truthful truthful fun _ => createRole_truthful truthful safe
  | dropRole role => exact keep_truthful truthful fun _ => dropRole_truthful truthful safe
  | grantPermission role permission table_name column_name =>
    exact keep_truthful truthful fun _ => grantPermission_truthful truthful safe
  | revokePermission role permission table_name column_name =>
    exact keep_truthful truthful fun _ => revokePermission_truthful truthful safe
  | createUser user => exact keep_truthful truthful fun _ => createUser_truthful truthful safe
  | dropUser user => exact keep_truthful truthful fun _ => dropUser_truthful truthful safe
  | grantRole user role => exact keep_truthful truthful fun _ => grantRole_truthful truthful
  | revokeRole user role => exact keep_truthful truthful fun _ => revokeRole_truthful truthful safe
  | save hashing now => exact save_truthful truthful safe hashing now

theorem run_truthful {state : RbacDb} (truthful : state.Truthful) (calls : List RbacCall) (safe : state.SafeRun calls) :
    (state.run calls).Truthful := by
  induction calls generalizing state with
  | nil => exact truthful
  | cons call rest ih => exact ih (call_truthful truthful call safe.1) safe.2

section Restored
variable {manager : RbacManager} {db : Database}

-- What four tables that say everything give back decides every check as the
-- manager did.
theorem restored (valid : manager.Valid) (roles : Told db SystemTables.roles manager.roleFacts)
    (grants : Told db SystemTables.rolePermissions manager.grantFacts)
    (users : Told db SystemTables.users manager.userFacts)
    (assignments : Told db SystemTables.userRoles manager.assignmentFacts) (user : String) (permission : Permission)
    (table_name column_name : Option String) :
    (RbacManager.loadFromSystemTables db).checkPermission user permission table_name column_name =
      manager.checkPermission user permission table_name column_name := by
  obtain ⟨role_table,role_named,role_filed,role_complete⟩ := roles
  obtain ⟨grant_table,grant_named,grant_filed,grant_complete⟩ := grants
  obtain ⟨user_table,user_named,user_filed,user_complete⟩ := users
  obtain ⟨assignment_table,assignment_named,assignment_filed,assignment_complete⟩ := assignments
  -- a row of each table, read back, is a fact, and each fact is read back from a row
  have role_known (role : String) : (role ≠ "" ∧ ∃ row ∈ role_table.scanRef, role_table.strOrEmpty 0 row = role) ↔
      manager.roles.contains role = true := by
    constructor
    · rintro ⟨_,row,stored,rfl⟩
      obtain ⟨_,⟨role,known,rfl⟩,spelled⟩ := role_filed.rows row stored
      rw [← role_filed.fields] at spelled
      rw [spelled.text (show [role][0]? = some role from rfl)]
      exact known
    · intro known
      obtain ⟨row,stored,spelled⟩ := role_complete [role] ⟨role,known,rfl⟩
      rw [← role_filed.fields] at spelled
      exact ⟨(valid.role_names role known).1,row,stored,spelled.text rfl⟩
  have user_known (user : String) : (user ≠ "" ∧ ∃ row ∈ user_table.scanRef, user_table.strOrEmpty 0 row = user) ↔
      manager.users.contains user = true := by
    constructor
    · rintro ⟨_,row,stored,rfl⟩
      obtain ⟨_,⟨user,known,rfl⟩,spelled⟩ := user_filed.rows row stored
      rw [← user_filed.fields] at spelled
      rw [spelled.text (show [user][0]? = some user from rfl)]
      exact known
    · intro known
      obtain ⟨row,stored,spelled⟩ := user_complete [user] ⟨user,known,rfl⟩
      rw [← user_filed.fields] at spelled
      exact ⟨(valid.user_names user known).1,row,stored,spelled.text rfl⟩
  apply RbacManager.checkPermission_congr
  · intro user
    rw [Bool.eq_iff_iff,RbacManager.load_users role_named grant_named user_named assignment_named]
    exact user_known user
  · intro user role
    rw [RbacManager.load_assignments role_named grant_named user_named assignment_named,user_known]
    constructor
    · rintro ⟨_,row,stored,rfl,_,rfl,_⟩
      obtain ⟨_,⟨user,role,held,rfl⟩,spelled⟩ := assignment_filed.rows row stored
      rw [← assignment_filed.fields] at spelled
      rw [spelled.text (show [user,role][0]? = some user from rfl),
        spelled.text (show [user,role][1]? = some role from rfl)]
      exact held
    · intro held
      have known := RbacManager.hasRole_contains held
      obtain ⟨row,stored,spelled⟩ := assignment_complete [user,role] ⟨user,role,held,rfl⟩
      rw [← assignment_filed.fields] at spelled
      exact ⟨known,row,stored,spelled.text rfl,(valid.user_names user known).1,spelled.text rfl,
        (valid.assigned user role held).1⟩
  · intro role grant
    rw [RbacManager.load_grants role_named grant_named user_named assignment_named,role_known]
    constructor
    · rintro ⟨_,row,stored,rfl,_,_,read,readable,rfl⟩
      obtain ⟨_,⟨role,permission,table,given,rfl⟩,spelled⟩ := grant_filed.rows row stored
      rw [← grant_filed.fields] at spelled
      rw [spelled.text (show [role,permission.toText,table.getD ""][1]? = some permission.toText from rfl),
        Permission.fromStr_toText] at readable
      cases readable
      rw [spelled.text (show [role,permission.toText,table.getD ""][0]? = some role from rfl),
        spelled.text (show [role,permission.toText,table.getD ""][2]? = some (table.getD "") from rfl)]
      cases table with
      | none => exact given
      | some name =>
        rw [Option.getD_some,if_neg ((valid.grants _ _ _ _ given).2 name rfl).1]
        exact given
    · intro given
      obtain ⟨allowed,table,column⟩ := grant
      obtain ⟨rfl,table_named⟩ := valid.grants _ _ _ _ given
      have known := RbacManager.hasGrant_contains given
      obtain ⟨row,stored,spelled⟩ := grant_complete _ ⟨role,allowed,table,given,rfl⟩
      rw [← grant_filed.fields] at spelled
      have second := spelled.text (show [role,allowed.toText,table.getD ""][1]? = some allowed.toText from rfl)
      have third := spelled.text (show [role,allowed.toText,table.getD ""][2]? = some (table.getD "") from rfl)
      refine ⟨known,row,stored,spelled.text rfl,(valid.role_names role known).1,?_,allowed,?_,?_⟩
      · rw [second]
        exact (RbacManager.permission_keepable allowed).1
      · rw [second,Permission.fromStr_toText]
      · rw [third]
        cases table with
        | none => rfl
        | some name => rw [Option.getD_some,if_neg (table_named name rfl).1]

end Restored

-- In every run of safe calls, a save and a load at any point give back the
-- answers of the manager.
theorem safe_run_survives (start : RbacDb) (truthful : start.Truthful) (calls : List RbacCall)
    (safe : start.SafeRun calls) (hashing : Hashing) (now : UInt64) (fits : (start.run calls).rbac_manager.Fits)
    (user : String) (permission : Permission) (table_name column_name : Option String) :
    (RbacManager.loadFromSystemTables
      (RbacManager.saveToSystemTables hashing now (start.run calls)).db).checkPermission user permission table_name
        column_name =
      (start.run calls).rbac_manager.checkPermission user permission table_name column_name := by
  have kept := run_truthful truthful calls safe
  obtain ⟨_,roles,grants,users,assignments⟩ := save_told kept fits hashing now
  exact restored kept.valid roles grants users assignments user permission table_name column_name

def zeroes (shape : SystemTables.Shape) : Memory := fun _ => (⟨.free,0,0,0,0⟩,List.replicate shape.record_size 0)

def emptyTable (shape : SystemTables.Shape) : MemoryTable where
  tdef := shape.tableDef 0
  records := fun _ => List.replicate shape.record_size 0
  status := fun _ => ⟨.free,0,0,0,0⟩
  record_count := 0
  free_slots := (List.range 512).map fun slot => 512-1-slot
  low_power_mode := false
  low_power_max_records := none
  max_pk := 0

def emptyAccess : RbacDb where
  rbac_manager := .empty
  db := ⟨[some (emptyTable SystemTables.roles),some (emptyTable SystemTables.rolePermissions),
    some (emptyTable SystemTables.users),some (emptyTable SystemTables.userRoles)]⟩
  tx := MemoryTable.noTx

theorem emptyTable_filed (shape : SystemTables.Shape) (facts : List String → Prop) :
    Filed shape facts (emptyTable shape) := by
  have made : MemoryTable.new (shape.tableDef 0) (some (zeroes shape)) = .ok (emptyTable shape) := rfl
  refine ⟨rfl,rfl,rfl,rfl,⟨?_,?_,rfl⟩,?_⟩
  · exact MemoryTable.new_accounted _ _ _ (by change 512 < 2^64; decide) made
  · exact (MemoryTable.new_unique (fun _ => ⟨rfl,rfl⟩) made).1
  · intro row stored
    obtain ⟨slot,_,used,_⟩ := MemoryTable.mem_scanRef.mp stored
    cases used

theorem emptyAccess_truthful : emptyAccess.Truthful := by
  have no_role (role : String) : ¬ emptyAccess.rbac_manager.roles.contains role = true := nofun
  have no_user (user : String) : ¬ emptyAccess.rbac_manager.users.contains user = true := nofun
  have no_grant (role : String) (grant : Grant) : ¬ emptyAccess.rbac_manager.HasGrant role grant := by
    rintro ⟨_,found,_⟩
    cases found
  have no_assignment (user role : String) : ¬ emptyAccess.rbac_manager.HasRole user role := by
    rintro ⟨_,found,_⟩
    cases found
  refine ⟨⟨?_,?_,?_,?_,?_⟩,⟨_,rfl,emptyTable_filed _ _⟩,⟨_,rfl,emptyTable_filed _ _⟩,⟨_,rfl,emptyTable_filed _ _⟩,
    ⟨_,rfl,emptyTable_filed _ _⟩⟩
  · exact fun role known => absurd known (no_role role)
  · exact fun user known => absurd known (no_user user)
  · exact fun user role held => absurd held (no_assignment user role)
  · exact fun role _ _ _ given => absurd given (no_grant role _)
  · exact fun role _ _ _ _ _ given _ => absurd given (no_grant role _)

def growing : List RbacCall :=
  [.createRole "clerk",.save .inOrder 0,.grantPermission "clerk" .select (some "orders") none]

theorem growing_survives : emptyAccess.SafeRun growing ∧
    ∀ user permission table_name column_name,
      (RbacManager.loadFromSystemTables
        (RbacManager.saveToSystemTables .inOrder 1 (emptyAccess.run growing)).db).checkPermission user permission
          table_name column_name =
        (emptyAccess.run growing).rbac_manager.checkPermission user permission table_name column_name := by
  have safe : emptyAccess.SafeRun growing := by
    refine ⟨⟨by decide +kernel,by decide +kernel⟩,
      ⟨by decide +kernel,by decide +kernel,by decide +kernel,by decide +kernel⟩,?_,trivial⟩
    intro _
    refine ⟨rfl,?_,?_⟩
    · intro name same
      cases same
      exact ⟨by decide +kernel,by decide +kernel⟩
    · intro other another granted
      rw [call_save_manager] at granted
      obtain ⟨entry,found,given⟩ := granted
      change (Keyed.insert Keyed.empty (Role.new "clerk")).get "clerk" = some entry at found
      have named : (Role.new "clerk").name = "clerk" := rfl
      rw [Keyed.get_insert,if_pos named] at found
      cases found
      cases given
  refine ⟨safe,?_⟩
  exact safe_run_survives emptyAccess emptyAccess_truthful growing safe .inOrder 1
    ⟨by decide +kernel,by decide +kernel,by decide +kernel,by decide +kernel⟩

def revoking : List RbacCall :=
  [.createRole "clerk",.createUser "ann",.grantRole "ann" "clerk",
    .grantPermission "clerk" .select (some "orders") none,.save .inOrder 0,
    .revokePermission "clerk" .select (some "orders") none]
def narrowing : List RbacCall :=
  [.createRole "clerk",.createUser "ann",.grantRole "ann" "clerk",
    .grantPermission "clerk" .select (some "orders") (some "price")]

-- Both are allowed after the load and were not before the save.
theorem revoked_and_narrow_come_back :
    ((emptyAccess.run revoking).rbac_manager.checkPermission "ann" .select (some "orders") none = .ok false ∧
      (RbacManager.loadFromSystemTables
        (RbacManager.saveToSystemTables .inOrder 1 (emptyAccess.run revoking)).db).checkPermission "ann" .select
          (some "orders") none = .ok true) ∧
    (emptyAccess.run narrowing).rbac_manager.checkPermission "ann" .select (some "orders") (some "name") =
      .ok false ∧
    (RbacManager.loadFromSystemTables
      (RbacManager.saveToSystemTables .inOrder 1 (emptyAccess.run narrowing)).db).checkPermission "ann" .select
        (some "orders") (some "name") = .ok true := by
  decide +kernel

end RbacDb
end RemDb
