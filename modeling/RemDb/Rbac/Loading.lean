import RemDb.Rbac.Filing

namespace RemDb
open RemDb.Lib

namespace RbacManager

-- What decides every permission check.
def HasRole (manager : RbacManager) (user role : String) : Prop :=
  ∃ entry, manager.users.get user = some entry ∧ role ∈ entry.roles
def HasGrant (manager : RbacManager) (role : String) (grant : Grant) : Prop :=
  ∃ entry, manager.roles.get role = some entry ∧ grant ∈ entry.permissions

section Check
variable {manager : RbacManager} {user : String} {entry : User}

theorem granted_iff (found : manager.users.get user = some entry) (permission : Permission)
    (table_name column_name : Option String) :
    (entry.roles.any fun role =>
      (manager.roles.get role).any (·.hasPermission permission table_name column_name)) = true ↔
    ∃ role grant, manager.HasRole user role ∧ manager.HasGrant role grant ∧ grant.1 = permission ∧
      Role.covers grant.2.1 table_name = true ∧ Role.covers grant.2.2 column_name = true := by
  simp only [List.any_eq_true,Option.any_eq_true,Role.hasPermission,Bool.and_eq_true,decide_eq_true_eq]
  constructor
  · rintro ⟨role,listed,held,there,grant,given,⟨same,inTable⟩,inColumn⟩
    exact ⟨role,grant,⟨entry,found,listed⟩,⟨held,there,given⟩,same,inTable,inColumn⟩
  · rintro ⟨role,grant,⟨other,at_user,listed⟩,⟨held,there,given⟩,same,inTable,inColumn⟩
    cases found.symm.trans at_user
    exact ⟨role,listed,held,there,grant,given,⟨same,inTable⟩,inColumn⟩

end Check

theorem checkPermission_congr {left right : RbacManager}
    (users : ∀ user, left.users.contains user = right.users.contains user)
    (roles : ∀ user role, left.HasRole user role ↔ right.HasRole user role)
    (grants : ∀ role grant, left.HasGrant role grant ↔ right.HasGrant role grant)
    (user : String) (permission : Permission) (table_name column_name : Option String) :
    left.checkPermission user permission table_name column_name =
      right.checkPermission user permission table_name column_name := by
  have known := users user
  unfold Keyed.contains at known
  unfold checkPermission
  cases here : left.users.get user with
  | none =>
    rw [here] at known
    rw [Option.isSome_none] at known
    rw [Option.isSome_eq_false_iff.mp known.symm |> Option.isNone_iff_eq_none.mp]
  | some entry =>
    rw [here] at known
    obtain ⟨other,there⟩ := Option.isSome_iff_exists.mp known.symm
    rw [there]
    dsimp only
    rw [Except.ok.injEq,Bool.eq_iff_iff,granted_iff here,granted_iff there]
    simp only [roles,grants]

section Fold
variable {σ β ι : Type} {visit : σ → β → σ}

theorem foldl_same (view : σ → ι) (step : ∀ state each, view (visit state each) = view state) (rows : List β)
    (state : σ) : view (rows.foldl visit state) = view state := by
  induction rows generalizing state with
  | nil => rfl
  | cons row rest ih => rw [List.foldl_cons,ih,step]

theorem foldl_kept (property : σ → Prop) (step : ∀ state each, property state → property (visit state each))
    (rows : List β) {state : σ} (held : property state) : property (rows.foldl visit state) := by
  induction rows generalizing state with
  | nil => exact held
  | cons row rest ih => exact ih (step state row held)

theorem foldl_adds (has can : σ → ι → Prop) {gives : β → ι → Prop}
    (step : ∀ state each item, has (visit state each) item ↔ has state item ∨ can state item ∧ gives each item)
    (still : ∀ state each item, can (visit state each) item ↔ can state item) (rows : List β) (state : σ) (item : ι) :
    has (rows.foldl visit state) item ↔ has state item ∨ can state item ∧ ∃ row ∈ rows, gives row item := by
  induction rows generalizing state with
  | nil => simp
  | cons row rest ih =>
    rw [List.foldl_cons,ih,step,still]
    simp only [List.mem_cons,exists_eq_or_imp]
    tauto

end Fold

section Steps
variable (table : MemoryTable) (manager : RbacManager) (record : Bytes)

theorem contains_insert {α : Type} {key : α → String} (map : Keyed key) (value : α) (name : String) :
    (map.insert value).contains name = true ↔ map.contains name = true ∨ key value = name := by
  rw [Keyed.contains,Keyed.get_insert]
  split
  · rename_i same
    simp [same]
  · rename_i other
    simp [Keyed.contains,other]

theorem contains_put_back {α : Type} {key : α → String} {map : Keyed key} {old value : α}
    (found : map.get (key old) = some old) (same : key value = key old) (name : String) :
    (map.insert value).contains name = true ↔ map.contains name = true := by
  rw [contains_insert,same]
  constructor
  · rintro (held | rfl)
    · exact held
    · rw [Keyed.contains,found]
      rfl
  · exact .inl

theorem get_own {α : Type} {key : α → String} {map : Keyed key} {old : α} (found : map.get name = some old) :
    map.get (key old) = some old ∧ key old = name := by
  have named := (map.get_eq_some.mp found).2
  exact ⟨named.symm ▸ found,named⟩

theorem loadRole_users : (loadRole table manager record).users = manager.users := by
  unfold loadRole
  dsimp only
  split <;> rfl

theorem loadRole_contains (role : String) : (loadRole table manager record).roles.contains role = true ↔
    manager.roles.contains role = true ∨ True ∧ role ≠ "" ∧ table.strOrEmpty 0 record = role := by
  unfold loadRole
  dsimp only
  split
  · rename_i named
    refine (contains_insert _ _ _).trans (or_congr_right ?_)
    change table.strOrEmpty 0 record = role ↔ _
    constructor
    · rintro rfl
      exact ⟨trivial,named,rfl⟩
    · exact fun given => given.2.2
  · rename_i unnamed
    refine ⟨.inl,?_⟩
    rintro (held | ⟨_,named,rfl⟩)
    · exact held
    · exact absurd named unnamed

theorem loadRole_ungranted (none_before : ∀ role grant, ¬ manager.HasGrant role grant) (role : String) (grant : Grant) :
    ¬ (loadRole table manager record).HasGrant role grant := by
  unfold loadRole
  dsimp only
  split
  · rintro ⟨entry,found,given⟩
    change Keyed.get (manager.roles.insert _) role = some entry at found
    rw [Keyed.get_insert] at found
    split at found
    · cases found
      cases given
    · exact none_before role grant ⟨entry,found,given⟩
  · exact none_before role grant

def Restores (record : Bytes) (role : String) (grant : Grant) : Prop :=
  table.strOrEmpty 0 record = role ∧ role ≠ "" ∧ table.strOrEmpty 1 record ≠ "" ∧
    ∃ permission, Permission.fromStr (table.strOrEmpty 1 record) = some permission ∧
      grant = (permission,if table.strOrEmpty 2 record = "" then none else some (table.strOrEmpty 2 record),none)

theorem loadGrant_cases : (loadGrant table manager record = manager ∧
      ∀ role grant, manager.roles.contains role = true → ¬ Restores table record role grant) ∨
    ∃ role grant, manager.roles.get (table.strOrEmpty 0 record) = some role ∧
      (∀ name given, Restores table record name given ↔ name = table.strOrEmpty 0 record ∧ given = grant) ∧
      loadGrant table manager record =
        {manager with roles:=manager.roles.insert (role.addPermission grant.1 grant.2.1 grant.2.2)} := by
  unfold loadGrant
  dsimp only
  split
  · rename_i named
    cases found : manager.roles.get (table.strOrEmpty 0 record) with
    | none =>
      refine .inl ⟨rfl,?_⟩
      rintro role grant known ⟨rfl,_⟩
      rw [Keyed.contains,found] at known
      cases known
    | some role =>
      cases read : Permission.fromStr (table.strOrEmpty 1 record) with
      | none =>
        refine .inl ⟨rfl,?_⟩
        rintro _ _ _ ⟨_,_,_,permission,readable,_⟩
        rw [read] at readable
        cases readable
      | some permission =>
        let grant : Grant := (permission,if table.strOrEmpty 2 record = "" then none else some (table.strOrEmpty 2 record),none)
        refine .inr ⟨role,grant,rfl,?_,rfl⟩
        intro name given
        constructor
        · rintro ⟨rfl,_,_,other,readable,rfl⟩
          cases read.symm.trans readable
          exact ⟨rfl,rfl⟩
        · rintro ⟨rfl,rfl⟩
          exact ⟨rfl,named.1,named.2,permission,read,rfl⟩
  · rename_i unnamed
    refine .inl ⟨rfl,?_⟩
    rintro _ _ _ ⟨rfl,first,second,_⟩
    exact unnamed ⟨first,second⟩

theorem loadGrant_users : (loadGrant table manager record).users = manager.users := by
  obtain ⟨same,_⟩ | ⟨_,_,_,_,same⟩ := loadGrant_cases table manager record
  · rw [same]
  · rw [same]

theorem loadGrant_contains (role : String) :
    (loadGrant table manager record).roles.contains role = true ↔ manager.roles.contains role = true := by
  obtain ⟨same,_⟩ | ⟨entry,grant,found,_,same⟩ := loadGrant_cases table manager record
  · rw [same]
  · rw [same]
    have named : (entry.addPermission grant.1 grant.2.1 grant.2.2).name = entry.name := rfl
    exact contains_put_back (get_own found).1 named role

theorem loadGrant_has (item : String × Grant) : (loadGrant table manager record).HasGrant item.1 item.2 ↔
    manager.HasGrant item.1 item.2 ∨ manager.roles.contains item.1 = true ∧ Restores table record item.1 item.2 := by
  obtain ⟨role,given⟩ := item
  dsimp only
  obtain ⟨same,nothing⟩ | ⟨entry,grant,found,restores,same⟩ := loadGrant_cases table manager record
  · rw [same]
    refine ⟨.inl,?_⟩
    rintro (held | ⟨known,restored⟩)
    · exact held
    · exact absurd restored (nothing _ _ known)
  · rw [same]
    unfold HasGrant
    dsimp only
    obtain ⟨own,named⟩ := get_own found
    rw [Keyed.get_insert,restores]
    change (∃ other, (if entry.name = role then _ else _) = some other ∧ _) ↔ _
    split
    · rename_i here
      subst here
      rw [own]
      simp only [Option.some.injEq,exists_eq_left',Role.addPermission,List.mem_append,List.mem_singleton,
        Keyed.contains,Option.isSome_some,true_and,named,found]
    · rename_i away
      constructor
      · exact .inl
      · rintro (held | ⟨_,rfl,_⟩)
        · exact held
        · exact absurd named away

theorem loadUser_roles : (loadUser table manager record).roles = manager.roles := by
  unfold loadUser
  dsimp only
  split <;> rfl

theorem loadUser_contains (user : String) : (loadUser table manager record).users.contains user = true ↔
    manager.users.contains user = true ∨ True ∧ user ≠ "" ∧ table.strOrEmpty 0 record = user := by
  unfold loadUser
  dsimp only
  split
  · rename_i named
    refine (contains_insert _ _ _).trans (or_congr_right ?_)
    change table.strOrEmpty 0 record = user ↔ _
    constructor
    · rintro rfl
      exact ⟨trivial,named,rfl⟩
    · exact fun given => given.2.2
  · rename_i unnamed
    refine ⟨.inl,?_⟩
    rintro (held | ⟨_,named,rfl⟩)
    · exact held
    · exact absurd named unnamed

theorem loadUser_unassigned (none_before : ∀ user role, ¬ manager.HasRole user role) (user role : String) :
    ¬ (loadUser table manager record).HasRole user role := by
  unfold loadUser
  dsimp only
  split
  · rintro ⟨entry,found,given⟩
    change Keyed.get (manager.users.insert _) user = some entry at found
    rw [Keyed.get_insert] at found
    split at found
    · cases found
      cases given
    · exact none_before user role ⟨entry,found,given⟩
  · exact none_before user role

def Reassigns (record : Bytes) (user role : String) : Prop :=
  table.strOrEmpty 0 record = user ∧ user ≠ "" ∧ table.strOrEmpty 1 record = role ∧ role ≠ ""

theorem loadUserRole_cases : (loadUserRole table manager record = manager ∧
      ∀ user role, manager.users.contains user = true → ¬ Reassigns table record user role) ∨
    ∃ entry, manager.users.get (table.strOrEmpty 0 record) = some entry ∧
      (∀ user role, Reassigns table record user role ↔
        user = table.strOrEmpty 0 record ∧ role = table.strOrEmpty 1 record) ∧
      loadUserRole table manager record =
        {manager with users:=manager.users.insert (entry.addRole (table.strOrEmpty 1 record))} := by
  unfold loadUserRole
  dsimp only
  split
  · rename_i named
    cases found : manager.users.get (table.strOrEmpty 0 record) with
    | none =>
      refine .inl ⟨rfl,?_⟩
      rintro user role known ⟨rfl,_⟩
      rw [Keyed.contains,found] at known
      cases known
    | some entry =>
      refine .inr ⟨entry,rfl,?_,rfl⟩
      intro user role
      constructor
      · rintro ⟨rfl,_,rfl,_⟩
        exact ⟨rfl,rfl⟩
      · rintro ⟨rfl,rfl⟩
        exact ⟨rfl,named.1,rfl,named.2⟩
  · rename_i unnamed
    refine .inl ⟨rfl,?_⟩
    rintro _ _ _ ⟨rfl,first,rfl,second⟩
    exact unnamed ⟨first,second⟩

theorem addRole_name (user : User) (role : String) : (user.addRole role).name = user.name := by
  unfold User.addRole
  split <;> rfl

theorem mem_addRole (user : User) (role other : String) : other ∈ (user.addRole role).roles ↔ other ∈ user.roles ∨ other = role := by
  unfold User.addRole
  split
  · rename_i listed
    refine ⟨.inl,?_⟩
    rintro (held | rfl)
    · exact held
    · exact listed
  · simp

theorem loadUserRole_roles : (loadUserRole table manager record).roles = manager.roles := by
  obtain ⟨same,_⟩ | ⟨_,_,_,same⟩ := loadUserRole_cases table manager record
  · rw [same]
  · rw [same]

theorem loadUserRole_contains (user : String) :
    (loadUserRole table manager record).users.contains user = true ↔ manager.users.contains user = true := by
  obtain ⟨same,_⟩ | ⟨entry,found,_,same⟩ := loadUserRole_cases table manager record
  · rw [same]
  · rw [same]
    exact contains_put_back (get_own found).1 (addRole_name _ _) user

theorem loadUserRole_has (item : String × String) : (loadUserRole table manager record).HasRole item.1 item.2 ↔
    manager.HasRole item.1 item.2 ∨ manager.users.contains item.1 = true ∧ Reassigns table record item.1 item.2 := by
  obtain ⟨user,role⟩ := item
  dsimp only
  obtain ⟨same,nothing⟩ | ⟨entry,found,reassigns,same⟩ := loadUserRole_cases table manager record
  · rw [same]
    refine ⟨.inl,?_⟩
    rintro (held | ⟨known,given⟩)
    · exact held
    · exact absurd given (nothing _ _ known)
  · rw [same]
    unfold HasRole
    dsimp only
    obtain ⟨own,named⟩ := get_own found
    rw [Keyed.get_insert,addRole_name,reassigns]
    split
    · rename_i here
      subst here
      rw [own]
      simp only [Option.some.injEq,exists_eq_left',mem_addRole,Keyed.contains,Option.isSome_some,true_and,named,
        found]
    · rename_i away
      constructor
      · exact .inl
      · rintro (held | ⟨_,rfl,_⟩)
        · exact held
        · exact absurd named away

end Steps

theorem forRecords_named {db : Database} {table : MemoryTable} (found : db.named name = some table)
    (visit : MemoryTable → RbacManager → Bytes → RbacManager) (manager : RbacManager) :
    forRecords db name visit manager = table.scanRef.foldl (visit table) manager := by
  obtain ⟨place,at_place,stands⟩ := Database.named_place found
  rw [forRecords,at_place]
  dsimp only
  rw [stands]

section Whole
variable {db : Database} {roles grants users assignments : MemoryTable}
  (role_table : db.named SYSTEM_ROLES_TABLE = some roles)
  (grant_table : db.named SYSTEM_ROLE_PERMISSIONS_TABLE = some grants)
  (user_table : db.named SYSTEM_USERS_TABLE = some users)
  (assignment_table : db.named SYSTEM_USER_ROLES_TABLE = some assignments)
include role_table grant_table user_table assignment_table

theorem load_eq : loadFromSystemTables db =
    assignments.scanRef.foldl (loadUserRole assignments) (users.scanRef.foldl (loadUser users)
      (grants.scanRef.foldl (loadGrant grants) (roles.scanRef.foldl (loadRole roles) empty))) := by
  rw [loadFromSystemTables,forRecords_named role_table,forRecords_named grant_table,forRecords_named user_table,
    forRecords_named assignment_table]

theorem load_users (user : String) : (loadFromSystemTables db).users.contains user = true ↔
    user ≠ "" ∧ ∃ row ∈ users.scanRef, users.strOrEmpty 0 row = user := by
  rw [load_eq role_table grant_table user_table assignment_table]
  have none_before : (grants.scanRef.foldl (loadGrant grants)
      (roles.scanRef.foldl (loadRole roles) empty)).users = Keyed.empty := by
    rw [foldl_same RbacManager.users (loadGrant_users grants),foldl_same RbacManager.users (loadRole_users roles)]
    rfl
  have kept := foldl_same (fun manager => manager.users.contains user)
    (fun manager row => Bool.eq_iff_iff.mpr (loadUserRole_contains assignments manager row user)) assignments.scanRef
  rw [kept]
  refine (foldl_adds (fun (manager : RbacManager) user => manager.users.contains user = true) (fun _ _ => True)
    (loadUser_contains users) (fun _ _ _ => Iff.rfl) users.scanRef _ user).trans ?_
  rw [none_before]
  constructor
  · rintro (nothing | ⟨_,row,stored,named,read⟩)
    · cases nothing
    · exact ⟨named,row,stored,read⟩
  · rintro ⟨named,row,stored,read⟩
    exact .inr ⟨trivial,row,stored,named,read⟩

theorem load_assignments (user role : String) : (loadFromSystemTables db).HasRole user role ↔
    (user ≠ "" ∧ ∃ row ∈ users.scanRef, users.strOrEmpty 0 row = user) ∧
      ∃ row ∈ assignments.scanRef, Reassigns assignments row user role := by
  have known := load_users role_table grant_table user_table assignment_table user
  rw [load_eq role_table grant_table user_table assignment_table] at known ⊢
  have kept := foldl_same (fun manager => manager.users.contains user)
    (fun manager row => Bool.eq_iff_iff.mpr (loadUserRole_contains assignments manager row user)) assignments.scanRef
  rw [kept] at known
  refine (foldl_adds (fun (manager : RbacManager) (item : String × String) => manager.HasRole item.1 item.2)
    (fun manager item => manager.users.contains item.1 = true) (loadUserRole_has assignments)
    (fun manager row item => loadUserRole_contains assignments manager row item.1) assignments.scanRef _
    (user,role)).trans ?_
  have none_before : ∀ user role, ¬ (users.scanRef.foldl (loadUser users) (grants.scanRef.foldl (loadGrant grants)
      (roles.scanRef.foldl (loadRole roles) empty))).HasRole user role := by
    refine foldl_kept (fun (manager : RbacManager) => ∀ user role, ¬ manager.HasRole user role) (loadUser_unassigned users) _ ?_
    rintro user role ⟨entry,found,_⟩
    rw [foldl_same RbacManager.users (loadGrant_users grants),foldl_same RbacManager.users (loadRole_users roles)]
      at found
    cases found
  rw [known]
  constructor
  · rintro (nothing | held)
    · exact absurd nothing (none_before user role)
    · exact held
  · exact .inr

theorem load_grants (role : String) (grant : Grant) : (loadFromSystemTables db).HasGrant role grant ↔
    (role ≠ "" ∧ ∃ row ∈ roles.scanRef, roles.strOrEmpty 0 row = role) ∧
      ∃ row ∈ grants.scanRef, Restores grants row role grant := by
  have same_roles : (loadFromSystemTables db).roles =
      (grants.scanRef.foldl (loadGrant grants) (roles.scanRef.foldl (loadRole roles) empty)).roles := by
    rw [load_eq role_table grant_table user_table assignment_table,
      foldl_same RbacManager.roles (loadUserRole_roles assignments),foldl_same RbacManager.roles (loadUser_roles users)]
  unfold HasGrant
  rw [same_roles]
  refine (foldl_adds (fun (manager : RbacManager) (item : String × Grant) => manager.HasGrant item.1 item.2)
    (fun manager item => manager.roles.contains item.1 = true) (loadGrant_has grants)
    (fun manager row item => loadGrant_contains grants manager row item.1) grants.scanRef _ (role,grant)).trans ?_
  have none_before : ∀ role grant, ¬ (roles.scanRef.foldl (loadRole roles) empty).HasGrant role grant := by
    refine foldl_kept (fun (manager : RbacManager) => ∀ role grant, ¬ manager.HasGrant role grant) (loadRole_ungranted roles) _ ?_
    rintro role grant ⟨entry,found,_⟩
    cases found
  have known : (roles.scanRef.foldl (loadRole roles) empty).roles.contains role = true ↔
      role ≠ "" ∧ ∃ row ∈ roles.scanRef, roles.strOrEmpty 0 row = role := by
    refine (foldl_adds (fun (manager : RbacManager) role => manager.roles.contains role = true) (fun _ _ => True)
      (loadRole_contains roles) (fun _ _ _ => Iff.rfl) roles.scanRef _ role).trans ?_
    constructor
    · rintro (nothing | ⟨_,row,stored,named,read⟩)
      · cases nothing
      · exact ⟨named,row,stored,read⟩
    · rintro ⟨named,row,stored,read⟩
      exact .inr ⟨trivial,row,stored,named,read⟩
  rw [known]
  constructor
  · rintro (nothing | held)
    · exact absurd nothing (none_before role grant)
    · exact held
  · exact .inr

end Whole
end RbacManager
end RemDb
