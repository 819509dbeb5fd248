import Mathlib.Data.List.Nodup
import RemDb.Databases.Manager

namespace RemDb

-- What the manager is for: some databases, of which one may be the current one.
structure Directory where
  databases : List DatabaseInstance
  current : Option DatabaseInstance

namespace Directory

def empty : Directory := ⟨[],none⟩

def call (max_databases : UInt64) (directory : Directory) : DatabaseCall → Directory
  | .create name _ config =>
    if directory.databases.any (fun db => db.name == name) ∨ directory.databases.length ≥ max_databases.toNat then directory
    else {directory with databases:=directory.databases ++ [DatabaseManager.new_with_name name config]}
  | .use name =>
    match directory.databases.find? fun db => db.name == name with
    | none => directory
    | some db => if DatabaseManager.usable db then {directory with current:=some db} else directory
  | .drop name =>
    { databases:=directory.databases.filter fun db => db.name != name
      current:=directory.current.filter fun db => db.name != name }

-- The call does not drop the database that is current.
def Spares (directory : Directory) (call : DatabaseCall) : Prop :=
  ∀ name db, call = .drop name → directory.current = some db → db.name ≠ name

end Directory

namespace DatabaseManager

def directory (manager : DatabaseManager) : Directory :=
  ⟨manager.databases,manager.current_database.bind fun idx => manager.databases[idx]?⟩

def CurrentValid (manager : DatabaseManager) : Prop :=
  ∀ idx, manager.current_database = some idx → idx < manager.databases.length

structure Sound (manager : DatabaseManager) : Prop where
  names : (manager.databases.map DatabaseInstance.name).Nodup
  current : manager.CurrentValid
  fits : manager.databases.length ≤ manager.max_databases.toNat

theorem new_sound (max_databases : UInt64) : (new max_databases).Sound :=
  ⟨List.nodup_nil,nofun,Nat.zero_le _⟩

section Sound
variable {manager : DatabaseManager} (sound : manager.Sound)
include sound

theorem current_found : manager.get_current_database = some manager.directory.current := by
  cases selected : manager.current_database with
  | none => simp only [get_current_database,directory,selected,Option.bind_none]
  | some idx =>
    have below := sound.current idx selected
    simp only [get_current_database,directory,selected,Option.bind_some,List.getElem?_eq_getElem below,Option.map_some]

theorem current_at {idx : Nat} (selected : manager.current_database = some idx) :
    ∃ db, manager.databases[idx]? = some db ∧ manager.directory.current = some db := by
  have below := sound.current idx selected
  refine ⟨manager.databases[idx],List.getElem?_eq_getElem below,?_⟩
  simp only [directory,selected,Option.bind_some,List.getElem?_eq_getElem below]

end Sound

section Position
variable {name : String} {idx : Nat} {databases : List DatabaseInstance}

theorem position_some (found : position name databases = some idx) :
    ∃ db, databases[idx]? = some db ∧ db.name = name ∧ databases.find? (fun db => db.name == name) = some db := by
  induction databases generalizing idx with
  | nil => cases found
  | cons first rest ih =>
    unfold position at found ih
    rw [List.findIdx?_cons] at found
    cases here : first.name == name with
    | true =>
      rw [here,if_pos rfl] at found
      obtain rfl := Option.some.inj found
      exact ⟨first,rfl,eq_of_beq here,List.find?_cons_of_pos here⟩
    | false =>
      rw [here,if_neg Bool.false_ne_true] at found
      obtain ⟨before,later,rfl⟩ := Option.map_eq_some_iff.mp found
      obtain ⟨db,at_idx,named,first_found⟩ := ih later
      refine ⟨db,at_idx,named,?_⟩
      rw [List.find?_cons_of_neg (by rw [here]; exact Bool.false_ne_true)]
      exact first_found

theorem position_none (missing : position name databases = none) : ∀ db ∈ databases, db.name ≠ name := by
  intro db member
  have other := List.findIdx?_eq_none_iff.mp missing db member
  exact fun same => by simp [same] at other

theorem erase_position (names : (databases.map DatabaseInstance.name).Nodup) (found : position name databases = some idx) :
    databases.eraseIdx idx = databases.filter fun db => db.name != name := by
  induction databases generalizing idx with
  | nil => cases found
  | cons first rest ih =>
    obtain ⟨apart,rest_names⟩ := List.nodup_cons.mp names
    unfold position at found ih
    rw [List.findIdx?_cons] at found
    cases here : first.name == name with
    | true =>
      rw [here,if_pos rfl] at found
      obtain rfl := Option.some.inj found
      have kept : rest.filter (fun db => db.name != name) = rest := by
        apply List.filter_eq_self.mpr
        intro db member
        apply bne_iff_ne.mpr
        intro same
        apply apart
        rw [eq_of_beq here,← same]
        exact List.mem_map_of_mem member
      rw [List.eraseIdx_cons_zero,List.filter_cons_of_neg (by simp [eq_of_beq here]),kept]
    | false =>
      rw [here,if_neg Bool.false_ne_true] at found
      obtain ⟨before,later,rfl⟩ := Option.map_eq_some_iff.mp found
      rw [List.eraseIdx_cons_succ,ih rest_names later,List.filter_cons_of_pos (by simp [bne,here])]

theorem position_unique (names : (databases.map DatabaseInstance.name).Nodup) (found : position name databases = some idx)
    {place : Nat} {db : DatabaseInstance} (at_place : databases[place]? = some db) (named : db.name = name) : place = idx := by
  obtain ⟨other,at_idx,same,_⟩ := position_some found
  obtain ⟨below,rfl⟩ := List.getElem?_eq_some_iff.mp at_place
  obtain ⟨below',rfl⟩ := List.getElem?_eq_some_iff.mp at_idx
  have inside : place < (databases.map DatabaseInstance.name).length := by rw [List.length_map]; exact below
  have inside' : idx < (databases.map DatabaseInstance.name).length := by rw [List.length_map]; exact below'
  have equal : (databases.map DatabaseInstance.name)[place] = (databases.map DatabaseInstance.name)[idx] := by
    rw [List.getElem_map,List.getElem_map,named,same]
  exact (List.Nodup.getElem_inj_iff names).mp equal

end Position

-- The manager does what the directory does, in both builds.
structure Follows (manager : DatabaseManager) (call : DatabaseCall) (next : DatabaseManager) : Prop where
  released : manager.call wrapping call = some next
  unwrapped : manager.call checked call = some next
  sound : next.Sound
  same : next.directory = manager.directory.call manager.max_databases call
  room : next.max_databases = manager.max_databases

theorem spared_current {directory : Directory} {name : String} (spares : directory.Spares (.drop name)) :
    directory.current.filter (fun db => db.name != name) = directory.current := by
  cases now : directory.current with
  | none => rfl
  | some db => rw [Option.filter_some,if_pos (bne_iff_ne.mpr (spares name db rfl now))]

section Steps
variable {manager : DatabaseManager} (sound : manager.Sound)
include sound

theorem create_follows (name schema : String) (config : Option DatabaseConfig) :
    ∃ next, Follows manager (.create name schema config) next := by
  by_cases refused : manager.databases.any (fun db => db.name == name) = true ∨
      manager.databases.length ≥ manager.max_databases.toNat
  · have unchanged : (manager.create_database name schema config).2 = manager := by
      rcases refused with there | full
      · simp only [create_database,if_pos there]
      · unfold create_database
        split
        · rfl
        · rfl
    refine ⟨manager,?_,?_,sound,?_,rfl⟩
    · simp only [call,unchanged]
    · simp only [call,unchanged]
    · exact (if_pos refused).symm
  · obtain ⟨absent,free⟩ := not_or.mp refused
    have pushed : (manager.create_database name schema config).2 =
        {manager with databases:=manager.databases ++ [new_with_name name config]} := by
      simp only [create_database,if_neg absent,if_neg free]
    refine ⟨_,congrArg some pushed,congrArg some pushed,⟨?_,?_,?_⟩,?_,rfl⟩
    · rw [List.map_append,List.nodup_append]
      refine ⟨sound.names,List.nodup_singleton _,?_⟩
      intro old listed new last same
      obtain ⟨db,member,rfl⟩ := List.mem_map.mp listed
      apply absent
      rw [List.mem_singleton.mp last] at same
      exact List.any_eq_true.mpr ⟨db,member,beq_iff_eq.mpr same⟩
    · intro idx selected
      have below := sound.current idx selected
      rw [List.length_append]
      exact Nat.lt_add_right _ below
    · rw [List.length_append]
      exact Nat.lt_of_not_le free
    · refine Eq.trans ?_ (if_neg refused).symm
      cases selected : manager.current_database with
      | none => simp only [directory,selected,Option.bind_none]
      | some idx =>
        simp only [directory,selected,Option.bind_some,List.getElem?_append_left (sound.current idx selected)]

theorem use_follows (name : String) : ∃ next, Follows manager (.use name) next := by
  cases found : position name manager.databases with
  | none =>
    have missing : manager.databases.find? (fun db => db.name == name) = none := by
      apply List.find?_eq_none.mpr
      intro db member same
      exact position_none found db member (eq_of_beq same)
    refine ⟨manager,?_,?_,sound,?_,rfl⟩
    · simp only [call,use_database,found]
    · simp only [call,use_database,found]
    · simp only [Directory.call,directory,missing]
  | some idx =>
    obtain ⟨db,at_idx,_,first⟩ := position_some found
    by_cases ready : usable db = true
    · refine ⟨{manager with current_database:=some idx},?_,?_,⟨sound.names,?_,sound.fits⟩,?_,rfl⟩
      · simp only [call,use_database,found,at_idx,Option.any_some,if_pos ready]
      · simp only [call,use_database,found,at_idx,Option.any_some,if_pos ready]
      · intro place selected
        obtain rfl := Option.some.inj selected
        exact (List.getElem?_eq_some_iff.mp at_idx).1
      · simp only [Directory.call,directory,first,if_pos ready,Option.bind_some,at_idx]
    · refine ⟨manager,?_,?_,sound,?_,rfl⟩
      · simp only [call,use_database,found,at_idx,Option.any_some,if_neg ready]
      · simp only [call,use_database,found,at_idx,Option.any_some,if_neg ready]
      · simp only [Directory.call,directory,first,if_neg ready]

theorem drop_follows (name : String) (spares : manager.directory.Spares (.drop name)) :
    ∃ next, Follows manager (.drop name) next := by
  cases found : position name manager.databases with
  | none =>
    have every : manager.databases.filter (fun db => db.name != name) = manager.databases :=
      List.filter_eq_self.mpr fun db member => bne_iff_ne.mpr (position_none found db member)
    refine ⟨manager,?_,?_,sound,?_,rfl⟩
    · simp only [call,drop_database,found,Option.map_some]
    · simp only [call,drop_database,found,Option.map_some]
    · have kept := spared_current spares
      simp only [Directory.call,kept]
      simp only [directory,every]
  | some idx =>
    have erased := erase_position sound.names found
    have names : ((manager.databases.eraseIdx idx).map DatabaseInstance.name).Nodup := by
      rw [erased]
      exact sound.names.sublist (List.filter_sublist.map _)
    have fits := Nat.le_trans (List.eraseIdx_sublist manager.databases idx).length_le sound.fits
    cases selected : manager.current_database with
    | none =>
      refine ⟨{manager with databases:=manager.databases.eraseIdx idx},?_,?_,⟨names,?_,fits⟩,?_,rfl⟩
      · simp only [call,drop_database,found,selected,Option.map_some]
      · simp only [call,drop_database,found,selected,Option.map_some]
      · intro place chosen
        rw [selected] at chosen
        cases chosen
      · simp only [Directory.call,directory,selected,Option.bind_none,Option.filter_none,erased]
    | some current =>
      obtain ⟨db,at_current,now⟩ := current_at sound selected
      have other := spares name db rfl now
      have stays : (some db).filter (fun db => db.name != name) = some db := by
        rw [Option.filter_some,if_pos (bne_iff_ne.mpr other)]
      have apart : current ≠ idx := by
        rintro rfl
        obtain ⟨same,at_idx,named,_⟩ := position_some found
        rw [at_current] at at_idx
        exact other (Option.some.inj at_idx ▸ named)
      have below := sound.current current selected
      by_cases behind : current ≥ idx
      · have positive : 1 ≤ current := by omega
        have moved : (manager.databases.eraseIdx idx)[current-1]? = some db := by
          rw [List.getElem?_eraseIdx,if_neg (by omega),Nat.sub_add_cancel positive,at_current]
        refine ⟨{manager with databases:=manager.databases.eraseIdx idx,current_database:=some (current-1)},
          ?_,?_,⟨names,?_,fits⟩,?_,rfl⟩
        · have exact_sub : usizeSub current 1 = current-1 := by
            apply usizeSub_of_le _ positive
            have small := manager.max_databases.toNat_lt
            have room := sound.fits
            unfold usizeLimit
            omega
          simp only [call,drop_database,found,selected,if_pos behind,wrapping,exact_sub]
          rfl
        · simp only [call,drop_database,found,selected,if_pos behind,checked,if_pos positive]
          rfl
        · intro place chosen
          obtain rfl := Option.some.inj chosen
          exact (List.getElem?_eq_some_iff.mp moved).1
        · simp only [Directory.call,now,stays]
          simp only [directory,Option.bind_some,moved]
          rw [erased]
      · have kept : (manager.databases.eraseIdx idx)[current]? = some db := by
          rw [List.getElem?_eraseIdx,if_pos (by omega),at_current]
        refine ⟨{manager with databases:=manager.databases.eraseIdx idx},?_,?_,⟨names,?_,fits⟩,?_,rfl⟩
        · simp only [call,drop_database,found,selected,if_neg behind,Option.map_some]
        · simp only [call,drop_database,found,selected,if_neg behind,Option.map_some]
        · intro place chosen
          rw [selected] at chosen
          obtain rfl := Option.some.inj chosen
          exact (List.getElem?_eq_some_iff.mp kept).1
        · simp only [Directory.call,now,stays]
          simp only [directory,selected,Option.bind_some,kept]
          rw [erased]

theorem call_follows {call : DatabaseCall} (spares : manager.directory.Spares call) :
    ∃ next, Follows manager call next := by
  cases call with
  | create name schema config => exact create_follows sound name schema config
  | use name => exact use_follows sound name
  | drop name => exact drop_follows sound name spares

-- Where the current database is the first, the subtraction underflows; anywhere
-- else the one in front of it becomes current.
theorem drop_current_stays {name : String} {db : DatabaseInstance} (now : manager.directory.current = some db)
    (named : db.name = name) {next : DatabaseManager} (done : manager.call checked (.drop name) = some next) :
    ∃ other, next.get_current_database = some (some other) := by
  cases selected : manager.current_database with
  | none =>
    simp only [directory,selected,Option.bind_none] at now
    cases now
  | some current =>
    obtain ⟨same,at_current,chosen⟩ := current_at sound selected
    obtain rfl := Option.some.inj (chosen.symm.trans now)
    cases found : position name manager.databases with
    | none => exact absurd named (position_none found same (List.mem_of_getElem? at_current))
    | some idx =>
      obtain rfl := position_unique sound.names found at_current named
      simp only [call,drop_database,found,selected,if_pos (Nat.le_refl current),checked] at done
      by_cases positive : 1 ≤ current
      · rw [if_pos positive] at done
        obtain rfl := Option.some.inj done
        have below := sound.current current selected
        have inside : current-1 < (manager.databases.eraseIdx current).length := by
          rw [List.length_eraseIdx_of_lt below]
          omega
        refine ⟨(manager.databases.eraseIdx current)[current-1],?_⟩
        simp only [get_current_database,List.getElem?_eq_getElem inside,Option.map_some]
      · rw [if_neg positive] at done
        cases done

end Steps

-- What is promised of a sequence of calls: both builds go through, no
-- subtraction wraps, and a drop takes away the current database only where it is
-- the one that is dropped.
def Stable (manager : DatabaseManager) : List DatabaseCall → Prop
  | [] => manager.CurrentValid
  | call :: rest => manager.CurrentValid ∧ ∃ next,
      manager.call checked call = some next ∧ manager.call wrapping call = some next ∧
      (∀ name, call = .drop name → ∃ current, manager.get_current_database = some current ∧
        next.get_current_database = some (current.filter fun db => db.name != name)) ∧
      next.Stable rest

theorem stable_iff {manager : DatabaseManager} (sound : manager.Sound) (calls : List DatabaseCall) :
    manager.Stable calls ↔ ∀ before call after, calls = before ++ call :: after →
      (before.foldl (Directory.call manager.max_databases) manager.directory).Spares call := by
  induction calls generalizing manager with
  | nil =>
    constructor
    · intro _ before call after split
      cases before <;> cases split
    · intro _
      exact sound.current
  | cons call rest ih =>
    constructor
    · intro ⟨_,next,unwrapped,_,dropped,stable⟩
      have spares : manager.directory.Spares call := by
        rintro name db rfl now named
        obtain ⟨current,before,after⟩ := dropped name rfl
        rw [current_found sound,now] at before
        obtain rfl := Option.some.inj before
        obtain ⟨other,stays⟩ := drop_current_stays sound now named unwrapped
        rw [stays,Option.filter_some,if_neg (by simp [named])] at after
        cases after
      obtain ⟨reached,follows⟩ := call_follows sound spares
      obtain rfl := Option.some.inj (unwrapped.symm.trans follows.unwrapped)
      have later := (ih follows.sound).mp stable
      rw [follows.room,follows.same] at later
      intro before other after split
      cases before with
      | nil =>
        obtain ⟨rfl,_⟩ := List.cons.inj split
        exact spares
      | cons first before =>
        obtain ⟨rfl,behind⟩ := List.cons.inj split
        exact later before other after behind
    · intro every
      obtain ⟨next,follows⟩ := call_follows sound (every [] call rest rfl)
      refine ⟨sound.current,next,follows.unwrapped,follows.released,?_,?_⟩
      · rintro name rfl
        refine ⟨_,current_found sound,?_⟩
        rw [current_found follows.sound,follows.same]
        rfl
      · rw [ih follows.sound,follows.room,follows.same]
        exact fun before other after split => every (call :: before) other after (congrArg (call :: ·) split)

-- The current database is what it should be through any calls exactly when none
-- of them drops it.
theorem current_stable_iff (max_databases : UInt64) (calls : List DatabaseCall) :
    (new max_databases).Stable calls ↔ ∀ before call after, calls = before ++ call :: after →
      (before.foldl (Directory.call max_databases) Directory.empty).Spares call :=
  stable_iff (new_sound max_databases) calls

def dropFirst : List DatabaseCall := [.create "a" "" none,.create "b" "" none,.use "a",.drop "a"]

def dropSecond : List DatabaseCall := [.create "a" "" none,.create "b" "" none,.use "b",.drop "b"]

theorem dropped_current_strays :
    (((dropFirst.foldlM (DatabaseManager.call checked) (new 10)).isNone = true ∧
      ((dropFirst.foldlM (DatabaseManager.call wrapping) (new 10)).map current_database) = some (some (2^64-1))) ∧
      ((dropSecond.foldlM (DatabaseManager.call checked) (new 10)).bind get_current_database).map (·.map DatabaseInstance.name) =
        some (some "a")) ∧
      ¬ ∀ (max_databases : UInt64) (calls : List DatabaseCall), (new max_databases).Stable calls := by
  refine ⟨by decide,?_⟩
  intro every
  obtain ⟨_,_,first,_,_,_,_,second,_,_,_,_,third,_,_,_,_,fourth,_⟩ := every 10 dropFirst
  cases first
  cases second
  cases third
  cases fourth

end DatabaseManager
end RemDb
