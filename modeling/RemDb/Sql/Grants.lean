import RemDb.Sql.Access
import RemDb.Sql.Encoding

namespace RemDb
open RemDb.Lib

namespace SqlParser

-- The four statements leave the column definitions empty.
theorem parsePermissionQuery_ensures (query_type : QueryType) (preposition : String) :
    Ensures (fun query => query.query_type = query_type ∧ query.table_def = [])
      (parsePermissionQuery query_type preposition) := by
  refine ensures_bind _ fun _ => ensures_bind _ fun _ => ensures_bind _ fun _ => ensures_bind _ fun _ => ?_
  refine ensures_bind _ fun _ => ensures_bind _ fun _ => ensures_bind _ fun _ => ensures_bind _ fun _ => ?_
  refine ensures_bind _ fun _ => ensures_bind _ fun _ => ?_
  exact ensures_pure ⟨rfl,rfl⟩

theorem parseRoleQuery_ensures (query_type : QueryType) (preposition : String) :
    Ensures (fun query => query.query_type = query_type ∧ query.table_def = [])
      (parseRoleQuery query_type preposition) := by
  refine ensures_bind _ fun _ => ensures_bind _ fun _ => ensures_bind _ fun _ => ensures_bind _ fun _ => ?_
  refine ensures_bind _ fun _ => ensures_bind _ fun _ => ?_
  exact ensures_pure ⟨rfl,rfl⟩

-- The statement types that a text with one of the two keywords can have.
def grants : List QueryType := [.grantPermission,.grantRole,.revokePermission,.revokeRole]

theorem parseStatement_ensures (others : QueryType → Parse AccessQuery) (among : query_type ∈ grants) :
    Ensures (fun query => query.query_type ∈ grants ∧ query.table_def = []) (parseStatement others query_type) := by
  intro parser query after ran
  have kept : query.query_type = query_type ∧ query.table_def = [] := by
    cases query_type
    case grantPermission => exact parsePermissionQuery_ensures _ _ _ _ _ ran
    case revokePermission => exact parsePermissionQuery_ensures _ _ _ _ _ ran
    case grantRole => exact parseRoleQuery_ensures _ _ _ _ _ ran
    case revokeRole => exact parseRoleQuery_ensures _ _ _ _ _ ran
    all_goals exact absurd among (by decide)
  exact ⟨kept.1 ▸ among,kept.2⟩

theorem either_type (parser : SqlParser) (keyword : String) (first second : QueryType) (types : List QueryType)
    (one : first ∈ types) (other : second ∈ types) :
    ∃ query_type after, (do
      skipWhitespace
      if ← matchKeyword keyword then pure first else pure second : Parse QueryType).run parser =
        .ok query_type after ∧ query_type ∈ types := by
  have skipped : skipWhitespace.run parser =
    .ok () (parser.advance (parser.rest.takeWhile isWhitespace).length) := rfl
  rw [run_bind_of_ok skipped]
  cases found : keywordAt (utf8 keyword) (parser.advance (parser.rest.takeWhile isWhitespace).length).rest with
  | false => exact ⟨second,_,without_keyword keyword found _ _,other⟩
  | true => exact ⟨first,_,with_keyword keyword found _ _,one⟩

theorem grant_type {parser : SqlParser} {more : Bytes} (text : parser.rest = utf8 "GRANT " ++ more) :
    ∃ query_type after, parseQueryType.run parser = .ok query_type after ∧ query_type ∈ grants := by
  have other {keyword : String} {letter : UInt8} {others : Bytes} (starts : utf8 keyword = letter :: others)
      (different : lower 71 ≠ lower letter) : keywordAt (utf8 keyword) parser.rest = false := by
    rw [text]
    exact keywordAt_other_letter starts different _
  have found : keywordAt (utf8 "GRANT") parser.rest = true := by
    rw [text]
    rfl
  unfold parseQueryType
  rw [without_keyword "SELECT" (other rfl (by decide)),without_keyword "INSERT" (other rfl (by decide)),
    without_keyword "UPDATE" (other rfl (by decide)),without_keyword "DELETE" (other rfl (by decide)),
    without_keyword "DESCRIBE" (other rfl (by decide)),without_keyword "CREATE" (other rfl (by decide)),
    without_keyword "ALTER" (other rfl (by decide)),without_keyword "DROP" (other rfl (by decide)),
    with_keyword "GRANT" found]
  exact either_type _ _ _ _ _ (by decide) (by decide)

theorem revoke_type {parser : SqlParser} {more : Bytes} (text : parser.rest = utf8 "REVOKE " ++ more) :
    ∃ query_type after, parseQueryType.run parser = .ok query_type after ∧ query_type ∈ grants := by
  have other {keyword : String} {letter : UInt8} {others : Bytes} (starts : utf8 keyword = letter :: others)
      (different : lower 82 ≠ lower letter) : keywordAt (utf8 keyword) parser.rest = false := by
    rw [text]
    exact keywordAt_other_letter starts different _
  have found : keywordAt (utf8 "REVOKE") parser.rest = true := by
    rw [text]
    rfl
  unfold parseQueryType
  rw [without_keyword "SELECT" (other rfl (by decide)),without_keyword "INSERT" (other rfl (by decide)),
    without_keyword "UPDATE" (other rfl (by decide)),without_keyword "DELETE" (other rfl (by decide)),
    without_keyword "DESCRIBE" (other rfl (by decide)),without_keyword "CREATE" (other rfl (by decide)),
    without_keyword "ALTER" (other rfl (by decide)),without_keyword "DROP" (other rfl (by decide)),
    without_keyword "GRANT" (other rfl (by decide)),with_keyword "REVOKE" found]
  exact either_type _ _ _ _ _ (by decide) (by decide)

theorem parse_grants (others : QueryType → Parse AccessQuery) {text : String}
    (starts : (∃ more, utf8 text = utf8 "GRANT " ++ more) ∨ ∃ more, utf8 text = utf8 "REVOKE " ++ more)
    (parsed : (parse others).run (.new text) = .ok query after) : query.query_type ∈ grants ∧ query.table_def = [] := by
  have standing : skipWhitespace.run (.new text) = .ok () (.new text) := by
    rcases starts with ⟨more,starts⟩ | ⟨more,starts⟩
    · exact skipWhitespace_none (by exact starts) (by decide)
    · exact skipWhitespace_none (by exact starts) (by decide)
  have typed : ∃ query_type middle, parseQueryType.run (.new text) = .ok query_type middle ∧ query_type ∈ grants := by
    rcases starts with ⟨more,starts⟩ | ⟨more,starts⟩
    · exact grant_type starts
    · exact revoke_type starts
  obtain ⟨query_type,middle,typed,among⟩ := typed
  rw [parse,run_bind_of_ok standing,run_bind_of_ok typed] at parsed
  obtain ⟨result,behind,statement,finished⟩ := run_bind_ok parsed
  have same : result = query := by
    obtain ⟨_,_,_,finished⟩ := run_bind_ok finished
    obtain ⟨_,_,_,finished⟩ := run_bind_ok finished
    cases finished
    rfl
  rw [← same]
  exact parseStatement_ensures others among _ _ _ statement

end SqlParser

-- The four forms; the word ROLE may be left out.
inductive AccessStatement where
  | grantPermission (permissions : List Permission) (table role : String)
  | revokePermission (permissions : List Permission) (table role : String)
  | grantRole (keyword : Bool) (role user : String)
  | revokeRole (keyword : Bool) (role user : String)
deriving DecidableEq,Repr

namespace AccessStatement

def names (permissions : List Permission) : String := ", ".intercalate (permissions.map Permission.toText)
def roleWord (keyword : Bool) : String := if keyword then "ROLE " else ""

def text : AccessStatement → String
  | .grantPermission permissions table role => "GRANT " ++ (names permissions ++ " ON " ++ table ++ " TO " ++ role)
  | .revokePermission permissions table role =>
    "REVOKE " ++ (names permissions ++ " ON " ++ table ++ " FROM " ++ role)
  | .grantRole keyword role user => "GRANT " ++ (roleWord keyword ++ role ++ " TO " ++ user)
  | .revokeRole keyword role user => "REVOKE " ++ (roleWord keyword ++ role ++ " FROM " ++ user)

def meant (manager : RbacManager) : AccessStatement → Except RbacError RbacManager
  | .grantPermission permissions table role =>
    permissions.foldlM (fun manager permission => manager.grantPermission role permission (some table) none) manager
  | .revokePermission permissions table role =>
    permissions.foldlM (fun manager permission => manager.revokePermission role permission (some table) none) manager
  | .grantRole _ role user => manager.grantRole user role
  | .revokeRole _ role user => manager.revokeRole user role

theorem text_starts (statement : AccessStatement) :
    (∃ more, utf8 statement.text = utf8 "GRANT " ++ more) ∨ ∃ more, utf8 statement.text = utf8 "REVOKE " ++ more := by
  cases statement with
  | grantPermission => exact .inl ⟨_,utf8_append _ _⟩
  | revokePermission => exact .inr ⟨_,utf8_append _ _⟩
  | grantRole => exact .inl ⟨_,utf8_append _ _⟩
  | revokeRole => exact .inr ⟨_,utf8_append _ _⟩

end AccessStatement

-- The statement is executed, and the manager comes out as it should.
def TakesEffect (others : OtherStatements) (hashing : Hashing) (now : UInt64) (state : RbacDb)
    (statement : AccessStatement) : Prop :=
  ∃ after manager, sqlQuery others hashing now state statement.text = (.ok (),after) ∧
    statement.meant state.rbac_manager = .ok manager ∧
    (∀ role, after.rbac_manager.roles.get role = manager.roles.get role) ∧
    ∀ user, after.rbac_manager.users.get user = manager.users.get user

theorem executeQuery_refused (others : RbacDb → AccessQuery → Except QueryExecutionError Unit × RbacDb)
    (hashing : Hashing) (now : UInt64) (state : RbacDb) {query : AccessQuery}
    (among : query.query_type ∈ SqlParser.grants) (empty : query.table_def = []) :
    state.executeQuery others hashing now query = (.error .internalError,state) := by
  unfold RbacDb.executeQuery
  rw [empty]
  cases kind : query.query_type
  case grantPermission => rfl
  case grantRole => rfl
  case revokePermission => rfl
  case revokeRole => rfl
  all_goals exact absurd (kind ▸ among) (by decide)

theorem sqlQuery_refused (others : OtherStatements) (hashing : Hashing) (now : UInt64) (state : RbacDb)
    (statement : AccessStatement) :
    ∃ failure, sqlQuery others hashing now state statement.text = (.error failure,state) := by
  unfold sqlQuery
  cases parsed : (SqlParser.parse others.parse).run (.new statement.text) with
  | error fault _ => exact ⟨_,rfl⟩
  | ok query _ =>
    obtain ⟨among,empty⟩ := SqlParser.parse_grants others.parse statement.text_starts parsed
    dsimp only
    rw [executeQuery_refused others.execute hashing now state among empty]
    exact ⟨_,rfl⟩

-- No GRANT and no REVOKE is ever executed: each fails and changes nothing.
theorem grants_without_effect (others : OtherStatements) (hashing : Hashing) (now : UInt64) (state : RbacDb)
    (statement : AccessStatement) : ¬ TakesEffect others hashing now state statement ∧
      (sqlQuery others hashing now state statement.text).2 = state := by
  obtain ⟨failure,refused⟩ := sqlQuery_refused others hashing now state statement
  constructor
  · rintro ⟨after,manager,executed,_⟩
    cases refused.symm.trans executed
  · rw [refused]

def noOthers : OtherStatements := ⟨fun _ => reject .invalidSyntax,fun state _ => (.error .internalError,state)⟩
def freshAccess : RbacDb := ⟨.new,⟨[]⟩,MemoryTable.noTx⟩

-- The role and the table are there, the text is read without error, and still
-- the grant fails.
theorem select_not_granted :
    ∃ statement, statement = AccessStatement.grantPermission [.select] "t" "admin" ∧
      freshAccess.rbac_manager.roles.contains "admin" = true ∧
      sqlQuery noOthers .inOrder 0 freshAccess statement.text = (.error (.execution .internalError),freshAccess) ∧
      ¬ TakesEffect noOthers .inOrder 0 freshAccess statement := by
  have parsed : (returned ((SqlParser.parse noOthers.parse).run
      (.new (AccessStatement.grantPermission [.select] "t" "admin").text))).any
        (fun query => decide (query.query_type ∈ SqlParser.grants) && query.table_def.isEmpty) = true := by
    decide +kernel
  obtain ⟨query,found,facts⟩ := (Option.any_eq_true _ _).mp parsed
  have facts := Bool.and_eq_true_iff.mp facts
  have executed : sqlQuery noOthers .inOrder 0 freshAccess
      (AccessStatement.grantPermission [.select] "t" "admin").text =
        (.error (.execution .internalError),freshAccess) := by
    unfold sqlQuery
    rw [ok_of_returned found]
    dsimp only
    rw [executeQuery_refused noOthers.execute .inOrder 0 freshAccess (of_decide_eq_true facts.1)
      (List.isEmpty_iff.mp facts.2)]
  refine ⟨_,rfl,by decide +kernel,executed,?_⟩
  rintro ⟨after,manager,granted,_⟩
  cases executed.symm.trans granted

end RemDb
