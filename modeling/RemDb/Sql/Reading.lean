import RemDb.Sql.Conditions
import RemDb.Sql.Precedence

namespace RemDb
open RemDb.Lib

namespace SqlParser

section Steps
variable {parser : SqlParser}

theorem skipWhitespace_end (standing : parser.rest = []) : skipWhitespace.run parser = .ok () parser := by
  change EStateM.Result.ok () (parser.advance (parser.rest.takeWhile isWhitespace).length) = _
  rw [standing]
  rfl

theorem skipWhitespace_blank {rest : Bytes} (standing : parser.rest = 32 :: rest) :
    skipWhitespace.run parser = skipWhitespace.run (parser.advance 1) := by
  change EStateM.Result.ok () (parser.advance (parser.rest.takeWhile isWhitespace).length) =
    .ok () ((parser.advance 1).advance ((parser.advance 1).rest.takeWhile isWhitespace).length)
  have blank : isWhitespace 32 = true := by decide
  rw [rest_advance,standing,advance_advance,List.takeWhile_cons,if_pos blank,List.length_cons,Nat.add_comm]
  rfl

theorem rest_after {text after : Bytes} (standing : parser.rest = text ++ after) :
    (parser.advance text.length).rest = after := by
  rw [rest_advance,standing,List.drop_left]

theorem rest_next {after : Bytes} (standing : parser.rest = byte :: after) : (parser.advance 1).rest = after := by
  rw [rest_advance,standing]
  rfl

theorem skipWhitespace_one {first : UInt8} {rest : Bytes} (standing : parser.rest = 32 :: first :: rest)
    (solid : isWhitespace first = false) : skipWhitespace.run parser = .ok () (parser.advance 1) :=
  (skipWhitespace_blank standing).trans (skipWhitespace_none (rest_next standing) solid)

theorem matchChar_found (standing : parser.rest.head? = some byte) :
    (matchChar byte).run parser = .ok true (parser.advance 1) := by
  unfold matchChar
  rw [EStateM.run_bind,EStateM.run_get]
  simp only [standing]
  rfl

theorem matchChar_refused (other : parser.rest.head? ≠ some byte) :
    (matchChar byte).run parser = .ok false parser := by
  unfold matchChar
  rw [EStateM.run_bind,EStateM.run_get]
  simp only [other]
  rfl

end Steps

-- What can stand behind a whole condition, and behind an operand.
def Closed (after : Bytes) : Prop := after = [] ∨ ∃ more, after = 41 :: more

def connectiveWord : Connective → String
  | .and => "AND"
  | .or => "OR"

def Ends (after : Bytes) : Prop :=
  Closed after ∨ ∃ connective more, after = 32 :: (utf8 (connectiveWord connective) ++ 32 :: more)

end SqlParser

-- A comparison that the parser reads by itself: its text, what it is read as,
-- and that nothing else can begin where it begins.
structure Comparison (texts : DebugTexts) where
  text : Bytes
  condition : Condition
  single : condition.leaves = [condition]
  starts : ∃ first rest, text = first :: rest ∧ SqlParser.isWhitespace first = false ∧ first ≠ 40
  plain : ∀ after, SqlParser.Ends after → SqlParser.keywordAt (utf8 "NOT") (text ++ after) = false
  reads : ∀ parser after, SqlParser.rest parser = text ++ after → SqlParser.Ends after →
    (SqlParser.parseAtomicCondition texts).run parser = .ok condition (parser.advance text.length)

section Printing
variable {texts : DebugTexts}

def notWords (count : Nat) : Bytes := (List.replicate count (utf8 "NOT ")).flatten

mutual
def Operand.printed : Operand (Comparison texts) → Bytes
  | .atom atom => atom.text
  | .paren inner => 40 :: (inner.printed ++ [41])
def Conjunction.printed : Conjunction (Comparison texts) → Bytes
  | .one count operand => notWords count ++ operand.printed
  | .and count operand rest => notWords count ++ (operand.printed ++ (utf8 " AND " ++ rest.printed))
def Disjunction.printed : Disjunction (Comparison texts) → Bytes
  | .one first => first.printed
  | .or first rest => first.printed ++ (utf8 " OR " ++ rest.printed)
end

end Printing

namespace SqlParser
variable {texts : DebugTexts} {parser : SqlParser}

theorem where_blank {rest : Bytes} (standing : parser.rest = 32 :: rest) (fuel : Nat) :
    (parseWhereCondition texts (fuel+1)).run parser = (parseWhereCondition texts (fuel+1)).run (parser.advance 1) := by
  unfold parseWhereCondition
  rw [EStateM.run_bind,EStateM.run_bind,skipWhitespace_blank standing]

-- A text that is read as a condition to its end, wherever it stands, with
-- enough rounds.
def ReadsWhere (texts : DebugTexts) (text : Bytes) (condition : Condition) : Prop :=
  ∀ parser after fuel, parser.rest = text ++ after → Closed after → text.length+3 ≤ fuel →
    (parseWhereCondition texts fuel).run parser = .ok condition (parser.advance text.length)

def TailReads (texts : DebugTexts) (tail : Bytes) : Pending → Prop
  | none => tail = []
  | some (connective,right) => ∃ text, tail = 32 :: (utf8 (connectiveWord connective) ++ 32 :: text) ∧ ReadsWhere texts text right

theorem closed_solid (closed : Closed parser.rest) : skipWhitespace.run parser = .ok () parser := by
  rcases closed with standing | ⟨more,standing⟩
  · exact skipWhitespace_end standing
  · exact skipWhitespace_none standing (by decide)

theorem closed_keyword (closed : Closed after) (connective : Connective) :
    keywordAt (utf8 (connectiveWord connective)) after = false := by
  rcases closed with rfl | ⟨more,rfl⟩
  · cases connective <;> decide
  · cases connective
    · exact keywordAt_other_letter (show _ = 65 :: [78,68] by decide) (by decide) _
    · exact keywordAt_other_letter (show _ = 79 :: [82] by decide) (by decide) _

theorem connected_closed (closed : Closed parser.rest) (fuel : Nat) (condition : Condition) :
    (parseConnected texts (fuel+1) condition).run parser = .ok condition parser := by
  unfold parseConnected
  rw [run_bind_of_ok (closed_solid closed),without_keyword "AND" (closed_keyword closed .and),
    without_keyword "OR" (closed_keyword closed .or)]
  rfl

theorem keyword_length (connective : Connective) : 2 ≤ (utf8 (connectiveWord connective)).length := by
  cases connective <;> decide

theorem keyword_blank (connective : Connective) (more : Bytes) :
    keywordAt (utf8 (connectiveWord connective)) (utf8 (connectiveWord connective) ++ 32 :: more) = true := by
  cases connective <;> rfl

-- The condition behind a connective, and then nothing more.
theorem right_reads {connective : Connective} {text after : Bytes} {right : Condition} {fuel : Nat}
    (standing : parser.rest = utf8 (connectiveWord connective) ++ (32 :: (text ++ after))) (closed : Closed after)
    (reads : ReadsWhere texts text right) (enough : text.length+3 ≤ fuel) (condition : Condition) :
    (do
      let right ← parseWhereCondition texts fuel
      parseConnected texts fuel (connective.join condition right) : Parse Condition).run
        (parser.advance (utf8 (connectiveWord connective)).length) =
      .ok (connective.join condition right) (parser.advance ((utf8 (connectiveWord connective)).length+1+text.length)) := by
  obtain ⟨fuel,rfl⟩ : ∃ rounds, fuel = rounds+1 := ⟨fuel-1,by omega⟩
  have blank := rest_after standing
  have behind := rest_next blank
  have read := (where_blank blank fuel).trans (reads _ after (fuel+1) behind closed enough)
  rw [run_bind_of_ok read]
  have last := rest_after behind
  rw [connected_closed (by rw [last]; exact closed),advance_advance,advance_advance,Nat.add_assoc]

theorem connected_reads {tail after : Bytes} {pending : Pending} (standing : parser.rest = tail ++ after)
    (closed : Closed after) (reads : TailReads texts tail pending) (enough : tail.length+1 ≤ fuel) (condition : Condition) :
    (parseConnected texts fuel condition).run parser = .ok (connected condition pending) (parser.advance tail.length) := by
  obtain ⟨fuel,rfl⟩ : ∃ rounds, fuel = rounds+1 := ⟨fuel-1,by omega⟩
  cases pending with
  | none =>
    have none_left : tail = [] := reads
    subst none_left
    exact connected_closed (by rw [standing]; exact closed) fuel condition
  | some pending =>
    obtain ⟨connective,right⟩ := pending
    obtain ⟨text,rfl,reads⟩ := reads
    have blank : parser.rest = 32 :: (utf8 (connectiveWord connective) ++ (32 :: (text ++ after))) := by
      rw [standing,List.cons_append,List.append_assoc,List.cons_append]
    have here := rest_next blank
    have room : text.length+3 ≤ fuel := by
      have word := keyword_length connective
      simp only [List.length_cons,List.length_append] at enough
      omega
    have read := right_reads here closed reads room condition
    rw [advance_advance _ 1 (_+1+_)] at read
    have total : 1+((utf8 (connectiveWord connective)).length+1+text.length) =
        (32 :: (utf8 (connectiveWord connective) ++ 32 :: text)).length := by
      simp only [List.length_cons,List.length_append]
      omega
    rw [total] at read
    unfold parseConnected
    cases connective with
    | and =>
      have solid : parser.rest = 32 :: 65 :: ([78,68] ++ 32 :: (text ++ after)) := blank
      rw [run_bind_of_ok (skipWhitespace_one solid (by decide)),
        with_keyword "AND" (by rw [here]; exact keyword_blank .and _)]
      exact read
    | or =>
      have solid : parser.rest = 32 :: 79 :: ([82] ++ 32 :: (text ++ after)) := blank
      rw [run_bind_of_ok (skipWhitespace_one solid (by decide)),
        without_keyword "AND" (by rw [here]; exact keywordAt_other_letter (show _ = 65 :: [78,68] by decide) (by decide) _),
        with_keyword "OR" (by rw [here]; exact keyword_blank .or _)]
      exact read

theorem tail_ends {tail after : Bytes} {pending : Pending} (reads : TailReads texts tail pending) (closed : Closed after) :
    Ends (tail ++ after) := by
  cases pending with
  | none =>
    have none_left : tail = [] := reads
    subst none_left
    exact .inl closed
  | some pending =>
    obtain ⟨connective,right⟩ := pending
    obtain ⟨text,rfl,_⟩ := reads
    exact .inr ⟨connective,text ++ after,by rw [List.cons_append,List.append_assoc,List.cons_append]⟩

def ReadsSingle (texts : DebugTexts) (text : Bytes) (condition : Condition) : Prop :=
  ∀ parser after fuel, parser.rest = text ++ after → Ends after → text.length+2 ≤ fuel →
    (parseSingleCondition texts fuel).run parser = .ok condition (parser.advance text.length)

def Opens (text : Bytes) : Prop :=
  (∃ first rest, text = first :: rest ∧ isWhitespace first = false) ∧
    ∀ after, Ends after → keywordAt (utf8 "NOT") (text ++ after) = false

theorem reads_operand {text tail : Bytes} {pending : Pending} (single : ReadsSingle texts text condition) (opens : Opens text)
    (follows : TailReads texts tail pending) : ReadsWhere texts (text ++ tail) (connected condition pending) := by
  intro parser after fuel standing closed enough
  obtain ⟨fuel,rfl⟩ : ∃ rounds, fuel = rounds+1 := ⟨fuel-1,by omega⟩
  rw [List.length_append] at enough ⊢
  rw [List.append_assoc] at standing
  obtain ⟨⟨first,rest,begins,solid⟩,plain⟩ := opens
  have ends := tail_ends follows closed
  have front : parser.rest = first :: (rest ++ (tail ++ after)) := by
    rw [standing,begins]
    rfl
  have read := single parser _ fuel standing ends (by omega)
  have rest_read := connected_reads (rest_after standing) closed follows (by omega : tail.length+1 ≤ fuel) condition
  unfold parseWhereCondition
  rw [run_bind_of_ok (skipWhitespace_none front solid),without_keyword "NOT" (by rw [standing]; exact plain _ ends),
    run_bind_of_ok read,rest_read,advance_advance]

theorem reads_not (reads : ReadsWhere texts text condition) : ReadsWhere texts (utf8 "NOT " ++ text) (.not condition) := by
  intro parser after fuel standing closed enough
  obtain ⟨fuel,rfl⟩ : ∃ rounds, fuel = rounds+2 := ⟨fuel-2,by omega⟩
  have front : parser.rest = 78 :: ([79,84] ++ 32 :: (text ++ after)) := standing
  have blank : (parser.advance (utf8 "NOT").length).rest = 32 :: (text ++ after) := rest_after front
  have four : (utf8 "NOT " ++ text).length = 4+text.length := List.length_append
  rw [four] at enough ⊢
  have read := (where_blank blank fuel).trans (reads _ after (fuel+1) (rest_next blank) closed (by omega))
  unfold parseWhereCondition
  rw [run_bind_of_ok (skipWhitespace_none front (by decide)),with_keyword "NOT" (by rw [front]; rfl),
    run_bind_of_ok read,advance_advance,advance_advance]
  have total : (utf8 "NOT").length+(1+text.length) = 4+text.length := by
    change 3+(1+text.length) = _
    omega
  rw [total]
  rfl

theorem reads_nots (reads : ReadsWhere texts text condition) (count : Nat) :
    ReadsWhere texts (notWords count ++ text) (negated count condition) := by
  induction count with
  | zero => exact reads
  | succ count ih =>
    rw [notWords,List.replicate_succ,List.flatten_cons,List.append_assoc]
    exact reads_not ih

theorem reads_paren (reads : ReadsWhere texts text condition) : ReadsSingle texts (40 :: (text ++ [41])) condition := by
  intro parser after fuel standing _ enough
  obtain ⟨fuel,rfl⟩ : ∃ rounds, fuel = rounds+1 := ⟨fuel-1,by omega⟩
  have front : parser.rest = 40 :: (text ++ 41 :: after) := by
    rw [standing,List.cons_append,List.append_assoc]
    rfl
  have two : (40 :: (text ++ [41])).length = 1+text.length+1 := by
    simp only [List.length_cons,List.length_append,List.length_nil]
    omega
  rw [two] at enough ⊢
  have inside := rest_next front
  have read := reads _ (41 :: after) fuel inside (.inr ⟨after,rfl⟩) (by omega)
  have bracket := rest_after inside
  unfold parseSingleCondition
  rw [run_bind_of_ok (skipWhitespace_none front (by decide)),
    without_keyword "NOT" (by rw [front]; exact keywordAt_other_letter (show _ = 78 :: [79,84] by decide) (by decide) _),
    run_bind_of_ok (matchChar_found (by rw [front]; rfl)),if_pos rfl,run_bind_of_ok read,
    run_bind_of_ok (skipWhitespace_none bracket (by decide))]
  unfold expectChar
  rw [EStateM.run_bind,run_bind_of_ok (matchChar_found (by rw [bracket]; rfl)),advance_advance,advance_advance]
  rfl

end SqlParser

section Whole
open SqlParser
variable {texts : DebugTexts}

theorem Comparison.reads_single (atom : Comparison texts) : ReadsSingle texts atom.text atom.condition := by
  intro parser after fuel standing ends enough
  obtain ⟨fuel,rfl⟩ : ∃ rounds, fuel = rounds+1 := ⟨fuel-1,by omega⟩
  obtain ⟨first,rest,begins,solid,no_bracket⟩ := atom.starts
  have front : parser.rest = first :: (rest ++ after) := by
    rw [standing,begins]
    rfl
  unfold parseSingleCondition
  rw [run_bind_of_ok (skipWhitespace_none front solid),without_keyword "NOT" (by rw [standing]; exact atom.plain _ ends),
    run_bind_of_ok (matchChar_refused (by rw [front]; exact fun same => no_bracket (Option.some.inj same)))]
  exact atom.reads parser after standing ends

theorem Operand.opens (operand : Operand (Comparison texts)) : Opens operand.printed := by
  cases operand with
  | atom atom =>
    rw [Operand.printed]
    obtain ⟨first,rest,begins,solid,_⟩ := atom.starts
    exact ⟨⟨first,rest,begins,solid⟩,atom.plain⟩
  | paren inner =>
    rw [Operand.printed]
    exact ⟨⟨40,_,rfl,by decide⟩,fun after _ =>
      keywordAt_other_letter (show _ = 78 :: [79,84] by decide) (by decide) _⟩

mutual

theorem Operand.reads (operand : Operand (Comparison texts)) :
    ReadsSingle texts operand.printed (operand.grouped (·.condition)) := by
  cases operand with
  | atom atom =>
    rw [Operand.printed,Operand.grouped]
    exact atom.reads_single
  | paren inner =>
    rw [Operand.printed,Operand.grouped]
    exact reads_paren inner.reads

theorem Conjunction.reads (conjunction : Conjunction (Comparison texts)) {tail : Bytes} {pending : Pending}
    (follows : TailReads texts tail pending) :
    ReadsWhere texts (conjunction.printed ++ tail) (conjunction.grouped (·.condition) pending) := by
  cases conjunction with
  | one count operand =>
    rw [Conjunction.printed,Conjunction.grouped,List.append_assoc]
    exact reads_nots (reads_operand operand.reads operand.opens follows) count
  | and count operand rest =>
    rw [Conjunction.printed,Conjunction.grouped,List.append_assoc,List.append_assoc]
    refine reads_nots (reads_operand operand.reads operand.opens ?_) count
    exact ⟨rest.printed ++ tail,rfl,rest.reads follows⟩

theorem Disjunction.reads (disjunction : Disjunction (Comparison texts)) :
    ReadsWhere texts disjunction.printed (disjunction.grouped (·.condition)) := by
  cases disjunction with
  | one first =>
    rw [Disjunction.printed,Disjunction.grouped,← List.append_nil first.printed]
    exact first.reads rfl
  | or first rest =>
    rw [Disjunction.printed,Disjunction.grouped]
    exact first.reads ⟨rest.printed,rfl,rest.reads⟩

end

-- The parser reads every printed condition to its end, as it groups it.
theorem parseCondition_printed (disjunction : Disjunction (Comparison texts)) {parser : SqlParser}
    (standing : parser.rest = disjunction.printed) :
    (parseCondition texts).run parser =
      .ok (disjunction.grouped (·.condition)) (parser.advance disjunction.printed.length) := by
  have text : parser.rest = disjunction.printed ++ [] := by rw [standing,List.append_nil]
  unfold parseCondition
  rw [EStateM.run_bind,EStateM.run_get]
  refine disjunction.reads parser [] _ text (.inl rfl) ?_
  rw [standing]
  omega

end Whole
end RemDb
