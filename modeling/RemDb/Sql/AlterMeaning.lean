import RemDb.Sql.AlterText
import RemDb.Sql.Grants
import RemDb.Sql.Meaning

namespace RemDb
open RemDb.Lib

namespace SqlParser

section Ascii

theorem toNat_ofNat_small {number : Nat} (small : number < 128) : (Char.ofNat number).val.toNat = number := by
  have valid : number.isValidChar := Or.inl (by omega)
  rw [Char.ofNat,dif_pos valid]
  rfl

theorem utf8_ascii {byte : UInt8} (small : byte.toNat < 128) :
    utf8 (String.singleton (Char.ofNat byte.toNat)) = [byte] := by
  change (String.singleton (Char.ofNat byte.toNat)).toByteArray.data.toList = [byte]
  rw [String.toByteArray_singleton,List.utf8Encode_singleton,List.data_toByteArray,String.utf8EncodeChar,
    toNat_ofNat_small small,if_pos (by omega)]
  simp

theorem utf8_latin {bytes : Bytes} (ascii : ∀ byte ∈ bytes, byte.toNat < 128) : utf8 (latin bytes) = bytes := by
  induction bytes with
  | nil => rfl
  | cons first rest ih =>
    have split : latin (first :: rest) = String.singleton (Char.ofNat first.toNat) ++ latin rest := String.ofList_cons
    rw [split,utf8_append,utf8_ascii (ascii first List.mem_cons_self),
      ih fun byte member => ascii byte (List.mem_cons_of_mem _ member)]
    rfl

theorem alphanumeric_range {byte : UInt8} (letter : isAlphanumeric byte = true) :
    48 ≤ byte.toNat ∧ byte.toNat ≤ 122 := by
  rw [isAlphanumeric,Bool.or_eq_true] at letter
  rcases letter with letter | digit
  · have range := FieldName.alphabetic_range letter
    omega
  · simp only [isDigit,decide_eq_true_eq,UInt8.le_iff_toNat_le] at digit
    have low : (48 : UInt8).toNat = 48 := rfl
    have high : (57 : UInt8).toNat = 57 := rfl
    omega

theorem identifier_ascii {byte : UInt8} (word : inIdentifier byte = true) : 46 ≤ byte.toNat ∧ byte.toNat ≤ 122 := by
  rw [inIdentifier,Bool.or_eq_true,Bool.or_eq_true,beq_iff_eq,beq_iff_eq] at word
  rcases word with (word | rfl) | rfl
  · have range := alphanumeric_range word
    omega
  · decide
  · decide

theorem starts_in {byte : UInt8} (starts : startsIdentifier byte = true) : inIdentifier byte = true := by
  rw [startsIdentifier,Bool.or_eq_true] at starts
  rw [inIdentifier,isAlphanumeric,Bool.or_eq_true,Bool.or_eq_true,Bool.or_eq_true]
  exact .inl (starts.imp_left .inl)

theorem identifier_solid {byte : UInt8} (word : inIdentifier byte = true) : isWhitespace byte = false := by
  have range := identifier_ascii word
  simp only [isWhitespace,Bool.or_eq_false_iff,decide_eq_false_iff_not,UInt8.le_iff_toNat_le,← UInt8.toNat_inj]
  change ¬ (9 ≤ byte.toNat ∧ byte.toNat ≤ 13) ∧ ¬ (byte.toNat = 32 ∨ byte.toNat = 133 ∨ byte.toNat = 160)
  omega

end Ascii

end SqlParser

structure Identifier where
  first : UInt8
  others : Bytes
  starts : SqlParser.startsIdentifier first = true
  word : others.all SqlParser.inIdentifier = true

namespace Identifier
open SqlParser

def bytes (identifier : Identifier) : Bytes := identifier.first :: identifier.others
def name (identifier : Identifier) : String := latin identifier.bytes

theorem bytes_word (identifier : Identifier) : identifier.bytes.all inIdentifier = true := by
  rw [bytes,List.all_cons,starts_in identifier.starts,identifier.word]
  rfl

theorem utf8_name (identifier : Identifier) : utf8 identifier.name = identifier.bytes := by
  apply utf8_latin
  intro byte member
  have range := identifier_ascii (List.all_eq_true.mp identifier.bytes_word byte member)
  omega

end Identifier

namespace SqlParser

section Words
variable {parser : SqlParser}

def Stops (after : Bytes) : Prop := after = [] ∨ ∃ more, after = 32 :: more

theorem stops_word (stops : Stops after) : (after.head?.any inIdentifier) = false := by
  rcases stops with rfl | ⟨more,rfl⟩
  · rfl
  · exact (by decide : inIdentifier 32 = false)

theorem identifierLength_name (identifier : Identifier) (stops : Stops after) :
    identifierLength (identifier.bytes ++ after) = identifier.bytes.length := by
  rw [Identifier.bytes,List.cons_append,identifierLength,if_pos identifier.starts,
    takeWhile_append_stop identifier.word (stops_word stops)]
  rfl

theorem parseIdentifier_ok (read : parseIdentifier.run parser = .ok name after) :
    identifierLength parser.rest ≠ 0 ∧ name = latin (parser.rest.take (identifierLength parser.rest)) ∧
      after = parser.advance (identifierLength parser.rest) := by
  unfold parseIdentifier at read
  rw [EStateM.run_bind,EStateM.run_get] at read
  by_cases none : identifierLength parser.rest = 0
  · simp only [none] at read
    cases read
  · simp only [if_neg none] at read
    cases read
    exact ⟨none,rfl,rfl⟩

end Words

section Keywords

theorem keywordAt_nil (rest : Bytes) : keywordAt [] rest = rest.head?.all fun next => !isAlphanumeric next := by
  rw [keywordAt,List.length_nil,List.take_zero,List.head?_eq_getElem?]
  rfl

theorem keywordAt_cons (letter : UInt8) (others : Bytes) (first : UInt8) (rest : Bytes) :
    keywordAt (letter :: others) (first :: rest) = (decide (lower first = lower letter) && keywordAt others rest) := by
  rw [keywordAt,keywordAt,← Bool.and_assoc]
  congr 1
  rw [Bool.eq_iff_iff,Bool.and_eq_true,eqIgnoreCase,eqIgnoreCase,decide_eq_true_iff,decide_eq_true_iff,
    decide_eq_true_iff,List.length_cons,List.take_succ_cons,List.map_cons,List.map_cons,List.cons.injEq]

theorem keywordAt_name {keyword : Bytes} (letters : ∀ letter ∈ keyword, lower letter ≠ 32) (stops : Stops after)
    (word : Bytes) : keywordAt keyword (word ++ after) = keywordAt keyword word := by
  induction keyword generalizing word with
  | nil =>
    rw [keywordAt_nil,keywordAt_nil]
    cases word with
    | nil =>
      rcases stops with rfl | ⟨more,rfl⟩
      · rfl
      · rfl
    | cons => rfl
  | cons letter others ih =>
    cases word with
    | nil =>
      rcases stops with rfl | ⟨more,rfl⟩
      · rfl
      · have other : lower 32 ≠ lower letter := fun same => letters letter List.mem_cons_self same.symm
        rw [List.nil_append,keywordAt_cons,decide_eq_false other]
        rfl
    | cons first rest =>
      rw [List.cons_append,keywordAt_cons,keywordAt_cons,
        ih fun each member => letters each (List.mem_cons_of_mem _ member)]

theorem keywordAt_found {keyword rest : Bytes} (found : keywordAt keyword rest = true) :
    (rest.take keyword.length).map lower = keyword.map lower ∧
      (rest.drop keyword.length).head?.all (fun next => !isAlphanumeric next) = true := by
  rw [keywordAt,Bool.and_eq_true,eqIgnoreCase,decide_eq_true_iff] at found
  rw [List.head?_drop]
  exact found

theorem keywordAt_length {keyword rest : Bytes} (found : keywordAt keyword rest = true) :
    keyword.length ≤ rest.length := by
  have same := congrArg List.length (keywordAt_found found).1
  rw [List.length_map,List.length_map,List.length_take] at same
  omega

end Keywords

def facing (before after : Bytes) : SqlParser := ⟨before ++ after,before.length⟩

section Facing
variable (before : Bytes) {after : Bytes}

theorem facing_rest (after : Bytes) : (facing before after).rest = after := List.drop_left

theorem facing_advance (piece after : Bytes) :
    (facing before (piece ++ after)).advance piece.length = facing (before ++ piece) after := by
  rw [facing,facing,advance,List.length_append,List.append_assoc]

theorem reads_name (identifier : Identifier) (stops : Stops after) :
    parseIdentifier.run (facing before (identifier.bytes ++ after)) =
      .ok identifier.name (facing (before ++ identifier.bytes) after) := by
  unfold parseIdentifier
  rw [EStateM.run_bind,EStateM.run_get]
  simp only [facing_rest,identifierLength_name identifier stops]
  rw [List.take_left,← facing_advance]
  rfl

theorem skips_blank {first : UInt8} {rest : Bytes} (word : inIdentifier first = true) :
    skipWhitespace.run (facing before (32 :: (first :: rest))) = .ok () (facing (before ++ [32]) (first :: rest)) :=
  (skipWhitespace_one (facing_rest before _) (identifier_solid word)).trans
    (congrArg _ (facing_advance before [32] _))

theorem skips_nothing {first : UInt8} {rest : Bytes} (word : isWhitespace first = false) :
    skipWhitespace.run (facing before (first :: rest)) = .ok () (facing before (first :: rest)) :=
  skipWhitespace_none (facing_rest before _) word

theorem skips_end : skipWhitespace.run (facing before []) = .ok () (facing before []) :=
  skipWhitespace_end (facing_rest before _)

theorem takes_keyword (keyword : String) (found : keywordAt (utf8 keyword) (utf8 keyword ++ after) = true)
    (matched unmatched : Parse α) :
    (do if ← matchKeyword keyword then matched else unmatched : Parse α).run (facing before (utf8 keyword ++ after)) =
      matched.run (facing (before ++ utf8 keyword) after) := by
  rw [with_keyword keyword (by rw [facing_rest]; exact found),facing_advance]

theorem passes_keyword (keyword : String) (other : keywordAt (utf8 keyword) after = false)
    (matched unmatched : Parse α) :
    (do if ← matchKeyword keyword then matched else unmatched : Parse α).run (facing before after) =
      unmatched.run (facing before after) :=
  without_keyword keyword (by rw [facing_rest]; exact other) _ _

end Facing

theorem alter_type (more : Bytes) : parseQueryType.run (facing [] (utf8 "ALTER" ++ (32 :: (utf8 "TABLE" ++ 32 :: more)))) =
    .ok .alterTable (facing (utf8 "ALTER TABLE") (32 :: more)) := by
  have other {keyword : String} {letter : UInt8} {others : Bytes} (starts : utf8 keyword = letter :: others)
      (different : lower 65 ≠ lower letter) :
      keywordAt (utf8 keyword) (utf8 "ALTER" ++ (32 :: (utf8 "TABLE" ++ 32 :: more))) = false :=
    keywordAt_other_letter starts different _
  unfold parseQueryType
  rw [passes_keyword [] "SELECT" (other rfl (by decide)),passes_keyword [] "INSERT" (other rfl (by decide)),
    passes_keyword [] "UPDATE" (other rfl (by decide)),passes_keyword [] "DELETE" (other rfl (by decide)),
    passes_keyword [] "DESCRIBE" (other rfl (by decide)),passes_keyword [] "CREATE" (other rfl (by decide)),
    takes_keyword [] "ALTER" rfl]
  have blank : skipWhitespace.run (facing ([] ++ utf8 "ALTER") (32 :: (utf8 "TABLE" ++ 32 :: more))) =
      .ok () (facing (utf8 "ALTER ") (utf8 "TABLE" ++ 32 :: more)) := skips_blank _ (by decide)
  rw [run_bind_of_ok blank,takes_keyword _ "TABLE" rfl]
  rfl

theorem alteration_add (texts : Renderings) (before more : Bytes) :
    (parseAlteration texts).run (facing before (utf8 "ADD" ++ 32 :: more)) =
      (do optionalColumn; parseColumnDefinition texts : Parse ColumnEntry).run (facing (before ++ utf8 "ADD") (32 :: more)) :=
  takes_keyword before "ADD" rfl _ _

theorem alteration_drop (texts : Renderings) (before more : Bytes) :
    (parseAlteration texts).run (facing before (utf8 "DROP" ++ 32 :: more)) =
      (do
        optionalColumn
        let field_name ← parseIdentifier
        pure (field_name,"DROP",false,false,false,false,none) : Parse ColumnEntry).run
          (facing (before ++ utf8 "DROP") (32 :: more)) := by
  unfold parseAlteration
  rw [passes_keyword before "ADD" rfl,takes_keyword before "DROP" rfl]

theorem alteration_modify (texts : Renderings) (before more : Bytes) :
    (parseAlteration texts).run (facing before (utf8 "MODIFY" ++ 32 :: more)) =
      (do optionalColumn; parseColumnDefinition texts : Parse ColumnEntry).run
        (facing (before ++ utf8 "MODIFY") (32 :: more)) := by
  unfold parseAlteration
  rw [passes_keyword before "ADD" rfl,passes_keyword before "DROP" rfl,takes_keyword before "MODIFY" rfl]

theorem alteration_rename (texts : Renderings) (before more : Bytes) :
    (parseAlteration texts).run (facing before (utf8 "RENAME" ++ 32 :: more)) =
      (do
        optionalColumn
        let old_name ← parseIdentifier
        skipWhitespace
        expectKeyword "TO"
        skipWhitespace
        let new_name ← parseIdentifier
        pure (old_name,new_name,false,false,false,false,none) : Parse ColumnEntry).run
          (facing (before ++ utf8 "RENAME") (32 :: more)) := by
  unfold parseAlteration
  rw [passes_keyword before "ADD" rfl,passes_keyword before "DROP" rfl,passes_keyword before "MODIFY" rfl,
    takes_keyword before "RENAME" rfl]

end SqlParser

-- What a statement does to the column, in the four forms.
inductive Alteration where
  | add (column_type : String)
  | drop
  | modify (column_type : String)
  | rename (new_name : Identifier)

structure AlterStatement where
  table : Identifier
  column : Identifier
  -- Whether the word COLUMN is written.
  worded : Bool
  alteration : Alteration

namespace Alteration

def verb : Alteration → String
  | .add _ => "ADD "
  | .drop => "DROP "
  | .modify _ => "MODIFY "
  | .rename _ => "RENAME "

def behind : Alteration → String
  | .add column_type | .modify column_type => " " ++ column_type
  | .drop => ""
  | .rename new_name => " TO " ++ new_name.name

end Alteration

namespace AlterStatement

def columnWord (worded : Bool) : String := if worded then "COLUMN " else ""

def front (statement : AlterStatement) : String :=
  "ALTER TABLE " ++ (statement.table.name ++ (" " ++ (statement.alteration.verb ++
    (columnWord statement.worded ++ statement.column.name))))

def text (statement : AlterStatement) : String := statement.front ++ statement.alteration.behind

def Typed (statement : AlterStatement) (read : String) : Prop :=
  match statement.alteration with
  | .add _ | .modify _ =>
    SqlParser.parseDataType.run ⟨utf8 statement.text,(utf8 (statement.front ++ " ")).length⟩ =
      .ok read ⟨utf8 statement.text,(utf8 statement.text).length⟩
  | .drop | .rename _ => True

def noConstraint : FieldConstraint := ⟨false,false,false,false⟩

def wanted (columns : List String) (read : String) (statement : AlterStatement) : Option AlterTableOperation :=
  let column := statement.column.name
  match statement.alteration with
  | .add _ =>
    if columns.contains column then none
    else (createColumnType (upper read)).toOption.map fun typed =>
      .addColumn column typed.1 typed.2 none noConstraint
  | .drop => some (.dropColumn column)
  | .modify _ =>
    if columns.contains column then
      (createColumnType (upper read)).toOption.map fun typed =>
        .modifyColumn column typed.1 typed.2 none noConstraint
    else none
  | .rename new_name => some (.renameColumn column new_name.name)

end AlterStatement

-- One call of `alter_table`, and what comes of it.
def Altering.calling (altering : Altering δ) (table_name : String) (operation : AlterTableOperation) (db : δ) :
    Except QueryExecutionError Unit × δ × List (String × AlterTableOperation) :=
  match altering.alterTable table_name operation db with
  | (.error _,after) => (.error .internalError,after,[(table_name,operation)])
  | (.ok _,after) => (.ok (),after,[(table_name,operation)])

-- The text is read as an ALTER TABLE, and executing it is the one call.
def DoesWhatItSays (texts : Renderings) (others : QueryType → Parse AccessQuery) (altering : Altering δ) (db : δ)
    (statement : AlterStatement) (read : String) : Prop :=
  ∃ query after, (SqlParser.parse (SqlParser.withAlterTable texts others)).run (.new statement.text) = .ok query after ∧
    query.query_type = .alterTable ∧
    match statement.wanted (altering.fields db statement.table.name) read with
    | some operation =>
      executeAlterTable altering query.table_name query.table_def db =
        altering.calling statement.table.name operation db
    | none => ∃ failure, executeAlterTable altering query.table_name query.table_def db = (.error failure,db,[])

namespace SqlParser

section Statement
variable (texts : Renderings) (others : QueryType → Parse AccessQuery) (table : Identifier)

def tableBytes (table : Identifier) (more : Bytes) : Bytes :=
  utf8 "ALTER" ++ (32 :: (utf8 "TABLE" ++ 32 :: (table.bytes ++ 32 :: more)))

def behindTable (table : Identifier) : Bytes := utf8 "ALTER TABLE" ++ [32] ++ table.bytes ++ [32]

def alterQuery (table : Identifier) (entry : ColumnEntry) : AccessQuery :=
  ⟨.alterTable,table.name,none,[],[entry]⟩

theorem parse_alter {first : UInt8} (rest : Bytes) (word : inIdentifier first = true) :
    (parse (withAlterTable texts others)).run (facing [] (tableBytes table (first :: rest))) =
      (do
        let entry ← parseAlteration texts
        skipWhitespace
        let _ ← matchChar 59
        pure (alterQuery table entry) : Parse AccessQuery).run (facing (behindTable table) (first :: rest)) := by
  have start : skipWhitespace.run (facing [] (tableBytes table (first :: rest))) =
      .ok () (facing [] (tableBytes table (first :: rest))) := skips_nothing [] (by decide)
  have named : skipWhitespace.run (facing (utf8 "ALTER TABLE") (32 :: (table.bytes ++ 32 :: (first :: rest)))) =
      .ok () (facing (utf8 "ALTER TABLE" ++ [32]) (table.bytes ++ 32 :: (first :: rest))) :=
    skips_blank _ (starts_in table.starts)
  have behind : skipWhitespace.run (facing (utf8 "ALTER TABLE" ++ [32] ++ table.bytes) (32 :: (first :: rest))) =
      .ok () (facing (behindTable table) (first :: rest)) := skips_blank _ word
  rw [parse,run_bind_of_ok start,tableBytes,run_bind_of_ok (alter_type _)]
  change ((parseAlterTableQuery texts >>= _).run _) = _
  rw [parseAlterTableQuery]
  simp only [bind_assoc,pure_bind]
  rw [run_bind_of_ok named,run_bind_of_ok (reads_name _ table (.inr ⟨_,rfl⟩)),run_bind_of_ok behind]
  rfl

theorem parse_alter_reads {first : UInt8} {rest before : Bytes} {entry : ColumnEntry} (word : inIdentifier first = true)
    (read : (parseAlteration texts).run (facing (behindTable table) (first :: rest)) = .ok entry (facing before [])) :
    (parse (withAlterTable texts others)).run (facing [] (tableBytes table (first :: rest))) =
      .ok (alterQuery table entry) (facing before []) := by
  have closed : (matchChar 59).run (facing before []) = .ok false (facing before []) :=
    matchChar_refused (by rw [facing_rest]; nofun)
  rw [parse_alter texts others table rest word,run_bind_of_ok read,run_bind_of_ok (skips_end before),
    run_bind_of_ok closed]
  rfl

theorem parse_alter_ok {first : UInt8} {rest : Bytes} (word : inIdentifier first = true)
    (parsed : (parse (withAlterTable texts others)).run (facing [] (tableBytes table (first :: rest))) = .ok query after) :
    ∃ entry middle, (parseAlteration texts).run (facing (behindTable table) (first :: rest)) = .ok entry middle ∧
      query = alterQuery table entry := by
  rw [parse_alter texts others table rest word] at parsed
  obtain ⟨entry,middle,read,finished⟩ := run_bind_ok parsed
  obtain ⟨_,_,_,finished⟩ := run_bind_ok finished
  obtain ⟨_,_,_,finished⟩ := run_bind_ok finished
  cases finished
  exact ⟨entry,middle,read,rfl⟩

end Statement

section Column
variable (texts : Renderings) (before : Bytes)

def wordBytes (worded : Bool) : Bytes := utf8 (AlterStatement.columnWord worded)

-- Where the word is left out, the name must not begin with it.
def Spoken (worded : Bool) (column : Identifier) : Prop :=
  worded = true ∨ keywordAt (utf8 "COLUMN") column.bytes = false

theorem column_spelt : ∀ letter ∈ utf8 "COLUMN", lower letter ≠ 32 ∧ isUpper letter = true ∧
    upperChar (Char.ofNat letter.toNat) = Char.ofNat letter.toNat ∧
    upperChar (Char.ofNat (letter+32).toNat) = Char.ofNat letter.toNat := by decide +kernel

theorem column_letters (letter : UInt8) (among : letter ∈ utf8 "COLUMN") : lower letter ≠ 32 := (column_spelt letter among).1

theorem optionalColumn_reads {worded : Bool} {column : Identifier} (spoken : Spoken worded column)
    (stops : Stops after) :
    optionalColumn.run (facing before (32 :: (wordBytes worded ++ (column.bytes ++ after)))) =
      .ok () (facing (before ++ [32] ++ wordBytes worded) (column.bytes ++ after)) := by
  unfold optionalColumn
  cases worded with
  | true =>
    have blank : skipWhitespace.run (facing before (32 :: (utf8 "COLUMN" ++ 32 :: (column.bytes ++ after)))) =
        .ok () (facing (before ++ [32]) (utf8 "COLUMN" ++ 32 :: (column.bytes ++ after))) := skips_blank _ (by decide)
    change EStateM.run _ (facing before (32 :: (utf8 "COLUMN" ++ 32 :: (column.bytes ++ after)))) = _
    rw [run_bind_of_ok blank,takes_keyword _ "COLUMN" rfl]
    refine (skips_blank _ (starts_in column.starts)).trans ?_
    rw [List.append_assoc (before ++ [32])]
    rfl
  | false =>
    have free : keywordAt (utf8 "COLUMN") (column.bytes ++ after) = false := by
      rw [keywordAt_name column_letters stops]
      exact spoken.resolve_left Bool.false_ne_true
    have blank : skipWhitespace.run (facing before (32 :: (column.bytes ++ after))) =
        .ok () (facing (before ++ [32]) (column.bytes ++ after)) := skips_blank _ (starts_in column.starts)
    change EStateM.run _ (facing before (32 :: (column.bytes ++ after))) = _
    rw [run_bind_of_ok blank,passes_keyword _ "COLUMN" free,
      show wordBytes false = [] from rfl,List.append_nil]
    rfl

theorem parseConstraints_end (fuel : Nat) (found : FieldConstraint × Option SqlValue) :
    (parseConstraints texts (fuel+1) found).run (facing before []) = .ok found (facing before []) := by
  obtain ⟨constraints,default_value⟩ := found
  unfold parseConstraints
  have neither : ((do if ← matchKeyword "AUTOINCREMENT" then pure true else matchKeyword "AUTO_INCREMENT") : Parse Bool).run
      (facing before []) = .ok false (facing before []) := by
    rw [passes_keyword before "AUTOINCREMENT" rfl]
    exact matchKeyword_refused _ (by rw [facing_rest]; rfl)
  rw [run_bind_of_ok (skips_end before),passes_keyword before "PRIMARY" rfl,passes_keyword before "NOT" rfl,
    passes_keyword before "UNIQUE" rfl,run_bind_of_ok neither]
  rw [if_neg Bool.false_ne_true,passes_keyword before "DEFAULT" rfl]
  rfl

def typedEntry (column : Identifier) (read : String) : ColumnEntry :=
  (column.name,upper read,false,false,false,false,none)

theorem parseDataType_starts {parser after : SqlParser} {read : String} (typed : parseDataType.run parser = .ok read after) :
    ∃ first rest, parser.rest = first :: rest ∧ startsIdentifier first = true := by
  obtain ⟨name,middle,named,_⟩ := run_bind_ok typed
  have some := (parseIdentifier_ok named).1
  cases standing : parser.rest with
  | nil =>
    rw [standing] at some
    exact absurd rfl some
  | cons first rest =>
    refine ⟨first,rest,rfl,?_⟩
    by_contra other
    rw [standing,identifierLength,if_neg other] at some
    exact some rfl

theorem parseColumnDefinition_reads (column : Identifier) {column_type : Bytes} {read : String}
    (typed : parseDataType.run (facing (before ++ column.bytes ++ [32]) column_type) =
      .ok read (facing (before ++ column.bytes ++ [32] ++ column_type) [])) :
    (parseColumnDefinition texts).run (facing before (column.bytes ++ 32 :: column_type)) =
      .ok (typedEntry column read) (facing (before ++ column.bytes ++ [32] ++ column_type) []) := by
  obtain ⟨first,rest,standing,starts⟩ := parseDataType_starts typed
  rw [facing_rest] at standing
  subst standing
  unfold parseColumnDefinition
  rw [run_bind_of_ok (reads_name _ column (.inr ⟨_,rfl⟩)),run_bind_of_ok (skips_blank _ (starts_in starts)),
    run_bind_of_ok typed]
  rw [EStateM.run_bind,EStateM.run_get]
  dsimp only
  rw [run_bind_of_ok (parseConstraints_end texts _ _ _)]
  rfl

end Column

section Renaming
variable (before : Bytes)

theorem expectKeyword_reads (keyword : String) (found : keywordAt (utf8 keyword) (utf8 keyword ++ after) = true) :
    (expectKeyword keyword).run (facing before (utf8 keyword ++ after)) =
      .ok () (facing (before ++ utf8 keyword) after) := by
  unfold expectKeyword
  rw [takes_keyword before keyword found]
  rfl

theorem reads_last_name (identifier : Identifier) :
    parseIdentifier.run (facing before identifier.bytes) = .ok identifier.name (facing (before ++ identifier.bytes) []) := by
  have read := reads_name before identifier (.inl rfl)
  rwa [List.append_nil] at read

theorem drop_reads {worded : Bool} {column : Identifier} (spoken : Spoken worded column) :
    (do
      optionalColumn
      let field_name ← parseIdentifier
      pure (field_name,"DROP",false,false,false,false,none) : Parse ColumnEntry).run
        (facing before (32 :: (wordBytes worded ++ column.bytes))) =
      .ok (column.name,"DROP",false,false,false,false,none)
        (facing (before ++ [32] ++ wordBytes worded ++ column.bytes) []) := by
  have word := optionalColumn_reads before spoken (.inl rfl)
  rw [List.append_nil] at word
  rw [run_bind_of_ok word,run_bind_of_ok (reads_last_name _ column)]
  rfl

theorem rename_reads (column new_name : Identifier) :
    (do
      let old_name ← parseIdentifier
      skipWhitespace
      expectKeyword "TO"
      skipWhitespace
      let new_name ← parseIdentifier
      pure (old_name,new_name,false,false,false,false,none) : Parse ColumnEntry).run
        (facing before (column.bytes ++ 32 :: (utf8 "TO" ++ 32 :: new_name.bytes))) =
      .ok (column.name,new_name.name,false,false,false,false,none)
        (facing (before ++ column.bytes ++ [32] ++ utf8 "TO" ++ [32] ++ new_name.bytes) []) := by
  have first : skipWhitespace.run (facing (before ++ column.bytes) (32 :: (utf8 "TO" ++ 32 :: new_name.bytes))) =
      .ok () (facing (before ++ column.bytes ++ [32]) (utf8 "TO" ++ 32 :: new_name.bytes)) := skips_blank _ (by decide)
  have second : skipWhitespace.run (facing (before ++ column.bytes ++ [32] ++ utf8 "TO") (32 :: new_name.bytes)) =
      .ok () (facing (before ++ column.bytes ++ [32] ++ utf8 "TO" ++ [32]) new_name.bytes) :=
    skips_blank _ (starts_in new_name.starts)
  rw [run_bind_of_ok (reads_name _ column (.inr ⟨_,rfl⟩)),run_bind_of_ok first,
    run_bind_of_ok (expectKeyword_reads _ "TO" rfl),run_bind_of_ok second,run_bind_of_ok (reads_last_name _ new_name)]
  rfl

end Renaming

end SqlParser

namespace AlterStatement
open SqlParser
variable (texts : Renderings) (statement : AlterStatement)

theorem front_bytes : utf8 statement.front =
    behindTable statement.table ++ (utf8 statement.alteration.verb ++
      (wordBytes statement.worded ++ statement.column.bytes)) := by
  rw [front,utf8_append,utf8_append,utf8_append,utf8_append,utf8_append,Identifier.utf8_name,Identifier.utf8_name,
    behindTable,wordBytes]
  simp only [List.append_assoc]
  rfl

def tail : Bytes :=
  utf8 statement.alteration.verb ++ (wordBytes statement.worded ++
    (statement.column.bytes ++ utf8 statement.alteration.behind))

theorem text_bytes : utf8 statement.text = behindTable statement.table ++ statement.tail := by
  rw [text,utf8_append,front_bytes,tail]
  simp only [List.append_assoc]

theorem tableBytes_eq (table : Identifier) (more : Bytes) : tableBytes table more = behindTable table ++ more := by
  rw [tableBytes,behindTable]
  simp only [List.append_assoc,List.singleton_append]
  rfl

theorem new_text : SqlParser.new statement.text = facing [] (tableBytes statement.table statement.tail) := by
  rw [tableBytes_eq,← text_bytes]
  rfl

def entry (column_type : String) : ColumnEntry :=
  match statement.alteration with
  | .add _ | .modify _ => typedEntry statement.column column_type
  | .drop => (statement.column.name,"DROP",false,false,false,false,none)
  | .rename new_name => (statement.column.name,new_name.name,false,false,false,false,none)

theorem column_reads {before column_type : Bytes} {read : String} {worded : Bool} {column : Identifier}
    (spoken : Spoken worded column)
    (typed : parseDataType.run (facing (before ++ [32] ++ wordBytes worded ++ column.bytes ++ [32]) column_type) =
      .ok read (facing (before ++ [32] ++ wordBytes worded ++ column.bytes ++ [32] ++ column_type) [])) :
    (do optionalColumn; parseColumnDefinition texts : Parse ColumnEntry).run
      (facing before (32 :: (wordBytes worded ++ (column.bytes ++ 32 :: column_type)))) =
      .ok (typedEntry column read)
        (facing (before ++ [32] ++ wordBytes worded ++ column.bytes ++ [32] ++ column_type) []) := by
  rw [run_bind_of_ok (optionalColumn_reads before spoken (.inr ⟨_,rfl⟩))]
  exact parseColumnDefinition_reads texts _ column typed

theorem type_place {verb : Bytes} (column_type : String) (spelled : utf8 statement.alteration.verb = verb ++ [32])
    (last : statement.alteration.behind = " " ++ column_type) {read : String}
    (typed : parseDataType.run ⟨utf8 statement.text,(utf8 (statement.front ++ " ")).length⟩ =
      .ok read ⟨utf8 statement.text,(utf8 statement.text).length⟩) :
    parseDataType.run (facing (behindTable statement.table ++ verb ++ [32] ++ wordBytes statement.worded ++
        statement.column.bytes ++ [32]) (utf8 column_type)) =
      .ok read (facing (behindTable statement.table ++ verb ++ [32] ++ wordBytes statement.worded ++
        statement.column.bytes ++ [32] ++ utf8 column_type) []) := by
  have place : utf8 (statement.front ++ " ") = behindTable statement.table ++ verb ++ [32] ++
      wordBytes statement.worded ++ statement.column.bytes ++ [32] := by
    rw [utf8_append,front_bytes,spelled]
    simp only [List.append_assoc]
    rfl
  have whole : utf8 statement.text = utf8 (statement.front ++ " ") ++ utf8 column_type := by
    rw [text,last,utf8_append,utf8_append,utf8_append,List.append_assoc]
  rw [whole] at typed
  rw [← place,facing,facing,List.append_nil]
  exact typed

theorem reads {read : String} (spoken : Spoken statement.worded statement.column) (typed : statement.Typed read) :
    ∃ before, (parseAlteration texts).run (facing (behindTable statement.table) statement.tail) =
      .ok (statement.entry read) (facing before []) := by
  unfold tail entry
  unfold Typed at typed
  cases altered : statement.alteration with
  | add column_type =>
    rw [altered] at typed
    have placed := statement.type_place column_type (show _ = utf8 "ADD" ++ [32] by rw [altered]; rfl)
      (by rw [altered]; rfl) typed
    exact ⟨_,(alteration_add texts _ _).trans (column_reads texts spoken placed)⟩
  | modify column_type =>
    rw [altered] at typed
    have placed := statement.type_place column_type (show _ = utf8 "MODIFY" ++ [32] by rw [altered]; rfl)
      (by rw [altered]; rfl) typed
    exact ⟨_,(alteration_modify texts _ _).trans (column_reads texts spoken placed)⟩
  | drop =>
    have nothing : utf8 Alteration.drop.behind = [] := rfl
    rw [nothing,List.append_nil]
    exact ⟨_,(alteration_drop texts _ _).trans (drop_reads _ spoken)⟩
  | rename new_name =>
    have last : utf8 (Alteration.rename new_name).behind = 32 :: (utf8 "TO" ++ 32 :: new_name.bytes) := by
      rw [Alteration.behind,utf8_append,Identifier.utf8_name]
      rfl
    have word := optionalColumn_reads (behindTable statement.table ++ utf8 "RENAME") spoken
      (.inr ⟨utf8 "TO" ++ 32 :: new_name.bytes,rfl⟩)
    rw [last]
    exact ⟨_,(alteration_rename texts _ _).trans
      ((run_bind_of_ok word _).trans (rename_reads _ statement.column new_name))⟩

theorem parses (others : QueryType → Parse AccessQuery) {read : String}
    (spoken : Spoken statement.worded statement.column) (typed : statement.Typed read) :
    ∃ after, (parse (withAlterTable texts others)).run (.new statement.text) =
      .ok (alterQuery statement.table (statement.entry read)) after := by
  obtain ⟨before,done⟩ := statement.reads texts spoken typed
  obtain ⟨first,rest,starts,word⟩ : ∃ first rest, statement.tail = first :: rest ∧ inIdentifier first = true := by
    unfold tail
    cases statement.alteration <;> exact ⟨_,_,rfl,by decide⟩
  rw [starts] at done
  rw [new_text,starts]
  exact ⟨_,parse_alter_reads texts others statement.table word done⟩

end AlterStatement

section TypeNames

def knownTypes : List String := plainTypes ++ otherTypes ++ ["VECTOR"]

-- The type names that both tables give the same type.
def agreedTypes : List String :=
  ["BIGINT","INT64","UINT64","FLOAT","FLOAT32","VARCHAR","CHAR","TEXT","BOOL","BOOLEAN","TIMESTAMP","TIMESTAMPTZ",
    "JSON","VECTOR"]

-- What the two tables hold, evaluated once.
theorem type_tables :
    (∀ base_type ∈ knownTypes, (alterDataType base_type).isSome = true ∧
      (alterDataType base_type = createDataType base_type ↔ base_type ∈ agreedTypes) ∧
      ¬ base_type.toList <+: "COLUMN".toList ∧ ¬ "COLUMN".toList <+: base_type.toList) ∧
    (∀ base_type ∈ ["VARCHAR","CHAR"] ++ ["TEXT","JSON"] ++ ["TIMESTAMP","TIMESTAMPTZ"], base_type ∈ knownTypes) ∧
    (parseDataTypeWithPrecision "DROP").toOption = none ∧ (parseDataTypeWithPrecision "").toOption = none := by
  decide +kernel

theorem known_altered (base_type : String) (known : base_type ∈ knownTypes) : (alterDataType base_type).isSome = true :=
  (type_tables.1 base_type known).1

theorem known_agreed (base_type : String) (known : base_type ∈ knownTypes) :
    alterDataType base_type = createDataType base_type ↔ base_type ∈ agreedTypes := (type_tables.1 base_type known).2.1

theorem defaultPrecision_known (default : defaultPrecision base_type = some size) : base_type ∈ knownTypes := by
  unfold defaultPrecision at default
  simp only [List.contains_iff_mem] at default
  have further := type_tables.2.1 base_type
  split at default
  · next listed => exact List.mem_append_left _ (List.mem_append_left _ listed)
  · split at default
    · next listed => exact further (List.mem_append_left _ (List.mem_append_left _ listed))
    · split at default
      · next listed => exact further (List.mem_append_left _ (List.mem_append_right _ listed))
      · split at default
        · next listed => exact further (List.mem_append_right _ listed)
        · cases default

theorem parseDataTypeWithPrecision_known {type_str base_type : String} {size : UInt16}
    (accepted : parseDataTypeWithPrecision type_str = .ok (base_type,size)) :
    base_type ∈ knownTypes ∧ ∃ count, base_type = String.ofList (trimBlanks ((upper type_str).toList.take count)) := by
  unfold parseDataTypeWithPrecision at accepted
  cases opened : (upper type_str).toList.findIdx? (· = '(') with
  | some open_paren =>
    simp only [opened] at accepted
    cases closed : (upper type_str).toList.findIdx? (· = ')') with
    | none =>
      simp only [closed] at accepted
      cases accepted
    | some close_paren =>
      simp only [closed] at accepted
      cases inside : parseU16 (trimBlanks (((upper type_str).toList.take close_paren).drop (open_paren+1))) with
      | none =>
        simp only [inside] at accepted
        cases accepted
      | some param =>
        simp only [inside] at accepted
        split at accepted
        · cases accepted
        · split at accepted
          · next listed =>
            cases accepted
            exact ⟨List.contains_iff_mem.mp listed,open_paren,rfl⟩
          · cases accepted
  | none =>
    simp only [opened] at accepted
    cases default : defaultPrecision (String.ofList (trimBlanks (upper type_str).toList)) with
    | none =>
      simp only [default] at accepted
      cases accepted
    | some precision =>
      simp only [default] at accepted
      have same := (Prod.mk.inj (Except.ok.inj accepted)).1
      rw [← same]
      exact ⟨defaultPrecision_known default,(upper type_str).toList.length,by rw [List.take_length]⟩

end TypeNames

def AlterTableOperation.column : AlterTableOperation → String
  | .addColumn name .. | .dropColumn name | .modifyColumn name .. => name
  | .renameColumn old_name _ => old_name

section Operations
variable (field_exists : Bool)

theorem alterOperation_cases (entry : ColumnEntry) :
    alterOperation field_exists entry = .ok none ∨
      ∃ operation, alterOperation field_exists entry = .ok (some operation) ∧ operation.column = entry.1 := by
  obtain ⟨field1,field2,primary_key,not_null,unique,auto_increment,default_val⟩ := entry
  unfold alterOperation
  by_cases dropped : field2 = "DROP"
  · exact .inr ⟨_,if_pos dropped,rfl⟩
  by_cases empty : field2 = ""
  · exact .inl ((if_neg dropped).trans (if_pos empty))
  right
  simp only [if_neg dropped,if_neg empty]
  cases accepted : parseDataTypeWithPrecision field2 with
  | error _ => exact ⟨_,rfl,rfl⟩
  | ok parts =>
    obtain ⟨base_type,size⟩ := parts
    obtain ⟨data_type,known⟩ :=
      Option.isSome_iff_exists.mp (known_altered base_type (parseDataTypeWithPrecision_known accepted).1)
    simp only [known]
    cases field_exists with
    | true => exact ⟨_,rfl,rfl⟩
    | false => exact ⟨_,rfl,rfl⟩

theorem alterOperation_drop (column : String) {mark : String} (marked : mark = "DROP") :
    alterOperation field_exists (column,mark,false,false,false,false,none) = .ok (some (.dropColumn column)) := by
  unfold alterOperation
  simp only [if_pos marked]

theorem alterOperation_untyped (column : String) {new_name : String} {failure : QueryExecutionError} (plain : new_name ≠ "DROP") (some : new_name ≠ "")
    (refused : parseDataTypeWithPrecision new_name = .error failure) :
    alterOperation field_exists (column,new_name,false,false,false,false,none) =
      .ok (.some (.renameColumn column new_name)) := by
  unfold alterOperation
  simp only [if_neg plain,if_neg some,refused]

theorem alterOperation_typed (column : String) {type_str base_type : String} {size : UInt16} {data_type : DataType}
    (accepted : parseDataTypeWithPrecision type_str = .ok (base_type,size))
    (known : alterDataType base_type = some data_type) :
    alterOperation field_exists (column,type_str,false,false,false,false,none) =
      .ok (some (if field_exists then .modifyColumn column data_type size none AlterStatement.noConstraint
        else .addColumn column data_type size none AlterStatement.noConstraint)) := by
  have plain : type_str ≠ "DROP" := by
    rintro rfl
    have refused := type_tables.2.2.1
    rw [accepted] at refused
    cases refused
  have some : type_str ≠ "" := by
    rintro rfl
    have refused := type_tables.2.2.2
    rw [accepted] at refused
    cases refused
  unfold alterOperation
  simp only [if_neg plain,if_neg some,accepted,known]
  cases field_exists with
  | true => rfl
  | false => rfl

end Operations

section Execution
variable (altering : Altering δ) (db : δ) (table_name : String)

theorem calling_calls (operation : AlterTableOperation) :
    (altering.calling table_name operation db).2.2 = [(table_name,operation)] := by
  unfold Altering.calling
  cases outcome : altering.alterTable table_name operation db with
  | mk result after =>
    cases result with
    | ok _ => rfl
    | error _ => rfl

theorem execute_one {entry : ColumnEntry} {operation : AlterTableOperation}
    (chosen : alterOperation ((altering.fields db table_name).contains entry.1) entry = .ok (some operation)) :
    executeAlterTable altering table_name [entry] db = altering.calling table_name operation db := by
  unfold executeAlterTable Altering.calling
  simp only [chosen]
  cases outcome : altering.alterTable table_name operation db with
  | mk result after =>
    cases result with
    | ok _ => rfl
    | error _ => rfl

theorem execute_never_refused (entry : ColumnEntry) (failure : QueryExecutionError) :
    executeAlterTable altering table_name [entry] db ≠ (.error failure,db,[]) := by
  intro refused
  rcases alterOperation_cases ((altering.fields db table_name).contains entry.1) entry with skipped | ⟨operation,chosen,_⟩
  · unfold executeAlterTable at refused
    simp only [skipped] at refused
    cases refused
  · have calls := calling_calls altering db table_name operation
    rw [← execute_one altering db table_name chosen,refused] at calls
    cases calls

theorem execute_calling_iff (entry : ColumnEntry) {chosen operation : AlterTableOperation}
    (choice : alterOperation ((altering.fields db table_name).contains entry.1) entry = .ok (some chosen)) :
    executeAlterTable altering table_name [entry] db = altering.calling table_name operation db ↔ chosen = operation := by
  rw [execute_one altering db table_name choice]
  constructor
  · intro same
    have calls := congrArg (fun outcome => outcome.2.2) same
    simp only [calling_calls] at calls
    exact (Prod.mk.inj (List.cons.inj calls).1).2
  · rintro rfl
    rfl

theorem execute_column {entry : ColumnEntry} {operation : AlterTableOperation}
    (same : executeAlterTable altering table_name [entry] db = altering.calling table_name operation db) :
    entry.1 = operation.column := by
  rcases alterOperation_cases ((altering.fields db table_name).contains entry.1) entry with skipped | ⟨chosen,choice,named⟩
  · have calls := calling_calls altering db table_name operation
    rw [← same] at calls
    unfold executeAlterTable at calls
    simp only [skipped] at calls
    cases calls
  · rw [← (execute_calling_iff altering db table_name _ choice).mp same,named]

end Execution

-- The new name of a column must not be taken for anything else, and the two
-- tables of type names must agree.
def Agreed (type_str : String) : Prop :=
  ∃ base_type size, parseDataTypeWithPrecision type_str = .ok (base_type,size) ∧ base_type ∈ agreedTypes

namespace AlterStatement
open SqlParser

def Unmistakable (columns : List String) (read : String) (statement : AlterStatement) : Prop :=
  Spoken statement.worded statement.column ∧
    match statement.alteration with
    | .add _ => columns.contains statement.column.name = false ∧ Agreed (upper read)
    | .drop => True
    | .modify _ => columns.contains statement.column.name = true ∧ Agreed (upper read)
    | .rename new_name =>
      new_name.name ≠ "DROP" ∧ ∃ failure, parseDataTypeWithPrecision new_name.name = .error failure

-- What executing the one entry has to be.
def Done (altering : Altering δ) (db : δ) (table_name : String) (entry : ColumnEntry) :
    Option AlterTableOperation → Prop
  | some operation =>
    executeAlterTable altering table_name [entry] db = altering.calling table_name operation db
  | none => ∃ failure, executeAlterTable altering table_name [entry] db = (.error failure,db,[])

section Execution
variable (altering : Altering δ) (db : δ) (table_name : String)

theorem not_done_refused (entry : ColumnEntry) : ¬ Done altering db table_name entry none :=
  fun ⟨failure,refused⟩ => execute_never_refused altering db table_name entry failure refused

-- A typed entry adds or changes with the type of the one table, where the type
-- of the other was to be passed.
theorem typed_done_iff (column type_str : String) (operation : DataType → UInt16 → AlterTableOperation)
    (chosen : ∀ data_type size, operation data_type size =
      if (altering.fields db table_name).contains column then .modifyColumn column data_type size none noConstraint
      else .addColumn column data_type size none noConstraint) :
    Done altering db table_name (column,type_str,false,false,false,false,none)
      ((createColumnType type_str).toOption.map fun typed => operation typed.1 typed.2) ↔ Agreed type_str := by
  unfold createColumnType Agreed
  cases accepted : parseDataTypeWithPrecision type_str with
  | error failure =>
    refine ⟨fun done => absurd done (not_done_refused altering db table_name _),?_⟩
    rintro ⟨_,_,accepted,_⟩
    cases accepted
  | ok parts =>
    obtain ⟨base_type,size⟩ := parts
    have known := (parseDataTypeWithPrecision_known accepted).1
    obtain ⟨altered,alters⟩ := Option.isSome_iff_exists.mp (known_altered base_type known)
    have agreed : (∃ base size', (.ok (base_type,size) : Except QueryExecutionError (String × UInt16)) = .ok (base,size') ∧
        base ∈ agreedTypes) ↔ createDataType base_type = some altered := by
      rw [← alters,eq_comm,known_agreed base_type known]
      constructor
      · rintro ⟨_,_,same,listed⟩
        cases same
        exact listed
      · exact fun listed => ⟨_,_,rfl,listed⟩
    rw [agreed]
    have choice := alterOperation_typed ((altering.fields db table_name).contains column) column accepted
      alters
    dsimp only
    cases created : createDataType base_type with
    | none =>
      refine ⟨fun done => absurd done (not_done_refused altering db table_name _),nofun⟩
    | some data_type =>
      change executeAlterTable altering table_name _ db = altering.calling table_name (operation data_type size) db ↔ _
      rw [execute_calling_iff altering db table_name _ choice,chosen,Option.some.injEq]
      constructor
      · intro same
        split at same
        · cases same
          rfl
        · cases same
          rfl
      · rintro rfl
        rfl

end Execution

theorem name_ne_empty (identifier : Identifier) : identifier.name ≠ "" := by
  intro empty
  have bytes := identifier.utf8_name
  rw [empty] at bytes
  cases bytes

section Meaning
variable (texts : Renderings) (others : QueryType → Parse AccessQuery) (altering : Altering δ) (db : δ)
  (statement : AlterStatement) {read : String}

theorem does_iff {after : SqlParser} {entry : ColumnEntry}
    (parsed : (parse (withAlterTable texts others)).run (.new statement.text) =
      .ok (alterQuery statement.table entry) after) :
    DoesWhatItSays texts others altering db statement read ↔
      Done altering db statement.table.name entry (statement.wanted (altering.fields db statement.table.name) read) := by
  unfold DoesWhatItSays
  rw [parsed]
  constructor
  · rintro ⟨query,_,same,_,executed⟩
    cases same
    cases chosen : statement.wanted (altering.fields db statement.table.name) read with
    | none =>
      rw [chosen] at executed
      exact executed
    | some operation =>
      rw [chosen] at executed
      exact executed
  · intro done
    refine ⟨_,_,rfl,rfl,?_⟩
    cases chosen : statement.wanted (altering.fields db statement.table.name) read with
    | none =>
      rw [chosen] at done
      exact done
    | some operation =>
      rw [chosen] at done
      exact done

theorem done_iff (spoken : Spoken statement.worded statement.column) :
    Done altering db statement.table.name (statement.entry read)
        (statement.wanted (altering.fields db statement.table.name) read) ↔
      statement.Unmistakable (altering.fields db statement.table.name) read := by
  unfold entry wanted Unmistakable
  rw [and_iff_right spoken]
  cases statement.alteration with
  | add column_type =>
    dsimp only
    cases there : (altering.fields db statement.table.name).contains statement.column.name with
    | true =>
      rw [if_pos rfl]
      exact ⟨fun done => absurd done (not_done_refused altering db _ _),nofun⟩
    | false =>
      rw [if_neg Bool.false_ne_true,and_iff_right rfl]
      exact typed_done_iff altering db _ _ (upper read)
        (fun data_type size => .addColumn statement.column.name data_type size none noConstraint)
        fun _ _ => by rw [there,if_neg Bool.false_ne_true]
  | modify column_type =>
    dsimp only
    cases there : (altering.fields db statement.table.name).contains statement.column.name with
    | true =>
      rw [if_pos rfl,and_iff_right rfl]
      exact typed_done_iff altering db _ _ (upper read)
        (fun data_type size => .modifyColumn statement.column.name data_type size none noConstraint)
        fun _ _ => by rw [there,if_pos rfl]
    | false =>
      rw [if_neg Bool.false_ne_true]
      exact ⟨fun done => absurd done (not_done_refused altering db _ _),nofun⟩
  | drop => exact ⟨fun _ => trivial,fun _ => execute_one altering db _ (alterOperation_drop _ _ rfl)⟩
  | rename new_name =>
    change executeAlterTable altering _ [_] db = altering.calling _ _ db ↔ _
    let entry : ColumnEntry := (statement.column.name,new_name.name,false,false,false,false,none)
    by_cases plain : new_name.name = "DROP"
    · have choice := alterOperation_drop
        ((altering.fields db statement.table.name).contains statement.column.name) statement.column.name plain
      rw [execute_calling_iff altering db statement.table.name entry choice]
      exact ⟨fun same => (nomatch same),fun ⟨other,_⟩ => absurd plain other⟩
    · cases accepted : parseDataTypeWithPrecision new_name.name with
      | error failure =>
        have choice := alterOperation_untyped
          ((altering.fields db statement.table.name).contains statement.column.name)
          statement.column.name plain (name_ne_empty new_name) accepted
        rw [execute_calling_iff altering db statement.table.name entry choice]
        exact ⟨fun _ => ⟨plain,failure,accepted⟩,fun _ => rfl⟩
      | ok parts =>
        obtain ⟨base_type,size⟩ := parts
        obtain ⟨data_type,known⟩ :=
          Option.isSome_iff_exists.mp (known_altered base_type (parseDataTypeWithPrecision_known accepted).1)
        have choice := alterOperation_typed
          ((altering.fields db statement.table.name).contains statement.column.name) statement.column.name accepted known
        rw [execute_calling_iff altering db statement.table.name entry choice]
        constructor
        · intro same
          split at same
          · cases same
          · cases same
        · rintro ⟨_,failure,refused⟩
          have both := accepted.symm.trans refused
          cases both

end Meaning

end AlterStatement

namespace SqlParser

section Swallowed
variable (texts : Renderings) (before : Bytes)

-- What is in front when a name has been taken for the word COLUMN.
def leftOver (column : Identifier) (after : Bytes) : Bytes :=
  (column.bytes.drop (utf8 "COLUMN").length ++ after).dropWhile isWhitespace

theorem dropWhile_eq_drop (rest : Bytes) :
    rest.drop (rest.takeWhile isWhitespace).length = rest.dropWhile isWhitespace := by
  induction rest with
  | nil => rfl
  | cons first rest ih =>
    by_cases blank : isWhitespace first = true
    · rw [List.takeWhile_cons_of_pos blank,List.dropWhile_cons_of_pos blank]
      exact ih
    · rw [List.takeWhile_cons_of_neg blank,List.dropWhile_cons_of_neg blank]
      rfl

theorem optionalColumn_swallows {column : Identifier} (stops : Stops after)
    (swallowed : keywordAt (utf8 "COLUMN") column.bytes = true) :
    ∃ parser : SqlParser, optionalColumn.run (facing before (32 :: (column.bytes ++ after))) = .ok () parser ∧
      parser.rest = leftOver column after := by
  have blank : skipWhitespace.run (facing before (32 :: (column.bytes ++ after))) =
      .ok () (facing (before ++ [32]) (column.bytes ++ after)) := skips_blank _ (starts_in column.starts)
  have found : keywordAt (utf8 "COLUMN") (facing (before ++ [32]) (column.bytes ++ after)).rest = true := by
    rw [facing_rest,keywordAt_name column_letters stops]
    exact swallowed
  unfold optionalColumn
  rw [run_bind_of_ok blank,with_keyword "COLUMN" found]
  refine ⟨_,rfl,?_⟩
  rw [rest_advance,dropWhile_eq_drop,rest_advance,facing_rest,
    List.drop_append_of_le_length (keywordAt_length swallowed)]
  rfl

theorem named_first {parser after : SqlParser} {next : String → Parse ColumnEntry} {entry : ColumnEntry}
    (kept : ∀ name, Ensures (fun entry => entry.1 = name) (next name))
    (read : (parseIdentifier >>= next).run parser = .ok entry after) :
    identifierLength parser.rest ≠ 0 ∧ entry.1 = latin (parser.rest.take (identifierLength parser.rest)) := by
  obtain ⟨name,middle,named,further⟩ := run_bind_ok read
  obtain ⟨some,spelled,_⟩ := parseIdentifier_ok named
  exact ⟨some,(kept name middle entry after further).trans spelled⟩

theorem definition_named {parser after : SqlParser} {entry : ColumnEntry}
    (read : (parseColumnDefinition texts).run parser = .ok entry after) :
    identifierLength parser.rest ≠ 0 ∧ entry.1 = latin (parser.rest.take (identifierLength parser.rest)) :=
  named_first (fun _ => ensures_bind _ fun _ => ensures_bind _ fun _ => ensures_bind _ fun _ => ensures_bind _ fun _ =>
    ensures_pure rfl) read

end Swallowed

end SqlParser

namespace AlterStatement
open SqlParser

theorem behind_stops (alteration : Alteration) : Stops (utf8 alteration.behind) := by
  cases alteration with
  | add column_type => exact .inr ⟨_,utf8_append _ _⟩
  | drop => exact .inl rfl
  | modify column_type => exact .inr ⟨_,utf8_append _ _⟩
  | rename new_name => exact .inr ⟨_,utf8_append _ _⟩

theorem tail_unworded (statement : AlterStatement) {verb : Bytes} (unworded : statement.worded = false)
    (spelled : utf8 statement.alteration.verb = verb ++ [32]) :
    statement.tail = verb ++ 32 :: (statement.column.bytes ++ utf8 statement.alteration.behind) := by
  have nothing : wordBytes false = [] := rfl
  rw [tail,spelled,unworded,nothing,List.nil_append,List.append_assoc,List.singleton_append]

theorem swallowed_entry (texts : Renderings) (statement : AlterStatement) {entry : ColumnEntry} {middle : SqlParser}
    (unworded : statement.worded = false)
    (swallowed : keywordAt (utf8 "COLUMN") statement.column.bytes = true)
    (read : (parseAlteration texts).run (facing (behindTable statement.table) statement.tail) = .ok entry middle) :
    let rest := leftOver statement.column (utf8 statement.alteration.behind)
    identifierLength rest ≠ 0 ∧ entry.1 = latin (rest.take (identifierLength rest)) := by
  have word (verb : String) := optionalColumn_swallows (behindTable statement.table ++ utf8 verb)
    (behind_stops statement.alteration) swallowed
  cases altered : statement.alteration with
  | add column_type =>
    have spelled : utf8 statement.alteration.verb = utf8 "ADD" ++ [32] := by
      rw [altered]
      rfl
    obtain ⟨parser,worded,standing⟩ := word "ADD"
    rw [statement.tail_unworded unworded spelled,alteration_add,run_bind_of_ok worded] at read
    rw [← altered,← standing]
    exact definition_named texts read
  | modify column_type =>
    have spelled : utf8 statement.alteration.verb = utf8 "MODIFY" ++ [32] := by
      rw [altered]
      rfl
    obtain ⟨parser,worded,standing⟩ := word "MODIFY"
    rw [statement.tail_unworded unworded spelled,alteration_modify,run_bind_of_ok worded] at read
    rw [← altered,← standing]
    exact definition_named texts read
  | drop =>
    have spelled : utf8 statement.alteration.verb = utf8 "DROP" ++ [32] := by
      rw [altered]
      rfl
    obtain ⟨parser,worded,standing⟩ := word "DROP"
    rw [statement.tail_unworded unworded spelled,alteration_drop,run_bind_of_ok worded] at read
    rw [← altered,← standing]
    exact named_first (fun _ => ensures_pure rfl) read
  | rename new_name =>
    have spelled : utf8 statement.alteration.verb = utf8 "RENAME" ++ [32] := by
      rw [altered]
      rfl
    obtain ⟨parser,worded,standing⟩ := word "RENAME"
    rw [statement.tail_unworded unworded spelled,alteration_rename,run_bind_of_ok worded] at read
    rw [← altered,← standing]
    exact named_first (fun _ => ensures_bind _ fun _ => ensures_bind _ fun _ => ensures_bind _ fun _ => ensures_bind _ fun _ =>
      ensures_pure rfl) read

end AlterStatement

namespace SqlParser

theorem latin_length (bytes : Bytes) : (latin bytes).length = bytes.length := by
  rw [latin,String.length_ofList,List.length_map]

theorem leftOver_short {column : Identifier} (stops : Stops after)
    (longer : column.bytes.drop (utf8 "COLUMN").length ≠ []) :
    identifierLength (leftOver column after) + (utf8 "COLUMN").length ≤ column.bytes.length := by
  have length := List.length_drop (i := (utf8 "COLUMN").length) (l := column.bytes)
  have word : (column.bytes.drop (utf8 "COLUMN").length).all inIdentifier = true := by
    rw [List.all_eq_true]
    exact fun byte member => List.all_eq_true.mp column.bytes_word byte (List.mem_of_mem_drop member)
  unfold leftOver
  cases rest : column.bytes.drop (utf8 "COLUMN").length with
  | nil => exact absurd rest longer
  | cons first others =>
    rw [rest,List.length_cons] at length
    rw [rest,List.all_cons,Bool.and_eq_true] at word
    have solid : ¬ isWhitespace first = true := by
      rw [identifier_solid word.1]
      exact Bool.false_ne_true
    rw [List.cons_append,List.dropWhile_cons_of_neg solid,identifierLength]
    split
    · rw [takeWhile_append_stop word.2 (stops_word stops)]
      omega
    · omega

section TypeText

theorem ensures_ite {property : α → Prop} {condition : Prop} [Decidable condition] {first second : Parse α}
    (left : Ensures property first) (right : Ensures property second) :
    Ensures property (if condition then first else second) := by
  split
  · exact left
  · exact right

-- The text of a type goes on from the name it begins with.
def Begins (front text : String) : Prop := ∃ more, text = front ++ more

theorem Begins.append (begins : Begins front text) (more : String) : Begins front (text ++ more) := by
  obtain ⟨between,rfl⟩ := begins
  exact ⟨between ++ more,String.append_assoc⟩

theorem parseWithModifier_begins (begins : Begins front text) : Ensures (Begins front) (parseWithModifier text) := by
  unfold parseWithModifier
  refine ensures_bind _ fun _ => ensures_bind _ fun next => ?_
  cases next with
  | none => exact ensures_pure begins
  | some next =>
    refine ensures_bind _ fun _ => ensures_bind _ fun token => ?_
    cases token with
    | none => exact ensures_pure begins
    | some token =>
      refine ensures_ite (ensures_pure begins) ?_
      refine ensures_bind _ fun with_modifier => ensures_bind _ fun _ => ensures_bind _ fun _ => ensures_ite ?_ ?_
      · refine ensures_bind _ fun value => ensures_pure ?_
        exact (((begins.append _).append _).append _).append _
      · exact ensures_pure ((begins.append _).append _)

theorem parseDataType_begins {parser after : SqlParser} {read : String}
    (typed : parseDataType.run parser = .ok read after) :
    Begins (latin (parser.rest.take (identifierLength parser.rest))) read := by
  obtain ⟨base_type,middle,named,further⟩ := run_bind_ok typed
  rw [← (parseIdentifier_ok named).2.1]
  have own : Begins base_type base_type := ⟨"",String.append_empty.symm⟩
  refine ensures_bind _ (fun _ => ?_) middle read after further
  refine ensures_bind _ fun parameters => ensures_bind _ fun _ => ensures_bind _ fun next => ?_
  cases next with
  | none => exact ensures_pure (own.append _)
  | some next =>
    refine ensures_bind _ fun _ => ensures_bind _ fun token => ensures_ite (ensures_pure (own.append _)) ?_
    refine ensures_bind _ fun modifier => ensures_ite ?_ ?_
    · exact parseWithModifier_begins (((own.append _).append _).append _)
    · exact ensures_pure (((own.append _).append _).append _)

-- The word COLUMN, however it is written.
theorem column_letter {byte letter : UInt8} (among : letter ∈ utf8 "COLUMN") (same : lower byte = lower letter) :
    upperChar (Char.ofNat byte.toNat) = Char.ofNat letter.toNat := by
  have two : byte = letter ∨ byte = letter+32 := by
    have upperLetter := (column_spelt letter among).2.1
    have other : lower letter = letter+32 := if_pos upperLetter
    rw [other,lower] at same
    split at same
    · exact .inl ((UInt8.add_left_inj 32).mp same)
    · exact .inr same
  rcases two with rfl | rfl
  · exact (column_spelt byte among).2.2.1
  · exact (column_spelt letter among).2.2.2

theorem column_upper {bytes : Bytes} (same : bytes.map lower = (utf8 "COLUMN").map lower) :
    (latin bytes).toList.map upperChar = "COLUMN".toList := by
  have general (letters : Bytes) (among : ∀ letter ∈ letters, letter ∈ utf8 "COLUMN") (bytes : Bytes)
      (same : bytes.map lower = letters.map lower) :
      bytes.map (fun byte => upperChar (Char.ofNat byte.toNat)) = letters.map fun letter => Char.ofNat letter.toNat := by
    induction letters generalizing bytes with
    | nil =>
      rw [List.map_eq_nil_iff.mp same]
      rfl
    | cons letter letters ih =>
      cases bytes with
      | nil => cases same
      | cons first rest =>
        obtain ⟨first_same,rest_same⟩ := List.cons.inj same
        rw [List.map_cons,List.map_cons,column_letter (among letter List.mem_cons_self) first_same,
          ih (fun each member => among each (List.mem_cons_of_mem _ member)) rest rest_same]
  rw [latin,String.toList_ofList,List.map_map]
  exact general _ (fun _ member => member) bytes same

end TypeText

end SqlParser

section ColumnType

theorem trimBlanks_begins {text : List Char} (solid : (text.head?.any TimeString.isSpace) = false) :
    trimBlanks text <+: text := by
  have front : text.dropWhile TimeString.isSpace = text := by
    cases text with
    | nil => rfl
    | cons first rest => exact List.dropWhile_cons_of_neg (by rw [show TimeString.isSpace first = false from solid]; exact Bool.false_ne_true)
  rw [trimBlanks,front]
  have suffix := List.dropWhile_suffix (p := TimeString.isSpace) (l := text.reverse)
  have turned := List.reverse_prefix.mpr suffix
  rwa [List.reverse_reverse] at turned

theorem column_no_type {type_str : String} (begins : "COLUMN".toList <+: type_str.toList) :
    (createColumnType type_str).toOption = none := by
  unfold createColumnType
  cases accepted : parseDataTypeWithPrecision type_str with
  | error _ => rfl
  | ok parts =>
    obtain ⟨base_type,size⟩ := parts
    obtain ⟨known,count,named⟩ := parseDataTypeWithPrecision_known accepted
    have front : "COLUMN".toList <+: (upper type_str).toList := by
      have letters : (upper type_str).toList = type_str.toList.map upperChar := String.toList_ofList
      rw [letters]
      exact List.IsPrefix.map upperChar begins
    obtain ⟨more,standing⟩ := front
    have solid : (((upper type_str).toList.take count).head?.any TimeString.isSpace) = false := by
      rw [← standing]
      cases count with
      | zero => rfl
      | succ count =>
        change TimeString.isSpace _ = false
        decide
    have inside : base_type.toList <+: (upper type_str).toList := by
      rw [named,String.toList_ofList]
      exact (trimBlanks_begins solid).trans (List.take_prefix _ _)
    have either := List.prefix_or_prefix_of_prefix inside ⟨more,standing⟩
    exact absurd either (not_or.mpr (type_tables.1 base_type known).2.2)

end ColumnType

namespace AlterStatement
open SqlParser
variable (statement : AlterStatement)

theorem wanted_column {columns : List String} {read : String} {operation : AlterTableOperation}
    (wanted : statement.wanted columns read = some operation) : operation.column = statement.column.name := by
  unfold AlterStatement.wanted at wanted
  cases altered : statement.alteration with
  | add column_type =>
    simp only [altered] at wanted
    split at wanted
    · cases wanted
    · obtain ⟨_,_,rfl⟩ := Option.map_eq_some_iff.mp wanted
      rfl
  | drop =>
    simp only [altered] at wanted
    cases wanted
    rfl
  | modify column_type =>
    simp only [altered] at wanted
    split at wanted
    · obtain ⟨_,_,rfl⟩ := Option.map_eq_some_iff.mp wanted
      rfl
    · cases wanted
  | rename new_name =>
    simp only [altered] at wanted
    cases wanted
    rfl

theorem typed_column (column_type : String) {read : String} {columns : List String}
    (typing : statement.alteration = .add column_type ∨ statement.alteration = .modify column_type)
    (begins : "COLUMN".toList <+: (upper read).toList) : statement.wanted columns read = none := by
  unfold wanted
  rcases typing with altered | altered
  · simp only [altered,column_no_type begins,Option.map_none,ite_self]
  · simp only [altered,column_no_type begins,Option.map_none,ite_self]

theorem leftOver_type {column : Identifier} {column_type : Bytes} {first : UInt8} {rest : Bytes}
    (alone : column.bytes.drop (utf8 "COLUMN").length = []) (starts : column_type = first :: rest)
    (letter : startsIdentifier first = true) : leftOver column (32 :: column_type) = column_type := by
  have solid : ¬ isWhitespace first = true := by
    rw [identifier_solid (starts_in letter)]
    exact Bool.false_ne_true
  rw [leftOver,alone,List.nil_append,List.dropWhile_cons_of_pos (by decide),starts,List.dropWhile_cons_of_neg solid]

-- Where the column is the word COLUMN itself, the type is read in its place.
theorem type_for_column (columns : List String) (column_type : String) {read : String} {verb : Bytes}
    (typing : statement.alteration = .add column_type ∨ statement.alteration = .modify column_type)
    (spelled : utf8 statement.alteration.verb = verb ++ [32])
    (typed : statement.Typed read) (swallowed : keywordAt (utf8 "COLUMN") statement.column.bytes = true)
    (alone : statement.column.bytes.drop (utf8 "COLUMN").length = [])
    (named : statement.column.name = latin ((leftOver statement.column (utf8 statement.alteration.behind)).take
      (identifierLength (leftOver statement.column (utf8 statement.alteration.behind))))) :
    statement.wanted columns read = none := by
  have behind : statement.alteration.behind = " " ++ column_type := by
    rcases typing with altered | altered
    · rw [altered]
      rfl
    · rw [altered]
      rfl
  have placed : parseDataType.run ⟨utf8 statement.text,(utf8 (statement.front ++ " ")).length⟩ =
      .ok read ⟨utf8 statement.text,(utf8 statement.text).length⟩ := by
    unfold Typed at typed
    rcases typing with altered | altered
    · rw [altered] at typed
      exact typed
    · rw [altered] at typed
      exact typed
  have placed := statement.type_place column_type spelled behind placed
  obtain ⟨first,rest,standing,letter⟩ := parseDataType_starts placed
  have begins := parseDataType_begins placed
  rw [facing_rest] at standing begins
  rw [behind,utf8_append,show utf8 " " ++ utf8 column_type = 32 :: utf8 column_type from rfl,
    leftOver_type alone standing letter] at named
  rw [← named] at begins
  refine statement.typed_column column_type typing ?_
  obtain ⟨more,rfl⟩ := begins
  have whole : statement.column.bytes.take (utf8 "COLUMN").length = statement.column.bytes := by
    rw [List.take_of_length_le (List.drop_eq_nil_iff.mp alone)]
  have word := (keywordAt_found swallowed).1
  rw [whole] at word
  have letters : (upper (statement.column.name ++ more)).toList =
      (statement.column.name.toList ++ more.toList).map upperChar := by
    rw [upper,String.toList_ofList,String.toList_append]
  rw [letters,List.map_append,Identifier.name,column_upper word]
  exact List.prefix_append _ _

section Meaning
variable (texts : Renderings) (others : QueryType → Parse AccessQuery) (altering : Altering δ) (db : δ) {read : String}

theorem swallowed_not_done (typed : statement.Typed read) (unworded : statement.worded = false)
    (swallowed : keywordAt (utf8 "COLUMN") statement.column.bytes = true) :
    ¬ DoesWhatItSays texts others altering db statement read := by
  rintro ⟨query,after,parsed,_,executed⟩
  obtain ⟨first,rest,starts,word⟩ : ∃ first rest, statement.tail = first :: rest ∧ inIdentifier first = true := by
    unfold tail
    cases statement.alteration <;> exact ⟨_,_,rfl,by decide⟩
  rw [new_text,starts] at parsed
  obtain ⟨entry,middle,reading,rfl⟩ := parse_alter_ok texts others statement.table word parsed
  rw [← starts] at reading
  obtain ⟨some,named⟩ := swallowed_entry texts statement unworded swallowed reading
  cases wanted : statement.wanted (altering.fields db statement.table.name) read with
  | none =>
    rw [wanted] at executed
    exact not_done_refused altering db _ entry executed
  | some operation =>
    rw [wanted] at executed
    have column := (execute_column altering db _ executed).trans (statement.wanted_column wanted)
    rw [named] at column
    have lengths := congrArg String.length column
    rw [latin_length,Identifier.name,latin_length,List.length_take] at lengths
    have enough := keywordAt_length swallowed
    have six : (utf8 "COLUMN").length = 6 := rfl
    by_cases alone : statement.column.bytes.drop (utf8 "COLUMN").length = []
    · cases altered : statement.alteration with
      | add column_type =>
        have refused := statement.type_for_column (altering.fields db statement.table.name) column_type (.inl altered)
          (show _ = utf8 "ADD" ++ [32] by rw [altered]; rfl) typed swallowed alone column.symm
        rw [wanted] at refused
        cases refused
      | modify column_type =>
        have refused := statement.type_for_column (altering.fields db statement.table.name) column_type (.inr altered)
          (show _ = utf8 "MODIFY" ++ [32] by rw [altered]; rfl) typed swallowed alone column.symm
        rw [wanted] at refused
        cases refused
      | drop =>
        rw [altered,leftOver,alone] at some
        exact some rfl
      | rename new_name =>
        have two : identifierLength (leftOver statement.column (utf8 (Alteration.rename new_name).behind)) = 2 := by
          rw [leftOver,alone,Alteration.behind,utf8_append]
          rfl
        rw [altered,two] at lengths
        omega
    · have short := leftOver_short (behind_stops statement.alteration) alone
      omega

end Meaning

end AlterStatement

-- An ALTER TABLE is the call it names if and only if its names cannot be taken
-- for anything else, its column is there or not as the verb has it, and its type
-- is one that CREATE TABLE takes for the same.
theorem alter_text_effective (texts : Renderings) (others : QueryType → Parse AccessQuery) (altering : Altering δ) (db : δ)
    (statement : AlterStatement) (read : String) (typed : statement.Typed read) :
    DoesWhatItSays texts others altering db statement read ↔
      statement.Unmistakable (altering.fields db statement.table.name) read := by
  by_cases spoken : SqlParser.Spoken statement.worded statement.column
  · obtain ⟨after,parsed⟩ := statement.parses texts others spoken typed
    rw [AlterStatement.does_iff texts others altering db statement parsed]
    exact AlterStatement.done_iff altering db statement spoken
  · obtain ⟨worded,swallowed⟩ := not_or.mp spoken
    have never := statement.swallowed_not_done texts others altering db typed (Bool.eq_false_iff.mpr worded)
      (Bool.not_eq_false _ ▸ swallowed)
    exact ⟨fun done => absurd done never,fun held => absurd held.1 spoken⟩

section Example

def noOther : QueryType → Parse AccessQuery := fun _ => reject .invalidSyntax

def oneColumn : Altering Unit := ⟨fun _ _ => ["a"],fun _ _ db => (.ok (),db)⟩

def letter (byte : UInt8) (starts : SqlParser.startsIdentifier byte = true) : Identifier := ⟨byte,[],starts,Eq.refl true⟩
def addition : AlterStatement := ⟨letter 116 (by decide),letter 98 (by decide),true,.add "BIGINT"⟩

theorem addition_typed : addition.Typed "BIGINT" := by
  unfold AlterStatement.Typed
  rfl

theorem alter_text_effective_bigint : DoesWhatItSays noTexts.toRenderings noOther oneColumn () addition "BIGINT" :=
  (alter_text_effective noTexts.toRenderings noOther oneColumn () addition "BIGINT" addition_typed).mpr
    ⟨.inl rfl,by decide +kernel,"BIGINT",8,by decide +kernel,by decide +kernel⟩

def renamed : AlterStatement := ⟨letter 116 (by decide),letter 97 (by decide),true,.rename ⟨105,[110,116],by decide,by decide⟩⟩

-- A column that is to be called "int" is given that type.
theorem rename_modifies :
    (∃ query after, (SqlParser.parse (SqlParser.withAlterTable noTexts.toRenderings noOther)).run (.new renamed.text) =
        .ok query after ∧
      executeAlterTable oneColumn query.table_name query.table_def () =
        (.ok (),(),[("t",.modifyColumn "a" .int64 8 none ⟨false,false,false,false⟩)])) ∧
      ¬ DoesWhatItSays noTexts.toRenderings noOther oneColumn () renamed "" := by
  have typed : renamed.Typed "" := trivial
  obtain ⟨after,parsed⟩ := renamed.parses noTexts.toRenderings noOther (.inl rfl) typed
  have executed : executeAlterTable oneColumn "t" [renamed.entry ""] () =
      (.ok (),(),[("t",.modifyColumn "a" .int64 8 none ⟨false,false,false,false⟩)]) :=
    execute_one oneColumn () "t" (by decide +kernel)
  refine ⟨⟨_,_,parsed,executed⟩,?_⟩
  rw [AlterStatement.does_iff noTexts.toRenderings noOther oneColumn () renamed parsed]
  intro done
  have same := congrArg (fun outcome => outcome.2.2) (executed.symm.trans done)
  cases same

end Example

end RemDb
