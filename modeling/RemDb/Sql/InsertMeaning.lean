import RemDb.Sql.InsertLiterals

namespace RemDb
open RemDb.Lib

namespace SqlParser

section Lists
variable {texts : Renderings} {next : UInt8} {more : Bytes}

def joinBytes : List Bytes → Bytes
  | [] => []
  | [text] => text
  | text :: other :: rest => text ++ 44 :: 32 :: joinBytes (other :: rest)

theorem utf8_intercalate (parts : List String) : utf8 (", ".intercalate parts) = joinBytes (parts.map utf8) := by
  induction parts with
  | nil => rfl
  | cons part rest ih =>
    cases rest with
    | nil => exact congrArg utf8 String.intercalate_singleton
    | cons other rest =>
      rw [String.intercalate_cons_cons,utf8_append,utf8_append,ih,List.append_assoc]
      rfl

theorem joinBytes_length (parts : List Bytes) : parts.length ≤ (joinBytes parts).length+1 := by
  induction parts with
  | nil => exact Nat.zero_le _
  | cons part rest ih =>
    cases rest with
    | nil => exact Nat.succ_le_succ (Nat.zero_le _)
    | cons other rest =>
      rw [joinBytes,List.length_append]
      simp only [List.length_cons] at ih ⊢
      omega

theorem no_white : ([] : Bytes).all isWhitespace = true := rfl
theorem one_blank : ([32] : Bytes).all isWhitespace = true := rfl
theorem line_end : ([10] : Bytes).all isWhitespace = true := rfl
theorem line_end_blank : ([10,32] : Bytes).all isWhitespace = true := rfl

theorem skips_white {white : Bytes} (all : white.all isWhitespace = true) {first : UInt8} (solid : isWhitespace first = false)
    (before rest : Bytes) :
    skipWhitespace.run (facing before (white ++ first :: rest)) = .ok () (facing (before ++ white) (first :: rest)) := by
  change EStateM.Result.ok () ((facing before (white ++ first :: rest)).advance
    ((facing before (white ++ first :: rest)).rest.takeWhile isWhitespace).length) = _
  rw [facing_rest,takeWhile_append_stop all (show ((first :: rest).head?.any isWhitespace) = false from solid),facing_advance]

theorem matches_char (byte : UInt8) (before rest : Bytes) :
    (matchChar byte).run (facing before (byte :: rest)) = .ok true (facing (before ++ [byte]) rest) :=
  (matchChar_found (by rw [facing_rest]; rfl)).trans (congrArg _ (facing_advance before [byte] rest))

theorem passes_char {byte first : UInt8} (other : first ≠ byte) (before rest : Bytes) :
    (matchChar byte).run (facing before (first :: rest)) = .ok false (facing before (first :: rest)) :=
  matchChar_refused (by rw [facing_rest]; exact fun same => other (Option.some.inj same))

def Starts (text : Bytes) : Prop := ∀ next more, Delimits next →
  ∃ first rest, text ++ next :: more = first :: rest ∧ isWhitespace first = false

theorem listed_round (element : Parse α) {text : Bytes} {value : α} (reads : Reads element text value)
    (starts : Starts text) {lead : Bytes} (white : lead.all isWhitespace = true) (delimits : Delimits next) (fuel : Nat)
    (listed : List α) (before : Bytes) :
    (parseListed element (fuel+1) listed).run (facing before (lead ++ (text ++ next :: more))) =
      (do
        if ← matchChar 41 then pure (listed ++ [value])
        else if ← matchChar 44 then parseListed element fuel (listed ++ [value])
        else reject .invalidSyntax : Parse (List α)).run (facing (before ++ lead ++ text) (next :: more)) := by
  obtain ⟨first,rest,front,solid⟩ := starts next more delimits
  have skipped : skipWhitespace.run (facing before (lead ++ (text ++ next :: more))) =
      .ok () (facing (before ++ lead) (text ++ next :: more)) := by
    rw [front]
    exact skips_white white solid before rest
  have behind : skipWhitespace.run (facing (before ++ lead ++ text) (next :: more)) =
      .ok () (facing (before ++ lead ++ text) (next :: more)) :=
    skips_nothing _ (delimits_byte delimits).2.2.2.2.2.2.1
  rw [parseListed,run_bind_of_ok skipped,run_bind_of_ok (reads (before ++ lead) next more delimits),run_bind_of_ok behind]

theorem listed_reads (element : Parse α) {items : List Bytes} {values : List α}
    (reads : List.Forall₂ (fun text value => Reads element text value ∧ Starts text) items values) (filled : items ≠ [])
    {lead : Bytes} (white : lead.all isWhitespace = true) {fuel : Nat} (enough : items.length ≤ fuel) (listed : List α)
    (before more : Bytes) :
    ∃ behind, (parseListed element fuel listed).run (facing before (lead ++ (joinBytes items ++ 41 :: more))) =
      .ok (listed ++ values) (facing behind more) := by
  induction reads generalizing lead fuel listed before with
  | nil => exact absurd rfl filled
  | @cons text value items values first others ih =>
    obtain ⟨fuel,rfl⟩ : ∃ rest, fuel = rest+1 := ⟨fuel-1,by rw [List.length_cons] at enough; omega⟩
    cases items with
    | nil =>
      cases others
      refine ⟨before ++ lead ++ text ++ [41],?_⟩
      rw [joinBytes,listed_round element first.1 first.2 white (.inr rfl),run_bind_of_ok (matches_char 41 _ _)]
      rfl
    | cons other rest =>
      rw [List.length_cons] at enough
      obtain ⟨behind,run⟩ := ih (List.cons_ne_nil _ _) one_blank (Nat.le_of_succ_le_succ enough) (listed ++ [value])
        (before ++ lead ++ text ++ [44])
      refine ⟨behind,?_⟩
      have text_eq : joinBytes (text :: other :: rest) ++ 41 :: more =
          text ++ 44 :: ([32] ++ (joinBytes (other :: rest) ++ 41 :: more)) := by
        rw [joinBytes,List.append_assoc]
        rfl
      rw [text_eq,listed_round element first.1 first.2 white (.inl rfl),run_bind_of_ok (passes_char (by decide) _ _)]
      change (do
        if ← matchChar 44 then parseListed element fuel (listed ++ [value])
        else reject .invalidSyntax : Parse (List α)).run _ = _
      rw [run_bind_of_ok (matches_char 44 _ _)]
      change (parseListed element fuel (listed ++ [value])).run _ = _
      rw [run,List.append_assoc]
      rfl

theorem value_starts (value : String) : Starts (utf8 (quoteValue value)) := by
  intro next more delimits
  cases plain : looksPlain value with
  | false =>
    rw [quoteValue_quoted plain]
    exact ⟨39,_,rfl,by decide⟩
  | true =>
    rw [quoteValue_plain plain]
    by_cases truth : value = "true" ∨ value = "false"
    · rcases truth with rfl | rfl
      · exact ⟨116,_,rfl,by decide⟩
      · exact ⟨102,_,rfl,by decide⟩
    · by_cases empty : utf8 value = []
      · rw [empty]
        exact ⟨next,more,rfl,(delimits_byte delimits).2.2.2.2.2.2.1⟩
      · obtain ⟨first,rest,front⟩ := List.exists_cons_of_ne_nil empty
        refine ⟨first,rest ++ next :: more,by rw [front]; rfl,?_⟩
        -- A bare value has digits, dots and signs.
        obtain ⟨ascii,_⟩ := plain_bytes plain truth
        have member : first ∈ utf8 value := by
          rw [front]
          exact List.mem_cons_self
        rw [utf8_of_ascii ascii] at member
        obtain ⟨letter,inside,rfl⟩ := List.mem_map.mp member
        rcases plain_letters plain truth letter inside with digit | rfl | rfl
        · have range := digit_range digit
          have same : (UInt8.ofNat letter.toNat).toNat = letter.toNat := UInt8.toNat_ofNat_of_lt' (by unfold UInt8.size; omega)
          simp only [isWhitespace,Bool.or_eq_false_iff,decide_eq_false_iff_not,UInt8.le_iff_toNat_le,← UInt8.toNat_inj,same]
          change ¬ (9 ≤ letter.toNat ∧ letter.toNat ≤ 13) ∧ ¬ (letter.toNat = 32 ∨ letter.toNat = 133 ∨ letter.toNat = 160)
          omega
        · decide
        · decide

theorem values_read {values : List String} (comes : ∀ value ∈ values, ComesThrough texts value) :
    ∃ literals, List.Forall₂ (fun text literal => Reads (parseValue texts) text literal ∧ Starts text)
        (values.map fun value => utf8 (quoteValue value)) literals ∧ List.Forall₂ (Denotes texts) values literals := by
  induction values with
  | nil => exact ⟨[],.nil,.nil⟩
  | cons value rest ih =>
    obtain ⟨literals,read,denote⟩ := ih fun each member => comes each (List.mem_cons_of_mem _ member)
    obtain ⟨literal,reads,denotes⟩ := value_reads (comes value List.mem_cons_self)
    exact ⟨literal :: literals,.cons ⟨reads,value_starts value⟩ read,.cons denotes denote⟩

theorem listed_begins {element : Parse α} {fuel : Nat} {listed : List α} {parser after : SqlParser} {values : List α}
    (run : (parseListed element fuel listed).run parser = .ok values after) : ∃ others, values = listed ++ others := by
  induction fuel generalizing listed parser with
  | zero => cases run
  | succ fuel ih =>
    unfold parseListed at run
    obtain ⟨_,_,_,run⟩ := run_bind_ok run
    obtain ⟨value,_,_,run⟩ := run_bind_ok run
    obtain ⟨_,_,_,run⟩ := run_bind_ok run
    obtain ⟨closed,_,_,run⟩ := run_bind_ok run
    cases closed with
    | true =>
      cases run
      exact ⟨_,rfl⟩
    | false =>
      obtain ⟨comma,_,_,run⟩ := run_bind_ok run
      cases comma with
      | true =>
        obtain ⟨others,same⟩ := ih run
        exact ⟨value :: others,by rw [same,List.append_assoc]; rfl⟩
      | false => cases run

theorem values_come {values : List String} {lead : Bytes} (white : lead.all isWhitespace = true) {fuel : Nat}
    {listed literals : List SqlValue} {before more : Bytes} {after : SqlParser}
    (run : (parseListed (parseValue texts) fuel listed).run
      (facing before (lead ++ (joinBytes (values.map fun value => utf8 (quoteValue value)) ++ 41 :: more))) =
        .ok (listed ++ literals) after)
    (denote : List.Forall₂ (Denotes texts) values literals) : values ≠ [] ∧ ∀ value ∈ values, ComesThrough texts value := by
  induction denote generalizing lead fuel listed before with
  | nil =>
    cases fuel with
    | zero => cases run
    | succ fuel =>
      have skipped := skips_white white (by decide : isWhitespace 41 = false) before more
      change (parseListed (parseValue texts) (fuel+1) listed).run (facing before (lead ++ 41 :: more)) = _ at run
      rw [parseListed,run_bind_of_ok skipped] at run
      obtain ⟨_,_,read,_⟩ := run_bind_ok run
      have here : (facing (before ++ lead) (41 :: more)).rest = 41 :: more := facing_rest _ _
      rw [parseValue_small here (by decide) (by decide) (by decide)] at read
      cases read
  | @cons value literal values literals first others ih =>
    refine ⟨List.cons_ne_nil _ _,?_⟩
    cases fuel with
    | zero => cases run
    | succ fuel =>
      -- The literal of the value comes first, so that it is the one it denotes.
      have comes {next : UInt8} {more : Bytes} (delimits : Delimits next)
          (run : (parseListed (parseValue texts) (fuel+1) listed).run
            (facing before (lead ++ (utf8 (quoteValue value) ++ next :: more))) = .ok (listed ++ literal :: literals) after) :
          ComesThrough texts value := by
        obtain ⟨letter,rest,front,solid⟩ := value_starts value next more delimits
        have skipped : skipWhitespace.run (facing before (lead ++ (utf8 (quoteValue value) ++ next :: more))) =
            .ok () (facing (before ++ lead) (utf8 (quoteValue value) ++ next :: more)) := by
          rw [front]
          exact skips_white white solid before rest
        unfold parseListed at run
        rw [run_bind_of_ok skipped] at run
        obtain ⟨found,_,read,run⟩ := run_bind_ok run
        obtain ⟨_,_,_,run⟩ := run_bind_ok run
        obtain ⟨closed,_,_,run⟩ := run_bind_ok run
        have same : found = literal := by
          cases closed with
          | true =>
            have whole : listed ++ [found] = listed ++ literal :: literals := (EStateM.Result.ok.inj run).1
            exact (List.cons.inj (List.append_cancel_left whole)).1
          | false =>
            obtain ⟨comma,_,_,run⟩ := run_bind_ok run
            cases comma with
            | true =>
              obtain ⟨tail,whole⟩ := listed_begins run
              rw [List.append_assoc] at whole
              exact (List.cons.inj (List.append_cancel_left whole)).1.symm
            | false => cases run
        rw [same] at read
        exact value_comes delimits read first
      cases others with
      | nil =>
        intro each member
        rw [List.mem_singleton.mp member]
        exact comes (.inr rfl) run
      | @cons other found rest tail head_denotes tail_denote =>
        have text_eq : joinBytes ((value :: other :: rest).map fun value => utf8 (quoteValue value)) ++ 41 :: more =
            utf8 (quoteValue value) ++ 44 :: ([32] ++ (joinBytes ((other :: rest).map fun value => utf8 (quoteValue value)) ++
              41 :: more)) := by
          rw [List.map_cons,List.map_cons,joinBytes,List.append_assoc]
          rfl
        rw [text_eq] at run
        have here := comes (.inl rfl) run
        obtain ⟨known,reads,_⟩ := value_reads here
        rw [listed_round (parseValue texts) reads (value_starts value) white (.inl rfl),
          run_bind_of_ok (passes_char (by decide) _ _)] at run
        change (do
          if ← matchChar 44 then parseListed (parseValue texts) fuel (listed ++ [known])
          else reject .invalidSyntax : Parse (List SqlValue)).run _ = _ at run
        rw [run_bind_of_ok (matches_char 44 _ _)] at run
        change (parseListed (parseValue texts) fuel (listed ++ [known])).run _ = _ at run
        have same : listed ++ literal :: found :: tail = (listed ++ [known]) ++ found :: tail := by
          obtain ⟨others,whole⟩ := listed_begins run
          rw [List.append_assoc] at whole
          rw [List.append_assoc,← (List.cons.inj (List.append_cancel_left whole)).1]
          rfl
        rw [same] at run
        intro each member
        rcases List.mem_cons.mp member with rfl | member
        · exact here
        · exact (ih one_blank run).2 each member

end Lists

section Rows
variable {texts : Renderings}

def rowBytes (values : List String) : Bytes :=
  40 :: (joinBytes (values.map fun value => utf8 (quoteValue value)) ++ 41 :: [10])

theorem bracketedText_bytes (values : List String) : utf8 (bracketedText (values.map quoteValue)) = rowBytes values := by
  rw [bracketedText,utf8_append,utf8_append,utf8_intercalate,List.map_map,List.append_assoc]
  rfl

theorem skips_white_end {white : Bytes} (all : white.all isWhitespace = true) (before : Bytes) :
    skipWhitespace.run (facing before white) = .ok () (facing (before ++ white) []) := by
  change EStateM.Result.ok () ((facing before white).advance ((facing before white).rest.takeWhile isWhitespace).length) = _
  rw [facing_rest,List.takeWhile_eq_self_iff.mpr (List.all_eq_true.mp all)]
  have whole := facing_advance before white []
  rw [List.append_nil] at whole
  exact congrArg _ whole

def rowsBehind (records : List (List String)) : Bytes :=
  if records.isEmpty then [] else 44 :: 32 :: joinBytes (records.map rowBytes)

theorem joinBytes_rows (values : List String) (records : List (List String)) :
    joinBytes ((values :: records).map rowBytes) = 40 :: (joinBytes (values.map fun value => utf8 (quoteValue value)) ++
      41 :: 10 :: rowsBehind records) := by
  cases records with
  | nil => rfl
  | cons other rest =>
    rw [List.map_cons,List.map_cons,joinBytes,rowBytes,List.cons_append,List.append_assoc]
    rfl

theorem row_round (texts : Renderings) (fuel : Nat) (rows : List (List SqlValue)) (before : Bytes) (values : List String) (behind : Bytes) :
    ∃ room, (values.map fun value => utf8 (quoteValue value)).length ≤ room ∧ (parseRows texts (fuel+1) rows).run
        (facing before (32 :: 40 :: (joinBytes (values.map fun value => utf8 (quoteValue value)) ++ 41 :: behind))) =
      (do
        let found ← parseListed (parseValue texts) room []
        skipWhitespace
        if ← matchChar 44 then parseRows texts fuel (rows ++ [found])
        else pure (rows ++ [found]) : Parse (List (List SqlValue))).run
          (facing (before ++ [32] ++ [40]) ([] ++ (joinBytes (values.map fun value => utf8 (quoteValue value)) ++ 41 :: behind))) := by
  have skipped : skipWhitespace.run (facing before (32 :: 40 :: (joinBytes (values.map fun value => utf8 (quoteValue value)) ++
      41 :: behind))) = .ok () (facing (before ++ [32]) (40 :: (joinBytes (values.map fun value => utf8 (quoteValue value)) ++
        41 :: behind))) := skips_white one_blank (by decide : isWhitespace 40 = false) before _
  have opened : (expectChar 40).run (facing (before ++ [32]) (40 :: (joinBytes (values.map fun value => utf8 (quoteValue value)) ++
      41 :: behind))) = .ok () (facing (before ++ [32] ++ [40]) (joinBytes (values.map fun value => utf8 (quoteValue value)) ++
        41 :: behind)) := by
    unfold expectChar
    rw [run_bind_of_ok (matches_char 40 _ _)]
    rfl
  refine ⟨(joinBytes (values.map fun value => utf8 (quoteValue value)) ++ 41 :: behind).length+1,?_,?_⟩
  · have short := joinBytes_length (values.map fun value => utf8 (quoteValue value))
    rw [List.length_append]
    omega
  · rw [parseRows,run_bind_of_ok skipped,run_bind_of_ok opened,EStateM.run_bind,EStateM.run_get]
    simp only [facing_rest]
    rfl

theorem rows_read {records : List (List String)} (filled : records ≠ [])
    (comes : ∀ values ∈ records, values ≠ [] ∧ ∀ value ∈ values, ComesThrough texts value) {fuel : Nat}
    (enough : records.length ≤ fuel) (rows : List (List SqlValue)) (before : Bytes) :
    ∃ found behind, (parseRows texts fuel rows).run (facing before (32 :: joinBytes (records.map rowBytes))) =
      .ok (rows ++ found) (facing behind []) ∧ List.Forall₂ (List.Forall₂ (Denotes texts)) records found := by
  induction records generalizing fuel rows before with
  | nil => exact absurd rfl filled
  | cons values records ih =>
    obtain ⟨⟨some_value,come⟩,others⟩ := List.forall_mem_cons.mp comes
    obtain ⟨fuel,rfl⟩ : ∃ rest, fuel = rest+1 := ⟨fuel-1,by rw [List.length_cons] at enough; omega⟩
    obtain ⟨literals,read,denote⟩ := values_read come
    obtain ⟨room,long,round⟩ := row_round texts fuel rows before values (10 :: rowsBehind records)
    obtain ⟨closed,list⟩ := listed_reads (parseValue texts) read (fun empty => some_value (List.map_eq_nil_iff.mp empty))
      no_white long [] (before ++ [32] ++ [40]) (10 :: rowsBehind records)
    rw [joinBytes_rows]
    cases records with
    | nil =>
      have ended : skipWhitespace.run (facing closed (10 :: rowsBehind [])) = .ok () (facing (closed ++ [10]) []) :=
        skips_white_end line_end closed
      have no_comma : (matchChar 44).run (facing (closed ++ [10]) []) = .ok false (facing (closed ++ [10]) []) :=
        matchChar_refused (by rw [facing_rest]; nofun)
      refine ⟨[literals],closed ++ [10],?_,.cons denote .nil⟩
      rw [round,run_bind_of_ok list]
      rw [run_bind_of_ok ended,run_bind_of_ok no_comma,if_neg Bool.false_ne_true]
      rfl
    | cons other rest =>
      have ended : skipWhitespace.run (facing closed (10 :: rowsBehind (other :: rest))) =
          .ok () (facing (closed ++ [10]) (44 :: 32 :: joinBytes ((other :: rest).map rowBytes))) :=
        skips_white line_end (by decide : isWhitespace 44 = false) closed _
      obtain ⟨found,behind,run,denotes⟩ := ih (List.cons_ne_nil _ _) others (Nat.le_of_succ_le_succ enough)
        (rows ++ [literals]) (closed ++ [10] ++ [44])
      refine ⟨literals :: found,behind,?_,.cons denote denotes⟩
      rw [round,run_bind_of_ok list]
      rw [run_bind_of_ok ended,run_bind_of_ok (matches_char 44 _ _),if_pos rfl,List.nil_append,run,List.append_assoc]
      rfl

theorem rows_begin {fuel : Nat} {rows found : List (List SqlValue)} {parser after : SqlParser}
    (run : (parseRows texts fuel rows).run parser = .ok found after) : ∃ others, found = rows ++ others := by
  induction fuel generalizing rows parser with
  | zero => cases run
  | succ fuel ih =>
    unfold parseRows at run
    obtain ⟨_,_,_,run⟩ := run_bind_ok run
    obtain ⟨_,_,_,run⟩ := run_bind_ok run
    obtain ⟨_,_,_,run⟩ := run_bind_ok run
    obtain ⟨values,_,_,run⟩ := run_bind_ok run
    obtain ⟨_,_,_,run⟩ := run_bind_ok run
    obtain ⟨comma,_,_,run⟩ := run_bind_ok run
    cases comma with
    | true =>
      obtain ⟨others,same⟩ := ih run
      exact ⟨values :: others,by rw [same,List.append_assoc]; rfl⟩
    | false =>
      cases run
      exact ⟨_,rfl⟩

theorem rows_come {records : List (List String)} {fuel : Nat} {rows found : List (List SqlValue)} {before : Bytes}
    {after : SqlParser}
    (run : (parseRows texts fuel rows).run (facing before (32 :: joinBytes (records.map rowBytes))) = .ok (rows ++ found) after)
    (denote : List.Forall₂ (List.Forall₂ (Denotes texts)) records found) :
    ∀ values ∈ records, values ≠ [] ∧ ∀ value ∈ values, ComesThrough texts value := by
  induction denote generalizing fuel rows before with
  | nil => exact nofun
  | @cons values literals records found first others ih =>
    cases fuel with
    | zero => cases run
    | succ fuel =>
      obtain ⟨room,long,round⟩ := row_round texts fuel rows before values (10 :: rowsBehind records)
      rw [joinBytes_rows,round] at run
      obtain ⟨row,middle,list,run⟩ := run_bind_ok run
      have behind := run
      obtain ⟨_,_,_,run⟩ := run_bind_ok run
      obtain ⟨comma,_,_,run⟩ := run_bind_ok run
      have same : row = literals := by
        cases comma with
        | true =>
          obtain ⟨tail,whole⟩ := rows_begin run
          rw [List.append_assoc] at whole
          exact (List.cons.inj (List.append_cancel_left whole)).1.symm
        | false =>
          have whole : rows ++ [row] = rows ++ literals :: found := (EStateM.Result.ok.inj run).1
          exact (List.cons.inj (List.append_cancel_left whole)).1
      subst same
      have here := values_come no_white list first
      refine List.forall_mem_cons.mpr ⟨here,?_⟩
      obtain ⟨again,read,_⟩ := values_read here.2
      obtain ⟨closed,known⟩ := listed_reads (parseValue texts) read (fun empty => here.1 (List.map_eq_nil_iff.mp empty))
        no_white long [] (before ++ [32] ++ [40]) (10 :: rowsBehind records)
      obtain ⟨alike,rfl⟩ := EStateM.Result.ok.inj (list.symm.trans known)
      cases others with
      | nil => exact nofun
      | @cons other other_found rest tail head_denotes tail_denote =>
        have ended : skipWhitespace.run (facing closed (10 :: rowsBehind (other :: rest))) =
            .ok () (facing (closed ++ [10]) (44 :: 32 :: joinBytes ((other :: rest).map rowBytes))) :=
          skips_white line_end (by decide : isWhitespace 44 = false) closed _
        rw [run_bind_of_ok ended,run_bind_of_ok (matches_char 44 _ _),if_pos rfl] at behind
        have split : rows ++ row :: other_found :: tail = (rows ++ [row]) ++ other_found :: tail := by simp
        rw [split] at behind
        exact ih behind

end Rows

section Header
variable (texts : Renderings) (others : QueryType → Parse SqlQuery) (table : Identifier) (columns : List Identifier)

theorem reads_word (identifier : Identifier) {after : Bytes} (stops : (after.head?.any inIdentifier) = false) (before : Bytes) :
    parseIdentifier.run (facing before (identifier.bytes ++ after)) =
      .ok identifier.name (facing (before ++ identifier.bytes) after) := by
  have length : identifierLength (identifier.bytes ++ after) = identifier.bytes.length := by
    rw [Identifier.bytes,List.cons_append,identifierLength,if_pos identifier.starts,
      takeWhile_append_stop identifier.word stops]
    rfl
  unfold parseIdentifier
  rw [EStateM.run_bind,EStateM.run_get]
  simp only [facing_rest,length]
  rw [List.take_left,← facing_advance]
  rfl

theorem identifier_reads (identifier : Identifier) : Reads parseIdentifier identifier.bytes identifier.name ∧
    Starts identifier.bytes := by
  constructor
  · intro before next more delimits
    refine reads_word identifier ?_ before
    rcases delimits with rfl | rfl
    · exact (by decide : inIdentifier 44 = false)
    · exact (by decide : inIdentifier 41 = false)
  · exact fun next more _ => ⟨identifier.first,_,rfl,identifier_solid (starts_in identifier.starts)⟩

def columnBytes : Bytes :=
  if columns.isEmpty then [] else 40 :: (joinBytes (columns.map Identifier.bytes) ++ 41 :: [10])

theorem columnsText_bytes : utf8 (columnsText (columns.map Identifier.name)) = columnBytes columns := by
  cases columns with
  | nil => rfl
  | cons column rest =>
    have names : ((column :: rest).map Identifier.name).map utf8 = (column :: rest).map Identifier.bytes := by
      rw [List.map_map]
      exact List.map_congr_left fun identifier _ => identifier.utf8_name
    change utf8 (bracketedText ((column :: rest).map Identifier.name)) = _
    rw [bracketedText,utf8_append,utf8_append,utf8_intercalate,names,List.append_assoc]
    rfl

theorem insertText_bytes (values_str : String) :
    utf8 (insertText table.name (columns.map Identifier.name) values_str) =
      utf8 "INSERT" ++ ([32] ++ (utf8 "INTO" ++ ([32] ++ (table.bytes ++ (columnBytes columns ++ ([32] ++
        (utf8 "VALUES" ++ ([32] ++ utf8 values_str)))))))) := by
  rw [insertText,utf8_append,utf8_append,utf8_append,utf8_append,table.utf8_name,columnsText_bytes]
  simp only [List.append_assoc]
  rfl

theorem insert_type (more : Bytes) : parseQueryType.run (facing [] (utf8 "INSERT" ++ 32 :: more)) =
    .ok .insert (facing (utf8 "INSERT") (32 :: more)) := by
  unfold parseQueryType
  rw [passes_keyword [] "SELECT" rfl,takes_keyword [] "INSERT" rfl]
  rfl

theorem columns_read (before : Bytes) (more : Bytes) :
    ∃ behind, (do
      let insert_columns ← parseInsertColumns
      skipWhitespace
      pure insert_columns : Parse (List String)).run (facing before (columnBytes columns ++ 32 :: (utf8 "VALUES" ++ more))) =
        .ok (columns.map Identifier.name) (facing behind (utf8 "VALUES" ++ more)) := by
  cases columns with
  | nil =>
    have skipped : skipWhitespace.run (facing before (columnBytes [] ++ 32 :: (utf8 "VALUES" ++ more))) =
        .ok () (facing (before ++ [32]) (86 :: (List.drop 1 (utf8 "VALUES") ++ more))) :=
      skips_white one_blank (by decide : isWhitespace 86 = false) before _
    have no_bracket := passes_char (by decide : (86 : UInt8) ≠ 40) (before ++ [32])
      (List.drop 1 (utf8 "VALUES") ++ more)
    have solid : skipWhitespace.run (facing (before ++ [32]) (86 :: (List.drop 1 (utf8 "VALUES") ++ more))) =
        .ok () (facing (before ++ [32]) (86 :: (List.drop 1 (utf8 "VALUES") ++ more))) := skips_nothing _ (by decide)
    refine ⟨before ++ [32],?_⟩
    rw [parseInsertColumns]
    simp only [bind_assoc]
    rw [run_bind_of_ok skipped,run_bind_of_ok no_bracket,if_neg Bool.false_ne_true,pure_bind,run_bind_of_ok solid]
    rfl
  | cons column rest =>
    have names : List.Forall₂ (fun text value => Reads parseIdentifier text value ∧ Starts text)
        ((column :: rest).map Identifier.bytes) ((column :: rest).map Identifier.name) := by
      rw [List.forall₂_map_left_iff,List.forall₂_map_right_iff]
      exact List.forall₂_same.mpr fun identifier _ => identifier_reads identifier
    have text : columnBytes (column :: rest) ++ 32 :: (utf8 "VALUES" ++ more) =
        40 :: (joinBytes ((column :: rest).map Identifier.bytes) ++ 41 :: ([10,32] ++ (utf8 "VALUES" ++ more))) := by
      rw [columnBytes,if_neg (by simp),List.cons_append,List.append_assoc]
      rfl
    have solid : skipWhitespace.run (facing before (40 :: (joinBytes ((column :: rest).map Identifier.bytes) ++
          41 :: ([10,32] ++ (utf8 "VALUES" ++ more))))) =
        .ok () (facing before (40 :: (joinBytes ((column :: rest).map Identifier.bytes) ++
          41 :: ([10,32] ++ (utf8 "VALUES" ++ more))))) := skips_nothing before (by decide)
    have enough : ((column :: rest).map Identifier.bytes).length ≤
        (joinBytes ((column :: rest).map Identifier.bytes) ++ 41 :: ([10,32] ++ (utf8 "VALUES" ++ more))).length+1 := by
      have short := joinBytes_length ((column :: rest).map Identifier.bytes)
      rw [List.length_append]
      omega
    obtain ⟨closed,list⟩ := listed_reads parseIdentifier names (List.cons_ne_nil _ _) no_white enough []
      (before ++ [40]) ([10,32] ++ (utf8 "VALUES" ++ more))
    have skipped : skipWhitespace.run (facing closed ([10,32] ++ (utf8 "VALUES" ++ more))) =
        .ok () (facing (closed ++ [10,32]) (utf8 "VALUES" ++ more)) :=
      skips_white line_end_blank (by decide : isWhitespace 86 = false) closed (List.drop 1 (utf8 "VALUES") ++ more)
    refine ⟨closed ++ [10,32],?_⟩
    rw [text,parseInsertColumns]
    simp only [bind_assoc]
    rw [run_bind_of_ok solid,run_bind_of_ok (matches_char 40 _ _),if_pos rfl,bind_assoc,EStateM.run_bind,EStateM.run_get]
    simp only [facing_rest]
    rw [List.nil_append] at list
    rw [run_bind_of_ok list,run_bind_of_ok skipped]
    rfl

theorem parse_header (values_str : String) : ∃ behind,
    (parseStatements texts others).run (.new (insertText table.name (columns.map Identifier.name) values_str)) =
      (do
        let values ← parseValues texts
        skipWhitespace
        let _ ← matchChar 59
        pure ⟨.insert,table.name,none,columns.map Identifier.name,values,[],false⟩ : Parse SqlQuery).run
          (facing behind (32 :: utf8 values_str)) := by
  let behindTable := columnBytes columns ++ ([32] ++ (utf8 "VALUES" ++ ([32] ++ utf8 values_str)))
  have start : SqlParser.new (insertText table.name (columns.map Identifier.name) values_str) =
      facing [] (utf8 "INSERT" ++ 32 :: (utf8 "INTO" ++ ([32] ++ (table.bytes ++ behindTable)))) := by
    change SqlParser.mk (utf8 _) 0 = SqlParser.mk ([] ++ _) 0
    rw [insertText_bytes]
    rfl
  have skipped : skipWhitespace.run (facing [] (utf8 "INSERT" ++ 32 :: (utf8 "INTO" ++ ([32] ++ (table.bytes ++ behindTable))))) =
      .ok () (facing [] (utf8 "INSERT" ++ 32 :: (utf8 "INTO" ++ ([32] ++ (table.bytes ++ behindTable))))) :=
    skips_nothing [] (by decide)
  have blank : skipWhitespace.run (facing (utf8 "INSERT") (32 :: (utf8 "INTO" ++ ([32] ++ (table.bytes ++ behindTable))))) =
      .ok () (facing (utf8 "INSERT" ++ [32]) (utf8 "INTO" ++ ([32] ++ (table.bytes ++ behindTable)))) :=
    skips_white one_blank (by decide : isWhitespace 73 = false) _ _
  have solid : skipWhitespace.run (facing (utf8 "INSERT" ++ [32]) (utf8 "INTO" ++ ([32] ++ (table.bytes ++ behindTable)))) =
      .ok () (facing (utf8 "INSERT" ++ [32]) (utf8 "INTO" ++ ([32] ++ (table.bytes ++ behindTable)))) :=
    skips_nothing _ (by decide)
  have no_ignore : (matchKeyword "IGNORE").run (facing (utf8 "INSERT" ++ [32]) (utf8 "INTO" ++ ([32] ++ (table.bytes ++
      behindTable)))) = .ok false (facing (utf8 "INSERT" ++ [32]) (utf8 "INTO" ++ ([32] ++ (table.bytes ++ behindTable)))) :=
    matchKeyword_refused "IGNORE" (by rw [facing_rest]; rfl)
  have named : skipWhitespace.run (facing (utf8 "INSERT" ++ [32] ++ utf8 "INTO") ([32] ++ (table.bytes ++ behindTable))) =
      .ok () (facing (utf8 "INSERT" ++ [32] ++ utf8 "INTO" ++ [32]) (table.bytes ++ behindTable)) :=
    skips_white one_blank (identifier_solid (starts_in table.starts)) _ _
  have stops : (behindTable.head?.any inIdentifier) = false := by
    cases columns with
    | nil => exact (by decide : inIdentifier 32 = false)
    | cons => exact (by decide : inIdentifier 40 = false)
  obtain ⟨behind,columns_run⟩ := columns_read columns (utf8 "INSERT" ++ [32] ++ utf8 "INTO" ++ [32] ++ table.bytes)
    (32 :: utf8 values_str)
  obtain ⟨found,middle,listed,rest⟩ := run_bind_ok columns_run
  obtain ⟨_,last,spaced,rest⟩ := run_bind_ok rest
  obtain ⟨same,rfl⟩ := EStateM.Result.ok.inj rest
  subst same
  replace listed : parseInsertColumns.run (facing (utf8 "INSERT" ++ [32] ++ utf8 "INTO" ++ [32] ++ table.bytes) behindTable) =
      .ok (columns.map Identifier.name) middle := listed
  refine ⟨behind ++ utf8 "VALUES",?_⟩
  rw [start,parseStatements,run_bind_of_ok skipped,run_bind_of_ok (insert_type _)]
  change ((parseInsertQuery texts >>= _).run _) = _
  rw [parseInsertQuery]
  simp only [bind_assoc,pure_bind]
  rw [run_bind_of_ok blank,run_bind_of_ok no_ignore,run_bind_of_ok solid,
    run_bind_of_ok (expectKeyword_reads _ "INTO" rfl),run_bind_of_ok named,run_bind_of_ok (reads_word table stops _),
    run_bind_of_ok listed,run_bind_of_ok spaced,run_bind_of_ok (expectKeyword_reads _ "VALUES" rfl)]

end Header

end SqlParser

open SqlParser

-- The statement is an INSERT into the columns of the table with a row for each
-- record and, at each place, one literal that denotes the string.
def Meant (texts : Renderings) (others : QueryType → Parse SqlQuery) (table : Identifier) (columns : List Identifier)
    (sql : String) (records : List (List String)) : Prop :=
  ∃ query after, (SqlParser.parseStatements texts others).run (.new sql) = .ok query after ∧ query.query_type = .insert ∧
    query.table_name = table.name ∧ query.insert_columns = columns.map Identifier.name ∧
      List.Forall₂ (List.Forall₂ (Denotes texts)) records query.values

section Meaning
variable (texts : Renderings) (others : QueryType → Parse SqlQuery) (table : Identifier) (columns : List Identifier)

theorem insertText_meant_iff {records : List (List String)} (filled : records ≠ []) {values_str : String}
    (rows : utf8 values_str = joinBytes (records.map rowBytes)) :
    Meant texts others table columns (insertText table.name (columns.map Identifier.name) values_str) records ↔
      ∀ values ∈ records, values ≠ [] ∧ ∀ value ∈ values, ComesThrough texts value := by
  obtain ⟨behind,header⟩ := parse_header texts others table columns values_str
  have run_values : (parseValues texts).run (facing behind (32 :: utf8 values_str)) =
      (parseRows texts ((32 :: joinBytes (records.map rowBytes)).length+1) []).run
        (facing behind (32 :: joinBytes (records.map rowBytes))) := by
    unfold parseValues
    rw [EStateM.run_bind,EStateM.run_get,rows]
    simp only [facing_rest]
  constructor
  · rintro ⟨query,after,parsed,_,_,_,denote⟩
    rw [header] at parsed
    obtain ⟨values,middle,read,parsed⟩ := run_bind_ok parsed
    obtain ⟨_,_,_,parsed⟩ := run_bind_ok parsed
    obtain ⟨_,_,_,parsed⟩ := run_bind_ok parsed
    obtain ⟨rfl,_⟩ := EStateM.Result.ok.inj parsed
    rw [run_values] at read
    have from_none : (parseRows texts ((32 :: joinBytes (records.map rowBytes)).length+1) []).run
        (facing behind (32 :: joinBytes (records.map rowBytes))) = .ok ([] ++ values) middle := read
    exact rows_come from_none denote
  · intro comes
    have enough : records.length ≤ (32 :: joinBytes (records.map rowBytes)).length+1 := by
      have short := joinBytes_length (records.map rowBytes)
      rw [List.length_map] at short
      rw [List.length_cons]
      omega
    obtain ⟨found,last,run,denote⟩ := rows_read filled comes enough [] behind
    have no_semicolon : (matchChar 59).run (facing last []) = .ok false (facing last []) :=
      matchChar_refused (by rw [facing_rest]; nofun)
    refine ⟨⟨.insert,table.name,none,columns.map Identifier.name,found,[],false⟩,facing last [],?_,rfl,rfl,rfl,denote⟩
    rw [header,run_bind_of_ok (run_values.trans run),run_bind_of_ok (skips_end last),run_bind_of_ok no_semicolon]
    rfl

-- The text of a record, and that of several, is the statement it means if and
-- only if each record has values and all of them come through.
theorem insert_text_meant_iff :
    (∀ values, Meant texts others table columns (insertRecordSql table.name (columns.map Identifier.name) values) [values] ↔
      values ≠ [] ∧ ∀ value ∈ values, ComesThrough texts value) ∧
    ∀ records sql, batchInsertRecordSql table.name (columns.map Identifier.name) records = some sql →
      (Meant texts others table columns sql records ↔
        ∀ values ∈ records, values ≠ [] ∧ ∀ value ∈ values, ComesThrough texts value) := by
  constructor
  · intro values
    rw [insertRecordSql,insertText_meant_iff texts others table columns (List.cons_ne_nil values [])
      (bracketedText_bytes values)]
    exact List.forall_mem_singleton
  · intro records sql assembled
    unfold batchInsertRecordSql at assembled
    split at assembled
    · cases assembled
    · rename_i filled
      obtain rfl := Option.some.inj assembled
      refine insertText_meant_iff texts others table columns (fun empty => filled (by rw [empty]; rfl)) ?_
      rw [utf8_intercalate,List.map_map]
      exact congrArg joinBytes (List.map_congr_left fun values _ => bracketedText_bytes values)

end Meaning

def wholeOnly : Renderings := ⟨fun _ => none,fun _ => ""⟩
def noStatements : QueryType → Parse SqlQuery := fun _ => reject .unsupportedKeyword
def peopleName : Identifier := ⟨112,utf8 "eople",by decide,by decide⟩
def nameColumn : Identifier := ⟨110,utf8 "ame",by decide,by decide⟩

theorem comes_of_integer {texts : Renderings} {value : String} (number : Int64) (plain : looksPlain value = true)
    (truth : ¬ (value = "true" ∨ value = "false")) (reads : parseI64 value.toList = some number) : ComesThrough texts value := by
  obtain ⟨numeral,no_dot⟩ := integer_numeral plain truth reads
  rw [ComesThrough,if_neg truth,plain,if_pos rfl,if_neg no_dot,reads]
  exact ⟨numeral,rfl⟩

theorem comes_of_text {texts : Renderings} {value : String} (other : looksPlain value = false)
    (ascii : ∀ letter ∈ value.toList, letter.toNat < 128) (unmarked : apostrophe ∉ value.toList)
    (plain : jsonHint.isPrefixOf value.toList = false) (no_json : jsonLike (unquoted value.toList) = false)
    (no_time : TimeString.parse value.toList = .ok (parseI64 value.toList)) : ComesThrough texts value := by
  rw [ComesThrough,if_neg (not_truth other),other]
  refine ⟨ascii,unmarked,plain,?_⟩
  rw [no_json]
  exact no_time

-- A number, a truth value and a name with a comma and a bracket in it.
theorem insert_text_meant_people :
    Meant wholeOnly noStatements peopleName [] (insertRecordSql peopleName.name [] ["-12","true","Li, (Ada)"])
        [["-12","true","Li, (Ada)"]] ∧
      Meant wholeOnly noStatements peopleName [nameColumn]
        (insertText peopleName.name [nameColumn.name] (", ".intercalate ([["Ada"],["7"]].map fun values =>
          bracketedText (values.map quoteValue)))) [["Ada"],["7"]] := by
  have number : ComesThrough wholeOnly "-12" := comes_of_integer (-12) (by decide +kernel) (by decide) (by decide +kernel)
  have seven : ComesThrough wholeOnly "7" := comes_of_integer 7 (by decide +kernel) (by decide) (by decide +kernel)
  have truth : ComesThrough wholeOnly "true" := by
    rw [ComesThrough,if_pos (.inl rfl)]
    trivial
  have full_name : ComesThrough wholeOnly "Li, (Ada)" := comes_of_text (by decide +kernel) (all_ascii (by decide +kernel))
    (by decide +kernel) (by decide +kernel) (by decide +kernel) rfl
  have first_name : ComesThrough wholeOnly "Ada" := comes_of_text (by decide +kernel) (all_ascii (by decide +kernel))
    (by decide +kernel) (by decide +kernel) (by decide +kernel) rfl
  constructor
  · refine ((insert_text_meant_iff wholeOnly noStatements peopleName []).1 _).mpr ⟨List.cons_ne_nil _ _,?_⟩
    exact List.forall_mem_cons.mpr ⟨number,List.forall_mem_cons.mpr ⟨truth,List.forall_mem_singleton.mpr full_name⟩⟩
  · refine ((insert_text_meant_iff wholeOnly noStatements peopleName [nameColumn]).2 [["Ada"],["7"]] _ rfl).mpr ?_
    exact List.forall_mem_cons.mpr ⟨⟨List.cons_ne_nil _ _,List.forall_mem_singleton.mpr first_name⟩,
      List.forall_mem_singleton.mpr ⟨List.cons_ne_nil _ _,List.forall_mem_singleton.mpr seven⟩⟩

-- A name with an apostrophe ends its literal early.
theorem apostrophe_ends_literal : ¬ ∀ (texts : Renderings) (others : QueryType → Parse SqlQuery) (table : Identifier)
    (columns : List Identifier) (values : List String),
      Meant texts others table columns (insertRecordSql table.name (columns.map Identifier.name) values) [values] := by
  intro always
  obtain ⟨query,after,parsed,_,_,_,_⟩ := always wholeOnly noStatements peopleName [] ["O'Hara"]
  have refused : returned ((SqlParser.parseStatements wholeOnly noStatements).run
      (.new (insertRecordSql peopleName.name [] ["O'Hara"]))) = none := by decide +kernel
  rw [show [].map Identifier.name = [] from rfl] at parsed
  rw [parsed] at refused
  cases refused

end RemDb
