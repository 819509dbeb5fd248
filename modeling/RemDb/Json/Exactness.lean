import RemDb.Json.Reading

namespace RemDb
namespace Json

-- The parser takes the text for what it denotes in JSON, and for nothing else.
def ParsesExactly (text : String) : Prop :=
  ∀ value, parseJsonStr text = .ok value ↔ Denotes .strict text.toList value

-- The text begins with something the parser reads, but is no JSON.
def Loose (text : String) : Prop :=
  (∃ rest value, ValueRead (trim text.toList) rest value) ∧ ∀ value, ¬ Denotes .strict text.toList value

-- The text is JSON with Unicode escapes, and has another value when each of them
-- takes the letter behind it along.
def Changed (text : String) : Prop :=
  ∃ value, Denotes .strict text.toList value ∧ ¬ Denotes .plain text.toList value ∧
    ∀ rest, ¬ ValueRead (trim text.toList) rest value

theorem parsed_of_denotes {text : String} {value : JsonValue} (filled : trim text.toList ≠ []) (unchanged : ¬ Changed text)
    (denotes : Denotes .strict text.toList value) : parseJsonStr text = .ok value := by
  by_cases plain : Denotes .plain text.toList value
  · exact parseJsonStr_text (plain.of_plain .lax)
  · rw [parseJsonStr_iff filled]
    by_contra never
    exact unchanged ⟨value,denotes,plain,fun rest read => never ⟨rest,read⟩⟩

theorem parses_exactly_iff (text : String) (filled : trim text.toList ≠ []) :
    ParsesExactly text ↔ ¬ Loose text ∧ ¬ Changed text := by
  constructor
  · intro exactly
    constructor
    · rintro ⟨⟨rest,value,read⟩,never⟩
      exact never value ((exactly value).mp ((parseJsonStr_iff filled value).mpr ⟨rest,read⟩))
    · rintro ⟨value,denotes,_,never⟩
      obtain ⟨rest,read⟩ := (parseJsonStr_iff filled value).mp ((exactly value).mpr denotes)
      exact never rest read
  · rintro ⟨strict,unchanged⟩ value
    refine ⟨fun ok => ?_,parsed_of_denotes filled unchanged⟩
    obtain ⟨rest,read⟩ := (parseJsonStr_iff filled value).mp ok
    obtain ⟨meant,denotes⟩ : ∃ meant, Denotes .strict text.toList meant := by
      by_contra never
      exact strict ⟨⟨rest,value,read⟩,fun meant denotes => never ⟨meant,denotes⟩⟩
    have same := ok.symm.trans (parsed_of_denotes filled unchanged denotes)
    exact Except.ok.inj same ▸ denotes

theorem parses_exactly_iff_list :
    trim "[1, 2]".toList ≠ [] ∧ (ParsesExactly "[1, 2]" ↔ ¬ Loose "[1, 2]" ∧ ¬ Changed "[1, 2]") :=
  ⟨by decide,parses_exactly_iff "[1, 2]" (by decide)⟩

section Failing

def letterB : String := String.ofList [quote,backslash,'u','0','0','4','1','b',quote]

theorem letterB_denotes : Denotes .strict letterB.toList (.string "Ab") := by
  refine ⟨[],letterB.toList,[],by simp,nofun,?_,nofun⟩
  have written : Body .strict [backslash,'u','0','0','4','1','b'] ['A','b'] :=
    .unicode rfl (by decide : hexCode '0' '0' '4' '1' = some 65) (.inl (by decide))
      (.plain (by decide) (by decide) .done)
  exact .string written

theorem not_strict_of_space {text : List Char} {value : JsonValue} (written : Text .strict text (.value value))
    {letter : Char} {later : List Char} (is : text = letter :: later) (is_digit : asciiDigit letter = true) :
    ∀ other ∈ text, unicodeWhitespace other = false := by
  cases written with
  | number valid => exact valid.dark
  | null =>
    obtain rfl := (List.cons.inj is).1
    cases is_digit
  | boolean value =>
    cases value with
    | true =>
      obtain rfl := (List.cons.inj is).1
      cases is_digit
    | false =>
      obtain rfl := (List.cons.inj is).1
      cases is_digit
  | string =>
    obtain rfl := (List.cons.inj is).1
    cases is_digit
  | array =>
    obtain rfl := (List.cons.inj is).1
    cases is_digit
  | object =>
    obtain rfl := (List.cons.inj is).1
    cases is_digit

def spelled : Except String JsonValue → Option String
  | .ok (.number text) => some text
  | .ok (.string text) => some text
  | _ => none

-- One text of two values is taken for the first of them, and an escape in front
-- of a letter for the escape alone.
theorem two_values_accepted : ¬ ParsesExactly "1 2" ∧ ¬ ParsesExactly letterB := by
  constructor
  · intro exactly
    have read : (parseJsonStr "1 2").isOk = true := by decide +kernel
    obtain ⟨value,accepted⟩ : ∃ value, parseJsonStr "1 2" = .ok value := by
      cases result : parseJsonStr "1 2" with
      | error message =>
        rw [result] at read
        cases read
      | ok value => exact ⟨value,rfl⟩
    obtain ⟨space,text,behind,is,spaces,written,spaces_behind⟩ := (exactly _).mp accepted
    have whole : trim "1 2".toList = text := is ▸ written.trimmed spaces spaces_behind
    have is_text : text = ['1',' ','2'] := whole.symm
    have dark := not_strict_of_space written is_text (by decide) ' ' (by rw [is_text]; decide)
    cases dark
  · intro exactly
    have shortened : spelled (parseJsonStr letterB) = some "A" := by decide +kernel
    rw [(exactly _).mpr letterB_denotes] at shortened
    exact absurd shortened (by decide)

end Failing
end Json
end RemDb
