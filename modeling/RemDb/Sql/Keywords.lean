import RemDb.Sql.Lexer

namespace RemDb
open RemDb.Lib

namespace SqlParser

def inWord (byte : UInt8) : Bool := isAlphanumeric byte || byte == 95

-- The longest identifier token at a place.
def token (rest : Bytes) : Bytes := rest.takeWhile inWord

def Matches (keyword : String) (parser : SqlParser) : Prop :=
  ∃ after, (matchKeyword keyword).run parser = .ok true after

-- The text of the keyword stands at the place and an underscore goes on behind
-- it, or the keyword is no word and its text ends there.
def Split (keyword rest : Bytes) : Prop :=
  eqIgnoreCase (rest.take keyword.length) keyword = true ∧
    (rest[keyword.length]? = some 95 ∨
      keyword.all inWord = false ∧ ((rest[keyword.length]?).all fun next => !isAlphanumeric next) = true)

theorem lower_upper {byte : UInt8} (upper : isUpper byte = true) : isLower (lower byte) = true := by
  have bounds : 65 ≤ byte ∧ byte ≤ 90 := of_decide_eq_true upper
  rw [UInt8.le_iff_toNat_le,UInt8.le_iff_toNat_le] at bounds
  change 65 ≤ byte.toNat ∧ byte.toNat ≤ 90 at bounds
  rw [lower,if_pos upper,isLower]
  refine decide_eq_true ?_
  rw [UInt8.le_iff_toNat_le,UInt8.le_iff_toNat_le,UInt8.toNat_add]
  change 97 ≤ (byte.toNat+32) % 256 ∧ (byte.toNat+32) % 256 ≤ 122
  omega

theorem inWord_lower (byte : UInt8) : inWord (lower byte) = inWord byte := by
  by_cases upper : isUpper byte = true
  · have small := lower_upper upper
    simp [inWord,isAlphanumeric,isAlphabetic,upper,small]
  · rw [lower,if_neg upper]

theorem word_ignoring_case {left right : Bytes} (same : eqIgnoreCase left right = true) :
    left.all inWord = right.all inWord := by
  have lowered (bytes : Bytes) : bytes.all inWord = (bytes.map lower).all inWord := by
    rw [List.all_map]
    exact List.all_congr rfl fun byte => (inWord_lower byte).symm
  have equal : left.map lower = right.map lower := of_decide_eq_true same
  rw [lowered left,lowered right,equal]

theorem length_ignoring_case {left right : Bytes} (same : eqIgnoreCase left right = true) :
    left.length = right.length := by
  have equal : left.map lower = right.map lower := of_decide_eq_true same
  simpa using congrArg List.length equal

theorem token_pieces (rest : Bytes) : token rest ++ rest.dropWhile inWord = rest := List.takeWhile_append_dropWhile

theorem token_take (rest : Bytes) : rest.take (token rest).length = token rest := by
  have front : (token rest ++ rest.dropWhile inWord).take (token rest).length = token rest := List.take_left
  rwa [token_pieces] at front

theorem token_ends (rest : Bytes) : ((rest[(token rest).length]?).all fun next => !inWord next) = true := by
  have behind : (token rest ++ rest.dropWhile inWord)[(token rest).length]? = (rest.dropWhile inWord).head? := by
    rw [List.getElem?_append_right (Nat.le_refl _),Nat.sub_self,List.head?_eq_getElem?]
  rw [token_pieces] at behind
  rw [behind]
  have stopped := List.head?_dropWhile_not inWord rest
  cases found : rest.dropWhile inWord with
  | nil => rfl
  | cons next more =>
    rw [found] at stopped
    simpa using stopped

theorem token_of_word {keyword rest : Bytes} (text : eqIgnoreCase (rest.take keyword.length) keyword = true)
    (word : keyword.all inWord = true) (ends : ((rest[keyword.length]?).all fun next => !inWord next) = true) :
    token rest = rest.take keyword.length := by
  have size := length_ignoring_case text
  have inside : (rest.take keyword.length).all inWord = true := by rw [word_ignoring_case text,word]
  have pieces := List.take_append_drop keyword.length rest
  have next : rest[keyword.length]? = (rest.drop keyword.length).head? := by rw [List.head?_drop]
  rw [next] at ends
  rw [token]
  conv_lhs => rw [← pieces]
  rw [List.takeWhile_append_of_pos fun byte member => List.all_eq_true.mp inside byte member]
  cases found : rest.drop keyword.length with
  | nil => simp
  | cons first more =>
    rw [found] at ends
    have outside : inWord first = false := by simpa using ends
    rw [List.takeWhile_cons_of_neg (by simp [outside]),List.append_nil]

theorem ends_word {next : Option UInt8} (ends : (next.all fun byte => !isAlphanumeric byte) = true)
    (other : next ≠ some 95) : (next.all fun byte => !inWord byte) = true := by
  cases next with
  | none => rfl
  | some byte =>
    have plain : isAlphanumeric byte = false := by simpa using ends
    have apart : byte ≠ 95 := fun same => other (congrArg some same)
    simp [inWord,plain,apart]

theorem ends_alphanumeric {next : Option UInt8} (ends : (next.all fun byte => !inWord byte) = true) :
    (next.all fun byte => !isAlphanumeric byte) = true ∧ next ≠ some 95 := by
  cases next with
  | none => exact ⟨rfl,nofun⟩
  | some byte =>
    have outside : isAlphanumeric byte = false ∧ byte ≠ 95 := by simpa [inWord] using ends
    exact ⟨by simp [outside.1],fun same => outside.2 (Option.some.inj same)⟩

theorem token_matched {keyword rest : Bytes} (same : eqIgnoreCase (token rest) keyword = true) :
    keywordAt keyword rest = true ∧ ¬ Split keyword rest := by
  have size := length_ignoring_case same
  obtain ⟨plain,other⟩ := ends_alphanumeric (token_ends rest)
  have word : keyword.all inWord = true := by
    rw [← word_ignoring_case same]
    exact List.all_takeWhile
  rw [size] at plain other
  refine ⟨?_,?_⟩
  · rw [keywordAt,← size,token_take,same,size,plain]
    rfl
  · rintro ⟨_,underscore | ⟨unword,_⟩⟩
    · exact other underscore
    · rw [word] at unword
      cases unword

theorem keywordAt_iff_token (keyword rest : Bytes) :
    (keywordAt keyword rest = true ↔ eqIgnoreCase (token rest) keyword = true) ↔ ¬ Split keyword rest := by
  by_cases same : eqIgnoreCase (token rest) keyword = true
  · obtain ⟨found,whole⟩ := token_matched same
    exact ⟨fun _ => whole,fun _ => ⟨fun _ => same,fun _ => found⟩⟩
  constructor
  · rintro agree ⟨text,behind⟩
    refine same (agree.mp ?_)
    rw [keywordAt,text,Bool.true_and]
    rcases behind with underscore | ⟨_,plain⟩
    · rw [underscore]
      rfl
    · exact plain
  · intro whole
    refine ⟨fun found => ?_,fun found => absurd found same⟩
    obtain ⟨text,plain⟩ := Bool.and_eq_true_iff.mp found
    have word : keyword.all inWord = true := by
      by_contra unword
      exact whole ⟨text,.inr ⟨by simpa using unword,plain⟩⟩
    have other : rest[keyword.length]? ≠ some 95 := fun underscore => whole ⟨text,.inl underscore⟩
    rw [token_of_word text word (ends_word plain other)]
    exact text

-- A keyword is matched where the token is the keyword, and nowhere else, unless
-- an underscore follows its text.
theorem keyword_token_iff (keyword : String) (parser : SqlParser) :
    (Matches keyword parser ↔ eqIgnoreCase (token parser.rest) (utf8 keyword) = true) ↔
      ¬ Split (utf8 keyword) parser.rest := by
  rw [← keywordAt_iff_token]
  refine iff_congr ?_ Iff.rfl
  constructor
  · rintro ⟨after,matched⟩
    by_contra other
    rw [matchKeyword_refused keyword (by simpa using other)] at matched
    cases matched
  · intro found
    exact ⟨_,matchKeyword_found keyword found⟩

-- A column whose name begins with a keyword and an underscore.
theorem underscore_split :
    Matches "LIMIT" (new "limit_x") ∧ eqIgnoreCase (token (new "limit_x").rest) (utf8 "LIMIT") = false :=
  ⟨⟨_,matchKeyword_found "LIMIT" (by decide)⟩,by decide⟩

end SqlParser
end RemDb
