import RemDb.Json.Reading

namespace RemDb
namespace Json

def NumberText (text : String) : Prop := ∃ parts : NumberParts, parts.Valid ∧ text.toList = parts.text

-- Maps hold their keys in order, and numbers are written as numbers.
mutual
def Formed : JsonValue → Prop
  | .null => True
  | .boolean _ => True
  | .string _ => True
  | .number text => NumberText text
  | .array items => FormedItems items
  | .object entries => entries.Pairwise (fun first second => first.1 < second.1) ∧ FormedEntries entries
def FormedItems : List JsonValue → Prop
  | [] => True
  | item :: rest => Formed item ∧ FormedItems rest
def FormedEntries : List (String × JsonValue) → Prop
  | [] => True
  | (_,value) :: rest => Formed value ∧ FormedEntries rest
end

section Escaping

-- A letter stands for itself, or a short escape stands for it.
def Escapes (escape : Char → List Char) : Prop :=
  ∀ letter, (escape letter = [letter] ∧ letter ≠ quote ∧ letter ≠ backslash) ∨
    ∃ short, escape letter = [backslash,short] ∧ unescape short = some letter

theorem escapeChar_escapes : Escapes escapeChar := by
  intro letter
  unfold escapeChar
  split
  · rename_i is
    exact .inr ⟨quote,rfl,by rw [is]; decide⟩
  split
  · rename_i is
    exact .inr ⟨backslash,rfl,by rw [is]; decide⟩
  split
  · rename_i is
    exact .inr ⟨'n',rfl,by rw [is]; decide⟩
  split
  · rename_i is
    exact .inr ⟨'r',rfl,by rw [is]; decide⟩
  split
  · rename_i is
    exact .inr ⟨'t',rfl,by rw [is]; decide⟩
  split
  · rename_i is
    exact .inr ⟨'b',rfl,by rw [is]; decide⟩
  split
  · rename_i is
    exact .inr ⟨'f',rfl,by rw [is]; decide⟩
  · rename_i not_quote not_escape _ _ _ _ _
    exact .inl ⟨rfl,not_quote,not_escape⟩

theorem escapeKey_escapes : Escapes escapeKey := by
  intro letter
  unfold escapeKey
  split
  · rename_i is
    exact .inr ⟨quote,rfl,by rw [is]; decide⟩
  split
  · rename_i is
    exact .inr ⟨backslash,rfl,by rw [is]; decide⟩
  · rename_i not_quote not_escape
    exact .inl ⟨rfl,not_quote,not_escape⟩

theorem Escapes.body {escape : Char → List Char} (escapes : Escapes escape) (mode : Mode) (letters : List Char) :
    Body mode (letters.flatMap escape) letters := by
  induction letters with
  | nil => exact .done
  | cons letter letters ih =>
    rw [List.flatMap_cons]
    rcases escapes letter with ⟨is,not_quote,not_escape⟩ | ⟨short,is,means⟩
    · rw [is]
      exact .plain not_quote not_escape ih
    · rw [is]
      exact .escaped means ih

end Escaping

section Printed

theorem insertEntry_append {key : String} {value : JsonValue} {entries : List (String × JsonValue)}
    (largest : ∀ entry ∈ entries, entry.1 < key) : insertEntry key value entries = entries ++ [(key,value)] := by
  induction entries with
  | nil => rfl
  | cons entry rest ih =>
    have above := largest entry (.head _)
    rw [insertEntry,if_neg (String.lt_asymm above),if_neg (ne_of_gt above),
      ih fun other among => largest other (.tail _ among),List.cons_append]

variable {mode : Mode}

theorem no_spaces : Spaces mode [] := nofun

-- A member of an object and all that is printed behind it.
def memberChars (key : String) (value : JsonValue) (rest : List (String × JsonValue)) : List Char :=
  quote :: (key.toList.flatMap escapeKey ++ quote :: ':' :: (toJsonChars value ++
    (entriesChars false rest ++ [Char.ofNat 125])))

-- A printed value is a text of itself, without any spaces; by recursion on the
-- value and on the lists inside it.
mutual
theorem printed_value : ∀ (value : JsonValue), Formed value → Text mode (toJsonChars value) (.value value)
  | .null, _ => .null
  | .boolean value, _ => .boolean value
  | .string text, _ => by
    have written : Text mode (quote :: text.toList.flatMap escapeChar ++ [quote])
        (.value (.string (String.ofList text.toList))) := .string (escapeChar_escapes.body mode text.toList)
    rw [String.ofList_toList] at written
    exact written
  | .number text, formed => by
    obtain ⟨parts,valid,is⟩ := formed
    have written : Text mode parts.text (.value (.number (String.ofList parts.text))) := .number valid
    rw [← is,String.ofList_toList] at written
    exact written
  | .array [], _ => .array (.noItem no_spaces (.inl rfl))
  | .array (item :: rest), formed => by
    have written := printed_items rest item true (printed_value item formed.1) formed.2
    rw [← List.append_assoc] at written
    exact .array written
  | .object [], _ => .object (.noMember no_spaces (.inl rfl))
  | .object ((key,value) :: rest), formed => by
    have written := printed_entries rest [] key value true (printed_value value formed.2.1) formed.2.2 formed.1 nofun
    have text := Text.object written
    rw [toJsonChars,entriesChars]
    simpa only [memberChars,if_true,List.nil_append,List.append_assoc,List.cons_append] using text
theorem printed_items : ∀ (rest : List JsonValue) (item : JsonValue) (first : Bool),
    Text mode (toJsonChars item) (.value item) → FormedItems rest →
    Text mode (toJsonChars item ++ (itemsChars false rest ++ [']'])) (.items first (item :: rest))
  | [], item, first, written, _ => .lastItem no_spaces written no_spaces
  | next :: rest, item, first, written, formed => by
    have later := printed_items rest next false (printed_value next formed.1) formed.2
    have all : Text mode ([] ++ (toJsonChars item ++ ([] ++ ',' :: (toJsonChars next ++ (itemsChars false rest ++ [']'])))))
        (.items first (item :: next :: rest)) := .moreItems no_spaces written no_spaces later
    rw [itemsChars]
    simpa only [Bool.false_eq_true,if_false,List.nil_append,List.append_assoc,List.cons_append] using all
theorem printed_entries : ∀ (rest before : List (String × JsonValue)) (key : String) (value : JsonValue) (first : Bool),
    Text mode (toJsonChars value) (.value value) → FormedEntries rest →
    ((key,value) :: rest).Pairwise (fun first second => first.1 < second.1) → (∀ entry ∈ before, entry.1 < key) →
    Text mode (memberChars key value rest) (.members first before (before ++ (key,value) :: rest))
  | [], before, key, value, first, written, _, _, largest => by
    have named := escapeKey_escapes.body mode key.toList
    have all : Text mode ([] ++ quote :: (key.toList.flatMap escapeKey ++ quote :: ([] ++ ':' :: ([] ++ (toJsonChars value ++
        ([] ++ [Char.ofNat 125])))))) (.members first before (insertEntry (String.ofList key.toList) value before)) :=
      .lastMember no_spaces (.inl rfl) named no_spaces no_spaces written no_spaces
    rw [String.ofList_toList,insertEntry_append largest] at all
    exact all
  | (next,value_next) :: rest, before, key, value, first, written, formed, ordered, largest => by
    have named := escapeKey_escapes.body mode key.toList
    have inserted : insertEntry (String.ofList key.toList) value before = before ++ [(key,value)] := by
      rw [String.ofList_toList,insertEntry_append largest]
    obtain ⟨below,ordered_rest⟩ := List.pairwise_cons.mp ordered
    have largest_next : ∀ entry ∈ before ++ [(key,value)], entry.1 < next := by
      intro entry among
      rcases List.mem_append.mp among with among | among
      · exact String.lt_trans (largest entry among) (below _ (.head _))
      · exact List.mem_singleton.mp among ▸ below _ (.head _)
    have later : Text mode (memberChars next value_next rest) (.members false (insertEntry (String.ofList key.toList) value before)
        (before ++ [(key,value)] ++ (next,value_next) :: rest)) := by
      rw [inserted]
      exact printed_entries rest (before ++ [(key,value)]) next value_next false
        (printed_value value_next formed.1) formed.2 ordered_rest largest_next
    have all : Text mode ([] ++ quote :: (key.toList.flatMap escapeKey ++ quote :: ([] ++ ':' :: ([] ++ (toJsonChars value ++
        ([] ++ ',' :: memberChars next value_next rest)))))) (.members first before
          (before ++ [(key,value)] ++ (next,value_next) :: rest)) :=
      .moreMembers no_spaces (.inl rfl) named no_spaces no_spaces written no_spaces later
    rw [memberChars,entriesChars]
    simpa only [memberChars,Bool.false_eq_true,if_false,List.nil_append,List.append_assoc,List.cons_append] using all
end

end Printed

theorem print_parse_roundtrip {value : JsonValue} (formed : Formed value) :
    parseJsonStr (toJsonString value) = .ok value := by
  refine parseJsonStr_text ⟨[],toJsonChars value,[],?_,no_spaces,printed_value value formed,no_spaces⟩
  rw [toJsonString,String.toList_ofList,List.append_nil,List.nil_append]

def priced : JsonValue := .object
  [("list",.array [.number "-1.50e+7",.string "tab\there",.null]),("name",.string ""),("sold",.boolean false)]

theorem priced_formed : Formed priced := by
  refine ⟨?_,⟨⟨⟨['-'],['1'],['.','5','0'],['e','+','7']⟩,⟨.inr rfl,.inr ⟨'1',[],rfl,by decide,?_⟩,
    .inr ⟨['5','0'],rfl,?_⟩,.inr ⟨'e',['+'],['7'],rfl,.inl rfl,.inr (.inl rfl),?_⟩⟩,rfl⟩,trivial,trivial,trivial⟩,
    trivial,trivial,trivial⟩
  · simp only [List.pairwise_cons,List.mem_cons,List.not_mem_nil,or_false,forall_eq_or_imp,forall_eq,
      List.Pairwise.nil,false_implies,implies_true,and_true]
    decide
  · exact ⟨by decide,List.all_eq_true.mp (by decide)⟩
  · exact ⟨by decide,List.all_eq_true.mp (by decide)⟩
  · exact ⟨by decide,List.all_eq_true.mp (by decide)⟩

theorem print_parse_roundtrip_priced : Formed priced ∧ parseJsonStr (toJsonString priced) = .ok priced :=
  ⟨priced_formed,print_parse_roundtrip priced_formed⟩

end Json
end RemDb
