import RemDb.Json.Exactness
import RemDb.Json.StoredText

namespace RemDb
namespace JsonDocument
open Lib BlockHeader JsonMemoryPool

-- `json_valid` makes a document of the text and drops it; nothing where the pool
-- finds neither a block nor an end of its search.
def jsonValid (heap : JsonHeap) (json_str : String) : Option Bool :=
  (fromJson heap json_str).map fun made => made.1.isOk

variable {heap : JsonHeap} {text : String}

-- What is called valid is what the parser reads.
def ValidAgrees (heap : JsonHeap) (text : String) : Prop :=
  jsonValid heap text = some true ↔ ∃ value, Json.parseJsonStr text = .ok value

def Room (heap : JsonHeap) (text : String) : Prop :=
  ∃ pool index block, DefaultPool heap pool ∧ (utf8 text).length+SIZE ≤ pool.config.block_size ∧ Takes pool heap index block

-- The text begins with a value, in the grammar that the parser reads.
def Begins (text : String) : Prop := ∃ rest value, Json.ValueRead (Json.trim text.toList) rest value

theorem jsonValid_iff (heap : JsonHeap) (text : String) :
    jsonValid heap text = some true ↔ ∃ doc heap', fromJson heap text = some (.ok doc,heap') := by
  rw [jsonValid,Option.map_eq_some_iff]
  constructor
  · rintro ⟨⟨outcome,heap'⟩,made,is_ok⟩
    cases outcome with
    | error message => cases is_ok
    | ok doc => exact ⟨doc,heap',made⟩
  · rintro ⟨doc,heap',made⟩
    exact ⟨_,made,rfl⟩

theorem jsonValid_blank (heap : JsonHeap) (blank : Json.trim text.toList = []) : jsonValid heap text = some true := by
  rw [jsonValid,fromJson,if_pos blank]
  rfl

theorem parseJsonStr_blank (blank : Json.trim text.toList = []) : Json.parseJsonStr text = .ok .null := by
  rw [Json.parseJsonStr]
  exact if_pos blank

theorem jsonValid_filled (filled : Json.trim text.toList ≠ []) (short : (utf8 text).length ≤ maxJsonSize) :
    jsonValid heap text = some true ↔ (utf8 text).length ≤ 256 ∨ Room heap text := by
  rw [jsonValid_iff]
  by_cases inline : (utf8 text).length ≤ 256
  · exact ⟨fun _ => .inl inline,fun _ => ⟨_,_,fromJson_inline heap filled inline⟩⟩
  have long : 256 < (utf8 text).length := Nat.lt_of_not_le inline
  constructor
  · rintro ⟨doc,heap',done⟩
    obtain ⟨pools,pool,index,block,managed,first,fits,takes⟩ := taken_of_fromJson filled long short done
    exact .inr ⟨pool,index,block,⟨pools,managed,first⟩,fits,takes⟩
  · intro place
    obtain ⟨pool,index,block,⟨pools,managed,first⟩,fits,takes⟩ := place.resolve_left inline
    obtain ⟨pool',heap',allocated,handed⟩ := allocate_of_takes _ takes fits
    exact ⟨_,_,external_of_allocate filled long short managed first allocated handed.placed⟩

theorem parsed_iff (filled : Json.trim text.toList ≠ []) : (∃ value, Json.parseJsonStr text = .ok value) ↔ Begins text := by
  constructor
  · rintro ⟨value,ok⟩
    obtain ⟨rest,read⟩ := (Json.parseJsonStr_iff filled value).mp ok
    exact ⟨rest,value,read⟩
  · rintro ⟨rest,value,read⟩
    exact ⟨value,(Json.parseJsonStr_iff filled value).mpr ⟨rest,read⟩⟩

theorem json_valid_iff (heap : JsonHeap) (text : String) (short : (utf8 text).length ≤ maxJsonSize) :
    ValidAgrees heap text ↔
      Json.trim text.toList = [] ∨ (Begins text ↔ (utf8 text).length ≤ 256 ∨ Room heap text) := by
  by_cases blank : Json.trim text.toList = []
  · refine ⟨fun _ => .inl blank,fun _ => ?_⟩
    exact ⟨fun _ => ⟨_,parseJsonStr_blank blank⟩,fun _ => jsonValid_blank heap blank⟩
  · rw [ValidAgrees,jsonValid_filled blank short,parsed_iff blank]
    exact ⟨fun agrees => .inr agrees.symm,fun agrees => (agrees.resolve_left blank).symm⟩

theorem json_valid_iff_array : (utf8 "[1]").length ≤ maxJsonSize ∧ (ValidAgrees ⟨fun _ => 0,none,none⟩ "[1]" ↔
    Json.trim "[1]".toList = [] ∨
      (Begins "[1]" ↔ (utf8 "[1]").length ≤ 256 ∨ Room ⟨fun _ => 0,none,none⟩ "[1]")) :=
  ⟨by decide,json_valid_iff ⟨fun _ => 0,none,none⟩ "[1]" (by decide)⟩

-- A text that nothing can read is valid.
theorem no_value_valid : ¬ ValidAgrees ⟨fun _ => 0,none,none⟩ "oops" := by
  intro agrees
  have filled : Json.trim "oops".toList ≠ [] := by decide
  have short : (utf8 "oops").length ≤ 256 := by decide
  have valid := (@jsonValid_filled ⟨fun _ => 0,none,none⟩ "oops" filled (by decide)).mpr (.inl short)
  obtain ⟨value,ok⟩ := agrees.mp valid
  have refused : (Json.parseJsonStr "oops").isOk = false := by decide +kernel
  rw [ok] at refused
  cases refused

end JsonDocument
end RemDb
