import Mathlib.Data.Set.Basic
import RemDb.Lib.Listing
import RemDb.Sql.Values

namespace RemDb
namespace Values
open RemDb.Lib

def TypedValue.Plain (self : TypedValue) : Prop := self.value_type ≠ .float32 ∧ self.value_type ≠ .float64

-- The string that a value of a text type denotes.
def TypedValue.text (heap : Heap) (self : TypedValue) : Bytes :=
  if self.value_type = .text then self.value.text_storage.extractBytes heap else beforeNul self.value.string.bytes

-- Equality, hash and order fit together on a set of values.
structure Coherent (heap : Heap) (values : Set TypedValue) : Prop where
  reflexive : ∀ a ∈ values, a.eq a = true
  symmetric : ∀ a ∈ values, ∀ b ∈ values, a.eq b = true → b.eq a = true
  transitive : ∀ a ∈ values, ∀ b ∈ values, ∀ c ∈ values, a.eq b = true → b.eq c = true → a.eq c = true
  hashed : ∀ a ∈ values, ∀ b ∈ values, a.eq b = true → a.hash = b.hash
  turned : ∀ a ∈ values, ∀ b ∈ values, a.cmp heap b = (b.cmp heap a).swap
  ordered : ∀ a ∈ values, ∀ b ∈ values, ∀ c ∈ values,
    (a.cmp heap b).isLE = true → (b.cmp heap c).isLE = true → (a.cmp heap c).isLE = true
  equal : ∀ a ∈ values, ∀ b ∈ values, a.cmp heap b = .eq ↔ a.eq b = true
  strings : ∀ a ∈ values, ∀ b ∈ values, a.value_type = b.value_type → a.value_type.isText = true →
    (a.eq b = true ↔ a.text heap = b.text heap)
  hash_set : ∀ rows : List Row, (∀ row ∈ rows, ∀ value ∈ row, value ∈ values) →
    Deduplicated (fun held row => held.isEqv row TypedValue.eq) rows (hashSet rows)
  tree_set : ∀ keys : List TypedValue, (∀ value ∈ keys, value ∈ values) → Deduplicated TypedValue.eq keys (treeSet heap keys)

-- Two texts are the same or hold different strings, and documents are the same.
def Distinguished (heap : Heap) (a b : TypedValue) : Prop :=
  a.value_type = b.value_type → match a.value_type with
    | .varChar | .char => a.text heap = b.text heap → a.value.string = b.value.string
    | .text => a.text heap = b.text heap → a.value.text_storage = b.value.text_storage
    | .json => a.value.json_storage = b.value.json_storage
    | _ => True

section Keys

theorem compare_mono {α : Type} [LT α] [DecidableLT α] [DecidableEq α] {f : α → Int} (less : ∀ x y, x < y ↔ f x < f y)
    (same : ∀ x y, x = y ↔ f x = f y) (x y : α) : compareOfLessAndEq x y = compare (f x) (f y) := by
  change _ = compareOfLessAndEq (f x) (f y)
  rw [compareOfLessAndEq,compareOfLessAndEq]
  simp only [less x y,same x y]

theorem compare_u8 (x y : UInt8) : compare x y = compare (x.toNat : Int) y.toNat :=
  compare_mono (fun _ _ => by rw [UInt8.lt_iff_toNat_lt,Int.ofNat_lt]) (fun _ _ => by rw [Int.ofNat_inj,UInt8.toNat_inj]) x y

theorem compare_u16 (x y : UInt16) : compare x y = compare (x.toNat : Int) y.toNat :=
  compare_mono (fun _ _ => by rw [UInt16.lt_iff_toNat_lt,Int.ofNat_lt]) (fun _ _ => by rw [Int.ofNat_inj,UInt16.toNat_inj]) x y

theorem compare_u32 (x y : UInt32) : compare x y = compare (x.toNat : Int) y.toNat :=
  compare_mono (fun _ _ => by rw [UInt32.lt_iff_toNat_lt,Int.ofNat_lt]) (fun _ _ => by rw [Int.ofNat_inj,UInt32.toNat_inj]) x y

theorem compare_u64 (x y : UInt64) : compare x y = compare (x.toNat : Int) y.toNat :=
  compare_mono (fun _ _ => by rw [UInt64.lt_iff_toNat_lt,Int.ofNat_lt]) (fun _ _ => by rw [Int.ofNat_inj,UInt64.toNat_inj]) x y

theorem compare_i8 (x y : Int8) : compare x y = compare x.toInt y.toInt :=
  compare_mono (fun _ _ => Int8.lt_iff_toInt_lt) (fun _ _ => Int8.toInt_inj.symm) x y

theorem compare_i16 (x y : Int16) : compare x y = compare x.toInt y.toInt :=
  compare_mono (fun _ _ => Int16.lt_iff_toInt_lt) (fun _ _ => Int16.toInt_inj.symm) x y

theorem compare_i32 (x y : Int32) : compare x y = compare x.toInt y.toInt :=
  compare_mono (fun _ _ => Int32.lt_iff_toInt_lt) (fun _ _ => Int32.toInt_inj.symm) x y

theorem compare_i64 (x y : Int64) : compare x y = compare x.toInt y.toInt :=
  compare_mono (fun _ _ => Int64.lt_iff_toInt_lt) (fun _ _ => Int64.toInt_inj.symm) x y

theorem compare_bool (x y : Bool) : compare x y = compare (x.toNat : Int) y.toNat := by
  cases x <;> cases y <;> rfl

def numbersOf (bytes : Bytes) : List Int := bytes.map fun byte => (byte.toNat : Int)

theorem compare_bytes (left right : Bytes) : compare left right = compare (numbersOf left) (numbersOf right) := by
  induction left generalizing right with
  | nil => cases right <;> rfl
  | cons byte rest ih =>
    cases right with
    | nil => rfl
    | cons other others =>
      rw [numbersOf,numbersOf,List.map_cons,List.map_cons,List.compare_cons_cons,List.compare_cons_cons,compare_u8,ih]
      rfl

theorem numbersOf_inj {left right : Bytes} : numbersOf left = numbersOf right ↔ left = right :=
  (List.map_injective_iff.mpr fun _ _ same => UInt8.toNat_inj.mp (Int.ofNat_inj.mp same)).eq_iff

theorem code_inj {left right : DataType} : left.code = right.code ↔ left = right :=
  ⟨fun same => by rw [← DataType.ofCode_code left,same,DataType.ofCode_code],congrArg _⟩

namespace TypedValue

def numbers (self : TypedValue) : List Int :=
  match self.value_type with
  | .uint8 => [(self.value.u8.toNat : Int)]
  | .uint16 => [(self.value.u16.toNat : Int)]
  | .uint32 => [(self.value.u32.toNat : Int)]
  | .uint64 => [(self.value.u64.toNat : Int)]
  | .int8 => [self.value.i8.toInt]
  | .int16 => [self.value.i16.toInt]
  | .int32 => [self.value.i32.toInt]
  | .int64 => [self.value.i64.toInt]
  | .bool => [(self.value.bool.toNat : Int)]
  | .timestamp => [self.value.time.value.toInt]
  | .timestampTZ => [self.value.time.value.toInt,self.value.time.tz_offset.toInt]
  | .interval => [self.value.interval.toInt]
  | .varChar | .char => numbersOf (beforeNul self.value.string.bytes)
  | .vector => [(self.value.vector.toNat : Int)]
  | .text | .json | .float32 | .float64 => []

def sortKey (heap : Heap) (self : TypedValue) : List Int :=
  (self.value_type.code.toNat : Int) ::
    if self.value_type = .text then numbersOf (self.value.text_storage.extractBytes heap) else self.numbers

def identity (self : TypedValue) : DataType × List Int × Option TextStorage × Option JsonStorage :=
  (self.value_type,self.numbers,if self.value_type = .text then some self.value.text_storage else none,
    if self.value_type = .json then some self.value.json_storage else none)

theorem cmp_key (heap : Heap) {a b : TypedValue} (plain : a.Plain) : a.cmp heap b = compare (a.sortKey heap) (b.sortKey heap) := by
  obtain ⟨type,x⟩ := a
  obtain ⟨other,y⟩ := b
  rw [cmp,partialCmp,sortKey,sortKey,List.compare_cons_cons,← compare_u8]
  cases codes : compare type.code other.code with
  | lt => rfl
  | gt => rfl
  | eq =>
    obtain rfl := code_inj.mp (Std.LawfulEqOrd.eq_of_compare codes)
    have single (m n : Int) : compare [m] [n] = compare m n := by
      rw [List.compare_cons_cons,List.compare_nil_nil,Ordering.then_eq]
    cases type with
    | float32 => exact absurd rfl plain.1
    | float64 => exact absurd rfl plain.2
    | uint8 => exact (compare_u8 _ _).trans (single _ _).symm
    | uint16 => exact (compare_u16 _ _).trans (single _ _).symm
    | uint32 => exact (compare_u32 _ _).trans (single _ _).symm
    | uint64 => exact (compare_u64 _ _).trans (single _ _).symm
    | int8 => exact (compare_i8 _ _).trans (single _ _).symm
    | int16 => exact (compare_i16 _ _).trans (single _ _).symm
    | int32 => exact (compare_i32 _ _).trans (single _ _).symm
    | int64 => exact (compare_i64 _ _).trans (single _ _).symm
    | bool => exact (compare_bool _ _).trans (single _ _).symm
    | timestamp => exact (compare_i64 _ _).trans (single _ _).symm
    | timestampTZ =>
      dsimp only
      change _ = compare [x.time.value.toInt,x.time.tz_offset.toInt] [y.time.value.toInt,y.time.tz_offset.toInt]
      rw [List.compare_cons_cons,single,← compare_i64,← compare_i16]
      cases compare x.time.value y.time.value <;> rfl
    | interval => exact (compare_i64 _ _).trans (single _ _).symm
    | varChar => exact compare_bytes _ _
    | char => exact compare_bytes _ _
    | text => exact compare_bytes _ _
    | vector => exact (compare_u64 _ _).trans (single _ _).symm
    | json => rfl

theorem eq_identity {a b : TypedValue} (plain : a.Plain) : a.eq b = true ↔ a.identity = b.identity := by
  obtain ⟨type,x⟩ := a
  obtain ⟨other,y⟩ := b
  rw [eq,identity,identity]
  by_cases types : type = other
  · subst types
    have single {m n : Int} : [m] = [n] ↔ m = n := List.singleton_inj
    rw [if_neg (not_not_intro rfl)]
    cases type with
    | float32 => exact absurd rfl plain.1
    | float64 => exact absurd rfl plain.2
    | varChar | char =>
      simp only [numbers,compareUtf8,beq_iff_eq,Prod.mk.injEq,numbersOf_inj,reduceCtorEq,if_false,and_true,true_and]
      exact Std.LawfulEqOrd.compare_eq_iff_eq
    | text | json => simp only [numbers,beq_iff_eq,Prod.mk.injEq,Option.some.injEq,reduceCtorEq,if_true,if_false,and_true,true_and]
    | int8 => simp only [numbers,beq_iff_eq,Prod.mk.injEq,single,reduceCtorEq,if_false,and_true,true_and,Int8.toInt_inj]
    | int16 => simp only [numbers,beq_iff_eq,Prod.mk.injEq,single,reduceCtorEq,if_false,and_true,true_and,Int16.toInt_inj]
    | int32 => simp only [numbers,beq_iff_eq,Prod.mk.injEq,single,reduceCtorEq,if_false,and_true,true_and,Int32.toInt_inj]
    | int64 | timestamp | interval =>
      simp only [numbers,beq_iff_eq,Prod.mk.injEq,single,reduceCtorEq,if_false,and_true,true_and,Int64.toInt_inj]
    | timestampTZ =>
      simp only [numbers,Bool.and_eq_true,beq_iff_eq,Prod.mk.injEq,List.cons.injEq,reduceCtorEq,if_false,and_true,true_and,
        Int64.toInt_inj,Int16.toInt_inj]
    | bool =>
      simp only [numbers,beq_iff_eq,Prod.mk.injEq,single,reduceCtorEq,if_false,and_true,true_and,Int.ofNat_inj]
      exact ⟨congrArg _,fun same => by revert same; cases x.bool <;> cases y.bool <;> decide⟩
    | uint8 | uint16 | uint32 | uint64 | vector =>
      simp only [numbers,beq_iff_eq,Prod.mk.injEq,single,reduceCtorEq,if_false,and_true,true_and,Int.ofNat_inj,UInt8.toNat_inj,
        UInt16.toNat_inj,UInt32.toNat_inj,UInt64.toNat_inj]
  · rw [if_pos types]
    exact ⟨fun never => absurd never Bool.false_ne_true,fun same => absurd (Prod.mk.inj same).1 types⟩

end TypedValue
end Keys

section Hashing
variable {heap : Heap} {a b : TypedValue}

theorem hash_of_eq (plain : a.Plain) (distinguished : Distinguished heap a b) (same : a.eq b = true) : a.hash = b.hash := by
  have identical := (TypedValue.eq_identity plain).mp same
  obtain ⟨type,x⟩ := a
  obtain ⟨other,y⟩ := b
  obtain ⟨types,numbers,texts,documents⟩ := Prod.mk.inj identical |>.imp_right fun rest =>
    (Prod.mk.inj rest).imp_right fun last => Prod.mk.inj last
  subst types
  have distinguished := distinguished rfl
  have one {m n : Int} (equal : [m] = [n]) : m = n := List.singleton_inj.mp equal
  rw [TypedValue.hash,TypedValue.hash]
  refine congrArg (discriminant _ ++ ·) ?_
  cases type with
  | float32 => exact absurd rfl plain.1
  | float64 => exact absurd rfl plain.2
  | uint8 => exact congrArg (fun n => [n]) (UInt8.toNat_inj.mp (Int.ofNat_inj.mp (one numbers)))
  | uint16 => exact congrArg (toLE 2) (Int.ofNat_inj.mp (one numbers))
  | uint32 => exact congrArg (toLE 4) (Int.ofNat_inj.mp (one numbers))
  | uint64 | vector => exact congrArg (toLE 8) (Int.ofNat_inj.mp (one numbers))
  | int8 => exact congrArg (fun n : Int8 => toLE 1 n.toUInt8.toNat) (Int8.toInt_inj.mp (one numbers))
  | int16 => exact congrArg (fun n : Int16 => toLE 2 n.toUInt16.toNat) (Int16.toInt_inj.mp (one numbers))
  | int32 => exact congrArg (fun n : Int32 => toLE 4 n.toUInt32.toNat) (Int32.toInt_inj.mp (one numbers))
  | int64 | timestamp | interval => exact congrArg (fun n : Int64 => toLE 8 n.toUInt64.toNat) (Int64.toInt_inj.mp (one numbers))
  | bool =>
    have bits : x.bool = y.bool := by
      have equal := one numbers
      revert equal
      cases x.bool <;> cases y.bool <;> decide
    exact congrArg (fun bit : Bool => [if bit then (1 : UInt8) else 0]) bits
  | timestampTZ =>
    obtain ⟨value,rest⟩ := List.cons.inj numbers
    exact congrArg₂ (fun (value : Int64) (offset : Int16) => toLE 8 value.toUInt64.toNat ++ toLE 2 offset.toUInt16.toNat)
      (Int64.toInt_inj.mp value) (Int16.toInt_inj.mp (one rest))
  | varChar | char =>
    have strings : x.string = y.string := distinguished (numbersOf_inj.mp numbers)
    simp only [strings]
  | text => exact congrArg TextStorage.feed (Option.some.inj texts)
  | json => exact congrArg JsonStorage.feed (Option.some.inj documents)

theorem cmp_eq_iff (plain : a.Plain) (distinguished : Distinguished heap a b) : a.cmp heap b = .eq ↔ a.eq b = true := by
  rw [TypedValue.cmp_key heap plain,Std.LawfulEqOrd.compare_eq_iff_eq,TypedValue.eq_identity plain,TypedValue.sortKey,
    TypedValue.sortKey,TypedValue.identity,TypedValue.identity]
  constructor
  · intro keys
    obtain ⟨codes,rest⟩ := List.cons.inj keys
    have types : a.value_type = b.value_type := code_inj.mp (UInt8.toNat_inj.mp (Int.ofNat_inj.mp codes))
    have distinguished := distinguished types
    rw [← types] at rest ⊢
    by_cases text : a.value_type = .text
    · rw [if_pos text,if_pos text] at rest
      rw [text] at distinguished
      have storages : a.value.text_storage = b.value.text_storage := distinguished (by
        rw [TypedValue.text,TypedValue.text,if_pos text,if_pos (types ▸ text)]
        exact numbersOf_inj.mp rest)
      have numbers : a.numbers = b.numbers := by rw [TypedValue.numbers,TypedValue.numbers,← types,text]
      have other : ¬ a.value_type = .json := by
        rw [text]
        decide
      rw [numbers,storages,if_neg other,if_neg other]
    · rw [if_neg text,if_neg text] at rest
      rw [rest,if_neg text,if_neg text]
      by_cases json : a.value_type = .json
      · rw [json] at distinguished
        rw [if_pos json,if_pos json,show a.value.json_storage = b.value.json_storage from distinguished]
      · rw [if_neg json,if_neg json]
  · intro identical
    obtain ⟨types,rest⟩ := Prod.mk.inj identical
    obtain ⟨numbers,last⟩ := Prod.mk.inj rest
    obtain ⟨texts,_⟩ := Prod.mk.inj last
    rw [← types] at texts ⊢
    rw [numbers]
    by_cases text : a.value_type = .text
    · rw [if_pos text,if_pos text] at texts
      rw [if_pos text,if_pos text,Option.some.inj texts]
    · rw [if_neg text,if_neg text]

theorem strings_iff (plain : a.Plain) (distinguished : Distinguished heap a b) (types : a.value_type = b.value_type)
    (textual : a.value_type.isText = true) : a.eq b = true ↔ a.text heap = b.text heap := by
  rw [← cmp_eq_iff plain distinguished,TypedValue.cmp_key heap plain,Std.LawfulEqOrd.compare_eq_iff_eq,TypedValue.sortKey,
    TypedValue.sortKey,← types]
  obtain ⟨type,x⟩ := a
  obtain ⟨other,y⟩ := b
  subst types
  cases type with
  | varChar | char | text => exact ⟨fun keys => numbersOf_inj.mp (List.cons.inj keys).2,fun texts => congrArg _ (numbersOf_inj.mpr texts)⟩
  | _ => cases textual

theorem trimNuls_pad (bytes : Bytes) :
    bytes = trimNuls bytes ++ List.replicate (bytes.length-(trimNuls bytes).length) 0 := by
  have split := List.takeWhile_append_dropWhile (p:=fun byte : UInt8 => decide (byte = 0)) (l:=bytes.reverse)
  have zeros : bytes.reverse.takeWhile (fun byte : UInt8 => decide (byte = 0)) =
      List.replicate (bytes.reverse.takeWhile (fun byte : UInt8 => decide (byte = 0))).length 0 :=
    List.eq_replicate_of_mem fun byte among => of_decide_eq_true (List.all_eq_true.mp List.all_takeWhile byte among)
  have whole : bytes = trimNuls bytes ++ (bytes.reverse.takeWhile (fun byte : UInt8 => decide (byte = 0))).reverse := by
    rw [trimNuls,← List.reverse_append,split,List.reverse_reverse]
  have length := congrArg List.length whole
  rw [List.length_append,List.length_reverse] at length
  rw [zeros,List.reverse_replicate] at whole
  rw [show bytes.length-(trimNuls bytes).length = (bytes.reverse.takeWhile (fun byte : UInt8 => decide (byte = 0))).length by omega]
  exact whole

theorem trimNuls_length (bytes : Bytes) : (trimNuls bytes).length ≤ bytes.length := by
  have length := congrArg List.length (trimNuls_pad bytes)
  rw [List.length_append] at length
  omega

def feedText (bytes : Bytes) : Bytes :=
  match String.fromUTF8? ⟨bytes.toArray⟩ with
  | some _ => feedStr (trimNuls bytes)
  | none => feedSlice bytes

theorem feedText_inj {left right : Bytes} (length : left.length = right.length) (same : feedText left = feedText right) :
    left = right := by
  rw [feedText,feedText] at same
  have front := trimNuls_length left
  have back := trimNuls_length right
  cases one : String.fromUTF8? ⟨left.toArray⟩ with
  | some _ =>
    cases two : String.fromUTF8? ⟨right.toArray⟩ with
    | some _ =>
      rw [one,two] at same
      have trimmed : trimNuls left = trimNuls right := List.append_cancel_right same
      rw [trimNuls_pad left,trimNuls_pad right,trimmed,length]
    | none =>
      rw [one,two] at same
      have lengths := congrArg List.length same
      simp only [feedStr,feedSlice,List.length_append,List.length_singleton,toLE_length] at lengths
      omega
  | none =>
    cases two : String.fromUTF8? ⟨right.toArray⟩ with
    | some _ =>
      rw [one,two] at same
      have lengths := congrArg List.length same
      simp only [feedStr,feedSlice,List.length_append,List.length_singleton,toLE_length] at lengths
      omega
    | none =>
      rw [one,two] at same
      exact (List.append_inj same (by rw [toLE_length,toLE_length])).2

theorem string_of_hash (types : a.value_type = b.value_type) (textual : a.value_type = .varChar ∨ a.value_type = .char)
    (same : a.hash = b.hash) : a.value.string = b.value.string := by
  obtain ⟨type,x⟩ := a
  obtain ⟨other,y⟩ := b
  subst types
  have feeds : feedText x.string.bytes = feedText y.string.bytes := by
    rcases textual with rfl | rfl
    · exact List.append_cancel_left same
    · exact List.append_cancel_left same
  have bytes := feedText_inj (x.string.sized.trans y.string.sized.symm) feeds
  change x.string = y.string
  cases shape : x.string
  cases again : y.string
  rw [shape,again] at bytes
  cases bytes
  rfl

theorem rows_hash {held row : Row} (plain : ∀ a ∈ held, a.Plain) (all : ∀ a ∈ held, ∀ b ∈ row, Distinguished heap a b)
    (same : held.isEqv row TypedValue.eq = true) : held.hash = row.hash := by
  have parts : held.length = row.length ∧ held.flatMap TypedValue.hash = row.flatMap TypedValue.hash := by
    induction held generalizing row with
    | nil =>
      cases row with
      | nil => exact ⟨rfl,rfl⟩
      | cons => cases same
    | cons first rest ih =>
      cases row with
      | nil => cases same
      | cons other others =>
        rw [List.isEqv_cons_cons,Bool.and_eq_true] at same
        obtain ⟨lengths,hashes⟩ := ih (fun a among => plain a (List.mem_cons_of_mem _ among))
          (fun a among b inside => all a (List.mem_cons_of_mem _ among) b (List.mem_cons_of_mem _ inside)) same.2
        rw [List.length_cons,List.length_cons,List.flatMap_cons,List.flatMap_cons,lengths,hashes,
          hash_of_eq (plain first List.mem_cons_self) (all first List.mem_cons_self other List.mem_cons_self) same.1]
        exact ⟨rfl,rfl⟩
  rw [Row.hash,Row.hash,parts.1,parts.2]

end Hashing

theorem coherent_iff (heap : Heap) (values : Set TypedValue) (plain : ∀ value ∈ values, value.Plain) :
    Coherent heap values ↔ ∀ a ∈ values, ∀ b ∈ values, Distinguished heap a b := by
  constructor
  · intro coherent a among b inside types
    have hashed := coherent.hashed a among b inside
    have strings := coherent.strings a among b inside types
    have identical := @TypedValue.eq_identity a b (plain a among)
    cases type : a.value_type with
    | varChar =>
      exact fun texts => string_of_hash types (.inl type) (hashed ((strings (by rw [type]; rfl)).mpr texts))
    | char =>
      exact fun texts => string_of_hash types (.inr type) (hashed ((strings (by rw [type]; rfl)).mpr texts))
    | text =>
      intro texts
      have parts := identical.mp ((strings (by rw [type]; rfl)).mpr texts)
      rw [TypedValue.identity,TypedValue.identity,← types,if_pos type,if_pos type] at parts
      exact Option.some.inj (Prod.mk.inj (Prod.mk.inj (Prod.mk.inj parts).2).2).1
    | json =>
      have equal : a.cmp heap b = .eq := by
        rw [TypedValue.cmp_key heap (plain a among),TypedValue.sortKey,TypedValue.sortKey,TypedValue.numbers,TypedValue.numbers,
          ← types,type]
        exact Std.ReflCmp.compare_self
      have parts := identical.mp ((coherent.equal a among b inside).mp equal)
      rw [TypedValue.identity,TypedValue.identity,← types,if_pos type,if_pos type] at parts
      exact Option.some.inj (Prod.mk.inj (Prod.mk.inj (Prod.mk.inj parts).2).2).2
    | _ => trivial
  · intro all
    refine ⟨fun a among => (TypedValue.eq_identity (plain a among)).mpr rfl,fun a among b inside same => ?_,
      fun a among b inside c member first second => ?_,fun a among b inside => hash_of_eq (plain a among) (all a among b inside),
      fun a among b inside => ?_,fun a among b inside c member first second => ?_,
      fun a among b inside => cmp_eq_iff (plain a among) (all a among b inside),
      fun a among b inside => strings_iff (plain a among) (all a among b inside),fun rows within => ?_,fun keys within => ?_⟩
    · rw [TypedValue.eq_identity (plain a among)] at same
      exact (TypedValue.eq_identity (plain b inside)).mpr same.symm
    · rw [TypedValue.eq_identity (plain a among)] at first
      rw [TypedValue.eq_identity (plain b inside)] at second
      exact (TypedValue.eq_identity (plain a among)).mpr (first.trans second)
    · rw [TypedValue.cmp_key heap (plain a among),TypedValue.cmp_key heap (plain b inside)]
      exact Std.OrientedCmp.eq_swap
    · rw [TypedValue.cmp_key heap (plain a among)] at first ⊢
      rw [TypedValue.cmp_key heap (plain b inside)] at second
      exact Std.TransCmp.isLE_trans first second
    · have agree : hashSet rows = keepFirst (fun held row => held.isEqv row TypedValue.eq) rows :=
        keepFirst_congr rows fun held among row inside => by
          cases same : held.isEqv row TypedValue.eq with
          | false => exact Bool.and_false _
          | true =>
            rw [Bool.and_true,beq_iff_eq]
            exact rows_hash (fun a part => plain a (within held among a part))
              (fun a part b piece => all a (within held among a part) b (within row inside b piece)) same
      rw [agree]
      exact keepFirst_deduplicated _ rows
    · have agree : treeSet heap keys = keepFirst TypedValue.eq keys := keepFirst_congr keys fun a among b inside => by
        rw [Bool.eq_iff_iff,beq_iff_eq]
        exact cmp_eq_iff (plain a (within a among)) (all a (within a among) b (within b inside))
      rw [agree]
      exact keepFirst_deduplicated _ keys

def blank : Value where
  u8 := 0
  u16 := 0
  u32 := 0
  u64 := 0
  i8 := 0
  i16 := 0
  i32 := 0
  i64 := 0
  float32 := 0
  float64 := 0
  bool := false
  time := ⟨0,0⟩
  interval := 0
  string := ⟨List.replicate 64 0,List.length_replicate⟩
  vector := 0
  json_storage := .null
  text_storage := ⟨.null,⟨List.replicate 256 0,List.length_replicate⟩⟩

def nullDocument : TypedValue := ⟨.json,blank⟩
def emptyDocument : TypedValue := ⟨.json,{blank with json_storage:=.inline ⟨List.replicate 256 0,List.length_replicate⟩}⟩

theorem coherent_iff_null : (∀ value ∈ ({nullDocument} : Set TypedValue), value.Plain) ∧
    (Coherent (fun _ => 0) {nullDocument} ↔
      ∀ a ∈ ({nullDocument} : Set TypedValue), ∀ b ∈ ({nullDocument} : Set TypedValue), Distinguished (fun _ => 0) a b) := by
  have plain : ∀ value ∈ ({nullDocument} : Set TypedValue), value.Plain := by
    intro value among
    rw [Set.mem_singleton_iff.mp among]
    exact ⟨by decide,by decide⟩
  exact ⟨plain,coherent_iff (fun _ => 0) {nullDocument} plain⟩

-- Two documents compare as equal and are not.
theorem documents_incoherent : ¬ Coherent (fun _ => 0) {nullDocument,emptyDocument} := by
  intro coherent
  have equal := (coherent.equal nullDocument (Set.mem_insert _ _) emptyDocument (Set.mem_insert_of_mem _ rfl)).mp rfl
  exact absurd equal (by decide)

end Values
end RemDb
