import Mathlib.Data.List.Chain
import RemDb.Wal.Format

namespace RemDb
namespace TimeSeries
open RemDb.Lib RemDb.Wal

-- The checked build faults where an operation leaves the range, the release build
-- wraps around.
inductive Build where
  | checked | release
deriving DecidableEq,Repr

namespace Build

def sub (build : Build) (left right : UInt64) : Option UInt64 :=
  if build = .checked ∧ left < right then none else some (left-right)

def add (build : Build) (left right : UInt64) : Option UInt64 :=
  if build = .checked ∧ 2^64 ≤ left.toNat+right.toNat then none else some (left+right)

end Build

def u64At (compressed : Bytes) (start : Nat) : UInt64 := UInt64.ofNat (ofLE (readAt compressed start 8))

section Delta
variable (build : Build)

def deltasFrom (last : UInt64) : List UInt64 → Option Bytes
  | [] => some []
  | value :: rest => do
    let delta ← build.sub value last
    let bytes ← deltasFrom value rest
    pure (toLE 8 delta.toNat ++ bytes)

def compressDelta (values : List UInt64) : Option Bytes := deltasFrom build 0 values

-- Reading past the end of the bytes is not checked: there is no value then.
def valuesFrom (compressed : Bytes) (i : Nat) (last : UInt64) : Nat → Option (List UInt64)
  | 0 => some []
  | count+1 =>
    if compressed.length < i*8+8 then none
    else do
      let value ← build.add last (u64At compressed (i*8))
      let rest ← valuesFrom compressed (i+1) value count
      pure (value :: rest)

def decompressDelta (compressed : Bytes) (count : Nat) : Option (List UInt64) := valuesFrom build compressed 0 0 count

end Delta

section DeltaDelta
variable (build : Build)

def secondDeltas (last_value last_delta1 : UInt64) : List UInt64 → Option Bytes
  | [] => some []
  | value :: rest => do
    let delta1 ← build.sub value last_value
    let delta2 ← build.sub delta1 last_delta1
    let bytes ← secondDeltas value delta1 rest
    pure (toLE 8 delta2.toNat ++ bytes)

def compressDeltaDelta : List UInt64 → Option Bytes
  | [] => some []
  | [first] => some (toLE 8 first.toNat)
  | first :: second :: rest => do
    let delta1 ← build.sub second first
    let bytes ← secondDeltas build second delta1 rest
    pure (toLE 8 first.toNat ++ (toLE 8 delta1.toNat ++ bytes))

-- The values from the place `i` on, as many as there are bytes for.
def secondValues (compressed : Bytes) (i : Nat) (last_value current_delta1 : UInt64) : Nat → Option (List UInt64)
  | 0 => some []
  | count+1 =>
    let offset := 16+(i-2)*8
    if offset+8 > compressed.length then some []
    else do
      let current_delta1 ← build.add current_delta1 (u64At compressed offset)
      let current_value ← build.add last_value current_delta1
      let rest ← secondValues compressed (i+1) current_value current_delta1 count
      pure (current_value :: rest)

def decompressDeltaDelta (compressed : Bytes) (count : Nat) : Option (List UInt64) :=
  if count = 0 ∨ compressed.length < 8 then some []
  else
    let first := u64At compressed 0
    if count = 1 then some [first]
    else if compressed.length < 16 then some [first]
    else do
      let delta1 := u64At compressed 8
      let second ← build.add first delta1
      if count = 2 then pure [first,second]
      else
        let rest ← secondValues build compressed 2 second delta1 (count-2)
        pure (first :: second :: rest)

end DeltaDelta

section RunLength

-- A run is closed when it has as many values as sixteen bits can count.
def runsFrom (current : UInt64) (count : Nat) : List UInt64 → Bytes
  | [] => toLE 8 current.toNat ++ toLE 4 count
  | value :: rest =>
    if value = current ∧ count < 65535 then runsFrom current (count+1) rest
    else toLE 8 current.toNat ++ toLE 4 count ++ runsFrom value 1 rest

def compressRunLength : List UInt64 → Bytes
  | [] => []
  | first :: rest => runsFrom first 1 rest

def expandFrom (compressed : Bytes) (index : Nat) : List UInt64 :=
  if index+12 ≤ compressed.length then
    List.replicate (ofLE (readAt compressed (index+8) 4)) (u64At compressed index) ++ expandFrom compressed (index+12)
  else []
termination_by compressed.length-index

def decompressRunLength (compressed : Bytes) : List UInt64 := expandFrom compressed 0

end RunLength

-- What is unpacked is what was packed, and nothing faults on the way.
structure Lossless (build : Build) (values : List UInt64) : Prop where
  delta : (compressDelta build values).bind (decompressDelta build · values.length) = some values
  delta_delta : (compressDeltaDelta build values).bind (decompressDeltaDelta build · values.length) = some values
  run_length : decompressRunLength (compressRunLength values) = values

section Packing
variable {build : Build} {value last delta : UInt64}

theorem Build.add_of_sub (gone : build.sub value last = some delta) : build.add last delta = some value := by
  rw [Build.sub] at gone
  split at gone
  · cases gone
  rename_i inside
  cases gone
  have back : last+(value-last) = value := by
    rw [UInt64.add_comm,UInt64.sub_add_cancel]
  rw [Build.add,back,if_neg]
  rintro ⟨checked,large⟩
  have above : last ≤ value := UInt64.not_lt.mp fun below => inside ⟨checked,below⟩
  have whole := value.toNat_lt
  rw [UInt64.toNat_sub_of_le _ _ above,Nat.add_sub_cancel' (UInt64.le_iff_toNat_le.mp above)] at large
  omega

theorem Build.sub_release (value last : UInt64) : Build.release.sub value last = some (value-last) := if_neg fun never => nomatch never.1

theorem Build.sub_checked (above : last ≤ value) : Build.checked.sub value last = some (value-last) :=
  if_neg fun both => UInt64.not_lt.mpr above both.2

theorem Build.sub_faults (below : ¬ last ≤ value) : Build.checked.sub value last = none :=
  if_pos ⟨rfl,UInt64.not_le.mp below⟩

theorem u64At_here (front rest : Bytes) (n : UInt64) : u64At (front ++ (toLE 8 n.toNat ++ rest)) front.length = n := by
  have field := readAt_append front (toLE 8 n.toNat) rest
  rw [toLE_length] at field
  rw [u64At,field,le_uint64]

theorem valuesFrom_deltas (values : List UInt64) {front bytes : Bytes} {i : Nat} (placed : front.length = i*8)
    (packed : deltasFrom build last values = some bytes) :
    valuesFrom build (front ++ bytes) i last values.length = some values := by
  induction values generalizing front bytes i last with
  | nil => rfl
  | cons value rest ih =>
    obtain ⟨delta,gone,others⟩ := Option.bind_eq_some_iff.mp packed
    obtain ⟨behind,packed_behind,is⟩ := Option.bind_eq_some_iff.mp others
    cases is
    have enough : ¬ (front ++ (toLE 8 delta.toNat ++ behind)).length < i*8+8 := by
      simp only [List.length_append,toLE_length]
      omega
    have next : (front ++ toLE 8 delta.toNat).length = (i+1)*8 := by
      simp only [List.length_append,toLE_length]
      omega
    have later := ih next packed_behind
    rw [List.append_assoc] at later
    rw [List.length_cons,valuesFrom,if_neg enough,← placed,u64At_here,Build.add_of_sub gone,Option.bind_eq_bind,
      Option.bind_some,later]
    rfl

theorem delta_roundtrip {values : List UInt64} {bytes : Bytes} (packed : compressDelta build values = some bytes) :
    decompressDelta build bytes values.length = some values :=
  @valuesFrom_deltas build 0 values [] bytes 0 rfl packed

theorem secondValues_deltas (values : List UInt64) {front bytes : Bytes} {i : Nat} {last_value last_delta1 : UInt64}
    (placed : front.length = 16+(i-2)*8) (later : 2 ≤ i) (packed : secondDeltas build last_value last_delta1 values = some bytes) :
    secondValues build (front ++ bytes) i last_value last_delta1 values.length = some values := by
  induction values generalizing front bytes i last_value last_delta1 with
  | nil => rfl
  | cons value rest ih =>
    obtain ⟨delta1,first_gone,others⟩ := Option.bind_eq_some_iff.mp packed
    obtain ⟨delta2,second_gone,others⟩ := Option.bind_eq_some_iff.mp others
    obtain ⟨behind,packed_behind,is⟩ := Option.bind_eq_some_iff.mp others
    cases is
    have enough : ¬ 16+(i-2)*8+8 > (front ++ (toLE 8 delta2.toNat ++ behind)).length := by
      simp only [List.length_append,toLE_length]
      omega
    have next : (front ++ toLE 8 delta2.toNat).length = 16+(i+1-2)*8 := by
      simp only [List.length_append,toLE_length]
      omega
    have unpacked := ih next (by omega) packed_behind
    rw [List.append_assoc] at unpacked
    rw [List.length_cons,secondValues,if_neg enough,← placed,u64At_here,Build.add_of_sub second_gone,
      Option.bind_eq_bind,Option.bind_some,Build.add_of_sub first_gone,Option.bind_eq_bind,Option.bind_some,unpacked]
    rfl

theorem delta_delta_roundtrip {values : List UInt64} {bytes : Bytes} (packed : compressDeltaDelta build values = some bytes) :
    decompressDeltaDelta build bytes values.length = some values := by
  match values with
  | [] => rfl
  | [first] =>
    cases packed
    have read := u64At_here [] [] first
    rw [List.append_nil] at read
    rw [decompressDeltaDelta,if_neg (by simp)]
    have one : [first].length = 1 := rfl
    dsimp only
    rw [if_pos one]
    exact congrArg (fun value => some [value]) read
  | first :: second :: rest =>
    obtain ⟨delta1,gone,others⟩ := Option.bind_eq_some_iff.mp packed
    obtain ⟨behind,packed_behind,is⟩ := Option.bind_eq_some_iff.mp others
    cases is
    have length : (toLE 8 first.toNat ++ (toLE 8 delta1.toNat ++ behind)).length = 16+behind.length := by
      simp only [List.length_append,toLE_length]
      omega
    have first_read : u64At (toLE 8 first.toNat ++ (toLE 8 delta1.toNat ++ behind)) 0 = first := u64At_here [] _ first
    have delta_read : u64At (toLE 8 first.toNat ++ (toLE 8 delta1.toNat ++ behind)) 8 = delta1 := by
      have read := u64At_here (toLE 8 first.toNat) behind delta1
      rwa [toLE_length] at read
    have unpacked := @secondValues_deltas build rest (toLE 8 first.toNat ++ toLE 8 delta1.toNat) behind 2 second delta1
      (by simp only [List.length_append,toLE_length]) (Nat.le_refl 2) packed_behind
    rw [List.append_assoc] at unpacked
    have many : (first :: second :: rest).length = rest.length+2 := rfl
    rw [decompressDeltaDelta,many,if_neg (by omega)]
    dsimp only
    rw [if_neg (by omega),if_neg (by omega),first_read,delta_read,Build.add_of_sub gone,
      Option.bind_eq_bind,Option.bind_some]
    cases rest with
    | nil => rfl
    | cons third rest =>
      rw [if_neg (by simp only [List.length_cons]; omega),Nat.add_sub_cancel,unpacked]
      rfl

end Packing

section Runs

theorem expandFrom_run (front rest : Bytes) (value : UInt64) {count : Nat} (small : count < 2^32) :
    expandFrom (front ++ (toLE 8 value.toNat ++ (toLE 4 count ++ rest))) front.length =
      List.replicate count value ++
        expandFrom ((front ++ (toLE 8 value.toNat ++ toLE 4 count)) ++ rest) (front ++ (toLE 8 value.toNat ++ toLE 4 count)).length := by
  have counted := readAt_append (front ++ toLE 8 value.toNat) (toLE 4 count) rest
  rw [toLE_length,List.length_append,toLE_length,List.append_assoc] at counted
  have next : (front ++ (toLE 8 value.toNat ++ toLE 4 count)).length = front.length+12 := by
    simp only [List.length_append,toLE_length]
  rw [expandFrom,if_pos (by simp only [List.length_append,toLE_length]; omega),u64At_here,counted,
    le_roundtrip small,next]
  simp only [List.append_assoc]

theorem expandFrom_end (compressed : Bytes) : expandFrom compressed compressed.length = [] := by
  rw [expandFrom,if_neg (by omega)]

theorem expandFrom_runs (values : List UInt64) (front : Bytes) (current : UInt64) {count : Nat} (small : count ≤ 65535) :
    expandFrom (front ++ runsFrom current count values) front.length = List.replicate count current ++ values := by
  induction values generalizing front current count with
  | nil =>
    have run := @expandFrom_run front [] current count (by omega)
    rw [List.append_nil,List.append_nil,expandFrom_end] at run
    exact run
  | cons value rest ih =>
    rw [runsFrom]
    split
    · rename_i same
      rw [ih front current (by omega),List.replicate_succ',List.append_assoc,same.1]
      rfl
    · rw [List.append_assoc,expandFrom_run front _ current (by omega),ih _ value (by omega)]
      rfl

theorem run_length_roundtrip (values : List UInt64) : decompressRunLength (compressRunLength values) = values := by
  cases values with
  | nil => exact expandFrom_end []
  | cons first rest => exact expandFrom_runs rest [] first (by omega)

end Runs

section Lossless

theorem lossless_iff (build : Build) (values : List UInt64) :
    Lossless build values ↔ (compressDelta build values).isSome ∧ (compressDeltaDelta build values).isSome := by
  constructor
  · rintro ⟨delta,delta_delta,_⟩
    obtain ⟨_,packed,_⟩ := Option.bind_eq_some_iff.mp delta
    obtain ⟨_,packed_twice,_⟩ := Option.bind_eq_some_iff.mp delta_delta
    exact ⟨Option.isSome_of_eq_some packed,Option.isSome_of_eq_some packed_twice⟩
  · rintro ⟨once,twice⟩
    obtain ⟨_,packed⟩ := Option.isSome_iff_exists.mp once
    obtain ⟨_,packed_twice⟩ := Option.isSome_iff_exists.mp twice
    exact ⟨Option.bind_eq_some_iff.mpr ⟨_,packed,delta_roundtrip packed⟩,
      Option.bind_eq_some_iff.mpr ⟨_,packed_twice,delta_delta_roundtrip packed_twice⟩,run_length_roundtrip values⟩

theorem deltasFrom_release (values : List UInt64) (last : UInt64) : (deltasFrom .release last values).isSome := by
  induction values generalizing last with
  | nil => rfl
  | cons value rest ih =>
    obtain ⟨bytes,packed⟩ := Option.isSome_iff_exists.mp (ih value)
    rw [deltasFrom,Build.sub_release,Option.bind_eq_bind,Option.bind_some,packed]
    rfl

theorem secondDeltas_release (values : List UInt64) (last_value last_delta1 : UInt64) :
    (secondDeltas .release last_value last_delta1 values).isSome := by
  induction values generalizing last_value last_delta1 with
  | nil => rfl
  | cons value rest ih =>
    obtain ⟨bytes,packed⟩ := Option.isSome_iff_exists.mp (ih value (value-last_value))
    rw [secondDeltas,Build.sub_release,Option.bind_eq_bind,Option.bind_some,Build.sub_release,Option.bind_eq_bind,
      Option.bind_some,packed]
    rfl

theorem release_lossless (values : List UInt64) : Lossless .release values := by
  refine (lossless_iff .release values).mpr ⟨deltasFrom_release values 0,?_⟩
  match values with
  | [] => rfl
  | [first] => rfl
  | first :: second :: rest =>
    obtain ⟨bytes,packed⟩ := Option.isSome_iff_exists.mp (secondDeltas_release rest second (second-first))
    rw [compressDeltaDelta,Build.sub_release,Option.bind_eq_bind,Option.bind_some,packed]
    rfl

-- No step is shorter than the one before it.
def Widening : List UInt64 → Prop
  | first :: second :: third :: rest => second.toNat+second.toNat ≤ first.toNat+third.toNat ∧ Widening (second :: third :: rest)
  | _ => True

theorem deltasFrom_checked (values : List UInt64) (last : UInt64) :
    (deltasFrom .checked last values).isSome ↔ (last :: values).IsChain (· ≤ ·) := by
  induction values generalizing last with
  | nil => exact ⟨fun _ => .singleton last,fun _ => rfl⟩
  | cons value rest ih =>
    rw [List.isChain_cons_cons,← ih value]
    by_cases above : last ≤ value
    · rw [deltasFrom,Build.sub_checked above,Option.bind_eq_bind,Option.bind_some]
      cases deltasFrom .checked value rest with
      | none => exact ⟨fun never => (nomatch never),fun both => (nomatch both.2)⟩
      | some bytes => exact ⟨fun _ => ⟨above,rfl⟩,fun _ => rfl⟩
    · rw [deltasFrom,Build.sub_faults above]
      exact ⟨fun never => (nomatch never),fun both => absurd both.1 above⟩

theorem step_le_iff {previous last value : UInt64} (before : previous ≤ last) (above : last ≤ value) :
    last-previous ≤ value-last ↔ last.toNat+last.toNat ≤ previous.toNat+value.toNat := by
  rw [UInt64.le_iff_toNat_le] at before above
  rw [UInt64.le_iff_toNat_le,UInt64.toNat_sub_of_le _ _ (UInt64.le_iff_toNat_le.mpr before),
    UInt64.toNat_sub_of_le _ _ (UInt64.le_iff_toNat_le.mpr above)]
  omega

theorem secondDeltas_checked (values : List UInt64) {previous last : UInt64} (before : previous ≤ last) :
    (secondDeltas .checked last (last-previous) values).isSome ↔
      (last :: values).IsChain (· ≤ ·) ∧ Widening (previous :: last :: values) := by
  induction values generalizing previous last with
  | nil => exact ⟨fun _ => ⟨.singleton last,trivial⟩,fun _ => rfl⟩
  | cons value rest ih =>
    rw [List.isChain_cons_cons,Widening]
    by_cases above : last ≤ value
    · rw [secondDeltas,Build.sub_checked above,Option.bind_eq_bind,Option.bind_some,← step_le_iff before above]
      by_cases longer : last-previous ≤ value-last
      · rw [Build.sub_checked longer,Option.bind_eq_bind,Option.bind_some]
        have later := ih above
        cases packed : secondDeltas .checked value (value-last) rest with
        | none =>
          rw [packed] at later
          exact ⟨fun never => (nomatch never),fun ⟨chain,_,widening⟩ => (nomatch later.mpr ⟨chain.2,widening⟩)⟩
        | some bytes =>
          rw [packed] at later
          obtain ⟨chain,widening⟩ := later.mp rfl
          exact ⟨fun _ => ⟨⟨above,chain⟩,longer,widening⟩,fun _ => rfl⟩
      · rw [Build.sub_faults longer]
        exact ⟨fun never => (nomatch never),fun ⟨_,widening⟩ => absurd widening.1 longer⟩
    · rw [secondDeltas,Build.sub_faults above]
      exact ⟨fun never => (nomatch never),fun ⟨chain,_⟩ => absurd chain.1 above⟩

theorem compressDeltaDelta_checked (values : List UInt64) :
    (compressDeltaDelta .checked values).isSome ↔ values.IsChain (· ≤ ·) ∧ Widening values := by
  match values with
  | [] => exact ⟨fun _ => ⟨.nil,trivial⟩,fun _ => rfl⟩
  | [first] => exact ⟨fun _ => ⟨.singleton first,trivial⟩,fun _ => rfl⟩
  | first :: second :: rest =>
    rw [List.isChain_cons_cons]
    by_cases above : first ≤ second
    · have later := secondDeltas_checked rest above
      rw [compressDeltaDelta,Build.sub_checked above,Option.bind_eq_bind,Option.bind_some]
      cases packed : secondDeltas .checked second (second-first) rest with
      | none =>
        rw [packed] at later
        exact ⟨fun never => (nomatch never),fun ⟨chain,widening⟩ => (nomatch later.mpr ⟨chain.2,widening⟩)⟩
      | some bytes =>
        rw [packed] at later
        obtain ⟨chain,widening⟩ := later.mp rfl
        exact ⟨fun _ => ⟨⟨above,chain⟩,widening⟩,fun _ => rfl⟩
    · rw [compressDeltaDelta,Build.sub_faults above]
      exact ⟨fun never => (nomatch never),fun ⟨chain,_⟩ => absurd chain.1 above⟩

-- In both builds, and so in the checked one, what is packed has to go up in steps
-- that do not get shorter.
theorem compression_lossless_iff (values : List UInt64) :
    (∀ build, Lossless build values) ↔ values.IsChain (· ≤ ·) ∧ Widening values := by
  have first_step : (0 :: values).IsChain (· ≤ ·) ↔ values.IsChain (· ≤ ·) := by
    cases values with
    | nil => exact ⟨fun _ => .nil,fun _ => .singleton 0⟩
    | cons value rest =>
      rw [List.isChain_cons_cons]
      exact ⟨And.right,fun chain => ⟨UInt64.le_iff_toNat_le.mpr (Nat.zero_le _),chain⟩⟩
  have checked : Lossless .checked values ↔ values.IsChain (· ≤ ·) ∧ Widening values := by
    rw [lossless_iff,compressDeltaDelta_checked,compressDelta,deltasFrom_checked,first_step]
    exact ⟨And.right,fun both => ⟨both.1,both⟩⟩
  refine ⟨fun lossless => checked.mp (lossless .checked),fun both build => ?_⟩
  cases build with
  | checked => exact checked.mpr both
  | release => exact release_lossless values

-- A value below the one before it stops the packing, and so does a rate that
-- drops.
theorem decrease_faults : ¬ Lossless .checked [5,3] ∧ ¬ Lossless .checked [0,5,6] := by
  constructor
  · intro lossless
    exact absurd ((lossless_iff .checked [5,3]).mp lossless).1 (by decide)
  · intro lossless
    exact absurd ((lossless_iff .checked [0,5,6]).mp lossless).2 (by decide)

end Lossless
end TimeSeries
end RemDb
