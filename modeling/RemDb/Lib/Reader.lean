import RemDb.Lib.Bytes

namespace RemDb.Lib

-- A reader takes what it needs from the front of a file and leaves the rest;
-- `none` is a read that comes up short.
abbrev Reader := StateT Bytes Option

namespace Reader

def take (count : Nat) : Reader Bytes := fun file =>
  if count ≤ file.length then some (file.take count,file.drop count) else none

def byte : Reader UInt8 := do
  let bytes ← take 1
  pure (bytes.headD 0)

def le (width : Nat) : Reader Nat := do
  let bytes ← take width
  pure (ofLE bytes)

def times (reader : Reader α) : Nat → Reader (List α)
  | 0 => pure []
  | count+1 => do
    let first ← reader
    let rest ← times reader count
    pure (first :: rest)

-- What was written is read as `value`, whatever follows it.
def Reads (reader : Reader α) (written : Bytes) (value : α) : Prop :=
  ∀ rest, reader (written ++ rest) = some (value,rest)

def Yields (reader : Reader α) (least : Nat) (property : α → Prop) : Prop :=
  ∀ file value rest, reader file = some (value,rest) → property value ∧ rest.length+least ≤ file.length

section Rules
variable {α β : Type} {reader : Reader α} {next : α → Reader β}

theorem bind_apply (reader : Reader α) (next : α → Reader β) (file : Bytes) :
    (reader >>= next) file = (reader file).bind fun found => next found.1 found.2 := rfl

theorem bind_of_reads (read : Reads reader written value) (next : α → Reader β) (rest : Bytes) :
    (reader >>= next) (written ++ rest) = next value rest := by
  rw [bind_apply,read]
  rfl

theorem reads_take (written : Bytes) : Reads (take written.length) written written := by
  intro rest
  rw [take,if_pos (by simp),List.take_left,List.drop_left]

theorem reads_le_mod (width value : Nat) : Reads (le width) (toLE width value) (value % 256^width) := by
  intro rest
  have taken := reads_take (toLE width value) rest
  rw [toLE_length] at taken
  rw [le,bind_apply,taken,Option.bind_some,ofLE_toLE]
  rfl

theorem reads_le (small : value < 256^width) : Reads (le width) (toLE width value) value := by
  have read := reads_le_mod width value
  rw [Nat.mod_eq_of_lt small] at read
  exact read

theorem reads_byte (value : UInt8) : Reads byte [value] value := fun _ => rfl

theorem reads_times (written : β → Bytes) (value : β → α) (items : List β)
    (each : ∀ item ∈ items, Reads reader (written item) (value item)) :
    Reads (reader.times items.length) (items.flatMap written) (items.map value) := by
  induction items with
  | nil => exact fun _ => rfl
  | cons item rest ih =>
    have tail := ih fun other member => each other (List.mem_cons_of_mem _ member)
    intro after
    rw [List.length_cons,times,List.flatMap_cons,List.append_assoc,bind_of_reads (each item List.mem_cons_self),
      bind_of_reads tail]
    rfl

theorem yields_pure {property : α → Prop} (held : property value) (none_left : total = 0) :
    Yields (pure value) total property := by
  intro file found rest read
  cases read
  exact ⟨held,by omega⟩

-- `total` is counted down by what the first reader is known to take.
theorem yields_bind {property : α → Prop} {result : β → Prop} (first : Yields reader least property)
    (second : ∀ value, property value → Yields (next value) (total-least) result) :
    Yields (reader >>= next) total result := by
  intro file value rest read
  rw [bind_apply] at read
  obtain ⟨found,taken,read⟩ := Option.bind_eq_some_iff.mp read
  obtain ⟨held,gone⟩ := first file found.1 found.2 taken
  obtain ⟨final,gone'⟩ := second found.1 held found.2 value rest read
  exact ⟨final,by omega⟩

theorem yields_take (count : Nat) : Yields (take count) count fun bytes => bytes.length = count := by
  intro file bytes rest read
  unfold take at read
  split at read
  · rename_i enough
    cases read
    refine ⟨List.length_take_of_le enough,?_⟩
    rw [List.length_drop]
    omega
  · cases read

theorem yields_le (width : Nat) : Yields (le width) width fun value => value < 256^width := by
  apply yields_bind (yields_take width)
  intro bytes size
  refine yields_pure ?_ (Nat.sub_self width)
  rw [← size]
  exact ofLE_lt bytes

theorem yields_byte : Yields byte 1 fun _ => True :=
  yields_bind (yields_take 1) fun _ _ => yields_pure trivial rfl

theorem yields_times {property : α → Prop} (each : Yields reader 0 property) (count : Nat) :
    Yields (reader.times count) 0 fun values => values.length = count ∧ ∀ value ∈ values, property value := by
  induction count with
  | zero => exact yields_pure ⟨rfl,fun _ member => nomatch member⟩ rfl
  | succ count ih =>
    apply yields_bind each
    intro first held
    apply yields_bind ih
    rintro rest ⟨size,all⟩
    refine yields_pure ⟨congrArg Nat.succ size,?_⟩ rfl
    intro value member
    rcases List.mem_cons.mp member with same | later
    · exact same ▸ held
    · exact all value later

theorem Yields.weaken {property weaker : α → Prop} (strong : Yields reader least property)
    (implied : ∀ value, property value → weaker value) (fewer : least' ≤ least) : Yields reader least' weaker := by
  intro file value rest read
  obtain ⟨held,gone⟩ := strong file value rest read
  exact ⟨implied value held,by omega⟩

end Rules
end Reader
end RemDb.Lib
