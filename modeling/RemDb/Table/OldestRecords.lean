import Mathlib.Data.Finset.Max
import RemDb.Table.Accounting

namespace RemDb
open RemDb.Lib RemDb.Wal

namespace MemoryTable

def upTo (table : MemoryTable) (bound : UInt16) (slots : List Nat) : List Nat :=
  slots.filter fun slot => table.used slot && decide ((table.status slot).version ≤ bound)

-- The victims are different used slots, and no used slot that is spared is older.
structure OldestChosen (table : MemoryTable) (need : Nat) : Prop where
  distinct : (table.oldestSlots need).Nodup
  used : ∀ slot ∈ table.oldestSlots need, slot < table.tdef.max_records ∧ table.used slot = true
  oldest : ∀ slot ∈ table.oldestSlots need, ∀ other, other < table.tdef.max_records → table.used other = true →
    other ∉ table.oldestSlots need → (table.status slot).version ≤ (table.status other).version
  single : need = 1 → ∃ slot, table.oldest = some slot ∧ table.oldestSlots need = [slot]

-- There are enough slots up to some version below the start value of the search,
-- and their versions do not decrease from slot to slot.
def AscendingUpTo (table : MemoryTable) (need : Nat) : Prop :=
  ∃ bound < 65535, need ≤ (table.upTo bound (List.range table.tdef.max_records)).length ∧
    (table.upTo bound (List.range table.tdef.max_records)).Pairwise fun left right =>
      (table.status left).version ≤ (table.status right).version

section Placing
variable {table : MemoryTable}

theorem smear_above (bound : UInt16) (entry : Nat × UInt16) (entries : List (Nat × UInt16))
    (above : bound < entry.2) (every : ∀ each ∈ entries, bound < each.2) :
    (∀ each ∈ smear entry entries, bound < each.2) ∧ (smear entry entries).length = entries.length := by
  induction entries with
  | nil => exact ⟨fun _ => nofun,rfl⟩
  | cons next rest ih =>
    unfold smear
    split
    · exact ⟨every,rfl⟩
    · obtain ⟨tail,length⟩ := ih fun each among => every each (List.mem_cons_of_mem _ among)
      exact ⟨List.forall_mem_cons.mpr ⟨above,tail⟩,congrArg (·+1) length⟩

theorem place_above (bound : UInt16) (slot : Nat) (version : UInt16) (entries : List (Nat × UInt16))
    (later : bound < version) (every : ∀ each ∈ entries, bound < each.2) :
    (∀ each ∈ place slot version entries, bound < each.2) ∧ (place slot version entries).length = entries.length := by
  induction entries with
  | nil => exact ⟨fun _ => nofun,rfl⟩
  | cons next rest ih =>
    obtain ⟨head,others⟩ := List.forall_mem_cons.mp every
    unfold place
    split
    · obtain ⟨tail,length⟩ := smear_above bound next rest head others
      exact ⟨List.forall_mem_cons.mpr ⟨later,tail⟩,congrArg (·+1) length⟩
    · obtain ⟨tail,length⟩ := ih others
      exact ⟨List.forall_mem_cons.mpr ⟨head,tail⟩,congrArg (·+1) length⟩

theorem place_after (slot : Nat) (version : UInt16) (front back : List (Nat × UInt16))
    (older : ∀ each ∈ front, each.2 ≤ version) :
    place slot version (front ++ back) = front ++ place slot version back := by
  induction front with
  | nil => rfl
  | cons next rest ih =>
    obtain ⟨head,others⟩ := List.forall_mem_cons.mp older
    rw [List.cons_append,place,if_neg (UInt16.not_lt.mpr head),ih others]
    rfl

def entriesFor (table : MemoryTable) (slots : List Nat) : List (Nat × UInt16) :=
  slots.map fun slot => (slot,(table.status slot).version)

-- After some slots the entries start with those up to the bound that came first;
-- what is behind them lies above the bound.
def Kept (table : MemoryTable) (bound : UInt16) (need : Nat) (seen : List Nat) (entries : List (Nat × UInt16)) :
    Prop :=
  ∃ back, entries = table.entriesFor ((table.upTo bound seen).take need) ++ back ∧
    (∀ each ∈ back, bound < each.2) ∧ back.length = need-(table.upTo bound seen).length

theorem upTo_append (bound : UInt16) (one two : List Nat) :
    table.upTo bound (one ++ two) = table.upTo bound one ++ table.upTo bound two := List.filter_append ..

theorem mem_upTo (bound : UInt16) (slots : List Nat) : slot ∈ table.upTo bound slots ↔
    slot ∈ slots ∧ table.used slot = true ∧ (table.status slot).version ≤ bound := by
  simp only [upTo,List.mem_filter,Bool.and_eq_true,decide_eq_true_eq]

theorem kept_step (kept : Kept table bound need seen entries)
    (ordered : (table.upTo bound (seen ++ [slot])).Pairwise fun left right =>
      (table.status left).version ≤ (table.status right).version) :
    Kept table bound need (seen ++ [slot])
      (if table.used slot = true then place slot (table.status slot).version entries else entries) := by
  obtain ⟨back,rfl,above,length⟩ := kept
  rw [upTo_append] at ordered
  unfold Kept
  rw [upTo_append]
  by_cases taken : table.used slot = true
  · rw [if_pos taken]
    by_cases low : (table.status slot).version ≤ bound
    · have single : table.upTo bound [slot] = [slot] := by simp [upTo,taken,low]
      rw [single] at ordered ⊢
      have older : ∀ each ∈ table.entriesFor ((table.upTo bound seen).take need),
          each.2 ≤ (table.status slot).version := by
        intro each among
        obtain ⟨other,member,rfl⟩ := List.mem_map.mp among
        exact (List.pairwise_append.mp ordered).2.2 other (List.mem_of_mem_take member) slot List.mem_cons_self
      rw [place_after slot _ _ _ older]
      cases back with
      | nil =>
        have full : need ≤ (table.upTo bound seen).length := by
          rw [List.length_nil] at length
          omega
        refine ⟨[],?_,fun _ => nofun,?_⟩
        · rw [List.take_append_of_le_length full]
          rfl
        · rw [List.length_append,List.length_nil]
          omega
      | cons head rest =>
        obtain ⟨first,others⟩ := List.forall_mem_cons.mp above
        obtain ⟨tail,kept⟩ := smear_above bound head rest first others
        refine ⟨smear head rest,?_,tail,?_⟩
        · simp only [List.length_cons] at length
          rw [place,if_pos (UInt16.lt_of_le_of_lt low first),
            List.take_of_length_le (l := table.upTo bound seen) (by omega),
            List.take_of_length_le (by simp only [List.length_append,List.length_singleton]; omega)]
          simp [entriesFor]
        · simp only [List.length_cons,List.length_append,List.length_nil] at length ⊢
          omega
    · have later : bound < (table.status slot).version := UInt16.not_le.mp low
      have none_new : table.upTo bound [slot] = [] := by simp [upTo,low]
      rw [none_new,List.append_nil]
      have older : ∀ each ∈ table.entriesFor ((table.upTo bound seen).take need),
          each.2 ≤ (table.status slot).version := by
        intro each among
        obtain ⟨other,member,rfl⟩ := List.mem_map.mp among
        have inside := ((mem_upTo bound seen).mp (List.mem_of_mem_take member)).2.2
        exact UInt16.le_of_lt (UInt16.lt_of_le_of_lt inside later)
      obtain ⟨tail,same⟩ := place_above bound slot _ back later above
      rw [place_after slot _ _ _ older]
      exact ⟨_,rfl,tail,same.trans length⟩
  · have none_new : table.upTo bound [slot] = [] := by simp [upTo,taken]
    rw [if_neg taken,none_new,List.append_nil]
    exact ⟨back,rfl,above,length⟩

theorem kept_run (need : Nat) (below : bound < 65535) (slots : List Nat)
    (ordered : (table.upTo bound slots).Pairwise fun left right =>
      (table.status left).version ≤ (table.status right).version) :
    Kept table bound need slots (slots.foldl (fun entries slot =>
      if table.used slot = true then place slot (table.status slot).version entries else entries)
      (List.replicate need (0,65535))) := by
  induction slots using List.reverseRecOn with
  | nil =>
    refine ⟨List.replicate need (0,65535),by simp [upTo,entriesFor],?_,by simp [upTo]⟩
    intro each among
    rw [List.eq_of_mem_replicate among]
    exact below
  | append_singleton seen slot ih =>
    rw [List.foldl_append,List.foldl_cons,List.foldl_nil]
    refine kept_step (ih ?_) ordered
    rw [upTo_append] at ordered
    exact (List.pairwise_append.mp ordered).1

theorem search_agrees (table : MemoryTable) (slots : List Nat) (best : Option Nat × UInt16) :
    slots.foldl (fun entries slot =>
      if table.used slot = true then place slot (table.status slot).version entries else entries)
      [(best.1.getD 0,best.2)] =
    let found := slots.foldl (fun best slot =>
      if table.used slot = true ∧ (table.status slot).version < best.2 then
        (some slot,(table.status slot).version)
      else best) best
    [(found.1.getD 0,found.2)] := by
  induction slots generalizing best with
  | nil => rfl
  | cons slot rest ih =>
    rw [List.foldl_cons,List.foldl_cons,← ih]
    congr 1
    by_cases taken : table.used slot = true
    · by_cases older : (table.status slot).version < best.2
      · simp [taken,older,place,smear]
      · simp [taken,older,place]
    · simp [taken]

-- The search of an insert that found nothing still has its start value.
theorem search_none (table : MemoryTable) (slots : List Nat) (best : Option Nat × UInt16) (start : best.1 = none → best.2 = 65535) :
    let found := slots.foldl (fun best slot =>
      if table.used slot = true ∧ (table.status slot).version < best.2 then
        (some slot,(table.status slot).version)
      else best) best
    found.1 = none → found.2 = 65535 := by
  induction slots generalizing best with
  | nil => exact start
  | cons slot rest ih =>
    rw [List.foldl_cons]
    apply ih
    split
    · exact nofun
    · exact start

end Placing

theorem in_order_chosen (table : MemoryTable) (need : Nat) (ordered : table.AscendingUpTo need) :
    table.OldestChosen need := by
  obtain ⟨bound,below,enough,sorted⟩ := ordered
  obtain ⟨back,shape,_,length⟩ := kept_run need below (List.range table.tdef.max_records) sorted
  have behind : back = [] := List.length_eq_zero_iff.mp (by omega)
  have victims : table.oldestSlots need = (table.upTo bound (List.range table.tdef.max_records)).take need := by
    rw [oldestSlots,shape,behind,List.append_nil,entriesFor,List.map_map]
    exact List.map_id _
  refine ⟨?_,?_,?_,?_⟩
  · rw [victims]
    exact (List.nodup_range.sublist List.filter_sublist).sublist (List.take_sublist _ _)
  · intro slot chosen
    rw [victims] at chosen
    obtain ⟨inside,used,_⟩ := (mem_upTo bound _).mp (List.mem_of_mem_take chosen)
    exact ⟨List.mem_range.mp inside,used⟩
  · intro slot chosen other inside used spared
    rw [victims] at chosen spared
    by_cases low : (table.status other).version ≤ bound
    · have member := (mem_upTo bound _).mpr ⟨List.mem_range.mpr inside,used,low⟩
      rw [← List.take_append_drop need (table.upTo bound _)] at member sorted
      rcases List.mem_append.mp member with taken | left
      · exact absurd taken spared
      · exact (List.pairwise_append.mp sorted).2.2 slot chosen other left
    · have old := ((mem_upTo bound _).mp (List.mem_of_mem_take chosen)).2.2
      exact UInt16.le_of_lt (UInt16.lt_of_le_of_lt old (UInt16.not_le.mp low))
  · intro one
    subst one
    have agrees := search_agrees table (List.range table.tdef.max_records) (none,65535)
    have start := search_none table (List.range table.tdef.max_records) (none,65535) fun _ => rfl
    dsimp only at agrees start
    have chosen : ∀ entry ∈ table.entriesFor ((table.upTo bound (List.range table.tdef.max_records)).take 1),
        entry.2 ≤ bound := by
      intro entry among
      obtain ⟨slot,member,rfl⟩ := List.mem_map.mp among
      exact ((mem_upTo bound _).mp (List.mem_of_mem_take member)).2.2
    rw [behind,List.append_nil] at shape
    change _ = [(table.oldest.getD 0,_)] at agrees
    change table.oldest = none → _ at start
    change List.foldl _ [(0,65535)] _ = _ at shape
    rw [Option.getD_none] at agrees
    rw [← shape,agrees] at chosen
    have low := chosen _ List.mem_cons_self
    cases found : table.oldest with
    | none =>
      rw [start found] at low
      exact absurd (UInt16.lt_of_lt_of_le below low) (UInt16.lt_irrefl bound)
    | some slot =>
      refine ⟨slot,rfl,?_⟩
      rw [oldestSlots]
      change List.map _ (List.foldl _ [(0,65535)] _) = _
      rw [agrees,found]
      rfl

section Displacing
variable {table : MemoryTable}

def Distinct (table : MemoryTable) : Prop :=
  ∀ left right, left < table.tdef.max_records → right < table.tdef.max_records → table.used left = true →
    table.used right = true → (table.status left).version = (table.status right).version → left = right

-- Slot zero, which stands in the arrays before anything is found, is not among
-- the oldest.
def ZeroSpared (table : MemoryTable) (need : Nat) : Prop :=
  table.used 0 = true → need ≤ ((List.range table.tdef.max_records).filter fun slot =>
    table.used slot && decide ((table.status slot).version < (table.status 0).version)).length

-- Entries in the order of their versions: start values, or slots that were seen.
structure Searched (table : MemoryTable) (seen : List Nat) (entries : List (Nat × UInt16)) : Prop where
  sorted : entries.Pairwise fun left right =>
    left.2 < right.2 ∨ left = ((0,65535) : Nat × UInt16) ∧ right = (0,65535)
  found : ∀ entry ∈ entries, entry = (0,65535) ∨
    entry.1 ∈ seen ∧ table.used entry.1 = true ∧ entry.2 = (table.status entry.1).version ∧ entry.2 < 65535

-- Without ties, a slot that is placed takes the place of the first entry that is
-- younger, and no other entry moves.
theorem place_cases (searched : Searched table seen entries) (slot : Nat) (version : UInt16) :
    ((∀ entry ∈ entries, entry.2 ≤ version) ∧ place slot version entries = entries) ∨
    ∃ front entry back, entries = front ++ entry :: back ∧ (∀ each ∈ front, each.2 ≤ version) ∧
      version < entry.2 ∧ place slot version entries = front ++ (slot,version) :: back := by
  obtain ⟨sorted,found⟩ := searched
  induction entries with
  | nil => exact Or.inl ⟨fun _ => nofun,rfl⟩
  | cons head rest ih =>
    obtain ⟨ahead,tail⟩ := List.pairwise_cons.mp sorted
    obtain ⟨first,others⟩ := List.forall_mem_cons.mp found
    by_cases younger : version < head.2
    · refine Or.inr ⟨[],head,rest,rfl,fun _ => nofun,younger,?_⟩
      have still : smear head rest = rest := by
        clear ih younger
        induction rest with
        | nil => rfl
        | cons next more again =>
          rcases ahead next List.mem_cons_self with later | ⟨rfl,rfl⟩
          · rw [smear,if_pos later]
          · have same : smear (0,65535) more = more := by
              apply again
              · exact List.pairwise_cons.mpr ⟨fun each among => ahead each (List.mem_cons_of_mem _ among),
                  (List.pairwise_cons.mp tail).2⟩
              · intro each among
                exact found each (by simp only [List.mem_cons] at among ⊢; tauto)
              · exact fun each among => ahead each (List.mem_cons_of_mem _ among)
              · exact (List.pairwise_cons.mp tail).2
              · exact fun each among => others each (List.mem_cons_of_mem _ among)
            rw [smear,if_neg (UInt16.lt_irrefl _),same]
      rw [place,if_pos younger,still]
      rfl
    · have older : head.2 ≤ version := UInt16.not_lt.mp younger
      rcases ih tail others with ⟨every,same⟩ | ⟨front,entry,back,rfl,every,later,same⟩
      · refine Or.inl ⟨List.forall_mem_cons.mpr ⟨older,every⟩,?_⟩
        rw [place,if_neg younger,same]
      · refine Or.inr ⟨head :: front,entry,back,rfl,List.forall_mem_cons.mpr ⟨older,every⟩,later,?_⟩
        rw [place,if_neg younger,same]
        rfl

def search (table : MemoryTable) (slots : List Nat) (entries : List (Nat × UInt16)) : List (Nat × UInt16) :=
  slots.foldl (fun entries slot =>
    if table.used slot = true then place slot (table.status slot).version entries else entries) entries

theorem searched_step (distinct : table.Distinct) (searched : Searched table seen entries)
    (inside : slot < table.tdef.max_records) (range : ∀ each ∈ seen, each < table.tdef.max_records)
    (fresh : slot ∉ seen) : Searched table (seen ++ [slot]) (table.search [slot] entries) := by
  have kept : ∀ entry ∈ entries, entry = (0,65535) ∨ entry.1 ∈ seen ++ [slot] ∧ table.used entry.1 = true ∧
      entry.2 = (table.status entry.1).version ∧ entry.2 < 65535 := by
    intro entry among
    refine (searched.found entry among).imp id ?_
    exact fun ⟨member,others⟩ => ⟨List.mem_append_left _ member,others⟩
  change Searched table _ (if table.used slot = true then _ else _)
  split
  · rename_i taken
    rcases place_cases searched slot (table.status slot).version with
      ⟨_,same⟩ | ⟨front,entry,back,rfl,older,younger,same⟩
    · rw [same]
      exact ⟨searched.sorted,kept⟩
    · rw [same]
      have bound : entry.2 ≤ 65535 := UInt16.le_iff_toNat_le.mpr (Nat.le_of_lt_succ entry.2.toNat_lt)
      have small : (table.status slot).version < 65535 := UInt16.lt_of_lt_of_le younger bound
      obtain ⟨before,rest,across⟩ := List.pairwise_append.mp searched.sorted
      obtain ⟨ahead,after⟩ := List.pairwise_cons.mp rest
      constructor
      · refine List.pairwise_append.mpr ⟨before,List.pairwise_cons.mpr ⟨?_,after⟩,?_⟩
        · intro each among
          rcases ahead each among with later | ⟨_,rfl⟩
          · exact Or.inl (UInt16.lt_trans younger later)
          · exact Or.inl small
        · intro each among
          rw [List.forall_mem_cons]
          refine ⟨Or.inl ?_,fun other member => across each among other (List.mem_cons_of_mem _ member)⟩
          have low := older each among
          refine UInt16.lt_of_le_of_ne low ?_
          intro tie
          rcases searched.found each (List.mem_append_left _ among) with rfl | ⟨member,used,version,_⟩
          · have top : (65535 : UInt16) = (table.status slot).version := tie
            rw [← top] at small
            exact UInt16.lt_irrefl _ small
          · have same_slot := distinct each.1 slot (range _ member) inside used taken (version.symm.trans tie)
            exact fresh (same_slot ▸ member)
      · intro each among
        rcases List.mem_append.mp among with first | second
        · exact kept each (List.mem_append_left _ first)
        · rcases List.mem_cons.mp second with rfl | later
          · exact Or.inr ⟨by simp,taken,rfl,small⟩
          · exact kept each (List.mem_append_right _ (List.mem_cons_of_mem _ later))
  · exact ⟨searched.sorted,kept⟩

theorem searched_run (distinct : table.Distinct) (need : Nat) (slots : List Nat) (nodup : slots.Nodup)
    (range : ∀ each ∈ slots, each < table.tdef.max_records) :
    Searched table slots (table.search slots (List.replicate need (0,65535))) := by
  induction slots using List.reverseRecOn with
  | nil =>
    constructor
    · exact List.pairwise_replicate.mpr (Or.inr (Or.inr ⟨rfl,rfl⟩))
    · exact fun entry among => Or.inl (List.eq_of_mem_replicate among)
  | append_singleton seen slot ih =>
    obtain ⟨before,_,apart⟩ := List.nodup_append.mp nodup
    rw [search,List.foldl_append]
    refine searched_step distinct (ih before fun each among => range each (List.mem_append_left _ among))
      (range slot (by simp)) (fun each among => range each (List.mem_append_left _ among)) ?_
    exact fun member => apart slot member slot List.mem_cons_self rfl

theorem search_mem (searched : Searched table seen entries) (distinct : table.Distinct) (slots : List Nat)
    (nodup : (seen ++ slots).Nodup) (range : ∀ each ∈ seen ++ slots, each < table.tdef.max_records)
    (among : entry ∈ table.search slots entries) : entry ∈ entries ∨ entry.1 ∈ slots := by
  induction slots generalizing seen entries with
  | nil => exact Or.inl among
  | cons slot rest ih =>
    have split : seen ++ slot :: rest = (seen ++ [slot]) ++ rest := by simp
    have fresh : slot ∉ seen := by
      intro member
      exact (List.nodup_append.mp nodup).2.2 slot member slot List.mem_cons_self rfl
    have next := searched_step distinct searched (range slot (by simp))
      (fun each member => range each (List.mem_append_left _ member)) fresh
    rcases ih next (split ▸ nodup) (split ▸ range) among with stayed | later
    · change entry ∈ (if table.used slot = true then _ else _) at stayed
      split at stayed
      · rcases place_cases searched slot (table.status slot).version with
          ⟨_,same⟩ | ⟨front,gone,back,rfl,_,_,same⟩
        · rw [same] at stayed
          exact Or.inl stayed
        · rw [same] at stayed
          simp only [List.mem_append,List.mem_cons] at stayed ⊢
          rcases stayed with first | rfl | last
          · exact Or.inl (Or.inl first)
          · exact Or.inr (Or.inl rfl)
          · exact Or.inl (Or.inr (Or.inr last))
      · exact Or.inl stayed
    · exact Or.inr (List.mem_cons_of_mem _ later)

theorem search_length (slots : List Nat) (entries : List (Nat × UInt16)) :
    (table.search slots entries).length = entries.length := by
  have smeared (entry : Nat × UInt16) (entries : List (Nat × UInt16)) :
      (smear entry entries).length = entries.length := by
    induction entries with
    | nil => rfl
    | cons next rest ih =>
      rw [smear]
      split
      · rfl
      · exact congrArg (·+1) ih
  have placed (slot : Nat) (version : UInt16) (entries : List (Nat × UInt16)) :
      (place slot version entries).length = entries.length := by
    induction entries with
    | nil => rfl
    | cons next rest ih =>
      rw [place]
      split
      · exact congrArg (·+1) (smeared next rest)
      · exact congrArg (·+1) ih
  induction slots generalizing entries with
  | nil => rfl
  | cons slot rest ih =>
    refine (ih _).trans ?_
    dsimp only
    split
    · exact placed slot _ entries
    · rfl

theorem oldestSlots_eq (table : MemoryTable) (need : Nat) : table.oldestSlots need =
    (table.search (List.range table.tdef.max_records) (List.replicate need (0,65535))).map (·.1) := rfl

-- A younger record that is in the arrays when an older one comes loses its place
-- to it, or another one does.
theorem older_displaces (distinct : table.Distinct) (seen rest : List Nat)
    (whole : List.range table.tdef.max_records = seen ++ slot :: rest) (taken : table.used slot = true)
    (held : (early,version) ∈ table.search seen (List.replicate need (0,65535)))
    (younger : (table.status slot).version < version) (small : version < 65535) :
    ∃ lost, lost ∈ seen ∧ table.used lost = true ∧ (table.status lost).version ≤ version ∧
      ∀ entry ∈ table.search (List.range table.tdef.max_records) (List.replicate need (0,65535)),
        entry.1 = lost → entry = (0,65535) := by
  have nodup : (seen ++ slot :: rest).Nodup := whole ▸ List.nodup_range
  have range : ∀ each ∈ seen ++ slot :: rest, each < table.tdef.max_records := by
    intro each member
    rw [← whole] at member
    exact List.mem_range.mp member
  have split : seen ++ slot :: rest = (seen ++ [slot]) ++ rest := by simp
  obtain ⟨before,_,apart⟩ := List.nodup_append.mp nodup
  have fresh : slot ∉ seen := fun member => apart slot member slot List.mem_cons_self rfl
  have inRange : ∀ each ∈ seen, each < table.tdef.max_records := fun each member =>
    range each (List.mem_append_left _ member)
  have searched := searched_run distinct need seen before inRange
  have next := searched_step distinct searched (range slot (by simp)) inRange fresh
  have final : table.search (List.range table.tdef.max_records) (List.replicate need (0,65535)) =
      table.search rest (table.search [slot] (table.search seen (List.replicate need (0,65535)))) := by
    rw [whole,split,search,List.foldl_append,List.foldl_append]
    rfl
  rw [final]
  generalize table.search seen (List.replicate need (0,65535)) = entries at *
  rcases place_cases searched slot (table.status slot).version with
    ⟨every,_⟩ | ⟨front,gone,back,rfl,older,later,same⟩
  · exact absurd (UInt16.lt_of_le_of_lt (every _ held) younger) (UInt16.lt_irrefl _)
  · obtain ⟨_,tail,across⟩ := List.pairwise_append.mp searched.sorted
    obtain ⟨ahead,_⟩ := List.pairwise_cons.mp tail
    have reach : gone.2 ≤ version := by
      simp only [List.mem_append,List.mem_cons] at held
      rcases held with first | rfl | last
      · exact absurd (UInt16.lt_of_lt_of_le younger (older _ first)) (UInt16.lt_irrefl _)
      · exact UInt16.le_refl _
      · rcases ahead _ last with above | ⟨_,start⟩
        · exact UInt16.le_of_lt above
        · exact absurd ((Prod.mk.inj start).2 ▸ small) (UInt16.lt_irrefl 65535)
    have real := UInt16.lt_of_le_of_lt reach small
    have kept : gone ∈ front ++ gone :: back := by simp
    rcases searched.found gone kept with rfl | ⟨member,used,same_version,_⟩
    · exact absurd real (UInt16.lt_irrefl 65535)
    · refine ⟨gone.1,member,used,same_version ▸ reach,?_⟩
      intro entry among equal
      rcases search_mem next distinct rest (split ▸ nodup) (split ▸ range) among with stayed | came
      · change entry ∈ (if table.used slot = true then _ else _) at stayed
        rw [if_pos taken,same] at stayed
        have placed_in : entry ∈ table.search [slot] (front ++ gone :: back) := by
          change entry ∈ (if table.used slot = true then _ else _)
          rw [if_pos taken,same]
          exact stayed
        rcases next.found entry placed_in with start | ⟨_,_,at_version,_⟩
        · exact start
        · rw [equal,← same_version] at at_version
          have whole_entry : entry = gone := Prod.ext equal at_version
          subst whole_entry
          simp only [List.mem_append,List.mem_cons] at stayed
          rcases stayed with first | rfl | last
          · exact absurd (UInt16.lt_of_lt_of_le later (older _ first)) (UInt16.lt_irrefl _)
          · exact absurd member fresh
          · rcases ahead _ last with above | ⟨start,_⟩
            · exact absurd above (UInt16.lt_irrefl _)
            · exact start
      · rw [equal] at came
        exact absurd rfl (apart gone.1 member gone.1 (List.mem_cons_of_mem _ came))

end Displacing

-- Without ties and with slot zero out of the way there is no other case in which
-- the oldest are chosen.
theorem chosen_in_order (table : MemoryTable) (need : Nat) (distinct : table.Distinct)
    (spared : table.ZeroSpared need) (chosen : table.OldestChosen need) : table.AscendingUpTo need := by
  have length : (table.oldestSlots need).length = need := by
    rw [oldestSlots_eq,List.length_map,search_length,List.length_replicate]
  have zero : 0 ∉ table.oldestSlots need := by
    intro victim
    have enough := spared (chosen.used 0 victim).2
    have older : ∀ slot ∈ (List.range table.tdef.max_records).filter fun slot =>
        table.used slot && decide ((table.status slot).version < (table.status 0).version),
        slot ∈ table.oldestSlots need ∧ slot ≠ 0 := by
      intro slot among
      simp only [List.mem_filter,List.mem_range,Bool.and_eq_true,decide_eq_true_eq] at among
      obtain ⟨inside,used,below⟩ := among
      constructor
      · by_contra left
        exact UInt16.lt_irrefl _ (UInt16.lt_of_lt_of_le below (chosen.oldest 0 victim slot inside used left))
      · intro same
        rw [same] at below
        exact UInt16.lt_irrefl _ below
    have bigger := (List.subperm_of_subset (List.nodup_cons.mpr
      ⟨fun among => (older 0 among).2 rfl,List.nodup_range.filter _⟩)
      (List.cons_subset.mpr ⟨victim,fun slot among => (older slot among).1⟩)).length_le
    rw [List.length_cons,length] at bigger
    omega
  have searched := searched_run distinct need (List.range table.tdef.max_records) List.nodup_range
    fun each member => List.mem_range.mp member
  have entry_of : ∀ slot ∈ table.oldestSlots need, (table.status slot).version < 65535 ∧
      (slot,(table.status slot).version) ∈
        table.search (List.range table.tdef.max_records) (List.replicate need (0,65535)) := by
    intro slot victim
    rw [oldestSlots_eq] at victim
    obtain ⟨entry,among,rfl⟩ := List.mem_map.mp victim
    rcases searched.found entry among with rfl | ⟨_,_,version,small⟩
    · exact absurd victim zero
    · rw [← version]
      exact ⟨small,among⟩
  by_cases none_needed : need = 0
  · subst none_needed
    refine ⟨0,by decide,Nat.zero_le _,?_⟩
    refine (List.pairwise_iff_forall_sublist).mpr fun {left right} pair => ?_
    have low := ((mem_upTo 0 _).mp (pair.subset List.mem_cons_self)).2.2
    exact UInt16.le_trans low (UInt16.zero_le)
  · obtain ⟨top,member,most⟩ := Finset.exists_max_image (table.oldestSlots need).toFinset
      (fun slot => (table.status slot).version.toNat) (by
        rw [List.toFinset_nonempty_iff]
        intro empty
        rw [empty] at length
        exact none_needed length.symm)
    rw [List.mem_toFinset] at member
    have greatest : ∀ slot ∈ table.oldestSlots need, (table.status slot).version ≤ (table.status top).version :=
      fun slot victim => UInt16.le_iff_toNat_le.mpr (most slot (List.mem_toFinset.mpr victim))
    have victim_of : ∀ slot, slot < table.tdef.max_records → table.used slot = true →
        (table.status slot).version ≤ (table.status top).version → slot ∈ table.oldestSlots need := by
      intro slot inside used low
      by_contra left
      have equal := UInt16.le_antisymm low (chosen.oldest top member slot inside used left)
      obtain ⟨topInside,topUsed⟩ := chosen.used top member
      rw [distinct slot top inside topInside used topUsed equal] at left
      exact left member
    refine ⟨(table.status top).version,(entry_of top member).1,?_,?_⟩
    · have subset : table.oldestSlots need ⊆ table.upTo (table.status top).version
          (List.range table.tdef.max_records) := by
        intro slot victim
        obtain ⟨inside,used⟩ := chosen.used slot victim
        exact (mem_upTo _ _).mpr ⟨List.mem_range.mpr inside,used,greatest slot victim⟩
      have fits := (List.subperm_of_subset chosen.distinct subset).length_le
      omega
    · refine (List.pairwise_filter).mpr (List.pairwise_lt_range.imp_of_mem ?_)
      intro early slot inEarly inSlot before earlyLow slotLow
      simp only [Bool.and_eq_true,decide_eq_true_eq,List.mem_range] at inEarly inSlot earlyLow slotLow
      by_contra descending
      have younger := UInt16.not_le.mp descending
      have victim := victim_of early inEarly earlyLow.1 earlyLow.2
      obtain ⟨small,among⟩ := entry_of early victim
      obtain ⟨seen,rest,whole⟩ := List.append_of_mem (List.mem_range.mpr inSlot)
      have sorted := List.pairwise_lt_range (n := table.tdef.max_records)
      have nodup := List.nodup_range (n := table.tdef.max_records)
      rw [whole] at sorted nodup
      obtain ⟨_,tail,_⟩ := List.pairwise_append.mp sorted
      have later : early ∉ slot :: rest := by
        intro behind
        rcases List.mem_cons.mp behind with rfl | after
        · exact Nat.lt_irrefl _ before
        · have above := (List.pairwise_cons.mp tail).1 early after
          omega
      have range : ∀ each ∈ seen ++ slot :: rest, each < table.tdef.max_records := by
        intro each inside
        rw [← whole] at inside
        exact List.mem_range.mp inside
      have searchedSeen := searched_run distinct need seen (List.nodup_append.mp nodup).1
        fun each inside => range each (List.mem_append_left _ inside)
      have whole_search : table.search (List.range table.tdef.max_records) (List.replicate need (0,65535)) =
          table.search (slot :: rest) (table.search seen (List.replicate need (0,65535))) := by
        rw [whole,search,List.foldl_append]
        rfl
      have held : (early,(table.status early).version) ∈ table.search seen (List.replicate need (0,65535)) := by
        rw [whole_search] at among
        exact (search_mem searchedSeen distinct _ nodup range among).resolve_right later
      obtain ⟨lost,lostSeen,lostUsed,lostLow,gone⟩ :=
        older_displaces distinct seen rest whole slotLow.1 held younger small
      have lostVictim := victim_of lost (range lost (List.mem_append_left _ lostSeen)) lostUsed
        (UInt16.le_trans lostLow earlyLow.2)
      have start := gone _ (entry_of lost lostVictim).2 rfl
      exact zero ((Prod.mk.inj start).1 ▸ lostVictim)

-- The oldest records are chosen when they stand in order of their versions; where
-- no two versions are equal and slot zero is younger, in no other case.
theorem oldest_records_chosen (table : MemoryTable) (need : Nat) :
    (table.AscendingUpTo need → table.OldestChosen need) ∧
      (table.Distinct → table.ZeroSpared need → table.OldestChosen need → table.AscendingUpTo need) :=
  ⟨in_order_chosen table need,chosen_in_order table need⟩

def threeDef : TableDef := ⟨1,"three",[],[],1,3⟩

def descending : MemoryTable :=
  ⟨threeDef,fun _ => [0],fun slot => ⟨.used,if slot = 0 then 9 else if slot = 1 then 5 else 3,0,0,0⟩,3,[],
    true,none,0⟩

-- A batch of two overwrites the youngest and the oldest.
theorem youngest_overwritten : ¬ ∀ (table : MemoryTable) (need : Nat), table.low_power_mode = true →
    table.free_slots = [] → need ≤ usedCount table.tdef.max_records table.used → table.OldestChosen need := by
  intro always
  have chosen := always descending 2 rfl rfl (by decide)
  have victims : descending.oldestSlots 2 = [2,0] := by decide
  have older := chosen.oldest 0 (by rw [victims]; decide) 1 (by decide) (by decide) (by rw [victims]; decide)
  revert older
  decide

end MemoryTable
end RemDb
