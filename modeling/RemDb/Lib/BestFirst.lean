import Mathlib.Order.Defs.LinearOrder
import Mathlib.Logic.Relation
import Mathlib.Data.List.Perm.Subperm
import Mathlib.Data.List.Sort

namespace RemDb.Lib

def smallestFrom [LT D] [DecidableLT D] (best : Nat) (value : D) (index : Nat) : List D → Nat
  | [] => best
  | next :: rest =>
    if next < value then smallestFrom index next (index+1) rest else smallestFrom best value (index+1) rest

-- What `swap_remove` takes out and leaves: the last item moves to the place.
def takeAt (items : List α) (index : Nat) : Option (α × List α) :=
  match items[index]?, items.getLast? with
  | some item, some last => some (item,(items.set index last).dropLast)
  | _, _ => none

theorem takeAt_perm {items rest : List α} {index : Nat} {item : α}
    (taken : takeAt items index = some (item,rest)) : items.Perm (item :: rest) := by
  rw [takeAt] at taken
  split at taken
  · next found last first final =>
    cases taken
    obtain ⟨front,rfl⟩ : ∃ front, items = front ++ [last] := List.getLast?_eq_some_iff.mp final
    obtain ⟨inside,here⟩ := List.getElem?_eq_some_iff.mp first
    rcases Nat.lt_or_ge index front.length with early | late
    · rw [List.set_append_left _ _ early,List.dropLast_concat]
      rw [List.getElem_append_left early] at here
      rw [List.set_eq_take_append_cons_drop,if_pos early]
      have split : front = front.take index ++ item :: front.drop (index+1) := by
        rw [← here,← List.drop_eq_getElem_cons early,List.take_append_drop]
      nth_rewrite 1 [split]
      have moved : (front.take index ++ item :: front.drop (index+1) ++ [last]).Perm
          (item :: (front.take index ++ (front.drop (index+1) ++ [last]))) := by
        rw [List.append_assoc]
        exact List.perm_middle
      exact moved.trans (List.Perm.cons item (List.Perm.append_left _ (List.perm_append_singleton last _)))
    · rw [List.length_append,List.length_singleton] at inside
      obtain rfl : index = front.length := by omega
      rw [List.getElem_append_right (Nat.le_refl _)] at here
      have same : item = last := by simpa using here.symm
      rw [List.set_append_right _ _ (Nat.le_refl _),Nat.sub_self,List.set_cons_zero,List.dropLast_concat,same]
      exact List.perm_append_singleton last front
  · cases taken

theorem smallestFrom_lt [LT D] [DecidableLT D] {values : List D} {best index : Nat} {value : D}
    (before : best < index) : smallestFrom best value index values < index+values.length := by
  induction values generalizing best index value with
  | nil => exact before
  | cons next rest ih =>
    rw [smallestFrom,List.length_cons]
    split
    · have later : smallestFrom index next (index+1) rest < index+1+rest.length := ih (Nat.lt_succ_self index)
      omega
    · have later : smallestFrom best value (index+1) rest < index+1+rest.length := ih (Nat.lt_succ_of_lt before)
      omega

theorem takeAt_some {items : List α} {index : Nat} (inside : index < items.length) :
    ∃ item rest, takeAt items index = some (item,rest) := by
  have final : items.getLast? = some (items.getLast (List.ne_nil_of_length_pos (by omega))) :=
    List.getLast?_eq_some_getLast _
  rw [takeAt,List.getElem?_eq_getElem inside,final]
  exact ⟨_,_,rfl⟩

section Searching
variable {α D : Type}

structure Frontier (α D : Type) where
  candidates : List (D × α)
  results : List (D × α)
  visited : List α

def Leads (links : α → List α) : α → α → Prop := Relation.ReflTransGen fun here next => next ∈ links here

-- With room for all nodes nothing is given up: what was seen is among the
-- results, and its links are seen too or still to come.
structure Frontier.Whole (links : α → List α) (distance : α → D) (all : List α) (busy : α → Prop)
    (frontier : Frontier α D) : Prop where
  kept : ∀ node ∈ frontier.visited, (distance node,node) ∈ frontier.results
  even : frontier.results.length = frontier.visited.length
  fresh : frontier.visited.Nodup
  inside : frontier.visited ⊆ all
  pending : frontier.candidates ⊆ frontier.results
  closed : ∀ node ∈ frontier.visited,
    (distance node,node) ∈ frontier.candidates ∨ busy node ∨ links node ⊆ frontier.visited

variable {links : α → List α} {distance : α → D} {entry : α} {frontier : Frontier α D}

theorem Frontier.Whole.reaches {all : List α} (whole : frontier.Whole links distance all fun _ => False)
    (spent : frontier.candidates = []) {node : α} (start : entry ∈ frontier.visited) (path : Leads links entry node) :
    (distance node,node) ∈ frontier.results := by
  apply whole.kept
  induction path with
  | refl => exact start
  | tail _ link ih =>
    rcases whole.closed _ ih with waiting | working | done
    · rw [spent] at waiting
      cases waiting
    · exact working.elim
    · exact done link

variable [LinearOrder D]

def byDistance (rows : List (D × α)) : List (D × α) := rows.mergeSort fun left right => decide (left.1 ≤ right.1)

theorem byDistance_perm (rows : List (D × α)) : (byDistance rows).Perm rows := List.mergeSort_perm _ _

theorem byDistance_sorted (rows : List (D × α)) : (byDistance rows).Pairwise fun left right => left.1 ≤ right.1 := by
  refine (List.pairwise_mergeSort ?_ ?_ rows).imp of_decide_eq_true
  · intro one two three before after
    exact decide_eq_true (le_trans (of_decide_eq_true before) (of_decide_eq_true after))
  · intro one two
    rw [Bool.or_eq_true,decide_eq_true_iff,decide_eq_true_iff]
    exact le_total _ _

def farther (distance : D) (results : List (D × α)) : Bool :=
  match results.getLast? with
  | some last => decide (last.1 < distance)
  | none => false

def nearer (distance : D) (results : List (D × α)) : Bool :=
  match results.getLast? with
  | some last => decide (distance < last.1)
  | none => false

def takeNearest : List (D × α) → Option ((D × α) × List (D × α))
  | [] => none
  | first :: rest => takeAt (first :: rest) (smallestFrom 0 first.1 1 (rest.map Prod.fst))

theorem takeNearest_some {candidates : List (D × α)} (nonempty : candidates ≠ []) :
    ∃ current rest, takeNearest candidates = some (current,rest) ∧ candidates.Perm (current :: rest) := by
  cases candidates with
  | nil => exact absurd rfl nonempty
  | cons first rest =>
    have early : smallestFrom 0 first.1 1 (rest.map Prod.fst) < 1+(rest.map Prod.fst).length :=
      smallestFrom_lt Nat.zero_lt_one
    rw [List.length_map,Nat.add_comm] at early
    obtain ⟨current,left,taken⟩ : ∃ current left, takeAt (first :: rest) _ = some (current,left) :=
      takeAt_some early
    exact ⟨current,left,taken,takeAt_perm taken⟩

-- What is found was reached, has its own distance, and is found once; the
-- results are in order.
structure Frontier.Sound (links : α → List α) (distance : α → D) (entry : α) (frontier : Frontier α D) : Prop where
  reached : ∀ node ∈ frontier.visited, Leads links entry node
  measured : ∀ found ∈ frontier.results, found.1 = distance found.2 ∧ found.2 ∈ frontier.visited
  distinct : (frontier.results.map Prod.snd).Nodup
  pending : ∀ found ∈ frontier.candidates, found.2 ∈ frontier.visited
  ordered : frontier.results.Pairwise fun left right => left.1 ≤ right.1
  nonempty : frontier.results ≠ []

structure FoundFrom (links : α → List α) (distance : α → D) (entry : α) (results : List (D × α)) : Prop where
  reached : ∀ found ∈ results, Leads links entry found.2
  measured : ∀ found ∈ results, found.1 = distance found.2
  distinct : (results.map Prod.snd).Nodup
  ordered : results.Pairwise fun left right => left.1 ≤ right.1
  nonempty : results ≠ []

theorem Frontier.Sound.found (sound : frontier.Sound links distance entry) :
    FoundFrom links distance entry frontier.results :=
  ⟨fun found member => sound.reached _ (sound.measured found member).2,fun found member =>
    (sound.measured found member).1,sound.distinct,sound.ordered,sound.nonempty⟩

theorem start_sound (links : α → List α) (distance : α → D) (entry : α) :
    Frontier.Sound links distance entry ⟨[(distance entry,entry)],[(distance entry,entry)],[entry]⟩ := by
  refine ⟨?_,?_,List.nodup_singleton _,?_,List.pairwise_singleton _ _,List.cons_ne_nil _ _⟩
  · exact fun node member => List.mem_singleton.mp member ▸ .refl
  · intro found member
    rw [List.mem_singleton.mp member]
    exact ⟨rfl,List.mem_cons_self⟩
  · intro found member
    rw [List.mem_singleton.mp member]
    exact List.mem_cons_self

theorem not_farther {results : List (D × α)} (ordered : results.Pairwise fun left right => left.1 ≤ right.1)
    {found : D × α} (member : found ∈ results) : farther found.1 results = false := by
  rw [farther]
  split
  · next last final =>
    obtain ⟨front,rfl⟩ : ∃ front, results = front ++ [last] := List.getLast?_eq_some_iff.mp final
    apply decide_eq_false
    rw [not_lt]
    rcases List.mem_append.mp member with before | here
    · exact (List.pairwise_append.mp ordered).2.2 found before last List.mem_cons_self
    · exact le_of_eq (congrArg Prod.fst (List.mem_singleton.mp here))
  · rfl

variable [DecidableEq α] (links distance) (ef : Nat)

def meet (frontier : Frontier α D) (neighbor : α) : Frontier α D :=
  if neighbor ∈ frontier.visited then frontier
  else
    let visited := frontier.visited ++ [neighbor]
    let found := (distance neighbor,neighbor)
    if frontier.results.length < ef ∨ nearer (distance neighbor) frontier.results = true then
      let results := byDistance (frontier.results ++ [found])
      ⟨frontier.candidates ++ [found],if results.length > ef then results.dropLast else results,visited⟩
    else {frontier with visited:=visited}

def explore : Nat → Frontier α D → List (D × α)
  | 0, frontier => frontier.results
  | fuel+1, frontier =>
    match takeNearest frontier.candidates with
    | none => frontier.results
    | some (current,rest) =>
      if farther current.1 frontier.results then frontier.results
      else explore fuel ((links current.2).foldl (meet distance ef) {frontier with candidates:=rest})

def searchFrom (fuel : Nat) (entry : α) : List (D × α) :=
  explore links distance ef fuel ⟨[(distance entry,entry)],[(distance entry,entry)],[entry]⟩

variable {links distance ef} {neighbor : α}

theorem dropLast_ne_nil {rows : List β} (long : 1 < rows.length) : rows.dropLast ≠ [] := by
  apply List.ne_nil_of_length_pos
  rw [List.length_dropLast]
  omega

theorem Frontier.Sound.meet (sound : frontier.Sound links distance entry)
    (step : Leads links entry neighbor) :
    (meet distance ef frontier neighbor).Sound links distance entry := by
  rw [Lib.meet]
  split
  · exact sound
  next fresh =>
  have reached : ∀ node ∈ frontier.visited ++ [neighbor],
      Leads links entry node := by
    intro node member
    rcases List.mem_append.mp member with old | new
    · exact sound.reached node old
    · exact List.mem_singleton.mp new ▸ step
  have seen : ∀ node ∈ frontier.visited, node ∈ frontier.visited ++ [neighbor] := fun node =>
    List.mem_append_left [neighbor]
  dsimp only
  split
  · have perm := byDistance_perm (frontier.results ++ [(distance neighbor,neighbor)])
    have sorted := byDistance_sorted (frontier.results ++ [(distance neighbor,neighbor)])
    have measured : ∀ found ∈ byDistance (frontier.results ++ [(distance neighbor,neighbor)]),
        found.1 = distance found.2 ∧ found.2 ∈ frontier.visited ++ [neighbor] := by
      intro found member
      rcases List.mem_append.mp (perm.mem_iff.mp member) with old | new
      · exact ⟨(sound.measured found old).1,seen _ (sound.measured found old).2⟩
      · rw [List.mem_singleton.mp new]
        exact ⟨rfl,List.mem_append_right _ List.mem_cons_self⟩
    have distinct : ((byDistance (frontier.results ++ [(distance neighbor,neighbor)])).map Prod.snd).Nodup := by
      rw [(perm.map Prod.snd).nodup_iff,List.map_append,List.nodup_append]
      refine ⟨sound.distinct,List.nodup_singleton _,?_⟩
      rintro node member _ new rfl
      obtain ⟨found,old,rfl⟩ := List.mem_map.mp member
      have same : found.2 = neighbor := List.mem_singleton.mp new
      exact fresh (same ▸ (sound.measured found old).2)
    have long := perm.length_eq
    rw [List.length_append,List.length_singleton] at long
    have some_before : 0 < frontier.results.length := List.length_pos_iff.mpr sound.nonempty
    refine ⟨reached,?_,?_,?_,?_,?_⟩
    · split
      · exact fun found member => measured found (List.dropLast_subset _ member)
      · exact measured
    · split
      · exact distinct.sublist ((List.dropLast_sublist _).map Prod.snd)
      · exact distinct
    · intro found member
      rcases List.mem_append.mp member with old | new
      · exact seen _ (sound.pending found old)
      · rw [List.mem_singleton.mp new]
        exact List.mem_append_right _ List.mem_cons_self
    · split
      · exact sorted.sublist (List.dropLast_sublist _)
      · exact sorted
    · have full : 0 < (byDistance (frontier.results ++ [(distance neighbor,neighbor)])).length := by omega
      split
      · exact dropLast_ne_nil (by omega)
      · exact List.ne_nil_of_length_pos full
  · refine ⟨reached,?_,sound.distinct,fun found member => seen _ (sound.pending found member),sound.ordered,
      sound.nonempty⟩
    exact fun found member => ⟨(sound.measured found member).1,seen _ (sound.measured found member).2⟩

theorem Frontier.Sound.meets (sound : frontier.Sound links distance entry) {neighbors : List α}
    (steps : ∀ node ∈ neighbors, Leads links entry node) :
    (neighbors.foldl (Lib.meet distance ef) frontier).Sound links distance entry := by
  induction neighbors generalizing frontier with
  | nil => exact sound
  | cons neighbor rest ih =>
    obtain ⟨first,others⟩ := List.forall_mem_cons.mp steps
    exact ih (sound.meet first) others

theorem explore_sound (sound : frontier.Sound links distance entry) (fuel : Nat) :
    FoundFrom links distance entry (explore links distance ef fuel frontier) := by
  induction fuel generalizing frontier with
  | zero => exact sound.found
  | succ fuel ih =>
    rw [explore]
    split
    · exact sound.found
    · next current rest taken =>
      split
      · exact sound.found
      · have perm : frontier.candidates.Perm (current :: rest) := by
          have nonempty : frontier.candidates ≠ [] := by
            intro none
            rw [none] at taken
            cases taken
          obtain ⟨_,_,same,perm⟩ := takeNearest_some nonempty
          rw [taken] at same
          cases same
          exact perm
        have here := sound.reached _ (sound.pending current (perm.mem_iff.mpr List.mem_cons_self))
        have left : Frontier.Sound links distance entry {frontier with candidates:=rest} :=
          ⟨sound.reached,sound.measured,sound.distinct,fun found member =>
            sound.pending found (perm.mem_iff.mpr (List.mem_cons_of_mem _ member)),sound.ordered,sound.nonempty⟩
        exact ih (left.meets fun node member => here.tail member)

theorem searchFrom_sound (links : α → List α) (distance : α → D) (ef fuel : Nat) (entry : α) :
    FoundFrom links distance entry (searchFrom links distance ef fuel entry) :=
  explore_sound (start_sound links distance entry) fuel

structure Frontier.Grown (before after : Frontier α D) : Prop where
  seen : before.visited ⊆ after.visited
  level : after.candidates.length+before.visited.length = before.candidates.length+after.visited.length

section Wholeness
variable {all : List α} {busy : α → Prop}

theorem Frontier.Whole.meet (whole : frontier.Whole links distance all busy) (known : neighbor ∈ all)
    (roomy : all.length ≤ ef) :
    (Lib.meet distance ef frontier neighbor).Whole links distance all busy ∧
      neighbor ∈ (Lib.meet distance ef frontier neighbor).visited ∧
      Frontier.Grown frontier (Lib.meet distance ef frontier neighbor) := by
  by_cases old : neighbor ∈ frontier.visited
  · have same : Lib.meet distance ef frontier neighbor = frontier := if_pos old
    rw [same]
    exact ⟨whole,old,fun _ => id,rfl⟩
  · have fresh : (frontier.visited ++ [neighbor]).Nodup := by
      refine List.nodup_append.mpr ⟨whole.fresh,List.nodup_singleton _,?_⟩
      rintro node member _ new rfl
      exact old (List.mem_singleton.mp new ▸ member)
    have inside : frontier.visited ++ [neighbor] ⊆ all := by
      intro node member
      rcases List.mem_append.mp member with before | new
      · exact whole.inside before
      · exact List.mem_singleton.mp new ▸ known
    have few := (fresh.subperm inside).length_le
    rw [List.length_append,List.length_singleton] at few
    have even := whole.even
    have perm := byDistance_perm (frontier.results ++ [(distance neighbor,neighbor)])
    have long := perm.length_eq
    rw [List.length_append,List.length_singleton] at long
    have met : Lib.meet distance ef frontier neighbor =
        ⟨frontier.candidates ++ [(distance neighbor,neighbor)],
          byDistance (frontier.results ++ [(distance neighbor,neighbor)]),frontier.visited ++ [neighbor]⟩ := by
      rw [Lib.meet,if_neg old]
      dsimp only
      rw [if_pos (.inl (by omega)),if_neg (by omega)]
    rw [met]
    refine ⟨⟨?_,?_,fresh,inside,?_,?_⟩,List.mem_append_right _ List.mem_cons_self,
      fun _ => List.mem_append_left _,?_⟩
    · intro node member
      apply perm.mem_iff.mpr
      rcases List.mem_append.mp member with before | new
      · exact List.mem_append_left _ (whole.kept node before)
      · rw [List.mem_singleton.mp new]
        exact List.mem_append_right _ List.mem_cons_self
    · rw [long,List.length_append,List.length_singleton,even]
    · intro found member
      apply perm.mem_iff.mpr
      rcases List.mem_append.mp member with before | new
      · exact List.mem_append_left _ (whole.pending before)
      · exact List.mem_append_right _ new
    · intro node member
      rcases List.mem_append.mp member with before | new
      · rcases whole.closed node before with waiting | working | done
        · exact .inl (List.mem_append_left _ waiting)
        · exact .inr (.inl working)
        · exact .inr (.inr fun next link => List.mem_append_left _ (done link))
      · rw [List.mem_singleton.mp new]
        exact .inl (List.mem_append_right _ List.mem_cons_self)
    · change (frontier.candidates ++ [_]).length+_ = _+(frontier.visited ++ [_]).length
      rw [List.length_append,List.length_append,List.length_singleton,List.length_singleton]
      omega

theorem Frontier.Whole.meets (whole : frontier.Whole links distance all busy) (roomy : all.length ≤ ef)
    {neighbors : List α} (known : neighbors ⊆ all) :
    (neighbors.foldl (Lib.meet distance ef) frontier).Whole links distance all busy ∧
      neighbors ⊆ (neighbors.foldl (Lib.meet distance ef) frontier).visited ∧
      Frontier.Grown frontier (neighbors.foldl (Lib.meet distance ef) frontier) := by
  induction neighbors generalizing frontier with
  | nil => exact ⟨whole,nofun,fun _ => id,rfl⟩
  | cons neighbor rest ih =>
    obtain ⟨first,others⟩ := List.cons_subset.mp known
    obtain ⟨next,met,grown⟩ := whole.meet first roomy
    obtain ⟨last,seen,more⟩ := ih next others
    refine ⟨last,List.cons_subset.mpr ⟨more.seen met,seen⟩,fun node member => more.seen (grown.seen member),?_⟩
    have level := grown.level
    have later := more.level
    rw [List.foldl_cons]
    omega

theorem explore_whole (sound : frontier.Sound links distance entry)
    (whole : frontier.Whole links distance all fun _ => False) (roomy : all.length ≤ ef)
    (linked : ∀ node ∈ all, links node ⊆ all) (start : entry ∈ frontier.visited) {fuel : Nat}
    (long : frontier.candidates.length+all.length ≤ fuel+frontier.visited.length) {node : α}
    (path : Leads links entry node) : (distance node,node) ∈ explore links distance ef fuel frontier := by
  induction fuel generalizing frontier with
  | zero =>
    have few := (whole.fresh.subperm whole.inside).length_le
    exact whole.reaches (List.length_eq_zero_iff.mp (by omega)) start path
  | succ fuel ih =>
    by_cases spent : frontier.candidates = []
    · have none : explore links distance ef (fuel+1) frontier = frontier.results := by
        rw [explore,spent]
        rfl
      rw [none]
      exact whole.reaches spent start path
    · obtain ⟨current,rest,taken,perm⟩ := takeNearest_some spent
      have waiting : current ∈ frontier.candidates := perm.mem_iff.mpr List.mem_cons_self
      have goes : explore links distance ef (fuel+1) frontier = explore links distance ef fuel
          ((links current.2).foldl (Lib.meet distance ef) {frontier with candidates:=rest}) := by
        rw [explore,taken]
        dsimp only
        rw [not_farther sound.ordered (whole.pending waiting),if_neg Bool.false_ne_true]
      have here := sound.pending current waiting
      have left : Frontier.Sound links distance entry {frontier with candidates:=rest} :=
        ⟨sound.reached,sound.measured,sound.distinct,fun found member =>
          sound.pending found (perm.mem_iff.mpr (List.mem_cons_of_mem _ member)),sound.ordered,sound.nonempty⟩
      have part : Frontier.Whole links distance all (· = current.2) {frontier with candidates:=rest} := by
        refine ⟨whole.kept,whole.even,whole.fresh,whole.inside,fun found member =>
          whole.pending (perm.mem_iff.mpr (List.mem_cons_of_mem _ member)),?_⟩
        intro node member
        rcases whole.closed node member with still | working | done
        · rcases List.mem_cons.mp (perm.mem_iff.mp still) with first | behind
          · exact .inr (.inl (congrArg Prod.snd first))
          · exact .inl behind
        · exact working.elim
        · exact .inr (.inr done)
      obtain ⟨next,seen,grown⟩ := part.meets roomy (linked current.2 (whole.inside here))
      have shorter := perm.length_eq
      rw [List.length_cons] at shorter
      have level := grown.level
      rw [goes]
      apply ih (left.meets fun node member => (sound.reached _ here).tail member) ?_ (grown.seen start)
      · dsimp only at level
        omega
      · refine ⟨next.kept,next.even,next.fresh,next.inside,next.pending,fun node member => ?_⟩
        rcases next.closed node member with still | rfl | done
        · exact .inl still
        · exact .inr (.inr seen)
        · exact .inr (.inr done)

theorem searchFrom_whole (distance : α → D) (known : entry ∈ all) (linked : ∀ node ∈ all, links node ⊆ all) (roomy : all.length ≤ ef)
    {fuel : Nat} (long : all.length ≤ fuel) (node : α) :
    node ∈ (searchFrom links distance ef fuel entry).map Prod.snd ↔ Leads links entry node := by
  constructor
  · intro member
    obtain ⟨found,among,rfl⟩ := List.mem_map.mp member
    exact (searchFrom_sound links distance ef fuel entry).reached found among
  · intro path
    have whole : Frontier.Whole links distance all (fun _ => False)
        ⟨[(distance entry,entry)],[(distance entry,entry)],[entry]⟩ := by
      refine ⟨?_,rfl,List.nodup_singleton _,?_,fun _ => id,?_⟩
      · exact fun other here => List.mem_singleton.mp here ▸ List.mem_cons_self
      · exact fun other here => List.mem_singleton.mp here ▸ known
      · exact fun other here => .inl (List.mem_singleton.mp here ▸ List.mem_cons_self)
    have short : [(distance entry,entry)].length+all.length ≤ fuel+[entry].length := by
      rw [List.length_singleton,List.length_singleton]
      omega
    have reached := explore_whole (start_sound links distance entry) whole roomy linked List.mem_cons_self short path
    exact List.mem_map_of_mem reached

theorem searchFrom_all (distance : α → D) (known : entry ∈ all) (linked : ∀ node ∈ all, links node ⊆ all)
    (roomy : all.length ≤ ef) {fuel : Nat} (long : all.length ≤ fuel) (distinct : all.Nodup)
    (reach : ∀ node ∈ all, Leads links entry node) :
    ((searchFrom links distance ef fuel entry).map Prod.snd).Perm all := by
  have once := (searchFrom_sound links distance ef fuel entry).distinct
  have found := fun node => searchFrom_whole distance known linked roomy long node
  refine (List.perm_ext_iff_of_nodup once distinct).mpr fun node => ?_
  rw [found]
  refine ⟨fun path => ?_,reach node⟩
  induction path with
  | refl => exact known
  | tail _ link ih => exact linked _ ih link

theorem searchFrom_alone (none : links entry = []) (fuel : Nat) :
    searchFrom links distance ef fuel entry = [(distance entry,entry)] := by
  cases fuel with
  | zero => rfl
  | succ fuel =>
    have first : takeNearest [(distance entry,entry)] = some ((distance entry,entry),[]) := rfl
    have stays : farther (distance entry) [(distance entry,entry)] = false := decide_eq_false (lt_irrefl _)
    rw [searchFrom,explore,first]
    dsimp only
    rw [stays,none]
    cases fuel <;> rfl

end Wholeness

end Searching

end RemDb.Lib
