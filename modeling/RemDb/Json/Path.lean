import RemDb.Json.MergePatch
import RemDb.Json.RoundTrip
import RemDb.Json.Storage
import RemDb.Sql.Literals

namespace RemDb
open Lib

inductive PathNode where
  | root
  | key (name : String)
  | index (place : Nat)
  | wildcard
  | slice (start stop : Option Nat)
  | filter (text : String)

structure CompiledPath where
  nodes : List PathNode

inductive JsonQueryResult where
  | none
  | scalar (text : String)
  | object (doc : JsonDocument)
  | array (results : List JsonQueryResult)

namespace CompiledPath

def endsKey (letter : Char) : Bool := decide (letter = '.' ∨ letter = '[' ∨ letter = ']')

def parseKey (path : List Char) : Except String (String × List Char) :=
  let key := path.takeWhile fun letter => !endsKey letter
  if key = [] then .error "Empty key" else .ok (String.ofList key,path.dropWhile fun letter => !endsKey letter)

def sliceBound (part : List Char) : Option Nat := if part = [] then none else parseUsize (String.ofList part)

def parseArrayAccess : List Char → Except String (PathNode × List Char)
  | '[' :: path =>
    let index_str := path.takeWhile fun letter => decide (letter ≠ ']')
    match path.dropWhile fun letter => decide (letter ≠ ']') with
    | [] => .error "Array access must end with ]"
    | _ :: rest =>
      if index_str = ['*'] then .ok (.wildcard,rest)
      else if index_str.contains ':' then
        let parts := index_str.splitOn ':'
        .ok (.slice (sliceBound (parts.getD 0 [])) (sliceBound (parts.getD 1 [])),rest)
      else if index_str.head? = some '?' then .ok (.filter (String.ofList index_str.tail),rest)
      else
        match parseUsize (String.ofList index_str) with
        | some index => .ok (.index index,rest)
        | none => .error "Invalid array index"
  | _ => .error "Array access must start with ["

-- Every component takes a letter at least.
def components : Nat → List Char → Except String (List PathNode)
  | _, [] => .ok []
  | 0, _ => .error "Invalid path syntax"
  | fuel+1, letter :: rest =>
    if letter = '.' then
      if rest.head? = some '[' then do
        let access ← parseArrayAccess rest
        let nodes ← components fuel access.2
        pure (access.1 :: nodes)
      else do
        let key ← parseKey rest
        let nodes ← components fuel key.2
        pure (.key key.1 :: nodes)
    else if letter = '[' then do
      let access ← parseArrayAccess (letter :: rest)
      let nodes ← components fuel access.2
      pure (access.1 :: nodes)
    else .error "Invalid path syntax"

def parse (path : String) : Except String CompiledPath :=
  match path.toList with
  | [] => .error "Empty path"
  | letter :: remaining =>
    if letter = '$' then (components remaining.length remaining).map fun nodes => ⟨.root :: nodes⟩
    else .error "Path must start with $"

-- Filters find nothing.
def step : PathNode → JsonValue → List JsonValue
  | .key key, .object obj => (OrderedEntries.get key obj).toList
  | .index index, .array arr => (arr[index]?).toList
  | .wildcard, .object obj => obj.map (·.2)
  | .wildcard, .array arr => arr
  | .slice start stop, .array arr => (arr.take (stop.getD arr.length)).drop (start.getD 0)
  | _, _ => []

def follow : List PathNode → List JsonValue → Option (List JsonValue)
  | [], current => some current
  | node :: nodes, current =>
    match current.flatMap (step node) with
    | [] => none
    | next => follow nodes next

def scalarText : JsonValue → Option String
  | .string text => some text
  | .number text => some text
  | .boolean value => some (if value then "true" else "false")
  | .null => some "null"
  | _ => none

def itemResult (value : JsonValue) : JsonQueryResult :=
  match scalarText value with
  | some text => .scalar text
  | none => .none

-- An object is answered with the whole document.
def nodeResult (doc : JsonDocument) : JsonValue → JsonQueryResult
  | .object _ => .object doc
  | .array arr => .array (arr.map itemResult)
  | value => itemResult value

def queryResult (doc : JsonDocument) : List JsonValue → JsonQueryResult
  | [value] => nodeResult doc value
  | current => .array (current.map itemResult)

def execute (heap : JsonHeap) (path : CompiledPath) (doc : JsonDocument) : JsonQueryResult :=
  match doc.parseJson heap with
  | .ok root_value =>
    match follow (path.nodes.drop 1) [root_value] with
    | some current => queryResult doc current
    | none => .none
  | .error _ => .none

end CompiledPath

def jsonExtract (heap : JsonHeap) (doc : JsonDocument) (path : String) : JsonQueryResult :=
  match CompiledPath.parse path with
  | .ok json_path => json_path.execute heap doc
  | .error _ => .none

def keyResults : Except String JsonValue → JsonQueryResult
  | .ok (.object map) => .array (map.map fun entry => .scalar entry.1)
  | _ => .none

def jsonKeys (heap : JsonHeap) (doc : JsonDocument) (path : String) : JsonQueryResult :=
  match jsonExtract heap doc path with
  | .object obj_doc => keyResults (obj_doc.parseJson heap)
  | .scalar s => if s.toList.head? = some (Char.ofNat 123) then keyResults (Json.parseJsonStr s) else .none
  | _ => .none

namespace CompiledPath
variable {heap : JsonHeap} {doc : JsonDocument} {path : String} {nodes : List PathNode} {root : JsonValue}

-- The node that a path of keys and indices addresses.
def nodeAt : List PathNode → JsonValue → Option JsonValue
  | [], value => some value
  | .key key :: nodes, .object entries => (OrderedEntries.get key entries).bind (nodeAt nodes)
  | .index index :: nodes, .array items => (items[index]?).bind (nodeAt nodes)
  | _, _ => none

def Singular (nodes : List PathNode) : Prop := ∀ node ∈ nodes, (∃ name, node = .key name) ∨ ∃ place, node = .index place

theorem step_singular {node : PathNode} (singular : Singular (node :: nodes)) (value : JsonValue) :
    step node value = (nodeAt [node] value).toList := by
  rcases singular node (.head _) with ⟨name,rfl⟩ | ⟨place,rfl⟩
  · cases value with
    | object entries =>
      rw [step,nodeAt]
      cases OrderedEntries.get name entries <;> rfl
    | _ => rfl
  · cases value with
    | array items =>
      rw [step,nodeAt]
      cases items[place]? <;> rfl
    | _ => rfl

theorem nodeAt_append (front back : List PathNode) (value : JsonValue) :
    nodeAt (front ++ back) value = (nodeAt front value).bind (nodeAt back) := by
  induction front generalizing value with
  | nil => rfl
  | cons node front ih =>
    cases node with
    | key name =>
      cases value with
      | object entries =>
        rw [List.cons_append,nodeAt,nodeAt,Option.bind_assoc]
        exact congrArg _ (funext ih)
      | _ => rfl
    | index place =>
      cases value with
      | array items =>
        rw [List.cons_append,nodeAt,nodeAt,Option.bind_assoc]
        exact congrArg _ (funext ih)
      | _ => rfl
    | _ => rfl

theorem follow_singular (singular : Singular nodes) (value : JsonValue) :
    follow nodes [value] = (nodeAt nodes value).map fun node => [node] := by
  induction nodes generalizing value with
  | nil => rfl
  | cons node nodes ih =>
    have split : nodeAt (node :: nodes) value = (nodeAt [node] value).bind (nodeAt nodes) := nodeAt_append [node] nodes value
    rw [follow,List.flatMap_singleton,step_singular singular,split]
    cases nodeAt [node] value with
    | none => rfl
    | some found => exact ih (fun other among => singular other (.tail _ among)) found

theorem nodeAt_smaller {node : JsonValue} (longer : nodes ≠ []) (found : nodeAt nodes root = some node) : sizeOf node < sizeOf root := by
  induction nodes generalizing root with
  | nil => exact absurd rfl longer
  | cons first nodes ih =>
    -- The last step goes down, and so does every other one.
    have deeper : ∀ inner, sizeOf inner < sizeOf root → nodeAt nodes inner = some node → sizeOf node < sizeOf root := by
      intro inner below there
      by_cases last : nodes = []
      · subst last
        cases there
        exact below
      · exact Nat.lt_trans (ih last there) below
    cases first with
    | key name =>
      cases root with
      | object entries =>
        rw [nodeAt,Option.bind_eq_some_iff] at found
        obtain ⟨inner,member,there⟩ := found
        exact deeper inner (Json.sizeOf_member member) there
      | _ => cases found
    | index place =>
      cases root with
      | array items =>
        rw [nodeAt,Option.bind_eq_some_iff] at found
        obtain ⟨inner,member,there⟩ := found
        have below := List.sizeOf_lt_of_mem (List.mem_of_getElem? member)
        exact deeper inner (by simp only [JsonValue.array.sizeOf_spec]; omega) there
      | _ => cases found
    | _ => cases found

theorem execute_singular (heap : JsonHeap) (doc : JsonDocument) (parsed : parse path = .ok ⟨.root :: nodes⟩) (singular : Singular nodes) :
    jsonExtract heap doc path =
      match doc.parseJson heap with
      | .ok root =>
        match nodeAt nodes root with
        | some node => nodeResult doc node
        | none => .none
      | .error _ => .none := by
  rw [jsonExtract,parsed]
  dsimp only [execute,List.drop_succ_cons,List.drop_zero]
  cases doc.parseJson heap with
  | error failure => rfl
  | ok root =>
    have behind : (PathNode.root :: nodes).drop 1 = nodes := rfl
    dsimp only
    rw [behind,follow_singular singular]
    cases nodeAt nodes root <;> rfl

structure Answers (heap : JsonHeap) (doc : JsonDocument) (path : String) (node : JsonValue) : Prop where
  present : jsonExtract heap doc path ≠ .none
  scalar : ∀ text, scalarText node = some text → jsonExtract heap doc path = .scalar text
  object : ∀ entries, node = .object entries →
    ∃ found, jsonExtract heap doc path = .object found ∧ found.parseJson heap = .ok (.object entries)
  keys : ∀ entries, node = .object entries → jsonKeys heap doc path = .array (entries.map fun entry => .scalar entry.1)

theorem answers_of_result {node : JsonValue} (extracted : jsonExtract heap doc path = nodeResult doc node)
    (whole : ∀ entries, node = .object entries → doc.parseJson heap = .ok (.object entries)) : Answers heap doc path node := by
  refine ⟨?_,?_,?_,?_⟩
  · rw [extracted]
    cases node <;> exact JsonQueryResult.noConfusion
  · intro text is
    rw [extracted]
    cases node with
    | object entries => cases is
    | array items => cases is
    | _ =>
      cases is
      rfl
  · rintro entries rfl
    exact ⟨doc,extracted,whole entries rfl⟩
  · rintro entries rfl
    rw [jsonKeys,extracted]
    dsimp only [nodeResult]
    rw [whole entries rfl]
    rfl

def addressed (heap : JsonHeap) (doc : JsonDocument) (nodes : List PathNode) : Option JsonValue :=
  (doc.parseJson heap).toOption.bind (nodeAt nodes)

structure ReturnsNode (heap : JsonHeap) (doc : JsonDocument) (path : String) (nodes : List PathNode) : Prop where
  nothing : addressed heap doc nodes = none → jsonExtract heap doc path = .none
  node : ∀ node, addressed heap doc nodes = some node → Answers heap doc path node

-- Only the whole document is an object that is returned as it is.
theorem json_extract_node_iff (parsed : parse path = .ok ⟨.root :: nodes⟩) (singular : Singular nodes) :
    ReturnsNode heap doc path nodes ↔ ∀ entries, addressed heap doc nodes = some (.object entries) → nodes = [] := by
  have extracted := execute_singular heap doc parsed singular
  constructor
  · intro returns entries there
    obtain ⟨found,is,inside⟩ := (returns.node _ there).object entries rfl
    cases read : doc.parseJson heap with
    | error failure =>
      rw [addressed,read] at there
      cases there
    | ok root =>
      have there : nodeAt nodes root = some (.object entries) := by rwa [addressed,read] at there
      rw [read] at extracted
      dsimp only at extracted
      rw [there] at extracted
      cases extracted.symm.trans is
      cases read.symm.trans inside
      by_contra longer
      exact absurd (nodeAt_smaller longer there) (lt_irrefl _)
  · intro whole
    cases read : doc.parseJson heap with
    | error failure =>
      rw [read] at extracted
      refine ⟨fun _ => extracted,fun node there => ?_⟩
      rw [addressed,read] at there
      cases there
    | ok root =>
      have located : addressed heap doc nodes = nodeAt nodes root := by
        rw [addressed,read]
        rfl
      rw [read] at extracted
      dsimp only at extracted
      rw [located] at whole
      refine ⟨fun absent => ?_,fun node there => ?_⟩
      · rwa [← located,absent] at extracted
      · rw [located] at there
        rw [there] at extracted
        exact answers_of_result extracted fun entries is => by
          have all := whole entries (there.trans (congrArg some is))
          rw [all] at there
          cases there
          rw [read,is]

section Printed

def printedNode : PathNode → List Char
  | .key name => '.' :: name.toList
  | .index place => '[' :: (place.repr.toList ++ [']'])
  | _ => []

def printed (nodes : List PathNode) : List Char := nodes.flatMap printedNode

def Writable : PathNode → Prop
  | .key name => name.toList ≠ [] ∧ ∀ letter ∈ name.toList, endsKey letter = false
  | .index place => place < usizeLimit
  | _ => False

theorem printed_head (nodes : List PathNode) (writable : ∀ node ∈ nodes, Writable node) :
    ∀ letter ∈ (printed nodes).head?, endsKey letter = true := by
  cases nodes with
  | nil => exact nofun
  | cons node nodes =>
    intro letter first
    rw [printed,List.flatMap_cons] at first
    have named := writable node (.head _)
    cases node with
    | key name =>
      cases first
      decide
    | index place =>
      cases first
      decide
    | _ => exact absurd named id

theorem takeWhile_stopped (test : Char → Bool) (front back : List Char) (all : ∀ letter ∈ front, test letter = true)
    (stop : ∀ letter ∈ back.head?, test letter = false) :
    (front ++ back).takeWhile test = front ∧ (front ++ back).dropWhile test = back := by
  have stopped : back.takeWhile test = [] ∧ back.dropWhile test = back := by
    cases back with
    | nil => exact ⟨rfl,rfl⟩
    | cons letter back =>
      have dark : ¬ test letter = true := by
        rw [stop letter rfl]
        exact Bool.false_ne_true
      exact ⟨List.takeWhile_cons_of_neg dark,List.dropWhile_cons_of_neg dark⟩
  rw [List.takeWhile_append_of_pos all,List.dropWhile_append_of_pos all,stopped.1,stopped.2,List.append_nil]
  exact ⟨rfl,rfl⟩

theorem parseKey_printed {name : String} (named : Writable (.key name)) {rest : List Char}
    (stop : ∀ letter ∈ rest.head?, endsKey letter = true) : parseKey (name.toList ++ rest) = .ok (name,rest) := by
  obtain ⟨taken,dropped⟩ := takeWhile_stopped (fun letter => !endsKey letter) name.toList rest
    (fun letter among => by rw [named.2 letter among]; rfl) (fun letter first => by rw [stop letter first]; rfl)
  rw [parseKey,taken,dropped,if_neg named.1,String.ofList_toList]

theorem parseArrayAccess_printed {place : Nat} (small : place < usizeLimit) (rest : List Char) :
    parseArrayAccess (printedNode (.index place) ++ rest) = .ok (.index place,rest) := by
  have digit : ∀ letter ∈ place.repr.toList, letter.isDigit = true := fun letter among =>
    Nat.isDigit_of_mem_toDigits (by decide) (by decide) (Nat.toList_repr (n := place) ▸ among)
  have other : ∀ mark, mark.isDigit = false → mark ∉ place.repr.toList := fun mark none among =>
    Bool.false_ne_true (none.symm.trans (digit mark among))
  obtain ⟨taken,dropped⟩ := takeWhile_stopped (fun letter => decide (letter ≠ ']')) place.repr.toList (']' :: rest)
    (fun letter among => decide_eq_true fun is => other ']' (by decide) (is ▸ among))
    (fun letter first => by cases first; decide)
  have not_star : place.repr.toList ≠ ['*'] := fun is => other '*' (by decide) (is ▸ List.mem_singleton_self _)
  have not_slice : ¬ place.repr.toList.contains ':' = true := fun is => other ':' (by decide) (List.contains_iff_mem.mp is)
  have not_filter : place.repr.toList.head? ≠ some '?' := fun is => other '?' (by decide) (List.mem_of_head? is)
  rw [printedNode,List.cons_append,List.append_assoc,List.singleton_append,parseArrayAccess,taken,dropped]
  dsimp only
  rw [if_neg not_star,if_neg not_slice,if_neg not_filter,String.ofList_toList,parseUsize_repr small]

theorem components_printed (nodes : List PathNode) (writable : ∀ node ∈ nodes, Writable node) {fuel : Nat}
    (enough : (printed nodes).length ≤ fuel) : components fuel (printed nodes) = .ok nodes := by
  induction nodes generalizing fuel with
  | nil => exact components.eq_1 fuel
  | cons node nodes ih =>
    have named := writable node (.head _)
    have others : ∀ other ∈ nodes, Writable other := fun other among => writable other (.tail _ among)
    have stop := printed_head nodes others
    rw [printed,List.flatMap_cons,← printed] at enough ⊢
    rw [List.length_append] at enough
    cases node with
    | key name =>
      rw [printedNode,List.length_cons] at enough
      obtain ⟨fuel,rfl⟩ : ∃ less, fuel = less+1 := ⟨fuel-1,by omega⟩
      have no_bracket : (name.toList ++ printed nodes).head? ≠ some '[' := by
        obtain ⟨filled,plain⟩ := named
        cases letters : name.toList with
        | nil => exact absurd letters filled
        | cons first more =>
          intro is
          have bracket := plain first (letters ▸ List.mem_cons_self)
          cases is
          exact absurd bracket (by decide)
      rw [printedNode,List.cons_append,components,if_pos rfl,if_neg no_bracket,parseKey_printed named stop]
      exact congrArg (Except.bind · fun nodes => pure (PathNode.key name :: nodes)) (ih others (by omega))
    | index place =>
      have letters : printedNode (.index place) ++ printed nodes = '[' :: ((place.repr.toList ++ [']']) ++ printed nodes) := rfl
      rw [printedNode,List.length_cons] at enough
      obtain ⟨fuel,rfl⟩ : ∃ less, fuel = less+1 := ⟨fuel-1,by omega⟩
      rw [letters,components,if_neg (by decide),if_pos rfl,← letters,parseArrayAccess_printed named]
      exact congrArg (Except.bind · fun nodes => pure (PathNode.index place :: nodes)) (ih others (by omega))
    | _ => exact absurd named id

-- A path of keys and indices is read as it is written.
theorem parse_printed (nodes : List PathNode) (writable : ∀ node ∈ nodes, Writable node) :
    parse (String.ofList ('$' :: printed nodes)) = .ok ⟨.root :: nodes⟩ := by
  rw [parse,String.toList_ofList]
  dsimp only
  rw [if_pos rfl,components_printed nodes writable (Nat.le_refl _)]
  rfl

end Printed

section Nested
open JsonDocument

def noHeap : JsonHeap := ⟨fun _ => 0,none,none⟩

def innerEntries : List (String × JsonValue) := [("b",.null)]
def nested : JsonValue := .object [("a",.object innerEntries)]
def nestedDoc : JsonDocument := ofText (Json.toJsonString nested)

theorem nested_formed : Json.Formed nested :=
  ⟨List.pairwise_singleton _ _,⟨List.pairwise_singleton _ _,trivial,trivial⟩,trivial⟩

theorem nestedDoc_parsed : parseJson noHeap nestedDoc = .ok nested :=
  (parseJson_inline noHeap (by decide +kernel)).trans (Json.print_parse_roundtrip nested_formed)

theorem inner_singular : Singular [.key "a"] := fun _ among => .inl ⟨"a",List.mem_singleton.mp among⟩

theorem inner_parsed : parse "$.a" = .ok ⟨[.root,.key "a"]⟩ := rfl

theorem json_extract_node_nested : parse "$.a" = .ok ⟨.root :: [.key "a"]⟩ ∧ Singular [.key "a"] ∧
    (ReturnsNode noHeap nestedDoc "$.a" [.key "a"] ↔
      ∀ entries, addressed noHeap nestedDoc [.key "a"] = some (.object entries) → [PathNode.key "a"] = []) :=
  ⟨inner_parsed,inner_singular,json_extract_node_iff inner_parsed inner_singular⟩

-- The inner object is asked for, and the outer one is returned.
theorem inner_not_returned : ¬ ReturnsNode noHeap nestedDoc "$.a" [.key "a"] := by
  intro returns
  have there : addressed noHeap nestedDoc [.key "a"] = some (.object innerEntries) := by
    rw [addressed,nestedDoc_parsed]
    rfl
  obtain ⟨found,is,inside⟩ := (returns.node _ there).object _ rfl
  have extracted := execute_singular noHeap nestedDoc inner_parsed inner_singular
  rw [nestedDoc_parsed] at extracted
  cases extracted.symm.trans is
  have same := JsonValue.object.inj (Except.ok.inj (nestedDoc_parsed.symm.trans inside))
  have key : "a" = "b" := (Prod.mk.inj (List.cons.inj same).1).1
  exact absurd key (by decide)

end Nested

end CompiledPath
end RemDb
