-- SUMMARY: The tree of a YAML document: scalars, sequences and mappings, from tokens.
import Stepwise.Yaml.Token

/-!
# YAML trees

A document is a scalar, a sequence of nodes or a mapping between nodes. Where a node is
left out an empty plain scalar stands for it. Reading fails with the tokens from the first
one on that does not fit; there are none if the tokens have ended too early.
-/

namespace Stepwise.Yaml

/-- A node of a document. -/
inductive Node where
  | scalar (text : String) (plain : Bool)
  | sequence (items : List Node)
  | mapping (entries : List (Node × Node))
deriving Repr, Inhabited

namespace Node

def empty : Node := .scalar "" true

/-- What is read from some tokens, or the tokens that do not fit. -/
abbrev Reading (α : Type) := Except (List Token) α

def endsAt (stops : List Token) (ts : List Token) : Bool :=
  match ts with
  | [] => false
  | t :: _ => stops.contains t

mutual

/-- The node at the front of some tokens. Inside a flow collection no block collection can start; the
value of a mapping may be a sequence that is not indented. -/
def node (fuel : Nat) (block indentless : Bool) (ts : List Token) : Reading (Node × List Token) :=
  match fuel with
  | 0 => .error ts
  | fuel + 1 =>
    match ts with
    | .scalar text plain :: rest => .ok (.scalar text plain, rest)
    | .flowSequenceStart :: rest =>
      (flowItems fuel true rest).map fun (items, rest) => (.sequence items, rest)
    | .flowMappingStart :: rest =>
      (flowEntries fuel true rest).map fun (entries, rest) => (.mapping entries, rest)
    | .sequenceStart :: rest =>
      if block then (blockItems fuel rest).map fun (items, rest) => (.sequence items, rest) else .error ts
    | .mappingStart :: rest =>
      if block then (blockEntries fuel rest).map fun (entries, rest) => (.mapping entries, rest)
      else .error ts
    | .blockEntry :: _ =>
      if indentless then (looseItems fuel ts).map fun (items, rest) => (.sequence items, rest)
      else .error ts
    | _ => .error ts

/-- A node, or the empty one if one of the given tokens comes next. -/
def nodeOrEmpty (fuel : Nat) (block indentless : Bool) (stops : List Token) (ts : List Token) :
    Reading (Node × List Token) :=
  match fuel with
  | 0 => .error ts
  | fuel + 1 => if endsAt stops ts then .ok (empty, ts) else node fuel block indentless ts

def blockItems (fuel : Nat) (ts : List Token) : Reading (List Node × List Token) :=
  match fuel, ts with
  | fuel + 1, .blockEntry :: rest => do
    let (item, rest) ← nodeOrEmpty fuel true false [.blockEntry, .blockEnd] rest
    let (items, rest) ← blockItems fuel rest
    return (item :: items, rest)
  | _ + 1, .blockEnd :: rest => .ok ([], rest)
  | _, ts => .error ts

/-- The items of a sequence that is not indented. -/
def looseItems (fuel : Nat) (ts : List Token) : Reading (List Node × List Token) :=
  match fuel, ts with
  | fuel + 1, .blockEntry :: rest => do
    let (item, rest) ← nodeOrEmpty fuel true false [.blockEntry, .key, .value, .blockEnd] rest
    let (items, rest) ← looseItems fuel rest
    return (item :: items, rest)
  | _ + 1, ts => .ok ([], ts)
  | 0, ts => .error ts

def blockEntries (fuel : Nat) (ts : List Token) : Reading (List (Node × Node) × List Token) :=
  match fuel, ts with
  | _ + 1, .blockEnd :: rest => .ok ([], rest)
  | fuel + 1, .key :: rest => do
    let (key, rest) ← nodeOrEmpty fuel true true [.key, .value, .blockEnd] rest
    let (v, rest) ← blockValue fuel rest
    let (entries, rest) ← blockEntries fuel rest
    return ((key, v) :: entries, rest)
  | _, ts => .error ts

/-- The value after a key of a block mapping. -/
def blockValue (fuel : Nat) (ts : List Token) : Reading (Node × List Token) :=
  match fuel, ts with
  | fuel + 1, .value :: rest => nodeOrEmpty fuel true true [.key, .value, .blockEnd] rest
  | _ + 1, ts => .ok (empty, ts)
  | 0, ts => .error ts

/-- The items of a flow sequence up to its end. An item may be a single entry of a mapping. -/
def flowItems (fuel : Nat) (first : Bool) (ts : List Token) : Reading (List Node × List Token) :=
  match fuel with
  | 0 => .error ts
  | fuel + 1 =>
    match first, ts with
    | _, .flowSequenceEnd :: rest => .ok ([], rest)
    | false, .flowEntry :: .flowSequenceEnd :: rest => .ok ([], rest)
    | false, .flowEntry :: rest => flowItem fuel rest
    | true, ts => flowItem fuel ts
    | false, ts => .error ts

/-- An item of a flow sequence and those after it. -/
def flowItem (fuel : Nat) (ts : List Token) : Reading (List Node × List Token) :=
  match fuel, ts with
  | fuel + 1, .key :: rest => do
    let stops := [Token.flowEntry, .flowSequenceEnd]
    let (key, rest) ← nodeOrEmpty fuel false false (.value :: stops) rest
    let (v, rest) ← flowValue fuel stops rest
    let (items, rest) ← flowItems fuel false rest
    return (.mapping [(key, v)] :: items, rest)
  | fuel + 1, ts => do
    let (item, rest) ← node fuel false false ts
    let (items, rest) ← flowItems fuel false rest
    return (item :: items, rest)
  | 0, ts => .error ts

/-- The entries of a flow mapping up to its end. -/
def flowEntries (fuel : Nat) (first : Bool) (ts : List Token) :
    Reading (List (Node × Node) × List Token) :=
  match fuel with
  | 0 => .error ts
  | fuel + 1 =>
    match first, ts with
    | _, .flowMappingEnd :: rest => .ok ([], rest)
    | false, .flowEntry :: .flowMappingEnd :: rest => .ok ([], rest)
    | false, .flowEntry :: rest => flowEntry fuel rest
    | true, ts => flowEntry fuel ts
    | false, ts => .error ts

/-- An entry of a flow mapping and those after it. -/
def flowEntry (fuel : Nat) (ts : List Token) : Reading (List (Node × Node) × List Token) :=
  match fuel, ts with
  | fuel + 1, .key :: rest => do
    let stops := [Token.flowEntry, .flowMappingEnd]
    let (key, rest) ← nodeOrEmpty fuel false false (.value :: stops) rest
    let (v, rest) ← flowValue fuel stops rest
    let (entries, rest) ← flowEntries fuel false rest
    return ((key, v) :: entries, rest)
  | fuel + 1, ts => do
    let (key, rest) ← node fuel false false ts
    let (entries, rest) ← flowEntries fuel false rest
    return ((key, empty) :: entries, rest)
  | 0, ts => .error ts

/-- The value after a key in a flow collection. -/
def flowValue (fuel : Nat) (stops : List Token) (ts : List Token) : Reading (Node × List Token) :=
  match fuel, ts with
  | fuel + 1, .value :: rest => nodeOrEmpty fuel false false stops rest
  | _ + 1, ts => .ok (empty, ts)
  | 0, ts => .error ts

end

/-! ## Depth -/

/-- How deep collections may be nested. -/
def maxDepth : Nat := 480

/-- The tokens from the first one on that nests too deeply, where there is room for so many levels. -/
def tooDeepFrom? (room : Nat) (ts : List Token) : Option (List Token) :=
  match ts with
  | [] => none
  | t :: rest =>
    match t with
    | .sequenceStart | .mappingStart | .flowSequenceStart | .flowMappingStart =>
      if room = 0 then some ts else tooDeepFrom? (room - 1) rest
    | .blockEnd | .flowSequenceEnd | .flowMappingEnd => tooDeepFrom? (room + 1) rest
    | _ => tooDeepFrom? room rest

/-! ## Documents -/

def skipEnds (ts : List Token) : List Token := ts.dropWhile (· == .documentEnd)

/-- The tokens after directives, at most one of which tells the version. -/
def skipDirectives (seen : Bool) : List Token → Reading (List Token)
  | .directive isVersion :: rest =>
    if seen && isVersion then .error (.directive isVersion :: rest)
    else skipDirectives (seen || isVersion) rest
  | ts => .ok ts

/-- The root of a document after its start, and the tokens after it. -/
def root (ts : List Token) : Reading (Node × List Token) :=
  match ts with
  | .directive _ :: _ | .documentStart :: _ | .documentEnd :: _ | [] => .ok (empty, ts)
  | _ => node (4 * ts.length + 4) true false ts

/-- The root of a document that starts with directives or a marker. -/
def marked (ts : List Token) : Reading (Node × List Token) := do
  match ← skipDirectives false ts with
  | .documentStart :: rest => root rest
  | ts => throw ts

/-- No document follows. -/
def requireEnd (ts : List Token) : Reading Unit := do
  match skipEnds ts with
  | [] => return ()
  | ts => throw (← skipDirectives false ts)

/-- The root of the only document of a text; `none` if there is no document. -/
def ofTokens (ts : List Token) : Reading (Option Node) :=
  match ts with
  | [] => .ok none
  | t :: _ => do
    let isMarked := match t with
      | .directive _ | .documentStart => true
      | _ => false
    let (root, rest) ← if isMarked then marked ts else node (4 * ts.length + 4) true false ts
    requireEnd rest
    return some root

end Node

end Stepwise.Yaml
