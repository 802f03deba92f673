-- SUMMARY: YAML documents as values.
import Stepwise.Yaml.Node
import Stepwise.Yaml.Plain
import Stepwise.Workflow.Document

/-!
# YAML documents

A YAML document is read into a value: plain scalars by their form, quoted ones as text,
mappings in their order, where a repeated key keeps its place and takes the later value.
Of several faults in a document those of its layout come first, and then the first one on
the outermost level of nesting. Dates, anchors, aliases, tags and merge keys are not read:
workflows do not depend on this reader, which stands for the one that they are given.
-/

namespace Stepwise

namespace Yaml

/-! ## What is wrong first -/

/-- The fault of an answer, if it is one. -/
def faultOf {α : Type} (answer : Except Fault α) : Option Fault :=
  match answer with
  | .ok _ => none
  | .error f => some f

def scalarValue (text : String) : Except Fault Value := (plainValue? text).getD (.error malformed)

namespace Node

/-- The fault of a scalar that has no value. What is wrong inside a collection is found later. -/
def itemFault? : Node → Option Fault
  | .scalar text true => faultOf (scalarValue text)
  | _ => none

/-- The fault of a node as a key. An equals sign, which has no value elsewhere, is text here, and
collections cannot be keys. -/
def keyFault? : Node → Option Fault
  | .scalar "=" true => none
  | .scalar text plain => itemFault? (.scalar text plain)
  | _ => some malformed

/-- The fault of an entry: that of its key, or else that of its value. -/
def entryFault? (entry : Node × Node) : Option Fault := (keyFault? entry.1).or (itemFault? entry.2)

/-- The key would merge another mapping into its own. -/
def isMergeKey (entry : Node × Node) : Bool :=
  match entry.1 with
  | .scalar "<<" true => true
  | _ => false

/-- The first faults of two nodes on every level, those of the first node before. -/
def joinLevels : List (Option Fault) → List (Option Fault) → List (Option Fault)
  | [], gs => gs
  | fs, [] => fs
  | f :: fs, g :: gs => f.or g :: joinLevels fs gs

mutual

/-- The first fault on every level of a collection: among its own items, among the items of the
collections in it, and so on. -/
def levelFaults : Node → List (Option Fault)
  | .scalar .. => []
  | .sequence items => items.findSome? itemFault? :: levelFaultsOfItems items
  | .mapping entries =>
    (if entries.any isMergeKey then some malformed else entries.findSome? entryFault?)
      :: levelFaultsOfEntries entries

/-- The first faults on every level of the items of a sequence. -/
def levelFaultsOfItems : List Node → List (Option Fault)
  | [] => []
  | n :: ns => joinLevels n.levelFaults (levelFaultsOfItems ns)

/-- The first faults on every level of the values of a mapping. -/
def levelFaultsOfEntries : List (Node × Node) → List (Option Fault)
  | [] => []
  | (_, n) :: es => joinLevels n.levelFaults (levelFaultsOfEntries es)

end

/-- What is wrong first in a tree, level by level. -/
def firstFault? (n : Node) : Option Fault := (n.itemFault?).or (n.levelFaults.findSome? id)

end Node

/-! ## Values -/

mutual

def Node.toValue : Node → Except Fault Value
  | .scalar text false => .ok (.str text)
  | .scalar text true => scalarValue text
  | .sequence items => do return .list (← Node.toValues items)
  | .mapping entries => do return .dict (← Node.toEntries [] entries)

def Node.toValues : List Node → Except Fault (List Value)
  | [] => .ok []
  | n :: ns => do
    let v ← n.toValue
    let vs ← Node.toValues ns
    return v :: vs

def Node.toKeyValue : Node → Except Fault Value
  | .scalar "=" true => .ok (.str "=")
  | key => key.toValue

/-- The entries of a mapping, stored into those before. -/
def Node.toEntries (d : Dict) : List (Node × Node) → Except Fault Dict
  | [] => .ok d
  | (key, n) :: rest => do
    match (← key.toKeyValue).toKey? with
    | none => throw malformed
    | some k =>
      let v ← n.toValue
      Node.toEntries (d.insert k v) rest

end

/-- The value of a tree, or what is wrong first in it. -/
def Node.evaluate (n : Node) : Except Fault Value :=
  match n.firstFault? with
  | some f => .error f
  | none => n.toValue

/-- The tree of some tokens, if there is one. Where they cannot be read any further, and where they
have ended too early, the given faults are what is wrong; a token before that nests too deeply counts
first. -/
def tree (misplaced ended : Fault) (ts : List Token) : Except Fault (Option Node) :=
  let reading := Node.ofTokens ts
  let left := match reading with
    | .ok _ => 0
    | .error rest => rest.length
  if (Node.tooDeepFrom? Node.maxDepth ts).any fun rest => left < rest.length then .error .tooDeep
  else
    match reading with
    | .ok n? => .ok n?
    | .error (_ :: _) => .error misplaced
    | .error [] => .error ended

/-- The value of the only document of a text, `null` if there is none. Tokens that are settled before
the text cannot be read any further are checked first. -/
def read (s : String) : Except Fault Value :=
  match tokens s with
  | .ok ts => do
    match ← tree malformed malformed ts with
    | none => return .null
    | some n => n.evaluate
  | .error interruption => do
    let _ ← tree malformed interruption.fault interruption.settled
    throw interruption.fault

def reader : DocumentReader := fun s =>
  match read s with
  | .ok v => .ok v
  | .error f => .error (if f = malformed then .malformed "" else .fault f)

end Yaml

end Stepwise
