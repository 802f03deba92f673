-- SUMMARY: Filling templates: values for expressions, inside text and inside nested data.
import Stepwise.Template.Pieces
import Stepwise.Template.Path
import Stepwise.Json.Printer

/-!
# Filling templates

A string that is exactly one expression is filled by the value it addresses. In any
other string each expression is replaced by the text of its value, or left as it stands
if it addresses nothing. Lists and dictionaries are filled item by item; other values,
tuples included, are their own filling.
-/

namespace Stepwise.Template

/-! ## Text of a value -/

/-- The text that stands for a value inside a longer text: truth values in lower case, a float
without fraction as an integer, lists and dictionaries as JSON. -/
def format (v : Value) : Except Fault String :=
  match v with
  | .str s => .ok s
  | .bool b => .ok (Json.boolText b)
  | .float x =>
    if x.isInteger then .ok (Binary64.intText (x.toInt?.getD 0)) else .ok v.text
  | .dict _ | .list _ | .runLog => Json.render v
  | _ => v.spell

/-! ## Text -/

/-- A piece with the text of its value in place of an expression. -/
def fillPiece (c : Context) (piece : Piece) : Except Fault String :=
  match piece with
  | .char ch => .ok (String.singleton ch)
  | .hole inside => do
    let v ← resolve c (expression inside)
    if v.isNull then return String.ofList piece.source else format (c.settle v)

def fillPieces (c : Context) : List Piece → Except Fault String
  | [] => .ok ""
  | piece :: rest => do
    let first ← fillPiece c piece
    let more ← fillPieces c rest
    return first ++ more

def fillText (c : Context) (template : String) : Except Fault String :=
  fillPieces c (pieces template)

/-! ## Data -/

/-- The filling of a string: the value itself if it is exactly one expression. -/
def fillString (c : Context) (template : String) : Except Fault Value :=
  match whole? template with
  | some path => resolve c path
  | none => do return .str (← fillText c template)

mutual

def fill (c : Context) : Value → Except Fault Value
  | .str s => fillString c s
  | .list items => do return .list (← fillAll c items)
  | .dict entries => do return .dict (← fillEntries c entries)
  | v => .ok v

def fillAll (c : Context) : List Value → Except Fault (List Value)
  | [] => .ok []
  | v :: vs => do
    let w ← fill c v
    let ws ← fillAll c vs
    return w :: ws

def fillEntries (c : Context) : List (Key × Value) → Except Fault (List (Key × Value))
  | [] => .ok []
  | (k, v) :: es => do
    let w ← fill c v
    let ws ← fillEntries c es
    return (k, w) :: ws

end

/-- The text that a field contributes to a longer one: a string filled as text, other values filled
as data and written out. -/
def fillAsText (c : Context) (v : Value) : Except Fault String :=
  match v with
  | .str s => fillText c s
  | v => do format (c.settle (← fill c v))

/-! ## Expressions -/

/-- Every expression addresses a value. -/
def allResolve (c : Context) : List String → Except Fault Bool
  | [] => .ok true
  | path :: paths => do
    if (← resolve c path).isNull then return false else allResolve c paths

mutual

/-- The value holds no `null` and all its expressions address something, at every depth. -/
def isFillable (c : Context) : Value → Except Fault Bool
  | .null => .ok false
  | .str s => allResolve c (expressions s)
  | .list items => allFillable c items
  | .dict entries => entriesFillable c entries
  | _ => .ok true

def allFillable (c : Context) : List Value → Except Fault Bool
  | [] => .ok true
  | v :: vs => do if ← isFillable c v then allFillable c vs else return false

def entriesFillable (c : Context) : List (Key × Value) → Except Fault Bool
  | [] => .ok true
  | (_, v) :: es => do if ← isFillable c v then entriesFillable c es else return false

end

mutual

/-- The expressions inside a value, in order. -/
def references : Value → List String
  | .str s => expressions s
  | .list items => referencesAll items
  | .dict entries => referencesEntries entries
  | _ => []

/-- The expressions inside list items. -/
def referencesAll : List Value → List String
  | [] => []
  | v :: vs => references v ++ referencesAll vs

/-- The expressions inside dictionary entries. -/
def referencesEntries : List (Key × Value) → List String
  | [] => []
  | (_, v) :: es => references v ++ referencesEntries es

end

theorem referencesAll_eq_flatMap (vs : List Value) : referencesAll vs = vs.flatMap references := by
  induction vs with
  | nil => rfl
  | cons v vs ih => simp [referencesAll, ih]

theorem referencesEntries_eq_flatMap (es : List (Key × Value)) :
    referencesEntries es = es.flatMap fun e => references e.2 := by
  induction es with
  | nil => rfl
  | cons e es ih => simp [referencesEntries, ih]

end Stepwise.Template
