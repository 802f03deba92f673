-- SUMMARY: JSON text of values.
import Stepwise.Value.Display
import Stepwise.Fault

/-!
# JSON printing

A value is written on one line with a blank after every comma and colon. Tuples are
written as arrays; scalar keys are written as strings; numbers that JSON lacks have
names of their own. A tuple cannot be a key, and an integer that is not written out has no
JSON text either.
-/

namespace Stepwise.Json

/-- The JSON text of a truth value. -/
def boolText (b : Bool) : String := if b then "true" else "false"

/-- The JSON text of a binary64 number. -/
def floatText : Binary64 → String
  | .nan _ => "NaN"
  | .infinite negative => if negative then "-Infinity" else "Infinity"
  | x => x.text

def memberName : Key → Except Fault String
  | .null => .ok "null"
  | .bool b => .ok (boolText b)
  | .int n => spellInt n
  | .float x => .ok (floatText x)
  | .str s => .ok s
  | .tuple _ => .error .wrongType

mutual

/-- The JSON text of a value. -/
def render : Value → Except Fault String
  | .null => .ok "null"
  | .bool b => .ok (boolText b)
  | .int n => spellInt n
  | .float x => .ok (floatText x)
  | .str s => .ok (Text.json s)
  | .list items | .tuple items => do
    let parts ← renderAll items
    return "[" ++ ", ".intercalate parts ++ "]"
  | .dict entries => do
    let parts ← renderEntries entries
    return "\x7b" ++ ", ".intercalate parts ++ "\x7d"
  | .runLog => .ok "[]"

def renderAll : List Value → Except Fault (List String)
  | [] => .ok []
  | v :: vs => do
    let part ← render v
    let parts ← renderAll vs
    return part :: parts

/-- The JSON texts of dictionary entries. -/
def renderEntries : List (Key × Value) → Except Fault (List String)
  | [] => .ok []
  | (k, v) :: es => do
    let name ← memberName k
    let part ← render v
    let parts ← renderEntries es
    return (Text.json name ++ ": " ++ part) :: parts

end

end Stepwise.Json
