-- SUMMARY: Conditions over templates: comparison of an expression with a literal, or truth.
import Stepwise.Template.Fill

/-!
# Conditions

A condition with an expression compares the expression's value with the literal after
`==` or `!=`, or asks whether the value counts as true. A condition without expression
is a literal whose truth is asked. Literals are quoted strings, `true`, `false`, `null`,
numbers and bare words.
-/

namespace Stepwise.Template

/-! ## Literals -/

/-- The inside of a text that starts and ends with the same quote. -/
def unquote? (cs : List Char) : Option (List Char) :=
  match cs with
  | first :: rest@(_ :: _) =>
    if (first = '\'' ∨ first = '"') ∧ rest.getLast? = some first then some rest.dropLast else none
  | _ => none

/-- The number that a text spells, as a value: an integer if it has no fraction and no point. -/
def numberLiteral (text : String) (x : Binary64) : Value :=
  match x.toInt? with
  | some n => if x.isInteger && !text.toList.contains '.' then .int n else .float x
  | none => .float x

/-- The value of a literal. -/
def literal (text : String) : Value :=
  let text := Text.strip text
  match unquote? text.toList with
  | some inside => .str (String.ofList inside)
  | none =>
    if text = "true" then .bool true
    else if text = "false" then .bool false
    else if text = "null" then .null
    else match Numeral.readNumber? text with
      | some x => numberLiteral text x
      | none => .str text

/-! ## Comparison -/

/-- The two values are equal as numbers. A text that spells no number, and a value that is none,
equals nothing; an integer too large to be compared as a float is a fault. -/
def sameNumber (v w : Value) : Except Fault Bool :=
  match v.toBinary64 with
  | .error f => if f.kind = .overflow then .error f else .ok false
  | .ok x =>
    match w.toBinary64 with
    | .error f => if f.kind = .overflow then .error f else .ok false
    | .ok y => .ok (x.compare? y == some .eq)

/-- The value equals the literal: `null` only `null`; a text and a number if the text spells it. -/
def looselyEqual (v w : Value) : Except Fault Bool :=
  if v.isNull || w.isNull then .ok (v.isNull && w.isNull)
  else if v.same w then .ok true
  else if v.str?.isSome != w.str?.isSome then sameNumber v w
  else .ok false

/-! ## Conditions -/

/-- The text after the first occurrence of a mark. -/
def afterMark? (mark : List Char) : List Char → Option (List Char)
  | [] => none
  | c :: cs =>
    if mark.isPrefixOf (c :: cs) then some ((c :: cs).drop mark.length) else afterMark? mark cs

def evaluate (c : Context) (condition : String) : Except Fault Bool :=
  match expressions condition with
  | [] => .ok (literal condition).truthy
  | path :: _ => do
    let v := c.settle (← resolve c path)
    match afterMark? ['=', '='] condition.toList, afterMark? ['!', '='] condition.toList with
    | some rest, _ => looselyEqual v (literal (String.ofList rest))
    | none, some rest => return !(← looselyEqual v (literal (String.ofList rest)))
    | none, none => return v.truthy

/-- The truth of a condition given as a value; only a text is a condition. -/
def evaluateValue (c : Context) (condition : Value) : Except Fault Bool :=
  match condition with
  | .str s => evaluate c s
  | _ => .error .wrongType

end Stepwise.Template
