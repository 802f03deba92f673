-- SUMMARY: Reading values from JSON text.
import Stepwise.Value.Dict
import Stepwise.Number.Numeral

/-!
# JSON reading

A document is one JSON value between blanks. Integers have 4300 digits at most; a number
with a point or a power of ten is a binary64 number; `NaN` and the infinities are accepted
by name. Of members with one name the last counts, in the place of the first. What is
wrong first in the text is reported.

The reader consumes a list of characters. Every construct gives back the rest of the
text. Collections may be nested in each other, but not without end.
-/

namespace Stepwise.Json

/-! ## Blanks and words -/

def isBlank (c : Char) : Bool := c == ' ' || c == '\t' || c == '\n' || c == '\r'

/-- The text without the blanks at its front. -/
def skipBlanks (cs : List Char) : List Char := cs.dropWhile isBlank

/-- The rest of the text after a word, if the text starts with it. -/
def afterWord? (word : String) (cs : List Char) : Option (List Char) :=
  if word.toList.isPrefixOf cs then some (cs.drop word.length) else none

/-! ## Strings -/

def hexValue? (c : Char) : Option Nat :=
  if '0' ≤ c ∧ c ≤ '9' then some (c.toNat - '0'.toNat)
  else if 'a' ≤ c ∧ c ≤ 'f' then some (c.toNat - 'a'.toNat + 10)
  else if 'A' ≤ c ∧ c ≤ 'F' then some (c.toNat - 'A'.toNat + 10)
  else none

/-- The number that hexadecimal digits spell. -/
def readHex? (cs : List Char) : Option Nat :=
  cs.foldl (fun n? c => do return 16 * (← n?) + (← hexValue? c)) (some 0)

/-- The character that a short escape stands for. -/
def shortEscape? (c : Char) : Option Char :=
  match c with
  | '"' => some '"'
  | '\\' => some '\\'
  | '/' => some '/'
  | 'b' => some '\x08'
  | 'f' => some '\x0c'
  | 'n' => some '\n'
  | 'r' => some '\r'
  | 't' => some '\t'
  | _ => none

/-- The character of two surrogate units. -/
def pairChar (high low : Nat) : Char :=
  Char.ofNat (0x10000 + (high - 0xD800) * 0x400 + (low - 0xDC00))

/-- The characters up to the closing quote, and the text after it. -/
def readChars? (fuel : Nat) (cs : List Char) : Option (List Char × List Char) :=
  match fuel with
  | 0 => none
  | fuel + 1 =>
    match cs with
    | [] => none
    | '"' :: rest => some ([], rest)
    | '\\' :: 'u' :: a :: b :: c :: d :: rest => do
      let unit ← readHex? [a, b, c, d]
      match rest with
      | '\\' :: 'u' :: e :: f :: g :: h :: more =>
        let next ← readHex? [e, f, g, h] <|> some 0
        if 0xD800 ≤ unit ∧ unit < 0xDC00 ∧ 0xDC00 ≤ next ∧ next < 0xE000 then
          let (tail, after) ← readChars? fuel more
          return (pairChar unit next :: tail, after)
        else
          let (tail, after) ← readChars? fuel rest
          return (Char.ofNat unit :: tail, after)
      | _ =>
        let (tail, after) ← readChars? fuel rest
        return (Char.ofNat unit :: tail, after)
    | '\\' :: c :: rest => do
      let e ← shortEscape? c
      let (tail, after) ← readChars? fuel rest
      return (e :: tail, after)
    | c :: rest =>
      if c = '\\' ∨ c.toNat < 0x20 then none
      else do
        let (tail, after) ← readChars? fuel rest
        return (c :: tail, after)

/-- The string after an opening quote, and the text after it. -/
def readString? (cs : List Char) : Option (String × List Char) :=
  (readChars? (cs.length + 1) cs).map fun (chars, rest) => (String.ofList chars, rest)

/-! ## Numbers -/

def isDigit (c : Char) : Bool := '0' ≤ c && c ≤ '9'

/-- The digits at the front of a text and the rest. -/
def spanDigits (cs : List Char) : List Char × List Char := cs.span isDigit

/-- The number that ASCII digits spell. -/
def digitsValue (cs : List Char) : Nat := Numeral.ofDigits (cs.map fun c => c.toNat - '0'.toNat)

/-- The fraction at the front of a text: a point followed by digits. -/
def spanFraction (cs : List Char) : Option (List Char) × List Char :=
  match cs with
  | '.' :: rest =>
    match spanDigits rest with
    | ([], _) => (none, cs)
    | (ds, after) => (some ds, after)
  | _ => (none, cs)

/-- The power of ten at the front of a text. -/
def spanExponent (cs : List Char) : Option Int × List Char :=
  match cs with
  | c :: rest =>
    if c = 'e' ∨ c = 'E' then
      let (negative, body) := Numeral.takeSign rest
      match spanDigits body with
      | ([], _) => (none, cs)
      | (ds, after) =>
        (some (if negative then -(digitsValue ds : Int) else digitsValue ds), after)
    else (none, cs)
  | [] => (none, cs)

/-- The integer of a sign and ASCII digits, unless there are too many of them. -/
def integerOf (negative : Bool) (ds : List Char) : Except Fault Int :=
  if Numeral.maxDigits < ds.length then .error (Numeral.tooManyDigits ds.length)
  else .ok (if negative then -(digitsValue ds : Int) else digitsValue ds)

/-- The number at the front of a text: no leading zeros, and a float if it has a fraction or a
power of ten. -/
def readNumber (cs : List Char) : Except Fault (Value × List Char) :=
  let (negative, body) := match cs with
    | '-' :: rest => (true, rest)
    | _ => (false, cs)
  let (whole, rest) := match body with
    | '0' :: rest => (['0'], rest)
    | _ => spanDigits body
  if whole.isEmpty then .error .badJson
  else
    let (fraction, rest) := spanFraction rest
    let (exponent, rest) := spanExponent rest
    match fraction, exponent with
    | none, none => do return (.int (← integerOf negative whole), rest)
    | _, _ =>
      let ds := fraction.getD []
      .ok (.float (.ofScientific negative (digitsValue (whole ++ ds))
        (exponent.getD 0 - ds.length)), rest)

/-! ## Values -/

/-- The `nan` of every document. -/
def documentNan : Binary64 := .nan 1

/-- The words that stand for values, and their values. -/
def words : List (String × Value) :=
  [("null", .null), ("true", .bool true), ("false", .bool false), ("NaN", .float documentNan),
    ("Infinity", .float (.infinite false)), ("-Infinity", .float (.infinite true))]

/-- The value of the word at the front of a text, and the rest. -/
def readWord? (cs : List Char) : Option (Value × List Char) :=
  words.findSome? fun w => (afterWord? w.1 cs).map fun rest => (w.2, rest)

/-- The value at the front of a text that is no collection, and the rest. -/
def readScalar (cs : List Char) : Except Fault (Value × List Char) :=
  match cs with
  | '"' :: rest =>
    match readString? rest with
    | some (s, after) => .ok (.str s, after)
    | none => .error .badJson
  | _ =>
    match readWord? cs with
    | some answer => .ok answer
    | none => readNumber cs

/-- How deep collections may be nested. -/
def maxDepth : Nat := 990

mutual

/-- The value at the front of a text, and the rest. There is room for so many levels of nesting. -/
def readValue (room fuel : Nat) (cs : List Char) : Except Fault (Value × List Char) :=
  match fuel with
  | 0 => .error .badJson
  | fuel + 1 =>
    match cs with
    | '[' :: rest =>
      if room = 0 then .error .tooDeep
      else
        match skipBlanks rest with
        | ']' :: after => .ok (.list [], after)
        | body => (readItems (room - 1) fuel body).map fun (vs, after) => (.list vs, after)
    | '\x7b' :: rest =>
      if room = 0 then .error .tooDeep
      else
        match skipBlanks rest with
        | '\x7d' :: after => .ok (.dict [], after)
        | body => (readMembers (room - 1) fuel [] body).map fun (d, after) => (.dict d, after)
    | _ => readScalar cs

/-- The items of an array up to its closing bracket. -/
def readItems (room fuel : Nat) (cs : List Char) : Except Fault (List Value × List Char) :=
  match fuel with
  | 0 => .error .badJson
  | fuel + 1 => do
    let (v, rest) ← readValue room fuel cs
    match skipBlanks rest with
    | ']' :: after => return ([v], after)
    | ',' :: more =>
      let (vs, after) ← readItems room fuel (skipBlanks more)
      return (v :: vs, after)
    | _ => throw .badJson

/-- The members of an object up to its closing brace, stored into the ones read before. -/
def readMembers (room fuel : Nat) (d : Dict) (cs : List Char) :
    Except Fault (Dict × List Char) :=
  match fuel with
  | 0 => .error .badJson
  | fuel + 1 =>
    match cs with
    | '"' :: rest =>
      match readString? rest with
      | none => .error .badJson
      | some (name, rest) =>
        match skipBlanks rest with
        | ':' :: rest => do
          let (v, rest) ← readValue room fuel (skipBlanks rest)
          let d := d.insert (.str name) v
          match skipBlanks rest with
          | '\x7d' :: after => return (d, after)
          | ',' :: more => readMembers room fuel d (skipBlanks more)
          | _ => throw .badJson
        | _ => .error .badJson
    | _ => .error .badJson

end

/-- The value that a JSON document holds. -/
def read (s : String) : Except Fault Value := do
  let cs := s.toList
  let (v, rest) ← readValue maxDepth (cs.length + 1) (skipBlanks cs)
  if (skipBlanks rest).isEmpty then return v else throw .badJson

end Stepwise.Json
