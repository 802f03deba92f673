-- SUMMARY: YAML scalars in single and double quotes.
import Stepwise.Yaml.Cursor
import Stepwise.Json.Reader

/-!
# Quoted scalars

Inside single quotes a quote is written twice and everything else stands for itself.
Inside double quotes a backslash escapes; an escape by number has to name a code point.
In both, blanks around a line break fold with it into one space, and further line breaks
are kept.
-/

namespace Stepwise.Yaml

/-! ## Escapes -/

/-- The character that a short escape stands for. -/
def shortEscape? (c : Char) : Option Char :=
  match c with
  | '0' => some '\x00'
  | 'a' => some '\x07'
  | 'b' => some '\x08'
  | 't' | '\t' => some '\t'
  | 'n' => some '\n'
  | 'v' => some '\x0b'
  | 'f' => some '\x0c'
  | 'r' => some '\r'
  | 'e' => some '\x1b'
  | ' ' => some ' '
  | '"' => some '"'
  | '\\' => some '\\'
  | '/' => some '/'
  | 'N' => some '\x85'
  | '_' => some '\xa0'
  | 'L' => some '\u2028'
  | 'P' => some '\u2029'
  | _ => none

/-- The count of hexadecimal digits after an escape by number. -/
def escapeDigits? (c : Char) : Option Nat :=
  match c with
  | 'x' => some 2
  | 'u' => some 4
  | 'U' => some 8
  | _ => none

/-- The character of a number, unless the number is no code point. -/
def charOfNumber (n : Nat) : Except Fault Char :=
  if n ≤ 0x10FFFF then .ok (Char.ofNat n)
  else if n < 0x80000000 then .error (.badValue "chr() arg not in range(0x110000)")
  else .error (.overflow "Python int too large to convert to C int")

/-- The number in so many hexadecimal digits at the front of a text. -/
def escapeNumber? (count : Nat) (cs : List Char) : Option Nat :=
  if cs.length < count then none else Json.readHex? (cs.take count)

/-- The second surrogate unit that an escape at the front of a text stands for, and the length of the
escape. -/
def lowSurrogate? (cs : List Char) : Option (Nat × Nat) :=
  match cs with
  | '\\' :: kind :: rest => do
    let count ← escapeDigits? kind
    let unit ← escapeNumber? count rest
    if 0xDC00 ≤ unit ∧ unit < 0xE000 then some (unit, count + 2) else none
  | _ => none

/-- The character of a number in so many hexadecimal digits, and the place after them. Two surrogate
units, one after the other, are one character. -/
def numberedChar (count : Nat) (c : Cursor) : Except Fault (Char × Cursor) := do
  let unit ← expect (escapeNumber? count c.rest)
  let after := c.advance count
  match lowSurrogate? after.rest with
  | some (low, length) =>
    if 0xD800 ≤ unit ∧ unit < 0xDC00 then return (Json.pairChar unit low, after.advance length)
    else return (← charOfNumber unit, after)
  | none => return (← charOfNumber unit, after)

/-! ## Line folding -/

/-- The line breaks at the place, with the blanks between them skipped. A document marker may not
stand at the start of a line. -/
def foldedBreaks? (fuel : Nat) (c : Cursor) : Option (List Char × Cursor) :=
  match fuel with
  | 0 => none
  | fuel + 1 =>
    if c.isAnyMarker then none
    else
      let c := (c.span fun ch => ch == ' ' || ch == '\t').2
      match c.lineBreak? with
      | none => some ([], c)
      | some (ch, c) => (foldedBreaks? fuel c).map fun (more, c) => (ch :: more, c)

/-- A first line break and those after it as they read: alone it is a space, otherwise only the
others are kept. -/
def fold (first : Char) (more : List Char) : List Char :=
  if first != '\n' then first :: more
  else if more.isEmpty then [' ']
  else more

/-- The blanks at the place as they read, and the place after them. -/
def blanks? (fuel : Nat) (c : Cursor) : Option (List Char × Cursor) :=
  let (cs, c) := c.span fun ch => ch == ' ' || ch == '\t'
  match c.lineBreak? with
  | none => if c.rest.isEmpty then none else some (cs, c)
  | some (first, c) => (foldedBreaks? fuel c).map fun (more, c) => (fold first more, c)

/-! ## Quoted scalars -/

/-- An escape after its backslash, and the place after it. -/
def escape (fuel : Nat) (c : Cursor) : Except Fault (List Char × Cursor) := do
  let ch ← expect c.peek?
  match shortEscape? ch, escapeDigits? ch with
  | some e, _ => return ([e], c.next)
  | none, some count =>
    let (e, c) ← numberedChar count c.next
    return ([e], c)
  | none, none =>
    let (_, c) ← expect c.lineBreak?
    expect (foldedBreaks? fuel c)

/-- The text up to the closing quote, and the place after it. -/
def quotedText (double : Bool) (fuel : Nat) (c : Cursor) : Except Fault (List Char × Cursor) :=
  match fuel with
  | 0 => .error malformed
  | fuel + 1 => do
    let ch ← expect c.peek?
    if ch == '\'' && !double then
      if c.ahead? 1 == some '\'' then
        let (tail, c) ← quotedText double fuel (c.advance 2)
        return ('\'' :: tail, c)
      else return ([], c.next)
    else if ch == '"' && double then return ([], c.next)
    else if ch == '\\' && double then
      let (e, c) ← escape fuel c.next
      let (tail, c) ← quotedText double fuel c
      return (e ++ tail, c)
    else if isGap (some ch) then
      let (cs, c) ← expect (blanks? fuel c)
      let (tail, c) ← quotedText double fuel c
      return (cs ++ tail, c)
    else
      let (tail, c) ← quotedText double fuel c.next
      return (ch :: tail, c)

/-- The quoted scalar at the place, and the place after it. -/
def quoted (c : Cursor) : Except Fault (String × Cursor) := do
  let (cs, c) ← quotedText (c.isAt '"') (c.rest.length + 1) c.next
  return (String.ofList cs, c)

end Stepwise.Yaml
