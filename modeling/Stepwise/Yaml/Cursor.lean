-- SUMMARY: A place in a YAML text: what follows, and the line and column it stands in.
import Stepwise.Text.Ranges
import Stepwise.Fault

/-!
# Places in a YAML text

The layout of a YAML text matters, so it is read through a cursor that knows its line
and column. A line ends with a line feed, a carriage return, both, or one of the three
Unicode line separators; the first three and U+0085 read as a line feed.
-/

namespace Stepwise.Yaml

/-! ## Characters -/

def isBreak (c : Char) : Bool :=
  c == '\n' || c == '\r' || c == '\x85' || c == '\u2028' || c == '\u2029'

/-- What follows is no part of a word: the end of the text, a space, a tab or the end of a line. -/
def isGap (c? : Option Char) : Bool :=
  match c? with
  | none => true
  | some c => c == ' ' || c == '\t' || isBreak c

/-- What follows ends a line: the end of the text or a line break. -/
def isLineEnd (c? : Option Char) : Bool :=
  match c? with
  | none => true
  | some c => isBreak c

/-- The byte order mark, which takes up no column. -/
def byteOrderMark : Char := '\uFEFF'

/-- The code points that a YAML text may hold. -/
def allowedRanges : List (Nat × Nat) :=
  [
   (0x9, 0xA), (0xD, 0xD), (0x20, 0x7E), (0x85, 0x85), (0xA0, 0xD7FF), (0xE000, 0xFFFD),
   (0x10000, 0x10FFFF)]

/-! ## Malformed texts -/

/-- The fault of a text that is no single YAML document. -/
def malformed : Fault := .badValue "Invalid YAML"

/-- What was found, or the fault of a text in which it cannot be found. -/
def expect {α : Type} (found? : Option α) : Except Fault α :=
  match found? with
  | some a => .ok a
  | none => .error malformed

/-! ## Cursors -/

/-- A place in a text. -/
structure Cursor where
  rest : List Char
  index : Nat := 0
  line : Nat := 0
  column : Nat := 0
deriving Repr, Inhabited

namespace Cursor

def peek? (c : Cursor) : Option Char := c.rest.head?

def ahead? (c : Cursor) (n : Nat) : Option Char := c.rest[n]?

def isAt (c : Cursor) (ch : Char) : Bool := c.peek? == some ch

/-- The place after the next character. -/
def next (c : Cursor) : Cursor :=
  match c.rest with
  | [] => c
  | ch :: rest =>
    let index := c.index + 1
    if isBreak ch && !(ch == '\r' && rest.head? == some '\n') then
      { rest, index, line := c.line + 1, column := 0 }
    else if ch == byteOrderMark then { c with rest, index }
    else { c with rest, index, column := c.column + 1 }

/-- The place after some characters. -/
def advance (c : Cursor) : Nat → Cursor
  | 0 => c
  | n + 1 => c.next.advance n

/-- The characters at the place that satisfy a predicate, and the place after them. -/
def span (p : Char → Bool) (c : Cursor) : List Char × Cursor :=
  let cs := c.rest.takeWhile p
  (cs, c.advance cs.length)

def skipSpaces (c : Cursor) : Cursor := (c.span (· == ' ')).2

/-- The place after a comment, if there is one. -/
def skipComment (c : Cursor) : Cursor :=
  if c.isAt '#' then (c.span fun ch => !isBreak ch).2 else c

/-- The line break at the place as it reads, and the place after it. -/
def lineBreak? (c : Cursor) : Option (Char × Cursor) :=
  match c.rest with
  | '\r' :: '\n' :: _ => some ('\n', c.advance 2)
  | ch :: _ =>
    if ch == '\u2028' || ch == '\u2029' then some (ch, c.next)
    else if isBreak ch then some ('\n', c.next)
    else none
  | [] => none

/-- The place after a line break, if there is one. -/
def skipBreak (c : Cursor) : Cursor :=
  match c.lineBreak? with
  | some (_, c) => c
  | none => c

/-- Three characters of one kind that stand by themselves: a document marker if a line starts here. -/
def isMarker (c : Cursor) (ch : Char) : Bool :=
  c.rest.take 3 == [ch, ch, ch] && isGap (c.ahead? 3)

/-- A document marker of either kind. -/
def isAnyMarker (c : Cursor) : Bool := c.isMarker '-' || c.isMarker '.'

/-- The rest of a line that may hold spaces and a comment, and the place after its break. -/
def restOfLine? (c : Cursor) : Option Cursor :=
  let c := c.skipSpaces.skipComment
  if isLineEnd c.peek? then some c.skipBreak else none

end Cursor

end Stepwise.Yaml
