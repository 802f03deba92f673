-- SUMMARY: YAML scalars without quotes: plain ones, and literal and folded blocks.
import Stepwise.Yaml.Quoted

/-!
# Unquoted scalars

A plain scalar ends at a comment, at a colon before a gap, at a less indented line, and
inside a flow collection at its punctuation. A block scalar is the more indented text
after its header; a literal one keeps its lines, a folded one joins those that are not
indented further. The header may say where the indentation starts and whether final line
breaks are all kept, all dropped, or one is kept.
-/

namespace Stepwise.Yaml

/-! ## Plain scalars -/

def isFlowPunctuation (c : Char) : Bool :=
  c == ',' || c == '[' || c == ']' || c == '\x7b' || c == '\x7d'

/-- A plain scalar cannot go on with the first of two characters. -/
def endsPlain (inFlow : Bool) (ch : Char) (following? : Option Char) : Bool :=
  isGap (some ch)
    || (ch == ':' && (isGap following? || (inFlow && following?.any isFlowPunctuation)))
    || (inFlow && (isFlowPunctuation ch || ch == '?'))

/-- The length of the piece of a plain scalar at the front of a text. -/
def plainLength (inFlow : Bool) : List Char → Nat
  | [] => 0
  | ch :: rest => if endsPlain inFlow ch rest.head? then 0 else plainLength inFlow rest + 1

/-- The gap between two pieces of a plain scalar. -/
inductive PlainGap where
  /-- There is no gap, or a document marker follows: the scalar has ended. -/
  | none
  /-- The gap reads as the given characters. -/
  | reads (cs : List Char)
deriving Repr

/-- The breaks of empty lines at the place, and the place after them and the spaces around them.
`none` instead of the breaks if a document marker starts a line. -/
def emptyLines (fuel : Nat) (c : Cursor) : Option (List Char) × Cursor :=
  match fuel with
  | 0 => (some [], c)
  | fuel + 1 =>
    let c := c.skipSpaces
    match c.lineBreak? with
    | .none => (some [], c)
    | some (ch, c) =>
      if c.isAnyMarker then (.none, c)
      else
        let (more?, c) := emptyLines fuel c
        (more?.map (ch :: ·), c)

/-- The gap at the place, the place after it, and whether it holds a line break. -/
def plainGap (c : Cursor) : PlainGap × Cursor × Bool :=
  let (cs, c) := c.span (· == ' ')
  match c.lineBreak? with
  | some (first, c) =>
    if c.isAnyMarker then (.none, c, true)
    else
      match emptyLines (c.rest.length + 1) c with
      | (some more, c) => (.reads (fold first more), c, true)
      | (.none, c) => (.none, c, true)
  | .none => (if cs.isEmpty then .none else .reads cs, c, false)

/-- A scalar without quotes, the place after it, and whether a line break was the last thing seen. -/
structure PlainText where
  chars : List Char
  after : Cursor
  atLineStart : Bool

/-- The plain scalar at the place. The pieces after the first are indented at least by `indent`
outside flow collections. -/
def plainText (inFlow : Bool) (indent : Int) (fuel : Nat) (atLineStart : Bool) (c : Cursor) :
    PlainText :=
  match fuel with
  | 0 => { chars := [], after := c, atLineStart }
  | fuel + 1 =>
    let n := plainLength inFlow c.rest
    if c.isAt '#' || n == 0 then { chars := [], after := c, atLineStart }
    else
      let piece := c.rest.take n
      match plainGap (c.advance n) with
      | (.none, c, broken) => { chars := piece, after := c, atLineStart := broken }
      | (.reads gap, c, broken) =>
        let stops := c.isAt '#' || (!inFlow && decide ((c.column : Int) < indent))
        if stops then { chars := piece, after := c, atLineStart := broken }
        else
          let more := plainText inFlow indent fuel broken c
          if more.chars.isEmpty then { more with chars := piece }
          else { more with chars := piece ++ gap ++ more.chars }

/-! ## Block scalars -/

/-- What becomes of the line breaks at the end of a block scalar. -/
inductive Chomping where
  | one
  | none
  | all
deriving DecidableEq, Repr

/-- The header of a block scalar: what becomes of final breaks, and the indentation if it is told. -/
structure BlockHeader where
  chomping : Chomping := .one
  increment? : Option Nat := .none
deriving Repr

def chomping? (c? : Option Char) : Option Chomping :=
  match c? with
  | some '+' => some .all
  | some '-' => some .none
  | _ => .none

/-- The digit at the place; `0` is no indentation. -/
def increment? (c? : Option Char) : Option (Option Nat) :=
  match c? with
  | some ch =>
    if Json.isDigit ch then
      if ch == '0' then .none else some (some (ch.toNat - '0'.toNat))
    else some .none
  | .none => some .none

/-- The header at the place after the mark of a block scalar, and the place of its first line. -/
def blockHeader? (c : Cursor) : Option (BlockHeader × Cursor) := do
  let (header, c) ← (match chomping? c.peek? with
    | some chomping => do
      let digit? ← increment? c.next.peek?
      some ({ chomping, increment? := digit? }, if digit?.isSome then c.advance 2 else c.next)
    | .none => do
      match ← increment? c.peek? with
      | some n =>
        match chomping? c.next.peek? with
        | some chomping => some ({ chomping, increment? := some n }, c.advance 2)
        | .none => some ({ increment? := some n }, c.next)
      | .none => some ({}, c) : Option (BlockHeader × Cursor))
  if isLineEnd c.peek? || c.isAt ' ' then
    return (header, ← c.restOfLine?)
  else .none

/-- The breaks of leading empty lines, the greatest column that their spaces reach, and the place
after them. -/
def leadingBreaks (fuel : Nat) (reached : Nat) (c : Cursor) : List Char × Nat × Cursor :=
  match fuel with
  | 0 => ([], reached, c)
  | fuel + 1 =>
    if c.isAt ' ' then leadingBreaks fuel (max reached (c.column + 1)) c.next
    else
      match c.lineBreak? with
      | .none => ([], reached, c)
      | some (ch, c) =>
        let (more, reached, c) := leadingBreaks fuel reached c
        (ch :: more, reached, c)

/-- The place after the spaces before a column. -/
def indentTo (indent : Nat) (c : Cursor) : Cursor :=
  c.advance (min (indent - c.column) (c.rest.takeWhile (· == ' ')).length)

/-- The breaks of empty lines inside a block scalar, and the place after them. -/
def blockBreaks (indent fuel : Nat) (c : Cursor) : List Char × Cursor :=
  match fuel with
  | 0 => ([], c)
  | fuel + 1 =>
    let c := indentTo indent c
    match c.lineBreak? with
    | .none => ([], c)
    | some (ch, c) =>
      let (more, c) := blockBreaks indent fuel c
      (ch :: more, c)

/-- A blank at the start of a line, which keeps a folded scalar from joining it to others. -/
def startsBlank (c : Cursor) : Bool := c.isAt ' ' || c.isAt '\t'

/-- What stands between two lines of a block scalar. -/
def joint (folded indented : Bool) (lineBreak : List Char) (breaks : List Char) : List Char :=
  if folded && lineBreak == ['\n'] && !indented then (if breaks.isEmpty then [' '] else [])
  else lineBreak

/-- What the line breaks at the end of a block scalar leave. -/
def chomp (chomping : Chomping) (lineBreak breaks : List Char) : List Char :=
  match chomping with
  | .one => lineBreak
  | .none => []
  | .all => lineBreak ++ breaks

/-- The lines of a block scalar, after the given breaks, and the place after them. -/
def blockLines (folded : Bool) (chomping : Chomping) (indent fuel : Nat)
    (breaks : List Char) (c : Cursor) : List Char × Cursor :=
  match fuel with
  | 0 => ([], c)
  | fuel + 1 =>
    let indented := startsBlank c
    let (line, c) := c.span fun ch => !isBreak ch
    let (lineBreak, c) := match c.lineBreak? with
      | some (ch, c) => ([ch], c)
      | .none => ([], c)
    let (following, c) := blockBreaks indent (c.rest.length + 1) c
    if c.column == indent && !c.rest.isEmpty then
      let between := joint folded (indented || startsBlank c) lineBreak following
      let (more, c) := blockLines folded chomping indent fuel following c
      (breaks ++ line ++ between ++ more, c)
    else (breaks ++ line ++ chomp chomping lineBreak following, c)

/-- The block scalar at the place of its mark, inside a block indented by `indent`, and the place
after it. -/
def block? (indent : Int) (c : Cursor) : Option (String × Cursor) := do
  let folded := c.isAt '>'
  let (header, c) ← blockHeader? c.next
  let least := (max (indent + 1) 1).toNat
  let (breaks, indent, c) := match header.increment? with
    | some n =>
      let (breaks, c) := blockBreaks (least + n - 1) (c.rest.length + 1) c
      (breaks, least + n - 1, c)
    | .none =>
      let (breaks, reached, c) := leadingBreaks (c.rest.length + 1) 0 c
      (breaks, max least reached, c)
  if c.column == indent && !c.rest.isEmpty then
    let (cs, c) := blockLines folded header.chomping indent (c.rest.length + 1) breaks c
    return (String.ofList cs, c)
  else return (String.ofList (chomp header.chomping [] breaks), c)

end Stepwise.Yaml
