-- SUMMARY: The tokens of a YAML text, with block structure made explicit from indentation.
import Stepwise.Yaml.Unquoted

/-!
# YAML tokens

A text becomes a list of tokens in which the starts and ends of block collections are
explicit. A block starts where an entry or a key stands further to the right than the
block around it, and ends where a line starts further to the left. A node that may turn
out to be a key is remembered until a colon after it on the same line makes it one. Where
the text cannot be read any further, the tokens that are settled before are kept: those
that no later colon can come in front of.
-/

namespace Stepwise.Yaml

/-- A token. -/
inductive Token where
  | directive (isVersion : Bool)
  | documentStart
  | documentEnd
  | sequenceStart
  | mappingStart
  | blockEnd
  | flowSequenceStart
  | flowSequenceEnd
  | flowMappingStart
  | flowMappingEnd
  | blockEntry
  | flowEntry
  | key
  | value
  | scalar (text : String) (plain : Bool)
deriving DecidableEq, Repr, Inhabited

/-! ## Layout -/

/-- A node that may turn out to be a key: its place, and the number of tokens before it. -/
structure PossibleKey where
  position : Nat
  /-- Nothing else can stand here. -/
  required : Bool
  place : Cursor
deriving Repr

/-- The state of reading tokens. -/
structure Layout where
  place : Cursor
  tokens : List Token := []
  /-- The column of the innermost block, and those of the blocks around it. -/
  indent : Int := -1
  outer : List Int := []
  /-- The possible key of the innermost collection, and those of the collections around it. -/
  key? : Option PossibleKey := none
  outerKeys : List (Option PossibleKey) := []
  /-- A key may stand at the place. -/
  allowsKey : Bool := true
deriving Repr

namespace Layout

/-- The place is inside a flow collection. -/
def inFlow (l : Layout) : Bool := !l.outerKeys.isEmpty

def emit (l : Layout) (t : Token) : Layout := { l with tokens := l.tokens ++ [t] }

def emitAt (l : Layout) (position : Nat) (t : Token) : Layout :=
  { l with tokens := l.tokens.take position ++ t :: l.tokens.drop position }

def skip (l : Layout) (n : Nat) : Layout := { l with place := l.place.advance n }

/-! ## Blocks -/

/-- End the blocks that stand to the right of a column, from the innermost outwards. -/
def endBlocks (column : Int) (indent : Int) (tokens : List Token) :
    List Int → Int × List Int × List Token
  | [] => (indent, [], tokens)
  | around :: rest =>
    if column < indent then endBlocks column around (tokens ++ [.blockEnd]) rest
    else (indent, around :: rest, tokens)

/-- End the blocks that stand to the right of a column. Flow collections have no columns. -/
def unwind (l : Layout) (column : Int) : Layout :=
  if l.inFlow then l
  else
    let (indent, outer, tokens) := endBlocks column l.indent l.tokens l.outer
    { l with indent, outer, tokens }

/-- The column starts a block inside the innermost one. -/
def isDeeper (l : Layout) (column : Nat) : Bool := decide (l.indent < column)

def startBlock (l : Layout) (column : Nat) : Layout :=
  { l with indent := column, outer := l.indent :: l.outer }

/-! ## Possible keys -/

/-- The greatest distance between a key and its colon. -/
def keyLength : Nat := 1024

/-- A possible key that can still become one. A required one that cannot is an error. -/
def stillPossible? (place : Cursor) (key? : Option PossibleKey) : Option (Option PossibleKey) :=
  match key? with
  | none => some none
  | some key =>
    if key.place.line != place.line || keyLength < place.index - key.place.index then
      if key.required then none else some none
    else some (some key)

def forgetPassed? (l : Layout) : Option Layout := do
  let key? ← stillPossible? l.place l.key?
  let outerKeys ← l.outerKeys.mapM (stillPossible? l.place)
  return { l with key?, outerKeys }

/-- Forget the possible key of the innermost collection, which must not have been required. -/
def forgetKey? (l : Layout) : Option Layout :=
  match l.key? with
  | some key => if key.required then none else some { l with key? := none }
  | none => some l

/-- Remember that the node at the place may turn out to be a key. -/
def noteKey? (l : Layout) : Option Layout :=
  if l.allowsKey then do
    let required := !l.inFlow && l.indent == (l.place.column : Int)
    let l ← l.forgetKey?
    return { l with key? := some { position := l.tokens.length, required, place := l.place } }
  else some l

/-! ## Single tokens -/

def marker? (l : Layout) (t : Token) : Option Layout := do
  let l ← (l.unwind (-1)).forgetKey?
  return ({ l with allowsKey := false }.skip 3).emit t

def openFlow? (l : Layout) (t : Token) : Option Layout := do
  let l ← l.noteKey?
  return ({ l with key? := none, outerKeys := l.key? :: l.outerKeys, allowsKey := true }.skip 1).emit t

def closeFlow? (l : Layout) (t : Token) : Option Layout := do
  let l ← l.forgetKey?
  match l.outerKeys with
  | key? :: outerKeys => return ({ l with key?, outerKeys, allowsKey := false }.skip 1).emit t
  | [] => none

/-- A comma inside a flow collection. -/
def flowEntry? (l : Layout) : Option Layout := do
  let l ← l.forgetKey?
  return ({ l with allowsKey := true }.skip 1).emit .flowEntry

def blockEntry? (l : Layout) : Option Layout := do
  let l ← if l.inFlow then some l
    else if !l.allowsKey then none
    else if l.isDeeper l.place.column then some ((l.startBlock l.place.column).emit .sequenceStart)
    else some l
  let l ← l.forgetKey?
  return ({ l with allowsKey := true }.skip 1).emit .blockEntry

def explicitKey? (l : Layout) : Option Layout := do
  let l ← if l.inFlow then some l
    else if !l.allowsKey then none
    else if l.isDeeper l.place.column then some ((l.startBlock l.place.column).emit .mappingStart)
    else some l
  let l ← l.forgetKey?
  return ({ l with allowsKey := !l.inFlow }.skip 1).emit .key

/-- The colon before a value. It makes the possible key a key, or stands without one. -/
def value? (l : Layout) : Option Layout :=
  match l.key? with
  | some key =>
    let l := { l with key? := none, allowsKey := false }.emitAt key.position .key
    let l := if !l.inFlow && l.isDeeper key.place.column then
        (l.startBlock key.place.column).emitAt key.position .mappingStart
      else l
    some ((l.skip 1).emit .value)
  | none =>
    if !l.inFlow && !l.allowsKey then none
    else
      let l := if !l.inFlow && l.isDeeper l.place.column then
          (l.startBlock l.place.column).emit .mappingStart
        else l
      some (({ l with allowsKey := !l.inFlow }.skip 1).emit .value)

def blockScalar? (l : Layout) : Option Layout := do
  let l ← l.forgetKey?
  let (text, place) ← block? l.indent l.place
  return { l with place, allowsKey := true }.emit (.scalar text false)

def quotedScalar (l : Layout) : Except Fault Layout := do
  let l ← expect l.noteKey?
  let (text, place) ← quoted l.place
  return { l with place, allowsKey := false }.emit (.scalar text false)

def plainScalar? (l : Layout) : Option Layout := do
  let l ← l.noteKey?
  let text := plainText l.inFlow (l.indent + 1) (l.place.rest.length + 1) false l.place
  return { l with place := text.after, allowsKey := text.atLineStart }.emit
    (.scalar (String.ofList text.chars) true)

/-! ## Directives -/

def isDirectiveChar (c : Char) : Bool :=
  ('0' ≤ c && c ≤ '9') || ('A' ≤ c && c ≤ 'Z') || ('a' ≤ c && c ≤ 'z') || c == '-' || c == '_'

/-- The rest of a version directive, which must tell version one. -/
def version (c : Cursor) : Except Fault Cursor := do
  let (major, c) := c.skipSpaces.span Json.isDigit
  if major.isEmpty then throw malformed
  let major ← Json.integerOf false major
  if !c.isAt '.' then throw malformed
  let (minor, c) := c.next.span Json.isDigit
  if minor.isEmpty then throw malformed
  let _ ← Json.integerOf false minor
  if major == 1 && (isLineEnd c.peek? || c.isAt ' ') then expect c.restOfLine? else throw malformed

/-- A directive. Those that are not about the version have no effect. -/
def directive (l : Layout) : Except Fault Layout := do
  let l ← expect (l.unwind (-1)).forgetKey?
  let (name, c) := l.place.next.span isDirectiveChar
  if name.isEmpty || !(isLineEnd c.peek? || c.isAt ' ') then throw malformed
  else
    let isVersion := String.ofList name == "YAML"
    let place ← if isVersion then version c
      else expect (c.span fun ch => !isBreak ch).2.restOfLine?
    return { l with place, allowsKey := false }.emit (.directive isVersion)

/-! ## The next token -/

/-- The place of the next token, after blank lines and comments. -/
def toNext (fuel : Nat) (l : Layout) : Layout :=
  match fuel with
  | 0 => l
  | fuel + 1 =>
    let place := l.place.skipSpaces.skipComment
    match place.lineBreak? with
    | some (_, place) => toNext fuel { l with place, allowsKey := l.allowsKey || !l.inFlow }
    | none => { l with place }

def startsPlain (l : Layout) (ch : Char) : Bool :=
  let indicators := "-?:,[]\x7b\x7d#&*!|>'\"%@\x60".toList
  !(isGap (some ch) || indicators.contains ch)
    || (!isGap (l.place.ahead? 1) && (ch == '-' || (!l.inFlow && (ch == '?' || ch == ':'))))

/-- Add the token that starts with the given character at the place. -/
def token (l : Layout) (ch : Char) : Except Fault Layout :=
  let c := l.place
  let standsAlone := isGap (c.ahead? 1)
  if ch == '%' && c.column == 0 then l.directive
  else if c.column == 0 && c.isMarker '-' then expect (l.marker? .documentStart)
  else if c.column == 0 && c.isMarker '.' then expect (l.marker? .documentEnd)
  else if ch == '[' then expect (l.openFlow? .flowSequenceStart)
  else if ch == '\x7b' then expect (l.openFlow? .flowMappingStart)
  else if ch == ']' then expect (l.closeFlow? .flowSequenceEnd)
  else if ch == '\x7d' then expect (l.closeFlow? .flowMappingEnd)
  else if ch == ',' then expect l.flowEntry?
  else if ch == '-' && standsAlone then expect l.blockEntry?
  else if ch == '?' && (l.inFlow || standsAlone) then expect l.explicitKey?
  else if ch == ':' && (l.inFlow || standsAlone) then expect l.value?
  else if (ch == '|' || ch == '>') && !l.inFlow then expect l.blockScalar?
  else if ch == '\'' || ch == '"' then l.quotedScalar
  else if l.startsPlain ch then expect l.plainScalar?
  else .error malformed

/-- The tokens that no later token can come in front of: those before every possible key. -/
def settled (l : Layout) : List Token :=
  match l.forgetPassed? with
  | none => l.tokens
  | some l =>
    let keys := (l.key? :: l.outerKeys).filterMap id
    l.tokens.take (keys.foldl (fun least key => min least key.position) l.tokens.length)

/-- Add the next token, or end the text where nothing follows. Which of the two was done is told by the
truth value: it is true if the text has ended. -/
def next (l : Layout) : Except Fault (Bool × Layout) := do
  let l ← expect (l.toNext (l.place.rest.length + 1)).forgetPassed?
  let l := l.unwind l.place.column
  match l.place.peek? with
  | none => return (true, ← expect (l.unwind (-1)).forgetKey?)
  | some ch => return (false, ← l.token ch)

end Layout

/-- Why the tokens of a text could not all be read, and those that are settled before. -/
structure Interruption where
  fault : Fault
  settled : List Token
deriving Repr

/-- Read all tokens. Anchors, aliases and tags are not part of the language. -/
def Layout.readAll (fuel : Nat) (l : Layout) : Except Interruption (List Token) :=
  match fuel with
  | 0 => .error { fault := malformed, settled := [] }
  | fuel + 1 =>
    match l.next with
    | .error fault => .error { fault, settled := l.settled }
    | .ok (true, l) => .ok l.tokens
    | .ok (false, l) => readAll fuel l

/-- The tokens of a text, if it is well laid out. -/
def tokens (s : String) : Except Interruption (List Token) :=
  if s.toList.all fun c => Text.inRanges allowedRanges c.toNat then
    let start : Cursor := { rest := s.toList }
    let place := if start.isAt byteOrderMark then start.next else start
    Layout.readAll (s.length + 2) { place }
  else .error { fault := malformed, settled := [] }

end Stepwise.Yaml
