-- SUMMARY: Dotted paths and what they address in a run's context.
import Stepwise.Run.Context

/-!
# Paths

A path is a text of segments between points. `steps.<name>` leads into the latest output
of a step, `input` into the inputs, `logs` alone is the log of the run, and any other
first segment names a variable. The remaining segments walk into what was reached, by
key in a dictionary and by position in a sequence. A segment that addresses nothing
leads to `null`.
-/

namespace Stepwise.Template

/-! ## Segments -/

/-- The pieces of a text between points, given the characters of the current piece in reverse. -/
def splitPoints (current : List Char) : List Char → List (List Char)
  | [] => [current.reverse]
  | c :: rest =>
    if c = '.' then current.reverse :: splitPoints [] rest else splitPoints (c :: current) rest

/-- The segments of a path. There is at least one. -/
def segments (path : String) : List String := (splitPoints [] path.toList).map String.ofList

/-- The segment has the form of a position: digits, possibly after minus signs. -/
def isPosition (segment : String) : Bool :=
  let digits := segment.toList.dropWhile (· == '-')
  !digits.isEmpty && digits.all Text.isDigit

/-- The item at a position; a negative one counts from the end. -/
def itemAt? (items : List Value) (position : Int) : Option Value :=
  let position := if position < 0 then position + items.length else position
  if position < 0 then none else items[position.toNat]?

/-- The item of a sequence that a segment addresses. A segment in the form of a position that spells
no integer is a fault. -/
def itemAtSegment (items : List Value) (segment : String) : Except Fault Value :=
  if isPosition segment then do
    return (itemAt? items (← Numeral.toInt segment)).getD .null
  else .ok .null

/-- What one segment addresses in a value. -/
def child (log : List Value) (v : Value) (segment : String) : Except Fault Value :=
  match v with
  | .dict entries => .ok ((Dict.field? entries segment).getD .null)
  | .list items | .tuple items => itemAtSegment items segment
  | .runLog => itemAtSegment log segment
  | _ => .ok .null

/-- What the segments address, one after the other. -/
def walk (log : List Value) (v : Value) : List String → Except Fault Value
  | [] => .ok v
  | segment :: rest => do walk log (← child log v segment) rest

/-! ## Paths -/

/-- What a path addresses in a context. -/
def resolve (c : Context) (path : String) : Except Fault Value :=
  match segments path with
  | "steps" :: name :: rest =>
    match c.resultOf? (.str name) with
    | some r => walk c.logs r.output rest
    | none => .ok .null
  | "input" :: rest => walk c.logs c.inputs rest
  | first :: rest =>
    if path = "logs" then .ok .runLog
    else walk c.logs (c.bindings.field first) rest
  | [] => .ok .null

/-! ## Walking -/

theorem child_null (log : List Value) (segment : String) : child log .null segment = .ok .null := rfl

theorem walk_nil (log : List Value) (v : Value) : walk log v [] = .ok v := rfl

theorem walk_cons (log : List Value) (v : Value) (segment : String) (rest : List String) :
    walk log v (segment :: rest) = (child log v segment).bind (walk log · rest) := rfl

/-- Nothing lies below `null`. -/
theorem walk_null (log : List Value) (rest : List String) : walk log .null rest = .ok .null := by
  induction rest with
  | nil => rfl
  | cons segment rest ih => simp [walk_cons, child_null, Except.bind, ih]

theorem splitPoints_ne_nil (current cs : List Char) : splitPoints current cs ≠ [] := by
  induction cs generalizing current with
  | nil => simp [splitPoints]
  | cons c rest ih =>
    unfold splitPoints
    split
    · simp
    · exact ih _

theorem segments_ne_nil (path : String) : segments path ≠ [] := by
  simp [segments, splitPoints_ne_nil]

end Stepwise.Template
