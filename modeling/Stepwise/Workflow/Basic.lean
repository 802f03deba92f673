-- SUMMARY: Workflow definitions, read from data and written as data.
import Stepwise.Step.Reading
import Stepwise.Step.Tree
import Stepwise.Input.Schema
import Stepwise.Json.Reader

/-!
# Workflows

A workflow has a name, a description, an input schema and a sequence of steps, which is
the order in which they run.
-/

namespace Stepwise

/-- A workflow definition. -/
structure Workflow where
  name : Value
  description : Value := .str ""
  inputs : InputSchema := {}
  steps : List Step := []
deriving DecidableEq, Repr, Inhabited

namespace Workflow

/-! ## Reading -/

def inputFields : List String := ["input_schema", "inputSchema", "inputs"]

def holdsAny (v : Value) : List String → Except Fault Bool
  | [] => .ok false
  | name :: names => do if ← v.holds name then return true else holdsAny v names

/-- The fault of a value that is no dictionary and so describes no workflow. -/
def notWorkflow (v : Value) : Fault :=
  match holdsAny v inputFields with
  | .ok false => .noField v.typeName "get"
  | _ => .wrongType

/-- The input schema of a workflow; a text is JSON. -/
def readInputs (v : Value) : Except Fault InputSchema :=
  match v with
  | .str s => do InputSchema.ofValue (← Json.read s)
  | v => InputSchema.ofValue v

def ofDict (d : Dict) : Except Error Workflow := do
  let inputs ← (readInputs (d.pick inputFields) : Except Fault InputSchema)
  let steps ← Step.stepsOf (d.field "steps")
  return {
    name := (d.field? "name").getD (.str "")
    description := (d.field? "description").getD (.str "")
    inputs
    steps }

def ofValue (v : Value) : Except Error Workflow :=
  match v with
  | .dict d => ofDict d
  | v => .error (.fault (notWorkflow v))

/-! ## Writing -/

def toValue (w : Workflow) : Value :=
  .record [("name", w.name), ("description", w.description),
    ("input_schema", w.inputs.toValue), ("steps", .list (Step.toValues w.steps))]

def summary (w : Workflow) : Except Fault String := do
  return "WorkflowDefinition(name='" ++ (← w.name.spell) ++ "', steps="
    ++ Binary64.natText w.steps.length ++ ")"

/-! ## Steps -/

/-- The names of all steps, in document order. -/
def names (w : Workflow) : List Value := Step.namesOf w.steps

/-- The first step of a name, at any depth. -/
def find? (w : Workflow) (name : Value) : Option Step := Step.findIn? name w.steps

/-- The workflows agree in everything they define, where steps agree if they are written as the same
data. -/
def same (w x : Workflow) : Bool :=
  w.name.isMatch x.name && w.description.isMatch x.description && w.inputs.same x.inputs
    && Value.sameList (Step.toValues w.steps) (Step.toValues x.steps)

/-- Writing a workflow and reading it again gives the same workflow. -/
def rereadsEqual (w : Workflow) : Except Error Bool := do
  return (← ofValue w.toValue).same w

def branch (w : Workflow) (name branch : Value) : Except Fault (List Step) :=
  match w.find? name with
  | some s => s.branch branch
  | none => .error (.noField Value.null.typeName "branch_steps")

end Workflow

end Stepwise
