-- SUMMARY: How a run ends: completed, suspended with a payload and a point to resume from, or failed.
import Stepwise.Run.Context
import Stepwise.Error

/-!
# Outcomes

A run ends in one of three ways. A suspended one tells where to resume: after a pausing
step of the workflow itself, or inside the step that contains the pausing one, one
position after it. The payload carries what is needed to resume under `resume`.
-/

namespace Stepwise

/-- How a run ended. -/
inductive Verdict where
  /-- All steps have run, or a step has ended the run with a value. -/
  | completed (value : Value) (returned : Bool)
  /-- A step has handed control to an agent. -/
  | suspended (atStep resumeStep : Int) (resumePath : List Dict) (payload : Value)
  /-- A step has failed. -/
  | failed (error : StepError)
deriving Repr, Inhabited

/-- The end of a run: the verdict, and the context it left. -/
structure Outcome where
  workflowName : Value
  context : Context
  verdict : Verdict
deriving Repr, Inhabited

/-! ## Where to resume -/

/-- The index of the step of the workflow that a run has come to. -/
def Context.stepIndex (c : Context) : Int :=
  match c.currentStep with
  | .int n => n
  | _ => 0

/-- The frame one position later in its branch. -/
def Frame.next (f : Frame) : Frame := { f with index := f.index + 1 }

/-- The entries of a frame one position later in its branch. -/
def nextEntries (frame : Dict) : Dict :=
  match frame.field "index" with
  | .int n => frame.insert (.str "index") (.int (n + 1))
  | _ => frame

theorem nextEntries_toDict (f : Frame) : nextEntries f.toDict = f.next.toDict := by
  simp [nextEntries, Frame.toDict, Frame.next, Dict.ofFields, Dict.field, Dict.field?, Dict.get?,
    Dict.insert]

/-- The position after the innermost step of a path. -/
def nextPosition : List Dict → List Dict
  | [] => []
  | [frame] => [nextEntries frame]
  | frame :: more :: rest => frame :: nextPosition (more :: rest)

namespace Context

/-- The step to resume from: the one that contains the pause, or the one after it. -/
def resumeStep (c : Context) : Int :=
  if c.suspendedPath.isEmpty then c.stepIndex + 1 else c.stepIndex

/-- The branches to enter again inside that step. -/
def resumePoint (c : Context) : List Dict := nextPosition c.suspendedPath

def pathValue (path : List Dict) : Value := .list (path.map .dict)

/-- What is needed to resume a run that has been suspended. -/
def resumeRecord (c : Context) (workflowName : Value) : Value :=
  .record ([("workflow", workflowName), ("start_step", .int c.resumeStep),
    ("path", pathValue c.resumePoint)] ++ c.snapshotFields)

def withResume (c : Context) (workflowName payload : Value) : Value :=
  match payload with
  | .dict entries => .dict (Dict.insert entries (.str "resume") (c.resumeRecord workflowName))
  | v => v

end Context

/-! ## Outcomes -/

namespace Outcome

/-- The outcome of a run that has stopped without an error. -/
def ofContext (workflowName : Value) (c : Context) : Outcome :=
  let c := c.settled
  if c.suspended.truthy then
    let payload := c.withResume workflowName c.result
    { workflowName, context := c.setResult payload
      verdict := .suspended c.stepIndex c.resumeStep c.resumePoint payload }
  else { workflowName, context := c, verdict := .completed c.result c.hasResult }

def ofError (workflowName : Value) (c : Context) (e : StepError) : Outcome :=
  { workflowName, context := c.settled, verdict := .failed e }

/-- The name of a verdict. -/
def status (o : Outcome) : String :=
  match o.verdict with
  | .completed .. => "completed"
  | .suspended .. => "suspended"
  | .failed _ => "failed"

/-- The fields that only one verdict has. -/
def verdictFields (o : Outcome) : List (String × Value) :=
  match o.verdict with
  | .completed value returned => [("result", value), ("returned", .bool returned)]
  | .suspended atStep resumeStep resumePath payload =>
    [("at_step", .int atStep), ("resume_step", .int resumeStep),
      ("resume_path", Context.pathValue resumePath), ("result", payload)]
  | .failed e => [("error", .str e.message), ("failed_step", e.stepName)]

def toValue (o : Outcome) : Value :=
  .record ([("workflow_name", o.workflowName), ("status", .str o.status),
    ("current_step", o.context.currentStep)] ++ o.context.snapshotFields ++ o.verdictFields)

end Outcome

end Stepwise
