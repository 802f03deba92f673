-- SUMMARY: Runs: the checks before the first step, a fresh or resumed run, and resuming from a payload.
import Stepwise.Run.Branching
import Stepwise.Run.Outcome
import Stepwise.Workflow.Wellformed
import Stepwise.Workflow.References
import Stepwise.Input.Admission

/-!
# Runs

A run is prepared first: the workflow, the inputs, the references between steps and the
point to start from are checked, and the context is made. Whatever is wrong is found
then, before any step has run and before the world outside has been asked anything.
After that a run has an outcome, unless it comes to a step whose name cannot be written
out. The world outside is given back in every case.
-/

namespace Stepwise

variable {σ : Type}

/-! ## Requests -/

/-- What a run is asked to start from. Absent parts are `null`. -/
structure Request where
  inputs : Value := .null
  startStep : Value := .int 0
  bindings : Value := .null
  results : Value := .null
  logs : Value := .null
  resumePath : Value := .null
deriving Inhabited

/-! ## Starting points -/

namespace Workflow

def size (w : Workflow) : Int := w.steps.length

/-- The fault of a step to start from that the workflow does not have. -/
def startOutOfRange (w : Workflow) (start : Value) : Fault :=
  if !w.name.isSpellable then unspellable
  else .badValue ("start_step " ++ start.text ++ " out of range for workflow '" ++ w.name.text
    ++ "' with " ++ Binary64.intText w.size ++ " steps")

/-- The step to start from is a number between zero and the number of steps. -/
def requireStart (w : Workflow) (start : Value) : Except Fault Unit :=
  match start.number? with
  | none => .error .wrongType
  | some n =>
    let within := (n.same (.int 0) || Number.less (.int 0) n)
      && (n.same (.int w.size) || n.less (.int w.size))
    if within then .ok () else .error (w.startOutOfRange start)

def startIndex (start : Value) : Except Fault Int :=
  match start with
  | .int n => .ok n
  | .bool b => .ok (if b then 1 else 0)
  | _ => .error .wrongType

end Workflow

/-! ## Resume paths -/

namespace ResumePath

/-- A value read as an integer: integers, truth values, floats without their fraction, and texts that
spell an integer. -/
def toInt (v : Value) : Except Fault Int :=
  match v with
  | .int n => .ok n
  | .bool b => .ok (if b then 1 else 0)
  | .float (.nan _) => .error (.badValue "cannot convert float NaN to integer")
  | .float x =>
    match x.toInt? with
    | some n => .ok n
    | none => .error (.overflow "cannot convert float infinity to integer")
  | .str s => Numeral.toInt s
  | _ => .error .wrongType

def field (frame : Value) (name : String) : Except Fault Value :=
  match frame with
  | .dict entries =>
    match Dict.field? entries name with
    | some v => .ok v
    | none => .error .missingKey
  | _ => .error .wrongType

/-- The branch of a step that a frame names, its steps, and the index in them. -/
def enter (container : Step) (frame : Value) : Except Fault (Value × List Step × Int) := do
  let branch ← field frame "branch"
  let steps ← container.branch branch
  let index ← toInt (← field frame "index")
  return (branch, steps, index)

/-- A frame that is none is reported as a whole. -/
def malformed (frame : Value) (f : Fault) : Fault :=
  match f.kind with
  | .attribute | .key | .type => .badValue ("Malformed resume_path frame " ++ frame.display)
  | _ => f

/-- The fault of an index that its branch does not have. -/
def indexOutOfRange (container : Step) (branch : Value) (index : Int) : Fault :=
  if !container.name.isSpellable then unspellable
  else .badValue ("resume_path index " ++ Binary64.intText index ++ " out of range for branch '"
    ++ branch.text ++ "' of step '" ++ container.name.text ++ "'")

/-- The fault of a path that goes on where a branch has ended. -/
def pastEnd (branch : Value) : Fault :=
  .badValue ("resume_path continues past the end of branch '" ++ branch.text ++ "'")

/-- Check frames against the step that the first of them enters: each names a branch and an index in
it, and each but the last leads to a step. -/
def check (container : Step) : List Value → Except Fault Unit
  | [] => .ok ()
  | frame :: rest => do
    let (branch, steps, index) ← (enter container frame).mapError (malformed frame)
    if index < 0 ∨ steps.length < index then throw (indexOutOfRange container branch index)
    match rest, steps[index.toNat]? with
    | [], _ => return ()
    | _, some next => check next rest
    | _, none => throw (pastEnd branch)

end ResumePath

/-- The resume path fits the workflow and the step to start from. -/
def Workflow.requirePath (w : Workflow) (start path : Value) : Except Fault Unit := do
  if !path.truthy then return ()
  let atEnd := match start.number? with
    | some n => !n.less (.int w.size)
    | none => true
  if atEnd then
    throw (.badValue ("resume_path given but start_step " ++ start.text ++ " is past the last step"))
  let index ← Workflow.startIndex start
  match w.steps[index.toNat]? with
  | some container => ResumePath.check container (← path.items)
  | none => throw .badIndex

/-! ## Running -/

/-- The context that a run starts with and the index of its first step, if everything is in order. -/
def prepare (w : Workflow) (r : Request) : Except Error (Int × Context) := do
  w.requireWellformed
  let inputs ← Input.accept w.inputs (← (r.inputs.dictIfAny : Except Fault Dict))
  w.requireReferences
  (w.requireStart r.startStep : Except Fault Unit)
  (w.requirePath r.startStep r.resumePath : Except Fault Unit)
  let c ← (Context.ofParts {
    inputs := .dict inputs
    bindings := r.bindings
    results := r.results
    logs := r.logs
    workflowName := w.name
    resumePath := r.resumePath } : Except Fault Context)
  let _ ← (w.name.spell : Except Fault String)
  let start ← (Workflow.startIndex r.startStep : Except Fault Int)
  return (start, c)

/-- Run the steps of a workflow from an index on. -/
def execute (engine : Engine σ) (w : Workflow) (start : Int) (s : Situation σ) :
    Except Error Outcome × σ :=
  match runAll engine start (w.steps.drop start.toNat) s with
  | (.ok (), s) => (.ok (Outcome.ofContext w.name s.context), s.outside)
  | (.error (.step e), s) => (.ok (Outcome.ofError w.name s.context e), s.outside)
  | (.error (.fault f), s) => (.error (.fault f), s.outside)
  | (.error (.mute kind _), s) => (.error (.mute kind), s.outside)

def run (engine : Engine σ) (w : Workflow) (r : Request) (outside : σ) :
    Except Error Outcome × σ :=
  match prepare w r with
  | .ok (start, context) => execute engine w start { context, outside }
  | .error e => (.error e, outside)

/-! ## Resuming from a payload -/

/-- The request that the resume information of a payload stands for. -/
def Request.ofPayload (w : Workflow) (payload inputs : Value) : Except Fault Request := do
  let resume := (← payload.toRecord "get").field "resume"
  if !resume.truthy then throw (.badValue "Payload has no resume information")
  let d ← resume.toRecord "get"
  let name := d.field "workflow"
  if !(name.isNull || name.isMatch w.name) then
    throw (.badValue ("Workflow mismatch: payload is for '" ++ (← name.spell)
      ++ "', but trying to resume '" ++ (← w.name.spell) ++ "'"))
  match d.field? "start_step" with
  | none => throw .missingKey
  | some startStep =>
    return {
      inputs, startStep
      bindings := d.field "variables"
      results := d.field "step_results"
      logs := d.field "logs"
      resumePath := d.field "path" }

def resume (engine : Engine σ) (w : Workflow) (payload inputs : Value) (outside : σ) :
    Except Error Outcome × σ :=
  match Request.ofPayload w payload inputs with
  | .ok r => run engine w r outside
  | .error f => (.error (.fault f), outside)

theorem run_of_error {engine : Engine σ} {w : Workflow} {r : Request} {outside : σ} {e : Error}
    (h : prepare w r = .error e) : run engine w r outside = (.error e, outside) := by
  simp [run, h]

end Stepwise
