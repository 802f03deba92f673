-- SUMMARY: The state of one run: variables, inputs, log, step results, stop signal and position.
import Stepwise.Value.Observe
import Stepwise.Value.Display

/-!
# Context

A run carries a `Context`. Steps add to it: lines to the log, results to the history,
bindings to the variables. The first result value set stops the run; a suspension sets
one too and remembers the branch positions at which the run paused.
-/

namespace Stepwise

/-! ## Step results -/

/-- How far a step has come. -/
inductive StepStatus where
  | pending
  | completed
  | failed
deriving DecidableEq, Repr, Inhabited

def StepStatus.name : StepStatus → String
  | .pending => "pending"
  | .completed => "completed"
  | .failed => "failed"

def StepStatus.ofValue (v : Value) : Except Fault StepStatus :=
  match v with
  | .str "pending" => .ok .pending
  | .str "completed" => .ok .completed
  | .str "failed" => .ok .failed
  | _ => do throw (.badValue ((← v.spellDisplay) ++ " is not a valid StepStatus"))

/-- One entry of a run's history: what a step gave, or why it failed. -/
structure StepResult where
  step : Value
  type : Value
  status : StepStatus
  output : Value := .null
  error : Value := .null
deriving DecidableEq, Repr, Inhabited

namespace StepResult

/-- An optional field of a record: left out when `null`. -/
def optionalField (name : String) (v : Value) : List (String × Value) :=
  if v.isNull then [] else [(name, v)]

def toValue (r : StepResult) : Value :=
  .record ([("step", r.step), ("type", r.type), ("status", .str r.status.name)]
    ++ optionalField "output" r.output ++ optionalField "error" r.error)

/-- The result that a record holds. The step may be given as `step` or as `name`. -/
def ofValue (v : Value) : Except Fault StepResult := do
  let d ← v.toRecord "get"
  let status ← StepStatus.ofValue ((d.field? "status").getD (.str "completed"))
  return {
    step := (d.field "step").orElse ((d.field? "name").getD (.str ""))
    type := (d.field? "type").getD (.str "")
    status
    output := d.field "output"
    error := d.field "error" }

/-- The result with its references to the log of the run replaced by the given lines. -/
def settle (log : List Value) (r : StepResult) : StepResult :=
  { r with output := r.output.settle log }

end StepResult

/-! ## Positions -/

/-- One level of a nested position in a run: a branch, and the index of a step in it. -/
structure Frame where
  branch : String
  index : Int
deriving DecidableEq, Repr, Inhabited

def Frame.toDict (f : Frame) : Dict :=
  Dict.ofFields [("branch", .str f.branch), ("index", .int f.index)]

def Frame.toValue (f : Frame) : Value := .dict f.toDict

/-! ## Contexts -/

/-- The name under which the inputs stand in the history. -/
def inputStepName : String := "input"

/-- The state of one run. -/
structure Context where
  inputs : Value := .dict []
  /-- The variables with their values. -/
  bindings : Dict := []
  logs : List Value := []
  results : List StepResult := []
  workflowName : Value := .null
  currentStep : Value := .int 0
  /-- The value that ends the run, once there is one. -/
  result? : Option Value := none
  /-- Whether the run has been suspended; a context that was saved elsewhere may hold any value. -/
  suspended : Value := .bool false
  /-- The branches entered, outermost first, with the index of the step at work in each. -/
  position : List Value := []
  /-- The position at which the run was suspended. -/
  suspendedPath : List Dict := []
  /-- The branches still to be entered again, outermost first. -/
  resumePath : List Dict := []
deriving Repr, Inhabited

namespace Context

/-! ## Making -/

/-- The entry of the history that holds the inputs. -/
def inputResult (inputs : Value) : StepResult :=
  { step := .str inputStepName, type := .str inputStepName, status := .completed, output := inputs }

def seedInput (c : Context) : Context :=
  { c with results := c.results ++ [inputResult c.inputs] }

/-- What a context is made from. Absent parts are `null`. -/
structure Parts where
  inputs : Value := .null
  bindings : Value := .null
  results : Value := .null
  logs : Value := .null
  workflowName : Value := .null
  resumePath : Value := .null
deriving Inhabited

/-- The context made from the given parts. A context without history starts with its inputs. -/
def ofParts (p : Parts) : Except Fault Context := do
  let inputs := if p.inputs.isNull then .dict [] else p.inputs
  let bindings ← p.bindings.dictIfAny
  let logs ← p.logs.itemsIfAny
  let results ← (← p.results.itemsIfAny).mapM StepResult.ofValue
  let resumePath ← (← p.resumePath.itemsIfAny).mapM Value.toDict
  let c : Context := { inputs, bindings, logs, results, workflowName := p.workflowName, resumePath }
  return if results.isEmpty then c.seedInput else c

/-! ## Looking -/

def hasResult (c : Context) : Bool := c.result?.isSome

/-- The value that ended the run, `null` while there is none. -/
def result (c : Context) : Value := c.result?.getD .null

def resultOf? (c : Context) (name : Value) : Option StepResult :=
  c.results.reverse.find? fun r => r.step.same name

/-- The status of a step, pending before its first result. -/
def statusOf (c : Context) (name : Value) : StepStatus :=
  match c.resultOf? name with
  | some r => r.status
  | none => .pending

/-- The value with the log of this run wherever it refers to it. -/
def settle (c : Context) (v : Value) : Value := v.settle c.logs

/-! ## Changing -/

def appendLog (c : Context) (line : Value) : Context := { c with logs := c.logs ++ [line] }

def bindVariable (c : Context) (name : Key) (v : Value) : Context :=
  { c with bindings := c.bindings.insert name v }

def record (c : Context) (r : StepResult) : Context := { c with results := c.results ++ [r] }

def setResult (c : Context) (v : Value) : Context := { c with result? := some v }

/-- Stop the run with a payload for an agent. -/
def halt (c : Context) (payload : Value) : Context :=
  { c with result? := some payload, suspended := .bool true }

/-- Hand control back to an agent with a payload, and note the position. The run is stopped also if
the position holds something that is no dictionary. -/
def suspend (c : Context) (payload : Value) : Except Fault Unit × Context :=
  match c.position.mapM Value.toDict with
  | .ok suspendedPath => (.ok (), { c.halt payload with suspendedPath })
  | .error f => (.error f, c.halt payload)

def atStep (c : Context) (index : Int) : Context := { c with currentStep := .int index }

def enter (c : Context) (frame : Value) : Context := { c with position := c.position ++ [frame] }

def leave (c : Context) : Context := { c with position := c.position.dropLast }

/-- Take the next branch to enter again, if there is one. -/
def popFrame (c : Context) : Option Dict × Context :=
  match c.resumePath with
  | [] => (none, c)
  | frame :: rest => (some frame, { c with resumePath := rest })

/-! ## Saving -/

/-- The fields needed to resume the run later, as data. -/
def snapshotFields (c : Context) : List (String × Value) :=
  [("variables", c.settle (.dict c.bindings)),
   ("step_results", .list (c.results.map fun r => (r.settle c.logs).toValue)),
   ("logs", .list c.logs)]

/-- What is needed to resume the run later, as data. -/
def snapshot (c : Context) : Value := .record c.snapshotFields

def toValue (c : Context) : Value :=
  .record (c.snapshotFields
    ++ [("workflow_name", c.workflowName), ("inputs", c.settle c.inputs),
        ("current_step", c.currentStep), ("suspended", c.suspended)]
    ++ (match c.result? with
        | some v => [("result", c.settle v)]
        | none => []))

/-- The context that a record holds. -/
def ofValue (v : Value) : Except Fault Context := do
  let d ← v.toRecord "get"
  let c ← ofParts {
    inputs := d.field "inputs"
    bindings := d.field "variables"
    results := d.field "step_results"
    logs := d.field "logs"
    workflowName := d.field "workflow_name" }
  return { c with
    currentStep := (d.field? "current_step").getD (.int 0)
    suspended := (d.field? "suspended").getD (.bool false)
    result? := d.field? "result" }

def summary (c : Context) : Except Fault String := do
  return "ExecutionContext(workflow=" ++ (← c.workflowName.spell) ++ ", current_step="
    ++ (← c.currentStep.spell) ++ ", steps=" ++ Binary64.natText c.results.length ++ ")"

/-- The context with its references to the log replaced by the lines of the log. -/
def settled (c : Context) : Context :=
  { c with
    bindings := Value.settleEntries c.logs c.bindings
    results := c.results.map (·.settle c.logs)
    result? := c.result?.map c.settle }

/-! ## What the changes keep -/

@[simp] theorem record_results (c : Context) (r : StepResult) :
    (c.record r).results = c.results ++ [r] := rfl

@[simp] theorem record_bindings (c : Context) (r : StepResult) :
    (c.record r).bindings = c.bindings := rfl

@[simp] theorem record_logs (c : Context) (r : StepResult) : (c.record r).logs = c.logs := rfl

theorem mapM_toDict_dicts (path : List Dict) : (path.map Value.dict).mapM Value.toDict = .ok path := by
  induction path with
  | nil => rfl
  | cons d rest ih => simp [List.mapM_cons, ih]; rfl

theorem mapM_toDict_frames (frames : List Frame) :
    (frames.map Frame.toValue).mapM Value.toDict = .ok (frames.map Frame.toDict) := by
  have h : frames.map Frame.toValue = (frames.map Frame.toDict).map Value.dict := by
    simp [Frame.toValue, Function.comp_def]
  rw [h, mapM_toDict_dicts]

/-- In a position of dictionaries suspending always notes the position. -/
theorem suspend_of_dicts {c : Context} {path : List Dict} (payload : Value)
    (h : c.position = path.map Value.dict) :
    c.suspend payload = (.ok (), { c.halt payload with suspendedPath := path }) := by
  rw [suspend, h, mapM_toDict_dicts]

/-- Among the branches of a run suspending always notes the position. -/
theorem suspend_of_frames {c : Context} {frames : List Frame} (payload : Value)
    (h : c.position = frames.map Frame.toValue) :
    c.suspend payload
      = (.ok (), { c.halt payload with suspendedPath := frames.map Frame.toDict }) := by
  rw [suspend, h, mapM_toDict_frames]

theorem popFrame_nil {c : Context} (h : c.resumePath = []) : c.popFrame = (none, c) := by
  simp [popFrame, h]

end Context

end Stepwise
