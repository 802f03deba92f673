-- SUMMARY: Running steps: actions, branches chosen or entered again, and sequences until a result stops them.
import Stepwise.Run.Action
import Stepwise.Step.Tree
import Stepwise.Template.Condition

/-!
# Running steps

A step runs its action or one of its branches, and its end is recorded. A container
enters a branch in one of two ways: afresh, where the branch is chosen by its condition
or subject and starts at its first step, or again, where the next frame of the resume
path names the branch and the index to start at. Nothing is evaluated again then but
the subject of a switch, which is reported. A sequence ends early once a result has
been set.
-/

namespace Stepwise

variable {σ : Type}

/-! ## Entering branches -/

/-- Where a container enters a branch. -/
structure Entry where
  branch : Value
  start : Value
deriving DecidableEq, Repr

namespace Entry

def afresh (branch : String) : Entry := { branch := .str branch, start := .int 0 }

/-- The entry that a frame of the resume path describes. -/
def ofFrame (frame : Dict) : Except Fault Entry :=
  match frame.field? "branch", frame.field? "index" with
  | some branch, some start => .ok { branch, start }
  | _, _ => .error .missingKey

def index (e : Entry) : Except Fault Int :=
  match e.start with
  | .int n => .ok n
  | .bool b => .ok (if b then 1 else 0)
  | _ => .error .wrongType

end Entry

/-- The next frame to enter again as an entry, or else an entry chosen afresh. -/
def StepM.entry {α : Type} (again : Entry → α) (afresh : StepM σ α) : StepM σ α := do
  let (frame?, c) := (← StepM.context).popFrame
  StepM.change fun _ => c
  match frame? with
  | some frame => return again (← StepM.lift (Entry.ofFrame frame))
  | none => afresh

def conditionalEntry (condition : Value) : StepM σ Entry :=
  StepM.entry id do
    let holds ← StepM.look (Template.evaluateValue · condition)
    return .afresh (if holds then Branch.thenName else Branch.elseName)

def caseChoice? (s : Step) (text? : Option String) : Option Entry :=
  match s with
  | .switch _ _ cases default? =>
    match text?.bind fun text => (Step.caseSteps? cases text).map fun _ => text with
    | some label => some (.afresh (Branch.ofCase label))
    | none => if default?.isSome then some (.afresh Branch.defaultName) else none
  | _ => none

/-- The text by which cases are compared with a switch's subject; `null` has none. -/
def subjectText? (subject : Value) : Except Fault (Option String) :=
  if subject.isNull then .ok none else (Template.format subject).map some

/-- Where a switch enters, if it has a branch to enter. -/
def switchChoice? (s : Step) (subject : Value) : StepM σ (Option Entry) :=
  StepM.entry (fun e => if e.branch.isNull then none else some e) do
    let text? ← StepM.lift (subjectText? (← StepM.settled subject))
    return caseChoice? s text?

/-- The case that a branch stands for, as a switch reports it. -/
def matchedCase (branch : Value) : Value :=
  match branch with
  | .str name => if name = Branch.defaultName then .str "default" else
      .str ((Branch.label? name).getD name)
  | v => v

/-! ## Openings -/

/-- What a container comes to when it is set to work. -/
inductive Opening where
  /-- It runs the steps of a branch from an index on, and then gives an output. -/
  | enter (branch : String) (start : Int) (steps : List Step) (output : Value)
  /-- There is no branch for it to run. -/
  | pass (output : Value)

def Entry.opening (e : Entry) (s : Step) (output : Value) : Except Fault Opening := do
  let steps ← s.branch e.branch
  let start ← e.index
  return .enter e.branch.text start steps output

/-- What a container comes to. An action has nothing to open. -/
def Step.opening (s : Step) : StepM σ Opening :=
  match s with
  | .action .. => pure (.pass .null)
  | .conditional _ condition _ _ => do
    let condition ← s.label.require "condition" condition
    let e ← conditionalEntry condition
    let holds := e.branch == .str Branch.thenName
    StepM.lift (e.opening s (.record [("condition", .bool holds), ("branch", e.branch)]))
  | .switch _ subject _ _ => do
    let subject ← s.label.require "switchValue" subject
    let v ← StepM.filled subject
    match ← switchChoice? s v with
    | none =>
      let _ ← StepM.spelled v
      return .pass (.record [("value", v), ("matched_case", .null)])
    | some e =>
      StepM.lift (e.opening s (.record [("value", v), ("matched_case", matchedCase e.branch)]))

/-- Run a branch of the given length from an index on. The branch is run by `steps`, given how many
of its steps to pass over and the index of the first of them. An index below zero counts from the
end, and the whole branch follows what it leads to. -/
def runPortion (start : Int) (length : Nat) (steps : Nat → Int → RunM σ Unit) : RunM σ Unit :=
  if 0 ≤ start then steps start.toNat 0
  else if start + length < 0 then StepM.lift (.error .badIndex)
  else do
    steps (start + length).toNat (-length)
    RunM.unlessStopped (steps 0 0)

/-- Run what a container has come to, given how its branches are run by name. -/
def Opening.run (o : Opening) (branch : String → Nat → Int → RunM σ Unit) : StepM σ Value :=
  match o with
  | .pass output => pure output
  | .enter name start steps output => do
    runPortion start steps.length (branch name)
    return output

/-! ## Steps -/

mutual

/-- Run a step and record how it ended. -/
def runStep (engine : Engine σ) : Step → RunM σ StepResult
  | .action name act =>
    let s := Step.action name act
    RunM.recorded s (engine.perform s.label act)
  | .conditional name condition thenSteps elseSteps =>
    let s := Step.conditional name condition thenSteps elseSteps
    RunM.recorded s do
      (← s.opening).run fun branch skip index =>
        if branch = Branch.thenName then runFrom engine Branch.thenName skip index thenSteps
        else runFrom engine Branch.elseName skip index elseSteps
  | .switch name subject cases default? =>
    let s := Step.switch name subject cases default?
    RunM.recorded s do
      (← s.opening).run fun branch skip index =>
        if default?.isSome && branch == Branch.defaultName then
          runDefault engine skip index default?
        else runCase engine branch skip index cases

/-- Run the default of a switch, if it has one. -/
def runDefault (engine : Engine σ) (skip : Nat) (index : Int) :
    Option (List Step) → RunM σ Unit
  | some steps => runFrom engine Branch.defaultName skip index steps
  | none => pure ()

def runCase (engine : Engine σ) (branch : String) (skip : Nat) (index : Int) :
    List (String × List Step) → RunM σ Unit
  | [] => pure ()
  | (label, steps) :: rest =>
    if branch = Branch.ofCase label then
      runFrom engine (Branch.ofCase label) skip index steps
    else runCase engine branch skip index rest

/-- Run the steps of a branch, the first of which has the given index, after passing over some. -/
def runFrom (engine : Engine σ) (branch : String) (skip : Nat) (index : Int) :
    List Step → RunM σ Unit
  | [] => pure ()
  | s :: rest =>
    match skip with
    | k + 1 => runFrom engine branch k (index + 1) rest
    | 0 => do
      let _ ← RunM.within { branch, index } (runStep engine s)
      RunM.unlessStopped (runFrom engine branch 0 (index + 1) rest)

end

/-- Run the steps of a workflow, the first of which has the given index. -/
def runAll (engine : Engine σ) (index : Int) : List Step → RunM σ Unit
  | [] => pure ()
  | s :: rest => do
    RunM.change (·.atStep index)
    let _ ← runStep engine s
    RunM.unlessStopped (runAll engine (index + 1) rest)

end Stepwise
