-- SUMMARY: The static check that every reference to a step names a step defined before.
import Stepwise.Workflow.Basic
import Stepwise.Template.Fill
import Stepwise.Run.Context

/-!
# Step references

An expression `steps.<name>.…` refers to a step. Before a run every such reference in
the fields of a step must name the inputs or a step earlier in document order, where a
container counts as earlier only for what follows it. Log messages are free text and are
not checked.
-/

namespace Stepwise

/-! ## Fields that may refer to steps -/

/-- The fields of an action that may refer to steps. -/
def Action.referenceFields : Action → List Value
  | .log _ => []
  | .setVariable _ value? => value?.toList
  | .callTool _ parameters _ => [parameters]
  | .callFunction _ parameters _ => [parameters]
  | .finish value? => value?.toList
  | .createObject template properties instructions _ =>
    [template, properties, .list instructions]
  | .loadObject template _ instructions => [template, .list instructions]
  | .agent instructions _ _ => [.list instructions]
  | .loadState key default _ => [key, default]
  | .saveState key value? => key :: value?.toList

/-- The fields of a step itself, not of the steps nested in it, that may refer to steps. -/
def Step.referenceFields : Step → List Value
  | .action _ act => act.referenceFields
  | .conditional _ condition _ _ => [condition]
  | .switch _ subject _ _ => [subject]

namespace Workflow

/-- A character of a step name inside an expression. -/
def isNameChar (c : Char) : Bool := c != '.' && !Text.isBlank c

/-- The step that an expression refers to, if it has the form of a reference. -/
def referencedStep? (expression : String) : Option String :=
  let mark := "steps.".toList
  let cs := expression.toList
  if mark.isPrefixOf cs then
    let rest := cs.drop mark.length
    match rest.takeWhile isNameChar, rest.dropWhile isNameChar with
    | c :: name, '.' :: _ => some (String.ofList (c :: name))
    | _, _ => none
  else none

/-- The steps that a step's own fields refer to, in order. -/
def referencedSteps (s : Step) : List String :=
  (Template.referencesAll s.referenceFields).filterMap referencedStep?

/-- The first of some references that names nothing available is an error. -/
def checkReferences (name : Value) (available : List Key) : List String → Except Error Unit
  | [] => .ok ()
  | reference :: rest =>
    if available.any (Key.str reference).same then checkReferences name available rest
    else .error (Error.spelled (.unknownReference name reference))

/-- A step's name made available to the steps that follow it. -/
def makeAvailable (name : Value) (available : List Key) : Except Error (List Key) :=
  match name.toKey? with
  | some k => .ok (k :: available)
  | none => .error (.fault .wrongType)

mutual

/-- Check a step, its own fields first and then the steps nested in it. Gives what is available
after it. -/
def checkStep (available : List Key) : Step → Except Error (List Key)
  | .action name act => do
    checkReferences name available (referencedSteps (.action name act))
    makeAvailable name available
  | .conditional name condition thenSteps elseSteps => do
    checkReferences name available
      (referencedSteps (.conditional name condition thenSteps elseSteps))
    let available ← checkSequence available thenSteps
    let available ← checkSequence available elseSteps
    makeAvailable name available
  | .switch name subject cases none => do
    checkReferences name available (referencedSteps (.switch name subject cases none))
    let available ← checkCases available cases
    makeAvailable name available
  | .switch name subject cases (some steps) => do
    checkReferences name available (referencedSteps (.switch name subject cases (some steps)))
    let available ← checkCases available cases
    let available ← checkSequence available steps
    makeAvailable name available

def checkSequence (available : List Key) : List Step → Except Error (List Key)
  | [] => .ok available
  | s :: ss => do checkSequence (← checkStep available s) ss

def checkCases (available : List Key) : List (String × List Step) → Except Error (List Key)
  | [] => .ok available
  | (_, steps) :: rest => do checkCases (← checkSequence available steps) rest

end

/-- Every step reference of the workflow names a step defined before. -/
def requireReferences (w : Workflow) : Except Error Unit := do
  let _ ← checkSequence [.str inputStepName] w.steps
  return ()

end Workflow

end Stepwise
