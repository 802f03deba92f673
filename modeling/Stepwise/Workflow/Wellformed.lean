-- SUMMARY: The well-formedness of workflows: names present, distinct and unreserved, input types known.
import Stepwise.Workflow.Basic
import Stepwise.Run.Context

/-!
# Well-formed workflows

A workflow is well formed if it has a name, every step at every depth has a name, no two
steps share one, none is called like the entry of the inputs in the history, and every
declared input has one of the five input types. Every violation is reported.
-/

namespace Stepwise.Workflow

def inputTypes : List String := ["string", "number", "boolean", "array", "object"]

/-- The names that occur more than once, in the order of their second occurrence; names that count
as false are passed over. -/
def duplicates (seen : List Key) (found : List Key) : List Key → List Key
  | [] => found
  | k :: ks =>
    if k.toValue.truthy && seen.any k.same && !found.any k.same then
      duplicates (k :: seen) (found ++ [k]) ks
    else duplicates (k :: seen) found ks

/-- The texts of string keys; other keys cannot be listed. -/
def listNames (keys : List Key) : Except Fault String := do
  let names ← keys.mapM fun k => match k.str? with
    | some s => .ok s
    | none => .error .wrongType
  return ", ".intercalate names

def inputTypeMessage (name : Key) (type : Value) : Except Fault String := do
  return "Input '" ++ (← name.spell) ++ "' has invalid type '" ++ (← type.spell)
    ++ "'. Must be one of: " ++ ", ".intercalate inputTypes

/-- The messages about the declared inputs of unknown type. -/
def inputTypeErrors (inputs : InputSchema) : Except Fault (List String) :=
  (inputs.parameters.filter fun e => !e.2.type.memberOf (inputTypes.map .str)).mapM
    fun e => inputTypeMessage e.1 e.2.type

/-- What is wrong with the workflow, in order. Names that cannot be keys are a fault. -/
def errors (w : Workflow) : Except Fault (List String) := do
  let keys ← w.names.mapM Value.toKey
  let doubled := duplicates [] [] keys
  let doubledErrors ← if doubled.isEmpty then .ok [] else
    (listNames doubled).map fun names => ["Duplicate step names found: " ++ names]
  let typeErrors ← inputTypeErrors w.inputs
  return (if w.name.truthy then [] else ["Workflow must have a name"])
    ++ (if w.names.all Value.truthy then [] else ["Every step must have a name"])
    ++ doubledErrors
    ++ (if keys.any (Key.str inputStepName).same then ["Step name 'input' is reserved"] else [])
    ++ typeErrors

/-- Accept a well-formed workflow and refuse any other. -/
def requireWellformed (w : Workflow) : Except Error Unit := do
  let errors ← (w.errors : Except Fault (List String))
  if errors.isEmpty then return () else throw (.invalidWorkflow errors)

end Stepwise.Workflow
