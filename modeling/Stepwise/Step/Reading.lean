-- SUMMARY: Reading step definitions from data, and writing them as data.
import Stepwise.Step.Basic
import Stepwise.Error

/-!
# Reading and writing steps

A step is written as a dictionary with a `type` that names its kind. Fields come in
snake case or in camel case; the first spelling that is present counts. Writing gives
the snake-case form, in which absent values stay absent.
-/

namespace Stepwise

/-! ## Actions -/

namespace ActionKind

/-- The spellings of the field that names the variable for a result. -/
def targetFields : List String := ["result_variable", "resultVariable"]

def templateFields : List String := ["template_id", "templateId"]

def stateKeyFields : List String := ["key", "state_key", "stateKey"]

/-- The property mappings of a `create_object` step: a list of keys leaves all of them open. -/
def readProperties (v : Value) : Except Fault Value :=
  match v with
  | .list keys => do
    let keys ← keys.mapM Value.toKey
    return .dict (Dict.ofEntries (keys.map fun k => (k, .null)))
  | v => .ok (v.orElse (.dict []))

/-- The property keys of a `load_object` step; `null` stands for all of them. -/
def readKeys (v : Value) : Except Fault (Option (List Value)) :=
  if v.isNull then .ok none else v.items.map some

/-- The instructions of an agent; a single text is one instruction. -/
def readInstructions (v : Value) : Except Fault (List Value) :=
  match v with
  | .str s => .ok (if s = "" then [] else [v])
  | v => v.itemsIfAny

/-- The action of a kind that a dictionary describes. -/
def read (kind : ActionKind) (d : Dict) : Except Fault Action :=
  match kind with
  | .log => .ok (.log (d.field "message"))
  | .setVariable =>
    .ok (.setVariable (d.pick ["variable_name", "variableName"]) (d.field? "value"))
  | .callTool =>
    .ok (.callTool (d.pick ["tool_name", "toolName"])
      ((d.field "parameters").orElse (.dict [])) (d.pick targetFields))
  | .callFunction =>
    .ok (.callFunction
      (d.pick ["function_name", "functionName", "function_handler", "tool_name", "toolName"])
      ((d.field "parameters").orElse (.dict [])) (d.pick targetFields))
  | .finish => .ok (.finish (d.pick? ["value", "return_value"]))
  | .createObject => do
    let properties ← readProperties
      ((d.pick? ["properties", "property_values", "propertyValues"]).getD (.dict []))
    let instructions ← (d.field "instructions").itemsIfAny
    return .createObject (d.pick templateFields) properties instructions (d.pick targetFields)
  | .loadObject => do
    let keys? ← readKeys (d.pick ["property_keys", "propertyKeys", "property_ids"])
    let instructions ← (d.field "instructions").itemsIfAny
    return .loadObject (d.pick templateFields) keys? instructions
  | .agent => do
    let instructions ← readInstructions (d.field "instructions")
    let sampling := ((d.pick? ["request_sampling", "requestSampling"]).getD (.bool true)).truthy
    return .agent instructions sampling (d.pick targetFields)
  | .loadState =>
    .ok (.loadState (d.pick stateKeyFields) (d.pick ["default_value", "defaultValue"])
      (d.pick targetFields))
  | .saveState => .ok (.saveState (d.pick stateKeyFields) (d.field? "value"))

end ActionKind

/-- A field that is left out when it is absent. -/
def Action.presentField (name : String) (value? : Option Value) : List (String × Value) :=
  match value? with
  | some v => [(name, v)]
  | none => []

/-- The fields that describe an action. -/
def Action.fields : Action → List (String × Value)
  | .log message => [("message", message)]
  | .setVariable target value? => ("variable_name", target) :: presentField "value" value?
  | .callTool tool parameters target =>
    [("tool_name", tool), ("parameters", parameters), ("result_variable", target)]
  | .callFunction function parameters target =>
    [("function_name", function), ("parameters", parameters), ("result_variable", target)]
  | .finish value? => presentField "value" value?
  | .createObject template properties instructions target =>
    [("template_id", template), ("properties", properties), ("instructions", .list instructions),
      ("result_variable", target)]
  | .loadObject template keys? instructions =>
    [("template_id", template),
      ("property_keys", match keys? with
        | some keys => .list keys
        | none => .null),
      ("instructions", .list instructions)]
  | .agent instructions sampling target =>
    [("instructions", .list instructions), ("request_sampling", .bool sampling),
      ("result_variable", target)]
  | .loadState key default target =>
    [("key", key), ("default_value", default), ("result_variable", target)]
  | .saveState key value? => ("key", key) :: presentField "value" value?

/-! ## Reading -/

namespace Step

def readKind (d : Dict) : Except Error StepKind :=
  let type := d.field "type"
  match type.toKey? with
  | none => .error (.fault .wrongType)
  | some _ =>
    match type.str?.bind StepKind.ofName? with
    | some kind => .ok kind
    | none => .error (Error.spelled (.unknownStepType type (d.field "name")))

def readName (d : Dict) : Value := (d.pick? ["name", "id"]).getD (.str "")

/-- A case stored under its label: a known label keeps its place. -/
def storeCase (label : String) (steps : List Step) :
    List (String × List Step) → List (String × List Step)
  | [] => [(label, steps)]
  | (l, ss) :: rest =>
    if l = label then (l, steps) :: rest else (l, ss) :: storeCase label steps rest

/-- The fault of a value that is no list of steps. -/
def notSteps (v : Value) : Fault :=
  match v.items with
  | .error f => f
  | .ok (item :: _) => .noField item.typeName "get"
  | .ok [] => .wrongType

mutual

/-- The step that a value describes. -/
def ofValue : Value → Except Error Step
  | .dict entries => do
    match ← readKind entries with
    | .action kind => return .action (readName entries) (← (kind.read entries : Except Fault Action))
    | .conditional =>
      let thenSteps ← stepsUnder "then" entries
      let elseSteps ← stepsUnder "else" entries
      return .conditional (readName entries) (Dict.field entries "condition") thenSteps elseSteps
    | .switch =>
      let cases ← casesUnder entries
      let default? ← (match defaultUnder "default_case" entries with
        | some result => result
        | none => (defaultUnder "defaultCase" entries).getD (.ok none))
      return .switch (readName entries) (Dict.pick entries ["switch_value", "switchValue"])
        cases default?
  | v => .error (.fault (.noField v.typeName "get"))

/-- The steps that a value describes; one that counts as false describes none. -/
def stepsOf : Value → Except Error (List Step)
  | .list items => stepsOfAll items
  | .tuple items => stepsOfAll items
  | v => if v.truthy then .error (.fault (notSteps v)) else .ok []

def stepsOfAll : List Value → Except Error (List Step)
  | [] => .ok []
  | v :: vs => do
    let step ← ofValue v
    let steps ← stepsOfAll vs
    return step :: steps

/-- The steps under a key, none if the key is absent. -/
def stepsUnder (name : String) : List (Key × Value) → Except Error (List Step)
  | [] => .ok []
  | (k, v) :: rest => if (Key.str name).same k then stepsOf v else stepsUnder name rest

def casesUnder : List (Key × Value) → Except Error (List (String × List Step))
  | [] => .ok []
  | (k, v) :: rest => if (Key.str "cases").same k then casesOf v else casesUnder rest

def casesOf : Value → Except Error (List (String × List Step))
  | .dict entries => casesOfEntries [] entries
  | v => if v.truthy then .error (.fault (.noField v.typeName "items")) else .ok []

/-- The cases that dictionary entries describe, stored into the ones before. -/
def casesOfEntries (cases : List (String × List Step)) :
    List (Key × Value) → Except Error (List (String × List Step))
  | [] => .ok cases
  | (k, v) :: rest => do
    let label ← (k.spell : Except Fault String)
    let steps ← stepsOf v
    casesOfEntries (storeCase label steps cases) rest

/-- The default under a key: no result if the key is absent, no default if it holds `null`. -/
def defaultUnder (name : String) :
    List (Key × Value) → Option (Except Error (Option (List Step)))
  | [] => none
  | (k, v) :: rest =>
    if (Key.str name).same k then
      some (match v.isNull, stepsOf v with
        | true, _ => .ok none
        | false, .ok steps => .ok (some steps)
        | false, .error e => .error e)
    else defaultUnder name rest

end

/-! ## Writing -/

mutual

/-- The step as data. -/
def toValue : Step → Value
  | .action name act =>
    .record ([("name", name), ("type", .str act.kind.name)] ++ act.fields)
  | .conditional name condition thenSteps elseSteps =>
    .record ([("name", name), ("type", .str "conditional"), ("condition", condition)]
      ++ (if thenSteps.isEmpty then [] else [("then", .list (toValues thenSteps))])
      ++ (if elseSteps.isEmpty then [] else [("else", .list (toValues elseSteps))]))
  | .switch name subject cases none =>
    .record [("name", name), ("type", .str "switch"), ("switch_value", subject),
      ("cases", .dict (caseEntries cases))]
  | .switch name subject cases (some steps) =>
    .record [("name", name), ("type", .str "switch"), ("switch_value", subject),
      ("cases", .dict (caseEntries cases)), ("default_case", .list (toValues steps))]

def toValues : List Step → List Value
  | [] => []
  | s :: ss => s.toValue :: toValues ss

def caseEntries : List (String × List Step) → List (Key × Value)
  | [] => []
  | (label, steps) :: rest => (.str label, .list (toValues steps)) :: caseEntries rest

end

end Step

end Stepwise
