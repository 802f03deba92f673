-- SUMMARY: What each of the ten actions does to the situation.
import Stepwise.Run.Pause
import Stepwise.Step.Basic
import Stepwise.Functions

/-!
# Actions

An action checks the fields that it requires, fills the others from the context, and
then does its one thing: it adds to the log, binds a variable, asks a collaborator, ends
the run or pauses it. Its output goes to the history. Values that leave the run are
handed over as data.
-/

namespace Stepwise

variable {σ : Type}

/-! ## Creating objects -/

namespace Creation

def toolName : String := "create_object"

/-- The property rows by key, in order; of two rows with one key the later counts. -/
def indexRows : List Value → Except Fault (List (Key × PropertySchema))
  | [] => .ok []
  | row :: rows => do
    match ← PropertySchema.ofRow? row with
    | none => indexRows rows
    | some schema =>
      let key ← schema.key.toKey
      let index ← indexRows rows
      return if index.any fun e => key.same e.1 then index else (key, schema) :: index

def schema? (index : List (Key × PropertySchema)) (key : Key) : Option PropertySchema :=
  (index.find? fun e => key.same e.1).map (·.2)

/-- The texts of keys that are to be listed; only texts can be. -/
def texts : List Key → Except Fault (List String)
  | [] => .ok []
  | .str s :: keys => do return s :: (← texts keys)
  | _ :: _ => .error .wrongType

def requireKnown (template : Value) (index : List (Key × PropertySchema)) (mappings : Value) :
    StepM σ Unit := do
  let keys ← StepM.lift (do (← mappings.items).mapM Value.toKey)
  let unknown := keys.filter fun key => (schema? index key).isNone
  if unknown.isEmpty then return ()
  else
    let _ ← StepM.spelled template
    let names ← StepM.lift (texts unknown)
    StepM.fail { problem := .unknownProperties template names }

/-- Mappings divided into the properties that can be filled now, and the keys of those that are
pending. -/
structure Division where
  prefilled : Dict := []
  pending : List Key := []

/-- The mapping can be filled now: it is not the empty text, holds no `null`, and all its expressions
address something. -/
def isReady (c : Context) (mapping : Value) : Except Fault Bool :=
  if mapping == .str "" then .ok false else Template.isFillable c mapping

/-- Divide mappings, in order. -/
def divide (c : Context) : Dict → Except Fault Division
  | [] => .ok {}
  | (key, mapping) :: rest => do
    if ← isReady c mapping then
      let v ← Template.fill c mapping
      let division ← divide c rest
      return { division with prefilled := (key, v) :: division.prefilled }
    else
      let division ← divide c rest
      return { division with pending := key :: division.pending }

def instruction (template : String) : String :=
  "Create an object of template " ++ template ++ " using the '" ++ toolName ++ "' tool."

/-- Create the object through the tool. -/
def create (engine : Engine σ) (label : StepLabel) (template : Value) (properties : Dict)
    (target : Value) : StepM σ Value := do
  let call ← label.requireCollaborator "ToolCaller" engine.tools?
  let _ ← StepM.spelled template
  let parameters ← StepM.settled
    (.record [("template_id", template), ("properties", .dict properties)])
  let result ← label.askTool (.str toolName) (call (.str toolName) parameters)
  StepM.bindIfNamed target result
  return result

/-- Ask an agent for the pending properties. -/
def askAgent (label : StepLabel) (template : Value) (index : List (Key × PropertySchema))
    (division : Division) (instructions : List Value) : StepM σ Value := do
  let schemas := division.pending.filterMap (schema? index)
  let lines ← StepM.filledLines instructions
  let shown ← StepM.spelled template
  let wanted ← StepM.lift (schemas.mapM PropertySchema.instruction)
  let lines := lines ++ [instruction shown] ++ wanted
  let names ← StepM.lift (texts division.pending)
  label.pause lines [("action", .str toolName), ("template_id", template),
    ("property_schemas", .list (schemas.map PropertySchema.toValue)),
    ("prefilled_values", .dict division.prefilled)]
  return .record [("template_id", template), ("prefilled_values", .dict division.prefilled),
    ("pending_properties", linesValue names)]

/-- Create an object of a template, or ask an agent if properties are pending. -/
def run (engine : Engine σ) (label : StepLabel) (template properties : Value)
    (instructions : List Value) (target : Value) : StepM σ Value := do
  let provider ← label.requireCollaborator "SchemaProvider" engine.templates?
  let template ← StepM.filled (← label.require "templateId" template)
  let mappings ← label.require "properties" properties
  let rows ← StepM.ask (provider (← StepM.settled template))
  let index ← StepM.lift (do indexRows (← rows.items))
  requireKnown (← StepM.settled template) index mappings
  let mappings ← StepM.lift (mappings.toRecord "items")
  let division ← StepM.look (divide · mappings)
  if division.pending.isEmpty then create engine label template division.prefilled target
  else askAgent label template index division instructions

end Creation

/-! ## The other actions -/

namespace Engine

/-- Call a tool. What goes to the tool and what comes back has to be fit to be written out, and so does what
the tool raises. Errors that steps report pass as they are. -/
def callTool (engine : Engine σ) (label : StepLabel) (tool parameters target : Value) :
    StepM σ Value := do
  let call ← label.requireCollaborator "ToolCaller" engine.tools?
  let tool ← label.require "toolName" tool
  let parameters ← StepM.settled (← StepM.filled parameters)
  let _ ← StepM.spelled tool
  let _ ← StepM.spelled parameters
  let result ← StepM.attempt (StepM.ask (call tool parameters))
  match result with
  | .ok v =>
    let _ ← StepM.spelled v
    StepM.bindIfNamed target v
    return v
  | .error (.step e) => StepM.raise (.step e)
  | .error raised => do
    let reason ← StepM.written raised.spell
    StepM.fail (label.error (.toolFailed tool reason) (some raised.cause))

/-- What a function gives: registered functions come first, then tools. -/
def askFunction (engine : Engine σ) (label : StepLabel) (function parameters : Value) :
    StepM σ Value := do
  match ← StepM.lift (engine.functions.lookUp function) with
  | some f =>
    let _ ← StepM.spelled function
    let result ← StepM.ask (FunctionRegistry.runHandler f function parameters engine.tools?)
    if result.success then return result.data
    else
      let reason ← StepM.lift (FunctionRegistry.errorOf result).spell
      StepM.fail (label.error (.toolFailed function reason))
  | none =>
    match engine.tools? with
    | some call => do
      let _ ← StepM.spelled function
      label.askTool function (call function parameters)
    | none => StepM.fail (label.error (.toolFailed function "Function not found in registry"))

def callFunction (engine : Engine σ) (label : StepLabel) (function parameters target : Value) :
    StepM σ Value := do
  let function ← label.require "functionName" function
  let parameters ← StepM.settled (← StepM.filled parameters)
  let result ← askFunction engine label function parameters
  StepM.bindIfNamed target result
  return result

/-- The property is one of those asked for. -/
def isWanted (keys? : Option (List Value)) (schema : PropertySchema) : Bool :=
  match keys? with
  | some keys => schema.key.memberOf keys
  | none => true

/-- Ask an agent to fill a template's properties. -/
def loadObject (engine : Engine σ) (label : StepLabel) (template : Value)
    (keys? : Option (List Value)) (instructions : List Value) : StepM σ Value := do
  let provider ← label.requireCollaborator "SchemaProvider" engine.templates?
  let template ← StepM.filled (← label.require "templateId" template)
  let rows ← StepM.ask (provider (← StepM.settled template))
  let schemas ← StepM.lift (do PropertySchema.ofRows (← rows.items))
  let schemas := schemas.filter (isWanted keys?)
  let lines ← StepM.filledLines instructions
  let wanted ← StepM.lift (schemas.mapM PropertySchema.instruction)
  let lines := lines ++ wanted
  let sampled ← engine.sample lines
  let _ ← StepM.spelled template
  let rows := [("template_id", template),
    ("property_schemas", .list (schemas.map PropertySchema.toValue)), ("sampling_result", sampled)]
  label.pause lines rows
  return .record rows

def instructAgent (engine : Engine σ) (label : StepLabel) (instructions : List Value) (sampling : Bool)
    (target : Value) : StepM σ Value := do
  let _ ← label.require "instructions" (.list instructions)
  let lines ← StepM.filledLines instructions
  let sampled ← if sampling then engine.sample lines else pure .null
  if !sampled.isNull then StepM.bindIfNamed target sampled
  label.pause lines [("sampling_result", sampled)]
  return .record [("instructions", linesValue lines), ("sampling_result", sampled)]

/-- Bind a variable to a stored value, or to the default if nothing is stored or the store raises anything
that can be written out. -/
def loadState (engine : Engine σ) (label : StepLabel) (key default target : Value) :
    StepM σ Value := do
  let store ← label.requireCollaborator "StateStore" engine.store?
  let key ← StepM.filledText (← label.require "key" key)
  let target ← label.require "resultVariable" target
  let stored ← StepM.askSoftly (store.get key)
  let v ← if stored.isNull then StepM.filled default else pure stored
  StepM.bindVariable target v
  return v

/-- Store a value. -/
def saveState (engine : Engine σ) (label : StepLabel) (key : Value) (value? : Option Value) :
    StepM σ Value := do
  let store ← label.requireCollaborator "StateStore" engine.store?
  let key ← StepM.filledText (← label.require "key" key)
  let v ← StepM.filled (← label.requirePresent value?)
  match ← StepM.attempt (StepM.ask (store.set key v)) with
  | .ok () => return .record [("key", .str key), ("value", v)]
  | .error raised => do
    let reason ← StepM.written raised.spell
    StepM.fail (label.error (.stateNotSaved key reason) (some raised.cause))

/-- Do what an action says. -/
def perform (engine : Engine σ) (label : StepLabel) (act : Action) : StepM σ Value :=
  match act with
  | .log message => do
    let line ← StepM.filledText (← label.require "message" message)
    StepM.change (·.appendLog (.str line))
    return .str line
  | .setVariable target value? => do
    let target ← label.require "variableName" target
    let v ← StepM.filled (← label.requirePresent value?)
    StepM.bindVariable target v
    return v
  | .finish value? => do
    let v ← StepM.filled (← label.requirePresent value?)
    StepM.change (·.setResult v)
    return v
  | .callTool tool parameters target => callTool engine label tool parameters target
  | .callFunction function parameters target => callFunction engine label function parameters target
  | .createObject template properties instructions target =>
    Creation.run engine label template properties instructions target
  | .loadObject template keys? instructions => loadObject engine label template keys? instructions
  | .agent instructions sampling target => instructAgent engine label instructions sampling target
  | .loadState key default target => loadState engine label key default target
  | .saveState key value? => saveState engine label key value?

end Engine

end Stepwise
