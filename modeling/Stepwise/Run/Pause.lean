-- SUMMARY: What a pausing step hands to an agent: instructions, property rows and the payload.
import Stepwise.Run.Machine
import Stepwise.Template.Fill

/-!
# Pauses

A step that needs an agent suspends the run with a payload: the instructions, what the
agent needs to follow them, and where the run stands. The rows of a template that hold
properties are reduced to what an agent needs to fill them.
-/

namespace Stepwise

variable {σ : Type}

/-! ## Property rows -/

/-- What an agent needs to know of a property. -/
structure PropertySchema where
  key : Value
  type : Value
  description : Value
deriving DecidableEq, Repr

namespace PropertySchema

/-- The row describes a property and not a step. -/
def isProperty (row : Dict) : Bool :=
  (row.field "step_type").memberOf [.null, .str "", .str "property"]

/-- The property that a row describes. -/
def ofRow (row : Dict) : PropertySchema where
  key := row.field "key"
  type := (row.field? "type").getD (.str "text")
  description := (row.field "description").orElse (.str "")

/-- The property that a row describes, if it describes one. -/
def ofRow? (row : Value) : Except Fault (Option PropertySchema) := do
  let d ← row.toRecord "get"
  return if isProperty d then some (ofRow d) else none

def ofRows : List Value → Except Fault (List PropertySchema)
  | [] => .ok []
  | row :: rows => do
    let schema? ← ofRow? row
    let schemas ← ofRows rows
    return schema?.toList ++ schemas

def toValue (p : PropertySchema) : Value :=
  .record [("key", p.key), ("type", p.type), ("description", p.description)]

def instruction (p : PropertySchema) : Except Fault String := do
  let line := "Provide a value for '" ++ (← p.key.spell) ++ "' (" ++ (← p.type.spell) ++ ")"
  if p.description.truthy then return line ++ ": " ++ (← p.description.spell) else return line

end PropertySchema

/-! ## Filling -/

namespace StepM

def filled (v : Value) : StepM σ Value := look fun c => Template.fill c v

def filledText (v : Value) : StepM σ String := look fun c => Template.fillAsText c v

def filledLines (lines : List Value) : StepM σ (List String) :=
  look fun c => lines.mapM (Template.fillAsText c)

/-- The text of a value with the lines that the log holds now, which has to be written out. -/
def spelled (v : Value) : StepM σ String := look fun c => (c.settle v).spell

/-- A value as data: with the lines that the log holds now. -/
def settled (v : Value) : StepM σ Value := look fun c => .ok (c.settle v)

end StepM

/-! ## Sampling -/

/-- Ask a language model to follow instructions. Without a gateway, with sampling disabled, or if
the gateway raises anything that can be written out, the answer is `null`. -/
def Engine.sample (engine : Engine σ) (instructions : List String) : StepM σ Value :=
  match engine.sampling?, engine.settings.samplingEnabled with
  | some request, true => StepM.askSoftly (request {
      prompt := .str ("\n".intercalate instructions)
      systemPrompt := Settings.textValue engine.settings.samplingSystemPrompt?
      maxTokens := .int engine.settings.samplingMaxTokens
      model := Settings.textValue engine.settings.samplingModel? })
  | _, _ => pure .null

/-! ## Payloads -/

def agentPayloadType : String := "agent_instructions"

def agentMessage : String :=
  "Follow the instructions, then resume the workflow with the 'resume' information of this payload."

def linesValue (lines : List String) : Value := .list (lines.map .str)

/-- The payload for an agent that follows instructions, with what else the agent is to know. -/
def StepLabel.payload (label : StepLabel) (c : Context) (instructions : List String)
    (extra : List (String × Value)) : Value :=
  .record ([
    ("type", .str agentPayloadType), ("workflow", c.workflowName), ("step", label.name),
    ("step_type", .str label.type), ("current_step", c.currentStep),
    ("instructions", linesValue instructions), ("message", .str agentMessage)] ++ extra)

/-- Suspend the run with a payload for an agent. -/
def StepLabel.pause (label : StepLabel) (instructions : List String)
    (extra : List (String × Value)) : StepM σ Unit := do
  let c ← StepM.context
  StepM.update (·.suspend (label.payload c instructions extra))

end Stepwise
