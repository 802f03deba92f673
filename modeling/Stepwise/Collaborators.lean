-- SUMMARY: What the engine works with: tools, templates, state store, sampling and functions.
import Stepwise.Error
import Stepwise.Settings

/-!
# Collaborators

The engine reaches the outside world through its collaborators only. Each of them is a
question that may change the world, answer, or raise; the world's type is left open, so
every behaviour of the collaborators is covered. A collaborator that the engine was not
given is absent.
-/

namespace Stepwise

/-- A question to a world of type `σ`. The world changes also when the question is not answered. -/
abbrev Ask (σ α : Type) := ExceptT Raised (StateM σ) α

/-- Answer without asking, or raise a fault. -/
def Ask.lift {σ α : Type} (answer : Except Fault α) : Ask σ α :=
  fun world => (answer.mapError .fault, world)

/-- A text, if it can be written out. -/
def Ask.written {σ : Type} (text : Except Crash String) : Ask σ String :=
  fun world => (text.mapError Crash.raised, world)

@[simp] theorem Ask.lift_ok {σ α : Type} (a : α) : (Ask.lift (.ok a) : Ask σ α) = pure a := rfl

@[simp] theorem Ask.written_ok {σ : Type} (text : String) :
    (Ask.written (.ok text) : Ask σ String) = pure text := rfl

/-- Tells the time. Clocks go on, so that asking may change the world. -/
abbrev Clock (σ : Type) := σ → String × σ

abbrev ToolCaller (σ : Type) := Value → Value → Ask σ Value

/-- Gives the property rows of a template. -/
abbrev SchemaProvider (σ : Type) := Value → Ask σ Value

/-- Keeps values under keys. -/
structure StateStore (σ : Type) where
  get : String → Ask σ Value
  set : String → Value → Ask σ Unit

/-- A request for a completion. The parts besides the prompt may be left out, which is `null`. -/
structure SamplingRequest where
  prompt : Value
  systemPrompt : Value := .null
  maxTokens : Value := .null
  model : Value := .null
deriving DecidableEq, Repr

namespace SamplingRequest

def fieldNames : List Key := [.str "prompt", .str "system_prompt", .str "max_tokens", .str "model"]

/-- The request that named parts make: there is a prompt, and nothing that is no part of a request. -/
def ofDict (parts : Dict) : Except Fault SamplingRequest :=
  match parts.field? "prompt", parts.keys.all fieldNames.contains with
  | some prompt, true => .ok {
      prompt
      systemPrompt := parts.field "system_prompt"
      maxTokens := parts.field "max_tokens"
      model := parts.field "model" }
  | _, _ => .error .wrongType

/-- The parts of the request, in the order of their names. -/
def parts (r : SamplingRequest) : List Value := [r.prompt, r.systemPrompt, r.maxTokens, r.model]

end SamplingRequest

/-- Asks a language model for a completion. -/
abbrev SamplingGateway (σ : Type) := SamplingRequest → Ask σ Value

/-! ## Functions -/

/-- What a function gives: data, or an error. -/
structure FunctionResult where
  success : Bool
  data : Value := .null
  error : Value := .null
deriving DecidableEq, Repr, Inhabited

/-- A function that steps may call: parameters, and the tools it may use. -/
abbrev Handler (σ : Type) := Value → Option (ToolCaller σ) → Ask σ FunctionResult

/-- A parameter in the description of a function. -/
structure FunctionParameter where
  name : Value
  type : Value
  description : Value := .str ""
  required : Value := .bool false
deriving DecidableEq, Repr

/-- The description of a function, and the name that it goes by. -/
structure FunctionDescription where
  name : Key
  description : Value
  parameters : List FunctionParameter := []
deriving DecidableEq, Repr

/-- A function and its description. -/
structure RegisteredFunction (σ : Type) where
  description : FunctionDescription
  handler : Handler σ

/-- The functions that steps may call, each registered under its own name. -/
abbrev FunctionRegistry (σ : Type) := List (RegisteredFunction σ)

/-! ## The engine's surroundings -/

/-- The collaborators and settings of an engine. -/
structure Engine (σ : Type) where
  tools? : Option (ToolCaller σ) := none
  templates? : Option (SchemaProvider σ) := none
  store? : Option (StateStore σ) := none
  sampling? : Option (SamplingGateway σ) := none
  functions : FunctionRegistry σ := []
  settings : Settings := {}

end Stepwise
