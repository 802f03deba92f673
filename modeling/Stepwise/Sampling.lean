-- SUMMARY: A sampling gateway over a chat-completion service.
import Stepwise.Collaborators

/-!
# Sampling

The gateway turns a request into one call of a chat-completion service: the model of
the request or else the default one, a system message if there is a system prompt, and
the prompt as the user's message. The answer is the content of the first choice, and
`null` if there are no choices or the service fails in a way that the gateway handles,
with something that can be written out.
-/

namespace Stepwise

/-- A chat message. -/
structure ChatMessage where
  role : String
  content : Value
deriving DecidableEq, Repr

/-- A call of a chat-completion service. A token limit of `null` is none. -/
structure CompletionCall where
  model : Value
  messages : List ChatMessage
  maxTokens : Value := .null
deriving DecidableEq, Repr

/-- A chat-completion service: the contents of its choices, if it gives any. -/
abbrev CompletionService (σ : Type) := CompletionCall → Ask σ (Option (List Value))

/-- How a gateway uses its service. -/
structure Gateway where
  defaultModel : Value := .null
  /-- The family of faults that count as no answer. -/
  handled : String := "Exception"
deriving DecidableEq, Repr

namespace ChatMessage

def toValue (m : ChatMessage) : Value := .record [("role", .str m.role), ("content", m.content)]

end ChatMessage

namespace CompletionCall

/-- The call as a record; an absent token limit is left out. -/
def toValue (c : CompletionCall) : Value :=
  .record ([("model", c.model), ("messages", .list (c.messages.map ChatMessage.toValue))]
    ++ (if c.maxTokens.isNull then [] else [("max_tokens", c.maxTokens)]))

end CompletionCall

namespace Gateway

/-- The family of faults of the language model's client. -/
def clientFaults : String := "OpenAIError"

def messages (r : SamplingRequest) : List ChatMessage :=
  let system := if r.systemPrompt.truthy then [{ role := "system", content := r.systemPrompt }] else []
  system ++ [{ role := "user", content := r.prompt }]

/-- The call that a request stands for, if there is a model to call. -/
def call? (g : Gateway) (r : SamplingRequest) : Option CompletionCall :=
  let model := r.model.orElse g.defaultModel
  if model.truthy then some { model, messages := messages r, maxTokens := r.maxTokens } else none

/-- What was raised counts as no answer. -/
def handles (g : Gateway) : Raised → Bool
  | .step _ => g.handled == "Exception"
  | .fault f => f.kind.families.contains g.handled
  | .mute kind _ => kind.families.contains g.handled

/-- Answer a request through a service. -/
def request {σ : Type} (g : Gateway) (service : CompletionService σ) : SamplingGateway σ :=
  fun r => match g.call? r with
  | none => throw (.fault (.badValue "No model specified and no default_model set."))
  | some call => fun world =>
    match service call world with
    | (.ok choices?, world) => (.ok ((choices?.getD []).headD .null), world)
    | (.error raised, world) =>
      if g.handles raised then (do
          let _ ← Ask.written raised.spell
          return .null : Ask σ Value) world
      else (.error raised, world)

end Gateway

end Stepwise
