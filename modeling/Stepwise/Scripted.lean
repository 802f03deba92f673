-- SUMMARY: Scripted collaborators: a world in which every answer is laid down in advance and every call is noted.
import Stepwise.Collaborators
import Stepwise.Functions
import Stepwise.Store
import Stepwise.Run.Engine
import Stepwise.Loader

/-!
# Scripted collaborators

A workflow can be tried out against a script: rules say what each tool, template,
function and sampling request answers, or what it raises. The world of a script keeps
the calls that were made, the state store, and a clock that stands still during a run.
-/

namespace Stepwise.Scripted

/-! ## Scripts -/

/-- What a tool does when it is called. -/
inductive ToolRule where
  | answers (v : Value)
  /-- Answer with the call itself. -/
  | echoes
  | raises (wording : String)
  /-- Raise the error of a step. -/
  | raisesStep (message : String) (name type : Value)
  /-- Follow one rule after the other; the last one stays. -/
  | inTurn (rules : List ToolRule)
deriving Inhabited

/-- What a function does when it is called. -/
inductive FunctionRule where
  | gives (v : Value)
  | fails (error : Value)
  | raises (wording : String)
  /-- Give the parameters. -/
  | echoes
deriving Inhabited

/-- What is known of a template: its rows, or the failure to get them, and the template itself. -/
structure TemplateRule where
  rows : Value := .list []
  raises? : Option String := none
  template : Value := .null
deriving Inhabited

/-- What the state store does: a working store, or one that fails to read or to write. -/
inductive StoreRule where
  | memory
  | failing (get? set? : Option String)
deriving Inhabited

/-- What sampling answers. -/
inductive SamplingRule where
  | replies (v : Value)
  | raises (wording : String)
deriving Inhabited

/-- A script: the collaborators that there are, and what they do. -/
structure Script where
  tools? : Option (List (String × ToolRule)) := none
  templates? : Option (List (String × TemplateRule)) := none
  store? : Option StoreRule := none
  sampling? : Option SamplingRule := none
  functions : List (FunctionDescription × FunctionRule) := []
  hasBuiltins : Bool := true
  settings : Settings := {}
deriving Inhabited

/-- The world of a script. -/
structure World where
  /-- How often each tool has been called. -/
  counts : List (Key × Nat) := []
  toolCalls : List (Value × Value) := []
  schemaCalls : List Value := []
  samplingCalls : List SamplingRequest := []
  store : Store := {}
  now : Number := .int 1000

namespace World

/-- How often a tool has been called. -/
def count (w : World) (name : Key) : Nat :=
  ((w.counts.find? fun e => name.same e.1).map (·.2)).getD 0

/-- The world with the lines of a log wherever it refers to the log of the run. -/
def settle (log : List Value) (w : World) : World := { w with store := w.store.settle log }

/-- The live keys of the store with their values, and the world after they have been listed. -/
def liveState (w : World) : Except Fault Value × World :=
  let (keys, store) := w.store.keys w.now
  (keys.map fun keys => .dict (keys.map fun key => (key, (store.get w.now key).1)), { w with store })

end World

/-! ## Tools -/

def ToolRule.answer (number : Nat) (name parameters : Value) : ToolRule → Except Raised Value
  | .answers v => .ok v
  | .echoes => .ok (.record [("tool", name), ("parameters", parameters)])
  | .raises wording => .error (.fault (.runtime wording))
  | .raisesStep message name type =>
    .error (.step { problem := .stated message, stepName := name, stepType := type })
  | .inTurn rules => answerOf number name parameters rules
where
  /-- What the rule whose turn it is answers. -/
  answerOf (number : Nat) (name parameters : Value) : List ToolRule → Except Raised Value
    | [] => .error (.fault .badIndex)
    | [rule] => rule.answer number name parameters
    | rule :: next :: rules =>
      match number with
      | 0 => rule.answer number name parameters
      | n + 1 => answerOf n name parameters (next :: rules)

/-- The rule for a tool: its own, or the one for all tools. -/
def toolRule? (rules : List (String × ToolRule)) (name : Key) : Option ToolRule :=
  ((rules.find? fun e => name.same (.str e.1)).or (rules.find? fun e => e.1 == "*")).map (·.2)

def answerTool (rules : List (String × ToolRule)) (number : Nat) (name : Key) (parameters : Value) :
    Except Raised Value :=
  match toolRule? rules name, name.spell with
  | some rule, _ => rule.answer number name.toValue parameters
  | none, .ok name => .error (.fault (.runtime ("no such tool: " ++ name)))
  | none, .error f => .error (.fault f)

def callTool (rules : List (String × ToolRule)) : ToolCaller World := fun name parameters w =>
  let w := { w with toolCalls := w.toolCalls ++ [(name, parameters)] }
  match name.toKey with
  | .error f => (.error (.fault f), w)
  | .ok key =>
    let number := w.count key
    (answerTool rules number key parameters, { w with counts := (key, number + 1) :: w.counts })

/-! ## The other collaborators -/

/-- The rule for a template, which goes by the text of its identifier. -/
def templateRule (rules : List (String × TemplateRule)) (id : Value) :
    Except Fault TemplateRule := do
  let name ← id.spell
  return ((rules.find? fun e => e.1 == name).map (·.2)).getD {}

/-- The rows of a template, or the failure to get them. -/
def TemplateRule.answer (rule : TemplateRule) : Except Fault Value :=
  match rule.raises? with
  | some wording => .error (.runtime wording)
  | none => .ok rule.rows

def rowsOf (rules : List (String × TemplateRule)) : SchemaProvider World := fun id w =>
  (((templateRule rules id).bind (·.answer)).mapError .fault,
   { w with schemaCalls := w.schemaCalls ++ [id] })

def sourceOf (rules : List (String × TemplateRule)) (hasTemplates : Bool) : TemplateSource where
  template id := if hasTemplates then (templateRule rules id).map (·.template) else .ok .null
  rows id := (templateRule rules id).bind (·.answer)

/-- The state store of a script. -/
def storeOf : StoreRule → StateStore World
  | .memory => {
      get := fun key w =>
        let (v, store) := w.store.get w.now (.str key)
        (.ok v, { w with store })
      set := fun key v w => match w.store.set w.now (.str key) v .null with
        | .ok store => (.ok (), { w with store })
        | .error f => (.error (.fault f), w) }
  | .failing get? set? => {
      get := fun _ w => (match get? with
        | some wording => .error (.fault (.runtime wording))
        | none => .ok .null, w)
      set := fun _ _ w => (match set? with
        | some wording => .error (.fault (.runtime wording))
        | none => .ok (), w) }

def samplingOf (rule : SamplingRule) : SamplingGateway World := fun request w =>
  (match rule with
    | .replies v => .ok v
    | .raises wording => .error (.fault (.runtime wording)),
   { w with samplingCalls := w.samplingCalls ++ [request] })

def clock : Clock World := fun w => ("2024-01-02T03:04:05.678900+00:00", w)

def functionOf (description : FunctionDescription) (rule : FunctionRule) :
    RegisteredFunction World where
  description
  handler parameters _ := match rule with
    | .gives v => pure (Functions.success v)
    | .fails error => pure { success := false, error }
    | .raises wording => throw (.fault (.runtime wording))
    | .echoes => pure (Functions.success parameters)

/-! ## Engines -/

def Script.engine (s : Script) : Engine World where
  tools? := s.tools?.map callTool
  templates? := s.templates?.map rowsOf
  store? := s.store?.map storeOf
  sampling? := s.sampling?.map samplingOf
  functions := s.functions.foldl (fun registry f => registry.register (functionOf f.1 f.2))
    (if s.hasBuiltins then FunctionRegistry.builtin clock else [])
  settings := s.settings

/-- The world after a run: its references to the log of the run replaced by the lines of the log. -/
def finished : Except Error Outcome × World → Except Error Outcome × World
  | (.ok o, w) => (.ok o, w.settle o.context.logs)
  | (.error e, w) => (.error e, w)

def run (s : Script) (w : Workflow) (r : Request) (world : World) : Except Error Outcome × World :=
  finished (Stepwise.run s.engine w r world)

def resume (s : Script) (w : Workflow) (payload inputs : Value) (world : World) :
    Except Error Outcome × World :=
  finished (Stepwise.resume s.engine w payload inputs world)

end Stepwise.Scripted
