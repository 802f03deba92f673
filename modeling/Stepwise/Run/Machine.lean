-- SUMMARY: The machine that steps run on: a context, the world outside, and how a step's end is recorded.
import Stepwise.Run.Context
import Stepwise.Collaborators
import Stepwise.Step.Basic

/-!
# The machine

A step works on a `Situation`: the context of its run, and the world that the
collaborators live in. A situation also keeps the steps that the run has set to work,
each with the context that it found. Inside a step anything may be raised. Whatever a step raises is
recorded as its failure and leaves it as an error that some step has claimed. What has no
text cannot be recorded: what comes of writing it out leaves the step instead. A step whose
name cannot be written out is no step that could be reported: it is not run. In both cases
the fault goes to the step around it, or ends the run.
-/

namespace Stepwise

variable {σ α β : Type}

/-! ## Situations -/

/-- A step set to work, and the context that it found. -/
structure Start where
  step : Step
  context : Context
deriving Inhabited

/-- What a running step works on. -/
structure Situation (σ : Type) where
  context : Context
  outside : σ
  /-- The steps set to work so far, in order. -/
  started : List Start := []

/-- Note that a step is set to work. -/
def Situation.start (t : Situation σ) (s : Step) : Situation σ :=
  { t with started := t.started ++ [{ step := s, context := t.context }] }

abbrev StepM (σ α : Type) := ExceptT Raised (StateM (Situation σ)) α

abbrev RunM (σ α : Type) := StepM σ α

theorem pure_apply {ε : Type} (a : α) (s : Situation σ) :
    (pure a : ExceptT ε (StateM (Situation σ)) α) s = (.ok a, s) := rfl

/-- Work goes on from where its first part has ended, unless that raised something. -/
theorem bind_apply {ε : Type} (m : ExceptT ε (StateM (Situation σ)) α)
    (f : α → ExceptT ε (StateM (Situation σ)) β) (s : Situation σ) :
    (m >>= f) s = match m s with
      | (.ok a, t) => f a t
      | (.error e, t) => (.error e, t) := by
  simp only [bind, ExceptT.bind, ExceptT.mk, ExceptT.bindCont, StateT.bind]
  rcases m s with ⟨_ | _, _⟩ <;> rfl

theorem bind_of_ok {ε : Type} {m : ExceptT ε (StateM (Situation σ)) α}
    {f : α → ExceptT ε (StateM (Situation σ)) β} {s t : Situation σ} {a : α}
    (h : m s = (.ok a, t)) : (m >>= f) s = f a t := by
  rw [bind_apply, h]

theorem bind_of_error {ε : Type} {m : ExceptT ε (StateM (Situation σ)) α}
    {f : α → ExceptT ε (StateM (Situation σ)) β} {s t : Situation σ} {e : ε}
    (h : m s = (.error e, t)) : (m >>= f) s = (.error e, t) := by
  rw [bind_apply, h]

/-! ## Inside a step -/

namespace StepM

def context : StepM σ Context := fun s => (.ok s.context, s)

def change (f : Context → Context) : StepM σ Unit :=
  fun s => (.ok (), { s with context := f s.context })

/-- Answer without a change, or raise a fault. -/
def lift (answer : Except Fault α) : StepM σ α :=
  fun s => (answer.mapError .fault, s)

/-- Compute an answer from the context, without a change. -/
def look (f : Context → Except Fault α) : StepM σ α :=
  fun s => ((f s.context).mapError .fault, s)

/-- Put a question to the world outside. -/
def ask (question : Ask σ α) : StepM σ α := fun s =>
  let (answer, outside) := question s.outside
  (answer, { s with outside })

/-- Change the context of the run, or raise a fault after changing it. -/
def update (f : Context → Except Fault α × Context) : StepM σ α := fun s =>
  let (answer, context) := f s.context
  (answer.mapError .fault, { s with context })

def raise (raised : Raised) : StepM σ α := fun s => (.error raised, s)

/-- A text, if it can be written out. -/
def written (text : Except Crash String) : StepM σ String :=
  fun s => (text.mapError Crash.raised, s)

/-- Raise a step error, if its message can be written out. -/
def fail (e : StepError) : StepM σ α := fun s => (.error (.ofStep e), s)

/-- The answer or what was raised instead of it. -/
def attempt (body : StepM σ α) : StepM σ (Except Raised α) := fun s =>
  let (answer, s) := body s
  (.ok answer, s)

/-- The answer to a question, or `null` instead of anything raised, which has to be written out. -/
def askSoftly (question : Ask σ Value) : StepM σ Value := do
  match ← attempt (ask question) with
  | .ok v => return v
  | .error raised => do
    let _ ← written raised.spell
    return .null

theorem askSoftly_of_ok {question : Ask σ Value} {s : Situation σ} {v : Value} {outside : σ}
    (h : question s.outside = (.ok v, outside)) :
    askSoftly question s = (.ok v, { s with outside }) := by
  simp [askSoftly, attempt, ask, bind_apply, h, pure_apply]

theorem askSoftly_of_error {question : Ask σ Value} {s : Situation σ} {raised : Raised} {outside : σ}
    (h : question s.outside = (.error raised, outside)) :
    askSoftly question s = (written raised.spell >>= fun _ => pure .null) { s with outside } := by
  simp only [askSoftly, attempt, ask, bind_apply, h]

def bindVariable (name v : Value) : StepM σ Unit := do
  let key ← lift name.toKey
  change (·.bindVariable key v)

/-- Bind a variable to a value if a name is given. -/
def bindIfNamed (name v : Value) : StepM σ Unit :=
  if name.truthy then bindVariable name v else pure ()

end StepM

/-! ## The step at work -/

/-- How the step at work is called: its name, and the type it is written under. -/
structure StepLabel where
  name : Value
  type : String
deriving DecidableEq, Repr

/-- How a step is called when it is at work. -/
def Step.label (s : Step) : StepLabel := { name := s.name, type := s.type }

namespace StepLabel

def error (label : StepLabel) (problem : Problem) (cause? : Option Cause := none) : StepError :=
  { problem, stepName := label.name, stepType := .str label.type, cause? }

/-- The error that leaves the step: one that a step has claimed stays as it is, and anything else
becomes an error of this step. -/
def claim (label : StepLabel) : Raised → StepError
  | .step e =>
    if e.stepName.isNull then { e with stepName := label.name, stepType := .str label.type } else e
  | .fault f => label.error (.unforeseen label.name f) (some (.fault f.kind))
  | .mute kind instead => label.error (.mute instead) (some (.fault kind))

/-- The entry of the history for a step that gave an output. -/
def completed (label : StepLabel) (output : Value) : StepResult :=
  { step := label.name, type := .str label.type, status := .completed, output }

/-- The entry of the history for a step that raised something. -/
def failed (label : StepLabel) (raised : Raised) : StepResult :=
  { step := label.name, type := .str label.type, status := .failed, error := .str raised.shown }

/-- A value that does not count as given. -/
def isMissing (v : Value) : Bool := v == .null || v == .str "" || v == .list [] || v == .dict []

def require (label : StepLabel) (field : String) (v : Value) : StepM σ Value :=
  if isMissing v then .fail (label.error (.missingField label.type field)) else pure v

/-- The value of a field that must be there, whatever it holds. -/
def requirePresent (label : StepLabel) (v? : Option Value) : StepM σ Value :=
  match v? with
  | some v => pure v
  | none => .fail (label.error (.missingField label.type "value"))

def requireCollaborator (label : StepLabel) (collaborator : String) (given? : Option α) :
    StepM σ α :=
  match given? with
  | some a => pure a
  | none => .fail (label.error (.missingCollaborator collaborator label.type))

/-- Ask a tool or function; whatever it raises becomes its failure, if it can be written out. -/
def askTool (label : StepLabel) (tool : Value) (question : Ask σ α) : StepM σ α := do
  match ← StepM.attempt (StepM.ask question) with
  | .ok a => return a
  | .error raised => do
    let reason ← StepM.written raised.spell
    StepM.fail (label.error (.toolFailed tool reason) (some raised.cause))

end StepLabel

/-! ## Between steps -/

namespace RunM

def change (f : Context → Context) : RunM σ Unit :=
  fun s => (.ok (), { s with context := f s.context })

/-- Run the body of a step at work and add its end to the history. What was raised in it has to be
written out for that. -/
def closed (label : StepLabel) (body : StepM σ Value) : RunM σ StepResult := fun s =>
  match body s with
  | (.ok output, s) =>
    (.ok (label.completed output), { s with context := s.context.record (label.completed output) })
  | (.error raised, s) =>
    match raised.spell with
    | .ok _ => (.error (.step (label.claim raised)),
        { s with context := s.context.record (label.failed raised) })
    | .error crash => (.error crash.raised, s)

/-- Set a step to work and add its end to the history. -/
def recorded (s : Step) (body : StepM σ Value) : RunM σ StepResult := fun t =>
  if s.name.isSpellable then closed s.label body (t.start s) else (.error (.fault unspellable), t)

/-- Run a step of a branch: the position leads into it while it runs, and is restored however it
ends. -/
def within (frame : Frame) (body : RunM σ α) : RunM σ α := fun s =>
  let (answer, s) := body { s with context := s.context.enter frame.toValue }
  (answer, { s with context := s.context.leave })

/-- Go on, unless the run has been stopped by a result. -/
def unlessStopped (rest : RunM σ Unit) : RunM σ Unit := fun s =>
  if s.context.hasResult then (.ok (), s) else rest s

theorem closed_of_ok {label : StepLabel} {body : StepM σ Value} {s t : Situation σ}
    {output : Value} (h : body s = (.ok output, t)) :
    closed label body s = (.ok (label.completed output),
      { t with context := t.context.record (label.completed output) }) := by
  simp [closed, h]

theorem closed_of_error {label : StepLabel} {body : StepM σ Value} {s t : Situation σ}
    {raised : Raised} (h : body s = (.error raised, t)) (hspellable : raised.isSpellable = true) :
    closed label body s = (.error (.step (label.claim raised)),
      { t with context := t.context.record (label.failed raised) }) := by
  simp [closed, h, Raised.isSpellable_iff.1 hspellable]

theorem closed_of_mute {label : StepLabel} {body : StepM σ Value} {s t : Situation σ}
    {raised : Raised} {crash : Crash} (h : body s = (.error raised, t))
    (hmute : raised.spell = .error crash) : closed label body s = (.error crash.raised, t) := by
  simp [closed, h, hmute]

/-- What a body has raised is claimed and recorded, or what comes of writing it out leaves the step. -/
theorem closed_of_raised (label : StepLabel) {body : StepM σ Value} {s t : Situation σ}
    {raised : Raised} (h : body s = (.error raised, t)) :
    closed label body s = (.error (.step (label.claim raised)),
        { t with context := t.context.record (label.failed raised) }) ∨
      ∃ crash : Crash, closed label body s = (.error crash.raised, t) := by
  cases hspell : raised.spell with
  | ok text => exact .inl (closed_of_error h (Raised.isSpellable_of_spell hspell))
  | error crash => exact .inr ⟨crash, closed_of_mute h hspell⟩

theorem recorded_of_spellable {s : Step} {body : StepM σ Value} {t : Situation σ}
    (hname : s.name.isSpellable = true) :
    recorded s body t = closed s.label body (t.start s) := by
  simp [recorded, hname]

theorem recorded_of_unspellable {s : Step} {body : StepM σ Value} {t : Situation σ}
    (hname : s.name.isSpellable = false) :
    recorded s body t = (.error (.fault unspellable), t) := by
  simp [recorded, hname]

theorem unlessStopped_of_stopped {rest : RunM σ Unit} {s : Situation σ}
    (h : s.context.hasResult = true) : unlessStopped rest s = (.ok (), s) := by
  simp [unlessStopped, h]

theorem unlessStopped_of_running {rest : RunM σ Unit} {s : Situation σ}
    (h : s.context.hasResult = false) : unlessStopped rest s = rest s := by
  simp [unlessStopped, h]

end RunM

end Stepwise
