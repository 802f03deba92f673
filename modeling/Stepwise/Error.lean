-- SUMMARY: The errors of workflows and steps: their causes, messages and names.
import Stepwise.Value.Display
import Stepwise.Value.Observe

/-!
# Errors

An `Error` says why a workflow could not be read, checked or started. A `StepError`
says why a step failed while it ran: what the problem was, which step reported it, and
what lay behind it. Messages are derived from the causes. A cause whose message cannot be
written out, because it shows an integer that is not, is reported as that fault instead.
What comes from a collaborator may have no text at all, and writing it out raises something else.
-/

namespace Stepwise

/-! ## Problems of a running step -/

/-- What went wrong in a step. -/
inductive Problem where
  /-- A problem in its own words. -/
  | stated (message : String)
  /-- A step met a fault that its type does not foresee. -/
  | unforeseen (step : Value) (fault : Fault)
  /-- A template lacks properties that a step names. -/
  | unknownProperties (template : Value) (names : List String)
  /-- A field that the step's type requires is missing or empty. -/
  | missingField (type field : String)
  /-- A tool or function could not answer. -/
  | toolFailed (tool : Value) (reason : String)
  /-- A value could not be written to the state store. -/
  | stateNotSaved (key reason : String)
  /-- The engine was not given a collaborator that the step's type needs. -/
  | missingCollaborator (collaborator type : String)
  /-- A problem that cannot be put in words: trying to ends with a crash. -/
  | mute (instead : Crash)
deriving DecidableEq, Repr, Inhabited

namespace Problem

/-- The message of a problem, or nothing where there are no words for it. -/
def message : Problem → String
  | .stated message => message
  | .unforeseen step fault => "Step '" ++ step.text ++ "' failed: " ++ fault.shown
  | .unknownProperties template names =>
    "Template " ++ template.text ++ " has no properties named: " ++ ", ".intercalate names
  | .missingField type field => type ++ " step requires a " ++ field
  | .toolFailed tool reason => "Tool '" ++ tool.text ++ "' execution failed: " ++ reason
  | .stateNotSaved key reason => "Failed to save state '" ++ key ++ "': " ++ reason
  | .missingCollaborator collaborator type =>
    collaborator ++ " is required to execute " ++ type ++ " steps"
  | .mute _ => ""

/-- The message of the problem can be written out. -/
def isSpellable : Problem → Bool
  | .unforeseen step _ => step.isSpellable
  | .unknownProperties template _ => template.isSpellable
  | .toolFailed tool _ => tool.isSpellable
  | .stated _ | .missingField .. | .stateNotSaved .. | .missingCollaborator .. => true
  | .mute _ => false

/-- The message of a problem, which has to be written out. -/
def spell (p : Problem) : Except Crash String :=
  match p with
  | .mute instead => .error instead
  | p => if p.isSpellable then .ok p.message else .error (.fault unspellable)

/-- There are no words for the problem. -/
def isMute : Problem → Bool
  | .mute _ => true
  | _ => false

def label : Problem → String
  | .stated _ | .unforeseen .. | .unknownProperties .. | .mute _ => "StepExecutionError"
  | .missingField .. => "MissingRequiredFieldError"
  | .toolFailed .. => "ToolCallFailedError"
  | .stateNotSaved .. => "StateSaveFailedError"
  | .missingCollaborator .. => "MissingCollaboratorError"

/-- The data reported along with a problem's message. -/
def details : Problem → Value
  | .toolFailed tool _ => .record [("tool_name", tool)]
  | .stateNotSaved key _ => .record [("key", .str key)]
  | _ => .dict []

def fields : Problem → List (String × Value)
  | .stated _ | .unforeseen .. | .unknownProperties .. | .mute _ => []
  | .missingField _ field => [("field", .str field)]
  | .toolFailed tool _ => [("tool_name", tool)]
  | .stateNotSaved key _ => [("key", .str key)]
  | .missingCollaborator collaborator _ => [("collaborator", .str collaborator)]

theorem spell_of_isSpellable {p : Problem} (h : p.isSpellable = true) : p.spell = .ok p.message := by
  cases p <;> simp_all [spell, isSpellable]

theorem spell_of_not_isSpellable {p : Problem} (h : p.isSpellable = false) :
    ∃ crash, p.spell = .error crash := by
  cases p <;> simp_all [spell, isSpellable]

theorem spell_eq_ok {p : Problem} {text : String} (h : p.spell = .ok text) : p.message = text := by
  cases hspellable : p.isSpellable with
  | true => exact Except.ok.inj ((spell_of_isSpellable hspellable).symm.trans h)
  | false =>
    obtain ⟨crash, hcrash⟩ := spell_of_not_isSpellable hspellable
    cases h.symm.trans hcrash

/-- Where there are words for a problem, they can at worst not be written out. -/
theorem crash_of_voiced {p : Problem} {crash : Crash} (h : p.isMute = false)
    (hspell : p.spell = .error crash) : crash = .fault unspellable := by
  cases p with
  | mute instead => cases h
  | _ =>
    rw [spell] at hspell
    split at hspell
    · cases hspell
    · exact (Except.error.inj hspell).symm
    · nofun

end Problem

/-- What lay behind a step error. -/
inductive Cause where
  | fault (kind : Fault.Kind)
  | problem (p : Problem)
deriving DecidableEq, Repr, Inhabited

def Cause.label : Cause → String
  | .fault kind => kind.label
  | .problem p => p.label

/-- The failure of a step. The step's name and type are `null` until a step has claimed it. -/
structure StepError where
  problem : Problem
  stepName : Value := .null
  stepType : Value := .null
  cause? : Option Cause := none
deriving DecidableEq, Repr, Inhabited

def StepError.message (e : StepError) : String := e.problem.message

/-- What a step, or a collaborator it called, ends with when it cannot go on. -/
inductive Raised where
  | step (e : StepError)
  | fault (f : Fault)
  /-- Something that cannot be written out: trying to ends with a crash. -/
  | mute (kind : Fault.Kind) (instead : Crash)
deriving DecidableEq, Repr, Inhabited

def Crash.raised : Crash → Raised
  | .fault f => .fault f
  | .mute kind instead => .mute kind instead

theorem Crash.raised_ne_step (crash : Crash) (e : StepError) : crash.raised ≠ .step e := by
  cases crash <;> nofun

namespace Raised

/-- The text of what was raised, inside a message, which has to be written out. -/
def spell : Raised → Except Crash String
  | .step e => e.problem.spell
  | .fault f => .ok f.shown
  | .mute _ instead => .error instead

/-- The text of what was raised, or nothing where it cannot be written out. -/
def shown : Raised → String
  | .step e => e.message
  | .fault f => f.shown
  | .mute .. => ""

def isSpellable (raised : Raised) : Bool := raised.spell.isOk

/-- A step error, or what comes of writing out its message. -/
def ofStep (e : StepError) : Raised :=
  match e.problem.spell with
  | .ok _ => .step e
  | .error crash => crash.raised

/-- What was raised, as the cause of a further error. -/
def cause : Raised → Cause
  | .step e => .problem e.problem
  | .fault f => .fault f.kind
  | .mute kind _ => .fault kind

theorem spell_eq_ok {raised : Raised} {text : String} (h : raised.spell = .ok text) :
    raised.shown = text := by
  cases raised with
  | step e => exact Problem.spell_eq_ok h
  | fault f => exact Except.ok.inj h
  | mute kind instead => cases h

theorem isSpellable_iff {raised : Raised} :
    raised.isSpellable = true ↔ raised.spell = .ok raised.shown := by
  unfold isSpellable
  cases h : raised.spell with
  | error crash => exact ⟨nofun, nofun⟩
  | ok text => exact ⟨fun _ => by rw [spell_eq_ok h], fun _ => rfl⟩

theorem not_isSpellable_iff {raised : Raised} :
    raised.isSpellable = false ↔ ∃ crash, raised.spell = .error crash := by
  unfold isSpellable
  cases raised.spell with
  | error crash => exact ⟨fun _ => ⟨crash, rfl⟩, fun _ => rfl⟩
  | ok text => exact ⟨nofun, nofun⟩

theorem isSpellable_of_spell {raised : Raised} {text : String} (h : raised.spell = .ok text) :
    raised.isSpellable = true := by
  rw [isSpellable, h]
  rfl

theorem not_isSpellable_of_spell {raised : Raised} {crash : Crash} (h : raised.spell = .error crash) :
    ¬ raised.isSpellable = true := by
  rw [isSpellable, h]
  exact Bool.false_ne_true

/-- An error for which there are words is raised, or the fault of writing them out. -/
theorem isSpellable_ofStep {e : StepError} (h : e.problem.isMute = false) :
    (ofStep e).isSpellable = true := by
  unfold ofStep
  cases hspell : e.problem.spell with
  | ok text =>
    have hok : (step e).spell = .ok text := hspell
    exact isSpellable_of_spell hok
  | error crash =>
    rw [Problem.crash_of_voiced h hspell]
    rfl

end Raised

/-! ## Errors before a run -/

/-- Why a workflow cannot be read, checked or started. -/
inductive Error where
  | fault (f : Fault)
  /-- A collaborator has given up with something that cannot be written out. -/
  | mute (kind : Fault.Kind)
  /-- A required input is absent. -/
  | missingInput (field : Key)
  /-- An input has the wrong type. -/
  | wrongInput (field : Key) (expected actual : String)
  /-- The workflow is not well formed. -/
  | invalidWorkflow (errors : List String)
  /-- A step has a type that does not exist. -/
  | unknownStepType (type name : Value)
  /-- A step refers to a step that is not defined before it. -/
  | unknownReference (step : Value) (reference : String)
deriving DecidableEq, Repr, Inhabited

namespace Error

/-- The message of an error, or nothing where there are no words for it. -/
def message : Error → String
  | .fault f => f.shown
  | .mute _ => ""
  | .missingInput field => "Missing required input field: " ++ field.text
  | .wrongInput field expected _ =>
    "Input field '" ++ field.text ++ "' must be a " ++ expected
  | .invalidWorkflow errors => "Invalid workflow: " ++ ", ".intercalate errors
  | .unknownStepType type name =>
    "Unknown step type: " ++ type.text
      ++ (if name.truthy then " (step '" ++ name.text ++ "')" else "")
  | .unknownReference step reference =>
    "Step '" ++ step.text ++ "' references unknown or later step '" ++ reference ++ "'"

/-- The message of the error can be written out; that of a crash is not looked at. -/
def isSpellable : Error → Bool
  | .missingInput field => field.isSpellable
  | .wrongInput field _ _ => field.isSpellable
  | .unknownStepType type name => type.isSpellable && name.isSpellable
  | .unknownReference step _ => step.isSpellable
  | .fault _ | .mute _ | .invalidWorkflow _ => true

/-- The error, or the fault of a message that cannot be written out. -/
def spelled (e : Error) : Error := if e.isSpellable then e else .fault unspellable

def label : Error → String
  | .fault f => f.kind.label
  | .mute kind => kind.label
  | .missingInput _ => "MissingInputError"
  | .wrongInput .. => "TypeMismatchError"
  | .invalidWorkflow _ => "InvalidWorkflowError"
  | .unknownStepType .. => "UnknownStepTypeError"
  | .unknownReference .. => "UnknownStepReferenceError"

/-- The data reported along with an error's message. -/
def details : Error → Value
  | .wrongInput _ expected actual => .record [("expected", .str expected), ("actual", .str actual)]
  | .invalidWorkflow errors => .record [("errors", .list (errors.map .str))]
  | .unknownReference step reference => .record [("step", step), ("reference", .str reference)]
  | _ => .dict []

def fields : Error → List (String × Value)
  | .fault _ | .mute _ => []
  | .missingInput field => [("field", field.toValue)]
  | .wrongInput field expected _ => [("field", field.toValue), ("expected", .str expected)]
  | .invalidWorkflow errors => [("errors", .list (errors.map .str))]
  | .unknownStepType type name => [("step_type", type), ("step_name", name)]
  | .unknownReference step reference => [("step_name", step), ("reference", .str reference)]

instance : MonadLift (Except Fault) (Except Error) where
  monadLift
    | .ok a => .ok a
    | .error f => .error (.fault f)

end Error

end Stepwise
