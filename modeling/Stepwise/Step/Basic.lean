-- SUMMARY: Step definitions: the actions a step may take, and the steps that contain branches.
import Stepwise.Value.Basic

/-!
# Steps

A step has a name and does one of twelve things. Ten of them are actions; a conditional
and a switch contain further steps and run one of their branches. Most fields hold
dynamic values, since definitions come from data and are judged only when the step runs.
An absent value is kept apart from `null`.
-/

namespace Stepwise

/-! ## Actions -/

/-- What a step without branches does. -/
inductive Action where
  /-- Add a message to the log. -/
  | log (message : Value)
  /-- Bind a variable. -/
  | setVariable (target : Value) (value? : Option Value)
  /-- Call a tool. -/
  | callTool (tool parameters target : Value)
  /-- Call a registered function. -/
  | callFunction (function parameters target : Value)
  /-- End the run with a value. -/
  | finish (value? : Option Value)
  /-- Create an object of a template, or ask an agent for the properties that are open. -/
  | createObject (template properties : Value) (instructions : List Value) (target : Value)
  /-- Ask an agent to fill a template's properties. -/
  | loadObject (template : Value) (keys? : Option (List Value)) (instructions : List Value)
  /-- Hand instructions to an agent. -/
  | agent (instructions : List Value) (sampling : Bool) (target : Value)
  /-- Bind a variable to a stored value. -/
  | loadState (key default target : Value)
  /-- Store a value. -/
  | saveState (key : Value) (value? : Option Value)
deriving DecidableEq, Repr, Inhabited

/-- The kinds of action. -/
inductive ActionKind where
  | log | setVariable | callTool | callFunction | finish
  | createObject | loadObject | agent | loadState | saveState
deriving DecidableEq, Repr, Inhabited

/-- The type under which steps of a kind are written. -/
def ActionKind.name : ActionKind → String
  | .log => "log"
  | .setVariable => "set_variable"
  | .callTool => "call_tool"
  | .callFunction => "call_function"
  | .finish => "return"
  | .createObject => "create_object"
  | .loadObject => "load_object"
  | .agent => "agent"
  | .loadState => "load_state"
  | .saveState => "save_state"

/-- The kind of an action. -/
def Action.kind : Action → ActionKind
  | .log _ => .log
  | .setVariable .. => .setVariable
  | .callTool .. => .callTool
  | .callFunction .. => .callFunction
  | .finish _ => .finish
  | .createObject .. => .createObject
  | .loadObject .. => .loadObject
  | .agent .. => .agent
  | .loadState .. => .loadState
  | .saveState .. => .saveState

/-! ## Steps -/

/-- A step of a workflow. -/
inductive Step where
  | action (name : Value) (act : Action)
  /-- Run one of two branches, chosen by a condition. -/
  | conditional (name condition : Value) (thenSteps elseSteps : List Step)
  /-- Run the case of a value, or the default if there is one. -/
  | switch (name subject : Value) (cases : List (String × List Step))
      (default? : Option (List Step))
deriving Repr, Inhabited

/-- The kinds of step. -/
inductive StepKind where
  | action (kind : ActionKind)
  | conditional
  | switch
deriving DecidableEq, Repr, Inhabited

namespace StepKind

/-- The type under which steps of a kind are written. -/
def name : StepKind → String
  | .action kind => kind.name
  | .conditional => "conditional"
  | .switch => "switch"

def all : List StepKind :=
  [.action .log, .action .setVariable, .action .callTool, .action .callFunction, .conditional,
    .switch, .action .finish, .action .createObject, .action .loadObject, .action .agent,
    .action .loadState, .action .saveState]

def ofName? (type : String) : Option StepKind := all.find? fun kind => kind.name == type

theorem ofName?_name (kind : StepKind) : ofName? kind.name = some kind := by
  cases kind with
  | action kind => cases kind <;> rfl
  | conditional => rfl
  | switch => rfl

end StepKind

namespace Step

def name : Step → Value
  | .action name _ => name
  | .conditional name .. => name
  | .switch name .. => name

def kind : Step → StepKind
  | .action _ a => .action a.kind
  | .conditional .. => .conditional
  | .switch .. => .switch

def type (s : Step) : String := s.kind.name

end Step

/-! ## Equality -/

mutual

def Step.beq : Step → Step → Bool
  | .action n a, .action m b => n == m && a == b
  | .conditional n c t e, .conditional n' c' t' e' =>
    n == n' && c == c' && Step.beqList t t' && Step.beqList e e'
  | .switch n v cs none, .switch n' v' cs' none => n == n' && v == v' && Step.beqCases cs cs'
  | .switch n v cs (some d), .switch n' v' cs' (some d') =>
    n == n' && v == v' && Step.beqCases cs cs' && Step.beqList d d'
  | _, _ => false

def Step.beqList : List Step → List Step → Bool
  | [], [] => true
  | a :: as, b :: bs => Step.beq a b && Step.beqList as bs
  | _, _ => false

def Step.beqCases : List (String × List Step) → List (String × List Step) → Bool
  | [], [] => true
  | (k, a) :: as, (l, b) :: bs => k == l && Step.beqList a b && Step.beqCases as bs
  | _, _ => false

end

mutual

theorem Step.beq_iff : (a b : Step) → (Step.beq a b = true ↔ a = b)
  | .action _ _, b => by cases b <;> simp [Step.beq]
  | .conditional _ _ t e, b => by
    cases b with
    | conditional _ _ t' e' =>
      simp [Step.beq, Step.beqList_iff t t', Step.beqList_iff e e', and_assoc]
    | _ => simp [Step.beq]
  | .switch _ _ cs none, b => by
    cases b with
    | switch _ _ cs' d' => cases d' <;> simp [Step.beq, Step.beqCases_iff cs cs', and_assoc]
    | _ => simp [Step.beq]
  | .switch _ _ cs (some d), b => by
    cases b with
    | switch _ _ cs' d' =>
      cases d' with
      | none => simp [Step.beq]
      | some d' => simp [Step.beq, Step.beqCases_iff cs cs', Step.beqList_iff d d', and_assoc]
    | _ => simp [Step.beq]

theorem Step.beqList_iff : (as bs : List Step) → (Step.beqList as bs = true ↔ as = bs)
  | [], bs => by cases bs <;> simp [Step.beqList]
  | a :: as, bs => by
    cases bs with
    | nil => simp [Step.beqList]
    | cons b bs => simp [Step.beqList, Step.beq_iff a b, Step.beqList_iff as bs]

theorem Step.beqCases_iff :
    (as bs : List (String × List Step)) → (Step.beqCases as bs = true ↔ as = bs)
  | [], bs => by cases bs <;> simp [Step.beqCases]
  | (k, a) :: as, bs => by
    cases bs with
    | nil => simp [Step.beqCases]
    | cons b bs =>
      obtain ⟨l, b⟩ := b
      simp [Step.beqCases, Step.beqList_iff a b, Step.beqCases_iff as bs]

end

instance : DecidableEq Step := fun a b => decidable_of_iff _ (Step.beq_iff a b)

end Stepwise
