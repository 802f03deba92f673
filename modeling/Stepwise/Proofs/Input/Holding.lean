-- SUMMARY: Runs on inputs that a caller holds: admission in place, on a copy of the caller's dictionary.
import Stepwise.Proofs.Resume.Saved

/-!
# Inputs that are held

A caller hands over a dictionary that it goes on holding, and admission wraps scalars and
fills in defaults in the very dictionary that it is given. So it matters which dictionary
that is. Here dictionaries are held at places, admission writes to a place, and a run works
on a copy. The run is the one on values, and what the caller holds stays as it is.
-/

namespace Stepwise

variable {σ : Type}

/-! ## Places -/

/-- Dictionaries that are held, each at its place. -/
abbrev Holding := List Dict

namespace Holding

/-- The dictionary at a place, empty where nothing is held. -/
def read (h : Holding) (place : Nat) : Dict := h[place]?.getD []

def put (h : Holding) (place : Nat) (d : Dict) : Holding := h.set place d

def copy (h : Holding) (place : Nat) : Nat × Holding := (h.length, h ++ [h.read place])

@[simp] theorem read_append_length (h : Holding) (d : Dict) : Holding.read (h ++ [d]) h.length = d := by
  simp [read]

@[simp] theorem put_append_length (h : Holding) (d e : Dict) :
    Holding.put (h ++ [d]) h.length e = h ++ [e] := by
  simp [put]

end Holding

/-! ## Admission in place -/

namespace Input

/-- The admission of the inputs held at a place, parameter by parameter. -/
def acceptAt (place : Nat) : List (Key × InputParameter) → Holding → Except Error Unit × Holding
  | [], h => (.ok (), h)
  | (name, p) :: rest, h =>
    match acceptOne name p (h.read place) with
    | .ok inputs => acceptAt place rest (h.put place inputs)
    | .error e => (.error e, h)

/-- Admission in place is admission, and reaches no other place. -/
theorem acceptAt_eq (parameters : List (Key × InputParameter)) (h : Holding) (d : Dict) :
    acceptAt h.length parameters (h ++ [d])
      = ((acceptAll parameters d).1, h ++ [(acceptAll parameters d).2]) := by
  induction parameters generalizing d with
  | nil => rfl
  | cons e rest ih =>
    obtain ⟨name, p⟩ := e
    rw [acceptAt, acceptAll, Holding.read_append_length]
    cases acceptOne name p d with
    | error e => rfl
    | ok inputs =>
      dsimp only
      rw [Holding.put_append_length, ih]

/-- The scalar given for an array is wrapped where it is held. -/
example :
    acceptAt 0 [(.str "tags", { name := .str "tags", type := .str "array" })]
        [[(.str "tags", .str "new")]]
      = (.ok (), [[(.str "tags", .list [.str "new"])]]) := rfl

end Input

/-! ## Runs -/

def Request.withInputs (r : Request) (inputs : Dict) : Request := { r with inputs := .dict inputs }

/-- The starting point of a run whose inputs have been accepted. -/
def prepareWith (w : Workflow) (r : Request) (inputs : Dict) : Except Error (Int × Context) := do
  w.requireReferences
  (w.requireStart r.startStep : Except Fault Unit)
  (w.requirePath r.startStep r.resumePath : Except Fault Unit)
  let c ← (Context.ofParts (r.parts w inputs) : Except Fault Context)
  let _ ← (w.name.spell : Except Fault String)
  let start ← (Workflow.startIndex r.startStep : Except Fault Int)
  return (start, c)

/-- Run a workflow with the inputs that the caller holds at a place. Only the copy is written to. -/
def runAt (engine : Engine σ) (w : Workflow) (r : Request) (place : Nat) (h : Holding) (outside : σ) :
    (Except Error Outcome × σ) × Holding :=
  match w.requireWellformed with
  | .error e => ((.error e, outside), h)
  | .ok () =>
    let (own, h) := h.copy place
    match Input.acceptAt own w.inputs.parameters h with
    | (.error e, h) => ((.error e, outside), h)
    | (.ok (), h) =>
      match prepareWith w r (h.read own) with
      | .error e => ((.error e, outside), h)
      | .ok (start, context) => (execute engine w start { context, outside }, h)

/-- A run is prepared by the checks of the workflow, the admission of the inputs, and the rest. -/
theorem prepare_withInputs (w : Workflow) (r : Request) (inputs : Dict) :
    prepare w (r.withInputs inputs) = (do
      w.requireWellformed
      prepareWith w r (← Input.accept w.inputs inputs)) := by
  unfold prepare prepareWith
  simp only [Request.withInputs, Value.dictIfAny_dict]
  rfl

/-- A run on inputs that are held is the run on their values, and adds a dictionary of its own at most
to what is held. -/
theorem runAt_spec (engine : Engine σ) (w : Workflow) (r : Request) (place : Nat) (h : Holding)
    (outside : σ) :
    (runAt engine w r place h outside).1 = run engine w (r.withInputs (h.read place)) outside ∧
      h <+: (runAt engine w r place h outside).2 := by
  rw [runAt, run, prepare_withInputs]
  cases w.requireWellformed with
  | error e => exact ⟨rfl, List.prefix_rfl⟩
  | ok =>
    dsimp only [Holding.copy]
    rw [Checks.ok_bind, Input.acceptAt_eq, Input.accept]
    rcases Input.acceptAll w.inputs.parameters (h.read place) with ⟨e | _, inputs⟩
    · exact ⟨rfl, List.prefix_append _ _⟩
    · dsimp only
      rw [Holding.read_append_length, Checks.ok_bind]
      rcases prepareWith w r inputs with e | ⟨start, context⟩
      · exact ⟨rfl, List.prefix_append _ _⟩
      · exact ⟨rfl, List.prefix_append _ _⟩

end Stepwise
