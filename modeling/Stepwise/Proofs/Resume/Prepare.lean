-- SUMMARY: What the checks before a run establish, and the run from there as a derivation.
import Stepwise.Proofs.Resume.Path
import Stepwise.Proofs.Run.Reach

/-!
# Prepared runs

A run that has been prepared starts at a step of the workflow or behind the last one, in a
context that nothing has stopped, with a resume path that leads through the step it starts
at. So the rules of `Ran` apply to it from its first step to its last.
-/

namespace Stepwise

variable {σ : Type}

def Request.HasIntegerPath (r : Request) : Prop :=
  ∀ path, r.resumePath.itemsIfAny = .ok path → ∀ frame ∈ path, Frame.HasIntegerIndex frame

def Request.parts (w : Workflow) (r : Request) (inputs : Dict) : Context.Parts where
  inputs := .dict inputs
  bindings := r.bindings
  results := r.results
  logs := r.logs
  workflowName := w.name
  resumePath := r.resumePath

/-- The checks that a prepared run has passed. -/
structure Prepared (w : Workflow) (r : Request) (start : Int) (c : Context) : Prop where
  wellformed : w.requireWellformed = .ok ()
  references : w.requireReferences = .ok ()
  startable : w.requireStart r.startStep = .ok ()
  enterable : w.requirePath r.startStep r.resumePath = .ok ()
  context : ∃ given inputs, r.inputs.dictIfAny = .ok given ∧
    Input.accept w.inputs given = .ok inputs ∧ Context.ofParts (r.parts w inputs) = .ok c
  named : w.name.isSpellable = true
  index : Workflow.startIndex r.startStep = .ok start

open Checks

theorem prepare_eq_ok {w : Workflow} {r : Request} {start : Int} {c : Context} :
    prepare w r = .ok (start, c) ↔ Prepared w r start c := by
  have hspell : w.name.isSpellable = true ↔ ∃ text, w.name.spell = .ok text := by
    unfold Value.spell
    split <;> simp_all
  simp only [prepare, bind_iff, lift_iff, pure_iff, Prod.mk.injEq]
  constructor
  · rintro ⟨_, hwell, given, hgiven, inputs, hinputs, _, hrefs, _, hstart, _, hpath, c', hc, text,
      htext, n, hn, rfl, rfl⟩
    exact ⟨hwell, hrefs, hstart, hpath, ⟨given, inputs, hgiven, hinputs, hc⟩,
      hspell.2 ⟨text, htext⟩, hn⟩
  · rintro ⟨hwell, hrefs, hstart, hpath, ⟨given, inputs, hgiven, hinputs, hc⟩, hnamed, hn⟩
    obtain ⟨text, htext⟩ := hspell.1 hnamed
    exact ⟨(), hwell, given, hgiven, inputs, hinputs, (), hrefs, (), hstart, (), hpath, c, hc, text,
      htext, start, hn, rfl, rfl⟩

/-! ## The context of a prepared run -/

/-- A context is made from parts that can be read, one by one. -/
theorem Context.ofParts_eq_ok {p : Context.Parts} {c : Context} :
    Context.ofParts p = .ok c ↔
      ∃ bindings logs given results path resumePath,
        p.bindings.dictIfAny = .ok bindings ∧ p.logs.itemsIfAny = .ok logs ∧
        p.results.itemsIfAny = .ok given ∧ given.mapM StepResult.ofValue = .ok results ∧
        p.resumePath.itemsIfAny = .ok path ∧ path.mapM Value.toDict = .ok resumePath ∧
        c = {
          inputs := if p.inputs.isNull then .dict [] else p.inputs
          bindings, logs, workflowName := p.workflowName, resumePath
          results := if results.isEmpty then
            [inputResult (if p.inputs.isNull then .dict [] else p.inputs)] else results } := by
  simp only [ofParts, bind_iff, pure_iff]
  constructor
  · rintro ⟨bindings, hb, logs, hl, given, hg, results, hr, path, hp, resumePath, hd, rfl⟩
    refine ⟨bindings, logs, given, results, path, resumePath, hb, hl, hg, hr, hp, hd, ?_⟩
    cases results <;> rfl
  · rintro ⟨bindings, logs, given, results, path, resumePath, hb, hl, hg, hr, hp, hd, rfl⟩
    refine ⟨bindings, hb, logs, hl, given, hg, results, hr, path, hp, resumePath, hd, ?_⟩
    cases results <;> rfl

/-! ## Starting points -/

namespace Workflow

variable {w : Workflow} {start path : Value} {n : Int}

theorem number?_of_startIndex (h : startIndex start = .ok n) : start.number? = some (.int n) := by
  unfold startIndex at h
  split at h
  · cases h
    rfl
  · cases h
    rfl
  · cases h

/-- A run may start at any step of the workflow, and behind the last one. -/
theorem requireStart_iff (h : startIndex start = .ok n) :
    w.requireStart start = .ok () ↔ 0 ≤ n ∧ n ≤ w.size := by
  simp only [requireStart, number?_of_startIndex h, Number.same_int, Number.less_int]
  split
  · rename_i hwithin
    simp only [Bool.and_eq_true, Bool.or_eq_true, decide_eq_true_eq] at hwithin
    exact iff_of_true rfl (by omega)
  · rename_i hwithin
    simp only [Bool.and_eq_true, Bool.or_eq_true, decide_eq_true_eq] at hwithin
    exact iff_of_false nofun (by omega)

/-- A path that is given has to lead through the step that the run starts at. -/
theorem requirePath_iff (h : startIndex start = .ok n) (hpath : path.truthy = true) (hn : 0 ≤ n) :
    w.requirePath start path = .ok () ↔
      ∃ container frames, w.steps[n.toNat]? = some container ∧ path.items = .ok frames ∧
        ResumePath.check container frames = .ok () := by
  have hend : (!Number.less (.int n) (.int w.size)) = decide (w.size ≤ n) := by
    rw [Number.less_int]
    by_cases hlt : n < w.size
    · simp [hlt, Int.not_le.2 hlt]
    · simp [hlt, Int.not_lt.1 hlt]
  simp only [requirePath, hpath, Bool.not_true, Bool.false_eq_true, if_false,
    number?_of_startIndex h, hend, h, ok_bind]
  by_cases hbehind : w.size ≤ n
  · have hnone : w.steps[n.toNat]? = none := by
      rw [List.getElem?_eq_none_iff]
      unfold Workflow.size at hbehind
      omega
    simp [hbehind, hnone, bind_iff, throw_iff]
  · simp only [hbehind, decide_false, Bool.false_eq_true, if_false]
    cases w.steps[n.toNat]? with
    | none => simp [throw_iff]
    | some container => simp [bind_iff]

end Workflow

/-- The context that a run of the workflow starts with, whatever it has been given. -/
structure Context.StartsRun (c : Context) (w : Workflow) : Prop where
  running : c.IsRunning
  position : c.position = []
  workflowName : c.workflowName = w.name
  currentStep : c.currentStep = .int 0
  suspendedPath : c.suspendedPath = []

namespace Prepared

variable {w : Workflow} {r : Request} {start : Int} {c : Context}

theorem startsRun (h : Prepared w r start c) : c.StartsRun w := by
  obtain ⟨given, inputs, -, -, hc⟩ := h.context
  obtain ⟨_, _, _, _, _, _, _, _, _, _, _, _, rfl⟩ := Context.ofParts_eq_ok.1 hc
  exact ⟨⟨rfl, rfl⟩, rfl, rfl, rfl, rfl⟩

/-- A run from the beginning starts at the first step, in a context that holds the accepted inputs and
nothing else. -/
theorem fresh {inputs : Value} (h : Prepared w { inputs } start c) :
    start = 0 ∧ ∃ given accepted, inputs.dictIfAny = .ok given ∧
      Input.accept w.inputs given = .ok accepted ∧ c = {
        inputs := .dict accepted
        workflowName := w.name
        results := [Context.inputResult (.dict accepted)] } := by
  obtain ⟨given, accepted, hgiven, haccepted, hc⟩ := h.context
  exact ⟨(Except.ok.inj h.index).symm, given, accepted, hgiven, haccepted, (Except.ok.inj hc).symm⟩

theorem bounds (h : Prepared w r start c) : 0 ≤ start ∧ start ≤ w.size :=
  (Workflow.requireStart_iff h.index).1 h.startable

/-- The resume path of a prepared run is read from the one that it was given. -/
theorem resumePath (h : Prepared w r start c) :
    ∃ path, r.resumePath.itemsIfAny = .ok path ∧ path.mapM Value.toDict = .ok c.resumePath := by
  obtain ⟨given, inputs, -, -, hc⟩ := h.context
  obtain ⟨_, _, _, _, path, _, -, -, -, -, hitems, hdicts, rfl⟩ := Context.ofParts_eq_ok.1 hc
  exact ⟨path, hitems, hdicts⟩

/-- A prepared run is given dictionaries for its resume path, and the check has read frames from these
that lead through the step it starts at. -/
theorem led (h : Prepared w r start c) :
    r.resumePath.itemsIfAny = .ok (c.resumePath.map .dict) ∧
      ∃ fs, List.Forall₂ Frame.IsReadOf fs c.resumePath ∧
        Step.AdmitsIn fs (w.steps.drop start.toNat) := by
  obtain ⟨path, hitems, hdicts⟩ := h.resumePath
  cases htruthy : r.resumePath.truthy with
  | false =>
    rw [Value.itemsIfAny, htruthy] at hitems ⊢
    cases hitems
    rw [← Except.ok.inj hdicts]
    exact ⟨rfl, [], .nil, .inl rfl⟩
  | true =>
    obtain ⟨container, frames, hcontainer, hframes, hcheck⟩ :=
      (Workflow.requirePath_iff h.index htruthy h.bounds.1).1 h.enterable
    rw [Value.itemsIfAny, htruthy, if_pos rfl, hframes] at hitems ⊢
    cases hitems
    obtain ⟨ds, fs, rfl, hread, hadmits⟩ := ResumePath.check_eq_ok.1 hcheck
    obtain rfl : c.resumePath = ds := by
      rw [mapM_iff, List.map_map] at hdicts
      exact (List.map_inj_right fun _ _ => Except.ok.inj).1 hdicts.symm
    obtain ⟨rest, hdrop⟩ := exists_drop_eq_cons.2 hcontainer
    exact ⟨rfl, fs, hread, .inr ⟨container, rest, hdrop, hadmits⟩⟩

/-- So the path has passed the check for the steps that are run. -/
theorem checked (h : Prepared w r start c) :
    Task.Checked (.steps .top start (w.steps.drop start.toNat)) c :=
  ⟨⟨[], h.startsRun.position⟩, h.led.2⟩

/-- With integer indices, its frames are those that the run reads. -/
theorem admits (h : Prepared w r start c) (hint : r.HasIntegerPath) :
    c.IsLegible ∧ Step.AdmitsIn c.frames (w.steps.drop start.toNat) := by
  obtain ⟨hitems, fs, hread, hadmits⟩ := h.led
  obtain ⟨hlegible, rfl⟩ :=
    ResumePath.filterMap_of_isReadOf hread (List.forall_mem_map.1 (hint _ hitems))
  exact ⟨hlegible, hadmits⟩

theorem ready (h : Prepared w r start c) (hint : r.HasIntegerPath) :
    Task.Ready (.steps .top start (w.steps.drop start.toNat)) c where
  legible := (h.admits hint).1
  placed := ⟨[], h.startsRun.position⟩
  admits := (h.admits hint).2

end Prepared

/-! ## The run of a prepared context -/

/-- How a run ends when its steps have ended so. -/
def conclude (w : Workflow) (q : Except Raised Value) (c : Context) : Except Error Outcome :=
  match q with
  | .ok _ => .ok (.ofContext w.name c)
  | .error (.step e) => .ok (.ofError w.name c e)
  | .error (.fault f) => .error (.fault f)
  | .error (.mute kind _) => .error (.mute kind)

/-- A run has an outcome if its steps have ended with a step's error or with none. -/
theorem conclude_eq_ok {w : Workflow} {q : Except Raised Value} {c : Context} {o : Outcome}
    (h : conclude w q c = .ok o) :
    (∃ e, q = .error (.step e) ∧ o = .ofError w.name c e) ∨ ∃ v, q = .ok v ∧ o = .ofContext w.name c := by
  rcases q with (e | f | _) | v
  · exact .inl ⟨e, rfl, (Except.ok.inj h).symm⟩
  · cases h
  · cases h
  · exact .inr ⟨v, rfl, (Except.ok.inj h).symm⟩

/-- The steps of a run that has an outcome and has not failed have raised nothing. -/
theorem isOk_of_conclude {w : Workflow} {q : Except Raised Value} {c : Context} {o : Outcome}
    (h : conclude w q c = .ok o) (hgoes : ∀ e, o.verdict ≠ .failed e) : q.isOk = true := by
  obtain ⟨e, -, rfl⟩ | ⟨v, rfl, -⟩ := conclude_eq_ok h
  · exact absurd rfl (hgoes e)
  · rfl

/-- The steps that a run sets to work, each with the context that it finds. -/
def journal (engine : Engine σ) (w : Workflow) (r : Request) (outside : σ) : List Start :=
  match prepare w r with
  | .ok (start, context) =>
    (runAll engine start (w.steps.drop start.toNat) { context, outside }).2.started
  | .error _ => []

/-- A run ends as its steps do. -/
theorem execute_eq_conclude (engine : Engine σ) (w : Workflow) (start : Int) (t : Situation σ) :
    execute engine w start t
      = (conclude w (giveNothing (runAll engine start (w.steps.drop start.toNat) t)).1
          (runAll engine start (w.steps.drop start.toNat) t).2.context,
        (runAll engine start (w.steps.drop start.toNat) t).2.outside) := by
  unfold execute
  rcases runAll engine start (w.steps.drop start.toNat) t with ⟨(_ | _ | _) | _, u⟩ <;> rfl

theorem Prepared.run_eq {w : Workflow} {r : Request} {start : Int} {c : Context}
    (h : Prepared w r start c) (engine : Engine σ) (outside : σ) :
    run engine w r outside = execute engine w start { context := c, outside } := by
  rw [run, prepare_eq_ok.2 h]

/-- A prepared run goes by the rules, through the steps of its journal. -/
theorem run_ran_of_checked (engine : Engine σ) {w : Workflow} {r : Request} {start : Int} {c : Context}
    (h : Prepared w r start c)
    (hchecked : Task.Checked (.steps .top start (w.steps.drop start.toNat)) c) (outside : σ) :
    ∃ q u, run engine w r outside = (conclude w q u.context, u.outside) ∧
      Ran engine (.steps .top start (w.steps.drop start.toNat)) { context := c, outside }
        (journal engine w r outside) q u := by
  obtain ⟨starts, hran⟩ := ran_runAll engine _ start { context := c, outside } hchecked
  have hjournal : journal engine w r outside = starts := by
    rw [journal, prepare_eq_ok.2 h]
    exact hran.started_eq
  rw [h.run_eq, execute_eq_conclude, hjournal]
  exact ⟨_, _, rfl, hran⟩

/-- So does one with integer indices in its resume path. -/
theorem run_ran (engine : Engine σ) {w : Workflow} {r : Request} {start : Int} {c : Context}
    (h : Prepared w r start c) (hint : r.HasIntegerPath) (outside : σ) :
    ∃ q u, run engine w r outside = (conclude w q u.context, u.outside) ∧
      Ran engine (.steps .top start (w.steps.drop start.toNat)) { context := c, outside }
        (journal engine w r outside) q u :=
  run_ran_of_checked engine h (h.ready hint).checked outside

end Stepwise
