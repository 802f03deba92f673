-- SUMMARY: When a run raises: only before its first step, and nothing has been done then.
import Stepwise.Proofs.Input.Holding
import Stepwise.Proofs.Run.Induction
import Stepwise.Proofs.Run.Raised

/-!
# Raising

Whatever is raised inside a step, by a template, a condition or a collaborator, is claimed
by that step, and so it ends the run as a failure and not as an error. Two things are not
claimed: the fault of a step whose name cannot be written out, and what comes of writing out
what a collaborator has raised. Without these a run raises exactly what its preparation
raises, before anything has been done.
-/

namespace Stepwise

variable {σ : Type}

/-! ## Steps -/

/-- All that the work raises can be written out. -/
def RunM.IsArticulate {α : Type} (m : RunM σ α) : Prop :=
  m.Raises fun raised _ => raised.isSpellable = true

/-- A step that can be written out ends with an output or with a step's error. -/
theorem RunM.IsArticulate.recorded_ok_or_step {s : Step} {body : StepM σ Value}
    (h : RunM.IsArticulate body) (hname : s.name.isSpellable = true) (t : Situation σ) :
    (∃ result, (RunM.recorded s body t).1 = .ok result) ∨
      ∃ e, (RunM.recorded s body t).1 = .error (.step e) ∧ (Raised.step e).isSpellable = true := by
  rw [RunM.recorded_of_spellable hname]
  rcases hbody : body (t.start s) with ⟨raised | output, u⟩
  · have hspellable := h.apply hbody
    rw [RunM.closed_of_error hbody hspellable]
    exact .inr ⟨_, rfl, StepLabel.isSpellable_claim hname hspellable⟩
  · rw [RunM.closed_of_ok hbody]
    exact .inl ⟨_, rfl⟩

/-- A step raises its own fault at most, besides errors that can be written out. -/
theorem RunM.IsArticulate.recorded {s : Step} {body : StepM σ Value} (h : RunM.IsArticulate body) :
    RunM.IsArticulate (RunM.recorded s body) := by
  intro t
  unfold StepM.wp
  cases hname : s.name.isSpellable with
  | false =>
    rw [RunM.recorded_of_unspellable hname]
    exact Raised.isSpellable_iff.2 rfl
  | true =>
    have hends := h.recorded_ok_or_step hname t
    generalize RunM.recorded s body t = p at hends ⊢
    obtain ⟨raised | result, u⟩ := p
    · obtain ⟨_, ⟨⟩⟩ | ⟨e, ⟨⟩, he⟩ := hends
      exact he
    · trivial

namespace Engine.IsArticulate

variable {engine : Engine σ}

theorem opening_isArticulate (h : engine.IsArticulate) (s : Step) :
    RunM.IsArticulate (s.opening : StepM σ Opening) :=
  Step.opening_raises (h.mayRaise s.label (.log .null)).toMayRaise

theorem perform_isArticulate (h : engine.IsArticulate) (label : StepLabel) (act : Action) :
    RunM.IsArticulate (engine.perform label act) :=
  engine.perform_raises (h.mayRaise label act)

/-- So is a container, if the branches are that it may enter. -/
theorem container {s : Step} {branch : String → Nat → Int → RunM σ Unit} (h : engine.IsArticulate)
    (hs : s.isAction = false)
    (hbranch : ∀ name start ss, s.branchNamed? name = some ss →
      (runPortion start ss.length (branch name)).IsArticulate) :
    RunM.IsArticulate (s.opening >>= fun o => o.run branch) := by
  intro t
  have hopens := s.opening_opens hs t
  have hraises := h.opening_isArticulate s t
  rw [StepM.wp_bind]
  unfold StepM.wp at hraises ⊢
  generalize s.opening t = p at hopens hraises ⊢
  obtain ⟨raised | o, u⟩ := p
  · exact hraises
  · obtain ⟨path, -, henter⟩ := hopens.enters
    cases o with
    | pass output => trivial
    | enter name start ss output =>
      have hportion := hbranch name start ss (henter name start ss output rfl)
      exact (hportion.bind fun _ => .pure _) u

/-- All the work of an engine whose collaborators are articulate can be written out if it raises. -/
theorem upholds (h : engine.IsArticulate) : engine.Upholds fun _ m => m.IsArticulate where
  nothing := fun _ => .pure ()
  fault := fun _ f => fun _ => rfl
  mono := fun _ hm => hm
  atStep := fun index hm => .bind (.change (·.atStep index)) fun _ => hm
  within := by
    intro ss m frame hm t
    have hends := hm (t.change (·.enter frame.toValue))
    have heq : RunM.within frame m t = ((m (t.change (·.enter frame.toValue))).1,
      (m (t.change (·.enter frame.toValue))).2.change Context.leave) := rfl
    rw [StepM.wp, heq]
    rw [StepM.wp] at hends
    generalize m (t.change (·.enter frame.toValue)) = p at hends ⊢
    obtain ⟨raised | a, u⟩ := p
    · exact hends
    · trivial
  andThen := by
    intro α ss m rest hm hrest
    refine .bind hm fun _ t => ?_
    cases hstop : t.context.hasResult with
    | true =>
      rw [StepM.wp, RunM.unlessStopped_of_stopped hstop]
      trivial
    | false =>
      rw [StepM.wp, RunM.unlessStopped_of_running hstop]
      exact hrest t
  action := fun name act => .recorded (h.perform_isArticulate _ act)
  container := fun s branch hs hbranch => .recorded (h.container hs hbranch)

/-- A step that can be written out ends with an output or with a step's error. -/
theorem runStep_ok_or_step (h : engine.IsArticulate) {s : Step} (hname : s.name.isSpellable = true)
    (t : Situation σ) :
    (∃ result, (runStep engine s t).1 = .ok result) ∨ ∃ e, (runStep engine s t).1 = .error (.step e) := by
  have hbuilds := h.upholds.runStep_builds s
  generalize runStep engine s = m at hbuilds ⊢
  cases hbuilds with
  | action name act =>
    exact ((h.perform_isArticulate _ act).recorded_ok_or_step hname t).imp_right fun ⟨e, he, _⟩ => ⟨e, he⟩
  | container hs hbranch =>
    have hends := (h.container hs hbranch).recorded_ok_or_step hname t
    exact hends.imp_right fun ⟨e, he, _⟩ => ⟨e, he⟩

/-- So do steps in sequence, from wherever they are run. -/
theorem runAll_ok_or_step (h : engine.IsArticulate) {ss : List Step}
    (hnames : ∀ s ∈ ss, s.name.isSpellable = true) (index : Int) (t : Situation σ) :
    (runAll engine index ss t).1 = .ok () ∨ ∃ e, (runAll engine index ss t).1 = .error (.step e) := by
  induction ss generalizing index t with
  | nil => exact .inl rfl
  | cons s rest ih =>
    have hfirst := h.runStep_ok_or_step (hnames s (.head _)) (t.change (·.atStep index))
    rw [runAll_cons]
    generalize runStep engine s (t.change (·.atStep index)) = p at hfirst ⊢
    obtain ⟨raised | result, u⟩ := p
    · obtain ⟨_, ⟨⟩⟩ | ⟨e, ⟨⟩⟩ := hfirst
      exact .inr ⟨e, rfl⟩
    · dsimp only
      cases hstop : u.context.hasResult with
      | true =>
        rw [RunM.unlessStopped_of_stopped hstop]
        exact .inl rfl
      | false =>
        rw [RunM.unlessStopped_of_running hstop]
        exact ih (fun s hs => hnames s (.tail _ hs)) (index + 1) u

end Engine.IsArticulate

/-! ## Runs -/

/-- The names of the steps of the workflow itself can be written out, as all texts can. -/
def Workflow.HasSpellableSteps (w : Workflow) : Prop := ∀ s ∈ w.steps, s.name.isSpellable = true

/-- Once the steps run, the run has an outcome. -/
theorem execute_ok {engine : Engine σ} (hengine : engine.IsArticulate) {w : Workflow}
    (hnames : w.HasSpellableSteps) (start : Int) (t : Situation σ) :
    ∃ o, (execute engine w start t).1 = .ok o := by
  have hdrop : ∀ s ∈ w.steps.drop start.toNat, s.name.isSpellable = true :=
    fun s hs => hnames s (List.mem_of_mem_drop hs)
  have hends := hengine.runAll_ok_or_step hdrop start t
  unfold execute
  generalize runAll engine start (w.steps.drop start.toNat) t = p at hends ⊢
  obtain ⟨q, u⟩ := p
  obtain rfl | ⟨e, rfl⟩ := hends
  · exact ⟨_, rfl⟩
  · exact ⟨_, rfl⟩

/-- A run raises what its preparation raises, and nothing else. -/
theorem run_raises_iff {engine : Engine σ} (hengine : engine.IsArticulate) {w : Workflow}
    (hnames : w.HasSpellableSteps) (r : Request) (outside : σ) (e : Error) :
    (run engine w r outside).1 = .error e ↔ prepare w r = .error e := by
  cases hprepare : prepare w r with
  | error e' => simp [run_of_error hprepare]
  | ok p =>
    obtain ⟨o, ho⟩ := execute_ok hengine hnames p.1 { context := p.2, outside }
    have hrun : run engine w r outside = execute engine w p.1 { context := p.2, outside } := by
      rw [run, hprepare]
    simp [hrun, ho]

/-- A run is all or nothing about raising. -/
structure AllOrNothing (engine : Engine σ) (w : Workflow) (r : Request) (outside : σ) : Prop where
  /-- What has raised has set no step to work, and has asked nobody: every engine in every world raises
  the same and leaves its world as it is. -/
  raised : ∀ e, (run engine w r outside).1 = .error e → journal engine w r outside = [] ∧
    ∀ (τ : Type) (other : Engine τ) (world : τ), run other w r world = (.error e, world)
  /-- What has set a step to work has an outcome. -/
  begun : journal engine w r outside ≠ [] → ∃ o, (run engine w r outside).1 = .ok o
  /-- A run on inputs that a caller holds is the run on their values, and whatever it comes to, the
  caller holds what it held before. -/
  inputs : ∀ (h : Holding) (place : Nat),
    (runAt engine w r place h outside).1 = run engine w (r.withInputs (h.read place)) outside ∧
      h <+: (runAt engine w r place h outside).2

def brokenTools : Engine Nat where
  tools? := some fun _ _ calls => (.error (.fault (.runtime "out of order")), calls + 1)

theorem brokenTools_isArticulate : brokenTools.IsArticulate := by
  intro raised left hgives
  cases hgives with
  | tool hcall hraised =>
    cases hcall
    cases hraised
    rfl
  | template hprovider => cases hprovider
  | get hstore => cases hstore
  | set hstore => cases hstore
  | sampling hrequest => cases hrequest
  | function hmem => cases hmem

def toolInBranch : Workflow where
  name := .str "probe"
  steps := [.conditional (.str "choice") (.str "true")
    [.action (.str "call") (.callTool (.str "tool") .null .null)] []]

/-- A workflow with a step behind the first whose name is too long an integer to be written out. -/
def unspellableName : Workflow where
  name := .str "count"
  steps := [.action (.str "first") (.log (.str "begun")),
    .action (.int unspellableBound) (.log (.str "counted"))]

/-- An engine whose provider of templates raises what cannot be written out. -/
def muteTemplates : Engine Unit where
  templates? := some fun _ world => (.error (.mute .key (.fault unspellable)), world)

def asksTemplate : Workflow where
  name := .str "probe"
  steps := [.action (.str "load") (.loadObject (.int 1) none [])]

end Stepwise
