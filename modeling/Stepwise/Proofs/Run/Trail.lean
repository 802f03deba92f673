-- SUMMARY: The history of a fresh run: what was completed in post-order, then what failed, from the inside out.
import Mathlib.Data.List.Chain
import Stepwise.Proofs.Resume.Saved
import Stepwise.Proofs.Run.Raised
import Stepwise.Proofs.Step.Postorder
import Stepwise.Proofs.Workflow.Names

/-!
# The trail of a run

Each step that a run sets to work leaves one entry in the history when it ends. So the
entries come in the order in which steps end, and all of them tell of completed steps as
long as the run goes on. What fails ends the run: the entry of the failed step is followed by
those of its containers, each of which fails with it.
-/

namespace Stepwise

variable {σ : Type}

/-! ## Headings -/

/-- What an entry of the history tells besides the output: of which step it is, and how it ended. -/
def StepResult.heading (r : StepResult) : Value × Value × StepStatus := (r.step, r.type, r.status)

def Step.heading (status : StepStatus) (s : Step) : Value × Value × StepStatus :=
  (s.name, .str s.type, status)

@[simp] theorem StepResult.heading_settle (log : List Value) (r : StepResult) :
    (r.settle log).heading = r.heading := rfl

@[simp] theorem StepLabel.heading_completed (s : Step) (output : Value) :
    (s.label.completed output).heading = s.heading .completed := rfl

@[simp] theorem StepLabel.heading_failed (s : Step) (e : Raised) :
    (s.label.failed e).heading = s.heading .failed := rfl

/-! ## What a task adds -/

theorem Place.enter_results (p : Place) (index : Int) (c : Context) :
    (p.enter index c).results = c.results := by
  cases p <;> rfl

theorem Place.leave_results (p : Place) (c : Context) : (p.leave c).results = c.results := by
  cases p <;> rfl

namespace Task

def postorder : Task → List Step
  | .step s => s.postorder
  | .body s => s.innerPostorder
  | .steps _ _ ss => Step.postorderOf ss

/-- The outermost step of a task that can fail: the step itself, one that it contains, or one of the
sequence, which the run has come to if it is the sequence of the workflow. -/
def FailsAt (task : Task) (c : Context) (x : Step) : Prop :=
  match task with
  | .step s => x = s
  | .body s => s.Contains x
  | .steps p index ss => ∃ k : Nat, ss[k]? = some x ∧
      match p with
      | .top => c.currentStep = .int (index + k)
      | .branch _ => True

/-- The entries that a task adds to the history: of steps that were completed, and of steps that
failed, each contained in the next. -/
structure Adds (task : Task) (c d : Context) (r : Except Raised Value) (done broken : List Step) :
    Prop where
  entries : ∃ added, d.results = c.results ++ added ∧
    added.map StepResult.heading
      = done.map (Step.heading .completed) ++ broken.map (Step.heading .failed)
  order : (done ++ broken).Sublist task.postorder
  chain : broken.IsChain fun x s => s.Contains x
  whole : r.isOk = true → broken = []
  outermost : ∀ x ∈ broken.getLast?, task.FailsAt d x
  /-- A step error that gets out of a step is that of a step which has failed. -/
  claimed : ∀ e, r = .error (.step e) → broken = [] → ∃ s, task = .body s
  /-- What gets out of a step that has failed can be written out. -/
  spellable : ∀ raised, r = .error raised → broken ≠ [] → raised.isSpellable = true

namespace Adds

variable {task : Task} {c d : Context} {r : Except Raised Value} {done broken : List Step}

/-- A task that adds no entry. -/
theorem none (hresults : d.results = c.results)
    (hclaimed : ∀ e, r = .error (.step e) → ∃ s, task = .body s) : task.Adds c d r [] [] where
  entries := ⟨[], by simp [hresults], rfl⟩
  order := List.nil_sublist _
  chain := .nil
  whole := fun _ => rfl
  outermost := by
    intro x hx
    cases hx
  claimed := fun e he _ => hclaimed e he
  spellable := fun _ _ hne => absurd rfl hne

/-- The end of a step that is completed is recorded behind what its body adds. -/
theorem completed {s : Step} {output : Value} (h : Adds (.body s) c d (.ok output) done broken) :
    Adds (.step s) c (d.record (s.label.completed output)) (.ok output) (done ++ [s]) [] where
  entries := by
    obtain ⟨added, hresults, hheadings⟩ := h.entries
    refine ⟨added ++ [s.label.completed output], ?_, ?_⟩
    · rw [Context.record_results, hresults, List.append_assoc]
    · rw [h.whole rfl] at hheadings
      simpa using hheadings
  order := by
    have horder := h.order
    rw [h.whole rfl, List.append_nil] at horder
    rw [List.append_nil, Task.postorder, s.postorder_eq]
    exact horder.append_right [s]
  chain := .nil
  whole := fun _ => rfl
  outermost := by
    intro x hx
    cases hx
  claimed := by
    intro e he
    cases he
  spellable := fun _ _ hne => absurd rfl hne

/-- The end of a step that fails is recorded behind that of the step which failed in it. -/
theorem failed {s : Step} {e : Raised} (hname : s.name.isSpellable = true)
    (hspellable : e.isSpellable = true) (h : Adds (.body s) c d (.error e) done broken) :
    Adds (.step s) c (d.record (s.label.failed e)) (.error (.step (s.label.claim e))) done
      (broken ++ [s]) where
  entries := by
    obtain ⟨added, hresults, hheadings⟩ := h.entries
    refine ⟨added ++ [s.label.failed e], ?_, ?_⟩
    · rw [Context.record_results, hresults, List.append_assoc]
    · simp [hheadings]
  order := by
    rw [← List.append_assoc, Task.postorder, s.postorder_eq]
    exact h.order.append_right [s]
  chain := by
    refine List.isChain_append.2 ⟨h.chain, .singleton s, ?_⟩
    intro x hx y hy
    cases hy
    exact h.outermost x hx
  whole := by
    intro hok
    cases hok
  outermost := by
    intro x hx
    rw [List.getLast?_concat] at hx
    exact (Option.some.inj hx).symm
  claimed := by
    intro _ _ hnil
    simp at hnil
  spellable := by
    intro _ he _
    cases he
    exact StepLabel.isSpellable_claim hname hspellable

/-- What has been raised in a step but cannot be written out is not that of a step in it, and adds no
entry. -/
theorem unreported {s : Step} {e : Raised} {crash : Crash} (hmute : e.spell = .error crash)
    (h : Adds (.body s) c d (.error e) done broken) :
    Adds (.step s) c d (.error crash.raised) done [] := by
  obtain rfl : broken = [] := by
    by_contra hne
    exact Raised.not_isSpellable_of_spell hmute (h.spellable e rfl hne)
  exact {
    entries := h.entries
    order := by
      refine h.order.trans ?_
      rw [Task.postorder, Task.postorder, s.postorder_eq]
      exact List.sublist_append_left _ _
    chain := .nil
    whole := fun _ => rfl
    outermost := fun _ hx => by cases hx
    claimed := fun e' he => absurd (Except.error.inj he) (crash.raised_ne_step e')
    spellable := fun _ _ hne => absurd rfl hne }

/-- What a branch adds its container adds. -/
theorem branch {s : Step} {name : String} {index : Int} {ss : List Step} (output : Value)
    (hbranch : s.branchNamed? name = some ss)
    (h : Adds (.steps (.branch name) index ss) c d r done broken) :
    Adds (.body s) c d (r.map fun _ => output) done broken where
  entries := h.entries
  order := h.order.trans (Step.branchNamed?_postorder_sublist hbranch)
  chain := h.chain
  whole := fun hok => h.whole (Checks.isOk_map ▸ hok)
  outermost := by
    intro x hx
    obtain ⟨k, hk, -⟩ := h.outermost x hx
    exact Step.contains_of_branchNamed? hbranch (List.mem_of_getElem? hk)
  claimed := fun _ _ _ => ⟨s, rfl⟩
  spellable := by
    intro raised he
    cases r with
    | error raised' =>
      cases he
      exact h.spellable raised rfl
    | ok => cases he

/-- What the first step of a sequence adds, when the run goes no further. -/
theorem first {p : Place} {index : Int} {s : Step} {ss : List Step} {q : Except Raised Value}
    (hok : q.isOk = true → r.isOk = true) (herror : ∀ e, q = .error e → r = .error e)
    (hstep : d.currentStep = (p.enter index c).currentStep)
    (h : Adds (.step s) (p.enter index c) d r done broken) :
    Adds (.steps p index (s :: ss)) c (p.leave d) q done broken where
  entries := by
    obtain ⟨added, hresults, hheadings⟩ := h.entries
    exact ⟨added, by rw [p.leave_results, hresults, p.enter_results], hheadings⟩
  order := h.order.trans (List.sublist_append_left _ _)
  chain := h.chain
  whole := fun hq => h.whole (hok hq)
  outermost := by
    intro x hx
    cases h.outermost x hx
    refine ⟨0, rfl, ?_⟩
    cases p with
    | top => simpa [Place.enter, Place.leave, Context.atStep] using hstep
    | branch name => trivial
  claimed := by
    intro e he hnil
    obtain ⟨_, hbody⟩ := h.claimed e (herror _ he) hnil
    cases hbody
  spellable := fun raised he => h.spellable raised (herror raised he)

/-- What the first step of a sequence and the later ones add. -/
theorem next {p : Place} {index : Int} {s : Step} {ss : List Step} {output : Value} {f : Context}
    {done' broken' : List Step}
    (h : Adds (.step s) (p.enter index c) d (.ok output) done broken)
    (h' : Adds (.steps p (index + 1) ss) (p.leave d) f r done' broken') :
    Adds (.steps p index (s :: ss)) c f r (done ++ done') broken' where
  entries := by
    obtain ⟨added, hresults, hheadings⟩ := h.entries
    obtain ⟨added', hresults', hheadings'⟩ := h'.entries
    refine ⟨added ++ added', ?_, ?_⟩
    · rw [hresults', p.leave_results, hresults, p.enter_results, List.append_assoc]
    · rw [h.whole rfl, List.map_nil, List.append_nil] at hheadings
      rw [List.map_append, hheadings, hheadings', List.map_append, List.append_assoc]
  order := by
    have horder := h.order
    rw [h.whole rfl, List.append_nil] at horder
    rw [List.append_assoc]
    exact horder.append h'.order
  chain := h'.chain
  whole := h'.whole
  outermost := by
    intro x hx
    obtain ⟨k, hk, hplace⟩ := h'.outermost x hx
    refine ⟨k + 1, hk, ?_⟩
    cases p with
    | top =>
      have hindex : index + 1 + (k : Int) = index + ((k + 1 : Nat) : Int) := by omega
      rw [← hindex]
      exact hplace
    | branch name => trivial
  claimed := by
    intro e he hnil
    obtain ⟨_, hbody⟩ := h'.claimed e he hnil
    cases hbody
  spellable := h'.spellable

end Adds

end Task

/-- A task that is begun afresh adds entries of steps in post-order, completed as long as the run goes
on, and at last those of the steps that failed. -/
theorem Ran.adds {engine : Engine σ} {task : Task} {t u : Situation σ} {journal : List Start}
    {r : Except Raised Value} (h : Ran engine task t journal r u) (hpath : t.context.resumePath = []) :
    ∃ done broken, task.Adds t.context u.context r done broken := by
  induction h with
  | unnamed => exact ⟨_, _, .none rfl fun _ he => by cases he⟩
  | completed _ _ ih =>
    obtain ⟨done, broken, hadds⟩ := ih hpath
    exact ⟨_, _, hadds.completed⟩
  | failed hname hspellable _ ih =>
    obtain ⟨done, broken, hadds⟩ := ih hpath
    exact ⟨_, _, hadds.failed hname hspellable⟩
  | unreported _ hmute _ ih =>
    obtain ⟨done, broken, hadds⟩ := ih hpath
    exact ⟨_, _, hadds.unreported hmute⟩
  | action _ hplaced hperform =>
    obtain ⟨-, eff, -, hctx, -⟩ := Engine.perform_ends hplaced hperform
    exact ⟨_, _, .none (hctx ▸ eff.apply_results _) fun _ _ => ⟨_, rfl⟩⟩
  | refused => exact ⟨_, _, .none rfl fun _ _ => ⟨_, rfl⟩⟩
  | passed => exact ⟨_, _, .none rfl fun _ he => by cases he⟩
  | chosen _ _ hbranch _ _ ih =>
    obtain ⟨done, broken, hadds⟩ := ih hpath
    exact ⟨_, _, hadds.branch _ hbranch⟩
  | again hcons =>
    rw [hpath] at hcons
    cases hcons
  | done => exact ⟨_, _, .none rfl fun _ he => by cases he⟩
  | @broken p index _ _ _ _ _ _ hran ih =>
    obtain ⟨done, broken, hadds⟩ := ih ((p.enter_resumePath index _).trans hpath)
    exact ⟨_, _, hadds.first id (fun _ he => he) (hran.currentStep_eq rfl)⟩
  | @stopped p index _ _ _ _ _ _ hran _ ih =>
    obtain ⟨done, broken, hadds⟩ := ih ((p.enter_resumePath index _).trans hpath)
    exact ⟨_, _, hadds.first (fun _ => rfl) (fun _ he => by cases he) (hran.currentStep_eq rfl)⟩
  | @next p index _ _ _ u _ _ _ _ _ hran _ _ ih ih' =>
    obtain ⟨done, broken, hadds⟩ := ih ((p.enter_resumePath index _).trans hpath)
    obtain ⟨done', broken', hadds'⟩ := ih' (hran.leave_resumePath_eq_nil rfl p)
    exact ⟨_, _, hadds.next hadds'⟩

/-! ## Fresh runs -/

/-- The names of the steps of a well-formed workflow differ in every order. -/
theorem Workflow.WellNamed.nodup_of_sublist {w : Workflow} (h : w.WellNamed) {ss : List Step}
    (hss : ss.Sublist w.postorder) : (ss.map Step.name).Nodup := by
  refine (hss.map Step.name).nodup ?_
  rw [(w.postorder_perm.map Step.name).nodup_iff, ← w.names_eq_map]
  exact h.nodup

/-- The history of an outcome: the inputs, then the steps that were completed and those that failed in
post-order. Only in a failed outcome have steps failed: one, its container, and so on out to the step of
the workflow that the run had come to. -/
structure Outcome.HasTrail (o : Outcome) (w : Workflow) (inputs : Dict) (done broken : List Step) :
    Prop where
  input : o.context.results.head?
    = some ((Context.inputResult (.dict inputs)).settle o.context.logs)
  entries : o.context.results.tail.map StepResult.heading
    = done.map (Step.heading .completed) ++ broken.map (Step.heading .failed)
  order : (done ++ broken).Sublist w.postorder
  distinct : ((done ++ broken).map Step.name).Nodup
  chain : broken.IsChain fun x s => s.Contains x
  verdict : match o.verdict with
    | .completed .. | .suspended .. => broken = []
    | .failed _ => ∃ (s : Step) (k : Nat), broken.getLast? = some s ∧
        o.context.currentStep = .int k ∧ w.steps[k]? = some s

/-- What the steps of a workflow add to the history of a fresh run makes the trail of its outcome. -/
theorem Task.Adds.hasTrail {w : Workflow} (hnames : w.WellNamed) {inputs : Dict} {c d : Context}
    {r : Except Raised Value} {done broken : List Step}
    (hc : c.results = [Context.inputResult (.dict inputs)])
    (h : Task.Adds (.steps .top 0 w.steps) c d r done broken) {o : Outcome}
    (ho : conclude w r d = .ok o) : o.HasTrail w inputs done broken := by
  obtain ⟨added, hresults, hheadings⟩ := h.entries
  have hsettled (log : List Value) : (d.results.map (·.settle log)).head?
        = some ((Context.inputResult (.dict inputs)).settle log) ∧
      (d.results.map (·.settle log)).tail.map StepResult.heading
        = done.map (Step.heading .completed) ++ broken.map (Step.heading .failed) := by
    rw [hresults, hc, ← hheadings]
    refine ⟨rfl, ?_⟩
    simp [Function.comp_def]
  obtain ⟨e, rfl, rfl⟩ | ⟨v, rfl, rfl⟩ := conclude_eq_ok ho
  · refine ⟨(hsettled _).1, (hsettled _).2, h.order, hnames.nodup_of_sublist h.order, h.chain, ?_⟩
    have hne : broken ≠ [] := fun hnil => by
      obtain ⟨_, hbody⟩ := h.claimed e rfl hnil
      cases hbody
    obtain ⟨s, hs⟩ := Option.isSome_iff_exists.1 (List.getLast?_isSome.2 hne)
    obtain ⟨k, hk, hstep⟩ := h.outermost s hs
    rw [Int.zero_add] at hstep
    exact ⟨s, k, hs, hstep, hk⟩
  · refine ⟨?_, ?_, h.order, hnames.nodup_of_sublist h.order, h.chain, ?_⟩
    · rw [Outcome.ofContext_results, Outcome.ofContext_logs]
      exact (hsettled _).1
    · rw [Outcome.ofContext_results]
      exact (hsettled _).2
    · split
      · exact h.whole rfl
      · exact h.whole rfl
      · rename_i e he
        exact absurd he (Outcome.ofContext_ne_failed _ _ e)

/-- The history of every outcome of a fresh run is a trail through the workflow: it holds the inputs as
they were accepted, and the steps in the order in which they came to an end. -/
theorem fresh_run_trail (engine : Engine σ) (w : Workflow) (inputs : Value) (outside : σ) {o : Outcome}
    {outside' : σ} (h : run engine w { inputs } outside = (.ok o, outside')) :
    ∃ given accepted done broken, inputs.dictIfAny = .ok given ∧
      Input.accept w.inputs given = .ok accepted ∧ o.HasTrail w accepted done broken ∧
      (given.IsData → w.inputs.IsData →
        o.context.results.head? = some (Context.inputResult (.dict accepted))) := by
  cases hprepare : prepare w { inputs } with
  | error e =>
    rw [run_of_error hprepare] at h
    cases h
  | ok p =>
    obtain ⟨start, c⟩ := p
    have hprepared : Prepared w { inputs } start c := prepare_eq_ok.1 hprepare
    obtain ⟨rfl, given, accepted, hgiven, haccepted, rfl⟩ := hprepared.fresh
    obtain ⟨q, u, hconclude, hran⟩ :=
      run_ran engine hprepared (Request.hasIntegerPath_of_null rfl) outside
    obtain ⟨done, broken, hadds⟩ := hran.adds rfl
    rw [hconclude] at h
    have htrail : o.HasTrail w accepted done broken :=
      hadds.hasTrail (Workflow.wellNamed hprepared.wellformed) rfl (Prod.mk.inj h).1
    refine ⟨given, accepted, done, broken, hgiven, haccepted, htrail, fun hdata hdefaults => ?_⟩
    have hsettled : Value.isSettled (.dict accepted) = true :=
      Value.isSettled_dict.2 (Input.isData_of_accept hdata hdefaults haccepted)
    rw [htrail.input, StepResult.settle, Context.inputResult, Value.settle_of_isSettled _ _ hsettled]

/-- A workflow that takes a decision in which a step fails. -/
def failsInBranch : Workflow where
  name := .str "decision"
  steps := [
    .action (.str "note") (.log (.str "begun")),
    .conditional (.str "outer") (.str "true") [
      .conditional (.str "inner") (.str "false") [] [
        .action (.str "told") (.log (.str "inside")),
        .action (.str "call") (.callTool (.str "tool") .null .null)]] [],
    .action (.str "after") (.log (.str "not reached"))]

/-- The failed step, the two conditionals around it, and before them what was completed. -/
theorem fresh_run_trail_of_failsInBranch :
    ∃ o accepted done broken, run ({} : Engine Unit) failsInBranch {} () = (.ok o, ()) ∧
      o.HasTrail failsInBranch accepted done broken ∧
      o.context.results.map (fun r => (r.step, r.status)) = [(.str "input", .completed),
        (.str "note", .completed), (.str "told", .completed), (.str "call", .failed),
        (.str "inner", .failed), (.str "outer", .failed)] := by
  have hheadings : (run ({} : Engine Unit) failsInBranch {} ()).1.toOption.map
      (fun o => o.context.results.map fun r => (r.step, r.status))
        = some [(.str "input", .completed), (.str "note", .completed), (.str "told", .completed),
            (.str "call", .failed), (.str "inner", .failed), (.str "outer", .failed)] := by
    decide +kernel
  rcases hrun : run ({} : Engine Unit) failsInBranch {} () with ⟨e | o, ⟨⟩⟩
  · rw [hrun] at hheadings
    cases hheadings
  · rw [hrun] at hheadings
    obtain ⟨given, accepted, done, broken, -, -, htrail, -⟩ :=
      fresh_run_trail ({} : Engine Unit) failsInBranch .null () hrun
    exact ⟨o, accepted, done, broken, rfl, htrail, Option.some.inj hheadings⟩

end Stepwise
