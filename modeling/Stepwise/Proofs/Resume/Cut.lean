-- SUMMARY: A run is the run of its first steps, resumed behind them from what they have left.
import Stepwise.Proofs.Resume.Saved
import Stepwise.Proofs.Run.Saving
import Stepwise.Proofs.Run.Simulation
import Stepwise.Proofs.Workflow.Prefix

/-!
# Cuts

A workflow can be cut behind any of its steps. If the steps before the cut pause the run,
end it or fail, that is all there is to the run of the whole workflow. Otherwise they leave
a savable context. What is saved of it is the context itself, save for the step that it has
come to, and so resuming at the cut is to go on.
-/

namespace Stepwise

variable {σ : Type}

/-! ## Steps in two parts -/

/-- Steps run as the first of them do and, unless these end the run, as the others do then. -/
theorem runAll_append (engine : Engine σ) (ss ss' : List Step) (index : Int) (t : Situation σ)
    (hgo : t.context.hasResult = false) :
    runAll engine index (ss ++ ss') t = match runAll engine index ss t with
      | (.ok (), u) => RunM.unlessStopped (runAll engine (index + ss.length) ss') u
      | (.error e, u) => (.error e, u) := by
  induction ss generalizing index t with
  | nil =>
    have hnil : runAll engine index [] t = (.ok (), t) := rfl
    rw [List.nil_append, hnil, List.length_nil, Int.natCast_zero, Int.add_zero]
    exact (RunM.unlessStopped_of_running hgo).symm
  | cons s ss ih =>
    have hindex : index + ((s :: ss).length : Int) = index + 1 + ss.length := by
      rw [List.length_cons]
      omega
    rw [hindex, List.cons_append, runAll_cons, runAll_cons]
    rcases runStep engine s (t.change (·.atStep index)) with ⟨e | r, u⟩
    · rfl
    · cases hstop : u.context.hasResult with
      | true =>
        dsimp only
        rw [RunM.unlessStopped_of_stopped hstop, RunM.unlessStopped_of_stopped hstop]
        exact (RunM.unlessStopped_of_stopped hstop).symm
      | false =>
        dsimp only
        rw [RunM.unlessStopped_of_running hstop, RunM.unlessStopped_of_running hstop]
        exact ih (index + 1) u hstop

/-- The first thing that steps do is to go to the first of them. -/
theorem runAll_atStep (engine : Engine σ) {ss : List Step} (hne : ss ≠ []) (index : Int)
    (t : Situation σ) :
    runAll engine index ss (t.change (·.atStep index)) = runAll engine index ss t := by
  cases ss with
  | nil => exact absurd rfl hne
  | cons s rest =>
    rw [runAll_cons, runAll_cons]
    rfl

/-- A run that starts at a step does not depend on where its context has come from. -/
theorem execute_congr (engine : Engine σ) (w : Workflow) {start : Int} {t u : Situation σ}
    (hne : w.steps.drop start.toNat ≠ [])
    (h : Situation.Agrees Eq (t.change (·.atStep start)) (u.change (·.atStep start))) :
    execute engine w start t = execute engine w start u := by
  obtain ⟨hanswer, hagrees⟩ :=
    runAll_simulates (Engine.Softens.refl engine) start (w.steps.drop start.toNat) _ _ h
  rw [runAll_atStep engine hne, runAll_atStep engine hne] at hanswer hagrees
  rw [execute_eq_conclude, execute_eq_conclude, giveNothing, giveNothing, hanswer, hagrees.context,
    hagrees.outside]

/-! ## Savable contexts are restored -/

namespace Context.IsSavable

variable {c : Context}

theorem settleEntries (h : c.IsSavable) : Value.settleEntries c.logs c.bindings = c.bindings :=
  Value.settleEntries_of_settled _ _ (Value.entriesSettled_iff.2 h.bindings)

theorem settle_result (h : c.IsSavable) {r : StepResult} (hr : r ∈ c.results) :
    r.settle c.logs = r := by
  rw [StepResult.settle, Value.settle_of_isSettled _ _ (h.results r hr)]

theorem settled (h : c.IsSavable) (hrunning : c.IsRunning) : c.settled = c := by
  have hresults : c.results.map (·.settle c.logs) = c.results := by
    rw [List.map_congr_left fun r hr => h.settle_result hr, List.map_id']
  rw [Context.settled, h.settleEntries, hresults, hrunning.result]
  obtain ⟨⟩ := c
  cases hrunning.result
  rfl

end Context.IsSavable

namespace Outcome

/-- The outcome of a run that has come to another step. -/
def atStep (o : Outcome) (index : Int) : Outcome := { o with context := o.context.atStep index }

/-- All steps have run, and none of them has ended the run. -/
def RanThrough (o : Outcome) : Prop := ∃ v, o.verdict = .completed v false

theorem ofContext_of_isRunning {c : Context} (name : Value) (h : c.IsRunning) :
    ofContext name c
      = { workflowName := name, context := c.settled, verdict := .completed .null false } := by
  have hsuspended : c.settled.suspended.truthy = false := by
    rw [Context.settled, h.suspended]
    rfl
  have hresult : c.settled.result? = none := by
    rw [Context.settled, h.result]
    rfl
  unfold ofContext
  dsimp only
  rw [hsuspended, if_neg Bool.false_ne_true, Context.result, Context.hasResult, hresult]
  rfl

/-- What is made of a saved context is that context, but for the step that it had come to. -/
theorem restored_of_isSavable {c : Context} {name : Value} (h : c.IsSavable) (hrunning : c.IsRunning)
    (hname : c.workflowName = name) (hposition : c.position = []) (hpath : c.resumePath = []) :
    (ofContext name c).restored c.inputs [] = c.atStep 0 := by
  have hnames : c.results.map (fun r => { r.settle c.logs with step := r.step.orElse (.str "") })
      = c.results := by
    refine (List.map_congr_left fun r hr => ?_).trans (List.map_id' c.results)
    rw [h.settle_result hr, Value.orElse, if_pos (h.names r hr)]
  have hempty : c.results.isEmpty = false := List.isEmpty_eq_false_iff.2 h.history
  rw [ofContext_of_isRunning name hrunning, restored, h.settled hrunning]
  dsimp only
  rw [hempty, if_neg Bool.false_ne_true, hnames, h.settleEntries, Context.atStep]
  obtain ⟨⟩ := c
  cases hrunning.result
  cases hrunning.suspended
  cases h.suspendedPath
  cases hname
  cases hposition
  cases hpath
  rfl

end Outcome

/-! ## Fresh runs -/

/-- The definition of the workflow is data, and no expression in it asks for the log as a whole. -/
structure Workflow.OmitsLog (w : Workflow) : Prop where
  fields : ∀ s ∈ w.nodes, ∀ v ∈ s.referenceFields, v.OmitsLog
  defaults : w.inputs.IsData

namespace Prepared

variable {w : Workflow} {inputs : Value} {c : Context}

/-- A run from the beginning starts in a savable context. -/
theorem isSavable (h : Prepared w { inputs } 0 c) (hw : w.OmitsLog)
    (hinputs : inputs.isSettled = true) : c.IsSavable := by
  obtain ⟨given, accepted, hgiven, haccepted, hc⟩ := h.context
  have hdata : Value.isSettled (.dict accepted) = true :=
    Value.isSettled_dict.2
      (Input.isData_of_accept (Value.isData_of_dictIfAny hinputs hgiven) hw.defaults haccepted)
  obtain ⟨bindings, logs, given', results, path, resumePath, hbindings, hlogs, hgiven', hresults,
    hpath, hdicts, rfl⟩ := Context.ofParts_eq_ok.1 hc
  cases hbindings
  cases hgiven'
  cases hresults
  have hinput (r : StepResult) (hr : r ∈ [Context.inputResult (.dict accepted)]) :
      r.output.isSettled = true ∧ r.step.truthy = true := by
    cases List.mem_singleton.1 hr
    exact ⟨hdata, rfl⟩
  exact ⟨⟨hdata, nofun, fun r hr => (hinput r hr).1⟩, List.cons_ne_nil _ _,
    fun r hr => (hinput r hr).2, h.startsRun.suspendedPath⟩

/-- A run from the beginning can be made of the first steps only. -/
theorem upTo (h : Prepared w { inputs } 0 c) (k : Nat) : Prepared (w.upTo k) { inputs } 0 c where
  wellformed := Workflow.requireWellformed_upTo h.wellformed k
  references := Workflow.requireReferences_upTo h.references k
  startable := (Workflow.requireStart_iff rfl).2 ⟨Int.le_refl 0, Int.natCast_nonneg _⟩
  enterable := rfl
  context := h.context
  named := h.named
  index := rfl

theorem resumePath_eq_nil (h : Prepared w { inputs } 0 c) : c.resumePath = [] := by
  obtain ⟨path, hitems, hdicts⟩ := h.resumePath
  cases hitems
  exact (Except.ok.inj hdicts).symm

/-- Steps of a well-formed workflow that omits the log are plain. -/
theorem isPlain (h : Prepared w { inputs } 0 c) (hw : w.OmitsLog) (p : Place) (index : Int) (k : Nat) :
    Task.IsPlain (.steps p index (w.steps.take k)) := by
  intro s hs
  rw [Task.ahead, Step.aheadOf_nil] at hs
  have hmem : s ∈ w.nodes := by
    obtain ⟨later, hnodes⟩ := w.upTo_nodes_prefix k
    rw [hnodes]
    exact List.mem_append_left _ hs
  exact ⟨(Workflow.wellNamed h.wellformed).truthy _ (Workflow.name_mem_names hmem),
    hw.fields s hmem⟩

end Prepared

/-! ## Cutting a run -/

/-- What the first steps of a run have left, unless they have ended it: a situation from which the others
go on, and which the engine restores from what is saved of it. -/
theorem Prepared.cut {engine : Engine σ} {I : σ → Prop} {w : Workflow} {inputs : Value} {c : Context}
    (h : Prepared w { inputs } 0 c) (hw : w.OmitsLog) (hanswers : engine.AnswersData I)
    (hinputs : inputs.isSettled = true) {outside : σ} (houtside : I outside) {k : Nat}
    (hk : k ≤ w.steps.length) {u : Situation σ}
    (hfirst : runAll engine 0 (w.steps.take k) { context := c, outside } = (.ok (), u))
    (hgo : u.context.hasResult = false) :
    u.context.IsRunning ∧
      Prepared w ((Outcome.ofContext w.name u.context).snapshotRequest inputs k) k
        (u.context.atStep 0) := by
  obtain ⟨journal, hran⟩ := ran_runAll engine (w.steps.take k) 0 { context := c, outside }
    (.of_nil h.resumePath_eq_nil ⟨[], h.startsRun.position⟩)
  rw [hfirst] at hran
  have hrunning : u.context.IsRunning := (hran.standing h.startsRun.running).isRunning hgo
  have hsavable : u.context.IsSavable :=
    (hran.isSavable hanswers h.resumePath_eq_nil (h.isPlain hw .top 0 k)
      ⟨h.isSavable hw hinputs, houtside⟩ rfl hgo).1.context
  have hkeeps := hran.keeps
  have hrestored := Outcome.restored_of_isSavable hsavable hrunning
    (hkeeps.workflowName.trans h.startsRun.workflowName)
    (hkeeps.position.trans h.startsRun.position) (hran.resumePath_eq_nil rfl)
  refine ⟨hrunning, ?_⟩
  have hinputs' : c.inputs = u.context.inputs := hkeeps.inputs.symm
  rw [← hrestored, ← hinputs']
  have hnone : Step.AdmitsIn [] (w.steps.drop (k : Int).toNat) := .inl rfl
  exact h.restored _ (Outcome.ofContext_workflowName _ _)
    ⟨Int.natCast_nonneg k, Int.ofNat_le.2 hk⟩ (.inl ⟨rfl, rfl⟩) hnone

/-- A run of which the first steps have been done goes on with the others, or has ended with them. -/
theorem Prepared.run_of_first {engine : Engine σ} {w : Workflow} {inputs : Value} {c : Context}
    (h : Prepared w { inputs } 0 c) {outside : σ} {k : Nat} (hk : k ≤ w.steps.length)
    {q : Except Raised Unit} {u : Situation σ}
    (hfirst : runAll engine 0 (w.steps.take k) { context := c, outside } = (q, u)) :
    run engine (w.upTo k) { inputs } outside
        = (conclude w (q.map fun _ => .null) u.context, u.outside) ∧
      (q = .ok () ∧ u.context.hasResult = false →
        run engine w { inputs } outside = execute engine w k u) ∧
      (¬ (q = .ok () ∧ u.context.hasResult = false) →
        run engine w { inputs } outside = run engine (w.upTo k) { inputs } outside) := by
  have hlength : (0 : Int) + (w.steps.take k).length = k := by
    rw [List.length_take, Nat.min_eq_left hk, Int.zero_add]
  have hall := runAll_append engine (w.steps.take k) (w.steps.drop k) 0 { context := c, outside }
    h.startsRun.running.hasResult
  rw [List.take_append_drop, hlength, hfirst] at hall
  have hdrop : w.steps.drop (0 : Int).toNat = w.steps := rfl
  have hdrop' : (w.upTo k).steps.drop (0 : Int).toNat = w.steps.take k := rfl
  rw [h.run_eq, (h.upTo k).run_eq, execute_eq_conclude engine w 0, hdrop, hall,
    execute_eq_conclude engine (w.upTo k), hdrop', hfirst]
  refine ⟨rfl, ?_, fun hended => ?_⟩
  · rintro ⟨rfl, hgo⟩
    dsimp only
    rw [RunM.unlessStopped_of_running hgo]
    exact (execute_eq_conclude engine w k u).symm
  · cases q with
    | error e => rfl
    | ok =>
      have hstop : u.context.hasResult = true := by
        cases hstop : u.context.hasResult with
        | true => rfl
        | false => exact absurd ⟨rfl, hstop⟩ hended
      dsimp only
      rw [RunM.unlessStopped_of_stopped hstop]
      rfl

/-- Only a run that nothing has stopped has run through. -/
theorem not_stopped_of_ranThrough {w : Workflow} {q : Except Raised Unit} {c : Context} {o : Outcome}
    (h : conclude w (q.map fun _ => .null) c = .ok o) (hthrough : o.RanThrough) :
    q = .ok () ∧ c.hasResult = false := by
  obtain ⟨v, hverdict⟩ := hthrough
  obtain ⟨e, hq, rfl⟩ | ⟨v, hq, rfl⟩ := conclude_eq_ok h
  · cases hverdict
  · cases q with
    | error e => cases hq
    | ok => exact ⟨rfl, Outcome.ofContext_completed hverdict⟩

/-- Behind the last step a run is over. -/
theorem execute_at_end (engine : Engine σ) {w : Workflow} {k : Nat} (hk : k = w.steps.length)
    (t : Situation σ) :
    execute engine w k t = (.ok (Outcome.ofContext w.name t.context), t.outside) := by
  have hdrop : w.steps.drop (k : Int).toNat = [] := by
    rw [Int.toNat_natCast, hk, List.drop_length]
  rw [execute_eq_conclude, hdrop]
  rfl

/-- A run can be cut behind any of its steps. If the steps before the cut do not run through, the whole
run ends with them. If they do, it goes on as a run that is resumed at the cut from what they have
saved; and behind the last step there is nothing to go on with. -/
theorem runs_compose (engine : Engine σ) (I : σ → Prop) (hanswers : engine.AnswersData I)
    (w : Workflow) (hw : w.OmitsLog) (inputs : Value) (hinputs : inputs.isSettled = true)
    (c : Context) (hprepare : prepare w { inputs } = .ok (0, c)) (outside : σ) (houtside : I outside)
    (k : Nat) (hk : k ≤ w.steps.length) :
    ((∀ o, (run engine (w.upTo k) { inputs } outside).1 = .ok o → ¬ o.RanThrough) →
      run engine w { inputs } outside = run engine (w.upTo k) { inputs } outside) ∧
    ∀ o outside', run engine (w.upTo k) { inputs } outside = (.ok o, outside') → o.RanThrough →
      (k < w.steps.length →
        run engine w { inputs } outside
          = run engine w (o.snapshotRequest inputs k) outside') ∧
      (k = w.steps.length →
        run engine w { inputs } outside = (.ok o, outside') ∧
        run engine w (o.snapshotRequest inputs k) outside' = (.ok (o.atStep 0), outside')) := by
  have h : Prepared w { inputs } 0 c := prepare_eq_ok.1 hprepare
  cases hfirst : runAll engine 0 (w.steps.take k) { context := c, outside } with
  | mk q u =>
    obtain ⟨hcut, hgoes, hends⟩ := h.run_of_first hk hfirst
    by_cases hopen : q = .ok () ∧ u.context.hasResult = false
    · rw [hgoes hopen, hcut]
      obtain ⟨rfl, hgo⟩ := hopen
      obtain ⟨hrunning, hprepared⟩ := h.cut hw hanswers hinputs houtside hk hfirst hgo
      have houtcome := Outcome.ofContext_of_isRunning w.name hrunning
      refine ⟨fun hstop => ?_, fun o outside' ho _ => ?_⟩
      · refine absurd ⟨.null, ?_⟩ (hstop _ rfl)
        rw [houtcome]
      · cases ho
        rw [hprepared.run_eq]
        refine ⟨fun hlt => ?_, fun hend => ?_⟩
        · have hne : w.steps.drop (k : Int).toNat ≠ [] := by
            simpa using hlt
          exact execute_congr engine w hne ⟨rfl, rfl⟩
        · have hrunning' : (u.context.atStep 0).IsRunning := ⟨hrunning.result, hrunning.suspended⟩
          rw [execute_at_end engine hend, execute_at_end engine hend,
            Outcome.ofContext_of_isRunning w.name hrunning', houtcome]
          exact ⟨rfl, rfl⟩
    · refine ⟨fun _ => hends hopen, fun o outside' ho hthrough => ?_⟩
      rw [hcut] at ho
      exact absurd (not_stopped_of_ranThrough (Prod.mk.inj ho).1 hthrough) hopen

/-- A workflow that draws two cards, and tells between them of an ace. -/
def twoCards : Workflow where
  name := .str "draw"
  steps := [
    .action (.str "first") (.callTool (.str "draw") (.dict []) (.str "card")),
    .conditional (.str "check") (.str "\x7b\x7bcard\x7d\x7d == ace") [
      .action (.str "told") (.log (.str "drawn: \x7b\x7bcard\x7d\x7d"))] [],
    .action (.str "second") (.callTool (.str "draw") (.dict []) (.str "card"))]

/-- An engine with a tool that draws from a stack of cards. -/
def twoCards.engine : Engine (List String) where
  tools? := some fun _ _ cards => (.ok (.str (cards.headD "none")), cards.tail)

theorem twoCards.omitsLog : twoCards.OmitsLog where
  fields := by
    intro s hs v hv
    have hall : ∀ s ∈ twoCards.nodes, ∀ v ∈ s.referenceFields,
        v.isSettled = true ∧ "logs" ∉ Template.references v := by decide +kernel
    exact ⟨(hall s hs v hv).1, (hall s hs v hv).2⟩
  defaults := nofun

theorem twoCards.answersData : twoCards.engine.AnswersData fun _ => True where
  tool := by
    intro call hcall tool parameters _ cards _
    cases hcall
    refine ⟨trivial, fun v hv => ?_⟩
    cases hv
    rfl
  template := nofun
  stored := nofun
  storing := nofun
  function := nofun

/-- One card is drawn, and what comes after the draw is resumed from there. -/
theorem runs_compose_at_draw :
    ∃ o, run twoCards.engine (twoCards.upTo 1) {} ["ace", "two", "ten"] = (.ok o, ["two", "ten"]) ∧
      o.RanThrough ∧
      run twoCards.engine twoCards {} ["ace", "two", "ten"]
        = run twoCards.engine twoCards (o.snapshotRequest .null 1) ["two", "ten"] := by
  have hprepare : prepare twoCards {} = .ok (0, {
      results := [Context.inputResult (.dict [])]
      workflowName := .str "draw" }) := rfl
  have hcompose := runs_compose twoCards.engine (fun _ => True) twoCards.answersData twoCards
    twoCards.omitsLog .null rfl _ hprepare ["ace", "two", "ten"] trivial 1 (by decide)
  have hfirst : run twoCards.engine (twoCards.upTo 1) {} ["ace", "two", "ten"]
      = (.ok _, ["two", "ten"]) := rfl
  exact ⟨_, hfirst, ⟨_, rfl⟩, (hcompose.2 _ _ hfirst ⟨_, rfl⟩).1 (by decide)⟩

end Stepwise
