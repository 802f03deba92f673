-- SUMMARY: A failed run names the step that failed first, unless that step has passed on an error from outside.
import Stepwise.Proofs.Run.Blame
import Stepwise.Proofs.Run.Induction
import Stepwise.Proofs.Run.Raising
import Stepwise.Proofs.Run.Trail

/-!
# Failures

The first step to fail claims what was raised in it, and the containers around it let the
error pass, since it has a name by then. Each of them fails with it. So the entries of a
failure stand at the end of the history, from the inside out, and the error of the run goes
under the name of the first of them. The exception is an action that was answered with a
step error under another name: it fails, and the error names whom it was answered with.
-/

namespace Stepwise

variable {σ α : Type}

/-! ## How work has failed -/

/-- The error is that of the step: it goes under the step's name, or else the step is an action that has
passed it on. -/
def StepError.IsOf (e : StepError) (engine : Engine σ) (s : Step) (outside : σ) : Prop :=
  e.stepName = s.name ∨ ∃ name act, s = .action name act ∧ engine.PassesOn act e outside

/-- A failure: what was completed before it, the step that has failed first, what was raised in that
step, and the containers around the step, which have failed with it. -/
structure Failure where
  done : List StepResult
  step : Step
  raised : Raised
  around : List Step

namespace Failure

/-- What the failure has left in the history, when its error is `e`. -/
def entries (x : Failure) (e : StepError) : List StepResult :=
  x.done ++ x.step.label.failed x.raised :: x.around.map (·.label.failed (.step e))

/-- The failure explains how work that runs steps of `ss` has ended with the error `e`. -/
structure Explains (x : Failure) (engine : Engine σ) (ss : List Step) (e : StepError) (outside : σ) :
    Prop where
  completed : ∀ r ∈ x.done, r.status = .completed
  claimed : e = x.step.label.claim x.raised
  named : e.stepName ≠ .null
  blamed : e.IsOf engine x.step outside
  nests : Step.Nests ss (x.step :: x.around)

def within (x : Failure) (s : Step) : Failure := { x with around := x.around ++ [s] }

/-- The failure behind what was completed earlier. -/
def after (x : Failure) (done : List StepResult) : Failure := { x with done := done ++ x.done }

theorem entries_within (x : Failure) (s : Step) (e : StepError) :
    (x.within s).entries e = x.entries e ++ [s.label.failed (.step e)] := by
  simp [entries, within]

theorem entries_after (x : Failure) (done : List StepResult) (e : StepError) :
    (x.after done).entries e = done ++ x.entries e := by
  simp [entries, after]

namespace Explains

variable {x : Failure} {engine : Engine σ} {ss : List Step} {e : StepError} {outside : σ}

theorem mono {ss' : List Step} (h : x.Explains engine ss e outside) (hss : ss ⊆ ss') :
    x.Explains engine ss' e outside :=
  { h with nests := h.nests.mono hss }

/-- The container of a branch fails with what fails in the branch. -/
theorem within {s : Step} (h : x.Explains engine ss e outside) (hs : ss ∈ s.children) :
    (x.within s).Explains engine [s] e outside :=
  { h with nests := h.nests.close hs }

theorem after {done : List StepResult} (h : x.Explains engine ss e outside)
    (hdone : ∀ r ∈ done, r.status = .completed) : (x.after done).Explains engine ss e outside :=
  { h with completed := List.forall_mem_append.2 ⟨hdone, h.completed⟩ }

/-- The step that failed first has the first entry of a failure in the history. -/
theorem find?_failed (h : x.Explains engine ss e outside) :
    (x.entries e).find? (·.status == .failed) = some (x.step.label.failed x.raised) := by
  have hdone : x.done.find? (·.status == .failed) = none := by
    refine List.find?_eq_none.2 fun r hr => ?_
    rw [h.completed r hr]
    decide
  rw [entries, List.find?_append, hdone]
  rfl

end Explains

end Failure

/-! ## Work that fails -/

/-- The step error that work has ended with, if it has ended with one. -/
def Raised.stepError? : Except Raised α → Option StepError
  | .error (.step e) => some e
  | _ => none

theorem Raised.stepError?_crash (crash : Crash) : stepError? (α := α) (.error crash.raised) = none := by
  cases crash <;> rfl

/-- What work that runs steps of `ss` has added to the history: entries of completed steps, or, if it has
ended with a step error, which can be written out then, those of a failure that explains the error. -/
inductive Situation.EndsAs (engine : Engine σ) (ss : List Step) (t u : Situation σ) :
    Option StepError → Prop
  | completed (done : List StepResult) :
    u.context.results = t.context.results ++ done → (∀ r ∈ done, r.status = .completed) →
    EndsAs engine ss t u none
  | failed {e : StepError} (x : Failure) :
    u.context.results = t.context.results ++ x.entries e → x.Explains engine ss e u.outside →
    (Raised.step e).isSpellable = true → EndsAs engine ss t u (some e)

namespace Situation.EndsAs

variable {engine : Engine σ} {ss : List Step} {t u v : Situation σ} {e? : Option StepError}

theorem mono {ss' : List Step} (h : t.EndsAs engine ss u e?) (hss : ss ⊆ ss') :
    t.EndsAs engine ss' u e? := by
  cases h with
  | completed done hresults hdone => exact .completed done hresults hdone
  | failed x hresults hx hspell => exact .failed x hresults (hx.mono hss) hspell

theorem isSpellable {e : StepError} (h : t.EndsAs engine ss u (some e)) :
    (Raised.step e).isSpellable = true := by
  cases h with
  | failed x hresults hx hspell => exact hspell

/-- As long as nothing has failed it does not matter which steps were to run. -/
theorem of_none {ss' : List Step} (h : t.EndsAs engine ss' u none) : t.EndsAs engine ss u none := by
  cases h with
  | completed done hresults hdone => exact .completed done hresults hdone

/-- The history may be the same in other contexts. -/
theorem of_results {t' u' : Situation σ} (h : t.EndsAs engine ss u e?)
    (ht : t'.context.results = t.context.results) (hu : u'.context.results = u.context.results)
    (houtside : u'.outside = u.outside) : t'.EndsAs engine ss u' e? := by
  cases h with
  | completed done hresults hdone => exact .completed done (by rw [hu, ht, hresults]) hdone
  | failed x hresults hx hspell =>
    exact .failed x (by rw [hu, ht, hresults]) (houtside ▸ hx) hspell

/-- Work goes on behind what was completed. -/
theorem trans {ss' : List Step} (h : t.EndsAs engine ss' u none) (h' : u.EndsAs engine ss v e?) :
    t.EndsAs engine ss v e? := by
  obtain ⟨done, hresults, hdone⟩ := h
  cases h' with
  | completed done' hresults' hdone' =>
    refine .completed (done ++ done') ?_ (List.forall_mem_append.2 ⟨hdone, hdone'⟩)
    rw [hresults', hresults, List.append_assoc]
  | failed x hresults' hx hspell =>
    refine .failed (x.after done) ?_ (hx.after hdone) hspell
    rw [hresults', hresults, x.entries_after, List.append_assoc]

/-- The end of a step that is completed. -/
theorem completes {s : Step} (h : t.EndsAs engine [s] u none) (output : Value) :
    t.EndsAs engine [s] (u.change (·.record (s.label.completed output))) none := by
  refine h.trans (.completed [s.label.completed output] (Context.record_results ..) ?_)
  simp [StepLabel.completed]

/-- The end of a step that is the first to fail. -/
theorem fails {s : Step} {raised : Raised} (h : t.EndsAs engine [s] u none) (hname : s.name ≠ .null)
    (hspellable : s.name.isSpellable = true) (hraised : raised.isSpellable = true)
    (hown : (s.label.claim raised).IsOf engine s u.outside) :
    t.EndsAs engine [s] (u.change (·.record (s.label.failed raised)))
      (some (s.label.claim raised)) := by
  refine h.trans (.failed { done := [], step := s, raised, around := [] } (Context.record_results ..) ?_
    (StepLabel.isSpellable_claim hspellable hraised))
  exact {
    completed := nofun
    claimed := rfl
    named := StepLabel.claim_named hname raised
    blamed := hown
    nests := .single s }

/-- The end of a container in which a step has failed: the error has a name, and keeps it. -/
theorem failsAround {s : Step} {e : StepError} (h : t.EndsAs engine ss u (some e)) (hs : ss ∈ s.children) :
    t.EndsAs engine [s] (u.change (·.record (s.label.failed (.step e))))
      (some (s.label.claim (.step e))) := by
  cases h with
  | failed x hresults hx hspell =>
    rw [StepLabel.claim_of_named hx.named]
    refine .failed (x.within s) ?_ (hx.within hs) hspell
    rw [Situation.change, Context.record_results, hresults, List.append_assoc, x.entries_within]

end Situation.EndsAs

/-- Among steps with names the work comes back to where it was, and any step error that it ends with is
explained by what it has added to the history. -/
def RunM.FailsOpenly (engine : Engine σ) {α : Type} (ss : List Step) (m : RunM σ α) : Prop :=
  (∀ s ∈ Step.nodesOf ss, s.name ≠ .null) → ∀ t : Situation σ, t.context.IsPlaced →
    (m t).2.context.position = t.context.position ∧
      t.EndsAs engine ss (m t).2 (Raised.stepError? (m t).1)

namespace RunM.FailsOpenly

variable {engine : Engine σ} {ss : List Step}

/-- Work that leaves the run as it is, and ends with no step error. -/
theorem of_still {m : RunM σ α} (h : ∀ t, (m t).2 = t ∧ Raised.stepError? (m t).1 = none) :
    m.FailsOpenly engine ss := by
  intro _ t _
  rw [(h t).1, (h t).2]
  exact ⟨rfl, .completed [] (List.append_nil _).symm nofun⟩

theorem atStep {m : RunM σ Unit} (h : m.FailsOpenly engine ss) (index : Int) :
    (RunM.change (·.atStep index) >>= fun _ => m).FailsOpenly engine ss := by
  intro hnames t ht
  have hchange : RunM.change (·.atStep index) t = (.ok (), t.change (·.atStep index)) := rfl
  rw [bind_of_ok hchange]
  obtain ⟨hposition, hends⟩ := h hnames (t.change (·.atStep index)) ht
  exact ⟨hposition, hends.of_results rfl rfl rfl⟩

theorem within {m : RunM σ StepResult} (h : m.FailsOpenly engine ss) (frame : Frame) :
    (RunM.within frame m).FailsOpenly engine ss := by
  intro hnames t ht
  obtain ⟨hposition, hends⟩ := h hnames (t.change (·.enter frame.toValue)) (ht.enter frame)
  have heq : RunM.within frame m t = ((m (t.change (·.enter frame.toValue))).1,
      (m (t.change (·.enter frame.toValue))).2.change Context.leave) := rfl
  rw [heq]
  exact ⟨Context.leave_position hposition, hends.of_results rfl rfl rfl⟩

theorem andThen {m : RunM σ α} {rest : RunM σ Unit} (h : m.FailsOpenly engine ss)
    (hrest : rest.FailsOpenly engine ss) :
    (m >>= fun _ => RunM.unlessStopped rest).FailsOpenly engine ss := by
  intro hnames t ht
  obtain ⟨hposition, hends⟩ := h hnames t ht
  rw [bind_apply]
  generalize m t = p at hposition hends ⊢
  obtain ⟨raised | a, u⟩ := p
  · refine ⟨hposition, ?_⟩
    cases raised with
    | step e => exact hends
    | fault f => exact hends
    | mute kind instead => exact hends
  · dsimp only at hposition hends ⊢
    cases hstop : u.context.hasResult with
    | true =>
      rw [RunM.unlessStopped_of_stopped hstop]
      exact ⟨hposition, hends⟩
    | false =>
      rw [RunM.unlessStopped_of_running hstop]
      have hplaced : u.context.IsPlaced := by
        rw [Context.IsPlaced, hposition]
        exact ht
      obtain ⟨hposition', hends'⟩ := hrest hnames u hplaced
      exact ⟨hposition'.trans hposition, hends.trans hends'⟩

/-- What a step does between its start and its end, and then its entry. Either only completed steps have
been recorded before that, and what the step may raise is its own, or the step ends with an error that
is explained by a failure in one of its branches. -/
theorem recorded {s : Step} {body : StepM σ Value}
    (h : (∀ y ∈ s.inner, y.name ≠ .null) → ∀ t : Situation σ, t.context.IsPlaced →
      (body t).2.context.position = t.context.position ∧
      ((t.EndsAs engine [s] (body t).2 none ∧ ∀ raised, (body t).1 = .error raised →
          (s.label.claim raised).IsOf engine s (body t).2.outside) ∨
        ∃ e ss, ss ∈ s.children ∧ (body t).1 = .error (.step e) ∧
          t.EndsAs engine ss (body t).2 (some e))) :
    (RunM.recorded s body).FailsOpenly engine [s] := by
  intro hnames t ht
  have hname : s.name ≠ .null := hnames s (by simp [Step.nodes_eq])
  have hinner : ∀ y ∈ s.inner, y.name ≠ .null := fun y hy => hnames y (by simp [Step.nodes_eq, hy])
  cases hspellable : s.name.isSpellable with
  | false =>
    rw [RunM.recorded_of_unspellable hspellable]
    exact ⟨rfl, .completed [] (List.append_nil _).symm nofun⟩
  | true =>
    obtain ⟨hposition, hends⟩ := h hinner (t.start s) ht
    rw [RunM.recorded_of_spellable hspellable]
    cases hbody : body (t.start s) with
    | mk r u =>
      rw [hbody] at hposition hends
      cases r with
      | ok output =>
        rw [RunM.closed_of_ok hbody]
        rcases hends with ⟨hends, -⟩ | ⟨_, _, _, herror, _⟩
        · exact ⟨hposition, (hends.completes output).of_results rfl rfl rfl⟩
        · cases herror
      | error raised =>
        rcases hends with ⟨hends, hown⟩ | ⟨e, ss, hss, herror, hends⟩
        · cases hraised : raised.isSpellable with
          | true =>
            rw [RunM.closed_of_error hbody hraised]
            have hfails := hends.fails hname hspellable hraised (hown raised rfl)
            exact ⟨hposition, hfails.of_results rfl rfl rfl⟩
          | false =>
            -- Nothing is recorded of what cannot be written out, and it is no step error that goes on.
            obtain ⟨crash, hcrash⟩ := Raised.not_isSpellable_iff.1 hraised
            rw [RunM.closed_of_mute hbody hcrash, Raised.stepError?_crash]
            exact ⟨hposition, hends.of_results rfl rfl rfl⟩
        · cases herror
          rw [RunM.closed_of_error hbody hends.isSpellable]
          exact ⟨hposition, (hends.failsAround hss).of_results rfl rfl rfl⟩

/-- An action that fails adds its own entry only. -/
theorem action (engine : Engine σ) (name : Value) (act : Action) :
    (RunM.recorded (.action name act) (engine.perform (Step.action name act).label act)).FailsOpenly
      engine [.action name act] := by
  refine recorded fun _ t ht => ?_
  cases hperform : engine.perform (Step.action name act).label act t with
  | mk r u =>
    obtain ⟨-, eff, -, hctx, -⟩ := Engine.perform_ends ht hperform
    refine ⟨hctx ▸ (eff.apply_keeps _).position, .inl ⟨?_, fun raised hraised => ?_⟩⟩
    · exact .completed [] (by rw [hctx, eff.apply_results, List.append_nil]) nofun
    · cases hraised
      exact (Engine.perform_blames hperform).claimed.imp_right fun h => ⟨name, act, rfl, h⟩

/-- A container fails on its own before it has entered a branch or for want of a place in it, and else
with what fails in the branch. -/
theorem container {s : Step} {branch : String → Nat → Int → RunM σ Unit} (hs : s.isAction = false)
    (h : ∀ name start ss, s.branchNamed? name = some ss →
      (runPortion start ss.length (branch name)).FailsOpenly engine ss) :
    (RunM.recorded s (s.opening >>= fun o => o.run branch)).FailsOpenly engine [s] := by
  refine recorded fun hinner t ht => ?_
  have hopens := s.opening_opens hs t
  rw [bind_apply]
  cases hopening : s.opening t with
  | mk r v =>
  rw [hopening] at hopens
  obtain ⟨path, hv, henter⟩ := hopens.enters
  dsimp only at hv henter ⊢
  subst hv
  have hopened : t.EndsAs engine [s] (t.withPath path) none :=
    .completed [] (List.append_nil _).symm nofun
  cases r with
  | error raised =>
    refine ⟨rfl, .inl ⟨hopened, fun _ heq => ?_⟩⟩
    cases heq
    exact .inl (Step.opening_blames hopening)
  | ok o =>
    cases o with
    | pass output => exact ⟨rfl, .inl ⟨hopened, fun _ heq => by cases heq⟩⟩
    | enter name start ss output =>
      have hbranch := henter name start ss output rfl
      have hnames : ∀ y ∈ Step.nodesOf ss, y.name ≠ .null :=
        fun y hy => hinner y ((Step.branchNamed?_sublist hbranch).subset hy)
      obtain ⟨hposition, hends⟩ := h name start ss hbranch hnames (t.withPath path) ht
      simp only [Opening.run, bind_apply]
      generalize runPortion start ss.length (branch name) (t.withPath path) = q at hposition hends ⊢
      obtain ⟨(e | f | _) | _, u⟩ := q
      · refine ⟨hposition, .inr ⟨e, ss, ?_, rfl, hopened.trans hends⟩⟩
        cases hends with
        | failed x _ hx =>
          obtain ⟨last, hlast, -⟩ := hx.nests.outermost
          exact Step.mem_children_of_branchNamed? hbranch (List.ne_nil_of_mem hlast)
      · refine ⟨hposition, .inl ⟨hopened.trans hends.of_none, fun _ heq => ?_⟩⟩
        cases heq
        exact .inl rfl
      · refine ⟨hposition, .inl ⟨hopened.trans hends.of_none, fun _ heq => ?_⟩⟩
        cases heq
        exact .inl rfl
      · exact ⟨hposition, .inl ⟨hopened.trans hends.of_none, fun _ heq => by cases heq⟩⟩

end RunM.FailsOpenly

/-- All that the engine runs fails openly. -/
theorem Engine.failsOpenly (engine : Engine σ) :
    engine.Upholds fun ss m => m.FailsOpenly engine ss where
  nothing := fun _ => .of_still fun _ => ⟨rfl, rfl⟩
  fault := fun _ _ => .of_still fun _ => ⟨rfl, rfl⟩
  mono := by
    intro α ss ss' m hss h hnames t ht
    obtain ⟨hposition, hends⟩ := h (fun s hs => hnames s (Step.nodesOf_subset hss hs)) t ht
    exact ⟨hposition, hends.mono hss⟩
  atStep := fun index h => h.atStep index
  within := fun frame h => h.within frame
  andThen := fun h hrest => h.andThen hrest
  action := .action engine
  container := fun _ _ hs h => .container hs h

/-! ## Failed runs -/

/-- The name that an outcome gives for the step that failed, if it is one of failure. -/
def Outcome.failedStep? (o : Outcome) : Option Value :=
  match o.verdict with
  | .failed e => some e.stepName
  | _ => none

theorem Outcome.failedStep?_eq_some {o : Outcome} {name : Value} :
    o.failedStep? = some name ↔ ∃ e, o.verdict = .failed e ∧ e.stepName = name := by
  unfold failedStep?
  split <;> simp_all

/-- A failed run names the step that failed. What the run has added to the history ends with the entries
of the failure: that of a step of the workflow, which is the first failed entry that the run has added,
and behind it those of the containers around the step, from the inside out. The error of the run is the
one that the step has claimed, and it goes under the name of the step. The exception is an action that
has passed an error on: then the error is just the one that the collaborator has raised. -/
theorem failed_run_names_step (engine : Engine σ) {w : Workflow} {r : Request} {start : Int} {c : Context}
    (h : Prepared w r start c) {outside outside' : σ} {o : Outcome} {e : StepError}
    (hrun : run engine w r outside = (.ok o, outside')) (hfailed : o.verdict = .failed e) :
    ∃ x : Failure, x.Explains engine w.steps e outside' ∧ x.step ∈ w.nodes ∧
      o.context.results = (c.results ++ x.entries e).map (·.settle o.context.logs) ∧
      (o.context.results.drop c.results.length).find? (·.status == .failed)
        = some ((x.step.label.failed x.raised).settle o.context.logs) := by
  have hnames : ∀ s ∈ w.nodes, s.name ≠ .null := fun s hs =>
    Value.ne_null_of_truthy ((Workflow.wellNamed h.wellformed).truthy _ (Workflow.name_mem_names hs))
  have hrest : w.steps.drop start.toNat ⊆ w.steps := List.drop_subset _ _
  obtain ⟨-, hends⟩ := engine.failsOpenly.runAll start (w.steps.drop start.toNat)
    (fun s hs => hnames s (Step.nodesOf_subset hrest hs)) { context := c, outside }
    ⟨[], h.startsRun.position⟩
  rw [h.run_eq, execute_eq_conclude] at hrun
  generalize runAll engine start (w.steps.drop start.toNat) { context := c, outside } = p
    at hends hrun
  obtain ⟨q, u⟩ := p
  obtain ⟨hconclude, rfl⟩ := Prod.mk.inj hrun
  cases q with
  | ok =>
    cases hconclude
    exact absurd hfailed (Outcome.ofContext_ne_failed _ _ e)
  | error raised =>
    obtain ⟨e', hraised, rfl⟩ | ⟨v, hraised, -⟩ := conclude_eq_ok hconclude
    · cases hraised
      cases hfailed
      cases hends with
      | failed x hadded hx =>
        have hresults : u.context.settled.results
            = (c.results ++ x.entries e).map (·.settle u.context.settled.logs) := by
          rw [← hadded]
          rfl
        refine ⟨x, hx.mono hrest, (hx.mono hrest).nests.mem_nodesOf, hresults, ?_⟩
        rw [Outcome.ofError, hresults, List.map_append, List.drop_left' (by simp), List.find?_map]
        exact congrArg (Option.map _) hx.find?_failed
    · cases hraised

/-- A tool that raises a fault inside two branches makes its own step the one that failed. -/
theorem failed_run_names_step_of_brokenTools :
    ∃ start c o e outside', Prepared failsInBranch {} start c ∧
      run brokenTools failsInBranch {} 0 = (.ok o, outside') ∧ o.verdict = .failed e ∧
      e.stepName = .str "call" ∧ ∃ x : Failure,
        x.Explains brokenTools failsInBranch.steps e outside' ∧ x.step.name = .str "call" := by
  have hfailedStep : (run brokenTools failsInBranch {} 0).1.toOption.bind Outcome.failedStep?
      = some (.str "call") := by decide +kernel
  cases hprepare : prepare failsInBranch {} with
  | error e =>
    rw [run_of_error hprepare] at hfailedStep
    cases hfailedStep
  | ok p =>
    obtain ⟨start, c⟩ := p
    have hprepared := prepare_eq_ok.1 hprepare
    rcases hrun : run brokenTools failsInBranch {} 0 with ⟨_ | o, outside'⟩
    · rw [hrun] at hfailedStep
      cases hfailedStep
    · rw [hrun] at hfailedStep
      obtain ⟨e, hfailed, hname⟩ := Outcome.failedStep?_eq_some.1 hfailedStep
      obtain ⟨x, hx, -⟩ := failed_run_names_step brokenTools hprepared hrun hfailed
      refine ⟨start, c, o, e, outside', hprepared, rfl, hfailed, hname, x, hx, ?_⟩
      rcases hx.blamed with hown | ⟨_, _, -, hpasses⟩
      · rw [← hown, hname]
      · cases hpasses with
        | tool hcall hraised =>
          cases hcall
          cases hraised
        | created hprovider => cases hprovider
        | loaded hprovider => cases hprovider

def callsTool : Workflow where
  name := .str "w"
  steps := [.action (.str "call") (.callTool (.str "t") .null .null)]

def reportingTools : Engine Unit where
  tools? := some fun _ _ world =>
    (.error (.step { problem := .stated "no", stepName := .str "other", stepType := .str "call_tool" }),
      world)

/-- The run fails in its one step, and names another that the workflow does not have. -/
theorem other_step_named :
    ∃ o e, run reportingTools callsTool {} () = (.ok o, ()) ∧ o.verdict = .failed e ∧
      o.context.results.map (fun r => (r.step, r.status))
        = [(.str "input", .completed), (.str "call", .failed)] ∧
      e.stepName = .str "other" ∧ e.stepName ∉ callsTool.names := by
  have hend : (run reportingTools callsTool {} ()).1.toOption.map
      (fun o => (o.failedStep?, o.context.results.map fun r => (r.step, r.status)))
        = some (some (.str "other"), [(.str "input", .completed), (.str "call", .failed)]) := by
    decide +kernel
  rcases hrun : run reportingTools callsTool {} () with ⟨_ | o, ⟨⟩⟩
  · rw [hrun] at hend
    cases hend
  · rw [hrun] at hend
    obtain ⟨hstep, hentries⟩ := Prod.mk.inj (Option.some.inj hend)
    obtain ⟨e, hfailed, hname⟩ := Outcome.failedStep?_eq_some.1 hstep
    refine ⟨o, e, rfl, hfailed, hentries, hname, ?_⟩
    rw [hname]
    decide

end Stepwise
