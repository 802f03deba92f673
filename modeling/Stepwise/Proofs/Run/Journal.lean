-- SUMMARY: What a run leaves behind: the end of its journal, its stop signal and its history.
import Stepwise.Proofs.Run.Derivation

/-!
# Journals

The journal of a task lists the steps that were set to work, each with the context that it
found. A run that is stopped is stopped by the last step of its journal; in particular a
run that is paused is paused by it, at the position where that step stands. The history
grows by one entry for each action of the journal, in the order of the journal, unless the
last of them has failed with what cannot be written out.
-/

namespace Stepwise

variable {σ : Type}

/-! ## Starts -/

/-- The step was set to work from its beginning, and not entered again on a resume path. -/
def Start.isFresh (e : Start) : Bool := e.context.resumePath.isEmpty

/-- The steps of a journal that were set to work from their beginning. -/
def freshSteps (journal : List Start) : List Step :=
  (journal.filter Start.isFresh).map Start.step

def actionsOf (journal : List Start) : List Step :=
  (journal.map Start.step).filter Step.isAction

theorem freshSteps_append (journal journal' : List Start) :
    freshSteps (journal ++ journal') = freshSteps journal ++ freshSteps journal' := by
  simp [freshSteps]

theorem freshSteps_cons_of_nil {s : Step} {c : Context} (journal : List Start)
    (h : c.resumePath = []) :
    freshSteps ({ step := s, context := c } :: journal) = s :: freshSteps journal := by
  simp [freshSteps, Start.isFresh, h]

theorem freshSteps_cons_of_cons {s : Step} {c : Context} {d : Dict} {ds : List Dict}
    (journal : List Start) (h : c.resumePath = d :: ds) :
    freshSteps ({ step := s, context := c } :: journal) = freshSteps journal := by
  simp [freshSteps, Start.isFresh, h]

theorem actionsOf_append (journal journal' : List Start) :
    actionsOf (journal ++ journal') = actionsOf journal ++ actionsOf journal' := by
  simp [actionsOf]

theorem actionsOf_cons (e : Start) (journal : List Start) :
    actionsOf (e :: journal) = actionsOf [e] ++ actionsOf journal :=
  actionsOf_append [e] journal

/-- Actions are never entered again, so all of them are among the steps begun afresh. -/
theorem actionsOf_eq_filter {journal : List Start}
    (h : ∀ e ∈ journal, e.step.isAction = true → e.isFresh = true) :
    actionsOf journal = (freshSteps journal).filter Step.isAction := by
  simp only [actionsOf, freshSteps, List.filter_map, List.filter_filter]
  refine congrArg _ (List.filter_congr fun e he => ?_)
  cases hs : e.step.isAction with
  | true => simp [hs, h e he hs]
  | false => simp [hs]

/-- The start of a step whose body is yet to be done. -/
def Task.opened (task : Task) (c : Context) : List Start :=
  match task with
  | .body s => [{ step := s, context := c }]
  | .step _ | .steps .. => []

/-- The task stays within one step of the workflow. -/
def Task.isNested : Task → Bool
  | .steps .top _ _ => false
  | .step _ | .body _ | .steps (.branch _) _ _ => true

/-! ## The stop signal -/

/-- Nothing has stopped the run. -/
structure Context.IsRunning (c : Context) : Prop where
  result : c.result? = none
  suspended : c.suspended = .bool false

theorem Context.IsRunning.hasResult {c : Context} (h : c.IsRunning) : c.hasResult = false := by
  rw [Context.hasResult, h.result]
  rfl

/-- The run is paused by a step at work, at the position of that step. -/
structure Start.Pauses (e : Start) (c : Context) : Prop where
  pausing : e.step.isPausing = true
  suspended : c.suspended = .bool true
  path : e.context.position.mapM Value.toDict = .ok c.suspendedPath
  currentStep : c.currentStep = e.context.currentStep
  payload : ∃ lines extra, c.result? = some (e.step.label.payload e.context lines extra)

/-- How far a run has come with its journal. -/
inductive Standing (journal : List Start) (c : Context) : Prop
  | running : c.IsRunning → Standing journal c
  /-- A step has ended the run with a value. -/
  | returned (v : Value) : c.result? = some v → c.suspended = .bool false → Standing journal c
  /-- The last step of the journal has paused the run. -/
  | paused (earlier : List Start) (e : Start) :
    journal = earlier ++ [e] → e.Pauses c → Standing journal c

namespace Standing

variable {journal : List Start} {c d : Context}

/-- What was set to work before does not matter. -/
theorem append (h : Standing journal c) (before : List Start) : Standing (before ++ journal) c := by
  cases h with
  | running h => exact .running h
  | returned v hv hs => exact .returned v hv hs
  | paused earlier e heq he => exact .paused (before ++ earlier) e (by simp [heq]) he

/-- Only the stop signal and the position in the workflow matter. -/
theorem congr (h : Standing journal c) (hresult : d.result? = c.result?)
    (hsuspended : d.suspended = c.suspended) (hpath : d.suspendedPath = c.suspendedPath)
    (hstep : d.currentStep = c.currentStep) : Standing journal d := by
  cases h with
  | running h => exact .running ⟨hresult.trans h.1, hsuspended.trans h.2⟩
  | returned v hv hs => exact .returned v (hresult.trans hv) (hsuspended.trans hs)
  | paused earlier e heq he =>
    refine .paused earlier e heq ⟨he.pausing, hsuspended.trans he.suspended, ?_,
      hstep.trans he.currentStep, ?_⟩
    · rw [hpath]
      exact he.path
    · rw [hresult]
      exact he.payload

theorem isRunning (h : Standing journal c) (hresult : c.hasResult = false) : c.IsRunning := by
  cases h with
  | running h => exact h
  | returned v hv => simp [Context.hasResult, hv] at hresult
  | paused _ e _ he =>
    obtain ⟨lines, extra, hpayload⟩ := he.payload
    simp [Context.hasResult, hpayload] at hresult

theorem leave (h : Standing journal c) (p : Place) : Standing journal (p.leave c) := by
  cases p with
  | top => exact h
  | branch name => exact h.congr rfl rfl rfl rfl

end Standing

theorem Context.IsRunning.enter {c : Context} (h : c.IsRunning) (p : Place) (index : Int) :
    (p.enter index c).IsRunning := by
  cases p with
  | top => exact ⟨h.result, h.suspended⟩
  | branch name => exact ⟨h.result, h.suspended⟩

theorem Context.IsRunning.leave {c : Context} (h : c.IsRunning) (p : Place) :
    (p.leave c).IsRunning := by
  cases p with
  | top => exact h
  | branch name => exact ⟨h.result, h.suspended⟩

/-- An effect of a step leaves the run running, ends it, or pauses it at that step. -/
theorem Effect.standing {label : StepLabel} {s : Step} {act : Action} {c : Context} {eff : Effect}
    (hs : s.isPausing = act.isPausing) (hlabel : s.label = label) (hc : c.IsPlaced)
    (hrunning : c.IsRunning) (h : act.Allows label c eff) :
    Standing [{ step := s, context := c }] (eff.apply c) := by
  cases h with
  | none => exact .running hrunning
  | log => exact .running ⟨hrunning.result, hrunning.suspended⟩
  | bind => exact .running ⟨hrunning.result, hrunning.suspended⟩
  | finish => exact .returned _ rfl hrunning.suspended
  | @pause _ bound? lines extra hact _ =>
    obtain ⟨frames, hframes⟩ := hc
    obtain ⟨bindings, heq⟩ := Effect.apply_pause bound? (label.payload c lines extra) hframes
    subst hlabel
    rw [heq]
    refine .paused [] _ rfl ⟨hs.trans hact, rfl, ?_, rfl, lines, extra, rfl⟩
    exact hframes ▸ Context.mapM_toDict_frames frames

namespace Ran

variable {engine : Engine σ} {task : Task} {t u : Situation σ} {journal : List Start}
  {r : Except Raised Value}

/-- A run is running still, or has been stopped by the last step of its journal. -/
theorem standing (h : Ran engine task t journal r u) (ht : t.context.IsRunning) :
    Standing (task.opened t.context ++ journal) u.context := by
  induction h with
  | unnamed => exact .running ht
  | completed _ _ ih => exact (ih ht).congr rfl rfl rfl rfl
  | failed _ _ _ ih => exact (ih ht).congr rfl rfl rfl rfl
  | unreported _ _ _ ih => exact ih ht
  | @action name act _ _ _ _ hplaced hperform =>
    obtain ⟨-, eff, hallows, hctx, -⟩ := Engine.perform_ends hplaced hperform
    rw [hctx]
    exact eff.standing (s := .action name act) rfl rfl hplaced ht hallows
  | refused => exact .running ⟨ht.result, ht.suspended⟩
  | passed => exact .running ht
  | chosen _ _ _ _ _ ih => exact (ih ht).append _
  | again _ _ _ _ _ _ ih => exact (ih ⟨ht.result, ht.suspended⟩).append _
  | done => exact .running ht
  | @broken p index _ _ _ _ _ _ _ ih => exact (ih (ht.enter p index)).leave p
  | @stopped p index _ _ _ _ _ _ _ _ ih => exact (ih (ht.enter p index)).leave p
  | @next p index _ _ _ _ _ journal _ _ _ _ hgo _ ih ih' =>
    have hrunning := (ih (ht.enter p index)).isRunning hgo
    exact (ih' (hrunning.leave p)).append journal

/-- What is done inside a step of the workflow does not move the run to another one. -/
theorem currentStep_eq (h : Ran engine task t journal r u) (hnested : task.isNested = true) :
    u.context.currentStep = t.context.currentStep := by
  induction h with
  | unnamed => rfl
  | completed _ _ ih => exact ih rfl
  | failed _ _ _ ih => exact ih rfl
  | unreported _ _ _ ih => exact ih rfl
  | action _ hplaced hperform =>
    obtain ⟨-, eff, -, hctx, -⟩ := Engine.perform_ends hplaced hperform
    rw [hctx, eff.apply_currentStep]
  | refused => rfl
  | passed => rfl
  | chosen _ _ _ _ _ ih => exact ih rfl
  | again _ _ _ _ _ _ ih => exact ih rfl
  | done => rfl
  | @broken p _ _ _ _ _ _ _ _ ih =>
    cases p with
    | top => cases hnested
    | branch name => exact ih rfl
  | @stopped p _ _ _ _ _ _ _ _ _ ih =>
    cases p with
    | top => cases hnested
    | branch name => exact ih rfl
  | @next p _ _ _ _ _ _ _ _ _ _ _ _ _ ih ih' =>
    cases p with
    | top => cases hnested
    | branch name => exact (ih' rfl).trans (ih rfl)

/-- So a step of a branch leaves the run at the same step of the workflow. -/
theorem leave_currentStep_eq {p : Place} {index index' : Int} {s : Step} {ss : List Step}
    (h : Ran engine (.step s) (t.change (p.enter index)) journal r u)
    (hnested : (Task.steps p index' ss).isNested = true) :
    (p.leave u.context).currentStep = t.context.currentStep := by
  cases p with
  | top => cases hnested
  | branch name => exact h.currentStep_eq rfl

/-- Where there is no branch to be entered again, every step is begun afresh. -/
theorem isFresh_of_nil (h : Ran engine task t journal r u) (hpath : t.context.resumePath = []) :
    ∀ e ∈ task.opened t.context ++ journal, e.isFresh = true := by
  have hopened {s : Step} {e : Start} {t : Situation σ} (hpath : t.context.resumePath = [])
      (he : e ∈ (Task.body s).opened t.context) : e.isFresh = true := by
    cases List.mem_singleton.1 he
    exact List.isEmpty_iff.2 hpath
  induction h with
  | unnamed => exact nofun
  | completed _ _ ih => exact ih hpath
  | failed _ _ _ ih => exact ih hpath
  | unreported _ _ _ ih => exact ih hpath
  | action | refused | passed =>
    intro e he
    exact hopened hpath he
  | chosen _ _ _ _ _ ih =>
    intro e he
    rcases List.mem_append.1 he with he | he
    · exact hopened hpath he
    · exact ih hpath e he
  | again hcons =>
    rw [hpath] at hcons
    cases hcons
  | done => exact nofun
  | broken _ ih => exact ih ((Place.enter_resumePath _ _ _).trans hpath)
  | stopped _ _ ih => exact ih ((Place.enter_resumePath _ _ _).trans hpath)
  | @next p _ _ _ _ u _ journal journal' _ _ hfirst _ _ ih ih' =>
    intro e he
    rcases List.mem_append.1 (show e ∈ journal ++ journal' from he) with he | he
    · exact ih ((Place.enter_resumePath _ _ _).trans hpath) e he
    · exact ih' (hfirst.leave_resumePath_eq_nil rfl p) e he

/-! ## The history -/

/-- What an action does sets no other step to work. -/
theorem journal_eq_nil {s : Step} (h : Ran engine (.body s) t journal r u)
    (hs : s.isAction = true) : journal = [] := by
  cases h with
  | action => rfl
  | refused => rfl
  | passed => rfl
  | chosen _ _ hbranch => cases hs.symm.trans (Step.isAction_of_branchNamed? hbranch)
  | again _ _ _ hbranch => cases hs.symm.trans (Step.isAction_of_branchNamed? hbranch)

/-- The entry for the end of a step is that of its action, if it is one. -/
private theorem filter_entry {s : Step} {c : Context} {entry : StepResult} (added : List StepResult)
    {isLeaf : Value → Bool} (hentry : entry.step = s.name) (hleaf : isLeaf s.name = s.isAction) :
    ((added ++ [entry]).map StepResult.step).filter isLeaf
      = (added.map StepResult.step).filter isLeaf
        ++ (actionsOf [{ step := s, context := c }]).map Step.name := by
  rw [List.map_append, List.filter_append]
  cases hs : s.isAction <;> simp [actionsOf, hs, hentry, hleaf]

/-- The names tell of the actions of the journal in its order, and of all of them unless something was
raised. -/
structure Tells (names : List Value) (journal : List Start) (r : Except Raised Value) : Prop where
  sublist : names.Sublist ((actionsOf journal).map Step.name)
  all : r.isOk = true → names = (actionsOf journal).map Step.name

/-- With the entry for its end, a history tells of the step as well. -/
private theorem Tells.entry {s : Step} {c : Context} {names : List Value} {r r' : Except Raised Value}
    (h : Tells names journal r) (hnil : s.isAction = true → journal = [])
    (hr : r'.isOk = true → r.isOk = true) :
    Tells (names ++ (actionsOf [{ step := s, context := c }]).map Step.name)
      ({ step := s, context := c } :: journal) r' := by
  cases hs : s.isAction with
  | true =>
    obtain rfl := hnil hs
    obtain rfl := List.sublist_nil.1 h.sublist
    exact ⟨.refl _, fun _ => rfl⟩
  | false =>
    have hnone : actionsOf [{ step := s, context := c }] = [] := by simp [actionsOf, hs]
    have hsame : actionsOf ({ step := s, context := c } :: journal) = actionsOf journal := by
      rw [actionsOf_cons, hnone, List.nil_append]
    rw [hnone, List.map_nil, List.append_nil]
    exact ⟨hsame ▸ h.sublist, fun hok => hsame ▸ h.all (hr hok)⟩

/-- A run adds to the history one entry for each action of its journal, in the order of the journal,
besides entries for containers. Only where something was raised the last of these may be missing. -/
theorem history (h : Ran engine task t journal r u) (isLeaf : Value → Bool)
    (hleaf : ∀ e ∈ task.opened t.context ++ journal, isLeaf e.step.name = e.step.isAction) :
    ∃ added, u.context.results = t.context.results ++ added ∧
      Tells ((added.map StepResult.step).filter isLeaf) journal r := by
  have hnone {r : Except Raised Value} : Tells [] [] r := ⟨.refl _, fun _ => rfl⟩
  induction h with
  | unnamed => exact ⟨[], by simp, hnone⟩
  | @completed s t u journal output _ hbody ih =>
    obtain ⟨added, hresults, htells⟩ := ih hleaf
    refine ⟨added ++ [s.label.completed output], ?_, ?_⟩
    · rw [Situation.change, Context.record_results, hresults, List.append_assoc]
      rfl
    · rw [filter_entry added rfl (hleaf _ (.head _))]
      exact htells.entry hbody.journal_eq_nil id
  | @failed s t u journal e _ _ hbody ih =>
    obtain ⟨added, hresults, htells⟩ := ih hleaf
    refine ⟨added ++ [s.label.failed e], ?_, ?_⟩
    · rw [Situation.change, Context.record_results, hresults, List.append_assoc]
      rfl
    · rw [filter_entry added rfl (hleaf _ (.head _))]
      exact htells.entry hbody.journal_eq_nil fun hok => by cases hok
  | unreported _ _ _ ih =>
    obtain ⟨added, hresults, htells⟩ := ih hleaf
    refine ⟨added, hresults, ?_, fun hok => by cases hok⟩
    rw [actionsOf_cons, List.map_append]
    exact htells.sublist.trans (List.sublist_append_right _ _)
  | action _ hplaced hperform =>
    obtain ⟨-, eff, -, hctx, -⟩ := Engine.perform_ends hplaced hperform
    exact ⟨[], by simp [hctx, eff.apply_results], hnone⟩
  | refused => exact ⟨[], by simp [Situation.withPath], hnone⟩
  | passed => exact ⟨[], by simp, hnone⟩
  | chosen _ _ _ _ _ ih =>
    obtain ⟨added, hresults, htells⟩ := ih fun e he => hleaf e (List.mem_append_right _ he)
    exact ⟨added, hresults, htells.sublist, fun hok => htells.all (Checks.isOk_map ▸ hok)⟩
  | again _ _ _ _ _ _ ih =>
    obtain ⟨added, hresults, htells⟩ := ih fun e he => hleaf e (List.mem_append_right _ he)
    exact ⟨added, hresults, htells.sublist, fun hok => htells.all (Checks.isOk_map ▸ hok)⟩
  | done => exact ⟨[], by simp, hnone⟩
  | @broken p _ _ _ _ _ _ _ _ ih =>
    obtain ⟨added, hresults, htells⟩ := ih hleaf
    refine ⟨added, ?_, htells⟩
    cases p <;> exact hresults
  | @stopped p _ _ _ _ _ _ _ _ _ ih =>
    obtain ⟨added, hresults, htells⟩ := ih hleaf
    refine ⟨added, ?_, htells.sublist, fun _ => htells.all rfl⟩
    cases p <;> exact hresults
  | @next p _ _ _ t u _ journal journal' _ _ _ _ _ ih ih' =>
    have hleaf : ∀ e ∈ journal ++ journal', isLeaf e.step.name = e.step.isAction := hleaf
    obtain ⟨added, hresults, htells⟩ := ih fun e he => hleaf e (List.mem_append_left _ he)
    obtain ⟨added', hresults', htells'⟩ := ih' fun e he => hleaf e (List.mem_append_right _ he)
    have hfirst : (p.leave u.context).results = t.context.results ++ added := by
      cases p <;> exact hresults
    refine ⟨added ++ added', ?_, ?_⟩
    · rw [hresults', Situation.change, hfirst, List.append_assoc]
    · rw [List.map_append, List.filter_append, htells.all rfl]
      refine ⟨?_, fun hok => ?_⟩
      · rw [actionsOf_append, List.map_append]
        exact htells'.sublist.append_left _
      · rw [htells'.all hok, actionsOf_append, List.map_append]

end Ran

end Stepwise
