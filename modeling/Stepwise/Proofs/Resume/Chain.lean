-- SUMMARY: Chains of pauses and resumptions, which do each action of the workflow once and in order.
import Stepwise.Proofs.Resume.Point

/-!
# Chains

A run that is suspended goes on from its payload, and may be suspended again. All the runs
of such a chain together do what one run does that is never suspended: what they have set
to work from its beginning, followed by what lies ahead of the latest one, is in document
order, and whatever is missing there has been done or has been passed over.
-/

namespace Stepwise

variable {σ : Type}

/-! ## Actions in a history -/

namespace Workflow

def isActionName (w : Workflow) (name : Value) : Bool := decide (name ∈ w.leaves.map Step.name)

/-- The names of the actions that a history tells of, in its order. -/
def actionNames (w : Workflow) (results : List StepResult) : List Value :=
  (results.map StepResult.step).filter w.isActionName

namespace WellNamed

variable {w : Workflow}

theorem leaves_nodup (h : w.WellNamed) : (w.leaves.map Step.name).Nodup :=
  h.nodup.sublist w.leaves_names_sublist

theorem truthy_of_isActionName (h : w.WellNamed) {name : Value} (hname : w.isActionName name = true) :
    name.truthy = true :=
  h.truthy name (w.leaves_names_sublist.subset (of_decide_eq_true hname))

/-- A step of the workflow is an action if and only if its name is that of an action. -/
theorem isActionName_eq (h : w.WellNamed) {s : Step} (hs : s ∈ w.nodes) :
    w.isActionName s.name = s.isAction := by
  refine Bool.eq_iff_iff.2 ⟨fun hname => ?_, fun haction => ?_⟩
  · obtain ⟨s', hs', heq⟩ := List.mem_map.1 (of_decide_eq_true hname)
    obtain ⟨hmem, haction⟩ := List.mem_filter.1 hs'
    rwa [← h.eq_of_name hmem hs heq]
  · exact decide_eq_true (List.mem_map_of_mem (List.mem_filter.2 ⟨hs, haction⟩))

theorem actionNames_inputResult (h : w.WellNamed) (inputs : Value) :
    w.actionNames [Context.inputResult inputs] = [] := by
  have hinput : w.isActionName (.str inputStepName) = false := by
    exact decide_eq_false fun hmem => h.unreserved (w.leaves_names_sublist.subset hmem)
  simp [actionNames, Context.inputResult, hinput]

/-- The history that an outcome hands over tells of the same actions. -/
theorem actionNames_restored (h : w.WellNamed) (o : Outcome) (inputs : Value) (path : List Dict) :
    w.actionNames (o.restored inputs path).results = w.actionNames o.context.results := by
  have hname (name : Value) (names : List Value) :
      (name.orElse (.str "") :: names).filter w.isActionName
        = [name].filter w.isActionName ++ names.filter w.isActionName := by
    have hfalse (name : Value) (hname : name.truthy = false) : w.isActionName name = false := by
      refine Bool.eq_false_iff.2 ?_
      intro htrue
      rw [h.truthy_of_isActionName htrue] at hname
      cases hname
    cases htruthy : name.truthy with
    | true => simp [Value.orElse, htruthy, ← List.filter_append]
    | false => simp [Value.orElse, htruthy, hfalse name htruthy, hfalse (.str "") rfl]
  unfold Outcome.restored
  dsimp only
  split
  · rename_i hempty
    rw [h.actionNames_inputResult, List.isEmpty_iff.1 hempty]
    rfl
  · unfold actionNames
    induction o.context.results with
    | nil => rfl
    | cons r rs ih =>
      simp only [List.map_cons, hname, ih]
      rw [← List.filter_append]
      rfl

end WellNamed

end Workflow

/-! ## One run -/

theorem Start.StandsAt.unique {e : Start} {w : Workflow} {index index' : Int}
    {path path' : List Frame} {left left' : List Step} (h : e.StandsAt w index path left)
    (h' : e.StandsAt w index' path' left') : index = index' ∧ path = path' ∧ left = left' := by
  have hindex : index = index' := Value.int.inj (h.currentStep.symm.trans h'.currentStep)
  have hpath : path = path' := Frame.map_toValue_inj.1 (h.position.symm.trans h'.position)
  have hseek := h.seek
  rw [hindex, hpath, h'.seek] at hseek
  cases hseek
  exact ⟨hindex, hpath, rfl⟩

namespace Prepared

variable {engine : Engine σ} {w : Workflow} {r : Request} {start : Int} {c : Context}
  {outside outside' : σ} {o : Outcome}

theorem mem_nodes (h : Prepared w r start c) (hint : r.HasIntegerPath) {e : Start}
    (he : e ∈ journal engine w r outside) : e.step ∈ w.nodes := by
  obtain ⟨index, path, left, hstands⟩ := h.standsAt_of_mem hint he
  exact Workflow.mem_nodes_of_seek hstands.seek

/-- An action is never set to work while there are branches to be entered again. -/
theorem isFresh_of_isAction (h : Prepared w r start c) (hint : r.HasIntegerPath) {e : Start}
    (he : e ∈ journal engine w r outside) (haction : e.step.isAction = true) : e.isFresh = true := by
  obtain ⟨q, u, -, hran⟩ := run_ran engine h hint outside
  have hready : Task.Ready (.step e.step) e.context := hran.ready_of_mem (h.ready hint) e he
  exact List.isEmpty_iff.2 (hready.checked.resumePath_of_isAction haction)

/-- A run adds to the history that it was given actions that it has set to work, and all of them unless
it has failed. -/
theorem history (h : Prepared w r start c) (hint : r.HasIntegerPath)
    (hrun : run engine w r outside = (.ok o, outside')) :
    ∃ told, w.actionNames o.context.results = w.actionNames c.results ++ told ∧
      told.Sublist ((actionsOf (journal engine w r outside)).map Step.name) ∧
      ((∀ e, o.verdict ≠ .failed e) → told = (actionsOf (journal engine w r outside)).map Step.name) := by
  obtain ⟨q, u, hconclude, hran⟩ := run_ran engine h hint outside
  obtain ⟨added, hresults, htells⟩ := hran.history w.isActionName fun e he =>
    (Workflow.wellNamed h.wellformed).isActionName_eq (h.mem_nodes hint he)
  have hsettled (hnames : o.context.results.map StepResult.step = u.context.results.map StepResult.step) :
      w.actionNames o.context.results = w.actionNames c.results ++ w.actionNames added := by
    rw [Workflow.actionNames, hnames, hresults, List.map_append, List.filter_append]
    rfl
  rw [hconclude] at hrun
  have ho := (Prod.mk.inj hrun).1
  refine ⟨w.actionNames added, hsettled ?_, htells.sublist, fun hgoes => htells.all (isOk_of_conclude ho hgoes)⟩
  obtain ⟨e, rfl, rfl⟩ | ⟨v, rfl, rfl⟩ := conclude_eq_ok ho
  · exact List.map_map
  · rw [Outcome.ofContext_results]
    exact List.map_map

/-- A run that has been completed has done or passed over every action ahead of it. -/
theorem covers_of_completed (h : Prepared w r start c) (hint : r.HasIntegerPath)
    (hrun : run engine w r outside = (.ok o, outside')) {v : Value}
    (hv : o.verdict = .completed v false) {x : Step} (hx : x ∈ w.ahead start c.frames)
    (haction : x.isAction = true) : Covers (journal engine w r outside) x := by
  obtain ⟨q, u, hconclude, hran⟩ := run_ran engine h hint outside
  rw [hconclude] at hrun
  obtain ⟨e, rfl, rfl⟩ | ⟨v, rfl, rfl⟩ := conclude_eq_ok (Prod.mk.inj hrun).1
  · cases hv
  · refine (hran.covers rfl haction hx).resolve_right ?_
    intro hstop
    rw [Outcome.ofContext_completed hv] at hstop
    cases hstop.1

/-- A run that has been suspended has done or passed over every action ahead of it, except for those
that come after the step that paused it. -/
theorem covers_of_suspended (h : Prepared w r start c) (hint : r.HasIntegerPath)
    (hrun : run engine w r outside = (.ok o, outside')) {atStep resumeStep : Int}
    {resumePath : List Dict} {payload : Value}
    (hv : o.verdict = .suspended atStep resumeStep resumePath payload) {earlier : List Start}
    {e : Start} (hjournal : journal engine w r outside = earlier ++ [e]) {index : Int}
    {path : List Frame} {left : List Step} (hstands : e.StandsAt w index path left) {x : Step}
    (hx : x ∈ w.ahead start c.frames) (haction : x.isAction = true) :
    Covers (journal engine w r outside) x ∨ x ∈ left := by
  obtain ⟨q, u, hconclude, hran⟩ := run_ran engine h hint outside
  rw [hconclude] at hrun
  obtain ⟨_, rfl, rfl⟩ | ⟨_, rfl, rfl⟩ := conclude_eq_ok (Prod.mk.inj hrun).1
  · cases hv
  · refine (hran.covers rfl haction hx).imp id ?_
    intro hleaves
    obtain ⟨-, earlier', e', path', left', hjournal', hreach, hleft⟩ := hleaves
    have hsame : earlier ++ [e] = earlier' ++ [e'] := hjournal.symm.trans hjournal'
    obtain ⟨-, rfl⟩ := List.append_singleton_inj.1 hsame
    obtain ⟨index', -, hstands'⟩ := hreach.standsAt h.bounds.1 h.startsRun.position
    rwa [(hstands.unique hstands').2.2]

end Prepared

/-! ## Chains of runs -/

/-- One run of a chain: what it has been asked, and the world outside that it finds. -/
structure Leg (σ : Type) where
  request : Request
  outside : σ

/-- The steps that the runs of a chain set to work, in order. -/
def startsOf (engine : Engine σ) (w : Workflow) (legs : List (Leg σ)) : List Start :=
  legs.flatMap fun leg => journal engine w leg.request leg.outside

theorem startsOf_concat (engine : Engine σ) (w : Workflow) (legs : List (Leg σ)) (leg : Leg σ) :
    startsOf engine w (legs ++ [leg])
      = startsOf engine w legs ++ journal engine w leg.request leg.outside := by
  simp [startsOf]

def Leg.pauses (leg : Leg σ) (engine : Engine σ) (w : Workflow) : Bool :=
  match (run engine w leg.request leg.outside).1 with
  | .ok o => o.status == "suspended"
  | .error _ => false

theorem Leg.pauses_iff {leg : Leg σ} {engine : Engine σ} {w : Workflow} :
    leg.pauses engine w = true ↔ ∃ o outside' atStep resumeStep resumePath payload,
      run engine w leg.request leg.outside = (.ok o, outside') ∧
        o.verdict = .suspended atStep resumeStep resumePath payload := by
  unfold Leg.pauses
  obtain ⟨result, world⟩ := run engine w leg.request leg.outside
  cases result with
  | error => simp
  | ok o => cases hv : o.verdict <;> simp [Outcome.status, hv]

/-- The runs that have been suspended, and the run that follows on them: first a fresh one, and then
one from the payload of the run before it. The world outside may have changed in the meantime. -/
inductive Chain (engine : Engine σ) (w : Workflow) (inputs : Value) : List (Leg σ) → Leg σ → Prop
  | fresh (outside : σ) : Chain engine w inputs [] { request := { inputs }, outside }
  | resumed {earlier : List (Leg σ)} {last : Leg σ} {o : Outcome} {outside' : σ}
    {atStep resumeStep : Int} {resumePath : List Dict} {payload : Value} {request : Request}
    (outside : σ) :
    Chain engine w inputs earlier last →
    run engine w last.request last.outside = (.ok o, outside') →
    o.verdict = .suspended atStep resumeStep resumePath payload →
    Request.ofPayload w payload inputs = .ok request →
    Chain engine w inputs (earlier ++ [last]) { request, outside }

/-- How far a chain has come when its latest run starts: what its runs have set to work, and what lies
ahead of the latest one. -/
structure Leg.Follows (leg : Leg σ) (engine : Engine σ) (w : Workflow) (inputs : Value)
    (earlier : List (Leg σ)) (start : Int) (c : Context) : Prop where
  prepared : Prepared w leg.request start c
  integer : leg.request.HasIntegerPath
  inputs : leg.request.inputs = inputs
  ordered : (freshSteps (startsOf engine w earlier) ++ w.ahead start c.frames).Sublist w.nodes
  fresh : ∀ e ∈ startsOf engine w earlier, e.step.isAction = true → e.isFresh = true
  history : w.actionNames c.results = (actionsOf (startsOf engine w earlier)).map Step.name
  covered : ∀ x ∈ w.leaves, Covers (startsOf engine w earlier) x ∨ x ∈ w.ahead start c.frames
  pauses : earlier.length ≤ ((actionsOf (startsOf engine w earlier)).filter Step.isPausing).length

namespace Leg.Follows

variable {engine : Engine σ} {w : Workflow} {inputs : Value} {earlier : List (Leg σ)} {leg : Leg σ}
  {start : Int} {c : Context}

theorem wellNamed (h : leg.Follows engine w inputs earlier start c) : w.WellNamed :=
  Workflow.wellNamed h.prepared.wellformed

/-- All actions of a chain are begun afresh. -/
theorem fresh_concat (h : leg.Follows engine w inputs earlier start c) :
    ∀ e ∈ startsOf engine w (earlier ++ [leg]), e.step.isAction = true → e.isFresh = true := by
  rw [startsOf_concat]
  intro e he haction
  rcases List.mem_append.1 he with he | he
  · exact h.fresh e he haction
  · exact h.prepared.isFresh_of_isAction h.integer he haction

/-- What a chain begins afresh comes in document order. -/
theorem freshSteps_sublist (h : leg.Follows engine w inputs earlier start c) :
    (freshSteps (startsOf engine w (earlier ++ [leg]))).Sublist w.nodes := by
  obtain ⟨q, u, -, hran⟩ := run_ran engine h.prepared h.integer leg.outside
  have hsub : (freshSteps (journal engine w leg.request leg.outside)).Sublist
      (w.ahead start c.frames) := hran.ordered.freshSteps_sublist
  rw [startsOf_concat, freshSteps_append]
  exact (hsub.append_left _).trans h.ordered

theorem actionsOf_sublist (h : leg.Follows engine w inputs earlier start c) :
    (actionsOf (startsOf engine w (earlier ++ [leg]))).Sublist w.leaves := by
  rw [actionsOf_eq_filter h.fresh_concat]
  exact h.freshSteps_sublist.filter Step.isAction

/-- The history that a chain leaves tells of actions that its runs have set to work, in their order. -/
theorem actionNames_sublist (h : leg.Follows engine w inputs earlier start c) {o : Outcome} {outside' : σ}
    (hrun : run engine w leg.request leg.outside = (.ok o, outside')) :
    (w.actionNames o.context.results).Sublist
      ((actionsOf (startsOf engine w (earlier ++ [leg]))).map Step.name) := by
  obtain ⟨told, heq, hsub, -⟩ := h.prepared.history h.integer hrun
  rw [heq, h.history, startsOf_concat, actionsOf_append, List.map_append]
  exact hsub.append_left _

/-- Unless the latest run has failed, it tells of all of them. -/
theorem actionNames_eq (h : leg.Follows engine w inputs earlier start c) {o : Outcome} {outside' : σ}
    (hrun : run engine w leg.request leg.outside = (.ok o, outside')) (hgoes : ∀ e, o.verdict ≠ .failed e) :
    w.actionNames o.context.results
      = (actionsOf (startsOf engine w (earlier ++ [leg]))).map Step.name := by
  obtain ⟨told, heq, -, htold⟩ := h.prepared.history h.integer hrun
  rw [heq, htold hgoes, h.history, startsOf_concat, actionsOf_append, List.map_append]

/-- Each run that is suspended is paused by an action. -/
theorem pauses_concat (h : leg.Follows engine w inputs earlier start c)
    (hpauses : ∃ before e, journal engine w leg.request leg.outside = before ++ [e] ∧
      e.step.isPausing = true) :
    (earlier ++ [leg]).length
      ≤ ((actionsOf (startsOf engine w (earlier ++ [leg]))).filter Step.isPausing).length := by
  obtain ⟨before, e, hjournal, hpausing⟩ := hpauses
  have haction : actionsOf [e] = [e.step] := by
    simp [actionsOf, Step.isAction_of_isPausing hpausing]
  have hlast : 1 ≤ ((actionsOf (before ++ [e])).filter Step.isPausing).length := by
    simp [actionsOf_append, haction, hpausing]
  rw [startsOf_concat, hjournal, actionsOf_append, List.filter_append, List.length_append,
    List.length_append]
  exact Nat.add_le_add h.pauses hlast

/-- A fresh run follows on nothing. -/
theorem first {outside : σ} (hprepare : prepare w { inputs } = .ok (start, c)) :
    Leg.Follows { request := { inputs }, outside } engine w inputs [] start c := by
  have h : Prepared w { inputs } start c := prepare_eq_ok.1 hprepare
  obtain ⟨hstart, given, accepted, -, -, hnew⟩ := h.fresh
  have hahead : w.ahead start c.frames = w.nodes := by
    rw [hstart, hnew]
    exact Step.aheadOf_nil w.steps
  refine ⟨h, Request.hasIntegerPath_of_null rfl, rfl, ?_, nofun, ?_, fun x hx => .inr ?_, Nat.le_refl 0⟩
  · exact hahead ▸ .refl _
  · rw [hnew]
    exact (Workflow.wellNamed h.wellformed).actionNames_inputResult _
  · rw [hahead]
    exact List.mem_of_mem_filter hx

/-- The run from the payload of a suspended one starts behind the step that paused it, with the history
that was saved. -/
theorem resumesAt (h : leg.Follows engine w inputs earlier start c) {o : Outcome} {outside' : σ}
    (hrun : run engine w leg.request leg.outside = (.ok o, outside')) {atStep resumeStep : Int}
    {resumePath : List Dict} {payload : Value}
    (hv : o.verdict = .suspended atStep resumeStep resumePath payload) {request : Request}
    (hrequest : Request.ofPayload w payload inputs = .ok request) :
    ∃ before e path left, journal engine w leg.request leg.outside = before ++ [e] ∧
      e.StandsAt w atStep path left ∧ e.step.isPausing = true ∧
      (freshSteps (journal engine w leg.request leg.outside) ++ left).Sublist
        (w.ahead start c.frames) ∧
      request = o.resumeRequest inputs (resumeIndex atStep path) ((nextFrames path).map Frame.toDict) ∧
      Prepared w request (resumeIndex atStep path)
        (o.restored c.inputs ((nextFrames path).map Frame.toDict)) := by
  have hinputs := h.inputs
  subst hinputs
  exact h.prepared.resumesAt h.integer hrun hv hrequest

/-- The run from the payload of a suspended one follows on it. -/
theorem next (h : leg.Follows engine w inputs earlier start c) {o : Outcome} {outside' : σ}
    (hrun : run engine w leg.request leg.outside = (.ok o, outside')) {atStep resumeStep : Int}
    {resumePath : List Dict} {payload : Value}
    (hv : o.verdict = .suspended atStep resumeStep resumePath payload) {request : Request}
    (hrequest : Request.ofPayload w payload inputs = .ok request) (outside : σ) :
    ∃ start c, Leg.Follows { request, outside } engine w inputs (earlier ++ [leg]) start c := by
  obtain ⟨before, e, path, left, hjournal, hstands, hpausing, hsub, hsaved, hprepared⟩ :=
    h.resumesAt hrun hv hrequest
  have hleft := (Workflow.seek_resumes hstands.seek).2.2
  have hframes : (o.restored c.inputs ((nextFrames path).map Frame.toDict)).frames
      = nextFrames path := Context.frames_of_map rfl
  refine ⟨_, _, hprepared, ?_, ?_, ?_, h.fresh_concat, ?_, ?_, ?_⟩
  · rw [hsaved]
    exact Request.hasIntegerPath_of_frames rfl
  · rw [hsaved]
    rfl
  · rw [hframes, hleft, startsOf_concat, freshSteps_append, List.append_assoc]
    exact (hsub.append_left _).trans h.ordered
  · rw [h.wellNamed.actionNames_restored, h.actionNames_eq hrun (by simp [hv])]
  · intro x hx
    rw [hframes, hleft, startsOf_concat]
    rcases h.covered x hx with hcovers | hahead
    · exact .inl (hcovers.append_right _)
    · have haction := (List.mem_filter.1 hx).2
      exact (h.prepared.covers_of_suspended h.integer hrun hv hjournal hstands hahead haction).imp
        (·.append_left _) id
  · exact h.pauses_concat ⟨_, _, hjournal, hpausing⟩

theorem length_le (h : leg.Follows engine w inputs earlier start c) :
    earlier.length ≤ (w.leaves.filter Step.isPausing).length := by
  have hsub := (h.actionsOf_sublist.filter Step.isPausing).length_le
  rw [startsOf_concat, actionsOf_append, List.filter_append, List.length_append] at hsub
  exact Nat.le_trans h.pauses (Nat.le_trans (Nat.le_add_right _ _) hsub)

/-- The runs of a chain pause at most as often as there are actions that may pause. -/
theorem countP_pauses (h : leg.Follows engine w inputs earlier start c) :
    (earlier ++ [leg]).countP (·.pauses engine w) ≤ (w.leaves.filter Step.isPausing).length := by
  cases hpauses : leg.pauses engine w with
  | true =>
    obtain ⟨o, outside', atStep, resumeStep, resumePath, payload, hrun, hv⟩ := Leg.pauses_iff.1 hpauses
    obtain ⟨before, e, _, _, _, hjournal, -, hpausing, -⟩ := h.prepared.suspendedAt h.integer hrun hv
    refine Nat.le_trans List.countP_le_length ?_
    refine Nat.le_trans (h.pauses_concat ⟨before, e, hjournal, hpausing.pausing⟩) ?_
    exact (h.actionsOf_sublist.filter Step.isPausing).length_le
  | false =>
    rw [List.countP_append, List.countP_singleton, hpauses]
    exact Nat.le_trans List.countP_le_length h.length_le

end Leg.Follows

/-- Every run of a chain follows on those before it. -/
theorem Chain.follows {engine : Engine σ} {w : Workflow} {inputs : Value} {earlier : List (Leg σ)}
    {last : Leg σ} (h : Chain engine w inputs earlier last)
    (hvalid : (prepare w { inputs }).isOk = true) :
    ∃ start c, last.Follows engine w inputs earlier start c := by
  induction h with
  | fresh outside =>
    cases hprepare : prepare w { inputs } with
    | error e => rw [hprepare] at hvalid; cases hvalid
    | ok p => exact ⟨p.1, p.2, .first hprepare⟩
  | resumed outside _ hrun hv hrequest ih =>
    obtain ⟨start, c, hfollows⟩ := ih
    exact hfollows.next hrun hv hrequest outside

/-! ## Exactly once -/

/-- What the runs of a chain do with the actions of the workflow, and what history they leave. -/
structure ExactlyOnce (engine : Engine σ) (w : Workflow) (earlier : List (Leg σ)) (last : Leg σ) :
    Prop where
  /-- No two actions of the workflow share a name. -/
  distinct : (w.leaves.map Step.name).Nodup
  /-- The actions are set to work in document order, and none of them twice. -/
  executed : (actionsOf (startsOf engine w (earlier ++ [last]))).Sublist w.leaves
  /-- In this order they stand in the history. -/
  ordered : ∀ o outside, run engine w last.request last.outside = (.ok o, outside) →
    (w.actionNames o.context.results).Sublist (w.leaves.map Step.name)
  /-- No action has two results. -/
  once : ∀ o outside, run engine w last.request last.outside = (.ok o, outside) →
    ∀ s ∈ w.leaves, (o.context.results.map StepResult.step).count s.name ≤ 1
  /-- Once the chain is completed without a value, every action has a result, unless a container has
  left it out when it was first entered. -/
  completed : ∀ o outside v, run engine w last.request last.outside = (.ok o, outside) →
    o.verdict = .completed v false → ∀ s ∈ w.leaves,
      (o.context.results.map StepResult.step).count s.name = 1 ∨
        ∃ e ∈ startsOf engine w (earlier ++ [last]), e.PassesOver s
  /-- There are at most as many pauses as actions that may pause. -/
  pauses : (earlier ++ [last]).countP (·.pauses engine w) ≤ (w.leaves.filter Step.isPausing).length
  /-- So the chain ends. -/
  length : (earlier ++ [last]).length ≤ (w.leaves.filter Step.isPausing).length + 1

/-- Whatever the collaborators do, a fresh run and the runs that follow from its pauses do every action
of the workflow at most once and in document order, and together they leave out none but those in
branches that were not selected. -/
theorem chain_does_each_action_once (engine : Engine σ) (w : Workflow) (inputs : Value)
    (earlier : List (Leg σ)) (last : Leg σ) (hvalid : (prepare w { inputs }).isOk = true)
    (hchain : Chain engine w inputs earlier last) : ExactlyOnce engine w earlier last := by
  obtain ⟨start, c, h⟩ := hchain.follows hvalid
  have hdistinct := h.wellNamed.leaves_nodup
  have hsub := h.actionsOf_sublist.map Step.name
  have hcount (o : Outcome) {s : Step} (hs : s ∈ w.leaves) :
      (o.context.results.map StepResult.step).count s.name
        = (w.actionNames o.context.results).count s.name := by
    rw [Workflow.actionNames, List.count_filter]
    exact decide_eq_true (List.mem_map_of_mem hs)
  have hordered (o : Outcome) (outside : σ)
      (hrun : run engine w last.request last.outside = (.ok o, outside)) :
      (w.actionNames o.context.results).Sublist (w.leaves.map Step.name) :=
    (h.actionNames_sublist hrun).trans hsub
  have honce (o : Outcome) (outside : σ)
      (hrun : run engine w last.request last.outside = (.ok o, outside)) (s : Step)
      (hs : s ∈ w.leaves) : (o.context.results.map StepResult.step).count s.name ≤ 1 := by
    rw [hcount o hs]
    exact List.nodup_iff_count_le_one.1 (hdistinct.sublist (hordered o outside hrun)) s.name
  refine ⟨hdistinct, h.actionsOf_sublist, hordered, honce, ?_, h.countP_pauses, ?_⟩
  · intro o outside v hrun hv s hs
    have haction := (List.mem_filter.1 hs).2
    have hcovers : Covers (startsOf engine w (earlier ++ [last])) s := by
      rw [startsOf_concat]
      rcases h.covered s hs with hcovers | hahead
      · exact hcovers.append_right _
      · exact (h.prepared.covers_of_completed h.integer hrun hv hahead haction).append_left _
    refine hcovers.imp (fun hdone => ?_) id
    obtain ⟨e, he, hstep⟩ := hdone
    refine Nat.le_antisymm (honce o outside hrun s hs) ?_
    rw [hcount o hs, h.actionNames_eq hrun (by simp [hv]), Nat.succ_le_iff, List.count_pos_iff]
    refine List.mem_map_of_mem (List.mem_filter.2 ⟨?_, haction⟩)
    exact hstep ▸ List.mem_map_of_mem he
  · rw [List.length_append]
    exact Nat.add_le_add_right h.length_le 1

/-- What a fresh run of the workflow comes to: the agent inside the branch pauses it. -/
def agentInBranch.paused : Outcome :=
  match (run ({} : Engine Unit) agentInBranch {} ()).1 with
  | .ok o => o
  | .error _ => default

/-- The run that goes on from that pause. -/
def agentInBranch.leg : Leg Unit where
  request := agentInBranch.paused.resumeRequest .null 0 [Frame.toDict { branch := "then", index := 1 }]
  outside := ()

/-- The run that follows from the pause completes without asking the agent again. -/
theorem chain_of_agentInBranch :
    (prepare agentInBranch { inputs := .null }).isOk = true ∧
      ∃ legs, legs.length = 1 ∧
        Chain ({} : Engine Unit) agentInBranch .null legs agentInBranch.leg ∧
        (run ({} : Engine Unit) agentInBranch agentInBranch.leg.request ()).1.toOption.map
          Outcome.status = some "completed" ∧
        ExactlyOnce ({} : Engine Unit) agentInBranch legs agentInBranch.leg := by
  have hprepared : Prepared agentInBranch { inputs := .null } 0 _ := prepare_eq_ok.1 rfl
  have hint : Request.HasIntegerPath { inputs := .null } := Request.hasIntegerPath_of_null rfl
  have hrun : run ({} : Engine Unit) agentInBranch { inputs := .null } ()
      = (.ok agentInBranch.paused, ()) := rfl
  obtain ⟨payload, hpauses⟩ : ∃ payload, agentInBranch.paused.verdict
      = .suspended 0 0 [Frame.toDict { branch := "then", index := 1 }] payload := ⟨_, rfl⟩
  have hrequest : Request.ofPayload agentInBranch payload .null = .ok agentInBranch.leg.request :=
    (hprepared.ofPayload_eq_ok hint hrun hpauses).2 ⟨rfl, rfl⟩
  have hfresh : Chain ({} : Engine Unit) agentInBranch .null []
      { request := { inputs := .null }, outside := () } := .fresh ()
  have hchain : Chain ({} : Engine Unit) agentInBranch .null [_] agentInBranch.leg :=
    hfresh.resumed () hrun hpauses hrequest
  exact ⟨rfl, _, rfl, hchain, by decide +kernel,
    chain_does_each_action_once ({} : Engine Unit) agentInBranch .null _ _ rfl hchain⟩

end Stepwise
