-- SUMMARY: Where a run is suspended, and that the engine accepts the point that it reports to resume from.
import Stepwise.Proofs.Resume.Saved
import Stepwise.Proofs.Run.Raising
import Stepwise.Proofs.Workflow.Names

/-!
# Resume points

Wherever a step is set to work, the current step and the position of the run lead to it.
So the point that a suspended run reports lies just after the step that paused it, and the
engine resumes there: with the payload or with the saved fields, which are the same request.
-/

namespace Stepwise

variable {σ : Type}

/-! ## Where steps stand -/

/-- The context that a step has found tells where it stands in the workflow; `left` comes after it. -/
structure Start.StandsAt (e : Start) (w : Workflow) (index : Int) (path : List Frame)
    (left : List Step) : Prop where
  currentStep : e.context.currentStep = .int index
  position : e.context.position = path.map Frame.toValue
  seek : w.seek index path = some (e.step, left)

theorem Task.Reaches.standsAt {w : Workflow} {start : Int} {c : Context} {e : Start}
    {path : List Frame} {left : List Step}
    (h : Task.Reaches (.steps .top start (w.steps.drop start.toNat)) c e path left)
    (hstart : 0 ≤ start) (hposition : c.position = []) :
    ∃ index, start ≤ index ∧ e.StandsAt w index path left := by
  obtain ⟨⟨index, fs⟩, hlocate, hin⟩ := Option.bind_eq_some_iff.1 h.seek
  unfold Place.locate? at hlocate
  dsimp only at hlocate
  split at hlocate
  · rename_i n hstep
    cases hlocate
    obtain ⟨next, rest, left', hat, hseek, rfl⟩ := Step.seekIn_eq_some.1 hin
    have hle := (stepAt?_eq_some.1 hat).1
    refine ⟨index, by omega, hstep, by simpa [hposition] using h.position, ?_⟩
    rw [stepAt?_drop hle] at hat
    have hsum : index - start + (start.toNat : Int) = index := by omega
    rw [hsum] at hat
    exact Step.seekIn_eq_some.2 ⟨next, rest, left', hat, hseek, rfl⟩
  · cases hlocate

section Journals

variable {engine : Engine σ} {w : Workflow} {r : Request} {start : Int} {c : Context}

/-- Every step of a run stands where the run is, after what has been set to work before it and before
what is left then. -/
theorem Prepared.standsAt (h : Prepared w r start c) (hint : r.HasIntegerPath) {outside : σ}
    {earlier later : List Start} {e : Start}
    (hjournal : journal engine w r outside = earlier ++ e :: later) :
    ∃ index path left, start ≤ index ∧ e.StandsAt w index path left ∧
      (freshSteps (earlier ++ [e]) ++ left).Sublist (w.ahead start c.frames) := by
  obtain ⟨q, u, -, hran⟩ := run_ran engine h hint outside
  obtain ⟨path, left, hreach, hsub⟩ := hran.ordered earlier e later hjournal
  obtain ⟨index, hle, hstands⟩ := hreach.standsAt h.bounds.1 h.startsRun.position
  exact ⟨index, path, left, hle, hstands, hsub⟩

theorem Prepared.standsAt_of_mem (h : Prepared w r start c) (hint : r.HasIntegerPath) {outside : σ}
    {e : Start} (he : e ∈ journal engine w r outside) :
    ∃ index path left, e.StandsAt w index path left := by
  obtain ⟨earlier, later, hjournal⟩ := List.append_of_mem he
  obtain ⟨index, path, left, -, hstands, -⟩ := h.standsAt hint hjournal
  exact ⟨index, path, left, hstands⟩

end Journals

/-! ## Suspended runs -/

/-- The step of the workflow to resume at: the one that contains the pause, or the one after it. -/
def resumeIndex (index : Int) (path : List Frame) : Int := if path.isEmpty then index + 1 else index

/-- A run that was suspended stands at the step that paused it. -/
theorem Prepared.suspendedAt {engine : Engine σ} {w : Workflow} {r : Request} {start : Int}
    {c : Context} (h : Prepared w r start c) (hint : r.HasIntegerPath) {outside outside' : σ}
    {o : Outcome} (hrun : run engine w r outside = (.ok o, outside'))
    {atStep resumeStep : Int} {resumePath : List Dict} {payload : Value}
    (hv : o.verdict = .suspended atStep resumeStep resumePath payload) :
    ∃ earlier e path left d, journal engine w r outside = earlier ++ [e] ∧
      e.StandsAt w atStep path left ∧ e.Pauses d ∧ o = .ofContext w.name d ∧
      resumeStep = resumeIndex atStep path ∧ resumePath = (nextFrames path).map Frame.toDict ∧
      (freshSteps (journal engine w r outside) ++ left).Sublist (w.ahead start c.frames) := by
  obtain ⟨q, u, hconclude, hran⟩ := run_ran engine h hint outside
  rw [hconclude] at hrun
  obtain ⟨ho, -⟩ := Prod.mk.inj hrun
  obtain ⟨e, rfl, rfl⟩ | ⟨v, rfl, rfl⟩ := conclude_eq_ok ho
  · cases hv
  · obtain ⟨hsuspended, hat, hstep, hpath, -, -⟩ := Outcome.ofContext_suspended hv
    cases hran.standing h.startsRun.running with
    | running hrunning => rw [hrunning.suspended] at hsuspended; cases hsuspended
    | returned _ _ hrunning => rw [hrunning] at hsuspended; cases hsuspended
    | paused earlier e hjournal hpauses =>
      have hjournal : journal engine w r outside = earlier ++ [e] := hjournal
      obtain ⟨index, path, left, -, hstands, hsub⟩ := h.standsAt hint hjournal
      have hindex : u.context.stepIndex = index := by
        rw [Context.stepIndex, hpauses.currentStep, hstands.currentStep]
      have hframes : u.context.suspendedPath = path.map Frame.toDict := by
        have := hpauses.path
        rw [hstands.position, Context.mapM_toDict_frames] at this
        exact (Except.ok.inj this).symm
      refine ⟨earlier, e, path, left, u.context, hjournal, ?_, hpauses, rfl, ?_, ?_, ?_⟩
      · rw [hat, hindex]
        exact hstands
      · rw [hstep, hat, Context.resumeStep, hframes, resumeIndex, List.isEmpty_map]
      · rw [hpath, Context.resumePoint, hframes, nextPosition_toDict]
      · rw [hjournal]
        exact hsub

/-- The next position is a point where the run may start again, and what lies ahead of it is what was
left at the pause. -/
theorem Workflow.seek_resumes {w : Workflow} {index : Int} {path : List Frame} {s : Step}
    {left : List Step} (h : w.seek index path = some (s, left)) :
    (0 ≤ resumeIndex index path ∧ resumeIndex index path ≤ w.size) ∧
      Step.AdmitsIn (nextFrames path) (w.steps.drop (resumeIndex index path).toNat) ∧
      w.ahead (resumeIndex index path) (nextFrames path) = left := by
  obtain ⟨next, rest, left', hat, hseek, rfl⟩ := Step.seekIn_eq_some.1 h
  obtain ⟨hindex, hdrop⟩ := stepAt?_eq_some.1 hat
  have hlength := congrArg List.length hdrop
  rw [List.length_drop, List.length_cons] at hlength
  unfold Workflow.size Workflow.ahead resumeIndex
  cases path with
  | nil =>
    have hrest : w.steps.drop (index + 1).toNat = rest := by
      have : (index + 1).toNat = index.toNat + 1 := by omega
      rw [this, ← List.drop_drop, hdrop]
      rfl
    obtain ⟨-, rfl⟩ := Prod.mk.inj (Option.some.inj hseek)
    refine ⟨?_, .inl rfl, ?_⟩
    · simp only [List.isEmpty_nil, if_true]
      omega
    · rw [List.isEmpty_nil, if_pos rfl, hrest, nextFrames, Step.aheadOf_nil]
      rfl
  | cons f fs =>
    have hne : f :: fs ≠ [] := List.cons_ne_nil f fs
    simp only [List.isEmpty_cons, Bool.false_eq_true, if_false]
    rw [hdrop]
    refine ⟨by omega, .inr ⟨next, rest, rfl, Step.admits_next hseek⟩, ?_⟩
    rw [Step.aheadOf, Step.ahead_next hseek hne]

/-- The payload of a suspended run is a dictionary that names the step that paused it. -/
theorem Start.Pauses.payload_names {e : Start} {c : Context} (h : e.Pauses c) (name : Value) {k : Key}
    (hkey : e.step.name.toKey? = some k) :
    ∃ entries, c.settled.result = .dict entries ∧
      Dict.field? (Dict.insert entries (.str "resume") (c.settled.resumeRecord name)) "step"
        = some e.step.name := by
  obtain ⟨lines, extra, hresult⟩ := h.payload
  have hsettled : e.step.name.settle c.logs = e.step.name := by
    refine Value.settle_of_isSettled _ _ ?_
    rw [← Value.toValue_of_toKey? _ hkey]
    exact k.isSettled_toValue
  obtain ⟨entries, hpayload, hfield⟩ :
      ∃ entries, (e.step.label.payload e.context lines extra).settle c.logs = .dict entries ∧
        Dict.field? entries "step" = some (e.step.name.settle c.logs) :=
    ⟨_, rfl, rfl⟩
  refine ⟨entries, ?_, ?_⟩
  · rw [← hpayload, Context.result, Context.settled, hresult]
    rfl
  · rw [Dict.field?_insert, if_neg (by decide), hfield, hsettled]

/-! ## Resuming -/

/-- The names of the workflow and its steps can be compared and written out, as all texts can. -/
structure Workflow.HasPlainNames (w : Workflow) : Prop where
  workflow : w.name.isMatch w.name = true
  steps : ∀ s ∈ w.steps, s.name.isSpellable = true

/-- Texts are plain names. -/
theorem Workflow.HasPlainNames.of_texts {w : Workflow} {text : String} (hname : w.name = .str text)
    (hsteps : ∀ s ∈ w.steps, ∃ text, s.name = .str text) : w.HasPlainNames where
  workflow := by simp [hname]
  steps s hs := by
    obtain ⟨text, htext⟩ := hsteps s hs
    rw [htext]
    rfl

/-- The position of the run leads to the step at work, and the step restores it however it ends. -/
structure Start.KeepsPosition (e : Start) (engine : Engine σ) (w : Workflow) : Prop where
  located : ∃ index path, e.context.currentStep = .int index ∧
    e.context.position = path.map Frame.toValue ∧ w.at? index path = some e.step
  restored : ∀ t : Situation σ, t.context = e.context →
    (runStep engine e.step t).2.context.position = e.context.position

/-- The point to resume from lies just after the step that the payload names, and the engine resumes
there from the payload as it does from the saved fields. -/
structure Outcome.ResumesAfter (o : Outcome) (engine : Engine σ) (w : Workflow) (inputs : Value)
    (atStep resumeStep : Int) (resumePath : List Dict) (payload : Value) : Prop where
  point : ∃ path s entries, w.at? atStep path = some s ∧ s.isPausing = true ∧
    payload = .dict entries ∧ Dict.field? entries "step" = some s.name ∧
    resumePath = (nextFrames path).map Frame.toDict ∧
    resumeStep = if path.isEmpty then atStep + 1 else atStep
  accepted : ∃ start c, prepare w (o.resumeRequest inputs resumeStep resumePath) = .ok (start, c)
  /-- The run from there raises nothing, unless a collaborator gives up with what cannot be written out. -/
  answered : engine.IsArticulate → ∀ outside, ∃ o', (resume engine w payload inputs outside).1 = .ok o'
  same : ∀ outside, resume engine w payload inputs outside
    = run engine w (o.resumeRequest inputs resumeStep resumePath) outside

/-- A prepared run of a workflow with plain names has an outcome. -/
theorem run_has_outcome {engine : Engine σ} (hengine : engine.IsArticulate) {w : Workflow} {r : Request}
    {start : Int} {c : Context} (h : Prepared w r start c) (hnames : w.HasPlainNames) (outside : σ) :
    ∃ o, (run engine w r outside).1 = .ok o := by
  rw [h.run_eq]
  exact execute_ok hengine hnames.steps start _

theorem Prepared.keepsPosition {engine : Engine σ} {w : Workflow} {r : Request} {start : Int}
    {c : Context} (h : Prepared w r start c) (hint : r.HasIntegerPath) {outside : σ} {e : Start}
    (he : e ∈ journal engine w r outside) : e.KeepsPosition engine w := by
  obtain ⟨index, path, left, hstands⟩ := h.standsAt_of_mem hint he
  obtain ⟨q, u, -, hran⟩ := run_ran engine h hint outside
  have hready : Task.Ready (.step e.step) e.context := hran.ready_of_mem (h.ready hint) e he
  refine ⟨⟨index, path, hstands.currentStep, hstands.position, ?_⟩, fun t ht => ?_⟩
  · rw [Workflow.at?, hstands.seek]
    rfl
  · obtain ⟨starts, hstep⟩ := ran_runStep engine e.step t (ht ▸ hready.checked)
    exact hstep.keeps.position.trans (congrArg _ ht)

/-- The payload of a suspended run stands for the request that its outcome has saved. -/
theorem Prepared.ofPayload_eq_ok {engine : Engine σ} {w : Workflow} {r : Request} {start : Int}
    {c : Context} (h : Prepared w r start c) (hint : r.HasIntegerPath) {outside outside' : σ}
    {o : Outcome} (hrun : run engine w r outside = (.ok o, outside')) {atStep resumeStep : Int}
    {resumePath : List Dict} {payload : Value}
    (hv : o.verdict = .suspended atStep resumeStep resumePath payload) {inputs : Value}
    {request : Request} :
    Request.ofPayload w payload inputs = .ok request ↔
      (w.name.isNull || w.name.isMatch w.name) = true ∧
        request = o.resumeRequest inputs resumeStep resumePath := by
  obtain ⟨earlier, e, path, left, d, -, hstands, hpauses, rfl, -, -, -⟩ := h.suspendedAt hint hrun hv
  obtain ⟨-, -, rfl, rfl, hpayload, hcontext⟩ := Outcome.ofContext_suspended hv
  have hmem := Workflow.name_mem_names (Workflow.mem_nodes_of_seek hstands.seek)
  obtain ⟨k, hk⟩ := (Workflow.wellNamed h.wellformed).keys _ hmem
  obtain ⟨entries, hresult, -⟩ := hpauses.payload_names w.name hk
  rw [hpayload, hresult]
  exact Request.ofPayload_withResume _ hcontext

/-- The run from the payload of a suspended one starts behind the step that paused it, with the history
that was saved. -/
theorem Prepared.resumesAt {engine : Engine σ} {w : Workflow} {r : Request} {start : Int}
    {c : Context} (h : Prepared w r start c) (hint : r.HasIntegerPath) {outside outside' : σ}
    {o : Outcome} (hrun : run engine w r outside = (.ok o, outside')) {atStep resumeStep : Int}
    {resumePath : List Dict} {payload : Value}
    (hv : o.verdict = .suspended atStep resumeStep resumePath payload) {request : Request}
    (hrequest : Request.ofPayload w payload r.inputs = .ok request) :
    ∃ before e path left, journal engine w r outside = before ++ [e] ∧
      e.StandsAt w atStep path left ∧ e.step.isPausing = true ∧
      (freshSteps (journal engine w r outside) ++ left).Sublist (w.ahead start c.frames) ∧
      request = o.resumeRequest r.inputs (resumeIndex atStep path)
        ((nextFrames path).map Frame.toDict) ∧
      Prepared w request (resumeIndex atStep path)
        (o.restored c.inputs ((nextFrames path).map Frame.toDict)) := by
  obtain ⟨before, e, path, left, d, hjournal, hstands, hpauses, ho, hresume, hpath, hsub⟩ :=
    h.suspendedAt hint hrun hv
  obtain ⟨hbounds, hadmits, -⟩ := Workflow.seek_resumes hstands.seek
  obtain ⟨-, hsaved⟩ := (h.ofPayload_eq_ok hint hrun hv).1 hrequest
  rw [hresume, hpath] at hsaved
  refine ⟨before, e, path, left, hjournal, hstands, hpauses.pausing, hsub, hsaved, ?_⟩
  have hprepared := h.restored o (ho ▸ Outcome.ofContext_workflowName _ _) hbounds (.inr rfl) hadmits
  rwa [← Outcome.resumeRequest, ← hsaved] at hprepared

theorem Prepared.resumesAfter {engine : Engine σ} {w : Workflow} {r : Request} {start : Int}
    {c : Context} (h : Prepared w r start c) (hint : r.HasIntegerPath) (hnames : w.HasPlainNames)
    {outside outside' : σ} {o : Outcome} (hrun : run engine w r outside = (.ok o, outside'))
    {atStep resumeStep : Int} {resumePath : List Dict} {payload : Value}
    (hv : o.verdict = .suspended atStep resumeStep resumePath payload) :
    o.ResumesAfter engine w r.inputs atStep resumeStep resumePath payload := by
  obtain ⟨earlier, e, path, left, d, -, hstands, hpauses, rfl, rfl, rfl, -⟩ :=
    h.suspendedAt hint hrun hv
  obtain ⟨-, -, -, -, hpayload, -⟩ := Outcome.ofContext_suspended hv
  obtain ⟨hbounds, hadmits, -⟩ := Workflow.seek_resumes hstands.seek
  have hmem := Workflow.name_mem_names (Workflow.mem_nodes_of_seek hstands.seek)
  obtain ⟨k, hk⟩ := (Workflow.wellNamed h.wellformed).keys _ hmem
  obtain ⟨entries, hresult, hname⟩ := hpauses.payload_names w.name hk
  rw [hresult] at hpayload
  have hrequest : Request.ofPayload w payload r.inputs = .ok _ :=
    (h.ofPayload_eq_ok hint hrun hv).2 ⟨by rw [hnames.workflow, Bool.or_true], rfl⟩
  have hsame (world : σ) : resume engine w payload r.inputs world
      = run engine w ((Outcome.ofContext w.name d).resumeRequest r.inputs (resumeIndex atStep path)
          ((nextFrames path).map Frame.toDict)) world := by
    rw [resume, hrequest]
  have hresumed := h.restored (Outcome.ofContext w.name d) (Outcome.ofContext_workflowName _ _) hbounds
    (.inr rfl) hadmits
  refine ⟨⟨path, e.step, _, ?_, hpauses.pausing, hpayload, hname, rfl, rfl⟩,
    ⟨_, _, prepare_eq_ok.2 hresumed⟩, fun hengine world => ?_, hsame⟩
  · rw [Workflow.at?, hstands.seek]
    rfl
  · rw [hsame world]
    exact run_has_outcome hengine hresumed hnames world

/-- Every pause of a run, fresh or resumed, yields a point just after the pausing step from which the
engine resumes; for every step of a run stands where the position of the run leads, and leaves it so. -/
theorem every_pause_resumes (engine : Engine σ) (w : Workflow) (r : Request) (outside : σ)
    (hint : r.HasIntegerPath) (hnames : w.HasPlainNames) :
    (∀ e ∈ journal engine w r outside, e.KeepsPosition engine w) ∧
      ∀ o outside', run engine w r outside = (.ok o, outside') →
        o.context.position = [] ∧
        ∀ atStep resumeStep resumePath payload,
          o.verdict = .suspended atStep resumeStep resumePath payload →
          o.ResumesAfter engine w r.inputs atStep resumeStep resumePath payload := by
  cases hprepare : prepare w r with
  | error f =>
    refine ⟨?_, fun o outside' hrun => ?_⟩
    · rw [journal, hprepare]
      intro e he
      cases he
    · rw [run_of_error hprepare] at hrun
      cases hrun
  | ok p =>
    have h : Prepared w r p.1 p.2 := prepare_eq_ok.1 hprepare
    refine ⟨fun e he => h.keepsPosition hint he, fun o outside' hrun => ⟨?_, ?_⟩⟩
    · obtain ⟨q, u, hconclude, hran⟩ := run_ran engine h hint outside
      have hposition : u.context.position = [] := hran.keeps.position.trans h.startsRun.position
      rw [hconclude] at hrun
      obtain ⟨e, rfl, rfl⟩ | ⟨v, rfl, rfl⟩ := conclude_eq_ok (Prod.mk.inj hrun).1
      · exact hposition
      · exact (Outcome.ofContext_position _ _).trans hposition
    · exact fun _ _ _ _ hv => h.resumesAfter hint hnames hrun hv

/-- A workflow that hands control to an agent inside a branch. -/
def agentInBranch : Workflow where
  name := .str "greeting"
  steps := [.conditional (.str "choice") (.str "true")
    [.action (.str "ask") (.agent [.str "Greet."] false .null)] []]

/-- The agent inside the branch pauses the run, and it resumes behind the agent. -/
theorem every_pause_resumes_in_branch :
    Request.HasIntegerPath {} ∧ agentInBranch.HasPlainNames ∧
      ∃ o payload, run ({} : Engine Unit) agentInBranch {} () = (.ok o, ()) ∧
        o.verdict = .suspended 0 0 [Frame.toDict { branch := "then", index := 1 }] payload ∧
        o.ResumesAfter ({} : Engine Unit) agentInBranch .null 0 0
          [Frame.toDict { branch := "then", index := 1 }] payload := by
  have hint : Request.HasIntegerPath {} := Request.hasIntegerPath_of_null rfl
  have hnames : agentInBranch.HasPlainNames := by
    refine .of_texts rfl ?_
    intro s hs
    cases List.mem_singleton.1 hs
    exact ⟨_, rfl⟩
  have hresumes := (every_pause_resumes ({} : Engine Unit) agentInBranch {} () hint hnames).2
  exact ⟨hint, hnames, _, _, rfl, rfl, (hresumes _ () rfl).2 0 0 _ _ rfl⟩

end Stepwise
