-- SUMMARY: The history of a chain of runs: an entry for each start, and which containers are told of too early.
import Stepwise.Proofs.Resume.Chain
import Stepwise.Proofs.Run.Behind

/-!
# Entries of a chain

The runs of a chain hand the history on, and each adds one entry for each step that it sets
to work. A container in which a run pauses is recorded on the way out and entered again by
the next run, so that it has an entry more for each pause inside of it, and the earlier ones
tell of it as completed though its branch is not. Apart from pauses, and from steps that end
the run with a value, no container is told of as completed before its branch is.
-/

namespace Stepwise

variable {σ : Type}

/-! ## Headings that are handed on -/

/-- An outcome tells what the history of its run tells. -/
theorem headings_of_conclude {w : Workflow} {q : Except Raised Value} {c : Context} {o : Outcome}
    (h : conclude w q c = .ok o) : o.context.headings = c.headings := by
  simp [Context.headings, results_of_conclude h]

/-- What an outcome has saved tells the same, as long as every entry has a name. -/
theorem Outcome.restored_headings (o : Outcome) (inputs : Value) (path : List Dict)
    (hne : o.context.headings ≠ []) (htruthy : ∀ h ∈ o.context.headings, h.1.truthy = true) :
    (o.restored inputs path).headings = o.context.headings := by
  have hresults : o.context.results.isEmpty = false := by
    simpa [Context.headings] using hne
  simp only [Context.headings, Outcome.restored, hresults, Bool.false_eq_true, if_false,
    List.map_map]
  apply List.map_congr_left
  intro r hr
  have hname : r.step.truthy = true := htruthy _ (List.mem_map_of_mem hr)
  simp [StepResult.heading, StepResult.settle, Value.orElse, hname]

/-! ## Where runs are stopped -/

/-- The verdict says of a step that it has paused the run, or has ended it with a value. -/
def Outcome.StoppedBy (o : Outcome) (x : Step) : Prop :=
  match o.verdict with
  | .suspended .. => x.isPausing = true
  | .completed _ returned => returned = true ∧ x.isFinish = true
  | .failed _ => False

/-- A step that stops a run is the one that the verdict is about. -/
theorem Start.Stops.stoppedBy {e : Start} {c : Context} (h : e.Stops c) (hresult : c.hasResult = true)
    (name : Value) : (Outcome.ofContext name c).StoppedBy e.step := by
  have hsettled : c.settled.suspended = c.suspended := rfl
  unfold Outcome.ofContext Outcome.StoppedBy
  cases h with
  | paused hstep hsuspended => simpa [hsettled, hsuspended, Value.truthy] using hstep
  | returned hstep hsuspended =>
    simpa [hsettled, hsuspended, Value.truthy, Context.settled, Context.hasResult, hstep] using hresult

/-- The run is stopped by a step that is nested in the given one. -/
def Leg.StopsIn (leg : Leg σ) (engine : Engine σ) (w : Workflow) (s : Step) : Prop :=
  ∃ o outside' before e, run engine w leg.request leg.outside = (.ok o, outside') ∧
    journal engine w leg.request leg.outside = before ++ [e] ∧ o.StoppedBy e.step ∧
    e.step ∈ s.inner

def Leg.pausesIn (leg : Leg σ) (engine : Engine σ) (w : Workflow) (s : Step) : Bool :=
  leg.pauses engine w &&
    (journal engine w leg.request leg.outside).getLast?.any fun e => decide (e.step ∈ s.inner)

/-- The run tells of all that it sets to work: it has not failed, or else what its collaborators give up
with can be written out. -/
def Leg.TellsAll (leg : Leg σ) (engine : Engine σ) (w : Workflow) : Prop :=
  engine.IsArticulate ∨ ∀ o outside' e,
    run engine w leg.request leg.outside = (.ok o, outside') → o.verdict ≠ .failed e

/-! ## What a history recounts -/

/-- The history tells of the inputs, and then run by run of the steps that were set to work: once for each
start, of all of them if the run tells of all, and as completed only what has come to the end of its
branch, unless the run was stopped inside of it. -/
inductive Recounts (engine : Engine σ) (w : Workflow) : List (Leg σ) → List Heading → Prop
  | inputs {entry : Heading} : entry.1 = .str inputStepName → Recounts engine w [] [entry]
  | run {legs : List (Leg σ)} {leg : Leg σ} {past added : List Heading} {told : List Start} :
    Recounts engine w legs past → told.Sublist (journal engine w leg.request leg.outside) →
    (added.map (·.1)).Perm (told.map (·.step.name)) →
    (leg.TellsAll engine w → told = journal engine w leg.request leg.outside) →
    Closes past added (journal engine w leg.request leg.outside) (leg.StopsIn engine w) →
    Recounts engine w (legs ++ [leg]) (past ++ added)

namespace Recounts

variable {engine : Engine σ} {w : Workflow} {legs : List (Leg σ)} {headings : List Heading}

/-- There is one entry for the inputs, and at most one for each time that a step was set to work. -/
theorem perm (h : Recounts engine w legs headings) :
    ∃ told, told.Sublist (startsOf engine w legs) ∧
      (headings.map (·.1)).Perm (.str inputStepName :: told.map (·.step.name)) ∧
      ((∀ leg ∈ legs, leg.TellsAll engine w) → told = startsOf engine w legs) := by
  induction h with
  | inputs hentry => exact ⟨[], .refl _, by simp [hentry], fun _ => rfl⟩
  | @run legs leg _ _ told' _ htold' hnames' hall' _ ih =>
    obtain ⟨told, htold, hnames, hall⟩ := ih
    refine ⟨told ++ told', ?_, by simpa using hnames.append hnames', fun htells => ?_⟩
    · rw [startsOf_concat]
      exact htold.append htold'
    · rw [startsOf_concat, hall fun leg hleg => htells leg (List.mem_append_left _ hleg),
        hall' (htells leg List.mem_concat_self)]

theorem ne_nil (h : Recounts engine w legs headings) : headings ≠ [] := by
  rintro rfl
  obtain ⟨told, -, hnames, -⟩ := h.perm
  simpa using hnames.length_eq

/-- Every entry has a name if every step has. -/
theorem truthy (h : Recounts engine w legs headings)
    (hstarts : ∀ e ∈ startsOf engine w legs, e.step.name.truthy = true) :
    ∀ h ∈ headings, h.1.truthy = true := by
  obtain ⟨told, htold, hnames, -⟩ := h.perm
  intro entry hentry
  rcases List.mem_cons.1 (hnames.mem_iff.1 (List.mem_map_of_mem hentry)) with hname | hname
  · rw [hname]
    rfl
  · obtain ⟨e, he, heq⟩ := List.mem_map.1 hname
    exact heq ▸ hstarts e (htold.subset he)

end Recounts

/-- A prepared run goes on with the history that it was given. -/
theorem Prepared.recounts {engine : Engine σ} {w : Workflow} {leg : Leg σ} {start : Int} {c : Context}
    (h : Prepared w leg.request start c) (hint : leg.request.HasIntegerPath)
    (hresumes : Task.Resumes (.steps .top start (w.steps.drop start.toNat)) c)
    {legs : List (Leg σ)} (hpast : Recounts engine w legs c.headings) {o : Outcome} {outside' : σ}
    (hrun : run engine w leg.request leg.outside = (.ok o, outside')) :
    Recounts engine w (legs ++ [leg]) o.context.headings := by
  obtain ⟨q, u, hconclude, hran⟩ := run_ran engine h hint leg.outside
  have ho : conclude w q u.context = .ok o := (Prod.mk.inj (hconclude.symm.trans hrun)).1
  obtain ⟨added, hadded, hcloses⟩ := hran.closes h.startsRun.running hresumes
  obtain ⟨added', told, hadded', htold, hnames, hall⟩ := hran.entries
  obtain rfl : added = added' := List.append_cancel_left (hadded.symm.trans hadded')
  rw [headings_of_conclude ho, hadded]
  refine hpast.run htold hnames (fun htells => hall ?_) ?_
  · exact htells.symm.imp (fun hgoes => isOk_of_conclude ho fun e => hgoes o outside' e hrun) id
  apply hcloses.weaken (List.Subset.refl _)
  intro s hs
  obtain ⟨before, e, hjournal, he⟩ := hs.endsIn
  obtain ⟨before', e', hjournal', hstops⟩ :=
    hran.stoppedAtLast h.startsRun.running hs.hasResult
  obtain ⟨-, rfl⟩ := List.append_singleton_inj.1 (hjournal.symm.trans hjournal')
  refine ⟨o, outside', before, e, hrun, hjournal, ?_, he⟩
  cases q with
  | error e => cases hs.ok
  | ok v =>
    cases ho
    exact hstops.stoppedBy hs.hasResult w.name

/-! ## Going on after a pause -/

/-- What is left behind at the next position is what was at this one, and the step there; and that step
is nested in all containers on the way. -/
theorem Workflow.seek_next {w : Workflow} {index : Int} {path : List Frame} {x : Step}
    {left : List Step} (h : w.seek index path = some (x, left)) :
    (∀ y ∈ Step.behindOf (nextFrames path) (w.steps.drop (resumeIndex index path).toNat),
        y = x ∨ y ∈ Step.behindOf path (w.steps.drop index.toNat)) ∧
      ∀ y ∈ Step.alongOf (nextFrames path) (w.steps.drop (resumeIndex index path).toNat),
        x ∈ y.inner := by
  obtain ⟨next, rest, left', hat, hseek, -⟩ := Step.seekIn_eq_some.1 h
  cases path with
  | nil => simp [nextFrames]
  | cons f fs =>
    have hdrop : w.steps.drop (resumeIndex index (f :: fs)).toNat = next :: rest :=
      (stepAt?_eq_some.1 hat).2
    obtain ⟨hbehind, halong⟩ := Step.behind_next hseek (List.cons_ne_nil f fs)
    rw [hdrop, Step.behindOf, Step.alongOf, hbehind, halong]
    refine ⟨fun y hy => ?_, fun y hy => Step.mem_inner_of_along hseek hy⟩
    rcases List.mem_append.1 hy with hy | hy
    · rw [(stepAt?_eq_some.1 hat).2]
      exact .inr hy
    · exact .inl (List.mem_singleton.1 hy)

namespace Prepared

variable {w : Workflow} {r : Request} {start start' : Int} {c c' : Context}

theorem unique (h : Prepared w r start c) (h' : Prepared w r start' c') :
    start = start' ∧ c = c' :=
  Prod.mk.inj (Except.ok.inj ((prepare_eq_ok.2 h).symm.trans (prepare_eq_ok.2 h')))

/-- A run that pauses has completed the step that pauses it, and all that its position leaves
behind. -/
theorem resumes_next {engine : Engine σ} (h : Prepared w r start c) (hint : r.HasIntegerPath)
    (hresumes : Task.Resumes (.steps .top start (w.steps.drop start.toNat)) c) {outside outside' : σ}
    {o : Outcome} (hrun : run engine w r outside = (.ok o, outside')) {atStep resumeStep : Int}
    {resumePath : List Dict} {payload : Value}
    (hv : o.verdict = .suspended atStep resumeStep resumePath payload) {before : List Start}
    {e : Start} (hjournal : journal engine w r outside = before ++ [e]) {path : List Frame}
    {left : List Step} (hstands : e.StandsAt w atStep path left) :
    ∀ y ∈ Step.behindOf (nextFrames path) (w.steps.drop (resumeIndex atStep path).toNat),
      y.heading .completed ∈ o.context.headings := by
  obtain ⟨q, u, hconclude, hran⟩ := run_ran engine h hint outside
  have ho : conclude w q u.context = .ok o := (Prod.mk.inj (hconclude.symm.trans hrun)).1
  have hok : q.isOk = true := isOk_of_conclude ho (by simp [hv])
  have he : e ∈ journal engine w r outside := hjournal ▸ List.mem_concat_self
  obtain ⟨path', left', hreach, hbehind⟩ := hran.passes hresumes e he
  obtain ⟨index, hle, hstands'⟩ := hreach.standsAt h.bounds.1 h.startsRun.position
  obtain ⟨rfl, rfl, -⟩ := hstands.unique hstands'
  rw [headings_of_conclude ho]
  intro y hy
  rcases (Workflow.seek_next hstands.seek).1 y hy with rfl | hy
  · exact hran.heading_mem_of_mem hok e he
  · have hsum : start.toNat + (atStep - start).toNat = atStep.toNat := by
      have := h.bounds.1
      omega
    apply hbehind y
    simp only [hstands.currentStep, Task.behindAt, Place.locate?, Step.behindIn, List.drop_drop, hsum]
    exact List.mem_append_right _ hy

end Prepared

/-! ## Chains -/

/-- A path leads through a container at most once. -/
theorem Workflow.WellNamed.count_along_le_one {w : Workflow} (h : w.WellNamed) (fs : List Frame)
    (index : Int) (s : Step) : (Step.alongOf fs (w.steps.drop index.toNat)).count s ≤ 1 := by
  have hsub : (Step.alongOf fs (w.steps.drop index.toNat)).Sublist w.nodes :=
    (Step.alongOf_sublist fs _).trans (Step.nodesOf_drop_sublist index.toNat w.steps)
  exact List.nodup_iff_count_le_one.1 (h.nodes_nodup.sublist hsub) s

/-- How far the history of a chain has come when its latest run starts. -/
structure Leg.Carries (leg : Leg σ) (engine : Engine σ) (w : Workflow) (earlier : List (Leg σ))
    (start : Int) (c : Context) : Prop where
  nodes : ∀ e ∈ startsOf engine w earlier, e.step ∈ w.nodes
  recounts : Recounts engine w earlier c.headings
  /-- What was entered again, and what is to be, has had a pause inside of it each time. -/
  again : ∀ s, (againSteps (startsOf engine w earlier)
      ++ Step.alongOf c.frames (w.steps.drop start.toNat)).count s
    ≤ earlier.countP (·.pausesIn engine w s)
  resumes : Task.Resumes (.steps .top start (w.steps.drop start.toNat)) c

namespace Leg.Carries

variable {engine : Engine σ} {w : Workflow} {inputs : Value} {earlier : List (Leg σ)} {leg : Leg σ}
  {start : Int} {c : Context}

theorem nodes_concat (h : leg.Carries engine w earlier start c)
    (hfollows : leg.Follows engine w inputs earlier start c) :
    ∀ e ∈ startsOf engine w (earlier ++ [leg]), e.step ∈ w.nodes := by
  rw [startsOf_concat]
  intro e he
  rcases List.mem_append.1 he with he | he
  · exact h.nodes e he
  · exact hfollows.prepared.mem_nodes hfollows.integer he

/-- The latest run enters again only what it was to enter again. -/
theorem count_againSteps (h : leg.Carries engine w earlier start c)
    (hfollows : leg.Follows engine w inputs earlier start c) (s : Step) :
    (againSteps (startsOf engine w (earlier ++ [leg]))).count s
      ≤ earlier.countP (·.pausesIn engine w s) := by
  obtain ⟨q, u, -, hran⟩ := run_ran engine hfollows.prepared hfollows.integer leg.outside
  have hsub : (againSteps (journal engine w leg.request leg.outside)).Sublist
      (Step.alongOf c.frames (w.steps.drop start.toNat)) :=
    hran.againSteps_sublist (hfollows.prepared.ready hfollows.integer)
  rw [startsOf_concat, againSteps_append]
  exact Nat.le_trans ((hsub.append_left _).count_le s) (h.again s)

/-- A chain sets a step to work at most once, and once more for each pause inside of it. -/
theorem countP_starts (h : leg.Carries engine w earlier start c)
    (hfollows : leg.Follows engine w inputs earlier start c) (s : Step) :
    (startsOf engine w (earlier ++ [leg])).countP (fun e => decide (e.step = s))
      ≤ 1 + earlier.countP (·.pausesIn engine w s) := by
  have hfresh := List.nodup_iff_count_le_one.1
    (hfollows.wellNamed.nodes_nodup.sublist hfollows.freshSteps_sublist) s
  simpa only [countP_step] using Nat.add_le_add hfresh (h.count_againSteps hfollows s)

/-- A fresh run carries nothing but its inputs. -/
theorem first {outside : σ} (hprepared : Prepared w { inputs } start c) :
    Leg.Carries { request := { inputs }, outside } engine w [] start c := by
  obtain ⟨rfl, given, accepted, -, -, rfl⟩ := hprepared.fresh
  refine ⟨nofun, .inputs rfl, fun s => ?_, .of_nil rfl⟩
  simp [startsOf, againSteps, Context.frames]

/-- What a run that pauses hands over. -/
theorem next (h : leg.Carries engine w earlier start c)
    (hfollows : leg.Follows engine w inputs earlier start c) {o : Outcome} {outside' : σ}
    (hrun : run engine w leg.request leg.outside = (.ok o, outside')) {atStep resumeStep : Int}
    {resumePath : List Dict} {payload : Value}
    (hv : o.verdict = .suspended atStep resumeStep resumePath payload) {request : Request}
    (hrequest : Request.ofPayload w payload inputs = .ok request) {start' : Int} {c' : Context}
    (hprepared' : Prepared w request start' c') (outside : σ) :
    Leg.Carries { request, outside } engine w (earlier ++ [leg]) start' c' := by
  obtain ⟨before, e, path, left, hjournal, hstands, -, -, -, hprepared⟩ :=
    hfollows.resumesAt hrun hv hrequest
  obtain ⟨rfl, rfl⟩ := hprepared'.unique hprepared
  have hnames := hfollows.wellNamed
  have hnodes := h.nodes_concat hfollows
  have hrecounts := hfollows.prepared.recounts hfollows.integer h.resumes h.recounts hrun
  have hframes : (o.restored c.inputs ((nextFrames path).map Frame.toDict)).frames
      = nextFrames path := Context.frames_of_map rfl
  have htruthy (e : Start) (he : e ∈ startsOf engine w (earlier ++ [leg])) :
      e.step.name.truthy = true :=
    hnames.truthy _ (Workflow.name_mem_names (hnodes e he))
  have hheadings : (o.restored c.inputs ((nextFrames path).map Frame.toDict)).headings
      = o.context.headings :=
    o.restored_headings _ _ hrecounts.ne_nil (hrecounts.truthy htruthy)
  refine ⟨hnodes, hheadings ▸ hrecounts, fun s => ?_, ?_⟩
  · rw [hframes, List.count_append, List.countP_append, List.countP_singleton]
    apply Nat.add_le_add (h.count_againSteps hfollows s)
    -- A container is on the way at most once, and only if the pause was inside of it.
    by_cases hs : s ∈ Step.alongOf (nextFrames path)
        (w.steps.drop (resumeIndex atStep path).toNat)
    · have hpauses : leg.pauses engine w = true :=
        Leg.pauses_iff.2 ⟨o, outside', atStep, resumeStep, resumePath, payload, hrun, hv⟩
      have hinner : e.step ∈ s.inner := (Workflow.seek_next hstands.seek).2 s hs
      simpa [Leg.pausesIn, hpauses, hjournal, hinner] using
        hnames.count_along_le_one (nextFrames path) (resumeIndex atStep path) s
    · simp [List.count_eq_zero_of_not_mem hs]
  · intro y hy
    rw [hheadings]
    apply hfollows.prepared.resumes_next hfollows.integer h.resumes hrun hv hjournal hstands
    simpa only [Task.behind, hframes] using hy

end Leg.Carries

/-- Every run of a chain carries on the history of those before it. -/
theorem Chain.carries {engine : Engine σ} {w : Workflow} {inputs : Value} {earlier : List (Leg σ)}
    {last : Leg σ} (h : Chain engine w inputs earlier last)
    (hvalid : (prepare w { inputs }).isOk = true) :
    ∃ start c, last.Follows engine w inputs earlier start c ∧
      last.Carries engine w earlier start c := by
  induction h with
  | fresh outside =>
    cases hprepare : prepare w { inputs } with
    | error e =>
      rw [hprepare] at hvalid
      cases hvalid
    | ok p => exact ⟨p.1, p.2, .first hprepare, .first (prepare_eq_ok.1 hprepare)⟩
  | resumed outside _ hrun hv hrequest ih =>
    obtain ⟨start, c, hfollows, hcarries⟩ := ih
    obtain ⟨start', c', hnext⟩ := hfollows.next hrun hv hrequest outside
    exact ⟨start', c', hnext, hcarries.next hfollows hrun hv hrequest hnext.prepared outside⟩

/-- The earlier runs of a chain have been suspended, and tell of all that they have set to work. -/
theorem Chain.tellsAll {engine : Engine σ} {w : Workflow} {inputs : Value} {earlier : List (Leg σ)}
    {last : Leg σ} (h : Chain engine w inputs earlier last) : ∀ leg ∈ earlier, leg.TellsAll engine w := by
  induction h with
  | fresh => exact nofun
  | @resumed _ _ _ _ _ _ _ _ _ _ _ hrun hv _ ih =>
    refine List.forall_mem_append.2 ⟨ih, List.forall_mem_singleton.2 (.inr ?_)⟩
    intro o' outside' e hrun'
    obtain ⟨⟨⟩, -⟩ := Prod.mk.inj (hrun.symm.trans hrun')
    simp [hv]

/-! ## One entry for each start -/

/-- What an outcome of a chain tells of the steps of the workflow. -/
structure OncePerStart (engine : Engine σ) (w : Workflow) (earlier : List (Leg σ)) (last : Leg σ)
    (o : Outcome) : Prop where
  /-- There is an entry for the inputs, and one for each time that a step was set to work. Only if the
  latest run has failed may there be none for some, where a collaborator has given up with what cannot be
  written out. -/
  entries : ∃ told, told.Sublist (startsOf engine w (earlier ++ [last])) ∧
    (o.context.results.map StepResult.step).Perm (.str inputStepName :: told.map (·.step.name)) ∧
    (engine.IsArticulate ∨ (∀ e, o.verdict ≠ .failed e) → told = startsOf engine w (earlier ++ [last]))
  /-- So a step has at most one entry, and one more for each earlier run that paused inside of it. -/
  counted : ∀ s ∈ w.nodes, (o.context.results.map StepResult.step).count s.name
    ≤ 1 + earlier.countP (·.pausesIn engine w s)
  /-- What a run has told of as completed stands behind all steps of the branch that it has entered,
  unless the run was stopped inside of it. -/
  closed : Recounts engine w (earlier ++ [last]) o.context.headings

/-- At every outcome of a fresh run and of the runs that follow from its pauses, the history accounts for
what was done: containers are told of once, and once more for each pause inside of them, and as completed
only behind their branch, unless a run was stopped inside of them. -/
theorem chain_accounts_for_steps (engine : Engine σ) (w : Workflow) (inputs : Value)
    (earlier : List (Leg σ)) (last : Leg σ) (hvalid : (prepare w { inputs }).isOk = true)
    (hchain : Chain engine w inputs earlier last) {o : Outcome} {outside' : σ}
    (hrun : run engine w last.request last.outside = (.ok o, outside')) :
    OncePerStart engine w earlier last o := by
  obtain ⟨start, c, hfollows, hcarries⟩ := hchain.carries hvalid
  have hnames := hfollows.wellNamed
  have hrecounts :=
    hfollows.prepared.recounts hfollows.integer hcarries.resumes hcarries.recounts hrun
  obtain ⟨told, htold, hnames', hall⟩ := hrecounts.perm
  have hentries : (o.context.results.map StepResult.step).Perm
      (.str inputStepName :: told.map (·.step.name)) := by
    simpa [Context.headings, StepResult.heading, Function.comp_def] using hnames'
  refine ⟨⟨told, htold, hentries, fun hvoiced => hall ?_⟩, fun s hs => ?_, hrecounts⟩
  · refine List.forall_mem_append.2 ⟨hchain.tellsAll, List.forall_mem_singleton.2 ?_⟩
    refine hvoiced.imp id fun hgoes o' outside'' e hrun' => ?_
    obtain ⟨⟨⟩, -⟩ := Prod.mk.inj (hrun.symm.trans hrun')
    exact hgoes e
  have hinput : ¬ Value.str inputStepName = s.name := by
    intro heq
    apply hnames.unreserved
    simpa only [heq] using Workflow.name_mem_names hs
  have hstarts : ((startsOf engine w (earlier ++ [last])).map (·.step.name)).count s.name
      = (startsOf engine w (earlier ++ [last])).countP (fun e => decide (e.step = s)) := by
    rw [List.count, List.countP_map]
    apply List.countP_congr
    intro e he
    have hnode := hcarries.nodes_concat hfollows e he
    simpa using ⟨hnames.eq_of_name hnode hs, congrArg Step.name⟩
  rw [hentries.count_eq, List.count_cons_of_ne hinput]
  refine Nat.le_trans ((htold.map _).count_le s.name) ?_
  rw [hstarts]
  exact hcarries.countP_starts hfollows s

/-- A workflow that takes a decision in which it asks an agent and goes on. -/
def asksThenTells : Workflow where
  name := .str "w"
  steps := [.conditional (.str "c") (.str "true") [
    .action (.str "a") (.agent [.str "Go"] false .null),
    .action (.str "b") (.log (.str "later"))] []]

/-- What a fresh run of the workflow comes to: the agent pauses it. -/
def asksThenTells.paused : Outcome :=
  match (run ({} : Engine Unit) asksThenTells {} ()).1 with
  | .ok o => o
  | .error _ => default

/-- The run that goes on from that pause. -/
def asksThenTells.leg : Leg Unit where
  request := asksThenTells.paused.resumeRequest .null 0 [Frame.toDict { branch := "then", index := 1 }]
  outside := ()

def asksThenTells.resumed : Outcome :=
  match (run ({} : Engine Unit) asksThenTells asksThenTells.leg.request ()).1 with
  | .ok o => o
  | .error _ => default

namespace asksThenTells

theorem run_fresh :
    run ({} : Engine Unit) asksThenTells { inputs := .null } () = (.ok paused, ()) := rfl

theorem run_leg : run ({} : Engine Unit) asksThenTells leg.request () = (.ok resumed, ()) := by
  have hok : (run ({} : Engine Unit) asksThenTells leg.request ()).1.isOk = true := by
    decide +kernel
  unfold resumed
  rcases hrun : run ({} : Engine Unit) asksThenTells leg.request () with ⟨e | o, ⟨⟩⟩
  · rw [hrun] at hok
    cases hok
  · rfl

theorem chain : Chain ({} : Engine Unit) asksThenTells .null
    [{ request := { inputs := .null }, outside := () }] leg := by
  have hprepared : Prepared asksThenTells { inputs := .null } 0 _ := prepare_eq_ok.1 rfl
  have hint : Request.HasIntegerPath { inputs := .null } := Request.hasIntegerPath_of_null rfl
  obtain ⟨payload, hpauses⟩ : ∃ payload, paused.verdict
      = .suspended 0 0 [Frame.toDict { branch := "then", index := 1 }] payload := ⟨_, rfl⟩
  have hrequest : Request.ofPayload asksThenTells payload .null = .ok leg.request :=
    (hprepared.ofPayload_eq_ok hint run_fresh hpauses).2 ⟨rfl, rfl⟩
  have hfresh : Chain ({} : Engine Unit) asksThenTells .null []
      { request := { inputs := .null }, outside := () } := .fresh ()
  exact hfresh.resumed () run_fresh hpauses hrequest

end asksThenTells

/-- The decision is told of at the pause and at the end, the second time behind both of its steps. -/
theorem chain_accounts_for_asksThenTells :
    (prepare asksThenTells { inputs := .null }).isOk = true ∧
      run ({} : Engine Unit) asksThenTells asksThenTells.leg.request ()
        = (.ok asksThenTells.resumed, ()) ∧
      asksThenTells.resumed.context.headings.map (fun h => (h.1, h.2.2))
        = [(.str "input", .completed), (.str "a", .completed), (.str "c", .completed),
            (.str "b", .completed), (.str "c", .completed)] ∧
      ∃ legs, legs.length = 1 ∧
        Chain ({} : Engine Unit) asksThenTells .null legs asksThenTells.leg ∧
        OncePerStart ({} : Engine Unit) asksThenTells legs asksThenTells.leg asksThenTells.resumed :=
  ⟨rfl, asksThenTells.run_leg, by decide +kernel, _, rfl, asksThenTells.chain,
    chain_accounts_for_steps ({} : Engine Unit) asksThenTells .null _ _ rfl asksThenTells.chain
      asksThenTells.run_leg⟩

/-- A pause inside a container makes the history tell of it too early, as completed while a step of its
branch is still to be run, and later once more. -/
theorem container_told_early_and_twice :
    Chain ({} : Engine Unit) asksThenTells .null [] { request := { inputs := .null }, outside := () } ∧
      run ({} : Engine Unit) asksThenTells { inputs := .null } () = (.ok asksThenTells.paused, ()) ∧
      asksThenTells.paused.context.results.map (fun r => (r.step, r.status))
        = [(.str "input", .completed), (.str "a", .completed), (.str "c", .completed)] ∧
      ∃ legs, Chain ({} : Engine Unit) asksThenTells .null legs asksThenTells.leg ∧
        run ({} : Engine Unit) asksThenTells asksThenTells.leg.request ()
          = (.ok asksThenTells.resumed, ()) ∧
        (asksThenTells.resumed.context.results.map StepResult.step).count (.str "c") = 2 :=
  ⟨.fresh (), asksThenTells.run_fresh, by decide +kernel, _, asksThenTells.chain,
    asksThenTells.run_leg, by decide +kernel⟩

end Stepwise
