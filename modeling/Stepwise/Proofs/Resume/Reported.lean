-- SUMMARY: What containers report that are entered again: the branch that they reported at the pause.
import Stepwise.Proofs.Resume.Entries
import Stepwise.Proofs.Run.Entered

/-!
# Containers that are entered again

A container in which a run pauses is entered again by the run from its payload, at the
branch that it had entered before: neither its condition nor the subject of a switch is
decided on anew, whatever the branch has done to the variables. So both runs report the
same branch. But a switch reports its subject as well, and that is filled once more before
the frame is looked at, so that the second report tells what has become of it.
-/

namespace Stepwise

variable {σ : Type}

/-! ## Reports of one run -/

/-- The output with which the history tells of the step as completed, beyond the entries that were given. -/
def Outcome.Adds (o : Outcome) (given : Nat) (s : Step) (output : Value) : Prop :=
  s.label.completed output ∈ o.context.results.drop given

/-- An outcome that has added something hands on as many entries as it has. -/
theorem Outcome.length_restored {o : Outcome} {given : Nat} {s : Step} {output : Value}
    (h : o.Adds given s output) (inputs : Value) (path : List Dict) :
    (o.restored inputs path).results.length = o.context.results.length := by
  have hne : o.context.results.isEmpty = false :=
    List.isEmpty_eq_false_iff.2 (List.ne_nil_of_mem (List.mem_of_mem_drop h))
  simp [Outcome.restored, hne]

theorem logs_of_conclude {w : Workflow} {q : Except Raised Value} {c : Context} {o : Outcome}
    (h : conclude w q c = .ok o) : o.context.logs = c.logs := by
  obtain ⟨e, -, rfl⟩ | ⟨v, -, rfl⟩ := conclude_eq_ok h
  · rfl
  · exact Outcome.ofContext_logs _ _

namespace Prepared

variable {engine : Engine σ} {w : Workflow} {r : Request} {start : Int} {c : Context}
  {outside outside' : σ} {o : Outcome}

/-- No step is set to work twice in a run. -/
theorem nodup_steps (h : Prepared w r start c) (hint : r.HasIntegerPath) :
    ((journal engine w r outside).map Start.step).Nodup := by
  obtain ⟨q, u, -, hran⟩ := run_ran engine h hint outside
  have hsublist := hran.steps_sublist.trans (Step.nodesOf_drop_sublist start.toNat w.steps)
  exact (Workflow.wellNamed h.wellformed).nodes_nodup.sublist hsublist

/-- What a run adds to its history is told of as the engine has recorded it. -/
theorem tellsOf (h : Prepared w r start c) (hint : r.HasIntegerPath)
    (hrun : run engine w r outside = (.ok o, outside')) :
    ∃ added, o.context.results.drop c.results.length = added.map (·.settle o.context.logs) ∧
      TellsOf added (journal engine w r outside) (∀ e, o.verdict ≠ .failed e) := by
  obtain ⟨q, u, hconclude, hran⟩ := run_ran engine h hint outside
  have ho : conclude w q u.context = .ok o := (Prod.mk.inj (hconclude.symm.trans hrun)).1
  obtain ⟨added, hadded, htells⟩ := hran.tellsOf
  refine ⟨added, ?_, htells.weaken fun hok => isOk_of_conclude ho hok⟩
  rw [results_of_conclude ho, logs_of_conclude ho, hadded, List.map_append, List.drop_left' (by simp)]

/-- The report of a container is that of the branch which it has entered in this run. -/
theorem reports_of_adds (h : Prepared w r start c) (hint : r.HasIntegerPath)
    (hrun : run engine w r outside = (.ok o, outside')) {e : Start}
    (he : e ∈ journal engine w r outside) {branch : String} (hentered : e.entered? = some branch)
    {output : Value} (hadds : o.Adds c.results.length e.step output) :
    ∃ v, e.step.Reports e.context branch v ∧ output = v.settle o.context.logs := by
  obtain ⟨added, hdrop, htells⟩ := h.tellsOf hint hrun
  rw [Outcome.Adds, hdrop] at hadds
  obtain ⟨entry, hentry, hsettle⟩ := List.mem_map.1 hadds
  have hstatus : entry.status = .completed := congrArg StepResult.status hsettle
  obtain ⟨e', he', v, rfl, hgives⟩ := htells.told entry hentry hstatus
  have hname : e'.step.name = e.step.name := congrArg StepResult.step hsettle
  have hstep : e'.step = e.step :=
    (Workflow.wellNamed h.wellformed).eq_of_name (h.mem_nodes hint he') (h.mem_nodes hint he) hname
  obtain rfl : e' = e := List.inj_on_of_nodup_map (h.nodup_steps hint) he' he hstep
  exact ⟨v, hgives branch hentered, (congrArg StepResult.output hsettle).symm⟩

/-- Every step that a run sets to work is told of in the end, unless the run fails. -/
theorem exists_adds (h : Prepared w r start c) (hint : r.HasIntegerPath)
    (hrun : run engine w r outside = (.ok o, outside')) (hok : ∀ e, o.verdict ≠ .failed e) {e : Start}
    (he : e ∈ journal engine w r outside) : ∃ output, o.Adds c.results.length e.step output := by
  obtain ⟨added, hdrop, htells⟩ := h.tellsOf hint hrun
  obtain ⟨output, hmem⟩ := htells.all hok e he
  refine ⟨output.settle o.context.logs, ?_⟩
  rw [Outcome.Adds, hdrop]
  exact List.mem_map_of_mem hmem

end Prepared

/-! ## Back to the branch of the pause -/

/-- A frame of the next position names the branch that the frame there names. -/
theorem nextFrames_split {path before after : List Frame} {f : Frame}
    (h : nextFrames path = before ++ f :: after) :
    ∃ g after', path = before ++ g :: after' ∧ g.branch = f.branch := by
  induction path using nextFrames.induct generalizing before with
  | case1 => simp [nextFrames] at h
  | case2 g =>
    cases before with
    | nil =>
      obtain ⟨rfl, -⟩ := List.cons.inj h
      exact ⟨g, [], rfl, rfl⟩
    | cons b before => simp [nextFrames] at h
  | case3 g g' fs ih =>
    cases before with
    | nil =>
      obtain ⟨rfl, -⟩ := List.cons.inj h
      exact ⟨g, g' :: fs, rfl, rfl⟩
    | cons b before =>
      obtain ⟨rfl, hrest⟩ := List.cons.inj h
      obtain ⟨f', after', heq, hbranch⟩ := ih hrest
      exact ⟨f', after', congrArg (g :: ·) heq, hbranch⟩

/-- A container that is entered again had entered the same branch where the run was paused. -/
theorem Prepared.same_branch {engine : Engine σ} {w : Workflow} {r : Request} {start : Int}
    {c : Context} {outside outside' : σ} {o : Outcome} (h : Prepared w r start c)
    (hint : r.HasIntegerPath) (hrun : run engine w r outside = (.ok o, outside'))
    {atStep resumeStep : Int} {resumePath : List Dict} {payload : Value}
    (hv : o.verdict = .suspended atStep resumeStep resumePath payload) {request : Request}
    (hrequest : Request.ofPayload w payload r.inputs = .ok request) {outside₂ : σ} {e : Start}
    (he : e ∈ journal engine w request outside₂) (hagain : e.isFresh = false) :
    ∃ e₁ ∈ journal engine w r outside, ∃ branch, e₁.step = e.step ∧ e₁.entered? = some branch ∧
      e.entered? = some branch := by
  obtain ⟨before, p, path, left, hjournal, hpause, -, -, hsaved, hprepared⟩ :=
    h.resumesAt hint hrun hv hrequest
  have hint₂ : request.HasIntegerPath := hsaved ▸ Request.hasIntegerPath_of_frames rfl
  obtain ⟨q, u, -, hran⟩ := run_ran engine h hint outside
  obtain ⟨q₂, u₂, -, hran₂⟩ := run_ran engine hprepared hint₂ outside₂
  -- The container stands where the path up to its frame leads.
  have hready : Task.Ready (.step e.step) e.context := hran₂.ready_of_mem (hprepared.ready hint₂) e he
  obtain ⟨f, after, hframes⟩ : ∃ f after, e.context.frames = f :: after := by
    refine List.exists_cons_of_ne_nil fun hnil => ?_
    rw [Start.isFresh, hready.legible.eq_nil hnil] at hagain
    cases hagain
  obtain ⟨index, way, left₂, hstands⟩ := hprepared.standsAt_of_mem hint₂ he
  obtain ⟨hstep, hposition⟩ := hran₂.onPath e he hagain
  have hrest : (o.restored c.inputs ((nextFrames path).map Frame.toDict)).frames = nextFrames path :=
    Context.frames_of_map rfl
  have hsplit : nextFrames path = way ++ f :: after := by
    rw [hrest, hstands.position, hframes, ← List.map_append] at hposition
    exact (Frame.map_toValue_inj.1 hposition).symm
  obtain ⟨g, after', hpath, hbranch⟩ := nextFrames_split hsplit
  -- There the run that was paused had a container that had entered the branch.
  have hlast : p ∈ journal engine w r outside := hjournal ▸ List.mem_concat_self
  have hwhere : p.context.position = c.position ++ (way ++ g :: after').map Frame.toValue := by
    rw [h.startsRun.position, hpause.position, hpath, List.nil_append]
  obtain ⟨e₁, he₁, hstep₁, hposition₁, hentered⟩ :=
    hran.encloses p hlast way g after' hwhere fun hbranch => absurd hbranch Bool.false_ne_true
  obtain ⟨index₁, way₁, left₁, hstands₁⟩ := h.standsAt_of_mem hint he₁
  have hway : way₁ = way := by
    rw [h.startsRun.position, List.nil_append, hstands₁.position] at hposition₁
    exact Frame.map_toValue_inj.1 hposition₁
  have hindex : index₁ = index := by
    have hresume : resumeIndex atStep path = atStep := by
      rw [resumeIndex, hpath, if_neg (by simp)]
    have hat : Value.int index₁ = .int atStep :=
      hstands₁.currentStep.symm.trans (hstep₁.trans hpause.currentStep)
    have hat₂ : Value.int index = .int (resumeIndex atStep path) :=
      hstands.currentStep.symm.trans hstep
    rw [hresume] at hat₂
    exact Value.int.inj (hat.trans hat₂.symm)
  have hseek := hstands₁.seek
  rw [hway, hindex, hstands.seek] at hseek
  obtain ⟨hsame, -⟩ := Prod.mk.inj (Option.some.inj hseek)
  refine ⟨e₁, he₁, g.branch, hsame.symm, hentered, ?_⟩
  rw [Start.entered?, hframes, hbranch]

/-! ## Texts of cases -/

/-- The branch of a case is none of those that have a name of their own. -/
theorem Branch.ofCase_ne {name : String} (h : label? name = none) (label : String) :
    ofCase label ≠ name := by
  rintro rfl
  rw [label?_ofCase] at h
  cases h

theorem Branch.ofCase_ne_default (label : String) : ofCase label ≠ defaultName :=
  ofCase_ne (by decide +kernel) label

/-- A switch comes to a case by the text of the case. -/
theorem caseChoice?_eq_ofCase {s : Step} {text? : Option String} {e : Entry} {label : String}
    (h : caseChoice? s text? = some e) (hlabel : e.branch.text = Branch.ofCase label) :
    text? = some label := by
  unfold caseChoice? at h
  split at h
  · split at h
    · rename_i label' hcase
      cases h
      obtain ⟨text, rfl, hsteps⟩ := Option.bind_eq_some_iff.1 hcase
      obtain ⟨_, -, rfl⟩ := Option.map_eq_some_iff.1 hsteps
      rw [Branch.ofCase_injective hlabel]
    · split at h
      · cases h
        exact absurd hlabel.symm (Branch.ofCase_ne_default label)
      · cases h
  · cases h

/-- A switch that selects a case finds its subject to have the text of the case. -/
theorem Step.format_of_selected {name subject : Value} {cases : List (String × List Step)}
    {default? : Option (List Step)} {c : Context} {label : String}
    (h : (Step.switch name subject cases default?).selected? c = some (Branch.ofCase label)) :
    ∃ v, Template.fill c subject = .ok v ∧ Template.format (c.settle v) = .ok label := by
  simp only [selected?] at h
  cases hv : Template.fill c subject with
  | error f => simp [hv] at h
  | ok v =>
    rw [hv] at h
    dsimp only at h
    refine ⟨v, rfl, ?_⟩
    cases htext : subjectText? (c.settle v) with
    | error f => simp [htext] at h
    | ok text? =>
      rw [htext] at h
      obtain ⟨e, hentry, hbranch⟩ := Option.map_eq_some_iff.1 h
      rw [caseChoice?_eq_ofCase hentry hbranch, subjectText?] at htext
      split at htext
      · cases htext
      · cases hformat : Template.format (c.settle v) with
        | error f => rw [hformat] at htext; cases htext
        | ok text => rw [hformat] at htext; cases htext; rfl

/-- A condition selects no case. -/
theorem Step.selected?_conditional_ne {name condition : Value} {thenSteps elseSteps : List Step}
    {c : Context} (label : String) :
    (Step.conditional name condition thenSteps elseSteps).selected? c ≠ some (Branch.ofCase label) := by
  intro h
  simp only [selected?] at h
  split at h
  · rename_i holds _
    have hbranch := Option.some.inj h
    cases holds with
    | true => exact Branch.ofCase_ne (by decide +kernel) label hbranch.symm
    | false => exact Branch.ofCase_ne (by decide +kernel) label hbranch.symm
  · cases h

theorem matchedCase_ofCase (label : String) :
    matchedCase (.str (Branch.ofCase label)) = .str label := by
  simp only [matchedCase, if_neg (Branch.ofCase_ne_default label), Branch.label?_ofCase,
    Option.getD_some]

theorem matchedCase_settle (branch : String) (log : List Value) :
    (matchedCase (.str branch)).settle log = matchedCase (.str branch) := by
  simp only [matchedCase]
  split <;> rfl

/-- Wherever a switch of the journal that was set to work from its beginning has entered a case, the
output tells of the case and of a value that had its text at the time. -/
def Outcome.MatchesCases (o : Outcome) (given : Nat) (journal : List Start) : Prop :=
  ∀ e ∈ journal, e.isFresh = true → ∀ label, e.entered? = some (Branch.ofCase label) →
    ∀ output, o.Adds given e.step output →
      ∃ name subject cases default? v, e.step = .switch name subject cases default? ∧
        Template.fill e.context subject = .ok v ∧
        Template.format (e.context.settle v) = .ok label ∧
        output = .record [("value", v.settle o.context.logs), ("matched_case", .str label)]

theorem Prepared.matchesCases {engine : Engine σ} {w : Workflow} {r : Request} {start : Int}
    {c : Context} {outside outside' : σ} {o : Outcome} (h : Prepared w r start c)
    (hint : r.HasIntegerPath) (hrun : run engine w r outside = (.ok o, outside')) :
    o.MatchesCases c.results.length (journal engine w r outside) := by
  intro e he hfresh label hentered output hadds
  obtain ⟨report, hreports, rfl⟩ := h.reports_of_adds hint hrun he hentered hadds
  have hselected : e.step.selected? e.context = some (Branch.ofCase label) := by
    rwa [← Start.entered?_of_nil (List.isEmpty_iff.1 hfresh)]
  unfold Step.Reports at hreports
  split at hreports
  · cases hreports
  · rename_i hstep
    exact absurd (hstep ▸ hselected) (Step.selected?_conditional_ne label)
  · rename_i name subject cases default? hstep
    rw [hstep] at hselected
    obtain ⟨v, hv, hformat⟩ := Step.format_of_selected hselected
    obtain ⟨v', hv', rfl⟩ := hreports
    cases hv.symm.trans hv'
    refine ⟨name, subject, cases, default?, v, hstep, hv, hformat, ?_⟩
    rw [matchedCase_ofCase]
    rfl

/-! ## The reports of both runs -/

/-- The outputs of a container tell of the same branch: of a condition they are the same, and of a switch
they name the same case, where the latter tells what the subject is in the context. -/
def Step.TellsAgain (s : Step) (c : Context) (log : List Value) (output output' : Value) : Prop :=
  match s with
  | .action .. => False
  | .conditional .. => output' = output
  | .switch _ subject _ _ =>
    ∃ old new label, Template.fill c subject = .ok new ∧
      output = .record [("value", old), ("matched_case", label)] ∧
      output' = .record [("value", new.settle log), ("matched_case", label)]

theorem Step.Reports.tellsAgain {s : Step} {c c' : Context} {branch : String} {v v' : Value}
    (h : s.Reports c branch v) (h' : s.Reports c' branch v') (log log' : List Value) :
    s.TellsAgain c' log' (v.settle log) (v'.settle log') := by
  cases s with
  | action => cases h
  | conditional =>
    subst h h'
    rfl
  | switch name subject cases default? =>
    obtain ⟨old, -, rfl⟩ := h
    obtain ⟨new, hnew, rfl⟩ := h'
    have hsettle (v : Value) (log : List Value) :
        (Value.record [("value", v), ("matched_case", matchedCase (.str branch))]).settle log
          = .record [("value", v.settle log), ("matched_case", matchedCase (.str branch))] := by
      conv_rhs => rw [← matchedCase_settle branch log]
      rfl
    exact ⟨old.settle log, new, _, hnew, hsettle old log, hsettle new log'⟩

/-- Each run that goes on after a pause enters its containers again where the paused run was in them, and
reports the branch that was reported at the pause. Where a switch has come to a case by its subject, it
tells of a value with the text of that case. -/
theorem containers_report_branch_again (engine : Engine σ) (w : Workflow) (r : Request) (outside : σ)
    (start : Int) (c : Context) (hprepare : prepare w r = .ok (start, c)) (hint : r.HasIntegerPath)
    {o : Outcome} {outside' : σ} (hrun : run engine w r outside = (.ok o, outside'))
    {atStep resumeStep : Int} {resumePath : List Dict} {payload : Value}
    (hv : o.verdict = .suspended atStep resumeStep resumePath payload) {request : Request}
    (hrequest : Request.ofPayload w payload r.inputs = .ok request) {outside₂ outside₂' : σ}
    {o₂ : Outcome} (hrun₂ : run engine w request outside₂ = (.ok o₂, outside₂')) :
    (∀ e ∈ journal engine w request outside₂, e.isFresh = false →
      (∃ output, o.Adds c.results.length e.step output) ∧
      ((∀ e', o₂.verdict ≠ .failed e') →
        ∃ output, o₂.Adds o.context.results.length e.step output) ∧
      ∀ output output₂, o.Adds c.results.length e.step output →
        o₂.Adds o.context.results.length e.step output₂ →
        e.step.TellsAgain e.context o₂.context.logs output output₂) ∧
      o.MatchesCases c.results.length (journal engine w r outside) ∧
      o₂.MatchesCases o.context.results.length (journal engine w request outside₂) := by
  have h : Prepared w r start c := prepare_eq_ok.1 hprepare
  obtain ⟨before, p, path, left, hjournal, -, -, -, hsaved, hprepared⟩ :=
    h.resumesAt hint hrun hv hrequest
  have hint₂ : request.HasIntegerPath := hsaved ▸ Request.hasIntegerPath_of_frames rfl
  have hpaused : ∀ e', o.verdict ≠ .failed e' := by
    intro e' hfailed
    cases hv.symm.trans hfailed
  have hlast : p ∈ journal engine w r outside := hjournal ▸ List.mem_concat_self
  obtain ⟨_, hadds⟩ := h.exists_adds hint hrun hpaused hlast
  rw [← Outcome.length_restored hadds c.inputs ((nextFrames path).map Frame.toDict)]
  refine ⟨fun e he hagain => ?_, h.matchesCases hint hrun, hprepared.matchesCases hint₂ hrun₂⟩
  obtain ⟨e₁, he₁, branch, hstep, hentered₁, hentered⟩ :=
    h.same_branch hint hrun hv hrequest he hagain
  refine ⟨hstep ▸ h.exists_adds hint hrun hpaused he₁,
    fun hok => hprepared.exists_adds hint₂ hrun₂ hok he, fun output output₂ hadds hadds₂ => ?_⟩
  obtain ⟨v, hreports, rfl⟩ := h.reports_of_adds hint hrun he₁ hentered₁ (hstep ▸ hadds)
  obtain ⟨v₂, hreports₂, rfl⟩ := hprepared.reports_of_adds hint₂ hrun₂ he hentered hadds₂
  rw [hstep] at hreports
  exact hreports.tellsAgain hreports₂ _ _

/-- A switch whose case binds the variable anew that it was selected by, and then asks an agent. -/
def asksInCase.decision : Step :=
  .switch (.str "s") (.str "\x7b\x7bx\x7d\x7d") [("a", [
    .action (.str "again") (.setVariable (.str "x") (some (.str "b"))),
    .action (.str "ask") (.agent [.str "Go"] false .null)])] none

def asksInCase : Workflow where
  name := .str "w"
  steps := [.action (.str "first") (.setVariable (.str "x") (some (.str "a"))), asksInCase.decision]

namespace asksInCase

/-- What a run of the workflow comes to. -/
def outcome (r : Request) : Outcome :=
  match (run ({} : Engine Unit) asksInCase r ()).1 with
  | .ok o => o
  | .error _ => default

theorem run_eq {r : Request} (h : (run ({} : Engine Unit) asksInCase r ()).1.isOk = true) :
    run ({} : Engine Unit) asksInCase r () = (.ok (outcome r), ()) := by
  unfold outcome
  rcases hrun : run ({} : Engine Unit) asksInCase r () with ⟨e | o, ⟨⟩⟩
  · rw [hrun] at h
    cases h
  · rfl

/-- Where a fresh run is gone on with: the agent pauses it. -/
def path : List Dict := [Frame.toDict { branch := "cases.a", index := 2 }]

def request : Request := (outcome {}).resumeRequest .null 1 path

theorem suspended : ∃ payload, (outcome {}).verdict = .suspended 1 1 path payload := by
  have hat : (match (outcome {}).verdict with
      | .suspended atStep resumeStep resumePath _ =>
        decide (atStep = 1 ∧ resumeStep = 1 ∧ resumePath = path)
      | _ => false) = true := by
    decide +kernel
  split at hat
  · rename_i hv
    obtain ⟨rfl, rfl, rfl⟩ := of_decide_eq_true hat
    exact ⟨_, hv⟩
  · cases hat

theorem prepared : ∃ start c, prepare asksInCase {} = .ok (start, c) := by
  have hok : (prepare asksInCase {}).isOk = true := by decide +kernel
  cases hprepare : prepare asksInCase {} with
  | error e =>
    rw [hprepare] at hok
    cases hok
  | ok p => exact ⟨p.1, p.2, rfl⟩

theorem run_fresh : run ({} : Engine Unit) asksInCase {} () = (.ok (outcome {}), ()) :=
  run_eq (by decide +kernel)

theorem ofPayload_eq {payload : Value} (hv : (outcome {}).verdict = .suspended 1 1 path payload) :
    Request.ofPayload asksInCase payload .null = .ok request := by
  obtain ⟨start, c, hprepare⟩ := prepared
  exact ((prepare_eq_ok.1 hprepare).ofPayload_eq_ok (Request.hasIntegerPath_of_null rfl) run_fresh
    hv).2 ⟨rfl, rfl⟩

def report (value : String) : Value := .record [("value", .str value), ("matched_case", .str "a")]

end asksInCase

/-- The switch is entered again at its only case, and reports that case as it did at the pause. -/
theorem containers_report_branch_again_in_case :
    ∃ start c e payload, prepare asksInCase {} = .ok (start, c) ∧
      (asksInCase.outcome {}).verdict = .suspended 1 1 asksInCase.path payload ∧
      Request.ofPayload asksInCase payload .null = .ok asksInCase.request ∧
      e ∈ journal ({} : Engine Unit) asksInCase asksInCase.request () ∧ e.isFresh = false ∧
      ∃ output output₂, (asksInCase.outcome {}).Adds c.results.length e.step output ∧
        (asksInCase.outcome asksInCase.request).Adds
          (asksInCase.outcome {}).context.results.length e.step output₂ ∧
        e.step.TellsAgain e.context (asksInCase.outcome asksInCase.request).context.logs
          output output₂ := by
  obtain ⟨start, c, hprepare⟩ := asksInCase.prepared
  obtain ⟨payload, hv⟩ := asksInCase.suspended
  have hrequest := asksInCase.ofPayload_eq hv
  have hrun₂ := asksInCase.run_eq (r := asksInCase.request) (by decide +kernel)
  have hfirst : (journal ({} : Engine Unit) asksInCase asksInCase.request ()).head?.map Start.isFresh
      = some false := by
    decide +kernel
  have hgoes : (asksInCase.outcome asksInCase.request).status = "completed" := by decide +kernel
  obtain ⟨e, he, hagain⟩ := Option.map_eq_some_iff.1 hfirst
  have hmem := List.mem_of_mem_head? he
  obtain ⟨⟨output, hadds⟩, hend, hsame⟩ := (containers_report_branch_again ({} : Engine Unit)
    asksInCase {} () start c hprepare (Request.hasIntegerPath_of_null rfl) asksInCase.run_fresh hv
    hrequest hrun₂).1 e hmem hagain
  obtain ⟨output₂, hadds₂⟩ := hend fun e' hfailed => by
    simp [Outcome.status, hfailed] at hgoes
  exact ⟨start, c, e, payload, hprepare, hv, hrequest, hmem, hagain, output, output₂, hadds, hadds₂,
    hsame output output₂ hadds hadds₂⟩

/-- The report of a switch that is entered again need not be the one at the pause, and need not have the
text of the case that it names. -/
theorem switch_reports_new_value :
    ∃ payload, (asksInCase.outcome {}).verdict = .suspended 1 1 asksInCase.path payload ∧
      Request.ofPayload asksInCase payload .null = .ok asksInCase.request ∧
      (asksInCase.outcome {}).Adds 1 asksInCase.decision (asksInCase.report "a") ∧
      (asksInCase.outcome asksInCase.request).Adds 5 asksInCase.decision (asksInCase.report "b") ∧
      Template.format (.str "b") ≠ .ok "a" := by
  obtain ⟨payload, hv⟩ := asksInCase.suspended
  refine ⟨payload, hv, asksInCase.ofPayload_eq hv, ?_, ?_, by decide +kernel⟩
  · unfold Outcome.Adds
    decide +kernel
  · unfold Outcome.Adds
    decide +kernel

end Stepwise
