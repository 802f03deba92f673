-- SUMMARY: How steps close: one entry for each, and for a container only behind those of its branch.
import Stepwise.Proofs.Run.Trail
import Stepwise.Proofs.Step.Route

/-!
# Closing entries

Each step that a run sets to work leaves one entry in the history when it ends. A container
that is recorded as completed has come to the end of the branch that it has entered, so that
every step of the branch stands before it as completed, unless the run has been stopped
inside the container: then the sequences around the stop end where they are, and each
container on the way out is recorded as if it had come to its end.
-/

namespace Stepwise

variable {σ : Type}

/-! ## Branches that are done -/

/-- What an entry of the history tells besides the output. -/
abbrev Heading := Value × Value × StepStatus

/-- What the history of a run tells besides the outputs. -/
def Context.headings (c : Context) : List Heading := c.results.map StepResult.heading

@[simp] theorem Context.headings_record (c : Context) (r : StepResult) :
    (c.record r).headings = c.headings ++ [r.heading] := by
  simp [headings]

@[simp] theorem Place.enter_headings (p : Place) (index : Int) (c : Context) :
    (p.enter index c).headings = c.headings := by
  simp [Context.headings, p.enter_results]

@[simp] theorem Place.leave_headings (p : Place) (c : Context) :
    (p.leave c).headings = c.headings := by
  simp [Context.headings, p.leave_results]

theorem Effect.apply_headings (c : Context) (eff : Effect) :
    (eff.apply c).headings = c.headings := by
  simp [Context.headings, eff.apply_results]

/-- The branch that a container enters where it is set to work: the one that the next frame of the
resume path names, or else the one that it selects. -/
def Start.entered? (e : Start) : Option String :=
  match e.context.frames with
  | [] => e.step.selected? e.context
  | f :: _ => some f.branch

/-- All steps of the branch that was entered are told of as completed. -/
def Start.BranchDone (e : Start) (past : List Heading) : Prop :=
  ∀ branch ss, e.entered? = some branch → e.step.branchNamed? branch = some ss →
    ∀ x ∈ ss, x.heading .completed ∈ past

namespace Start.BranchDone

variable {e : Start} {past : List Heading}

/-- A step that enters no branch has none to come to the end of. -/
theorem of_none (h : e.entered? = none) : e.BranchDone past := by
  intro branch ss hbranch
  cases h.symm.trans hbranch

theorem of_isAction (h : e.step.isAction = true) : e.BranchDone past := by
  intro branch ss _ hss
  cases h.symm.trans (Step.isAction_of_branchNamed? hss)

theorem of_branch {branch : String} {ss : List Step} (hentered : e.entered? = some branch)
    (hbranch : e.step.branchNamed? branch = some ss) (h : ∀ x ∈ ss, x.heading .completed ∈ past) :
    e.BranchDone past := by
  intro branch' ss' hentered' hbranch'
  cases hentered.symm.trans hentered'
  cases hbranch.symm.trans hbranch'
  exact h

end Start.BranchDone

theorem Start.entered?_of_nil {e : Start} (h : e.context.resumePath = []) :
    e.entered? = e.step.selected? e.context := by
  simp [entered?, Context.frames_of_nil h]

theorem Start.entered?_of_cons {e : Start} {d : Dict} {ds : List Dict} {f : Frame}
    (h : e.context.resumePath = d :: ds) (hf : Frame.ofDict? d = some f) :
    e.entered? = some f.branch := by
  simp [entered?, Context.frames_of_cons h hf]

/-! ## Steps set to work -/

/-- The steps of a task, at every depth. -/
def Task.nodes : Task → List Step
  | .step s => s.nodes
  | .body s => s.inner
  | .steps _ _ ss => Step.nodesOf ss

/-- A run sets its steps to work in document order, and none of them twice. -/
theorem Ran.steps_sublist {engine : Engine σ} {task : Task} {t u : Situation σ} {journal : List Start}
    {r : Except Raised Value} (h : Ran engine task t journal r u) :
    (journal.map Start.step).Sublist task.nodes := by
  induction h with
  | unnamed | action | refused | passed | done => exact List.nil_sublist _
  | @completed s _ _ _ _ _ _ ih =>
    rw [Task.nodes, s.nodes_eq]
    exact ih.cons_cons s
  | @failed s _ _ _ _ _ _ _ ih | @unreported s _ _ _ _ _ _ _ _ ih =>
    rw [Task.nodes, s.nodes_eq]
    exact ih.cons_cons s
  | chosen _ _ hbranch _ _ ih => exact ih.trans (Step.branchNamed?_sublist hbranch)
  | again _ _ _ hbranch _ _ ih =>
    exact (ih.trans (Step.nodesOf_drop_sublist _ _)).trans (Step.branchNamed?_sublist hbranch)
  | broken _ ih => exact ih.trans (List.sublist_append_left _ _)
  | stopped _ _ ih => exact ih.trans (List.sublist_append_left _ _)
  | next _ _ _ ih ih' =>
    rw [List.map_append]
    exact ih.append ih'

/-! ## What has stopped a run -/

/-- The step may end the run with a value. -/
def Step.isFinish : Step → Bool
  | .action _ (.finish _) => true
  | _ => false

/-- The step has stopped the run, by pausing it or by ending it with a value. -/
inductive Start.Stops (e : Start) (c : Context) : Prop
  | paused : e.step.isPausing = true → c.suspended = .bool true → Start.Stops e c
  | returned : e.step.isFinish = true → c.suspended = .bool false → Start.Stops e c

def StoppedAtLast (journal : List Start) (c : Context) : Prop :=
  ∃ before e, journal = before ++ [e] ∧ e.Stops c

theorem StoppedAtLast.append {journal : List Start} {c : Context} (h : StoppedAtLast journal c)
    (earlier : List Start) : StoppedAtLast (earlier ++ journal) c := by
  obtain ⟨before, e, rfl, he⟩ := h
  exact ⟨earlier ++ before, e, by simp, he⟩

/-- Only the mark of a pause matters. -/
theorem StoppedAtLast.congr {journal : List Start} {c d : Context} (h : StoppedAtLast journal c)
    (hsuspended : d.suspended = c.suspended) : StoppedAtLast journal d := by
  obtain ⟨before, e, rfl, he⟩ := h
  refine ⟨before, e, rfl, ?_⟩
  cases he with
  | paused hstep hc => exact .paused hstep (hsuspended.trans hc)
  | returned hstep hc => exact .returned hstep (hsuspended.trans hc)

theorem Place.leave_suspended (p : Place) (c : Context) : (p.leave c).suspended = c.suspended := by
  cases p <;> rfl

/-- An effect that stops the run is that of a step which may do so. -/
theorem Effect.stops {label : StepLabel} {name : Value} {act : Action} {c : Context} {eff : Effect}
    (hc : c.IsPlaced) (hrunning : c.IsRunning) (h : act.Allows label c eff)
    (hstop : (eff.apply c).hasResult = true) :
    Start.Stops { step := .action name act, context := c } (eff.apply c) := by
  have hgo : c.hasResult = false := hrunning.hasResult
  cases h with
  | none => cases hgo.symm.trans hstop
  | log => cases hgo.symm.trans hstop
  | bind => cases hgo.symm.trans hstop
  | finish => exact .returned rfl hrunning.suspended
  | @pause _ bound? lines extra hact _ =>
    obtain ⟨frames, hframes⟩ := hc
    obtain ⟨bindings, heq⟩ := Effect.apply_pause bound? (label.payload c lines extra) hframes
    exact .paused hact (by simp [heq, Context.halt])

namespace Ran

variable {engine : Engine σ} {task : Task} {t u : Situation σ} {journal : List Start}
  {r : Except Raised Value}

/-- A run that has been stopped was stopped by the step that it set to work last. -/
theorem stoppedAtLast (h : Ran engine task t journal r u) (ht : t.context.IsRunning)
    (hstop : u.context.hasResult = true) :
    StoppedAtLast (task.opened t.context ++ journal) u.context := by
  -- A run that goes on is not stopped.
  have hgoes {t : Situation σ} (ht : t.context.IsRunning) {P : Prop}
      (hstop : t.context.hasResult = true) : P := by
    cases ht.hasResult.symm.trans hstop
  induction h with
  | unnamed => exact hgoes ht hstop
  | completed _ _ ih => exact (ih ht hstop).congr rfl
  | failed _ _ _ ih => exact (ih ht hstop).congr rfl
  | unreported _ _ _ ih => exact ih ht hstop
  | action _ hplaced hperform =>
    obtain ⟨-, eff, hallows, hctx, -⟩ := Engine.perform_ends hplaced hperform
    rw [hctx] at hstop ⊢
    exact ⟨[], _, rfl, eff.stops hplaced ht hallows hstop⟩
  | @refused s t e path => exact hgoes (t := t) ht hstop
  | passed => exact hgoes ht hstop
  | chosen _ _ _ _ _ ih => exact (ih ht hstop).append _
  | again _ _ _ _ _ _ ih => exact (ih ⟨ht.result, ht.suspended⟩ hstop).append _
  | done => exact hgoes ht hstop
  | @broken p index _ _ _ u _ _ _ ih =>
    apply (ih (ht.enter p index) _).congr (p.leave_suspended u.context)
    exact (p.leave_hasResult u.context).symm.trans hstop
  | @stopped p index _ _ _ u _ _ _ hu ih =>
    exact (ih (ht.enter p index) hu).congr (p.leave_suspended u.context)
  | @next p index _ _ _ _ _ journal _ _ _ hran hgo _ ih ih' =>
    have hrunning := (hran.standing (ht.enter p index)).isRunning hgo
    exact (ih' (hrunning.leave p) hstop).append journal

/-! ## One entry for each step -/

/-- By engines with articulate collaborators, whatever ends a run can be written out. -/
theorem isSpellable (h : Ran engine task t journal r u) (hengine : engine.IsArticulate) {raised : Raised}
    (hr : r = .error raised) : raised.isSpellable = true := by
  induction h generalizing raised with
  | completed | passed | done | stopped => cases hr
  | unnamed =>
    cases hr
    exact Raised.isSpellable_iff.2 rfl
  | failed hname hspellable =>
    cases hr
    exact StepLabel.isSpellable_claim hname hspellable
  | unreported _ hmute _ ih => cases (Raised.not_isSpellable_iff.2 ⟨_, hmute⟩).symm.trans (ih rfl)
  | action _ _ hperform =>
    cases hr
    exact (engine.perform_raises (hengine.mayRaise _ _)).apply hperform
  | @refused s t e path _ hopening =>
    cases hr
    have hraises := Step.opening_raises (hengine.mayRaise s.label (.log .null)).toMayRaise
    exact hraises.apply hopening
  | @chosen _ _ _ _ _ _ r _ _ _ _ _ _ ih | @again _ _ _ _ _ _ _ _ r _ _ _ _ _ _ _ ih =>
    cases r with
    | ok => cases hr
    | error e =>
      cases hr
      exact ih rfl
  | broken _ ih => exact ih hr
  | next _ _ _ _ ih' => exact ih' hr

/-- The entry of a step stands behind those of the steps in it. -/
private theorem perm_close {journal : List Start} {added : List Heading} (s : Step)
    (status : StepStatus) (h : (added.map (·.1)).Perm (journal.map (·.step.name))) :
    ((added ++ [s.heading status]).map (·.1)).Perm (s.name :: journal.map (·.step.name)) := by
  have hlast : (added.map (·.1) ++ [s.name]).Perm (s.name :: added.map (·.1)) :=
    List.perm_append_singleton s.name _
  simpa [Step.heading] using hlast.trans (h.cons s.name)

/-- A run adds to the history an entry for each of some steps of its journal, and for each of all of them
unless it has met with something that cannot be written out. -/
theorem entries (h : Ran engine task t journal r u) :
    ∃ added told, u.context.headings = t.context.headings ++ added ∧ told.Sublist journal ∧
      (added.map (·.1)).Perm (told.map (·.step.name)) ∧
      (r.isOk = true ∨ engine.IsArticulate → told = journal) := by
  induction h with
  | unnamed => exact ⟨[], [], by simp, .refl _, .nil, fun _ => rfl⟩
  | @completed s t _ _ _ _ _ ih =>
    obtain ⟨added, told, hadded, htold, hnames, hall⟩ := ih
    refine ⟨added ++ [s.heading .completed], { step := s, context := t.context } :: told, ?_,
      htold.cons_cons _, perm_close s .completed hnames, fun _ => by rw [hall (.inl rfl)]⟩
    simp [Situation.change, hadded, Situation.start]
  | @failed s t _ _ _ _ _ _ ih =>
    obtain ⟨added, told, hadded, htold, hnames, hall⟩ := ih
    refine ⟨added ++ [s.heading .failed], { step := s, context := t.context } :: told, ?_,
      htold.cons_cons _, perm_close s .failed hnames, fun hvoiced => ?_⟩
    · simp [Situation.change, hadded, Situation.start]
    · rw [hall (.inr (hvoiced.resolve_left Bool.false_ne_true))]
  | unreported _ hmute hbody ih =>
    obtain ⟨added, told, hadded, htold, hnames, -⟩ := ih
    refine ⟨added, told, hadded, htold.cons _, hnames, fun hvoiced => ?_⟩
    have hspellable := hbody.isSpellable (hvoiced.resolve_left Bool.false_ne_true) rfl
    cases (Raised.not_isSpellable_iff.2 ⟨_, hmute⟩).symm.trans hspellable
  | action _ hplaced hperform =>
    obtain ⟨-, eff, -, hctx, -⟩ := Engine.perform_ends hplaced hperform
    exact ⟨[], [], by simp [hctx, eff.apply_headings], .refl _, .nil, fun _ => rfl⟩
  | refused =>
    exact ⟨[], [], by simp [Situation.withPath, Context.headings], .refl _, .nil, fun _ => rfl⟩
  | passed => exact ⟨[], [], by simp, .refl _, .nil, fun _ => rfl⟩
  | chosen _ _ _ _ _ ih | again _ _ _ _ _ _ ih =>
    obtain ⟨added, told, hadded, htold, hnames, hall⟩ := ih
    exact ⟨added, told, hadded, htold, hnames, fun hvoiced => hall (Checks.isOk_map ▸ hvoiced)⟩
  | done => exact ⟨[], [], by simp, .refl _, .nil, fun _ => rfl⟩
  | broken _ ih => simpa [Situation.change] using ih
  | stopped _ _ ih =>
    obtain ⟨added, told, hadded, htold, hnames, hall⟩ := ih
    exact ⟨added, told, by simp [Situation.change, hadded], htold, hnames, fun _ => hall (.inl rfl)⟩
  | next _ _ _ ih ih' =>
    obtain ⟨added, told, hadded, htold, hnames, hall⟩ := ih
    obtain ⟨added', told', hadded', htold', hnames', hall'⟩ := ih'
    refine ⟨added ++ added', told ++ told', ?_, htold.append htold', ?_, fun hvoiced => ?_⟩
    · simp [hadded', Situation.change, hadded]
    · simpa using hnames.append hnames'
    · rw [hall (.inl rfl), hall' hvoiced]

/-- The history of a run only grows. -/
theorem headings_grow (h : Ran engine task t journal r u) :
    t.context.headings <+: u.context.headings := by
  obtain ⟨added, told, hadded, -⟩ := h.entries
  exact ⟨added, hadded.symm⟩

/-! ## Containers at their close -/

/-- A step that ends without an error is completed. -/
theorem heading_mem {s : Step} (h : Ran engine (.step s) t journal r u) (hr : r.isOk = true) :
    s.heading .completed ∈ u.context.headings := by
  cases h with
  | unnamed => cases hr
  | completed => simp [Situation.change]
  | failed | unreported => cases hr

/-- All steps that a task sets to work are completed if it ends without an error. -/
theorem heading_mem_of_mem (h : Ran engine task t journal r u) (hr : r.isOk = true) :
    ∀ e ∈ journal, e.step.heading .completed ∈ u.context.headings := by
  induction h with
  | unnamed => exact nofun
  | completed _ _ ih =>
    intro e he
    cases he with
    | head => simp [Situation.change]
    | tail _ he => simp [Situation.change, ih rfl e he]
  | failed | unreported => cases hr
  | action | refused | passed => exact nofun
  | chosen _ _ _ _ _ ih => exact ih (Checks.isOk_map ▸ hr)
  | again _ _ _ _ _ _ ih => exact ih (Checks.isOk_map ▸ hr)
  | done => exact nofun
  | broken => cases hr
  | stopped _ _ ih => simpa [Situation.change] using ih rfl
  | next _ _ hrest ih ih' =>
    intro e he
    rcases List.mem_append.1 he with he | he
    · apply hrest.headings_grow.subset
      simpa [Situation.change] using ih rfl e he
    · exact ih' hr e he

/-- A sequence that ends without an error and has not been stopped has completed its steps. -/
theorem sequence_done {p : Place} {index : Int} {ss : List Step}
    (h : Ran engine (.steps p index ss) t journal r u) (hr : r.isOk = true)
    (hgo : u.context.hasResult = false) : ∀ x ∈ ss, x.heading .completed ∈ u.context.headings := by
  induction ss generalizing index t journal with
  | nil => exact nofun
  | cons s rest ih =>
    intro x hx
    cases h with
    | broken => cases hr
    | @stopped _ _ _ _ _ u _ _ hstep hstop =>
      cases hgo.symm.trans ((p.leave_hasResult u.context).trans hstop)
    | next hstep _ hrest =>
      rcases List.mem_cons.1 hx with rfl | hx
      · apply hrest.headings_grow.subset
        simpa [Situation.change] using hstep.heading_mem rfl
      · exact ih hrest x hx

theorem mem_nodesOf {p : Place} {index : Int} {ss : List Step}
    (h : Ran engine (.steps p index ss) t journal r u) {e : Start} (he : e ∈ journal) :
    e.step ∈ Step.nodesOf ss := h.steps_sublist.subset (List.mem_map_of_mem he)

end Ran

def EndsIn (journal : List Start) (s : Step) : Prop :=
  ∃ before e, journal = before ++ [e] ∧ e.step ∈ s.inner

theorem EndsIn.append {journal : List Start} {s : Step} (h : EndsIn journal s)
    (earlier : List Start) : EndsIn (earlier ++ journal) s := by
  obtain ⟨before, e, rfl, he⟩ := h
  exact ⟨earlier ++ before, e, by simp, he⟩

/-- The run has been stopped by a step nested in the given one. -/
structure StoppedIn (journal : List Start) (r : Except Raised Value) (c : Context) (s : Step) :
    Prop where
  ok : r.isOk = true
  hasResult : c.hasResult = true
  endsIn : EndsIn journal s

/-- Whatever the added entries tell of as completed was set to work, and has come to the end of the
branch that it had entered, unless the run was stopped inside of it. -/
def Closes (past added : List Heading) (journal : List Start) (stopped : Step → Prop) : Prop :=
  ∀ before entry after, added = before ++ entry :: after → entry.2.2 = .completed →
    ∃ e ∈ journal, entry = e.step.heading .completed ∧
      (e.BranchDone (past ++ before) ∨ stopped e.step)

namespace Closes

variable {past added added' : List Heading} {journal journal' : List Start}
  {stopped stopped' : Step → Prop}

theorem nil : Closes past [] journal stopped := by
  intro before entry after heq
  cases before <;> cases heq

theorem weaken (h : Closes past added journal stopped) (hjournal : journal ⊆ journal')
    (hstopped : ∀ s, stopped s → stopped' s) : Closes past added journal' stopped' := by
  intro before entry after heq hentry
  obtain ⟨e, he, heading, hdone⟩ := h before entry after heq hentry
  exact ⟨e, hjournal he, heading, hdone.imp_right (hstopped e.step)⟩

theorem append (h : Closes past added journal stopped)
    (h' : Closes (past ++ added) added' journal stopped) :
    Closes past (added ++ added') journal stopped := by
  intro before entry after heq hentry
  rcases List.append_eq_append_iff.1 heq with ⟨more, rfl, heq'⟩ | ⟨more, rfl, heq'⟩
  · rw [← List.append_assoc]
    exact h' more entry after heq' hentry
  · cases more with
    | nil => simpa using h' [] entry after heq'.symm hentry
    | cons entry' more =>
      cases heq'
      exact h before entry more rfl hentry

/-- The entry of a step that is completed stands behind those of its branch. -/
theorem completed {e : Start} (h : Closes past added journal stopped) (he : e ∈ journal)
    (hdone : e.BranchDone (past ++ added) ∨ stopped e.step) :
    Closes past (added ++ [e.step.heading .completed]) journal stopped := by
  apply h.append
  intro before entry after heq _
  obtain ⟨rfl, rfl, rfl⟩ : before = [] ∧ entry = e.step.heading .completed ∧ after = [] := by
    cases before with
    | nil => simpa [eq_comm] using heq
    | cons => simp at heq
  exact ⟨e, he, rfl, by simpa using hdone⟩

/-- The entry of a step that fails tells nothing of its branch. -/
theorem failed (h : Closes past added journal stopped) (s : Step) :
    Closes past (added ++ [s.heading .failed]) journal stopped := by
  apply h.append
  intro before entry after heq hentry
  cases before with
  | nil =>
    cases heq
    cases hentry
  | cons => simp at heq

end Closes

/-- The steps that a task leaves behind when its first step is entered at a path. -/
def Task.behind (task : Task) (path : List Frame) : List Step :=
  match task with
  | .step s | .body s => s.behind path
  | .steps _ _ ss => Step.behindOf path ss

/-- The history tells of the steps that the resume path leaves behind as completed. -/
def Task.Resumes (task : Task) (c : Context) : Prop :=
  ∀ x ∈ task.behind c.frames, x.heading .completed ∈ c.headings

namespace Task.Resumes

theorem of_nil {p : Place} {index : Int} {ss : List Step} {c : Context} (h : c.resumePath = []) :
    Task.Resumes (.steps p index ss) c := by
  simp [Task.Resumes, Task.behind, Context.frames_of_nil h]

theorem first {p : Place} {index : Int} {s : Step} {ss : List Step} {c : Context}
    (h : Task.Resumes (.steps p index (s :: ss)) c) : Task.Resumes (.step s) (p.enter index c) := by
  simpa [Task.Resumes, Task.behind, Step.behindOf] using h

/-- Where a branch is entered again, its steps up to there have been completed, and the rest of it may
be resumed. -/
theorem again {s : Step} {c : Context} {d : Dict} {ds : List Dict} {f : Frame} {ss : List Step}
    (h : Task.Resumes (.body s) c) (hpath : c.resumePath = d :: ds)
    (hf : Frame.ofDict? d = some f) (hbranch : s.branchNamed? f.branch = some ss) :
    (∀ x ∈ ss.take f.index.toNat, x.heading .completed ∈ c.headings) ∧
      Task.Resumes (.steps (.branch f.branch) f.index (ss.drop f.index.toNat))
        { c with resumePath := ds } := by
  simp only [Task.Resumes, Task.behind, Context.frames_of_cons hpath hf,
    Step.behind_cons _ hbranch, Step.behindIn, List.forall_mem_append] at h
  exact h

end Task.Resumes

namespace Ran

variable {engine : Engine σ} {task : Task} {t u : Situation σ} {journal : List Start}
  {r : Except Raised Value}

/-- A branch that has been entered is done in the end, unless the run has been stopped inside. -/
theorem portion_done {s : Step} {branch : String} {index : Int} {portion ss : List Step}
    (h : Ran engine (.steps (.branch branch) index portion) t journal r u) (hr : r.isOk = true)
    (ht : t.context.IsRunning) (hbranch : s.branchNamed? branch = some ss)
    (hportion : (Step.nodesOf portion).Sublist (Step.nodesOf ss)) :
    (∀ x ∈ portion, x.heading .completed ∈ u.context.headings) ∨ StoppedIn journal r u.context s := by
  cases hstop : u.context.hasResult with
  | false => exact .inl (h.sequence_done hr hstop)
  | true =>
    obtain ⟨before, e, hjournal, -⟩ := h.stoppedAtLast ht hstop
    have hlast : e ∈ journal := by
      rw [← List.nil_append journal]
      exact hjournal ▸ List.mem_concat_self
    refine .inr ⟨hr, hstop, before, e, hjournal, ?_⟩
    exact (Step.branchNamed?_sublist hbranch).subset (hportion.subset (h.mem_nodesOf hlast))

/-- A step that ends without an error has done the branch that it has entered, unless the run has been
stopped inside of it. -/
theorem body_done {s : Step} (h : Ran engine (.body s) t journal r u) (hr : r.isOk = true)
    (ht : t.context.IsRunning) (hresumes : Task.Resumes (.body s) t.context) :
    Start.BranchDone { step := s, context := t.context } u.context.headings ∨
      StoppedIn journal r u.context s := by
  cases h with
  | action => exact .inl (.of_isAction rfl)
  | refused => cases hr
  | passed _ hpath hselected =>
    exact .inl (.of_none ((Start.entered?_of_nil hpath).trans hselected))
  | @chosen _ _ _ branch ss _ r output hpath hselected hbranch _ hran =>
    have hok : r.isOk = true := Checks.isOk_map ▸ hr
    refine (hran.portion_done hok ht hbranch (.refl _)).imp (fun hdone => ?_) fun hstopped => ?_
    · exact .of_branch ((Start.entered?_of_nil hpath).trans hselected) hbranch hdone
    · exact ⟨hr, hstopped.hasResult, hstopped.endsIn⟩
  | @again _ _ _ d ds f ss _ r output hpath hf hindex hbranch _ hran =>
    have hok : r.isOk = true := Checks.isOk_map ▸ hr
    obtain ⟨htaken, -⟩ := hresumes.again hpath hf hbranch
    refine (hran.portion_done hok ⟨ht.result, ht.suspended⟩ hbranch
      (Step.nodesOf_drop_sublist _ _)).imp (fun hdone => ?_) fun hstopped => ?_
    · apply Start.BranchDone.of_branch (Start.entered?_of_cons hpath hf) hbranch
      intro x hx
      rw [← List.take_append_drop f.index.toNat ss] at hx
      rcases List.mem_append.1 hx with hx | hx
      · exact hran.headings_grow.subset (htaken x hx)
      · exact hdone x hx
    · exact ⟨hr, hstopped.hasResult, hstopped.endsIn⟩

/-- What a run records as completed has done its branch, unless the run was stopped inside of it. -/
theorem closes (h : Ran engine task t journal r u) (ht : t.context.IsRunning)
    (hresumes : task.Resumes t.context) :
    ∃ added, u.context.headings = t.context.headings ++ added ∧
      Closes t.context.headings added (task.opened t.context ++ journal)
        (StoppedIn (task.opened t.context ++ journal) r u.context) := by
  induction h with
  | unnamed => exact ⟨[], by simp, .nil⟩
  | @completed s t u journal output _ hbody ih =>
    obtain ⟨added, hadded, hcloses⟩ := ih ht hresumes
    refine ⟨added ++ [s.heading .completed], ?_, ?_⟩
    · simp [Situation.change, hadded, Situation.start]
    · refine .completed (e := { step := s, context := t.context }) ?_ (.head _) ?_
      · exact hcloses.weaken (List.Subset.refl _) fun _ h => ⟨rfl, h.hasResult, h.endsIn⟩
      · refine (hbody.body_done rfl ht hresumes).imp (fun hdone => ?_) fun hstopped => ?_
        · exact hadded ▸ hdone
        · exact ⟨rfl, hstopped.hasResult, hstopped.endsIn.append [_]⟩
  | @failed s t u journal e _ _ _ ih =>
    obtain ⟨added, hadded, hcloses⟩ := ih ht hresumes
    refine ⟨added ++ [s.heading .failed], ?_, .failed ?_ s⟩
    · simp [Situation.change, hadded, Situation.start]
    · exact hcloses.weaken (List.Subset.refl _) fun _ h => absurd h.ok Bool.false_ne_true
  | unreported _ _ _ ih =>
    obtain ⟨added, hadded, hcloses⟩ := ih ht hresumes
    exact ⟨added, hadded, hcloses.weaken (List.Subset.refl _) fun _ h => absurd h.ok Bool.false_ne_true⟩
  | action _ hplaced hperform =>
    obtain ⟨-, eff, -, hctx, -⟩ := Engine.perform_ends hplaced hperform
    exact ⟨[], by simp [hctx, eff.apply_headings], .nil⟩
  | refused => exact ⟨[], by simp [Situation.withPath, Context.headings], .nil⟩
  | passed => exact ⟨[], by simp, .nil⟩
  | chosen hpath _ _ _ _ ih =>
    obtain ⟨added, hadded, hcloses⟩ := ih ht (.of_nil hpath)
    refine ⟨added, hadded, hcloses.weaken (List.subset_append_right _ _) fun _ h => ?_⟩
    exact ⟨Checks.isOk_map.trans h.ok, h.hasResult, h.endsIn.append _⟩
  | again hpath hf _ hbranch _ _ ih =>
    obtain ⟨added, hadded, hcloses⟩ :=
      ih ⟨ht.result, ht.suspended⟩ (hresumes.again hpath hf hbranch).2
    refine ⟨added, hadded, hcloses.weaken (List.subset_append_right _ _) fun _ h => ?_⟩
    exact ⟨Checks.isOk_map.trans h.ok, h.hasResult, h.endsIn.append _⟩
  | done => exact ⟨[], by simp, .nil⟩
  | @broken p index _ _ _ _ _ _ _ ih =>
    obtain ⟨added, hadded, hcloses⟩ := ih (ht.enter p index) hresumes.first
    refine ⟨added, by simpa [Situation.change] using hadded, ?_⟩
    refine p.enter_headings index _ ▸ hcloses.weaken (List.Subset.refl _) fun _ h => ?_
    exact absurd h.ok Bool.false_ne_true
  | @stopped p index _ _ _ _ _ _ _ _ ih =>
    obtain ⟨added, hadded, hcloses⟩ := ih (ht.enter p index) hresumes.first
    refine ⟨added, by simpa [Situation.change] using hadded, ?_⟩
    refine p.enter_headings index _ ▸ hcloses.weaken (List.Subset.refl _) fun _ h => ?_
    exact ⟨rfl, (p.leave_hasResult _).trans h.hasResult, h.endsIn⟩
  | @next p index _ _ t u _ journal journal' _ _ hran hgo _ ih ih' =>
    have hrunning := (hran.standing (ht.enter p index)).isRunning hgo
    obtain ⟨added, hadded, hcloses⟩ := ih (ht.enter p index) hresumes.first
    obtain ⟨added', hadded', hcloses'⟩ :=
      ih' (hrunning.leave p) (.of_nil (hran.leave_resumePath_eq_nil rfl p))
    have hfirst : (p.leave u.context).headings = t.context.headings ++ added := by
      simpa [Situation.change] using hadded
    refine ⟨added ++ added', ?_, .append ?_ ?_⟩
    · simpa [Situation.change, hfirst] using hadded'
    · refine p.enter_headings index _ ▸ hcloses.weaken (List.subset_append_left _ _) fun _ h => ?_
      cases hgo.symm.trans h.hasResult
    · refine hfirst ▸ hcloses'.weaken (List.subset_append_right _ _) fun _ h => ?_
      exact ⟨h.ok, h.hasResult, h.endsIn.append journal⟩

end Ran

end Stepwise
