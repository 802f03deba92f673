-- SUMMARY: Runs as derivations: one rule for each way in which a step, its body or a sequence may go.
import Stepwise.Proofs.Resume.Path
import Stepwise.Proofs.Run.Effect
import Stepwise.Proofs.Run.Opening

/-!
# Derivations of runs

`Ran engine task t journal r u` says that doing a task in the situation `t` ends with `r` in
the situation `u`, and that `journal` lists the steps set to work on the way. There is one
rule for each way in which this may come about, so whatever holds of every run is proved by
one induction on the derivation. What the engine does on a path that it accepts is derivable
(`ran_runStep`, `ran_runAll`).
-/

namespace Stepwise

variable {σ : Type}

/-! ## Tasks -/

/-- Where a sequence of steps stands: in the workflow itself, or in a branch. -/
inductive Place where
  | top
  | branch (name : String)

namespace Place

/-- Go to a step of the sequence. -/
def enter (p : Place) (index : Int) (c : Context) : Context :=
  match p with
  | .top => c.atStep index
  | .branch name => c.enter (Frame.toValue { branch := name, index })

/-- Come back from a step of the sequence. -/
def leave (p : Place) (c : Context) : Context :=
  match p with
  | .top => c
  | .branch _ => c.leave

end Place

/-- A piece of a run. -/
inductive Task where
  /-- A step, with the record of its end. -/
  | step (s : Step)
  /-- What a step does between its start and its end. -/
  | body (s : Step)
  /-- Steps in sequence, the first of which has the given index. -/
  | steps (p : Place) (index : Int) (ss : List Step)

def Task.Admits (fs : List Frame) : Task → Prop
  | .step s | .body s => s.Admits fs
  | .steps _ _ ss => Step.AdmitsIn fs ss

def Situation.change (t : Situation σ) (f : Context → Context) : Situation σ :=
  { t with context := f t.context }

/-! ## The rules -/

/-- Doing a task ends so, having set the steps of the journal to work. -/
inductive Ran (engine : Engine σ) :
    Task → Situation σ → List Start → Except Raised Value → Situation σ → Prop
  /-- A step whose name cannot be written out is not run. -/
  | unnamed {s : Step} {t : Situation σ} :
    s.name.isSpellable = false → Ran engine (.step s) t [] (.error (.fault unspellable)) t
  | completed {s : Step} {t u : Situation σ} {journal : List Start} {output : Value} :
    s.name.isSpellable = true → Ran engine (.body s) (t.start s) journal (.ok output) u →
    Ran engine (.step s) t ({ step := s, context := t.context } :: journal) (.ok output)
      (u.change (·.record (s.label.completed output)))
  | failed {s : Step} {t u : Situation σ} {journal : List Start} {e : Raised} :
    s.name.isSpellable = true → e.isSpellable = true →
    Ran engine (.body s) (t.start s) journal (.error e) u →
    Ran engine (.step s) t ({ step := s, context := t.context } :: journal)
      (.error (.step (s.label.claim e))) (u.change (·.record (s.label.failed e)))
  /-- What cannot be written out is not recorded. -/
  | unreported {s : Step} {t u : Situation σ} {journal : List Start} {e : Raised} {crash : Crash} :
    s.name.isSpellable = true → e.spell = .error crash →
    Ran engine (.body s) (t.start s) journal (.error e) u →
    Ran engine (.step s) t ({ step := s, context := t.context } :: journal) (.error crash.raised) u
  | action {name : Value} {act : Action} {t u : Situation σ} {r : Except Raised Value} :
    t.context.resumePath = [] → t.context.IsPlaced →
    engine.perform (Step.action name act).label act t = (r, u) →
    Ran engine (.body (.action name act)) t [] r u
  /-- A container that cannot be opened may have used up a frame. -/
  | refused {s : Step} {t : Situation σ} {e : Raised} {path : List Dict} :
    s.isAction = false → s.opening t = (.error e, t.withPath path) →
    Ran engine (.body s) t [] (.error e) (t.withPath path)
  | passed {s : Step} {t : Situation σ} {output : Value} :
    s.isAction = false → t.context.resumePath = [] → s.selected? t.context = none →
    s.opening t = (.ok (.pass output), t) → Ran engine (.body s) t [] (.ok output) t
  | chosen {s : Step} {t u : Situation σ} {branch : String} {ss : List Step}
      {journal : List Start} {r : Except Raised Value} {output : Value} :
    t.context.resumePath = [] → s.selected? t.context = some branch →
    s.branchNamed? branch = some ss → s.opening t = (.ok (.enter branch 0 ss output), t) →
    Ran engine (.steps (.branch branch) 0 ss) t journal r u →
    Ran engine (.body s) t journal (r.map fun _ => output) u
  | again {s : Step} {t u : Situation σ} {d : Dict} {ds : List Dict} {f : Frame} {ss : List Step}
      {journal : List Start} {r : Except Raised Value} {output : Value} :
    t.context.resumePath = d :: ds → Frame.ofDict? d = some f → 0 ≤ f.index →
    s.branchNamed? f.branch = some ss →
    s.opening t = (.ok (.enter f.branch f.index ss output), t.withPath ds) →
    Ran engine (.steps (.branch f.branch) f.index (ss.drop f.index.toNat)) (t.withPath ds)
      journal r u →
    Ran engine (.body s) t journal (r.map fun _ => output) u
  | done {p : Place} {index : Int} {t : Situation σ} :
    t.context.resumePath = [] → Ran engine (.steps p index []) t [] (.ok .null) t
  /-- A step of the sequence raises something. -/
  | broken {p : Place} {index : Int} {s : Step} {ss : List Step} {t u : Situation σ}
      {journal : List Start} {e : Raised} :
    Ran engine (.step s) (t.change (p.enter index)) journal (.error e) u →
    Ran engine (.steps p index (s :: ss)) t journal (.error e) (u.change p.leave)
  /-- A step of the sequence has stopped the run. -/
  | stopped {p : Place} {index : Int} {s : Step} {ss : List Step} {t u : Situation σ}
      {journal : List Start} {output : Value} :
    Ran engine (.step s) (t.change (p.enter index)) journal (.ok output) u →
    u.context.hasResult = true →
    Ran engine (.steps p index (s :: ss)) t journal (.ok .null) (u.change p.leave)
  | next {p : Place} {index : Int} {s : Step} {ss : List Step} {t u v : Situation σ}
      {journal journal' : List Start} {output : Value} {r : Except Raised Value} :
    Ran engine (.step s) (t.change (p.enter index)) journal (.ok output) u →
    u.context.hasResult = false →
    Ran engine (.steps p (index + 1) ss) (u.change p.leave) journal' r v →
    Ran engine (.steps p index (s :: ss)) t (journal ++ journal') r v

/-! ## What every run keeps -/

namespace Place

theorem leave_keeps {p : Place} {index : Int} {c d : Context} (h : (p.enter index c).Keeps d) :
    c.Keeps (p.leave d) := by
  cases p with
  | top => exact ⟨h.inputs, h.workflowName, h.position⟩
  | branch name =>
    refine ⟨h.inputs, h.workflowName, ?_⟩
    have hposition := h.position
    simp only [enter, Context.enter] at hposition
    simp only [leave, Context.leave, hposition, List.dropLast_concat]

@[simp] theorem leave_hasResult (p : Place) (c : Context) : (p.leave c).hasResult = c.hasResult := by
  cases p <;> rfl

@[simp] theorem leave_resumePath (p : Place) (c : Context) :
    (p.leave c).resumePath = c.resumePath := by
  cases p <;> rfl

@[simp] theorem enter_resumePath (p : Place) (index : Int) (c : Context) :
    (p.enter index c).resumePath = c.resumePath := by
  cases p <;> rfl

@[simp] theorem enter_frames (p : Place) (index : Int) (c : Context) :
    (p.enter index c).frames = c.frames := by
  rw [Context.frames, enter_resumePath, Context.frames]

theorem enter_isPlaced {c : Context} (p : Place) (index : Int) (h : c.IsPlaced) :
    (p.enter index c).IsPlaced := by
  cases p with
  | top => exact h
  | branch name => exact h.enter { branch := name, index }

end Place

theorem Situation.withPath_keeps (t : Situation σ) (path : List Dict) :
    t.context.Keeps (t.withPath path).context := ⟨rfl, rfl, rfl⟩

/-- Among the branches of a run an action ends with one of its effects, or raises something and changes
nothing of the run. -/
theorem Engine.perform_ends {engine : Engine σ} {label : StepLabel} {act : Action}
    {t u : Situation σ} {r : Except Raised Value} (hplaced : t.context.IsPlaced)
    (h : engine.perform label act t = (r, u)) :
    u.started = t.started ∧
      ∃ eff, act.Allows label t.context eff ∧ u.context = eff.apply t.context ∧
        (r.isOk = false → eff = .none) :=
  engine.perform_effect hplaced.isLocated h

namespace Ran

variable {engine : Engine σ} {task : Task} {t u : Situation σ} {journal : List Start}
  {r : Except Raised Value}

/-- Every task leaves the run where it found it, however it ends. -/
theorem keeps (h : Ran engine task t journal r u) : t.context.Keeps u.context := by
  induction h with
  | unnamed => exact .rfl
  | completed _ _ ih => exact ih.trans ⟨rfl, rfl, rfl⟩
  | failed _ _ _ ih => exact ih.trans ⟨rfl, rfl, rfl⟩
  | unreported _ _ _ ih => exact ih
  | action _ hplaced hperform =>
    obtain ⟨-, eff, -, hctx, -⟩ := Engine.perform_ends hplaced hperform
    exact hctx ▸ eff.apply_keeps _
  | refused => exact Situation.withPath_keeps _ _
  | passed => exact .rfl
  | chosen _ _ _ _ _ ih => exact ih
  | again _ _ _ _ _ _ ih => exact (Situation.withPath_keeps _ _).trans ih
  | done => exact .rfl
  | broken _ ih => exact Place.leave_keeps ih
  | stopped _ _ ih => exact Place.leave_keeps ih
  | next _ _ _ ih ih' => exact (Place.leave_keeps ih).trans ih'

/-- The journal lists what has been set to work. -/
theorem started_eq (h : Ran engine task t journal r u) : u.started = t.started ++ journal := by
  induction h with
  | unnamed => simp
  | completed _ _ ih => simpa [Situation.change, Situation.start] using ih
  | failed _ _ _ ih => simpa [Situation.change, Situation.start] using ih
  | unreported _ _ _ ih => simpa [Situation.start] using ih
  | action _ hplaced hperform => simp [(Engine.perform_ends hplaced hperform).1]
  | refused => simp [Situation.withPath]
  | passed => simp
  | chosen _ _ _ _ _ ih => exact ih
  | again _ _ _ _ _ _ ih => exact ih
  | done => simp
  | broken _ ih => exact ih
  | stopped _ _ ih => exact ih
  | next _ _ _ ih ih' =>
    rw [ih']
    simp only [Situation.change] at ih ⊢
    rw [ih, List.append_assoc]

/-- A task that ends without an error has used up the resume path. -/
theorem resumePath_eq_nil (h : Ran engine task t journal r u) (hr : r.isOk = true) :
    u.context.resumePath = [] := by
  induction h with
  | unnamed => cases hr
  | completed _ _ ih => exact ih rfl
  | failed => cases hr
  | unreported => cases hr
  | action hpath hplaced hperform =>
    obtain ⟨-, eff, -, hctx, -⟩ := Engine.perform_ends hplaced hperform
    rw [hctx, eff.apply_resumePath, hpath]
  | refused => cases hr
  | passed _ hpath => exact hpath
  | chosen _ _ _ _ _ ih => exact ih (Checks.isOk_map ▸ hr)
  | again _ _ _ _ _ _ ih => exact ih (Checks.isOk_map ▸ hr)
  | done hpath => exact hpath
  | broken => cases hr
  | stopped _ _ ih => exact (Place.leave_resumePath _ _).trans (ih rfl)
  | next _ _ _ _ ih' => exact ih' hr

/-- So nothing is entered again behind a step that ends without an error. -/
theorem leave_resumePath_eq_nil {s : Step} (h : Ran engine (.step s) t journal r u)
    (hr : r.isOk = true) (p : Place) : (p.leave u.context).resumePath = [] := by
  rw [p.leave_resumePath, h.resumePath_eq_nil hr]

end Ran

/-! ## The engine's runs are derivable -/

/-- A task may be done in a context: every entry of the resume path is a frame, the frames lead
through the task, and the position is one of frames. -/
structure Task.Ready (task : Task) (c : Context) : Prop where
  legible : c.IsLegible
  placed : c.IsPlaced
  admits : task.Admits c.frames

namespace Task.Ready

/-- Once the resume path is used up, every sequence may be done. -/
theorem of_nil {p : Place} {index : Int} {ss : List Step} {c : Context} (h : c.resumePath = [])
    (hplaced : c.IsPlaced) : Task.Ready (.steps p index ss) c where
  legible := by simp [Context.IsLegible, h]
  placed := hplaced
  admits := .inl (Context.frames_of_nil h)

theorem first {p : Place} {index : Int} {s : Step} {ss : List Step} {c : Context}
    (h : Task.Ready (.steps p index (s :: ss)) c) : Task.Ready (.step s) (p.enter index c) where
  legible := by simpa [Context.IsLegible] using h.legible
  placed := p.enter_isPlaced index h.placed
  admits := by
    rw [Task.Admits, p.enter_frames]
    rcases h.admits with hnil | ⟨next, rest, heq, hadmits⟩
    · rw [hnil]
      trivial
    · cases heq
      exact hadmits

/-- A container is entered again where its frame says. -/
theorem again {s : Step} {c : Context} {d : Dict} {ds : List Dict} {f : Frame} {ss : List Step}
    (h : Task.Ready (.body s) c) (hpath : c.resumePath = d :: ds)
    (hf : Frame.ofDict? d = some f) (hbranch : s.branchNamed? f.branch = some ss) :
    0 ≤ f.index ∧
      Task.Ready (.steps (.branch f.branch) f.index (ss.drop f.index.toNat))
        { c with resumePath := ds } := by
  have hadmits := h.admits
  rw [Task.Admits, Context.frames_of_cons hpath hf] at hadmits
  obtain ⟨ss', hbranch', hindex, -, hrest⟩ := hadmits
  cases hbranch.symm.trans hbranch'
  exact ⟨hindex, { legible := h.legible.tail hpath, placed := h.placed, admits := hrest }⟩

end Task.Ready

/-- The resume path has passed the check for the task. Its frames lead through the task, though the run
may fail to read the indices that the check has read. -/
structure Task.Checked (task : Task) (c : Context) : Prop where
  placed : c.IsPlaced
  led : ∃ fs, List.Forall₂ Frame.IsReadOf fs c.resumePath ∧ task.Admits fs

/-- The frames of a legible path are those that the check has read. -/
theorem Context.IsLegible.isReadOf {c : Context} (h : c.IsLegible) :
    List.Forall₂ Frame.IsReadOf c.frames c.resumePath := by
  unfold Context.IsLegible at h
  unfold Context.frames
  generalize c.resumePath = path at h ⊢
  induction path with
  | nil => exact .nil
  | cons d ds ih =>
    obtain ⟨hd, hds⟩ := List.forall_mem_cons.1 h
    obtain ⟨f, hf⟩ := Option.isSome_iff_exists.1 hd
    rw [List.filterMap_cons_some hf]
    exact .cons ((Frame.isReadOf_iff hf).2 rfl) (ih hds)

/-- A task that is ready has passed the check. -/
theorem Task.Ready.checked {task : Task} {c : Context} (h : task.Ready c) : task.Checked c :=
  ⟨h.placed, c.frames, h.legible.isReadOf, h.admits⟩

namespace Task.Checked

/-- Once the resume path is used up, every sequence may be done. -/
theorem of_nil {p : Place} {index : Int} {ss : List Step} {c : Context} (h : c.resumePath = [])
    (hplaced : c.IsPlaced) : Task.Checked (.steps p index ss) c :=
  ⟨hplaced, [], h ▸ .nil, .inl rfl⟩

theorem body {s : Step} {c : Context} (h : Task.Checked (.step s) c) : Task.Checked (.body s) c :=
  ⟨h.placed, h.led⟩

theorem first {p : Place} {index : Int} {s : Step} {ss : List Step} {c : Context}
    (h : Task.Checked (.steps p index (s :: ss)) c) : Task.Checked (.step s) (p.enter index c) := by
  obtain ⟨hplaced, fs, hread, hadmits⟩ := h
  refine ⟨p.enter_isPlaced index hplaced, fs, (p.enter_resumePath index c).symm ▸ hread, ?_⟩
  rcases hadmits with rfl | ⟨next, rest, heq, hadmits⟩
  · trivial
  · cases heq
    exact hadmits

/-- A container is entered again where its frame says. -/
theorem again {s : Step} {c : Context} {d : Dict} {ds : List Dict} {f : Frame} {ss : List Step}
    (h : Task.Checked (.body s) c) (hpath : c.resumePath = d :: ds)
    (hf : Frame.ofDict? d = some f) (hbranch : s.branchNamed? f.branch = some ss) :
    0 ≤ f.index ∧
      Task.Checked (.steps (.branch f.branch) f.index (ss.drop f.index.toNat))
        { c with resumePath := ds } := by
  obtain ⟨hplaced, fs, hread, hadmits⟩ := h
  rw [hpath] at hread
  obtain ⟨g, gs, hg, hgs, rfl⟩ := List.forall₂_cons_right_iff.1 hread
  obtain rfl := (Frame.isReadOf_iff hf).1 hg
  obtain ⟨ss', hbranch', hindex, -, hrest⟩ := hadmits
  cases hbranch.symm.trans hbranch'
  exact ⟨hindex, hplaced, gs, hgs, hrest⟩

/-- A container is not passed where its frame names a branch. -/
theorem opening_ne_pass {s : Step} {t : Situation σ} {d : Dict} {ds : List Dict}
    (hs : s.isAction = false) (h : Task.Checked (.body s) t.context)
    (hpath : t.context.resumePath = d :: ds) (output : Value) : (s.opening t).1 ≠ .ok (.pass output) := by
  obtain ⟨-, fs, hread, -⟩ := h
  rw [hpath] at hread
  obtain ⟨f, -, ⟨hbranch, -⟩, -⟩ := List.forall₂_cons_right_iff.1 hread
  exact Step.opening_ne_pass hs hpath hbranch output

/-- Nothing is entered again where there is no step. -/
theorem resumePath_of_nil {p : Place} {index : Int} {c : Context}
    (h : Task.Checked (.steps p index []) c) : c.resumePath = [] := by
  obtain ⟨-, fs, hread, rfl | ⟨next, rest, heq, -⟩⟩ := h
  · exact List.forall₂_nil_left_iff.1 hread
  · cases heq

/-- An action that may be done has no branch to be entered again. -/
theorem resumePath_of_isAction {s : Step} {c : Context} (hs : s.isAction = true)
    (h : Task.Checked (.step s) c) : c.resumePath = [] := by
  obtain ⟨-, fs, hread, hadmits⟩ := h
  cases fs with
  | nil => exact List.forall₂_nil_left_iff.1 hread
  | cons f fs => exact absurd hadmits (Step.not_admits_of_isAction hs)

end Task.Checked

/-- What is done in the situation is a run of the task that ends as given. -/
def Task.RanTo (task : Task) (engine : Engine σ) (t : Situation σ)
    (p : Except Raised Value × Situation σ) : Prop :=
  ∃ journal, Ran engine task t journal p.1 p.2

/-- A run between steps gives nothing. -/
def giveNothing (p : Except Raised Unit × Situation σ) : Except Raised Value × Situation σ :=
  (p.1.map fun _ => .null, p.2)

theorem RunM.within_apply {α : Type} {branch : String} {index : Int} {body : RunM σ α}
    {t : Situation σ} :
    RunM.within { branch, index } body t
      = ((body (t.change (Place.enter (.branch branch) index))).1,
        (body (t.change (Place.enter (.branch branch) index))).2.change
          (Place.leave (.branch branch))) := rfl

/-- Steps of a workflow run as the first of them does, and then the rest goes on if it may. -/
theorem runAll_cons (engine : Engine σ) (index : Int) (s : Step) (ss : List Step) (t : Situation σ) :
    runAll engine index (s :: ss) t = match runStep engine s (t.change (·.atStep index)) with
      | (.ok _, u) => RunM.unlessStopped (runAll engine (index + 1) ss) u
      | (.error e, u) => (.error e, u) := by
  have hchange : RunM.change (·.atStep index) t = (.ok (), t.change (·.atStep index)) := rfl
  rw [runAll, bind_of_ok hchange, bind_apply]
  rcases runStep engine s (t.change (·.atStep index)) with ⟨_ | _, u⟩ <;> rfl

section Soundness

variable {engine : Engine σ}

theorem ran_recorded {s : Step} {body : StepM σ Value} {t : Situation σ}
    (h : Task.RanTo (.body s) engine (t.start s) (body (t.start s))) :
    Task.RanTo (.step s) engine t
      ((RunM.recorded s body t).1.map StepResult.output, (RunM.recorded s body t).2) := by
  obtain ⟨journal, h⟩ := h
  cases hname : s.name.isSpellable with
  | false =>
    rw [RunM.recorded_of_unspellable hname]
    exact ⟨[], .unnamed hname⟩
  | true =>
    rw [RunM.recorded_of_spellable hname]
    cases hbody : body (t.start s) with
    | mk r u =>
      rw [hbody] at h
      cases r with
      | ok output =>
        rw [RunM.closed_of_ok hbody]
        exact ⟨_, .completed hname h⟩
      | error e =>
        cases hspellable : e.isSpellable with
        | true =>
          rw [RunM.closed_of_error hbody hspellable]
          exact ⟨_, .failed hname hspellable h⟩
        | false =>
          obtain ⟨crash, hmute⟩ := Raised.not_isSpellable_iff.1 hspellable
          rw [RunM.closed_of_mute hbody hmute]
          exact ⟨_, .unreported hname hmute h⟩

/-- A container runs as its branches do. -/
theorem ran_container {s : Step} {t : Situation σ} {branch : String → Nat → Int → RunM σ Unit}
    (hs : s.isAction = false) (hready : Task.Checked (.body s) t.context)
    (h : ∀ (name : String) (ss : List Step) (skip : Nat) (u : Situation σ),
      s.branchNamed? name = some ss →
      Task.Checked (.steps (.branch name) skip (ss.drop skip)) u.context →
      Task.RanTo (.steps (.branch name) skip (ss.drop skip)) engine u
        (giveNothing (branch name skip 0 u))) :
    Task.RanTo (.body s) engine t ((do (← s.opening).run branch) t) := by
  -- What holds of the portion of a branch, run from where it starts, holds of the opened container.
  have hportion (name : String) (ss : List Step) (skip : Nat) (output : Value) (u : Situation σ)
      (P : Except Raised Value → Situation σ → Prop)
      (hP : P ((giveNothing (branch name skip 0 u)).1.map fun _ => output) (branch name skip 0 u).2) :
      P ((Opening.run (.enter name skip ss output) branch) u).1
        ((Opening.run (.enter name skip ss output) branch) u).2 := by
    simp only [Opening.run, runPortion, Int.natCast_nonneg, if_true, Int.toNat_natCast, bind_apply]
    generalize branch name skip 0 u = p at hP ⊢
    rcases p with ⟨_ | _, _⟩ <;> exact hP
  have hopens := s.opening_opens hs t
  rw [bind_apply]
  generalize hopening : s.opening t = p at hopens ⊢
  obtain ⟨r, u⟩ := p
  cases hopens with
  | refused e path => exact ⟨[], .refused hs hopening⟩
  | passed output hpath hsel => exact ⟨[], .passed hs hpath hsel hopening⟩
  | @chosen name ss output hpath hsel hbranch =>
    obtain ⟨journal, hran⟩ := h name ss 0 u hbranch (.of_nil hpath hready.placed)
    exact ⟨journal, hportion name ss 0 output u (Ran engine (.body s) u journal)
      (.chosen hpath hsel hbranch hopening hran)⟩
  | passedAgain output hpath hframe =>
    exact absurd (congrArg Prod.fst hopening) (hready.opening_ne_pass hs hpath output)
  | @again d ds f ss output hpath hf hbranch =>
    obtain ⟨hindex, hready'⟩ := hready.again hpath hf hbranch
    obtain ⟨name, index⟩ := f
    obtain ⟨skip, rfl⟩ := Int.eq_ofNat_of_zero_le hindex
    obtain ⟨journal, hran⟩ := h name ss skip (t.withPath ds) hbranch hready'
    exact ⟨journal, hportion name ss skip output (t.withPath ds) (Ran engine (.body s) t journal)
      (.again hpath hf hindex hbranch hopening hran)⟩

/-- A sequence runs as its first step does and then as the rest does. -/
theorem ran_cons {p : Place} {index : Int} {s : Step} {ss : List Step} {t u : Situation σ}
    {q : Except Raised StepResult} {rest : RunM σ Unit}
    (hready : Task.Checked (.steps p index (s :: ss)) t.context)
    (h : Task.RanTo (.step s) engine (t.change (p.enter index)) (q.map StepResult.output, u))
    (hrest : ∀ v : Situation σ, Task.Checked (.steps p (index + 1) ss) v.context →
      Task.RanTo (.steps p (index + 1) ss) engine v (giveNothing (rest v))) :
    Task.RanTo (.steps p index (s :: ss)) engine t
      (match q with
        | .ok _ => giveNothing (RunM.unlessStopped rest (u.change p.leave))
        | .error e => (.error e, u.change p.leave)) := by
  obtain ⟨journal, h⟩ := h
  cases q with
  | error e => exact ⟨journal, .broken h⟩
  | ok result =>
    have hkeeps := Place.leave_keeps h.keeps
    have hpath := h.leave_resumePath_eq_nil rfl p
    cases hstop : u.context.hasResult with
    | true =>
      have hstop' : (u.change p.leave).context.hasResult = true :=
        (Place.leave_hasResult p _).trans hstop
      dsimp only
      rw [RunM.unlessStopped_of_stopped hstop']
      exact ⟨journal, .stopped h hstop⟩
    | false =>
      have hstop' : (u.change p.leave).context.hasResult = false :=
        (Place.leave_hasResult p _).trans hstop
      dsimp only
      rw [RunM.unlessStopped_of_running hstop']
      obtain ⟨journal', h'⟩ :=
        hrest (u.change p.leave) (.of_nil hpath (hkeeps.isPlaced hready.placed))
      exact ⟨journal ++ journal', .next h hstop h'⟩

theorem ran_nil {p : Place} {index : Int} {t : Situation σ}
    (hready : Task.Checked (.steps p index []) t.context) :
    Task.RanTo (.steps p index []) engine t (.ok .null, t) :=
  ⟨[], .done hready.resumePath_of_nil⟩

mutual

/-- A step runs by the rules. -/
theorem ran_runStep (engine : Engine σ) : (s : Step) → (t : Situation σ) →
    Task.Checked (.step s) t.context →
    Task.RanTo (.step s) engine t
      ((runStep engine s t).1.map StepResult.output, (runStep engine s t).2)
  | .action name act, t, h => by
    rw [runStep]
    exact ran_recorded ⟨[], .action (h.resumePath_of_isAction rfl) h.placed rfl⟩
  | .conditional name condition thenSteps elseSteps, t, h => by
    rw [runStep]
    refine ran_recorded (ran_container rfl h.body ?_)
    intro branch ss skip u hbranch hready
    simp only [Step.branchNamed?] at hbranch
    split at hbranch
    · rename_i hthen
      cases hbranch
      rw [if_pos hthen, ← hthen, ← Int.zero_add (skip : Int)]
      exact ran_runFrom engine thenSteps branch skip 0 u (by rwa [Int.zero_add])
    · split at hbranch
      · rename_i hthen helse
        cases hbranch
        rw [if_neg hthen, ← helse, ← Int.zero_add (skip : Int)]
        exact ran_runFrom engine elseSteps branch skip 0 u (by rwa [Int.zero_add])
      · cases hbranch
  | .switch name subject cases none, t, h => by
    rw [runStep]
    refine ran_recorded (ran_container rfl h.body ?_)
    intro branch ss skip u hbranch hready
    obtain ⟨label, hlabel, hcase⟩ := Option.bind_eq_some_iff.1 hbranch
    cases Branch.eq_ofCase hlabel
    rw [if_neg (by simp), ← Int.zero_add (skip : Int)]
    exact ran_runCase engine cases label ss hcase skip 0 u (by rwa [Int.zero_add])
  | .switch name subject cases (some steps), t, h => by
    rw [runStep]
    refine ran_recorded (ran_container rfl h.body ?_)
    intro branch ss skip u hbranch hready
    simp only [Step.branchNamed?] at hbranch
    split at hbranch
    · rename_i hdefault
      cases hbranch
      rw [if_pos (by simp [hdefault]), runDefault, ← hdefault, ← Int.zero_add (skip : Int)]
      exact ran_runFrom engine steps branch skip 0 u (by rwa [Int.zero_add])
    · rename_i hdefault
      obtain ⟨label, hlabel, hcase⟩ := Option.bind_eq_some_iff.1 hbranch
      cases Branch.eq_ofCase hlabel
      rw [if_neg (by simp [hdefault]), ← Int.zero_add (skip : Int)]
      exact ran_runCase engine cases label ss hcase skip 0 u (by rwa [Int.zero_add])

/-- The case that a branch names runs by the rules. -/
theorem ran_runCase (engine : Engine σ) : (cases : List (String × List Step)) → (label : String) →
    (ss : List Step) →
    Step.caseSteps? cases label = some ss → (skip : Nat) → (index : Int) → (t : Situation σ) →
    Task.Checked (.steps (.branch (Branch.ofCase label)) (index + skip) (ss.drop skip)) t.context →
    Task.RanTo (.steps (.branch (Branch.ofCase label)) (index + skip) (ss.drop skip)) engine t
      (giveNothing (runCase engine (Branch.ofCase label) skip index cases t))
  | [], _, _, hcase, _, _, _, _ => nomatch hcase
  | (label', steps) :: rest, label, ss, hcase, skip, index, t, h => by
    rw [Step.caseSteps?, List.find?_cons] at hcase
    rw [runCase]
    by_cases hlabel : label' = label
    · subst hlabel
      simp only [BEq.rfl, Option.map_some, Option.some.injEq] at hcase
      subst hcase
      rw [if_pos rfl]
      exact ran_runFrom engine steps (Branch.ofCase label') skip index t h
    · have hother : ¬ Branch.ofCase label = Branch.ofCase label' :=
        fun heq => hlabel (Branch.ofCase_injective heq).symm
      rw [if_neg hother]
      refine ran_runCase engine rest label ss ?_ skip index t h
      rw [beq_false_of_ne hlabel] at hcase
      exact hcase

/-- The steps of a branch run by the rules, after passing over some. -/
theorem ran_runFrom (engine : Engine σ) : (ss : List Step) → (branch : String) → (skip : Nat) →
    (index : Int) → (t : Situation σ) →
    Task.Checked (.steps (.branch branch) (index + skip) (ss.drop skip)) t.context →
    Task.RanTo (.steps (.branch branch) (index + skip) (ss.drop skip)) engine t
      (giveNothing (runFrom engine branch skip index ss t))
  | [], branch, skip, index, t, h => by
    rw [runFrom]
    rw [List.drop_nil] at h ⊢
    exact ran_nil h
  | s :: rest, branch, skip + 1, index, t, h => by
    have hindex : index + ((skip + 1 : Nat) : Int) = index + 1 + (skip : Int) := by omega
    rw [runFrom]
    rw [hindex, List.drop_succ_cons] at h ⊢
    exact ran_runFrom engine rest branch skip (index + 1) t h
  | s :: rest, branch, 0, index, t, h => by
    have hindex : index + ((0 : Nat) : Int) = index := by omega
    rw [hindex, List.drop_zero] at h ⊢
    have hfirst := ran_runStep engine s (t.change (Place.enter (.branch branch) index)) h.first
    have hrest (v : Situation σ)
        (hv : Task.Checked (.steps (.branch branch) (index + 1) rest) v.context) :
        Task.RanTo (.steps (.branch branch) (index + 1) rest) engine v
          (giveNothing (runFrom engine branch 0 (index + 1) rest v)) := by
      have hindex : index + 1 + ((0 : Nat) : Int) = index + 1 := by omega
      have := ran_runFrom engine rest branch 0 (index + 1) v
      rw [hindex, List.drop_zero] at this
      exact this hv
    have hcons := ran_cons h hfirst hrest
    rw [runFrom, bind_apply, RunM.within_apply]
    generalize runStep engine s (t.change (Place.enter (.branch branch) index)) = p at hcons ⊢
    obtain ⟨_ | _, u⟩ := p
    · exact hcons
    · exact hcons

end

/-- The steps of a workflow run by the rules. -/
theorem ran_runAll (engine : Engine σ) (ss : List Step) (index : Int) (t : Situation σ)
    (h : Task.Checked (.steps .top index ss) t.context) :
    Task.RanTo (.steps .top index ss) engine t (giveNothing (runAll engine index ss t)) := by
  induction ss generalizing index t with
  | nil => exact ran_nil h
  | cons s rest ih =>
    have hfirst := ran_runStep engine s (t.change (Place.enter .top index)) h.first
    have hcons := ran_cons h hfirst (ih (index + 1))
    have henter : t.change (·.atStep index) = t.change (Place.enter .top index) := rfl
    rw [runAll_cons, henter]
    generalize runStep engine s (t.change (Place.enter .top index)) = p at hcons ⊢
    obtain ⟨_ | _, u⟩ := p
    · exact hcons
    · exact hcons

end Soundness

end Stepwise
