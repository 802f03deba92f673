-- SUMMARY: Where the steps of a run stand, that they come in document order, and that none is left out.
import Stepwise.Proofs.Run.Journal

/-!
# The course of a run

Whenever a step is set to work, the position of the run leads to it. What has been set to
work before it, from its beginning, comes before it in document order, and what comes after
it is still ahead. A run that gets through leaves out only the branches that its containers
have not selected, and a run that is stopped leaves out besides only what comes after the
step that stopped it.
-/

namespace Stepwise

variable {σ : Type}

/-! ## Places in a task -/

/-- The index in a sequence that a position of the run tells, and the path from there. -/
def Place.locate? (p : Place) (currentStep : Value) (path : List Frame) : Option (Int × List Frame) :=
  match p with
  | .top =>
    match currentStep with
    | .int n => some (n, path)
    | _ => none
  | .branch name =>
    match path with
    | [] => none
    | f :: fs => if f.branch = name then some (f.index, fs) else none

/-- The path to a step of a sequence, continued by one from there. -/
def Place.path (p : Place) (index : Int) (path : List Frame) : List Frame :=
  match p with
  | .top => path
  | .branch name => { branch := name, index } :: path

namespace Task

/-- The step that a position of the run leads to within a task, and what comes after it. -/
def seek (task : Task) (currentStep : Value) (path : List Frame) : Option (Step × List Step) :=
  match task with
  | .step s | .body s => s.seek path
  | .steps p index ss =>
    (p.locate? currentStep path).bind fun (n, path) => Step.seekIn (n - index) path ss

/-- What the task does when its first step is entered at a path. -/
def ahead (task : Task) (path : List Frame) : List Step :=
  match task with
  | .step s | .body s => s.ahead path
  | .steps _ _ ss => Step.aheadOf path ss

/-- From where the task stands the position of a start leads to its step, after which `left`
comes. -/
structure Reaches (task : Task) (c : Context) (e : Start) (path : List Frame) (left : List Step) :
    Prop where
  position : e.context.position = c.position ++ path.map Frame.toValue
  seek : task.seek e.context.currentStep path = some (e.step, left)
  currentStep : task.isNested = true → e.context.currentStep = c.currentStep

namespace Reaches

variable {task : Task} {c : Context} {e : Start} {path path' : List Frame} {left left' : List Step}

/-- What the first step of a sequence reaches. -/
theorem first {p : Place} {index : Int} {s : Step} (ss : List Step)
    (h : Reaches (.step s) (p.enter index c) e path left) :
    Reaches (.steps p index (s :: ss)) c e (p.path index path) (left ++ Step.nodesOf ss) := by
  have hin : Step.seekIn (index - index) path (s :: ss) = some (e.step, left ++ Step.nodesOf ss) := by
    rw [Int.sub_self]
    exact Step.seekIn_eq_some.2 ⟨s, ss, left, stepAt?_zero s ss, h.seek, rfl⟩
  cases p with
  | top =>
    refine ⟨h.position, ?_, nofun⟩
    rw [Task.seek, h.currentStep rfl]
    exact hin
  | branch name =>
    refine ⟨?_, ?_, fun _ => h.currentStep rfl⟩
    · rw [h.position, Place.enter, Context.enter, List.append_assoc]
      rfl
    · simp only [Task.seek, Place.path, Place.locate?, if_true, Option.bind_some]
      exact hin

/-- What the later steps of a sequence reach. -/
theorem later {d : Context} {p : Place} {index : Int} {s : Step} {ss : List Step}
    (hposition : d.position = c.position)
    (hstep : (Task.steps p index (s :: ss)).isNested = true → d.currentStep = c.currentStep)
    (h : Reaches (.steps p (index + 1) ss) d e path left) :
    Reaches (.steps p index (s :: ss)) c e path left := by
  refine ⟨h.position.trans (by rw [hposition]), ?_, fun hn => (h.currentStep ?_).trans (hstep hn)⟩
  · have hseek := h.seek
    obtain ⟨⟨n, fs⟩, hlocate, hin⟩ := Option.bind_eq_some_iff.1 hseek
    obtain ⟨next, rest, left', hat, hnext, rfl⟩ := Step.seekIn_eq_some.1 hin
    have hindex := (stepAt?_eq_some.1 hat).1
    refine Option.bind_eq_some_iff.2 ⟨(n, fs), hlocate, ?_⟩
    refine Step.seekIn_eq_some.2 ⟨next, rest, left', ?_, hnext, rfl⟩
    have hsum : n - index = n - (index + 1) + 1 := by omega
    rw [hsum, stepAt?_cons hindex]
    exact hat
  · cases p with
    | top => cases hn
    | branch name => rfl

/-- What a container reaches through the branch that it has entered. -/
theorem body {d : Context} {s : Step} {branch : String} {index : Int} {ss : List Step}
    (h : Reaches (.steps (.branch branch) index (ss.drop index.toNat)) d e path left)
    (hindex : 0 ≤ index) (hbranch : s.branchNamed? branch = some ss)
    (hposition : d.position = c.position) (hstep : d.currentStep = c.currentStep) :
    Reaches (.body s) c e path left := by
  refine ⟨h.position.trans (by rw [hposition]), ?_, fun _ => (h.currentStep rfl).trans hstep⟩
  obtain ⟨⟨n, fs⟩, hlocate, hin⟩ := Option.bind_eq_some_iff.1 h.seek
  obtain ⟨next, rest, left', hat, hnext, rfl⟩ := Step.seekIn_eq_some.1 hin
  cases path with
  | nil => cases hlocate
  | cons f path =>
    simp only [Place.locate?] at hlocate
    split at hlocate
    · rename_i hname
      cases hlocate
      subst hname
      rw [Task.seek, Step.seek_cons, hbranch]
      refine Step.seekIn_eq_some.2 ⟨next, rest, left', ?_, hnext, rfl⟩
      rw [stepAt?_drop (stepAt?_eq_some.1 hat).1] at hat
      rw [← hat]
      congr 1
      omega
    · cases hlocate

end Reaches

/-! ## Document order -/

/-- Each start of a journal is where the position leads, and what has been set to work up to it from
its beginning comes in document order before what comes after it. -/
def Ordered (task : Task) (c : Context) (journal : List Start) : Prop :=
  ∀ earlier e later, journal = earlier ++ e :: later →
    ∃ path left, task.Reaches c e path left ∧
      (freshSteps (earlier ++ [e]) ++ left).Sublist (task.ahead c.frames)

namespace Ordered

variable {task : Task} {c d : Context} {journal journal' : List Start}

theorem nil : task.Ordered c [] := by
  intro earlier e later h
  cases earlier <;> cases h

theorem freshSteps_sublist (h : task.Ordered c journal) :
    (freshSteps journal).Sublist (task.ahead c.frames) := by
  rcases List.eq_nil_or_concat journal with rfl | ⟨earlier, e, rfl⟩
  · exact List.nil_sublist _
  · rw [List.concat_eq_append] at h ⊢
    obtain ⟨path, left, -, hsub⟩ := h earlier e [] rfl
    exact (List.sublist_append_left _ left).trans hsub

theorem step {s : Step} (h : Ordered (.body s) c journal) : Ordered (.step s) c journal := by
  intro earlier e later heq
  obtain ⟨path, left, hreach, hsub⟩ := h earlier e later heq
  exact ⟨path, left, ⟨hreach.position, hreach.seek, hreach.currentStep⟩, hsub⟩

/-- The start of a container, and what is done in it. -/
theorem body {s : Step}
    (h : ∀ earlier e later, journal = earlier ++ e :: later →
      ∃ path left, Reaches (.body s) c e path left ∧
        (freshSteps ({ step := s, context := c } :: (earlier ++ [e])) ++ left).Sublist
          (s.ahead c.frames)) :
    Ordered (.body s) c ({ step := s, context := c } :: journal) := by
  intro earlier e later heq
  cases earlier with
  | nil =>
    cases heq
    refine ⟨[], [], ⟨(List.append_nil _).symm, rfl, fun _ => rfl⟩, ?_⟩
    cases hpath : c.resumePath with
    | nil =>
      rw [List.nil_append, freshSteps_cons_of_nil [] hpath, Context.frames_of_nil hpath]
      rw [Task.ahead, Step.ahead_nil, Step.nodes_eq]
      exact (List.nil_sublist _).cons_cons s
    | cons d ds =>
      rw [List.nil_append, freshSteps_cons_of_cons [] hpath]
      exact List.nil_sublist _
  | cons e' earlier =>
    cases heq
    exact h earlier e later rfl

theorem opened {s : Step} : Ordered (.body s) c [{ step := s, context := c }] := by
  refine body ?_
  intro earlier e later heq
  cases earlier <;> cases heq

/-- The start of a container that has selected a branch, and what is done there. -/
theorem chosen {s : Step} {branch : String} {ss : List Step} (hpath : c.resumePath = [])
    (hbranch : s.branchNamed? branch = some ss)
    (h : Ordered (.steps (.branch branch) 0 ss) c journal) :
    Ordered (.body s) c ({ step := s, context := c } :: journal) := by
  refine body ?_
  intro earlier e later heq
  obtain ⟨path, left, hreach, hsub⟩ := h earlier e later heq
  refine ⟨path, left, hreach.body (Int.le_refl 0) hbranch rfl rfl, ?_⟩
  rw [Task.ahead, Context.frames_of_nil hpath, Step.aheadOf_nil] at hsub
  rw [freshSteps_cons_of_nil _ hpath, Context.frames_of_nil hpath, Step.ahead_nil, Step.nodes_eq]
  exact (hsub.trans (Step.branchNamed?_sublist hbranch)).cons_cons s

/-- The start of a container that enters a branch again, and what is done there. -/
theorem again {s : Step} {d : Dict} {ds : List Dict} {f : Frame} {ss : List Step}
    (hpath : c.resumePath = d :: ds) (hf : Frame.ofDict? d = some f) (hindex : 0 ≤ f.index)
    (hbranch : s.branchNamed? f.branch = some ss)
    (h : Ordered (.steps (.branch f.branch) f.index (ss.drop f.index.toNat))
      { c with resumePath := ds } journal) :
    Ordered (.body s) c ({ step := s, context := c } :: journal) := by
  refine body ?_
  intro earlier e later heq
  obtain ⟨path, left, hreach, hsub⟩ := h earlier e later heq
  refine ⟨path, left, hreach.body hindex hbranch rfl rfl, ?_⟩
  rw [freshSteps_cons_of_cons _ hpath, Context.frames_of_cons hpath hf, Step.ahead_cons _ hbranch]
  exact hsub

/-- The first step of a sequence, when the run goes no further. -/
theorem first {p : Place} {index : Int} {s : Step} {ss : List Step}
    (h : Ordered (.step s) (p.enter index c) journal) :
    Ordered (.steps p index (s :: ss)) c journal := by
  intro earlier e later heq
  obtain ⟨path, left, hreach, hsub⟩ := h earlier e later heq
  refine ⟨_, _, hreach.first ss, ?_⟩
  rw [← List.append_assoc]
  exact (p.enter_frames index c ▸ hsub).append_right (Step.nodesOf ss)

/-- The first step of a sequence and the later ones. -/
theorem next {p : Place} {index : Int} {s : Step} {ss : List Step}
    (hpath : d.resumePath = []) (hposition : d.position = c.position)
    (hstep : (Task.steps p index (s :: ss)).isNested = true → d.currentStep = c.currentStep)
    (h : Ordered (.step s) (p.enter index c) journal)
    (h' : Ordered (.steps p (index + 1) ss) d journal') :
    Ordered (.steps p index (s :: ss)) c (journal ++ journal') := by
  have hlater (earlier : List Start) (e : Start) (later : List Start)
      (heq : journal' = earlier ++ e :: later) :
      ∃ path left, Reaches (.steps p index (s :: ss)) c e path left ∧
        (freshSteps (journal ++ earlier ++ [e]) ++ left).Sublist
          (Task.ahead (.steps p index (s :: ss)) c.frames) := by
    obtain ⟨path, left, hreach, hsub⟩ := h' earlier e later heq
    refine ⟨path, left, hreach.later hposition hstep, ?_⟩
    rw [Task.ahead, Context.frames_of_nil hpath, Step.aheadOf_nil] at hsub
    rw [List.append_assoc, freshSteps_append, List.append_assoc]
    exact (p.enter_frames index c ▸ h.freshSteps_sublist).append hsub
  intro earlier e later heq
  rcases List.append_eq_append_iff.1 heq with ⟨more, rfl, heq'⟩ | ⟨more, rfl, heq'⟩
  · exact hlater more e later heq'
  · cases more with
    | nil => simpa using hlater [] e later heq'.symm
    | cons e' more =>
      cases heq'
      exact first h earlier e more rfl

end Ordered

end Task

namespace Ran

variable {engine : Engine σ} {task : Task} {t u : Situation σ} {journal : List Start}
  {r : Except Raised Value}

/-- The steps of every run are set to work where they stand and in document order. -/
theorem ordered (h : Ran engine task t journal r u) :
    task.Ordered t.context (task.opened t.context ++ journal) := by
  induction h with
  | unnamed => exact .nil
  | completed _ _ ih => exact ih.step
  | failed _ _ _ ih => exact ih.step
  | unreported _ _ _ ih => exact ih.step
  | action => exact .opened
  | refused => exact .opened
  | passed => exact .opened
  | chosen hpath _ hbranch _ _ ih => exact .chosen hpath hbranch ih
  | again hpath hf hindex hbranch _ _ ih => exact .again hpath hf hindex hbranch ih
  | done => exact .nil
  | broken _ ih => exact ih.first
  | stopped _ _ ih => exact ih.first
  | @next p index s ss t u _ journal journal' _ _ hfirst _ _ ih ih' =>
    have hordered : (Task.step s).Ordered (p.enter index t.context) journal := ih
    have hordered' : (Task.steps p (index + 1) ss).Ordered (p.leave u.context) journal' := ih'
    refine hordered.next ?_ ?_ ?_ hordered'
    · exact hfirst.leave_resumePath_eq_nil rfl p
    · exact (Place.leave_keeps hfirst.keeps).position
    · exact hfirst.leave_currentStep_eq

/-- Every step is set to work where the position of the run leads. -/
theorem reaches (h : Ran engine task t journal r u) :
    ∀ e ∈ task.opened t.context ++ journal, ∃ path left, task.Reaches t.context e path left := by
  intro e he
  obtain ⟨earlier, later, heq⟩ := List.append_of_mem he
  obtain ⟨path, left, hreach, -⟩ := h.ordered earlier e later heq
  exact ⟨path, left, hreach⟩

/-- Every step is set to work in a context in which it may be done. -/
theorem ready_of_mem (h : Ran engine task t journal r u) (hready : task.Ready t.context) :
    ∀ e ∈ task.opened t.context ++ journal, Task.Ready (.step e.step) e.context := by
  induction h with
  | unnamed => exact nofun
  | completed _ _ ih => exact ih ⟨hready.legible, hready.placed, hready.admits⟩
  | failed _ _ _ ih => exact ih ⟨hready.legible, hready.placed, hready.admits⟩
  | unreported _ _ _ ih => exact ih ⟨hready.legible, hready.placed, hready.admits⟩
  | action | refused | passed =>
    intro e he
    cases List.mem_singleton.1 he
    exact ⟨hready.legible, hready.placed, hready.admits⟩
  | chosen hpath _ _ _ _ ih =>
    intro e he
    cases he with
    | head => exact ⟨hready.legible, hready.placed, hready.admits⟩
    | tail _ he => exact ih (.of_nil hpath hready.placed) e he
  | again hpath hf _ hbranch _ _ ih =>
    intro e he
    cases he with
    | head => exact ⟨hready.legible, hready.placed, hready.admits⟩
    | tail _ he => exact ih (hready.again hpath hf hbranch).2 e he
  | done => exact nofun
  | broken _ ih => exact ih hready.first
  | stopped _ _ ih => exact ih hready.first
  | @next p index s ss t u _ journal journal' _ _ hfirst _ _ ih ih' =>
    intro e he
    rcases List.mem_append.1 (show e ∈ journal ++ journal' from he) with he | he
    · exact ih hready.first e he
    · refine ih' (.of_nil (hfirst.leave_resumePath_eq_nil rfl p) ?_) e he
      exact (Place.leave_keeps hfirst.keeps).isPlaced hready.placed

end Ran

/-! ## Nothing is left out -/

/-- The step lies in a container that was set to work from its beginning, but not in the branch that
the container selected. -/
structure Start.PassesOver (e : Start) (x : Step) : Prop where
  fresh : e.isFresh = true
  inner : x ∈ e.step.inner
  unselected : ∀ branch ss, e.step.selected? e.context = some branch →
    e.step.branchNamed? branch = some ss → x ∉ Step.nodesOf ss

/-- The step was set to work, or was passed over. -/
def Covers (journal : List Start) (x : Step) : Prop :=
  (∃ e ∈ journal, e.step = x) ∨ ∃ e ∈ journal, e.PassesOver x

/-- The step comes after the last one of a journal. -/
def Task.Leaves (task : Task) (c : Context) (journal : List Start) (x : Step) : Prop :=
  ∃ earlier e path left, journal = earlier ++ [e] ∧ task.Reaches c e path left ∧ x ∈ left

theorem Covers.append_left {journal : List Start} {x : Step} (h : Covers journal x)
    (before : List Start) : Covers (before ++ journal) x := by
  rcases h with ⟨e, he, hx⟩ | ⟨e, he, hx⟩
  · exact .inl ⟨e, List.mem_append_right _ he, hx⟩
  · exact .inr ⟨e, List.mem_append_right _ he, hx⟩

theorem Covers.append_right {journal : List Start} {x : Step} (h : Covers journal x)
    (after : List Start) : Covers (journal ++ after) x := by
  rcases h with ⟨e, he, hx⟩ | ⟨e, he, hx⟩
  · exact .inl ⟨e, List.mem_append_left _ he, hx⟩
  · exact .inr ⟨e, List.mem_append_left _ he, hx⟩

namespace Task.Leaves

variable {task : Task} {c d : Context} {journal : List Start} {x : Step}

theorem first {p : Place} {index : Int} {s : Step} {ss : List Step}
    (h : Leaves (.step s) (p.enter index c) journal x) :
    Leaves (.steps p index (s :: ss)) c journal x := by
  obtain ⟨earlier, e, path, left, heq, hreach, hx⟩ := h
  exact ⟨earlier, e, _, _, heq, hreach.first ss, List.mem_append_left _ hx⟩

/-- A sequence that is stopped in its first step leaves all the others. -/
theorem rest {p : Place} {index : Int} {s : Step} {ss : List Step} (hjournal : journal ≠ [])
    (h : Ordered (.step s) (p.enter index c) journal) (hx : x ∈ Step.nodesOf ss) :
    Leaves (.steps p index (s :: ss)) c journal x := by
  obtain ⟨earlier, e, heq⟩ := (List.eq_nil_or_concat journal).resolve_left hjournal
  rw [List.concat_eq_append] at heq
  obtain ⟨path, left, hreach, -⟩ := h earlier e [] heq
  exact ⟨earlier, e, _, _, heq, hreach.first ss, List.mem_append_right _ hx⟩

theorem later {p : Place} {index : Int} {s : Step} {ss : List Step}
    (hposition : d.position = c.position)
    (hstep : (Task.steps p index (s :: ss)).isNested = true → d.currentStep = c.currentStep)
    (h : Leaves (.steps p (index + 1) ss) d journal x) (before : List Start) :
    Leaves (.steps p index (s :: ss)) c (before ++ journal) x := by
  obtain ⟨earlier, e, path, left, rfl, hreach, hx⟩ := h
  exact ⟨before ++ earlier, e, path, left, by simp, hreach.later hposition hstep, hx⟩

theorem body {s : Step} {branch : String} {index : Int} {ss : List Step}
    (h : Leaves (.steps (.branch branch) index (ss.drop index.toNat)) d journal x)
    (hindex : 0 ≤ index) (hbranch : s.branchNamed? branch = some ss)
    (hposition : d.position = c.position) (hstep : d.currentStep = c.currentStep)
    (before : List Start) : Leaves (.body s) c (before ++ journal) x := by
  obtain ⟨earlier, e, path, left, rfl, hreach, hx⟩ := h
  exact ⟨before ++ earlier, e, path, left, by simp,
    hreach.body hindex hbranch hposition hstep, hx⟩

end Task.Leaves

namespace Ran

variable {engine : Engine σ} {task : Task} {t u : Situation σ} {journal : List Start}
  {r : Except Raised Value}

theorem journal_ne_nil {s : Step} (h : Ran engine (.step s) t journal r u) (hr : r.isOk = true) :
    journal ≠ [] := by
  cases h with
  | unnamed => cases hr
  | completed => exact List.cons_ne_nil _ _
  | failed => cases hr
  | unreported => cases hr

/-- An action that lies ahead is done or passed over, unless the run is stopped before it. -/
theorem covers (h : Ran engine task t journal r u) (hr : r.isOk = true) {x : Step}
    (hleaf : x.isAction = true) (hx : x ∈ task.ahead t.context.frames) :
    Covers (task.opened t.context ++ journal) x ∨
      u.context.hasResult = true ∧
        task.Leaves t.context (task.opened t.context ++ journal) x := by
  -- A container is no action, so an action among its nodes is nested in it.
  have hinner {s : Step} (hs : s.isAction = false) (hx : x ∈ s.nodes) : x ∈ s.inner := by
    rw [Step.nodes_eq] at hx
    cases hx with
    | head => rw [hs] at hleaf; cases hleaf
    | tail _ hx => exact hx
  induction h with
  | unnamed => cases hr
  | completed _ _ ih =>
    refine (ih rfl hx).imp id (And.imp_right fun hleft => ?_)
    obtain ⟨earlier, e, path, left, heq, hreach, hx⟩ := hleft
    exact ⟨earlier, e, path, left, heq, ⟨hreach.position, hreach.seek, hreach.currentStep⟩, hx⟩
  | failed => cases hr
  | unreported => cases hr
  | @action name act t _ _ hpath _ _ =>
    rw [Task.ahead, Context.frames_of_nil hpath] at hx
    cases List.mem_singleton.1 hx
    exact .inl (.inl ⟨_, .head _, rfl⟩)
  | refused => cases hr
  | @passed s t output hs hpath hsel _ =>
    rw [Task.ahead, Context.frames_of_nil hpath] at hx
    refine .inl (.inr ⟨_, .head _, ?_, hinner hs hx, ?_⟩)
    · simp [Start.isFresh, hpath]
    · intro branch ss hsome
      rw [hsel] at hsome
      cases hsome
  | @chosen s t u branch ss journal r output hpath hsel hbranch _ _ ih =>
    have hok : r.isOk = true := Checks.isOk_map ▸ hr
    rw [Task.ahead, Context.frames_of_nil hpath] at hx
    by_cases hin : x ∈ Step.nodesOf ss
    · have hahead : x ∈ Step.aheadOf t.context.frames ss := by
        rwa [Context.frames_of_nil hpath, Step.aheadOf_nil]
      refine (ih hok hahead).imp (·.append_left _) (And.imp_right fun hleft => ?_)
      exact Task.Leaves.body hleft (Int.le_refl 0) hbranch rfl rfl _
    · refine .inl (.inr ⟨_, .head _, ?_, ?_, ?_⟩)
      · simp [Start.isFresh, hpath]
      · exact hinner (Step.isAction_of_branchNamed? hbranch) hx
      · intro branch' ss' hsel' hbranch'
        cases hsel.symm.trans hsel'
        cases hbranch.symm.trans hbranch'
        exact hin
  | @again s t u d ds f ss journal r output hpath hf hindex hbranch _ _ ih =>
    have hok : r.isOk = true := Checks.isOk_map ▸ hr
    rw [Task.ahead, Context.frames_of_cons hpath hf, Step.ahead_cons _ hbranch] at hx
    refine (ih hok hx).imp (·.append_left _) (And.imp_right fun hleft => ?_)
    exact Task.Leaves.body (c := t.context) hleft hindex hbranch rfl rfl _
  | done => cases hx
  | broken => cases hr
  | @stopped p index s ss t u journal output hran hstop ih =>
    have hstop' : (p.leave u.context).hasResult = true := (p.leave_hasResult _).trans hstop
    have hordered : (Task.step s).Ordered (p.enter index t.context) journal := hran.ordered
    rcases List.mem_append.1 hx with hx | hx
    · rw [← p.enter_frames index] at hx
      exact (ih rfl hx).imp id fun hleft => ⟨hstop', Task.Leaves.first hleft.2⟩
    · exact .inr ⟨hstop', .rest (hran.journal_ne_nil rfl) hordered hx⟩
  | @next p index s ss t u v journal journal' output r hran hgo hran' ih ih' =>
    rcases List.mem_append.1 hx with hx | hx
    · rw [← p.enter_frames index] at hx
      rcases ih rfl hx with hcovers | ⟨hstop, -⟩
      · exact .inl (hcovers.append_right journal')
      · rw [hgo] at hstop
        cases hstop
    · have hpath := hran.leave_resumePath_eq_nil rfl p
      have hahead : x ∈ Step.aheadOf (p.leave u.context).frames ss := by
        rwa [Context.frames_of_nil hpath, Step.aheadOf_nil]
      refine (ih' hr hahead).imp (·.append_left journal) (And.imp_right fun hleft => ?_)
      exact .later (Place.leave_keeps hran.keeps).position hran.leave_currentStep_eq hleft journal

end Ran

end Stepwise
