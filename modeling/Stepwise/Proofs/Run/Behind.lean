-- SUMMARY: What a run has left behind wherever it stands, and the containers that it enters again.
import Stepwise.Proofs.Run.Closing

/-!
# What lies behind

Where a step is set to work, the steps that the position of the run leaves behind have been
completed: a sequence goes on to a step only behind the steps before it. The containers that
a run enters again are those on its resume path, each of them once.
-/

namespace Stepwise

variable {σ : Type}

namespace Task

/-- The steps of a task that a position of the run leaves behind. -/
def behindAt (task : Task) (currentStep : Value) (path : List Frame) : List Step :=
  match task with
  | .step s | .body s => s.behind path
  | .steps p index ss =>
    match p.locate? currentStep path with
    | none => []
    | some (n, fs) => Step.behindIn (n - index) fs ss

namespace Reaches

variable {c d : Context} {e : Start} {path : List Frame} {left : List Step}

/-- Within the first step of a sequence only what the step leaves behind is behind. -/
theorem behindAt_first {p : Place} {index : Int} {s : Step} (ss : List Step)
    (h : Reaches (.step s) (p.enter index c) e path left) :
    (Task.steps p index (s :: ss)).behindAt e.context.currentStep (p.path index path)
      = s.behind path := by
  have hfirst : Step.behindIn (index - index) path (s :: ss) = s.behind path := by
    simpa only [Int.sub_self] using Step.behindIn_zero path s ss
  cases p with
  | top =>
    have hstep : e.context.currentStep = .int index := h.currentStep rfl
    simpa [behindAt, Place.locate?, Place.path, hstep] using hfirst
  | branch name => simpa [behindAt, Place.locate?, Place.path] using hfirst

/-- Within the later steps of a sequence the first one is behind as well. -/
theorem behindAt_later {p : Place} {index : Int} {ss : List Step} (s : Step)
    (h : Reaches (.steps p (index + 1) ss) d e path left) :
    (Task.steps p index (s :: ss)).behindAt e.context.currentStep path
      = s :: (Task.steps p (index + 1) ss).behindAt e.context.currentStep path := by
  obtain ⟨⟨n, fs⟩, hlocate, hin⟩ := Option.bind_eq_some_iff.1 h.seek
  obtain ⟨_, _, _, hat, -, -⟩ := Step.seekIn_eq_some.1 hin
  have hsum : n - index = n - (index + 1) + 1 := by omega
  simp only [behindAt, hlocate, hsum]
  exact Step.behindIn_cons (stepAt?_eq_some.1 hat).1 fs

/-- Within a branch its steps up to where it was entered are behind as well. -/
theorem behindAt_body {s : Step} {branch : String} {index : Int} {ss : List Step}
    (h : Reaches (.steps (.branch branch) index (ss.drop index.toNat)) d e path left)
    (hindex : 0 ≤ index) (hbranch : s.branchNamed? branch = some ss) :
    s.behind path = ss.take index.toNat ++
      (Task.steps (.branch branch) index (ss.drop index.toNat)).behindAt e.context.currentStep
        path := by
  obtain ⟨⟨n, fs⟩, hlocate, hin⟩ := Option.bind_eq_some_iff.1 h.seek
  obtain ⟨_, _, _, hat, -, -⟩ := Step.seekIn_eq_some.1 hin
  cases path with
  | nil => cases hlocate
  | cons f path =>
    simp only [Place.locate?] at hlocate
    split at hlocate
    · rename_i hname
      cases hlocate
      subst hname
      have hsum : f.index = f.index - index + (index.toNat : Int) := by omega
      rw [Step.behind_cons _ hbranch, hsum, Step.behindIn_drop (stepAt?_eq_some.1 hat).1]
      simp [behindAt, Place.locate?]
    · cases hlocate

end Reaches

/-- The position of a start leads to its step, and the history tells of the steps that it leaves behind
as completed. -/
def Passes (task : Task) (c : Context) (past : List Heading) (e : Start) : Prop :=
  ∃ path left, task.Reaches c e path left ∧
    ∀ x ∈ task.behindAt e.context.currentStep path, x.heading .completed ∈ past

namespace Passes

variable {c d : Context} {past past' : List Heading} {e : Start}

theorem opened (s : Step) (c : Context) (past : List Heading) :
    Passes (.body s) c past { step := s, context := c } :=
  ⟨[], [], ⟨(List.append_nil _).symm, rfl, fun _ => rfl⟩, nofun⟩

theorem mono {task : Task} (h : task.Passes c past e) (hgrown : past <+: past') :
    task.Passes c past' e := by
  obtain ⟨path, left, hreach, hbehind⟩ := h
  exact ⟨path, left, hreach, fun x hx => hgrown.subset (hbehind x hx)⟩

theorem step {s : Step} (h : Passes (.body s) c past e) : Passes (.step s) c past e := by
  obtain ⟨path, left, hreach, hbehind⟩ := h
  exact ⟨path, left, ⟨hreach.position, hreach.seek, hreach.currentStep⟩, hbehind⟩

theorem body {s : Step} {branch : String} {index : Int} {ss : List Step}
    (h : Passes (.steps (.branch branch) index (ss.drop index.toNat)) d past e)
    (hindex : 0 ≤ index) (hbranch : s.branchNamed? branch = some ss)
    (hposition : d.position = c.position) (hstep : d.currentStep = c.currentStep)
    (htaken : ∀ x ∈ ss.take index.toNat, x.heading .completed ∈ past) :
    Passes (.body s) c past e := by
  obtain ⟨path, left, hreach, hbehind⟩ := h
  refine ⟨path, left, hreach.body hindex hbranch hposition hstep, fun x hx => ?_⟩
  simp only [behindAt, hreach.behindAt_body hindex hbranch] at hx
  rcases List.mem_append.1 hx with hx | hx
  · exact htaken x hx
  · exact hbehind x hx

theorem first {p : Place} {index : Int} {s : Step} (ss : List Step)
    (h : Passes (.step s) (p.enter index c) past e) : Passes (.steps p index (s :: ss)) c past e := by
  obtain ⟨path, left, hreach, hbehind⟩ := h
  refine ⟨_, _, hreach.first ss, fun x hx => hbehind x ?_⟩
  rwa [hreach.behindAt_first ss] at hx

theorem later {p : Place} {index : Int} {s : Step} {ss : List Step}
    (h : Passes (.steps p (index + 1) ss) d past e) (hposition : d.position = c.position)
    (hstep : (Task.steps p index (s :: ss)).isNested = true → d.currentStep = c.currentStep)
    (hs : s.heading .completed ∈ past) : Passes (.steps p index (s :: ss)) c past e := by
  obtain ⟨path, left, hreach, hbehind⟩ := h
  refine ⟨path, left, hreach.later hposition hstep, fun x hx => ?_⟩
  rcases List.mem_cons.1 (hreach.behindAt_later s ▸ hx) with rfl | hx
  · exact hs
  · exact hbehind x hx

end Passes

end Task

namespace Ran

variable {engine : Engine σ} {task : Task} {t u : Situation σ} {journal : List Start}
  {r : Except Raised Value}

/-- Wherever a run sets a step to work, the steps that its position leaves behind are completed. -/
theorem passes (h : Ran engine task t journal r u) (hresumes : task.Resumes t.context) :
    ∀ e ∈ task.opened t.context ++ journal, task.Passes t.context u.context.headings e := by
  induction h with
  | unnamed => exact List.forall_mem_nil _
  | completed _ _ ih =>
    intro e he
    apply (ih hresumes e he).step.mono
    simp [Situation.change]
  | failed _ _ _ ih =>
    intro e he
    apply (ih hresumes e he).step.mono
    simp [Situation.change]
  | unreported _ _ _ ih => exact fun e he => (ih hresumes e he).step
  | action | refused | passed =>
    intro e he
    cases List.mem_singleton.1 he
    exact .opened _ _ _
  | chosen hpath _ hbranch _ _ ih =>
    intro e he
    cases he with
    | head => exact .opened _ _ _
    | tail _ he =>
      exact (ih (.of_nil hpath) e he).body (Int.le_refl 0) hbranch rfl rfl (List.forall_mem_nil _)
  | again hpath hf hindex hbranch _ hran ih =>
    intro e he
    obtain ⟨htaken, hresumes'⟩ := hresumes.again hpath hf hbranch
    cases he with
    | head => exact .opened _ _ _
    | tail _ he =>
      exact (ih hresumes' e he).body hindex hbranch rfl rfl fun x hx =>
        hran.headings_grow.subset (htaken x hx)
  | done => exact List.forall_mem_nil _
  | @broken p _ _ _ _ _ _ _ _ ih =>
    intro e he
    simpa [Situation.change] using (ih hresumes.first e he).first _
  | @stopped p _ _ _ _ _ _ _ _ _ ih =>
    intro e he
    simpa [Situation.change] using (ih hresumes.first e he).first _
  | @next p index s ss t u _ journal journal' _ _ hran _ hran' ih ih' =>
    intro e he
    have hgrows : u.context.headings <+: _ := p.leave_headings u.context ▸ hran'.headings_grow
    rcases List.mem_append.1 (show e ∈ journal ++ journal' from he) with he | he
    · exact ((ih hresumes.first e he).mono hgrows).first ss
    · have hlater := ih' (.of_nil (hran.leave_resumePath_eq_nil rfl p)) e he
      apply hlater.later (Place.leave_keeps hran.keeps).position hran.leave_currentStep_eq
      exact hgrows.subset (hran.heading_mem rfl)

end Ran

/-! ## Entering again -/

/-- The containers of a journal that were entered again on a resume path. -/
def againSteps (journal : List Start) : List Step :=
  (journal.filter fun e => !e.isFresh).map Start.step

theorem againSteps_append (journal journal' : List Start) :
    againSteps (journal ++ journal') = againSteps journal ++ againSteps journal' := by
  simp [againSteps]

theorem againSteps_cons_of_cons {s : Step} {c : Context} {d : Dict} {ds : List Dict}
    (journal : List Start) (h : c.resumePath = d :: ds) :
    againSteps ({ step := s, context := c } :: journal) = s :: againSteps journal := by
  simp [againSteps, Start.isFresh, h]

theorem againSteps_of_fresh {journal : List Start} (h : ∀ e ∈ journal, e.isFresh = true) :
    againSteps journal = [] := by
  simpa [againSteps] using h

/-- Every step of a journal was begun afresh or entered again. -/
theorem countP_step (journal : List Start) (s : Step) :
    journal.countP (fun e => decide (e.step = s))
      = (freshSteps journal).count s + (againSteps journal).count s := by
  induction journal with
  | nil => rfl
  | cons e journal ih =>
    cases he : e.isFresh <;> by_cases hs : e.step = s <;>
      simp [freshSteps, againSteps, he, hs] at ih ⊢ <;> omega

/-- The containers that a task enters again. -/
def Task.along (task : Task) (path : List Frame) : List Step :=
  match task with
  | .step s | .body s => s.along path
  | .steps _ _ ss => Step.alongOf path ss

/-- A run enters again the containers on its resume path, from the outside in and each of them at most
once. -/
theorem Ran.againSteps_sublist {engine : Engine σ} {task : Task} {t u : Situation σ}
    {journal : List Start} {r : Except Raised Value} (h : Ran engine task t journal r u)
    (hready : task.Ready t.context) :
    (againSteps (task.opened t.context ++ journal)).Sublist (task.along t.context.frames) := by
  -- Where nothing is to be entered again, nothing is.
  have hnone {task : Task} {t u : Situation σ} {journal : List Start} {r : Except Raised Value}
      (h : Ran engine task t journal r u) (hpath : t.context.resumePath = []) {ss : List Step} :
      (againSteps (task.opened t.context ++ journal)).Sublist ss := by
    rw [againSteps_of_fresh (h.isFresh_of_nil hpath)]
    exact List.nil_sublist ss
  induction h with
  | unnamed => exact List.nil_sublist _
  | completed _ _ ih => exact ih ⟨hready.legible, hready.placed, hready.admits⟩
  | failed _ _ _ ih | unreported _ _ _ ih => exact ih ⟨hready.legible, hready.placed, hready.admits⟩
  | action hpath hplaced hperform => exact hnone (.action hpath hplaced hperform) hpath
  | @refused s t e path hs hopening =>
    cases hpath : t.context.resumePath with
    | nil => exact hnone (.refused hs hopening) hpath
    | cons d ds =>
      obtain ⟨f, hf⟩ := hready.legible.head hpath
      simp only [Task.opened, Task.along, List.cons_append, List.nil_append,
        againSteps_cons_of_cons _ hpath, Context.frames_of_cons hpath hf]
      exact (List.nil_sublist _).cons_cons s
  | passed hs hpath hselected hopening => exact hnone (.passed hs hpath hselected hopening) hpath
  | chosen hpath hselected hbranch hopening hran =>
    exact hnone (.chosen hpath hselected hbranch hopening hran) hpath
  | @again s t _ _ _ _ _ journal _ _ hpath hf _ hbranch _ _ ih =>
    simp only [Task.opened, Task.along, List.cons_append, List.nil_append,
      againSteps_cons_of_cons _ hpath, Context.frames_of_cons hpath hf, Step.along_cons _ hbranch]
    exact (ih (hready.again hpath hf hbranch).2).cons_cons s
  | done => exact List.nil_sublist _
  | @broken p index _ _ _ _ _ _ _ ih =>
    simpa [Task.along, Task.opened, Step.alongOf, Situation.change] using ih hready.first
  | @stopped p index _ _ _ _ _ _ _ _ ih =>
    simpa [Task.along, Task.opened, Step.alongOf, Situation.change] using ih hready.first
  | @next p index s ss t u v journal journal' output r hran hgo hran' ih ih' =>
    have hlater : againSteps journal' = [] :=
      againSteps_of_fresh (hran'.isFresh_of_nil (hran.leave_resumePath_eq_nil rfl p))
    simpa [Task.along, Task.opened, Step.alongOf, Situation.change, againSteps_append, hlater] using
      ih hready.first

end Stepwise
