-- SUMMARY: The branches that containers have entered: where they stand, and what is reported of them.
import Stepwise.Proofs.Run.Behind

/-!
# Entered branches

A step that is set to work inside branches stands where its containers have led the run:
each branch in its position was entered by a container set to work before it, at the
position where that container stands. On a resume path the containers are those that the
path leads through. When a container ends it reports the branch that it has entered, and a
switch also what its subject was when it was set to work.
-/

namespace Stepwise

variable {σ : Type}

/-! ## Positions inside branches -/

def Task.isBranch : Task → Bool
  | .steps (.branch _) _ _ => true
  | .step _ | .body _ | .steps .top _ _ => false

/-- A container at the position has entered the branch. -/
def EntersAt (journal : List Start) (currentStep : Value) (position : List Value)
    (branch : String) : Prop :=
  ∃ e ∈ journal, e.context.currentStep = currentStep ∧ e.context.position = position ∧
    e.entered? = some branch

theorem EntersAt.mono {journal journal' : List Start} {currentStep : Value} {position : List Value}
    {branch : String} (h : EntersAt journal currentStep position branch) (hsub : journal ⊆ journal') :
    EntersAt journal' currentStep position branch := by
  obtain ⟨e, he, hentered⟩ := h
  exact ⟨e, hsub he, hentered⟩

/-- Each branch of the task in which a step of the journal stands was entered by a container of the
journal. The steps of a branch do not tell of the container that has entered it. -/
def Task.Encloses (task : Task) (c : Context) (journal : List Start) : Prop :=
  ∀ e ∈ journal, ∀ path f more,
    e.context.position = c.position ++ (path ++ f :: more).map Frame.toValue →
    (task.isBranch = true → path ≠ []) →
    EntersAt journal e.context.currentStep (c.position ++ path.map Frame.toValue) f.branch

/-- The path that a start is reached on is the one that its position tells. -/
theorem Task.Reaches.path_eq {task : Task} {c : Context} {e : Start} {path path' : List Frame}
    {left : List Step} (h : task.Reaches c e path left)
    (hposition : e.context.position = c.position ++ path'.map Frame.toValue) : path = path' :=
  Frame.map_toValue_inj.1 (List.append_cancel_left (h.position.symm.trans hposition))

namespace Task.Encloses

variable {c d : Context} {journal journal' : List Start}

theorem nil (task : Task) (c : Context) : task.Encloses c [] := nofun

/-- Nothing stands inside a step that has only been opened. -/
theorem opened (s : Step) (c : Context) : Task.Encloses (.body s) c [{ step := s, context := c }] := by
  intro e he path f more hposition
  cases List.mem_singleton.1 he
  have hlength := congrArg List.length hposition
  simp only [List.length_append, List.length_map, List.length_cons] at hlength
  omega

/-- The steps of a branch stand in the container that has entered it. -/
theorem body {s : Step} {branch : String} {index : Int} {ss : List Step}
    (h : Task.Encloses (.steps (.branch branch) index ss) d journal)
    (hentered : Start.entered? { step := s, context := c } = some branch)
    (hposition : d.position = c.position) (hstep : d.currentStep = c.currentStep)
    (hreaches : ∀ e ∈ journal, ∃ path left,
      Task.Reaches (.steps (.branch branch) index ss) d e path left) :
    Task.Encloses (.body s) c ({ step := s, context := c } :: journal) := by
  intro e he path f more hwhere hpath
  cases he with
  | head => exact (opened s c _ (.head _) path f more hwhere hpath).mono (by simp)
  | tail _ he =>
    cases path with
    | nil =>
      -- The outermost branch is the one that the container itself has entered.
      obtain ⟨path', left, hreach⟩ := hreaches e he
      obtain rfl := hreach.path_eq (hposition ▸ hwhere)
      obtain ⟨⟨n, fs⟩, hlocate, -⟩ := Option.bind_eq_some_iff.1 hreach.seek
      have hbranch : f.branch = branch := by
        simp only [List.nil_append, Place.locate?] at hlocate
        split at hlocate
        · assumption
        · cases hlocate
      refine ⟨_, .head _, ?_, (List.append_nil _).symm, hbranch ▸ hentered⟩
      exact ((hreach.currentStep rfl).trans hstep).symm
    | cons g path =>
      rw [← hposition] at hwhere ⊢
      exact (h e he (g :: path) f more hwhere fun _ => List.cons_ne_nil g path).mono
        (List.subset_cons_self _ _)

theorem first {p : Place} {index : Int} {s : Step} (ss : List Step)
    (h : Task.Encloses (.step s) (p.enter index c) journal)
    (hreaches : ∀ e ∈ journal, ∃ path left,
      Task.Reaches (.step s) (p.enter index c) e path left) :
    Task.Encloses (.steps p index (s :: ss)) c journal := by
  intro e he path f more hwhere hpath
  cases p with
  | top => exact h e he path f more hwhere nofun
  | branch name =>
    obtain ⟨g, path, rfl⟩ := List.exists_cons_of_ne_nil (hpath rfl)
    obtain ⟨path', left, hreach⟩ := hreaches e he
    -- The first frame is that of the step which the sequence has gone to.
    have hframes : { branch := name, index } :: path' = g :: (path ++ f :: more) := by
      have hinside : c.position ++ (({ branch := name, index } : Frame) :: path').map Frame.toValue
          = c.position ++ (g :: (path ++ f :: more)).map Frame.toValue := by
        rw [← List.cons_append, ← hwhere, hreach.position]
        simp [Place.enter, Context.enter]
      exact Frame.map_toValue_inj.1 (List.append_cancel_left hinside)
    obtain ⟨rfl, rfl⟩ := List.cons.inj hframes
    have hinner := h e he path f more hreach.position nofun
    simpa [Place.enter, Context.enter] using hinner

theorem next {p : Place} {index : Int} {s : Step} {ss : List Step}
    (h : Task.Encloses (.steps p index (s :: ss)) c journal)
    (h' : Task.Encloses (.steps p (index + 1) ss) d journal') (hposition : d.position = c.position) :
    Task.Encloses (.steps p index (s :: ss)) c (journal ++ journal') := by
  intro e he path f more hwhere hpath
  rcases List.mem_append.1 he with he | he
  · exact (h e he path f more hwhere hpath).mono (List.subset_append_left _ _)
  · have hbranch : (Task.steps p (index + 1) ss).isBranch = true → path ≠ [] := by
      cases p <;> exact hpath
    have hlater := h' e he path f more (hposition ▸ hwhere) hbranch
    exact hposition ▸ hlater.mono (List.subset_append_right _ _)

end Task.Encloses

namespace Ran

variable {engine : Engine σ} {task : Task} {t u : Situation σ} {journal : List Start}
  {r : Except Raised Value}

/-- The branches in which a step of a run stands were entered by its containers. -/
theorem encloses (h : Ran engine task t journal r u) :
    task.Encloses t.context (task.opened t.context ++ journal) := by
  induction h with
  | unnamed => exact .nil _ _
  | completed _ _ ih => exact ih
  | failed _ _ _ ih | unreported _ _ _ ih => exact ih
  | action | refused | passed => exact .opened _ _
  | chosen hpath hselected _ _ hran ih =>
    exact ih.body ((Start.entered?_of_nil hpath).trans hselected) rfl rfl hran.reaches
  | again hpath hf _ _ _ hran ih =>
    exact ih.body (Start.entered?_of_cons hpath hf) rfl rfl hran.reaches
  | done => exact .nil _ _
  | broken hran ih => exact ih.first _ hran.reaches
  | stopped hran _ ih => exact ih.first _ hran.reaches
  | next hran _ _ ih ih' =>
    exact (ih.first _ hran.reaches).next ih' (Place.leave_keeps hran.keeps).position

end Ran

/-! ## Containers on the resume path -/

/-- Where the first step of a task is set to work. -/
def Task.entry (task : Task) (c : Context) : Context :=
  match task with
  | .step _ | .body _ => c
  | .steps p index _ => p.enter index c

/-- Where a container is entered again, the rest of the resume path leads on from its position. -/
theorem Ran.onPath {engine : Engine σ} {task : Task} {t u : Situation σ} {journal : List Start}
    {r : Except Raised Value} (h : Ran engine task t journal r u) :
    ∀ e ∈ task.opened t.context ++ journal, e.isFresh = false →
      e.context.currentStep = (task.entry t.context).currentStep ∧
        e.context.position ++ e.context.frames.map Frame.toValue
          = (task.entry t.context).position ++ t.context.frames.map Frame.toValue := by
  -- Where there is no path nothing is entered again.
  have hnone {task : Task} {t u : Situation σ} {journal : List Start} {r : Except Raised Value}
      (h : Ran engine task t journal r u) (hpath : t.context.resumePath = []) {P : Prop} {e : Start}
      (he : e ∈ task.opened t.context ++ journal) (hagain : e.isFresh = false) : P := by
    cases hagain.symm.trans (h.isFresh_of_nil hpath e he)
  induction h with
  | unnamed => exact List.forall_mem_nil _
  | completed _ _ ih => exact ih
  | failed _ _ _ ih | unreported _ _ _ ih => exact ih
  | action | refused | passed =>
    intro e he _
    cases List.mem_singleton.1 he
    exact ⟨rfl, rfl⟩
  | chosen hpath hselected hbranch hopening hran =>
    intro e he hagain
    exact hnone (.chosen hpath hselected hbranch hopening hran) hpath he hagain
  | @again s t _ d ds f _ _ _ _ hpath hf _ _ _ _ ih =>
    intro e he hagain
    cases he with
    | head => exact ⟨rfl, rfl⟩
    | tail _ he =>
      obtain ⟨hstep, hposition⟩ := ih e he hagain
      refine ⟨hstep, hposition.trans ?_⟩
      rw [Context.frames_of_cons hpath hf]
      simp [Task.entry, Place.enter, Context.enter, Situation.withPath, Context.frames]
  | done => exact List.forall_mem_nil _
  | @broken p index _ _ _ _ _ _ _ ih => simpa [Task.entry, Task.opened, Situation.change] using ih
  | @stopped p index _ _ _ _ _ _ _ _ ih => simpa [Task.entry, Task.opened, Situation.change] using ih
  | @next p index _ _ _ _ _ journal journal' _ _ hran _ hran' ih _ =>
    intro e he hagain
    rcases List.mem_append.1 (show e ∈ journal ++ journal' from he) with he | he
    · simpa [Task.entry, Situation.change] using ih e he hagain
    · exact hnone hran' (hran.leave_resumePath_eq_nil rfl p) he hagain

/-! ## Reports of branches -/

/-- The output is the container's report of a branch: a condition tells of the branch, a switch of the
case that it stands for and of what its subject is in the context. -/
def Step.Reports (s : Step) (c : Context) (branch : String) (output : Value) : Prop :=
  match s with
  | .action .. => False
  | .conditional .. =>
    output = .record [("condition", .bool (Value.str branch == .str Branch.thenName)),
      ("branch", .str branch)]
  | .switch _ subject _ _ =>
    ∃ v, Template.fill c subject = .ok v ∧
      output = .record [("value", v), ("matched_case", matchedCase (.str branch))]

/-- Where a container comes to a branch, its output reports that branch. -/
theorem Step.reports_of_opening {s : Step} {t u : Situation σ} {branch : String} {start : Int}
    {ss : List Step} {output : Value}
    (h : s.opening t = (.ok (.enter branch start ss output), u)) :
    s.Reports t.context branch output := by
  -- What an entry leads to reports the branch of the entry.
  have hopens {e : Entry} {given : Value} {o : Opening} (ho : e.opening s given = .ok o)
      (hgiven : ∀ name, e.branch = .str name → s.Reports t.context name given) :
      ∀ name start ss output, o = .enter name start ss output → s.Reports t.context name output := by
    intro name start ss output heq
    obtain ⟨name', _, _, hname, -, -, rfl⟩ := Entry.opening_eq_ok ho
    cases heq
    exact hgiven name hname
  have hends : StepM.wp s.opening
      (fun o _ => ∀ name start ss output, o = .enter name start ss output →
        s.Reports t.context name output) (fun _ _ => True) t := by
    cases s with
    | action =>
      rw [Step.opening, StepM.wp_pure]
      rintro name start ss output ⟨⟩
    | conditional name condition thenSteps elseSteps =>
      rw [Step.opening, StepM.wp_bind]
      refine StepLabel.wp_require ?_ fun _ => trivial
      rw [StepM.wp_bind]
      refine StepM.wp_of_forall (fun e _ => ?_) fun _ _ => trivial
      refine StepM.wp_lift.2 ⟨fun o ho => hopens ho fun name hname => ?_, fun _ _ => trivial⟩
      rw [hname]
      rfl
    | switch name subject cases default? =>
      rw [Step.opening, StepM.wp_bind]
      refine StepLabel.wp_require ?_ fun _ => trivial
      rw [StepM.wp_bind]
      refine StepM.wp_look.2 ⟨fun v hv => ?_, fun _ _ => trivial⟩
      rw [StepM.wp_bind]
      refine StepM.wp_of_forall (fun e? _ => ?_) fun _ _ => trivial
      cases e? with
      | none =>
        refine (StepM.wp_bind _ _).2 (StepM.wp_of_forall (fun _ _ => ?_) fun _ _ => trivial)
        rintro name start ss output ⟨⟩
      | some e =>
        refine StepM.wp_lift.2 ⟨fun o ho => hopens ho fun name hname => ?_, fun _ _ => trivial⟩
        rw [hname]
        exact ⟨v, hv, rfl⟩
  unfold StepM.wp at hends
  rw [h] at hends
  exact hends branch start ss output rfl

/-- The output is the report of the branch that was entered, if one was. -/
def Start.Gives (e : Start) (output : Value) : Prop :=
  ∀ branch, e.entered? = some branch → e.step.Reports e.context branch output

/-- What the entries tell of as completed is in the journal, and the output tells of the branch that was
entered; and all of the journal is told of so, as long as nothing has failed. -/
structure TellsOf (entries : List StepResult) (journal : List Start) (ok : Prop) : Prop where
  told : ∀ entry ∈ entries, entry.status = .completed →
    ∃ e ∈ journal, ∃ output, entry = e.step.label.completed output ∧ e.Gives output
  all : ok → ∀ e ∈ journal, ∃ output, e.step.label.completed output ∈ entries

namespace TellsOf

variable {entries entries' : List StepResult} {journal journal' : List Start} {ok ok' : Prop}

theorem nil (ok : Prop) : TellsOf [] [] ok := ⟨nofun, nofun⟩

theorem weaken (h : TellsOf entries journal ok) (hok : ok' → ok) : TellsOf entries journal ok' :=
  ⟨h.told, fun hok' => h.all (hok hok')⟩

theorem completed {e : Start} {output : Value} (h : TellsOf entries journal ok)
    (hgives : e.Gives output) :
    TellsOf (entries ++ [e.step.label.completed output]) (e :: journal) ok where
  told entry hentry hstatus := by
    rcases List.mem_append.1 hentry with hentry | hentry
    · obtain ⟨e', he', htold⟩ := h.told entry hentry hstatus
      exact ⟨e', .tail _ he', htold⟩
    · cases List.mem_singleton.1 hentry
      exact ⟨e, .head _, output, rfl, hgives⟩
  all hok e' he' := by
    cases he' with
    | head => exact ⟨output, List.mem_concat_self⟩
    | tail _ he' =>
      obtain ⟨output', hmem⟩ := h.all hok e' he'
      exact ⟨output', List.mem_append_left _ hmem⟩

theorem failed (h : TellsOf entries journal ok) (e : Start) (raised : Raised) (hfailed : ¬ ok') :
    TellsOf (entries ++ [e.step.label.failed raised]) (e :: journal) ok' where
  told entry hentry hstatus := by
    rcases List.mem_append.1 hentry with hentry | hentry
    · obtain ⟨e', he', htold⟩ := h.told entry hentry hstatus
      exact ⟨e', .tail _ he', htold⟩
    · cases List.mem_singleton.1 hentry
      cases hstatus
  all hok := absurd hok hfailed

theorem unreported (h : TellsOf entries journal ok) (e : Start) (hfailed : ¬ ok') :
    TellsOf entries (e :: journal) ok' where
  told entry hentry hstatus := by
    obtain ⟨e', he', htold⟩ := h.told entry hentry hstatus
    exact ⟨e', .tail _ he', htold⟩
  all hok := absurd hok hfailed

theorem append (h : TellsOf entries journal ok) (h' : TellsOf entries' journal' ok) :
    TellsOf (entries ++ entries') (journal ++ journal') ok where
  told entry hentry hstatus := by
    rcases List.mem_append.1 hentry with hentry | hentry
    · obtain ⟨e, he, htold⟩ := h.told entry hentry hstatus
      exact ⟨e, List.mem_append_left _ he, htold⟩
    · obtain ⟨e, he, htold⟩ := h'.told entry hentry hstatus
      exact ⟨e, List.mem_append_right _ he, htold⟩
  all hok e he := by
    rcases List.mem_append.1 he with he | he
    · obtain ⟨output, hmem⟩ := h.all hok e he
      exact ⟨output, List.mem_append_left _ hmem⟩
    · obtain ⟨output, hmem⟩ := h'.all hok e he
      exact ⟨output, List.mem_append_right _ hmem⟩

end TellsOf

namespace Ran

variable {engine : Engine σ} {task : Task} {t u : Situation σ} {journal : List Start}
  {r : Except Raised Value}

/-- A step that ends without an error gives a report of the branch that it has entered. -/
theorem gives {s : Step} {output : Value} (h : Ran engine (.body s) t journal r u)
    (hr : r = .ok output) : Start.Gives { step := s, context := t.context } output := by
  intro branch hentered
  cases h with
  | action hpath => cases (Start.entered?_of_nil hpath).symm.trans hentered
  | refused => cases hr
  | passed _ hpath hselected =>
    cases ((Start.entered?_of_nil hpath).trans hselected).symm.trans hentered
  | @chosen _ _ _ _ _ _ r _ hpath hselected _ hopening =>
    cases ((Start.entered?_of_nil hpath).trans hselected).symm.trans hentered
    cases r with
    | error e => cases hr
    | ok v =>
      cases hr
      exact Step.reports_of_opening hopening
  | @again _ _ _ _ _ _ _ _ r _ hpath hf _ _ hopening =>
    cases (Start.entered?_of_cons (e := { step := s, context := t.context }) hpath hf).symm.trans
      hentered
    cases r with
    | error e => cases hr
    | ok v =>
      cases hr
      exact Step.reports_of_opening hopening

/-- The entries that a run adds to the history account for what it has set to work. -/
theorem tellsOf (h : Ran engine task t journal r u) :
    ∃ added, u.context.results = t.context.results ++ added ∧
      TellsOf added journal (r.isOk = true) := by
  induction h with
  | unnamed => exact ⟨[], by simp, .nil _⟩
  | @completed s t _ _ output _ hbody ih =>
    obtain ⟨added, hadded, htells⟩ := ih
    refine ⟨added ++ [s.label.completed output], ?_, ?_⟩
    · simp [Situation.change, hadded, Situation.start]
    · exact htells.completed (e := { step := s, context := t.context }) (hbody.gives rfl)
  | unreported _ _ _ ih =>
    obtain ⟨added, hadded, htells⟩ := ih
    exact ⟨added, hadded, htells.unreported _ Bool.false_ne_true⟩
  | @failed s t _ _ e _ _ _ ih =>
    obtain ⟨added, hadded, htells⟩ := ih
    refine ⟨added ++ [s.label.failed e], ?_, ?_⟩
    · simp [Situation.change, hadded, Situation.start]
    · exact htells.failed { step := s, context := t.context } e Bool.false_ne_true
  | action _ hplaced hperform =>
    obtain ⟨-, eff, -, hctx, -⟩ := Engine.perform_ends hplaced hperform
    exact ⟨[], by simp [hctx, eff.apply_results], .nil _⟩
  | refused => exact ⟨[], by simp [Situation.withPath], .nil _⟩
  | passed => exact ⟨[], by simp, .nil _⟩
  | chosen _ _ _ _ _ ih =>
    obtain ⟨added, hadded, htells⟩ := ih
    exact ⟨added, hadded, htells.weaken fun hr => Checks.isOk_map ▸ hr⟩
  | again _ _ _ _ _ _ ih =>
    obtain ⟨added, hadded, htells⟩ := ih
    exact ⟨added, hadded, htells.weaken fun hr => Checks.isOk_map ▸ hr⟩
  | done => exact ⟨[], by simp, .nil _⟩
  | @broken p _ _ _ _ _ _ _ _ ih =>
    obtain ⟨added, hadded, htells⟩ := ih
    refine ⟨added, ?_, htells⟩
    simpa [Situation.change, p.leave_results, p.enter_results] using hadded
  | @stopped p _ _ _ _ _ _ _ _ _ ih =>
    obtain ⟨added, hadded, htells⟩ := ih
    refine ⟨added, ?_, htells.weaken fun _ => rfl⟩
    simpa [Situation.change, p.leave_results, p.enter_results] using hadded
  | @next p _ _ _ _ _ _ _ _ _ _ _ _ _ ih ih' =>
    obtain ⟨added, hadded, htells⟩ := ih
    obtain ⟨added', hadded', htells'⟩ := ih'
    refine ⟨added ++ added', ?_, ?_⟩
    · simp [hadded', Situation.change, p.leave_results, hadded, p.enter_results]
    · exact (htells.weaken fun _ => rfl).append htells'

end Ran

end Stepwise
