-- SUMMARY: Resuming inside branches is to finish them from the innermost out, and then to go on.
import Stepwise.Proofs.Resume.Saved
import Stepwise.Proofs.Run.Reentry

/-!
# Continuations

A resume path leads through containers into a branch. What a run does that is resumed there
can be told without the path: it finishes the branches that the path leads into, one after
the other from the innermost out, each with the steps that are left in it and with the
record of its container, and then it goes on behind the outermost container. From the first
of these steps on there is nothing left to enter again.
-/

namespace Stepwise

variable {σ : Type}

/-! ## Levels -/

/-- A branch that a run is in: its container with the output that it will give, and the steps that are
left in the branch, the first of which has the given index. -/
structure Level where
  container : Step
  output : Value
  branch : String
  index : Int
  left : List Step

/-- The branches that a path leads into within a container, innermost first. The step that a frame leads
to is left in its branch only if the path ends there. -/
def levels (c : Context) : List Frame → Step → List Level
  | [], _ => []
  | f :: fs, s =>
    let steps := (s.branchNamed? f.branch).getD []
    let index := if fs.isEmpty then f.index else f.index + 1
    let inner := match steps[f.index.toNat]? with
      | some next => levels c fs next
      | none => []
    inner ++ [{
      container := s
      output := s.reentered c f.branch
      branch := f.branch
      index
      left := steps.drop index.toNat }]

/-- The starts of the containers that a path leads through, outermost first. -/
def reentries : List Frame → Step → Context → List Start
  | [], _, _ => []
  | f :: fs, s, c =>
    let steps := (s.branchNamed? f.branch).getD []
    { step := s, context := c } ::
      match steps[f.index.toNat]? with
      | some next => reentries fs next ({ c with resumePath := c.resumePath.tail }.enter f.toValue)
      | none => []

/-- The situation in the innermost container of a path, once all of its frames have been taken. -/
def Situation.inside (t : Situation σ) (fs : List Frame) (s : Step) : Situation σ where
  context := { t.context with
    resumePath := []
    position := t.context.position ++ fs.dropLast.map Frame.toValue }
  outside := t.outside
  started := t.started ++ reentries fs s t.context

/-! ## Unwinding -/

/-- Add the end of a container to the history, after its branch has ended so. What the branch has raised
has to be written out for that. -/
def Level.close (l : Level) (p : Except Raised Unit × Situation σ) :
    Except Raised Unit × Situation σ :=
  match p with
  | (.ok (), t) => (.ok (), t.change (·.record (l.container.label.completed l.output)))
  | (.error e, t) =>
    match e.spell with
    | .ok _ => (.error (.step (l.container.label.claim e)), t.change (·.record (l.container.label.failed e)))
    | .error crash => (.error crash.raised, t)

/-- Run the steps that are left in a branch, unless what is inside it has raised something or has
stopped the run, and close the container. -/
def Level.finish (engine : Engine σ) (l : Level) (r : Except Raised Unit) (t : Situation σ) :
    Except Raised Unit × Situation σ :=
  l.close <| match r with
    | .ok () => RunM.unlessStopped (runFrom engine l.branch 0 l.index l.left) t
    | .error e => (.error e, t)

/-- Finish branches one after the other, from the innermost out. -/
def unwind (engine : Engine σ) : List Level → Except Raised Unit → Situation σ →
    Except Raised Unit × Situation σ
  | [], r, t => (r, t)
  | l :: ls, r, t =>
    let (r, t) := l.finish engine r t
    unwind engine ls r (t.change Context.leave)

/-- Finish branches, and then run the steps behind the outermost container. -/
def continueRun (engine : Engine σ) (ls : List Level) (index : Int) (rest : List Step)
    (t : Situation σ) : Except Raised Unit × Situation σ :=
  match unwind engine ls (.ok ()) t with
  | (.ok (), t) => RunM.unlessStopped (runAll engine index rest) t
  | (.error e, t) => (.error e, t)

theorem unwind_singleton (engine : Engine σ) (l : Level) (r : Except Raised Unit) (t : Situation σ) :
    unwind engine [l] r t = ((l.finish engine r t).1, (l.finish engine r t).2.change Context.leave) :=
  rfl

theorem unwind_append (engine : Engine σ) (ls ls' : List Level) (r : Except Raised Unit)
    (t : Situation σ) :
    unwind engine (ls ++ ls') r t
      = unwind engine ls' (unwind engine ls r t).1 (unwind engine ls r t).2 := by
  induction ls generalizing r t with
  | nil => rfl
  | cons l ls ih => exact ih _ _

theorem Level.closed_eq (l : Level) (body : RunM σ Unit) (t : Situation σ) :
    ((RunM.closed l.container.label (do body; return l.output) t).1.map fun _ => (),
        (RunM.closed l.container.label (do body; return l.output) t).2)
      = l.close (body t) := by
  rw [RunM.closed, bind_apply]
  rcases body t with ⟨e | v, u⟩
  · dsimp only [close]
    cases e.spell <;> rfl
  · rfl

/-! ## Entering again is unwinding -/

theorem Context.exists_frame {c : Context} {f : Frame} {fs : List Frame} (hc : c.IsLegible)
    (h : c.frames = f :: fs) :
    ∃ d ds, c.resumePath = d :: ds ∧ Frame.ofDict? d = some f ∧
      { c with resumePath := ds }.IsLegible ∧ { c with resumePath := ds }.frames = fs := by
  cases hpath : c.resumePath with
  | nil =>
    rw [frames_of_nil hpath] at h
    cases h
  | cons d ds =>
    obtain ⟨g, hg⟩ := hc.head hpath
    rw [frames_of_cons hpath hg] at h
    cases h
    exact ⟨d, ds, rfl, hg, hc.tail hpath, rfl⟩

theorem Step.CanReenter.congr {s : Step} {c d : Context} (h : s.CanReenter c) (hdata : c.SameData d) :
    s.CanReenter d := by
  refine ⟨h.1, ?_⟩
  cases s with
  | action name act => exact h.2
  | conditional => exact h.2
  | switch => exact ⟨h.2.1, Template.fill_agree _ (hdata.agreesOn _) ▸ h.2.2⟩

theorem Step.reentered_congr {c d : Context} (hdata : c.SameData d) (s : Step) (branch : String) :
    s.reentered c branch = s.reentered d branch := by
  cases s with
  | action name act => rfl
  | conditional => rfl
  | switch => rw [reentered, reentered, Template.fill_agree _ (hdata.agreesOn _)]

/-- The branch of a frame whose path ends there. -/
theorem levels_last {c : Context} {f : Frame} {s : Step} {ss : List Step}
    (hbranch : s.branchNamed? f.branch = some ss) :
    levels c [f] s = [{
      container := s
      output := s.reentered c f.branch
      branch := f.branch
      index := f.index
      left := ss.drop f.index.toNat }] := by
  simp only [levels, hbranch, Option.getD_some, List.isEmpty_nil, if_true]
  split <;> rfl

/-- The branch of a frame whose path goes on in the step that it leads to. -/
theorem levels_cons {c : Context} {f : Frame} {fs : List Frame} {s next : Step}
    {ss rest : List Step} (hbranch : s.branchNamed? f.branch = some ss) (hne : fs ≠ [])
    (hindex : 0 ≤ f.index) (hdrop : ss.drop f.index.toNat = next :: rest) :
    levels c (f :: fs) s = levels c fs next ++ [{
      container := s
      output := s.reentered c f.branch
      branch := f.branch
      index := f.index + 1
      left := rest }] := by
  have hempty : fs.isEmpty = false := List.isEmpty_eq_false_iff.2 hne
  have hnext : ss[f.index.toNat]? = some next := exists_drop_eq_cons.1 ⟨rest, hdrop⟩
  have hrest : ss.drop (f.index + 1).toNat = rest := by
    have hsucc : (f.index + 1).toNat = f.index.toNat + 1 := by omega
    rw [hsucc, ← List.drop_drop, hdrop]
    rfl
  simp only [levels, hbranch, Option.getD_some, hempty, Bool.false_eq_true, if_false, hnext, hrest]

theorem Situation.inside_last {t : Situation σ} {f : Frame} {s : Step} :
    t.inside [f] s = (t.start s).withPath [] := by
  have hstarts : reentries [f] s t.context = [{ step := s, context := t.context }] := by
    simp only [reentries]
    split <;> rfl
  rw [inside, hstarts]
  simp [withPath, start]

theorem Situation.inside_cons {t : Situation σ} {f : Frame} {fs : List Frame} {s next : Step}
    {ss rest : List Step} {d : Dict} {ds : List Dict} (hpath : t.context.resumePath = d :: ds)
    (hbranch : s.branchNamed? f.branch = some ss) (hne : fs ≠ [])
    (hdrop : ss.drop f.index.toNat = next :: rest) :
    t.inside (f :: fs) s
      = (((t.start s).withPath ds).change (Place.enter (.branch f.branch) f.index)).inside fs next := by
  have hnext : ss[f.index.toNat]? = some next := exists_drop_eq_cons.1 ⟨rest, hdrop⟩
  rw [inside, reentries]
  simp only [hbranch, Option.getD_some, hnext, hpath, List.tail_cons]
  rw [List.dropLast_cons_of_ne_nil hne, List.map_cons]
  simp [inside, withPath, start, change, Place.enter, Context.enter]

/-- A container that is entered again at a path finishes the branches that the path leads into. -/
theorem runStep_eq_unwind (engine : Engine σ) (c : Context) (fs : List Frame) (s : Step)
    (t : Situation σ) (hlegible : t.context.IsLegible) (hframes : t.context.frames = fs)
    (hne : fs ≠ []) (hadmits : s.Admits fs) (hdata : c.SameData t.context)
    (hcan : ∀ l ∈ levels c fs s, l.container.CanReenter c) (hgo : t.context.hasResult = false) :
    ((runStep engine s t).1.map fun _ => (), (runStep engine s t).2.change Context.leave)
      = unwind engine (levels c fs s) (.ok ()) (t.inside fs s) := by
  induction fs generalizing s t with
  | nil => exact absurd rfl hne
  | cons f fs ih =>
    obtain ⟨d, ds, hpath, hf, hlegible', hframes'⟩ := Context.exists_frame hlegible hframes
    obtain ⟨ss, hbranch, hindex, -, hrest⟩ := hadmits
    -- What the container does is told by the branch that it enters.
    have hstep (index : Int) (left : List Step) (hs : s.CanReenter c) :
        ((runStep engine s t).1.map fun _ => (), (runStep engine s t).2)
          = Level.close
              { container := s, output := s.reentered c f.branch, branch := f.branch, index, left }
              (runFrom engine f.branch 0 f.index (ss.drop f.index.toNat)
                ((t.start s).withPath ds)) := by
      obtain ⟨skip, hskip⟩ := Int.eq_ofNat_of_zero_le hindex
      have hopening := Step.opening_of_frame (t := t.start s) (hs.congr hdata) hpath hf hbranch
      have hsame : s.reentered (t.start s).context f.branch = s.reentered c f.branch :=
        (Step.reentered_congr hdata s f.branch).symm
      rw [hskip, hsame] at hopening
      rw [hskip, runStep_of_enter engine hs.1 hbranch hopening]
      exact Level.closed_eq { container := s, output := _, branch := f.branch, index, left } _ _
    cases fs with
    | nil =>
      have hds : ds = [] := hlegible'.eq_nil hframes'
      rw [levels_last hbranch] at hcan ⊢
      rw [Situation.inside_last, ← hds]
      have hlast := hstep f.index (ss.drop f.index.toNat) (hcan _ (.head _))
      have hgo' : ((t.start s).withPath ds).context.hasResult = false := hgo
      rw [unwind_singleton, Level.finish]
      dsimp only
      rw [RunM.unlessStopped_of_running hgo', ← hlast]
    | cons g gs =>
      obtain ⟨next, rest, hdrop, hnext⟩ := hrest.resolve_left (List.cons_ne_nil g gs)
      rw [levels_cons hbranch (List.cons_ne_nil g gs) hindex hdrop] at hcan ⊢
      rw [Situation.inside_cons hpath hbranch (List.cons_ne_nil g gs) hdrop, unwind_append]
      have hinner := ih next
        (((t.start s).withPath ds).change (Place.enter (.branch f.branch) f.index))
        hlegible' hframes' (List.cons_ne_nil g gs) hnext
        ⟨hdata.inputs, hdata.bindings, hdata.logs, hdata.results⟩
        (fun l hl => hcan l (List.mem_append_left _ hl)) hgo
      have hlast := hstep (f.index + 1) rest (hcan _ (List.mem_append_right _ (.head _)))
      rw [hdrop, runFrom, bind_apply, RunM.within_apply] at hlast
      rw [← hinner, unwind_singleton]
      unfold Level.finish
      generalize runStep engine next
        (((t.start s).withPath ds).change (Place.enter (.branch f.branch) f.index)) = p at hlast ⊢
      obtain ⟨_ | _, u⟩ := p
      · exact congrArg (fun p => (p.1, p.2.change Context.leave)) hlast
      · exact congrArg (fun p => (p.1, p.2.change Context.leave)) hlast

/-! ## Nothing is left to enter again -/

/-- Whatever has been set to work since a situation has been begun afresh, and unless something has been
raised there is still nothing to enter again. -/
structure Situation.GoesOn (t : Situation σ) (p : Except Raised Unit × Situation σ) : Prop where
  started : ∃ later, p.2.started = t.started ++ later ∧ ∀ e ∈ later, e.isFresh = true
  placed : p.2.context.IsPlaced
  resumePath : p.1.isOk = true → p.2.context.resumePath = []

namespace Situation.GoesOn

variable {t : Situation σ} {p q : Except Raised Unit × Situation σ}

theorem refl (r : Except Raised Unit) (hplaced : t.context.IsPlaced)
    (hpath : r.isOk = true → t.context.resumePath = []) : t.GoesOn (r, t) where
  started := ⟨[], (List.append_nil _).symm, nofun⟩
  placed := hplaced
  resumePath := hpath

theorem trans (h : t.GoesOn p) (h' : p.2.GoesOn q) : t.GoesOn q where
  started := by
    obtain ⟨later, hstarted, hfresh⟩ := h.started
    obtain ⟨later', hstarted', hfresh'⟩ := h'.started
    refine ⟨later ++ later', ?_, ?_⟩
    · rw [hstarted', hstarted, List.append_assoc]
    · intro e he
      rcases List.mem_append.1 he with he | he
      · exact hfresh e he
      · exact hfresh' e he
  placed := h'.placed
  resumePath := h'.resumePath

/-- Steps in sequence go on so. -/
theorem of_ranTo {engine : Engine σ} {place : Place} {index : Int} {ss : List Step}
    (h : Task.RanTo (.steps place index ss) engine t (giveNothing p)) (hplaced : t.context.IsPlaced)
    (hpath : t.context.resumePath = []) : t.GoesOn p := by
  obtain ⟨journal, hran⟩ := h
  refine ⟨⟨journal, hran.started_eq, ?_⟩, hran.keeps.isPlaced hplaced, ?_⟩
  · intro e he
    exact hran.isFresh_of_nil hpath e he
  · intro hok
    refine hran.resumePath_eq_nil ?_
    obtain ⟨_ | _, u⟩ := p
    · cases hok
    · rfl

theorem unlessStopped {rest : RunM σ Unit} (h : t.GoesOn (rest t)) (hplaced : t.context.IsPlaced)
    (hpath : t.context.resumePath = []) : t.GoesOn (RunM.unlessStopped rest t) := by
  unfold RunM.unlessStopped
  split
  · exact refl _ hplaced fun _ => hpath
  · exact h

theorem close (h : t.GoesOn p) (l : Level) : t.GoesOn (l.close p) := by
  obtain ⟨e | _, u⟩ := p
  · unfold Level.close
    dsimp only
    split
    · exact ⟨h.started, h.placed, nofun⟩
    · exact ⟨h.started, h.placed, nofun⟩
  · exact ⟨h.started, h.placed, h.resumePath⟩

theorem leave (h : t.GoesOn p) : t.GoesOn (p.1, p.2.change Context.leave) where
  started := h.started
  placed := by
    obtain ⟨frames, hframes⟩ := h.placed
    refine ⟨frames.dropLast, ?_⟩
    change p.2.context.position.dropLast = _
    rw [hframes, List.map_dropLast]
  resumePath := h.resumePath

end Situation.GoesOn

theorem Level.finish_goesOn (engine : Engine σ) (l : Level) (r : Except Raised Unit)
    (t : Situation σ) (hplaced : t.context.IsPlaced)
    (hpath : r.isOk = true → t.context.resumePath = []) : t.GoesOn (l.finish engine r t) := by
  unfold finish
  apply Situation.GoesOn.close
  cases r with
  | error e => exact .refl _ hplaced nofun
  | ok v =>
    refine Situation.GoesOn.unlessStopped ?_ hplaced (hpath rfl)
    have hran := ran_runFrom engine l.left l.branch 0 l.index t (.of_nil (hpath rfl) hplaced)
    exact .of_ranTo hran hplaced (hpath rfl)

theorem unwind_goesOn (engine : Engine σ) (ls : List Level) (r : Except Raised Unit)
    (t : Situation σ) (hplaced : t.context.IsPlaced)
    (hpath : r.isOk = true → t.context.resumePath = []) : t.GoesOn (unwind engine ls r t) := by
  induction ls generalizing r t with
  | nil => exact .refl r hplaced hpath
  | cons l ls ih =>
    have hfinish := (l.finish_goesOn engine r t hplaced hpath).leave
    exact hfinish.trans (ih _ _ hfinish.placed hfinish.resumePath)

theorem continueRun_goesOn (engine : Engine σ) (ls : List Level) (index : Int) (rest : List Step)
    (t : Situation σ) (hplaced : t.context.IsPlaced) (hpath : t.context.resumePath = []) :
    t.GoesOn (continueRun engine ls index rest t) := by
  have hunwind := unwind_goesOn engine ls (.ok ()) t hplaced fun _ => hpath
  unfold continueRun
  generalize unwind engine ls (.ok ()) t = p at hunwind ⊢
  obtain ⟨_ | _, u⟩ := p
  · exact hunwind
  · refine hunwind.trans (Situation.GoesOn.unlessStopped ?_ hunwind.placed (hunwind.resumePath rfl))
    have hran := ran_runAll engine rest index u (.of_nil (hunwind.resumePath rfl) hunwind.placed)
    exact .of_ranTo hran hunwind.placed (hunwind.resumePath rfl)

/-! ## Resumed runs -/

namespace Workflow

/-- The branches that the resume path of a run leads into, innermost first. -/
def levels (w : Workflow) (start : Int) (c : Context) : List Level :=
  match w.steps[start.toNat]? with
  | some s => Stepwise.levels c c.frames s
  | none => []

/-- The starts of the containers that a run enters again, outermost first. -/
def reentries (w : Workflow) (start : Int) (c : Context) : List Start :=
  match w.steps[start.toNat]? with
  | some s => Stepwise.reentries c.frames s (c.atStep start)
  | none => []

/-- Where a run is once it has taken all the frames of its resume path. -/
def inside (w : Workflow) (start : Int) (c : Context) (outside : σ) : Situation σ where
  context := { c with
    currentStep := .int start
    position := c.frames.dropLast.map Frame.toValue
    resumePath := [] }
  outside
  started := w.reentries start c

/-- What a run does that is resumed inside a step: it finishes the branches that its path leads into,
and then runs the steps behind that one. -/
def continued (engine : Engine σ) (w : Workflow) (start : Int) (c : Context) (outside : σ) :
    Except Raised Unit × Situation σ :=
  continueRun engine (w.levels start c) (start + 1) (w.steps.drop (start + 1).toNat)
    (w.inside start c outside)

end Workflow

/-- The containers that are entered again are those of the path, each at the branch of its frame. -/
theorem levels_of_admits {c d : Context} {fs : List Frame} {s : Step} (h : s.Admits fs) :
    (levels c fs s).map Level.branch = (fs.map Frame.branch).reverse ∧
      (reentries fs s d).map Start.step = ((levels c fs s).map Level.container).reverse := by
  induction fs generalizing s d with
  | nil => exact ⟨rfl, rfl⟩
  | cons f fs ih =>
    obtain ⟨ss, hbranch, hindex, -, hrest⟩ := h
    cases fs with
    | nil =>
      rw [levels_last hbranch, reentries]
      refine ⟨rfl, ?_⟩
      split <;> rfl
    | cons g gs =>
      obtain ⟨next, rest, hdrop, hnext⟩ := hrest.resolve_left (List.cons_ne_nil g gs)
      have hat : ss[f.index.toNat]? = some next := exists_drop_eq_cons.1 ⟨rest, hdrop⟩
      rw [levels_cons hbranch (List.cons_ne_nil g gs) hindex hdrop, reentries]
      simp only [hbranch, Option.getD_some, hat]
      refine ⟨?_, ?_⟩
      · rw [List.map_append, (ih (d := d) hnext).1]
        exact List.reverse_cons.symm
      · rw [List.map_cons, (ih hnext).2, List.map_append, List.reverse_append]
        rfl

theorem Context.leave_of_nil {c : Context} (h : c.position = []) : c.leave = c := by
  rw [leave, h, List.dropLast_nil, ← h]

/-- A path that is given has frames. -/
theorem Prepared.frames_ne_nil {w : Workflow} {r : Request} {start : Int} {c : Context}
    (h : Prepared w r start c) (hint : r.HasIntegerPath) (hpath : r.resumePath.truthy = true) :
    c.frames ≠ [] := by
  intro hnil
  obtain ⟨path, hitems, hdicts⟩ := h.resumePath
  rw [(h.admits hint).1.eq_nil hnil, Checks.mapM_iff, List.map_nil, List.map_eq_nil_iff] at hdicts
  subst hdicts
  rw [Value.itemsIfAny, if_pos hpath] at hitems
  cases hvalue : r.resumePath with
  | str text =>
    rw [hvalue] at hitems hpath
    have htext : text.toList = [] := List.map_eq_nil_iff.1 (Except.ok.inj hitems)
    rw [String.toList_eq_nil_iff.1 htext] at hpath
    cases hpath
  | list vs | tuple vs =>
    rw [hvalue] at hitems hpath
    cases hitems
    cases hpath
  | dict entries =>
    rw [hvalue] at hitems hpath
    have hempty : entries = [] := List.map_eq_nil_iff.1 (Except.ok.inj hitems)
    rw [hempty] at hpath
    cases hpath
  | _ =>
    rw [hvalue] at hitems
    cases hitems

/-- The steps of a run that is resumed inside a step. -/
theorem Prepared.runAll_eq {w : Workflow} {r : Request} {start : Int} {c : Context}
    (h : Prepared w r start c) (hint : r.HasIntegerPath) (hne : c.frames ≠ [])
    (hcan : ∀ l ∈ w.levels start c, l.container.CanReenter c) (engine : Engine σ) (outside : σ) :
    runAll engine start (w.steps.drop start.toNat) { context := c, outside }
      = w.continued engine start c outside := by
  obtain ⟨hlegible, hadmitsIn⟩ := h.admits hint
  obtain ⟨s, rest, hdrop, hadmits⟩ := hadmitsIn.resolve_left hne
  have hat : w.steps[start.toNat]? = some s := exists_drop_eq_cons.1 ⟨rest, hdrop⟩
  have hrest : w.steps.drop (start + 1).toNat = rest := by
    have hsucc : (start + 1).toNat = start.toNat + 1 := by
      have := h.bounds.1
      omega
    rw [hsucc, ← List.drop_drop, hdrop]
    rfl
  let t : Situation σ := { context := c.atStep start, outside }
  have hlevels : w.levels start c = levels c c.frames s := by rw [Workflow.levels, hat]
  have hinside : w.inside start c outside = t.inside c.frames s := by
    rw [Workflow.inside, Workflow.reentries, hat]
    simp [Situation.inside, t, Context.atStep, h.startsRun.position]
  rw [hlevels] at hcan
  have hunwind := runStep_eq_unwind engine c c.frames s t hlegible rfl hne hadmits
    ⟨rfl, rfl, rfl, rfl⟩ hcan h.startsRun.running.hasResult
  -- A step of the workflow itself has no position to leave.
  have hready : Task.Ready (.step s) t.context := ⟨hlegible, ⟨[], h.startsRun.position⟩, hadmits⟩
  obtain ⟨journal, hran⟩ := ran_runStep engine s t hready.checked
  have hleave : (runStep engine s t).2.change Context.leave = (runStep engine s t).2 := by
    have hposition := hran.keeps.position.trans h.startsRun.position
    rw [Situation.change, Context.leave_of_nil hposition]
  rw [hleave] at hunwind
  have hchange : Situation.change { context := c, outside } (·.atStep start) = t := rfl
  rw [hdrop, runAll_cons, hchange]
  rw [Workflow.continued, continueRun, hlevels, hinside, hrest, ← hunwind]
  rcases runStep engine s t with ⟨_ | _, u⟩ <;> rfl

/-- A run that is resumed inside a step enters the containers on its path again, and nothing after
them. -/
theorem Prepared.journal_of_path {w : Workflow} {r : Request} {start : Int} {c : Context}
    (h : Prepared w r start c) (hint : r.HasIntegerPath) (hne : c.frames ≠ [])
    (hcan : ∀ l ∈ w.levels start c, l.container.CanReenter c) (engine : Engine σ) (outside : σ) :
    ∃ later, journal engine w r outside = w.reentries start c ++ later ∧
      ∀ e ∈ later, e.isFresh = true := by
  have hgoes : (w.inside start c outside).GoesOn (w.continued engine start c outside) :=
    continueRun_goesOn engine _ _ _ _ ⟨_, rfl⟩ rfl
  obtain ⟨later, hstarted, hfresh⟩ := hgoes.started
  refine ⟨later, ?_, hfresh⟩
  rw [journal, prepare_eq_ok.2 h]
  dsimp only
  rw [h.runAll_eq hint hne hcan engine outside]
  exact hstarted

/-- A run that is resumed on a path is the continuation that the path describes: it finishes the branches
that the path leads into, from the innermost out, and then runs the steps behind the container, whatever
the conditions of the containers now say; and nothing else is ever entered again. -/
theorem resumed_run_continues (engine : Engine σ) (w : Workflow) (r : Request) (outside : σ)
    (start : Int) (c : Context) (hprepare : prepare w r = .ok (start, c)) (hint : r.HasIntegerPath)
    (hpath : r.resumePath.truthy = true)
    (hcan : ∀ l ∈ w.levels start c, l.container.CanReenter c) :
    c.frames ≠ [] ∧ (w.levels start c).map Level.branch = (c.frames.map Frame.branch).reverse ∧
      run engine w r outside
        = (conclude w ((w.continued engine start c outside).1.map fun _ => .null)
            (w.continued engine start c outside).2.context,
          (w.continued engine start c outside).2.outside) ∧
      ∃ again later, journal engine w r outside = again ++ later ∧
        again.map Start.step = ((w.levels start c).map Level.container).reverse ∧
        ∀ e ∈ later, e.isFresh = true := by
  have h : Prepared w r start c := prepare_eq_ok.1 hprepare
  have hne : c.frames ≠ [] := h.frames_ne_nil hint hpath
  obtain ⟨s, rest, hdrop, hadmits⟩ := (h.admits hint).2.resolve_left hne
  have hat : w.steps[start.toNat]? = some s := exists_drop_eq_cons.1 ⟨rest, hdrop⟩
  obtain ⟨hbranches, hcontainers⟩ := levels_of_admits (c := c) (d := c.atStep start) hadmits
  obtain ⟨later, hjournal, hfresh⟩ := h.journal_of_path hint hne hcan engine outside
  refine ⟨hne, ?_, ?_, w.reentries start c, later, hjournal, ?_, hfresh⟩
  · rw [Workflow.levels, hat]
    exact hbranches
  · rw [h.run_eq, execute_eq_conclude, h.runAll_eq hint hne hcan engine outside]
    rfl
  · rw [Workflow.reentries, Workflow.levels, hat]
    exact hcontainers

/-- A workflow with a branch inside a branch. The conditions select neither of them. -/
def branchInBranch : Workflow where
  name := .str "report"
  steps := [
    .conditional (.str "outer") (.str "false") [
      .conditional (.str "inner") (.str "false") [
        .action (.str "first") (.log (.str "one")),
        .action (.str "second") (.log (.str "two"))] [],
      .action (.str "third") (.log (.str "three"))] [],
    .action (.str "last") (.log (.str "four"))]

/-- Where the inner branch has its second step. -/
def branchInBranch.path : List Frame :=
  [{ branch := "then", index := 0 }, { branch := "then", index := 1 }]

def branchInBranch.request : Request where
  resumePath := Context.pathValue (branchInBranch.path.map Frame.toDict)

def branchInBranch.context : Context where
  results := [Context.inputResult (.dict [])]
  workflowName := .str "report"
  resumePath := branchInBranch.path.map Frame.toDict

/-- The inner branch is finished first, then the outer one, and then the workflow. -/
theorem resumed_run_continues_in_branches :
    branchInBranch.request.HasIntegerPath ∧ branchInBranch.request.resumePath.truthy = true ∧
      prepare branchInBranch branchInBranch.request = .ok (0, branchInBranch.context) ∧
      (∀ l ∈ branchInBranch.levels 0 branchInBranch.context,
        l.container.CanReenter branchInBranch.context) ∧
      (journal ({} : Engine Unit) branchInBranch branchInBranch.request ()).map (·.step.name)
        = ["outer", "inner", "second", "third", "last"].map Value.str ∧
      ∃ again later, journal ({} : Engine Unit) branchInBranch branchInBranch.request ()
          = again ++ later ∧
        again.map Start.step
          = ((branchInBranch.levels 0 branchInBranch.context).map Level.container).reverse ∧
        ∀ e ∈ later, e.isFresh = true := by
  have hint : branchInBranch.request.HasIntegerPath := Request.hasIntegerPath_of_frames rfl
  have hprepare : prepare branchInBranch branchInBranch.request = .ok (0, branchInBranch.context) :=
    rfl
  have hcan : ∀ l ∈ branchInBranch.levels 0 branchInBranch.context,
      l.container.CanReenter branchInBranch.context := by
    intro l hl
    rcases List.mem_cons.1 hl with rfl | hl
    · exact ⟨rfl, rfl⟩
    · cases List.mem_singleton.1 hl
      exact ⟨rfl, rfl⟩
  have hcontinues := resumed_run_continues ({} : Engine Unit) branchInBranch branchInBranch.request
    () 0 branchInBranch.context hprepare hint rfl hcan
  exact ⟨hint, rfl, hprepare, hcan, by decide +kernel, hcontinues.2.2.2⟩

end Stepwise
