-- SUMMARY: What becomes of any resume path: refused, followed to its end, or broken at an index that is no integer.
import Stepwise.Proofs.Resume.Continuation
import Stepwise.Proofs.Resume.Refusal
import Stepwise.Proofs.Run.Raised
import Stepwise.Proofs.Step.Route
import Stepwise.Proofs.Workflow.Names

/-!
# Any resume path

The check reads the index of a frame as an integer, from a text or a float too, but a
container that is entered again takes the index as it stands. So a path that fits is
followed to its end if its indices are integers, and otherwise up to the first frame with
another index, where the container fails. A path that does not fit is refused before
anything has run, as a bad value unless one of its indices is infinite.
-/

namespace Stepwise

variable {σ : Type}

/-! ## Frames that are entered -/

/-- The container is entered at the frame: set to work in the context that it found, it comes to the
branch and the index that the frame names, and the frame is taken. -/
def Start.OpensAt (e : Start) (f : Frame) : Prop :=
  ∃ ss, e.step.branchNamed? f.branch = some ss ∧
    ∀ {σ : Type} (t : Situation σ), t.context = e.context →
      e.step.opening t
        = (.ok (.enter f.branch f.index ss (e.step.reentered e.context f.branch)),
          t.withPath e.context.resumePath.tail)

theorem Step.opensAt_of_frame {s : Step} {c : Context} {d : Dict} {ds : List Dict} {f : Frame}
    {ss : List Step} (hcan : s.CanReenter c) (hpath : c.resumePath = d :: ds)
    (hf : Frame.ofDict? d = some f) (hbranch : s.branchNamed? f.branch = some ss) :
    Start.OpensAt { step := s, context := c } f := by
  refine ⟨ss, hbranch, fun t ht => ?_⟩
  subst ht
  rw [Step.opening_of_frame hcan hpath hf hbranch, hpath]
  rfl

/-- The containers on a path are entered again in order, each at its frame. -/
theorem reentries_opensAt {fs : List Frame} {s : Step} {c : Context} (hlegible : c.IsLegible)
    (hframes : c.frames = fs) (hadmits : s.Admits fs) (hcan : ∀ x ∈ s.along fs, x.CanReenter c) :
    List.Forall₂ Start.OpensAt (reentries fs s c) fs := by
  induction fs generalizing s c with
  | nil => exact .nil
  | cons f fs ih =>
    obtain ⟨d, ds, hpath, hf, hlegible', hframes'⟩ := Context.exists_frame hlegible hframes
    obtain ⟨ss, hbranch, hindex, -, hrest⟩ := hadmits
    rw [Step.along_cons fs hbranch] at hcan
    have hopens := Step.opensAt_of_frame (hcan s (.head _)) hpath hf hbranch
    simp only [reentries, hbranch, Option.getD_some]
    refine .cons hopens ?_
    cases hat : ss[f.index.toNat]? with
    | none =>
      rcases hrest with rfl | ⟨next, rest, hdrop, -⟩
      · exact .nil
      · rw [exists_drop_eq_cons.1 ⟨rest, hdrop⟩] at hat
        cases hat
    | some next =>
      dsimp only
      obtain ⟨rest, hdrop⟩ := exists_drop_eq_cons.2 hat
      rw [hdrop, Step.alongOf] at hcan
      have hnext : next.Admits fs := by
        rcases hrest with rfl | ⟨next', rest', hdrop', hnext⟩
        · trivial
        · rw [hdrop] at hdrop'
          cases hdrop'
          exact hnext
      have htail : c.resumePath.tail = ds := by rw [hpath, List.tail_cons]
      rw [htail]
      refine ih (c := { c with resumePath := ds }.enter f.toValue) hlegible' hframes' hnext ?_
      exact fun x hx => (hcan x (.tail _ hx)).congr ⟨rfl, rfl, rfl, rfl⟩

/-- The containers whose branches a path leads into are those on its way. -/
theorem mem_along_of_levels {c : Context} {fs : List Frame} {s : Step} {l : Level}
    (h : l ∈ levels c fs s) : l.container ∈ s.along fs := by
  induction fs generalizing s with
  | nil => cases h
  | cons f fs ih =>
    rcases List.mem_append.1 h with h | h
    · cases hbranch : s.branchNamed? f.branch with
      | none =>
        simp only [hbranch, Option.getD_none, List.getElem?_nil] at h
        cases h
      | some ss =>
        simp only [hbranch, Option.getD_some] at h
        rw [Step.along_cons fs hbranch]
        cases hat : ss[f.index.toNat]? with
        | none =>
          rw [hat] at h
          cases h
        | some next =>
          rw [hat] at h
          obtain ⟨rest, hdrop⟩ := exists_drop_eq_cons.2 hat
          rw [hdrop]
          exact .tail _ (ih h)
    · cases List.mem_singleton.1 h
      exact .head _

/-! ## Frames that break -/

section Breaking

variable (engine : Engine σ)

/-- A container that cannot be opened fails. -/
theorem runStep_of_refused {s : Step} {t u : Situation σ} {e : Raised}
    (hname : s.name.isSpellable = true) (hs : s.isAction = false)
    (hopening : s.opening (t.start s) = (.error e, u)) (he : e.isSpellable = true) :
    runStep engine s t
      = (.error (.step (s.label.claim e)), u.change (·.record (s.label.failed e))) := by
  cases s with
  | action => cases hs
  | conditional | switch =>
    rw [runStep, RunM.recorded_of_spellable hname]
    exact RunM.closed_of_error (bind_of_error hopening) he

/-- A container fails with the step that its frame leads to. -/
theorem runStep_of_inner {s next : Step} {t u v : Situation σ} {f : Frame} {ss rest : List Step}
    {output : Value} {e : Raised} (hname : s.name.isSpellable = true)
    (hbranch : s.branchNamed? f.branch = some ss) (hindex : 0 ≤ f.index)
    (hdrop : ss.drop f.index.toNat = next :: rest)
    (hopening : s.opening (t.start s) = (.ok (.enter f.branch f.index ss output), u))
    (hinner : runStep engine next (u.change (Place.enter (.branch f.branch) f.index))
      = (.error e, v)) (he : e.isSpellable = true) :
    runStep engine s t
      = (.error (.step (s.label.claim e)),
        (v.change Context.leave).change (·.record (s.label.failed e))) := by
  obtain ⟨skip, hskip⟩ := Int.eq_ofNat_of_zero_le hindex
  rw [hskip] at hopening
  rw [runStep_of_enter engine hname hbranch hopening]
  refine RunM.closed_of_error (bind_of_error ?_) he
  have hskip' : skip = f.index.toNat := by omega
  subst hskip'
  rw [hdrop, runFrom, bind_apply, RunM.within_apply, ← hskip, hinner]
  rfl

/-- What a container fails with that takes an index as it stands that is no integer. -/
def Step.broken (s : Step) : StepError := s.label.claim (.fault .wrongType)

/-- A container does not open at an index that is no integer. -/
theorem Step.opening_of_otherIndex {s : Step} {t : Situation σ} {d : Dict} {ds : List Dict} {f : Frame}
    {ss : List Step} (hcan : s.CanReenter t.context) (hpath : t.context.resumePath = d :: ds)
    (hread : f.IsReadOf d) (hother : ¬ Frame.HasIntegerIndex (.dict d))
    (hbranch : s.branchNamed? f.branch = some ss) :
    s.opening t = (.error (.fault .wrongType), t.withPath ds) := by
  obtain ⟨hfield, v, hindex, -⟩ := hread
  have hv : v.isInteger = false := by
    rw [← Bool.not_eq_true]
    intro hv
    apply hother
    intro d' v' heq hindex'
    cases heq
    cases hindex.symm.trans hindex'
    exact hv
  have he : Entry.ofFrame d = .ok { branch := .str f.branch, start := v } := by
    rw [Entry.ofFrame, hfield, hindex]
  have hsteps : s.branch (.str f.branch) = .ok ss := by simp [Step.branch, hbranch]
  have hbad : Entry.index { branch := .str f.branch, start := v } = .error .wrongType := by
    cases v with
    | int | bool => cases hv
    | _ => rfl
  rw [Step.opening_of_entry hcan hpath he rfl, Entry.opening, hsteps, Checks.ok_bind, hbad]
  rfl

/-- An error of a step with a name is passed on as it is. -/
theorem StepLabel.claim_broken (label : StepLabel) {s : Step} (h : s.name.isNull = false) :
    label.claim (.step s.broken) = s.broken := by
  have hclaimed : s.broken.stepName.isNull = false := h
  rw [claim, if_neg (by simp [hclaimed])]

/-- A path is followed up to the first index that is no integer, where the container fails. -/
theorem runStep_of_otherIndex {front back : List Dict} {d : Dict} {fs gs : List Frame} {g : Frame}
    {s : Step} {t : Situation σ} (hpath : t.context.resumePath = front ++ d :: back)
    (hreads : List.Forall₂ Frame.IsReadOf fs front)
    (hint : ∀ e ∈ front, Frame.HasIntegerIndex (.dict e)) (hread : g.IsReadOf d)
    (hother : ¬ Frame.HasIntegerIndex (.dict d)) (hadmits : s.Admits (fs ++ g :: gs))
    (hcan : ∀ x ∈ s.along (fs ++ g :: gs), x.CanReenter t.context)
    (hnamed : ∀ x ∈ s.along (fs ++ g :: gs), x.name.isNull = false) :
    ∃ again x u, runStep engine s t = (.error (.step x.step.broken), u) ∧
      u.started = t.started ++ again ++ [x] ∧ u.outside = t.outside ∧
      List.Forall₂ Start.OpensAt again fs ∧ x.context.resumePath = d :: back ∧
      x.step.name.isNull = false ∧ (Raised.step x.step.broken).isSpellable = true := by
  induction hreads generalizing s t with
  | nil =>
    obtain ⟨ss, hbranch, -⟩ := hadmits
    rw [List.nil_append, Step.along_cons _ hbranch] at hcan hnamed
    have hs := hcan s (.head _)
    have hopening := Step.opening_of_otherIndex (t := t.start s) hs hpath hread hother hbranch
    refine ⟨[], { step := s, context := t.context }, _,
      runStep_of_refused engine hs.1 (Step.isAction_of_branchNamed? hbranch) hopening rfl, ?_, rfl, .nil,
      hpath, hnamed s (.head _), StepLabel.isSpellable_claim hs.1 rfl⟩
    rw [List.append_nil]
    rfl
  | @cons f e fs front hf _ ih =>
    obtain ⟨ss, hbranch, hindex, -, hrest⟩ := hadmits
    obtain ⟨next, rest, hdrop, hnext⟩ := hrest.resolve_left (by simp)
    rw [List.cons_append, Step.along_cons _ hbranch, hdrop] at hcan hnamed
    have hs := hcan s (.head _)
    have hframe := ResumePath.ofDict?_of_isReadOf hf (hint e (.head _))
    have hopening := Step.opening_of_frame (t := t.start s) hs hpath hframe hbranch
    obtain ⟨again, x, u, hrun, hstarted, houtside, hopens, hx, hname, hspellable⟩ :=
      ih (t := ((t.start s).withPath (front ++ d :: back)).change
          (Place.enter (.branch f.branch) f.index)) rfl
        (fun e' he' => hint e' (.tail _ he')) hnext
        (fun y hy => (hcan y (.tail _ hy)).congr ⟨rfl, rfl, rfl, rfl⟩)
        (fun y hy => hnamed y (.tail _ hy))
    have hfails := runStep_of_inner engine hs.1 hbranch hindex hdrop hopening hrun hspellable
    rw [StepLabel.claim_broken _ hname] at hfails
    refine ⟨{ step := s, context := t.context } :: again, x, _, hfails, ?_, houtside,
      .cons (Step.opensAt_of_frame hs hpath hframe hbranch) hopens, hx, hname, hspellable⟩
    have hbefore : t.started ++ [{ step := s, context := t.context }] ++ again ++ [x]
        = t.started ++ { step := s, context := t.context } :: again ++ [x] := by simp
    exact hstarted.trans hbefore

end Breaking

/-! ## What becomes of a path -/

section Runs

variable (engine : Engine σ) (w : Workflow) (r : Request) (outside : σ)

/-- The run is refused for its path, before anything has been set to work. -/
def Refused (path : List Dict) : Prop :=
  ∃ f, f.Refuses path ∧ run engine w r outside = (.error (.fault f), outside) ∧
    journal engine w r outside = []

/-- The run enters containers at the frames, from the outside in, and nothing is entered again later. -/
def Followed (fs : List Frame) : Prop :=
  ∃ again later, journal engine w r outside = again ++ later ∧
    List.Forall₂ Start.OpensAt again fs ∧ ∀ e ∈ later, e.isFresh = true

/-- The run enters containers at the frames, and then fails in the one that finds the rest of the path,
since it cannot take an index of that type. -/
def BrokenOff (fs : List Frame) (rest : List Dict) : Prop :=
  ∃ again x o, journal engine w r outside = again ++ [x] ∧ List.Forall₂ Start.OpensAt again fs ∧
    x.context.resumePath = rest ∧ run engine w r outside = (.ok o, outside) ∧
    o.verdict = .failed x.step.broken

end Runs

section Paths

variable {engine : Engine σ} {w : Workflow} {r : Request} {start : Int} {c : Context}
  {path : List Dict} {fs : List Frame}

theorem Request.hasIntegerPath_of_path (hpath : r.resumePath = Context.pathValue path)
    (hint : ∀ d ∈ path, Frame.HasIntegerIndex (.dict d)) : r.HasIntegerPath := by
  intro frames hframes
  rw [hpath] at hframes
  have heq : frames = path.map .dict := by
    cases path with
    | nil => exact (Except.ok.inj hframes).symm
    | cons d ds => exact (Except.ok.inj hframes).symm
  rw [heq]
  exact List.forall_mem_map.2 hint

theorem Workflow.WellNamed.isNull_eq_false (h : w.WellNamed) {s : Step} (hs : s ∈ w.nodes) :
    s.name.isNull = false := by
  have htruthy := h.truthy _ (Workflow.name_mem_names hs)
  cases hname : s.name with
  | null =>
    rw [hname] at htruthy
    cases htruthy
  | _ => rfl

theorem Workflow.mem_nodes_of_along {n : Nat} {x : Step} (h : x ∈ Step.alongOf fs (w.steps.drop n)) :
    x ∈ w.nodes :=
  ((Step.alongOf_sublist fs _).trans (Step.nodesOf_drop_sublist n w.steps)).subset h

/-- A path with integers for indices is followed. -/
theorem Prepared.followed (h : Prepared w r start { c with resumePath := path }) (hne : path ≠ [])
    (hpath : r.resumePath = Context.pathValue path) (hfits : w.Fits start fs path)
    (hint : ∀ d ∈ path, Frame.HasIntegerIndex (.dict d))
    (hcan : ∀ x ∈ Step.alongOf fs (w.steps.drop start.toNat), x.CanReenter c) (outside : σ) :
    Followed engine w r outside fs := by
  obtain ⟨hreads, s, rest, hdrop, hadmits⟩ := hfits
  have hat : w.steps[start.toNat]? = some s := exists_drop_eq_cons.1 ⟨rest, hdrop⟩
  obtain ⟨hlegible, hframes⟩ := ResumePath.filterMap_of_isReadOf hreads hint
  rw [hdrop] at hcan
  have hsome : fs ≠ [] := by
    rintro rfl
    cases hreads
    exact hne rfl
  have hlevels : ∀ l ∈ w.levels start { c with resumePath := path },
      l.container.CanReenter { c with resumePath := path } := by
    intro l hl
    rw [Workflow.levels, hat] at hl
    have hon := mem_along_of_levels hl
    rw [Context.frames, hframes] at hon
    exact (hcan _ hon).congr ⟨rfl, rfl, rfl, rfl⟩
  obtain ⟨later, hjournal, hfresh⟩ := h.journal_of_path (Request.hasIntegerPath_of_path hpath hint)
    (by rwa [Context.frames, hframes]) hlevels engine outside
  refine ⟨_, later, hjournal, ?_, hfresh⟩
  rw [Workflow.reentries, hat, Context.frames, hframes]
  exact reentries_opensAt (c := Context.atStep { c with resumePath := path } start) hlegible hframes
    hadmits fun x hx => (hcan x hx).congr ⟨rfl, rfl, rfl, rfl⟩

/-- A path is broken off at the first index that is no integer. -/
theorem Prepared.brokenOff (h : Prepared w r start { c with resumePath := path })
    (hfits : w.Fits start fs path) {front back : List Dict} {d : Dict}
    (hsplit : path = front ++ d :: back) (hint : ∀ e ∈ front, Frame.HasIntegerIndex (.dict e))
    (hother : ¬ Frame.HasIntegerIndex (.dict d))
    (hcan : ∀ x ∈ Step.alongOf fs (w.steps.drop start.toNat), x.CanReenter c) (outside : σ) :
    BrokenOff engine w r outside (fs.take front.length) (d :: back) := by
  obtain ⟨hreads, s, rest, hdrop, hadmits⟩ := hfits
  subst hsplit
  have hfront := List.forall₂_take_append fs front (d :: back) hreads
  have hback := List.forall₂_drop_append fs front (d :: back) hreads
  cases hrest : fs.drop front.length with
  | nil =>
    rw [hrest] at hback
    cases hback
  | cons g gs =>
    have hfs : fs.take front.length ++ g :: gs = fs := by rw [← hrest, List.take_append_drop]
    rw [hrest] at hback
    obtain ⟨hread, -⟩ := List.forall₂_cons.1 hback
    have hnamed : ∀ x ∈ Step.alongOf fs (w.steps.drop start.toNat), x.name.isNull = false :=
      fun x hx => (Workflow.wellNamed h.wellformed).isNull_eq_false (Workflow.mem_nodes_of_along hx)
    rw [hdrop] at hcan hnamed
    let t : Situation σ :=
      { context := { c with currentStep := .int start, resumePath := front ++ d :: back }, outside }
    obtain ⟨again, x, u, hrun, hstarted, houtside, hopens, hx, -, -⟩ :=
      runStep_of_otherIndex engine (t := t) (s := s) rfl hfront hint hread hother
        (hfs.symm ▸ hadmits) (hfs.symm ▸ fun y hy => (hcan y hy).congr ⟨rfl, rfl, rfl, rfl⟩)
        (hfs.symm ▸ hnamed)
    have hall : runAll engine start (w.steps.drop start.toNat)
        { context := { c with resumePath := front ++ d :: back }, outside }
          = (.error (.step x.step.broken), u) := by
      have hstart : Situation.change
          { context := { c with resumePath := front ++ d :: back }, outside } (·.atStep start) = t := rfl
      rw [hdrop, runAll_cons, hstart, hrun]
    refine ⟨again, x, .ofError w.name u.context x.step.broken, ?_, hopens, hx, ?_, rfl⟩
    · rw [journal, prepare_eq_ok.2 h]
      dsimp only
      rw [hall]
      exact hstarted
    · rw [h.run_eq, execute, hall]
      exact congrArg _ houtside

/-- A container that can be entered again and finds a frame is entered at it, if the indices are
integers. -/
theorem Prepared.opensAt_of_mem (h : Prepared w r start c) (hint : r.HasIntegerPath) {outside : σ}
    {e : Start} (he : e ∈ journal engine w r outside) (hcan : e.step.CanReenter e.context) {f : Frame}
    {gs : List Frame} (hframes : e.context.frames = f :: gs) : e.OpensAt f := by
  obtain ⟨q, u, -, hran⟩ := run_ran engine h hint outside
  have hready : Task.Ready (.step e.step) e.context := hran.ready_of_mem (h.ready hint) e he
  obtain ⟨d, ds, hpath, hf, -, -⟩ := Context.exists_frame hready.legible hframes
  have hadmits : e.step.Admits e.context.frames := hready.admits
  rw [hframes] at hadmits
  obtain ⟨ss, hbranch, -⟩ := hadmits
  exact Step.opensAt_of_frame hcan hpath hf hbranch

end Paths

/-- What a run does about the path that it is given: `start` and `c` are what it would start with
without one. -/
structure TakesPath (engine : Engine σ) (w : Workflow) (r : Request) (outside : σ) (start : Int)
    (c : Context) (path : List Dict) : Prop where
  /-- A path that does not fit is refused. -/
  refused : (∀ fs, ¬ w.Fits start fs path) → Refused engine w r outside path
  /-- A path that fits is accepted. -/
  accepted : ∀ fs, w.Fits start fs path → prepare w r = .ok (start, { c with resumePath := path })
  /-- If its indices are integers, no container fails because of the frame that it finds. -/
  opensAt : ∀ fs, w.Fits start fs path → (∀ d ∈ path, Frame.HasIntegerIndex (.dict d)) →
    ∀ e ∈ journal engine w r outside, e.step.CanReenter e.context →
      ∀ f gs, e.context.frames = f :: gs → e.OpensAt f
  /-- So it is followed to its end, unless a container lacks what it needs in order to be entered. -/
  followed : ∀ fs, w.Fits start fs path → (∀ d ∈ path, Frame.HasIntegerIndex (.dict d)) →
    (∀ x ∈ Step.alongOf fs (w.steps.drop start.toNat), x.CanReenter c) →
      Followed engine w r outside fs
  /-- Otherwise it is followed up to the first index that is no integer. -/
  brokenOff : ∀ fs, w.Fits start fs path → ∀ front d back, path = front ++ d :: back →
    (∀ e ∈ front, Frame.HasIntegerIndex (.dict e)) → ¬ Frame.HasIntegerIndex (.dict d) →
    (∀ x ∈ Step.alongOf fs (w.steps.drop start.toNat), x.CanReenter c) →
      BrokenOff engine w r outside (fs.take front.length) (d :: back)

/-- Whatever path of frames a run is given that could start without one: the path is refused before
anything is set to work, followed to its end, or broken off at the first index that is no integer. -/
theorem resume_path_taken (engine : Engine σ) (w : Workflow) (r : Request) (outside : σ) (start : Int)
    (c : Context) (path : List Dict)
    (hprepare : prepare w { r with resumePath := .null } = .ok (start, c))
    (hpath : r.resumePath = Context.pathValue path) (hne : path ≠ []) :
    TakesPath engine w r outside start c path := by
  obtain ⟨hrefused, haccepted⟩ := Workflow.prepare_of_path hprepare hpath
  have hstart : Workflow.startIndex r.startStep = .ok start := (prepare_eq_ok.1 hprepare).index
  have hlow : 0 ≤ start := (prepare_eq_ok.1 hprepare).bounds.1
  have hprepared (fs : List Frame) (hfits : w.Fits start fs path) :
      prepare w r = .ok (start, { c with resumePath := path }) := by
    apply haccepted
    rw [hpath]
    exact (Workflow.requirePath_eq_ok hstart hlow hne).2 ⟨fs, hfits⟩
  refine ⟨fun hmisfit => ?_, hprepared, fun fs hfits hint e he hcan f gs hframes => ?_,
    fun fs hfits hint hcan => ?_, fun fs hfits front d back hsplit hint hother hcan => ?_⟩
  · cases hcheck : w.requirePath r.startStep r.resumePath with
    | error f =>
      have herror := hrefused f hcheck
      rw [hpath] at hcheck
      refine ⟨f, Workflow.requirePath_refuses hstart hcheck hlow, run_of_error herror, ?_⟩
      rw [journal, herror]
    | ok v =>
      rw [hpath] at hcheck
      obtain ⟨fs, hfits⟩ := (Workflow.requirePath_eq_ok hstart hlow hne).1 hcheck
      exact absurd hfits (hmisfit fs)
  · exact (prepare_eq_ok.1 (hprepared fs hfits)).opensAt_of_mem
      (Request.hasIntegerPath_of_path hpath hint) he hcan hframes
  · exact (prepare_eq_ok.1 (hprepared fs hfits)).followed hne hpath hfits hint hcan outside
  · exact (prepare_eq_ok.1 (hprepared fs hfits)).brokenOff hfits hsplit hint hother hcan outside

/-- A workflow that takes a decision in which it tells two things. -/
def tellsTwice : Workflow where
  name := .str "w"
  steps := [.conditional (.str "c") (.str "true") [
    .action (.str "a") (.log (.str "one")),
    .action (.str "b") (.log (.str "two"))] []]

namespace tellsTwice

/-- The path of one frame that leads to the decision's steps at an index. -/
def path (index : Value) : List Dict :=
  [Dict.ofFields [("branch", .str Branch.thenName), ("index", index)]]

def request (index : Value) : Request where
  resumePath := Context.pathValue (path index)

/-- The context that a run without a path starts with. -/
def context : Context where
  results := [Context.inputResult (.dict [])]
  workflowName := .str "w"

def second : Frame := { branch := Branch.thenName, index := 1 }

theorem fits {index : Value} (hread : ResumePath.toInt index = .ok 1) :
    tellsTwice.Fits 0 [second] (path index) := by
  refine ⟨.cons ⟨rfl, index, rfl, hread⟩ .nil, _, _, rfl, _, rfl, by decide, by decide, .inl rfl⟩

theorem misfit {index : Value} {f : Fault} (hread : ResumePath.toInt index = .error f)
    (fs : List Frame) : ¬ tellsTwice.Fits 0 fs (path index) := by
  rintro ⟨hreads, -⟩
  cases hreads with
  | cons hframe _ =>
    obtain ⟨-, v, hindex, hread'⟩ := hframe
    cases hindex
    rw [hread] at hread'
    cases hread'

end tellsTwice

/-- The second step is gone to where the index is an integer, the decision fails where it is the text of
one, and the run is refused where it is infinite. -/
theorem resume_path_taken_in_decision :
    prepare tellsTwice {} = .ok (0, tellsTwice.context) ∧
      Followed ({} : Engine Unit) tellsTwice (tellsTwice.request (.int 1)) () [tellsTwice.second] ∧
      BrokenOff ({} : Engine Unit) tellsTwice (tellsTwice.request (.str "1")) () []
        (tellsTwice.path (.str "1")) ∧
      Refused ({} : Engine Unit) tellsTwice (tellsTwice.request (.float (.infinite false))) ()
        (tellsTwice.path (.float (.infinite false))) := by
  have htaken (index : Value) : TakesPath ({} : Engine Unit) tellsTwice (tellsTwice.request index) ()
      0 tellsTwice.context (tellsTwice.path index) :=
    resume_path_taken ({} : Engine Unit) tellsTwice (tellsTwice.request index) () 0
      tellsTwice.context (tellsTwice.path index) rfl rfl (List.cons_ne_nil _ _)
  have hcan : ∀ x ∈ Step.alongOf [tellsTwice.second] (tellsTwice.steps.drop (0 : Int).toNat),
      x.CanReenter tellsTwice.context := by
    intro x hx
    cases List.mem_singleton.1 hx
    exact ⟨rfl, rfl⟩
  refine ⟨rfl, (htaken _).followed _ (tellsTwice.fits rfl) ?_ hcan,
    (htaken _).brokenOff _ (tellsTwice.fits (by decide +kernel)) [] _ [] rfl nofun ?_ hcan,
    (htaken _).refused (tellsTwice.misfit rfl)⟩
  · intro d hd
    cases List.mem_singleton.1 hd
    intro d' v heq hindex
    cases heq
    cases hindex
    rfl
  · intro hint
    cases hint _ _ rfl rfl

/-- A path that is accepted can make the container fail that finds its frame, and a path that does not fit
can be refused with an overflow. -/
theorem accepted_path_broken_off :
    tellsTwice.Fits 0 [tellsTwice.second] (tellsTwice.path (.str "1")) ∧
      (∃ o, ∃ s ∈ tellsTwice.steps,
        run ({} : Engine Unit) tellsTwice (tellsTwice.request (.str "1")) () = (.ok o, ()) ∧
          o.verdict = .failed s.broken) ∧
      (∀ fs, ¬ tellsTwice.Fits 0 fs (tellsTwice.path (.float (.infinite false)))) ∧
      ∃ f, run ({} : Engine Unit) tellsTwice (tellsTwice.request (.float (.infinite false))) ()
          = (.error (.fault f), ()) ∧ f.kind = .overflow := by
  refine ⟨tellsTwice.fits (by decide +kernel), ?_, tellsTwice.misfit rfl, _, rfl, rfl⟩
  exact ⟨_, _, .head _, rfl, rfl⟩

end Stepwise
