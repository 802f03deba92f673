-- SUMMARY: How a container comes to its branch: chosen afresh, or entered again at the next frame.
import Stepwise.Proofs.Run.WeakestPre
import Stepwise.Proofs.Step.Position

/-!
# Openings of containers

A container that is set to work without a resume path selects a branch by its condition or
subject and starts at its first step; a switch may select none. With a resume path it takes
the first frame off and starts where the frame says. Nothing else of the run changes.
-/

namespace Stepwise

variable {σ α : Type}

/-! ## Frames of a resume path -/

/-- The frame that a dictionary holds, if it names a branch by a text and a place by an integer. -/
def Frame.ofDict? (d : Dict) : Option Frame := do
  let e ← (Entry.ofFrame d).toOption
  let branch ← e.branch.str?
  let index ← e.index.toOption
  return { branch, index }

theorem Frame.ofDict?_eq_some {d : Dict} {f : Frame} :
    Frame.ofDict? d = some f ↔
      ∃ e, Entry.ofFrame d = .ok e ∧ e.branch = .str f.branch ∧ e.index = .ok f.index := by
  have str?_eq_some {v : Value} {text : String} : v.str? = some text ↔ v = .str text := by
    cases v <;> simp [Value.str?]
  have toOption_eq_some {ε β : Type} {x : Except ε β} {b : β} :
      x.toOption = some b ↔ x = .ok b := by
    cases x <;> simp [Except.toOption]
  obtain ⟨branch, index⟩ := f
  simp only [Frame.ofDict?, Option.bind_eq_bind, Option.bind_eq_some_iff, toOption_eq_some,
    str?_eq_some, Option.pure_def, Option.some.injEq, Frame.mk.injEq]
  constructor
  · rintro ⟨e, he, b, hb, n, hn, rfl, rfl⟩
    exact ⟨e, he, hb, hn⟩
  · rintro ⟨e, he, hb, hn⟩
    exact ⟨e, he, branch, hb, index, hn, rfl, rfl⟩

@[simp] theorem Frame.ofDict?_toDict (f : Frame) : Frame.ofDict? f.toDict = some f :=
  Frame.ofDict?_eq_some.2 ⟨{ branch := .str f.branch, start := .int f.index }, rfl, rfl, rfl⟩

theorem Frame.map_toValue_inj {fs gs : List Frame} :
    fs.map Frame.toValue = gs.map Frame.toValue ↔ fs = gs := by
  refine List.map_inj_right ?_
  intro f g h
  have hread := congrArg Frame.ofDict? (Value.dict.inj h)
  rwa [Frame.ofDict?_toDict, Frame.ofDict?_toDict, Option.some.injEq] at hread

namespace Context

def frames (c : Context) : List Frame := c.resumePath.filterMap Frame.ofDict?

def IsLegible (c : Context) : Prop := ∀ d ∈ c.resumePath, (Frame.ofDict? d).isSome = true

theorem frames_of_nil {c : Context} (h : c.resumePath = []) : c.frames = [] := by
  rw [frames, h]
  rfl

theorem frames_of_cons {c : Context} {d : Dict} {ds : List Dict} {f : Frame}
    (h : c.resumePath = d :: ds) (hd : Frame.ofDict? d = some f) :
    c.frames = f :: ds.filterMap Frame.ofDict? := by
  rw [frames, h, List.filterMap_cons_some hd]

theorem frames_of_map {c : Context} {fs : List Frame} (h : c.resumePath = fs.map Frame.toDict) :
    c.frames = fs := by
  have hsome : Frame.ofDict? ∘ Frame.toDict = some := funext Frame.ofDict?_toDict
  rw [frames, h, List.filterMap_map, hsome, List.filterMap_some]

theorem IsLegible.tail {c : Context} {d : Dict} {ds : List Dict} (hc : c.IsLegible)
    (h : c.resumePath = d :: ds) : { c with resumePath := ds }.IsLegible :=
  fun d' hd' => hc d' (h ▸ .tail _ hd')

theorem IsLegible.head {c : Context} {d : Dict} {ds : List Dict} (hc : c.IsLegible)
    (h : c.resumePath = d :: ds) : ∃ f, Frame.ofDict? d = some f :=
  Option.isSome_iff_exists.1 (hc d (h ▸ .head _))

theorem IsLegible.eq_nil {c : Context} (hc : c.IsLegible) (h : c.frames = []) :
    c.resumePath = [] := by
  cases hpath : c.resumePath with
  | nil => rfl
  | cons d ds =>
    obtain ⟨f, hf⟩ := hc.head hpath
    rw [frames_of_cons hpath hf] at h
    cases h

end Context

def Situation.withPath (t : Situation σ) (path : List Dict) : Situation σ :=
  { t with context := { t.context with resumePath := path } }

/-! ## Selection -/

/-- The branch that a container selects in a context, if it selects one. -/
def Step.selected? (c : Context) (s : Step) : Option String :=
  match s with
  | .action .. => none
  | .conditional _ condition _ _ =>
    match Template.evaluateValue c condition with
    | .ok holds => some (if holds then Branch.thenName else Branch.elseName)
    | .error _ => none
  | .switch _ subject _ _ =>
    match Template.fill c subject with
    | .ok v =>
      match subjectText? (c.settle v) with
      | .ok text? => (caseChoice? s text?).map (·.branch.text)
      | .error _ => none
    | .error _ => none

/-- How a container may be opened. -/
inductive Step.Opens (s : Step) (t : Situation σ) : Except Raised Opening → Situation σ → Prop
  | refused (e : Raised) (path : List Dict) : Opens s t (.error e) (t.withPath path)
  | passed (output : Value) :
    t.context.resumePath = [] → s.selected? t.context = none →
    Opens s t (.ok (.pass output)) t
  | chosen {branch : String} {steps : List Step} (output : Value) :
    t.context.resumePath = [] → s.selected? t.context = some branch →
    s.branchNamed? branch = some steps →
    Opens s t (.ok (.enter branch 0 steps output)) t
  | passedAgain {d : Dict} {ds : List Dict} (output : Value) :
    t.context.resumePath = d :: ds → Frame.ofDict? d = none →
    Opens s t (.ok (.pass output)) (t.withPath ds)
  | again {d : Dict} {ds : List Dict} {f : Frame} {steps : List Step} (output : Value) :
    t.context.resumePath = d :: ds → Frame.ofDict? d = some f →
    s.branchNamed? f.branch = some steps →
    Opens s t (.ok (.enter f.branch f.index steps output)) (t.withPath ds)

/-- Opening a container changes the resume path only, and what it enters is one of its branches. -/
theorem Step.Opens.enters {s : Step} {t u : Situation σ} {r : Except Raised Opening}
    (h : s.Opens t r u) : ∃ path, u = t.withPath path ∧
      ∀ name start ss output, r = .ok (.enter name start ss output) →
        s.branchNamed? name = some ss := by
  cases h with
  | refused e path => exact ⟨path, rfl, nofun⟩
  | passed output => exact ⟨t.context.resumePath, rfl, nofun⟩
  | chosen output hpath hsel hbranch =>
    refine ⟨t.context.resumePath, rfl, fun _ _ _ _ heq => ?_⟩
    cases heq
    exact hbranch
  | passedAgain output hpath hframe => exact ⟨_, rfl, nofun⟩
  | again output hpath hf hbranch =>
    refine ⟨_, rfl, fun _ _ _ _ heq => ?_⟩
    cases heq
    exact hbranch

/-! ## Entries -/

namespace StepM

variable {Q : α → Situation σ → Prop} {E : Raised → Situation σ → Prop} {t : Situation σ}

/-- What holds of work however it ends holds of the way it does end. -/
theorem ends_of_wp {m : StepM σ α} {P : Except Raised α → Situation σ → Prop}
    (h : wp m (fun a u => P (.ok a) u) (fun e u => P (.error e) u) t) : P (m t).1 (m t).2 := by
  unfold wp at h
  split at h <;> rename_i heq <;> simpa [heq] using h

theorem wp_entry_afresh {again : Entry → α} {afresh : StepM σ α}
    (h : t.context.resumePath = []) :
    wp (StepM.entry again afresh) Q E t ↔ wp afresh Q E t := by
  unfold StepM.entry
  rw [wp_bind, wp_context, Context.popFrame_nil h]
  exact Iff.rfl

theorem wp_entry_again {again : Entry → α} {afresh : StepM σ α} {d : Dict} {ds : List Dict}
    (h : t.context.resumePath = d :: ds) :
    wp (StepM.entry again afresh) Q E t ↔
      (∀ e, Entry.ofFrame d = .ok e → Q (again e) (t.withPath ds)) ∧
        ∀ f, Entry.ofFrame d = .error f → E (.fault f) (t.withPath ds) := by
  have hpop : t.context.popFrame = (some d, { t.context with resumePath := ds }) := by
    simp [Context.popFrame, h]
  unfold StepM.entry
  rw [wp_bind, wp_context, hpop]
  simp only [wp_bind, wp_change, wp_lift, wp_pure]
  exact Iff.rfl

end StepM

/-- The branch of a step is asked for by a text. -/
theorem Step.branch_eq_ok {s : Step} {branch : Value} {steps : List Step}
    (h : s.branch branch = .ok steps) :
    ∃ name, branch = .str name ∧ s.branchNamed? name = some steps := by
  unfold Step.branch at h
  split at h
  · split at h
    · rename_i name _ found heq
      exact ⟨name, rfl, Except.ok.inj h ▸ heq⟩
    · cases h
  · split at h <;> cases h

theorem Entry.opening_eq_ok {e : Entry} {s : Step} {output : Value} {o : Opening}
    (h : e.opening s output = .ok o) :
    ∃ branch index steps, e.branch = .str branch ∧ e.index = .ok index ∧
      s.branchNamed? branch = some steps ∧ o = .enter branch index steps output := by
  unfold Entry.opening at h
  cases hsteps : s.branch e.branch with
  | error f => rw [hsteps] at h; cases h
  | ok steps =>
    cases hindex : e.index with
    | error f => rw [hsteps, hindex] at h; cases h
    | ok index =>
      obtain ⟨branch, hbranch, hnamed⟩ := Step.branch_eq_ok hsteps
      rw [hsteps, hindex, hbranch] at h
      exact ⟨branch, index, steps, hbranch, rfl, hnamed, (Except.ok.inj h).symm⟩

namespace Step

variable {s : Step} {t : Situation σ}

/-- Opening the branch that was selected afresh. -/
private theorem opens_chosen {branch : String} (output : Value) (hpath : t.context.resumePath = [])
    (hsel : s.selected? t.context = some branch) :
    StepM.wp (StepM.lift ((Entry.afresh branch).opening s output))
      (fun o u => s.Opens t (.ok o) u) (fun e u => s.Opens t (.error e) u) t := by
  refine StepM.wp_lift.2 ⟨fun o ho => ?_, fun f _ => .refused (.fault f) t.context.resumePath⟩
  obtain ⟨b, i, steps, hb, hi, hsteps, rfl⟩ := Entry.opening_eq_ok ho
  cases hb
  cases hi
  exact .chosen output hpath hsel hsteps

/-- Opening the branch that a frame names. -/
private theorem opens_again {d : Dict} {ds : List Dict} {e : Entry} (output : Value)
    (hpath : t.context.resumePath = d :: ds) (he : Entry.ofFrame d = .ok e) :
    StepM.wp (StepM.lift (e.opening s output))
      (fun o u => s.Opens t (.ok o) u) (fun r u => s.Opens t (.error r) u) (t.withPath ds) := by
  refine StepM.wp_lift.2 ⟨fun o ho => ?_, fun f _ => .refused (.fault f) ds⟩
  obtain ⟨b, i, steps, hb, hi, hsteps, rfl⟩ := Entry.opening_eq_ok ho
  exact .again output hpath (Frame.ofDict?_eq_some (f := ⟨b, i⟩) |>.2 ⟨e, he, hb, hi⟩) hsteps

private theorem opening_conditional {name condition : Value} {thenSteps elseSteps : List Step} :
    StepM.wp (Step.conditional name condition thenSteps elseSteps).opening
      (fun o u => (Step.conditional name condition thenSteps elseSteps).Opens t (.ok o) u)
      (fun e u => (Step.conditional name condition thenSteps elseSteps).Opens t (.error e) u) t := by
  rw [opening, StepM.wp_bind]
  refine StepLabel.wp_require ?_ fun e => .refused e t.context.resumePath
  rw [StepM.wp_bind]
  unfold conditionalEntry
  cases hpath : t.context.resumePath with
  | nil =>
    rw [StepM.wp_entry_afresh hpath, StepM.wp_bind, StepM.wp_look]
    refine ⟨fun holds hholds => ?_, fun f _ => .refused (.fault f) t.context.resumePath⟩
    exact opens_chosen _ hpath (by simp [selected?, hholds])
  | cons d ds =>
    rw [StepM.wp_entry_again hpath]
    exact ⟨fun e he => opens_again _ hpath he, fun f _ => .refused (.fault f) ds⟩

/-- A switch that selects a branch enters it at its first step. -/
theorem caseChoice?_afresh {text? : Option String} {e : Entry} (h : caseChoice? s text? = some e) :
    ∃ branch, e = .afresh branch := by
  unfold caseChoice? at h
  split at h
  · split at h
    · exact ⟨_, (Option.some.inj h).symm⟩
    · split at h
      · exact ⟨_, (Option.some.inj h).symm⟩
      · cases h
  · cases h

private theorem opening_switch {name subject : Value} {cases : List (String × List Step)}
    {default? : Option (List Step)} :
    StepM.wp (Step.switch name subject cases default?).opening
      (fun o u => (Step.switch name subject cases default?).Opens t (.ok o) u)
      (fun e u => (Step.switch name subject cases default?).Opens t (.error e) u) t := by
  rw [opening, StepM.wp_bind]
  refine StepLabel.wp_require ?_ fun e => .refused e t.context.resumePath
  rw [StepM.wp_bind]
  refine StepM.wp_look.2 ⟨fun v hv => ?_, fun f _ => .refused (.fault f) t.context.resumePath⟩
  rw [StepM.wp_bind]
  unfold switchChoice?
  cases hpath : t.context.resumePath with
  | nil =>
    rw [StepM.wp_entry_afresh hpath, StepM.wp_bind]
    refine StepM.wp_look.2 ⟨fun w hw => ?_, fun _ h => by cases h⟩
    cases hw
    rw [StepM.wp_bind]
    refine StepM.wp_lift.2
      ⟨fun text? htext => ?_, fun f _ => .refused (.fault f) t.context.resumePath⟩
    rw [StepM.wp_pure]
    cases hentry : caseChoice? (.switch name subject cases default?) text? with
    | none =>
      change StepM.wp (StepM.spelled v >>= fun _ => pure (Opening.pass _)) _ _ t
      rw [StepM.wp_bind]
      refine StepM.wp_look.2 ⟨fun _ _ => ?_, fun f _ => .refused (.fault f) t.context.resumePath⟩
      exact .passed _ hpath (by simp [selected?, hv, htext, hentry])
    | some e =>
      obtain ⟨branch, rfl⟩ := caseChoice?_afresh hentry
      exact opens_chosen _ hpath (by simp [selected?, hv, htext, hentry, Entry.afresh])
  | cons d ds =>
    rw [StepM.wp_entry_again hpath]
    refine ⟨fun e he => ?_, fun f _ => .refused (.fault f) ds⟩
    cases hnull : e.branch.isNull with
    | true =>
      have hframe : Frame.ofDict? d = none := by
        refine Option.eq_none_iff_forall_ne_some.2 ?_
        intro f hf
        obtain ⟨e', he', hbranch, -⟩ := Frame.ofDict?_eq_some.1 hf
        cases he.symm.trans he'
        rw [hbranch] at hnull
        cases hnull
      change StepM.wp (StepM.spelled v >>= fun _ => pure (Opening.pass _)) _ _ (t.withPath ds)
      rw [StepM.wp_bind]
      refine StepM.wp_look.2 ⟨fun _ _ => ?_, fun f _ => .refused (.fault f) ds⟩
      exact .passedAgain _ hpath hframe
    | false => exact opens_again _ hpath he

/-- Where the next frame names its branch by a text, a container is opened or refused, and not passed. -/
theorem opening_ne_pass (hs : s.isAction = false) {d : Dict} {ds : List Dict} {branch : String}
    (hpath : t.context.resumePath = d :: ds) (hbranch : Dict.field? d "branch" = some (.str branch))
    (output : Value) : (s.opening t).1 ≠ .ok (.pass output) := by
  have hread {e : Entry} (he : Entry.ofFrame d = .ok e) : e.branch = .str branch := by
    unfold Entry.ofFrame at he
    rw [hbranch] at he
    split at he
    · rename_i hnamed _
      cases he
      exact (Option.some.inj hnamed).symm
    · cases he
  have hopened (e : Entry) (output' : Value) (u : Situation σ) :
      StepM.wp (StepM.lift (e.opening s output')) (fun o _ => o ≠ .pass output) (fun _ _ => True) u := by
    refine StepM.wp_lift.2 ⟨fun o ho => ?_, fun _ _ => trivial⟩
    obtain ⟨_, _, _, -, -, -, rfl⟩ := Entry.opening_eq_ok ho
    exact nofun
  have hends : StepM.wp s.opening (fun o _ => o ≠ .pass output) (fun _ _ => True) t := by
    cases s with
    | action => cases hs
    | conditional =>
      rw [opening, StepM.wp_bind]
      refine StepLabel.wp_require ?_ fun _ => trivial
      rw [StepM.wp_bind, conditionalEntry, StepM.wp_entry_again hpath]
      exact ⟨fun e _ => hopened e _ _, fun _ _ => trivial⟩
    | switch =>
      rw [opening, StepM.wp_bind]
      refine StepLabel.wp_require ?_ fun _ => trivial
      rw [StepM.wp_bind]
      refine StepM.wp_look.2 ⟨fun v _ => ?_, fun _ _ => trivial⟩
      rw [StepM.wp_bind, switchChoice?, StepM.wp_entry_again hpath]
      refine ⟨fun e he => ?_, fun _ _ => trivial⟩
      have hnamed : e.branch.isNull = false := by
        rw [hread he]
        rfl
      rw [hnamed]
      exact hopened e _ _
  intro hpass
  unfold StepM.wp at hends
  split at hends <;> rename_i heq <;> rw [heq] at hpass
  · exact hends (Except.ok.inj hpass)
  · cases hpass

/-- A container comes to its branch in one of the ways to open it. -/
theorem opening_opens (hs : s.isAction = false) (t : Situation σ) :
    s.Opens t (s.opening t).1 (s.opening t).2 := by
  apply StepM.ends_of_wp
  cases s with
  | action => cases hs
  | conditional => exact opening_conditional
  | switch => exact opening_switch

end Step

end Stepwise
