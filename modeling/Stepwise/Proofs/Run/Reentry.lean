-- SUMMARY: What a container does that is entered again: the rest of the branch that its frame names.
import Stepwise.Proofs.Run.Opening
import Stepwise.Proofs.Template.Data

/-!
# Entering again

A container that is entered again takes the next frame of the resume path and runs the rest
of the branch that the frame names. Its condition is not looked at. Only the subject of a
switch is filled once more, since the container reports it.
-/

namespace Stepwise

variable {σ : Type}

/-! ## Branches by name -/

section Branches

variable (engine : Engine σ)

/-- To pass over the first steps of a branch is to run the others. -/
theorem runFrom_skip (branch : String) (skip : Nat) (index : Int) (ss : List Step) :
    runFrom engine branch skip index ss = runFrom engine branch 0 (index + skip) (ss.drop skip) := by
  induction ss generalizing skip index with
  | nil => simp only [List.drop_nil, runFrom]
  | cons s rest ih =>
    cases skip with
    | zero => simp
    | succ k =>
      have hindex : index + ((k + 1 : Nat) : Int) = index + 1 + (k : Int) := by omega
      rw [runFrom, ih, List.drop_succ_cons, hindex]

theorem runCase_of_caseSteps? {cases : List (String × List Step)} {label : String} {ss : List Step}
    (h : Step.caseSteps? cases label = some ss) (skip : Nat) (index : Int) :
    runCase engine (Branch.ofCase label) skip index cases
      = runFrom engine (Branch.ofCase label) skip index ss := by
  induction cases with
  | nil => cases h
  | cons e rest ih =>
    obtain ⟨label', steps⟩ := e
    rw [Step.caseSteps?, List.find?_cons] at h
    rw [runCase]
    by_cases hlabel : label' = label
    · subst hlabel
      simp only [BEq.rfl, Option.map_some, Option.some.injEq] at h
      rw [if_pos rfl, h]
    · have hother : ¬ Branch.ofCase label = Branch.ofCase label' := by
        intro heq
        exact hlabel (Branch.ofCase_injective heq).symm
      rw [beq_false_of_ne hlabel] at h
      rw [if_neg hother]
      exact ih h

/-- A container that comes to a branch runs its steps from the one that it starts at. -/
theorem runStep_of_enter {s : Step} {t u : Situation σ} {name : String} {skip : Nat}
    {ss : List Step} {output : Value} (hname : s.name.isSpellable = true)
    (hbranch : s.branchNamed? name = some ss)
    (hopening : s.opening (t.start s) = (.ok (.enter name skip ss output), u)) :
    runStep engine s t
      = RunM.closed s.label (do runFrom engine name 0 skip (ss.drop skip); return output) u := by
  have hrun (branch : String → Nat → Int → RunM σ Unit)
      (h : branch name skip 0 = runFrom engine name skip 0 ss) :
      RunM.recorded s (do (← s.opening).run branch) t
        = RunM.closed s.label (do runFrom engine name 0 skip (ss.drop skip); return output) u := by
    rw [RunM.recorded_of_spellable hname, RunM.closed, bind_of_ok hopening]
    simp only [Opening.run, runPortion, Int.natCast_nonneg, if_true, Int.toNat_natCast, h]
    rw [runFrom_skip, Int.zero_add]
    rfl
  cases s with
  | action => cases hbranch
  | conditional =>
    rw [runStep]
    apply hrun
    simp only [Step.branchNamed?] at hbranch
    split at hbranch
    · rename_i hthen
      subst hthen
      cases hbranch
      rw [if_pos rfl]
    · rename_i hthen
      split at hbranch
      · rename_i helse
        subst helse
        cases hbranch
        rw [if_neg hthen]
      · cases hbranch
  | switch _ _ cases default? =>
    cases default? with
    | none =>
      rw [runStep]
      apply hrun
      obtain ⟨label, hlabel, hcase⟩ := Option.bind_eq_some_iff.1 hbranch
      cases Branch.eq_ofCase hlabel
      rw [if_neg (by simp)]
      exact runCase_of_caseSteps? engine hcase skip 0
    | some steps =>
      rw [runStep]
      apply hrun
      simp only [Step.branchNamed?] at hbranch
      split at hbranch
      · rename_i hdefault
        subst hdefault
        cases hbranch
        rw [if_pos (by simp), runDefault]
      · rename_i hdefault
        obtain ⟨label, hlabel, hcase⟩ := Option.bind_eq_some_iff.1 hbranch
        cases Branch.eq_ofCase hlabel
        rw [if_neg (by simp [hdefault])]
        exact runCase_of_caseSteps? engine hcase skip 0

end Branches

/-! ## Frames -/

/-- The container has what it needs to be entered again: a name that can be written out, as all texts
can, and a condition, or a subject that can be filled. -/
def Step.CanReenter (s : Step) (c : Context) : Prop :=
  s.name.isSpellable = true ∧
    match s with
    | .action .. => False
    | .conditional _ condition _ _ => StepLabel.isMissing condition = false
    | .switch _ subject _ _ =>
      StepLabel.isMissing subject = false ∧ (Template.fill c subject).isOk = true

/-- What a container reports that has been entered again at a branch. -/
def Step.reentered (s : Step) (c : Context) (branch : String) : Value :=
  match s with
  | .action .. => .null
  | .conditional .. =>
    .record [("condition", .bool (Value.str branch == .str Branch.thenName)), ("branch", .str branch)]
  | .switch _ subject _ _ =>
    let subject := (Template.fill c subject).toOption.getD .null
    .record [("value", subject), ("matched_case", matchedCase (.str branch))]

theorem StepM.entry_of_frame {α : Type} {again : Entry → α} {afresh : StepM σ α} {t : Situation σ}
    {d : Dict} {ds : List Dict} {e : Entry} (hpath : t.context.resumePath = d :: ds)
    (he : Entry.ofFrame d = .ok e) :
    StepM.entry again afresh t = (.ok (again e), t.withPath ds) := by
  have hpop : t.context.popFrame = (some d, { t.context with resumePath := ds }) := by
    simp [Context.popFrame, hpath]
  have hcontext : StepM.context t = (.ok t.context, t) := rfl
  rw [StepM.entry, bind_of_ok hcontext, hpop]
  simp only [bind_apply, StepM.change, StepM.lift, he]
  rfl

theorem Entry.opening_of_frame {e : Entry} {s : Step} {f : Frame} {ss : List Step} {output : Value}
    (hname : e.branch = .str f.branch) (hindex : e.index = .ok f.index)
    (hbranch : s.branchNamed? f.branch = some ss) :
    e.opening s output = .ok (.enter f.branch f.index ss output) := by
  have hsteps : s.branch e.branch = .ok ss := by simp [Step.branch, hname, hbranch]
  rw [Entry.opening, hsteps, Checks.ok_bind, hindex, Checks.ok_bind, hname]
  rfl

theorem StepLabel.require_of_given {label : StepLabel} {field : String} {v : Value}
    (h : isMissing v = false) : label.require (σ := σ) field v = pure v := by
  rw [require, if_neg (by simp [h])]

/-- A container that is entered again comes to what the entry of its frame leads to. -/
theorem Step.opening_of_entry {s : Step} {t : Situation σ} {d : Dict} {ds : List Dict} {e : Entry}
    {branch : String} (hcan : s.CanReenter t.context) (hpath : t.context.resumePath = d :: ds)
    (he : Entry.ofFrame d = .ok e) (hname : e.branch = .str branch) :
    s.opening t = StepM.lift (e.opening s (s.reentered t.context branch)) (t.withPath ds) := by
  match s with
  | .action .. => exact hcan.2.elim
  | .conditional .. =>
    rw [opening, StepLabel.require_of_given hcan.2, pure_bind, conditionalEntry]
    rw [bind_of_ok (StepM.entry_of_frame hpath he)]
    dsimp only [id]
    rw [hname]
    rfl
  | .switch _ subject _ _ =>
    obtain ⟨-, hgiven, hfills⟩ := hcan
    cases hv : Template.fill t.context subject with
    | error g => rw [hv] at hfills; cases hfills
    | ok v =>
      have hfilled : StepM.filled subject t = (.ok v, t) := by
        rw [StepM.filled, StepM.look, hv]
        rfl
      rw [opening, StepLabel.require_of_given hgiven, pure_bind, bind_of_ok hfilled, switchChoice?]
      rw [bind_of_ok (StepM.entry_of_frame hpath he)]
      have hnull : e.branch.isNull = false := by rw [hname]; rfl
      simp only [hnull, Bool.false_eq_true, if_false]
      rw [hname, reentered, hv]
      rfl

/-- A container that is entered again comes to the branch that its frame names. -/
theorem Step.opening_of_frame {s : Step} {t : Situation σ} {d : Dict} {ds : List Dict} {f : Frame}
    {ss : List Step} (hcan : s.CanReenter t.context) (hpath : t.context.resumePath = d :: ds)
    (hf : Frame.ofDict? d = some f) (hbranch : s.branchNamed? f.branch = some ss) :
    s.opening t
      = (.ok (.enter f.branch f.index ss (s.reentered t.context f.branch)), t.withPath ds) := by
  obtain ⟨e, he, hname, hindex⟩ := Frame.ofDict?_eq_some.1 hf
  rw [Step.opening_of_entry hcan hpath he hname, Entry.opening_of_frame hname hindex hbranch]
  rfl

end Stepwise
