-- SUMMARY: Whatever is kept by each way of building work between steps holds of all that the engine runs.
import Stepwise.Proofs.Step.Order
import Stepwise.Run.Branching

/-!
# Induction over runs

The engine builds the work of a run in few ways: it records an action or a container, runs a
step at a place in a branch, and goes on with the rest of a sequence unless the run has
been stopped. What each of these ways upholds holds of every step and sequence, on every
resume path, whatever its frames hold.
-/

namespace Stepwise

variable {σ : Type}

/-- The property `P` of steps in sequence, and of the work that runs some of them, is upheld by every
way in which the engine builds work. -/
structure Engine.Upholds (engine : Engine σ) (P : ∀ {α : Type}, List Step → RunM σ α → Prop) : Prop where
  nothing : ∀ ss, P ss (pure () : RunM σ Unit)
  fault : ∀ ss f, P ss (StepM.lift (.error f) : RunM σ Unit)
  mono : ∀ {α : Type} {ss ss' : List Step} {m : RunM σ α}, ss ⊆ ss' → P ss m → P ss' m
  atStep : ∀ {ss : List Step} {m : RunM σ Unit} (index : Int),
    P ss m → P ss (RunM.change (·.atStep index) >>= fun _ => m)
  within : ∀ {ss : List Step} {m : RunM σ StepResult} (frame : Frame),
    P ss m → P ss (RunM.within frame m)
  andThen : ∀ {α : Type} {ss : List Step} {m : RunM σ α} {rest : RunM σ Unit},
    P ss m → P ss rest → P ss (m >>= fun _ => RunM.unlessStopped rest)
  action : ∀ name act, P [.action name act]
    (RunM.recorded (.action name act) (engine.perform (Step.action name act).label act))
  container : ∀ (s : Step) (branch : String → Nat → Int → RunM σ Unit), s.isAction = false →
    (∀ name start ss, s.branchNamed? name = some ss →
      P ss (runPortion start ss.length (branch name))) →
    P [s] (RunM.recorded s (s.opening >>= fun o => o.run branch))

/-- How the engine builds the work of a step: that of a container from the work of its branches, for which
the property holds. -/
inductive Engine.Builds (engine : Engine σ) (P : ∀ {α : Type}, List Step → RunM σ α → Prop) :
    Step → RunM σ StepResult → Prop
  | action (name : Value) (act : Action) :
    Builds engine P (.action name act)
      (RunM.recorded (.action name act) (engine.perform (Step.action name act).label act))
  | container {s : Step} {branch : String → Nat → Int → RunM σ Unit} :
    s.isAction = false →
    (∀ name start ss, s.branchNamed? name = some ss → P ss (runPortion start ss.length (branch name))) →
    Builds engine P s (RunM.recorded s (s.opening >>= fun o => o.run branch))

namespace Engine.Upholds

variable {engine : Engine σ} {P : ∀ {α : Type}, List Step → RunM σ α → Prop}

theorem of_builds (h : engine.Upholds P) {s : Step} {m : RunM σ StepResult} (hm : engine.Builds P s m) :
    P [s] m := by
  cases hm with
  | action name act => exact h.action name act
  | container hs hbranch => exact h.container _ _ hs hbranch

/-- A portion of a branch may be run in two passes. -/
theorem runPortion (h : engine.Upholds P) {ss : List Step} {steps : Nat → Int → RunM σ Unit}
    (hsteps : ∀ skip index, P ss (steps skip index)) (start : Int) (length : Nat) :
    P ss (runPortion start length steps) := by
  unfold Stepwise.runPortion
  split
  · exact hsteps _ _
  · split
    · exact h.fault ss _
    · exact h.andThen (hsteps _ _) (hsteps _ _)

mutual

theorem runStep_builds (h : engine.Upholds P) : (s : Step) → engine.Builds P s (runStep engine s)
  | .action name act => by
    rw [Stepwise.runStep]
    exact .action name act
  | .conditional name condition thenSteps elseSteps => by
    rw [Stepwise.runStep]
    refine .container rfl fun branch start ss hbranch => h.runPortion (fun skip index => ?_) _ _
    simp only [Step.branchNamed?] at hbranch
    split at hbranch
    · cases hbranch
      rw [if_pos ‹_›]
      exact h.runFrom _ skip index thenSteps
    · split at hbranch
      · cases hbranch
        rw [if_neg ‹_›]
        exact h.runFrom _ skip index elseSteps
      · cases hbranch
  | .switch name subject cases none => by
    rw [Stepwise.runStep]
    refine .container rfl fun branch start ss hbranch => h.runPortion (fun skip index => ?_) _ _
    obtain ⟨label, hlabel, hcase⟩ := Option.bind_eq_some_iff.1 hbranch
    cases Branch.eq_ofCase hlabel
    rw [if_neg (by simp)]
    exact h.runCase label ss skip index cases hcase
  | .switch name subject cases (some steps) => by
    rw [Stepwise.runStep]
    refine .container rfl fun branch start ss hbranch => h.runPortion (fun skip index => ?_) _ _
    simp only [Step.branchNamed?] at hbranch
    split at hbranch
    · cases hbranch
      rw [if_pos (by simp [*]), runDefault]
      exact h.runFrom _ skip index steps
    · obtain ⟨label, hlabel, hcase⟩ := Option.bind_eq_some_iff.1 hbranch
      cases Branch.eq_ofCase hlabel
      rw [if_neg (by simp [*])]
      exact h.runCase label ss skip index cases hcase

theorem runCase (h : engine.Upholds P) (label : String) (ss : List Step) (skip : Nat) (index : Int) :
    (cases : List (String × List Step)) → Step.caseSteps? cases label = some ss →
      P ss (runCase engine (Branch.ofCase label) skip index cases)
  | [], hcase => by cases hcase
  | (label', steps) :: rest, hcase => by
    rw [Stepwise.runCase]
    rw [Step.caseSteps?, List.find?_cons] at hcase
    by_cases hlabel : label' = label
    · subst hlabel
      simp only [BEq.rfl, Option.map_some, Option.some.injEq] at hcase
      subst hcase
      rw [if_pos rfl]
      exact h.runFrom _ skip index steps
    · have hother : ¬ Branch.ofCase label = Branch.ofCase label' :=
        fun heq => hlabel (Branch.ofCase_injective heq).symm
      rw [beq_false_of_ne hlabel] at hcase
      rw [if_neg hother]
      exact h.runCase label ss skip index rest hcase

theorem runFrom (h : engine.Upholds P) (branch : String) (skip : Nat) (index : Int) :
    (ss : List Step) → P ss (runFrom engine branch skip index ss)
  | [] => by
    rw [Stepwise.runFrom]
    exact h.nothing []
  | s :: rest => by
    cases skip with
    | succ k =>
      rw [Stepwise.runFrom]
      exact h.mono (List.subset_cons_self s rest) (h.runFrom branch k (index + 1) rest)
    | zero =>
      rw [Stepwise.runFrom]
      have hstep := h.of_builds (h.runStep_builds s)
      refine h.andThen (h.within _ (h.mono ?_ hstep)) (h.mono (List.subset_cons_self s rest) ?_)
      · exact List.cons_subset_cons s (List.nil_subset rest)
      · exact h.runFrom branch 0 (index + 1) rest

end

theorem runStep (h : engine.Upholds P) (s : Step) : P [s] (runStep engine s) :=
  h.of_builds (h.runStep_builds s)

/-- The steps of a workflow, from any of them on. -/
theorem runAll (h : engine.Upholds P) (index : Int) (ss : List Step) :
    P ss (runAll engine index ss) := by
  induction ss generalizing index with
  | nil => exact h.nothing []
  | cons s rest ih =>
    rw [Stepwise.runAll]
    refine h.atStep index (h.andThen (h.mono ?_ (h.runStep s)) ?_)
    · exact List.cons_subset_cons s (List.nil_subset rest)
    · exact h.mono (List.subset_cons_self s rest) (ih (index + 1))

end Engine.Upholds

end Stepwise
