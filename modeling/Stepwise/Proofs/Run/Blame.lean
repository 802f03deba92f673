-- SUMMARY: Under whose name an action fails: its own, or that of an error which it passes on from a collaborator.
import Stepwise.Proofs.Run.Raised
import Stepwise.Proofs.Value.Keys

/-!
# Blame

What a step reports itself goes under its name, and so does every fault, since the step
claims it. The one way to fail under another name is to pass on a step error that a
collaborator has raised under a name already. Three of the ten actions do that: the call of
a tool, and the two that ask for the rows of a template. The others make a failure of their
own of whatever they are answered with.
-/

namespace Stepwise

variable {σ : Type}

/-! ## What is raised -/

namespace StepLabel

/-- What was raised leaves the step at work under its name, or it is one of the errors `foreign`. -/
def Blames (label : StepLabel) (foreign : StepError → Prop) (raised : Raised) : Prop :=
  (label.claim raised).stepName = label.name ∨ ∃ e, raised = .step e ∧ foreign e

variable {label : StepLabel} {foreign : StepError → Prop}

theorem blames_fault (f : Fault) : label.Blames foreign (.fault f) := .inl rfl

theorem blames_crash (crash : Crash) : label.Blames foreign crash.raised := by
  cases crash <;> exact .inl rfl

/-- An error under the name of the step, or under none yet, is claimed. -/
theorem claim_stepName {e : StepError} (h : e.stepName = label.name ∨ e.stepName = .null) :
    (label.claim (.step e)).stepName = label.name := by
  rw [claim]
  split
  · rfl
  · rename_i hnamed
    rcases h with h | h
    · exact h
    · exact absurd (Value.isNull_iff.2 h) hnamed

/-- An error under another name stays as it is. -/
theorem claim_of_named {e : StepError} (h : e.stepName ≠ .null) : label.claim (.step e) = e :=
  if_neg (mt Value.isNull_iff.1 h)

theorem blames_ofStep {e : StepError} (h : e.stepName = label.name ∨ e.stepName = .null) :
    label.Blames foreign (.ofStep e) := by
  unfold Raised.ofStep
  split
  · exact .inl (claim_stepName h)
  · exact blames_crash _

/-- The error that leaves the step goes under its name, or it is one of the others as it was raised. -/
theorem Blames.claimed {raised : Raised} (h : label.Blames foreign raised) :
    (label.claim raised).stepName = label.name ∨ foreign (label.claim raised) := by
  rcases h with h | ⟨e, rfl, h⟩
  · exact .inl h
  · by_cases hnull : e.stepName = .null
    · exact .inl (claim_stepName (.inr hnull))
    · rw [claim_of_named hnull]
      exact .inr h

/-- Under a name that is one, what leaves the step has a name. -/
theorem claim_named (hname : label.name ≠ .null) (raised : Raised) :
    (label.claim raised).stepName ≠ .null := by
  cases raised with
  | fault f => exact hname
  | mute kind instead => exact hname
  | step e =>
    by_cases hnull : e.stepName = .null
    · rw [claim_stepName (.inr hnull)]
      exact hname
    · rw [claim_of_named hnull]
      exact hnull

end StepLabel

/-! ## What work raises -/

/-- A container that cannot be opened fails under its own name. -/
theorem Step.opening_blames {s : Step} {t u : Situation σ} {raised : Raised}
    (h : s.opening t = (.error raised, u)) : (s.label.claim raised).stepName = s.name := by
  have hown : s.label.MayRaise fun raised (_ : σ) => s.label.Blames (fun _ => False) raised := {
    fault := fun f _ => StepLabel.blames_fault f
    own := fun _ _ _ => StepLabel.blames_ofStep (.inl rfl)
    unnamed := fun _ _ _ => StepLabel.blames_ofStep (.inr rfl) }
  exact ((Step.opening_raises hown).apply h).claimed.resolve_right id

/-- An action fails under its own name, or with an error that it passes on. -/
theorem Engine.perform_blames {engine : Engine σ} {label : StepLabel} {act : Action} {t u : Situation σ}
    {raised : Raised} (h : engine.perform label act t = (.error raised, u)) :
    label.Blames (engine.PassesOn act · u.outside) raised := by
  have hmay : engine.MayRaise label act
      fun raised left => label.Blames (engine.PassesOn act · left) raised := {
    fault := fun f _ => StepLabel.blames_fault f
    own := fun _ _ _ => StepLabel.blames_ofStep (.inl rfl)
    unnamed := fun _ _ _ => StepLabel.blames_ofStep (.inr rfl)
    foreign := fun e _ hforeign => .inr ⟨e, rfl, hforeign⟩
    mute := fun _ _ _ _ => .inl rfl
    crash := fun _ crash _ _ _ => StepLabel.blames_crash crash }
  exact (Engine.perform_raises hmay).apply h

end Stepwise
