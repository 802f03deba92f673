-- SUMMARY: A step that is no container changes nothing but its history where it fails.
import Stepwise.Proofs.Run.History
import Stepwise.Proofs.Run.Raising
import Stepwise.Proofs.Value.Entries

/-!
# Atomicity of actions

An action may ask the world outside and raise at many points, but it changes its run once and
last. So a failing step leaves the context as it was, with one entry more in the history, and a
completed one has touched no variable but its own, and the log only if it is there to add a line
to it. A step whose name cannot be written out is not run, and leaves no entry either; nor
does a step whose collaborator gives up with what cannot be written out.
-/

namespace Stepwise

variable {σ : Type}

/-! ## What effects leave alone -/

namespace Context

theorem suspend_bindings (c : Context) (payload : Value) :
    (c.suspend payload).2.bindings = c.bindings := by
  unfold suspend
  split <;> rfl

theorem suspend_logs (c : Context) (payload : Value) : (c.suspend payload).2.logs = c.logs := by
  unfold suspend
  split <;> rfl

end Context

namespace Effect

variable {label : StepLabel} {name : Value} {act : Action} {c : Context} {eff : Effect}

/-- An action binds its own variable and no other. -/
theorem apply_get? (h : act.Allows label c eff) {key : Key}
    (hother : ∀ own, act.boundKey? = some own → key.same own = false) :
    Dict.get? (eff.apply c).bindings key = Dict.get? c.bindings key := by
  cases h with
  | none => rfl
  | log => rfl
  | bind hown => exact Dict.get?_insert_of_ne _ _ (hother _ hown)
  | finish => rfl
  | @pause _ bound? lines extra _ hown =>
    cases bound? with
    | none => rw [apply, Context.suspend_bindings]
    | some b =>
      rw [apply, Context.suspend_bindings]
      exact Dict.get?_insert_of_ne _ _ (hother _ (hown b rfl))

/-- Only an action that is there to log adds to the log. -/
theorem apply_logs (h : act.Allows label c eff) (hlog : (Step.action name act).isLog = false) :
    (eff.apply c).logs = c.logs := by
  cases h with
  | none => rfl
  | log => cases hlog
  | bind => rfl
  | finish => rfl
  | @pause _ bound? =>
    cases bound? with
    | none => rw [apply, Context.suspend_logs]
    | some b =>
      rw [apply, Context.suspend_logs]
      rfl

end Effect

/-! ## Steps -/

/-- How running an action may leave the context that it found. -/
structure Action.IsAtomic (engine : Engine σ) (act : Action) (name : Value) (before : Context)
    (answer : Except Raised StepResult) (after : Situation σ) : Prop where
  /-- What raises adds the entry of its failure and nothing else. Where its name cannot be written out, or
  what a collaborator has given up with, it does not even add that. -/
  raised : ∀ e, answer = .error e →
    (name.isSpellable = true ∧ ∃ entry : StepResult, entry.step = name ∧
      entry.type = .str (Step.action name act).type ∧ entry.status = .failed ∧
      after.context = before.record entry) ∨
    (after.context = before ∧ (name.isSpellable = false ∨ engine.GivesUpMutely after.outside))
  /-- What completes rebinds no variable but its own. -/
  bindings : ∀ result, answer = .ok result → ∀ key,
    (∀ own, act.boundKey? = some own → key.same own = false) →
    Dict.get? after.context.bindings key = Dict.get? before.bindings key
  /-- What completes adds one line to the log if that is what it is there for, and else none. -/
  logs : ∀ result, answer = .ok result →
    if (Step.action name act).isLog then ∃ line, after.context.logs = before.logs ++ [line]
    else after.context.logs = before.logs

/-- The action of a log step adds a line to the log, or raises something before. -/
theorem Engine.perform_log (engine : Engine σ) (label : StepLabel) (message : Value)
    (s : Situation σ) :
    (engine.perform label (.log message)).wp
      (fun _ u => ∃ line, u = s.change (·.appendLog line)) (fun _ u => u = s) s := by
  rw [perform, StepM.wp_bind]
  refine StepLabel.wp_require ?_ fun _ => rfl
  rw [StepM.wp_bind]
  exact StepM.wp_look.2 ⟨fun line _ => ⟨.str line, rfl⟩, fun _ _ => rfl⟩

/-- A log step that completes has added one line to the log. -/
theorem Engine.perform_log_logs {engine : Engine σ} {label : StepLabel} {message output : Value}
    {t u : Situation σ} (h : engine.perform label (.log message) t = (.ok output, u)) :
    ∃ line, u.context.logs = t.context.logs ++ [line] := by
  have hlog := engine.perform_log label message t
  unfold StepM.wp at hlog
  rw [h] at hlog
  obtain ⟨line, rfl⟩ := hlog
  exact ⟨line, rfl⟩

/-- A tool call between two branches, for whose answer there is no tool. -/
def callInBranches : Situation Nat where
  context := {
    bindings := [(.str "answer", .int 1)]
    logs := [.str "begun"]
    position := [Frame.toValue { branch := "then", index := 1 },
      Frame.toValue { branch := "else", index := 0 }] }
  outside := 0

/-- The step raises somewhere without an entry for its failure. -/
def Step.RaisesUnrecorded (engine : Engine σ) (x : Step) : Prop :=
  ∃ t : Situation σ, t.context.IsLocated ∧ ∃ e, (runStep engine x t).1 = .error e ∧
    ¬ ∃ entry : StepResult, entry.step = x.name ∧ entry.status = .failed ∧
      (runStep engine x t).2.context = t.context.record entry

end Stepwise
