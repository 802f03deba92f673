-- SUMMARY: The stop signal of a run: which actions set it, and that nothing follows in them when it is set.
import Stepwise.Proofs.Run.Journal

/-!
# The stop signal

A run is stopped by an action that ends it with a value or pauses it. Setting the signal is
the last thing that such an action does: before that it may have asked its collaborators,
and after that it only reports its output.
-/

namespace Stepwise

variable {σ α β : Type}

/-! ## Work that leaves the signal alone -/

namespace StepM

/-- The work neither ends nor pauses the run, however it ends. -/
def LeavesSignal (m : StepM σ α) : Prop :=
  ∀ s, (m s).2.context.result? = s.context.result? ∧
    (m s).2.context.suspended = s.context.suspended

namespace LeavesSignal

theorem of_quiet {m : StepM σ α} (hm : Quiet m) : LeavesSignal m := by
  intro s
  have hsame : SameRun s (m s).2 := ends_of_wp (P := fun _ u => SameRun s u) (hm s)
  rw [hsame.1]
  exact ⟨rfl, rfl⟩

theorem bind {m : StepM σ β} {f : β → StepM σ α} (hm : LeavesSignal m)
    (hf : ∀ b, LeavesSignal (f b)) : LeavesSignal (m >>= f) := by
  intro s
  have hfirst := hm s
  rw [bind_apply]
  generalize m s = p at hfirst ⊢
  obtain ⟨e | b, t⟩ := p
  · exact hfirst
  · have hrest := hf b t
    exact ⟨hrest.1.trans hfirst.1, hrest.2.trans hfirst.2⟩

/-- A change that does not reach the signal. -/
theorem change {f : Context → Context}
    (hf : ∀ c, (f c).result? = c.result? ∧ (f c).suspended = c.suspended) :
    LeavesSignal (σ := σ) (StepM.change f) := fun s => hf s.context

theorem bindVariable (name v : Value) : LeavesSignal (σ := σ) (StepM.bindVariable name v) :=
  .bind (.of_quiet (.lift _)) fun _ => .change fun _ => ⟨rfl, rfl⟩

theorem bindIfNamed (name v : Value) : LeavesSignal (σ := σ) (StepM.bindIfNamed name v) := by
  unfold StepM.bindIfNamed
  split
  · exact bindVariable name v
  · exact .of_quiet (.pure ())

end LeavesSignal

/-! ## Work that sets the signal last -/

/-- If the work ends or pauses the run, this is the last thing it does: then it only gives its answer. -/
inductive SignalsLast {σ α : Type} : StepM σ α → Prop
  | leaves {m : StepM σ α} : LeavesSignal m → SignalsLast m
  | returns (v : Value) (a : α) : SignalsLast (StepM.change (·.setResult v) >>= fun _ => pure a)
  | pauses (label : StepLabel) (lines : List String) (extra : List (String × Value)) (a : α) :
    SignalsLast (label.pause lines extra >>= fun _ => pure a)
  | after {β : Type} {m : StepM σ β} {f : β → StepM σ α} :
    LeavesSignal m → (∀ b, SignalsLast (f b)) → SignalsLast (m >>= f)

namespace SignalsLast

/-- Quiet work may come first. -/
theorem look {m : StepM σ β} {f : β → StepM σ α} (hm : Quiet m) (hf : ∀ b, SignalsLast (f b)) :
    SignalsLast (m >>= f) := .after (.of_quiet hm) hf

/-- A variable may be bound, and its value given. -/
theorem binds (name v : Value) (a : α) :
    SignalsLast (σ := σ) (StepM.bindVariable name v >>= fun _ => Pure.pure a) :=
  .leaves (.bind (.bindVariable name v) fun _ => .of_quiet (.pure a))

theorem bindsIfNamed (name v : Value) (a : α) :
    SignalsLast (σ := σ) (StepM.bindIfNamed name v >>= fun _ => Pure.pure a) :=
  .leaves (.bind (.bindIfNamed name v) fun _ => .of_quiet (.pure a))

theorem ite {p : Prop} [Decidable p] {m n : StepM σ α} (hm : SignalsLast m) (hn : SignalsLast n) :
    SignalsLast (if p then m else n) := by
  split
  · exact hm
  · exact hn

end SignalsLast

end StepM

/-! ## The ten actions -/

section Actions

variable (engine : Engine σ) (label : StepLabel)

open StepM (Quiet SignalsLast)

theorem Creation.create_signalsLast (template : Value) (properties : Dict) (target : Value) :
    SignalsLast (Creation.create engine label template properties target) :=
  .look (label.requireCollaborator_quiet _ _) fun _ => .look (.look _) fun _ => .look (.look _) fun _ =>
    .look (label.askTool_quiet _ _) fun result => .bindsIfNamed target result result

theorem Creation.askAgent_signalsLast (template : Value) (index : List (Key × PropertySchema))
    (division : Creation.Division) (instructions : List Value) :
    SignalsLast (σ := σ) (Creation.askAgent label template index division instructions) :=
  .look (.look _) fun _ => .look (.look _) fun _ => .look (.lift _) fun _ => .look (.lift _) fun _ =>
    .pauses _ _ _ _

theorem Creation.run_signalsLast (template properties : Value) (instructions : List Value)
    (target : Value) : SignalsLast (Creation.run engine label template properties instructions target) := by
  refine .look (label.requireCollaborator_quiet _ _) fun provider => ?_
  refine .look (label.require_quiet _ _) fun _ => .look (.look _) fun template => ?_
  refine .look (label.require_quiet _ _) fun mappings => .look (.look _) fun _ => ?_
  refine .look (.ask _) fun rows => .look (.lift _) fun index => .look (.look _) fun _ => ?_
  refine .look (Creation.requireKnown_quiet _ _ _) fun _ => .look (.lift _) fun mappings => ?_
  refine .look (.look _) fun division => .ite ?_ ?_
  · exact Creation.create_signalsLast engine label _ _ _
  · exact Creation.askAgent_signalsLast label _ _ _ _

namespace Engine

theorem callTool_signalsLast (tool parameters target : Value) :
    SignalsLast (engine.callTool label tool parameters target) := by
  refine .look (label.requireCollaborator_quiet _ _) fun call => ?_
  refine .look (label.require_quiet _ _) fun tool => .look (.look _) fun _ => ?_
  refine .look (.look _) fun _ => .look (.look _) fun _ => .look (.look _) fun _ => ?_
  refine .look (.attempt (.ask _)) fun result => ?_
  split
  · exact .look (.look _) fun _ => .bindsIfNamed _ _ _
  · exact .leaves (.of_quiet (.raise _))
  · exact .leaves (.of_quiet (.bind (.written _) fun _ => .fail _))

theorem callFunction_signalsLast (function parameters target : Value) :
    SignalsLast (engine.callFunction label function parameters target) :=
  .look (label.require_quiet _ _) fun _ => .look (.look _) fun _ => .look (.look _) fun _ =>
    .look (engine.askFunction_quiet _ _) fun _ => .bindsIfNamed _ _ _

theorem loadObject_signalsLast (template : Value) (keys? : Option (List Value))
    (instructions : List Value) :
    SignalsLast (engine.loadObject label template keys? instructions) := by
  refine .look (label.requireCollaborator_quiet _ _) fun provider => ?_
  refine .look (label.require_quiet _ _) fun _ => .look (.look _) fun _ => ?_
  refine .look (.look _) fun _ => .look (.ask _) fun rows => .look (.lift _) fun schemas => ?_
  refine .look (.look _) fun lines => .look (.lift _) fun wanted => ?_
  refine .look (engine.sample_quiet _) fun sampled => ?_
  exact .look (.look _) fun _ => .pauses _ _ _ _

theorem instructAgent_signalsLast (instructions : List Value) (sampling : Bool) (target : Value) :
    SignalsLast (engine.instructAgent label instructions sampling target) := by
  refine .look (label.require_quiet _ _) fun _ => .look (.look _) fun lines => ?_
  -- The agent's answer, if it was sampled, is bound before the pause.
  have hrest (sampled output : Value) :
      SignalsLast (σ := σ)
        (if !sampled.isNull then
          StepM.bindIfNamed target sampled >>= fun _ =>
            label.pause lines [("sampling_result", sampled)] >>= fun _ => pure output
        else label.pause lines [("sampling_result", sampled)] >>= fun _ => pure output) :=
    .ite (.after (.bindIfNamed _ _) fun _ => .pauses _ _ _ _) (.pauses _ _ _ _)
  split
  · exact .look (engine.sample_quiet _) fun sampled => hrest sampled _
  · exact .look (.pure _) fun sampled => hrest sampled _

theorem loadState_signalsLast (key default target : Value) :
    SignalsLast (engine.loadState label key default target) := by
  refine .look (label.requireCollaborator_quiet _ _) fun store => ?_
  refine .look (label.require_quiet _ _) fun _ => .look (.look _) fun text => ?_
  refine .look (label.require_quiet _ _) fun target => .look (.askSoftly _) fun answer => ?_
  exact .ite (.look (.look _) fun _ => .binds _ _ _) (.look (.pure _) fun _ => .binds _ _ _)

theorem saveState_signalsLast (key : Value) (value? : Option Value) :
    SignalsLast (engine.saveState label key value?) := by
  refine .look (label.requireCollaborator_quiet _ _) fun store => ?_
  refine .look (label.require_quiet _ _) fun _ => .look (.look _) fun key => ?_
  refine .look (label.requirePresent_quiet _) fun _ => .look (.look _) fun v => ?_
  refine .look (.attempt (.ask _)) fun answer => ?_
  split
  · exact .leaves (.of_quiet (.pure _))
  · exact .leaves (.of_quiet (.bind (.written _) fun _ => .fail _))

/-- An action that ends or pauses the run does nothing after that. -/
theorem perform_signalsLast (act : Action) : SignalsLast (engine.perform label act) := by
  cases act with
  | log message =>
    refine .look (label.require_quiet _ _) fun _ => .look (.look _) fun line => ?_
    exact .leaves (.bind (.change fun _ => ⟨rfl, rfl⟩) fun _ => .of_quiet (.pure _))
  | setVariable target value? =>
    refine .look (label.require_quiet _ _) fun target => ?_
    exact .look (label.requirePresent_quiet _) fun _ => .look (.look _) fun v => .binds _ _ _
  | finish value? =>
    exact .look (label.requirePresent_quiet _) fun _ => .look (.look _) fun v => .returns _ _
  | callTool tool parameters target => exact engine.callTool_signalsLast label tool parameters target
  | callFunction function parameters target =>
    exact engine.callFunction_signalsLast label function parameters target
  | createObject template properties instructions target =>
    exact Creation.run_signalsLast engine label template properties instructions target
  | loadObject template keys? instructions =>
    exact engine.loadObject_signalsLast label template keys? instructions
  | agent instructions sampling target =>
    exact engine.instructAgent_signalsLast label instructions sampling target
  | loadState key default target => exact engine.loadState_signalsLast label key default target
  | saveState key value? => exact engine.saveState_signalsLast label key value?

end Engine

end Actions

/-! ## What stops a run -/

/-- The action has stopped the run with its output: it has ended it with the value that it was to return,
or paused it with its payload, at the position where it stands. -/
inductive Action.Halts (label : StepLabel) (c : Context) : Action → Value → Context → Prop
  | returned {v output : Value} :
    Template.fill c v = .ok output → Halts label c (.finish (some v)) output (c.setResult output)
  | paused {act : Action} {output : Value} (bindings : Dict) (suspendedPath : List Dict)
      (lines : List String) (extra : List (String × Value)) :
    act.isPausing = true → c.position.mapM Value.toDict = .ok suspendedPath →
    Halts label c act output
      { c.halt (label.payload c lines extra) with bindings, suspendedPath }

namespace Action.Halts

variable {label : StepLabel} {c d : Context} {act : Action} {output : Value}

theorem hasResult (h : act.Halts label c output d) : d.hasResult = true := by
  cases h <;> rfl

theorem position (h : act.Halts label c output d) : d.position = c.position := by
  cases h <;> rfl

end Action.Halts

namespace Engine

variable {engine : Engine σ} {label : StepLabel} {act : Action} {t u : Situation σ}
  {r : Except Raised Value}

/-- A return that succeeds ends the run with its filled value. -/
theorem perform_finish {value? : Option Value}
    (h : engine.perform label (.finish value?) t = (r, u)) :
    (u = t ∧ r.isOk = false) ∨
      ∃ v output, value? = some v ∧ Template.fill t.context v = .ok output ∧ r = .ok output ∧
        u = t.change (·.setResult output) := by
  cases value? with
  | none =>
    cases h
    exact .inl ⟨rfl, rfl⟩
  | some v =>
    have heq : engine.perform label (.finish (some v)) t =
        (StepM.filled v >>= fun output =>
          StepM.change (·.setResult output) >>= fun _ => pure output) t := rfl
    rw [heq, bind_apply] at h
    cases hfill : Template.fill t.context v with
    | error f =>
      have hfilled : StepM.filled v t = (.error (.fault f), t) := by
        rw [StepM.filled, StepM.look, hfill, Checks.mapError_error]
      rw [hfilled] at h
      cases h
      exact .inl ⟨rfl, rfl⟩
    | ok output =>
      have hfilled : StepM.filled v t = (.ok output, t) := by
        rw [StepM.filled, StepM.look, hfill, Checks.mapError_ok]
      rw [hfilled] at h
      cases h
      exact .inr ⟨v, output, rfl, hfill, rfl, rfl⟩

/-- In a run that goes on an action either leaves the run going on, or it stops it and ends with its
output. -/
theorem perform_stops (hrunning : t.context.IsRunning) (hplaced : t.context.IsPlaced)
    (h : engine.perform label act t = (r, u)) :
    u.started = t.started ∧ u.context.position = t.context.position ∧
      (u.context.IsRunning ∨
        ∃ output, r = .ok output ∧ act.Halts label t.context output u.context) := by
  obtain ⟨hstarted, eff, hallows, hctx, hfailed⟩ := Engine.perform_ends hplaced h
  refine ⟨hstarted, by rw [hctx]; exact (eff.apply_keeps _).position, ?_⟩
  cases hallows with
  | none => exact .inl (hctx ▸ hrunning)
  | log => exact .inl (hctx ▸ ⟨hrunning.result, hrunning.suspended⟩)
  | bind => exact .inl (hctx ▸ ⟨hrunning.result, hrunning.suspended⟩)
  | finish =>
    rcases perform_finish h with ⟨rfl, -⟩ | ⟨v, output, rfl, hfill, hr, rfl⟩
    · exact .inl hrunning
    · exact .inr ⟨output, hr, .returned hfill⟩
  | @pause _ bound? lines extra hact _ =>
    obtain ⟨frames, hframes⟩ := hplaced
    obtain ⟨bindings, happly⟩ := Effect.apply_pause bound? (label.payload t.context lines extra) hframes
    cases r with
    | error e => cases hfailed rfl
    | ok output =>
      refine .inr ⟨output, rfl, ?_⟩
      rw [hctx, happly]
      refine .paused bindings _ lines extra hact ?_
      rw [hframes]
      exact Context.mapM_toDict_frames frames

end Engine

end Stepwise
