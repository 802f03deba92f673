-- SUMMARY: What an action binds: the value that it gives, under the name that it was given.
import Stepwise.Proofs.Run.Effect

/-!
# What actions bind

Six of the ten actions have a field that names a variable. An action that ends with an output has
bound what it gives under that very name, unless the field is empty, or the action has handed
over to an agent that has given nothing yet. It gives its output, or, if it instructs an
agent, what was sampled. An action that raises something has bound nothing.
-/

namespace Stepwise

variable {σ α β : Type}

/-! ## Bindings left behind -/

namespace Action

/-- What an action gives with an output: the answer that was sampled, or the output itself. -/
def given (act : Action) (output : Value) : Value :=
  match act, output with
  | .agent .., .dict entries => Dict.field entries "sampling_result"
  | _, v => v

/-- What an action with the output leaves of the bindings that it has found. -/
inductive Leaves (act : Action) (before : Dict) (output : Value) (d : Context) : Prop
  | bound {name : Key} : act.boundKey? = some name →
    d.bindings = before.insert name (act.given output) → Leaves act before output d
  | unnamed : act.target.truthy = false → d.bindings = before → Leaves act before output d
  /-- No object was created, and the run is paused so that an agent gives its properties. -/
  | asked : act.kind = .createObject → d.suspended = .bool true → d.bindings = before →
    Leaves act before output d
  /-- Nothing was sampled, and the run is paused so that an agent follows the instructions. -/
  | unsampled : act.kind = .agent → act.given output = .null → d.suspended = .bool true →
    d.bindings = before → Leaves act before output d

/-- What an action leaves of the bindings however it ends. -/
def Ends (act : Action) (before : Dict) (answer : Except Raised Value) (d : Context) : Prop :=
  match answer with
  | .ok output => act.Leaves before output d
  | .error _ => d.bindings = before

end Action

/-! ## Work and bindings -/

namespace StepM

/-- Work that starts in the context `c` ends with an answer and a context for which `A` holds, or it raises
something. -/
def Yields (m : StepM σ α) (c : Context) (A : α → Context → Prop) : Prop :=
  ∀ s : Situation σ, s.context = c → wp m (fun a t => A a t.context) (fun _ _ => True) s

namespace Yields

variable {c : Context} {A : α → Context → Prop}

theorem pure {a : α} (h : A a c) : Yields (σ := σ) (Pure.pure a) c A := by
  intro s hs
  exact (wp_pure a).2 (hs ▸ h)

theorem raise (raised : Raised) : Yields (σ := σ) (StepM.raise raised) c A := fun _ _ => trivial

theorem fail (e : StepError) : Yields (σ := σ) (StepM.fail e) c A := fun _ _ => trivial

theorem bind {m : StepM σ β} {f : β → StepM σ α} {B : β → Context → Prop} (hm : Yields m c B)
    (hf : ∀ b d, B b d → Yields (f b) d A) : Yields (m >>= f) c A := by
  intro s hs
  rw [wp_bind]
  exact (hm s hs).mono (fun b t hb => hf b _ hb t rfl) fun _ _ _ => trivial

/-- Quiet work may come first. -/
theorem after {m : StepM σ β} {f : β → StepM σ α} (hm : Quiet m) (hf : ∀ b, Yields (f b) c A) :
    Yields (m >>= f) c A := by
  intro s hs
  refine wp_bind_quiet hm (fun b t ht => ?_) fun _ _ _ => trivial
  exact hf b t (ht.1.trans hs)

theorem ite {p : Prop} [Decidable p] {m n : StepM σ α} (hm : Yields m c A) (hn : Yields n c A) :
    Yields (if p then m else n) c A := by
  split
  · exact hm
  · exact hn

/-- A field that is there is what the work goes on with. -/
theorem require {label : StepLabel} {field : String} {v : Value} {f : Value → StepM σ α}
    (hf : v ≠ .null → Yields (f v) c A) : Yields (label.require field v >>= f) c A := by
  unfold StepLabel.require
  split
  · exact fun _ _ => trivial
  · rename_i hgiven
    exact hf fun hnull => hgiven (by rw [hnull]; rfl)

theorem change (f : Context → Context) :
    Yields (σ := σ) (StepM.change f) c fun _ d => d = f c := by
  intro s hs
  exact (wp_change f).2 (hs ▸ rfl)

theorem bindVariable (name v : Value) :
    Yields (σ := σ) (StepM.bindVariable name v) c fun _ d =>
      ∃ key, name.toKey? = some key ∧ d = c.bindVariable key v := by
  intro s hs
  unfold StepM.bindVariable
  rw [wp_bind, wp_lift]
  refine ⟨fun key hkey => ?_, fun _ _ => trivial⟩
  exact (wp_change _).2 ⟨key, Checks.toKey_iff.1 hkey, hs ▸ rfl⟩

theorem bindIfNamed (name v : Value) :
    Yields (σ := σ) (StepM.bindIfNamed name v) c fun _ d =>
      (name.truthy = false ∧ d = c) ∨
        ∃ key, name.boundKey? = some key ∧ d = c.bindVariable key v := by
  unfold StepM.bindIfNamed
  cases htruthy : name.truthy with
  | false => exact pure (.inl ⟨rfl, rfl⟩)
  | true =>
    rw [Value.boundKey?_of_ne_null (Value.ne_null_of_truthy htruthy)]
    intro s hs
    exact (bindVariable name v s hs).mono (fun _ _ h => .inr h) fun _ _ h => h

/-- A pause suspends the run and leaves the bindings. -/
theorem pause (label : StepLabel) (lines : List String) (extra : List (String × Value)) :
    Yields (σ := σ) (label.pause lines extra) c fun _ d =>
      d.suspended = .bool true ∧ d.bindings = c.bindings := by
  intro s hs
  unfold StepLabel.pause
  rw [wp_bind, wp_context, wp_update, hs]
  refine ⟨fun _ d hd => ?_, fun _ _ _ => trivial⟩
  obtain rfl : (c.suspend (label.payload c lines extra)).2 = d := congrArg Prod.snd hd
  unfold Context.suspend
  split
  · exact ⟨rfl, rfl⟩
  · exact ⟨rfl, rfl⟩

end Yields

end StepM

/-! ## The ten actions -/

section Actions

open StepM (Yields)

variable {label : StepLabel} {c : Context}

/-- The end of an action that binds its output if it names a variable. -/
theorem Action.bindOutput_yields (act : Action) {v : Value} (hgiven : act.given v = v) :
    Yields (σ := σ) (StepM.bindIfNamed act.target v >>= fun _ => pure v) c (act.Leaves c.bindings) := by
  refine .bind (.bindIfNamed _ _) ?_
  rintro _ _ (⟨hunnamed, rfl⟩ | ⟨key, hkey, rfl⟩)
  · exact .pure (.unnamed hunnamed rfl)
  · exact .pure (.bound hkey (by rw [hgiven, Context.bindVariable]))

/-- The end of an action that has to name a variable. -/
theorem Action.bindRequired_yields (act : Action) {v : Value} (hnamed : act.target ≠ .null)
    (hgiven : act.given v = v) :
    Yields (σ := σ) (StepM.bindVariable act.target v >>= fun _ => pure v) c
      (act.Leaves c.bindings) := by
  refine .bind (.bindVariable _ _) ?_
  rintro _ _ ⟨key, hkey, rfl⟩
  have hbound : act.boundKey? = some key := (Value.boundKey?_of_ne_null hnamed).trans hkey
  exact .pure (.bound hbound (by rw [hgiven, Context.bindVariable]))

/-- The end of an action that pauses, after it has bound what it has to bind. -/
theorem Action.pauseWith_yields {act : Action} {before : Dict} {lines : List String}
    {extra : List (String × Value)} {output : Value}
    (h : ∀ d : Context, d.suspended = .bool true → d.bindings = c.bindings → act.Leaves before output d) :
    Yields (σ := σ) (label.pause lines extra >>= fun _ => pure output) c (act.Leaves before) := by
  refine .bind (.pause _ _ _) ?_
  rintro _ d ⟨hsuspended, hbindings⟩
  exact .pure (h d hsuspended hbindings)

theorem Creation.run_yields (engine : Engine σ) (template properties : Value)
    (instructions : List Value) (target : Value) :
    Yields (Creation.run engine label template properties instructions target) c
      (Action.Leaves (.createObject template properties instructions target) c.bindings) := by
  refine .after (label.requireCollaborator_quiet _ _) fun provider => ?_
  refine .after (label.require_quiet _ _) fun _ => .after (.look _) fun filled => ?_
  refine .after (label.require_quiet _ _) fun mappings => .after (.look _) fun _ => ?_
  refine .after (.ask _) fun rows => .after (.lift _) fun index => .after (.look _) fun _ => ?_
  refine .after (requireKnown_quiet _ _ _) fun _ => .after (.lift _) fun mappings => ?_
  refine .after (.look _) fun division => .ite ?_ ?_
  · refine .after (label.requireCollaborator_quiet _ _) fun call => .after (.look _) fun _ => ?_
    refine .after (.look _) fun parameters => .after (label.askTool_quiet _ _) fun result => ?_
    exact Action.bindOutput_yields (.createObject template properties instructions target) rfl
  · refine .after (.look _) fun lines => .after (.look _) fun shown => .after (.lift _) fun wanted => ?_
    refine .after (.lift _) fun names => Action.pauseWith_yields fun _ hsuspended hbindings => ?_
    exact .asked rfl hsuspended hbindings

namespace Engine

variable (engine : Engine σ)

theorem callTool_yields (tool parameters target : Value) :
    Yields (engine.callTool label tool parameters target) c
      (Action.Leaves (.callTool tool parameters target) c.bindings) := by
  refine .after (label.requireCollaborator_quiet _ _) fun call => ?_
  refine .after (label.require_quiet _ _) fun tool' => .after (.look _) fun _ => ?_
  refine .after (.look _) fun _ => .after (.look _) fun _ => .after (.look _) fun _ => ?_
  refine .after (.attempt (.ask _)) fun result => ?_
  split
  · exact .after (.look _) fun _ => Action.bindOutput_yields (.callTool tool parameters target) rfl
  · exact .raise _
  · exact .after (.written _) fun _ => .fail _

theorem callFunction_yields (function parameters target : Value) :
    Yields (engine.callFunction label function parameters target) c
      (Action.Leaves (.callFunction function parameters target) c.bindings) := by
  refine .after (label.require_quiet _ _) fun _ => .after (.look _) fun _ => ?_
  refine .after (.look _) fun _ => .after (engine.askFunction_quiet _ _) fun result => ?_
  exact Action.bindOutput_yields (.callFunction function parameters target) rfl

theorem loadObject_yields (template : Value) (keys? : Option (List Value))
    (instructions : List Value) :
    Yields (engine.loadObject label template keys? instructions) c
      (Action.Leaves (.loadObject template keys? instructions) c.bindings) := by
  refine .after (label.requireCollaborator_quiet _ _) fun provider => ?_
  refine .after (label.require_quiet _ _) fun _ => .after (.look _) fun _ => ?_
  refine .after (.look _) fun _ => .after (.ask _) fun rows => .after (.lift _) fun schemas => ?_
  refine .after (.look _) fun lines => .after (.lift _) fun wanted => ?_
  refine .after (engine.sample_quiet _) fun sampled => .after (.look _) fun _ => ?_
  exact Action.pauseWith_yields fun _ _ hbindings => .unnamed rfl hbindings

theorem instructAgent_yields (instructions : List Value) (sampling : Bool) (target : Value) :
    Yields (engine.instructAgent label instructions sampling target) c
      (Action.Leaves (.agent instructions sampling target) c.bindings) := by
  refine .after (label.require_quiet _ _) fun _ => .after (.look _) fun lines => ?_
  have hrest (sampled : Value) :
      Yields (σ := σ)
        (if !sampled.isNull then
          StepM.bindIfNamed target sampled >>= fun _ =>
            label.pause lines [("sampling_result", sampled)] >>= fun _ =>
              pure (.record [("instructions", linesValue lines), ("sampling_result", sampled)])
        else label.pause lines [("sampling_result", sampled)] >>= fun _ =>
          pure (.record [("instructions", linesValue lines), ("sampling_result", sampled)]))
        c (Action.Leaves (.agent instructions sampling target) c.bindings) := by
    cases hnull : sampled.isNull with
    | true =>
      rw [Value.isNull_iff.1 hnull]
      exact Action.pauseWith_yields fun _ hsuspended hbindings => .unsampled rfl rfl hsuspended hbindings
    | false =>
      refine .bind (.bindIfNamed _ _) ?_
      rintro _ _ (⟨hunnamed, rfl⟩ | ⟨key, hkey, rfl⟩)
      · exact Action.pauseWith_yields fun _ _ hbindings => .unnamed hunnamed hbindings
      · exact Action.pauseWith_yields fun _ _ hbindings => .bound hkey hbindings
  split
  · exact .after (engine.sample_quiet _) hrest
  · exact .after (.pure _) hrest

theorem loadState_yields (key default target : Value) :
    Yields (engine.loadState label key default target) c
      (Action.Leaves (.loadState key default target) c.bindings) := by
  refine .after (label.requireCollaborator_quiet _ _) fun store => ?_
  refine .after (label.require_quiet _ _) fun _ => .after (.look _) fun text => .require fun hnamed => ?_
  refine .after (.askSoftly _) fun stored => ?_
  have hbind (v : Value) : Yields (σ := σ) (StepM.bindVariable target v >>= fun _ => pure v) c
      (Action.Leaves (.loadState key default target) c.bindings) :=
    Action.bindRequired_yields (.loadState key default target) hnamed rfl
  exact .ite (.after (.look _) hbind) (.after (.pure _) hbind)

theorem saveState_yields (key : Value) (value? : Option Value) :
    Yields (engine.saveState label key value?) c (Action.Leaves (.saveState key value?) c.bindings) := by
  refine .after (label.requireCollaborator_quiet _ _) fun store => ?_
  refine .after (label.require_quiet _ _) fun _ => .after (.look _) fun key => ?_
  refine .after (label.requirePresent_quiet _) fun _ => .after (.look _) fun v => ?_
  refine .after (.attempt (.ask _)) fun answer => ?_
  split
  · exact .pure (.unnamed rfl rfl)
  · exact .after (.written _) fun _ => .fail _

/-- An action that ends with an output has bound what it gives. -/
theorem perform_yields (label : StepLabel) (act : Action) (c : Context) :
    Yields (engine.perform label act) c (act.Leaves c.bindings) := by
  cases act with
  | log message =>
    refine .after (label.require_quiet _ _) fun _ => .after (.look _) fun line => ?_
    refine .bind (.change _) ?_
    rintro _ _ rfl
    exact .pure (.unnamed rfl rfl)
  | setVariable target value? =>
    refine .require fun hnamed => ?_
    refine .after (label.requirePresent_quiet _) fun _ => .after (.look _) fun v => ?_
    exact Action.bindRequired_yields (.setVariable target value?) hnamed rfl
  | finish value? =>
    refine .after (label.requirePresent_quiet _) fun _ => .after (.look _) fun v => ?_
    refine .bind (.change _) ?_
    rintro _ _ rfl
    exact .pure (.unnamed rfl rfl)
  | callTool tool parameters target => exact engine.callTool_yields tool parameters target
  | callFunction function parameters target =>
    exact engine.callFunction_yields function parameters target
  | createObject template properties instructions target =>
    exact Creation.run_yields engine template properties instructions target
  | loadObject template keys? instructions => exact engine.loadObject_yields template keys? instructions
  | agent instructions sampling target => exact engine.instructAgent_yields instructions sampling target
  | loadState key default target => exact engine.loadState_yields key default target
  | saveState key value? => exact engine.saveState_yields key value?

/-- An action ends with the bindings that it is to leave. -/
theorem perform_binds {act : Action} {t u : Situation σ} {answer : Except Raised Value}
    (hlocated : t.context.IsLocated) (h : engine.perform label act t = (answer, u)) :
    act.Ends t.context.bindings answer u.context := by
  cases answer with
  | ok output =>
    have hyields := engine.perform_yields label act _ t rfl
    unfold StepM.wp at hyields
    rwa [h] at hyields
  | error e =>
    obtain ⟨-, eff, -, hctx, hquiet⟩ := engine.perform_effect hlocated h
    rw [hquiet rfl] at hctx
    exact congrArg Context.bindings hctx

end Engine

end Actions

end Stepwise
