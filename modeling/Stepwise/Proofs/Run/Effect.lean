-- SUMMARY: What an action may do to its run: one effect if it ends with an output, none if it raises.
import Stepwise.Proofs.Checks
import Stepwise.Proofs.Run.WeakestPre
import Stepwise.Proofs.Step.Order
import Stepwise.Proofs.Value.Keys
import Stepwise.Run.Action

/-!
# Effects of actions

An action changes the context of its run in one way at most, and it does so last: it adds
a line to the log, binds a variable, ends the run, or pauses it. What it raises it raises
before that. `perform_wp` says so for all ten actions at once; what a run keeps from step
to step follows from it by cases on the effect.
-/

namespace Stepwise

variable {σ α : Type}

/-! ## Placed contexts -/

/-- The position of the run consists of frames, as it does wherever a run has come to. -/
def Context.IsPlaced (c : Context) : Prop := ∃ frames : List Frame, c.position = frames.map Frame.toValue

/-- The position of the run consists of dictionaries, as that of any context does. -/
def Context.IsLocated (c : Context) : Prop := ∃ path : List Dict, c.position = path.map Value.dict

theorem Context.IsPlaced.isLocated {c : Context} (h : c.IsPlaced) : c.IsLocated := by
  obtain ⟨frames, hframes⟩ := h
  exact ⟨frames.map Frame.toDict, by simp [hframes, Frame.toValue, Function.comp_def]⟩

theorem Context.IsPlaced.enter {c : Context} (h : c.IsPlaced) (f : Frame) :
    (c.enter f.toValue).IsPlaced := by
  obtain ⟨frames, hframes⟩ := h
  exact ⟨frames ++ [f], by simp [Context.enter, hframes]⟩

/-- Leaving a branch leads back to where it was entered. -/
theorem Context.leave_position {c d : Context} {frame : Value}
    (h : d.position = (c.enter frame).position) : d.leave.position = c.position := by
  rw [leave, h, enter, List.dropLast_concat]

/-- What the run of a step leaves alone: where the run comes from and where it stands. -/
structure Context.Keeps (c d : Context) : Prop where
  inputs : d.inputs = c.inputs
  workflowName : d.workflowName = c.workflowName
  position : d.position = c.position

namespace Context.Keeps

variable {c d e : Context}

theorem rfl : c.Keeps c := ⟨Eq.refl _, Eq.refl _, Eq.refl _⟩

theorem trans (h : c.Keeps d) (h' : d.Keeps e) : c.Keeps e :=
  ⟨h'.inputs.trans h.inputs, h'.workflowName.trans h.workflowName, h'.position.trans h.position⟩

theorem isPlaced (h : c.Keeps d) (hc : c.IsPlaced) : d.IsPlaced := by
  rw [IsPlaced, h.position]
  exact hc

end Context.Keeps

/-! ## Effects -/

/-- What an action does to the context of its run. -/
inductive Effect where
  | none
  | log (line : String)
  | bind (name : Key) (v : Value)
  | finish (v : Value)
  /-- Pause the run with a payload. An agent's answer may be bound before. -/
  | pause (bound? : Option (Key × Value)) (payload : Value)

namespace Effect

def apply (c : Context) : Effect → Context
  | .none => c
  | .log line => c.appendLog (.str line)
  | .bind name v => c.bindVariable name v
  | .finish v => c.setResult v
  | .pause .none payload => (c.suspend payload).2
  | .pause (some (name, v)) payload => ((c.bindVariable name v).suspend payload).2

/-- An effect reaches the variables, the log and the stop signal, and nothing else of a run. -/
theorem apply_eq (c : Context) (eff : Effect) :
    ∃ bindings logs result? suspended suspendedPath,
      eff.apply c = { c with bindings, logs, result?, suspended, suspendedPath } := by
  have suspend_eq (d : Context) (payload : Value) :
      ∃ path, (d.suspend payload).2 = { d.halt payload with suspendedPath := path } := by
    unfold Context.suspend
    split
    · exact ⟨_, rfl⟩
    · exact ⟨_, rfl⟩
  cases eff with
  | none => exact ⟨_, _, _, _, _, rfl⟩
  | log line => exact ⟨_, _, _, _, _, rfl⟩
  | bind name v => exact ⟨_, _, _, _, _, rfl⟩
  | finish v => exact ⟨_, _, _, _, _, rfl⟩
  | pause bound? payload =>
    cases bound? with
    | none =>
      obtain ⟨path, h⟩ := suspend_eq c payload
      exact ⟨_, _, _, _, _, h⟩
    | some b =>
      obtain ⟨path, h⟩ := suspend_eq (c.bindVariable b.1 b.2) payload
      exact ⟨_, _, _, _, _, h⟩

/-- A pause halts the run with its payload, and notes the position. -/
theorem apply_pause {c : Context} {frames : List Frame} (bound? : Option (Key × Value))
    (payload : Value) (hframes : c.position = frames.map Frame.toValue) :
    ∃ bindings, (Effect.pause bound? payload).apply c
      = { c.halt payload with bindings, suspendedPath := frames.map Frame.toDict } := by
  cases bound? with
  | none => exact ⟨_, by rw [apply, Context.suspend_of_frames _ hframes]⟩
  | some b =>
    have hframes' : (c.bindVariable b.1 b.2).position = frames.map Frame.toValue := hframes
    exact ⟨_, by rw [apply, Context.suspend_of_frames _ hframes']; rfl⟩

theorem apply_keeps (c : Context) (eff : Effect) : c.Keeps (eff.apply c) := by
  obtain ⟨_, _, _, _, _, h⟩ := eff.apply_eq c
  rw [h]
  exact ⟨rfl, rfl, rfl⟩

theorem apply_resumePath (c : Context) (eff : Effect) :
    (eff.apply c).resumePath = c.resumePath := by
  obtain ⟨_, _, _, _, _, h⟩ := eff.apply_eq c
  rw [h]

theorem apply_results (c : Context) (eff : Effect) : (eff.apply c).results = c.results := by
  obtain ⟨_, _, _, _, _, h⟩ := eff.apply_eq c
  rw [h]

theorem apply_currentStep (c : Context) (eff : Effect) :
    (eff.apply c).currentStep = c.currentStep := by
  obtain ⟨_, _, _, _, _, h⟩ := eff.apply_eq c
  rw [h]

end Effect

/-- The variable that a field names; `null` names none. -/
def Value.boundKey? (v : Value) : Option Key := if v.isNull then none else v.toKey?

theorem Value.boundKey?_of_ne_null {v : Value} (h : v ≠ .null) : v.boundKey? = v.toKey? :=
  if_neg (mt Value.isNull_iff.1 h)

theorem Value.toKey?_of_boundKey? {v : Value} {name : Key} (h : v.boundKey? = some name) :
    v.toKey? = some name := by
  unfold boundKey? at h
  split at h
  · cases h
  · exact h

namespace Action

/-- The field that names the variable an action binds. -/
def target : Action → Value
  | .setVariable target _ => target
  | .callTool _ _ target => target
  | .callFunction _ _ target => target
  | .createObject _ _ _ target => target
  | .agent _ _ target => target
  | .loadState _ _ target => target
  | .log _ | .finish _ | .loadObject .. | .saveState .. => .null

/-- The variable that an action binds, if it names one. -/
def boundKey? (act : Action) : Option Key := act.target.boundKey?

/-- The effects that an action may have. A payload is that of the step at work. -/
inductive Allows (label : StepLabel) (c : Context) : Action → Effect → Prop
  | none {act : Action} : Allows label c act .none
  | log {message : Value} {line : String} : Allows label c (.log message) (.log line)
  | bind {act : Action} {name : Key} {v : Value} :
    act.boundKey? = some name → Allows label c act (.bind name v)
  | finish {value? : Option Value} {v : Value} : Allows label c (.finish value?) (.finish v)
  | pause {act : Action} {bound? : Option (Key × Value)} {lines : List String}
      {extra : List (String × Value)} :
    act.isPausing = true → (∀ b ∈ bound?, act.boundKey? = some b.1) →
    Allows label c act (.pause bound? (label.payload c lines extra))

end Action

/-! ## Work with one effect -/

namespace StepM

/-- Work that starts in the context `c` and has one of the effects `A` when it gives an answer, and
none when it raises something. -/
def Does (m : StepM σ α) (c : Context) (A : Effect → Prop) : Prop :=
  ∀ s : Situation σ, s.context = c →
    wp m (fun _ t => t.started = s.started ∧ ∃ eff, A eff ∧ t.context = eff.apply c)
      (fun _ t => SameRun s t) s

namespace Does

variable {β : Type} {c : Context} {A : Effect → Prop}

theorem of_quiet {m : StepM σ α} (hm : Quiet m) (hA : A .none) : Does m c A := by
  intro s hs
  exact (hm s).mono (fun _ _ h => ⟨h.2, .none, hA, h.1.trans hs⟩) (fun _ _ h => h)

/-- Quiet work may come first. -/
theorem after {m : StepM σ β} {f : β → StepM σ α} (hm : Quiet m) (hf : ∀ b, Does (f b) c A) :
    Does (m >>= f) c A := by
  intro s hs
  refine wp_bind_quiet hm (fun b t ht => ?_) (fun _ _ ht => ht)
  refine (hf b t (ht.1.trans hs)).mono (fun _ u h => ⟨h.1.trans ht.2, h.2⟩) fun _ _ h => ht.trans h

/-- A field that is there is what the work goes on with. -/
theorem require {label : StepLabel} {field : String} {v : Value} {f : Value → StepM σ α}
    (hf : v ≠ .null → Does (f v) c A) : Does (label.require field v >>= f) c A := by
  unfold StepLabel.require
  split
  · intro s _
    rw [wp_bind]
    exact SameRun.rfl
  · rename_i hgiven
    exact hf fun hnull => hgiven (by rw [hnull]; rfl)

/-- What has been done may be reported. -/
theorem report {m : StepM σ β} (hm : Does m c A) (g : β → α) :
    Does (m >>= fun b => pure (g b)) c A := by
  intro s hs
  rw [wp_bind]
  exact (hm s hs).mono (fun _ _ h => h) (fun _ _ h => h)

theorem ite {p : Prop} [Decidable p] {m n : StepM σ α} (hm : Does m c A) (hn : Does n c A) :
    Does (if p then m else n) c A := by
  split
  · exact hm
  · exact hn

theorem change {f : Context → Context} {eff : Effect} (hA : A eff) (hf : f c = eff.apply c) :
    Does (σ := σ) (StepM.change f) c A := by
  intro s hs
  exact ⟨rfl, eff, hA, by simp only [hs, hf]⟩

theorem bindVariable {name v : Value} (hA : ∀ key, name.toKey? = some key → A (.bind key v)) :
    Does (σ := σ) (StepM.bindVariable name v) c A := by
  intro s hs
  unfold StepM.bindVariable
  rw [wp_bind, wp_lift]
  refine ⟨fun key hkey => ?_, fun _ _ => SameRun.rfl⟩
  exact ⟨rfl, .bind key v, hA key (Checks.toKey_iff.1 hkey), by simp only [hs, Effect.apply]⟩

theorem bindIfNamed {name v : Value} (hnone : A .none)
    (hA : ∀ key, name.boundKey? = some key → A (.bind key v)) :
    Does (σ := σ) (StepM.bindIfNamed name v) c A := by
  unfold StepM.bindIfNamed
  split
  · rename_i htruthy
    exact bindVariable fun key hkey =>
      hA key ((Value.boundKey?_of_ne_null (Value.ne_null_of_truthy htruthy)).trans hkey)
  · exact of_quiet (.pure ()) hnone

/-- In a position of dictionaries a pause always succeeds. -/
theorem pause {label : StepLabel} {lines : List String} {extra : List (String × Value)}
    (hc : c.IsLocated) (hA : A (.pause .none (label.payload c lines extra))) :
    Does (σ := σ) (label.pause lines extra) c A := by
  intro s hs
  obtain ⟨path, hpath⟩ := hc
  unfold StepLabel.pause
  rw [wp_bind, wp_context, wp_update, hs, Context.suspend_of_dicts _ hpath]
  refine ⟨fun _ d hd => ?_, fun _ _ h => nomatch h⟩
  obtain ⟨-, rfl⟩ := Prod.mk.inj hd
  refine ⟨rfl, _, hA, ?_⟩
  simp only [Effect.apply, Context.suspend_of_dicts _ hpath]

/-- An agent's answer is bound before the run is paused. -/
theorem bindThenPause {label : StepLabel} {name v output : Value} {lines : List String}
    {extra : List (String × Value)} (hc : c.IsLocated)
    (hnone : A (.pause .none (label.payload c lines extra)))
    (hA : ∀ key, name.boundKey? = some key → A (.pause (some (key, v)) (label.payload c lines extra))) :
    Does (σ := σ)
      (StepM.bindIfNamed name v >>= fun _ => label.pause lines extra >>= fun _ => Pure.pure output)
      c A := by
  unfold StepM.bindIfNamed
  split
  · rename_i htruthy
    intro s hs
    unfold StepM.bindVariable
    rw [wp_bind, wp_bind, wp_lift]
    refine ⟨fun key hkey => ?_, fun _ _ => SameRun.rfl⟩
    obtain ⟨path, hpath⟩ := hc
    have hpath' : (c.bindVariable key v).position = path.map Value.dict := hpath
    rw [wp_change, wp_bind]
    unfold StepLabel.pause
    rw [wp_bind, wp_context, wp_update, hs, Context.suspend_of_dicts _ hpath']
    refine ⟨fun _ d hd => ?_, fun _ _ h => nomatch h⟩
    obtain ⟨-, rfl⟩ := Prod.mk.inj hd
    have hname : name.boundKey? = some key :=
      (Value.boundKey?_of_ne_null (Value.ne_null_of_truthy htruthy)).trans (Checks.toKey_iff.1 hkey)
    refine ⟨rfl, _, hA key hname, ?_⟩
    simp only [Effect.apply, Context.suspend_of_dicts _ hpath']
    rfl
  · exact after (.pure ()) fun _ => report (pause hc hnone) _

end Does

end StepM

/-! ## The ten actions -/

section Actions

variable {c : Context} {label : StepLabel}

open StepM (Does Quiet)

theorem Creation.requireKnown_quiet (template mappings : Value)
    (index : List (Key × PropertySchema)) :
    Quiet (σ := σ) (Creation.requireKnown template index mappings) := by
  refine .bind (.lift _) ?_
  intro keys
  refine .ite (.pure _) ?_
  exact .bind (.look _) fun _ => .bind (.lift _) fun _ => .fail _

theorem Creation.create_does (engine : Engine σ) (template : Value) (properties : Dict)
    (act : Action) :
    Does (Creation.create engine label template properties act.target) c
      (Action.Allows label c act) := by
  refine .after (label.requireCollaborator_quiet _ _) ?_
  intro call
  refine .after (.look _) fun _ => .after (.look _) ?_
  intro parameters
  refine .after (label.askTool_quiet _ _) ?_
  intro result
  exact .report (.bindIfNamed .none fun key hkey => .bind hkey) _

theorem Creation.askAgent_does (hc : c.IsLocated) {template : Value}
    {index : List (Key × PropertySchema)} {division : Creation.Division}
    {instructions : List Value} {act : Action} (hact : act.isPausing = true) :
    Does (σ := σ) (Creation.askAgent label template index division instructions) c
      (Action.Allows label c act) := by
  refine .after (.look _) fun lines => .after (.look _) fun shown => .after (.lift _) ?_
  intro wanted
  refine .after (.lift _) ?_
  intro names
  exact .report (.pause hc (.pause hact (by simp))) _

theorem Creation.run_does (engine : Engine σ) (hc : c.IsLocated) (template properties : Value)
    (instructions : List Value) (target : Value) :
    Does (Creation.run engine label template properties instructions target) c
      (Action.Allows label c (.createObject template properties instructions target)) := by
  refine .after (label.requireCollaborator_quiet _ _) ?_
  intro provider
  refine .after (label.require_quiet _ _) fun _ => .after (.look _) ?_
  intro template
  refine .after (label.require_quiet _ _) fun mappings => .after (.look _) fun _ => ?_
  refine .after (.ask _) fun rows => .after (.lift _) fun index => .after (.look _) fun _ => ?_
  refine .after (Creation.requireKnown_quiet _ _ _) fun _ => .after (.lift _) ?_
  intro mappings
  refine .after (.look _) ?_
  intro division
  split
  · exact Creation.create_does engine template division.prefilled (.createObject _ _ _ target)
  · exact Creation.askAgent_does hc rfl

namespace Engine

variable (engine : Engine σ)

theorem askFunction_quiet (function parameters : Value) :
    Quiet (engine.askFunction label function parameters) := by
  refine .bind (.lift _) ?_
  intro found
  split
  · refine .bind (.look _) fun _ => .bind (.ask _) fun result => .ite (.pure _) ?_
    exact .bind (.lift _) fun _ => .fail _
  · split
    · exact .bind (.look _) fun _ => label.askTool_quiet _ _
    · exact .fail _

theorem callTool_does (tool parameters target : Value) :
    Does (engine.callTool label tool parameters target) c
      (Action.Allows label c (.callTool tool parameters target)) := by
  refine .after (label.requireCollaborator_quiet _ _) ?_
  intro call
  refine .after (label.require_quiet _ _) fun tool => .after (.look _) fun _ => ?_
  refine .after (.look _) fun _ => .after (.look _) fun _ => .after (.look _) fun _ => ?_
  refine .after (.attempt (.ask _)) ?_
  intro result
  split
  · refine .after (.look _) fun _ => .report (.bindIfNamed .none fun key hkey => .bind hkey) _
  · exact .of_quiet (.raise _) .none
  · exact .of_quiet (.bind (.written _) fun _ => .fail _) .none

theorem callFunction_does (function parameters target : Value) :
    Does (engine.callFunction label function parameters target) c
      (Action.Allows label c (.callFunction function parameters target)) := by
  refine .after (label.require_quiet _ _) fun _ => .after (.look _) fun _ => ?_
  refine .after (.look _) fun _ => .after (engine.askFunction_quiet _ _) ?_
  intro result
  exact .report (.bindIfNamed .none fun key hkey => .bind hkey) _

theorem loadObject_does (hc : c.IsLocated) (template : Value) (keys? : Option (List Value))
    (instructions : List Value) :
    Does (engine.loadObject label template keys? instructions) c
      (Action.Allows label c (.loadObject template keys? instructions)) := by
  refine .after (label.requireCollaborator_quiet _ _) ?_
  intro provider
  refine .after (label.require_quiet _ _) fun _ => .after (.look _) fun _ => ?_
  refine .after (.look _) fun _ => .after (.ask _) fun rows => .after (.lift _) ?_
  intro schemas
  refine .after (.look _) fun lines => .after (.lift _) fun wanted => .after (engine.sample_quiet _) ?_
  intro sampled
  refine .after (.look _) fun _ => ?_
  exact .report (.pause hc (.pause rfl (by simp))) _

theorem instructAgent_does (hc : c.IsLocated) (instructions : List Value) (sampling : Bool)
    (target : Value) :
    Does (engine.instructAgent label instructions sampling target) c
      (Action.Allows label c (.agent instructions sampling target)) := by
  refine .after (label.require_quiet _ _) fun _ => .after (.look _) ?_
  intro lines
  -- The agent's answer, if it was sampled, is bound before the pause.
  have hrest (sampled output : Value) :
      Does (σ := σ)
        (if !sampled.isNull then
          StepM.bindIfNamed target sampled >>= fun _ =>
            label.pause lines [("sampling_result", sampled)] >>= fun _ => pure output
        else label.pause lines [("sampling_result", sampled)] >>= fun _ => pure output)
        c (Action.Allows label c (.agent instructions sampling target)) := by
    split
    · exact .bindThenPause hc (.pause rfl (by simp)) fun key hkey =>
        .pause rfl (by simpa [Action.boundKey?, Action.target] using hkey)
    · exact .report (.pause hc (.pause rfl (by simp))) _
  split
  · exact .after (engine.sample_quiet _) fun sampled => hrest sampled _
  · exact .after (.pure _) fun sampled => hrest sampled _

theorem loadState_does (key default target : Value) :
    Does (engine.loadState label key default target) c
      (Action.Allows label c (.loadState key default target)) := by
  refine .after (label.requireCollaborator_quiet _ _) ?_
  intro store
  refine .after (label.require_quiet _ _) fun _ => .after (.look _) fun text => .require fun hgiven => ?_
  refine .after (.askSoftly _) ?_
  intro stored
  have hbind (v : Value) : Does (σ := σ) (StepM.bindVariable target v >>= fun _ => pure v) c
      (Action.Allows label c (.loadState key default target)) :=
    .report (.bindVariable fun _ hname => .bind ((Value.boundKey?_of_ne_null hgiven).trans hname)) _
  refine .ite (.after (.look _) hbind) (.after (.pure _) hbind)

theorem saveState_does (key : Value) (value? : Option Value) :
    Does (engine.saveState label key value?) c
      (Action.Allows label c (.saveState key value?)) := by
  refine .after (label.requireCollaborator_quiet _ _) ?_
  intro store
  refine .after (label.require_quiet _ _) fun _ => .after (.look _) ?_
  intro key
  refine .after (label.requirePresent_quiet _) fun _ => .after (.look _) ?_
  intro v
  refine .after (.attempt (.ask _)) ?_
  intro answer
  split
  · exact .of_quiet (.pure _) .none
  · exact .of_quiet (.bind (.written _) fun _ => .fail _) .none

/-- An action has one of the effects that it may have, or raises something and has none. -/
theorem perform_does (label : StepLabel) (act : Action) (hc : c.IsLocated) :
    Does (engine.perform label act) c (act.Allows label c) := by
  cases act with
  | log message =>
    refine .after (label.require_quiet _ _) fun _ => .after (.look _) ?_
    intro line
    exact .report (.change .log rfl) _
  | setVariable target value? =>
    refine .require fun hgiven => ?_
    refine .after (label.requirePresent_quiet _) fun _ => .after (.look _) fun v => ?_
    exact .report (.bindVariable fun _ hname => .bind ((Value.boundKey?_of_ne_null hgiven).trans hname)) _
  | finish value? =>
    refine .after (label.requirePresent_quiet _) fun _ => .after (.look _) ?_
    intro v
    exact .report (.change .finish rfl) _
  | callTool tool parameters target => exact engine.callTool_does tool parameters target
  | callFunction function parameters target =>
    exact engine.callFunction_does function parameters target
  | createObject template properties instructions target =>
    exact Creation.run_does engine hc template properties instructions target
  | loadObject template keys? instructions =>
    exact engine.loadObject_does hc template keys? instructions
  | agent instructions sampling target => exact engine.instructAgent_does hc instructions sampling target
  | loadState key default target => exact engine.loadState_does key default target
  | saveState key value? => exact engine.saveState_does key value?

/-- An action ends with one of its effects, or raises something and changes nothing of the run. -/
theorem perform_effect {act : Action} {t u : Situation σ} {r : Except Raised Value}
    (hlocated : t.context.IsLocated) (h : engine.perform label act t = (r, u)) :
    u.started = t.started ∧
      ∃ eff, act.Allows label t.context eff ∧ u.context = eff.apply t.context ∧
        (r.isOk = false → eff = .none) := by
  have hdoes := engine.perform_does label act hlocated t rfl
  unfold StepM.wp at hdoes
  rw [h] at hdoes
  cases r with
  | ok v =>
    obtain ⟨hstarted, eff, hallows, hctx⟩ := hdoes
    exact ⟨hstarted, eff, hallows, hctx, nofun⟩
  | error e => exact ⟨hdoes.2, .none, .none, hdoes.1, fun _ => rfl⟩

end Engine

end Actions

end Stepwise
