-- SUMMARY: What the work inside a step may raise: what its collaborators have given up with, and errors of its own.
import Stepwise.Proofs.Run.WeakestPre
import Stepwise.Run.Action
import Stepwise.Run.Branching

/-!
# What is raised

Work inside a step raises faults and errors of its own, and what its collaborators give up
with. Most of the actions make an error of their own of the latter, which has to be written
out for that; the call of a tool passes on step errors, and the two actions that ask for the
rows of a template pass on whatever the provider raises. So a property of everything that
may be raised need only be checked for these: the laws below carry it through every action.
-/

namespace Stepwise

variable {σ α β : Type}

/-! ## Collaborators that give up -/

/-- A collaborator of the engine gives up: it raises that, and leaves the world so. -/
inductive Engine.GivesUp (engine : Engine σ) : Raised → σ → Prop
  | tool {call : ToolCaller σ} {tool parameters : Value} {world left : σ} {raised : Raised} :
    engine.tools? = some call → call tool parameters world = (.error raised, left) →
    GivesUp engine raised left
  | template {provider : SchemaProvider σ} {id : Value} {world left : σ} {raised : Raised} :
    engine.templates? = some provider → provider id world = (.error raised, left) →
    GivesUp engine raised left
  | get {store : StateStore σ} {key : String} {world left : σ} {raised : Raised} :
    engine.store? = some store → store.get key world = (.error raised, left) →
    GivesUp engine raised left
  | set {store : StateStore σ} {key : String} {v : Value} {world left : σ} {raised : Raised} :
    engine.store? = some store → store.set key v world = (.error raised, left) →
    GivesUp engine raised left
  | sampling {request : SamplingGateway σ} {r : SamplingRequest} {world left : σ} {raised : Raised} :
    engine.sampling? = some request → request r world = (.error raised, left) →
    GivesUp engine raised left
  | function {f : RegisteredFunction σ} {parameters : Value} {world left : σ} {raised : Raised} :
    f ∈ engine.functions → f.handler parameters engine.tools? world = (.error raised, left) →
    GivesUp engine raised left

/-- Whatever the collaborators give up with can be written out. -/
def Engine.IsArticulate (engine : Engine σ) : Prop :=
  ∀ raised left, engine.GivesUp raised left → raised.isSpellable = true

/-- A collaborator of the engine gives up with what cannot be written out, and leaves the world so. -/
def Engine.GivesUpMutely (engine : Engine σ) (left : σ) : Prop :=
  ∃ raised, engine.GivesUp raised left ∧ raised.isSpellable = false

/-- The error is not the action's own: the collaborator that the action asks has raised it instead of an
answer, and has left the world so. -/
inductive Engine.PassesOn (engine : Engine σ) : Action → StepError → σ → Prop
  | tool {call : ToolCaller σ} {tool given parameters target : Value} {world left : σ} {e : StepError} :
    engine.tools? = some call → call tool given world = (.error (.step e), left) →
    PassesOn engine (.callTool tool parameters target) e left
  | created {provider : SchemaProvider σ} {id template properties target : Value}
      {instructions : List Value} {world left : σ} {e : StepError} :
    engine.templates? = some provider → provider id world = (.error (.step e), left) →
    PassesOn engine (.createObject template properties instructions target) e left
  | loaded {provider : SchemaProvider σ} {id template : Value} {keys? : Option (List Value)}
      {instructions : List Value} {world left : σ} {e : StepError} :
    engine.templates? = some provider → provider id world = (.error (.step e), left) →
    PassesOn engine (.loadObject template keys? instructions) e left

/-! ## What a step may raise -/

/-- `P` holds of the faults that a step meets and of the errors that it reports itself, whatever the world
that is left. -/
structure StepLabel.MayRaise (label : StepLabel) (P : Raised → σ → Prop) : Prop where
  fault : ∀ f left, P (.fault f) left
  own : ∀ {problem : Problem}, problem.isMute = false →
    ∀ cause? left, P (.ofStep (label.error problem cause?)) left
  unnamed : ∀ template names left, P (.ofStep { problem := .unknownProperties template names }) left

/-- `P` holds of whatever the action may raise: besides what any step may raise, the errors that it passes
on, and of what collaborators give up with what cannot be written out and what comes of writing it out. -/
structure Engine.MayRaise (engine : Engine σ) (label : StepLabel) (act : Action)
    (P : Raised → σ → Prop) : Prop extends label.MayRaise P where
  foreign : ∀ e left, engine.PassesOn act e left → P (.step e) left
  mute : ∀ kind instead left, engine.GivesUp (.mute kind instead) left → P (.mute kind instead) left
  crash : ∀ raised crash left, engine.GivesUp raised left → raised.spell = .error crash →
    P crash.raised left

namespace StepM

/-- Whatever the work raises, `P` holds of it with the world that is left. -/
def Raises (m : StepM σ α) (P : Raised → σ → Prop) : Prop :=
  ∀ t, wp m (fun _ _ => True) (fun raised u => P raised u.outside) t

namespace Raises

variable {label : StepLabel} {P : Raised → σ → Prop}

theorem apply {m : StepM σ α} {t u : Situation σ} {raised : Raised} (h : m.Raises P)
    (hm : m t = (.error raised, u)) : P raised u.outside := by
  have hends := h t
  rw [wp, hm] at hends
  exact hends

theorem pure (a : α) : (Pure.pure a : StepM σ α).Raises P := fun _ => trivial

theorem bind {m : StepM σ β} {f : β → StepM σ α} (hm : m.Raises P) (hf : ∀ b, (f b).Raises P) :
    (m >>= f).Raises P := by
  intro t
  rw [wp_bind]
  exact (hm t).mono (fun b u _ => hf b u) fun _ _ h => h

theorem ite {p : Prop} [Decidable p] {m n : StepM σ α} (hm : m.Raises P) (hn : n.Raises P) :
    (if p then m else n).Raises P := by
  split
  · exact hm
  · exact hn

theorem context : (StepM.context : StepM σ Context).Raises P := fun _ => trivial

theorem change (f : Context → Context) : (StepM.change f : StepM σ Unit).Raises P := fun _ => trivial

/-- What is asked outright raises what it is answered with. -/
theorem ask {question : Ask σ α}
    (h : ∀ raised world left, question world = (.error raised, left) → P raised left) :
    (StepM.ask question).Raises P :=
  fun _ => wp_ask.2 ⟨fun _ _ _ => trivial, fun raised left hraised => h raised _ left hraised⟩

/-- What is attempted and then made something else of, which may take writing it out. -/
theorem attemptAsk {question : Ask σ α} {f : Except Raised α → StepM σ β}
    (hanswer : ∀ a, (f (.ok a)).Raises P)
    (hraised : ∀ raised world (t : Situation σ), question world = (.error raised, t.outside) →
      wp (f (.error raised)) (fun _ _ => True) (fun raised u => P raised u.outside) t) :
    (StepM.attempt (StepM.ask question) >>= f).Raises P := by
  intro t
  rw [wp_bind, wp_attempt, wp_ask]
  exact ⟨fun a left _ => hanswer a _, fun raised left h => hraised raised _ { t with outside := left } h⟩

/-- Writing out ends with the text or with the crash. -/
theorem wp_written_bind {text : Except Crash String} {f : String → StepM σ α} {t : Situation σ}
    (hcrash : ∀ crash, text = .error crash → P crash.raised t.outside)
    (hf : ∀ reason, (f reason).Raises P) :
    wp (StepM.written text >>= f) (fun _ _ => True) (fun raised u => P raised u.outside) t := by
  rw [wp_bind, wp_written]
  exact ⟨fun reason _ => hf reason t, hcrash⟩

section Own

variable (h : label.MayRaise P)

include h

theorem lift (answer : Except Fault α) : (StepM.lift answer : StepM σ α).Raises P :=
  fun _ => wp_lift.2 ⟨fun _ _ => trivial, fun _ _ => h.fault _ _⟩

theorem look (f : Context → Except Fault α) : (StepM.look f : StepM σ α).Raises P :=
  fun _ => wp_look.2 ⟨fun _ _ => trivial, fun _ _ => h.fault _ _⟩

theorem update (f : Context → Except Fault α × Context) : (StepM.update f : StepM σ α).Raises P :=
  fun _ => wp_update.2 ⟨fun _ _ _ => trivial, fun _ _ _ => h.fault _ _⟩

/-- An error of the step at work. -/
theorem own {problem : Problem} (hvoiced : problem.isMute = false) (cause? : Option Cause) :
    (StepM.fail (label.error problem cause?) : StepM σ α).Raises P :=
  fun _ => h.own hvoiced cause? _

theorem bindVariable (name v : Value) : (StepM.bindVariable name v : StepM σ Unit).Raises P :=
  .bind (.lift h _) fun _ => .change _

theorem bindIfNamed (name v : Value) : (StepM.bindIfNamed name v : StepM σ Unit).Raises P :=
  .ite (.bindVariable h name v) (.pure ())

theorem pause (lines : List String) (extra : List (String × Value)) :
    (label.pause lines extra : StepM σ Unit).Raises P :=
  .bind .context fun _ => .update h _

/-- A field that is there is what the work goes on with. -/
theorem require {field : String} {v : Value} {f : Value → StepM σ α} (hf : (f v).Raises P) :
    (label.require field v >>= f).Raises P := by
  intro t
  rw [wp_bind]
  unfold StepLabel.require
  split
  · exact h.own rfl none _
  · exact hf t

theorem requirePresent (v? : Option Value) : (label.requirePresent v? : StepM σ Value).Raises P := by
  cases v? with
  | some v => exact .pure v
  | none => exact .own h rfl none

/-- A collaborator that the engine has been given is what the work goes on with. -/
theorem requireCollaborator {collaborator : String} {given? : Option β} {f : β → StepM σ α}
    (hf : ∀ b, given? = some b → (f b).Raises P) :
    (label.requireCollaborator collaborator given? >>= f).Raises P := by
  intro t
  rw [wp_bind]
  cases given? with
  | some b => exact hf b rfl t
  | none => exact h.own rfl none _

end Own

/-- A tool that raises makes the step fail with an error of its own. -/
theorem askTool (h : label.MayRaise P) {tool : Value} {question : Ask σ α}
    (hcrash : ∀ raised world left crash, question world = (.error raised, left) →
      raised.spell = .error crash → P crash.raised left) :
    (label.askTool tool question).Raises P := by
  refine .attemptAsk .pure fun raised world t hraised => wp_written_bind ?_ fun _ => .own h rfl _
  exact fun crash => hcrash raised world t.outside crash hraised

/-- What is asked softly raises at most what comes of writing out what was raised. -/
theorem askSoftly {question : Ask σ Value}
    (hcrash : ∀ raised world left crash, question world = (.error raised, left) →
      raised.spell = .error crash → P crash.raised left) :
    (StepM.askSoftly question).Raises P := by
  refine .attemptAsk .pure fun raised world t hraised => wp_written_bind ?_ fun _ => .pure _
  exact fun crash => hcrash raised world t.outside crash hraised

end Raises

end StepM

/-! ## Openings -/

/-- A container that cannot be opened raises what any step may raise. -/
theorem Step.opening_raises {s : Step} {P : Raised → σ → Prop} (h : s.label.MayRaise P) :
    (s.opening : StepM σ Opening).Raises P := by
  have entry_raises {α : Type} {again : Entry → α} {afresh : StepM σ α} (hafresh : afresh.Raises P) :
      (StepM.entry again afresh).Raises P := by
    refine .bind .context fun c => .bind (.change _) fun _ => ?_
    split
    · exact .bind (.lift h _) fun e => .pure _
    · exact hafresh
  cases s with
  | action => exact .pure _
  | conditional =>
    refine .require h (.bind (entry_raises ?_) fun e => .lift h _)
    exact .bind (.look h _) fun holds => .pure _
  | switch =>
    refine .require h (.bind (.look h _) fun v => .bind (entry_raises ?_) fun e? => ?_)
    · exact .bind (.look h _) fun subject => .bind (.lift h _) fun text? => .pure _
    · cases e? with
      | none => exact .bind (.look h _) fun _ => .pure _
      | some e => exact .lift h _

/-! ## The ten actions -/

section Actions

variable {label : StepLabel} {P : Raised → σ → Prop}

open StepM

/-- What a collaborator gives up with may be raised as it is, if the action passes on its step errors. -/
theorem Engine.MayRaise.given {engine : Engine σ} {act : Action} {raised : Raised} {left : σ}
    (h : engine.MayRaise label act P) (hgives : engine.GivesUp raised left)
    (hforeign : ∀ e, raised = .step e → engine.PassesOn act e left) : P raised left := by
  cases raised with
  | fault f => exact h.fault f left
  | step e => exact h.foreign e left (hforeign e rfl)
  | mute kind instead => exact h.mute kind instead left hgives

namespace Creation

theorem requireKnown_raises (h : label.MayRaise P) (template mappings : Value)
    (index : List (Key × PropertySchema)) :
    (requireKnown template index mappings : StepM σ Unit).Raises P := by
  refine .bind (.lift h _) fun keys => .ite (.pure _) ?_
  exact .bind (.look h _) fun _ => .bind (.lift h _) fun names _ => h.unnamed _ _ _

theorem askAgent_raises (h : label.MayRaise P) (template : Value) (index : List (Key × PropertySchema))
    (division : Division) (instructions : List Value) :
    (askAgent label template index division instructions : StepM σ Value).Raises P := by
  refine .bind (.look h _) fun lines => .bind (.look h _) fun shown => .bind (.lift h _) fun wanted => ?_
  exact .bind (.lift h _) fun names => .bind (.pause h _ _) fun _ => .pure _

variable {engine : Engine σ} {act : Action}

theorem create_raises (h : engine.MayRaise label act P) (template : Value) (properties : Dict)
    (target : Value) : (create engine label template properties target).Raises P := by
  have hown := h.toMayRaise
  refine .requireCollaborator hown fun call hcall => .bind (.look hown _) fun _ => ?_
  refine .bind (.look hown _) fun given => ?_
  refine .bind (.askTool hown fun raised world left crash hraised => ?_) fun result => ?_
  · exact h.crash raised crash left (.tool hcall hraised)
  · exact .bind (.bindIfNamed hown _ _) fun _ => .pure _

theorem run_raises {template properties target : Value} {instructions : List Value}
    (h : engine.MayRaise label (.createObject template properties instructions target) P) :
    (run engine label template properties instructions target).Raises P := by
  have hown := h.toMayRaise
  refine .requireCollaborator hown fun provider hprovider => ?_
  refine .require hown (.bind (.look hown _) fun id => ?_)
  refine .require hown (.bind (.look hown _) fun given => ?_)
  refine .bind (.ask fun raised world left hraised => ?_) fun rows => ?_
  · exact h.given (.template hprovider hraised) fun e he => .created hprovider (he ▸ hraised)
  refine .bind (.lift hown _) fun index => .bind (.look hown _) fun shown => ?_
  refine .bind (requireKnown_raises hown _ _ _) fun _ => .bind (.lift hown _) fun mappings => ?_
  refine .bind (.look hown _) fun division => .ite ?_ ?_
  · exact create_raises h _ _ _
  · exact askAgent_raises hown _ _ _ _

end Creation

namespace Engine

variable {engine : Engine σ}

theorem sample_raises {act : Action} (h : engine.MayRaise label act P) (lines : List String) :
    (engine.sample lines).Raises P := by
  unfold sample
  split
  · rename_i request hrequest _
    refine .askSoftly fun raised world left crash hraised => ?_
    exact h.crash raised crash left (.sampling hrequest hraised)
  · exact .pure Value.null

theorem callTool_raises {tool parameters target : Value}
    (h : engine.MayRaise label (.callTool tool parameters target) P) :
    (engine.callTool label tool parameters target).Raises P := by
  have hown := h.toMayRaise
  refine .requireCollaborator hown fun call hcall => .require hown (.bind (.look hown _) fun filled => ?_)
  refine .bind (.look hown _) fun given => .bind (.look hown _) fun _ => .bind (.look hown _) fun _ => ?_
  refine .attemptAsk (fun v => ?_) fun raised world t hraised => ?_
  · exact .bind (.look hown _) fun _ => .bind (.bindIfNamed hown target v) fun _ => .pure v
  · cases raised with
    | step e => exact h.foreign e _ (.tool hcall hraised)
    | fault f => exact Raises.wp_written_bind nofun fun _ => .own hown rfl _
    | mute kind instead =>
      refine Raises.wp_written_bind (fun crash => ?_) fun _ => .own hown rfl _
      exact h.crash _ crash _ (.tool hcall hraised)

/-- A function answers whatever happens in it, unless that cannot be written out. -/
theorem runHandler_raises {act : Action} (h : engine.MayRaise label act P) {f : RegisteredFunction σ}
    (hf : f ∈ engine.functions) {name parameters : Value} {raised : Raised} {world left : σ}
    (hraised : FunctionRegistry.runHandler f name parameters engine.tools? world = (.error raised, left)) :
    P raised left := by
  unfold FunctionRegistry.runHandler at hraised
  split at hraised
  · cases hraised
  · rename_i e middle hcalled
    obtain ⟨hbroken, rfl⟩ := Prod.mk.inj hraised
    obtain ⟨crash, hcrash, rfl⟩ := Checks.mapError_error_iff.1 hbroken
    rcases Checks.bind_error_iff.1 hcrash with hname | ⟨_, -, hwords⟩
    · obtain ⟨f, -, rfl⟩ := Checks.mapError_error_iff.1 hname
      exact h.fault f _
    · refine h.crash e crash _ (.function hf hcalled) ?_
      rcases Checks.bind_error_iff.1 hwords with hwording | ⟨_, -, hpure⟩
      · cases e <;> simp_all [Functions.wordingOf, Raised.spell]
      · cases hpure

theorem askFunction_raises {act : Action} (h : engine.MayRaise label act P) (function parameters : Value) :
    (engine.askFunction label function parameters).Raises P := by
  have hown := h.toMayRaise
  intro t
  unfold askFunction
  rw [wp_bind, wp_lift]
  refine ⟨fun found? hfound => ?_, fun f _ => h.fault f _⟩
  cases found? with
  | some f =>
    have hf : f ∈ engine.functions := by
      obtain ⟨key, -, hfind⟩ := Checks.bind_iff.1 hfound
      exact List.mem_of_find?_eq_some (Except.ok.inj hfind)
    refine Raises.bind (.look hown _) (fun _ => ?_) t
    refine .bind (.ask fun raised world left hraised => ?_) fun result => ?_
    · exact runHandler_raises h hf hraised
    · exact .ite (.pure _) (.bind (.lift hown _) fun reason => .own hown rfl _)
  | none =>
    cases hcall : engine.tools? with
    | some call =>
      refine Raises.bind (.look hown _) (fun _ => .askTool hown fun raised world left crash hraised => ?_) t
      exact h.crash raised crash left (.tool hcall hraised)
    | none => exact Raises.own hown rfl none t

theorem callFunction_raises {act : Action} (h : engine.MayRaise label act P)
    (function parameters target : Value) :
    (engine.callFunction label function parameters target).Raises P := by
  have hown := h.toMayRaise
  refine .require hown (.bind (.look hown _) fun filled => .bind (.look hown _) fun given => ?_)
  exact .bind (askFunction_raises h _ _) fun result => .bind (.bindIfNamed hown _ _) fun _ => .pure _

theorem loadObject_raises {template : Value} {keys? : Option (List Value)} {instructions : List Value}
    (h : engine.MayRaise label (.loadObject template keys? instructions) P) :
    (engine.loadObject label template keys? instructions).Raises P := by
  have hown := h.toMayRaise
  refine .requireCollaborator hown fun provider hprovider => ?_
  refine .require hown (.bind (.look hown _) fun id => ?_)
  refine .bind (.look hown _) fun given => .bind (.ask fun raised world left hraised => ?_) fun rows => ?_
  · exact h.given (.template hprovider hraised) fun e he => .loaded hprovider (he ▸ hraised)
  refine .bind (.lift hown _) fun schemas => .bind (.look hown _) fun lines => ?_
  refine .bind (.lift hown _) fun wanted => ?_
  exact .bind (sample_raises h _) fun sampled => .bind (.look hown _) fun _ =>
    .bind (.pause hown _ _) fun _ => .pure _

theorem instructAgent_raises {act : Action} (h : engine.MayRaise label act P) (instructions : List Value)
    (sampling : Bool) (target : Value) :
    (engine.instructAgent label instructions sampling target).Raises P := by
  have hown := h.toMayRaise
  refine .require hown (.bind (.look hown _) fun lines => ?_)
  have hrest (sampled output : Value) :
      (if !sampled.isNull then
          bindIfNamed target sampled >>= fun _ =>
            label.pause lines [("sampling_result", sampled)] >>= fun _ => pure output
        else label.pause lines [("sampling_result", sampled)] >>= fun _ => pure output :
          StepM σ Value).Raises P :=
    .ite (.bind (.bindIfNamed hown _ _) fun _ => .bind (.pause hown _ _) fun _ => .pure _)
      (.bind (.pause hown _ _) fun _ => .pure _)
  split
  · exact .bind (sample_raises h _) fun sampled => hrest sampled _
  · exact .bind (.pure _) fun sampled => hrest sampled _

theorem loadState_raises {act : Action} (h : engine.MayRaise label act P) (key default target : Value) :
    (engine.loadState label key default target).Raises P := by
  have hown := h.toMayRaise
  refine .requireCollaborator hown fun store hstore => .require hown (.bind (.look hown _) fun text => ?_)
  refine .require hown ?_
  refine .bind (.askSoftly fun raised world left crash hraised => ?_) fun stored => .ite ?_ ?_
  · exact h.crash raised crash left (.get hstore hraised)
  · exact .bind (.look hown _) fun v => .bind (.bindVariable hown _ _) fun _ => .pure _
  · exact .bind (.pure _) fun v => .bind (.bindVariable hown _ _) fun _ => .pure _

theorem saveState_raises {act : Action} (h : engine.MayRaise label act P) (key : Value)
    (value? : Option Value) : (engine.saveState label key value?).Raises P := by
  have hown := h.toMayRaise
  refine .requireCollaborator hown fun store hstore => .require hown (.bind (.look hown _) fun text => ?_)
  refine .bind (.requirePresent hown _) fun _ => .bind (.look hown _) fun v => ?_
  refine .attemptAsk (fun _ => .pure _) fun raised world t hraised => ?_
  exact Raises.wp_written_bind (fun crash => h.crash raised crash _ (.set hstore hraised)) fun _ =>
    .own hown rfl _

/-- Whatever holds of what the action may raise holds of what it raises. -/
theorem perform_raises {act : Action} (h : engine.MayRaise label act P) :
    (engine.perform label act).Raises P := by
  have hown := h.toMayRaise
  cases act with
  | log message => exact .require hown (.bind (.look hown _) fun line => .bind (.change _) fun _ => .pure _)
  | setVariable target value? =>
    refine .require hown (.bind (.requirePresent hown _) fun _ => .bind (.look hown _) fun v => ?_)
    exact .bind (.bindVariable hown _ _) fun _ => .pure _
  | finish value? =>
    refine .bind (.requirePresent hown _) fun _ => .bind (.look hown _) fun v => ?_
    exact .bind (.change _) fun _ => .pure _
  | callTool tool parameters target => exact callTool_raises h
  | callFunction function parameters target => exact callFunction_raises h _ _ _
  | createObject template properties instructions target => exact Creation.run_raises h
  | loadObject template keys? instructions => exact loadObject_raises h
  | agent instructions sampling target => exact instructAgent_raises h _ _ _
  | loadState key default target => exact loadState_raises h _ _ _
  | saveState key value? => exact saveState_raises h _ _

end Engine

end Actions

/-! ## What can be written out -/

/-- What a step claims can be written out if its name and what was raised can. -/
theorem StepLabel.isSpellable_claim {label : StepLabel} {raised : Raised}
    (hname : label.name.isSpellable = true) (h : raised.isSpellable = true) :
    (Raised.step (label.claim raised)).isSpellable = true := by
  cases raised with
  | step e =>
    unfold claim
    dsimp only
    split
    · exact h
    · exact h
  | fault f =>
    have hspell := Problem.spell_of_isSpellable (p := .unforeseen label.name f) hname
    exact Raised.isSpellable_iff.2 hspell
  | mute kind instead => cases h

/-- What an action passes on a collaborator has given up with. -/
theorem Engine.PassesOn.givesUp {engine : Engine σ} {act : Action} {e : StepError} {left : σ}
    (h : engine.PassesOn act e left) : engine.GivesUp (.step e) left := by
  cases h with
  | tool hcall hraised => exact .tool hcall hraised
  | created hprovider hraised => exact .template hprovider hraised
  | loaded hprovider hraised => exact .template hprovider hraised

/-- What a collaborator gives up with can be written out, or it gives up mutely. -/
theorem Engine.GivesUp.spellable_or {engine : Engine σ} {raised : Raised} {left : σ}
    (h : engine.GivesUp raised left) : raised.isSpellable = true ∨ engine.GivesUpMutely left := by
  cases hspellable : raised.isSpellable with
  | true => exact .inl rfl
  | false => exact .inr ⟨raised, h, hspellable⟩

/-- What an action raises can be written out, unless a collaborator has given up with what cannot be. -/
theorem Engine.perform_spellable {engine : Engine σ} {label : StepLabel} {act : Action}
    {t u : Situation σ} {raised : Raised} (h : engine.perform label act t = (.error raised, u)) :
    raised.isSpellable = true ∨ engine.GivesUpMutely u.outside := by
  have hmay : engine.MayRaise label act fun raised left =>
      raised.isSpellable = true ∨ engine.GivesUpMutely left := {
    fault := fun _ _ => .inl rfl
    own := fun hvoiced _ _ => .inl (Raised.isSpellable_ofStep hvoiced)
    unnamed := fun _ _ _ => .inl (Raised.isSpellable_ofStep rfl)
    foreign := fun _ _ hforeign => hforeign.givesUp.spellable_or
    mute := fun _ _ _ hgives => hgives.spellable_or
    crash := fun given crash _ hgives hcrash =>
      .inr ⟨given, hgives, Raised.not_isSpellable_iff.2 ⟨crash, hcrash⟩⟩ }
  exact (Engine.perform_raises hmay).apply h

/-- Where the collaborators give up with what can be written out, so does an action. -/
theorem Engine.IsArticulate.mayRaise {engine : Engine σ} (h : engine.IsArticulate) (label : StepLabel)
    (act : Action) : engine.MayRaise label act fun raised _ => raised.isSpellable = true where
  fault _ _ := rfl
  own hvoiced _ _ := Raised.isSpellable_ofStep hvoiced
  unnamed _ _ _ := Raised.isSpellable_ofStep rfl
  foreign _ left hforeign := h _ left hforeign.givesUp
  mute _ _ left hgives := h _ left hgives
  crash raised _ left hgives hmute := absurd (h raised left hgives) (Raised.not_isSpellable_of_spell hmute)

end Stepwise
