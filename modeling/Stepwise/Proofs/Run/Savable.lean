-- SUMMARY: Runs on data: while the collaborators answer data, everything in a run that goes on is data.
import Stepwise.Proofs.Run.Reach
import Stepwise.Proofs.Template.Data

/-!
# Savable runs

What a run hands over is data: where it refers to the log of the run, the lines of the log
are written. A run is *savable* where that changes nothing, because all that it holds is
data already. It starts so, and it stays so while its steps ask for the log in texts only
and its collaborators answer data, until a step pauses it or fails.
-/

namespace Stepwise

variable {σ α β : Type}

/-! ## Collaborators -/

/-- Asked in a world in which `I` holds, the question leaves a world in which it holds still, and `A`
holds of the answer. -/
def Ask.Answers (I : σ → Prop) (A : α → Prop) (question : Ask σ α) : Prop :=
  ∀ o, I o → I (question o).2 ∧ ∀ a, (question o).1 = .ok a → A a

/-- Collaborators that are given data answer data, in every world in which `I` holds, and leave a world
in which it holds still. Only the engine holds the log of a run in progress, so what is no data can come
from a collaborator only if the engine has handed it over before. -/
structure Engine.AnswersData (engine : Engine σ) (I : σ → Prop) : Prop where
  tool : ∀ call ∈ engine.tools?, ∀ tool parameters, parameters.isSettled = true →
    Ask.Answers I (·.isSettled = true) (call tool parameters)
  template : ∀ provider ∈ engine.templates?, ∀ template, template.isSettled = true →
    Ask.Answers I (fun _ => True) (provider template)
  stored : ∀ store ∈ engine.store?, ∀ key, Ask.Answers I (·.isSettled = true) (store.get key)
  storing : ∀ store ∈ engine.store?, ∀ key v, v.isSettled = true →
    Ask.Answers I (fun _ => True) (store.set key v)
  function : ∀ f ∈ engine.functions, ∀ parameters, parameters.isSettled = true →
    Ask.Answers I (fun r => r.success = true → r.data.isSettled = true)
      (f.handler parameters engine.tools?)

/-! ## Savable contexts -/

/-- Everything in the context stays as it is when it is saved: it holds data only, it has a history in
which all names count as true, and no pause has been noted in it. -/
structure Context.IsSavable (c : Context) : Prop extends c.IsData where
  history : c.results ≠ []
  names : ∀ r ∈ c.results, r.step.truthy = true
  suspendedPath : c.suspendedPath = []

theorem Context.IsSavable.record {c : Context} {r : StepResult} (h : c.IsSavable)
    (houtput : r.output.isSettled = true) (hname : r.step.truthy = true) :
    (c.record r).IsSavable where
  inputs := h.inputs
  bindings := h.bindings
  results := by
    intro r' hr'
    rcases List.mem_append.1 hr' with hr' | hr'
    · exact h.results r' hr'
    · cases List.mem_singleton.1 hr'
      exact houtput
  history := by simp
  names := by
    intro r' hr'
    rcases List.mem_append.1 hr' with hr' | hr'
    · exact h.names r' hr'
    · cases List.mem_singleton.1 hr'
      exact hname
  suspendedPath := h.suspendedPath

theorem Context.IsSavable.enter {c : Context} (h : c.IsSavable) (p : Place) (index : Int) :
    (p.enter index c).IsSavable := by
  cases p with
  | top => exact ⟨⟨h.inputs, h.bindings, h.results⟩, h.history, h.names, h.suspendedPath⟩
  | branch name => exact ⟨⟨h.inputs, h.bindings, h.results⟩, h.history, h.names, h.suspendedPath⟩

theorem Context.IsSavable.leave {c : Context} (h : c.IsSavable) (p : Place) :
    (p.leave c).IsSavable := by
  cases p with
  | top => exact h
  | branch name => exact ⟨⟨h.inputs, h.bindings, h.results⟩, h.history, h.names, h.suspendedPath⟩

/-- The context is savable, and `I` holds of the world outside. -/
structure Situation.IsSavable (I : σ → Prop) (t : Situation σ) : Prop where
  context : t.context.IsSavable
  outside : I t.outside

/-! ## Work that saves -/

namespace StepM

/-- In savable situations the work gives answers of which `A` holds, and it leaves savable situations
however it ends. -/
def Saves (I : σ → Prop) (m : StepM σ α) (A : α → Prop) : Prop :=
  ∀ s : Situation σ, s.IsSavable I →
    wp m (fun a t => t.IsSavable I ∧ A a) (fun _ t => t.IsSavable I) s

namespace Saves

variable {I : σ → Prop} {A : α → Prop} {B : β → Prop}

theorem pure {a : α} (h : A a) : Saves I (Pure.pure a) A := fun _ hs => ⟨hs, h⟩

theorem bind {m : StepM σ β} {f : β → StepM σ α} (hm : Saves I m B)
    (hf : ∀ b, B b → Saves I (f b) A) : Saves I (m >>= f) A := by
  intro s hs
  rw [wp_bind]
  exact (hm s hs).mono (fun b t ht => hf b ht.2 t ht.1) (fun _ _ ht => ht)

theorem raise (raised : Raised) : Saves I (StepM.raise raised) A := fun _ hs => hs

theorem fail (e : StepError) : Saves I (StepM.fail e) A := fun _ hs => hs

theorem lift {answer : Except Fault α} (h : ∀ a, answer = .ok a → A a) :
    Saves I (StepM.lift answer) A := by
  intro s hs
  exact wp_lift.2 ⟨fun a ha => ⟨hs, h a ha⟩, fun _ _ => hs⟩

theorem look {f : Context → Except Fault α}
    (h : ∀ c : Context, c.IsData → ∀ a, f c = .ok a → A a) : Saves I (StepM.look f) A := by
  intro s hs
  exact wp_look.2 ⟨fun a ha => ⟨hs, h _ hs.context.toIsData a ha⟩, fun _ _ => hs⟩

theorem written (text : Except Crash String) : Saves I (StepM.written text) fun _ => True :=
  fun _ hs => wp_written.2 ⟨fun _ _ => ⟨hs, trivial⟩, fun _ _ => hs⟩

/-- A look at the run whose answer does not matter. -/
theorem glance (f : Context → Except Fault α) : Saves I (StepM.look f) fun _ => True :=
  look fun _ _ _ _ => trivial

theorem change {f : Context → Context} (h : ∀ c : Context, c.IsSavable → (f c).IsSavable) :
    Saves I (StepM.change f) fun _ => True :=
  fun _ hs => ⟨⟨h _ hs.context, hs.outside⟩, trivial⟩

theorem ask {question : Ask σ α} (h : Ask.Answers I A question) : Saves I (StepM.ask question) A := by
  intro s hs
  obtain ⟨hworld, hanswer⟩ := h s.outside hs.outside
  refine wp_ask.2 ⟨fun a o ho => ?_, fun e o ho => ?_⟩
  · rw [ho] at hworld hanswer
    exact ⟨⟨hs.context, hworld⟩, hanswer a rfl⟩
  · rw [ho] at hworld
    exact ⟨hs.context, hworld⟩

theorem attempt {m : StepM σ α} (hm : Saves I m A) :
    Saves I (StepM.attempt m) fun r => ∀ a, r = .ok a → A a := by
  intro s hs
  refine wp_attempt.2 ((hm s hs).mono (fun a t ht => ⟨ht.1, fun a' ha' => ?_⟩) fun e t ht => ?_)
  · cases ha'
    exact ht.2
  · exact ⟨ht, nofun⟩

theorem ite {p : Prop} [Decidable p] {m n : StepM σ α} (hm : p → Saves I m A)
    (hn : ¬ p → Saves I n A) : Saves I (if p then m else n) A := by
  split
  · rename_i h
    exact hm h
  · rename_i h
    exact hn h

theorem bindVariable {name v : Value} (hv : v.isSettled = true) :
    Saves I (StepM.bindVariable name v) fun _ => True := by
  refine bind (lift fun _ _ => trivial) fun key _ => change ?_
  intro c hc
  exact ⟨⟨hc.inputs, hc.bindings.insert hv, hc.results⟩, hc.history, hc.names, hc.suspendedPath⟩

theorem bindIfNamed {name v : Value} (hv : v.isSettled = true) :
    Saves I (StepM.bindIfNamed name v) fun _ => True :=
  ite (fun _ => bindVariable hv) fun _ => pure trivial

theorem filled {v : Value} (hv : v.OmitsLog) : Saves I (StepM.filled v) (·.isSettled = true) :=
  look fun _ hc _ hw => Template.isSettled_fill hc v hv.isSettled hv.references hw

theorem settled {v : Value} (hv : v.isSettled = true) :
    Saves I (StepM.settled v) (·.isSettled = true) := by
  refine look ?_
  intro c _ w hw
  cases hw
  rwa [Context.settle, Value.settle_of_isSettled _ v hv]

theorem require {label : StepLabel} {field : String} {v : Value} :
    Saves I (label.require field v) (· = v) :=
  ite (fun _ => fail _) fun _ => pure rfl

theorem requirePresent {label : StepLabel} {v? : Option Value} :
    Saves I (label.requirePresent v?) (· ∈ v?) := by
  cases v? with
  | some v => exact pure rfl
  | none => exact fail _

theorem requireCollaborator {label : StepLabel} {collaborator : String} {given? : Option α} :
    Saves I (label.requireCollaborator collaborator given?) (· ∈ given?) := by
  cases given? with
  | some a => exact pure rfl
  | none => exact fail _

theorem askTool {label : StepLabel} {tool : Value} {question : Ask σ α}
    (h : Ask.Answers I A question) : Saves I (label.askTool tool question) A := by
  refine bind (attempt (ask h)) ?_
  intro answer hanswer
  cases answer with
  | ok a => exact pure (hanswer a rfl)
  | error raised => exact bind (written _) fun _ _ => fail _

theorem askSoftly {question : Ask σ Value} (h : Ask.Answers I (·.isSettled = true) question) :
    Saves I (StepM.askSoftly question) (·.isSettled = true) := by
  refine bind (attempt (ask h)) ?_
  intro answer hanswer
  cases answer with
  | ok v => exact pure (hanswer v rfl)
  | error raised => exact bind (written _) fun _ _ => pure rfl

end Saves

/-- The work has stopped the run if it gives an answer. -/
def Stops (m : StepM σ α) : Prop :=
  ∀ s : Situation σ, wp m (fun _ t => t.context.hasResult = true) (fun _ _ => True) s

namespace Stops

/-- Whatever comes before does not matter. -/
theorem after (m : StepM σ β) {f : β → StepM σ α} (hf : ∀ b, Stops (f b)) : Stops (m >>= f) := by
  intro s
  have hany : wp m (fun _ _ => True) (fun _ _ => True) s := by
    unfold wp
    split <;> trivial
  rw [wp_bind]
  exact hany.mono (fun b t _ => hf b t) fun _ _ _ => trivial

theorem report {m : StepM σ β} (hm : Stops m) (a : α) : Stops (m >>= fun _ => Pure.pure a) := by
  intro s
  rw [wp_bind]
  exact hm s

theorem pause (label : StepLabel) (lines : List String) (extra : List (String × Value)) :
    Stops (σ := σ) (label.pause lines extra) := by
  refine after _ fun c s => wp_update.2 ⟨fun _ d hd => ?_, fun _ _ _ => trivial⟩
  unfold Context.suspend at hd
  split at hd
  · cases hd
    rfl
  · cases hd

theorem ite {p : Prop} [Decidable p] {m n : StepM σ α} (hm : Stops m) (hn : Stops n) :
    Stops (if p then m else n) := by
  split
  · exact hm
  · exact hn

end Stops

/-- In savable situations the work leaves a savable situation and gives data, or it stops the run. -/
def SavesOrStops (I : σ → Prop) (m : StepM σ Value) : Prop :=
  ∀ s : Situation σ, s.IsSavable I →
    wp m (fun v t => t.context.hasResult = false → t.IsSavable I ∧ v.isSettled = true)
      (fun _ _ => True) s

namespace SavesOrStops

variable {I : σ → Prop} {m : StepM σ Value}

theorem of_saves (hm : Saves I m (·.isSettled = true)) : SavesOrStops I m := by
  intro s hs
  exact (hm s hs).mono (fun _ _ ht _ => ht) fun _ _ _ => trivial

theorem of_stops (hm : Stops m) : SavesOrStops I m := by
  intro s _
  refine (hm s).mono (fun _ _ ht hgo => ?_) fun _ _ _ => trivial
  rw [ht] at hgo
  cases hgo

theorem after {m : StepM σ β} {f : β → StepM σ Value} {B : β → Prop} (hm : Saves I m B)
    (hf : ∀ b, B b → SavesOrStops I (f b)) : SavesOrStops I (m >>= f) := by
  intro s hs
  rw [wp_bind]
  exact (hm s hs).mono (fun b t ht => hf b ht.2 t ht.1) fun _ _ _ => trivial

end SavesOrStops

end StepM

end Stepwise
