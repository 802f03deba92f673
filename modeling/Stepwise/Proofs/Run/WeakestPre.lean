-- SUMMARY: A weakest-precondition calculus for the work inside steps, and work that leaves the run alone.
import Stepwise.Proofs.Checks
import Stepwise.Run.Pause

/-!
# Weakest preconditions of a step's work

`StepM.wp m Q E s` says how the work `m` ends when it starts in the situation `s`: with an
answer for which `Q` holds, or with something raised for which `E` holds. There is one law
for each way of building work; proofs about actions use these laws and never open the
monad. Most of what an action does is *quiet*: it may ask the world outside, but the run
stays as it is.
-/

namespace Stepwise

variable {σ α β : Type}

namespace StepM

/-- How work ends: `Q` holds of its answer, or `E` of what it has raised. -/
def wp (m : StepM σ α) (Q : α → Situation σ → Prop) (E : Raised → Situation σ → Prop)
    (s : Situation σ) : Prop :=
  match m s with
  | (.ok a, t) => Q a t
  | (.error e, t) => E e t

/-- What holds at both ways to end, said of each of them. -/
private theorem ends_iff {ε γ : Type} (Q : α → γ → Prop) (E : ε → γ → Prop)
    {p : Except ε α × γ} :
    (match p with
      | (.ok a, t) => Q a t
      | (.error e, t) => E e t) ↔
    (∀ a t, p = (.ok a, t) → Q a t) ∧ ∀ e t, p = (.error e, t) → E e t := by
  rcases p with ⟨_ | _, _⟩ <;> simp

section Laws

variable {Q : α → Situation σ → Prop} {E : Raised → Situation σ → Prop} {s : Situation σ}

theorem wp_of_ok {m : StepM σ α} {a : α} {t : Situation σ} (h : m s = (.ok a, t)) :
    wp m Q E s ↔ Q a t := by
  rw [wp, h]

@[simp] theorem wp_pure (a : α) : wp (pure a) Q E s ↔ Q a s := Iff.rfl

@[simp] theorem wp_bind (m : StepM σ β) (f : β → StepM σ α) :
    wp (m >>= f) Q E s ↔ wp m (fun b t => wp (f b) Q E t) E s := by
  rw [wp, bind_apply, wp]
  rcases m s with ⟨_ | _, _⟩ <;> rfl

theorem wp.mono {m : StepM σ α} {Q' : α → Situation σ → Prop} {E' : Raised → Situation σ → Prop}
    (h : wp m Q E s) (hQ : ∀ a t, Q a t → Q' a t) (hE : ∀ e t, E e t → E' e t) :
    wp m Q' E' s := by
  unfold wp at h ⊢
  split at h
  · exact hQ _ _ h
  · exact hE _ _ h

/-- What holds in any case holds of work however it ends. -/
theorem wp_of_forall {m : StepM σ α} (hQ : ∀ a t, Q a t) (hE : ∀ e t, E e t) : wp m Q E s := by
  unfold wp
  split
  · exact hQ _ _
  · exact hE _ _

@[simp] theorem wp_context {Q : Context → Situation σ → Prop} :
    wp StepM.context Q E s ↔ Q s.context s := Iff.rfl

@[simp] theorem wp_change {Q : Unit → Situation σ → Prop} (f : Context → Context) :
    wp (change f) Q E s ↔ Q () { s with context := f s.context } := Iff.rfl

@[simp] theorem wp_raise (raised : Raised) : wp (raise raised) Q E s ↔ E raised s := Iff.rfl

@[simp] theorem wp_fail (e : StepError) : wp (fail e) Q E s ↔ E (.ofStep e) s := Iff.rfl

theorem wp_lift {answer : Except Fault α} :
    wp (lift answer) Q E s ↔
      (∀ a, answer = .ok a → Q a s) ∧ ∀ f, answer = .error f → E (.fault f) s := by
  cases answer <;> simp [wp, lift, Checks.mapError_ok, Checks.mapError_error]

theorem wp_written {text : Except Crash String} {Q : String → Situation σ → Prop} :
    wp (written text) Q E s ↔
      (∀ a, text = .ok a → Q a s) ∧ ∀ crash, text = .error crash → E crash.raised s := by
  cases text <;> simp [wp, written, Checks.mapError_ok, Checks.mapError_error]

theorem wp_look {f : Context → Except Fault α} :
    wp (look f) Q E s ↔
      (∀ a, f s.context = .ok a → Q a s) ∧ ∀ g, f s.context = .error g → E (.fault g) s := by
  unfold wp look
  cases f s.context <;> simp [Checks.mapError_ok, Checks.mapError_error]

theorem wp_ask {question : Ask σ α} :
    wp (ask question) Q E s ↔
      (∀ a o, question s.outside = (.ok a, o) → Q a { s with outside := o }) ∧
        ∀ e o, question s.outside = (.error e, o) → E e { s with outside := o } := by
  rw [← ends_iff (fun a o => Q a { s with outside := o }) fun e o => E e { s with outside := o }]
  have h : (ask question) s
      = ((question s.outside).1, { s with outside := (question s.outside).2 }) := rfl
  rw [wp, h]
  rcases question s.outside with ⟨_ | _, _⟩ <;> exact Iff.rfl

theorem wp_update {f : Context → Except Fault α × Context} :
    wp (update f) Q E s ↔
      (∀ a c, f s.context = (.ok a, c) → Q a { s with context := c }) ∧
        ∀ g c, f s.context = (.error g, c) → E (.fault g) { s with context := c } := by
  rw [← ends_iff (fun a c => Q a { s with context := c })
    fun g c => E (.fault g) { s with context := c }]
  have h : (update f) s
      = ((f s.context).1.mapError .fault, { s with context := (f s.context).2 }) := rfl
  rw [wp, h]
  rcases f s.context with ⟨_ | _, _⟩ <;> exact Iff.rfl

theorem wp_attempt {m : StepM σ β} {Q : Except Raised β → Situation σ → Prop} :
    wp (attempt m) Q E s ↔ wp m (fun b t => Q (.ok b) t) (fun e t => Q (.error e) t) s := by
  have h : attempt m s = (.ok (m s).1, (m s).2) := rfl
  unfold wp
  rw [h]
  rcases m s with ⟨_ | _, _⟩ <;> rfl

end Laws

/-! ## Quiet work -/

/-- The run is in the same state in both situations; the world outside may differ. -/
def SameRun (s t : Situation σ) : Prop := t.context = s.context ∧ t.started = s.started

theorem SameRun.rfl {s : Situation σ} : SameRun s s := ⟨Eq.refl _, Eq.refl _⟩

theorem SameRun.trans {s t u : Situation σ} (h : SameRun s t) (h' : SameRun t u) : SameRun s u :=
  ⟨h'.1.trans h.1, h'.2.trans h.2⟩

/-- The work leaves the run as it is, however it ends. -/
def Quiet (m : StepM σ α) : Prop :=
  ∀ s, wp m (fun _ t => SameRun s t) (fun _ t => SameRun s t) s

namespace Quiet

theorem pure (a : α) : Quiet (σ := σ) (Pure.pure a) := fun _ => SameRun.rfl

theorem bind {m : StepM σ β} {f : β → StepM σ α} (hm : Quiet m) (hf : ∀ b, Quiet (f b)) :
    Quiet (m >>= f) := by
  intro s
  rw [wp_bind]
  refine (hm s).mono (fun b t ht => ?_) (fun _ _ ht => ht)
  exact (hf b t).mono (fun _ _ h => ht.trans h) (fun _ _ h => ht.trans h)

theorem raise (raised : Raised) : Quiet (σ := σ) (α := α) (StepM.raise raised) := fun _ => SameRun.rfl

theorem fail (e : StepError) : Quiet (σ := σ) (α := α) (StepM.fail e) := fun _ => SameRun.rfl

theorem lift (answer : Except Fault α) : Quiet (σ := σ) (StepM.lift answer) := by
  intro s
  exact wp_lift.2 ⟨fun _ _ => SameRun.rfl, fun _ _ => SameRun.rfl⟩

theorem written (text : Except Crash String) : Quiet (σ := σ) (StepM.written text) := by
  intro s
  exact wp_written.2 ⟨fun _ _ => SameRun.rfl, fun _ _ => SameRun.rfl⟩

theorem look (f : Context → Except Fault α) : Quiet (σ := σ) (StepM.look f) := by
  intro s
  exact wp_look.2 ⟨fun _ _ => SameRun.rfl, fun _ _ => SameRun.rfl⟩

theorem ask (question : Ask σ α) : Quiet (StepM.ask question) := by
  intro s
  exact wp_ask.2 ⟨fun _ _ _ => ⟨Eq.refl _, Eq.refl _⟩, fun _ _ _ => ⟨Eq.refl _, Eq.refl _⟩⟩

theorem attempt {m : StepM σ α} (hm : Quiet m) : Quiet (StepM.attempt m) := by
  intro s
  exact wp_attempt.2 (hm s)

theorem ite {p : Prop} [Decidable p] {m n : StepM σ α} (hm : Quiet m) (hn : Quiet n) :
    Quiet (if p then m else n) := by
  split
  · exact hm
  · exact hn

end Quiet

/-- Quiet work hands a situation on in which the run is as it was. -/
theorem wp_bind_quiet {m : StepM σ β} {f : β → StepM σ α} {Q : α → Situation σ → Prop}
    {E : Raised → Situation σ → Prop} {s : Situation σ} (hm : Quiet m)
    (hQ : ∀ b t, SameRun s t → wp (f b) Q E t) (hE : ∀ e t, SameRun s t → E e t) :
    wp (m >>= f) Q E s := by
  rw [wp_bind]
  exact (hm s).mono hQ hE

end StepM

/-! ## The quiet parts of actions -/

namespace StepLabel

open StepM (Quiet)

/-- A required field is answered as it is. -/
theorem wp_require {label : StepLabel} {field : String} {v : Value}
    {Q : Value → Situation σ → Prop} {E : Raised → Situation σ → Prop} {s : Situation σ}
    (hQ : Q v s) (hE : ∀ e, E e s) : (label.require field v).wp Q E s := by
  unfold require
  split
  · exact StepM.wp_fail _ |>.2 (hE _)
  · exact StepM.wp_pure v |>.2 hQ

theorem require_quiet (label : StepLabel) (field : String) (v : Value) :
    Quiet (σ := σ) (label.require field v) :=
  .ite (.fail _) (.pure _)

theorem requirePresent_quiet (label : StepLabel) (v? : Option Value) :
    Quiet (σ := σ) (label.requirePresent v?) := by
  cases v? with
  | some v => exact .pure v
  | none => exact .fail _

theorem requireCollaborator_quiet (label : StepLabel) (collaborator : String) (given? : Option α) :
    Quiet (σ := σ) (label.requireCollaborator collaborator given?) := by
  cases given? with
  | some a => exact .pure a
  | none => exact .fail _

theorem askTool_quiet (label : StepLabel) (tool : Value) (question : Ask σ α) :
    Quiet (label.askTool tool question) := by
  refine .bind (.attempt (.ask question)) ?_
  intro answer
  cases answer with
  | ok a => exact .pure a
  | error raised => exact .bind (.written _) fun _ => .fail _

end StepLabel

theorem StepM.Quiet.askSoftly (question : Ask σ Value) : StepM.Quiet (StepM.askSoftly question) := by
  refine .bind (.attempt (.ask question)) ?_
  intro answer
  cases answer with
  | ok v => exact .pure v
  | error raised => exact .bind (.written _) fun _ => .pure Value.null

theorem Engine.sample_quiet (engine : Engine σ) (instructions : List String) :
    StepM.Quiet (engine.sample instructions) := by
  unfold Engine.sample
  split
  · exact .askSoftly _
  · exact .pure Value.null

end Stepwise
