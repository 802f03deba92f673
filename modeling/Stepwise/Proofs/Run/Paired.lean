-- SUMMARY: Work done twice, in two contexts and with two sets of collaborators, that ends alike.
import Stepwise.Proofs.Run.Effect
import Stepwise.Proofs.Template.Agreement
import Mathlib.Data.List.Forall2

/-!
# Paired work

The same work is done twice, the second time in another context and with other collaborators,
and the two worlds outside stay related. Work that only reads ends alike if both raise the
same or both answer, with related answers. Work that acts ends alike if besides that both
have the same effect on their contexts. An engine is softer than another if it answers alike,
except that its gateway and its store may answer `null` where the other's raise something that can
be written out.
-/

namespace Stepwise

variable {σ τ α β γ δ : Type} {R : σ → τ → Prop}

/-! ## Questions -/

/-- Asked in related worlds, the questions are answered alike and leave related worlds. -/
def Ask.Alike (R : σ → τ → Prop) (q : Ask σ α) (q' : Ask τ α) : Prop :=
  ∀ o p, R o p → (q o).1 = (q' p).1 ∧ R (q o).2 (q' p).2

/-- Asked in related worlds, the questions are answered alike, or the first is answered `null` where
the second raises something that can be written out. They leave related worlds. -/
def Ask.Softens (R : σ → τ → Prop) (q : Ask σ Value) (q' : Ask τ Value) : Prop :=
  ∀ o p, R o p →
    ((q o).1 = (q' p).1 ∨
      (q o).1 = .ok .null ∧ ∃ raised, (q' p).1 = .error raised ∧ raised.isSpellable = true) ∧
    R (q o).2 (q' p).2

theorem Ask.Alike.refl (q : Ask σ α) : Ask.Alike Eq q q := by
  rintro o _ rfl
  exact ⟨rfl, rfl⟩

theorem Ask.Alike.softens {q : Ask σ Value} {q' : Ask τ Value} (h : Ask.Alike R q q') :
    Ask.Softens R q q' :=
  fun o p hop => ⟨.inl (h o p hop).1, (h o p hop).2⟩

/-! ## Engines -/

/-- The first gateway answers `null` at most where the second raises something that can be written out.
Where there is no first gateway, the second raises such whatever it is asked. -/
inductive SamplingGateway.Softens (R : σ → τ → Prop) :
    Option (SamplingGateway σ) → Option (SamplingGateway τ) → Prop
  | none : Softens R none none
  | some {g : SamplingGateway σ} {g' : SamplingGateway τ} :
    (∀ r, Ask.Softens R (g r) (g' r)) → Softens R (some g) (some g')
  | absent {g' : SamplingGateway τ} :
    (∀ r o p, R o p →
      R o (g' r p).2 ∧ ∃ raised, (g' r p).1 = .error raised ∧ raised.isSpellable = true) →
    Softens R none (some g')

/-- The engines answer alike in related worlds, except that the gateway and the store of the first may
answer `null` where those of the second raise something that can be written out. -/
structure Engine.Softens (R : σ → τ → Prop) (soft : Engine σ) (hard : Engine τ) : Prop where
  tools : Option.Rel (fun call call' => ∀ tool parameters,
    Ask.Alike R (call tool parameters) (call' tool parameters)) soft.tools? hard.tools?
  templates : Option.Rel (fun provider provider' => ∀ template,
    Ask.Alike R (provider template) (provider' template)) soft.templates? hard.templates?
  store : Option.Rel (fun store store' => (∀ key, Ask.Softens R (store.get key) (store'.get key)) ∧
    ∀ key v, Ask.Alike R (store.set key v) (store'.set key v)) soft.store? hard.store?
  sampling : SamplingGateway.Softens R soft.sampling? hard.sampling?
  functions : List.Forall₂ (fun f f' => f.description = f'.description ∧ ∀ parameters,
    Ask.Alike R (f.handler parameters soft.tools?) (f'.handler parameters hard.tools?))
    soft.functions hard.functions
  settings : soft.settings = hard.settings

/-- An engine does what it does. -/
theorem Engine.Softens.refl (engine : Engine σ) : engine.Softens Eq engine where
  tools := by
    cases engine.tools? with
    | none => exact .none
    | some call => exact .some fun _ _ => .refl _
  templates := by
    cases engine.templates? with
    | none => exact .none
    | some provider => exact .some fun _ => .refl _
  store := by
    cases engine.store? with
    | none => exact .none
    | some store => exact .some ⟨fun _ => (Ask.Alike.refl _).softens, fun _ _ => .refl _⟩
  sampling := by
    cases engine.sampling? with
    | none => exact .none
    | some g => exact .some fun _ => (Ask.Alike.refl _).softens
  functions := List.forall₂_same.2 fun _ _ => ⟨rfl, fun _ => .refl _⟩
  settings := rfl

/-! ## Work side by side -/

/-- Both raise the same, or both answer and the answers are related. -/
inductive SameEnd (P : α → β → Prop) : Except Raised α → Except Raised β → Prop
  | ok {a : α} {b : β} : P a b → SameEnd P (.ok a) (.ok b)
  | error (e : Raised) : SameEnd P (.error e) (.error e)

theorem SameEnd.eq {r r' : Except Raised α} (h : SameEnd Eq r r') : r = r' := by
  cases h with
  | ok h => rw [h]
  | error e => rfl

theorem SameEnd.of_eq {r r' : Except Raised α} (h : r = r') : SameEnd Eq r r' := by
  subst h
  cases r with
  | ok a => exact .ok rfl
  | error e => exact .error e

theorem SameEnd.mono {P Q : α → β → Prop} {r : Except Raised α} {r' : Except Raised β}
    (h : SameEnd P r r') (hPQ : ∀ a b, P a b → Q a b) : SameEnd Q r r' := by
  cases h with
  | ok hab => exact .ok (hPQ _ _ hab)
  | error e => exact .error e

/-- The situations have come to the given contexts, and to related worlds. -/
structure Situation.Paired (R : σ → τ → Prop) (c d : Context) (s : Situation σ)
    (t : Situation τ) : Prop where
  first : s.context = c
  second : t.context = d
  outside : R s.outside t.outside

namespace StepM

/-- From two contexts and related worlds both kinds of work end alike, with answers related by `P`, and
leave the contexts as they are. -/
def ReadAlike (R : σ → τ → Prop) (c d : Context) (P : α → β → Prop) (m : StepM σ α)
    (n : StepM τ β) : Prop :=
  ∀ s t, Situation.Paired R c d s t →
    SameEnd P (m s).1 (n t).1 ∧ Situation.Paired R c d (m s).2 (n t).2

/-- From two contexts and related worlds both kinds of work end with the same answer or fault, and have
the same effect on the contexts. -/
def ActAlike (R : σ → τ → Prop) (c d : Context) (m : StepM σ α) (n : StepM τ α) : Prop :=
  ∀ s t, Situation.Paired R c d s t → (m s).1 = (n t).1 ∧
    ∃ eff : Effect, Situation.Paired R (eff.apply c) (eff.apply d) (m s).2 (n t).2

variable {c d : Context}

/-! ## Reading -/

namespace ReadAlike

variable {P : α → β → Prop}

theorem mono {Q : α → β → Prop} {m : StepM σ α} {n : StepM τ β} (h : ReadAlike R c d P m n)
    (hPQ : ∀ a b, P a b → Q a b) : ReadAlike R c d Q m n := by
  intro s t hst
  obtain ⟨hend, hpaired⟩ := h s t hst
  exact ⟨hend.mono hPQ, hpaired⟩

theorem pure {a : α} {b : β} (h : P a b) : ReadAlike R c d P (Pure.pure a) (Pure.pure b) :=
  fun _ _ hst => ⟨.ok h, hst⟩

theorem bind {Q : γ → δ → Prop} {m : StepM σ γ} {n : StepM τ δ} {f : γ → StepM σ α}
    {g : δ → StepM τ β} (hm : ReadAlike R c d Q m n)
    (hf : ∀ a b, Q a b → ReadAlike R c d P (f a) (g b)) : ReadAlike R c d P (m >>= f) (n >>= g) := by
  intro s t hst
  obtain ⟨hend, hpaired⟩ := hm s t hst
  rw [bind_apply, bind_apply]
  generalize m s = p at hend hpaired ⊢
  generalize n t = q at hend hpaired ⊢
  obtain ⟨r, s'⟩ := p
  obtain ⟨r', t'⟩ := q
  cases hend with
  | ok hab => exact hf _ _ hab s' t' hpaired
  | error e => exact ⟨.error e, hpaired⟩

theorem raise (raised : Raised) : ReadAlike R c d P (StepM.raise raised) (StepM.raise raised) :=
  fun _ _ hst => ⟨.error _, hst⟩

theorem fail (e : StepError) : ReadAlike R c d P (StepM.fail e) (StepM.fail e) :=
  fun _ _ hst => ⟨.error _, hst⟩

theorem lift_ok {a : α} {b : β} (h : P a b) :
    ReadAlike R c d P (StepM.lift (.ok a)) (StepM.lift (.ok b)) :=
  fun _ _ hst => ⟨.ok h, hst⟩

theorem lift_error (f : Fault) :
    ReadAlike R c d P (StepM.lift (.error f)) (StepM.lift (.error f)) :=
  fun _ _ hst => ⟨.error _, hst⟩

/-- What does not depend on the run is the same in both. -/
theorem lift (answer : Except Fault α) :
    ReadAlike R c d (fun a b => a = b ∧ answer = .ok a) (StepM.lift answer) (StepM.lift answer) := by
  cases answer with
  | ok a => exact lift_ok ⟨rfl, rfl⟩
  | error f => exact lift_error f

theorem written (text : Except Crash String) :
    ReadAlike R c d Eq (StepM.written text) (StepM.written text) := by
  intro s t hst
  cases text with
  | ok a => exact ⟨.ok rfl, hst⟩
  | error crash => exact ⟨.error _, hst⟩

/-- What is computed alike from both contexts is the same in both. -/
theorem look {f : Context → Except Fault α} (h : f c = f d) :
    ReadAlike R c d (fun a b => a = b ∧ f c = .ok a) (StepM.look f) (StepM.look f) := by
  intro s t hst
  refine ⟨?_, hst⟩
  have hlook (u : Situation σ) : (StepM.look f u).1 = (f u.context).mapError .fault := rfl
  have hlook' (u : Situation τ) : (StepM.look f u).1 = (f u.context).mapError .fault := rfl
  rw [hlook, hlook', hst.first, hst.second, ← h]
  cases f c with
  | ok a => exact .ok ⟨rfl, rfl⟩
  | error e => exact .error _

theorem context : ReadAlike R c d (fun a b => a = c ∧ b = d) StepM.context StepM.context :=
  fun _ _ hst => ⟨.ok ⟨hst.first, hst.second⟩, hst⟩

/-- A change that leaves both contexts as they are. -/
theorem change {f g : Context → Context} (hf : f c = c) (hg : g d = d) :
    ReadAlike R c d Eq (StepM.change f) (StepM.change g) := by
  intro s t hst
  obtain ⟨rfl, rfl, houtside⟩ := hst
  exact ⟨.ok rfl, hf, hg, houtside⟩

theorem ask {q : Ask σ α} {q' : Ask τ α} (h : Ask.Alike R q q') :
    ReadAlike R c d Eq (StepM.ask q) (StepM.ask q') := by
  intro s t hst
  obtain ⟨hanswer, hworld⟩ := h _ _ hst.outside
  exact ⟨.of_eq hanswer, hst.first, hst.second, hworld⟩

/-- What was raised may be looked at. -/
theorem attempt {m : StepM σ α} {n : StepM τ β} (h : ReadAlike R c d P m n) :
    ReadAlike R c d (SameEnd P) (StepM.attempt m) (StepM.attempt n) := by
  intro s t hst
  obtain ⟨hend, hpaired⟩ := h s t hst
  exact ⟨.ok hend, hpaired⟩

/-- A softened answer is the same to those who take what was raised for `null`. -/
theorem askSoftly {q : Ask σ Value} {q' : Ask τ Value} (h : Ask.Softens R q q') :
    ReadAlike R c d Eq (StepM.askSoftly q) (StepM.askSoftly q') := by
  intro s t hst
  obtain ⟨hanswer, hworld⟩ := h _ _ hst.outside
  have hpaired : Situation.Paired R c d { s with outside := (q s.outside).2 }
      { t with outside := (q' t.outside).2 } := ⟨hst.first, hst.second, hworld⟩
  obtain hsame | ⟨hnull, raised, herror, hspellable⟩ := hanswer
  · cases hend : (q' t.outside).1 with
    | ok v =>
      rw [askSoftly_of_ok (Prod.ext (hsame.trans hend) rfl), askSoftly_of_ok (Prod.ext hend rfl)]
      exact ⟨.ok rfl, hpaired⟩
    | error raised =>
      rw [askSoftly_of_error (Prod.ext (hsame.trans hend) rfl), askSoftly_of_error (Prod.ext hend rfl)]
      exact bind (written raised.spell) (fun _ _ _ => pure rfl) _ _ hpaired
  · rw [askSoftly_of_ok (Prod.ext hnull rfl), askSoftly_of_error (Prod.ext herror rfl),
      Raised.isSpellable_iff.1 hspellable]
    exact ⟨.ok rfl, hpaired⟩

/-- To ask in vain is like not to ask at all. -/
theorem askInVain {q : Ask τ Value}
    (h : ∀ o p, R o p → R o (q p).2 ∧ ∃ raised, (q p).1 = .error raised ∧ raised.isSpellable = true) :
    ReadAlike R c d Eq (Pure.pure .null) (StepM.askSoftly q) := by
  intro s t hst
  obtain ⟨hworld, raised, herror, hspellable⟩ := h _ _ hst.outside
  rw [askSoftly_of_error (Prod.ext herror rfl), Raised.isSpellable_iff.1 hspellable]
  exact ⟨.ok rfl, hst.first, hst.second, hworld⟩

theorem ite {p : Prop} [Decidable p] {m m' : StepM σ α} {n n' : StepM τ β}
    (h : ReadAlike R c d P m n) (h' : ReadAlike R c d P m' n') :
    ReadAlike R c d P (if p then m else m') (if p then n else n') := by
  split
  · exact h
  · exact h'

end ReadAlike

/-! ## Acting -/

namespace ActAlike

theorem of_read {m : StepM σ α} {n : StepM τ α} (h : ReadAlike R c d Eq m n) :
    ActAlike R c d m n := by
  intro s t hst
  obtain ⟨hend, hpaired⟩ := h s t hst
  exact ⟨hend.eq, .none, hpaired⟩

theorem pure (a : α) : ActAlike R c d (Pure.pure a) (Pure.pure a) := .of_read (.pure rfl)

theorem raise (raised : Raised) : ActAlike (α := α) R c d (StepM.raise raised) (StepM.raise raised) :=
  .of_read (.raise raised)

theorem fail (e : StepError) : ActAlike (α := α) R c d (StepM.fail e) (StepM.fail e) :=
  .of_read (.fail e)

/-- Reading may come first. -/
theorem after {P : β → γ → Prop} {m : StepM σ β} {n : StepM τ γ} {f : β → StepM σ α}
    {g : γ → StepM τ α} (hm : ReadAlike R c d P m n)
    (hf : ∀ a b, P a b → ActAlike R c d (f a) (g b)) : ActAlike R c d (m >>= f) (n >>= g) := by
  intro s t hst
  obtain ⟨hend, hpaired⟩ := hm s t hst
  rw [bind_apply, bind_apply]
  generalize m s = p at hend hpaired ⊢
  generalize n t = q at hend hpaired ⊢
  obtain ⟨r, s'⟩ := p
  obtain ⟨r', t'⟩ := q
  cases hend with
  | ok hab => exact hf _ _ hab s' t' hpaired
  | error e => exact ⟨rfl, .none, hpaired⟩

/-- What has been done may be reported. -/
theorem report {m : StepM σ β} {n : StepM τ β} (hm : ActAlike R c d m n) (f : β → α) :
    ActAlike R c d (m >>= fun b => Pure.pure (f b)) (n >>= fun b => Pure.pure (f b)) := by
  intro s t hst
  obtain ⟨hend, eff, hpaired⟩ := hm s t hst
  rw [bind_apply, bind_apply]
  generalize m s = p at hend hpaired ⊢
  generalize n t = q at hend hpaired ⊢
  obtain ⟨r, s'⟩ := p
  obtain ⟨_, t'⟩ := q
  cases hend
  cases r with
  | ok b => exact ⟨rfl, eff, hpaired⟩
  | error e => exact ⟨rfl, eff, hpaired⟩

theorem ite {p : Prop} [Decidable p] {m m' : StepM σ α} {n n' : StepM τ α}
    (h : ActAlike R c d m n) (h' : ActAlike R c d m' n') :
    ActAlike R c d (if p then m else m') (if p then n else n') := by
  split
  · exact h
  · exact h'

theorem change {f : Context → Context} (eff : Effect) (hf : f = eff.apply) :
    ActAlike R c d (StepM.change f) (StepM.change f) := by
  intro s t hst
  obtain ⟨rfl, rfl, houtside⟩ := hst
  subst hf
  exact ⟨rfl, eff, rfl, rfl, houtside⟩

theorem bindVariable (name v : Value) :
    ActAlike R c d (StepM.bindVariable name v) (StepM.bindVariable name v) := by
  refine .after (.lift _) ?_
  rintro key _ ⟨rfl, -⟩
  exact .change (.bind key v) rfl

theorem bindIfNamed (name v : Value) :
    ActAlike R c d (StepM.bindIfNamed name v) (StepM.bindIfNamed name v) :=
  .ite (.bindVariable name v) (.pure ())

end ActAlike

end StepM

/-! ## Standing at the same place -/

/-- The runs of both contexts are runs of one workflow, and they stand at the same place in it. -/
structure Context.SamePlace (c d : Context) : Prop where
  workflowName : c.workflowName = d.workflowName
  currentStep : c.currentStep = d.currentStep
  position : c.position = d.position

namespace Context.SamePlace

variable {c d : Context}

theorem rfl : c.SamePlace c := ⟨Eq.refl _, Eq.refl _, Eq.refl _⟩

theorem bindVariable (h : c.SamePlace d) (name : Key) (v : Value) :
    (c.bindVariable name v).SamePlace (d.bindVariable name v) :=
  ⟨h.workflowName, h.currentStep, h.position⟩

theorem payload (h : c.SamePlace d) (label : StepLabel) (lines : List String)
    (extra : List (String × Value)) : label.payload c lines extra = label.payload d lines extra := by
  simp only [StepLabel.payload, h.workflowName, h.currentStep]

theorem suspend (h : c.SamePlace d) (payload : Value) :
    (c.suspend payload).1 = (d.suspend payload).1 := by
  unfold Context.suspend
  rw [h.position]
  split <;> rfl

end Context.SamePlace

theorem StepLabel.pause_apply (label : StepLabel) (lines : List String)
    (extra : List (String × Value)) (s : Situation σ) :
    label.pause lines extra s
      = ((s.context.suspend (label.payload s.context lines extra)).1.mapError .fault,
        { s with context := (s.context.suspend (label.payload s.context lines extra)).2 }) := rfl

namespace StepM.ActAlike

variable {c d : Context} {label : StepLabel}

/-- A pause hands over the same payload wherever the runs stand at the same place. -/
theorem pause_paired (label : StepLabel) (h : c.SamePlace d) (lines : List String)
    (extra : List (String × Value))
    {s : Situation σ} {t : Situation τ} (hst : Situation.Paired R c d s t) :
    (label.pause lines extra s).1 = (label.pause lines extra t).1 ∧
      Situation.Paired R (c.suspend (label.payload c lines extra)).2
        (d.suspend (label.payload c lines extra)).2
        (label.pause lines extra s).2 (label.pause lines extra t).2 := by
  obtain ⟨rfl, rfl, houtside⟩ := hst
  rw [StepLabel.pause_apply, StepLabel.pause_apply, ← h.payload]
  exact ⟨congrArg (Except.mapError Raised.fault) (h.suspend _), rfl, rfl, houtside⟩

theorem pause (h : c.SamePlace d) (lines : List String) (extra : List (String × Value)) :
    ActAlike R c d (label.pause lines extra) (label.pause lines extra) := by
  intro s t hst
  obtain ⟨hend, hpaired⟩ := pause_paired label h lines extra hst
  exact ⟨hend, .pause none (label.payload c lines extra), hpaired⟩

/-- An agent's answer is bound before the run is paused. -/
theorem bindThenPause (h : c.SamePlace d) (name v output : Value) (lines : List String)
    (extra : List (String × Value)) :
    ActAlike R c d
      (StepM.bindIfNamed name v >>= fun _ => label.pause lines extra >>= fun _ => Pure.pure output)
      (StepM.bindIfNamed name v >>= fun _ => label.pause lines extra >>= fun _ => Pure.pure output) := by
  have hbound (key : Key) : ActAlike R c d
      (StepM.change (·.bindVariable key v) >>= fun _ => label.pause lines extra)
      (StepM.change (·.bindVariable key v) >>= fun _ => label.pause lines extra) := by
    rintro s t ⟨rfl, rfl, houtside⟩
    have hst : Situation.Paired R (s.context.bindVariable key v) (t.context.bindVariable key v)
        { s with context := s.context.bindVariable key v }
        { t with context := t.context.bindVariable key v } := ⟨rfl, rfl, houtside⟩
    obtain ⟨hend, hpaired⟩ := pause_paired label (h.bindVariable key v) lines extra hst
    exact ⟨hend, .pause (some (key, v)) (label.payload s.context lines extra), hpaired⟩
  unfold StepM.bindIfNamed
  split
  · simp only [StepM.bindVariable, bind_assoc]
    refine .after (.lift _) ?_
    rintro key _ ⟨rfl, -⟩
    simpa only [bind_assoc] using (hbound key).report fun _ => output
  · exact .after (.pure (P := Eq) rfl) fun _ _ _ => .report (pause h lines extra) _

end StepM.ActAlike

end Stepwise
