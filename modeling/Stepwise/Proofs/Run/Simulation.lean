-- SUMMARY: Runs with softer collaborators: what a gateway or a store raises leaves no trace in a run.
import Stepwise.Proofs.Run.Performing
import Stepwise.Proofs.Resume.Prepare

/-!
# Simulation

Two engines run the same steps from the same context, in related worlds. If one is softer than
the other, every step ends alike, leaves the same context and keeps the worlds related: where
the gateway or the store raises something, the steps take it for `null`. Hence a run cannot be
told from the run with softer collaborators, and a gateway that only raises is as good as none.
No step looks at the steps that have been set to work before, so these need not be the same.
-/

namespace Stepwise

variable {σ τ α β : Type} {R : σ → τ → Prop}

/-! ## Situations that agree -/

/-- The situations have the same context and related worlds. They may differ in the steps that have been
set to work. -/
structure Situation.Agrees (R : σ → τ → Prop) (s : Situation σ) (t : Situation τ) : Prop where
  context : s.context = t.context
  outside : R s.outside t.outside

namespace Situation.Agrees

variable {s : Situation σ} {t : Situation τ}

theorem start (h : Agrees R s t) (x : Step) : Agrees R (s.start x) (t.start x) :=
  ⟨h.context, h.outside⟩

theorem change (h : Agrees R s t) (f : Context → Context) : Agrees R (s.change f) (t.change f) :=
  ⟨congrArg f h.context, h.outside⟩

end Situation.Agrees

/-! ## Work that ends alike -/

namespace StepM

/-- From situations that agree, both kinds of work end with the same answer or fault, in situations that
agree again. -/
def Simulates (R : σ → τ → Prop) (m : StepM σ α) (n : StepM τ α) : Prop :=
  ∀ s t, Situation.Agrees R s t → (m s).1 = (n t).1 ∧ Situation.Agrees R (m s).2 (n t).2

namespace Simulates

/-- What is done alike in every context is done alike in situations that agree. -/
theorem of_act {m : StepM σ α} {n : StepM τ α} (h : ∀ c, ActAlike R c c m n) : Simulates R m n := by
  intro s t hst
  obtain ⟨hend, eff, hpaired⟩ := h t.context s t ⟨hst.context, rfl, hst.outside⟩
  exact ⟨hend, hpaired.first.trans hpaired.second.symm, hpaired.outside⟩

theorem of_read {m : StepM σ α} {n : StepM τ α} (h : ∀ c, ReadAlike R c c Eq m n) :
    Simulates R m n :=
  of_act fun c => .of_read (h c)

theorem pure (a : α) : Simulates R (Pure.pure a) (Pure.pure a) := of_read fun _ => .pure rfl

theorem bind {m : StepM σ β} {n : StepM τ β} {f : β → StepM σ α} {g : β → StepM τ α}
    (hm : Simulates R m n) (hf : ∀ b, Simulates R (f b) (g b)) :
    Simulates R (m >>= f) (n >>= g) := by
  intro s t hst
  obtain ⟨hend, hagrees⟩ := hm s t hst
  rw [bind_apply, bind_apply]
  generalize m s = p at hend hagrees ⊢
  generalize n t = q at hend hagrees ⊢
  obtain ⟨r, s'⟩ := p
  obtain ⟨_, t'⟩ := q
  cases hend
  cases r with
  | ok b => exact hf b s' t' hagrees
  | error e => exact ⟨rfl, hagrees⟩

theorem ite {p : Prop} [Decidable p] {m m' : StepM σ α} {n n' : StepM τ α}
    (h : Simulates R m n) (h' : Simulates R m' n') :
    Simulates R (if p then m else m') (if p then n else n') := by
  split
  · exact h
  · exact h'

theorem context : Simulates R (σ := σ) (τ := τ) StepM.context StepM.context :=
  fun _ _ hst => ⟨congrArg Except.ok hst.context, hst⟩

theorem change (f : Context → Context) : Simulates R (σ := σ) (τ := τ) (StepM.change f) (StepM.change f) :=
  fun _ _ hst => ⟨rfl, hst.change f⟩

theorem lift (answer : Except Fault α) :
    Simulates R (σ := σ) (τ := τ) (StepM.lift answer) (StepM.lift answer) :=
  of_read fun _ => (ReadAlike.lift answer).mono fun _ _ hab => hab.1

theorem look (f : Context → Except Fault α) :
    Simulates R (σ := σ) (τ := τ) (StepM.look f) (StepM.look f) :=
  of_read fun _ => (ReadAlike.look rfl).mono fun _ _ hab => hab.1

theorem require (label : StepLabel) (field : String) (v : Value) :
    Simulates R (σ := σ) (τ := τ) (label.require field v) (label.require field v) :=
  of_read fun _ => ReadAlike.require.mono fun _ _ hab => hab.1.symm.trans hab.2

theorem entry {again : Entry → α} {m : StepM σ α} {n : StepM τ α} (h : Simulates R m n) :
    Simulates R (StepM.entry again m) (StepM.entry again n) := by
  refine .bind .context fun c => .bind (.change _) fun _ => ?_
  split
  · exact .bind (.lift _) fun _ => .pure _
  · exact h

end Simulates

end StepM

/-! ## Steps -/

section Steps

open StepM (Simulates)

theorem Step.opening_simulates (x : Step) : Simulates R (σ := σ) (τ := τ) x.opening x.opening := by
  cases x with
  | action name act => exact .pure _
  | conditional name condition thenSteps elseSteps =>
    refine .bind (.require _ _ _) ?_
    intro condition
    refine .bind (.entry ?_) fun e => .lift _
    exact .bind (.look _) fun holds => .pure _
  | switch name subject cases default? =>
    refine .bind (.require _ _ _) fun subject => .bind (.look _) ?_
    intro v
    refine .bind (.entry ?_) fun e? => ?_
    · exact .bind (.look _) fun _ => .bind (.lift _) fun _ => .pure _
    · split
      · exact .bind (.look _) fun _ => .pure _
      · exact .lift _

namespace RunM

theorem unlessStopped_simulates {rest : RunM σ Unit} {rest' : RunM τ Unit}
    (h : Simulates R rest rest') : Simulates R (unlessStopped rest) (unlessStopped rest') := by
  intro s t hst
  rw [unlessStopped, unlessStopped, hst.context]
  split
  · exact ⟨rfl, hst⟩
  · exact h s t hst

theorem within_simulates (frame : Frame) {body : RunM σ α} {body' : RunM τ α}
    (h : Simulates R body body') : Simulates R (within frame body) (within frame body') := by
  intro s t hst
  obtain ⟨hend, hagrees⟩ := h _ _ (hst.change (·.enter frame.toValue))
  exact ⟨hend, hagrees.change Context.leave⟩

theorem closed_simulates (label : StepLabel) {body : StepM σ Value} {body' : StepM τ Value}
    (h : Simulates R body body') : Simulates R (closed label body) (closed label body') := by
  intro s t hst
  obtain ⟨hend, hagrees⟩ := h s t hst
  rw [closed, closed]
  generalize body s = p at hend hagrees ⊢
  generalize body' t = q at hend hagrees ⊢
  obtain ⟨r, s'⟩ := p
  obtain ⟨_, t'⟩ := q
  cases hend
  cases r with
  | ok output => exact ⟨rfl, hagrees.change (·.record (label.completed output))⟩
  | error raised =>
    dsimp only
    split
    · exact ⟨rfl, hagrees.change (·.record (label.failed raised))⟩
    · exact ⟨rfl, hagrees⟩

theorem recorded_simulates (x : Step) {body : StepM σ Value} {body' : StepM τ Value}
    (h : Simulates R body body') : Simulates R (recorded x body) (recorded x body') := by
  intro s t hst
  unfold recorded
  split
  · exact closed_simulates x.label h _ _ (hst.start x)
  · exact ⟨rfl, hst⟩

end RunM

theorem runPortion_simulates (start : Int) (length : Nat) {steps : Nat → Int → RunM σ Unit}
    {steps' : Nat → Int → RunM τ Unit}
    (h : ∀ skip index, Simulates R (steps skip index) (steps' skip index)) :
    Simulates R (runPortion start length steps) (runPortion start length steps') := by
  refine .ite (h _ _) (.ite (.lift _) ?_)
  exact .bind (h _ _) fun _ => RunM.unlessStopped_simulates (h _ _)

theorem Opening.run_simulates (opening : Opening) {branch : String → Nat → Int → RunM σ Unit}
    {branch' : String → Nat → Int → RunM τ Unit}
    (h : ∀ name skip index, Simulates R (branch name skip index) (branch' name skip index)) :
    Simulates R (opening.run branch) (opening.run branch') := by
  cases opening with
  | pass output => exact .pure _
  | enter name start steps output =>
    exact .bind (runPortion_simulates start steps.length (h name)) fun _ => .pure _

variable {soft : Engine σ} {hard : Engine τ}

mutual

/-- A step ends alike with softer collaborators. -/
theorem runStep_simulates (h : soft.Softens R hard) :
    (x : Step) → Simulates R (runStep soft x) (runStep hard x)
  | .action _ _ => RunM.recorded_simulates _ (.of_act fun _ => Engine.perform_alike h .rfl)
  | .conditional name condition thenSteps elseSteps => by
    refine RunM.recorded_simulates _ (.bind (Step.opening_simulates _) fun opening => ?_)
    refine opening.run_simulates ?_
    intro branch skip index
    exact .ite (runFrom_simulates h _ skip index thenSteps) (runFrom_simulates h _ skip index elseSteps)
  | .switch name subject cases default? => by
    refine RunM.recorded_simulates _ (.bind (Step.opening_simulates _) fun opening => ?_)
    refine opening.run_simulates ?_
    intro branch skip index
    exact .ite (runDefault_simulates h skip index default?)
      (runCase_simulates h branch skip index cases)

theorem runDefault_simulates (h : soft.Softens R hard) (skip : Nat) (index : Int) :
    (default? : Option (List Step)) →
      Simulates R (runDefault soft skip index default?) (runDefault hard skip index default?)
  | some steps => runFrom_simulates h _ skip index steps
  | none => .pure ()

theorem runCase_simulates (h : soft.Softens R hard) (branch : String) (skip : Nat) (index : Int) :
    (cases : List (String × List Step)) →
      Simulates R (runCase soft branch skip index cases) (runCase hard branch skip index cases)
  | [] => .pure ()
  | (_, steps) :: rest =>
    .ite (runFrom_simulates h _ skip index steps) (runCase_simulates h branch skip index rest)

theorem runFrom_simulates (h : soft.Softens R hard) (branch : String) (skip : Nat) (index : Int) :
    (xs : List Step) →
      Simulates R (runFrom soft branch skip index xs) (runFrom hard branch skip index xs)
  | [] => .pure ()
  | x :: rest =>
    match skip with
    | k + 1 => runFrom_simulates h branch k (index + 1) rest
    | 0 => .bind (RunM.within_simulates _ (runStep_simulates h x)) fun _ =>
      RunM.unlessStopped_simulates (runFrom_simulates h branch 0 (index + 1) rest)

end

theorem runAll_simulates (h : soft.Softens R hard) (index : Int) (xs : List Step) :
    Simulates R (runAll soft index xs) (runAll hard index xs) := by
  induction xs generalizing index with
  | nil => exact .pure ()
  | cons x rest ih =>
    refine .bind (.change (·.atStep index)) fun _ => .bind (runStep_simulates h x) fun _ => ?_
    exact RunM.unlessStopped_simulates (ih (index + 1))

end Steps

/-! ## Runs -/

/-- A run goes on alike from situations that agree. -/
theorem execute_simulates {soft : Engine σ} {hard : Engine τ} (h : soft.Softens R hard) (w : Workflow)
    (start : Int) {s : Situation σ} {t : Situation τ} (hst : Situation.Agrees R s t) :
    (execute soft w start s).1 = (execute hard w start t).1 ∧
      R (execute soft w start s).2 (execute hard w start t).2 := by
  obtain ⟨hend, hagrees⟩ := runAll_simulates h start (w.steps.drop start.toNat) s t hst
  rw [execute_eq_conclude, execute_eq_conclude, giveNothing, giveNothing, hend, hagrees.context]
  exact ⟨rfl, hagrees.outside⟩

/-- Collaborators that keep a record of what they are asked. The gateway and the store give the same
answer to whatever they are asked for. -/
def recorder (answer : Except Raised Value) : Engine (List (String × Value)) where
  tools? := some fun tool parameters calls =>
    (.ok tool, calls ++ [("tool", .list [tool, parameters])])
  store? := some {
    get := fun key calls => (answer, calls ++ [("get", .str key)])
    set := fun key v calls => (.ok (), calls ++ [("set", .list [.str key, v])]) }
  sampling? := some fun request calls => (answer, calls ++ [("sample", request.prompt)])

/-- The same collaborators but the gateway, which is absent. -/
def recorder.mute (answer : Except Raised Value) : Engine (List (String × Value)) :=
  { recorder answer with sampling? := none }

/-- The first record is the second without what the gateway was asked. -/
def OmitsRequests (calls calls' : List (String × Value)) : Prop :=
  calls = calls'.filter fun call => call.1 != "sample"

theorem OmitsRequests.append {calls calls' : List (String × Value)} (h : OmitsRequests calls calls')
    {call : String × Value} (hcall : (call.1 != "sample") = true) :
    OmitsRequests (calls ++ [call]) (calls' ++ [call]) := by
  simp [OmitsRequests, List.filter_append, hcall, h.symm]

theorem recorder_softens {e : Raised} (he : e.isSpellable = true) :
    (recorder (.ok .null)).Softens Eq (recorder (.error e)) where
  tools := .some fun _ _ => .refl _
  templates := .none
  store := by
    refine .some ⟨?_, fun _ _ => .refl _⟩
    rintro key o _ rfl
    exact ⟨.inr ⟨rfl, e, rfl, he⟩, rfl⟩
  sampling := by
    refine .some ?_
    rintro request o _ rfl
    exact ⟨.inr ⟨rfl, e, rfl, he⟩, rfl⟩
  functions := .nil
  settings := rfl

theorem recorder.mute_softens {e : Raised} (he : e.isSpellable = true) :
    (mute (.error e)).Softens OmitsRequests (recorder (.error e)) where
  tools := .some fun _ _ _ _ hop => ⟨rfl, hop.append rfl⟩
  templates := .none
  store := .some ⟨fun _ _ _ hop => ⟨.inl rfl, hop.append rfl⟩, fun _ _ _ _ hop => ⟨rfl, hop.append rfl⟩⟩
  sampling := by
    refine .absent ?_
    intro request o p hop
    refine ⟨?_, e, rfl, he⟩
    simp [OmitsRequests, hop.symm]
  functions := .nil
  settings := rfl

/-- A workflow that loads a value, calls a tool with it, and asks an agent in a branch. -/
def asksAround : Workflow where
  name := .str "survey"
  steps := [
    .action (.str "load") (.loadState (.str "k") (.int 1) (.str "x")),
    .action (.str "call") (.callTool (.str "t") (.dict [(.str "x", .str "\x7b\x7bx\x7d\x7d")]) .null),
    .conditional (.str "choice") (.str "true")
      [.action (.str "ask") (.agent [.str "go on"] true (.str "answer"))] []]

/-- A step that loads from a store that raises something without a text raises in its turn. -/
theorem recorder.load_raises {e : Raised} {crash : Crash} (h : e.spell = .error crash)
    (label : StepLabel) (s : Situation (List (String × Value))) :
    (recorder (.error e)).perform label (.loadState (.str "k") (.int 1) (.str "x")) s
      = (.error crash.raised, { s with outside := s.outside ++ [("get", .str "k")] }) := by
  let get : Ask (List (String × Value)) Value := fun calls => (.error e, calls ++ [("get", .str "k")])
  have hkey : label.require "key" (.str "k") s = (.ok (.str "k"), s) := rfl
  have htext : StepM.filledText (.str "k") s = (.ok "k", s) := rfl
  have htarget : label.require "resultVariable" (.str "x") s = (.ok (.str "x"), s) := rfl
  have hget : StepM.askSoftly get s
      = (.error crash.raised, { s with outside := s.outside ++ [("get", .str "k")] }) := by
    rw [StepM.askSoftly_of_error (show get s.outside = (.error e, _) from rfl), h]
    rfl
  simp only [Engine.perform, Engine.loadState, recorder, StepLabel.requireCollaborator, bind_apply,
    pure_apply, hkey, htext, htarget]
  rw [hget]

/-- What cannot be written out does leave a trace: a run whose store raises it never gets to the tool
that the run with `null` instead calls. -/
theorem recorder.stops_mutely {e : Raised} (h : e.isSpellable = false) :
    (run (recorder (.error e)) asksAround {} []).2.map (·.1) = ["get"] ∧
      (run (recorder (.ok .null)) asksAround {} []).2.map (·.1) = ["get", "tool", "sample"] := by
  refine ⟨?_, by decide +kernel⟩
  obtain ⟨crash, hcrash⟩ := Raised.not_isSpellable_iff.1 h
  obtain ⟨c, hprepare⟩ : ∃ c, prepare asksAround {} = .ok (0, c) := ⟨_, rfl⟩
  let t : Situation (List (String × Value)) := { context := c, outside := [] }
  obtain ⟨raised, u, hload, hu⟩ : ∃ raised u,
      runStep (recorder (.error e)) (.action (.str "load") (.loadState (.str "k") (.int 1) (.str "x")))
          (t.change (·.atStep 0)) = (.error raised, u) ∧ u.outside = [("get", .str "k")] := by
    rw [runStep, RunM.recorded_of_spellable rfl]
    obtain hclosed | ⟨_, hclosed⟩ := RunM.closed_of_raised _ (recorder.load_raises hcrash _ _)
    · exact ⟨_, _, hclosed, rfl⟩
    · exact ⟨_, _, hclosed, rfl⟩
  rw [(prepare_eq_ok.1 hprepare).run_eq, execute_eq_conclude, asksAround, Int.toNat_zero, List.drop_zero,
    runAll_cons, hload]
  simp only [hu, List.map_cons, List.map_nil]

end Stepwise
