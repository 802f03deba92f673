-- SUMMARY: The stop signal is final: behind the action that sets it only its containers are recorded.
import Mathlib.Data.List.Chain
import Stepwise.Proofs.Resume.Cut
import Stepwise.Proofs.Run.Induction
import Stepwise.Proofs.Run.Signal
import Stepwise.Proofs.Step.Postorder

/-!
# Stops

Once an action has ended or paused a run, every sequence on the way out ends where it is. No
other step is set to work and nobody outside is asked. The containers around the action are
recorded as completed, from the inside out, and this is all that still happens. It holds on
every resume path, whatever its frames hold.
-/

namespace Stepwise

variable {σ α : Type}

/-! ## What is left of a stop -/

/-- An action that has stopped a run. -/
structure Stop (σ : Type) where
  name : Value
  act : Action
  /-- The situation in which the action was set to work. -/
  found : Situation σ
  /-- The situation that its work has left. -/
  left : Situation σ
  output : Value

namespace Stop

def step (x : Stop σ) : Step := .action x.name x.act

/-- The situation `u` is what the stop has left of work that runs steps of `ss`: the action was set to
work last, its work has stopped the run as the last thing it did, and since then only the containers
around it have been recorded, innermost first, with their outputs. -/
structure IsBehind (x : Stop σ) (engine : Engine σ) (ss : List Step) (around : List (Step × Value))
    (u : Situation σ) : Prop where
  started : ∃ before, u.started = before ++ [{ step := x.step, context := x.found.context }]
  running : x.found.context.IsRunning
  performed : engine.perform x.step.label x.act x.found = (.ok x.output, x.left)
  halts : x.act.Halts x.step.label x.found.context x.output x.left.context
  signalsLast : StepM.SignalsLast (engine.perform x.step.label x.act)
  outside : u.outside = x.left.outside
  context : u.context = { x.left.context with
    results := x.left.context.results ++
      x.step.label.completed x.output :: around.map fun e => e.1.label.completed e.2
    position := u.context.position }
  nested : (x.step :: around.map (·.1)).IsChain fun y s => s.Contains y
  outermost : ∃ s ∈ ss, (x.step :: around.map (·.1)).getLast? = some s

namespace IsBehind

variable {x : Stop σ} {engine : Engine σ} {ss : List Step} {around : List (Step × Value)}
  {u : Situation σ}

theorem hasResult (h : x.IsBehind engine ss around u) : u.context.hasResult = true := by
  rw [h.context]
  exact h.halts.hasResult

theorem mono {ss' : List Step} (h : x.IsBehind engine ss around u) (hss : ss ⊆ ss') :
    x.IsBehind engine ss' around u := by
  obtain ⟨s, hs, hlast⟩ := h.outermost
  exact { h with outermost := ⟨s, hss hs, hlast⟩ }

/-- The way out of a branch changes the position only. -/
theorem leave (h : x.IsBehind engine ss around u) :
    x.IsBehind engine ss around (u.change Context.leave) :=
  { h with
    context := by
      rw [Situation.change, h.context]
      rfl }

/-- The container of a branch is recorded when the branch has ended. -/
theorem close {s : Step} {output : Value} (h : x.IsBehind engine ss around u) (hs : ss ∈ s.children) :
    x.IsBehind engine [s] (around ++ [(s, output)]) (u.change (·.record (s.label.completed output))) :=
  { h with
    context := by
      rw [Situation.change, h.context]
      simp [Context.record]
    nested := by
      rw [List.map_append, ← List.cons_append]
      exact ((Step.Nests.mk h.nested h.outermost).close hs).nested
    outermost := by
      rw [List.map_append, ← List.cons_append]
      exact ((Step.Nests.mk h.nested h.outermost).close hs).outermost }

end IsBehind

end Stop

/-! ## Work that halts -/

/-- Nothing has stopped the run, and each of its steps was set to work while nothing had. -/
structure Situation.IsUnderway (t : Situation σ) : Prop where
  running : t.context.IsRunning
  placed : t.context.IsPlaced
  starts : ∀ e ∈ t.started, e.context.IsRunning

namespace Situation.IsUnderway

variable {t : Situation σ}

theorem start (h : t.IsUnderway) (s : Step) : (t.start s).IsUnderway where
  running := h.running
  placed := h.placed
  starts := by
    intro e he
    rcases List.mem_append.1 he with he | he
    · exact h.starts e he
    · cases List.mem_singleton.1 he
      exact h.running

theorem enter (h : t.IsUnderway) (frame : Frame) : (t.change (·.enter frame.toValue)).IsUnderway where
  running := ⟨h.running.result, h.running.suspended⟩
  placed := h.placed.enter frame
  starts := h.starts

theorem atStep (h : t.IsUnderway) (index : Int) : (t.change (·.atStep index)).IsUnderway where
  running := ⟨h.running.result, h.running.suspended⟩
  placed := h.placed
  starts := h.starts

end Situation.IsUnderway

/-- Work that runs steps of `ss` has come back from `t` to where it was, and it has left the run going on,
or else an action has stopped the run and nothing was raised. -/
structure Situation.HaltsAs (engine : Engine σ) (ss : List Step) (t : Situation σ)
    (r : Except Raised α) (u : Situation σ) : Prop where
  position : u.context.position = t.context.position
  starts : ∀ e ∈ u.started, e.context.IsRunning
  ends : u.context.IsRunning ∨
    (∃ a, r = .ok a) ∧ ∃ (x : Stop σ) (around : List (Step × Value)), x.IsBehind engine ss around u

namespace Situation.HaltsAs

variable {engine : Engine σ} {ss : List Step} {t u : Situation σ} {r : Except Raised α}

theorem isUnderway (h : HaltsAs engine ss t r u) (ht : t.IsUnderway) (hgoes : u.context.IsRunning) :
    u.IsUnderway where
  running := hgoes
  placed := by
    rw [Context.IsPlaced, h.position]
    exact ht.placed
  starts := h.starts

theorem of_error {e : Raised} (h : HaltsAs engine ss t (.error e : Except Raised α) u) :
    u.context.IsRunning := by
  rcases h.ends with hgoes | ⟨⟨a, ha⟩, -⟩
  · exact hgoes
  · cases ha

end Situation.HaltsAs

/-- In a run that goes on, the work halts. -/
def RunM.HaltsFinally (engine : Engine σ) {α : Type} (ss : List Step) (m : RunM σ α) : Prop :=
  ∀ t : Situation σ, t.IsUnderway → t.HaltsAs engine ss (m t).1 (m t).2

namespace RunM.HaltsFinally

variable {engine : Engine σ} {ss : List Step}

/-- Work that leaves the run as it is. -/
theorem of_still {m : RunM σ α} (h : ∀ t, (m t).2 = t) : m.HaltsFinally engine ss := by
  intro t ht
  rw [h t]
  exact ⟨rfl, ht.starts, .inl ht.running⟩

theorem atStep {m : RunM σ Unit} (h : m.HaltsFinally engine ss) (index : Int) :
    (RunM.change (·.atStep index) >>= fun _ => m).HaltsFinally engine ss := by
  intro t ht
  have hchange : RunM.change (·.atStep index) t = (.ok (), t.change (·.atStep index)) := rfl
  rw [bind_of_ok hchange]
  obtain ⟨hposition, hstarts, hends⟩ := h _ (ht.atStep index)
  exact ⟨hposition, hstarts, hends⟩

theorem within {m : RunM σ StepResult} (h : m.HaltsFinally engine ss) (frame : Frame) :
    (RunM.within frame m).HaltsFinally engine ss := by
  intro t ht
  obtain ⟨hposition, hstarts, hends⟩ := h _ (ht.enter frame)
  have heq : RunM.within frame m t = ((m (t.change (·.enter frame.toValue))).1,
      (m (t.change (·.enter frame.toValue))).2.change Context.leave) := rfl
  rw [heq]
  refine ⟨Context.leave_position hposition, hstarts, ?_⟩
  rcases hends with hgoes | ⟨hok, x, around, hx⟩
  · exact .inl ⟨hgoes.result, hgoes.suspended⟩
  · exact .inr ⟨hok, x, around, hx.leave⟩

/-- A sequence ends where it has been stopped. -/
theorem andThen {m : RunM σ α} {rest : RunM σ Unit} (h : m.HaltsFinally engine ss)
    (hrest : rest.HaltsFinally engine ss) :
    (m >>= fun _ => RunM.unlessStopped rest).HaltsFinally engine ss := by
  intro t ht
  have hfirst := h t ht
  rw [bind_apply]
  generalize m t = p at hfirst ⊢
  obtain ⟨e | a, u⟩ := p
  · exact ⟨hfirst.position, hfirst.starts, .inl hfirst.of_error⟩
  · dsimp only at hfirst ⊢
    rcases hfirst.ends with hgoes | ⟨-, x, around, hx⟩
    · rw [RunM.unlessStopped_of_running hgoes.hasResult]
      obtain ⟨hposition, hstarts, hends⟩ := hrest u (hfirst.isUnderway ht hgoes)
      exact ⟨hposition.trans hfirst.position, hstarts, hends⟩
    · rw [RunM.unlessStopped_of_stopped hx.hasResult]
      exact ⟨hfirst.position, hfirst.starts, .inr ⟨⟨(), rfl⟩, x, around, hx⟩⟩

/-- What a step does between its start and its end, and then its entry. -/
theorem recorded {s : Step} {body : StepM σ Value}
    (h : ∀ t : Situation σ, (t.start s).IsUnderway →
      (body (t.start s)).2.context.position = t.context.position ∧
      (∀ e ∈ (body (t.start s)).2.started, e.context.IsRunning) ∧
      ((body (t.start s)).2.context.IsRunning ∨
        ∃ output, (body (t.start s)).1 = .ok output ∧ ∃ (x : Stop σ) (around : List (Step × Value)),
          x.IsBehind engine [s] around
            ((body (t.start s)).2.change (·.record (s.label.completed output))))) :
    (RunM.recorded s body).HaltsFinally engine [s] := by
  intro t ht
  cases hname : s.name.isSpellable with
  | false =>
    rw [RunM.recorded_of_unspellable hname]
    exact ⟨rfl, ht.starts, .inl ht.running⟩
  | true =>
    obtain ⟨hposition, hstarts, hends⟩ := h t (ht.start s)
    rw [RunM.recorded_of_spellable hname]
    cases hbody : body (t.start s) with
    | mk r u =>
      rw [hbody] at hposition hstarts hends
      cases r with
      | error e =>
        have hgoes := hends.resolve_right fun ⟨_, houtput, _⟩ => by cases houtput
        obtain hclosed | ⟨crash, hclosed⟩ := RunM.closed_of_raised s.label hbody
        · rw [hclosed]
          exact ⟨hposition, hstarts, .inl ⟨hgoes.result, hgoes.suspended⟩⟩
        · rw [hclosed]
          exact ⟨hposition, hstarts, .inl hgoes⟩
      | ok output =>
        rw [RunM.closed_of_ok hbody]
        refine ⟨hposition, hstarts, ?_⟩
        rcases hends with hgoes | ⟨output', houtput, x, around, hx⟩
        · exact .inl ⟨hgoes.result, hgoes.suspended⟩
        · cases houtput
          exact .inr ⟨⟨_, rfl⟩, x, around, hx⟩

/-- An action that stops the run is the stop. -/
theorem action (engine : Engine σ) (name : Value) (act : Action) :
    (RunM.recorded (.action name act) (engine.perform (Step.action name act).label act)).HaltsFinally
      engine [.action name act] := by
  refine recorded fun t ht => ?_
  cases hperform : engine.perform (Step.action name act).label act (t.start (.action name act)) with
  | mk r u =>
    obtain ⟨hstarted, hposition, hends⟩ := Engine.perform_stops ht.running ht.placed hperform
    refine ⟨hposition, hstarted ▸ ht.starts, ?_⟩
    rcases hends with hgoes | ⟨output, rfl, hhalts⟩
    · exact .inl hgoes
    · refine .inr ⟨output, rfl, { name, act, found := t.start (.action name act), left := u, output }, [],
        { started := ⟨t.started, hstarted⟩
          running := ht.running
          performed := hperform
          halts := hhalts
          signalsLast := engine.perform_signalsLast _ act
          outside := rfl
          context := rfl
          nested := .singleton _
          outermost := ⟨_, .head _, rfl⟩ }⟩

/-- A container halts as the branch does that it enters. -/
theorem container {s : Step} {branch : String → Nat → Int → RunM σ Unit} (hs : s.isAction = false)
    (h : ∀ name start ss, s.branchNamed? name = some ss →
      (runPortion start ss.length (branch name)).HaltsFinally engine ss) :
    (RunM.recorded s (s.opening >>= fun o => o.run branch)).HaltsFinally engine [s] := by
  refine recorded fun t ht => ?_
  have hopens := s.opening_opens hs (t.start s)
  rw [bind_apply]
  generalize s.opening (t.start s) = p at hopens ⊢
  obtain ⟨r, v⟩ := p
  obtain ⟨path, hv, henter⟩ := hopens.enters
  dsimp only at hv henter
  subst hv
  have hgoes : ((t.start s).withPath path).IsUnderway :=
    ⟨⟨ht.running.result, ht.running.suspended⟩, ht.placed, ht.starts⟩
  cases r with
  | error e => exact ⟨rfl, hgoes.starts, .inl hgoes.running⟩
  | ok o =>
    cases o with
    | pass output => exact ⟨rfl, hgoes.starts, .inl hgoes.running⟩
    | enter name start ss output =>
      have hbranch := henter name start ss output rfl
      have hportion := h name start ss hbranch _ hgoes
      simp only [Opening.run, bind_apply]
      generalize runPortion start ss.length (branch name) ((t.start s).withPath path) = q
        at hportion ⊢
      obtain ⟨e | _, u⟩ := q
      · exact ⟨hportion.position, hportion.starts, .inl hportion.of_error⟩
      · refine ⟨hportion.position, hportion.starts, ?_⟩
        rcases hportion.ends with hgoes' | ⟨-, x, around, hx⟩
        · exact .inl hgoes'
        · obtain ⟨last, hlast, -⟩ := hx.outermost
          have hchild := Step.mem_children_of_branchNamed? hbranch (List.ne_nil_of_mem hlast)
          exact .inr ⟨output, rfl, x, _, hx.close hchild⟩

end RunM.HaltsFinally

/-- All that the engine runs halts. -/
theorem Engine.haltsFinally (engine : Engine σ) :
    engine.Upholds fun ss m => m.HaltsFinally engine ss where
  nothing := fun _ => .of_still fun _ => rfl
  fault := fun _ _ => .of_still fun _ => rfl
  mono := by
    intro α ss ss' m hss h t ht
    obtain ⟨hposition, hstarts, hends⟩ := h t ht
    refine ⟨hposition, hstarts, hends.imp_right ?_⟩
    rintro ⟨hok, x, around, hx⟩
    exact ⟨hok, x, around, hx.mono hss⟩
  atStep := fun index h => h.atStep index
  within := fun frame h => h.within frame
  andThen := fun h hrest => h.andThen hrest
  action := .action engine
  container := fun _ _ hs h => .container hs h

/-! ## Stopped runs -/

/-- The outcome tells how the run was stopped: it is suspended with the payload of the action that has
paused it, or completed with exactly the value that was to be returned. -/
inductive Stop.Decides (x : Stop σ) (w : Workflow) (c : Context) : Verdict → Prop
  | suspended {payload : Value} :
    x.act.isPausing = true → x.left.context.result? = some payload →
    Decides x w c (.suspended c.stepIndex c.resumeStep c.resumePoint
      (c.settled.withResume w.name (x.left.context.settle payload)))
  | returned {v : Value} :
    x.act = .finish (some v) → Template.fill x.found.context v = .ok x.output →
    Decides x w c (.completed (x.found.context.settle x.output) true)

theorem Stop.IsBehind.decides {x : Stop σ} {engine : Engine σ} {ss : List Step}
    {around : List (Step × Value)} {u : Situation σ} (h : x.IsBehind engine ss around u) (w : Workflow) :
    x.Decides w u.context (Outcome.ofContext w.name u.context).verdict := by
  obtain ⟨name, act, found, left, output⟩ := x
  have hrunning : found.context.suspended = .bool false := h.running.suspended
  have hhalts := h.halts
  have hcontext := h.context
  generalize u.context = c at hcontext ⊢
  generalize hleft : left.context = d at hhalts hcontext
  cases hhalts with
  | returned hfill =>
    have hverdict : (Outcome.ofContext w.name c).verdict
        = .completed (found.context.settle output) true := by
      rw [hcontext]
      unfold Outcome.ofContext
      dsimp only [Context.settled, Context.setResult]
      rw [hrunning]
      rfl
    rw [hverdict]
    exact .returned rfl hfill
  | paused bindings suspendedPath lines extra hact hpath =>
    have hverdict : (Outcome.ofContext w.name c).verdict
        = .suspended c.stepIndex c.resumeStep c.resumePoint
          (c.settled.withResume w.name (left.context.settle
            ((Step.action name act).label.payload found.context lines extra))) := by
      rw [hcontext, hleft]
      rfl
    rw [hverdict]
    exact .suspended hact (by rw [hleft]; rfl)

/-- The stop signal is final: no step is set to work behind it. A run either goes on to its end, and then
it is neither suspended nor ended with a value, or it is stopped by the step that it set to work last:
nobody outside is asked any more, the context stays as that step has left it, and the history grows by
the entries of the containers around it only. The outcome is that of the step that has stopped the
run. -/
theorem stop_is_final (engine : Engine σ) {w : Workflow} {r : Request} {start : Int} {c : Context}
    (h : Prepared w r start c) (outside : σ) :
    ∃ (q : Except Raised Value) (u : Situation σ),
      run engine w r outside = (conclude w q u.context, u.outside) ∧
      journal engine w r outside = u.started ∧ (∀ e ∈ u.started, e.context.IsRunning) ∧
      u.context.position = [] ∧
      (u.context.IsRunning ∧ (∀ o, conclude w q u.context = .ok o →
          o.verdict = .completed .null false ∨ ∃ e, o.verdict = .failed e) ∨
        ∃ (x : Stop σ) (around : List (Step × Value)), x.IsBehind engine w.steps around u ∧
          ∃ o, conclude w q u.context = .ok o ∧ o.context.logs = x.left.context.logs ∧
            x.Decides w u.context o.verdict) := by
  have hstart := h.startsRun
  obtain ⟨hposition, hstarts, hends⟩ :=
    engine.haltsFinally.runAll start (w.steps.drop start.toNat) { context := c, outside }
      ⟨hstart.running, ⟨[], hstart.position⟩, nofun⟩
  refine ⟨_, _, (h.run_eq engine outside).trans (execute_eq_conclude engine w start _), ?_, hstarts,
    hposition.trans hstart.position, ?_⟩
  · rw [journal, prepare_eq_ok.2 h]
  · generalize runAll engine start (w.steps.drop start.toNat) { context := c, outside } = p at hends ⊢
    obtain ⟨q, u⟩ := p
    rcases hends with hgoes | ⟨⟨_, rfl⟩, x, around, hx⟩
    · refine .inl ⟨hgoes, fun o ho => ?_⟩
      obtain ⟨e, -, rfl⟩ | ⟨v, -, rfl⟩ := conclude_eq_ok ho
      · exact .inr ⟨e, rfl⟩
      · rw [Outcome.ofContext_of_isRunning w.name hgoes]
        exact .inl rfl
    · refine .inr ⟨x, around, hx.mono (List.drop_subset _ _), _, rfl, ?_, hx.decides w⟩
      rw [Outcome.ofContext_logs, hx.context]

/-- A workflow that returns `null` from inside two containers, with steps behind each of them. -/
def returnsNothing : Workflow where
  name := .str "leave"
  steps := [
    .conditional (.str "outer") (.str "true") [
      .switch (.str "inner") (.str "a") [("a", [
        .action (.str "out") (.finish (some .null)),
        .action (.str "unheard") (.log (.str "behind the return"))])] none,
      .action (.str "skipped") (.log (.str "behind the switch"))] [],
    .action (.str "late") (.log (.str "behind the conditional"))]

/-- The return of `null` is what stops the run, and no step behind it is set to work. -/
theorem stop_is_final_in_branches :
    ∃ start c, Prepared returnsNothing {} start c ∧
      ∃ (x : Stop Unit) (around : List (Step × Value)) (u : Situation Unit) (o : Outcome),
        x.IsBehind {} returnsNothing.steps around u ∧
          u.started.map (·.step.name) = [.str "outer", .str "inner", .str "out"] ∧
          x.Decides returnsNothing u.context o.verdict ∧
          o.verdictFields = [("result", .null), ("returned", .bool true)] := by
  have hstarted : (journal ({} : Engine Unit) returnsNothing {} ()).map (·.step.name)
      = [.str "outer", .str "inner", .str "out"] := by decide +kernel
  have hfields : (run ({} : Engine Unit) returnsNothing {} ()).1.toOption.map Outcome.verdictFields
      = some [("result", .null), ("returned", .bool true)] := by decide +kernel
  cases hprepare : prepare returnsNothing {} with
  | error e =>
    rw [run_of_error hprepare] at hfields
    cases hfields
  | ok p =>
    obtain ⟨start, c⟩ := p
    have hprepared := prepare_eq_ok.1 hprepare
    obtain ⟨q, u, hrun, hjournal, -, -, hends⟩ := stop_is_final ({} : Engine Unit) hprepared ()
    rw [hrun] at hfields
    rcases hends with ⟨-, hgoes⟩ | ⟨x, around, hx, o, ho, -, hdecides⟩
    · cases hconclude : conclude returnsNothing q u.context with
      | error e =>
        rw [hconclude] at hfields
        cases hfields
      | ok o =>
        rw [hconclude] at hfields
        have hfields := Option.some.inj hfields
        rcases hgoes o hconclude with hend | ⟨e, hfailed⟩
        · simp [Outcome.verdictFields, hend] at hfields
        · simp [Outcome.verdictFields, hfailed] at hfields
    · rw [ho] at hfields
      exact ⟨start, c, hprepared, x, around, u, o, hx, hjournal ▸ hstarted, hdecides,
        Option.some.inj hfields⟩

end Stepwise
