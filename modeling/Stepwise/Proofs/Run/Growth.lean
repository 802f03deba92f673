-- SUMMARY: All that a run does to its history and its log is to add entries of its steps, and lines.
import Stepwise.Proofs.Run.Derivation
import Stepwise.Proofs.Run.Induction

/-!
# Growth of the history and the log

Wherever a run has come to, its inputs are those that it started with, its history is the
one that it started with and behind it entries of its own steps, and its log is the one
that it started with and behind it lines of text. This holds on every resume path, and also
where a run fails or is stopped.
-/

namespace Stepwise

variable {σ α : Type}

/-! ## Contexts -/

theorem Step.namesOf_singleton (s : Step) : namesOf [s] = s.names := by
  rw [namesOf, namesOf, List.append_nil]

theorem Step.namesOf_subset {ss ss' : List Step} (h : ss ⊆ ss') : namesOf ss ⊆ namesOf ss' := by
  rw [namesOf_eq_map, namesOf_eq_map]
  exact List.map_subset _ (nodesOf_subset h)

/-- The context `d` has the inputs of `c`, and to its history only entries under the given names have
been added, and texts to its log. -/
structure Context.GrowsBy (names : List Value) (c d : Context) : Prop where
  inputs : d.inputs = c.inputs
  results : ∃ added, d.results = c.results ++ added ∧ ∀ r ∈ added, r.step ∈ names
  logs : ∃ lines : List String, d.logs = c.logs ++ lines.map .str

namespace Context.GrowsBy

variable {names names' : List Value} {c d e : Context}

/-- A context with the same inputs, history and log. -/
theorem of_eq (hinputs : d.inputs = c.inputs) (hresults : d.results = c.results)
    (hlogs : d.logs = c.logs) : c.GrowsBy names d where
  inputs := hinputs
  results := ⟨[], by rw [hresults, List.append_nil], nofun⟩
  logs := ⟨[], by rw [hlogs, List.map_nil, List.append_nil]⟩

theorem rfl : c.GrowsBy names c := of_eq (Eq.refl _) (Eq.refl _) (Eq.refl _)

theorem trans (h : c.GrowsBy names d) (h' : d.GrowsBy names e) : c.GrowsBy names e := by
  obtain ⟨hinputs, ⟨added, hresults, hadded⟩, lines, hlogs⟩ := h
  obtain ⟨hinputs', ⟨added', hresults', hadded'⟩, lines', hlogs'⟩ := h'
  refine ⟨hinputs'.trans hinputs, ⟨added ++ added', ?_, ?_⟩, lines ++ lines', ?_⟩
  · rw [hresults', hresults, List.append_assoc]
  · exact List.forall_mem_append.2 ⟨hadded, hadded'⟩
  · rw [hlogs', hlogs, List.map_append, List.append_assoc]

theorem mono (h : c.GrowsBy names d) (hnames : names ⊆ names') : c.GrowsBy names' d := by
  obtain ⟨hinputs, ⟨added, hresults, hadded⟩, hlogs⟩ := h
  exact ⟨hinputs, ⟨added, hresults, fun r hr => hnames (hadded r hr)⟩, hlogs⟩

theorem record (h : c.GrowsBy names d) {r : StepResult} (hr : r.step ∈ names) :
    c.GrowsBy names (d.record r) :=
  h.trans ⟨Eq.refl _, ⟨[r], Eq.refl _, by simpa using hr⟩, [], (List.append_nil _).symm⟩

/-- An effect adds a line to the log at most. -/
theorem effect (c : Context) (eff : Effect) : c.GrowsBy names (eff.apply c) := by
  refine ⟨(eff.apply_keeps c).inputs, ⟨[], by rw [eff.apply_results, List.append_nil], nofun⟩, ?_⟩
  have hquiet (hlogs : (eff.apply c).logs = c.logs) :
      ∃ lines : List String, (eff.apply c).logs = c.logs ++ lines.map .str :=
    ⟨[], by rw [hlogs, List.map_nil, List.append_nil]⟩
  have hsuspend (d : Context) (payload : Value) : (d.suspend payload).2.logs = d.logs := by
    unfold Context.suspend
    split <;> exact Eq.refl _
  cases eff with
  | log line => exact ⟨[line], Eq.refl _⟩
  | none | bind | finish => exact hquiet (Eq.refl _)
  | pause bound? payload =>
    cases bound? with
    | none => exact hquiet (hsuspend _ _)
    | some b => exact hquiet (hsuspend _ _)

end Context.GrowsBy

/-! ## Work -/

/-- Work has led from `t` to `u`: it has come back to where it was, and on the way the history has grown
by entries under the given names. -/
structure Situation.MovesBy (names : List Value) (t u : Situation σ) : Prop where
  position : u.context.position = t.context.position
  grows : t.context.GrowsBy names u.context
  starts : ∀ e ∈ u.started, e ∈ t.started ∨ t.context.GrowsBy names e.context

namespace Situation.MovesBy

variable {names names' : List Value} {t u v : Situation σ}

/-- Nothing has been set to work. -/
theorem of_grows (hposition : u.context.position = t.context.position)
    (hgrows : t.context.GrowsBy names u.context) (hstarted : u.started = t.started) :
    t.MovesBy names u :=
  ⟨hposition, hgrows, fun _ he => .inl (hstarted ▸ he)⟩

theorem rfl : t.MovesBy names t := of_grows (Eq.refl _) .rfl (Eq.refl _)

theorem trans (h : t.MovesBy names u) (h' : u.MovesBy names v) : t.MovesBy names v where
  position := h'.position.trans h.position
  grows := h.grows.trans h'.grows
  starts := by
    intro e he
    rcases h'.starts e he with he | hgrows
    · exact h.starts e he
    · exact .inr (h.grows.trans hgrows)

theorem mono (h : t.MovesBy names u) (hnames : names ⊆ names') : t.MovesBy names' u where
  position := h.position
  grows := h.grows.mono hnames
  starts := fun e he => (h.starts e he).imp_right (·.mono hnames)

theorem isPlaced (h : t.MovesBy names u) (ht : t.context.IsPlaced) : u.context.IsPlaced := by
  rw [Context.IsPlaced, h.position]
  exact ht

end Situation.MovesBy

/-- The work adds entries under the given names only. -/
def RunM.GrowsBy {α : Type} (names : List Value) (m : RunM σ α) : Prop :=
  ∀ t : Situation σ, t.context.IsPlaced → t.MovesBy names (m t).2

namespace RunM.GrowsBy

variable {names : List Value}

theorem within {m : RunM σ StepResult} (h : m.GrowsBy names) (frame : Frame) :
    (RunM.within frame m).GrowsBy names := by
  intro t ht
  obtain ⟨hposition, hgrows, hstarts⟩ :=
    h (t.change (·.enter frame.toValue)) (ht.enter frame)
  have heq : (RunM.within frame m t).2
      = (m (t.change (·.enter frame.toValue))).2.change Context.leave := rfl
  rw [heq]
  refine ⟨Context.leave_position hposition, ⟨hgrows.inputs, hgrows.results, hgrows.logs⟩, ?_⟩
  exact fun e he => (hstarts e he).imp_right fun hgrows =>
    ⟨hgrows.inputs, hgrows.results, hgrows.logs⟩

theorem bind {β : Type} {m : RunM σ α} {f : α → RunM σ β} (h : m.GrowsBy names)
    (hf : ∀ a, (f a).GrowsBy names) : (m >>= f).GrowsBy names := by
  intro t ht
  have hfirst := h t ht
  rw [bind_apply]
  generalize m t = p at hfirst ⊢
  obtain ⟨e | a, u⟩ := p
  · exact hfirst
  · exact hfirst.trans (hf a u (hfirst.isPlaced ht))

theorem unlessStopped {rest : RunM σ Unit} (h : rest.GrowsBy names) :
    (RunM.unlessStopped rest).GrowsBy names := by
  intro t ht
  unfold RunM.unlessStopped
  split
  · exact .rfl
  · exact h t ht

/-- A step adds its own entry behind those of the steps in it. -/
theorem recorded {s : Step} {body : StepM σ Value} (h : RunM.GrowsBy s.names body) :
    RunM.GrowsBy s.names (RunM.recorded s body) := by
  intro t ht
  have hname : s.name ∈ s.names := by simp [s.names_eq]
  have hstart : t.MovesBy s.names (t.start s) := by
    refine ⟨rfl, .rfl, fun e he => ?_⟩
    rcases List.mem_append.1 he with he | he
    · exact .inl he
    · cases List.mem_singleton.1 he
      exact .inr .rfl
  have hbody := hstart.trans (h (t.start s) ht)
  have hrecord (u : Situation σ) (hu : t.MovesBy s.names u) (r : StepResult) (hr : r.step = s.name) :
      t.MovesBy s.names (u.change (·.record r)) :=
    ⟨hu.position, hu.grows.record (hr ▸ hname), hu.starts⟩
  unfold RunM.recorded RunM.closed
  split
  · generalize body (t.start s) = p at hbody ⊢
    obtain ⟨e | output, u⟩ := p
    · -- What cannot be written out leaves no entry.
      dsimp only
      split
      · exact hrecord u hbody _ rfl
      · exact hbody
    · exact hrecord u hbody _ rfl
  · exact .rfl

/-- An action adds no entry of its own. -/
theorem action (engine : Engine σ) (label : StepLabel) (act : Action) :
    RunM.GrowsBy names (engine.perform label act) := by
  intro t ht
  cases hperform : engine.perform label act t with
  | mk r u =>
    obtain ⟨hstarted, eff, -, hctx, -⟩ := Engine.perform_ends ht hperform
    have hkeeps := eff.apply_keeps t.context
    exact .of_grows (hctx ▸ hkeeps.position) (hctx ▸ .effect t.context eff) hstarted

/-- A container adds the entries of the branch that it enters. -/
theorem container {s : Step} {branch : String → Nat → Int → RunM σ Unit} (hs : s.isAction = false)
    (h : ∀ name start ss, s.branchNamed? name = some ss →
      (runPortion start ss.length (branch name)).GrowsBy (Step.namesOf ss)) :
    RunM.GrowsBy s.names (s.opening >>= fun o => o.run branch) := by
  intro t ht
  have hopens := s.opening_opens hs t
  rw [bind_apply]
  generalize s.opening t = p at hopens ⊢
  obtain ⟨r, v⟩ := p
  obtain ⟨path, hv, henter⟩ := hopens.enters
  dsimp only at hv henter
  subst hv
  have hopened : t.MovesBy s.names (t.withPath path) := .of_grows rfl (.of_eq rfl rfl rfl) rfl
  cases r with
  | error e => exact hopened
  | ok o =>
    cases o with
    | pass output => exact hopened
    | enter name start ss output =>
      have hbranch := henter name start ss output rfl
      have hnames : Step.namesOf ss ⊆ s.names := by
        rw [Step.namesOf_eq_map, s.names_eq_map, s.nodes_eq]
        have hinner := (Step.branchNamed?_sublist hbranch).subset
        exact List.map_subset _ (List.Subset.trans hinner (List.subset_cons_self s s.inner))
      have hportion := (h name start ss hbranch (t.withPath path) ht).mono hnames
      simp only [Opening.run, bind_apply]
      generalize runPortion start ss.length (branch name) (t.withPath path) = q at hportion ⊢
      obtain ⟨e | _, u⟩ := q
      · exact hopened.trans hportion
      · exact hopened.trans hportion

end RunM.GrowsBy

/-- Whatever the engine runs adds entries of the steps that it runs. -/
theorem Engine.growsBy (engine : Engine σ) :
    engine.Upholds fun ss m => m.GrowsBy (Step.namesOf ss) where
  nothing := fun _ _ _ => .rfl
  fault := fun _ _ _ _ => .rfl
  mono := by
    intro α ss ss' m hss h t ht
    exact (h t ht).mono (Step.namesOf_subset hss)
  atStep := by
    intro ss m index h
    refine .bind (fun t _ => ?_) fun _ => h
    exact .of_grows rfl (.of_eq rfl rfl rfl) rfl
  within := fun frame h => h.within frame
  andThen := fun h hrest => h.bind fun _ => hrest.unlessStopped
  action := by
    intro name act
    rw [Step.namesOf_singleton]
    exact .recorded (.action engine _ act)
  container := by
    intro s branch hs h
    rw [Step.namesOf_singleton]
    exact .recorded (.container hs h)

end Stepwise
