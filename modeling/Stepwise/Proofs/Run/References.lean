-- SUMMARY: What a step refers to has been completed when the step is set to work, or was passed over.
import Stepwise.Proofs.Resume.Chain
import Stepwise.Proofs.Run.Trail
import Stepwise.Proofs.Workflow.Scope

/-!
# References at work

The static check lets a step refer to the steps that come before it. When a fresh run sets
the step to work, each of these has an entry in the history, and as the run goes on still the
entry is that of a completed step; or it lies in a branch that its container has not selected,
and so there is nothing of it to be found.
-/

namespace Stepwise

variable {σ : Type}

/-! ## Accounts -/

/-- All entries of the history are those of completed steps. -/
def Context.IsClean (c : Context) : Prop := ∀ r ∈ c.results, r.status = .completed

theorem Context.IsClean.of_input {c : Context} {inputs : Value}
    (h : c.results = [inputResult inputs]) : c.IsClean := by
  intro r hr
  rw [h] at hr
  cases List.mem_singleton.1 hr
  rfl

theorem Context.IsClean.enter {c : Context} (h : c.IsClean) (p : Place) (index : Int) :
    (p.enter index c).IsClean := by
  rw [IsClean, p.enter_results]
  exact h

theorem Context.IsClean.leave {c : Context} (h : c.IsClean) (p : Place) : (p.leave c).IsClean := by
  rw [IsClean, p.leave_results]
  exact h

/-- The history has an entry of the step of that name, or one of the starts has passed the step over. -/
def AccountsFor (before : List Start) (c : Context) (k : Key) : Prop :=
  (∃ r ∈ c.results, r.step.toKey? = some k) ∨
    ∃ e ∈ before, ∃ x, e.PassesOver x ∧ x.name.toKey? = some k

theorem AccountsFor.mono {before before' : List Start} {c d : Context} {k : Key}
    (h : AccountsFor before c k) (hbefore : before ⊆ before') (hresults : c.results ⊆ d.results) :
    AccountsFor before' d k := by
  rcases h with ⟨r, hr, hk⟩ | ⟨e, he, hx⟩
  · exact .inl ⟨r, hresults hr, hk⟩
  · exact .inr ⟨e, hbefore he, hx⟩

/-- At the beginning there is the entry of the inputs, and only they may be referred to. -/
theorem AccountsFor.input {c : Context} {inputs : Value}
    (h : c.results = [Context.inputResult inputs]) :
    ∀ k ∈ [Key.str inputStepName], AccountsFor [] c k := by
  intro k hk
  cases List.mem_singleton.1 hk
  refine .inl ⟨Context.inputResult inputs, ?_, rfl⟩
  rw [h]
  exact .head _

/-- Behind the given starts, what each start of a journal refers to is accounted for; and so is what is
available behind the journal, if the run goes on. -/
structure Accounts (before journal : List Start) (d : Context) (goesOn : Prop)
    (available : List Key) : Prop where
  starts : ∀ earlier e later, journal = earlier ++ e :: later →
    ∀ n ∈ Workflow.referencedSteps e.step, AccountsFor (before ++ earlier) e.context (.str n)
  behind : goesOn → ∀ k ∈ available, AccountsFor (before ++ journal) d k

namespace Accounts

variable {before journal journal' : List Start} {c d : Context} {goesOn goesOn' : Prop}
  {available available' : List Key}

/-- Nothing is set to work. -/
theorem nil (h : goesOn → ∀ k ∈ available, AccountsFor before d k) :
    Accounts before [] d goesOn available where
  starts := by
    intro earlier e later heq
    cases earlier <;> cases heq
  behind := by
    rw [List.append_nil]
    exact h

/-- One step is set to work, and others are behind it. -/
theorem cons {e : Start}
    (he : ∀ n ∈ Workflow.referencedSteps e.step, AccountsFor before e.context (.str n))
    (h : Accounts (before ++ [e]) journal d goesOn available) :
    Accounts before (e :: journal) d goesOn available where
  starts := by
    intro earlier e' later heq
    cases earlier with
    | nil =>
      cases heq
      rw [List.append_nil]
      exact he
    | cons e'' earlier =>
      cases heq
      have hstarts := h.starts earlier e' later rfl
      rwa [List.append_assoc] at hstarts
  behind := by
    have hbehind := h.behind
    rwa [List.append_assoc] at hbehind

/-- What has been set to work first is accounted for in what comes later. -/
theorem append (h : Accounts before journal c goesOn available)
    (h' : Accounts (before ++ journal) journal' d goesOn' available') :
    Accounts before (journal ++ journal') d goesOn' available' where
  starts := by
    intro earlier e later heq
    rcases List.append_eq_append_iff.1 heq with ⟨more, rfl, heq'⟩ | ⟨more, rfl, heq'⟩
    · rw [← List.append_assoc]
      exact h'.starts more e later heq'
    · cases more with
      | nil =>
        have hstarts := h'.starts [] e later heq'.symm
        rwa [List.append_nil, List.append_nil] at hstarts
      | cons e' more =>
        cases heq'
        exact h.starts earlier e more rfl
  behind := by
    rw [← List.append_assoc]
    exact h'.behind

/-- What is available behind the journal may be told of another context and other keys. -/
theorem close (h : Accounts before journal c goesOn available)
    (hbehind : goesOn' → goesOn ∧ ((∀ k ∈ available, AccountsFor (before ++ journal) c k) →
      ∀ k ∈ available', AccountsFor (before ++ journal) d k)) :
    Accounts before journal d goesOn' available' where
  starts := h.starts
  behind := fun hgo => (hbehind hgo).2 (h.behind (hbehind hgo).1)

end Accounts

/-! ## Checked tasks -/

/-- The check of the task succeeds with the first keys available, and leaves the others. -/
def Task.Checks (available available' : List Key) : Task → Prop
  | .step s => Workflow.checkStep available s = .ok available'
  | .body s => Workflow.Admits available available' s
  | .steps _ _ ss => Workflow.checkSequence available ss = .ok available'

section Cases

variable {before : List Start} {c : Context} {available available' : List Key} {s : Step}

/-- What a step refers to is accounted for where it is set to work. -/
theorem Workflow.Admits.accountsFor (h : Workflow.Admits available available' s)
    (hknown : ∀ k ∈ available, AccountsFor before c k) :
    ∀ n ∈ Workflow.referencedSteps s, AccountsFor before c (.str n) :=
  fun n hn => hknown _ (h.references n hn)

/-- A container that is begun afresh passes over what it does not select. -/
theorem AccountsFor.of_offers {ss others : List Step} {k : Key} (hpath : c.resumePath = [])
    (hselects : ∀ branch ss', s.selected? c = some branch → s.branchNamed? branch = some ss' → ss' = ss)
    (hothers : Workflow.Elsewhere s ss others) {d : Context}
    (hknown : ∀ k ∈ available, AccountsFor before d k) (h : Workflow.Offers available others k)
    (he : { step := s, context := c } ∈ before) : AccountsFor before d k := by
  rcases h with hk | ⟨x, hx, hk⟩
  · exact hknown k hk
  · refine .inr ⟨_, he, x, ⟨List.isEmpty_iff.2 hpath, (hothers x hx).1, ?_⟩, hk⟩
    intro branch ss' hsel hbranch
    rw [hselects branch ss' hsel hbranch]
    exact (hothers x hx).2

theorem Place.accountsFor_enter {k : Key} (p : Place) (index : Int) (h : AccountsFor before c k) :
    AccountsFor before (p.enter index c) k := by
  refine h.mono (List.Subset.refl _) ?_
  rw [p.enter_results]
  exact List.Subset.refl _

theorem Place.accountsFor_leave {k : Key} (p : Place) (h : AccountsFor before c k) :
    AccountsFor before (p.leave c) k := by
  refine h.mono (List.Subset.refl _) ?_
  rw [p.leave_results]
  exact List.Subset.refl _

end Cases

/-- From a point where what is available is accounted for, each step that is set to work finds what it
refers to accounted for. -/
theorem Ran.accounts {engine : Engine σ} {task : Task} {t u : Situation σ} {journal : List Start}
    {r : Except Raised Value} (h : Ran engine task t journal r u) (hpath : t.context.resumePath = [])
    (hnodup : (task.ahead []).Nodup) {available available' : List Key}
    (hchecks : task.Checks available available') {before : List Start}
    (hknown : ∀ k ∈ available, AccountsFor before t.context k) :
    Accounts before (task.opened t.context ++ journal) u.context
      (r.isOk = true ∧ u.context.hasResult = false) available' := by
  -- What is raised goes no further.
  have raises {e : Raised} {P : Prop} {c : Context}
      (hgo : (Except.error e : Except Raised Value).isOk = true ∧ c.hasResult = false) : P := by
    cases hgo.1
  induction h generalizing before available available' with
  | unnamed => exact .nil raises
  | @completed s t u journal output _ _ ih =>
    obtain ⟨nested, k, hadmits, hname, rfl⟩ := Workflow.checkStep_iff.1 hchecks
    refine (ih hpath hnodup hadmits hknown).close fun hgo => ⟨hgo, fun hnested l hl => ?_⟩
    cases hl with
    | head => exact .inl ⟨_, List.mem_append_right _ (.head _), hname⟩
    | tail _ hl => exact (hnested l hl).mono (List.Subset.refl _) (List.subset_append_left _ _)
  | failed _ _ _ ih | unreported _ _ _ ih =>
    obtain ⟨nested, k, hadmits, -, -⟩ := Workflow.checkStep_iff.1 hchecks
    exact (ih hpath hnodup hadmits hknown).close raises
  | action _ hplaced hperform =>
    obtain ⟨-, eff, -, hctx, -⟩ := Engine.perform_ends hplaced hperform
    refine .cons (hchecks.accountsFor hknown) (.nil fun _ k hk => ?_)
    cases hchecks.children
    refine (hknown k hk).mono (List.subset_append_left _ _) ?_
    rw [hctx, eff.apply_results]
    exact List.Subset.refl _
  | refused => exact .cons (hchecks.accountsFor hknown) (.nil raises)
  | @passed s t output _ hpath hsel _ =>
    refine .cons (hchecks.accountsFor hknown) (.nil fun _ k hk => ?_)
    have hoffers := Workflow.offers_of_checkNested hchecks.children k hk
    rw [← Step.inner_eq] at hoffers
    have helsewhere : Workflow.Elsewhere s [] s.inner := fun x hx => ⟨hx, List.not_mem_nil⟩
    refine .of_offers hpath ?_ helsewhere ?_ hoffers ?_
    · intro branch ss' hselected
      rw [hsel] at hselected
      cases hselected
    · exact fun k hk => (hknown k hk).mono (List.subset_append_left _ _) (List.Subset.refl _)
    · exact List.mem_append_right _ (.head _)
  | @chosen s t u branch ss journal r output hpath hsel hbranch _ _ ih =>
    have hinner : s.inner.Nodup := by
      rw [Task.ahead, Step.ahead_nil, Step.nodes_eq] at hnodup
      exact hnodup.of_cons
    have hselects (branch' : String) (ss' : List Step) (hsel' : s.selected? t.context = some branch')
        (hbranch' : s.branchNamed? branch' = some ss') : ss' = ss := by
      cases hsel.symm.trans hsel'
      exact Option.some.inj (hbranch'.symm.trans hbranch)
    obtain ⟨start, behind, earlier, later, hss, hearlier, hstart, hlater, hbehind⟩ :=
      hchecks.branch hinner hbranch
    have hknown' : ∀ k ∈ start, AccountsFor (before ++ [{ step := s, context := t.context }])
        t.context k := by
      refine fun k hk => .of_offers hpath hselects hearlier ?_ (hstart k hk) ?_
      · exact fun k hk => (hknown k hk).mono (List.subset_append_left _ _) (List.Subset.refl _)
      · exact List.mem_append_right _ (.head _)
    have hnodup' : (Task.ahead (.steps (.branch branch) 0 ss) []).Nodup := by
      rw [Task.ahead, Step.aheadOf_nil]
      exact (Step.branchNamed?_sublist hbranch).nodup hinner
    refine .cons (hchecks.accountsFor hknown) ?_
    refine (ih hpath hnodup' hss hknown').close fun hgo => ?_
    refine ⟨⟨Checks.isOk_map ▸ hgo.1, hgo.2⟩, fun hbranch' k hk => ?_⟩
    refine .of_offers hpath hselects hlater hbranch' (hbehind k hk) ?_
    exact List.mem_append_left _ (List.mem_append_right _ (.head _))
  | again hcons =>
    rw [hpath] at hcons
    cases hcons
  | done =>
    refine .nil fun _ k hk => ?_
    cases hchecks
    exact hknown k hk
  | @broken p index s ss t u journal e _ ih =>
    obtain ⟨between, hfirst, -⟩ := Checks.bind_iff.1 hchecks
    have hknown' := fun k hk => p.accountsFor_enter index (hknown k hk)
    exact (ih ((p.enter_resumePath _ _).trans hpath) hnodup.of_append_left hfirst hknown').close raises
  | @stopped p index s ss t u journal output _ hstop ih =>
    obtain ⟨between, hfirst, -⟩ := Checks.bind_iff.1 hchecks
    have hknown' := fun k hk => p.accountsFor_enter index (hknown k hk)
    refine (ih ((p.enter_resumePath _ _).trans hpath) hnodup.of_append_left hfirst hknown').close
      fun hgo => ?_
    have hstop' := hgo.2
    rw [Situation.change, p.leave_hasResult, hstop] at hstop'
    cases hstop'
  | @next p index s ss t u v journal journal' output r hran hgo _ ih ih' =>
    obtain ⟨between, hfirst, hrest⟩ := Checks.bind_iff.1 hchecks
    have hknown' := fun k hk => p.accountsFor_enter index (hknown k hk)
    have haccounts := ih ((p.enter_resumePath _ _).trans hpath) hnodup.of_append_left hfirst hknown'
    have hpath' := hran.leave_resumePath_eq_nil rfl p
    have hnodup' : (Task.ahead (.steps p (index + 1) ss) []).Nodup := by
      rw [Task.ahead, Step.aheadOf_nil]
      exact hnodup.of_append_right
    exact haccounts.append (ih' hpath' hnodup' hrest fun k hk =>
      p.accountsFor_leave (haccounts.behind ⟨rfl, hgo⟩ k hk))

/-- As long as a run goes on, all entries of its history are those of completed steps. -/
theorem Ran.isClean {engine : Engine σ} {task : Task} {t u : Situation σ} {journal : List Start}
    {r : Except Raised Value} (h : Ran engine task t journal r u) (hclean : t.context.IsClean) :
    (∀ e ∈ task.opened t.context ++ journal, e.context.IsClean) ∧
      (r.isOk = true → u.context.IsClean) := by
  have hopened {s : Step} {c : Context} (hclean : c.IsClean) :
      ∀ e ∈ (Task.body s).opened c ++ [], e.context.IsClean := by
    intro e he
    cases List.mem_singleton.1 he
    exact hclean
  induction h with
  | unnamed => exact ⟨nofun, fun hr => by cases hr⟩
  | @completed s t u journal output _ _ ih =>
    obtain ⟨hstarts, hend⟩ := ih hclean
    refine ⟨hstarts, fun _ r hr => ?_⟩
    rcases List.mem_append.1 hr with hr | hr
    · exact hend rfl r hr
    · cases List.mem_singleton.1 hr
      rfl
  | failed _ _ _ ih | unreported _ _ _ ih => exact ⟨(ih hclean).1, fun hr => by cases hr⟩
  | action _ hplaced hperform =>
    obtain ⟨-, eff, -, hctx, -⟩ := Engine.perform_ends hplaced hperform
    refine ⟨hopened hclean, fun _ => ?_⟩
    rw [Context.IsClean, hctx, eff.apply_results]
    exact hclean
  | refused => exact ⟨hopened hclean, fun hr => by cases hr⟩
  | passed => exact ⟨hopened hclean, fun _ => hclean⟩
  | chosen _ _ _ _ _ ih | again _ _ _ _ _ _ ih =>
    obtain ⟨hstarts, hend⟩ := ih hclean
    exact ⟨List.forall_mem_cons.2 ⟨hclean, hstarts⟩, fun hr => hend (Checks.isOk_map ▸ hr)⟩
  | done => exact ⟨nofun, fun _ => hclean⟩
  | @broken p index _ _ _ _ _ _ _ ih =>
    exact ⟨(ih (hclean.enter p index)).1, fun hr => by cases hr⟩
  | @stopped p index _ _ _ _ _ _ _ _ ih =>
    obtain ⟨hstarts, hend⟩ := ih (hclean.enter p index)
    exact ⟨hstarts, fun _ => (hend rfl).leave p⟩
  | @next p index _ _ _ _ _ journal journal' _ _ _ _ _ ih ih' =>
    obtain ⟨hstarts, hend⟩ := ih (hclean.enter p index)
    obtain ⟨hstarts', hend'⟩ := ih' ((hend rfl).leave p)
    refine ⟨fun e he => ?_, hend'⟩
    rcases List.mem_append.1 (show e ∈ journal ++ journal' from he) with he | he
    · exact hstarts e he
    · exact hstarts' e he

/-! ## Fresh runs -/

/-- In a clean history the latest entry of a name is that of a completed step. -/
theorem Context.IsClean.resultOf? {c : Context} (h : c.IsClean) {n : String}
    (hn : ∃ r ∈ c.results, r.step.toKey? = some (.str n)) :
    ∃ r, c.resultOf? (.str n) = some r ∧ r.status = .completed := by
  obtain ⟨r, hr, hk⟩ := hn
  have hstep : r.step = .str n := (r.step.toValue_of_toKey? hk).symm
  have hfound : (c.resultOf? (.str n)).isSome = true := by
    refine List.find?_isSome.2 ⟨r, List.mem_reverse.2 hr, ?_⟩
    simp [hstep]
  obtain ⟨r', hr'⟩ := Option.isSome_iff_exists.1 hfound
  exact ⟨r', hr', h r' (List.mem_reverse.1 (List.mem_of_find?_eq_some hr'))⟩

/-- Whatever a step refers to as the step of some name, when a fresh run sets it to work: the latest entry
of that name in the history is that of a completed step, or the name is that of a step in a branch that its
container has not selected before. -/
theorem references_found (engine : Engine σ) (w : Workflow) (inputs : Value) (outside : σ)
    {earlier later : List Start} {e : Start}
    (hjournal : journal engine w { inputs } outside = earlier ++ e :: later) {expression n : String}
    (hexpression : expression ∈ Template.referencesAll e.step.referenceFields)
    (hn : Workflow.referencedStep? expression = some n) :
    (∃ r, e.context.resultOf? (.str n) = some r ∧ r.status = .completed) ∨
      ∃ x ∈ w.nodes, x.name = .str n ∧ ∃ e' ∈ earlier, e'.PassesOver x := by
  cases hprepare : prepare w { inputs } with
  | error f =>
    rw [journal, hprepare] at hjournal
    cases earlier <;> cases hjournal
  | ok p =>
    obtain ⟨start, c⟩ := p
    have h : Prepared w { inputs } start c := prepare_eq_ok.1 hprepare
    obtain ⟨rfl, given, accepted, -, -, rfl⟩ := h.fresh
    have hint : Request.HasIntegerPath { inputs } := Request.hasIntegerPath_of_null rfl
    obtain ⟨q, u, -, hran⟩ := run_ran engine h hint outside
    obtain ⟨available, hchecks, -⟩ := Checks.bind_iff.1 h.references
    have hnodup : (Task.ahead (.steps .top 0 w.steps) []).Nodup := by
      rw [Task.ahead, Step.aheadOf_nil]
      exact (Workflow.wellNamed h.wellformed).nodes_nodup
    have haccounts := (hran.accounts rfl hnodup hchecks (.input rfl)).starts earlier e later hjournal n
      (List.mem_filterMap.2 ⟨expression, hexpression, hn⟩)
    rcases haccounts with hfound | ⟨e', he', x, hpasses, hk⟩
    · have hmem : e ∈ journal engine w { inputs } outside := by
        rw [hjournal]
        exact List.mem_append_right _ (.head _)
      exact .inl (((hran.isClean (.of_input rfl)).1 e hmem).resultOf? hfound)
    · have hmem : e' ∈ journal engine w { inputs } outside := by
        rw [hjournal]
        exact List.mem_append_left _ he'
      have hnested : x ∈ e'.step.nodes := by
        rw [Step.nodes_eq]
        exact .tail _ hpasses.inner
      refine .inr ⟨x, ?_, (x.name.toValue_of_toKey? hk).symm, e', he', hpasses⟩
      exact Step.mem_nodesOf_trans w.steps (h.mem_nodes hint hmem) hnested

/-- A workflow whose last step refers to steps of both branches of a decision. -/
def refersToBranches : Workflow where
  name := .str "branches"
  steps := [
    .conditional (.str "choice") (.str "true")
      [.action (.str "taken") (.setVariable (.str "x") (some (.int 1)))]
      [.action (.str "other") (.setVariable (.str "x") (some (.int 2)))],
    .action (.str "use") (.setVariable (.str "y") (some (.list [
      .str "\x7b\x7bsteps.taken.output\x7d\x7d", .str "\x7b\x7bsteps.other.output\x7d\x7d"])))]

/-- The last step finds the branch that was taken completed, and the other one passed over. -/
theorem references_found_in_branches :
    ∃ earlier e, journal ({} : Engine Unit) refersToBranches {} () = earlier ++ [e] ∧
      (e.context.resultOf? (.str "taken")).map StepResult.status = some .completed ∧
      ∃ x ∈ refersToBranches.nodes, x.name = .str "other" ∧ ∃ e' ∈ earlier, e'.PassesOver x := by
  have hlast : (journal ({} : Engine Unit) refersToBranches {} ()).getLast?.map (fun e =>
      (decide ("steps.other.output" ∈ Template.referencesAll e.step.referenceFields),
        (e.context.resultOf? (.str "taken")).map StepResult.status,
        (e.context.resultOf? (.str "other")).map StepResult.status))
      = some (true, some .completed, none) := by
    decide +kernel
  obtain ⟨e, he, hvalues⟩ := Option.map_eq_some_iff.1 hlast
  obtain ⟨earlier, hjournal⟩ := List.getLast?_eq_some_iff.1 he
  simp only [Prod.mk.injEq, decide_eq_true_eq, Option.map_eq_none_iff] at hvalues
  obtain ⟨hexpression, htaken, hother⟩ := hvalues
  refine ⟨earlier, e, hjournal, htaken, ?_⟩
  refine (references_found _ _ .null () hjournal hexpression (by decide +kernel)).resolve_left ?_
  rintro ⟨r, hr, -⟩
  rw [hother] at hr
  cases hr

end Stepwise
