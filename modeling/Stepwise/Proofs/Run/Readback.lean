-- SUMMARY: What a run binds and what its steps give is read back under the same name from then on.
import Stepwise.Proofs.Run.Binding
import Stepwise.Proofs.Run.Closing
import Stepwise.Proofs.Run.History
import Stepwise.Proofs.Template.Names

/-!
# Reading back

An action writes twice: it binds a variable, and it is recorded with its output. From then on
the expression for the variable addresses what was bound, until a step binds another value
under the name, and the expression for the step addresses its output for good, as no other step
has its name. This holds of the names that lead back to what has them. A step that names a
variable and binds nothing, since it fails or waits for an agent, leaves the one that is there.
-/

namespace Stepwise

variable {σ : Type}

/-! ## What an action writes -/

/-- From one moment to another at most the history has grown. -/
structure Context.Calm (c d : Context) : Prop where
  results : c.results <+: d.results
  bindings : d.bindings = c.bindings
  suspended : d.suspended = c.suspended

theorem Place.calm_enter (p : Place) (index : Int) (c : Context) : c.Calm (p.enter index c) := by
  cases p with
  | top => exact ⟨List.prefix_rfl, rfl, rfl⟩
  | branch name => exact ⟨List.prefix_rfl, rfl, rfl⟩

theorem Place.calm_leave (p : Place) (c : Context) : c.Calm (p.leave c) := by
  cases p with
  | top => exact ⟨List.prefix_rfl, rfl, rfl⟩
  | branch name => exact ⟨List.prefix_rfl, rfl, rfl⟩

theorem Context.calm_record (c : Context) (r : StepResult) : c.Calm (c.record r) :=
  ⟨List.prefix_append _ _, rfl, rfl⟩

theorem Context.prefix_record {c d : Context} (r : StepResult) (h : d.results = c.results) :
    c.results ++ [r] <+: (d.record r).results :=
  ⟨[], by rw [List.append_nil, record_results, h]⟩

theorem Context.Calm.trans {c d f : Context} (h : c.Calm d) (h' : d.Calm f) : c.Calm f :=
  ⟨h.results.trans h'.results, h'.bindings.trans h.bindings, h'.suspended.trans h.suspended⟩

theorem Action.Leaves.calm {act : Action} {before : Dict} {output : Value} {c d : Context}
    (h : act.Leaves before output c) (hcalm : c.Calm d) : act.Leaves before output d := by
  cases h with
  | bound hkey hbindings => exact .bound hkey (hcalm.bindings.trans hbindings)
  | unnamed hunnamed hbindings => exact .unnamed hunnamed (hcalm.bindings.trans hbindings)
  | asked hkind hsuspended hbindings =>
    exact .asked hkind (hcalm.suspended.trans hsuspended) (hcalm.bindings.trans hbindings)
  | unsampled hkind hgiven hsuspended hbindings =>
    exact .unsampled hkind hgiven (hcalm.suspended.trans hsuspended) (hcalm.bindings.trans hbindings)

namespace Start

/-- What an action has written by a later moment: its entry, and the bindings that go with its output. If
it has failed, it has bound nothing, and it has an entry unless a collaborator has given up with what
cannot be written out. -/
inductive Acted (engine : Engine σ) (e : Start) (act : Action) (d : Context) : Prop
  | completed {output : Value} :
    e.context.results ++ [e.step.label.completed output] <+: d.results →
    act.Leaves e.context.bindings output d → Acted engine e act d
  | failed {raised : Raised} :
    e.context.results ++ [e.step.label.failed raised] <+: d.results →
    d.bindings = e.context.bindings → Acted engine e act d
  | unreported {left : σ} :
    engine.GivesUpMutely left → e.context.results <+: d.results →
    d.bindings = e.context.bindings → Acted engine e act d

/-- By a later moment the step has bound the value under the name. -/
def Binds (e : Start) (n : String) (v : Value) (d : Context) : Prop :=
  e.step.Binds n ∧ d.bindings = e.context.bindings.insert (.str n) v

/-- From one moment to another, no step binds another value than the given one under the name. -/
def BindsOnly (n : String) (v : Value) (between rest : List Start) (last : Context) : Prop :=
  ∀ before e after w, between = before ++ e :: after →
    e.Binds n w (nextContext (after ++ rest) last) → w = v

theorem BindsOnly.nil (n : String) (v : Value) (rest : List Start) (last : Context) :
    BindsOnly n v [] rest last := by
  intro before e after w heq
  simp at heq

theorem BindsOnly.tail {n : String} {v : Value} {e : Start} {between rest : List Start} {last : Context}
    (h : BindsOnly n v (e :: between) rest last) : BindsOnly n v between rest last :=
  fun before e' after w heq => h (e :: before) e' after w (by rw [heq, List.cons_append])

namespace Acted

variable {engine : Engine σ} {e : Start} {act : Action} {c d : Context}

theorem calm (h : e.Acted engine act c) (hcalm : c.Calm d) : e.Acted engine act d := by
  cases h with
  | completed hresults hleaves =>
    exact .completed (hresults.trans hcalm.results) (hleaves.calm hcalm)
  | failed hresults hbindings =>
    exact .failed (hresults.trans hcalm.results) (hcalm.bindings.trans hbindings)
  | unreported hgives hresults hbindings =>
    exact .unreported hgives (hresults.trans hcalm.results) (hcalm.bindings.trans hbindings)

/-- The last moment may be a later one. -/
theorem last {later : List Start} (h : e.Acted engine act (nextContext later c)) (hcalm : c.Calm d) :
    e.Acted engine act (nextContext later d) := by
  cases later with
  | nil => exact h.calm hcalm
  | cons => exact h

/-- An action that names a variable has bound it, or has left what was there. -/
theorem binds_or {name : Value} {n : String} (h : e.Acted engine act d) (hstep : e.step = .action name act)
    (htarget : act.target = .str n) :
    (∃ v, e.Binds n v d) ∨ d.bindings = e.context.bindings := by
  cases h with
  | failed _ hbindings | unreported _ _ hbindings => exact .inr hbindings
  | completed _ hleaves =>
    cases hleaves with
    | unnamed _ hbindings | asked _ _ hbindings | unsampled _ _ _ hbindings => exact .inr hbindings
    | bound hkey hbindings =>
      have hname : act.boundKey? = some (.str n) := by rw [Action.boundKey?, htarget]; rfl
      obtain rfl := Option.some.inj (hkey.symm.trans hname)
      exact .inl ⟨_, ⟨name, act, hstep, htarget⟩, hbindings⟩

end Acted

end Start

namespace Ran

variable {engine : Engine σ} {task : Task} {t u : Situation σ} {journal : List Start}
  {r : Except Raised Value}

/-- What is done in an action is to perform it. -/
theorem body_action {name : Value} {act : Action}
    (h : Ran engine (.body (.action name act)) t journal r u) :
    journal = [] ∧ u.context.results = t.context.results ∧
      act.Ends t.context.bindings r u.context ∧
      ∀ raised, r = .error raised → raised.isSpellable = true ∨ engine.GivesUpMutely u.outside := by
  cases h with
  | action _ hplaced hperform =>
    obtain ⟨-, eff, -, hctx, -⟩ := Engine.perform_ends hplaced hperform
    refine ⟨rfl, hctx ▸ eff.apply_results _, engine.perform_binds hplaced.isLocated hperform, ?_⟩
    rintro raised rfl
    exact Engine.perform_spellable hperform
  | refused hs => cases hs
  | passed hs => cases hs
  | chosen _ hselected => cases hselected
  | again _ _ _ hbranch => cases hbranch

/-- A step is set to work first of all, or not at all. -/
theorem begun {s : Step} (h : Ran engine (.step s) t journal r u) :
    (∃ e, r = .error e) ∧ journal = [] ∧ u = t ∨
      ∃ inside, journal = { step := s, context := t.context } :: inside := by
  cases h with
  | unnamed => exact .inl ⟨⟨_, rfl⟩, rfl, rfl⟩
  | completed => exact .inr ⟨_, rfl⟩
  | failed | unreported => exact .inr ⟨_, rfl⟩

/-- The first step of a sequence finds what is there. -/
theorem calm {p : Place} {index : Int} {ss : List Step}
    (h : Ran engine (.steps p index ss) t journal r u) :
    t.context.Calm (nextContext journal u.context) := by
  cases h with
  | done => exact ⟨List.prefix_rfl, rfl, rfl⟩
  | broken hran =>
    obtain ⟨-, rfl, rfl⟩ | ⟨inside, rfl⟩ := hran.begun
    · exact (p.calm_enter index _).trans (p.calm_leave _)
    · exact p.calm_enter index _
  | stopped hran =>
    obtain ⟨⟨_, herror⟩, -⟩ | ⟨inside, rfl⟩ := hran.begun
    · cases herror
    · exact p.calm_enter index _
  | next hran =>
    obtain ⟨⟨_, herror⟩, -⟩ | ⟨inside, rfl⟩ := hran.begun
    · cases herror
    · exact p.calm_enter index _

/-- Every action that a run sets to work has written what it is to write when the next step is set to
work, or when the run is at its end. -/
theorem acted (h : Ran engine task t journal r u) {e : Start} {name : Value} {act : Action}
    (hstep : e.step = .action name act) {earlier later : List Start}
    (hjournal : journal = earlier ++ e :: later) : e.Acted engine act (nextContext later u.context) := by
  induction h generalizing earlier later with
  | unnamed | action | refused | passed | done => simp at hjournal
  | @completed s t u journal output _ hbody ih =>
    cases earlier with
    | nil =>
      obtain ⟨rfl, rfl⟩ := List.cons.inj hjournal
      obtain rfl : s = .action name act := hstep
      obtain ⟨rfl, hresults, hends, -⟩ := hbody.body_action
      exact .completed (Context.prefix_record _ hresults) (hends.calm (Context.calm_record _ _))
    | cons first earlier => exact (ih (List.cons.inj hjournal).2).last (Context.calm_record _ _)
  | @failed s t u journal raised _ _ hbody ih =>
    cases earlier with
    | nil =>
      obtain ⟨rfl, rfl⟩ := List.cons.inj hjournal
      obtain rfl : s = .action name act := hstep
      obtain ⟨rfl, hresults, hends, -⟩ := hbody.body_action
      exact .failed (Context.prefix_record _ hresults) hends
    | cons first earlier => exact (ih (List.cons.inj hjournal).2).last (Context.calm_record _ _)
  | @unreported s t u journal raised crash _ hcrash hbody ih =>
    cases earlier with
    | nil =>
      obtain ⟨rfl, rfl⟩ := List.cons.inj hjournal
      obtain rfl : s = .action name act := hstep
      obtain ⟨rfl, hresults, hends, hspellable⟩ := hbody.body_action
      have hmute : raised.isSpellable = false := Raised.not_isSpellable_iff.2 ⟨crash, hcrash⟩
      have hgives := (hspellable raised rfl).resolve_left (by simp [hmute])
      exact .unreported hgives (hresults ▸ List.prefix_rfl) hends
    | cons first earlier => exact ih (List.cons.inj hjournal).2
  | chosen _ _ _ _ _ ih => exact ih hjournal
  | again _ _ _ _ _ _ ih => exact ih hjournal
  | @broken p _ _ _ _ _ _ _ _ ih => exact (ih hjournal).last (p.calm_leave _)
  | @stopped p _ _ _ _ _ _ _ _ _ ih => exact (ih hjournal).last (p.calm_leave _)
  | @next p index s ss t u v journal journal' output r _ _ hrest ih ih' =>
    rcases List.append_eq_append_iff.1 hjournal with ⟨more, rfl, heq⟩ | ⟨more, rfl, heq⟩
    · exact ih' heq
    · cases more with
      | nil =>
        have hfirst : journal' = [] ++ e :: later := heq.symm
        exact ih' hfirst
      | cons e' more =>
        obtain ⟨rfl, rfl⟩ := List.cons.inj heq
        have hfirst := ih rfl
        cases more with
        | nil => exact hfirst.calm ((p.calm_leave _).trans hrest.calm)
        | cons => exact hfirst

/-- What a run has set to work by a moment, it has come to through what lies before. -/
theorem passage_at {between rest earlier : List Start} {p : Place} {index : Int} {ss : List Step}
    (h : Ran engine (.steps p index ss) t journal r u)
    (hjournal : journal = earlier ++ (between ++ rest)) :
    Passage (nextContext (between ++ rest) u.context) between (nextContext rest u.context) := by
  have hpassages : Passages t.context journal u.context := h.passages
  rw [hjournal] at hpassages
  exact hpassages.drop.take

/-- A variable keeps its value as long as no step binds another one under the name. -/
theorem field?_kept {p : Place} {index : Int} {ss : List Step}
    (h : Ran engine (.steps p index ss) t journal r u) {n : String} {v : Value}
    {earlier between rest : List Start} (hjournal : journal = earlier ++ (between ++ rest))
    (hbound : (nextContext (between ++ rest) u.context).bindings.field? n = some v)
    (honly : Start.BindsOnly n v between rest u.context) :
    (nextContext rest u.context).bindings.field? n = some v := by
  induction between generalizing earlier with
  | nil => exact hbound
  | cons e between ih =>
    have hnext : (nextContext (between ++ rest) u.context).bindings.field? n = some v := by
      by_cases hnames : e.step.Binds n
      · obtain ⟨name, act, hstep, htarget⟩ := hnames
        have hacted : e.Acted engine act (nextContext (between ++ rest) u.context) := h.acted hstep hjournal
        rcases hacted.binds_or hstep htarget with ⟨w, hbinds⟩ | hsame
        · obtain rfl := honly [] e between w rfl hbinds
          rw [hbinds.2, Dict.field?_insert, if_pos rfl]
        · rw [hsame]
          exact hbound
      · have halone : journal = earlier ++ ([e] ++ (between ++ rest)) := hjournal
        have hpassage : Passage e.context [e] (nextContext (between ++ rest) u.context) :=
          h.passage_at halone
        rw [hpassage.bindings n (List.forall_mem_singleton.2 hnames)]
        exact hbound
    have hlater : journal = (earlier ++ [e]) ++ (between ++ rest) := by simp [hjournal]
    exact ih hlater hnext honly.tail

end Ran

/-! ## What is recorded -/

/-- The entries that the run of a valid workflow adds to its history are of different steps. -/
theorem Prepared.nodup_added {engine : Engine σ} {w : Workflow} {r : Request} {start : Int}
    {c : Context} (h : Prepared w r start c) {t u : Situation σ} {journal : List Start}
    {q : Except Raised Value}
    (hran : Ran engine (.steps .top start (w.steps.drop start.toNat)) t journal q u)
    {added : List StepResult} (hadded : u.context.results = t.context.results ++ added) :
    (added.map StepResult.step).Nodup := by
  obtain ⟨headings, told, hheadings, htold, hperm, -⟩ := hran.entries
  have hsame : added.map StepResult.heading = headings := by
    rw [Context.headings, hadded, List.map_append] at hheadings
    exact List.append_cancel_left hheadings
  have hnames : added.map StepResult.step = headings.map (·.1) := by
    rw [← hsame, List.map_map]
    rfl
  have hsublist := ((htold.map Start.step).trans hran.steps_sublist).trans
    (Step.nodesOf_drop_sublist start.toNat w.steps)
  rw [hnames, hperm.nodup_iff, ← Function.comp_def, ← List.map_map]
  refine (hsublist.map Step.name).nodup ?_
  rw [← Workflow.nodes, ← w.names_eq_map]
  exact (Workflow.wellNamed h.wellformed).nodup

/-- The latest entry of a step is the one that the run has added for it. -/
theorem Context.resultOf?_of_mem {c : Context} {given added : List StepResult} {entry : StepResult}
    {n : String} (hresults : c.results = given ++ added) (hnodup : (added.map StepResult.step).Nodup)
    (hentry : entry ∈ added) (hname : entry.step = .str n) : c.resultOf? (.str n) = some entry := by
  obtain ⟨before, behind, rfl⟩ := List.append_of_mem hentry
  have hother : ∀ x ∈ behind, x.step ≠ .str n := by
    intro x hx heq
    rw [List.map_append, List.map_cons] at hnodup
    refine (List.nodup_cons.1 hnodup.of_append_right).1 ?_
    exact (heq.trans hname.symm) ▸ List.mem_map_of_mem hx
  have hreverse : c.results.reverse
      = behind.reverse ++ entry :: (before.reverse ++ given.reverse) := by
    simp [hresults]
  rw [resultOf?, hreverse, List.find?_eq_some_iff_append]
  refine ⟨by simp [hname], behind.reverse, _, rfl, fun x hx => ?_⟩
  simpa [Value.same_str_right] using hother x (List.mem_reverse.1 hx)

/-! ## Runs -/

open Template

/-- A run reads back what it has written: the variables and the outputs of the steps that have the
given names. -/
structure ReadsBack (engine : Engine σ) (isVariable isStep : String → Prop) (c : Context)
    (starts : List Start)
    (last : Context) : Prop where
  /-- An action has written its output by the next moment. -/
  acted : ∀ earlier e later name act, starts = earlier ++ e :: later → e.step = .action name act →
    e.Acted engine act (nextContext later last)
  /-- What was bound is read at every later moment, until another value is bound. -/
  bound : ∀ earlier e between rest n v, starts = earlier ++ e :: (between ++ rest) →
    isVariable n → v ≠ .null → e.Binds n v (nextContext (between ++ rest) last) →
    Start.BindsOnly n v between rest last → Reads (nextContext rest last) n v
  /-- What a step has given is read at every moment at which the run has recorded it as completed. -/
  completed : ∀ earlier rest added entry n, starts = earlier ++ rest →
    (nextContext rest last).results = c.results ++ added → entry ∈ added →
    entry.step = .str n → isStep n → entry.status = .completed → entry.output ≠ .null →
    Reads (nextContext rest last) ("steps." ++ n) entry.output

section

variable {engine : Engine σ} {t u : Situation σ} {starts : List Start} {q : Except Raised Value}

theorem Ran.reads_variable {p : Place} {index : Int} {ss : List Step}
    (h : Ran engine (.steps p index ss) t starts q u) {earlier between rest : List Start} {e : Start}
    {n : String} {v : Value} (hstarts : starts = earlier ++ e :: (between ++ rest))
    (hname : NamesVariable n) (hbinds : e.Binds n v (nextContext (between ++ rest) u.context))
    (honly : Start.BindsOnly n v between rest u.context) : Reads (nextContext rest u.context) n v := by
  have hbound : (nextContext (between ++ rest) u.context).bindings.field? n = some v := by
    rw [hbinds.2, Dict.field?_insert, if_pos rfl]
  have hlater : starts = (earlier ++ [e]) ++ (between ++ rest) := by simp [hstarts]
  refine hname.toIsName.reads ?_
  rw [resolve_variable hname, Dict.field, h.field?_kept hlater hbound honly]
  rfl

theorem Prepared.reads_output {w : Workflow} {r : Request} {start : Int} {c : Context}
    (h : Prepared w r start c)
    (hran : Ran engine (.steps .top start (w.steps.drop start.toNat)) t starts q u)
    {earlier rest : List Start} {added : List StepResult} {entry : StepResult} {n : String}
    (hstarts : starts = earlier ++ rest)
    (hadded : (nextContext rest u.context).results = t.context.results ++ added)
    (hentry : entry ∈ added) (hstep : entry.step = .str n) (hname : NamesStep n) :
    Reads (nextContext rest u.context) ("steps." ++ n) entry.output := by
  obtain ⟨more, hmore⟩ : (nextContext rest u.context).results <+: u.context.results := by
    have hall : starts = earlier ++ (rest ++ []) := by rw [List.append_nil, hstarts]
    have hpassage := hran.passage_at hall
    rw [List.append_nil] at hpassage
    exact hpassage.results
  have hnodup : ((added ++ more).map StepResult.step).Nodup := by
    refine h.nodup_added hran ?_
    rw [← hmore, hadded, List.append_assoc]
  rw [List.map_append] at hnodup
  refine hname.toIsName.output.reads (resolve_output hname.undivided ?_)
  exact Context.resultOf?_of_mem hadded hnodup.of_append_left hentry hstep

end

/-- In the run of a valid workflow, a value that was bound under a name without points, other than
`input` and `logs`, is read back under it until another value is bound; and the output of a completed
step is read back under the name of the step, if this holds no point. For other names it makes no
difference to the expression what is bound or recorded under them. -/
theorem names_read_back (engine : Engine σ) {w : Workflow} {r : Request} {start : Int} {c : Context}
    (h : Prepared w r start c) (outside : σ) :
    (∃ q, ∃ u : Situation σ, run engine w r outside = (conclude w q u.context, u.outside) ∧
      ReadsBack engine NamesVariable NamesStep c (journal engine w r outside) u.context) ∧
    ∀ n, IsName n →
      (¬ NamesVariable n → ∀ d v, resolve (d.bindVariable (.str n) v) n = resolve d n) ∧
      (¬ NamesStep n → ∀ d entry, entry.step = .str n →
        resolve (d.record entry) ("steps." ++ n) = resolve d ("steps." ++ n)) := by
  refine ⟨?_, fun n hname => ⟨fun hnot d v => ?_, fun hnot d entry hentry => ?_⟩⟩
  · obtain ⟨q, u, hrun, hran⟩ := run_ran_of_checked engine h h.checked outside
    exact ⟨q, u, hrun, {
      acted := fun _ _ _ _ _ hstarts hstep => hran.acted hstep hstarts
      bound := fun _ _ _ _ _ _ hstarts hname _ hbinds honly =>
        hran.reads_variable hstarts hname hbinds honly
      completed := fun _ _ _ _ _ hstarts hadded hentry hstep hname _ _ =>
        h.reads_output hran hstarts hadded hentry hstep hname }⟩
  · exact resolve_bindVariable (hname.elsewhere hnot) d v
  · exact resolve_record (hname.divided hnot) hentry d

/-- A workflow that binds a variable in a branch, and goes on. -/
def bindsInBranch : Workflow where
  name := .str "w"
  steps := [
    .conditional (.str "choose") (.str "true")
      [.action (.str "bind") (.setVariable (.str "x") (some (.int 1)))] [],
    .action (.str "tell") (.log (.str "bound"))]

/-- Behind the branch both the variable and the step that has bound it are read back. -/
theorem names_read_back_behind_branch :
    ∃ (c : Context) (q : Except Raised Value) (u : Situation Unit) (choose bind tell : Start),
      Prepared bindsInBranch {} 0 c ∧
      run ({} : Engine Unit) bindsInBranch {} () = (conclude bindsInBranch q u.context, u.outside) ∧
      journal ({} : Engine Unit) bindsInBranch {} () = [choose, bind, tell] ∧
      Reads tell.context "x" (.int 1) ∧ Reads tell.context "steps.bind" (.int 1) := by
  have h : Prepared bindsInBranch {} 0 _ := prepare_eq_ok.1 rfl
  obtain ⟨⟨q, u, hrun, hreads⟩, -⟩ := names_read_back ({} : Engine Unit) h ()
  have hfacts : (journal ({} : Engine Unit) bindsInBranch {} ()).map
      (fun e => (e.step, e.context.bindings, e.context.results))
        = [(bindsInBranch.steps[0], [], [Context.inputResult (.dict [])]),
          (.action (.str "bind") (.setVariable (.str "x") (some (.int 1))), [],
            [Context.inputResult (.dict [])]),
          (bindsInBranch.steps[1], [(.str "x", .int 1)], [Context.inputResult (.dict []),
            { step := .str "bind", type := .str "set_variable", status := .completed, output := .int 1 },
            { step := .str "choose", type := .str "conditional", status := .completed,
              output := .record [("condition", .bool true), ("branch", .str "then")] }])] := by
    decide +kernel
  obtain ⟨choose, _, hstarts, -, hfacts⟩ := List.map_eq_cons_iff.1 hfacts
  obtain ⟨bind, _, rfl, hbind, hfacts⟩ := List.map_eq_cons_iff.1 hfacts
  obtain ⟨tell, _, rfl, htell, hfacts⟩ := List.map_eq_cons_iff.1 hfacts
  obtain rfl := List.map_eq_nil_iff.1 hfacts
  simp only [Prod.mk.injEq] at hbind htell
  refine ⟨_, q, u, choose, bind, tell, h, hrun, hstarts, ?_, ?_⟩
  · refine hreads.bound [choose] bind [] [tell] "x" (.int 1) hstarts (by decide) (by decide) ⟨?_, ?_⟩
      (.nil _ _ _ _)
    · exact ⟨_, _, hbind.1, rfl⟩
    · exact htell.2.1.trans (congrArg (Dict.insert · (.str "x") (.int 1)) hbind.2.1).symm
  · exact hreads.completed [choose, bind] [tell] _ _ "bind" hstarts htell.2.2 (.head _) rfl
      (by decide) rfl (by decide)

/-- A workflow that binds variables under names which lead elsewhere, the first in a step with such a
name. -/
def bindsElsewhere : Workflow where
  name := .str "w"
  steps := [
    .action (.str "s.t") (.setVariable (.str "a.b") (some (.int 1))),
    .action (.str "s") (.setVariable (.str "input") (some (.int 1))),
    .action (.str "u") (.setVariable (.str "logs") (some (.int 1))),
    .action (.str "tell") (.setVariable (.str "y") (some (.list [.str "\x7b\x7ba.b\x7d\x7d",
      .str "\x7b\x7binput\x7d\x7d", .str "\x7b\x7blogs\x7d\x7d",
      .str "\x7b\x7bsteps.s.t\x7d\x7d"])))]

/-- A name is not read back if behind the step that has bound a value something else is read. -/
theorem ReadsBack.not_isVariable {engine : Engine σ} {isVariable isStep : String → Prop} {c last : Context}
    {starts rest : List Start} {e : Start} {n : String} {v : Value}
    (h : ReadsBack engine isVariable isStep c starts last) (earlier : List Start)
    (hstarts : starts = earlier ++ e :: rest)
    (hbinds : e.Binds n v (nextContext rest last)) (hv : v ≠ .null)
    (hother : resolve (nextContext rest last) n ≠ .ok v) : ¬ isVariable n := by
  intro hname
  exact hother (h.bound earlier e [] rest n v hstarts hname hv hbinds (.nil _ _ _ _)).resolve

theorem prepared_bindsElsewhere :
    ∃ c, Prepared bindsElsewhere {} 0 c ∧ c.results = [Context.inputResult (.dict [])] := by
  have hfacts : (prepare bindsElsewhere {}).toOption.map (fun p => (p.1, p.2.results))
      = some (0, [Context.inputResult (.dict [])]) := by
    decide +kernel
  rcases hprepare : prepare bindsElsewhere {} with f | ⟨start, c⟩
  · rw [hprepare] at hfacts
    cases hfacts
  · rw [hprepare] at hfacts
    obtain ⟨rfl, hresults⟩ := Prod.mk.inj (Option.some.inj hfacts)
    exact ⟨c, prepare_eq_ok.1 hprepare, hresults⟩

/-- Three steps bind a variable each, and the first of them is recorded before the second is set to work. -/
theorem journal_bindsElsewhere :
    ∃ first second third tell,
      journal ({} : Engine Unit) bindsElsewhere {} () = [first, second, third, tell] ∧
      first.Binds "a.b" (.int 1) second.context ∧ second.Binds "input" (.int 1) third.context ∧
      third.Binds "logs" (.int 1) tell.context ∧
      second.context.bindings = [(.str "a.b", .int 1)] ∧ third.context.inputs = .dict [] ∧
      second.context.results = [Context.inputResult (.dict []),
        { step := .str "s.t", type := .str "set_variable", status := .completed, output := .int 1 }] := by
  have hfacts : (journal ({} : Engine Unit) bindsElsewhere {} ()).map
      (fun e => (e.step, e.context.inputs, e.context.bindings))
        = [(bindsElsewhere.steps[0], .dict [], []),
          (bindsElsewhere.steps[1], .dict [], [(.str "a.b", .int 1)]),
          (bindsElsewhere.steps[2], .dict [], [(.str "a.b", .int 1), (.str "input", .int 1)]),
          (bindsElsewhere.steps[3], .dict [],
            [(.str "a.b", .int 1), (.str "input", .int 1), (.str "logs", .int 1)])] := by
    decide +kernel
  have hhistory : (journal ({} : Engine Unit) bindsElsewhere {} ())[1]?.map (fun e => e.context.results)
      = some [Context.inputResult (.dict []),
        { step := .str "s.t", type := .str "set_variable", status := .completed, output := .int 1 }] := by
    decide +kernel
  obtain ⟨first, _, hstarts, hfirst, hfacts⟩ := List.map_eq_cons_iff.1 hfacts
  obtain ⟨second, _, rfl, hsecond, hfacts⟩ := List.map_eq_cons_iff.1 hfacts
  obtain ⟨third, _, rfl, hthird, hfacts⟩ := List.map_eq_cons_iff.1 hfacts
  obtain ⟨tell, _, rfl, htell, hfacts⟩ := List.map_eq_cons_iff.1 hfacts
  obtain rfl := List.map_eq_nil_iff.1 hfacts
  simp only [Prod.mk.injEq] at hfirst hsecond hthird htell
  rw [hstarts] at hhistory
  refine ⟨first, second, third, tell, hstarts, ⟨⟨_, _, hfirst.1, rfl⟩, ?_⟩, ⟨⟨_, _, hsecond.1, rfl⟩, ?_⟩,
    ⟨⟨_, _, hthird.1, rfl⟩, ?_⟩, hsecond.2.2, hthird.2.1, Option.some.inj hhistory⟩
  · rw [hsecond.2.2, hfirst.2.2]
    rfl
  · rw [hthird.2.2, hsecond.2.2]
    rfl
  · rw [htell.2.2, hthird.2.2]
    rfl

/-- Whichever names are read back, a name with a point is none of them, for variables and for steps, and
neither are `input` and `logs` for variables. -/
theorem not_read_back_elsewhere :
    (∀ n ∈ ["a.b", "input", "logs", "s.t"], IsName n) ∧
      ∃ (c : Context) (q : Except Raised Value) (u : Situation Unit), Prepared bindsElsewhere {} 0 c ∧
      run ({} : Engine Unit) bindsElsewhere {} () = (conclude bindsElsewhere q u.context, u.outside) ∧
      ∀ isVariable isStep : String → Prop,
        ReadsBack ({} : Engine Unit) isVariable isStep c (journal {} bindsElsewhere {} ()) u.context →
        ¬ isVariable "a.b" ∧ ¬ isVariable "input" ∧ ¬ isVariable "logs" ∧ ¬ isStep "s.t" := by
  obtain ⟨c, h, hresults⟩ := prepared_bindsElsewhere
  obtain ⟨q, u, hrun, -⟩ := run_ran_of_checked ({} : Engine Unit) h h.checked ()
  obtain ⟨first, second, third, tell, hstarts, hfirst, hsecond, hthird, hbindings, hinputs, hentries⟩ :=
    journal_bindsElsewhere
  refine ⟨by decide, c, q, u, h, hrun, fun isVariable isStep hreads => ?_⟩
  rw [hstarts] at hreads
  have hpoint : resolve second.context "a.b" = .ok .null := by
    have hcut : resolve second.context "a.b"
        = walk second.context.logs (second.context.bindings.field "a") ["b"] := rfl
    rw [hcut, hbindings]
    rfl
  have hinput : resolve third.context "input" = .ok (.dict []) := by
    have hcut : resolve third.context "input" = .ok third.context.inputs := rfl
    rw [hcut, hinputs]
  have hlogs : resolve tell.context "logs" = .ok .runLog := rfl
  have hunrecorded : second.context.resultOf? (.str "s") = none := by
    rw [Context.resultOf?, hentries]
    decide
  have houtput : resolve second.context "steps.s.t" = .ok .null := resolve_of_unrecorded rfl hunrecorded
  refine ⟨?_, ?_, ?_, fun hname => ?_⟩
  · refine hreads.not_isVariable [] rfl hfirst (by decide) fun heq => ?_
    cases hpoint.symm.trans heq
  · refine hreads.not_isVariable [first] rfl hsecond (by decide) fun heq => ?_
    cases hinput.symm.trans heq
  · refine hreads.not_isVariable [first, second] rfl hthird (by decide) fun heq => ?_
    cases hlogs.symm.trans heq
  · have hread := hreads.completed [first] [second, third, tell] _ _ "s.t" rfl
      (hentries.trans (congrArg (· ++ _) hresults).symm) (.head _) rfl hname rfl
    cases houtput.symm.trans (hread (by decide)).resolve

end Stepwise
