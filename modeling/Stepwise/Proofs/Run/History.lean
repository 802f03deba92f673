-- SUMMARY: From one moment of a run to another the history and the log grow, and variables keep their values.
import Stepwise.Proofs.Resume.Saved
import Stepwise.Proofs.Store.Memory
import Stepwise.Proofs.Template.Data
import Stepwise.Proofs.Workflow.Names

/-!
# History at work

A run adds to its history and to its log at the end only, it adds to the log in log steps
only, and a variable keeps its value until a step binds it. This is so between any two of
its moments. What the history shows is another matter: an entry that refers to the log of
the run shows the lines that the log has at the moment it is looked at. So what is shown
stays the same where it is data, and as long as no log step is at work. Stored values are
kept until a step saves others.
-/

namespace Stepwise

variable {σ : Type}

/-! ## Moments -/

/-- The context at the next moment of a run: the one that the next step finds, or else the last. -/
def nextContext (starts : List Start) (last : Context) : Context :=
  match starts with
  | [] => last
  | e :: _ => e.context

def Step.isLog : Step → Bool
  | .action _ (.log _) => true
  | _ => false

def Step.Binds (s : Step) (name : String) : Prop :=
  ∃ label act, s = .action label act ∧ act.target = .str name

/-- How a run has come from one moment to another, with the given steps at work in between. -/
structure Passage (c : Context) (between : List Start) (d : Context) : Prop where
  results : c.results <+: d.results
  logs : c.logs <+: d.logs
  silent : (∀ e ∈ between, e.step.isLog = false) → d.logs = c.logs
  bindings : ∀ name, (∀ e ∈ between, ¬ e.step.Binds name) →
    d.bindings.field? name = c.bindings.field? name

namespace Passage

variable {c d f : Context} {between between' : List Start}

/-- Only the history has grown, or nothing at all. -/
theorem of_calm (hresults : c.results <+: d.results) (hlogs : d.logs = c.logs)
    (hbindings : d.bindings = c.bindings) : Passage c between d where
  results := hresults
  logs := hlogs ▸ List.prefix_rfl
  silent := fun _ => hlogs
  bindings := fun _ _ => by rw [hbindings]

theorem rfl : Passage c between c := of_calm List.prefix_rfl (Eq.refl _) (Eq.refl _)

theorem trans (h : Passage c between d) (h' : Passage d between' f) :
    Passage c (between ++ between') f where
  results := h.results.trans h'.results
  logs := h.logs.trans h'.logs
  silent := by
    intro hsilent
    obtain ⟨hbefore, hafter⟩ := List.forall_mem_append.1 hsilent
    exact (h'.silent hafter).trans (h.silent hbefore)
  bindings := by
    intro name hfree
    obtain ⟨hbefore, hafter⟩ := List.forall_mem_append.1 hfree
    exact (h'.bindings name hafter).trans (h.bindings name hbefore)

theorem record (c : Context) (r : StepResult) : Passage c [] (c.record r) :=
  of_calm (List.prefix_append _ _) (Eq.refl _) (Eq.refl _)

theorem enter (p : Place) (index : Int) (c : Context) : Passage c [] (p.enter index c) := by
  cases p with
  | top => exact .of_calm List.prefix_rfl (Eq.refl _) (Eq.refl _)
  | branch name => exact .of_calm List.prefix_rfl (Eq.refl _) (Eq.refl _)

theorem leave (p : Place) (c : Context) : Passage c [] (p.leave c) := by
  cases p with
  | top => exact .rfl
  | branch name => exact .of_calm List.prefix_rfl (Eq.refl _) (Eq.refl _)

end Passage

/-! ## Effects -/

/-- A pause leaves what is recorded. -/
theorem Passage.suspend (c : Context) (payload : Value) : Passage c [] (c.suspend payload).2 := by
  unfold Context.suspend
  split
  · exact .of_calm List.prefix_rfl (Eq.refl _) (Eq.refl _)
  · exact .of_calm List.prefix_rfl (Eq.refl _) (Eq.refl _)

/-- Binding a variable leaves the others. -/
theorem Passage.bindVariable {name : Value} {act : Action} {c : Context} {key : Key} (v : Value)
    (hkey : act.boundKey? = some key) :
    Passage c [{ step := .action name act, context := c }] (c.bindVariable key v) where
  results := List.prefix_rfl
  logs := List.prefix_rfl
  silent := fun _ => Eq.refl _
  bindings := by
    intro asked hfree
    have hne : key ≠ .str asked := by
      rintro rfl
      exact hfree _ (.head _) ⟨name, act, Eq.refl _,
        (act.target.toValue_of_toKey? (Value.toKey?_of_boundKey? hkey)).symm⟩
    rw [Context.bindVariable, Dict.field?_insert_key, if_neg hne]

/-- An effect of an action leaves what the action is not there to change. -/
theorem Effect.passage {label : StepLabel} {name : Value} {act : Action} {c : Context} {eff : Effect}
    (h : act.Allows label c eff) :
    Passage c [{ step := .action name act, context := c }] (eff.apply c) := by
  cases h with
  | none => exact .rfl
  | @log _ line =>
    refine ⟨List.prefix_rfl, List.prefix_append _ _, fun hsilent => ?_, fun _ _ => rfl⟩
    cases hsilent _ (.head _)
  | bind hkey => exact .bindVariable _ hkey
  | finish => exact .of_calm List.prefix_rfl rfl rfl
  | @pause _ bound? lines extra _ hkey =>
    cases bound? with
    | none =>
      have hbefore : Passage c [{ step := .action name act, context := c }] c := .rfl
      exact hbefore.trans (.suspend c _)
    | some b => exact (Passage.bindVariable b.2 (hkey b rfl)).trans (.suspend _ _)

/-! ## What is shown -/

theorem Dict.field?_settleEntries (log : List Value) (d : Dict) (name : String) :
    Dict.field? (Value.settleEntries log d) name = (d.field? name).map (·.settle log) := by
  unfold Dict.field?
  induction d with
  | nil => rfl
  | cons e rest ih =>
    obtain ⟨k, v⟩ := e
    rw [Value.settleEntries, Dict.get?_cons, Dict.get?_cons, ih]
    split <;> rfl

/-- What the earlier moment shows the later one shows too: all the entries of the history, and the
variables that no step in between binds. -/
structure Shows (c : Context) (between : List Start) (d : Context) : Prop where
  results : c.settled.results <+: d.settled.results
  bindings : ∀ name, (∀ e ∈ between, ¬ e.step.Binds name) →
    d.settled.bindings.field? name = c.settled.bindings.field? name

/-- What is shown stays the same where it is data, and as long as nothing is added to the log. -/
theorem Passage.shows {c d : Context} {between : List Start} (h : Passage c between d)
    (hshown : (∀ e ∈ between, e.step.isLog = false) ∨ c.IsData) : Shows c between d := by
  have hsame : (∀ r ∈ c.results, r.settle d.logs = r.settle c.logs) ∧
      ∀ name, (c.bindings.field? name).map (·.settle d.logs)
        = (c.bindings.field? name).map (·.settle c.logs) := by
    rcases hshown with hsilent | hdata
    · rw [h.silent hsilent]
      exact ⟨fun _ _ => Eq.refl _, fun _ => Eq.refl _⟩
    · refine ⟨fun r hr => ?_, fun name => Option.map_congr fun v hv => ?_⟩
      · have hsettled := hdata.results r hr
        simp only [StepResult.settle, Value.settle_of_isSettled _ _ hsettled]
      · have hsettled := hdata.bindings.get? hv
        rw [Value.settle_of_isSettled _ _ hsettled, Value.settle_of_isSettled _ _ hsettled]
  refine ⟨?_, fun name hfree => ?_⟩
  · have hprefix := h.results.map (·.settle d.logs)
    rwa [List.map_congr_left hsame.1] at hprefix
  · simp only [Context.settled, Dict.field?_settleEntries, h.bindings name hfree, hsame.2]

/-! ## Runs -/

/-- The passages of a run, from moment to moment through the steps of its journal. -/
inductive Passages : Context → List Start → Context → Prop
  | done {c d : Context} : Passage c [] d → Passages c [] d
  | next {c d f : Context} {e : Start} {journal : List Start} :
    Passage c [] e.context → Passage e.context [e] d → Passages d journal f →
    Passages c (e :: journal) f

namespace Passages

variable {c d f : Context} {journal journal' : List Start}

/-- A passage may come before. -/
theorem after (h : Passage c [] d) (hd : Passages d journal f) : Passages c journal f := by
  cases hd with
  | done hd => exact .done (h.trans hd)
  | next hd he hrest => exact .next (h.trans hd) he hrest

/-- A passage may come behind. -/
theorem before (h : Passages c journal d) (hd : Passage d [] f) : Passages c journal f := by
  induction h with
  | done h => exact .done (h.trans hd)
  | next h he _ ih => exact .next h he (ih hd)

theorem append (h : Passages c journal d) (h' : Passages d journal' f) :
    Passages c (journal ++ journal') f := by
  induction h with
  | done h => exact h'.after h
  | next h he _ ih => exact .next h he (ih h')

/-- A step that sets no other to work. -/
theorem single {s : Step} (h : Passage c [{ step := s, context := c }] d) :
    Passages c [{ step := s, context := c }] d :=
  .next .rfl h (.done .rfl)

/-- The passages from a later moment on. -/
theorem drop {earlier : List Start} (h : Passages c (earlier ++ journal) d) :
    Passages (nextContext journal d) journal d := by
  induction earlier generalizing c with
  | nil =>
    cases h with
    | done => exact .done .rfl
    | next _ he hrest => exact .next .rfl he hrest
  | cons e earlier ih =>
    cases h with
    | next _ _ hrest => exact ih hrest

/-- The passage to a moment. -/
theorem take {between : List Start} (h : Passages c (between ++ journal) d) :
    Passage c between (nextContext journal d) := by
  induction between generalizing c with
  | nil =>
    cases h with
    | done h => exact h
    | next h => exact h
  | cons e between ih =>
    cases h with
    | next h he hrest => exact (h.trans he).trans (ih hrest)

end Passages

/-- Every run passes from moment to moment. -/
theorem Ran.passages {engine : Engine σ} {task : Task} {t u : Situation σ} {journal : List Start}
    {r : Except Raised Value} (h : Ran engine task t journal r u) :
    Passages t.context (task.opened t.context ++ journal) u.context := by
  induction h with
  | unnamed => exact .done .rfl
  | completed _ _ ih => exact ih.before (.record _ _)
  | failed _ _ _ ih => exact ih.before (.record _ _)
  | unreported _ _ _ ih => exact ih
  | action _ hplaced hperform =>
    obtain ⟨-, eff, hallows, hctx, -⟩ := Engine.perform_ends hplaced hperform
    rw [hctx]
    exact .single (Effect.passage hallows)
  | refused => exact .single (.of_calm List.prefix_rfl rfl rfl)
  | passed => exact .single .rfl
  | chosen _ _ _ _ _ ih => exact (Passages.single .rfl).append ih
  | @again _ t _ _ ds _ _ _ _ _ _ _ _ _ _ _ ih =>
    have hopened : Passage t.context [] (t.withPath ds).context := .of_calm List.prefix_rfl rfl rfl
    exact (Passages.single .rfl).append (ih.after hopened)
  | done => exact .done .rfl
  | @broken p index _ _ _ _ _ _ _ ih => exact (ih.after (.enter p index _)).before (.leave p _)
  | @stopped p index _ _ _ _ _ _ _ _ ih =>
    exact (ih.after (.enter p index _)).before (.leave p _)
  | @next p index _ _ _ _ _ _ _ _ _ _ _ _ ih ih' =>
    exact ((ih.after (.enter p index _)).before (.leave p _)).append ih'

/-! ## Records -/

/-- What a run keeps of what has been recorded, through the steps that it sets to work. -/
structure KeepsRecords (engine : Engine σ) (starts : List Start) (t u : Situation σ)
    (goesOn : Prop) : Prop where
  /-- The first step finds what the run was given. -/
  begun : Passage t.context [] (nextContext starts u.context)
  /-- Any moment leads to any later one, with the steps at work that lie in between. -/
  passage : ∀ earlier between rest, starts = earlier ++ (between ++ rest) →
    Passage (nextContext (between ++ rest) u.context) between (nextContext rest u.context)
  /-- What one moment shows any later one shows, if the first holds data only or no log step lies in
  between. -/
  shown : ∀ earlier between rest, starts = earlier ++ (between ++ rest) →
    ((∀ e ∈ between, e.step.isLog = false) ∨ (nextContext (between ++ rest) u.context).IsData) →
    Shows (nextContext (between ++ rest) u.context) between (nextContext rest u.context)
  stored : ∀ (k : String) (Holds : Value → σ → Prop), engine.Stores k Holds →
    ∀ v, Holds v t.outside → SavesAll k Holds v starts goesOn u.outside
  /-- A stored value is kept where no step saves another one under its key. -/
  kept : ∀ (k : String) (Holds : Value → σ → Prop), engine.Stores k Holds →
    ∀ v, Holds v t.outside → (∀ e ∈ starts, e.saved? k = none) → Holds v u.outside

/-- From every moment of a run to every later one, what has been recorded is kept: the history and the log
grow at their ends, variables change where steps bind them, stored values where steps save others. What
is shown of this is kept too, as long as it is data or no log step is at work. -/
theorem run_keeps_records (engine : Engine σ) {w : Workflow} {r : Request} {start : Int} {c : Context}
    (h : Prepared w r start c) (hint : r.HasIntegerPath) (outside : σ) :
    ∃ q u, run engine w r outside = (conclude w q u.context, u.outside) ∧
      KeepsRecords engine (journal engine w r outside) { context := c, outside } u
        (q.isOk = true) := by
  obtain ⟨q, u, hrun, hran⟩ := run_ran engine h hint outside
  have hpassages : Passages c (journal engine w r outside) u.context := hran.passages
  have hpassage {earlier between rest : List Start}
      (heq : journal engine w r outside = earlier ++ (between ++ rest)) :
      Passage (nextContext (between ++ rest) u.context) between (nextContext rest u.context) := by
    rw [heq] at hpassages
    exact hpassages.drop.take
  have hbegun : Passage c [] (nextContext (journal engine w r outside) u.context) := hpassages.take
  exact ⟨q, u, hrun, hbegun, fun _ _ _ => hpassage, fun _ _ _ heq => (hpassage heq).shows,
    fun k Holds hstores v hv => hran.savesAll hstores hv,
    fun k Holds hstores v hv => (hran.savesAll hstores hv).kept⟩

/-- A workflow that saves a value, and then adds to the log. -/
def savesValue : Workflow where
  name := .str "notes"
  steps := [
    .action (.str "save") (.saveState (.str "k") (some (.str "new"))),
    .action (.str "tell") (.log (.str "saved"))]

/-- A script with a memory, and nothing else. -/
def memoryOnly : Scripted.Script where
  store? := some .memory

/-- A world whose memory holds a value. -/
def heldWorld : Scripted.World where
  store := { entries := [(.str "k", { value := .str "old" })] }

/-- The value that was saved is there at the end, in place of the one that was there before. -/
theorem run_keeps_records_in_memory :
    ∃ c q u, Prepared savesValue {} 0 c ∧
      run memoryOnly.engine savesValue {} heldWorld = (conclude savesValue q u.context, u.outside) ∧
      KeepsRecords memoryOnly.engine (journal memoryOnly.engine savesValue {} heldWorld)
        { context := c, outside := heldWorld } u (q.isOk = true) ∧
      u.outside.store.HoldsUnder "k" (.str "new") := by
  have h : Prepared savesValue {} 0 _ := prepare_eq_ok.1 rfl
  obtain ⟨q, u, hrun, hkeeps⟩ := run_keeps_records memoryOnly.engine h
    (Request.hasIntegerPath_of_null rfl) heldWorld
  refine ⟨_, q, u, h, hrun, hkeeps, ?_⟩
  have hcompleted : (run memoryOnly.engine savesValue {} heldWorld).1.toOption.map Outcome.status
      = some "completed" := by
    decide +kernel
  have hok : q.isOk = true := by
    rw [hrun] at hcompleted
    rcases q with (e | f | _) | v
    · have hfailed : "failed" = "completed" := Option.some.inj hcompleted
      exact absurd hfailed (by decide)
    · cases hcompleted
    · cases hcompleted
    · rfl
  have hlast : lastSaved "k" (.str "old") (journal memoryOnly.engine savesValue {} heldWorld)
      = .str "new" := by
    decide +kernel
  have hsaved := (hkeeps.stored "k" _ (memoryOnly.engine_stores rfl "k") (.str "old")
    ⟨rfl, rfl⟩).holds hok
  rwa [hlast] at hsaved

/-- A workflow that binds a variable to the log, and then adds to the log. -/
def bindsLog : Workflow where
  name := .str "w"
  steps := [
    .action (.str "a") (.setVariable (.str "x") (some (.str "\x7b\x7blogs\x7d\x7d"))),
    .action (.str "b") (.log (.str "hi"))]

/-- What refers to the log changes under a log step: the entry of the step that bound the variable shows
no line before, and the new line behind, and so does the variable. -/
theorem not_shows_after_log :
    ∃ earlier e o, journal ({} : Engine Unit) bindsLog {} () = earlier ++ [e] ∧
      run ({} : Engine Unit) bindsLog {} () = (.ok o, ()) ∧ ¬ Shows e.context [e] o.context := by
  have hshown : (journal ({} : Engine Unit) bindsLog {} ()).getLast?.bind (fun e =>
      (run ({} : Engine Unit) bindsLog {} ()).1.toOption.map fun o =>
        decide (e.context.settled.results <+: o.context.settled.results)) = some false := by
    decide +kernel
  obtain ⟨e, he, houtcome⟩ := Option.bind_eq_some_iff.1 hshown
  obtain ⟨o, ho, hprefix⟩ := Option.map_eq_some_iff.1 houtcome
  obtain ⟨earlier, hjournal⟩ := List.getLast?_eq_some_iff.1 he
  rcases hrun : run ({} : Engine Unit) bindsLog {} () with ⟨f | o', ⟨⟩⟩
  · rw [hrun] at ho
    cases ho
  · rw [hrun] at ho
    cases ho
    exact ⟨earlier, e, o, hjournal, rfl, fun h => of_decide_eq_false hprefix h.results⟩

end Stepwise
