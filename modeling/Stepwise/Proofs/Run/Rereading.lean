-- SUMMARY: A context that is written as a record is read back as one that looks the same everywhere.
import Stepwise.Proofs.Run.History
import Stepwise.Proofs.Run.Inputs

/-!
# Contexts read back

What is written of a context is data: where it refers to the log of the run, the lines of
the log stand. The context that is read back from there holds this data, and so it does not
refer to its log any more where the first one did. But it looks the same: it is written as
the same record, it tells the same of every step and of the stop signal, every path leads to
the same in it, and every template and condition comes out alike.
-/

namespace Stepwise

variable {σ : Type}

/-! ## Settled values -/

mutual

/-- A value is data once the lines of a log that is data stand in it. -/
theorem Value.isSettled_settle {log : List Value} (hlog : ∀ line ∈ log, line.isSettled = true) :
    (v : Value) → (v.settle log).isSettled = true
  | .null => rfl
  | .bool _ => rfl
  | .int _ => rfl
  | .float _ => rfl
  | .str _ => rfl
  | .runLog => Value.isSettled_list.2 hlog
  | .list items => Value.allSettled_settleList hlog items
  | .tuple items => Value.allSettled_settleList hlog items
  | .dict entries => Value.entriesSettled_settleEntries hlog entries

theorem Value.allSettled_settleList {log : List Value} (hlog : ∀ line ∈ log, line.isSettled = true) :
    (vs : List Value) → Value.allSettled (Value.settleList log vs) = true
  | [] => rfl
  | v :: vs => by
    rw [Value.settleList, Value.allSettled, Value.isSettled_settle hlog v,
      Value.allSettled_settleList hlog vs]
    rfl

theorem Value.entriesSettled_settleEntries {log : List Value}
    (hlog : ∀ line ∈ log, line.isSettled = true) :
    (es : List (Key × Value)) → Value.entriesSettled (Value.settleEntries log es) = true
  | [] => rfl
  | (k, v) :: es => by
    rw [Value.settleEntries, Value.entriesSettled, Value.isSettled_settle hlog v,
      Value.entriesSettled_settleEntries hlog es]
    rfl

end

section Settled

variable {log : List Value} (hlog : ∀ line ∈ log, line.isSettled = true)
include hlog

theorem Value.settle_settle (v : Value) : (v.settle log).settle log = v.settle log :=
  Value.settle_of_isSettled log _ (Value.isSettled_settle hlog v)

theorem StepResult.settle_settle (r : StepResult) : (r.settle log).settle log = r.settle log := by
  simp only [settle, Value.settle_settle hlog]

end Settled

/-! ## Paths into settled values -/

namespace Template

theorem itemAtSegment_map (f : Value → Value) (hnull : f .null = .null) (items : List Value)
    (segment : String) :
    itemAtSegment (items.map f) segment = (itemAtSegment items segment).map f := by
  have hitem (position : Int) :
      (itemAt? (items.map f) position).getD .null = f ((itemAt? items position).getD .null) := by
    simp only [itemAt?, List.length_map, List.getElem?_map]
    generalize (if position < 0 then position + items.length else position) = place
    by_cases hplace : place < 0
    · simp [hplace, hnull]
    · cases hw : items[place.toNat]? with
      | none => simp [hplace, hnull]
      | some w => simp [hplace]
  unfold itemAtSegment
  split
  · cases Numeral.toInt segment with
    | error f => rfl
    | ok position => exact congrArg Except.ok (hitem position)
  · exact congrArg Except.ok hnull.symm

variable {log : List Value} (hlog : ∀ line ∈ log, line.isSettled = true)
include hlog

/-- What lies in a settled value is what lies in the value, settled. -/
theorem child_settle (v : Value) (segment : String) :
    child log (v.settle log) segment = (child log v segment).map (·.settle log) := by
  cases v with
  | dict entries =>
    have hfield := Dict.field?_settleEntries log entries segment
    simp only [child, Value.settle, hfield]
    cases Dict.field? entries segment <;> rfl
  | list items | tuple items =>
    simp only [child, Value.settle, Value.settleList_eq_map]
    exact itemAtSegment_map _ rfl items segment
  | runLog =>
    have hsame : log.map (·.settle log) = log := by
      rw [← Value.settleList_eq_map, Value.settleList_of_allSettled log log (Value.allSettled_iff.2 hlog)]
    have hmap := itemAtSegment_map (·.settle log) rfl log segment
    rwa [hsame] at hmap
  | _ => rfl

theorem walk_settle (v : Value) (segments : List String) :
    walk log (v.settle log) segments = (walk log v segments).map (·.settle log) := by
  induction segments generalizing v with
  | nil => rfl
  | cons segment rest ih =>
    rw [walk_cons, walk_cons, child_settle hlog]
    cases child log v segment with
    | error f => rfl
    | ok w => exact ih w

end Template

/-! ## Writing and reading -/

/-- The value can be told as the name of a step: it counts as true, or it is the empty text. Every text
can. -/
def Value.IsStepName (v : Value) : Prop := v.truthy = true ∨ v = .str ""

theorem Value.IsStepName.text (s : String) : IsStepName (.str s) := by
  by_cases h : s = ""
  · exact .inr (congrArg _ h)
  · exact .inl (by simpa [truthy] using h)

theorem Value.IsStepName.orElse {v : Value} (h : v.IsStepName) : v.orElse (.str "") = v := by
  rcases h with h | rfl
  · rw [Value.orElse, if_pos h]
  · rfl

namespace Context

/-- All that has to be written of the context can be read back: it has inputs and a history, the entries
of which are named, and its log is data. -/
structure IsWritable (c : Context) : Prop where
  inputs : c.inputs.isNull = false
  history : c.results ≠ []
  names : ∀ r ∈ c.results, r.step.IsStepName
  logs : ∀ line ∈ c.logs, line.isSettled = true

/-- The context that is read back from what is written of one. Where the run stands is not written. -/
def reread (c : Context) : Context :=
  { c.settled with inputs := c.settle c.inputs, position := [], suspendedPath := [], resumePath := [] }

theorem ofValue_toValue {c : Context} (h : c.IsWritable) : ofValue c.toValue = .ok c.reread := by
  -- The record, and what is looked up in it.
  obtain ⟨fields, hrecord, hinputs, hbindings, hresults, hlogs, hname, hstep, hsuspended, hresult⟩ :
      ∃ fields, c.toValue = .dict fields ∧ Dict.field fields "inputs" = c.settle c.inputs ∧
        Dict.field fields "variables" = c.settle (.dict c.bindings) ∧
        Dict.field fields "step_results" = .list (c.results.map fun r => (r.settle c.logs).toValue) ∧
        Dict.field fields "logs" = .list c.logs ∧ Dict.field fields "workflow_name" = c.workflowName ∧
        Dict.field? fields "current_step" = some c.currentStep ∧
        Dict.field? fields "suspended" = some c.suspended ∧
        Dict.field? fields "result" = c.result?.map c.settle := by
    rw [toValue]
    cases c.result? with
    | none => exact ⟨_, rfl, rfl, rfl, rfl, rfl, rfl, rfl, rfl, rfl⟩
    | some v => exact ⟨_, rfl, rfl, rfl, rfl, rfl, rfl, rfl, rfl, rfl⟩
  have hread : (c.results.map fun r => (r.settle c.logs).toValue).mapM StepResult.ofValue
      = .ok (c.results.map (·.settle c.logs)) := by
    rw [← Function.comp_def StepResult.toValue, ← List.map_map, StepResult.mapM_ofValue_toValue,
      List.map_map]
    refine congrArg Except.ok (List.map_congr_left fun r hr => ?_)
    simp only [Function.comp_apply, StepResult.settle, (h.names r hr).orElse]
  have hparts := Context.ofParts_eq_ok (p := {
    inputs := c.settle c.inputs, bindings := c.settle (.dict c.bindings), logs := .list c.logs
    results := .list (c.results.map fun r => (r.settle c.logs).toValue)
    workflowName := c.workflowName }).2
      ⟨_, c.logs, _, _, [], [], Value.dictIfAny_dict _, Value.itemsIfAny_list _,
        Value.itemsIfAny_list _, hread, rfl, rfl, rfl⟩
  have hnull : (c.settle c.inputs).isNull = false := (Value.isNull_settle _ _).trans h.inputs
  have hnonempty : (c.results.map (·.settle c.logs)).isEmpty = false := by
    simpa using h.history
  unfold ofValue
  rw [hrecord]
  simp only [Value.toRecord, Checks.ok_bind, hinputs, hbindings, hresults, hlogs, hname, hstep,
    hsuspended, hresult, hparts, hnull, hnonempty]
  rfl

/-! ## The same look -/

/-- Whatever is asked of the context `d` is answered as of `c`, with the lines of the log wherever the
answer refers to the log. -/
structure Reflects (d c : Context) : Prop where
  record : d.toValue = c.toValue
  hasResult : d.hasResult = c.hasResult
  result : d.result = c.settle c.result
  suspended : d.suspended = c.suspended
  resultOf : ∀ name, d.resultOf? name = (c.resultOf? name).map (·.settle c.logs)
  statusOf : ∀ name, d.statusOf name = c.statusOf name
  resolve : ∀ path, (Template.resolve d path).map d.settle = (Template.resolve c path).map c.settle
  fill : ∀ v, (Template.fill d v).map d.settle = (Template.fill c v).map c.settle
  fillAsText : ∀ v, Template.fillAsText d v = Template.fillAsText c v
  isFillable : ∀ v, Template.isFillable d v = Template.isFillable c v
  evaluate : ∀ condition, Template.evaluateValue d condition = Template.evaluateValue c condition

/-- Contexts with one log that show every expression alike fill and evaluate alike. -/
theorem Reflects.of_resolve {c d : Context} (hlogs : d.logs = c.logs) (hrecord : d.toValue = c.toValue)
    (hresult? : d.result? = c.result?.map c.settle) (hsuspended : d.suspended = c.suspended)
    (hresults : ∀ name, d.resultOf? name = (c.resultOf? name).map (·.settle c.logs))
    (hresolve : ∀ path, (Template.resolve d path).map d.settle = (Template.resolve c path).map c.settle) :
    Reflects d c := by
  have hshows (paths : List String) : d.ShowsOn c paths := fun path _ => hresolve path
  refine ⟨hrecord, ?_, ?_, hsuspended, hresults, fun name => ?_, hresolve, ?_, ?_, ?_, ?_⟩
  · rw [Context.hasResult, hresult?, Option.isSome_map]
    rfl
  · rw [Context.result, Context.result, hresult?]
    cases c.result? <;> rfl
  · rw [Context.statusOf, Context.statusOf, hresults]
    cases c.resultOf? name <;> rfl
  · exact fun v => Template.fill_shown v (hshows _) (.of_logs hlogs)
  · exact fun v => Template.fillAsText_shown (hshows _) (.of_logs hlogs)
  · exact fun v => Template.isFillable_shown v (hshows _)
  · exact fun condition => Template.evaluateValue_shown (hshows _)

theorem resultOf?_reread (c : Context) (name : Value) :
    c.reread.resultOf? name = (c.resultOf? name).map (·.settle c.logs) := by
  rw [resultOf?, resultOf?, reread, settled, ← List.map_reverse, List.find?_map]
  rfl

section Reread

variable {c : Context} (hlogs : ∀ line ∈ c.logs, line.isSettled = true)
include hlogs

theorem toValue_reread : c.reread.toValue = c.toValue := by
  have hsettle (v : Value) : c.reread.settle (c.settle v) = c.settle v := Value.settle_settle hlogs v
  have hbindings : c.reread.settle (.dict c.reread.bindings) = c.settle (.dict c.bindings) :=
    hsettle (.dict c.bindings)
  have hinputs : c.reread.settle c.reread.inputs = c.settle c.inputs := hsettle c.inputs
  have hresults : (c.reread.results.map fun r => (r.settle c.reread.logs).toValue)
      = c.results.map fun r => (r.settle c.logs).toValue := by
    simp [reread, settled, StepResult.settle_settle hlogs]
  have hresult : c.reread.result? = c.result?.map c.settle := rfl
  rw [toValue, toValue, snapshotFields, snapshotFields, hbindings, hinputs, hresults, hresult]
  cases c.result? with
  | none => rfl
  | some v =>
    simp only [Option.map_some, hsettle]
    rfl

/-- Every path leads to the same in the context that is read back, with the lines of the log. -/
theorem resolve_reread (path : String) :
    (Template.resolve c.reread path).map c.reread.settle = (Template.resolve c path).map c.settle := by
  have hsettle (v : Value) : c.reread.settle (c.settle v) = c.settle v := Value.settle_settle hlogs v
  have hwalk (v : Value) (rest : List String) :
      (Template.walk c.logs (c.settle v) rest).map c.reread.settle
        = (Template.walk c.logs v rest).map c.settle := by
    rw [Context.settle, Template.walk_settle hlogs]
    cases Template.walk c.logs v rest with
    | error f => rfl
    | ok w => exact congrArg Except.ok (hsettle w)
  unfold Template.resolve
  split
  · rename_i name rest _
    rw [resultOf?_reread]
    cases c.resultOf? (.str name) with
    | none => rfl
    | some r => exact hwalk r.output rest
  · rename_i rest _
    exact hwalk c.inputs rest
  · rename_i first rest _ _ _
    split
    · rfl
    · have hfield : c.reread.bindings.field first = c.settle (c.bindings.field first) := by
        rw [Dict.field, Dict.field, reread, settled, Dict.field?_settleEntries]
        cases Dict.field? c.bindings first <;> rfl
      rw [hfield]
      exact hwalk _ rest
  · rfl

end Reread

/-- What is read back of a context looks the same. -/
theorem reread_reflects {c : Context} (h : c.IsWritable) : c.reread.Reflects c :=
  .of_resolve rfl (toValue_reread h.logs) rfl rfl (resultOf?_reread c) (resolve_reread h.logs)

/-! ## Contexts that arise -/

/-- The contexts that there are: made of parts or read from a record, where the log is data and the
entries of the history are named; found by a step that a run sets to work; at any moment within such a
step, when the variables, the stop signal and the position may have come to be anything; and left
behind by a run. -/
inductive Arises : Context → Prop where
  | made {p : Parts} {c : Context} (hmade : ofParts p = .ok c) (hlogs : p.logs.isSettled = true)
    (hnames : ∀ r ∈ c.results, r.step.IsStepName) : Arises c
  | read {v : Value} {c : Context} (hread : ofValue v = .ok c) (hdata : v.isSettled = true)
    (hnames : ∀ r ∈ c.results, r.step.IsStepName) : Arises c
  | found {σ : Type} {engine : Engine σ} {w : Workflow} {r : Request} {start : Int} {c : Context}
    {outside : σ} {e : Start} (hprepare : prepare w r = .ok (start, c)) (hc : Arises c)
    (he : e ∈ journal engine w r outside) : Arises e.context
  | within {c d : Context} {names : List Value} (hc : Arises c)
    (hnames : ∀ name ∈ names, name.IsStepName) (hgrows : c.GrowsBy names d) : Arises d
  | left {σ : Type} {engine : Engine σ} {w : Workflow} {r : Request} {start : Int} {c : Context}
    {outside outside' : σ} {o : Outcome} (hprepare : prepare w r = .ok (start, c)) (hc : Arises c)
    (hrun : run engine w r outside = (.ok o, outside')) : Arises o.context

namespace IsWritable

variable {c d : Context}

theorem of_parts {p : Parts} (h : ofParts p = .ok c) (hlogs : p.logs.isSettled = true)
    (hnames : ∀ r ∈ c.results, r.step.IsStepName) : c.IsWritable := by
  obtain ⟨_, logs, _, results, _, _, -, hitems, -, -, -, -, rfl⟩ := ofParts_eq_ok.1 h
  refine ⟨?_, ?_, hnames, fun line hline => ?_⟩
  · cases hnull : p.inputs.isNull with
    | true => rfl
    | false => exact hnull
  · cases results with
    | nil => exact List.cons_ne_nil _ _
    | cons => exact List.cons_ne_nil _ _
  · rw [Value.itemsIfAny] at hitems
    split at hitems
    · exact Value.isSettled_of_items hlogs hitems line hline
    · cases hitems
      cases hline

/-- Work keeps the inputs, and adds named entries and lines of text. -/
theorem of_growsBy {names : List Value} (h : c.IsWritable)
    (hnames : ∀ name ∈ names, name.IsStepName) (hgrows : c.GrowsBy names d) : d.IsWritable := by
  obtain ⟨hinputs, ⟨added, hresults, hadded⟩, lines, hlogs⟩ := hgrows
  refine ⟨hinputs ▸ h.inputs, ?_, ?_, ?_⟩
  · rw [hresults]
    exact List.append_ne_nil_of_left_ne_nil h.history _
  · rw [hresults]
    exact List.forall_mem_append.2 ⟨h.names, fun r hr => hnames _ (hadded r hr)⟩
  · rw [hlogs]
    refine List.forall_mem_append.2 ⟨h.logs, fun line hline => ?_⟩
    obtain ⟨text, -, rfl⟩ := List.mem_map.1 hline
    rfl

/-- A run settles what it leaves behind. -/
theorem of_conclude {w : Workflow} {q : Except Raised Value} {o : Outcome} (h : c.IsWritable)
    (ho : conclude w q c = .ok o) : o.context.IsWritable := by
  obtain ⟨hinputs, hlogs⟩ : o.context.inputs = c.inputs ∧ o.context.logs = c.logs := by
    obtain ⟨e, -, rfl⟩ | ⟨v, -, rfl⟩ := conclude_eq_ok ho
    · exact ⟨rfl, rfl⟩
    · unfold Outcome.ofContext
      dsimp only
      split <;> exact ⟨rfl, rfl⟩
  have hresults := results_of_conclude ho
  refine ⟨hinputs ▸ h.inputs, ?_, ?_, hlogs ▸ h.logs⟩
  · rw [hresults]
    simpa using h.history
  · rw [hresults]
    exact List.forall_mem_map.2 fun r hr => h.names r hr

end IsWritable

/-- Every context that arises can be read back from what is written of it. -/
theorem Arises.isWritable {c : Context} (h : c.Arises) : c.IsWritable := by
  have hnamed {w : Workflow} {r : Request} {start : Int} {c : Context} (h : Prepared w r start c) :
      ∀ name ∈ w.names, name.IsStepName :=
    fun name hname => .inl ((Workflow.wellNamed h.wellformed).truthy name hname)
  induction h with
  | made hmade hlogs hnames => exact .of_parts hmade hlogs hnames
  | @read v c hread hdata hnames =>
    obtain ⟨d, hd, hread⟩ := Checks.bind_iff.1 hread
    obtain ⟨c, hparts, hread⟩ := Checks.bind_iff.1 hread
    cases hread
    have hlogs : (Dict.field d "logs").isSettled = true := by
      unfold Value.toRecord at hd
      split at hd
      · cases hd
        exact Dict.IsData.getD (Value.isSettled_dict.1 hdata) _
      · cases hd
    have hwritable : c.IsWritable := .of_parts hparts hlogs hnames
    exact ⟨hwritable.inputs, hwritable.history, hwritable.names, hwritable.logs⟩
  | @found σ engine w r start c outside e hprepare _ he ih =>
    have hprepared : Prepared w r start c := prepare_eq_ok.1 hprepare
    rw [journal, hprepare] at he
    rcases (hprepared.movesBy engine outside).starts e he with he | hgrows
    · cases he
    · exact ih.of_growsBy (hnamed hprepared) hgrows
  | within _ hnames hgrows ih => exact ih.of_growsBy hnames hgrows
  | @left σ engine w r start c outside outside' o hprepare _ hrun ih =>
    have hprepared : Prepared w r start c := prepare_eq_ok.1 hprepare
    rw [hprepared.run_eq, execute_eq_conclude] at hrun
    have hend := ih.of_growsBy (hnamed hprepared) (hprepared.movesBy engine outside).grows
    exact hend.of_conclude (Prod.mk.inj hrun).1

/-- A run starts with a context that arises, if the log that it is given is data and the entries of the
history that it is given are named. -/
theorem Arises.prepared {w : Workflow} {r : Request} {start : Int} {c : Context}
    (h : Prepared w r start c) (hlogs : r.logs.isSettled = true)
    (hnames : ∀ r ∈ c.results, r.step.IsStepName) : c.Arises := by
  obtain ⟨_, _, -, -, hmade⟩ := h.context
  exact .made hmade hlogs hnames

end Context

/-- Every context is read back from what is written of it as one that looks the same: it is written as
the same record, has the same stop signal, tells the same of every step, leads every path to the same,
and fills and evaluates every template and condition alike. -/
theorem context_survives_writing {c : Context} (h : c.Arises) :
    ∃ d, Context.ofValue c.toValue = .ok d ∧ d.Reflects c :=
  ⟨c.reread, Context.ofValue_toValue h.isWritable, Context.reread_reflects h.isWritable⟩

/-- A workflow that binds a variable to the log of its run. -/
def looksAtLog : Workflow where
  name := .str "w"
  steps := [
    .action (.str "a") (.log (.str "hi")),
    .action (.str "b") (.setVariable (.str "x") (some (.str "\x7b\x7blogs\x7d\x7d"))),
    .action (.str "c") (.log (.str "there"))]

/-- The last step finds the variable bound to the log. In the context that is read back it is bound to the
line of the log, and the path into it leads to the same line. -/
theorem context_survives_writing_of_looksAtLog :
    ∃ e ∈ journal ({} : Engine Unit) looksAtLog {} (),
      e.context.bindings.field? "x" = some .runLog ∧
      Template.resolve e.context "x.0" = .ok (.str "hi") ∧
      ∃ d, Context.ofValue e.context.toValue = .ok d ∧ d.Reflects e.context := by
  have hlast : (journal ({} : Engine Unit) looksAtLog {} ()).getLast?.map (fun e =>
      (e.context.bindings.field? "x", (Template.resolve e.context "x.0").toOption))
      = some (some .runLog, some (.str "hi")) := by
    decide +kernel
  obtain ⟨e, he, hvalues⟩ := Option.map_eq_some_iff.1 hlast
  have hmem : e ∈ journal ({} : Engine Unit) looksAtLog {} () := List.mem_of_getLast? he
  obtain ⟨hx, hpath⟩ := Prod.mk.inj hvalues
  refine ⟨e, hmem, hx, ?_, context_survives_writing ?_⟩
  · cases hresolve : Template.resolve e.context "x.0" with
    | error f =>
      rw [hresolve] at hpath
      cases hpath
    | ok v =>
      rw [hresolve] at hpath
      exact congrArg Except.ok (Option.some.inj hpath)
  · cases hprepare : prepare looksAtLog {} with
    | error f =>
      rw [journal, hprepare] at hmem
      cases hmem
    | ok p =>
      have hprepared : Prepared looksAtLog {} p.1 p.2 := prepare_eq_ok.1 hprepare
      obtain ⟨-, given, accepted, -, -, hc⟩ := hprepared.fresh
      refine .found hprepare (.prepared hprepared rfl ?_) hmem
      rw [hc]
      exact List.forall_mem_singleton.2 (.text _)

end Stepwise
