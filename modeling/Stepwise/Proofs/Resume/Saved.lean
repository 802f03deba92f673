-- SUMMARY: What an outcome hands over to resume from, and that the engine reads it back.
import Stepwise.Proofs.Resume.Prepare
import Stepwise.Proofs.Value.Keys

/-!
# Saved runs

An outcome reports the variables, the history and the log of its run as data. Together with
a step to start at and a path they make the request that goes on from there. A payload
carries the same request, and the engine reads it from there unchanged.
-/

namespace Stepwise

/-! ## Requests from outcomes -/

namespace Outcome

/-- The request to start at a step with what an outcome has saved. -/
def snapshotRequest (o : Outcome) (inputs : Value) (startStep : Int) : Request where
  inputs
  startStep := .int startStep
  bindings := o.context.settle (.dict o.context.bindings)
  results := .list (o.context.results.map fun r => (r.settle o.context.logs).toValue)
  logs := .list o.context.logs

/-- The request to start at a step and to enter it at a path, with what an outcome has saved. -/
def resumeRequest (o : Outcome) (inputs : Value) (startStep : Int) (path : List Dict) : Request :=
  { o.snapshotRequest inputs startStep with resumePath := Context.pathValue path }

theorem ofContext_workflowName (name : Value) (c : Context) :
    (ofContext name c).workflowName = name := by
  unfold ofContext
  dsimp only
  split <;> rfl

theorem ofContext_position (name : Value) (c : Context) :
    (ofContext name c).context.position = c.position := by
  unfold ofContext
  dsimp only
  split <;> rfl

theorem ofContext_results (name : Value) (c : Context) :
    (ofContext name c).context.results = c.settled.results := by
  unfold ofContext
  dsimp only
  split <;> rfl

theorem ofContext_logs (name : Value) (c : Context) :
    (ofContext name c).context.logs = c.logs := by
  unfold ofContext
  dsimp only
  split <;> rfl

/-- A run that has stopped without an error has not failed. -/
theorem ofContext_ne_failed (name : Value) (c : Context) (e : StepError) :
    (ofContext name c).verdict ≠ .failed e := by
  unfold ofContext
  dsimp only
  split
  · exact Verdict.noConfusion
  · exact Verdict.noConfusion

/-- A run that no step has ended has been completed without a value. -/
theorem ofContext_completed {name v : Value} {c : Context} {returned : Bool}
    (h : (ofContext name c).verdict = .completed v returned) : c.hasResult = returned := by
  unfold ofContext at h
  dsimp only at h
  split at h
  · cases h
  · cases h
    simp [Context.hasResult, Context.settled]

/-- A suspended outcome tells where its context stands, and its payload holds all that is saved. -/
theorem ofContext_suspended {name : Value} {c : Context} {atStep resumeStep : Int}
    {resumePath : List Dict} {payload : Value}
    (h : (ofContext name c).verdict = .suspended atStep resumeStep resumePath payload) :
    c.suspended.truthy = true ∧ atStep = c.stepIndex ∧ resumeStep = c.resumeStep ∧
      resumePath = c.resumePoint ∧ payload = c.settled.withResume name c.settled.result ∧
      (ofContext name c).context = c.settled.setResult payload := by
  unfold ofContext at h ⊢
  dsimp only at h ⊢
  split at h
  · rename_i hsuspended
    rw [if_pos hsuspended]
    cases h
    exact ⟨hsuspended, rfl, rfl, rfl, rfl, rfl⟩
  · cases h

end Outcome

open Checks

/-- The request that a payload carries is the one that its outcome has saved. The payload is refused
only if the name of the workflow is not the same as itself. -/
theorem Request.ofPayload_withResume {w : Workflow} (o : Outcome) {c : Context} {entries : Dict}
    {inputs payload : Value} {r : Request} (ho : o.context = c.setResult payload) :
    Request.ofPayload w (c.withResume w.name (.dict entries)) inputs = .ok r ↔
      (w.name.isNull || w.name.isMatch w.name) = true ∧
        r = o.resumeRequest inputs c.resumeStep c.resumePoint := by
  have hresume :
      Dict.field (Dict.insert entries (.str "resume") (c.resumeRecord w.name)) "resume"
        = c.resumeRecord w.name := by
    rw [Dict.field, Dict.field?_insert, if_pos rfl]
    rfl
  -- The record under `resume`, and what the engine looks up in it.
  obtain ⟨fields, hrecord, hworkflow, hstart, hbindings, hresults, hlogs, hpath⟩ :
      ∃ fields, c.resumeRecord w.name = .dict fields ∧ Dict.field fields "workflow" = w.name ∧
        Dict.field? fields "start_step" = some (.int c.resumeStep) ∧
        Dict.field fields "variables" = c.settle (.dict c.bindings) ∧
        Dict.field fields "step_results"
          = .list (c.results.map fun r => (r.settle c.logs).toValue) ∧
        Dict.field fields "logs" = .list c.logs ∧
        Dict.field fields "path" = Context.pathValue c.resumePoint :=
    ⟨_, rfl, rfl, rfl, rfl, rfl, rfl, rfl⟩
  have htruthy : Value.truthy (.dict fields) = true := by
    cases fields with
    | nil => cases hstart
    | cons => rfl
  unfold Request.ofPayload
  rw [Context.withResume, Value.toRecord, ok_bind, hresume, hrecord]
  simp only [htruthy, Value.toRecord, ok_bind, hworkflow, hstart, hbindings, hresults, hlogs, hpath]
  have hsaved : o.resumeRequest inputs c.resumeStep c.resumePoint = {
      inputs, startStep := .int c.resumeStep
      bindings := c.settle (.dict c.bindings)
      results := .list (c.results.map fun r => (r.settle c.logs).toValue)
      logs := .list c.logs
      resumePath := Context.pathValue c.resumePoint } := by
    rw [Outcome.resumeRequest, Outcome.snapshotRequest, ho]
    rfl
  cases w.name.isNull || w.name.isMatch w.name with
  | true =>
    rw [hsaved]
    simp only [Bool.not_true, Bool.false_eq_true, if_false, true_and, pure_iff]
    exact eq_comm
  | false =>
    simp only [Bool.not_true, Bool.not_false, Bool.false_eq_true, if_true, if_false, false_and,
      bind_iff, throw_iff, exists_false, and_false]

/-! ## Reading back -/

theorem Context.pathValue_frames (fs : List Frame) :
    Context.pathValue (fs.map Frame.toDict) = .list (fs.map Frame.toValue) := by
  rw [Context.pathValue, List.map_map]
  rfl

theorem Request.hasIntegerPath_of_null {r : Request} (h : r.resumePath = .null) :
    r.HasIntegerPath := by
  intro path hpath
  rw [h] at hpath
  cases hpath
  exact nofun

/-- The engine's own frames have integer indices. -/
theorem Request.hasIntegerPath_of_frames {r : Request} {fs : List Frame}
    (h : r.resumePath = Context.pathValue (fs.map Frame.toDict)) : r.HasIntegerPath := by
  intro path hpath frame hframe
  rw [h, Context.pathValue_frames, Value.itemsIfAny_list] at hpath
  cases hpath
  obtain ⟨f, -, rfl⟩ := List.mem_map.1 hframe
  intro d v hd hv
  cases hd
  cases hv
  rfl

/-- A result is read back as it was written. Only an empty name is told by its absence. -/
theorem StepResult.ofValue_toValue (r : StepResult) :
    StepResult.ofValue r.toValue = .ok { r with step := r.step.orElse (.str "") } := by
  have eq_null {v : Value} (h : v.isNull = true) : v = .null := by
    cases v <;> first | rfl | cases h
  have hstatus : StepStatus.ofValue (.str r.status.name) = .ok r.status := by
    cases r.status <;> rfl
  obtain ⟨step, type, status, output, error⟩ := r
  unfold ofValue toValue optionalField
  cases houtput : output.isNull <;> cases herror : error.isNull
  case' false.true => obtain rfl := eq_null herror
  case' true.false => obtain rfl := eq_null houtput
  case' true.true =>
    obtain rfl := eq_null houtput
    obtain rfl := eq_null herror
  all_goals
    simp [Value.record, Value.toRecord, Dict.ofFields, Dict.field, Dict.field?, Dict.get?_cons,
      ok_bind, hstatus]

/-- A history is read back entry by entry. -/
theorem StepResult.mapM_ofValue_toValue (results : List StepResult) :
    (results.map toValue).mapM ofValue
      = .ok (results.map fun r => { r with step := r.step.orElse (.str "") }) := by
  rw [Checks.mapM_iff, List.map_map, List.map_map]
  exact List.map_congr_left fun r _ => ofValue_toValue r

/-- An outcome has the history of its run, without references to the log. -/
theorem results_of_conclude {w : Workflow} {q : Except Raised Value} {c : Context} {o : Outcome}
    (h : conclude w q c = .ok o) : o.context.results = c.results.map (·.settle c.logs) := by
  obtain ⟨e, -, rfl⟩ | ⟨v, -, rfl⟩ := conclude_eq_ok h
  · rfl
  · exact Outcome.ofContext_results _ _

/-- The context made from what an outcome has saved. -/
def Outcome.restored (o : Outcome) (inputs : Value) (path : List Dict) : Context where
  inputs
  bindings := Value.settleEntries o.context.logs o.context.bindings
  logs := o.context.logs
  results :=
    if o.context.results.isEmpty then [Context.inputResult inputs]
    else o.context.results.map fun r =>
      { r.settle o.context.logs with step := r.step.orElse (.str "") }
  workflowName := o.workflowName
  resumePath := path

/-- A workflow that has been run once can be resumed at any step, along any path that leads through
it, from what an outcome has saved. -/
theorem Prepared.restored {w : Workflow} {r : Request} {start : Int} {c : Context}
    (h : Prepared w r start c) (o : Outcome) (ho : o.workflowName = w.name) {n : Int}
    {fs : List Frame} {path : Value} (hn : 0 ≤ n ∧ n ≤ w.size)
    (hpath : path = .null ∧ fs = [] ∨ path = Context.pathValue (fs.map Frame.toDict))
    (hfs : Step.AdmitsIn fs (w.steps.drop n.toNat)) :
    Prepared w { o.snapshotRequest r.inputs n with resumePath := path } n
      (o.restored c.inputs (fs.map Frame.toDict)) := by
  obtain ⟨given, inputs, hgiven, hinputs, hc⟩ := h.context
  obtain ⟨_, _, _, _, _, _, -, -, -, -, -, -, hcontext⟩ := Context.ofParts_eq_ok.1 hc
  have hci : c.inputs = .dict inputs := by rw [hcontext]; rfl
  have hindex : Workflow.startIndex (.int n) = .ok n := rfl
  have hitems : path.itemsIfAny = .ok (fs.map Frame.toValue) := by
    rcases hpath with ⟨rfl, rfl⟩ | rfl
    · rfl
    · rw [Context.pathValue_frames, Value.itemsIfAny_list]
  refine ⟨h.wellformed, h.references, (Workflow.requireStart_iff hindex).2 hn, ?_, ?_, h.named,
    hindex⟩
  · cases fs with
    | nil => rcases hpath with ⟨rfl, -⟩ | rfl <;> rfl
    | cons f fs =>
      obtain ⟨container, rest, hdrop, hadmits⟩ := hfs.resolve_left (List.cons_ne_nil f fs)
      have hpath := hpath.resolve_left (fun h => List.cons_ne_nil f fs h.2)
      subst hpath
      refine (Workflow.requirePath_iff hindex rfl hn.1).2
        ⟨container, (f :: fs).map Frame.toValue, ?_, ?_, ?_⟩
      · exact exists_drop_eq_cons.1 ⟨rest, hdrop⟩
      · rw [Context.pathValue_frames]
        rfl
      · exact ResumePath.check_of_admits hadmits
  · refine ⟨given, inputs, hgiven, hinputs, Context.ofParts_eq_ok.2 ?_⟩
    refine ⟨_, o.context.logs, _, o.context.results.map fun r =>
      { r.settle o.context.logs with step := r.step.orElse (.str "") }, _, fs.map Frame.toDict,
      Value.dictIfAny_dict _, Value.itemsIfAny_list _, Value.itemsIfAny_list _, ?_, hitems, ?_, ?_⟩
    · rw [← Function.comp_def StepResult.toValue, ← List.map_map,
        StepResult.mapM_ofValue_toValue, List.map_map]
      rfl
    · exact Context.mapM_toDict_frames fs
    · rw [Outcome.restored, hci, ho]
      cases o.context.results <;> rfl

end Stepwise
