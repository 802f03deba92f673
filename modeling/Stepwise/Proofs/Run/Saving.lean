-- SUMMARY: Actions on data give data or stop the run, and so does every run of plain steps.
import Stepwise.Proofs.Run.Savable

/-!
# Saving runs

A step is plain if its fields are data and ask for the log in texts only. The action of a
plain step gives data and leaves the run savable, or else it stops the run; what a plain
container reports is data. By induction on its derivation a run of plain steps that has
gone through without being stopped leaves a savable situation.
-/

namespace Stepwise

variable {σ : Type}

/-! ## Plain steps -/

/-- The step has a name that counts as true, and its fields are data and omit the log. -/
structure Step.IsPlain (s : Step) : Prop where
  name : s.name.truthy = true
  fields : ∀ v ∈ s.referenceFields, v.OmitsLog

/-! ## Creating objects -/

namespace Creation

open Checks StepM

variable {I : σ → Prop} {engine : Engine σ} {label : StepLabel}

/-- The properties that can be filled at once are filled by data. -/
theorem isData_of_divide {c : Context} (hc : c.IsData) {mappings : Dict} {division : Division}
    (h : Value.OmitsLog (.dict mappings)) (hd : divide c mappings = .ok division) :
    division.prefilled.IsData := by
  obtain ⟨hsettled, hlog⟩ := h
  induction mappings generalizing division with
  | nil =>
    cases hd
    exact nofun
  | cons e rest ih =>
    obtain ⟨key, mapping⟩ := e
    simp only [Value.isSettled, Value.entriesSettled, Bool.and_eq_true] at hsettled
    simp only [Template.references, Template.referencesEntries, List.mem_append, not_or] at hlog
    have hrest (division : Division) (hd : divide c rest = .ok division) :
        division.prefilled.IsData :=
      ih hd hsettled.2 hlog.2
    simp only [divide, bind_iff] at hd
    obtain ⟨ready, -, hd⟩ := hd
    cases ready with
    | true =>
      simp only [if_true, bind_iff, pure_iff] at hd
      obtain ⟨v, hv, division', hd', rfl⟩ := hd
      intro e he
      rcases List.mem_cons.1 he with rfl | he
      · exact Template.isSettled_fill hc mapping hsettled.1 hlog.1 hv
      · exact hrest division' hd' e he
    | false =>
      simp only [Bool.false_eq_true, if_false, bind_iff, pure_iff] at hd
      obtain ⟨division', hd', rfl⟩ := hd
      exact hrest division' hd'

theorem requireKnown_saves (template mappings : Value) (index : List (Key × PropertySchema)) :
    Saves I (requireKnown template index mappings) fun _ => True := by
  refine .bind (.lift fun _ _ => trivial) fun keys _ => .ite (fun _ => .pure trivial) fun _ => ?_
  exact .bind (.glance _) fun _ _ => .bind (.lift fun _ _ => trivial) fun _ _ => .fail _

theorem create_saves (h : engine.AnswersData I) {template : Value} {properties : Dict}
    (target : Value) (htemplate : template.isSettled = true) (hproperties : properties.IsData) :
    Saves I (create engine label template properties target) (·.isSettled = true) := by
  refine .bind .requireCollaborator fun call hcall => .bind (.glance _) fun _ _ => ?_
  refine .bind (.settled ?_) fun parameters hparameters => ?_
  · refine Value.isSettled_record.2 ?_
    intro e he
    rcases List.mem_cons.1 he with rfl | he
    · exact htemplate
    · cases List.mem_singleton.1 he
      exact Value.isSettled_dict.2 hproperties
  · refine .bind (.askTool (h.tool call hcall _ _ hparameters)) ?_
    intro result hresult
    exact .bind (.bindIfNamed hresult) fun _ _ => .pure hresult

theorem askAgent_stops (template : Value) (index : List (Key × PropertySchema))
    (division : Division) (instructions : List Value) :
    Stops (σ := σ) (askAgent label template index division instructions) := by
  refine .after _ fun lines => .after _ fun shown => .after _ fun wanted => .after _ ?_
  intro names
  exact .report (.pause label _ _) _

theorem run_saves (h : engine.AnswersData I) {template properties : Value}
    (instructions : List Value) (target : Value) (htemplate : template.OmitsLog)
    (hproperties : properties.OmitsLog) :
    SavesOrStops I (Creation.run engine label template properties instructions target) := by
  refine .after .requireCollaborator fun provider hprovider => .after .require ?_
  intro _ heq
  refine .after (.filled (heq ▸ htemplate)) ?_
  intro template htemplate
  refine .after .require ?_
  intro mappings hmappings
  refine .after (.settled htemplate) ?_
  intro asked hasked
  refine .after (.ask (h.template provider hprovider asked hasked)) ?_
  intro rows _
  refine .after (.lift fun _ _ => trivial) fun index _ => .after (.glance _) fun _ _ => ?_
  refine .after (requireKnown_saves _ _ _) fun _ _ => ?_
  refine .after (.lift fun _ h => h) ?_
  intro entries hentries
  have hentries : mappings = .dict entries := by
    cases mappings with
    | dict => cases hentries; rfl
    | _ => cases hentries
  have homits : Value.OmitsLog (.dict entries) := hentries ▸ hmappings ▸ hproperties
  refine .after (.look fun c hc _ hd => isData_of_divide hc homits hd) ?_
  intro division hdivision
  split
  · exact .of_saves (create_saves h target htemplate hdivision)
  · exact .of_stops (askAgent_stops _ _ _ _)

end Creation

/-! ## The other actions -/

namespace Engine

open Checks StepM

variable {I : σ → Prop} {engine : Engine σ} {label : StepLabel}

theorem callTool_saves (h : engine.AnswersData I) {parameters : Value} (tool target : Value)
    (hparameters : parameters.OmitsLog) :
    Saves I (engine.callTool label tool parameters target) (·.isSettled = true) := by
  refine .bind .requireCollaborator fun call hcall => .bind .require ?_
  intro tool _
  refine .bind (.filled hparameters) fun _ hfilled => .bind (.settled hfilled) ?_
  intro given hgiven
  refine .bind (.glance _) fun _ _ => .bind (.glance _) fun _ _ => ?_
  refine .bind (.attempt (.ask (h.tool call hcall tool given hgiven))) ?_
  intro answer hanswer
  split
  · rename_i v
    refine .bind (.glance _) fun _ _ => .bind (.bindIfNamed (hanswer v rfl)) fun _ _ => ?_
    exact .pure (hanswer v rfl)
  · exact .raise _
  · exact .bind (.written _) fun _ _ => .fail _

/-- A function that raises something gives an unsuccessful result, if any. -/
theorem success_of_broken {name : Value} {raised : Raised} {r : FunctionResult}
    (h : FunctionRegistry.broken name raised = .ok r) : r.success = false := by
  obtain ⟨_, -, h⟩ := bind_iff.1 h
  obtain ⟨_, -, h⟩ := bind_iff.1 h
  cases h
  rfl

theorem runHandler_answers (h : engine.AnswersData I) {f : RegisteredFunction σ}
    (hf : f ∈ engine.functions) (name : Value) {parameters : Value}
    (hparameters : parameters.isSettled = true) :
    Ask.Answers I (fun r => r.success = true → r.data.isSettled = true)
      (FunctionRegistry.runHandler f name parameters engine.tools?) := by
  intro o ho
  obtain ⟨hworld, hanswer⟩ := h.function f hf parameters hparameters o ho
  unfold FunctionRegistry.runHandler
  split
  · rename_i r world heq
    rw [heq] at hworld hanswer
    exact ⟨hworld, hanswer⟩
  · rename_i e world heq
    rw [heq] at hworld
    refine ⟨hworld, fun r hr hsuccess => ?_⟩
    rw [success_of_broken (mapError_iff.1 hr)] at hsuccess
    cases hsuccess

theorem askFunction_saves (h : engine.AnswersData I) {parameters : Value} (function : Value)
    (hparameters : parameters.isSettled = true) :
    Saves I (engine.askFunction label function parameters) (·.isSettled = true) := by
  refine .bind (.lift fun _ h => h) ?_
  intro found hfound
  split
  · rename_i f
    have hf : f ∈ engine.functions := by
      obtain ⟨key, -, hkey⟩ := bind_iff.1 hfound
      exact List.mem_of_find?_eq_some (pure_iff.1 hkey)
    refine .bind (.glance _) fun _ _ => .bind (.ask (runHandler_answers h hf function hparameters)) ?_
    intro result hresult
    refine .ite (fun hsuccess => .pure (hresult hsuccess)) fun _ => ?_
    exact .bind (.lift fun _ _ => trivial) fun _ _ => .fail _
  · split
    · rename_i call hcall
      exact .bind (.glance _) fun _ _ => .askTool (h.tool call hcall _ _ hparameters)
    · exact .fail _

theorem callFunction_saves (h : engine.AnswersData I) {parameters : Value} (function target : Value)
    (hparameters : parameters.OmitsLog) :
    Saves I (engine.callFunction label function parameters target) (·.isSettled = true) := by
  refine .bind .require fun function _ => .bind (.filled hparameters) ?_
  intro _ hfilled
  refine .bind (.settled hfilled) ?_
  intro given hgiven
  refine .bind (askFunction_saves h function hgiven) ?_
  intro result hresult
  exact .bind (.bindIfNamed hresult) fun _ _ => .pure hresult

theorem loadObject_stops (template : Value) (keys? : Option (List Value))
    (instructions : List Value) :
    Stops (engine.loadObject label template keys? instructions) := by
  refine .after _ fun provider => .after _ fun _ => .after _ fun _ => .after _ fun _ => ?_
  refine .after _ fun rows => .after _ fun schemas => .after _ ?_
  intro lines
  refine .after _ fun wanted => .after _ fun sampled => .after _ fun _ => ?_
  exact .report (.pause label _ _) _

theorem instructAgent_stops (instructions : List Value) (sampling : Bool) (target : Value) :
    Stops (engine.instructAgent label instructions sampling target) := by
  refine .after _ fun _ => .after _ ?_
  intro lines
  have hrest (sampled output : Value) :
      Stops (σ := σ)
        (if !sampled.isNull then
          StepM.bindIfNamed target sampled >>= fun _ =>
            label.pause lines [("sampling_result", sampled)] >>= fun _ => pure output
        else label.pause lines [("sampling_result", sampled)] >>= fun _ => pure output) :=
    .ite (.after _ fun _ => .report (.pause label _ _) _) (.report (.pause label _ _) _)
  split
  · exact .after _ fun sampled => hrest sampled _
  · exact .after _ fun sampled => hrest sampled _

theorem loadState_saves (h : engine.AnswersData I) {default : Value} (key target : Value)
    (hdefault : default.OmitsLog) :
    Saves I (engine.loadState label key default target) (·.isSettled = true) := by
  refine .bind .requireCollaborator fun store hstore => .bind .require fun _ _ => ?_
  refine .bind (.glance _) fun key _ => .bind .require ?_
  intro target _
  refine .bind (.askSoftly (h.stored store hstore key)) ?_
  intro v hv
  have hbind (v : Value) (hv : v.isSettled = true) :
      Saves I (StepM.bindVariable target v >>= fun _ => pure v) (·.isSettled = true) :=
    .bind (.bindVariable hv) fun _ _ => .pure hv
  exact .ite (fun _ => .bind (.filled hdefault) hbind) fun _ => hbind v hv

theorem saveState_saves (h : engine.AnswersData I) {value? : Option Value} (key : Value)
    (hvalue : ∀ v ∈ value?, v.OmitsLog) :
    Saves I (engine.saveState label key value?) (·.isSettled = true) := by
  refine .bind .requireCollaborator fun store hstore => .bind .require fun _ _ => ?_
  refine .bind (.glance _) fun key _ => .bind .requirePresent ?_
  intro v hv
  refine .bind (.filled (hvalue v hv)) ?_
  intro w hw
  refine .bind (.attempt (.ask (h.storing store hstore key w hw))) ?_
  intro answer _
  split
  · refine .pure (Value.isSettled_record.2 fun e he => ?_)
    rcases List.mem_cons.1 he with rfl | he
    · rfl
    · cases List.mem_singleton.1 he
      exact hw
  · exact .bind (.written _) fun _ _ => .fail _

/-- An action whose fields omit the log gives data and leaves the run savable, or it stops the run. -/
theorem perform_saves (h : engine.AnswersData I) (label : StepLabel) (act : Action)
    (hact : ∀ v ∈ act.referenceFields, v.OmitsLog) :
    SavesOrStops I (engine.perform label act) := by
  cases act with
  | log message =>
    refine .of_saves (.bind .require fun _ _ => .bind (.glance _) fun line _ => ?_)
    refine .bind (.change fun c hc => ?_) fun _ _ => .pure rfl
    exact ⟨⟨hc.inputs, hc.bindings, hc.results⟩, hc.history, hc.names, hc.suspendedPath⟩
  | setVariable target value? =>
    refine .of_saves (.bind .require fun _ _ => .bind .requirePresent fun v hv => ?_)
    refine .bind (.filled (hact v (Option.mem_toList.2 hv))) ?_
    intro w hw
    exact .bind (.bindVariable hw) fun _ _ => .pure hw
  | finish value? =>
    refine .of_stops (.after _ fun _ => .after _ fun v => .report (fun s => ?_) _)
    exact StepM.wp_change _ |>.2 rfl
  | callTool tool parameters target =>
    exact .of_saves (callTool_saves h tool target (hact _ (.head _)))
  | callFunction function parameters target =>
    exact .of_saves (callFunction_saves h function target (hact _ (.head _)))
  | createObject template properties instructions target =>
    exact Creation.run_saves h instructions target (hact _ (.head _)) (hact _ (.tail _ (.head _)))
  | loadObject template keys? instructions => exact .of_stops (loadObject_stops _ _ _)
  | agent instructions sampling target => exact .of_stops (instructAgent_stops _ _ _)
  | loadState key default target =>
    exact .of_saves (loadState_saves h key target (hact _ (.tail _ (.head _))))
  | saveState key value? =>
    refine .of_saves (saveState_saves h key fun v hv => hact v (.tail _ ?_))
    exact Option.mem_toList.2 hv

end Engine

/-! ## Containers -/

/-- What a container reports when it is opened so. -/
def Opening.output : Opening → Value
  | .enter _ _ _ output => output
  | .pass output => output

theorem Entry.output_of_opening {e : Entry} {s : Step} {output : Value} {o : Opening}
    (h : e.opening s output = .ok o) : o.output = output := by
  obtain ⟨branch, index, steps, -, -, -, rfl⟩ := Entry.opening_eq_ok h
  rfl

theorem isSettled_matchedCase {branch : Value} (h : branch.isSettled = true) :
    (matchedCase branch).isSettled = true := by
  unfold matchedCase
  split
  · split <;> rfl
  · exact h

/-- The report of two fields that are data. -/
theorem isSettled_report {first second : String} {v w : Value} (hv : v.isSettled = true)
    (hw : w.isSettled = true) : (Value.record [(first, v), (second, w)]).isSettled = true := by
  refine Value.isSettled_record.2 ?_
  intro e he
  rcases List.mem_cons.1 he with rfl | he
  · exact hv
  · cases List.mem_singleton.1 he
    exact hw

/-- What a plain container reports is data, unless it is entered again. -/
theorem Step.isSettled_opening {s : Step} {t : Situation σ} (hs : s.IsPlain)
    (ht : t.context.IsData) (hpath : t.context.resumePath = []) :
    StepM.wp s.opening (fun o _ => o.output.isSettled = true) (fun _ _ => True) t := by
  cases s with
  | action name act => exact rfl
  | conditional name condition thenSteps elseSteps =>
    rw [opening, StepM.wp_bind]
    refine StepLabel.wp_require ?_ fun _ => trivial
    rw [StepM.wp_bind, conditionalEntry, StepM.wp_entry_afresh hpath, StepM.wp_bind, StepM.wp_look]
    refine ⟨fun holds _ => StepM.wp_lift.2 ⟨fun o ho => ?_, fun _ _ => trivial⟩, fun _ _ => trivial⟩
    rw [Entry.output_of_opening ho]
    exact isSettled_report rfl rfl
  | switch name subject cases default? =>
    rw [opening, StepM.wp_bind]
    refine StepLabel.wp_require ?_ fun _ => trivial
    rw [StepM.wp_bind]
    refine StepM.wp_look.2 ⟨fun v hv => ?_, fun _ _ => trivial⟩
    obtain ⟨hsettled, hlog⟩ := hs.fields subject (.head _)
    have hvalue : v.isSettled = true := Template.isSettled_fill ht subject hsettled hlog hv
    rw [StepM.wp_bind, switchChoice?, StepM.wp_entry_afresh hpath, StepM.wp_bind]
    refine StepM.wp_look.2 ⟨fun w _ => ?_, fun _ _ => trivial⟩
    rw [StepM.wp_bind]
    refine StepM.wp_lift.2 ⟨fun text? _ => ?_, fun _ _ => trivial⟩
    rw [StepM.wp_pure]
    cases hentry : caseChoice? (.switch name subject cases default?) text? with
    | none =>
      change StepM.wp (StepM.spelled v >>= fun _ => pure (Opening.pass _)) _ _ t
      rw [StepM.wp_bind]
      refine StepM.wp_look.2 ⟨fun _ _ => ?_, fun _ _ => trivial⟩
      exact isSettled_report hvalue rfl
    | some e =>
      obtain ⟨branch, rfl⟩ := Step.caseChoice?_afresh hentry
      refine StepM.wp_lift.2 ⟨fun o ho => ?_, fun _ _ => trivial⟩
      rw [Entry.output_of_opening ho]
      exact isSettled_report hvalue (isSettled_matchedCase rfl)

/-! ## Runs -/

def Task.IsPlain (task : Task) : Prop := ∀ s ∈ task.ahead [], s.IsPlain

namespace Task.IsPlain

theorem head {s : Step} (h : Task.IsPlain (.step s)) : s.IsPlain := by
  refine h s ?_
  rw [ahead, Step.ahead_nil, Step.nodes_eq]
  exact .head _

theorem branch {s : Step} {name : String} {index : Int} {ss : List Step}
    (h : Task.IsPlain (.body s)) (hbranch : s.branchNamed? name = some ss) :
    Task.IsPlain (.steps (.branch name) index ss) := by
  intro x hx
  rw [ahead, Step.aheadOf_nil] at hx
  refine h x ?_
  rw [ahead, Step.ahead_nil, Step.nodes_eq]
  exact .tail _ ((Step.branchNamed?_sublist hbranch).subset hx)

theorem first {p : Place} {index : Int} {s : Step} {ss : List Step}
    (h : Task.IsPlain (.steps p index (s :: ss))) : Task.IsPlain (.step s) := by
  intro x hx
  refine h x ?_
  rw [ahead, Step.ahead_nil] at hx
  rw [ahead, Step.aheadOf_nil]
  exact List.mem_append_left _ hx

theorem rest {p : Place} {index : Int} {s : Step} {ss : List Step}
    (h : Task.IsPlain (.steps p index (s :: ss))) : Task.IsPlain (.steps p (index + 1) ss) := by
  intro x hx
  refine h x ?_
  rw [ahead, Step.aheadOf_nil] at hx ⊢
  exact List.mem_append_right _ hx

end Task.IsPlain

/-- A run of plain steps that has gone through, and that nothing has stopped, leaves a savable situation
and gives data. -/
theorem Ran.isSavable {engine : Engine σ} {I : σ → Prop} (hanswers : engine.AnswersData I)
    {task : Task} {t u : Situation σ} {journal : List Start} {r : Except Raised Value}
    (h : Ran engine task t journal r u) (hpath : t.context.resumePath = [])
    (hplain : task.IsPlain) (ht : t.IsSavable I) {v : Value} (hr : r = .ok v)
    (hgo : u.context.hasResult = false) : u.IsSavable I ∧ v.isSettled = true := by
  induction h generalizing v with
  | unnamed => cases hr
  | unreported => cases hr
  | completed _ _ ih =>
    cases hr
    obtain ⟨hu, hv⟩ := ih hpath hplain ⟨ht.context, ht.outside⟩ rfl hgo
    exact ⟨⟨hu.context.record hv hplain.head.name, hu.outside⟩, hv⟩
  | failed => cases hr
  | @action name act t u r _ _ hperform =>
    subst hr
    have hact : ∀ v ∈ act.referenceFields, v.OmitsLog :=
      Step.IsPlain.fields (Task.IsPlain.head hplain)
    have hsaves := engine.perform_saves hanswers (Step.action name act).label act hact t ht
    exact StepM.wp_of_ok hperform |>.1 hsaves hgo
  | refused => cases hr
  | passed _ _ _ hopening =>
    cases hr
    have houtput := Step.isSettled_opening (Task.IsPlain.head hplain) ht.context.toIsData hpath
    exact ⟨ht, StepM.wp_of_ok hopening |>.1 houtput⟩
  | @chosen _ _ _ _ _ _ r _ _ _ hbranch hopening _ ih =>
    cases r with
    | error e => cases hr
    | ok w =>
      cases hr
      have houtput := Step.isSettled_opening (Task.IsPlain.head hplain) ht.context.toIsData hpath
      exact ⟨(ih hpath (Task.IsPlain.branch hplain hbranch) ht rfl hgo).1,
        StepM.wp_of_ok hopening |>.1 houtput⟩
  | again hcons =>
    rw [hpath] at hcons
    cases hcons
  | done =>
    cases hr
    exact ⟨ht, rfl⟩
  | broken => cases hr
  | @stopped p _ _ _ _ u _ _ _ hstop =>
    rw [Situation.change, p.leave_hasResult, hstop] at hgo
    cases hgo
  | @next p index _ _ _ u _ _ _ _ _ hfirst hgo' _ ih ih' =>
    have hafter := ih ((p.enter_resumePath _ _).trans hpath) hplain.first
      ⟨ht.context.enter p index, ht.outside⟩ rfl hgo'
    refine ih' ?_ hplain.rest ⟨hafter.1.context.leave p, hafter.1.outside⟩ hr hgo
    exact hfirst.leave_resumePath_eq_nil rfl p

end Stepwise
