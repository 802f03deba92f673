-- SUMMARY: What is stored under a key stays there until a step saves another value under it.
import Stepwise.Proofs.Run.Journal

/-!
# Stored values

The engine writes to the store in one way only: a step that saves a value. So as long as the
other collaborators leave the store alone, it holds under each key what the last step that
saved under this key has saved, or what it held before the run.
-/

namespace Stepwise

variable {σ α β : Type}

/-! ## What is saved -/

/-- The value that the step saves under the key, when it is set to work in its context. -/
def Start.saved? (k : String) (e : Start) : Option Value :=
  match e.step with
  | .action _ (.saveState key (some v)) =>
    match Template.fillAsText e.context key, Template.fill e.context v with
    | .ok text, .ok w => if text = k then some w else none
    | _, _ => none
  | _ => none

/-- The value under the key after the starts, if each has saved what it saves. -/
def lastSaved (k : String) (v : Value) (starts : List Start) : Value :=
  starts.foldl (fun v e => (e.saved? k).getD v) v

theorem lastSaved_append (k : String) (v : Value) (starts starts' : List Start) :
    lastSaved k v (starts ++ starts') = lastSaved k (lastSaved k v starts) starts' :=
  List.foldl_append

theorem lastSaved_of_none {k : String} {starts : List Start} (h : ∀ e ∈ starts, e.saved? k = none)
    (v : Value) : lastSaved k v starts = v := by
  induction starts with
  | nil => rfl
  | cons e rest ih =>
    rw [lastSaved, List.foldl_cons, h e (.head _)]
    exact ih fun e he => h e (.tail _ he)

/-- Only actions save. -/
theorem Start.saved?_of_container {e : Start} (h : e.step.isAction = false) (k : String) :
    e.saved? k = none := by
  obtain ⟨s, c⟩ := e
  cases s with
  | action => cases h
  | conditional | switch => rfl

/-! ## Collaborators -/

/-- Asked in a world in which `I` holds, the question leaves a world in which it holds still. -/
def Ask.Keeps (I : σ → Prop) (question : Ask σ α) : Prop := ∀ o, I o → I (question o).2

theorem Ask.Keeps.bind {I : σ → Prop} {m : Ask σ β} {f : β → Ask σ α} (hm : Keeps I m)
    (hf : ∀ b, Keeps I (f b)) : Keeps I (m >>= f) := by
  intro o ho
  have hfirst := hm o ho
  simp only [Bind.bind, ExceptT.bind, ExceptT.mk, ExceptT.bindCont, StateT.bind]
  rcases hanswer : m o with ⟨e | b, o'⟩
  · rw [hanswer] at hfirst
    exact hfirst
  · rw [hanswer] at hfirst
    exact hf b o' hfirst

/-- The world holds values under a key, as `Holds` tells: a value stays whatever the collaborators are
asked, until another one is set under the key. -/
structure Engine.Stores (engine : Engine σ) (k : String) (Holds : Value → σ → Prop) : Prop where
  tool : ∀ call ∈ engine.tools?, ∀ tool parameters v, Ask.Keeps (Holds v) (call tool parameters)
  template : ∀ provider ∈ engine.templates?, ∀ template v, Ask.Keeps (Holds v) (provider template)
  sampling : ∀ request ∈ engine.sampling?, ∀ r v, Ask.Keeps (Holds v) (request r)
  function : ∀ f ∈ engine.functions, ∀ parameters v,
    Ask.Keeps (Holds v) (f.handler parameters engine.tools?)
  stored : ∀ store ∈ engine.store?, ∀ key v, Ask.Keeps (Holds v) (store.get key)
  storing : ∀ store ∈ engine.store?, ∀ key v w o, Holds v o →
    (∀ o', store.set key w o = (.ok (), o') → Holds (if key = k then w else v) o') ∧
      ∀ e o', store.set key w o = (.error e, o') → Holds v o'

/-! ## Work that spares the world -/

namespace StepM

/-- However the work ends, `I` holds of the world outside if it did before. -/
def Spares (I : σ → Prop) (m : StepM σ α) : Prop :=
  ∀ s : Situation σ, I s.outside → wp m (fun _ t => I t.outside) (fun _ t => I t.outside) s

namespace Spares

variable {I : σ → Prop}

theorem pure (a : α) : Spares I (Pure.pure a) := fun _ hs => hs

theorem bind {m : StepM σ β} {f : β → StepM σ α} (hm : Spares I m) (hf : ∀ b, Spares I (f b)) :
    Spares I (m >>= f) := by
  intro s hs
  rw [wp_bind]
  exact (hm s hs).mono (fun b t ht => hf b t ht) fun _ _ ht => ht

theorem raise (raised : Raised) : Spares (α := α) I (StepM.raise raised) := fun _ hs => hs

theorem fail (e : StepError) : Spares (α := α) I (StepM.fail e) := fun _ hs => hs

theorem written (text : Except Crash String) : Spares I (StepM.written text) :=
  fun _ hs => wp_written.2 ⟨fun _ _ => hs, fun _ _ => hs⟩

theorem lift (answer : Except Fault α) : Spares I (StepM.lift answer) :=
  fun _ hs => wp_lift.2 ⟨fun _ _ => hs, fun _ _ => hs⟩

theorem look (f : Context → Except Fault α) : Spares I (StepM.look f) :=
  fun _ hs => wp_look.2 ⟨fun _ _ => hs, fun _ _ => hs⟩

theorem change (f : Context → Context) : Spares I (StepM.change f) := fun _ hs => hs

theorem ask {question : Ask σ α} (h : Ask.Keeps I question) : Spares I (StepM.ask question) := by
  intro s hs
  have hworld := h s.outside hs
  refine wp_ask.2 ⟨fun a o ho => ?_, fun e o ho => ?_⟩
  · rw [ho] at hworld
    exact hworld
  · rw [ho] at hworld
    exact hworld

theorem attempt {m : StepM σ α} (hm : Spares I m) : Spares I (StepM.attempt m) :=
  fun s hs => wp_attempt.2 (hm s hs)

theorem ite {p : Prop} [Decidable p] {m n : StepM σ α} (hm : Spares I m) (hn : Spares I n) :
    Spares I (if p then m else n) := by
  split
  · exact hm
  · exact hn

theorem bindVariable (name v : Value) : Spares I (StepM.bindVariable name v) :=
  bind (lift _) fun _ => change _

theorem bindIfNamed (name v : Value) : Spares I (StepM.bindIfNamed name v) :=
  ite (bindVariable name v) (pure ())

theorem pause (label : StepLabel) (lines : List String) (extra : List (String × Value)) :
    Spares I (label.pause lines extra) := by
  intro s hs
  unfold StepLabel.pause
  rw [wp_bind, wp_context]
  exact wp_update.2 ⟨fun _ _ _ => hs, fun _ _ _ => hs⟩

theorem require (label : StepLabel) (field : String) (v : Value) :
    Spares I (label.require field v) :=
  ite (fail _) (pure _)

theorem requirePresent (label : StepLabel) (v? : Option Value) :
    Spares I (label.requirePresent v?) := by
  cases v? with
  | some v => exact pure v
  | none => exact fail _

/-- A collaborator that is there is what the work goes on with. -/
theorem requireCollaborator {label : StepLabel} {collaborator : String} {given? : Option β}
    {f : β → StepM σ α} (hf : ∀ a ∈ given?, Spares I (f a)) :
    Spares I (label.requireCollaborator collaborator given? >>= f) := by
  intro s hs
  rw [wp_bind]
  cases given? with
  | some a => exact hf a rfl s hs
  | none => exact hs

/-- An answer that is there is what the work goes on with. -/
theorem lifted {answer : Except Fault β} {f : β → StepM σ α}
    (hf : ∀ b, answer = .ok b → Spares I (f b)) : Spares I (StepM.lift answer >>= f) := by
  intro s hs
  rw [wp_bind]
  exact wp_lift.2 ⟨fun b hb => hf b hb s hs, fun _ _ => hs⟩

theorem askTool (label : StepLabel) (tool : Value) {question : Ask σ α}
    (h : Ask.Keeps I question) : Spares I (label.askTool tool question) := by
  refine bind (attempt (ask h)) ?_
  intro answer
  cases answer with
  | ok a => exact pure a
  | error raised => exact bind (written _) fun _ => fail _

theorem askSoftly {question : Ask σ Value} (h : Ask.Keeps I question) :
    Spares I (StepM.askSoftly question) := by
  refine bind (attempt (ask h)) ?_
  intro answer
  cases answer with
  | ok v => exact pure v
  | error raised => exact bind (written _) fun _ => pure _

end Spares

end StepM

/-! ## Actions -/

section Actions

open StepM (Spares)

variable {engine : Engine σ} {k : String} {Holds : Value → σ → Prop} {label : StepLabel}

namespace Engine

theorem sample_spares (h : engine.Stores k Holds) (v : Value) (lines : List String) :
    Spares (Holds v) (engine.sample lines) := by
  unfold sample
  split
  · rename_i request hrequest _
    exact .askSoftly (h.sampling request hrequest _ v)
  · exact .pure Value.null

/-- A function that raises something has been asked all the same. -/
theorem runHandler_keeps (h : engine.Stores k Holds) (v : Value) {f : RegisteredFunction σ}
    (hf : f ∈ engine.functions) (name parameters : Value) :
    Ask.Keeps (Holds v) (FunctionRegistry.runHandler f name parameters engine.tools?) := by
  intro o ho
  have hworld := h.function f hf parameters v o ho
  unfold FunctionRegistry.runHandler
  split
  · rename_i heq
    rw [heq] at hworld
    exact hworld
  · rename_i heq
    rw [heq] at hworld
    exact hworld

theorem askFunction_spares (h : engine.Stores k Holds) (v function parameters : Value) :
    Spares (Holds v) (engine.askFunction label function parameters) := by
  refine .lifted ?_
  intro found hfound
  split
  · rename_i f
    have hf : f ∈ engine.functions := by
      obtain ⟨key, -, hkey⟩ := Checks.bind_iff.1 hfound
      exact List.mem_of_find?_eq_some (Checks.pure_iff.1 hkey)
    refine .bind (.look _) fun _ => .bind (.ask (runHandler_keeps h v hf function parameters)) ?_
    refine fun result => .ite (.pure _) ?_
    exact .bind (.lift _) fun _ => .fail _
  · split
    · rename_i call hcall
      exact .bind (.look _) fun _ => .askTool _ _ (h.tool call hcall _ _ v)
    · exact .fail _

theorem callTool_spares (h : engine.Stores k Holds) (v tool parameters target : Value) :
    Spares (Holds v) (engine.callTool label tool parameters target) := by
  refine .requireCollaborator fun call hcall => .bind (.require _ _ _) fun tool => ?_
  refine .bind (.look _) fun _ => .bind (.look _) fun given => ?_
  refine .bind (.look _) fun _ => .bind (.look _) fun _ => ?_
  refine .bind (.attempt (.ask (h.tool call hcall tool given v))) ?_
  intro answer
  split
  · exact .bind (.look _) fun _ => .bind (.bindIfNamed _ _) fun _ => .pure _
  · exact .raise _
  · exact .bind (.written _) fun _ => .fail _

theorem callFunction_spares (h : engine.Stores k Holds) (v function parameters target : Value) :
    Spares (Holds v) (engine.callFunction label function parameters target) := by
  refine .bind (.require _ _ _) fun function => .bind (.look _) fun _ => .bind (.look _) fun _ => ?_
  exact .bind (askFunction_spares h v _ _) fun _ => .bind (.bindIfNamed _ _) fun _ => .pure _

theorem loadObject_spares (h : engine.Stores k Holds) (v template : Value)
    (keys? : Option (List Value)) (instructions : List Value) :
    Spares (Holds v) (engine.loadObject label template keys? instructions) := by
  refine .requireCollaborator fun provider hprovider => .bind (.require _ _ _) fun _ => ?_
  refine .bind (.look _) fun _ => .bind (.look _) fun asked => ?_
  refine .bind (.ask (h.template provider hprovider asked v)) fun rows => .bind (.lift _) ?_
  intro schemas
  refine .bind (.look _) fun lines => .bind (.lift _) fun wanted => ?_
  refine .bind (sample_spares h v _) fun _ => .bind (.look _) fun _ => ?_
  exact .bind (.pause _ _ _) fun _ => .pure _

theorem instructAgent_spares (h : engine.Stores k Holds) (v : Value) (instructions : List Value)
    (sampling : Bool) (target : Value) :
    Spares (Holds v) (engine.instructAgent label instructions sampling target) := by
  refine .bind (.require _ _ _) fun _ => .bind (.look _) ?_
  intro lines
  have hrest (sampled output : Value) :
      Spares (Holds v)
        (if !sampled.isNull then
          StepM.bindIfNamed target sampled >>= fun _ =>
            label.pause lines [("sampling_result", sampled)] >>= fun _ => pure output
        else label.pause lines [("sampling_result", sampled)] >>= fun _ => pure output) :=
    .ite (.bind (.bindIfNamed _ _) fun _ => .bind (.pause _ _ _) fun _ => .pure _)
      (.bind (.pause _ _ _) fun _ => .pure _)
  split
  · exact .bind (sample_spares h v _) fun sampled => hrest sampled _
  · exact .bind (.pure _) fun sampled => hrest sampled _

theorem loadState_spares (h : engine.Stores k Holds) (v key default target : Value) :
    Spares (Holds v) (engine.loadState label key default target) := by
  refine .requireCollaborator fun store hstore => .bind (.require _ _ _) fun _ => ?_
  refine .bind (.look _) fun text => .bind (.require _ _ _) ?_
  intro target
  refine .bind (.askSoftly (h.stored store hstore text v)) ?_
  intro stored
  have hbind (w : Value) : Spares (Holds v) (StepM.bindVariable target w >>= fun _ => pure w) :=
    .bind (.bindVariable _ _) fun _ => .pure _
  exact .ite (.bind (.look _) hbind) (.bind (.pure _) hbind)

end Engine

theorem Creation.requireKnown_spares (I : σ → Prop) (template mappings : Value)
    (index : List (Key × PropertySchema)) :
    Spares I (Creation.requireKnown template index mappings) := by
  refine .bind (.lift _) fun keys => .ite (.pure _) ?_
  exact .bind (.look _) fun _ => .bind (.lift _) fun _ => .fail _

theorem Creation.run_spares (h : engine.Stores k Holds) (v template properties : Value)
    (instructions : List Value) (target : Value) :
    Spares (Holds v) (Creation.run engine label template properties instructions target) := by
  refine .requireCollaborator fun provider hprovider => .bind (.require _ _ _) fun _ => ?_
  refine .bind (.look _) fun template => .bind (.require _ _ _) fun mappings => ?_
  refine .bind (.look _) fun asked => .bind (.ask (h.template provider hprovider asked v)) ?_
  intro rows
  refine .bind (.lift _) fun index => .bind (.look _) fun _ => ?_
  refine .bind (Creation.requireKnown_spares _ _ _ _) fun _ => .bind (.lift _) fun mappings => ?_
  refine .bind (.look _) ?_
  intro division
  split
  · refine .requireCollaborator fun call hcall => .bind (.look _) fun _ => .bind (.look _) ?_
    intro parameters
    refine .bind (.askTool _ _ (h.tool call hcall _ _ v)) ?_
    intro result
    exact .bind (.bindIfNamed _ _) fun _ => .pure _
  · refine .bind (.look _) fun lines => .bind (.look _) fun _ => .bind (.lift _) ?_
    intro wanted
    refine .bind (.lift _) ?_
    intro names
    exact .bind (.pause _ _ _) fun _ => .pure _

namespace Engine

/-- A step that saves a value leaves the value under its key, if it ends with an output. -/
theorem saveState_stores (h : engine.Stores k Holds) {v : Value} (name key : Value)
    (value? : Option Value) {s : Situation σ} (hs : Holds v s.outside) :
    (engine.saveState label key value?).wp
      (fun _ t => Holds ((Start.saved? k
        { step := .action name (.saveState key value?), context := s.context }).getD v) t.outside)
      (fun _ t => Holds v t.outside) s := by
  unfold saveState
  rw [StepM.wp_bind]
  cases hstore : engine.store? with
  | none => exact hs
  | some store =>
    refine (StepM.wp_pure store).2 ?_
    rw [StepM.wp_bind]
    refine StepLabel.wp_require ?_ fun _ => hs
    rw [StepM.wp_bind]
    refine StepM.wp_look.2 ⟨fun text htext => ?_, fun _ _ => hs⟩
    rw [StepM.wp_bind]
    cases value? with
    | none => exact hs
    | some template =>
      refine (StepM.wp_pure template).2 ?_
      rw [StepM.wp_bind]
      refine StepM.wp_look.2 ⟨fun w hw => ?_, fun _ _ => hs⟩
      have hsaved : (Start.saved? k
          { step := .action name (.saveState key (some template)), context := s.context }).getD v
            = if text = k then w else v := by
        simp only [Start.saved?, htext, hw]
        split <;> rfl
      obtain ⟨hdone, hfailed⟩ := h.storing store hstore text v w s.outside hs
      rw [StepM.wp_bind, StepM.wp_attempt, hsaved]
      refine StepM.wp_ask.2 ⟨fun _ o ho => hdone o ho, fun e o ho => ?_⟩
      have hworld : Holds v o := hfailed e o ho
      rw [StepM.wp_bind, StepM.wp_written]
      exact ⟨fun _ _ => hworld, fun _ _ => hworld⟩

/-- An action that ends with an output leaves under the key what it saves there, or else what was there
before; one that raises something leaves what was there. -/
theorem perform_stores (h : engine.Stores k Holds) {v : Value} (name : Value) (act : Action)
    {s : Situation σ} (hs : Holds v s.outside) :
    (engine.perform label act).wp
      (fun _ t => Holds ((Start.saved? k
        { step := .action name act, context := s.context }).getD v) t.outside)
      (fun _ t => Holds v t.outside) s := by
  cases act with
  | log message =>
    exact StepM.Spares.bind (.require _ _ _)
      (fun _ => .bind (.look _) fun _ => .bind (.change _) fun _ => .pure _) s hs
  | setVariable target value? =>
    exact StepM.Spares.bind (.require _ _ _) (fun _ => .bind (.requirePresent _ _) fun _ =>
      .bind (.look _) fun _ => .bind (.bindVariable _ _) fun _ => .pure _) s hs
  | finish value? =>
    exact StepM.Spares.bind (.requirePresent _ _)
      (fun _ => .bind (.look _) fun _ => .bind (.change _) fun _ => .pure _) s hs
  | callTool tool parameters target => exact callTool_spares h v tool parameters target s hs
  | callFunction function parameters target =>
    exact callFunction_spares h v function parameters target s hs
  | createObject template properties instructions target =>
    exact Creation.run_spares h v template properties instructions target s hs
  | loadObject template keys? instructions =>
    exact loadObject_spares h v template keys? instructions s hs
  | agent instructions sampling target =>
    exact instructAgent_spares h v instructions sampling target s hs
  | loadState key default target => exact loadState_spares h v key default target s hs
  | saveState key value? => exact saveState_stores h name key value? hs

end Engine

end Actions

/-! ## Runs -/

/-- The steps of the journal have left under the key what they save there; the last of them may have
failed to save it, if the run does not go on. -/
def SavesAll (k : String) (Holds : Value → σ → Prop) (v : Value) (starts : List Start)
    (goesOn : Prop) (o : σ) : Prop :=
  ∃ done failed, starts = done ++ failed ∧ failed.length ≤ 1 ∧ (goesOn → failed = []) ∧
    Holds (lastSaved k v done) o

namespace SavesAll

variable {k : String} {Holds : Value → σ → Prop} {v : Value} {starts starts' : List Start}
  {goesOn goesOn' : Prop} {o o' : σ}

theorem whole (h : Holds (lastSaved k v starts) o) : SavesAll k Holds v starts goesOn o :=
  ⟨starts, [], (List.append_nil _).symm, Nat.zero_le 1, fun _ => rfl, h⟩

theorem holds (h : SavesAll k Holds v starts goesOn o) (hgo : goesOn) :
    Holds (lastSaved k v starts) o := by
  obtain ⟨done, failed, rfl, -, hfailed, hholds⟩ := h
  rwa [hfailed hgo, List.append_nil]

theorem mono (h : SavesAll k Holds v starts goesOn o) (hgo : goesOn' → goesOn) :
    SavesAll k Holds v starts goesOn' o := by
  obtain ⟨done, failed, hstarts, hlength, hfailed, hholds⟩ := h
  exact ⟨done, failed, hstarts, hlength, fun h => hfailed (hgo h), hholds⟩

/-- Where no step saves anything under the key, the value is kept. -/
theorem kept (h : SavesAll k Holds v starts goesOn o) (hfree : ∀ e ∈ starts, e.saved? k = none) :
    Holds v o := by
  obtain ⟨done, failed, rfl, -, -, hholds⟩ := h
  rwa [lastSaved_of_none fun e he => hfree e (List.mem_append_left _ he)] at hholds

/-- More starts may come before. -/
theorem append (h : SavesAll k Holds (lastSaved k v starts) starts' goesOn o) :
    SavesAll k Holds v (starts ++ starts') goesOn o := by
  obtain ⟨done, failed, rfl, hlength, hfailed, hholds⟩ := h
  refine ⟨starts ++ done, failed, (List.append_assoc _ _ _).symm, hlength, hfailed, ?_⟩
  rwa [lastSaved_append]

/-- A step that saves nothing may be set to work before. -/
theorem cons {e : Start} (he : e.saved? k = none) (h : SavesAll k Holds v starts goesOn o) :
    SavesAll k Holds v (e :: starts) goesOn o := by
  have hsaves : SavesAll k Holds (lastSaved k v [e]) starts goesOn o := by
    rwa [lastSaved, List.foldl_cons, he]
  exact hsaves.append

end SavesAll

/-- Whatever a run does, the world holds under the key what the steps of its journal have saved there. -/
theorem Ran.savesAll {engine : Engine σ} {task : Task} {t u : Situation σ} {journal : List Start}
    {r : Except Raised Value} (h : Ran engine task t journal r u) {k : String}
    {Holds : Value → σ → Prop} (hstores : engine.Stores k Holds) {v : Value}
    (hv : Holds v t.outside) :
    SavesAll k Holds v (task.opened t.context ++ journal) (r.isOk = true) u.outside := by
  have hcontainer {s : Step} {c : Context} (hs : s.isAction = false) :
      Start.saved? k { step := s, context := c } = none :=
    Start.saved?_of_container hs k
  induction h generalizing v with
  | unnamed => exact .whole hv
  | completed _ _ ih => exact ih hv
  | failed _ _ _ ih | unreported _ _ _ ih => exact (ih hv).mono fun h => by cases h
  | @action name act t u r _ _ hperform =>
    have hend : (engine.perform (Step.action name act).label act).wp _ _ t :=
      Engine.perform_stores hstores name act hv
    unfold StepM.wp at hend
    rw [hperform] at hend
    cases r with
    | ok output => exact .whole hend
    | error e => exact ⟨[], _, rfl, Nat.le_refl 1, (fun hok => by cases hok), hend⟩
  | refused hs => exact .cons (hcontainer hs) (.whole hv)
  | passed hs => exact .cons (hcontainer hs) (.whole hv)
  | chosen _ _ hbranch _ _ ih | again _ _ _ hbranch _ _ ih =>
    refine .cons (hcontainer (Step.isAction_of_branchNamed? hbranch)) ((ih hv).mono ?_)
    rw [Checks.isOk_map]
    exact id
  | done => exact .whole hv
  | broken _ ih => exact ih hv
  | stopped _ _ ih => exact (ih hv).mono fun _ => rfl
  | @next _ _ _ _ _ _ w journal journal' _ r _ _ _ ih ih' =>
    have hrest : SavesAll k Holds (lastSaved k v journal) journal' (r.isOk = true) w.outside :=
      ih' ((ih hv).holds rfl)
    exact hrest.append

end Stepwise
