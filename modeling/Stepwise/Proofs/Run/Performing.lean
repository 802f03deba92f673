-- SUMMARY: The ten actions side by side: done in contexts that agree on their fields, they end alike.
import Stepwise.Proofs.Run.Paired
import Stepwise.Workflow.References

/-!
# Actions side by side

An action reads its run through the expressions in its fields, and besides that only where
the run stands. So two contexts that agree on these expressions, and in which the runs stand
at the same place, have the action done alike: it asks its collaborators the same, ends with
the same output or error, and has the same effect. A log message is the one field of which
no reference is listed.
-/

namespace Stepwise

variable {σ τ α β : Type} {R : σ → τ → Prop} {c d : Context}

/-! ## Fields -/

def Action.filledFields : Action → List Value
  | .log message => [message]
  | act => act.referenceFields

/-- Only log messages are filled without being listed. -/
theorem Action.filledFields_of_kind {act : Action} (h : act.kind ≠ .log) :
    act.filledFields = act.referenceFields := by
  cases act with
  | log message => exact absurd rfl h
  | _ => rfl

/-- The runs stand at the same place, agree on the fields of the action, and show alike what the action
writes out: its own fields, and what a tool answers. -/
structure Action.SeesAlike (call? : Option (ToolCaller τ)) (c d : Context) (act : Action) : Prop where
  place : c.SamePlace d
  filled : c.AgreesOn d (Template.referencesAll act.filledFields)
  fields : ∀ f ∈ act.fields, c.ShowAlike d f.2
  answers : ∀ call ∈ call?, ∀ tool parameters o v,
    (call tool parameters o).1 = .ok v → c.ShowAlike d v

/-- In one context everything is seen alike. -/
theorem Action.SeesAlike.rfl {call? : Option (ToolCaller τ)} {act : Action} :
    act.SeesAlike call? c c where
  place := .rfl
  filled := .rfl
  fields := fun _ _ => .rfl
  answers := fun _ _ _ _ _ _ _ => .rfl

/-! ## Parts of actions -/

open StepM (ReadAlike ActAlike)

namespace StepM.ReadAlike

variable {label : StepLabel}

/-- An answer alike of which something is known. -/
theorem answer {A : α → Prop} {q : Ask σ α} {q' : Ask τ α} (h : Ask.Alike R q q')
    (hA : ∀ o a, (q' o).1 = .ok a → A a) :
    ReadAlike R c d (fun a b => a = b ∧ A a) (StepM.ask q) (StepM.ask q') := by
  intro s t hst
  obtain ⟨hanswer, hworld⟩ := h _ _ hst.outside
  refine ⟨?_, hst.first, hst.second, hworld⟩
  change SameEnd _ (q s.outside).1 (q' t.outside).1
  rw [hanswer]
  cases hr : (q' t.outside).1 with
  | ok a => exact .ok ⟨rfl, hA _ a hr⟩
  | error e => exact .error e

/-- A value is filled alike, by what is shown alike. -/
theorem filled {v : Value} (h : c.AgreesOn d (Template.references v)) (hv : c.ShowAlike d v) :
    ReadAlike R c d (fun a b => a = b ∧ c.ShowAlike d a) (StepM.filled v) (StepM.filled v) := by
  refine (look (Template.fill_agree v h)).mono ?_
  rintro w _ ⟨rfl, hw⟩
  exact ⟨rfl, Template.fill_shows v h hv hw⟩

theorem filledText {v : Value} (h : c.AgreesOn d (Template.references v)) (hv : c.ShowAlike d v) :
    ReadAlike R c d Eq (StepM.filledText v) (StepM.filledText v) :=
  (look (Template.fillAsText_shown h.showsOn hv)).mono fun _ _ hab => hab.1

theorem filledLines {lines : List Value} (h : c.AgreesOn d (Template.referencesAll lines))
    (hlines : c.ShowAlike d (.list lines)) :
    ReadAlike R c d Eq (StepM.filledLines lines) (StepM.filledLines lines) :=
  (look (Template.fillLines_agree h (Context.ShowAlike.list_iff.1 hlines))).mono fun _ _ hab => hab.1

theorem spelled {v : Value} (hv : c.ShowAlike d v) :
    ReadAlike R c d Eq (StepM.spelled v) (StepM.spelled v) :=
  (look (congrArg Value.spell hv)).mono fun _ _ hab => hab.1

/-- What has been made data alike is shown alike again. -/
theorem settled {v : Value} (hv : c.ShowAlike d v) :
    ReadAlike R c d (fun a b => a = b ∧ c.ShowAlike d a) (StepM.settled v) (StepM.settled v) := by
  refine (look (f := fun c => .ok (c.settle v)) (congrArg Except.ok (id hv : c.settle v = d.settle v))).mono ?_
  rintro w _ ⟨rfl, hw⟩
  cases hw
  exact ⟨rfl, hv.again⟩

theorem require {field : String} {v : Value} :
    ReadAlike R c d (fun a b => v = a ∧ v = b) (label.require field v) (label.require field v) :=
  .ite (.fail _) (.pure ⟨rfl, rfl⟩)

theorem requirePresent {v? : Option Value} :
    ReadAlike R c d (fun a b => a ∈ v? ∧ b = a) (label.requirePresent v?)
      (label.requirePresent v?) := by
  cases v? with
  | some v => exact .pure ⟨rfl, rfl⟩
  | none => exact .fail _

theorem requireCollaborator {P : α → β → Prop} {collaborator : String} {given? : Option α}
    {given'? : Option β} (h : Option.Rel P given? given'?) :
    ReadAlike R c d (fun a b => P a b ∧ b ∈ given'?) (label.requireCollaborator collaborator given?)
      (label.requireCollaborator collaborator given'?) := by
  cases h with
  | some hab => exact .pure ⟨hab, rfl⟩
  | none => exact .fail _

theorem askTool {tool : Value} {q : Ask σ α} {q' : Ask τ α} (h : Ask.Alike R q q') :
    ReadAlike R c d Eq (label.askTool tool q) (label.askTool tool q') := by
  refine .bind (.attempt (.ask h)) ?_
  rintro _ _ (⟨rfl⟩ | raised)
  · exact .pure rfl
  · refine .bind (.written _) ?_
    rintro reason _ rfl
    exact .fail _

theorem lookUp {P : RegisteredFunction σ → RegisteredFunction τ → Prop}
    {functions : FunctionRegistry σ} {functions' : FunctionRegistry τ}
    (h : List.Forall₂ (fun f f' => f.description = f'.description ∧ P f f') functions functions')
    (name : Value) :
    ReadAlike R c d (Option.Rel P) (StepM.lift (functions.lookUp name))
      (StepM.lift (functions'.lookUp name)) := by
  have hfind (key : Key) : Option.Rel P (functions.find? key) (functions'.find? key) := by
    induction h with
    | nil => exact .none
    | cons hf _ ih =>
      simp only [FunctionRegistry.find?, List.find?_cons, hf.1] at ih ⊢
      split
      · exact .some hf.2
      · exact ih
  unfold FunctionRegistry.lookUp
  cases name.toKey with
  | ok key => exact .lift_ok (hfind key)
  | error f => exact .lift_error f

end StepM.ReadAlike

section Actions

variable {soft : Engine σ} {hard : Engine τ} {label : StepLabel}

/-! ## Creating objects -/

namespace Creation

open Checks

theorem isReady_agree {mapping : Value} (h : c.AgreesOn d (Template.references mapping)) :
    isReady c mapping = isReady d mapping := by
  simp only [isReady, Template.isFillable_shown mapping h.showsOn]

/-- Mappings are divided alike. -/
theorem divide_agree {mappings : Dict} (h : c.AgreesOn d (Template.referencesEntries mappings)) :
    divide c mappings = divide d mappings := by
  induction mappings with
  | nil => rfl
  | cons e rest ih =>
    obtain ⟨key, mapping⟩ := e
    simp only [divide, isReady_agree h.left, Template.fill_agree mapping h.left, ih h.right]

/-- What can be filled at once is filled by what is shown alike. -/
theorem divide_shows {mappings : Dict} {division : Division}
    (h : c.AgreesOn d (Template.referencesEntries mappings))
    (hshow : ∀ e ∈ mappings, c.ShowAlike d e.2) (hd : divide c mappings = .ok division) :
    ∀ e ∈ division.prefilled, c.ShowAlike d e.2 := by
  induction mappings generalizing division with
  | nil =>
    cases hd
    exact nofun
  | cons e rest ih =>
    obtain ⟨key, mapping⟩ := e
    simp only [List.forall_mem_cons] at hshow
    simp only [divide, bind_iff] at hd
    obtain ⟨ready, -, hd⟩ := hd
    cases ready with
    | true =>
      simp only [if_true, bind_iff, pure_iff] at hd
      obtain ⟨v, hv, division', hd', rfl⟩ := hd
      simp only [List.forall_mem_cons]
      exact ⟨Template.fill_shows mapping h.left hshow.1 hv, ih h.right hshow.2 hd'⟩
    | false =>
      simp only [Bool.false_eq_true, if_false, bind_iff, pure_iff] at hd
      obtain ⟨division', hd', rfl⟩ := hd
      have hrest := ih h.right hshow.2 hd'
      exact hrest

theorem requireKnown_alike {template mappings : Value} {index : List (Key × PropertySchema)}
    (htemplate : c.ShowAlike d template) :
    ReadAlike R c d Eq (requireKnown template index mappings) (requireKnown template index mappings) := by
  refine .bind (.lift _) ?_
  rintro keys _ ⟨rfl, -⟩
  refine .ite (.pure rfl) (.bind (.spelled htemplate) fun _ _ _ => .bind (.lift _) ?_)
  rintro names _ ⟨rfl, -⟩
  exact .fail _

theorem create_alike (h : soft.Softens R hard) {template : Value} {properties : Dict}
    (target : Value) (htemplate : c.ShowAlike d template)
    (hproperties : ∀ e ∈ properties, c.ShowAlike d e.2) :
    ActAlike R c d (create soft label template properties target)
      (create hard label template properties target) := by
  have hrecord : c.ShowAlike d
      (.record [("template_id", template), ("properties", .dict properties)]) := by
    simpa [Value.record, Dict.ofFields, Context.ShowAlike.dict_iff, htemplate] using hproperties
  refine .after (.requireCollaborator h.tools) ?_
  rintro call call' ⟨hcall, -⟩
  refine .after (.spelled htemplate) fun _ _ _ => .after (.settled hrecord) ?_
  rintro parameters _ ⟨rfl, -⟩
  refine .after (.askTool (hcall _ _)) ?_
  rintro result _ rfl
  exact .report (.bindIfNamed _ _) _

theorem askAgent_alike (hplace : c.SamePlace d) {template : Value}
    {index : List (Key × PropertySchema)} {division : Division} {instructions : List Value}
    (htemplate : c.ShowAlike d template)
    (hfilled : c.AgreesOn d (Template.referencesAll instructions))
    (hinstructions : c.ShowAlike d (.list instructions)) :
    ActAlike R c d (askAgent label template index division instructions)
      (askAgent label template index division instructions) := by
  refine .after (.filledLines hfilled hinstructions) ?_
  rintro lines _ rfl
  refine .after (.spelled htemplate) ?_
  rintro shown _ rfl
  refine .after (.lift _) ?_
  rintro wanted _ ⟨rfl, -⟩
  refine .after (.lift _) ?_
  rintro names _ ⟨rfl, -⟩
  exact .report (.pause hplace _ _) _

theorem run_alike (h : soft.Softens R hard) {template properties target : Value}
    {instructions : List Value}
    (hact : (Action.createObject template properties instructions target).SeesAlike hard.tools? c d) :
    ActAlike R c d (Creation.run soft label template properties instructions target)
      (Creation.run hard label template properties instructions target) := by
  obtain ⟨hplace, hfilled, hfields, -⟩ := hact
  simp only [Action.fields, List.forall_mem_cons] at hfields
  refine .after (.requireCollaborator h.templates) ?_
  rintro provider provider' ⟨hprovider, -⟩
  refine .after .require ?_
  rintro _ _ ⟨rfl, rfl⟩
  refine .after (.filled hfilled.left hfields.1) ?_
  rintro template _ ⟨rfl, htemplate⟩
  refine .after .require ?_
  rintro _ _ ⟨rfl, rfl⟩
  refine .after (.settled htemplate) ?_
  rintro asked _ ⟨rfl, -⟩
  refine .after (.ask (hprovider _)) ?_
  rintro rows _ rfl
  refine .after (.lift _) ?_
  rintro index _ ⟨rfl, -⟩
  refine .after (.settled htemplate) ?_
  rintro shown _ ⟨rfl, hshown⟩
  refine .after (requireKnown_alike hshown) fun _ _ _ => .after (.lift _) ?_
  rintro entries _ ⟨rfl, hentries⟩
  have hdict : properties = .dict entries := by
    cases properties with
    | dict => cases hentries; rfl
    | _ => cases hentries
  subst hdict
  have hentries := hfilled.right.left
  have hshows := Context.ShowAlike.dict_iff.1 hfields.2.1
  refine .after (.look (divide_agree hentries)) ?_
  rintro division _ ⟨rfl, hdivision⟩
  refine .ite ?_ ?_
  · exact create_alike h target htemplate (divide_shows hentries hshows hdivision)
  · exact askAgent_alike hplace htemplate hfilled.right.right.left hfields.2.2.1

end Creation

/-! ## The other actions -/

namespace Engine

/-- The answer of a gateway, or `null` in place of one, is the same. -/
theorem sample_alike (h : soft.Softens R hard) (lines : List String) :
    ReadAlike R c d Eq (soft.sample lines) (hard.sample lines) := by
  have hnull : ReadAlike (σ := σ) (τ := τ) R c d Eq (pure Value.null) (pure Value.null) := .pure rfl
  obtain ⟨-, -, -, hsampling, -, hsettings⟩ := h
  unfold sample
  rw [hsettings]
  generalize soft.sampling? = gateway? at hsampling ⊢
  generalize hard.sampling? = gateway'? at hsampling ⊢
  cases hard.settings.samplingEnabled with
  | false => cases hsampling <;> exact hnull
  | true =>
    cases hsampling with
    | none => exact hnull
    | some hg => exact .askSoftly (hg _)
    | absent hg => exact .askInVain (hg _)

theorem callTool_alike (h : soft.Softens R hard) {tool parameters target : Value}
    (hact : (Action.callTool tool parameters target).SeesAlike hard.tools? c d) :
    ActAlike R c d (soft.callTool label tool parameters target)
      (hard.callTool label tool parameters target) := by
  obtain ⟨-, hfilled, hfields, hanswers⟩ := hact
  simp only [Action.fields, List.forall_mem_cons] at hfields
  refine .after (.requireCollaborator h.tools) ?_
  rintro call call' ⟨hcall, hmem⟩
  refine .after .require ?_
  rintro _ _ ⟨rfl, rfl⟩
  refine .after (.filled hfilled.left hfields.2.1) ?_
  rintro given _ ⟨rfl, hgiven⟩
  refine .after (.settled hgiven) ?_
  rintro parameters _ ⟨rfl, hparameters⟩
  refine .after (.spelled hfields.1) fun _ _ _ => .after (.spelled hparameters) fun _ _ _ => ?_
  refine .after (.attempt (.answer (hcall _ _) (hanswers call' hmem _ _))) ?_
  rintro _ _ (⟨rfl, hv⟩ | raised)
  · exact .after (.spelled hv) fun _ _ _ => .report (.bindIfNamed _ _) _
  · cases raised with
    | step e => exact .raise _
    | fault | mute =>
      refine .after (.written _) ?_
      rintro reason _ rfl
      exact .fail _

/-- A function that raises something gives an unsuccessful result, in both worlds the same. -/
theorem runHandler_alike {f : RegisteredFunction σ} {f' : RegisteredFunction τ} {name parameters : Value}
    {tools? : Option (ToolCaller σ)} {tools'? : Option (ToolCaller τ)}
    (h : Ask.Alike R (f.handler parameters tools?) (f'.handler parameters tools'?)) :
    Ask.Alike R (FunctionRegistry.runHandler f name parameters tools?)
      (FunctionRegistry.runHandler f' name parameters tools'?) := by
  intro o p hop
  obtain ⟨hanswer, hworld⟩ := h o p hop
  unfold FunctionRegistry.runHandler
  generalize f.handler parameters tools? o = x at hanswer hworld ⊢
  generalize f'.handler parameters tools'? p = y at hanswer hworld ⊢
  obtain ⟨r, o'⟩ := x
  obtain ⟨_, p'⟩ := y
  cases hanswer
  cases r with
  | ok result => exact ⟨rfl, hworld⟩
  | error raised => exact ⟨rfl, hworld⟩

theorem askFunction_alike (h : soft.Softens R hard) {function parameters : Value}
    (hfunction : c.ShowAlike d function) :
    ReadAlike R c d Eq (soft.askFunction label function parameters)
      (hard.askFunction label function parameters) := by
  refine .bind (.lookUp h.functions function) ?_
  rintro _ _ (hf | -)
  · refine .bind (.spelled hfunction) fun _ _ _ => .bind (.ask (runHandler_alike (hf _))) ?_
    rintro result _ rfl
    refine .ite (.pure rfl) (.bind (.lift _) ?_)
    rintro reason _ ⟨rfl, -⟩
    exact .fail _
  · have htools := h.tools
    generalize soft.tools? = call? at htools ⊢
    generalize hard.tools? = call'? at htools ⊢
    cases htools with
    | some hcall => exact .bind (.spelled hfunction) fun _ _ _ => .askTool (hcall _ _)
    | none => exact .fail _

theorem callFunction_alike (h : soft.Softens R hard) {function parameters target : Value}
    (hact : (Action.callFunction function parameters target).SeesAlike hard.tools? c d) :
    ActAlike R c d (soft.callFunction label function parameters target)
      (hard.callFunction label function parameters target) := by
  obtain ⟨-, hfilled, hfields, -⟩ := hact
  simp only [Action.fields, List.forall_mem_cons] at hfields
  refine .after .require ?_
  rintro _ _ ⟨rfl, rfl⟩
  refine .after (.filled hfilled.left hfields.2.1) ?_
  rintro given _ ⟨rfl, hgiven⟩
  refine .after (.settled hgiven) ?_
  rintro parameters _ ⟨rfl, -⟩
  refine .after (askFunction_alike h hfields.1) ?_
  rintro result _ rfl
  exact .report (.bindIfNamed _ _) _

theorem loadObject_alike (h : soft.Softens R hard) {template : Value} {keys? : Option (List Value)}
    {instructions : List Value}
    (hact : (Action.loadObject template keys? instructions).SeesAlike hard.tools? c d) :
    ActAlike R c d (soft.loadObject label template keys? instructions)
      (hard.loadObject label template keys? instructions) := by
  obtain ⟨hplace, hfilled, hfields, -⟩ := hact
  simp only [Action.fields, List.forall_mem_cons] at hfields
  refine .after (.requireCollaborator h.templates) ?_
  rintro provider provider' ⟨hprovider, -⟩
  refine .after .require ?_
  rintro _ _ ⟨rfl, rfl⟩
  refine .after (.filled hfilled.left hfields.1) ?_
  rintro template _ ⟨rfl, htemplate⟩
  refine .after (.settled htemplate) ?_
  rintro asked _ ⟨rfl, -⟩
  refine .after (.ask (hprovider _)) ?_
  rintro rows _ rfl
  refine .after (.lift _) ?_
  rintro schemas _ ⟨rfl, -⟩
  refine .after (.filledLines hfilled.right.left hfields.2.2.1) ?_
  rintro lines _ rfl
  refine .after (.lift _) ?_
  rintro wanted _ ⟨rfl, -⟩
  refine .after (sample_alike h _) ?_
  rintro sampled _ rfl
  exact .after (.spelled htemplate) fun _ _ _ => .report (.pause hplace _ _) _

theorem instructAgent_alike (h : soft.Softens R hard) {instructions : List Value} {sampling : Bool}
    {target : Value} (hact : (Action.agent instructions sampling target).SeesAlike hard.tools? c d) :
    ActAlike R c d (soft.instructAgent label instructions sampling target)
      (hard.instructAgent label instructions sampling target) := by
  obtain ⟨hplace, hfilled, hfields, -⟩ := hact
  simp only [Action.fields, List.forall_mem_cons] at hfields
  refine .after .require fun _ _ _ => .after (.filledLines hfilled.left hfields.1) ?_
  rintro lines _ rfl
  -- An answer that was sampled is bound before the pause.
  split
  · refine .after (sample_alike h _) ?_
    rintro sampled _ rfl
    exact .ite (.bindThenPause hplace _ _ _ _ _) (.report (.pause hplace _ _) _)
  · refine .after (.pure (P := Eq) rfl) ?_
    rintro sampled _ rfl
    exact .ite (.bindThenPause hplace _ _ _ _ _) (.report (.pause hplace _ _) _)

theorem loadState_alike (h : soft.Softens R hard) {key default target : Value}
    (hact : (Action.loadState key default target).SeesAlike hard.tools? c d) :
    ActAlike R c d (soft.loadState label key default target)
      (hard.loadState label key default target) := by
  obtain ⟨-, hfilled, hfields, -⟩ := hact
  simp only [Action.fields, List.forall_mem_cons] at hfields
  refine .after (.requireCollaborator h.store) ?_
  rintro store store' ⟨⟨hget, -⟩, -⟩
  refine .after .require ?_
  rintro _ _ ⟨rfl, rfl⟩
  refine .after (.filledText hfilled.left hfields.1) ?_
  rintro text _ rfl
  refine .after .require ?_
  rintro _ _ ⟨rfl, rfl⟩
  refine .after (.askSoftly (hget _)) ?_
  have hbind (v : Value) : ActAlike (σ := σ) (τ := τ) R c d
      (StepM.bindVariable target v >>= fun _ => pure v)
      (StepM.bindVariable target v >>= fun _ => pure v) := .report (.bindVariable _ _) _
  have hdefault : ActAlike (σ := σ) (τ := τ) R c d
      (StepM.filled default >>= fun v => StepM.bindVariable target v >>= fun _ => pure v)
      (StepM.filled default >>= fun v => StepM.bindVariable target v >>= fun _ => pure v) := by
    refine .after (.filled hfilled.right.left hfields.2.1) ?_
    rintro v _ ⟨rfl, -⟩
    exact hbind v
  rintro stored _ rfl
  exact .ite hdefault (hbind _)

theorem saveState_alike (h : soft.Softens R hard) {key : Value} {value? : Option Value}
    (hact : (Action.saveState key value?).SeesAlike hard.tools? c d) :
    ActAlike R c d (soft.saveState label key value?) (hard.saveState label key value?) := by
  obtain ⟨-, hfilled, hfields, -⟩ := hact
  simp only [Action.fields, List.forall_mem_cons] at hfields
  refine .after (.requireCollaborator h.store) ?_
  rintro store store' ⟨⟨-, hset⟩, -⟩
  refine .after .require ?_
  rintro _ _ ⟨rfl, rfl⟩
  refine .after (.filledText hfilled.left hfields.1) ?_
  rintro text _ rfl
  refine .after .requirePresent ?_
  rintro given _ ⟨⟨⟩, rfl⟩
  refine .after (.filled hfilled.right.left (hfields.2 _ (.head _))) ?_
  rintro v _ ⟨rfl, -⟩
  refine .after (.attempt (.ask (hset _ _))) ?_
  rintro _ _ (- | raised)
  · exact .pure _
  · refine .after (.written _) ?_
    rintro reason _ rfl
    exact .fail _

/-- Seen alike, an action is done alike: the same output or error, and the same effect. -/
theorem perform_alike (h : soft.Softens R hard) {act : Action}
    (hact : act.SeesAlike hard.tools? c d) :
    ActAlike R c d (soft.perform label act) (hard.perform label act) := by
  have hfilled := hact.filled
  have hfields := hact.fields
  cases act with
  | log message =>
    simp only [Action.fields, List.forall_mem_cons] at hfields
    refine .after .require ?_
    rintro _ _ ⟨rfl, rfl⟩
    refine .after (.filledText hfilled.left hfields.1) ?_
    rintro line _ rfl
    exact .report (.change (.log line) rfl) _
  | setVariable target value? =>
    simp only [Action.fields, List.forall_mem_cons] at hfields
    refine .after .require ?_
    rintro _ _ ⟨rfl, rfl⟩
    refine .after .requirePresent ?_
    rintro given _ ⟨⟨⟩, rfl⟩
    refine .after (.filled hfilled.left (hfields.2 _ (.head _))) ?_
    rintro v _ ⟨rfl, -⟩
    exact .report (.bindVariable _ _) _
  | finish value? =>
    refine .after .requirePresent ?_
    rintro given _ ⟨⟨⟩, rfl⟩
    refine .after (.filled hfilled.left (hfields _ (.head _))) ?_
    rintro v _ ⟨rfl, -⟩
    exact .report (.change (.finish v) rfl) _
  | callTool tool parameters target => exact callTool_alike h hact
  | callFunction function parameters target => exact callFunction_alike h hact
  | createObject template properties instructions target => exact Creation.run_alike h hact
  | loadObject template keys? instructions => exact loadObject_alike h hact
  | agent instructions sampling target => exact instructAgent_alike h hact
  | loadState key default target => exact loadState_alike h hact
  | saveState key value? => exact saveState_alike h hact

end Engine

end Actions

end Stepwise
