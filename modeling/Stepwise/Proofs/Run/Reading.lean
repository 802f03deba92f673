-- SUMMARY: A step reads its run through the references that are listed for it, and in no other way.
import Stepwise.Proofs.Step.Data
import Stepwise.Proofs.Run.Performing
import Stepwise.Run.Branching

/-!
# What a step reads

The references of a step are listed apart from where its fields are filled. The list is
complete: in two contexts that agree on the listed expressions, and in which the runs stand at
the same place, an action ends with the same output or error, leaves the same world and changes
its run in the same way, and a container that is entered afresh selects the same branch. Only
the message of a log step is not listed.
-/

namespace Stepwise

variable {σ τ α β : Type} {R : σ → τ → Prop} {c d : Context}

/-! ## Selecting a branch -/

section Openings

open StepM (ReadAlike)

/-- Without a resume path a container enters afresh. -/
theorem StepM.ReadAlike.entry {P : α → β → Prop} {again : Entry → α} {again' : Entry → β}
    {m : StepM σ α} {n : StepM τ β} (hc : c.resumePath = []) (hd : d.resumePath = [])
    (h : ReadAlike R c d P m n) :
    ReadAlike R c d P (StepM.entry again m) (StepM.entry again' n) := by
  refine .bind .context ?_
  rintro _ _ ⟨rfl, rfl⟩
  simp only [Context.popFrame_nil hc, Context.popFrame_nil hd]
  exact .bind (.change rfl rfl) fun _ _ _ => h

/-- Contexts that agree on the field of a container have it opened alike. -/
theorem Step.opening_alike {x : Step} (hc : c.resumePath = []) (hd : d.resumePath = [])
    (h : c.AgreesOn d (Template.referencesAll x.referenceFields))
    (hfields : ∀ v ∈ x.referenceFields, c.ShowAlike d v) :
    ReadAlike (σ := σ) (τ := τ) R c d Eq x.opening x.opening := by
  cases x with
  | action name act => exact .pure rfl
  | conditional name condition thenSteps elseSteps =>
    refine .bind .require ?_
    rintro _ _ ⟨rfl, rfl⟩
    have hentry : ReadAlike (σ := σ) (τ := τ) R c d Eq (conditionalEntry condition)
        (conditionalEntry condition) := by
      refine .entry hc hd (.bind (.look (Template.evaluateValue_shown h.left.showsOn)) ?_)
      rintro holds _ ⟨rfl, -⟩
      exact .pure rfl
    refine .bind hentry ?_
    rintro e _ rfl
    exact (ReadAlike.lift _).mono fun _ _ hab => hab.1
  | switch name subject cases default? =>
    refine .bind .require ?_
    rintro _ _ ⟨rfl, rfl⟩
    refine .bind (.filled h.left (hfields _ (.head _))) ?_
    rintro v _ ⟨rfl, hv⟩
    generalize Step.switch name subject cases default? = x
    have hentry : ReadAlike (σ := σ) (τ := τ) R c d Eq (switchChoice? x v) (switchChoice? x v) := by
      refine .entry hc hd (.bind (.settled hv) ?_)
      rintro shown _ ⟨rfl, -⟩
      refine .bind (.lift _) ?_
      rintro text? _ ⟨rfl, -⟩
      exact .pure rfl
    refine .bind hentry ?_
    rintro (_ | e) _ rfl
    · exact .bind (.spelled hv) fun _ _ _ => .pure rfl
    · exact (ReadAlike.lift _).mono fun _ _ hab => hab.1

end Openings

/-! ## Steps in two contexts -/

/-- The tools of the engine answer data. Only the engine holds the log of a run in progress. -/
def Engine.ToolsAnswerData (engine : Engine σ) : Prop :=
  ∀ call ∈ engine.tools?, ∀ tool parameters o v,
    (call tool parameters o).1 = .ok v → v.isSettled = true

/-- From both contexts, in the same world, the work ends with the same answer or error, leaves the same
world, and has the same effect and adds the same entries to the history. -/
structure RunM.EndsAlike (m : RunM σ α) (c d : Context) (o : σ) : Prop where
  answer : (m { context := c, outside := o }).1 = (m { context := d, outside := o }).1
  outside : (m { context := c, outside := o }).2.outside = (m { context := d, outside := o }).2.outside
  change : ∃ (eff : Effect) (entries : List StepResult),
    (m { context := c, outside := o }).2.context
      = { eff.apply c with results := c.results ++ entries } ∧
    (m { context := d, outside := o }).2.context
      = { eff.apply d with results := d.results ++ entries }

/-- From both contexts the container selects the same branch, or raises the same. -/
def Step.OpensAlike (x : Step) (c d : Context) : Prop :=
  ∀ (σ : Type) (o : σ),
    (x.opening { context := c, outside := o }).1 = (x.opening { context := d, outside := o }).1

/-- Whatever ends alike is closed alike. -/
theorem RunM.closed_alike (label : StepLabel) {m : StepM σ Value} {s t : Situation σ}
    (hst : StepM.ActAlike Eq s.context t.context m m) (houtside : s.outside = t.outside) :
    (closed label m s).1 = (closed label m t).1 ∧
      (closed label m s).2.outside = (closed label m t).2.outside ∧
      ∃ (eff : Effect) (entries : List StepResult),
        (closed label m s).2.context
          = { eff.apply s.context with results := s.context.results ++ entries } ∧
        (closed label m t).2.context
          = { eff.apply t.context with results := t.context.results ++ entries } := by
  have hrecord (c : Context) (eff : Effect) (r : StepResult) :
      (eff.apply c).record r = { eff.apply c with results := c.results ++ [r] } := by
    rw [Context.record, Effect.apply_results]
  obtain ⟨hend, eff, hfirst, hsecond, hworld⟩ := hst s t ⟨rfl, rfl, houtside⟩
  cases hm : (m t).1 with
  | ok output =>
    have hleft : closed label m s = _ := closed_of_ok (Prod.ext (hend.trans hm) rfl)
    have hright : closed label m t = _ := closed_of_ok (Prod.ext hm rfl)
    rw [hleft, hright]
    exact ⟨rfl, hworld, eff, _, by rw [hfirst, hrecord], by rw [hsecond, hrecord]⟩
  | error raised =>
    cases hspellable : raised.isSpellable with
    | true =>
      have hleft : closed label m s = _ := closed_of_error (Prod.ext (hend.trans hm) rfl) hspellable
      have hright : closed label m t = _ := closed_of_error (Prod.ext hm rfl) hspellable
      rw [hleft, hright]
      exact ⟨rfl, hworld, eff, _, by rw [hfirst, hrecord], by rw [hsecond, hrecord]⟩
    | false =>
      obtain ⟨crash, hmute⟩ := Raised.not_isSpellable_iff.1 hspellable
      have hleft : closed label m s = _ := closed_of_mute (Prod.ext (hend.trans hm) rfl) hmute
      have hright : closed label m t = _ := closed_of_mute (Prod.ext hm rfl) hmute
      rw [hleft, hright]
      refine ⟨rfl, hworld, eff, [], ?_, ?_⟩
      · rw [hfirst, List.append_nil, ← Effect.apply_results]
      · rw [hsecond, List.append_nil, ← Effect.apply_results]

/-- What is done alike is recorded alike. -/
theorem RunM.recorded_alike {x : Step} {m : StepM σ Value} (h : StepM.ActAlike Eq c d m m) (o : σ) :
    (recorded x m).EndsAlike c d o := by
  cases hname : x.name.isSpellable with
  | false =>
    have hraised (c : Context) : recorded x m { context := c, outside := o }
        = (.error (.fault unspellable), { context := c, outside := o }) :=
      recorded_of_unspellable hname
    refine ⟨by rw [hraised, hraised], by rw [hraised, hraised], .none, [], ?_⟩
    simp [hraised, Effect.apply]
  | true =>
    have hstarted (c : Context) : recorded x m { context := c, outside := o }
        = closed x.label m (Situation.start { context := c, outside := o } x) :=
      recorded_of_spellable hname
    obtain ⟨hend, hworld, hchange⟩ := closed_alike x.label
      (s := Situation.start { context := c, outside := o } x)
      (t := Situation.start { context := d, outside := o } x) h rfl
    refine ⟨by rw [hstarted, hstarted, hend], by rw [hstarted, hstarted, hworld], ?_⟩
    rw [hstarted, hstarted]
    exact hchange

/-- A step reads its run through its listed references only: contexts that agree on them have an action,
if it is no log message, done alike, and have a container that is entered afresh select alike. -/
theorem step_reads_references {engine : Engine σ} {x : Step} (htools : engine.ToolsAnswerData)
    (hx : x.IsData) (hplace : c.SamePlace d)
    (hagree : c.AgreesOn d (Template.referencesAll x.referenceFields)) :
    (∀ kind, x.kind = .action kind → kind ≠ .log → ∀ o, (runStep engine x).EndsAlike c d o) ∧
      (c.resumePath = [] → d.resumePath = [] → x.OpensAlike c d) := by
  constructor
  · rintro kind hkind hlog o
    cases x with
    | action name act =>
      cases hkind
      have hact : act.SeesAlike engine.tools? c d := {
        place := hplace
        filled := by rwa [Action.filledFields_of_kind hlog]
        fields := fun f hf => .of_isSettled (hx f hf)
        answers := fun call hcall tool parameters o v hv =>
          .of_isSettled (htools call hcall tool parameters o v hv) }
      exact RunM.recorded_alike (Engine.perform_alike (Engine.Softens.refl engine) hact) o
    | conditional => cases hkind
    | switch => cases hkind
  · intro hc hd σ o
    cases x with
    | action name act => rfl
    | conditional name condition thenSteps elseSteps =>
      have hfields : ∀ v ∈ [condition], c.ShowAlike d v := by simpa using .of_isSettled hx
      obtain ⟨hend, -⟩ := Step.opening_alike (R := Eq) hc hd hagree hfields
        { context := c, outside := o } { context := d, outside := o } ⟨rfl, rfl, rfl⟩
      exact hend.eq
    | switch name subject cases default? =>
      have hfields : ∀ v ∈ [subject], c.ShowAlike d v := by simpa using .of_isSettled hx
      obtain ⟨hend, -⟩ := Step.opening_alike (R := Eq) hc hd hagree hfields
        { context := c, outside := o } { context := d, outside := o } ⟨rfl, rfl, rfl⟩
      exact hend.eq

/-- A tool that keeps the parameters it is called with. -/
def mailbox : Engine (List Value) where
  tools? := some fun _ parameters mails => (.ok (.int mails.length), mails ++ [parameters])

/-- A step that calls a tool with a variable and with the output of a step. -/
def sendsMail : Step :=
  .action (.str "send") (.callTool (.str "mail") (.dict [
    (.str "to", .str "\x7b\x7bwho\x7d\x7d"),
    (.str "text", .str "Dear \x7b\x7bwho\x7d\x7d, \x7b\x7bsteps.draft.text\x7d\x7d")]) (.str "sent"))

/-- A run that has bound a variable and drafted a text. -/
def drafted : Context where
  bindings := [(.str "who", .str "Ann")]
  results := [{ step := .str "draft", type := .str "call_tool", status := .completed
                output := .record [("text", .str "hello")] }]

/-- A run that holds more than that, and whose log is another one. -/
def redrafted : Context where
  inputs := .record [("topic", .str "weather")]
  bindings := [(.str "tries", .int 2), (.str "who", .str "Ann")]
  logs := [.str "drafted once", .str "drafted again"]
  results := [{ step := .str "draft", type := .str "call_tool", status := .failed },
    { step := .str "draft", type := .str "call_tool", status := .completed
      output := .record [("text", .str "hello"), ("length", .int 5)] }]

theorem drafted_agrees :
    drafted.AgreesOn redrafted (Template.referencesAll sendsMail.referenceFields) := by
  have hpaths : Template.referencesAll sendsMail.referenceFields
      = ["who", "who", "steps.draft.text"] := by decide +kernel
  have hwho : Template.resolve drafted "who" = .ok (.str "Ann") := by decide +kernel
  have htext : Template.resolve drafted "steps.draft.text" = .ok (.str "hello") := by decide +kernel
  have hshow (text : String) :
      ∀ v, (Except.ok (.str text) : Except Fault Value) = .ok v → drafted.ShowAlike redrafted v := by
    rintro v ⟨⟩
    exact .of_isSettled rfl
  rw [hpaths]
  constructor
  · simp only [List.forall_mem_cons, hwho, htext]
    decide +kernel
  · simp only [List.forall_mem_cons, hwho, htext]
    exact ⟨hshow _, hshow _, hshow _, nofun⟩

/-- Both runs send the same mail. -/
theorem step_reads_references_of_mail :
    mailbox.ToolsAnswerData ∧ sendsMail.IsData ∧ drafted.SamePlace redrafted ∧
      drafted.AgreesOn redrafted (Template.referencesAll sendsMail.referenceFields) ∧
      drafted.logs ≠ redrafted.logs ∧
      ∀ mails, (runStep mailbox sendsMail).EndsAlike drafted redrafted mails := by
  have htools : mailbox.ToolsAnswerData := by
    rintro call ⟨⟩ tool parameters mails v ⟨⟩
    rfl
  have hread : Step.ofValue sendsMail.toValue = .ok sendsMail := by decide +kernel
  have hdata : sendsMail.IsData := Step.isData_of_ofValue rfl hread _ (.head _)
  have hplace : drafted.SamePlace redrafted := ⟨rfl, rfl, rfl⟩
  have h := step_reads_references htools hdata hplace drafted_agrees
  exact ⟨htools, hdata, hplace, drafted_agrees, by decide, h.1 .callTool rfl (by decide)⟩

end Stepwise
