-- SUMMARY: The inputs under their two paths: in every run of a chain both lead to what was accepted.
import Stepwise.Proofs.Resume.Chain
import Stepwise.Proofs.Run.Growth
import Stepwise.Proofs.Template.Data
import Stepwise.Proofs.Template.Segments

/-!
# Inputs

A template reaches the inputs of a run under `input`, and under `steps.input` as the output
of a step. The history starts with an entry for that step, no step of a workflow may take
its name, and what a run hands over keeps the entry. So both paths lead to the inputs as
they were accepted, in the first run of a chain and in every one that goes on from it.
-/

namespace Stepwise

variable {σ : Type}

/-! ## Paths -/

namespace Template

/-- The path that goes on below another one, if it does. -/
def below (path : String) : Option String → String
  | none => path
  | some rest => path ++ "." ++ rest

theorem segments_below (path : String) (rest : Option String) :
    segments (below path rest) = segments path ++ rest.elim [] segments := by
  cases rest with
  | none => exact (List.append_nil _).symm
  | some rest => exact segments_append path rest

/-- Below `input` lie the inputs. -/
theorem resolve_input (c : Context) (rest : Option String) :
    resolve c (below "input" rest) = walk c.logs c.inputs (rest.elim [] segments) := by
  have hsegments : segments (below "input" rest) = "input" :: rest.elim [] segments :=
    segments_below "input" rest
  rw [resolve, hsegments]
  rfl

/-- Below `steps` and the name of a step lies the output of its latest entry. -/
theorem resolve_step {c : Context} {name path : String} {r : StepResult} (rest : Option String)
    (hpath : segments path = ["steps", name]) (hr : c.resultOf? (.str name) = some r) :
    resolve c (below path rest) = walk c.logs r.output (rest.elim [] segments) := by
  have hsegments : segments (below path rest) = "steps" :: name :: rest.elim [] segments := by
    rw [segments_below, hpath]
    rfl
  simp only [resolve, hsegments, hr]

end Template

/-! ## The entry of the inputs -/

/-- The output that a history tells of the inputs, in their latest entry. -/
def inputOutput? (results : List StepResult) : Option Value :=
  (results.reverse.find? fun r => r.step == .str inputStepName).map StepResult.output

/-- Entries of other steps do not hide the inputs. -/
theorem inputOutput?_append (results : List StepResult) {added : List StepResult}
    (h : ∀ r ∈ added, r.step ≠ .str inputStepName) :
    inputOutput? (results ++ added) = inputOutput? results := by
  have hnone : added.reverse.find? (fun r => r.step == .str inputStepName) = none := by
    rw [List.find?_eq_none]
    intro r hr
    simpa using h r (List.mem_reverse.1 hr)
  rw [inputOutput?, List.reverse_append, List.find?_append, hnone, Option.none_or]
  rfl

/-- Entries that are changed under the same name each, in their outputs alike. -/
theorem inputOutput?_map (f : StepResult → StepResult) (g : Value → Value)
    (hstep : ∀ r, ((f r).step == .str inputStepName) = (r.step == .str inputStepName))
    (houtput : ∀ r, (f r).output = g r.output) (results : List StepResult) :
    inputOutput? (results.map f) = (inputOutput? results).map g := by
  have hnamed : (fun r : StepResult => r.step == .str inputStepName) ∘ f
      = fun r => r.step == .str inputStepName := funext hstep
  rw [inputOutput?, ← List.map_reverse, List.find?_map, hnamed, inputOutput?, Option.map_map,
    Option.map_map]
  exact congrArg (Option.map · _) (funext houtput)

/-- Settled entries tell the same of inputs that are data. -/
theorem inputOutput?_settle {results : List StepResult} {accepted : Dict} (hdata : accepted.IsData)
    (h : inputOutput? results = some (.dict accepted)) (log : List Value) :
    inputOutput? (results.map (·.settle log)) = some (.dict accepted) := by
  rw [inputOutput?_map (·.settle log) (·.settle log) (fun _ => rfl) (fun _ => rfl), h,
    Option.map_some, Value.settle_of_isSettled _ _ (Value.isSettled_dict.2 hdata)]

/-- The entries that are read back from those of a history. An empty name is told by its absence. -/
theorem inputOutput?_reread (results : List StepResult) :
    inputOutput? (results.map fun r => { r with step := r.step.orElse (.str "") })
      = inputOutput? results := by
  rw [inputOutput?_map _ id, Option.map_id, id]
  · intro r
    cases htruthy : r.step.truthy with
    | true => simp [Value.orElse, htruthy]
    | false =>
      have hne : r.step ≠ .str "input" := by
        intro heq
        rw [heq] at htruthy
        cases htruthy
      simp [Value.orElse, htruthy, hne, inputStepName]
  · exact fun _ => rfl

/-- The inputs of the context are the given ones, and so is what the history tells of them. -/
structure Context.HoldsInputs (accepted : Dict) (c : Context) : Prop where
  inputs : c.inputs = .dict accepted
  entry : inputOutput? c.results = some (.dict accepted)

namespace Context.HoldsInputs

variable {accepted : Dict} {c d : Context}

theorem of_eq (h : c.HoldsInputs accepted) (hinputs : d.inputs = c.inputs)
    (hresults : d.results = c.results) : d.HoldsInputs accepted :=
  ⟨hinputs ▸ h.inputs, hresults ▸ h.entry⟩

/-- Steps with other names keep the inputs. -/
theorem of_growsBy {names : List Value} (h : c.HoldsInputs accepted) (hgrows : c.GrowsBy names d)
    (hnames : .str inputStepName ∉ names) : d.HoldsInputs accepted := by
  obtain ⟨hinputs, ⟨added, hresults, hadded⟩, -⟩ := hgrows
  refine ⟨hinputs.trans h.inputs, ?_⟩
  rw [hresults, inputOutput?_append]
  · exact h.entry
  · intro r hr heq
    exact hnames (heq ▸ hadded r hr)

/-- Both paths lead into the inputs. -/
theorem resolve_eq (h : c.HoldsInputs accepted) (hdata : accepted.IsData) (rest : Option String) :
    Template.resolve c (Template.below "input" rest)
        = Template.walk [] (.dict accepted) (rest.elim [] Template.segments) ∧
      Template.resolve c (Template.below "steps.input" rest)
        = Template.walk [] (.dict accepted) (rest.elim [] Template.segments) := by
  have hsettled : Value.isSettled (.dict accepted) = true := Value.isSettled_dict.2 hdata
  obtain ⟨r, hr, houtput⟩ := Option.map_eq_some_iff.1 h.entry
  have hlatest : c.resultOf? (.str inputStepName) = some r := by
    rw [← hr, resultOf?]
    exact congrArg (List.find? · _) (funext fun r => r.step.same_str_right _)
  constructor
  · rw [Template.resolve_input, h.inputs]
    exact Template.walk_of_isSettled hsettled _ _ _
  · rw [Template.resolve_step rest rfl hlatest, houtput]
    exact Template.walk_of_isSettled hsettled _ _ _

end Context.HoldsInputs

/-! ## Chains of requests -/

/-- The request is for the first run of a chain, which brings no history, or for one that goes on with
the history of an earlier outcome. All of them are given the same inputs. Where the run starts, what
variables and what log it is given, and who is outside, may change from one run to the next. -/
inductive Request.IsInChain (w : Workflow) (inputs : Value) : Request → Prop
  | first {r : Request} :
    r.inputs = inputs → r.results.truthy = false → IsInChain w inputs r
  | next {τ : Type} {engine : Engine τ} {outside outside' : τ} {o : Outcome} {r r' : Request} :
    IsInChain w inputs r → run engine w r outside = (.ok o, outside') →
    r'.inputs = inputs → r'.results = (o.snapshotRequest inputs 0).results → IsInChain w inputs r'

/-- The runs that follow from the pauses of a fresh one make such a chain. -/
theorem Chain.isInChain {engine : Engine σ} {w : Workflow} {inputs : Value} {earlier : List (Leg σ)}
    {last : Leg σ} (h : Chain engine w inputs earlier last)
    (hvalid : (prepare w { inputs }).isOk = true) : last.request.IsInChain w inputs := by
  induction h with
  | fresh outside => exact .first rfl rfl
  | resumed outside hchain hrun hv hrequest ih =>
    obtain ⟨start, c, hfollows⟩ := hchain.follows hvalid
    obtain ⟨-, rfl⟩ := (hfollows.prepared.ofPayload_eq_ok hfollows.integer hrun hv).1 hrequest
    exact .next ih hrun rfl rfl

namespace Prepared

variable {w : Workflow} {r : Request} {start : Int} {c : Context} {given accepted : Dict}

/-- The context of a prepared run has the inputs as they were accepted, and the history that was
given, or else the entry of the inputs. -/
theorem seeded (h : Prepared w r start c) (hgiven : r.inputs.dictIfAny = .ok given)
    (haccepted : Input.accept w.inputs given = .ok accepted) :
    c.inputs = .dict accepted ∧ ∃ stored results, r.results.itemsIfAny = .ok stored ∧
      stored.mapM StepResult.ofValue = .ok results ∧
      c.results = if results.isEmpty then [Context.inputResult (.dict accepted)] else results := by
  obtain ⟨given', accepted', hgiven', haccepted', hc⟩ := h.context
  cases hgiven.symm.trans hgiven'
  cases haccepted.symm.trans haccepted'
  obtain ⟨_, _, stored, results, _, _, -, -, hstored, hresults, -, -, rfl⟩ := Context.ofParts_eq_ok.1 hc
  exact ⟨rfl, stored, results, hstored, hresults, rfl⟩

/-- What a run comes to has grown by steps of its workflow. -/
theorem movesBy (h : Prepared w r start c) (engine : Engine σ) (outside : σ) :
    Situation.MovesBy w.names { context := c, outside }
      (runAll engine start (w.steps.drop start.toNat) { context := c, outside }).2 := by
  refine (engine.growsBy.runAll start (w.steps.drop start.toNat) { context := c, outside }
    ⟨[], h.startsRun.position⟩).mono ?_
  exact Step.namesOf_subset (List.drop_subset _ _)

/-- Wherever the run has come to, it holds the inputs that it started with. -/
theorem holdsInputs_of_mem (h : Prepared w r start c) (hc : c.HoldsInputs accepted) {engine : Engine σ}
    {outside : σ} {e : Start} (he : e ∈ journal engine w r outside) : e.context.HoldsInputs accepted := by
  rw [journal, prepare_eq_ok.2 h] at he
  rcases (h.movesBy engine outside).starts e he with he | hgrows
  · cases he
  · exact hc.of_growsBy hgrows (Workflow.wellNamed h.wellformed).unreserved

/-- The outcome of the run hands the inputs over in its history. -/
theorem inputOutput?_outcome (h : Prepared w r start c) (hc : c.HoldsInputs accepted)
    (hdata : accepted.IsData) {engine : Engine σ} {outside outside' : σ} {o : Outcome}
    (hrun : run engine w r outside = (.ok o, outside')) :
    inputOutput? o.context.results = some (.dict accepted) := by
  have hend := hc.of_growsBy (h.movesBy engine outside).grows
    (Workflow.wellNamed h.wellformed).unreserved
  rw [h.run_eq, execute_eq_conclude] at hrun
  rw [results_of_conclude (Prod.mk.inj hrun).1]
  exact inputOutput?_settle hdata hend.entry _

end Prepared

/-- Every run of a chain starts with the inputs as they were accepted. -/
theorem Request.IsInChain.holdsInputs {w : Workflow} {inputs : Value} {given accepted : Dict} {r : Request}
    (h : r.IsInChain w inputs) (hgiven : inputs.dictIfAny = .ok given)
    (haccepted : Input.accept w.inputs given = .ok accepted) (hdata : accepted.IsData) {start : Int}
    {c : Context} (hprepared : Prepared w r start c) : c.HoldsInputs accepted := by
  induction h generalizing start c with
  | first hinputs hnone =>
    obtain ⟨hc, stored, results, hstored, hresults, hseeded⟩ :=
      hprepared.seeded (hinputs ▸ hgiven) haccepted
    rw [Value.itemsIfAny, hnone] at hstored
    cases hstored
    cases hresults
    exact ⟨hc, hseeded ▸ rfl⟩
  | @next τ engine outside outside' o r r' hchain hrun hinputs hsaved ih =>
    obtain ⟨hc, stored, results, hstored, hresults, hseeded⟩ :=
      hprepared.seeded (hinputs ▸ hgiven) haccepted
    refine ⟨hc, ?_⟩
    cases hprepare : prepare w r with
    | error e =>
      rw [run_of_error hprepare] at hrun
      cases hrun
    | ok p =>
      -- The entry is settled, written out and read back, and no step has come behind it.
      have hbefore : Prepared w r p.1 p.2 := prepare_eq_ok.1 hprepare
      have hentry := hbefore.inputOutput?_outcome (ih hbefore) hdata hrun
      rw [hsaved, Outcome.snapshotRequest, Value.itemsIfAny_list] at hstored
      cases hstored
      rw [← Function.comp_def StepResult.toValue, ← List.map_map,
        StepResult.mapM_ofValue_toValue] at hresults
      cases hresults
      rw [hseeded]
      split
      · rfl
      · rw [inputOutput?_reread]
        exact inputOutput?_settle hdata hentry _

/-! ## Both paths -/

/-- In every run of a chain, and for every step that it sets to work, both paths lead to the same: to
what lies below the inputs as they were accepted. This is so for as long as the step is at work, whatever
the variables and the log have come to hold by then. -/
theorem input_paths_agree (engine : Engine σ) {w : Workflow} {inputs : Value} {given accepted : Dict}
    {r : Request} (hr : r.IsInChain w inputs) (hgiven : inputs.dictIfAny = .ok given)
    (haccepted : Input.accept w.inputs given = .ok accepted) (hdata : given.IsData)
    (hdefaults : w.inputs.IsData) (outside : σ) :
    ∀ e ∈ journal engine w r outside, ∀ c : Context,
      c.inputs = e.context.inputs → c.results = e.context.results → ∀ rest : Option String,
        Template.resolve c (Template.below "steps.input" rest)
            = Template.resolve c (Template.below "input" rest) ∧
          Template.resolve c (Template.below "input" rest)
            = Template.walk [] (.dict accepted) (rest.elim [] Template.segments) := by
  intro e he c hinputs hresults rest
  have haccepts : accepted.IsData := Input.isData_of_accept hdata hdefaults haccepted
  cases hprepare : prepare w r with
  | error e =>
    rw [journal, hprepare] at he
    cases he
  | ok p =>
    have hprepared : Prepared w r p.1 p.2 := prepare_eq_ok.1 hprepare
    have hstart := hr.holdsInputs hgiven haccepted haccepts hprepared
    have hholds := (hprepared.holdsInputs_of_mem hstart he).of_eq hinputs hresults
    obtain ⟨hinput, hstep⟩ := hholds.resolve_eq haccepts rest
    exact ⟨hstep.trans hinput.symm, hinput⟩

/-- A workflow that binds a variable under the name of the inputs, asks an agent in a branch, and then
reads the inputs under both paths. -/
def asksThenGreets : Workflow where
  name := .str "greeting"
  inputs := { parameters := [(.str "user",
    { name := .str "user", type := .str "object", default := .record [("name", .str "Ada")] })] }
  steps := [.conditional (.str "choice") (.str "true") [
    .action (.str "hide") (.setVariable (.str "input") (some (.str "hidden"))),
    .action (.str "ask") (.agent [.str "Greet."] false .null),
    .action (.str "greet") (.log (.str "{{input.user.name}} or {{steps.input.user.name}}"))] []]

/-- What a fresh run of the workflow comes to: the agent inside the branch pauses it. -/
def asksThenGreets.paused : Outcome :=
  match (run ({} : Engine Unit) asksThenGreets {} ()).1 with
  | .ok o => o
  | .error _ => default

/-- The request that goes on from that pause, behind the agent. -/
def asksThenGreets.request : Request :=
  asksThenGreets.paused.resumeRequest .null 0 [Frame.toDict { branch := "then", index := 2 }]

/-- The default of the input is found under both paths by the step behind the pause, although a variable
has been bound in the meantime. -/
theorem input_paths_agree_behind_pause :
    asksThenGreets.request.IsInChain asksThenGreets .null ∧
      ∃ e ∈ journal ({} : Engine Unit) asksThenGreets asksThenGreets.request (),
        e.step.name = .str "greet" ∧ e.context.bindings.field "input" = .str "hidden" ∧
          Template.resolve e.context "steps.input.user.name" = .ok (.str "Ada") ∧
          Template.resolve e.context "input.user.name" = .ok (.str "Ada") := by
  have hrun : run ({} : Engine Unit) asksThenGreets {} () = (.ok asksThenGreets.paused, ()) := by
    have hok : (run ({} : Engine Unit) asksThenGreets {} ()).1.isOk = true := by decide +kernel
    unfold asksThenGreets.paused
    generalize run ({} : Engine Unit) asksThenGreets {} () = p at hok ⊢
    obtain ⟨e | o, ⟨⟩⟩ := p
    · cases hok
    · rfl
  have hchain : asksThenGreets.request.IsInChain asksThenGreets .null :=
    .next (.first rfl rfl) hrun rfl rfl
  have hjournal : (journal ({} : Engine Unit) asksThenGreets asksThenGreets.request ()).map
      (fun e => (e.step.name, e.context.bindings.field "input"))
        = [(.str "choice", .str "hidden"), (.str "greet", .str "hidden")] := by decide +kernel
  obtain ⟨e, he, hnamed⟩ : ∃ e ∈ journal ({} : Engine Unit) asksThenGreets asksThenGreets.request (),
      (e.step.name, e.context.bindings.field "input") = (.str "greet", .str "hidden") :=
    List.mem_map.1 (hjournal ▸ .tail _ (.head _))
  obtain ⟨hname, hbound⟩ := Prod.mk.inj hnamed
  have hgiven : Dict.IsData [] := nofun
  have hdefaults : asksThenGreets.inputs.IsData := by
    intro p hp
    cases List.mem_singleton.1 hp
    rfl
  have haccepted : Input.accept asksThenGreets.inputs []
      = .ok [(.str "user", .record [("name", .str "Ada")])] := rfl
  obtain ⟨hsame, hwalk⟩ := input_paths_agree ({} : Engine Unit) hchain rfl haccepted hgiven hdefaults ()
    e he e.context rfl rfl (some "user.name")
  have hada : Template.resolve e.context "input.user.name" = .ok (.str "Ada") :=
    hwalk.trans (by decide +kernel)
  exact ⟨hchain, e, he, hname, hbound, hsame.trans hada, hada⟩

end Stepwise
