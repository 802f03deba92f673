-- SUMMARY: Workflows that have been produced in any way, written as data and read again, are equal.
import Mathlib.Data.List.Forall2
import Mathlib.Data.List.Pairwise
import Stepwise.Proofs.Step.Rereading
import Stepwise.Proofs.Value.Documents
import Stepwise.Loader

/-!
# Reading workflows again

A schema declares every input under a key of its own, because the data it comes from are
lawful or because it is built up by storing. Such a schema is written as an object schema,
from which the same declarations are read, each named by its key. So with its steps, a workflow
that has been read from data or from a document, or loaded from a template, is read back.
-/

namespace Stepwise

open Checks Value

/-! ## Schemas -/

namespace InputSchema

/-- Every declared input is named by its key. -/
def renamed (s : InputSchema) : InputSchema where
  parameters := s.parameters.map fun e => (e.1, { e.2 with name := e.1 })

/-- No two inputs are declared under the same key, and each has its key as its name. -/
structure IsLawful (s : InputSchema) : Prop where
  keys : Key.AllDifferent s.keys
  names : ∀ e ∈ s.parameters, e.1.same e.2.name = true

/-- Where the keys differ, an input is required if its key is listed. -/
theorem required_any {s : InputSchema} (h : Key.AllDifferent s.keys) {e : Key × InputParameter}
    (he : e ∈ s.parameters) : s.required.any e.1.same = e.2.required := by
  cases hrequired : e.2.required with
  | true =>
    have hmem : e.1 ∈ s.required := List.mem_map_of_mem (List.mem_filter.2 ⟨he, hrequired⟩)
    exact List.any_eq_true.2 ⟨e.1, hmem, e.1.same_refl⟩
  | false =>
    have hpairs : s.parameters.Pairwise fun e f => e.1.same f.1 = false := List.pairwise_map.1 h
    refine List.any_eq_false.2 ?_
    intro k hk
    obtain ⟨f, hf, rfl⟩ := List.mem_map.1 hk
    obtain ⟨hf, hlisted⟩ := List.mem_filter.1 hf
    have hne : e ≠ f := by
      rintro rfl
      rw [hrequired] at hlisted
      cases hlisted
    have hsymm : ∀ e f : Key × InputParameter, e.1.same f.1 = false → f.1.same e.1 = false := by
      intro e f hef
      rwa [Key.same_comm]
    have : Std.Symm fun e f : Key × InputParameter => e.1.same f.1 = false := ⟨hsymm⟩
    simp [hpairs.forall he hf hne]

/-- A declared input is read back from the properties of an object schema. -/
theorem propertyParameter_schemaFields {required : List Key} {k : Key} {p : InputParameter}
    (h : required.any k.same = p.required) :
    propertyParameter required k (.record p.schemaFields) = .ok { p with name := k } := by
  have hdict (fields : List (String × Value)) :
      (Value.record fields).dictIfAny = .ok (Dict.ofFields fields) := dictIfAny_dict _
  obtain ⟨name, type, flag, default, description⟩ := p
  rw [propertyParameter, hdict, ok_bind, h]
  -- A default of `null` is left out, and so is a flag that is not set.
  have hdefault : default.isNull = true → Value.null = default := by
    cases default <;> simp [isNull]
  cases flag <;> cases hnull : default.isNull <;>
    simp [InputParameter.schemaFields, InputParameter.ofDict, hnull, Dict.field, Dict.field?_insert,
      pure, Except.pure, hdefault]

/-- An object schema is read from its required keys and its properties, of which it may have none. -/
theorem ofObjectSchema_eq (d : Dict) :
    ofObjectSchema d
      = ((if (d.field "required").truthy then (d.field "required").toKeySet else .ok []) >>= fun required =>
          (if (d.field "properties").truthy then (d.field "properties").toRecord "items" else .ok [])
            >>= fun properties =>
          (properties.mapM fun e => do return (e.1, ← propertyParameter required e.1 e.2))
            >>= fun parameters => .ok { parameters }) := by
  unfold ofObjectSchema
  split <;> split <;> rfl

theorem toRecordIfAny_dict (d : Dict) :
    (if (Value.dict d).truthy then (Value.dict d).toRecord "items" else .ok []) = .ok d := by
  cases d <;> rfl

theorem toKeySetIfAny_list (ks : List Key) :
    (if (Value.list (ks.map Key.toValue)).truthy then (Value.list (ks.map Key.toValue)).toKeySet
      else .ok []) = .ok ks := by
  have hkeys : (ks.map Key.toValue).mapM toKey = .ok ks := by
    rw [mapM_iff, List.map_map]
    exact List.map_congr_left fun k _ => toKey_iff.2 k.toKey?_toValue
  cases ks with
  | nil => rfl
  | cons k ks => exact hkeys

/-- A schema is read back with every input named by its key. -/
theorem ofValue_toValue {s : InputSchema} (h : Key.AllDifferent s.keys) :
    ofValue s.toValue = .ok s.renamed := by
  have hobject : isObjectSchema s.toValue = .ok true := by
    simp [isObjectSchema, toValue, record, holds, holdsKey, Dict.contains, Dict.ofFields, ok_bind, pure,
      Except.pure]
  have hproperties : (s.parameters.map fun e => (e.1, Value.record e.2.schemaFields)).mapM
      (fun e => do return (e.1, ← propertyParameter s.required e.1 e.2)) = .ok s.renamed.parameters := by
    rw [mapM_iff, renamed, List.map_map, List.map_map]
    refine List.map_congr_left fun e he => ?_
    simp [propertyParameter_schemaFields (required_any h he), ok_bind, pure, Except.pure]
  generalize hd : Dict.ofFields [("type", Value.str "object"),
    ("properties", .dict (s.parameters.map fun e => (e.1, .record e.2.schemaFields))),
    ("required", .list (s.required.map Key.toValue))] = d
  have hrequired : d.field "required" = .list (s.required.map Key.toValue) := by
    simp [← hd, Dict.field]
  have hfield : d.field "properties"
      = .dict (s.parameters.map fun e => (e.1, .record e.2.schemaFields)) := by
    simp [← hd, Dict.field]
  calc ofValue s.toValue
      = ofObjectSchema d := by
        have htruthy : s.toValue.truthy = true := rfl
        simp only [ofValue, htruthy, hobject, ok_bind]
        rw [← hd]
        rfl
    _ = .ok s.renamed := by
        rw [ofObjectSchema_eq, hrequired, hfield, toKeySetIfAny_list, ok_bind, toRecordIfAny_dict, ok_bind,
          hproperties, ok_bind]

/-! ### Schemas that are read -/

theorem name_of_propertyParameter {required : List Key} {k : Key} {v : Value} {p : InputParameter}
    (h : propertyParameter required k v = .ok p) : p.name = k := by
  obtain ⟨d, -, h⟩ := bind_iff.1 h
  cases h
  rfl

theorem name_of_mappedParameter {k : Key} {v : Value} {p : InputParameter}
    (h : mappedParameter k v = .ok p) : p.name = k := by
  unfold mappedParameter at h
  split at h
  · obtain ⟨d, -, h⟩ := bind_iff.1 h
    cases h
    rfl
  · cases h
    rfl

section Declared

variable (declare : Key → Value → Except Fault InputParameter)
  (hname : ∀ k v p, declare k v = .ok p → p.name = k)

include hname

/-- Inputs that are declared one for each entry of a dictionary have its keys, and are named by them. -/
theorem keys_of_declared {d : Dict} {parameters : List (Key × InputParameter)}
    (h : d.mapM (fun e => do return (e.1, ← declare e.1 e.2)) = .ok parameters) :
    keys { parameters } = d.keys ∧ ∀ e ∈ parameters, e.2.name = e.1 := by
  rw [mapM_iff] at h
  induction d generalizing parameters with
  | nil =>
    cases parameters with
    | nil => exact ⟨rfl, nofun⟩
    | cons => cases h
  | cons e rest ih =>
    cases parameters with
    | nil => cases h
    | cons f parameters =>
      simp only [List.map_cons, List.cons.injEq, bind_iff, pure_iff] at h
      obtain ⟨⟨p, hp, rfl⟩, hrest⟩ := h
      obtain ⟨hkeys, hnames⟩ := ih hrest
      exact ⟨congrArg (e.1 :: ·) hkeys, List.forall_mem_cons.2 ⟨hname _ _ _ hp, hnames⟩⟩

end Declared

/-- What a lawful value describes declares inputs under different keys, which are their names. -/
theorem keys_of_ofValue {v : Value} {s : InputSchema} (hv : v.isLawful = true) (h : ofValue v = .ok s) :
    Key.AllDifferent s.keys ∧ ∀ e ∈ s.parameters, e.2.name = e.1 := by
  unfold ofValue at h
  split at h
  · cases h
    exact ⟨.nil, nofun⟩
  obtain ⟨asObject, -, h⟩ := bind_iff.1 h
  obtain ⟨d, hd, h⟩ := bind_iff.1 h
  have hd : Key.AllDifferent d.keys ∧ ∀ e ∈ d, e.2.isLawful = true := by
    cases v <;> cases hd
    exact isLawful_dict.1 hv
  split at h
  · rw [ofObjectSchema_eq] at h
    obtain ⟨required, -, h⟩ := bind_iff.1 h
    obtain ⟨properties, hproperties, h⟩ := bind_iff.1 h
    obtain ⟨parameters, hparameters, h⟩ := bind_iff.1 h
    cases h
    have hfield := buildsUp_lawful.field hd.2 "properties"
    have hlawful : Key.AllDifferent properties.keys := by
      split at hproperties
      · cases hvalue : d.field "properties" <;> rw [hvalue] at hproperties hfield <;> cases hproperties
        exact (isLawful_dict.1 hfield).1
      · cases hproperties
        exact .nil
    obtain ⟨hkeys, hnames⟩ :=
      keys_of_declared (propertyParameter required) (fun _ _ _ => name_of_propertyParameter) hparameters
    exact ⟨by rwa [hkeys], hnames⟩
  · obtain ⟨parameters, hparameters, h⟩ := bind_iff.1 h
    cases h
    obtain ⟨hkeys, hnames⟩ :=
      keys_of_declared mappedParameter (fun _ _ _ => name_of_mappedParameter) hparameters
    exact ⟨by rw [hkeys]; exact hd.1, hnames⟩

theorem IsLawful.empty : IsLawful {} := ⟨.nil, nofun⟩

/-- Parameters are stored as the values of a dictionary are. -/
theorem map_store (key : Key) (p : InputParameter) (parameters : List (Key × InputParameter))
    (write : InputParameter → Value) :
    (store key p parameters).map (fun e => (e.1, write e.2))
      = Dict.insert (parameters.map fun e => (e.1, write e.2)) key (write p) := by
  induction parameters with
  | nil => rfl
  | cons e rest ih =>
    obtain ⟨k, q⟩ := e
    rw [store, List.map_cons, Dict.insert]
    split
    · rfl
    · rw [List.map_cons, ih]

/-- Storing a parameter under its name keeps the keys different and the names in their place. -/
theorem IsLawful.store {parameters : List (Key × InputParameter)} {p : InputParameter}
    (h : IsLawful { parameters }) : IsLawful { parameters := store p.name p parameters } where
  keys := by
    have hkeys (parameters : List (Key × InputParameter)) : InputSchema.keys { parameters }
        = Dict.keys (parameters.map fun e => (e.1, e.2.toValue)) := by
      simp [InputSchema.keys, Dict.keys]
    rw [hkeys, map_store, Dict.keys_insert, ← hkeys]
    split
    · exact h.keys
    · rename_i hnew
      exact h.keys.append_of_new (by simpa using hnew)
  names := by
    obtain ⟨-, hnames⟩ := h
    dsimp only at hnames ⊢
    induction parameters with
    | nil => simpa [InputSchema.store] using p.name.same_refl
    | cons e rest ih =>
      obtain ⟨k, q⟩ := e
      simp only [List.forall_mem_cons] at hnames
      rw [InputSchema.store]
      split
      · rename_i hsame
        rw [Key.same_comm] at hsame
        simpa only [List.forall_mem_cons] using ⟨hsame, hnames.2⟩
      · simpa only [List.forall_mem_cons] using ⟨hnames.1, ih hnames.2⟩

/-- Declarations that carry their names are stored under different keys. -/
theorem IsLawful.storeRows {rows : List Value} {before after : List (Key × InputParameter)}
    (h : IsLawful { parameters := before }) (hrows : storeRows before rows = .ok after) :
    IsLawful { parameters := after } := by
  induction rows generalizing before with
  | nil =>
    cases hrows
    exact h
  | cons row rows ih =>
    rw [InputSchema.storeRows] at hrows
    obtain ⟨d, -, hrows⟩ := bind_iff.1 hrows
    split at hrows
    · exact ih h hrows
    · obtain ⟨name, -, hrows⟩ := bind_iff.1 hrows
      exact ih (h.store (p := .ofDict name d)) hrows

theorem IsLawful.of_ofValue {v : Value} {s : InputSchema} (hv : v.isLawful = true)
    (h : ofValue v = .ok s) : s.IsLawful := by
  obtain ⟨hkeys, hnames⟩ := keys_of_ofValue hv h
  exact ⟨hkeys, fun e he => by rw [hnames e he]; exact e.1.same_refl⟩

theorem IsLawful.of_ofRows {v : Value} {s : InputSchema} (h : ofRows v = .ok s) : s.IsLawful := by
  obtain ⟨rows, -, h⟩ := bind_iff.1 h
  obtain ⟨parameters, hrows, h⟩ := bind_iff.1 h
  cases h
  exact IsLawful.empty.storeRows hrows

/-- Inputs that are named by their keys already stay as they are. -/
theorem renamed_eq {s : InputSchema} (h : ∀ e ∈ s.parameters, e.2.name = e.1) : s.renamed = s := by
  obtain ⟨parameters⟩ := s
  have hsame : ∀ e ∈ parameters, (e.1, { e.2 with name := e.1 }) = e := by
    rintro ⟨k, p⟩ he
    have hname : p.name = k := h _ he
    subst hname
    rfl
  simpa [renamed] using List.map_congr_left hsame

end InputSchema

/-! ## Workflows -/

/-- The parameters declare the same: their names are the same key, and all else is equal. -/
structure InputParameter.Agrees (p q : InputParameter) : Prop where
  name : p.name.same q.name = true
  type : p.type = q.type
  required : p.required = q.required
  default : p.default = q.default
  description : p.description = q.description

namespace Workflow

/-- The workflows are equal: in name, description and steps, and in the inputs they declare in the same
order under the same keys. -/
structure Agrees (w x : Workflow) : Prop where
  name : w.name = x.name
  description : w.description = x.description
  inputs : List.Forall₂ (fun e f => e.1 = f.1 ∧ e.2.Agrees f.2) w.inputs.parameters x.inputs.parameters
  steps : w.steps = x.steps

/-- The workflow declares its inputs under different keys and has steps in normal form. -/
structure IsNormal (w : Workflow) : Prop where
  inputs : w.inputs.IsLawful
  steps : ∀ x ∈ Step.nodesOf w.steps, x.IsNormal

/-- A workflow in normal form is read back with every input named by its key. -/
theorem ofValue_toValue {w : Workflow} (h : w.IsNormal) :
    ofValue w.toValue = .ok { w with inputs := w.inputs.renamed } := by
  have hinputs : readInputs w.inputs.toValue = .ok w.inputs.renamed :=
    InputSchema.ofValue_toValue h.inputs.keys
  have hsteps : Step.stepsOf (.list (Step.toValues w.steps)) = .ok w.steps :=
    Step.stepsOfAll_toValues w.steps h.steps
  simp [toValue, record, ofValue, ofDict, Dict.field, Dict.pick, Dict.pick?, inputFields, hinputs, hsteps,
    ok_bind, pure, Except.pure]
  rfl

theorem agrees_renamed {w : Workflow} (h : w.IsNormal) :
    w.Agrees { w with inputs := w.inputs.renamed } where
  name := rfl
  description := rfl
  inputs := by
    refine List.forall₂_map_right_iff.2 (List.forall₂_same.2 fun e he => ⟨rfl, ?_⟩)
    have hname := h.inputs.names e he
    rw [Key.same_comm] at hname
    exact ⟨hname, rfl, rfl, rfl, rfl⟩
  steps := rfl

/-! ### Workflows that are produced -/

theorem inputs_of_readInputs {v : Value} {s : InputSchema} (hv : v.isLawful = true)
    (h : readInputs v = .ok s) : ∃ u : Value, u.isLawful = true ∧ InputSchema.ofValue u = .ok s := by
  unfold readInputs at h
  split at h
  · obtain ⟨u, hu, h⟩ := bind_iff.1 h
    exact ⟨u, Json.holds_of_read buildsUp_lawful hu, h⟩
  · exact ⟨v, hv, h⟩

/-- A workflow that a lawful value describes is in normal form, and its inputs are named by their keys. -/
theorem normal_of_ofValue {v : Value} {w : Workflow} (hv : v.isLawful = true) (h : ofValue v = .ok w) :
    w.IsNormal ∧ ∀ e ∈ w.inputs.parameters, e.2.name = e.1 := by
  cases v with
  | dict d =>
    have hd := (isLawful_dict.1 hv).2
    obtain ⟨inputs, hinputs, h⟩ := bind_iff.1 h
    obtain ⟨steps, hsteps, h⟩ := bind_iff.1 h
    cases h
    obtain ⟨u, hu, hinputs⟩ := inputs_of_readInputs (buildsUp_lawful.pick hd inputFields) (lift_iff.1 hinputs)
    obtain ⟨hkeys, hnames⟩ := InputSchema.keys_of_ofValue hu hinputs
    exact ⟨⟨.of_ofValue hu hinputs, Step.normal_of_stepsOf hsteps⟩, hnames⟩
  | _ => cases h

/-- A workflow that has been read from data is read back as it is. -/
theorem rereads_of_ofValue {v : Value} {w : Workflow} (hv : v.isLawful = true) (h : ofValue v = .ok w) :
    ofValue w.toValue = .ok w := by
  obtain ⟨hnormal, hnames⟩ := normal_of_ofValue hv h
  rw [ofValue_toValue hnormal, InputSchema.renamed_eq hnames]

theorem lawful_of_ofDocument {document v : Value} (hdocument : document.isLawful = true)
    (h : ofDocument document = .ok v) : v.isLawful = true := by
  unfold ofDocument at h
  dsimp only at h
  split at h
  · cases h
  obtain ⟨found, -, h⟩ := bind_iff.1 h
  split at h
  · cases h
  split at h
  · cases h
    exact buildsUp_lawful.field (isLawful_dict.1 hdocument).2 documentKey
  · cases h

theorem normal_of_ofYaml {read : DocumentReader} {s : String} {w : Workflow}
    (hlawful : ∀ v, read s = .ok v → v.isLawful = true) (h : ofYaml read s = .ok w) : w.IsNormal := by
  obtain ⟨v, hv, h⟩ := bind_iff.1 h
  obtain ⟨document, hdocument, hv⟩ := bind_iff.1 (lift_iff.1 hv)
  have hdocument := hlawful document (mapError_iff.1 hdocument)
  exact (normal_of_ofValue (lawful_of_ofDocument hdocument hv) h).1

end Workflow

/-! ### Workflows that are loaded -/

namespace Loader

theorem lawful_of_unpack {v u : Value} (hv : v.isLawful = true) (h : unpack v = .ok u) :
    u.isLawful = true := by
  unfold unpack at h
  split at h
  · exact Json.holds_of_read buildsUp_lawful h
  · cases h
    exact hv

/-- The inputs of a start row are declared by rows. -/
theorem inputs_of_startHeading {template start : Dict} {heading : Heading}
    (h : startHeading template start = .ok heading) : heading.inputs.IsLawful := by
  obtain ⟨configuration, -, h⟩ := bind_iff.1 h
  obtain ⟨d, -, h⟩ := bind_iff.1 h
  dsimp only at h
  split at h
  all_goals
    obtain ⟨name, -, h⟩ := bind_iff.1 h
    obtain ⟨inputs, hinputs, h⟩ := bind_iff.1 h
    cases h
    exact .of_ofRows hinputs

/-- The inputs of a template's metadata are read from them. -/
theorem inputs_of_metadataHeading {template : Dict} {heading : Heading}
    (htemplate : ∀ e ∈ template, e.2.isLawful = true) (h : metadataHeading template = .ok heading) :
    heading.inputs.IsLawful := by
  obtain ⟨metadata, hmetadata, h⟩ := bind_iff.1 h
  have hmetadata := lawful_of_unpack
    (holds_orElse (P := (·.isLawful = true)) (buildsUp_lawful.field htemplate "metadata") rfl) hmetadata
  obtain ⟨d, hd, h⟩ := bind_iff.1 h
  have hd : ∀ e ∈ d, e.2.isLawful = true := by
    cases metadata <;> cases hd
    exact (isLawful_dict.1 hmetadata).2
  dsimp only at h
  obtain ⟨schema, hschema, h⟩ := bind_iff.1 h
  obtain ⟨inputs, hinputs, h⟩ := bind_iff.1 h
  cases h
  exact .of_ofValue (lawful_of_unpack (buildsUp_lawful.field hd "input_schema") hschema) hinputs

theorem normal_of_stepOf {row : Dict} {s : Step} (h : stepOf row = .ok s) :
    ∀ x ∈ s.nodes, x.IsNormal := by
  obtain ⟨d, -, h⟩ := bind_iff.1 h
  exact Step.normal_of_ofValue h

theorem normal_of_rows {rows : List Dict} {steps : List Step} (h : rows.mapM stepOf = .ok steps) :
    ∀ x ∈ Step.nodesOf steps, x.IsNormal := by
  induction rows generalizing steps with
  | nil =>
    cases h
    exact nofun
  | cons row rows ih =>
    simp only [List.mapM_cons, bind_iff, pure_iff] at h
    obtain ⟨s, hs, rest, hrest, rfl⟩ := h
    simp only [Step.nodesOf_cons, List.forall_mem_append]
    exact ⟨normal_of_stepOf hs, ih hrest⟩

/-- The workflow of a lawful template is in normal form, whatever its rows hold. -/
theorem normal_of_build {template : Dict} {rows : List Value} {w : Workflow}
    (htemplate : ∀ e ∈ template, e.2.isLawful = true) (h : build template rows = .ok w) : w.IsNormal := by
  obtain ⟨start?, -, h⟩ := bind_iff.1 h
  obtain ⟨heading, hheading, h⟩ := bind_iff.1 h
  obtain ⟨ordered, -, h⟩ := bind_iff.1 h
  obtain ⟨steps, hsteps, h⟩ := bind_iff.1 h
  obtain ⟨_, -, h⟩ := bind_iff.1 h
  cases h
  refine ⟨?_, normal_of_rows hsteps⟩
  cases start? with
  | some start => exact inputs_of_startHeading (lift_iff.1 hheading)
  | none => exact inputs_of_metadataHeading htemplate (lift_iff.1 hheading)

theorem normal_of_load {source : TemplateSource} {id template : Value} {w : Workflow}
    (htemplate : source.template id = .ok template) (hlawful : template.isLawful = true)
    (h : load source id = .ok (some w)) : w.IsNormal := by
  obtain ⟨answer, hanswer, h⟩ := bind_iff.1 h
  cases htemplate.symm.trans (lift_iff.1 hanswer)
  split at h
  · cases h
  obtain ⟨d, hd, h⟩ := bind_iff.1 h
  obtain ⟨rows, -, h⟩ := bind_iff.1 h
  obtain ⟨_, -, h⟩ := bind_iff.1 h
  obtain ⟨x, hx, h⟩ := bind_iff.1 h
  cases h
  refine normal_of_build ?_ hx
  obtain ⟨entries, hentries, hd⟩ := bind_iff.1 (lift_iff.1 hd)
  dsimp only at hd
  split at hd
  · cases hd
    cases template <;> cases hentries
    exact (isLawful_dict.1 hlawful).2
  · obtain ⟨_, -, hd⟩ := bind_iff.1 hd
    obtain ⟨_, -, hd⟩ := bind_iff.1 hd
    cases hd

end Loader

namespace Workflow

/-- The ways in which a workflow comes about: it is read from data or from a document, or loaded from a
template. Data that a caller hands over, or a reader has found in a document, are lawful, as dictionaries
are. -/
inductive Produced (w : Workflow) : Prop where
  | read {v : Value} (hv : v.isLawful = true) (h : ofValue v = .ok w)
  | document {read : DocumentReader} {s : String} (hlawful : ∀ v, read s = .ok v → v.isLawful = true)
      (h : ofYaml read s = .ok w)
  | loaded {source : TemplateSource} {id template : Value} (htemplate : source.template id = .ok template)
      (hlawful : template.isLawful = true) (h : Loader.load source id = .ok (some w))

/-- YAML documents hold lawful data. -/
theorem produced_of_yaml {s : String} {w : Workflow} (h : ofYaml Yaml.reader s = .ok w) : w.Produced := by
  refine .document (fun v hv => ?_) h
  unfold Yaml.reader at hv
  split at hv
  · rename_i hread
    cases hv
    exact Yaml.holds_of_read buildsUp_lawful hread
  · cases hv

theorem Produced.normal {w : Workflow} (h : w.Produced) : w.IsNormal := by
  cases h with
  | read hv h => exact (normal_of_ofValue hv h).1
  | document hlawful h => exact normal_of_ofYaml hlawful h
  | loaded htemplate hlawful h => exact Loader.normal_of_load htemplate hlawful h

/-- Writing a workflow as data loses nothing: what is read back is an equal workflow. -/
theorem produced_rereads {w : Workflow} (h : w.Produced) :
    ∃ x, ofValue w.toValue = .ok x ∧ w.Agrees x :=
  ⟨_, ofValue_toValue h.normal, agrees_renamed h.normal⟩

/-- A survey: its inputs in the form of an object schema, fields in both spellings, and a switch with an
empty default among the steps of a branch. -/
def surveyData : Value :=
  .record [
    ("name", .str "survey"),
    ("inputSchema", .record [
      ("type", .str "object"),
      ("properties", .record [
        ("topic", .record [("description", .str "What to ask about")]),
        ("tries", .record [("type", .str "number"), ("default", .int 3), ("required", .bool true)])]),
      ("required", .list [.str "topic"])]),
    ("steps", .list [
      .record [("id", .str "forget"), ("type", .str "set_variable"), ("variableName", .str "answer"),
        ("value", .null)],
      .record [("name", .str "check"), ("type", .str "conditional"), ("condition", .str "tries > 0"),
        ("then", .list [
          .record [("name", .str "choose"), ("type", .str "switch"), ("switchValue", .str "topic"),
            ("cases", .dict [(.int 1, .list [.record [("name", .str "ask"), ("type", .str "agent"),
              ("instructions", .str "Ask")]])]),
            ("defaultCase", .list [])]])],
      .record [("name", .str "end"), ("type", .str "return")]])]

/-- The survey as it is read. -/
def survey : Workflow where
  name := .str "survey"
  inputs := { parameters := [
    (.str "topic", { name := .str "topic", required := true, description := .str "What to ask about" }),
    (.str "tries", { name := .str "tries", type := .str "number", required := true, default := .int 3 })] }
  steps := [
    .action (.str "forget") (.setVariable (.str "answer") (some .null)),
    .conditional (.str "check") (.str "tries > 0")
      [.switch (.str "choose") (.str "topic")
        [("1", [.action (.str "ask") (.agent [.str "Ask"] true .null)])] (some [])] [],
    .action (.str "end") (.finish none)]

theorem produced_rereads_of_survey :
    ofValue surveyData = .ok survey ∧ ∃ x, ofValue survey.toValue = .ok x ∧ survey.Agrees x := by
  have hlawful : surveyData.isLawful = true := by decide +kernel
  have hread : ofValue surveyData = .ok survey := by decide +kernel
  exact ⟨hread, produced_rereads (.read hlawful hread)⟩

end Workflow

end Stepwise
