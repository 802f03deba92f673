-- SUMMARY: The three ways of writing a schema declare the same inputs, unless one of them is named `properties`.
import Stepwise.Proofs.Workflow.Rereading

/-!
# Ways of writing a schema

Declared inputs are written as a list of rows that carry their names, as a mapping from names to
declarations, or as an object schema, which lists the required names apart from the
declarations. All three are read as the same schema. A mapping is told from an object schema by
its keys alone, though. One with an input named `properties` is taken for an object schema, and
then the fields of that input for declarations, of which its type is none.
-/

namespace Stepwise

open Checks Value

/-! ## Declarations -/

/-- An input as it is declared: its name, and the fields of its declaration in any order. Its type is a
text and its required flag a truth value; it may have a default, a description and other fields. -/
structure InputDeclaration where
  name : String
  fields : Dict
  type : String
  required : Bool
  name_ne : name ≠ ""
  type_ne : type ≠ ""
  type_eq : fields.field? "type" = some (.str type)
  required_eq : fields.field? "required" = some (.bool required)

namespace InputDeclaration

def parameter (d : InputDeclaration) : InputParameter where
  name := .str d.name
  type := .str d.type
  required := d.required
  default := d.fields.field "default"
  description := (d.fields.field? "description").getD (.str "")

def row (d : InputDeclaration) : Value := .dict (d.fields.insert (.str "name") (.str d.name))

/-- The declaration as a property, without the required flag. -/
def property (d : InputDeclaration) : Value := .dict (d.fields.erase (.str "required"))

def rows (ds : List InputDeclaration) : Value := .list (ds.map row)

def mapping (ds : List InputDeclaration) : Value :=
  .dict (ds.map fun d => (.str d.name, .dict d.fields))

def objectSchema (ds : List InputDeclaration) : Value :=
  .record [("type", .str "object"),
    ("properties", .dict (ds.map fun d => (.str d.name, d.property))),
    ("required", .list ((ds.filter (·.required)).map fun d => .str d.name))]

def schema (ds : List InputDeclaration) : InputSchema where
  parameters := ds.map fun d => (.str d.name, d.parameter)

variable {d : InputDeclaration} {ds : List InputDeclaration}

/-- Whatever has the fields of the declaration describes its parameter. -/
theorem ofDict_eq {e : Dict} (htype : e.field? "type" = d.fields.field? "type")
    (hrequired : (e.field "required").truthy = d.required)
    (hdefault : e.field? "default" = d.fields.field? "default")
    (hdescription : e.field? "description" = d.fields.field? "description") :
    InputParameter.ofDict (.str d.name) e = d.parameter := by
  rw [InputParameter.ofDict, parameter, htype, d.type_eq, hrequired, Dict.field, Dict.field, hdefault,
    hdescription, Option.getD_some]

/-! ## Rows -/

/-- A row is read as the parameter under its name. -/
theorem storeRows_cons (parameters : List (Key × InputParameter)) (d : InputDeclaration)
    (rows : List Value) :
    InputSchema.storeRows parameters (d.row :: rows)
      = InputSchema.storeRows (InputSchema.store (.str d.name) d.parameter parameters) rows := by
  have hfield (name : String) (hname : name ≠ "name") :
      Dict.field? (d.fields.insert (.str "name") (.str d.name)) name = d.fields.field? name := by
    rw [Dict.field?_insert, if_neg hname]
  have hname : Dict.field (d.fields.insert (.str "name") (.str d.name)) "name" = .str d.name := by
    rw [Dict.field, Dict.field?_insert, if_pos rfl, Option.getD_some]
  have htype : Dict.field (d.fields.insert (.str "name") (.str d.name)) "type" = .str d.type := by
    rw [Dict.field, hfield "type" (by decide), d.type_eq, Option.getD_some]
  have hparameter : InputParameter.ofDict (.str d.name) (d.fields.insert (.str "name") (.str d.name))
      = d.parameter := by
    refine ofDict_eq (hfield _ (by decide)) ?_ (hfield _ (by decide)) (hfield _ (by decide))
    rw [Dict.field, hfield "required" (by decide), d.required_eq]
    rfl
  have htruthy : (Value.str d.name).truthy = true ∧ (Value.str d.type).truthy = true := by
    simp [truthy, d.name_ne, d.type_ne]
  have hkey : (Value.str d.name).toKey = .ok (.str d.name) := rfl
  rw [InputSchema.storeRows, row, toRecord, ok_bind, hname, htype, htruthy.1, htruthy.2, hkey, ok_bind,
    hparameter]
  rfl

/-- A parameter under a new name goes to the end. -/
theorem store_of_new {key : Key} {p : InputParameter} {parameters : List (Key × InputParameter)}
    (h : ∀ e ∈ parameters, key.same e.1 = false) :
    InputSchema.store key p parameters = parameters ++ [(key, p)] := by
  induction parameters with
  | nil => rfl
  | cons e rest ih =>
    obtain ⟨hfirst, hrest⟩ := List.forall_mem_cons.1 h
    rw [InputSchema.store, hfirst, if_neg Bool.false_ne_true, ih hrest, List.cons_append]

theorem ofRows_rows (h : (ds.map (·.name)).Nodup) : InputSchema.ofRows (rows ds) = .ok (schema ds) := by
  suffices hstored : ∀ before : List InputDeclaration, ((before ++ ds).map (·.name)).Nodup →
      InputSchema.storeRows (schema before).parameters (ds.map row)
        = .ok (schema (before ++ ds)).parameters by
    have hrows := hstored [] h
    rw [InputSchema.ofRows, rows, items, ok_bind]
    rw [schema, List.map_nil] at hrows
    rw [hrows]
    rfl
  clear h
  induction ds with
  | nil =>
    intro before _
    rw [List.append_nil]
    rfl
  | cons d ds ih =>
    intro before hnames
    have hnew : ∀ e ∈ (schema before).parameters, (Key.str d.name).same e.1 = false := by
      intro e he
      obtain ⟨d', hd', rfl⟩ := List.mem_map.1 he
      rw [List.map_append, List.nodup_append] at hnames
      have hne := hnames.2.2 d'.name (List.mem_map_of_mem hd') d.name (List.mem_map_of_mem (.head _))
      simpa using hne.symm
    have happend : schema (before ++ [d])
        = { parameters := (schema before).parameters ++ [(.str d.name, d.parameter)] } := by
      rw [schema, List.map_append]
      rfl
    have hcons : before ++ d :: ds = before ++ [d] ++ ds := by simp
    rw [hcons] at hnames ⊢
    rw [List.map_cons, storeRows_cons, store_of_new hnew, ← ih _ hnames, happend]

/-! ## Object schemas -/

theorem keys_schema (h : (ds.map (·.name)).Nodup) : Key.AllDifferent (schema ds).keys := by
  rw [Key.AllDifferent, InputSchema.keys, schema, List.map_map, List.pairwise_map]
  refine (List.pairwise_map.1 h).imp ?_
  intro d d' hne
  simpa using hne

theorem required_schema (ds : List InputDeclaration) :
    (schema ds).required = (ds.filter (·.required)).map fun d => .str d.name := by
  rw [InputSchema.required, schema, List.filter_map, List.map_map]
  rfl

/-- A property is read as the parameter of its declaration, which is required if its name is listed. -/
theorem propertyParameter_property {required : List Key}
    (h : required.any (Key.str d.name).same = d.required) :
    InputSchema.propertyParameter required (.str d.name) d.property = .ok d.parameter := by
  have hflag : Dict.field? (d.fields.erase (.str "required")) "required" = none := by
    rw [Dict.field?_erase, if_pos rfl]
  have hfield (flag : Value) (name : String) (hname : name ≠ "required") :
      Dict.field? (Dict.insert (d.fields.erase (.str "required")) (.str "required") flag) name
        = d.fields.field? name := by
    rw [Dict.field?_insert, if_neg hname, Dict.field?_erase, if_neg hname]
  have hparameter (flag : Value) (htruthy : flag.truthy = d.required) :
      InputParameter.ofDict (.str d.name)
        (Dict.insert (d.fields.erase (.str "required")) (.str "required") flag) = d.parameter := by
    refine ofDict_eq (hfield flag _ (by decide)) ?_ (hfield flag _ (by decide)) (hfield flag _ (by decide))
    rw [Dict.field, Dict.field?_insert, if_pos rfl, Option.getD_some, htruthy]
  rw [InputSchema.propertyParameter, property, dictIfAny_dict, ok_bind, h, hflag]
  cases hrequired : d.required with
  | true => exact congrArg Except.ok (hparameter _ hrequired.symm)
  | false => exact congrArg Except.ok (hparameter _ hrequired.symm)

theorem ofValue_objectSchema (h : (ds.map (·.name)).Nodup) :
    InputSchema.ofValue (objectSchema ds) = .ok (schema ds) := by
  have hobject : InputSchema.isObjectSchema (objectSchema ds) = .ok true := by
    simp [InputSchema.isObjectSchema, objectSchema, record, holds, holdsKey, Dict.contains, Dict.ofFields,
      ok_bind, pure, Except.pure]
  have hproperties : (ds.map fun d => (Key.str d.name, d.property)).mapM
      (fun e => do return (e.1, ← InputSchema.propertyParameter (schema ds).required e.1 e.2))
        = .ok (schema ds).parameters := by
    rw [mapM_iff, schema, List.map_map, List.map_map]
    refine List.map_congr_left fun d hd => ?_
    have hlisted := InputSchema.required_any (keys_schema h) (List.mem_map_of_mem hd)
    have hproperty := propertyParameter_property hlisted
    simp only [Function.comp_apply]
    rw [schema] at hproperty
    rw [hproperty]
    rfl
  have hlist : Value.list ((ds.filter (·.required)).map fun d => .str d.name)
      = .list ((schema ds).required.map Key.toValue) := by
    rw [required_schema, List.map_map]
    rfl
  have hread : InputSchema.ofValue (objectSchema ds)
      = InputSchema.ofObjectSchema (Dict.ofFields [("type", .str "object"),
          ("properties", .dict (ds.map fun d => (.str d.name, d.property))),
          ("required", .list ((schema ds).required.map Key.toValue))]) := by
    have htruthy : (objectSchema ds).truthy = true := rfl
    rw [InputSchema.ofValue, htruthy, hobject, ok_bind, objectSchema, hlist]
    rfl
  have hfields : Dict.field (Dict.ofFields [("type", .str "object"),
      ("properties", .dict (ds.map fun d => (.str d.name, d.property))),
      ("required", .list ((schema ds).required.map Key.toValue))]) "properties"
        = .dict (ds.map fun d => (.str d.name, d.property)) := by
    simp [Dict.field]
  have hnames : Dict.field (Dict.ofFields [("type", .str "object"),
      ("properties", .dict (ds.map fun d => (.str d.name, d.property))),
      ("required", .list ((schema ds).required.map Key.toValue))]) "required"
        = .list ((schema ds).required.map Key.toValue) := by
    simp [Dict.field]
  rw [hread, InputSchema.ofObjectSchema_eq, hnames, hfields, InputSchema.toKeySetIfAny_list, ok_bind,
    InputSchema.toRecordIfAny_dict, ok_bind, hproperties, ok_bind]

/-! ## Mappings -/

theorem fields_ne_nil (d : InputDeclaration) : d.fields ≠ [] := by
  intro hnil
  have htype := d.type_eq
  rw [hnil] at htype
  cases htype

theorem mappedParameter_fields (d : InputDeclaration) :
    InputSchema.mappedParameter (.str d.name) (.dict d.fields) = .ok d.parameter := by
  have htruthy : (Value.dict d.fields).truthy = true := by
    simp [truthy, d.fields_ne_nil]
  have hparameter : InputParameter.ofDict (.str d.name) d.fields = d.parameter := by
    refine ofDict_eq rfl ?_ rfl rfl
    rw [Dict.field, d.required_eq]
    rfl
  rw [InputSchema.mappedParameter, htruthy]
  exact congrArg Except.ok hparameter

/-- What a mapping holds under a name is the declaration of an input of this name. -/
theorem field?_mapping (ds : List InputDeclaration) (name : String) :
    Dict.field? (ds.map fun d => (.str d.name, .dict d.fields)) name
      = (ds.find? fun d => name = d.name).map fun d => .dict d.fields := by
  induction ds with
  | nil => rfl
  | cons d ds ih =>
    rw [Dict.field?] at ih ⊢
    rw [List.map_cons, Dict.get?_cons, Key.same_str, List.find?_cons]
    by_cases hname : name = d.name
    · simp [hname]
    · simp [hname, ih]

/-- A mapping is taken for an object schema if one of its inputs is named `properties`. -/
theorem isObjectSchema_mapping (ds : List InputDeclaration) :
    InputSchema.isObjectSchema (mapping ds) = .ok (decide ("properties" ∈ ds.map (·.name))) := by
  have hholds : (mapping ds).holds "properties" = .ok (decide ("properties" ∈ ds.map (·.name))) := by
    rw [mapping, holds, holdsKey, Dict.contains_eq_isSome, ← Dict.field?, field?_mapping,
      Option.isSome_map]
    refine congrArg Except.ok (Bool.eq_iff_iff.2 ?_)
    rw [List.find?_isSome, decide_eq_true_iff, List.mem_map]
    exact exists_congr fun d => and_congr_right fun _ => by rw [decide_eq_true_iff, eq_comm]
  have htype : (Dict.field (ds.map fun d => (Key.str d.name, Value.dict d.fields)) "type").same
      (.str "object") = false := by
    rw [Dict.field, field?_mapping]
    cases ds.find? fun d => "type" = d.name <;> rfl
  rw [InputSchema.isObjectSchema, hholds, ok_bind]
  by_cases hname : "properties" ∈ ds.map (·.name)
  · rw [decide_eq_true hname]
    rfl
  · rw [decide_eq_false hname, mapping, toRecord]
    exact congrArg Except.ok htype

/-- A text that is not empty is no dictionary. -/
theorem toDict_text {s : String} (hs : s ≠ "") : ∃ f, (Value.str s).toDict = .error f := by
  obtain ⟨c, cs, hcs⟩ := List.exists_cons_of_ne_nil (mt String.toList_eq_nil_iff.1 hs)
  have hitem : ∃ f, (Value.str (String.singleton c)).toEntry 0 = .error f := by
    rw [toEntry, items, String.toList_singleton]
    exact ⟨_, rfl⟩
  obtain ⟨f, hf⟩ := hitem
  have hitems : (Value.str s).items = .ok (.str (String.singleton c) ::
      cs.map fun c => .str (String.singleton c)) := by
    rw [items, hcs, List.map_cons]
  refine ⟨f, ?_⟩
  simp only [toDict, hitems, ok_bind, toEntries, hf]
  rfl

/-- The fields of a declaration are no properties. -/
theorem mapM_fields (d : InputDeclaration) (required : List Key) :
    ∃ f, d.fields.mapM (fun e => do return (e.1, ← InputSchema.propertyParameter required e.1 e.2))
      = .error f := by
  obtain ⟨k, hmem⟩ : ∃ k, (k, Value.str d.type) ∈ d.fields :=
    Dict.forall_get? (fun v => ∃ k, (k, v) ∈ d.fields) (fun e he => ⟨e.1, he⟩) d.type_eq
  obtain ⟨f, hf⟩ := toDict_text d.type_ne
  have htype : InputSchema.propertyParameter required k (.str d.type) = .error f := by
    have htruthy : (Value.str d.type).truthy = true := by simp [truthy, d.type_ne]
    rw [InputSchema.propertyParameter, dictIfAny, htruthy, if_pos rfl, hf]
    rfl
  cases hall : d.fields.mapM
      (fun e => do return (e.1, ← InputSchema.propertyParameter required e.1 e.2)) with
  | error f => exact ⟨f, rfl⟩
  | ok parameters =>
    rw [mapM_iff] at hall
    have hitem := List.mem_map_of_mem
      (f := fun e => do return (e.1, ← InputSchema.propertyParameter required e.1 e.2)) hmem
    rw [hall] at hitem
    obtain ⟨_, -, hok⟩ := List.mem_map.1 hitem
    simp [htype] at hok

theorem ofValue_mapping (h : "properties" ∉ ds.map (·.name)) :
    InputSchema.ofValue (mapping ds) = .ok (schema ds) := by
  have hparameters : (ds.map fun d => (Key.str d.name, Value.dict d.fields)).mapM
      (fun e => do return (e.1, ← InputSchema.mappedParameter e.1 e.2)) = .ok (schema ds).parameters := by
    rw [mapM_iff, schema, List.map_map, List.map_map]
    refine List.map_congr_left fun d _ => ?_
    simp only [Function.comp_apply, mappedParameter_fields]
    rfl
  cases ds with
  | nil => rfl
  | cons d ds =>
    have htruthy : (mapping (d :: ds)).truthy = true := rfl
    rw [InputSchema.ofValue, htruthy, isObjectSchema_mapping, decide_eq_false h, ok_bind, mapping]
    simp only [Bool.not_true, Bool.false_eq_true, if_false, toRecord, ok_bind, InputSchema.ofMapping]
    rw [hparameters]
    rfl

/-- A mapping with an input named `properties` is refused. -/
theorem ofValue_mapping_of_mem (h : "properties" ∈ ds.map (·.name)) :
    ∃ f, InputSchema.ofValue (mapping ds) = .error f := by
  obtain ⟨d, hd, hname⟩ := List.mem_map.1 h
  obtain ⟨d', hfound⟩ : ∃ d', ds.find? (fun d => "properties" = d.name) = some d' := by
    refine Option.isSome_iff_exists.1 (List.find?_isSome.2 ⟨d, hd, ?_⟩)
    simp [hname]
  have hproperties : Dict.field (ds.map fun d => (Key.str d.name, Value.dict d.fields)) "properties"
      = .dict d'.fields := by
    rw [Dict.field, field?_mapping, hfound]
    rfl
  have htruthy : (mapping ds).truthy = true := by
    cases ds with
    | nil => cases hd
    | cons => rfl
  have hread : InputSchema.ofValue (mapping ds)
      = InputSchema.ofObjectSchema (ds.map fun d => (.str d.name, .dict d.fields)) := by
    rw [InputSchema.ofValue, htruthy, isObjectSchema_mapping, decide_eq_true h, ok_bind]
    rfl
  rw [hread]
  cases hresult : InputSchema.ofObjectSchema (ds.map fun d => (.str d.name, .dict d.fields)) with
  | error f => exact ⟨f, rfl⟩
  | ok s =>
    rw [InputSchema.ofObjectSchema_eq] at hresult
    obtain ⟨required, -, hresult⟩ := bind_iff.1 hresult
    obtain ⟨f, hf⟩ := mapM_fields d' required
    rw [hproperties, InputSchema.toRecordIfAny_dict, ok_bind, hf] at hresult
    cases hresult

/-! ## Agreement -/

/-- Declarations under different names are read as the same schema from rows, from an object schema and
from a mapping; but a mapping with an input named `properties` is refused. -/
theorem writings_agree (ds : List InputDeclaration) (h : (ds.map (·.name)).Nodup) :
    InputSchema.ofRows (rows ds) = .ok (schema ds) ∧
      InputSchema.ofValue (objectSchema ds) = .ok (schema ds) ∧
      ("properties" ∉ ds.map (·.name) → InputSchema.ofValue (mapping ds) = .ok (schema ds)) ∧
      ("properties" ∈ ds.map (·.name) → ∃ f, InputSchema.ofValue (mapping ds) = .error f) :=
  ⟨ofRows_rows h, ofValue_objectSchema h, ofValue_mapping, ofValue_mapping_of_mem⟩

/-- Inputs that are named like the fields of a schema. -/
def awkward : List InputDeclaration :=
  [{ name := "type", type := "object", required := false
     fields := Dict.ofFields [("default", .dict []), ("type", .str "object"), ("required", .bool false)]
     name_ne := by decide, type_ne := by decide, type_eq := rfl, required_eq := rfl },
   { name := "required", type := "array", required := true
     fields := Dict.ofFields [("type", .str "array"), ("required", .bool true)]
     name_ne := by decide, type_ne := by decide, type_eq := rfl, required_eq := rfl }]

theorem writings_agree_of_awkward :
    (awkward.map (·.name)).Nodup ∧ "properties" ∉ awkward.map (·.name) ∧
      InputSchema.ofRows (rows awkward) = .ok (schema awkward) ∧
      InputSchema.ofValue (objectSchema awkward) = .ok (schema awkward) ∧
      InputSchema.ofValue (mapping awkward) = .ok (schema awkward) := by
  have hnodup : (awkward.map (·.name)).Nodup := by decide
  have hname : "properties" ∉ awkward.map (·.name) := by decide
  obtain ⟨hrows, hobject, hmapping, -⟩ := writings_agree awkward hnodup
  exact ⟨hnodup, hname, hrows, hobject, hmapping hname⟩

/-- A single input, with the name that a mapping is looked through for. -/
def ofProperties : InputDeclaration where
  name := "properties"
  type := "string"
  required := true
  fields := Dict.ofFields [("type", .str "string"), ("required", .bool true)]
  name_ne := by decide
  type_ne := by decide
  type_eq := rfl
  required_eq := rfl

/-- Not all declarations are read alike from the three ways of writing them. -/
theorem not_agree_of_properties :
    ¬ ∀ ds : List InputDeclaration, (ds.map (·.name)).Nodup → ∃ s,
      InputSchema.ofRows (rows ds) = .ok s ∧ InputSchema.ofValue (mapping ds) = .ok s ∧
        InputSchema.ofValue (objectSchema ds) = .ok s := by
  intro h
  obtain ⟨s, -, hmapping, -⟩ := h [ofProperties] (by decide)
  have hnamed : "properties" ∈ [ofProperties].map (·.name) := .head _
  obtain ⟨f, hf⟩ := ofValue_mapping_of_mem hnamed
  rw [hf] at hmapping
  cases hmapping

end InputDeclaration

end Stepwise
