-- SUMMARY: Admission of inputs against its specification, and the types of what has been admitted.
import Stepwise.Input.Admission
import Stepwise.Proofs.Value.Entries
import Stepwise.Workflow.Wellformed

/-!
# What admission accepts

A parameter is judged by what is given for it alone, though parameters are gone through one after
the other and each may change the dictionary: it changes the entry of its own key, and the keys
of a schema differ. So the first error is that of the first parameter that refuses what is given
for it, and where none does, every parameter has brought its own entry to its form. Defaults
are filled in as they are declared, whatever their type.
-/

namespace Stepwise

/-! ## Types -/

/-- The name of the type that a value has as an input. `null` and tuples have none; the log of a run is
a list. -/
def Value.inputType? : Value → Option String
  | .str _ => some "string"
  | .int _ | .float _ => some "number"
  | .bool _ => some "boolean"
  | .list _ | .runLog => some "array"
  | .dict _ => some "object"
  | .null | .tuple _ => none

namespace InputParameter

def HasKnownType (p : InputParameter) : Prop := ∃ name ∈ Workflow.inputTypes, p.type = .str name

def IsOfType (p : InputParameter) (v : Value) : Prop :=
  ∃ name, p.type = .str name ∧ v.inputType? = some name

/-- The parameter takes the value. Arrays take everything, and so do parameters of a type that does not
exist. -/
def Takes (p : InputParameter) (v : Value) : Prop :=
  ∀ name ∈ Workflow.inputTypes, name ≠ "array" → p.type = .str name → v.inputType? = some name

/-- The value is `null`, and none is required. -/
def Forgoes (p : InputParameter) (v : Value) : Prop := v = .null ∧ p.required = false

theorem hasType_iff {p : InputParameter} (harray : p.type ≠ .str "array") (v : Value) :
    Input.hasType p.type v = true ↔ p.Takes v := by
  obtain ⟨_, type, _, _, _⟩ := p
  -- A type with a name among the five, other than that of arrays, is looked at by name.
  have hnamed (name : String) (hname : name ∈ Workflow.inputTypes) (hne : name ≠ "array") :
      Input.hasType (.str name) v = true ↔ v.inputType? = some name := by
    simp only [Workflow.inputTypes, List.mem_cons, List.not_mem_nil, or_false] at hname
    rcases hname with rfl | rfl | rfl | rfl | rfl
    · cases v <;> simp [Input.hasType, Value.inputType?, Value.str?]
    · cases v <;> simp [Input.hasType, Value.inputType?]
    · cases v <;> simp [Input.hasType, Value.inputType?]
    · exact absurd rfl hne
    · cases v <;> simp [Input.hasType, Value.inputType?, Value.dict?]
  by_cases hknown : ∃ name ∈ Workflow.inputTypes, type = .str name
  · obtain ⟨name, hname, rfl⟩ := hknown
    have hne : name ≠ "array" := fun heq => harray (heq ▸ rfl)
    rw [hnamed name hname hne]
    constructor
    · rintro h _ - - ⟨⟩
      exact h
    · exact fun h => h name hname hne rfl
  · have hother : Input.hasType type v = true := by
      unfold Input.hasType
      split
      all_goals try exact absurd ⟨_, by decide, rfl⟩ hknown
      rfl
    exact iff_of_true hother fun name hname _ htype => absurd ⟨name, hname, htype⟩ hknown

/-! ## One parameter -/

/-- The parameter is one of arrays, and the value neither is one nor a tuple. -/
structure Wraps (p : InputParameter) (v : Value) : Prop where
  array : p.type = .str "array"
  given : ¬ p.Forgoes v
  other : v.inputType? ≠ some "array"
  tuple : ∀ items, v ≠ .tuple items

/-- The parameter refuses what is given for it, `none` if it is absent, with an error that names it. What
it would wrap it refuses only if its name cannot be written out. -/
inductive Refuses (p : InputParameter) (name : Key) : Option Value → Error → Prop
  | missing : p.required = true → Refuses p name none (.missingInput name)
  | mistyped {v : Value} : ¬ p.Forgoes v → ¬ p.Takes v →
    Refuses p name (some v) (.wrongInput name p.type.text v.typeName)
  | unnoted {v : Value} : p.Wraps v → name.isSpellable = false →
    Refuses p name (some v) (.fault unspellable)

/-- What a parameter that does not refuse what is given for it makes of it. -/
inductive Makes (p : InputParameter) (name : Key) : Option Value → Option Value → Prop
  | absent : p.required = false → p.default = .null → Makes p name none none
  | filled : p.required = false → p.default ≠ .null → Makes p name none (some p.default)
  | forgone {v : Value} : p.Forgoes v → Makes p name (some v) (some v)
  | kept {v : Value} : ¬ p.Forgoes v → p.type ≠ .str "array" → p.Takes v →
    Makes p name (some v) (some v)
  | array {v : Value} : p.type = .str "array" → v.inputType? = some "array" →
    Makes p name (some v) (some v)
  | tuple {items : List Value} : p.type = .str "array" →
    Makes p name (some (.tuple items)) (some (.list items))
  | wrapped {v : Value} : p.Wraps v → name.isSpellable = true → Makes p name (some v) (some (.list [v]))

/-- What a parameter does to the inputs: it changes what is found under its own name, and adds this
name where it fills in a default. -/
structure Changes (p : InputParameter) (name : Key) (before after : Dict) : Prop where
  own : p.Makes name (Dict.get? before name) (Dict.get? after name)
  others : ∀ key, key.same name = false → Dict.get? after key = Dict.get? before key
  keys : Dict.keys after
    = if (Dict.get? before name).isNone && !p.default.isNull then Dict.keys before ++ [name]
      else Dict.keys before

variable {p : InputParameter} {name : Key} {inputs after : Dict}

theorem forgoes_iff {v : Value} : (v.isNull && !p.required) = true ↔ p.Forgoes v := by
  simp [Forgoes, Value.isNull_iff]

/-- The parameter of an array wraps what is no sequence. -/
theorem wraps_iff {v : Value} (harray : p.type = .str "array") (hforgone : ¬ p.Forgoes v) :
    p.Wraps v ↔ Input.isWrapped v = true := by
  constructor
  · rintro ⟨-, -, hother, htuple⟩
    cases v with
    | list => exact absurd rfl hother
    | runLog => exact absurd rfl hother
    | tuple items => exact absurd rfl (htuple items)
    | _ => rfl
  · intro h
    refine ⟨harray, hforgone, fun hlist => ?_, ?_⟩
    · cases v <;> simp [Input.isWrapped, Value.inputType?] at h hlist
    · rintro items rfl
      cases h

/-- What is given for an array becomes a list, if the parameter can be named where it has to be. -/
theorem makes_asList {v : Value} (harray : p.type = .str "array") (hforgone : ¬ p.Forgoes v)
    (hname : Input.isWrapped v = true → name.isSpellable = true) :
    p.Makes name (some v) (some (Input.asList v)) := by
  cases v with
  | list items => exact .array harray rfl
  | runLog => exact .array harray rfl
  | tuple items => exact .tuple harray
  | _ => exact .wrapped ((wraps_iff harray hforgone).2 rfl) (hname rfl)

/-- Storing under a name that is there adds no name. -/
theorem changes_of_insert {v w : Value} (hget : Dict.get? inputs name = some v)
    (hmakes : p.Makes name (some v) (some w)) : p.Changes name inputs (Dict.insert inputs name w) where
  own := by
    rw [hget, Dict.get?_insert_self]
    exact hmakes
  others := fun key hkey => Dict.get?_insert_of_ne inputs w hkey
  keys := by simp [Dict.keys_insert, Dict.any_same_keys, hget]

/-- What stays as it is given changes nothing. -/
theorem changes_self (hmakes : p.Makes name (Dict.get? inputs name) (Dict.get? inputs name)) :
    p.Changes name inputs inputs where
  own := hmakes
  others := fun _ _ => rfl
  keys := by
    cases hget : Dict.get? inputs name with
    | some v => simp
    | none =>
      rw [hget] at hmakes
      obtain ⟨-, hdefault⟩ := hmakes
      simp [hdefault, Value.isNull]

/-- A parameter refuses what is given for it, or it makes of it what it should. -/
theorem acceptOne_spec (p : InputParameter) (name : Key) (inputs : Dict) :
    (∃ refusal, p.Refuses name (Dict.get? inputs name) refusal ∧
      Input.acceptOne name p inputs = .error refusal.spelled) ∨
    (∃ after, p.Changes name inputs after ∧ Input.acceptOne name p inputs = .ok after) := by
  unfold Input.acceptOne
  cases hget : Dict.get? inputs name with
  | none =>
    dsimp only
    cases hrequired : p.required with
    | true => exact .inl ⟨_, .missing hrequired, rfl⟩
    | false =>
      refine .inr ⟨_, ?_, rfl⟩
      cases hdefault : p.default.isNull with
      | true =>
        rw [if_pos rfl]
        exact changes_self (hget ▸ .absent hrequired (Value.isNull_iff.1 hdefault))
      | false =>
        rw [if_neg Bool.false_ne_true]
        refine ⟨?_, fun key hkey => Dict.get?_insert_of_ne _ _ hkey, ?_⟩
        · rw [hget, Dict.get?_insert_self]
          exact .filled hrequired fun hnull => by simp [hnull, Value.isNull] at hdefault
        · simp [Dict.keys_insert, Dict.any_same_keys, hget, hdefault]
  | some v =>
    dsimp only
    have hself (hmakes : p.Makes name (some v) (some v)) : p.Changes name inputs inputs :=
      changes_self (hget ▸ hmakes)
    by_cases hforgone : p.Forgoes v
    · rw [if_pos (forgoes_iff.2 hforgone)]
      exact .inr ⟨_, hself (.forgone hforgone), rfl⟩
    rw [if_neg (forgoes_iff.not.2 hforgone)]
    by_cases harray : p.type = .str "array"
    · rw [if_pos (by simp [harray])]
      cases hunnoted : Input.isWrapped v && !name.isSpellable with
      | true =>
        obtain ⟨hwrapped, hname⟩ := Bool.and_eq_true_iff.1 hunnoted
        have hwraps := (wraps_iff harray hforgone).2 hwrapped
        exact .inl ⟨_, .unnoted hwraps (by simpa using hname), rfl⟩
      | false =>
        have hname (hwrapped : Input.isWrapped v = true) : name.isSpellable = true := by
          simpa [hwrapped] using hunnoted
        exact .inr ⟨_, changes_of_insert hget (makes_asList harray hforgone hname), rfl⟩
    rw [if_neg (by simpa [Value.same_str_right] using harray)]
    by_cases htakes : p.Takes v
    · rw [if_pos ((hasType_iff harray v).2 htakes)]
      exact .inr ⟨_, hself (.kept hforgone harray htakes), rfl⟩
    · rw [if_neg ((hasType_iff harray v).not.2 htakes)]
      exact .inl ⟨_, .mistyped hforgone htakes, rfl⟩

/-- The message of a refusal can be written out where the name of the parameter can. -/
theorem Refuses.spelled {given : Option Value} {refusal : Error}
    (h : p.Refuses name given refusal) :
    refusal.spelled = if name.isSpellable then refusal else .fault unspellable := by
  cases h with
  | missing | mistyped => rfl
  | unnoted _ hname =>
    rw [hname]
    rfl

/-- Where a value is to be wrapped, its type is none that is refused. -/
theorem Wraps.takes {v : Value} (h : p.Wraps v) : p.Takes v :=
  fun _ _ hne htype => absurd (Value.str.inj (htype.symm.trans h.array)) hne

theorem Refuses.unique {given : Option Value} {e e' : Error} (h : p.Refuses name given e)
    (h' : p.Refuses name given e') : e = e' := by
  cases h with
  | missing =>
    cases h'
    rfl
  | mistyped _ htakes =>
    cases h' with
    | mistyped => rfl
    | unnoted hwraps => exact absurd hwraps.takes htakes
  | unnoted hwraps =>
    cases h' with
    | mistyped _ htakes => exact absurd hwraps.takes htakes
    | unnoted => rfl

/-- Nothing that a parameter brings to its form is refused by it. -/
theorem Makes.not_refuses {given made : Option Value} {refusal : Error}
    (h : p.Makes name given made) : ¬ p.Refuses name given refusal := by
  intro hrefuses
  cases hrefuses with
  | missing hrequired =>
    cases h with
    | absent hoptional => simp [hrequired] at hoptional
    | filled hoptional => simp [hrequired] at hoptional
  | mistyped hforgone htakes =>
    cases h with
    | forgone h => exact hforgone h
    | kept _ _ h => exact htakes h
    | array harray | tuple harray =>
      exact htakes fun _ _ hne htype => absurd (harray.symm.trans htype) (by simpa using hne.symm)
    | wrapped hwraps => exact htakes hwraps.takes
  | unnoted hwraps hunspellable =>
    cases h with
    | forgone h => exact hwraps.given h
    | kept _ harray => exact harray hwraps.array
    | array _ hlist => exact hwraps.other hlist
    | tuple => exact hwraps.tuple _ rfl
    | wrapped _ hname => cases hname.symm.trans hunspellable

end InputParameter

/-! ## All parameters -/

namespace Input

/-- The first of the parameters that refuses what is given for it has this name, and refuses it with
this error. -/
inductive FirstRefusal (inputs : Dict) : List (Key × InputParameter) → Key → Error → Prop
  | here {name : Key} {p : InputParameter} {rest : List (Key × InputParameter)} {refusal : Error} :
    p.Refuses name (Dict.get? inputs name) refusal →
    FirstRefusal inputs ((name, p) :: rest) name refusal
  | later {e : Key × InputParameter} {rest : List (Key × InputParameter)} {name : Key}
    {refusal : Error} : (∀ refusal, ¬ e.2.Refuses e.1 (Dict.get? inputs e.1) refusal) →
    FirstRefusal inputs rest name refusal → FirstRefusal inputs (e :: rest) name refusal

/-- What an answer to inputs has to be: the error of the first parameter that refuses what is given for
it, if there is one, and otherwise the inputs with every parameter's entry brought to its form and
all else as it was. -/
structure IsAdmission (s : InputSchema) (inputs : Dict) (answer : Except Error Dict) : Prop where
  raises : (∃ e, answer = .error e) ↔
    ∃ e ∈ s.parameters, ∃ refusal, e.2.Refuses e.1 (Dict.get? inputs e.1) refusal
  refused : ∀ e, answer = .error e ↔ ∃ name refusal, FirstRefusal inputs s.parameters name refusal ∧
    e = if name.isSpellable then refusal else .fault unspellable
  keys : ∀ accepted, answer = .ok accepted → Dict.keys accepted = Dict.keys inputs
    ++ (s.parameters.filter fun e =>
      (Dict.get? inputs e.1).isNone && !e.2.default.isNull).map (·.1)
  declared : ∀ accepted, answer = .ok accepted → ∀ e ∈ s.parameters,
    e.2.Makes e.1 (Dict.get? inputs e.1) (Dict.get? accepted e.1)
  undeclared : ∀ accepted, answer = .ok accepted → ∀ key, (∀ e ∈ s.parameters, key.same e.1 = false) →
    Dict.get? accepted key = Dict.get? inputs key

variable {parameters : List (Key × InputParameter)} {inputs inputs' : Dict} {name : Key}
  {refusal : Error}

/-- Some parameter refuses if and only if one is the first to. -/
theorem exists_firstRefusal : (∃ name refusal, FirstRefusal inputs parameters name refusal) ↔
    ∃ e ∈ parameters, ∃ refusal, e.2.Refuses e.1 (Dict.get? inputs e.1) refusal := by
  constructor
  · rintro ⟨name, refusal, h⟩
    induction h with
    | here h => exact ⟨_, List.mem_cons_self, _, h⟩
    | later _ _ ih =>
      obtain ⟨e, he, h⟩ := ih
      exact ⟨e, List.mem_cons_of_mem _ he, h⟩
  · rintro ⟨e, he, refusal, h⟩
    induction parameters with
    | nil => cases he
    | cons e' rest ih =>
      by_cases hhead : ∃ refusal, e'.2.Refuses e'.1 (Dict.get? inputs e'.1) refusal
      · obtain ⟨refusal', h'⟩ := hhead
        exact ⟨_, _, .here h'⟩
      · rcases List.mem_cons.1 he with rfl | hrest
        · exact absurd ⟨refusal, h⟩ hhead
        · obtain ⟨name, refusal, hfirst⟩ := ih hrest
          exact ⟨name, refusal, .later (not_exists.1 hhead) hfirst⟩

theorem FirstRefusal.unique {name' : Key} {refusal' : Error}
    (h : FirstRefusal inputs parameters name refusal)
    (h' : FirstRefusal inputs parameters name' refusal') : name = name' ∧ refusal = refusal' := by
  induction h with
  | here h =>
    cases h' with
    | here h' => exact ⟨rfl, h.unique h'⟩
    | later hnone _ => exact absurd h (hnone _)
  | later hnone _ ih =>
    cases h' with
    | here h' => exact absurd h' (hnone _)
    | later _ h' => exact ih h'

/-- Which parameter is the first to refuse depends on what is given for the parameters alone. -/
theorem FirstRefusal.congr (h : FirstRefusal inputs parameters name refusal)
    (hget : ∀ e ∈ parameters, Dict.get? inputs' e.1 = Dict.get? inputs e.1) :
    FirstRefusal inputs' parameters name refusal := by
  induction h with
  | here h => exact .here (hget _ List.mem_cons_self ▸ h)
  | later hnone _ ih =>
    exact .later (hget _ List.mem_cons_self ▸ hnone) (ih (List.forall_mem_cons.1 hget |>.2))

theorem accept_cons (name : Key) (p : InputParameter) (rest : List (Key × InputParameter))
    (inputs : Dict) :
    accept ⟨(name, p) :: rest⟩ inputs = (acceptOne name p inputs).bind (accept ⟨rest⟩) := by
  unfold accept
  rw [acceptAll]
  cases acceptOne name p inputs <;> rfl

/-- The parameters are gone through until one refuses what is given for it, or to the end. -/
theorem accept_cases (hkeys : Key.AllDifferent (parameters.map (·.1))) (inputs : Dict) :
    (∃ name refusal, FirstRefusal inputs parameters name refusal ∧
      accept ⟨parameters⟩ inputs
        = .error (if name.isSpellable then refusal else .fault unspellable)) ∨
    (∃ accepted, accept ⟨parameters⟩ inputs = .ok accepted ∧
      Dict.keys accepted = Dict.keys inputs ++ (parameters.filter fun e =>
        (Dict.get? inputs e.1).isNone && !e.2.default.isNull).map (·.1) ∧
      (∀ e ∈ parameters, e.2.Makes e.1 (Dict.get? inputs e.1) (Dict.get? accepted e.1)) ∧
      ∀ key, (∀ e ∈ parameters, key.same e.1 = false) →
        Dict.get? accepted key = Dict.get? inputs key) := by
  induction parameters generalizing inputs with
  | nil => exact .inr ⟨inputs, accept_empty inputs, by simp, nofun, fun _ _ => rfl⟩
  | cons e rest ih =>
    obtain ⟨name, p⟩ := e
    obtain ⟨hnew, hrest⟩ := List.pairwise_cons.1 hkeys
    rw [accept_cons]
    rcases p.acceptOne_spec name inputs with ⟨refusal, hrefuses, hone⟩ | ⟨mid, hmid, hone⟩
    · refine .inl ⟨name, refusal, .here hrefuses, ?_⟩
      rw [hone, hrefuses.spelled]
      rfl
    -- The first parameter has changed nothing that the others look at.
    have hget (e) (he : e ∈ rest) : Dict.get? mid e.1 = Dict.get? inputs e.1 :=
      hmid.others _ (by rw [Key.same_comm]; exact hnew _ (List.mem_map_of_mem he))
    rw [hone]
    rcases ih hrest mid with ⟨name', refusal, hfirst, hall⟩ |
      ⟨accepted, hall, hkeys', hdeclared, hundeclared⟩
    · refine .inl ⟨name', refusal, .later (fun _ => hmid.own.not_refuses) ?_, hall⟩
      exact hfirst.congr fun e he => (hget e he).symm
    · refine .inr ⟨accepted, hall, ?_, ?_, ?_⟩
      · have hfilter : (rest.filter fun e => (Dict.get? mid e.1).isNone && !e.2.default.isNull)
            = rest.filter fun e => (Dict.get? inputs e.1).isNone && !e.2.default.isNull :=
          List.filter_congr fun e he => by rw [hget e he]
        rw [hkeys', hfilter, hmid.keys, List.filter_cons]
        split <;> simp
      · rintro e (_ | ⟨_, he⟩)
        · rw [hundeclared name fun e he => hnew _ (List.mem_map_of_mem he)]
          exact hmid.own
        · exact hget e he ▸ hdeclared e he
      · intro key hkey
        rw [hundeclared key (List.forall_mem_cons.1 hkey |>.2),
          hmid.others key (hkey _ List.mem_cons_self)]

/-- The error of the first parameter that refuses is the answer, and the only one. -/
theorem FirstRefusal.isAdmission {s : InputSchema}
    (h : FirstRefusal inputs s.parameters name refusal) :
    IsAdmission s inputs (.error (if name.isSpellable then refusal else .fault unspellable)) where
  raises := iff_of_true ⟨_, rfl⟩ (exists_firstRefusal.1 ⟨name, refusal, h⟩)
  refused := fun e => by
    constructor
    · rintro ⟨⟩
      exact ⟨name, refusal, h, rfl⟩
    · rintro ⟨name', refusal', h', rfl⟩
      obtain ⟨rfl, rfl⟩ := h.unique h'
      rfl
  keys := nofun
  declared := nofun
  undeclared := nofun

/-- Admission is what it has to be, whatever the schema and the inputs. -/
theorem accept_isAdmission (s : InputSchema) (inputs : Dict) (hkeys : Key.AllDifferent s.keys) :
    IsAdmission s inputs (accept s inputs) := by
  rcases accept_cases hkeys inputs with ⟨name, refusal, hfirst, hall⟩ |
    ⟨accepted, hall, hnames, hdeclared, hundeclared⟩
  · rw [show accept s inputs = _ from hall]
    exact hfirst.isAdmission
  · rw [show accept s inputs = .ok accepted from hall]
    have hnone (e) (he : e ∈ s.parameters) (refusal : Error) :
        ¬ e.2.Refuses e.1 (Dict.get? inputs e.1) refusal := (hdeclared e he).not_refuses
    refine ⟨iff_of_false nofun ?_, fun e => iff_of_false nofun ?_, ?_, ?_, ?_⟩
    · rintro ⟨e, he, refusal, hrefuses⟩
      exact hnone e he refusal hrefuses
    · rintro ⟨name, refusal, hfirst, -⟩
      obtain ⟨e, he, refusal, hrefuses⟩ := exists_firstRefusal.1 ⟨name, refusal, hfirst⟩
      exact hnone e he refusal hrefuses
    all_goals rintro _ ⟨⟩
    · exact hnames
    · exact hdeclared
    · exact hundeclared

/-- A schema with a parameter of every way in which inputs reach the result. -/
def survey : InputSchema where
  parameters := [
    (.str "tags", { name := .str "tags", type := .str "array", required := true }),
    (.str "colour", { name := .str "colour", type := .str "array" }),
    (.str "count", { name := .str "count", type := .str "number", default := .int 3 }),
    (.str "note", { name := .str "note" }),
    (.str "agreed", { name := .str "agreed", type := .str "boolean", required := true })]

theorem accept_isAdmission_of_survey :
    let inputs : Dict := [(.str "tags", .tuple [.int 1]), (.str "colour", .str "red"),
      (.str "note", .null), (.str "agreed", .bool true), (.str "other", .int 7)]
    Key.AllDifferent survey.keys ∧ IsAdmission survey inputs (.ok [
      (.str "tags", .list [.int 1]), (.str "colour", .list [.str "red"]), (.str "note", .null),
      (.str "agreed", .bool true), (.str "other", .int 7), (.str "count", .int 3)]) :=
  ⟨by decide, accept_isAdmission survey _ (by decide)⟩

/-- A schema that requires an input whose name is too long an integer to be written out. -/
def unspellableInput : InputSchema where
  parameters := [(.int unspellableBound, { name := .int unspellableBound, required := true })]

/-- The error does not name the parameter where its name cannot be written out. -/
theorem not_names_unspellable : ¬ ∀ (s : InputSchema) (inputs : Dict), Key.AllDifferent s.keys →
    ∀ name refusal, FirstRefusal inputs s.parameters name refusal →
      accept s inputs = .error refusal := by
  intro h
  have hnamed := h unspellableInput [] (List.pairwise_singleton _ _) _ _ (.here (.missing rfl))
  have hraised : accept unspellableInput [] = .error (.fault unspellable) := by decide +kernel
  cases hraised.symm.trans hnamed

end Input

/-! ## Types of what has been accepted -/

namespace InputParameter

def Keeps (p : InputParameter) : Option Value → Prop
  | none => p.required = false ∧ p.default = .null
  | some v => p.Forgoes v ∨ p.IsOfType v

variable {p : InputParameter} {name : Key} {inputs : Dict} {v w : Value}

theorem IsOfType.takes (h : p.IsOfType v) : p.Takes v := by
  obtain ⟨name, htype, hv⟩ := h
  rintro name' - - htype'
  cases htype.symm.trans htype'
  exact hv

theorem IsOfType.asList (harray : p.type = .str "array") (h : p.IsOfType v) :
    Input.asList v = v := by
  obtain ⟨name, htype, hv⟩ := h
  cases htype.symm.trans harray
  cases v with
  | list => rfl
  | runLog => rfl
  | _ => simp [Value.inputType?] at hv

theorem IsOfType.not_wrapped (harray : p.type = .str "array") (h : p.IsOfType v) :
    Input.isWrapped v = false := by
  obtain ⟨name, htype, hv⟩ := h
  cases htype.symm.trans harray
  cases v with
  | list => rfl
  | runLog => rfl
  | _ => simp [Value.inputType?] at hv

/-- A parameter of one of the five types, other than arrays, takes the values of its type only. -/
theorem Takes.isOfType (hknown : p.HasKnownType) (harray : p.type ≠ .str "array")
    (h : p.Takes v) : p.IsOfType v := by
  obtain ⟨name, hname, htype⟩ := hknown
  exact ⟨name, htype, h name hname (fun heq => harray (heq ▸ htype)) htype⟩

/-- What a parameter has made of a value or of none it leaves as it is, if a default that it has filled
in has its type. -/
theorem Makes.keeps {given made : Option Value} (hknown : p.HasKnownType)
    (h : p.Makes name given made)
    (hdefault : given = none → p.default ≠ .null → p.IsOfType p.default) : p.Keeps made := by
  cases h with
  | absent hoptional hnull => exact ⟨hoptional, hnull⟩
  | filled _ hfilled => exact .inr (hdefault rfl hfilled)
  | forgone hforgone => exact .inl hforgone
  | kept _ harray htakes => exact .inr (htakes.isOfType hknown harray)
  | array harray hv => exact .inr ⟨_, harray, hv⟩
  | tuple harray => exact .inr ⟨_, harray, rfl⟩
  | wrapped hwraps => exact .inr ⟨_, hwraps.array, rfl⟩

theorem Makes.eq_default {made : Option Value} (h : p.Makes name none made)
    (hdefault : p.default ≠ .null) : made = some p.default := by
  cases h with
  | absent _ hnull => exact absurd hnull hdefault
  | filled => rfl

theorem Makes.of_absent (h : p.Makes name none (some v)) : v = p.default := by
  cases h
  rfl

theorem acceptOne_of_keeps (h : p.Keeps (Dict.get? inputs name)) :
    Input.acceptOne name p inputs = .ok inputs := by
  unfold Input.acceptOne
  cases hget : Dict.get? inputs name with
  | none =>
    rw [hget] at h
    simp [h.1, h.2, Value.isNull]
  | some v =>
    rw [hget] at h
    dsimp only
    by_cases hforgone : p.Forgoes v
    · rw [if_pos (forgoes_iff.2 hforgone)]
    have htype : p.IsOfType v := h.resolve_left hforgone
    rw [if_neg (forgoes_iff.not.2 hforgone)]
    by_cases harray : p.type = .str "array"
    · rw [if_pos (by simp [harray]), htype.not_wrapped harray, htype.asList harray,
        Dict.insert_of_get? hget]
      rfl
    · rw [if_neg (by simpa [Value.same_str_right] using harray),
        if_pos ((hasType_iff harray v).2 htype.takes)]

end InputParameter

namespace Input

/-- What every parameter keeps is accepted as it is. -/
theorem accept_of_keeps {parameters : List (Key × InputParameter)} {inputs : Dict}
    (h : ∀ e ∈ parameters, e.2.Keeps (Dict.get? inputs e.1)) :
    accept ⟨parameters⟩ inputs = .ok inputs := by
  induction parameters with
  | nil => exact accept_empty inputs
  | cons e rest ih =>
    obtain ⟨hhead, hrest⟩ := List.forall_mem_cons.1 h
    rw [accept_cons, InputParameter.acceptOne_of_keeps hhead]
    exact ih hrest

/-- What has been accepted has the declared types, apart from the defaults that were filled in, and
accepting it again changes nothing if and only if they have them too. -/
theorem accept_typed (s : InputSchema) (inputs accepted : Dict) (hkeys : Key.AllDifferent s.keys)
    (htypes : ∀ e ∈ s.parameters, e.2.HasKnownType) (h : accept s inputs = .ok accepted) :
    (∀ e ∈ s.parameters, ∀ v, Dict.get? accepted e.1 = some v → e.2.Forgoes v ∨ e.2.IsOfType v ∨
      (Dict.get? inputs e.1 = none ∧ v = e.2.default)) ∧
    (accept s accepted = .ok accepted ↔ ∀ e ∈ s.parameters, Dict.get? inputs e.1 = none →
      e.2.default ≠ .null → e.2.IsOfType e.2.default) := by
  have hmakes := (accept_isAdmission s inputs hkeys).declared accepted h
  refine ⟨fun e he v hv => ?_, fun hagain e he hget hdefault => ?_, fun hdefaults => ?_⟩
  · have hmade := hmakes e he
    rw [hv] at hmade
    cases hget : Dict.get? inputs e.1 with
    | none =>
      rw [hget] at hmade
      exact .inr (.inr ⟨rfl, hmade.of_absent⟩)
    | some w =>
      rw [hget] at hmade
      exact (hmade.keeps (htypes e he) nofun).imp_right .inl
  · -- The default has been filled in, and the second time it stands as given.
    have hfilled : Dict.get? accepted e.1 = some e.2.default :=
      (hget ▸ hmakes e he).eq_default hdefault
    have hmade := (accept_isAdmission s accepted hkeys).declared accepted hagain e he
    rw [hfilled] at hmade
    exact (hmade.keeps (htypes e he) nofun).resolve_left fun hforgone => hdefault hforgone.1
  · exact accept_of_keeps fun e he => (hmakes e he).keeps (htypes e he) (hdefaults e he)

theorem accept_typed_of_survey :
    let inputs : Dict := [(.str "tags", .int 1), (.str "agreed", .bool false)]
    let accepted : Dict := [(.str "tags", .list [.int 1]), (.str "agreed", .bool false),
      (.str "count", .int 3)]
    Key.AllDifferent survey.keys ∧ (∀ e ∈ survey.parameters, e.2.HasKnownType) ∧
      accept survey inputs = .ok accepted ∧ accept survey accepted = .ok accepted := by
  intro inputs accepted
  have htypes : ∀ e ∈ survey.parameters, e.2.HasKnownType := by
    simp [survey, InputParameter.HasKnownType, Workflow.inputTypes]
  have haccepted : accept survey inputs = .ok accepted := by decide
  refine ⟨by decide, htypes, haccepted, ?_⟩
  refine (accept_typed survey inputs accepted (by decide) htypes haccepted).2.2 ?_
  simp [survey, InputParameter.IsOfType, Value.inputType?]

def textForNumber : InputSchema where
  parameters := [(.str "x", { name := .str "x", type := .str "number", default := .str "abc" })]

/-- A default is filled in whatever its type, and refused when it is accepted again. -/
theorem not_typed_of_default : ¬ ∀ (s : InputSchema) (inputs accepted : Dict),
    Key.AllDifferent s.keys → (∀ e ∈ s.parameters, e.2.HasKnownType) →
    accept s inputs = .ok accepted →
    (∀ e ∈ s.parameters, ∀ v, Dict.get? accepted e.1 = some v → e.2.Forgoes v ∨ e.2.IsOfType v) ∧
      accept s accepted = .ok accepted := by
  intro h
  have htypes : ∀ e ∈ textForNumber.parameters, e.2.HasKnownType := by
    simp [textForNumber, InputParameter.HasKnownType, Workflow.inputTypes]
  have hagain := (h textForNumber [] [(.str "x", .str "abc")] (by decide) htypes (by decide)).2
  revert hagain
  decide

end Input

end Stepwise
