-- SUMMARY: Steps that have been read from data, written as data and read again, are the same steps.
import Mathlib.Control.Monad.Basic
import Stepwise.Proofs.Step.Read

/-!
# Reading steps again

A step that has been read from data is in normal form: where a field may be left out it holds
what stands for it, and the cases of a switch have different labels. A step in normal form is
written in one way and read back as it is, with every step nested in it.
-/

namespace Stepwise

open Checks

/-! ## Actions -/

namespace Action

/-- The fields that may be left out hold what stands for them. -/
def IsNormal : Action → Prop
  | .callTool _ parameters _ => parameters.orElse (.dict []) = parameters
  | .callFunction _ parameters _ => parameters.orElse (.dict []) = parameters
  | .createObject _ properties _ _ => ActionKind.readProperties properties = .ok properties
  | _ => True

def stepFields (name : Value) (act : Action) : Dict :=
  Dict.ofFields ([("name", name), ("type", .str act.kind.name)] ++ act.fields)

end Action

namespace ActionKind

theorem readProperties_normal {v w : Value} (h : readProperties v = .ok w) :
    readProperties w = .ok w := by
  have hother {v : Value} (hv : ∀ vs, v ≠ .list vs) : readProperties v = .ok (v.orElse (.dict [])) := by
    cases v with
    | list vs => exact absurd rfl (hv vs)
    | _ => rfl
  have hdict (d : Dict) : readProperties (.dict d) = .ok (.dict d) := by
    cases d <;> rfl
  by_cases hlist : ∃ vs, v = .list vs
  · obtain ⟨vs, rfl⟩ := hlist
    obtain ⟨keys, -, hw⟩ := bind_iff.1 h
    cases pure_iff.1 hw
    exact hdict _
  · have hv : ∀ vs, v ≠ .list vs := fun vs heq => hlist ⟨vs, heq⟩
    rw [hother hv] at h
    cases h
    rw [hother, Value.orElse_orElse]
    intro vs heq
    unfold Value.orElse at heq
    split at heq
    · exact hv vs heq
    · cases heq

/-- What is read is an action of its kind in normal form. -/
theorem read_normal {kind : ActionKind} {d : Dict} {act : Action} (h : kind.read d = .ok act) :
    act.kind = kind ∧ act.IsNormal := by
  cases kind with
  | log | setVariable | finish | loadState | saveState =>
    cases h
    exact ⟨rfl, trivial⟩
  | callTool | callFunction =>
    cases h
    exact ⟨rfl, Value.orElse_orElse _ _⟩
  | createObject =>
    simp only [read, bind_iff, pure_iff] at h
    obtain ⟨properties, hproperties, instructions, -, rfl⟩ := h
    exact ⟨rfl, readProperties_normal hproperties⟩
  | loadObject =>
    simp only [read, bind_iff, pure_iff] at h
    obtain ⟨keys?, -, instructions, -, rfl⟩ := h
    exact ⟨rfl, trivial⟩
  | agent =>
    simp only [read, bind_iff, pure_iff] at h
    obtain ⟨instructions, -, rfl⟩ := h
    exact ⟨rfl, trivial⟩

/-- An action in normal form is read back as it is. -/
theorem read_stepFields {act : Action} (h : act.IsNormal) (name : Value) :
    act.kind.read (act.stepFields name) = .ok act := by
  cases act with
  | log message => simp [Action.stepFields, Action.fields, Action.kind, read, Dict.field]
  | setVariable target value? =>
    cases value? <;>
      simp [Action.stepFields, Action.fields, Action.presentField, Action.kind, read, Dict.pick, Dict.pick?]
  | callTool tool parameters target =>
    have h : parameters.orElse (.dict []) = parameters := h
    simp [Action.stepFields, Action.fields, Action.kind, read, Dict.field, Dict.pick, Dict.pick?,
      targetFields, h]
  | callFunction function parameters target =>
    have h : parameters.orElse (.dict []) = parameters := h
    simp [Action.stepFields, Action.fields, Action.kind, read, Dict.field, Dict.pick, Dict.pick?,
      targetFields, h]
  | finish value? =>
    cases value? <;>
      simp [Action.stepFields, Action.fields, Action.presentField, Action.kind, read, Dict.pick?]
  | createObject template properties instructions target =>
    have h : readProperties properties = .ok properties := h
    simp [Action.stepFields, Action.fields, Action.kind, read, Dict.field, Dict.pick, Dict.pick?,
      templateFields, targetFields, h, Value.itemsIfAny_list, ok_bind]
  | loadObject template keys? instructions =>
    have hnull : readKeys .null = .ok none := rfl
    have hlist (keys : List Value) : readKeys (.list keys) = .ok (some keys) := rfl
    cases keys? <;>
      simp [Action.stepFields, Action.fields, Action.kind, read, Dict.field, Dict.pick, Dict.pick?,
        templateFields, hnull, hlist, Value.itemsIfAny_list, ok_bind]
  | agent instructions sampling target =>
    simp [Action.stepFields, Action.fields, Action.kind, read, Dict.field, Dict.pick, Dict.pick?,
      targetFields, readInstructions, Value.itemsIfAny_list]
  | loadState key default target =>
    simp [Action.stepFields, Action.fields, Action.kind, read, Dict.pick, Dict.pick?, stateKeyFields,
      targetFields]
  | saveState key value? =>
    cases value? <;>
      simp [Action.stepFields, Action.fields, Action.presentField, Action.kind, read, Dict.pick, Dict.pick?,
        stateKeyFields]

end ActionKind

namespace Step

/-! ## Normal form -/

/-- The step is in normal form, apart from those nested in it. -/
def IsNormal : Step → Prop
  | .action _ act => act.IsNormal
  | .conditional .. => True
  | .switch _ _ cases _ => (cases.map (·.1)).Nodup

theorem readsAs_normal : ReadsAs (fun _ => True) IsNormal where
  action _ hact := (ActionKind.read_normal hact).2
  conditional _ _ _ := trivial
  switch _ _ hlabels := hlabels

/-- Steps that are read are in normal form, with all that are nested in them. -/
theorem normal_of_ofValue {v : Value} {s : Step} (h : ofValue v = .ok s) : ∀ x ∈ s.nodes, x.IsNormal :=
  forall_of_ofValue Value.handsDown_true readsAs_normal v trivial h

theorem normal_of_stepsOf {v : Value} {ss : List Step} (h : stepsOf v = .ok ss) :
    ∀ x ∈ nodesOf ss, x.IsNormal :=
  forall_of_stepsOf Value.handsDown_true readsAs_normal v trivial h

/-! ## Reading what is written -/

section Records

variable (name : Value) (kind : StepKind) (fields : List (String × Value))

theorem readKind_ofFields :
    readKind (Dict.ofFields (("name", name) :: ("type", .str kind.name) :: fields)) = .ok kind := by
  simp [readKind, Dict.field, Value.toKey?, Value.str?, StepKind.ofName?_name]

theorem readName_ofFields : readName (Dict.ofFields (("name", name) :: fields)) = name := by
  simp [readName, Dict.pick?]

end Records

section Fields

variable (name field : String) (v : Value) (fields : List (String × Value))

@[simp] theorem stepsUnder_ofFields_nil : stepsUnder name (Dict.ofFields []) = .ok [] := rfl

@[simp] theorem stepsUnder_ofFields_cons :
    stepsUnder name (Dict.ofFields ((field, v) :: fields))
      = if name = field then stepsOf v else stepsUnder name (Dict.ofFields fields) := by
  simp [Dict.ofFields, stepsUnder]

@[simp] theorem casesUnder_ofFields_cons :
    casesUnder (Dict.ofFields ((field, v) :: fields))
      = if "cases" = field then casesOf v else casesUnder (Dict.ofFields fields) := by
  simp [Dict.ofFields, casesUnder]

@[simp] theorem defaultUnder_ofFields_nil : defaultUnder name (Dict.ofFields []) = none := rfl

theorem defaultUnder_ofFields_list {items : List Value} {ss : List Step} (h : stepsOfAll items = .ok ss) :
    defaultUnder name (Dict.ofFields ((name, .list items) :: fields)) = some (.ok (some ss)) := by
  have hsteps : stepsOf (.list items) = .ok ss := h
  simp [Dict.ofFields, defaultUnder, hsteps, Value.isNull]

theorem defaultUnder_ofFields_of_ne (h : name ≠ field) :
    defaultUnder name (Dict.ofFields ((field, v) :: fields)) = defaultUnder name (Dict.ofFields fields) := by
  simp [Dict.ofFields, defaultUnder, h]

end Fields

/-- A case with a new label goes to the end. -/
theorem storeCase_of_new {label : String} {cases : List (String × List Step)} (steps : List Step)
    (h : label ∉ cases.map (·.1)) : storeCase label steps cases = cases ++ [(label, steps)] := by
  induction cases with
  | nil => rfl
  | cons c rest ih =>
    obtain ⟨l, ss⟩ := c
    simp only [List.map_cons, List.mem_cons, not_or] at h
    simp [storeCase, Ne.symm h.1, ih h.2]

mutual

/-- A step in normal form is read back as it is. -/
theorem ofValue_toValue : (s : Step) → (∀ x ∈ s.nodes, x.IsNormal) → ofValue s.toValue = .ok s
  | .action name act, h => by
    have hact : act.IsNormal := h _ (.head _)
    have hkind := readKind_ofFields name (.action act.kind) act.fields
    have hread := ActionKind.read_stepFields hact name
    simp only [toValue, Value.record, ofValue, List.cons_append, List.nil_append, StepKind.name,
      Action.stepFields] at hkind hread ⊢
    simp only [hkind, hread, readName_ofFields, ok_bind]
    rfl
  | .conditional name condition thenSteps elseSteps, h => by
    simp only [nodes, List.forall_mem_cons, List.forall_mem_append] at h
    have hthen : stepsOf (.list (toValues thenSteps)) = .ok thenSteps :=
      stepsOfAll_toValues thenSteps h.2.1
    have helse : stepsOf (.list (toValues elseSteps)) = .ok elseSteps :=
      stepsOfAll_toValues elseSteps h.2.2
    have hkind (fields : List (String × Value)) := readKind_ofFields name .conditional fields
    simp only [StepKind.name] at hkind
    cases thenSteps <;> cases elseSteps <;>
      simp [toValue, Value.record, ofValue, hkind, readName_ofFields, ok_bind, hthen, helse,
        Dict.field, pure, Except.pure]
  | .switch name subject cases none, h => by
    simp only [nodes, List.forall_mem_cons] at h
    have hlabels : (cases.map (·.1)).Nodup := h.1
    have hcases : casesOf (.dict (caseEntries cases)) = .ok cases :=
      casesOfEntries_caseEntries cases [] h.2 hlabels
    have hkind (fields : List (String × Value)) := readKind_ofFields name .switch fields
    simp only [StepKind.name] at hkind
    simp [toValue, Value.record, ofValue, hkind, readName_ofFields, ok_bind, hcases,
      defaultUnder_ofFields_of_ne, Dict.pick, Dict.pick?, pure, Except.pure]
  | .switch name subject cases (some steps), h => by
    simp only [nodes, List.forall_mem_cons, List.forall_mem_append] at h
    have hlabels : (cases.map (·.1)).Nodup := h.1
    have hcases : casesOf (.dict (caseEntries cases)) = .ok cases :=
      casesOfEntries_caseEntries cases [] h.2.1 hlabels
    have hdefault := stepsOfAll_toValues steps h.2.2
    have hkind (fields : List (String × Value)) := readKind_ofFields name .switch fields
    simp only [StepKind.name] at hkind
    simp [toValue, Value.record, ofValue, hkind, readName_ofFields, ok_bind, hcases,
      defaultUnder_ofFields_of_ne, defaultUnder_ofFields_list _ _ hdefault, Dict.pick, Dict.pick?, pure,
      Except.pure]

theorem stepsOfAll_toValues : (ss : List Step) → (∀ x ∈ nodesOf ss, x.IsNormal) →
    stepsOfAll (toValues ss) = .ok ss
  | [], _ => rfl
  | s :: ss, h => by
    simp only [nodesOf_cons, List.forall_mem_append] at h
    simp only [toValues, stepsOfAll, ofValue_toValue s h.1, stepsOfAll_toValues ss h.2, ok_bind]
    rfl

/-- Cases are read back behind those before, if their labels are new. -/
theorem casesOfEntries_caseEntries : (cases before : List (String × List Step)) →
    (∀ x ∈ nodesOfCases cases, x.IsNormal) → ((before ++ cases).map (·.1)).Nodup →
      casesOfEntries before (caseEntries cases) = .ok (before ++ cases)
  | [], before, _, _ => by simp [caseEntries, casesOfEntries]
  | (label, steps) :: rest, before, h, hlabels => by
    simp only [nodesOfCases, List.forall_mem_append] at h
    have hsteps : stepsOf (.list (toValues steps)) = .ok steps := stepsOfAll_toValues steps h.1
    have hnew : label ∉ before.map (·.1) := by
      intro hmem
      rw [List.map_append, List.nodup_append] at hlabels
      exact hlabels.2.2 label hmem label (.head _) rfl
    have hrest := casesOfEntries_caseEntries rest (before ++ [(label, steps)]) h.2 (by simpa using hlabels)
    calc casesOfEntries before (caseEntries ((label, steps) :: rest))
        = casesOfEntries (storeCase label steps before) (caseEntries rest) := by
          simp only [caseEntries, casesOfEntries, hsteps]
          rfl
      _ = casesOfEntries (before ++ [(label, steps)]) (caseEntries rest) := by
          rw [storeCase_of_new steps hnew]
      _ = .ok (before ++ [(label, steps)] ++ rest) := hrest
      _ = .ok (before ++ (label, steps) :: rest) := by simp

end

end Step

end Stepwise
