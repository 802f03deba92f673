-- SUMMARY: The step that a name is looked up as: the first in document order, in a valid workflow the only one.
import Mathlib.Data.List.Find
import Mathlib.Data.Set.List
import Stepwise.Proofs.Workflow.Loading
import Stepwise.Proofs.Workflow.Names

/-!
# Steps by name

Names are collected, searched for and checked by three recursions of their own. All three
follow document order: the collected names are those of the nodes, the search finds the
first node of a name, and the check lets pass just the workflows in which that node is the
only one.
-/

namespace Stepwise

namespace Step

/-! ## Search -/

mutual

/-- The search finds the first node of the wanted name. -/
theorem find?_eq (wanted : Value) : (s : Step) →
    s.find? wanted = s.nodes.find? fun node => node.name.same wanted
  | .action name act => by cases h : name.same wanted <;> simp [find?, nodes, Step.name, h]
  | .conditional name _ thenSteps elseSteps => by
    cases h : name.same wanted <;>
      simp [find?, nodes, Step.name, h, findIn?_eq wanted thenSteps, findIn?_eq wanted elseSteps]
  | .switch name _ cases none => by
    cases h : name.same wanted <;> simp [find?, nodes, Step.name, h, findInCases?_eq wanted cases]
  | .switch name _ cases (some steps) => by
    cases h : name.same wanted <;>
      simp [find?, nodes, Step.name, h, findInCases?_eq wanted cases, findIn?_eq wanted steps]

theorem findIn?_eq (wanted : Value) : (ss : List Step) →
    findIn? wanted ss = (nodesOf ss).find? fun node => node.name.same wanted
  | [] => rfl
  | s :: ss => by simp [findIn?, find?_eq wanted s, findIn?_eq wanted ss]

theorem findInCases?_eq (wanted : Value) : (cases : List (String × List Step)) →
    findInCases? wanted cases = (nodesOfCases cases).find? fun node => node.name.same wanted
  | [] => rfl
  | (_, steps) :: rest => by
    simp [findInCases?, nodesOfCases, findIn?_eq wanted steps, findInCases?_eq wanted rest]

end

end Step

namespace Workflow

/-- Every step, at every depth, is named by a text. -/
def NamedByTexts (w : Workflow) : Prop := ∀ s ∈ w.nodes, ∃ text, s.name = .str text

def IsFirst (w : Workflow) (name : Value) (s : Step) : Prop :=
  s.name = name ∧ ∃ before behind, w.nodes = before ++ s :: behind ∧ ∀ x ∈ before, x.name ≠ name

section

variable {w : Workflow}

theorem NamedByTexts.exists_texts (h : w.NamedByTexts) : ∃ texts : List String, w.names = texts.map .str := by
  have hmem : w.names ∈ {names | ∀ name ∈ names, name ∈ Set.range Value.str} := by
    intro name hname
    rw [w.names_eq_map] at hname
    obtain ⟨s, hs, rfl⟩ := List.mem_map.1 hname
    exact (h s hs).imp fun _ => Eq.symm
  rw [← Set.range_list_map] at hmem
  exact hmem.imp fun _ => Eq.symm

theorem find?_eq (hnames : w.NamedByTexts) (name : Value) :
    w.find? name = w.nodes.find? fun s => decide (s.name = name) := by
  rw [find?, Step.findIn?_eq]
  refine List.find?_congr fun s hs => ?_
  obtain ⟨text, htext⟩ := hnames s hs
  rw [htext, Value.same_str, Bool.eq_iff_iff, beq_iff_eq, decide_eq_true_iff, eq_comm]

/-- A name is looked up as the first step that has it. -/
theorem find?_eq_some_iff (hnames : w.NamedByTexts) {name : Value} {s : Step} :
    w.find? name = some s ↔ w.IsFirst name s := by
  rw [find?_eq hnames, List.find?_eq_some_iff_append, decide_eq_true_iff]
  simp only [Bool.not_eq_true', decide_eq_false_iff_not, IsFirst, ne_eq]

/-- A name is looked up in vain only where no step has it. -/
theorem find?_eq_none_iff (hnames : w.NamedByTexts) {name : Value} :
    w.find? name = none ↔ name ∉ w.names := by
  rw [find?_eq hnames, List.find?_eq_none, w.names_eq_map, List.mem_map]
  simp

/-! ## Validity -/

/-- The workflow has a name, its steps have names of their own, and its inputs are of known types. -/
structure IsValid (w : Workflow) : Prop where
  named : w.name.truthy = true
  named_steps : .str "" ∉ w.names
  distinct : w.names.Nodup
  unreserved : .str inputStepName ∉ w.names
  types : ∀ e ∈ w.inputs.parameters, ∃ type ∈ inputTypes, e.2.type = .str type

/-- There is nothing to report of the inputs if and only if each is of one of the five types. -/
theorem inputTypeErrors_eq_nil_iff {inputs : InputSchema} :
    inputTypeErrors inputs = .ok [] ↔
      ∀ e ∈ inputs.parameters, ∃ type ∈ inputTypes, e.2.type = .str type := by
  have hmember (type : Value) :
      type.memberOf (inputTypes.map .str) = true ↔ ∃ text ∈ inputTypes, type = .str text := by
    simp [Value.memberOf, Loader.isMatch_str_right]
  rw [inputTypeErrors, Checks.mapM_iff, List.map_nil, List.map_eq_nil_iff, List.filter_eq_nil_iff]
  simp [hmember]

theorem requireWellformed_eq_ok_iff : w.requireWellformed = .ok () ↔ w.errors = .ok [] := by
  simp only [requireWellformed, Checks.bind_iff, Checks.lift_iff]
  constructor
  · rintro ⟨errors, herrors, hnone⟩
    split at hnone
    · rename_i hempty
      rw [herrors, List.isEmpty_iff.1 hempty]
    · cases hnone
  · exact fun h => ⟨[], h, rfl⟩

theorem truthy_str {text : String} : (Value.str text).truthy = true ↔ text ≠ "" := by
  simp [Value.truthy]

/-- Names that are texts are themselves the keys that are checked. -/
theorem map_toKey_map_str (texts : List String) :
    (texts.map Value.str).map Value.toKey = (texts.map Key.str).map .ok := by
  simp only [List.map_map]
  rfl

/-- Where steps are named by texts, there is nothing to report of the valid workflows, and only of these. -/
theorem errors_eq_nil_iff (hnames : w.NamedByTexts) : w.errors = .ok [] ↔ w.IsValid := by
  obtain ⟨texts, htexts⟩ := hnames.exists_texts
  rw [← requireWellformed_eq_ok_iff]
  constructor
  · intro h
    obtain ⟨-, -, -, hnamed, htruthy, -, htypes⟩ := requireWellformed_iff.1 h
    refine ⟨hnamed, fun hempty => ?_, (wellNamed h).nodup, (wellNamed h).unreserved,
      inputTypeErrors_eq_nil_iff.1 htypes⟩
    cases htruthy _ hempty
  · intro h
    have htruthy : ∀ name ∈ w.names, name.truthy = true := by
      rw [htexts]
      intro name hname
      obtain ⟨text, htext, rfl⟩ := List.mem_map.1 hname
      refine truthy_str.2 fun hempty => h.named_steps ?_
      rw [htexts, ← hempty]
      exact hname
    have hdistinct : (texts.map Key.str).Pairwise fun k l => l.same k = false := by
      refine List.pairwise_map.2 ((htexts ▸ h.distinct).of_map.imp fun hne => ?_)
      rw [Key.same_str, decide_eq_false_iff_not]
      exact hne.symm
    refine requireWellformed_iff.2 ⟨texts.map .str, ?_, duplicates_eq_nil (fun _ _ => nofun) hdistinct,
      h.named, htruthy, ?_, inputTypeErrors_eq_nil_iff.2 h.types⟩
    · rw [htexts, map_toKey_map_str]
    · rw [List.any_map, List.any_eq_false]
      intro text htext heq
      rw [Function.comp_apply, Key.same_str, decide_eq_true_iff] at heq
      refine h.unreserved ?_
      rw [htexts, heq]
      exact List.mem_map_of_mem htext

/-! ## Steps and their names -/

/-- In a workflow with nothing to report, each step is what its name is looked up as. -/
theorem find?_name (hnames : w.NamedByTexts) (hvalid : w.IsValid) {s : Step} (hs : s ∈ w.nodes) :
    w.find? s.name = some s := by
  obtain ⟨before, behind, hnodes⟩ := List.append_of_mem hs
  refine (find?_eq_some_iff hnames).2 ⟨rfl, before, behind, hnodes, fun x hx heq => ?_⟩
  have hdistinct := hvalid.distinct
  rw [w.names_eq_map, hnodes, List.map_append, List.map_cons] at hdistinct
  exact List.disjoint_of_nodup_append hdistinct (List.mem_map_of_mem hx) (heq ▸ .head _)

/-- In a workflow whose steps are named by texts, there is nothing to report if and only if it is valid;
the names are listed in document order, in which each is looked up as the first step that has
it; and where there is nothing to report, every step, at any depth, is looked up by its name. -/
theorem names_identify_steps (hnames : w.NamedByTexts) :
    (w.errors = .ok [] ↔ w.IsValid) ∧
      w.names = w.nodes.map Step.name ∧
      (∀ name, (∀ s, w.find? name = some s ↔ w.IsFirst name s) ∧
        (w.find? name = none ↔ name ∉ w.names)) ∧
      (w.errors = .ok [] → ∀ s ∈ w.nodes, w.find? s.name = some s) :=
  ⟨errors_eq_nil_iff hnames, w.names_eq_map,
    fun _ => ⟨fun _ => find?_eq_some_iff hnames, find?_eq_none_iff hnames⟩,
    fun h _ hs => find?_name hnames ((errors_eq_nil_iff hnames).1 h) hs⟩

end

/-- A switch in a conditional, with a step in a case, in the default and behind them. -/
def deep : Workflow where
  name := .str "w"
  inputs := { parameters := [(.str "n", { name := .str "n", type := .str "number" })] }
  steps := [
    .conditional (.str "outer") (.str "yes")
      [.switch (.str "inner") (.str "\x7b\x7bn\x7d\x7d")
        [("1", [.action (.str "one") (.log (.str "one"))])]
        (some [.action (.str "other") (.log (.str "other"))])]
      [.action (.str "no") (.log (.str "no"))],
    .action (.str "last") (.finish none)]

theorem names_identify_steps_deep :
    deep.NamedByTexts ∧ deep.errors = .ok [] ∧
      ∀ name ∈ ["outer", "inner", "one", "other", "no", "last"],
        ∃ s ∈ deep.nodes, s.name = .str name ∧ deep.find? (.str name) = some s := by
  have hnames : deep.NamedByTexts := by
    intro s hs
    have hmem : s.name ∈ deep.names := name_mem_names hs
    have htexts : deep.names = ["outer", "inner", "one", "other", "no", "last"].map .str := rfl
    rw [htexts] at hmem
    obtain ⟨text, -, htext⟩ := List.mem_map.1 hmem
    exact ⟨text, htext.symm⟩
  obtain ⟨hvalid, hlisted, -, hfound⟩ := names_identify_steps hnames
  have herrors : deep.errors = .ok [] := hvalid.2 {
    named := rfl
    named_steps := by decide +kernel
    distinct := by decide +kernel
    unreserved := by decide +kernel
    types := by decide +kernel }
  refine ⟨hnames, herrors, fun name hname => ?_⟩
  have hmem : .str name ∈ deep.nodes.map Step.name := hlisted ▸ List.mem_map_of_mem hname
  obtain ⟨s, hs, heq⟩ := List.mem_map.1 hmem
  exact ⟨s, hs, heq, heq ▸ hfound herrors s hs⟩

end Workflow

end Stepwise
