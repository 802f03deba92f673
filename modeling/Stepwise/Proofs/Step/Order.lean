-- SUMMARY: The steps of a tree in document order, and the steps of a branch among them.
import Stepwise.Workflow.Basic

/-!
# Document order

A step comes before the steps nested in it, and these come sequence by sequence. Whatever
a run does is told by sublists of this order: what it has started, what lies ahead of it,
and what a branch that is not entered leaves out.
-/

namespace Stepwise

/-- The action may hand control to an agent. -/
def Action.isPausing : Action → Bool
  | .createObject .. | .loadObject .. | .agent .. => true
  | _ => false

namespace Step

/-- The step is an action and contains no steps. -/
def isAction : Step → Bool
  | .action .. => true
  | .conditional .. | .switch .. => false

/-- The step may hand control to an agent. -/
def isPausing : Step → Bool
  | .action _ act => act.isPausing
  | .conditional .. | .switch .. => false

theorem isAction_of_isPausing {s : Step} (h : s.isPausing = true) : s.isAction = true := by
  cases s with
  | action name act => rfl
  | conditional => cases h
  | switch => cases h

/-! ## Nodes -/

mutual

/-- A step and the steps nested in it, in document order. -/
def nodes : Step → List Step
  | .action name act => [.action name act]
  | .conditional name condition thenSteps elseSteps =>
    .conditional name condition thenSteps elseSteps :: (nodesOf thenSteps ++ nodesOf elseSteps)
  | .switch name subject cases none => .switch name subject cases none :: nodesOfCases cases
  | .switch name subject cases (some steps) =>
    .switch name subject cases (some steps) :: (nodesOfCases cases ++ nodesOf steps)

def nodesOf : List Step → List Step
  | [] => []
  | s :: ss => s.nodes ++ nodesOf ss

def nodesOfCases : List (String × List Step) → List Step
  | [] => []
  | (_, steps) :: rest => nodesOf steps ++ nodesOfCases rest

end

@[simp] theorem nodesOf_cons (s : Step) (ss : List Step) :
    nodesOf (s :: ss) = s.nodes ++ nodesOf ss := rfl

theorem mem_nodesOf_iff {ss : List Step} {x : Step} : x ∈ nodesOf ss ↔ ∃ s ∈ ss, x ∈ s.nodes := by
  induction ss with
  | nil => simp [nodesOf]
  | cons s ss ih => simp [ih]

theorem nodesOf_subset {ss ss' : List Step} (h : ss ⊆ ss') : nodesOf ss ⊆ nodesOf ss' := by
  intro x hx
  obtain ⟨s, hs, hx⟩ := mem_nodesOf_iff.1 hx
  exact mem_nodesOf_iff.2 ⟨s, h hs, hx⟩

/-- The steps nested in a step, in document order. -/
def inner (s : Step) : List Step := s.nodes.tail

theorem nodes_eq (s : Step) : s.nodes = s :: s.inner := by
  match s with
  | .action .. => rfl
  | .conditional .. => rfl
  | .switch _ _ _ none => rfl
  | .switch _ _ _ (some _) => rfl

mutual

/-- The names in document order are those of the nodes. -/
theorem names_eq_map : (s : Step) → s.names = s.nodes.map name
  | .action .. => rfl
  | .conditional _ _ thenSteps elseSteps => by
    simp [names, nodes, name, namesOf_eq_map thenSteps, namesOf_eq_map elseSteps]
  | .switch _ _ cases none => by simp [names, nodes, name, namesOfCases_eq_map cases]
  | .switch _ _ cases (some steps) => by
    simp [names, nodes, name, namesOfCases_eq_map cases, namesOf_eq_map steps]

theorem namesOf_eq_map : (ss : List Step) → namesOf ss = (nodesOf ss).map name
  | [] => rfl
  | s :: ss => by simp [namesOf, names_eq_map s, namesOf_eq_map ss]

theorem namesOfCases_eq_map :
    (cases : List (String × List Step)) → namesOfCases cases = (nodesOfCases cases).map name
  | [] => rfl
  | (_, steps) :: rest => by
    simp [namesOfCases, nodesOfCases, namesOf_eq_map steps, namesOfCases_eq_map rest]

end

mutual

/-- What is nested in a node of a step is a node of the step. -/
theorem mem_nodes_trans : (s : Step) → {x y : Step} → y ∈ s.nodes → x ∈ y.nodes → x ∈ s.nodes
  | .action .., _, _, hy, hx => by
    cases List.mem_singleton.1 hy
    exact hx
  | .conditional _ _ thenSteps elseSteps, _, _, hy, hx => by
    rcases List.mem_cons.1 hy with rfl | hy
    · exact hx
    · refine .tail _ (List.mem_append.2 ((List.mem_append.1 hy).imp (fun hy => ?_) fun hy => ?_))
      · exact mem_nodesOf_trans thenSteps hy hx
      · exact mem_nodesOf_trans elseSteps hy hx
  | .switch _ _ cases none, _, _, hy, hx => by
    rcases List.mem_cons.1 hy with rfl | hy
    · exact hx
    · exact .tail _ (mem_nodesOfCases_trans cases hy hx)
  | .switch _ _ cases (some steps), _, _, hy, hx => by
    rcases List.mem_cons.1 hy with rfl | hy
    · exact hx
    · refine .tail _ (List.mem_append.2 ((List.mem_append.1 hy).imp (fun hy => ?_) fun hy => ?_))
      · exact mem_nodesOfCases_trans cases hy hx
      · exact mem_nodesOf_trans steps hy hx

theorem mem_nodesOf_trans : (ss : List Step) → {x y : Step} → y ∈ nodesOf ss → x ∈ y.nodes →
    x ∈ nodesOf ss
  | [], _, _, hy, _ => nomatch hy
  | s :: ss, _, _, hy, hx =>
    List.mem_append.2 ((List.mem_append.1 hy).imp (fun hy => mem_nodes_trans s hy hx)
      fun hy => mem_nodesOf_trans ss hy hx)

theorem mem_nodesOfCases_trans : (cases : List (String × List Step)) → {x y : Step} →
    y ∈ nodesOfCases cases → x ∈ y.nodes → x ∈ nodesOfCases cases
  | [], _, _, hy, _ => nomatch hy
  | (_, steps) :: rest, _, _, hy, hx =>
    List.mem_append.2 ((List.mem_append.1 hy).imp (fun hy => mem_nodesOf_trans steps hy hx)
      fun hy => mem_nodesOfCases_trans rest hy hx)

end

theorem nodesOf_drop_sublist (n : Nat) (ss : List Step) :
    (nodesOf (ss.drop n)).Sublist (nodesOf ss) := by
  induction ss generalizing n with
  | nil => simp
  | cons s rest ih =>
    cases n with
    | zero => exact .refl _
    | succ n => exact (ih n).trans (List.sublist_append_right _ _)

/-! ## Induction -/

/-- A property of steps in sequence that the first of them takes on from the sequences nested in it and
from the others behind it. -/
def PassesUp (motive : List Step → Prop) : Prop :=
  ∀ s ss, (∀ inner ∈ s.children, motive inner) → motive ss → motive (s :: ss)

mutual

theorem PassesUp.children {motive : List Step → Prop} (h : PassesUp motive) (nil : motive []) :
    (s : Step) → ∀ inner ∈ s.children, motive inner
  | .action .., _, hmem => nomatch hmem
  | .conditional _ _ thenSteps elseSteps, inner, hmem => by
    rcases List.mem_cons.1 hmem with heq | hmem
    · exact heq ▸ h.sequence nil thenSteps
    · exact List.mem_singleton.1 hmem ▸ h.sequence nil elseSteps
  | .switch _ _ cases none, inner, hmem => h.cases nil cases inner hmem
  | .switch _ _ cases (some []), inner, hmem => h.cases nil cases inner hmem
  | .switch _ _ cases (some (first :: rest)), inner, hmem => by
    rcases List.mem_append.1 hmem with hmem | hmem
    · exact h.cases nil cases inner hmem
    · exact List.mem_singleton.1 hmem ▸ h.sequence nil (first :: rest)

theorem PassesUp.sequence {motive : List Step → Prop} (h : PassesUp motive) (nil : motive []) :
    (ss : List Step) → motive ss
  | [] => nil
  | s :: ss => h s ss (h.children nil s) (h.sequence nil ss)

theorem PassesUp.cases {motive : List Step → Prop} (h : PassesUp motive) (nil : motive []) :
    (cases : List (String × List Step)) → ∀ inner ∈ cases.map (·.2), motive inner
  | [], _, hmem => nomatch hmem
  | (_, steps) :: rest, inner, hmem => by
    rcases List.mem_cons.1 hmem with heq | hmem
    · exact heq ▸ h.sequence nil steps
    · exact h.cases nil rest inner hmem

end

/-- What holds of no steps, and of a step with others behind it if it does of these and of the
sequences nested in the step, holds of all steps. -/
theorem nestedInduction {motive : List Step → Prop} (ss : List Step) (nil : motive [])
    (cons : ∀ s ss, (∀ inner ∈ s.children, motive inner) → motive ss → motive (s :: ss)) : motive ss :=
  PassesUp.sequence cons nil ss

/-! ## Branches -/

end Step

namespace Branch

theorem ofCase_injective {label label' : String} (h : ofCase label = ofCase label') :
    label = label' := by
  have := congrArg label? h
  rwa [label?_ofCase, label?_ofCase, Option.some.injEq] at this

/-- Only the branch of a case stands for the case. -/
theorem eq_ofCase {branch label : String} (h : label? branch = some label) :
    branch = ofCase label := by
  unfold label? at h
  split at h
  · rename_i hprefix
    obtain ⟨rest, hrest⟩ := List.isPrefixOf_iff_prefix.1 hprefix
    cases h
    refine String.toList_inj.1 ?_
    have hlength : caseMark.length = caseMark.toList.length := rfl
    rw [ofCase, String.toList_append, String.toList_ofList, ← hrest, hlength, List.drop_left]
  · cases h

end Branch

namespace Step

/-- Actions have no branches. -/
theorem isAction_of_branchNamed? {s : Step} {branch : String} {steps : List Step}
    (h : s.branchNamed? branch = some steps) : s.isAction = false := by
  cases s with
  | action name act => cases h
  | conditional => rfl
  | switch => rfl

theorem nodesOfCases_eq_flatMap (cases : List (String × List Step)) :
    nodesOfCases cases = (cases.map (·.2)).flatMap nodesOf := by
  induction cases with
  | nil => rfl
  | cons e rest ih => simp [nodesOfCases, ih]

/-- The steps nested in a step are those of its nested sequences, one after the other. -/
theorem inner_eq (s : Step) : s.inner = s.children.flatMap nodesOf := by
  match s with
  | .action .. => rfl
  | .conditional .. => simp [inner, nodes, children]
  | .switch _ _ _ none => simp [inner, nodes, children, nodesOfCases_eq_flatMap]
  | .switch _ _ _ (some []) => simp [inner, nodes, nodesOf, children, nodesOfCases_eq_flatMap]
  | .switch _ _ _ (some (_ :: _)) => simp [inner, nodes, children, nodesOfCases_eq_flatMap]

theorem mem_of_caseSteps? {cases : List (String × List Step)} {label : String} {steps : List Step}
    (h : caseSteps? cases label = some steps) : steps ∈ cases.map (·.2) := by
  obtain ⟨e, he, rfl⟩ := Option.map_eq_some_iff.1 h
  exact List.mem_map_of_mem (List.mem_of_find?_eq_some he)

/-- A branch that holds steps is one of the nested sequences of its container. -/
theorem mem_children_of_branchNamed? {s : Step} {branch : String} {steps : List Step}
    (h : s.branchNamed? branch = some steps) (hne : steps ≠ []) : steps ∈ s.children := by
  match s with
  | .action .. => cases h
  | .conditional _ _ thenSteps elseSteps =>
    simp only [branchNamed?] at h
    split at h
    · cases h
      exact .head _
    · split at h
      · cases h
        exact .tail _ (.head _)
      · cases h
  | .switch _ _ cases none =>
    obtain ⟨label, -, hcase⟩ := Option.bind_eq_some_iff.1 h
    exact mem_of_caseSteps? hcase
  | .switch _ _ cases (some []) =>
    simp only [branchNamed?] at h
    split at h
    · cases h
      exact absurd rfl hne
    · obtain ⟨label, -, hcase⟩ := Option.bind_eq_some_iff.1 h
      exact mem_of_caseSteps? hcase
  | .switch _ _ cases (some (first :: rest)) =>
    simp only [branchNamed?] at h
    split at h
    · cases h
      exact List.mem_append_right _ (.head _)
    · obtain ⟨label, -, hcase⟩ := Option.bind_eq_some_iff.1 h
      exact List.mem_append_left _ (mem_of_caseSteps? hcase)

/-- What is read off a branch is among what is read off the nested sequences of its container. -/
theorem branchNamed?_flatMap_sublist {β : Type} {f : List Step → List β} (hnil : f [] = [])
    {s : Step} {branch : String} {steps : List Step} (h : s.branchNamed? branch = some steps) :
    (f steps).Sublist (s.children.flatMap f) := by
  cases steps with
  | nil =>
    rw [hnil]
    exact List.nil_sublist _
  | cons first rest =>
    have hmem := mem_children_of_branchNamed? h (List.cons_ne_nil first rest)
    rw [List.flatMap_def]
    exact List.sublist_flatten_of_mem (List.mem_map_of_mem hmem)

/-- The nodes of a branch are among those nested in its container, in the same order. -/
theorem branchNamed?_sublist {s : Step} {branch : String} {steps : List Step}
    (h : s.branchNamed? branch = some steps) : (nodesOf steps).Sublist s.inner := by
  rw [inner_eq]
  exact branchNamed?_flatMap_sublist rfl h

end Step

namespace Workflow

/-- All steps of a workflow, at every depth, in document order. -/
def nodes (w : Workflow) : List Step := Step.nodesOf w.steps

/-- The actions of a workflow, at every depth, in document order. -/
def leaves (w : Workflow) : List Step := w.nodes.filter Step.isAction

theorem names_eq_map (w : Workflow) : w.names = w.nodes.map Step.name :=
  Step.namesOf_eq_map w.steps

theorem leaves_names_sublist (w : Workflow) : (w.leaves.map Step.name).Sublist w.names := by
  rw [w.names_eq_map]
  exact List.filter_sublist.map Step.name

theorem name_mem_names {w : Workflow} {s : Step} (h : s ∈ w.nodes) : s.name ∈ w.names := by
  rw [w.names_eq_map]
  exact List.mem_map_of_mem h

end Workflow

end Stepwise
