-- SUMMARY: The steps of a tree in the order in which they come to an end, and who contains whom.
import Mathlib.Data.List.Chain
import Stepwise.Proofs.Step.Order

/-!
# Post-order

A step comes after the steps nested in it, and these come sequence by sequence: this is the
order in which steps end, where document order is the one in which they begin. Both list the
same steps, each once.
-/

namespace Stepwise

namespace Step

/-! ## The order -/

mutual

/-- The steps nested in a step and then the step itself, at every depth. -/
def postorder : Step → List Step
  | .action name act => [.action name act]
  | .conditional name condition thenSteps elseSteps =>
    postorderOf thenSteps ++ postorderOf elseSteps
      ++ [.conditional name condition thenSteps elseSteps]
  | .switch name subject cases none => postorderOfCases cases ++ [.switch name subject cases none]
  | .switch name subject cases (some steps) =>
    postorderOfCases cases ++ postorderOf steps ++ [.switch name subject cases (some steps)]

def postorderOf : List Step → List Step
  | [] => []
  | s :: ss => s.postorder ++ postorderOf ss

def postorderOfCases : List (String × List Step) → List Step
  | [] => []
  | (_, steps) :: rest => postorderOf steps ++ postorderOfCases rest

end

@[simp] theorem postorderOf_cons (s : Step) (ss : List Step) :
    postorderOf (s :: ss) = s.postorder ++ postorderOf ss := rfl

/-- The steps nested in a step, in post-order. -/
def innerPostorder (s : Step) : List Step := s.postorder.dropLast

theorem postorder_eq (s : Step) : s.postorder = s.innerPostorder ++ [s] := by
  cases s with
  | action => rfl
  | conditional => simp [innerPostorder, postorder]
  | switch _ _ _ default? => cases default? <;> simp [innerPostorder, postorder]

mutual

/-- Post-order lists the nodes of a step. -/
theorem postorder_perm : (s : Step) → s.postorder.Perm s.nodes
  | .action .. => .refl _
  | .conditional name condition thenSteps elseSteps => by
    rw [postorder, nodes]
    exact (List.perm_append_singleton _ _).trans
      (((postorderOf_perm thenSteps).append (postorderOf_perm elseSteps)).cons _)
  | .switch name subject cases none => by
    rw [postorder, nodes]
    exact (List.perm_append_singleton _ _).trans ((postorderOfCases_perm cases).cons _)
  | .switch name subject cases (some steps) => by
    rw [postorder, nodes]
    exact (List.perm_append_singleton _ _).trans
      (((postorderOfCases_perm cases).append (postorderOf_perm steps)).cons _)

theorem postorderOf_perm : (ss : List Step) → (postorderOf ss).Perm (nodesOf ss)
  | [] => .refl _
  | s :: ss => (postorder_perm s).append (postorderOf_perm ss)

theorem postorderOfCases_perm :
    (cases : List (String × List Step)) → (postorderOfCases cases).Perm (nodesOfCases cases)
  | [] => .refl _
  | (_, steps) :: rest => (postorderOf_perm steps).append (postorderOfCases_perm rest)

end

/-! ## Containers -/

theorem postorderOfCases_eq_flatMap (cases : List (String × List Step)) :
    postorderOfCases cases = (cases.map (·.2)).flatMap postorderOf := by
  induction cases with
  | nil => rfl
  | cons e rest ih => simp [postorderOfCases, ih]

/-- The steps nested in a step are those of its nested sequences, one after the other. -/
theorem innerPostorder_eq (s : Step) : s.innerPostorder = s.children.flatMap postorderOf := by
  match s with
  | .action .. => rfl
  | .conditional .. => simp [innerPostorder, postorder, children]
  | .switch _ _ _ none => simp [innerPostorder, postorder, children, postorderOfCases_eq_flatMap]
  | .switch _ _ _ (some []) =>
    simp [innerPostorder, postorder, postorderOf, children, postorderOfCases_eq_flatMap]
  | .switch _ _ _ (some (_ :: _)) =>
    simp [innerPostorder, postorder, children, postorderOfCases_eq_flatMap]

/-- The step is one of those that a container has in its branches, at the first depth. -/
def Contains (s x : Step) : Prop := ∃ ss ∈ s.children, x ∈ ss

theorem contains_of_branchNamed? {s x : Step} {branch : String} {steps : List Step}
    (h : s.branchNamed? branch = some steps) (hx : x ∈ steps) : s.Contains x :=
  ⟨steps, mem_children_of_branchNamed? h (List.ne_nil_of_mem hx), hx⟩

/-- Each of the steps is contained in the next, and the last of them is one of `ss`. -/
structure Nests (ss chain : List Step) : Prop where
  nested : chain.IsChain fun x s => s.Contains x
  outermost : ∃ s ∈ ss, chain.getLast? = some s

namespace Nests

variable {ss chain : List Step}

theorem single (s : Step) : Nests [s] [s] := ⟨.singleton s, s, .head _, rfl⟩

theorem mono {ss' : List Step} (h : Nests ss chain) (hss : ss ⊆ ss') : Nests ss' chain :=
  ⟨h.nested, h.outermost.imp fun _ hs => ⟨hss hs.1, hs.2⟩⟩

/-- A container goes around the steps that nest in one of its branches. -/
theorem close {s : Step} (h : Nests ss chain) (hs : ss ∈ s.children) : Nests [s] (chain ++ [s]) where
  nested := by
    obtain ⟨last, hlast, heq⟩ := h.outermost
    refine List.isChain_append.2 ⟨h.nested, .singleton s, fun y hy z hz => ?_⟩
    cases heq.symm.trans hy
    cases hz
    exact ⟨ss, hs, hlast⟩
  outermost := ⟨s, .head _, List.getLast?_concat⟩

/-- All that nest in steps are nodes of these. -/
theorem mem_nodesOf {x : Step} {chain : List Step} (h : Nests ss (x :: chain)) : x ∈ nodesOf ss := by
  induction chain generalizing x with
  | nil =>
    obtain ⟨s, hs, hlast⟩ := h.outermost
    cases hlast
    exact mem_nodesOf_iff.2 ⟨x, hs, by simp [nodes_eq]⟩
  | cons s chain ih =>
    obtain ⟨⟨branch, hbranch, hx⟩, hnested⟩ := List.isChain_cons_cons.1 h.nested
    have hs : s ∈ nodesOf ss := ih ⟨hnested, by simpa using h.outermost⟩
    have hinner : x ∈ s.inner := by
      rw [inner_eq]
      exact List.mem_flatMap.2 ⟨branch, hbranch, mem_nodesOf_iff.2 ⟨x, hx, by simp [nodes_eq]⟩⟩
    exact mem_nodesOf_trans ss hs (s.nodes_eq ▸ .tail _ hinner)

end Nests

/-- The steps of a branch end in the order of those nested in its container. -/
theorem branchNamed?_postorder_sublist {s : Step} {branch : String} {steps : List Step}
    (h : s.branchNamed? branch = some steps) : (postorderOf steps).Sublist s.innerPostorder := by
  rw [innerPostorder_eq]
  exact branchNamed?_flatMap_sublist rfl h

end Step

namespace Workflow

/-- All steps of a workflow, at every depth, in post-order. -/
def postorder (w : Workflow) : List Step := Step.postorderOf w.steps

theorem postorder_perm (w : Workflow) : w.postorder.Perm w.nodes := Step.postorderOf_perm w.steps

end Workflow

end Stepwise
