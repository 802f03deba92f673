-- SUMMARY: The first steps of a workflow are a workflow that passes the same checks.
import Stepwise.Proofs.Workflow.Names
import Stepwise.Workflow.References

/-!
# Prefixes of workflows

Both checks of a workflow go through its steps in document order, and nothing that they ask
of a step depends on what comes after it. So a workflow that passes them goes on to pass
them when it is cut off behind some of its steps.
-/

namespace Stepwise

theorem Step.nodesOf_append (ss ss' : List Step) :
    nodesOf (ss ++ ss') = nodesOf ss ++ nodesOf ss' := by
  induction ss with
  | nil => rfl
  | cons s ss ih => simp [ih]

namespace Workflow

open Checks

/-- The workflow with its first `k` steps only. -/
def upTo (w : Workflow) (k : Nat) : Workflow := { w with steps := w.steps.take k }

theorem upTo_nodes_prefix (w : Workflow) (k : Nat) :
    ∃ later, w.nodes = (w.upTo k).nodes ++ later := by
  refine ⟨Step.nodesOf (w.steps.drop k), ?_⟩
  rw [nodes, nodes, upTo, ← Step.nodesOf_append, List.take_append_drop]

/-! ## Names -/

/-- Keys without duplicates have none among the first of them. -/
theorem duplicates_of_append {seen ks ls : List Key} (h : duplicates seen [] (ks ++ ls) = []) :
    duplicates seen [] ks = [] := by
  induction ks generalizing seen with
  | nil => rfl
  | cons k ks ih =>
    rw [List.cons_append, duplicates] at h
    rw [duplicates]
    split at h
    · exact absurd h (duplicates_ne_nil _ (by simp))
    · rename_i hnew
      rw [if_neg hnew]
      exact ih h

theorem requireWellformed_upTo {w : Workflow} (h : w.requireWellformed = .ok ()) (k : Nat) :
    (w.upTo k).requireWellformed = .ok () := by
  obtain ⟨keys, hkeys, hdoubled, hname, htruthy, hinput, htypes⟩ := requireWellformed_iff.1 h
  obtain ⟨later, hnodes⟩ := w.upTo_nodes_prefix k
  have hnames : w.names = (w.upTo k).names ++ later.map Step.name := by
    rw [names_eq_map, names_eq_map, hnodes, List.map_append]
  rw [hnames, List.map_append] at hkeys
  obtain ⟨front, back, rfl, hfront, -⟩ := List.append_eq_map_iff.1 hkeys
  refine requireWellformed_iff.2 ⟨front, hfront.symm, duplicates_of_append hdoubled, hname, ?_, ?_,
    htypes⟩
  · intro name hmem
    exact htruthy name (hnames ▸ List.mem_append_left _ hmem)
  · rw [List.any_append, Bool.or_eq_false_iff] at hinput
    exact hinput.1

/-! ## References -/

theorem checkSequence_append (available : List Key) (ss ss' : List Step) :
    checkSequence available (ss ++ ss')
      = checkSequence available ss >>= fun available => checkSequence available ss' := by
  induction ss generalizing available with
  | nil => rfl
  | cons s ss ih => simp only [List.cons_append, checkSequence, ih, bind_assoc]

theorem requireReferences_upTo {w : Workflow} (h : w.requireReferences = .ok ()) (k : Nat) :
    (w.upTo k).requireReferences = .ok () := by
  obtain ⟨available, hall, -⟩ := bind_iff.1 h
  rw [← List.take_append_drop k w.steps, checkSequence_append] at hall
  obtain ⟨available', hfront, -⟩ := bind_iff.1 hall
  exact bind_iff.2 ⟨available', hfront, rfl⟩

end Workflow

end Stepwise
