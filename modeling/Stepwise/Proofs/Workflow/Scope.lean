-- SUMMARY: What the static check of references makes available: the names of steps that come before.
import Stepwise.Proofs.Checks
import Stepwise.Proofs.Step.Postorder
import Stepwise.Workflow.References

/-!
# Scopes

The check of references goes through a workflow with the names that are available. A step
may refer to those that are available where it stands, the steps nested in it are checked
sequence by sequence, and behind them its own name is available too. Every name that becomes
available is that of a step which has been gone through.
-/

namespace Stepwise

namespace Workflow

open Checks

/-- Check nested sequences, one after the other. -/
def checkNested (available : List Key) : List (List Step) → Except Error (List Key)
  | [] => .ok available
  | ss :: rest => do checkNested (← checkSequence available ss) rest

theorem checkNested_append (available : List Key) (front back : List (List Step)) :
    checkNested available (front ++ back)
      = checkNested available front >>= fun available => checkNested available back := by
  induction front generalizing available with
  | nil => rfl
  | cons ss rest ih => simp only [List.cons_append, checkNested, ih, bind_assoc]

theorem checkNested_singleton (available : List Key) (ss : List Step) :
    checkNested available [ss] = checkSequence available ss := by
  rw [checkNested]
  cases checkSequence available ss <;> rfl

theorem checkCases_eq (available : List Key) (cases : List (String × List Step)) :
    checkCases available cases = checkNested available (cases.map (·.2)) := by
  induction cases generalizing available with
  | nil => rfl
  | cons e rest ih => simp only [checkCases, List.map_cons, checkNested, ih]

/-- The default of a switch is checked behind its cases. -/
theorem checkNested_default (available : List Key) (name subject : Value)
    (cases : List (String × List Step)) (steps : List Step) :
    checkNested available (Step.switch name subject cases (some steps)).children
      = checkCases available cases >>= fun available => checkSequence available steps := by
  cases steps with
  | nil =>
    rw [Step.children, checkCases_eq]
    cases checkNested available (cases.map (·.2)) <;> rfl
  | cons first rest =>
    rw [Step.children, checkNested_append, checkCases_eq]
    · simp only [checkNested_singleton]
    · exact List.cons_ne_nil first rest

/-- A step is checked by its own fields and then by the sequences nested in it. -/
theorem checkStep_eq (available : List Key) (s : Step) :
    checkStep available s = (do
      checkReferences s.name available (referencedSteps s)
      makeAvailable s.name (← checkNested available s.children)) := by
  cases s with
  | action => rfl
  | conditional _ _ thenSteps elseSteps =>
    rw [checkStep, Step.children, checkNested]
    simp only [checkNested_singleton, bind_assoc]
    rfl
  | switch _ _ cases default? =>
    cases default? with
    | none => rw [checkStep, Step.children, checkCases_eq]; rfl
    | some steps =>
      simp only [checkStep, checkNested_default, bind_assoc]
      rfl

theorem makeAvailable_iff {name : Value} {available available' : List Key} :
    makeAvailable name available = .ok available' ↔
      ∃ k, name.toKey? = some k ∧ available' = k :: available := by
  unfold makeAvailable
  cases name.toKey? with
  | none => simp
  | some k => simp [eq_comm]

/-- References are accepted if and only if all of them are available. -/
theorem checkReferences_iff {name : Value} {available : List Key} {references : List String} :
    checkReferences name available references = .ok () ↔
      ∀ reference ∈ references, Key.str reference ∈ available := by
  have hany (reference : String) :
      available.any (Key.str reference).same = true ↔ Key.str reference ∈ available := by
    simp [Key.same]
  induction references with
  | nil => exact iff_of_true rfl nofun
  | cons reference rest ih =>
    rw [checkReferences, List.forall_mem_cons, ← hany]
    cases available.any (Key.str reference).same with
    | true => simpa using ih
    | false => simp

/-- What the check of a step establishes. -/
structure Admits (available nested : List Key) (s : Step) : Prop where
  references : ∀ reference ∈ referencedSteps s, Key.str reference ∈ available
  children : checkNested available s.children = .ok nested

theorem checkStep_iff {available available' : List Key} {s : Step} :
    checkStep available s = .ok available' ↔
      ∃ nested k, Admits available nested s ∧ s.name.toKey? = some k ∧ available' = k :: nested := by
  rw [checkStep_eq]
  simp only [bind_iff, makeAvailable_iff]
  constructor
  · rintro ⟨_, hreferences, nested, hchildren, k, hk, rfl⟩
    exact ⟨nested, k, ⟨checkReferences_iff.1 hreferences, hchildren⟩, hk, rfl⟩
  · rintro ⟨nested, k, h, hk, rfl⟩
    exact ⟨(), checkReferences_iff.2 h.references, nested, h.children, k, hk, rfl⟩

/-! ## What is available -/

/-- The key is available already, or it is the name of one of the steps. -/
def Offers (available : List Key) (ss : List Step) (k : Key) : Prop :=
  k ∈ available ∨ ∃ x ∈ ss, x.name.toKey? = some k

theorem Offers.mono {available : List Key} {ss ss' : List Step} {k : Key}
    (h : Offers available ss k) (hss : ss ⊆ ss') : Offers available ss' k :=
  h.imp id fun ⟨x, hx, hk⟩ => ⟨x, hss hx, hk⟩

theorem Offers.append {available available' : List Key} {ss ss' : List Step} {k : Key}
    (h : Offers available' ss' k) (h' : ∀ l ∈ available', Offers available ss l) :
    Offers available (ss ++ ss') k := by
  rcases h with hk | ⟨x, hx, hk⟩
  · exact (h' k hk).mono (List.subset_append_left _ _)
  · exact .inr ⟨x, List.mem_append_right _ hx, hk⟩

/-- Behind a step its own name is available besides those of the steps nested in it. -/
theorem Offers.close {available nested : List Key} {s : Step} {k l : Key}
    (hname : s.name.toKey? = some k) (h : ∀ l ∈ nested, Offers available s.inner l)
    (hl : l ∈ k :: nested) : Offers available s.nodes l := by
  rw [Step.nodes_eq]
  cases hl with
  | head => exact .inr ⟨s, .head _, hname⟩
  | tail _ hl => exact (h l hl).mono (List.subset_cons_self _ _)

mutual

/-- Only the names of its nodes become available by the check of a step. -/
theorem offers_of_checkStep : (s : Step) → {available available' : List Key} →
    checkStep available s = .ok available' → ∀ k ∈ available', Offers available s.nodes k
  | .action name act, available, available', h => by
    obtain ⟨nested, k, hadmits, hname, rfl⟩ := checkStep_iff.1 h
    cases hadmits.children
    exact fun l => Offers.close hname fun l hl => .inl hl
  | .conditional name condition thenSteps elseSteps, available, available', h => by
    obtain ⟨nested, k, hadmits, hname, rfl⟩ := checkStep_iff.1 h
    obtain ⟨between, hthen, helse⟩ := bind_iff.1 hadmits.children
    rw [checkNested_singleton] at helse
    refine fun l => Offers.close hname fun l hl => ?_
    exact (offers_of_checkSequence elseSteps helse l hl).append (offers_of_checkSequence thenSteps hthen)
  | .switch name subject cases none, available, available', h => by
    obtain ⟨nested, k, hadmits, hname, rfl⟩ := checkStep_iff.1 h
    refine fun l => Offers.close hname ?_
    exact offers_of_checkCases cases ((checkCases_eq _ _).trans hadmits.children)
  | .switch name subject cases (some steps), available, available', h => by
    obtain ⟨nested, k, hadmits, hname, rfl⟩ := checkStep_iff.1 h
    have hchildren := hadmits.children
    rw [checkNested_default] at hchildren
    obtain ⟨between, hcases, hdefault⟩ := bind_iff.1 hchildren
    refine fun l => Offers.close hname fun l hl => ?_
    exact (offers_of_checkSequence steps hdefault l hl).append (offers_of_checkCases cases hcases)

theorem offers_of_checkSequence : (ss : List Step) → {available available' : List Key} →
    checkSequence available ss = .ok available' → ∀ k ∈ available', Offers available (Step.nodesOf ss) k
  | [], _, _, h => by
    cases h
    exact fun k hk => .inl hk
  | s :: ss, available, available', h => by
    obtain ⟨between, hfirst, hrest⟩ := bind_iff.1 h
    intro k hk
    exact (offers_of_checkSequence ss hrest k hk).append (offers_of_checkStep s hfirst)

theorem offers_of_checkCases : (cases : List (String × List Step)) →
    {available available' : List Key} → checkCases available cases = .ok available' →
    ∀ k ∈ available', Offers available (Step.nodesOfCases cases) k
  | [], _, _, h => by
    cases h
    exact fun k hk => .inl hk
  | (_, steps) :: rest, available, available', h => by
    obtain ⟨between, hfirst, hrest⟩ := bind_iff.1 h
    intro k hk
    exact (offers_of_checkCases rest hrest k hk).append (offers_of_checkSequence steps hfirst)

end

theorem offers_of_checkNested {sequences : List (List Step)} {available available' : List Key}
    (h : checkNested available sequences = .ok available') :
    ∀ k ∈ available', Offers available (sequences.flatMap Step.nodesOf) k := by
  induction sequences generalizing available with
  | nil =>
    cases h
    exact fun k hk => .inl hk
  | cons ss rest ih =>
    obtain ⟨between, hfirst, hrest⟩ := bind_iff.1 h
    intro k hk
    exact (ih hrest k hk).append (offers_of_checkSequence ss hfirst)

/-! ## Branches -/

/-- The steps are nested in a container, but not in the given branch. -/
def Elsewhere (s : Step) (ss others : List Step) : Prop :=
  ∀ x ∈ others, x ∈ s.inner ∧ x ∉ Step.nodesOf ss

/-- Each branch of a step is checked with what is available to the step and by some of the other
branches, and what is available behind the step is so behind the branch or by the other branches. -/
theorem Admits.branch {available nested : List Key} {s : Step} (h : Admits available nested s)
    (hnodup : s.inner.Nodup) {branch : String} {ss : List Step}
    (hbranch : s.branchNamed? branch = some ss) :
    ∃ before behind earlier later, checkSequence before ss = .ok behind ∧
      Elsewhere s ss earlier ∧ (∀ k ∈ before, Offers available earlier k) ∧
      Elsewhere s ss later ∧ ∀ k ∈ nested, Offers behind later k := by
  rw [Step.inner_eq] at hnodup
  cases ss with
  | nil =>
    refine ⟨available, available, [], s.inner, rfl, nofun, fun k hk => .inl hk, ?_, ?_⟩
    · exact fun x hx => ⟨hx, List.not_mem_nil⟩
    · rw [Step.inner_eq]
      exact offers_of_checkNested h.children
  | cons first rest =>
    have hmem := Step.mem_children_of_branchNamed? hbranch (List.cons_ne_nil first rest)
    obtain ⟨front, back, hchildren⟩ := List.append_of_mem hmem
    have hchecked := h.children
    rw [hchildren, checkNested_append] at hchecked
    obtain ⟨before, hbefore, hchecked⟩ := bind_iff.1 hchecked
    obtain ⟨behind, hss, hback⟩ := bind_iff.1 hchecked
    rw [hchildren, List.flatMap_append, List.flatMap_cons] at hnodup
    obtain ⟨-, hnodup', hfront⟩ := List.nodup_append.1 hnodup
    obtain ⟨-, -, hapart⟩ := List.nodup_append.1 hnodup'
    refine ⟨before, behind, front.flatMap Step.nodesOf, back.flatMap Step.nodesOf, hss, ?_,
      offers_of_checkNested hbefore, ?_, offers_of_checkNested hback⟩
    · intro x hx
      refine ⟨?_, fun hin => hfront x hx x (List.mem_append_left _ hin) rfl⟩
      rw [Step.inner_eq, hchildren, List.flatMap_append]
      exact List.mem_append_left _ hx
    · intro x hx
      refine ⟨?_, fun hin => hapart x hin x hx rfl⟩
      rw [Step.inner_eq, hchildren, List.flatMap_append, List.flatMap_cons]
      exact List.mem_append_right _ (List.mem_append_right _ hx)

end Workflow

end Stepwise
