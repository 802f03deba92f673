-- SUMMARY: Dangling references: the static check rejects a workflow exactly for those it can read.
import Stepwise.Proofs.Template.Segments
import Stepwise.Proofs.Workflow.Names
import Stepwise.Proofs.Workflow.Scope

/-!
# Dangling references

A step is completed before another one in document order if it comes to an end before the
other one begins: the steps that enclose it do not count, nor do those that follow. A
reference dangles if it names neither the inputs nor a step that is completed before. The
static check is exact on the references it reads: it fails if and only if one of them
dangles, and then it reports such a one.
-/

namespace Stepwise

open Checks

namespace Step

/-- A step stands in a sequence, at any depth. Before it those are completed, in this order. -/
inductive Stands : List Step → List Step → Step → Prop where
  | here (s : Step) (ss : List Step) : Stands [] (s :: ss) s
  | behind {earlier ss : List Step} {s : Step} (x : Step) (h : Stands earlier ss s) :
    Stands (x.postorder ++ earlier) (x :: ss) s
  | inside {earlier inner : List Step} {front back : List (List Step)} {x s : Step}
    (ss : List Step) (hchildren : x.children = front ++ inner :: back)
    (h : Stands earlier inner s) : Stands (front.flatMap postorderOf ++ earlier) (x :: ss) s

end Step

namespace Workflow

open Step

/-! ## What becomes available -/

/-- What is available behind steps that have come to an end in the given order. -/
def offered (available : List Key) (xs : List Step) : List Key :=
  (xs.filterMap (·.name.toKey?)).reverse ++ available

@[simp] theorem offered_append (available : List Key) (xs ys : List Step) :
    offered available (xs ++ ys) = offered (offered available xs) ys := by
  simp [offered]

theorem offered_singleton {s : Step} {k : Key} (available : List Key) (h : s.name.toKey? = some k) :
    offered available [s] = k :: available := by
  simp [offered, h]

theorem mem_offered {available : List Key} {xs : List Step} {name : String} :
    Key.str name ∈ offered available xs ↔
      Key.str name ∈ available ∨ ∃ x ∈ xs, x.name = .str name := by
  have hname (x : Step) : x.name.toKey? = some (.str name) ↔ x.name = .str name := by
    refine ⟨fun h => (x.name.toValue_of_toKey? h).symm, fun h => ?_⟩
    rw [h]
    rfl
  simp [offered, hname, or_comm]

/-! ## References that dangle -/

/-- A step of the sequence refers to a step that is not available to it. -/
def Dangles (available : List Key) (ss : List Step) (s : Step) (name : String) : Prop :=
  ∃ earlier, Stands earlier ss s ∧ name ∈ referencedSteps s ∧
    Key.str name ∉ offered available earlier

namespace Dangles

variable {available : List Key} {ss : List Step} {s x : Step} {name : String}

theorem here (hname : name ∈ referencedSteps s) (h : Key.str name ∉ available) :
    Dangles available (s :: ss) s name :=
  ⟨[], .here s ss, hname, h⟩

theorem behind (h : Dangles (offered available x.postorder) ss s name) :
    Dangles available (x :: ss) s name := by
  obtain ⟨earlier, hstands, hname, hnot⟩ := h
  exact ⟨_, hstands.behind x, hname, by rwa [offered_append]⟩

theorem inside {front back : List (List Step)} {inner : List Step}
    (hchildren : x.children = front ++ inner :: back)
    (h : Dangles (offered available (front.flatMap postorderOf)) inner s name) :
    Dangles available (x :: ss) s name := by
  obtain ⟨earlier, hstands, hname, hnot⟩ := h
  exact ⟨_, hstands.inside ss hchildren, hname, by rwa [offered_append]⟩

end Dangles

/-- Nothing dangles in a step and those behind it if nothing does where the step, what is nested in it,
and the others stand. -/
theorem not_dangles_cons {available : List Key} {ss : List Step} {x : Step}
    (hx : ∀ n ∈ referencedSteps x, Key.str n ∈ available)
    (hinside : ∀ front inner back, x.children = front ++ inner :: back → ∀ s n,
      ¬ Dangles (offered available (front.flatMap postorderOf)) inner s n)
    (hbehind : ∀ s n, ¬ Dangles (offered available x.postorder) ss s n) (s : Step) (n : String) :
    ¬ Dangles available (x :: ss) s n := by
  rintro ⟨earlier, hstands, hname, hnot⟩
  cases hstands with
  | here => exact hnot (hx n hname)
  | behind _ h => exact hbehind s n ⟨_, h, hname, by rwa [offered_append] at hnot⟩
  | inside _ hchildren h =>
    exact hinside _ _ _ hchildren s n ⟨_, h, hname, by rwa [offered_append] at hnot⟩

/-! ## What the check finds -/

/-- What the check accepts: all names can be made available and no reference dangles. -/
structure Accepts (available : List Key) (ss : List Step) : Prop where
  named : ∀ x ∈ postorderOf ss, x.name.toKey?.isSome
  resolved : ∀ s n, ¬ Dangles available ss s n

/-- Sequences that are checked one after the other are accepted each with what those before it offer. -/
theorem checkNested_of_ok {sequences : List (List Step)}
    (h : ∀ ss ∈ sequences, ∀ available available', checkSequence available ss = .ok available' →
      available' = offered available (postorderOf ss) ∧ Accepts available ss)
    {available available' : List Key} (hok : checkNested available sequences = .ok available') :
    available' = offered available (sequences.flatMap postorderOf) ∧
      ∀ front inner back, sequences = front ++ inner :: back →
        Accepts (offered available (front.flatMap postorderOf)) inner := by
  induction sequences generalizing available with
  | nil =>
    cases hok
    exact ⟨rfl, by simp⟩
  | cons ss rest ih =>
    obtain ⟨between, hss, hrest⟩ := bind_iff.1 hok
    obtain ⟨rfl, haccepts⟩ := h ss (.head _) _ _ hss
    obtain ⟨rfl, hothers⟩ := ih (fun ss hss => h ss (.tail _ hss)) hrest
    refine ⟨by simp, fun front inner back heq => ?_⟩
    cases front with
    | nil =>
      cases heq
      exact haccepts
    | cons first front =>
      cases heq
      simpa using hothers front inner back rfl

/-- The check makes the names of the steps available in the order in which they end, and accepts only
references that do not dangle. -/
theorem checkSequence_of_ok (ss : List Step) : ∀ available available',
    checkSequence available ss = .ok available' →
      available' = offered available (postorderOf ss) ∧ Accepts available ss := by
  induction ss using nestedInduction with
  | nil =>
    intro available available' h
    cases h
    exact ⟨rfl, nofun, fun s n ⟨_, hstands, _⟩ => nomatch hstands⟩
  | cons s ss hinner ih =>
    intro available available' h
    obtain ⟨between, hs, hss⟩ := bind_iff.1 h
    obtain ⟨nested, k, hadmits, hk, rfl⟩ := checkStep_iff.1 hs
    obtain ⟨rfl, hchildren⟩ := checkNested_of_ok hinner hadmits.children
    have hoffered : k :: offered available (s.children.flatMap postorderOf)
        = offered available s.postorder := by
      rw [postorder_eq, innerPostorder_eq, offered_append, offered_singleton _ hk]
    rw [hoffered] at hss
    obtain ⟨rfl, haccepts⟩ := ih _ _ hss
    refine ⟨by simp, fun x hx => ?_, ?_⟩
    · rw [postorderOf_cons, postorder_eq, innerPostorder_eq] at hx
      rcases List.mem_append.1 hx with hx | hx
      · rcases List.mem_append.1 hx with hx | hx
        · obtain ⟨inner, hmem, hx⟩ := List.mem_flatMap.1 hx
          obtain ⟨front, back, hsplit⟩ := List.append_of_mem hmem
          exact (hchildren front inner back hsplit).named x hx
        · cases List.mem_singleton.1 hx
          simp [hk]
      · exact haccepts.named x hx
    · exact not_dangles_cons hadmits.references
        (fun front inner back hsplit => (hchildren front inner back hsplit).resolved)
        haccepts.resolved

/-- The errors by which steps are rejected: a reference dangles, or a name cannot be made available. -/
def Rejects (available : List Key) (ss : List Step) (f : Error) : Prop :=
  (∃ s n, Dangles available ss s n ∧ f = Error.spelled (.unknownReference s.name n)) ∨
    f = .fault .wrongType ∧ ∃ x ∈ postorderOf ss, x.name.toKey? = none

theorem checkReferences_of_error {name : Value} {available : List Key} {references : List String}
    {f : Error} (h : checkReferences name available references = .error f) :
    ∃ n ∈ references, Key.str n ∉ available ∧ f = Error.spelled (.unknownReference name n) := by
  induction references with
  | nil => cases h
  | cons n rest ih =>
    rw [checkReferences] at h
    split at h
    · obtain ⟨m, hm, hfound⟩ := ih h
      exact ⟨m, .tail _ hm, hfound⟩
    · rename_i hnot
      cases h
      exact ⟨n, .head _, fun hmem => hnot (by simpa [Key.same] using hmem), rfl⟩

theorem checkNested_of_error {sequences : List (List Step)} {available : List Key} {f : Error}
    (h : checkNested available sequences = .error f) :
    ∃ front inner back, sequences = front ++ inner :: back ∧
      checkSequence (offered available (front.flatMap postorderOf)) inner = .error f := by
  induction sequences generalizing available with
  | nil => cases h
  | cons ss rest ih =>
    rcases bind_error_iff.1 h with hss | ⟨between, hss, hrest⟩
    · exact ⟨[], ss, rest, rfl, hss⟩
    · obtain ⟨rfl, -⟩ := checkSequence_of_ok ss _ _ hss
      obtain ⟨front, inner, back, rfl, hinner⟩ := ih hrest
      exact ⟨ss :: front, inner, back, rfl, by simpa using hinner⟩

/-- The check reports a reference that dangles, or a name that cannot be made available. -/
theorem checkSequence_of_error (ss : List Step) : ∀ available f,
    checkSequence available ss = .error f → Rejects available ss f := by
  induction ss using nestedInduction with
  | nil => exact fun _ _ h => nomatch h
  | cons s ss hinner ih =>
    intro available f h
    rcases bind_error_iff.1 h with hs | ⟨between, hs, hss⟩
    · rw [checkStep_eq] at hs
      rcases bind_error_iff.1 hs with hreferences | ⟨_, -, hs⟩
      · obtain ⟨n, hn, hnot, rfl⟩ := checkReferences_of_error hreferences
        exact .inl ⟨s, n, .here hn hnot, rfl⟩
      · rcases bind_error_iff.1 hs with hnested | ⟨nested, -, hname⟩
        · obtain ⟨front, inner, back, hsplit, hfailed⟩ := checkNested_of_error hnested
          have hmem : inner ∈ s.children := by
            rw [hsplit]
            exact List.mem_append_right _ (.head _)
          refine (hinner inner hmem _ _ hfailed).imp ?_ (And.imp_right ?_)
          · rintro ⟨t, n, hdangles, rfl⟩
            exact ⟨t, n, hdangles.inside hsplit, rfl⟩
          · rintro ⟨x, hx, hk⟩
            refine ⟨x, ?_, hk⟩
            rw [postorderOf_cons, postorder_eq, innerPostorder_eq, List.append_assoc]
            exact List.mem_append_left _ (List.mem_flatMap.2 ⟨inner, hmem, hx⟩)
        · unfold makeAvailable at hname
          split at hname
          · cases hname
          · rename_i hk
            cases hname
            refine .inr ⟨rfl, s, ?_, hk⟩
            rw [postorderOf_cons, postorder_eq]
            simp
    · obtain ⟨nested, k, hadmits, hk, rfl⟩ := checkStep_iff.1 hs
      obtain ⟨rfl, -⟩ := checkNested_of_ok (fun ss _ => checkSequence_of_ok ss) hadmits.children
      rw [← offered_singleton _ hk, ← offered_append, ← innerPostorder_eq, ← postorder_eq] at hss
      refine (ih _ _ hss).imp ?_ (And.imp_right ?_)
      · rintro ⟨t, n, hdangles, rfl⟩
        exact ⟨t, n, hdangles.behind, rfl⟩
      · rintro ⟨x, hx, hk⟩
        exact ⟨x, List.mem_append_right _ hx, hk⟩

/-! ## The check of a workflow -/

/-- A reference of a workflow that dangles: in a field of the step there is a path to what lies below the
output of a step, and neither the inputs nor a step that is completed before have the name. -/
structure HasDangling (w : Workflow) (s : Step) (name : String) : Prop where
  path : ∃ expression ∈ Template.referencesAll s.referenceFields, ∃ part rest,
    Template.segments expression = "steps" :: name :: part :: rest
  plain : IsPlain name
  notInput : name ≠ inputStepName
  unknown : ∃ earlier, Stands earlier w.steps s ∧ ∀ x ∈ earlier, x.name ≠ .str name

theorem mem_referencedSteps {s : Step} {name : String} :
    name ∈ referencedSteps s ↔ IsPlain name ∧
      ∃ expression ∈ Template.referencesAll s.referenceFields, ∃ part rest,
        Template.segments expression = "steps" :: name :: part :: rest := by
  simp only [referencedSteps, List.mem_filterMap, referencedStep?_eq_some]
  constructor
  · rintro ⟨expression, hmem, hplain, hpath⟩
    exact ⟨hplain, expression, hmem, hpath⟩
  · rintro ⟨hplain, expression, hmem, hpath⟩
    exact ⟨expression, hmem, hplain, hpath⟩

theorem hasDangling_iff {w : Workflow} {s : Step} {name : String} :
    w.HasDangling s name ↔ Dangles [.str inputStepName] w.steps s name := by
  have hnot (earlier : List Step) : Key.str name ∉ offered [.str inputStepName] earlier ↔
      name ≠ inputStepName ∧ ∀ x ∈ earlier, x.name ≠ .str name := by
    simp [mem_offered]
  constructor
  · rintro ⟨hpath, hplain, hinput, earlier, hstands, hearlier⟩
    exact ⟨earlier, hstands, mem_referencedSteps.2 ⟨hplain, hpath⟩, (hnot earlier).2 ⟨hinput, hearlier⟩⟩
  · rintro ⟨earlier, hstands, hname, hunknown⟩
    obtain ⟨hplain, hpath⟩ := mem_referencedSteps.1 hname
    obtain ⟨hinput, hearlier⟩ := (hnot earlier).1 hunknown
    exact ⟨hpath, hplain, hinput, earlier, hstands, hearlier⟩

/-- A workflow is accepted if and only if no reference of a plain name dangles in it and all names can be
made available. Otherwise the error reports such a reference, or a name that cannot. -/
theorem requireReferences_exact (w : Workflow) :
    (w.requireReferences = .ok () ↔
      (∀ s name, ¬ w.HasDangling s name) ∧ ∀ x ∈ w.nodes, x.name.toKey?.isSome) ∧
    ∀ f, w.requireReferences = .error f →
      (∃ s name, w.HasDangling s name ∧ f = Error.spelled (.unknownReference s.name name)) ∨
        f = .fault .wrongType ∧ ∃ x ∈ w.nodes, x.name.toKey? = none := by
  have hnodes (x : Step) : x ∈ w.nodes ↔ x ∈ postorderOf w.steps := w.postorder_perm.mem_iff.symm
  simp only [hasDangling_iff, hnodes]
  cases hcheck : checkSequence [.str inputStepName] w.steps with
  | ok available =>
    obtain ⟨-, haccepts⟩ := checkSequence_of_ok w.steps _ _ hcheck
    have hok : w.requireReferences = .ok () := bind_iff.2 ⟨available, hcheck, rfl⟩
    exact ⟨iff_of_true hok ⟨haccepts.resolved, haccepts.named⟩, fun f hf => nomatch hok.symm.trans hf⟩
  | error f =>
    have hrejects := checkSequence_of_error w.steps _ _ hcheck
    have herror : w.requireReferences = .error f := bind_error_iff.2 (.inl hcheck)
    refine ⟨iff_of_false (fun hok => nomatch hok.symm.trans herror) ?_, fun f' hf' => ?_⟩
    · rintro ⟨hresolved, hnamed⟩
      rcases hrejects with ⟨s, name, hdangles, -⟩ | ⟨-, x, hx, hnone⟩
      · exact hresolved s name hdangles
      · have hsome := hnamed x hx
        rw [hnone] at hsome
        cases hsome
    · cases herror.symm.trans hf'
      exact hrejects

/-- A workflow with a step in a branch that refers to the step behind its container. -/
def refersAhead : Workflow where
  name := .str "ahead"
  steps := [
    .conditional (.str "choice") (.str "true")
      [.action (.str "use") (.setVariable (.str "x") (some (.str "\x7b\x7bsteps.later.output\x7d\x7d")))]
      [],
    .action (.str "later") (.log (.str "hi"))]

/-- The step behind the container is not completed before the step in the branch, and so the check reports
the reference. -/
theorem requireReferences_exact_of_refersAhead :
    refersAhead.requireReferences = .error (.unknownReference (.str "use") "later") ∧
      ∃ s name, refersAhead.HasDangling s name := by
  have herror : refersAhead.requireReferences = .error (.unknownReference (.str "use") "later") := by
    decide +kernel
  refine ⟨herror, ?_⟩
  rcases (requireReferences_exact refersAhead).2 _ herror with ⟨s, name, hdangling, -⟩ | ⟨hfault, -⟩
  · exact ⟨s, name, hdangling⟩
  · cases hfault

/-- A workflow that refers to the output of a later step as a whole, and to what lies below that of a
later step with a blank in its name. -/
def refersUnseen : Workflow where
  name := .str "unseen"
  steps := [
    .action (.str "use") (.setVariable (.str "x") (some (.list [
      .str "\x7b\x7bsteps.b\x7d\x7d", .str "\x7b\x7bsteps.c d.x\x7d\x7d"]))),
    .action (.str "b") (.log (.str "hi")),
    .action (.str "c d") (.log (.str "hi"))]

/-- The check accepts references to the outputs of steps that stand behind the step that refers to them,
before which nothing is completed at all: it does not read paths that end at the output, nor names with
blanks. -/
theorem dangling_accepted :
    refersUnseen.requireReferences = .ok () ∧
      ∃ s, Stands [] refersUnseen.steps s ∧
        (∃ expression ∈ Template.referencesAll s.referenceFields,
          Template.segments expression = ["steps", "b"]) ∧
        ∃ expression ∈ Template.referencesAll s.referenceFields,
          Template.segments expression = ["steps", "c d", "x"] := by
  refine ⟨by decide +kernel, _, .here _ _, ?_, ?_⟩
  · exact ⟨"steps.b", by decide +kernel, by decide +kernel⟩
  · exact ⟨"steps.c d.x", by decide +kernel, by decide +kernel⟩

end Workflow

end Stepwise
