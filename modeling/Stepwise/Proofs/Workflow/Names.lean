-- SUMMARY: The names of a well-formed workflow: keys, all present, all different, none reserved.
import Mathlib.Data.List.Nodup
import Stepwise.Proofs.Value.Data
import Stepwise.Proofs.Value.Keys
import Stepwise.Proofs.Step.Order
import Stepwise.Workflow.Wellformed

/-!
# Names of steps

In a well-formed workflow a step is known by its name: every name can serve as a key, and
no two steps share one. So what is said of names in a history is said of steps.
-/

namespace Stepwise

namespace Workflow

/-! ## Duplicates -/

theorem duplicates_ne_nil {seen found : List Key} (keys : List Key) (h : found ≠ []) :
    duplicates seen found keys ≠ [] := by
  induction keys generalizing seen found with
  | nil => exact h
  | cons k ks ih =>
    unfold duplicates
    split
    · exact ih (by simp)
    · exact ih h

/-- Where no name is found twice, all names that count as true differ. -/
theorem pairwise_of_duplicates_eq_nil {seen keys : List Key} (h : duplicates seen [] keys = [])
    (htruthy : ∀ k ∈ keys, k.toValue.truthy = true) :
    (∀ k ∈ keys, ∀ l ∈ seen, k.same l = false) ∧ keys.Pairwise fun k l => l.same k = false := by
  induction keys generalizing seen with
  | nil => exact ⟨nofun, .nil⟩
  | cons k ks ih =>
    unfold duplicates at h
    split at h
    · exact absurd h (duplicates_ne_nil ks (by simp))
    · rename_i hnew
      have hk : ∀ l ∈ seen, k.same l = false := by simpa [htruthy k (.head _)] using hnew
      obtain ⟨hks, hpairwise⟩ := ih h fun l hl => htruthy l (.tail _ hl)
      refine ⟨?_, .cons (fun l hl => hks l hl k (.head _)) hpairwise⟩
      intro l hl m hm
      cases hl with
      | head => exact hk m hm
      | tail _ hl => exact hks l hl m (.tail _ hm)

/-- Where all names differ, from each other and from those seen before, none is found twice. -/
theorem duplicates_eq_nil {seen keys : List Key} (hseen : ∀ k ∈ keys, ∀ l ∈ seen, k.same l = false)
    (hkeys : keys.Pairwise fun k l => l.same k = false) : duplicates seen [] keys = [] := by
  induction keys generalizing seen with
  | nil => rfl
  | cons k ks ih =>
    obtain ⟨hk, hks⟩ := List.pairwise_cons.1 hkeys
    have hnew : seen.any k.same = false := by simpa using hseen k (.head _)
    rw [duplicates, hnew, Bool.and_false, Bool.false_and, if_neg Bool.false_ne_true]
    refine ih (fun l hl m hm => ?_) hks
    cases hm with
    | head => exact hk l hl
    | tail _ hm => exact hseen l (.tail _ hl) m hm

end Workflow

/-! ## Well-formed workflows -/

mutual

/-- A value that serves as a key is that key as a value. -/
theorem Value.toValue_of_toKey? : (v : Value) → {k : Key} → v.toKey? = some k → k.toValue = v
  | .null, _, h => by cases h; rfl
  | .bool _, _, h => by cases h; rfl
  | .int _, _, h => by cases h; rfl
  | .float _, _, h => by cases h; rfl
  | .str _, _, h => by cases h; rfl
  | .tuple vs, _, h => by
    obtain ⟨ks, hks, rfl⟩ := Option.map_eq_some_iff.1 h
    rw [Key.toValue, Value.toValues_of_toKeys? vs hks]
  | .list _, _, h => by cases h
  | .dict _, _, h => by cases h
  | .runLog, _, h => by cases h

theorem Value.toValues_of_toKeys? :
    (vs : List Value) → {ks : List Key} → Value.toKeys? vs = some ks → Key.toValues ks = vs
  | [], _, h => by cases h; rfl
  | v :: vs, _, h => by
    rw [Value.toKeys?] at h
    split at h
    · rename_i k ks hk hks
      cases h
      rw [Key.toValues, Value.toValue_of_toKey? v hk, Value.toValues_of_toKeys? vs hks]
    · cases h

end

namespace Workflow

open Checks

/-- What is known of the names of a well-formed workflow. -/
structure WellNamed (w : Workflow) : Prop where
  keys : ∀ name ∈ w.names, ∃ k, name.toKey? = some k
  truthy : ∀ name ∈ w.names, name.truthy = true
  nodup : w.names.Nodup
  unreserved : .str inputStepName ∉ w.names

namespace WellNamed

variable {w : Workflow}

theorem nodes_nodup (h : w.WellNamed) : w.nodes.Nodup := .of_map Step.name (w.names_eq_map ▸ h.nodup)

/-- Steps of a well-formed workflow are told apart by their names. -/
theorem eq_of_name (h : w.WellNamed) {s s' : Step} (hs : s ∈ w.nodes) (hs' : s' ∈ w.nodes)
    (heq : s.name = s'.name) : s = s' :=
  List.inj_on_of_nodup_map (w.names_eq_map ▸ h.nodup) hs hs' heq

end WellNamed

/-- Names that are keys without duplicates all differ. -/
private theorem wellNamed_of_keys {w : Workflow} {keys : List Key}
    (hkeys : w.names.map Value.toKey = keys.map .ok)
    (htruthy : ∀ name ∈ w.names, name.truthy = true) (hdoubled : duplicates [] [] keys = [])
    (hinput : keys.any (Key.str inputStepName).same = false) : w.WellNamed := by
  have htoKey (name : Value) (hname : name ∈ w.names) : ∃ k ∈ keys, name.toKey? = some k := by
    have hmem := List.mem_map_of_mem (f := Value.toKey) hname
    rw [hkeys] at hmem
    obtain ⟨k, hk, heq⟩ := List.mem_map.1 hmem
    exact ⟨k, hk, toKey_iff.1 heq.symm⟩
  have hname (k : Key) (hk : k ∈ keys) : k.toValue ∈ w.names := by
    have hmem := List.mem_map_of_mem (f := (.ok : Key → Except Fault Key)) hk
    rw [← hkeys] at hmem
    obtain ⟨name, hname, heq⟩ := List.mem_map.1 hmem
    rwa [name.toValue_of_toKey? (toKey_iff.1 heq)]
  have hdifferent := (pairwise_of_duplicates_eq_nil hdoubled fun k hk => htruthy _ (hname k hk)).2
  have hnodup : keys.Nodup :=
    hdifferent.imp fun {k l} h heq => by
      rw [heq, Key.same_refl] at h
      cases h
  refine ⟨fun name hn => (htoKey name hn).imp fun k hk => hk.2, htruthy, ?_, fun hmem => ?_⟩
  · refine .of_map Value.toKey ?_
    rw [hkeys]
    exact hnodup.map fun k l => Except.ok.inj
  · obtain ⟨k, hk, hkey⟩ := htoKey _ hmem
    cases hkey
    rw [List.any_eq_false] at hinput
    exact hinput _ hk (Key.same_refl _)

/-- A workflow is accepted as well formed if and only if there is nothing to report of it. -/
theorem requireWellformed_iff {w : Workflow} :
    w.requireWellformed = .ok () ↔
      ∃ keys, w.names.map Value.toKey = keys.map .ok ∧ duplicates [] [] keys = [] ∧
        w.name.truthy = true ∧ (∀ name ∈ w.names, name.truthy = true) ∧
        keys.any (Key.str inputStepName).same = false ∧ inputTypeErrors w.inputs = .ok [] := by
  simp only [requireWellformed, errors, bind_iff, lift_iff, mapM_iff]
  constructor
  · rintro ⟨errs, ⟨keys, hkeys, herrs⟩, hempty⟩
    have hnil : errs = [] := by
      split at hempty
      · rename_i h
        exact List.isEmpty_iff.1 h
      · cases hempty
    subst hnil
    split at herrs
    · rename_i hdoubled
      simp only [bind_iff, pure_iff, List.append_eq_nil_iff] at herrs
      obtain ⟨_, _, types, htypes, ⟨⟨⟨hname, htruthy⟩, _⟩, hinput⟩, rfl⟩ := herrs
      exact ⟨keys, hkeys, List.isEmpty_iff.1 hdoubled, by simpa using hname, by simpa using htruthy,
        by simpa using hinput, htypes⟩
    · simp only [bind_iff, pure_iff, List.append_eq_nil_iff] at herrs
      obtain ⟨messages, hmessages, _, _, ⟨⟨_, hnone⟩, _⟩, _⟩ := herrs
      subst hnone
      cases hnames : listNames (duplicates [] [] keys) with
      | ok names => rw [hnames] at hmessages; cases hmessages
      | error f => rw [hnames] at hmessages; cases hmessages
  · rintro ⟨keys, hkeys, hdoubled, hname, htruthy, hinput, htypes⟩
    refine ⟨[], ⟨keys, hkeys, ?_⟩, rfl⟩
    have hall : w.names.all Value.truthy = true := List.all_eq_true.2 htruthy
    simp only [hdoubled, htypes, hname, hall, hinput, List.isEmpty_nil, ok_bind]
    rfl

theorem wellNamed {w : Workflow} (h : w.requireWellformed = .ok ()) : w.WellNamed := by
  obtain ⟨keys, hkeys, hdoubled, -, htruthy, hinput, -⟩ := requireWellformed_iff.1 h
  exact wellNamed_of_keys hkeys htruthy hdoubled hinput

end Workflow

end Stepwise
