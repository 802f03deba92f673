-- SUMMARY: What every step has that is read from data, and the steps nested in it too.
import Stepwise.Proofs.Checks
import Stepwise.Proofs.Step.Order
import Stepwise.Proofs.Value.Lawful

/-!
# Steps that are read

Steps are read from values that contain the values of the steps nested in them. So a property
that values hand down to their parts, and that gives a property of every step read from a
value which has it, gives that property to all steps of the tree.
-/

namespace Stepwise

open Checks

namespace Step

/-- What every step has that is read from values with `P`, and the steps nested in it too, because each
way of reading one gives it. -/
structure ReadsAs (P : Value → Prop) (Q : Step → Prop) : Prop where
  action : ∀ {d : Dict} {kind : ActionKind} {act : Action}, P (.dict d) → kind.read d = .ok act →
    Q (.action (readName d) act)
  conditional : ∀ {d : Dict} (thenSteps elseSteps : List Step), P (.dict d) →
    Q (.conditional (readName d) (d.field "condition") thenSteps elseSteps)
  switch : ∀ {d : Dict} {cases : List (String × List Step)} (default? : Option (List Step)),
    P (.dict d) → (cases.map (·.1)).Nodup →
    Q (.switch (readName d) (d.pick ["switch_value", "switchValue"]) cases default?)

/-! ## Cases -/

/-- A label that is known already adds no label. -/
theorem storeCase_labels (label : String) (steps : List Step) (cases : List (String × List Step)) :
    (storeCase label steps cases).map (·.1)
      = if label ∈ cases.map (·.1) then cases.map (·.1) else cases.map (·.1) ++ [label] := by
  induction cases with
  | nil => simp [storeCase]
  | cons c rest ih =>
    obtain ⟨l, ss⟩ := c
    by_cases hl : l = label
    · simp [storeCase, hl]
    · by_cases hmem : label ∈ rest.map (·.1)
      · simp_all [storeCase]
      · simp_all [storeCase, Ne.symm hl]

/-- Cases as they are read: their labels differ, and the steps in them have `Q`. -/
structure CasesRead (Q : Step → Prop) (cases : List (String × List Step)) : Prop where
  labels : (cases.map (·.1)).Nodup
  nodes : ∀ c ∈ cases, ∀ x ∈ nodesOf c.2, Q x

theorem CasesRead.nil {Q : Step → Prop} : CasesRead Q [] := ⟨.nil, nofun⟩

theorem CasesRead.store {Q : Step → Prop} {cases : List (String × List Step)} (label : String)
    {steps : List Step} (h : CasesRead Q cases) (hsteps : ∀ x ∈ nodesOf steps, Q x) :
    CasesRead Q (storeCase label steps cases) where
  labels := by
    rw [storeCase_labels]
    split
    · exact h.labels
    · rename_i hnew
      refine List.nodup_append.2 ⟨h.labels, by simp, ?_⟩
      rintro l hl _ hlabel rfl
      cases List.mem_singleton.1 hlabel
      exact hnew hl
  nodes := by
    obtain ⟨-, hnodes⟩ := h
    induction cases with
    | nil => simpa [storeCase] using hsteps
    | cons c rest ih =>
      obtain ⟨l, ss⟩ := c
      simp only [List.forall_mem_cons] at hnodes
      rw [storeCase]
      split
      · simpa only [List.forall_mem_cons] using ⟨hsteps, hnodes.2⟩
      · simpa only [List.forall_mem_cons] using ⟨hnodes.1, ih hnodes.2⟩

/-- Nothing is read as steps that counts as false, unless it is a list. -/
theorem eq_nil_of_notSteps {v : Value} {e : Error} {α : Type} {as : List α}
    (h : (if v.truthy then .error e else .ok []) = Except.ok (ε := Error) as) : as = [] := by
  split at h
  · cases h
  · cases h
    rfl

/-! ## Steps -/

variable {P : Value → Prop} {Q : Step → Prop}

mutual

/-- Every step that is read, and every step nested in it, has what reading gives. -/
theorem forall_of_ofValue (hP : Value.HandsDown P) (hQ : ReadsAs P Q) :
    (v : Value) → P v → {s : Step} → ofValue v = .ok s → ∀ x ∈ s.nodes, Q x
  | .dict entries, hv, s, h => by
    rw [ofValue, bind_iff] at h
    obtain ⟨kind, -, h⟩ := h
    cases kind with
    | action kind =>
      simp only [bind_iff, pure_iff, lift_iff] at h
      obtain ⟨act, hact, rfl⟩ := h
      simpa [nodes] using hQ.action hv hact
    | conditional =>
      simp only [bind_iff, pure_iff] at h
      obtain ⟨thenSteps, hthen, elseSteps, helse, rfl⟩ := h
      have hthen := forall_of_stepsUnder hP hQ "then" entries (hP.dict hv) hthen
      have helse := forall_of_stepsUnder hP hQ "else" entries (hP.dict hv) helse
      simp only [nodes, List.forall_mem_cons, List.forall_mem_append]
      exact ⟨hQ.conditional _ _ hv, hthen, helse⟩
    | switch =>
      simp only [bind_iff, pure_iff] at h
      obtain ⟨cases, hcases, default?, hdefault, rfl⟩ := h
      have hcases := forall_of_casesUnder hP hQ entries (hP.dict hv) hcases
      have hself := hQ.switch default? hv hcases.labels
      have hinner : ∀ x ∈ nodesOfCases cases, Q x := by
        rw [nodesOfCases_eq_flatMap]
        intro x hx
        obtain ⟨steps, hsteps, hx⟩ := List.mem_flatMap.1 hx
        obtain ⟨c, hc, rfl⟩ := List.mem_map.1 hsteps
        exact hcases.nodes c hc x hx
      have hdefault : ∀ steps ∈ default?, ∀ x ∈ nodesOf steps, Q x := by
        split at hdefault
        · rename_i result hresult
          subst hdefault
          exact forall_of_defaultUnder hP hQ _ entries (hP.dict hv) hresult
        · cases hunder : defaultUnder "defaultCase" entries with
          | none =>
            rw [hunder] at hdefault
            cases hdefault
            exact nofun
          | some result =>
            rw [hunder] at hdefault
            subst hdefault
            exact forall_of_defaultUnder hP hQ _ entries (hP.dict hv) hunder
      cases default? with
      | none =>
        simp only [nodes, List.forall_mem_cons]
        exact ⟨hself, hinner⟩
      | some steps =>
        simp only [nodes, List.forall_mem_cons, List.forall_mem_append]
        exact ⟨hself, hinner, hdefault steps rfl⟩
  | .null, _, _, h => by cases h
  | .bool _, _, _, h => by cases h
  | .int _, _, _, h => by cases h
  | .float _, _, _, h => by cases h
  | .str _, _, _, h => by cases h
  | .list _, _, _, h => by cases h
  | .tuple _, _, _, h => by cases h
  | .runLog, _, _, h => by cases h

theorem forall_of_stepsOf (hP : Value.HandsDown P) (hQ : ReadsAs P Q) :
    (v : Value) → P v → {ss : List Step} → stepsOf v = .ok ss → ∀ x ∈ nodesOf ss, Q x
  | .list items, hv, ss, h => forall_of_stepsOfAll hP hQ items (hP.list hv) h
  | .tuple items, hv, ss, h => forall_of_stepsOfAll hP hQ items (hP.tuple hv) h
  | .null, _, ss, h => by cases h; exact nofun
  | .bool _, _, ss, h => by rw [eq_nil_of_notSteps h]; exact nofun
  | .int _, _, ss, h => by rw [eq_nil_of_notSteps h]; exact nofun
  | .float _, _, ss, h => by rw [eq_nil_of_notSteps h]; exact nofun
  | .str _, _, ss, h => by rw [eq_nil_of_notSteps h]; exact nofun
  | .dict _, _, ss, h => by rw [eq_nil_of_notSteps h]; exact nofun
  | .runLog, _, ss, h => by rw [eq_nil_of_notSteps (v := .runLog) h]; exact nofun

theorem forall_of_stepsOfAll (hP : Value.HandsDown P) (hQ : ReadsAs P Q) :
    (vs : List Value) → (∀ v ∈ vs, P v) → {ss : List Step} → stepsOfAll vs = .ok ss →
      ∀ x ∈ nodesOf ss, Q x
  | [], _, ss, h => by cases h; exact nofun
  | v :: vs, hvs, ss, h => by
    simp only [stepsOfAll, bind_iff, pure_iff] at h
    obtain ⟨s, hs, ss', hss', rfl⟩ := h
    simp only [List.forall_mem_cons] at hvs
    simp only [nodesOf_cons, List.forall_mem_append]
    exact ⟨forall_of_ofValue hP hQ v hvs.1 hs, forall_of_stepsOfAll hP hQ vs hvs.2 hss'⟩

theorem forall_of_stepsUnder (hP : Value.HandsDown P) (hQ : ReadsAs P Q) (name : String) :
    (es : List (Key × Value)) → (∀ e ∈ es, P e.2) → {ss : List Step} →
      stepsUnder name es = .ok ss → ∀ x ∈ nodesOf ss, Q x
  | [], _, ss, h => by cases h; exact nofun
  | (_, v) :: rest, hes, ss, h => by
    simp only [List.forall_mem_cons] at hes
    rw [stepsUnder] at h
    split at h
    · exact forall_of_stepsOf hP hQ v hes.1 h
    · exact forall_of_stepsUnder hP hQ name rest hes.2 h

theorem forall_of_casesUnder (hP : Value.HandsDown P) (hQ : ReadsAs P Q) :
    (es : List (Key × Value)) → (∀ e ∈ es, P e.2) → {cases : List (String × List Step)} →
      casesUnder es = .ok cases → CasesRead Q cases
  | [], _, cases, h => by cases h; exact .nil
  | (_, v) :: rest, hes, cases, h => by
    simp only [List.forall_mem_cons] at hes
    rw [casesUnder] at h
    split at h
    · exact forall_of_casesOf hP hQ v hes.1 h
    · exact forall_of_casesUnder hP hQ rest hes.2 h

theorem forall_of_casesOf (hP : Value.HandsDown P) (hQ : ReadsAs P Q) :
    (v : Value) → P v → {cases : List (String × List Step)} → casesOf v = .ok cases →
      CasesRead Q cases
  | .dict entries, hv, cases, h =>
    forall_of_casesOfEntries hP hQ entries (hP.dict hv) .nil h
  | .null, _, cases, h => by cases h; exact .nil
  | .bool _, _, cases, h => by rw [eq_nil_of_notSteps h]; exact .nil
  | .int _, _, cases, h => by rw [eq_nil_of_notSteps h]; exact .nil
  | .float _, _, cases, h => by rw [eq_nil_of_notSteps h]; exact .nil
  | .str _, _, cases, h => by rw [eq_nil_of_notSteps h]; exact .nil
  | .list _, _, cases, h => by rw [eq_nil_of_notSteps h]; exact .nil
  | .tuple _, _, cases, h => by rw [eq_nil_of_notSteps h]; exact .nil
  | .runLog, _, cases, h => by rw [eq_nil_of_notSteps (v := .runLog) h]; exact .nil

theorem forall_of_casesOfEntries (hP : Value.HandsDown P) (hQ : ReadsAs P Q) :
    (es : List (Key × Value)) → (∀ e ∈ es, P e.2) → {before cases : List (String × List Step)} →
      CasesRead Q before → casesOfEntries before es = .ok cases → CasesRead Q cases
  | [], _, before, cases, hbefore, h => by cases h; exact hbefore
  | (k, v) :: rest, hes, before, cases, hbefore, h => by
    simp only [List.forall_mem_cons] at hes
    simp only [casesOfEntries, bind_iff] at h
    obtain ⟨label, -, steps, hsteps, h⟩ := h
    have hstored := hbefore.store label (forall_of_stepsOf hP hQ v hes.1 hsteps)
    exact forall_of_casesOfEntries hP hQ rest hes.2 hstored h

theorem forall_of_defaultUnder (hP : Value.HandsDown P) (hQ : ReadsAs P Q) (name : String) :
    (es : List (Key × Value)) → (∀ e ∈ es, P e.2) → {default? : Option (List Step)} →
      defaultUnder name es = some (.ok default?) → ∀ steps ∈ default?, ∀ x ∈ nodesOf steps, Q x
  | [], _, default?, h => by cases h
  | (_, v) :: rest, hes, default?, h => by
    simp only [List.forall_mem_cons] at hes
    rw [defaultUnder] at h
    split at h
    · have h := Option.some.inj h
      split at h
      · cases h
        exact nofun
      · rename_i steps hsteps
        cases h
        rintro _ ⟨⟩
        exact forall_of_stepsOf hP hQ v hes.1 hsteps
      · cases h
    · exact forall_of_defaultUnder hP hQ name rest hes.2 h

end

end Step

end Stepwise
