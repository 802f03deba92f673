-- SUMMARY: A step is read from the fields of a dictionary, and all of it but its name from other fields than the name.
import Mathlib.Data.List.Forall2
import Stepwise.Proofs.Step.Rereading

/-!
# Fields of steps

What is read from a dictionary is read from the fields that it names. The name of a step comes
from two fields that nothing else is read from, so that dictionaries which agree on all other
fields describe the same step under different names. The cases of a switch come from the entries
of one field, one case for each entry if their labels differ.
-/

namespace Stepwise

open Checks

namespace Step

/-! ## Nested steps -/

theorem stepsUnder_eq_field? (name : String) (d : Dict) :
    stepsUnder name d = match d.field? name with
      | some v => stepsOf v
      | none => .ok [] := by
  unfold Dict.field?
  induction d with
  | nil => rfl
  | cons e rest ih =>
    obtain ⟨k, v⟩ := e
    rw [stepsUnder, ih, Dict.get?_cons]
    split <;> rfl

theorem casesUnder_eq_field? (d : Dict) :
    casesUnder d = match d.field? "cases" with
      | some v => casesOf v
      | none => .ok [] := by
  unfold Dict.field?
  induction d with
  | nil => rfl
  | cons e rest ih =>
    obtain ⟨k, v⟩ := e
    rw [casesUnder, ih, Dict.get?_cons]
    split <;> rfl

/-- The default that a value describes: none if it is `null`. -/
def defaultOf (v : Value) : Except Error (Option (List Step)) :=
  if v.isNull then .ok none else (stepsOf v).map some

theorem defaultUnder_eq_field? (name : String) (d : Dict) :
    defaultUnder name d = (d.field? name).map defaultOf := by
  unfold Dict.field?
  induction d with
  | nil => rfl
  | cons e rest ih =>
    obtain ⟨k, v⟩ := e
    rw [defaultUnder, ih, Dict.get?_cons]
    split
    · rw [Option.map_some, defaultOf]
      cases v.isNull <;> cases stepsOf v <;> rfl
    · rfl

/-! ## Cases -/

/-- The case is what an entry describes: its label is the text of the key, its steps those of the
value. -/
structure IsCaseOf (e : Key × Value) (c : String × List Step) : Prop where
  spells : e.1.isSpellable = true
  label : c.1 = e.1.text
  steps : stepsOf e.2 = .ok c.2

/-- Entries whose keys have different texts describe one case each. -/
theorem casesOfEntries_of_nodup {entries : List (Key × Value)} (before : List (String × List Step))
    {cases : List (String × List Step)}
    (hlabels : (before.map (·.1) ++ entries.map (·.1.text)).Nodup)
    (h : casesOfEntries before entries = .ok cases) :
    ∃ added, cases = before ++ added ∧ List.Forall₂ IsCaseOf entries added := by
  induction entries generalizing before with
  | nil =>
    cases h
    exact ⟨[], (List.append_nil _).symm, .nil⟩
  | cons e rest ih =>
    obtain ⟨k, v⟩ := e
    simp only [casesOfEntries, bind_iff, lift_iff] at h
    obtain ⟨label, hlabel, steps, hsteps, h⟩ := h
    obtain ⟨hspells, rfl⟩ : k.isSpellable = true ∧ label = k.text := by
      unfold Key.spell at hlabel
      split at hlabel
      · rename_i hspells
        exact ⟨hspells, (Except.ok.inj hlabel).symm⟩
      · cases hlabel
    have hnew : k.text ∉ before.map (·.1) := fun hmem =>
      (List.nodup_append.1 hlabels).2.2 _ hmem _ List.mem_cons_self rfl
    rw [storeCase_of_new steps hnew] at h
    obtain ⟨added, rfl, hadded⟩ := ih _ (by simpa using hlabels) h
    exact ⟨(k.text, steps) :: added, by simp, .cons ⟨hspells, rfl, hsteps⟩ hadded⟩

/-! ## Steps under different names -/

def nameFields : List String := ["name", "id"]

/-- The dictionaries agree on all fields but those that name a step. -/
def AgreeButName (d e : Dict) : Prop := ∀ field, field ∉ nameFields → d.field? field = e.field? field

def renamed (name : Value) : Step → Step
  | .action _ act => .action name act
  | .conditional _ condition thenSteps elseSteps => .conditional name condition thenSteps elseSteps
  | .switch _ subject cases default? => .switch name subject cases default?

@[simp] theorem name_renamed (name : Value) (s : Step) : (s.renamed name).name = name := by
  cases s <;> rfl

@[simp] theorem renamed_renamed (name name' : Value) (s : Step) :
    (s.renamed name).renamed name' = s.renamed name' := by
  cases s <;> rfl

theorem renamed_self (s : Step) : s.renamed s.name = s := by
  cases s <;> rfl

variable {d e : Dict}

theorem AgreeButName.pick? (h : AgreeButName d e) {fields : List String}
    (hfields : ∀ field ∈ fields, field ∉ nameFields) : d.pick? fields = e.pick? fields := by
  induction fields with
  | nil => rfl
  | cons field rest ih =>
    obtain ⟨hfield, hrest⟩ := List.forall_mem_cons.1 hfields
    rw [Dict.pick?, Dict.pick?, h field hfield, ih hrest]

theorem AgreeButName.pick (h : AgreeButName d e) {fields : List String}
    (hfields : ∀ field ∈ fields, field ∉ nameFields) : d.pick fields = e.pick fields := by
  rw [Dict.pick, Dict.pick, h.pick? hfields]

theorem AgreeButName.field (h : AgreeButName d e) {name : String} (hname : name ∉ nameFields) :
    d.field name = e.field name := by
  rw [Dict.field, Dict.field, h name hname]

/-- No action is read from the name of its step. -/
theorem AgreeButName.read (h : AgreeButName d e) (kind : ActionKind) : kind.read d = kind.read e := by
  cases kind with
  | log => rw [ActionKind.read, ActionKind.read, h.field (by decide)]
  | setVariable =>
    rw [ActionKind.read, ActionKind.read, h.pick (by decide), h "value" (by decide)]
  | callTool | callFunction =>
    rw [ActionKind.read, ActionKind.read, h.pick (by decide), h.field (by decide), h.pick (by decide)]
  | finish => rw [ActionKind.read, ActionKind.read, h.pick? (by decide)]
  | createObject =>
    rw [ActionKind.read, ActionKind.read, h.pick? (by decide), h.field (by decide), h.pick (by decide),
      h.pick (by decide)]
  | loadObject =>
    rw [ActionKind.read, ActionKind.read, h.pick (by decide), h.field (by decide), h.pick (by decide)]
  | agent =>
    rw [ActionKind.read, ActionKind.read, h.field (by decide), h.pick? (by decide), h.pick (by decide)]
  | loadState =>
    rw [ActionKind.read, ActionKind.read, h.pick (by decide), h.pick (by decide), h.pick (by decide)]
  | saveState => rw [ActionKind.read, ActionKind.read, h.pick (by decide), h "value" (by decide)]

/-- The kind of a step is the one written under its type. -/
theorem readKind_eq_ok_iff {kind : StepKind} :
    readKind d = .ok kind ↔ d.field "type" = .str kind.name := by
  unfold readKind
  constructor
  · intro h
    dsimp only at h
    split at h
    · cases h
    · split at h
      · rename_i found hfound
        obtain ⟨type, htype, hname⟩ := Option.bind_eq_some_iff.1 hfound
        cases h
        have hsame : kind.name = type := by simpa using List.find?_some hname
        cases hfield : d.field "type" <;> rw [hfield] at htype <;> cases htype
        rw [hsame]
      · cases h
  · intro h
    rw [h]
    simp [Value.toKey?, Value.str?, StepKind.ofName?_name]

/-- Dictionaries that agree on all fields but the name describe the same step under their own names. -/
theorem ofValue_of_agree (h : AgreeButName d e) {s : Step} (hs : ofValue (.dict d) = .ok s) :
    ofValue (.dict e) = .ok (s.renamed (readName e)) := by
  rw [ofValue, bind_iff] at hs ⊢
  obtain ⟨kind, hkind, hs⟩ := hs
  refine ⟨kind, ?_, ?_⟩
  · rw [readKind_eq_ok_iff, ← h.field (by decide)]
    exact readKind_eq_ok_iff.1 hkind
  · cases kind with
    | action kind =>
      simp only [bind_iff, pure_iff, lift_iff] at hs ⊢
      obtain ⟨act, hact, rfl⟩ := hs
      exact ⟨act, (h.read kind).symm.trans hact, rfl⟩
    | conditional =>
      have hcondition : d.field "condition" = e.field "condition" := h.field (by decide)
      simp only [stepsUnder_eq_field?, h "then" (by decide), h "else" (by decide), hcondition, bind_iff,
        pure_iff] at hs ⊢
      obtain ⟨thenSteps, hthen, elseSteps, helse, rfl⟩ := hs
      exact ⟨thenSteps, hthen, elseSteps, helse, rfl⟩
    | switch =>
      have hsubject : d.pick ["switch_value", "switchValue"] = e.pick ["switch_value", "switchValue"] :=
        h.pick (by decide)
      simp only [casesUnder_eq_field?, defaultUnder_eq_field?, h "cases" (by decide),
        h "default_case" (by decide), h "defaultCase" (by decide), hsubject, bind_iff, pure_iff] at hs ⊢
      obtain ⟨cases, hcases, default?, hdefault, rfl⟩ := hs
      exact ⟨cases, hcases, default?, hdefault, rfl⟩

/-- A step has the name that its dictionary gives. -/
theorem name_of_ofValue {s : Step} (h : ofValue (.dict d) = .ok s) : s.name = readName d := by
  have hsame := ofValue_of_agree (fun _ _ => rfl) h
  rw [h] at hsame
  rw [Except.ok.inj hsame, name_renamed]

/-- A step is read from a dictionary that holds its type. -/
theorem type_of_ofValue {s : Step} (h : ofValue (.dict d) = .ok s) : d.field "type" = .str s.type := by
  rw [ofValue, bind_iff] at h
  obtain ⟨kind, hkind, h⟩ := h
  rw [readKind_eq_ok_iff.1 hkind]
  cases kind with
  | action kind =>
    simp only [bind_iff, pure_iff, lift_iff] at h
    obtain ⟨act, hact, rfl⟩ := h
    rw [Step.type, Step.kind, (ActionKind.read_normal hact).1]
  | conditional =>
    simp only [bind_iff, pure_iff] at h
    obtain ⟨thenSteps, -, elseSteps, -, rfl⟩ := h
    rfl
  | switch =>
    simp only [bind_iff, pure_iff] at h
    obtain ⟨cases, -, default?, -, rfl⟩ := h
    rfl

/-- A switch is read with the subject and the cases of its dictionary. -/
theorem switch_of_ofValue {name subject : Value} {cases : List (String × List Step)}
    {default? : Option (List Step)} (h : ofValue (.dict d) = .ok (.switch name subject cases default?)) :
    subject = d.pick ["switch_value", "switchValue"] ∧ casesUnder d = .ok cases := by
  rw [ofValue, bind_iff] at h
  obtain ⟨kind, -, h⟩ := h
  cases kind with
  | action kind =>
    simp only [bind_iff, pure_iff] at h
    obtain ⟨act, -, ⟨⟩⟩ := h
  | conditional =>
    simp only [bind_iff, pure_iff] at h
    obtain ⟨thenSteps, -, elseSteps, -, ⟨⟩⟩ := h
  | switch =>
    simp only [bind_iff, pure_iff] at h
    obtain ⟨cases, hcases, default?, -, ⟨⟩⟩ := h
    exact ⟨rfl, hcases⟩

end Step

end Stepwise
