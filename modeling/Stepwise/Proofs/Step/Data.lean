-- SUMMARY: Steps that are read from data have fields that are data.
import Stepwise.Proofs.Step.Read

/-!
# Steps that are data

The log of a run exists only while the run is in progress, so no definition that is read from
data refers to it: the fields of every step that is read are data.
-/

namespace Stepwise

open Checks Value

/-! ## Actions -/

/-- A present field of data is data. -/
theorem Action.isData_presentField {name : String} {value? : Option Value}
    (h : ∀ v ∈ value?, v.isSettled = true) : ∀ f ∈ presentField name value?, f.2.isSettled = true := by
  cases value? with
  | none => exact nofun
  | some v => simpa [presentField] using h

theorem Value.isSettled_of_itemsIfAny {v : Value} {vs : List Value} (h : v.isSettled = true)
    (hitems : v.itemsIfAny = .ok vs) : ∀ w ∈ vs, w.isSettled = true := by
  unfold itemsIfAny at hitems
  split at hitems
  · exact isSettled_of_items h hitems
  · cases hitems
    exact nofun

theorem ActionKind.isSettled_of_readProperties {v w : Value} (h : v.isSettled = true)
    (hw : readProperties v = .ok w) : w.isSettled = true := by
  unfold readProperties at hw
  split at hw
  · obtain ⟨keys, -, hw⟩ := bind_iff.1 hw
    cases hw
    refine isSettled_dict.2 (Dict.isData_ofEntries ?_)
    intro e he
    obtain ⟨k, -, rfl⟩ := List.mem_map.1 he
    rfl
  · cases hw
    exact holds_orElse (P := (·.isSettled = true)) h rfl

/-- The keys that are read, as they are written. -/
theorem ActionKind.isSettled_of_readKeys {v : Value} {keys? : Option (List Value)}
    (h : v.isSettled = true) (hkeys : readKeys v = .ok keys?) :
    (match keys? with
      | some keys => Value.list keys
      | none => .null).isSettled = true := by
  unfold readKeys at hkeys
  split at hkeys
  · cases hkeys
    rfl
  · obtain ⟨keys, hitems, rfl⟩ := map_iff.1 hkeys
    exact isSettled_list.2 (isSettled_of_items h hitems)

theorem ActionKind.isSettled_of_readInstructions {v : Value} {instructions : List Value}
    (h : v.isSettled = true) (hread : readInstructions v = .ok instructions) :
    ∀ w ∈ instructions, w.isSettled = true := by
  unfold readInstructions at hread
  split at hread
  · cases hread
    split
    · exact nofun
    · simpa using h
  · exact isSettled_of_itemsIfAny h hread

/-- The fields of an action that is read from data are data. -/
theorem ActionKind.isData_of_read {kind : ActionKind} {d : Dict} {act : Action} (hd : d.IsData)
    (h : kind.read d = .ok act) : ∀ f ∈ act.fields, f.2.isSettled = true := by
  have hfield (name : String) : (d.field name).isSettled = true := buildsUp_settled.field hd name
  have hpick (names : List String) : (d.pick names).isSettled = true := buildsUp_settled.pick hd names
  have hpick? (names : List String) : ∀ v ∈ d.pick? names, v.isSettled = true :=
    holds_pick? (P := (·.isSettled = true)) hd names
  have hfield? (name : String) : ∀ v ∈ d.field? name, v.isSettled = true := fun v hv => hd.get? hv
  cases kind with
  | log =>
    cases h
    simp [Action.fields, hfield]
  | setVariable =>
    cases h
    simpa [Action.fields, hpick] using Action.isData_presentField (hfield? "value")
  | callTool | callFunction =>
    cases h
    have hparameters := holds_orElse (P := (·.isSettled = true)) (hfield "parameters") (w := .dict []) rfl
    simp [Action.fields, hpick, hparameters]
  | finish =>
    cases h
    exact Action.isData_presentField (hpick? _)
  | createObject =>
    simp only [read, bind_iff, pure_iff] at h
    obtain ⟨properties, hproperties, instructions, hinstructions, rfl⟩ := h
    have hproperties := isSettled_of_readProperties
      (holds_getD (P := (·.isSettled = true)) (hpick? _) rfl) hproperties
    have hinstructions := isSettled_of_itemsIfAny (hfield _) hinstructions
    simp only [Action.fields, List.forall_mem_cons, isSettled_list]
    exact ⟨hpick _, hproperties, hinstructions, hpick _, List.forall_mem_nil _⟩
  | loadObject =>
    simp only [read, bind_iff, pure_iff] at h
    obtain ⟨keys?, hkeys, instructions, hinstructions, rfl⟩ := h
    have hkeys := isSettled_of_readKeys (hpick _) hkeys
    have hinstructions := isSettled_of_itemsIfAny (hfield _) hinstructions
    simp only [Action.fields, List.forall_mem_cons, isSettled_list]
    exact ⟨hpick _, hkeys, hinstructions, List.forall_mem_nil _⟩
  | agent =>
    simp only [read, bind_iff, pure_iff] at h
    obtain ⟨instructions, hinstructions, rfl⟩ := h
    have hinstructions := isSettled_of_readInstructions (hfield _) hinstructions
    simp only [Action.fields, List.forall_mem_cons, isSettled_list]
    exact ⟨hinstructions, rfl, hpick _, List.forall_mem_nil _⟩
  | loadState =>
    cases h
    simp [Action.fields, hpick]
  | saveState =>
    cases h
    simpa [Action.fields, hpick] using Action.isData_presentField (hfield? "value")

/-! ## Steps -/

namespace Step

/-- The fields of the step are data, and do not refer to the log of any run. -/
def IsData : Step → Prop
  | .action _ act => ∀ f ∈ act.fields, f.2.isSettled = true
  | .conditional _ condition _ _ => condition.isSettled = true
  | .switch _ subject _ _ => subject.isSettled = true

/-- Steps that are read from data are data, with all that are nested in them. -/
theorem readsAs_data : ReadsAs (·.isSettled = true) IsData where
  action hd hact := ActionKind.isData_of_read (isSettled_dict.1 hd) hact
  conditional _ _ hd := buildsUp_settled.field (isSettled_dict.1 hd) _
  switch _ hd _ := buildsUp_settled.pick (isSettled_dict.1 hd) _

theorem isData_of_ofValue {v : Value} {s : Step} (hv : v.isSettled = true) (h : ofValue v = .ok s) :
    ∀ x ∈ s.nodes, x.IsData :=
  forall_of_ofValue handsDown_settled readsAs_data v hv h

end Step

end Stepwise
