-- SUMMARY: Loading keeps every row in its role, and the steps are those of the step rows in stable order.
import Mathlib.Data.List.Forall2
import Stepwise.Loader
import Stepwise.Proofs.Step.Fields
import Stepwise.Run.Pause

/-!
# Loaded workflows

The type of a row gives it one of three roles: it describes a property, it starts the workflow, or
it holds a step. The step rows, put in the order of execution, are the steps of the workflow, one
for one. A row that asks for no place in this order stands at zero, and rows of one place keep
the order in which they are stored. A step has the key of its row as its name and the type of its
row as its type. Everything else in it comes from the configuration of the row.
-/

namespace Stepwise

open Checks

namespace Loader

/-! ## Roles -/

/-- What a row of a workflow template is for. -/
inductive Role where
  | property
  | start
  | step
deriving DecidableEq, Repr

def Role.fits : Role → Dict → Bool
  | .property => PropertySchema.isProperty
  | .start => isStart
  | .step => isStep

def roleOf (row : Dict) : Role :=
  if row.field "step_type" = .null ∨ row.field "step_type" = .str "" ∨
    row.field "step_type" = .str "property" then .property
  else if row.field "step_type" = .str startType then .start
  else .step

theorem isMatch_of_not_nan {v w : Value} (hw : ∀ mark, w ≠ .float (.nan mark)) : v.isMatch w = v.same w := by
  have hnan : v.isSameNan w = false := by
    unfold Value.isSameNan
    split
    · exact absurd rfl (hw _)
    · rfl
  rw [Value.isMatch, hnan, Bool.false_or]

theorem isMatch_str_right (v : Value) (text : String) : v.isMatch (.str text) = (v == .str text) := by
  rw [isMatch_of_not_nan (by simp), Value.same_str_right]

theorem isMatch_null_right (v : Value) : v.isMatch .null = (v == .null) := by
  rw [isMatch_of_not_nan (by simp)]
  cases v <;> rfl

theorem isProperty_iff (row : Dict) : PropertySchema.isProperty row = true ↔ roleOf row = .property := by
  have hmember : PropertySchema.isProperty row = true ↔ row.field "step_type" = .null ∨
      row.field "step_type" = .str "" ∨ row.field "step_type" = .str "property" := by
    simp [PropertySchema.isProperty, Value.memberOf, isMatch_str_right, isMatch_null_right]
  rw [hmember, roleOf]
  constructor
  · exact fun h => if_pos h
  · intro h
    split at h
    · assumption
    · split at h <;> cases h

theorem isStart_iff (row : Dict) : isStart row = true ↔ roleOf row = .start := by
  rw [isStart, Value.same_str_right, beq_iff_eq, roleOf]
  constructor
  · intro h
    rw [h]
    decide
  · intro h
    split at h
    · cases h
    · split at h
      · assumption
      · cases h

theorem isStep_iff (row : Dict) : isStep row = true ↔ roleOf row = .step := by
  have hmember : isStep row = true ↔ ¬ (PropertySchema.isProperty row = true ∨ isStart row = true) := by
    simp [isStep, PropertySchema.isProperty, isStart, Value.memberOf, isMatch_str_right,
      isMatch_null_right, Value.same_str_right, and_assoc]
  rw [hmember, isProperty_iff, isStart_iff]
  cases roleOf row <;> simp

/-- Every row has one role. -/
theorem fits_iff (role : Role) (row : Dict) : role.fits row = true ↔ roleOf row = role := by
  cases role with
  | property => exact isProperty_iff row
  | start => exact isStart_iff row
  | step => exact isStep_iff row

/-! ## Places -/

/-- The place in the order of execution that a row asks for, or zero. -/
def place (row : Dict) : Int :=
  match row.field "execution_order" with
  | .int n => n
  | .bool b => if b then 1 else 0
  | _ => 0

/-- The row asks for a place by an integer, or for none. -/
def HasPlace (row : Dict) : Prop :=
  row.field "execution_order" = .null ∨ (∃ n, row.field "execution_order" = .int n) ∨
    ∃ b, row.field "execution_order" = .bool b

instance (row : Dict) : Decidable (HasPlace row) :=
  match h : row.field "execution_order" with
  | .null => .isTrue (.inl h)
  | .int n => .isTrue (.inr (.inl ⟨n, h⟩))
  | .bool b => .isTrue (.inr (.inr ⟨b, h⟩))
  | .float _ | .str _ | .list _ | .tuple _ | .dict _ | .runLog => .isFalse (by simp [HasPlace, h])

theorem number?_order {row : Dict} (h : HasPlace row) : (order row).number? = some (.int (place row)) := by
  rcases h with h | ⟨n, h⟩ | ⟨(_ | _), h⟩
  · simp [order, place, h, Value.orElse, Value.number?]
  · by_cases hn : n = 0 <;> simp [order, place, h, Value.orElse, Value.truthy, hn, Value.number?]
  · simp [order, place, h, Value.orElse, Value.number?]
  · simp [order, place, h, Value.orElse, Value.number?]

/-- Numbers that are integers come after each other as integers. -/
theorem notAfter_of_ints {v w : Value} {n m : Int} (hv : v.number? = some (.int n))
    (hw : w.number? = some (.int m)) : v.notAfter w = decide (n ≤ m) := by
  have hless : w.less v = .ok (decide (m < n)) := by
    cases w with
    | bool b =>
      cases hw
      rw [Value.less, hv]
      simp only [Number.less_int]
    | int =>
      cases hw
      rw [Value.less, hv]
      simp only [Number.less_int]
    | _ => cases hw
  simp only [Value.notAfter, hless]
  rw [← decide_not, decide_eq_decide]
  omega

theorem isOrderedNumber_of_int {v : Value} {n : Int} (h : v.number? = some (.int n)) :
    v.isOrderedNumber = true := by
  cases v <;> first | rfl | cases h

/-- Rows that have places are sorted by them. -/
theorem sort_eq_mergeSort {rows : List Dict} (h : ∀ row ∈ rows, HasPlace row) :
    sort rows = .ok (rows.mergeSort fun a b => decide (place a ≤ place b)) := by
  have hnumbers : ∀ row ∈ rows, (order row).isOrderedNumber = true := fun row hrow =>
    isOrderedNumber_of_int (number?_order (h row hrow))
  have hsame := List.map_mergeSort (f := id) (l := rows)
    (r := fun a b => Value.notAfter (order a) (order b)) (s := fun a b => decide (place a ≤ place b))
    fun a ha b hb => notAfter_of_ints (number?_order (h a ha)) (number?_order (h b hb))
  rw [List.map_id, List.map_id] at hsame
  rw [sort, Value.sortBy_of_numbers hnumbers, hsame]

/-- The rows in the order of their places; rows of one place are in the order of the second list. -/
structure IsOrdering (ordered rows : List Dict) : Prop where
  perm : ordered.Perm rows
  places : ordered.Pairwise fun a b => place a ≤ place b
  ties : ∀ n, ordered.filter (place · = n) = rows.filter (place · = n)

theorem isOrdering_mergeSort (rows : List Dict) :
    IsOrdering (rows.mergeSort fun a b => decide (place a ≤ place b)) rows := by
  have htrans (a b c : Dict) (hab : decide (place a ≤ place b) = true)
      (hbc : decide (place b ≤ place c) = true) : decide (place a ≤ place c) = true := by
    simp only [decide_eq_true_eq] at *
    omega
  have htotal (a b : Dict) : (decide (place a ≤ place b) || decide (place b ≤ place a)) = true := by
    simp only [Bool.or_eq_true, decide_eq_true_eq]
    omega
  have hperm := List.mergeSort_perm rows fun a b => decide (place a ≤ place b)
  refine ⟨hperm, ?_, fun n => ?_⟩
  · exact (List.pairwise_mergeSort htrans htotal rows).imp fun h => of_decide_eq_true h
  · -- The rows of one place are in order already, so sorting keeps them as they are.
    have hties : (rows.filter (place · = n)).Pairwise fun a b => decide (place a ≤ place b) = true := by
      refine List.Pairwise.imp_of_mem (R := fun _ _ => True) ?_ (List.pairwise_of_forall (by simp))
      intro a b ha hb _
      simp only [List.mem_filter, decide_eq_true_eq] at ha hb ⊢
      omega
    have hsublist := (List.sublist_mergeSort htrans htotal hties List.filter_sublist).filter (place · = n)
    rw [List.filter_filter] at hsublist
    simp only [Bool.and_self] at hsublist
    exact (hsublist.eq_of_length (hperm.filter _).length_eq.symm).symm

/-! ## Rows and their steps -/

/-- The configuration is given as an object, as text that holds the object as JSON, or not at all. -/
inductive Configures : Value → Dict → Prop
  | object (d : Dict) : Configures (.dict d) d
  | text {s : String} {d : Dict} : Json.read s = .ok (.dict d) → Configures (.str s) d
  | absent {v : Value} : v.truthy = false → Configures v []

theorem configuration_of_configures {row d : Dict} (h : Configures (row.field "step_config") d) :
    configuration row = .ok (.dict d) := by
  unfold configuration
  generalize row.field "step_config" = v at h
  cases h with
  | object => cases d <;> rfl
  | @text s _ hread =>
    have htext : s ≠ "" := by
      rintro rfl
      cases hread
    simp [Value.orElse, Value.truthy, htext, unpack, hread]
  | absent hfalse => simp [Value.orElse, hfalse, unpack]

/-- The step is what its row holds: its name is the key, its type that of the row, and the rest of it
what the configuration describes. -/
structure Holds (row : Dict) (s : Step) : Prop where
  name : s.name = row.field "key"
  type : row.field "step_type" = .str s.type
  rest : ∀ d, Configures (row.field "step_config") d → ∃ described,
    Step.ofValue (.dict (d.insert (.str "type") (.str s.type))) = .ok described ∧
      s = described.renamed (row.field "key")

theorem holds_of_stepOf {row : Dict} {s : Step} (h : stepOf row = .ok s) : Holds row s := by
  simp only [stepOf, bind_iff, lift_iff] at h
  obtain ⟨config, ⟨v, hv, hconfig⟩, h⟩ := h
  have hname : s.name = row.field "key" := by
    rw [Step.name_of_ofValue h]
    simp [Step.readName, Dict.pick?, Dict.field?_insert]
  have htype : row.field "step_type" = .str s.type := by
    simpa [Dict.field, Dict.field?_insert] using Step.type_of_ofValue h
  refine ⟨hname, htype, fun d hd => ?_⟩
  rw [configuration_of_configures hd] at hv
  obtain rfl := Except.ok.inj hv
  obtain rfl : d = config := Except.ok.inj hconfig
  -- The dictionaries differ in the name only, and all else is read alike.
  have hagree : Step.AgreeButName
      ((d.insert (.str "name") (row.field "key")).insert (.str "type") (row.field "step_type"))
      (d.insert (.str "type") (row.field "step_type")) := by
    intro field hfield
    have hfield : field ≠ "name" := fun heq => hfield (heq ▸ by decide)
    rw [Dict.field?_insert, Dict.field?_insert, Dict.field?_insert, if_neg hfield]
  rw [← htype]
  refine ⟨_, Step.ofValue_of_agree hagree h, ?_⟩
  rw [Step.renamed_renamed, ← hname, Step.renamed_self]

/-! ## Loading -/

theorem stepRows_rows (rows : List Dict) : stepRows (rows.map .dict) = .ok (rows.filter isStep) := by
  induction rows with
  | nil => rfl
  | cons row rest ih =>
    have hrow : (Value.dict row).toRecord "get" = .ok row := rfl
    rw [List.map_cons, stepRows, hrow, ok_bind, ih, ok_bind, List.filter_cons]
    cases isStep row <;> rfl

/-- Steps that are read from rows one by one are what these rows hold. -/
theorem forall₂_holds {rows : List Dict} {steps : List Step} (h : rows.mapM stepOf = .ok steps) :
    List.Forall₂ Holds rows steps := by
  rw [mapM_iff] at h
  induction rows generalizing steps with
  | nil =>
    obtain rfl := List.map_eq_nil_iff.1 h.symm
    exact .nil
  | cons row rest ih =>
    cases steps with
    | nil => cases h
    | cons s steps =>
      obtain ⟨hs, hrest⟩ := List.cons.inj h
      exact .cons (holds_of_stepOf hs) (ih hrest)

/-- Every row of a template has one role. The steps of a workflow that is loaded are those of the
step rows, each of them once, in the order of their places, where rows of one place keep their order;
and every step is what its row holds. -/
theorem load_keeps_rows {source : TemplateSource} {id : Value} {rows : List Dict} {w : Workflow}
    (hrows : source.rows id = .ok (.list (rows.map .dict)))
    (hplaces : ∀ row ∈ rows, isStep row = true → HasPlace row)
    (hload : load source id = .ok (some w)) :
    (∀ row ∈ rows, ∃! role : Role, role.fits row = true) ∧
    ∃ ordered, IsOrdering ordered (rows.filter isStep) ∧ List.Forall₂ Holds ordered w.steps := by
  refine ⟨fun row _ => ⟨roleOf row, (fits_iff _ row).2 rfl, fun role h => ((fits_iff role row).1 h).symm⟩,
    _, isOrdering_mergeSort _, forall₂_holds ?_⟩
  simp only [load, bind_iff, lift_iff] at hload
  obtain ⟨template, -, hload⟩ := hload
  split at hload
  · cases hload
  · simp only [bind_iff, lift_iff, pure_iff, hrows] at hload
    obtain ⟨d, -, items, ⟨_, ⟨⟩, hitems⟩, _, -, w', hbuild, ⟨⟩⟩ := hload
    obtain rfl := Except.ok.inj hitems
    simp only [build, bind_iff, lift_iff, pure_iff] at hbuild
    obtain ⟨start?, -, heading, -, ordered, ⟨kept, hkept, hsort⟩, steps, hsteps, _, -, rfl⟩ := hbuild
    rw [stepRows_rows] at hkept
    obtain rfl := Except.ok.inj hkept
    rw [sort_eq_mergeSort fun row hrow =>
      hplaces row (List.mem_of_mem_filter hrow) (List.mem_filter.1 hrow).2] at hsort
    obtain rfl := Except.ok.inj hsort
    exact hsteps

/-- A template with a start row, a property row, and three step rows of which the last comes first. One
of them has a name of its own in its configuration, another is configured by text. -/
def scattered : List Dict := [
  Dict.ofFields [("key", .str "late"), ("step_type", .str "log"), ("execution_order", .int 7),
    ("step_config", .record [("name", .str "other"), ("type", .str "agent"), ("message", .str "a")])],
  Dict.ofFields [("key", .str "start"), ("step_type", .str "start"),
    ("step_config", .record [("tool_name", .str "told")])],
  Dict.ofFields [("key", .str "title"), ("type", .str "text")],
  Dict.ofFields [("key", .str "early"), ("step_type", .str "log"),
    ("step_config", .str "\x7b\"message\": \"b\"\x7d")],
  Dict.ofFields [("key", .str "first"), ("step_type", .str "return"), ("execution_order", .int (-1))]]

def scatteredSource : TemplateSource where
  template _ := .ok (.record [("type", .str templateType)])
  rows _ := .ok (.list (scattered.map .dict))

/-- The steps of the scattered rows, in order. -/
def gathered : Workflow where
  name := .str "told"
  steps := [.action (.str "first") (.finish none), .action (.str "early") (.log (.str "b")),
    .action (.str "late") (.log (.str "a"))]

theorem load_keeps_rows_of_scattered :
    load scatteredSource (.str "1") = .ok (some gathered) ∧
    ∃ ordered, IsOrdering ordered (scattered.filter isStep) ∧ List.Forall₂ Holds ordered gathered.steps := by
  have hsort : sort (scattered.filter isStep) = .ok (scattered.filter isStep).reverse := by
    have hrows : scattered.filter isStep = [scattered[0], scattered[3], scattered[4]] := by decide +kernel
    have h0 : place scattered[0] = 7 := by decide +kernel
    have h3 : place scattered[3] = 0 := by decide +kernel
    have h4 : place scattered[4] = -1 := by decide +kernel
    rw [sort_eq_mergeSort (by decide +kernel), hrows]
    simp [List.mergeSort, h0, h3, h4]
  have hload : load scatteredSource (.str "1") = .ok (some gathered) := by
    have hparts : load scatteredSource (.str "1") = (do
        let w ← (do
          let ordered ← (sort (scattered.filter isStep) : Except Fault (List Dict))
          let steps ← ordered.mapM stepOf
          return { gathered with steps })
        return some w) := rfl
    rw [hparts, hsort]
    decide +kernel
  refine ⟨hload, (load_keeps_rows rfl ?_ hload).2⟩
  decide +kernel

end Loader

end Stepwise
