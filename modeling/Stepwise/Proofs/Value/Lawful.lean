-- SUMMARY: Values whose dictionaries have different keys, and properties of values and their parts.
import Stepwise.Proofs.Value.Data
import Stepwise.Proofs.Value.Keys

/-!
# Lawful values

A value is lawful if no dictionary in it has the same key twice. Lawfulness, like being data, is
handed down to the parts of a value and gained by building a value up from scalars, as lists
and entry by entry.
-/

namespace Stepwise

/-! ## Lawful values -/

mutual

/-- The dictionaries in the value have different keys. -/
def Value.isLawful : Value → Bool
  | .list items => Value.allLawful items
  | .tuple items => Value.allLawful items
  | .dict entries => Key.AllDifferent (Dict.keys entries) && Value.entriesLawful entries
  | _ => true

def Value.allLawful : List Value → Bool
  | [] => true
  | v :: vs => v.isLawful && Value.allLawful vs

def Value.entriesLawful : List (Key × Value) → Bool
  | [] => true
  | (_, v) :: es => v.isLawful && Value.entriesLawful es

end

namespace Value

theorem allLawful_iff {vs : List Value} : allLawful vs = true ↔ ∀ v ∈ vs, v.isLawful = true := by
  induction vs with
  | nil => simp [allLawful]
  | cons v vs ih => simp [allLawful, ih]

theorem entriesLawful_iff {es : List (Key × Value)} :
    entriesLawful es = true ↔ ∀ e ∈ es, e.2.isLawful = true := by
  induction es with
  | nil => simp [entriesLawful]
  | cons e es ih => simp [entriesLawful, ih]

@[simp] theorem isLawful_list {vs : List Value} :
    isLawful (.list vs) = true ↔ ∀ v ∈ vs, v.isLawful = true := by
  rw [isLawful, allLawful_iff]

@[simp] theorem isLawful_tuple {vs : List Value} :
    isLawful (.tuple vs) = true ↔ ∀ v ∈ vs, v.isLawful = true := by
  rw [isLawful, allLawful_iff]

@[simp] theorem isLawful_dict {d : Dict} :
    isLawful (.dict d) = true ↔ Key.AllDifferent d.keys ∧ ∀ e ∈ d, e.2.isLawful = true := by
  rw [isLawful, Bool.and_eq_true, decide_eq_true_iff, entriesLawful_iff]

/-! ## Properties of values and their parts -/

/-- A property that values hand down to their parts. -/
structure HandsDown (P : Value → Prop) : Prop where
  list : ∀ {vs : List Value}, P (.list vs) → ∀ v ∈ vs, P v
  tuple : ∀ {vs : List Value}, P (.tuple vs) → ∀ v ∈ vs, P v
  dict : ∀ {d : Dict}, P (.dict d) → ∀ e ∈ d, P e.2

/-- The value has no parts and is data. -/
def isScalar : Value → Bool
  | .null | .bool _ | .int _ | .float _ | .str _ => true
  | .list _ | .tuple _ | .dict _ | .runLog => false

/-- A property that scalars have, and that values gain from what they are built up from. -/
structure BuildsUp (P : Value → Prop) : Prop where
  scalar : ∀ {v : Value}, v.isScalar = true → P v
  list : ∀ {vs : List Value}, (∀ v ∈ vs, P v) → P (.list vs)
  empty : P (.dict [])
  insert : ∀ {d : Dict} {v : Value} (k : Key), P (.dict d) → P v → P (.dict (d.insert k v))

theorem holds_orElse {P : Value → Prop} {v w : Value} (hv : P v) (hw : P w) : P (v.orElse w) := by
  unfold Value.orElse
  split
  · exact hv
  · exact hw

theorem holds_pick? {P : Value → Prop} {d : Dict} (h : ∀ e ∈ d, P e.2) (names : List String) :
    ∀ v ∈ d.pick? names, P v := by
  induction names with
  | nil => exact nofun
  | cons name names ih =>
    rw [Dict.pick?]
    cases hv : d.field? name with
    | none => exact ih
    | some v =>
      rintro _ ⟨⟩
      exact Dict.forall_get? P h hv

theorem holds_getD {P : Value → Prop} {v? : Option Value} {w : Value} (hv : ∀ v ∈ v?, P v) (hw : P w) :
    P (v?.getD w) := by
  cases v? with
  | none => exact hw
  | some v => exact hv v rfl

theorem BuildsUp.pick {P : Value → Prop} (hP : BuildsUp P) {d : Dict} (h : ∀ e ∈ d, P e.2)
    (names : List String) : P (d.pick names) :=
  holds_getD (holds_pick? h names) (hP.scalar rfl)

theorem BuildsUp.field {P : Value → Prop} (hP : BuildsUp P) {d : Dict} (h : ∀ e ∈ d, P e.2)
    (name : String) : P (d.field name) :=
  holds_getD (fun _ hv => Dict.forall_get? P h hv) (hP.scalar rfl)

theorem handsDown_true : HandsDown fun _ => True :=
  ⟨fun _ _ _ => trivial, fun _ _ _ => trivial, fun _ _ _ => trivial⟩

theorem handsDown_settled : HandsDown (·.isSettled = true) where
  list h := isSettled_list.1 h
  tuple h := isSettled_tuple.1 h
  dict h := isSettled_dict.1 h

theorem buildsUp_lawful : BuildsUp (·.isLawful = true) where
  scalar {v} h := by
    cases v with
    | list | tuple | dict | runLog => cases h
    | _ => rfl
  list h := isLawful_list.2 h
  empty := rfl
  insert {d v} k hd hv := by
    obtain ⟨hkeys, hvalues⟩ := isLawful_dict.1 hd
    refine isLawful_dict.2 ⟨?_, Dict.forall_insert (·.isLawful = true) hvalues hv⟩
    rw [Dict.keys_insert]
    split
    · exact hkeys
    · rename_i hnew
      exact hkeys.append_of_new (by simpa using hnew)

theorem buildsUp_settled : BuildsUp (·.isSettled = true) where
  scalar {v} h := by
    cases v with
    | list | tuple | dict | runLog => cases h
    | _ => rfl
  list h := isSettled_list.2 h
  empty := rfl
  insert k hd hv := isSettled_dict.2 (Dict.IsData.insert (isSettled_dict.1 hd) hv)

end Value

end Stepwise
