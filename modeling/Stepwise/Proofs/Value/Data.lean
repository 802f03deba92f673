-- SUMMARY: Values that are data: their parts, what is put together from data, and accepted inputs.
import Stepwise.Proofs.Checks
import Stepwise.Input.Admission

/-!
# Data

A value is data if it does not refer to the log of a run. The parts of data are data, and
what is put together from data is data. So the inputs that a schema accepts are data, if
those given are and the schema's defaults are.
-/

namespace Stepwise

open Checks

/-! ## Keys -/

mutual

/-- A key holds no log of a run. -/
theorem Key.isSettled_toValue : (k : Key) → k.toValue.isSettled = true
  | .null => rfl
  | .bool _ => rfl
  | .int _ => rfl
  | .float _ => rfl
  | .str _ => rfl
  | .tuple ks => by rw [Key.toValue, Value.isSettled, Key.allSettled_toValues ks]

theorem Key.allSettled_toValues : (ks : List Key) → Value.allSettled (Key.toValues ks) = true
  | [] => rfl
  | k :: ks => by
    rw [Key.toValues, Value.allSettled, Key.isSettled_toValue k, Key.allSettled_toValues ks]
    rfl

end

/-! ## Lists and dictionaries -/

namespace Value

theorem allSettled_iff {vs : List Value} :
    allSettled vs = true ↔ ∀ v ∈ vs, v.isSettled = true := by
  induction vs with
  | nil => simp [allSettled]
  | cons v vs ih => simp [allSettled, ih]

theorem entriesSettled_iff {es : List (Key × Value)} :
    entriesSettled es = true ↔ ∀ e ∈ es, e.2.isSettled = true := by
  induction es with
  | nil => simp [entriesSettled]
  | cons e es ih => simp [entriesSettled, ih]

@[simp] theorem isSettled_list {vs : List Value} :
    isSettled (.list vs) = true ↔ ∀ v ∈ vs, v.isSettled = true := by
  rw [isSettled, allSettled_iff]

@[simp] theorem isSettled_tuple {vs : List Value} :
    isSettled (.tuple vs) = true ↔ ∀ v ∈ vs, v.isSettled = true := by
  rw [isSettled, allSettled_iff]

@[simp] theorem isSettled_dict {es : List (Key × Value)} :
    isSettled (.dict es) = true ↔ ∀ e ∈ es, e.2.isSettled = true := by
  rw [isSettled, entriesSettled_iff]

@[simp] theorem isSettled_record {fields : List (String × Value)} :
    (record fields).isSettled = true ↔ ∀ e ∈ fields, e.2.isSettled = true := by
  rw [record, Dict.ofFields, isSettled_dict, List.forall_mem_map]

end Value

namespace Dict

variable {d : Dict}

def IsData (d : Dict) : Prop := ∀ e ∈ d, e.2.isSettled = true

/-- What holds of every value of a dictionary holds of the value under a key. -/
theorem forall_get? (P : Value → Prop) {k : Key} {v : Value} (h : ∀ e ∈ d, P e.2)
    (hv : d.get? k = some v) : P v := by
  induction d with
  | nil => cases hv
  | cons e rest ih =>
    obtain ⟨l, w⟩ := e
    simp only [List.forall_mem_cons] at h
    rw [get?_cons] at hv
    split at hv
    · cases hv
      exact h.1
    · exact ih h.2 hv

theorem IsData.get? (h : d.IsData) {k : Key} {v : Value} (hv : d.get? k = some v) :
    v.isSettled = true :=
  forall_get? (·.isSettled = true) h hv

theorem IsData.getD (h : d.IsData) (k : Key) : ((d.get? k).getD .null).isSettled = true := by
  cases hv : d.get? k with
  | none => rfl
  | some v => exact h.get? hv

/-- Storing keeps what holds of every value of a dictionary, if it holds of the value stored. -/
theorem forall_insert (P : Value → Prop) {k : Key} {v : Value} (h : ∀ e ∈ d, P e.2) (hv : P v) :
    ∀ e ∈ d.insert k v, P e.2 := by
  induction d with
  | nil => simpa [Dict.insert_nil] using hv
  | cons e rest ih =>
    obtain ⟨l, w⟩ := e
    simp only [List.forall_mem_cons] at h
    rw [Dict.insert]
    split
    · simpa only [List.forall_mem_cons] using ⟨hv, h.2⟩
    · simpa only [List.forall_mem_cons] using ⟨h.1, ih h.2⟩

theorem IsData.insert (h : d.IsData) {k : Key} {v : Value} (hv : v.isSettled = true) :
    (d.insert k v).IsData :=
  forall_insert (·.isSettled = true) h hv

theorem isData_ofEntries {es : List (Key × Value)} (h : ∀ e ∈ es, e.2.isSettled = true) :
    (ofEntries es).IsData := by
  have hfold (es : List (Key × Value)) (d : Dict) (hd : d.IsData)
      (hes : ∀ e ∈ es, e.2.isSettled = true) :
      (es.foldl (fun d e => d.insert e.1 e.2) d).IsData := by
    induction es generalizing d with
    | nil => exact hd
    | cons e es ih =>
      exact ih _ (hd.insert (hes e (.head _))) fun e he => hes e (.tail _ he)
  exact hfold es [] nofun h

end Dict

/-! ## Taking values apart -/

namespace Value

theorem isSettled_of_items {v : Value} {vs : List Value} (h : v.isSettled = true)
    (hitems : v.items = .ok vs) : ∀ w ∈ vs, w.isSettled = true := by
  cases v with
  | list | tuple =>
    cases hitems
    simpa using h
  | str s =>
    cases hitems
    intro w hw
    obtain ⟨c, -, rfl⟩ := List.mem_map.1 hw
    rfl
  | dict entries =>
    cases hitems
    intro w hw
    obtain ⟨e, -, rfl⟩ := List.mem_map.1 hw
    exact e.1.isSettled_toValue
  | _ => cases hitems

theorem isSettled_of_toEntry {item : Value} {position : Nat} {e : Key × Value}
    (h : item.isSettled = true) (hentry : item.toEntry position = .ok e) :
    e.2.isSettled = true := by
  rw [toEntry, bind_iff] at hentry
  obtain ⟨parts, hparts, hentry⟩ := hentry
  split at hentry
  · rename_i k v
    obtain ⟨key, -, hentry⟩ := bind_iff.1 hentry
    cases pure_iff.1 hentry
    exact isSettled_of_items h hparts v (.tail _ (.head _))
  · cases hentry

theorem isSettled_of_toEntries {items : List Value} {position : Nat} {es : List (Key × Value)}
    (h : ∀ item ∈ items, item.isSettled = true) (hentries : toEntries position items = .ok es) :
    ∀ e ∈ es, e.2.isSettled = true := by
  induction items generalizing position es with
  | nil =>
    cases hentries
    exact nofun
  | cons item rest ih =>
    simp only [toEntries, bind_iff, pure_iff] at hentries
    obtain ⟨entry, hentry, entries, hrest, rfl⟩ := hentries
    intro e he
    rcases List.mem_cons.1 he with rfl | he
    · exact isSettled_of_toEntry (h item (.head _)) hentry
    · exact ih (fun item hitem => h item (.tail _ hitem)) hrest e he

/-- A value that is data makes a dictionary of data. -/
theorem isData_of_dictIfAny {v : Value} {d : Dict} (h : v.isSettled = true)
    (hd : v.dictIfAny = .ok d) : d.IsData := by
  unfold dictIfAny at hd
  split at hd
  · unfold toDict at hd
    split at hd
    · cases hd
      exact isSettled_dict.1 h
    · simp only [bind_iff, pure_iff] at hd
      obtain ⟨items, hitems, entries, hentries, rfl⟩ := hd
      exact Dict.isData_ofEntries (isSettled_of_toEntries (isSettled_of_items h hitems) hentries)
  · cases hd
    exact nofun

end Value

/-! ## Accepted inputs -/

def InputSchema.IsData (s : InputSchema) : Prop :=
  ∀ e ∈ s.parameters, e.2.default.isSettled = true

namespace Input

variable {inputs accepted : Dict}

theorem isSettled_asList {v : Value} (h : v.isSettled = true) : (asList v).isSettled = true := by
  cases v with
  | tuple items => exact Value.isSettled_list.2 (Value.isSettled_tuple.1 h)
  | list | runLog => exact h
  | _ =>
    refine Value.isSettled_list.2 ?_
    intro w hw
    cases List.mem_singleton.1 hw
    exact h

theorem isData_of_acceptOne {name : Key} {p : InputParameter} (h : inputs.IsData)
    (hdefault : p.default.isSettled = true) (hok : acceptOne name p inputs = .ok accepted) :
    accepted.IsData := by
  unfold acceptOne at hok
  split at hok
  · split at hok
    · cases hok
    · cases hok
      split
      · exact h
      · exact h.insert hdefault
  · rename_i v hv
    split at hok
    · cases hok
      exact h
    · split at hok
      · split at hok
        · cases hok
        · cases hok
          exact h.insert (isSettled_asList (h.get? hv))
      · split at hok
        · cases hok
          exact h
        · cases hok

/-- The inputs that a schema accepts are data, if those given are and its defaults are. -/
theorem isData_of_accept {schema : InputSchema} (h : inputs.IsData) (hschema : schema.IsData)
    (hok : accept schema inputs = .ok accepted) : accepted.IsData := by
  obtain ⟨parameters⟩ := schema
  unfold accept at hok
  induction parameters generalizing inputs with
  | nil =>
    cases hok
    exact h
  | cons e rest ih =>
    obtain ⟨name, p⟩ := e
    dsimp only at hok ih
    rw [acceptAll] at hok
    cases hone : acceptOne name p inputs with
    | error e =>
      rw [hone] at hok
      cases hok
    | ok next =>
      rw [hone] at hok
      have hnext := isData_of_acceptOne h (hschema _ (.head _)) hone
      exact ih hnext (fun e he => hschema e (.tail _ he)) hok

end Input

end Stepwise
