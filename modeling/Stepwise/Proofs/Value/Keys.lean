-- SUMMARY: Sameness of keys in either order, keys that all differ, and the fields of dictionaries.
import Stepwise.Value.Observe

/-!
# Keys and fields

Sameness of keys does not depend on their order. The keys of a dictionary all differ if it is
built up entry by entry, because storing under a key that is there adds none. A field is the
entry of a text, which is no other key, so that storing leaves all fields but one.
-/

namespace Stepwise

/-! ## Sameness of keys -/

namespace Binary64

theorem compareRatios_eq_comm (a b : Int × Nat) :
    (compareRatios a b == .eq) = (compareRatios b a == .eq) := by
  have h (a b : Int × Nat) : (compareRatios a b == .eq) = decide (a.1 * b.2 = b.1 * a.2) := by
    by_cases heq : a.1 * b.2 = b.1 * a.2 <;> simp [compareRatios, heq]
  rw [h, h, decide_eq_decide]
  exact eq_comm

theorem compare?_eq_comm (x y : Binary64) :
    (x.compare? y == some .eq) = (y.compare? x == some .eq) := by
  cases x with
  | nan mark => cases y <;> rfl
  | infinite a =>
    cases y with
    | nan mark => rfl
    | infinite b => cases a <;> cases b <;> rfl
    | finite s m e => cases a <;> rfl
  | finite s m e =>
    cases y with
    | nan mark => rfl
    | infinite b => cases b <;> rfl
    | finite s' m' e' => simpa [compare?] using compareRatios_eq_comm (ratio s m e) (ratio s' m' e')

end Binary64

theorem Number.same_comm (a b : Number) : a.same b = b.same a := by
  have hswap (o : Option Ordering) : (o.map Ordering.swap == some .eq) = (o == some .eq) := by
    rcases o with _ | _ | _ | _ <;> rfl
  cases a with
  | int n =>
    cases b with
    | int m => simp [same_int, eq_comm]
    | float y => exact hswap _
  | float x =>
    cases b with
    | int m => exact (hswap _).symm
    | float y => exact Binary64.compare?_eq_comm x y

theorem Number.same_float_refl {x : Binary64} (h : ∀ mark, x ≠ .nan mark) :
    Number.same (.float x) (.float x) = true := by
  cases x with
  | nan mark => exact absurd rfl (h mark)
  | infinite s => cases s <;> rfl
  | finite s m e => simp [Number.same, Number.compare?, Binary64.compare?, Binary64.compareRatios]

namespace Key

mutual

theorem same_refl : (k : Key) → k.same k = true
  | .null => rfl
  | .bool b => by simp [same, number?, Number.same_int]
  | .int n => by simp [same, number?, Number.same_int]
  | .str s => by simp [same]
  | .tuple ks => by simpa [same] using sameList_refl ks
  | .float x => by
    cases x with
    | nan mark => simp [same]
    | infinite s => exact Number.same_float_refl nofun
    | finite s m e => exact Number.same_float_refl nofun

theorem sameList_refl : (ks : List Key) → sameList ks ks = true
  | [] => rfl
  | k :: ks => by simp [sameList, same_refl k, sameList_refl ks]

end

/-- A text is the same key as itself only. -/
theorem same_str_right (k : Key) (text : String) : k.same (.str text) = (k == .str text) := by
  rw [Bool.eq_iff_iff]
  cases k with
  | float x => cases x <;> simp [same, number?]
  | str s => simp
  | _ => simp [same, number?]

theorem same_null_right (k : Key) : k.same .null = (k == .null) := by
  cases k with
  | float x => cases x <;> rfl
  | _ => rfl

/-- A `nan` is the same key as itself only. -/
theorem same_nan_right (k : Key) (mark : Nat) :
    k.same (.float (.nan mark)) = (k == .float (.nan mark)) := by
  cases k with
  | null => rfl
  | bool b => rfl
  | int n => rfl
  | str s => rfl
  | tuple ks => rfl
  | float x =>
    cases x with
    | nan m => rw [same, BEq.comm]
    | infinite => rfl
    | finite => rfl

/-- A key that counts as a number, if it is no `nan`, is the same as the keys that count as the same
number. -/
theorem same_of_number {k : Key} {n : Number} (hk : k.number? = some n)
    (hnan : ∀ mark, k ≠ .float (.nan mark)) (l : Key) : k.same l = l.number?.any n.same := by
  cases k with
  | bool | int =>
    cases hk
    rw [same]
    cases l.number? <;> rfl
  | float x =>
    cases hk
    cases x with
    | nan mark => exact absurd rfl (hnan mark)
    | infinite | finite =>
      rw [same]
      · cases l.number? <;> rfl
      · exact nofun
  | _ => cases hk

theorem same_comm_of_number {k : Key} {n : Number} (hk : k.number? = some n)
    (hnan : ∀ mark, k ≠ .float (.nan mark)) (l : Key) : k.same l = l.same k := by
  by_cases hmark : ∃ mark, l = .float (.nan mark)
  · obtain ⟨mark, rfl⟩ := hmark
    rw [same_nan_right, same]
  · cases hl : l.number? with
    | some m =>
      have hl' := same_of_number hl fun mark heq => hmark ⟨mark, heq⟩
      rw [same_of_number hk hnan, hl', hk, hl]
      exact Number.same_comm n m
    | none =>
      rw [same_of_number hk hnan, hl]
      cases k with
      | bool | int | float =>
        cases l with
        | null | str | tuple => rfl
        | _ => cases hl
      | _ => cases hk

mutual

theorem same_comm : (k l : Key) → k.same l = l.same k
  | .null, l => by rw [same, same_null_right]
  | .str s, l => by rw [same, same_str_right]
  | .tuple ks, l => by
    cases l with
    | float x => cases x <;> rfl
    | tuple ls => simpa [same] using sameList_comm ks ls
    | _ => rfl
  | .bool b, l => same_comm_of_number rfl (by simp) l
  | .int n, l => same_comm_of_number rfl (by simp) l
  | .float (.nan mark), l => by rw [same, same_nan_right]
  | .float (.infinite s), l => same_comm_of_number rfl (by simp) l
  | .float (.finite s m e), l => same_comm_of_number rfl (by simp) l

theorem sameList_comm : (ks ls : List Key) → sameList ks ls = sameList ls ks
  | [], [] => rfl
  | [], _ :: _ => rfl
  | _ :: _, [] => rfl
  | k :: ks, l :: ls => by rw [sameList, sameList, same_comm k l, sameList_comm ks ls]

end

mutual

/-- A key as a value serves as that key. -/
theorem toKey?_toValue : (k : Key) → k.toValue.toKey? = some k
  | .null => rfl
  | .bool _ => rfl
  | .int _ => rfl
  | .float _ => rfl
  | .str _ => rfl
  | .tuple ks => by rw [toValue, Value.toKey?, toKeys?_toValues ks, Option.map_some]

theorem toKeys?_toValues : (ks : List Key) → Value.toKeys? (toValues ks) = some ks
  | [] => rfl
  | k :: ks => by rw [toValues, Value.toKeys?, toKey?_toValue k, toKeys?_toValues ks]

end

def AllDifferent (ks : List Key) : Prop := ks.Pairwise fun k l => k.same l = false

instance (ks : List Key) : Decidable (AllDifferent ks) :=
  inferInstanceAs (Decidable (ks.Pairwise fun k l => k.same l = false))

theorem AllDifferent.nodup {ks : List Key} (h : AllDifferent ks) : ks.Nodup := by
  refine h.imp ?_
  rintro k _ hk rfl
  rw [same_refl] at hk
  cases hk

theorem AllDifferent.append_of_new {ks : List Key} {k : Key} (h : AllDifferent ks)
    (hnew : ks.any k.same = false) : AllDifferent (ks ++ [k]) := by
  refine List.pairwise_append.2 ⟨h, List.pairwise_singleton _ _, ?_⟩
  intro l hl _ hk
  cases List.mem_singleton.1 hk
  rw [same_comm]
  simpa using List.any_eq_false.1 hnew l hl

end Key

/-- Storing under a key that is there changes no key, and a new key goes to the end. -/
theorem Dict.keys_insert (d : Dict) (k : Key) (v : Value) :
    (d.insert k v).keys = if d.keys.any k.same then d.keys else d.keys ++ [k] := by
  induction d with
  | nil => rfl
  | cons e rest ih =>
    obtain ⟨l, w⟩ := e
    rw [Dict.insert]
    cases hsame : k.same l with
    | true => simp [keys, hsame]
    | false =>
      have hany : (keys ((l, w) :: rest)).any k.same = (keys rest).any k.same := by simp [keys, hsame]
      have hstore : keys ((l, w) :: insert rest k v) = l :: keys (insert rest k v) := rfl
      have hkeys : keys ((l, w) :: rest) = l :: keys rest := rfl
      rw [hany, if_neg Bool.false_ne_true, hstore, hkeys, ih]
      split <;> rfl

/-! ## Fields -/

namespace Dict

@[simp] theorem field?_ofFields_nil (name : String) : field? (ofFields []) name = none := rfl

@[simp] theorem field?_ofFields_cons (stored : String) (v : Value) (fields : List (String × Value))
    (asked : String) :
    field? (ofFields ((stored, v) :: fields)) asked
      = if asked = stored then some v else field? (ofFields fields) asked := by
  simp [field?, ofFields, get?_cons]

/-- Storing under a key leaves the entries of all texts but the key itself. -/
theorem field?_insert_key (d : Dict) (stored : Key) (asked : String) (v : Value) :
    Dict.field? (Dict.insert d stored v) asked
      = if stored = .str asked then some v else Dict.field? d asked := by
  have hsame (k : Key) : (Key.str asked).same k = (k == .str asked) := by
    rw [Key.same]
  unfold Dict.field?
  induction d with
  | nil =>
    rw [Dict.insert_nil, Dict.get?_cons, hsame]
    by_cases h : stored = .str asked <;> simp [h]
  | cons e rest ih =>
    obtain ⟨k, w⟩ := e
    rw [Dict.insert]
    by_cases hk : k = .str asked
    · -- The entry that is asked for: it changes if it is the one that is stored under.
      subst hk
      rw [Key.same_str_right]
      by_cases h : stored = .str asked <;> simp [Dict.get?_cons, h]
    · have hnot : (Key.str asked).same k = false := by simpa [hsame] using hk
      by_cases hstored : stored.same k = true
      · have hne : stored ≠ .str asked := by
          rintro rfl
          rw [hnot] at hstored
          cases hstored
        simp [Dict.get?_cons, hstored, hnot, hne]
      · rw [if_neg hstored, Dict.get?_cons, Dict.get?_cons, hnot, ih]
        rfl

/-- Storing under one text leaves the entries of the others. -/
theorem field?_insert (d : Dict) (stored asked : String) (v : Value) :
    Dict.field? (Dict.insert d (.str stored) v) asked
      = if asked = stored then some v else Dict.field? d asked := by
  rw [Dict.field?_insert_key]
  by_cases h : asked = stored
  · simp [h]
  · simp [h, Ne.symm h]

/-- Without an entry only its own field is gone. -/
theorem field?_erase (d : Dict) (erased asked : String) :
    Dict.field? (Dict.erase d (.str erased)) asked
      = if asked = erased then none else Dict.field? d asked := by
  have hsame (name : String) (k : Key) : (Key.str name).same k = (k == .str name) := by
    rw [Key.same]
  unfold Dict.field?
  induction d with
  | nil => simp [Dict.erase]
  | cons e rest ih =>
    obtain ⟨k, v⟩ := e
    rw [Dict.erase] at ih ⊢
    rw [List.filter_cons, hsame, Dict.get?_cons, hsame]
    by_cases hk : k = .str erased
    · simp only [hk, beq_self_eq_true, Bool.not_true, Bool.false_eq_true, if_false]
      rw [ih]
      by_cases hasked : asked = erased
      · rw [if_pos hasked, if_pos hasked]
      · have hother : (Key.str erased == Key.str asked) = false := by simpa using Ne.symm hasked
        rw [hother, if_neg hasked, if_neg hasked, if_neg Bool.false_ne_true]
    · have hne : (k == Key.str erased) = false := by simpa using hk
      rw [hne, Bool.not_false, if_pos rfl, Dict.get?_cons, hsame, ih]
      by_cases hasked : asked = erased
      · simp [hasked, hk]
      · simp [hasked]

end Dict

namespace Value

/-- A value is the same as a text only if it is that text. -/
theorem same_str_right (v : Value) (text : String) : v.same (.str text) = (v == .str text) := by
  cases v with
  | str s => rw [same_str, BEq.comm]
  | _ => rfl

theorem isNull_iff {v : Value} : v.isNull = true ↔ v = .null := by
  cases v <;> simp [isNull]

theorem itemsIfAny_list (vs : List Value) : itemsIfAny (.list vs) = .ok vs := by
  cases vs <;> rfl

theorem dictIfAny_dict (d : Dict) : dictIfAny (.dict d) = .ok d := by
  cases d <;> rfl

theorem orElse_orElse (v w : Value) : (v.orElse w).orElse w = v.orElse w := by
  unfold orElse
  cases hv : v.truthy <;> cases hw : w.truthy <;> simp [hv, hw]

end Value

end Stepwise
