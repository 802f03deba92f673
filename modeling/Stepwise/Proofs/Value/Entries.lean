-- SUMMARY: Sameness of keys is an equivalence, and what is found in a dictionary after storing.
import Stepwise.Proofs.Number.Order
import Stepwise.Proofs.Value.Keys

/-!
# Entries of dictionaries

Two keys that are the same as a third are the same: numbers count by what they stand for, and
that is one thing for each of them. So storing under a key changes what is found under the keys
that are the same as it, and under no others.
-/

namespace Stepwise

/-! ## Sameness in three keys -/

namespace Key

/-- The keys that are the same as one that counts as a number, if it is no `nan`. -/
theorem same_iff_of_number {k : Key} {n : Number} (hk : k.number? = some n)
    (hnan : ∀ mark, k ≠ .float (.nan mark)) {l : Key} :
    k.same l = true ↔ ∃ m, l.number? = some m ∧ n.same m = true := by
  rw [same_of_number hk hnan]
  cases l.number? <;> simp

/-- What is the same as a number is a number, and no `nan`. -/
theorem ne_nan_of_same {n m : Number} {l : Key} (h : n.same m = true) (hl : l.number? = some m)
    (mark : Nat) : l ≠ .float (.nan mark) := by
  rintro rfl
  cases hl
  obtain ⟨p, -, hp⟩ := Number.same_iff.1 h
  cases hp

theorem same_trans_of_number {k l m : Key} {n : Number} (hk : k.number? = some n)
    (hnan : ∀ mark, k ≠ .float (.nan mark)) (hkl : k.same l = true) (hlm : l.same m = true) :
    k.same m = true := by
  obtain ⟨n', hl, hn⟩ := (same_iff_of_number hk hnan).1 hkl
  obtain ⟨n'', hm, hn'⟩ := (same_iff_of_number hl (ne_nan_of_same hn hl)).1 hlm
  refine (same_iff_of_number hk hnan).2 ⟨n'', hm, ?_⟩
  obtain ⟨p, hp, hp'⟩ := Number.same_iff.1 hn
  obtain ⟨q, hq, hq'⟩ := Number.same_iff.1 hn'
  cases hp'.symm.trans hq
  exact Number.same_iff.2 ⟨p, hp, hq'⟩

mutual

theorem same_trans : (k l m : Key) → k.same l = true → l.same m = true → k.same m = true
  | .null, l, m, hkl, hlm => by
    obtain rfl : l = .null := by simpa [same] using hkl
    exact hlm
  | .str s, l, m, hkl, hlm => by
    obtain rfl : l = .str s := by simpa [same] using hkl
    exact hlm
  | .tuple ks, l, m, hkl, hlm => by
    cases l with
    | tuple ls =>
      cases m with
      | tuple ms =>
        rw [same] at hkl hlm ⊢
        exact sameList_trans ks ls ms hkl hlm
      | _ => simp [same] at hlm
    | _ => simp [same] at hkl
  | .bool b, l, m, hkl, hlm => same_trans_of_number rfl (by simp) hkl hlm
  | .int n, l, m, hkl, hlm => same_trans_of_number rfl (by simp) hkl hlm
  | .float (.nan mark), l, m, hkl, hlm => by
    obtain rfl : l = .float (.nan mark) := by simpa [same] using hkl
    exact hlm
  | .float (.infinite s), l, m, hkl, hlm => same_trans_of_number rfl (by simp) hkl hlm
  | .float (.finite s n e), l, m, hkl, hlm => same_trans_of_number rfl (by simp) hkl hlm

theorem sameList_trans : (ks ls ms : List Key) → sameList ks ls = true → sameList ls ms = true →
    sameList ks ms = true
  | [], ls, ms, hkl, hlm => by
    cases ls with
    | nil => exact hlm
    | cons => cases hkl
  | k :: ks, ls, ms, hkl, hlm => by
    cases ls with
    | nil => cases hkl
    | cons l ls =>
      cases ms with
      | nil => cases hlm
      | cons m ms =>
        simp only [sameList, Bool.and_eq_true] at hkl hlm ⊢
        exact ⟨same_trans k l m hkl.1 hlm.1, sameList_trans ks ls ms hkl.2 hlm.2⟩

end

/-- Of two keys that are the same, each is the same as whatever the other is the same as. -/
theorem same_congr {k l : Key} (h : k.same l = true) (m : Key) : k.same m = l.same m := by
  rw [Bool.eq_iff_iff]
  exact ⟨same_trans l k m (same_comm k l ▸ h), same_trans k l m h⟩

end Key

/-! ## What is found -/

namespace Dict

variable {d : Dict} {k l : Key} {v : Value}

/-- Storing changes what is found under the same key. -/
theorem get?_insert (d : Dict) (k : Key) (v : Value) (l : Key) :
    Dict.get? (Dict.insert d k v) l = if l.same k then some v else Dict.get? d l := by
  induction d with
  | nil => rfl
  | cons e rest ih =>
    obtain ⟨m, w⟩ := e
    rw [Dict.insert]
    cases hkm : k.same m with
    | true =>
      -- The entry is replaced, and its key stands for the one that was stored under.
      have hlk : l.same k = l.same m := by
        rw [Key.same_comm l, Key.same_comm l, Key.same_congr hkm]
      rw [if_pos rfl, get?_cons, get?_cons, hlk]
      split <;> rfl
    | false =>
      rw [if_neg Bool.false_ne_true, get?_cons, get?_cons, ih]
      cases hlm : l.same m with
      | false => rw [if_neg Bool.false_ne_true, if_neg Bool.false_ne_true]
      | true =>
        have hlk : l.same k = false := by rw [Key.same_congr hlm, Key.same_comm, hkm]
        rw [if_pos rfl, if_pos rfl, hlk, if_neg Bool.false_ne_true]

theorem get?_insert_self (d : Dict) (k : Key) (v : Value) :
    Dict.get? (Dict.insert d k v) k = some v := by
  rw [get?_insert, if_pos k.same_refl]

theorem get?_insert_of_ne (d : Dict) (v : Value) (h : l.same k = false) :
    Dict.get? (Dict.insert d k v) l = Dict.get? d l := by
  rw [get?_insert, h, if_neg Bool.false_ne_true]

/-- What is stored twice under a key is what is stored last. -/
theorem insert_insert (d : Dict) (k : Key) (v w : Value) :
    Dict.insert (Dict.insert d k v) k w = Dict.insert d k w := by
  induction d with
  | nil => rw [insert_nil, insert_nil, Dict.insert, if_pos k.same_refl]
  | cons e rest ih =>
    obtain ⟨m, u⟩ := e
    cases hkm : k.same m with
    | true => simp only [Dict.insert, hkm, if_true]
    | false => simp only [Dict.insert, hkm, Bool.false_eq_true, if_false, ih]

/-- Storing under a key that is there and storing under another one can change places. -/
theorem insert_comm (v w : Value) (hkl : k.same l = false) (hl : (Dict.get? d l).isSome) :
    Dict.insert (Dict.insert d k v) l w = Dict.insert (Dict.insert d l w) k v := by
  induction d with
  | nil => cases hl
  | cons e rest ih =>
    obtain ⟨m, u⟩ := e
    cases hkm : k.same m with
    | true =>
      have hlm : l.same m = false := by rw [Key.same_comm, ← Key.same_congr hkm, hkl]
      simp only [Dict.insert, hkm, hlm, if_true, Bool.false_eq_true, if_false]
    | false =>
      cases hlm : l.same m with
      | true => simp only [Dict.insert, hkm, hlm, if_true, Bool.false_eq_true, if_false]
      | false =>
        rw [get?_cons, hlm, if_neg Bool.false_ne_true] at hl
        simp only [Dict.insert, hkm, hlm, Bool.false_eq_true, if_false, ih hl]

/-- Storing what is there already changes nothing. -/
theorem insert_of_get? (h : Dict.get? d k = some v) : Dict.insert d k v = d := by
  induction d with
  | nil => cases h
  | cons e rest ih =>
    obtain ⟨m, w⟩ := e
    rw [get?_cons] at h
    rw [Dict.insert]
    cases hkm : k.same m with
    | true =>
      rw [hkm, if_pos rfl] at h
      cases h
      rfl
    | false =>
      rw [hkm, if_neg Bool.false_ne_true] at h
      rw [if_neg Bool.false_ne_true, ih h]

/-- The keys that have an entry are those of the dictionary. -/
theorem any_same_keys (d : Dict) (k : Key) : d.keys.any k.same = (Dict.get? d k).isSome := by
  rw [← contains_eq_isSome, contains, keys, List.any_map]
  rfl

end Dict

end Stepwise
