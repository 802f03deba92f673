-- SUMMARY: The common order of integers and binary64 numbers is that of the extended rationals.
import Mathlib.Algebra.Order.Field.Rat
import Mathlib.Algebra.Order.Field.Basic
import Mathlib.Order.WithBot
import Mathlib.Tactic.NormNum
import Stepwise.Number.Basic

/-!
# Order of numbers

Integers and binary64 numbers are compared by what they stand for: a rational number, or
one of the two infinities. So their common order is a linear one, except that `nan` stands
for nothing and takes no part in it.
-/

namespace Stepwise

/-! ## What numbers stand for -/

/-- What the value stands for; `nan` stands for nothing. -/
def Binary64.extent? : Binary64 → Option (WithBot (WithTop ℚ))
  | .nan _ => none
  | .infinite negative => some (if negative then ⊥ else ⊤)
  | .finite negative m e =>
    let (num, den) := ratio negative m e
    some ((num / den : ℚ) : WithTop ℚ)

/-- What the number stands for; `nan` stands for nothing. -/
def Number.extent? : Number → Option (WithBot (WithTop ℚ))
  | .int n => some ((n : ℚ) : WithTop ℚ)
  | .float x => x.extent?

/-! ## The order -/

namespace Binary64

theorem ratio_pos (negative : Bool) (m : Nat) (e : Int) : 0 < (ratio negative m e).2 := by
  unfold ratio
  split
  · exact Nat.pow_pos (by decide)
  · exact Nat.one_pos

/-- Fractions with positive denominators are compared as the rational numbers they are. -/
theorem compareRatios_eq {a b : Int × Nat} (ha : 0 < a.2) (hb : 0 < b.2) :
    compareRatios a b = compare ((a.1 / a.2 : ℚ)) (b.1 / b.2) := by
  have ha' : (0 : ℚ) < a.2 := by exact_mod_cast ha
  have hb' : (0 : ℚ) < b.2 := by exact_mod_cast hb
  unfold compareRatios
  rcases lt_trichotomy (a.1 * b.2) (b.1 * a.2) with h | h | h
  · rw [compare_lt_iff_lt.2 h, eq_comm, compare_lt_iff_lt, div_lt_div_iff₀ ha' hb']
    exact_mod_cast h
  · rw [compare_eq_iff_eq.2 h, eq_comm, compare_eq_iff_eq, div_eq_div_iff ha'.ne' hb'.ne']
    exact_mod_cast h
  · rw [compare_gt_iff_gt.2 h, eq_comm, compare_gt_iff_gt, div_lt_div_iff₀ hb' ha']
    exact_mod_cast h

/-- Rational numbers keep their order among the extended ones. -/
theorem compare_finite (p q : ℚ) :
    compare ((p : WithTop ℚ) : WithBot (WithTop ℚ)) ((q : WithTop ℚ) : WithBot (WithTop ℚ)) =
      compare p q := by
  rw [← cmp_eq_compare, ← cmp_eq_compare]
  exact (WithBot.coe_strictMono.comp WithTop.coe_strictMono).cmp_map_eq p q

theorem lt_top_of_finite (q : ℚ) : ((q : WithTop ℚ) : WithBot (WithTop ℚ)) < ⊤ :=
  WithBot.coe_lt_coe.2 (WithTop.coe_lt_top q)

/-- Binary64 numbers are compared as what they stand for. -/
theorem compare?_eq (x y : Binary64) :
    x.compare? y = x.extent?.bind fun p => y.extent?.map (compare p) := by
  have hends : (⊥ : WithBot (WithTop ℚ)) < ⊤ := bot_lt_top
  rcases x with _ | ⟨_ | _⟩ | ⟨s, m, e⟩ <;> rcases y with _ | ⟨_ | _⟩ | ⟨s', m', e'⟩ <;>
    simp [compare?, extent?, compare_lt_iff_lt.2, compare_gt_iff_gt.2, lt_top_of_finite, hends,
      compare_finite, compareRatios_eq, ratio_pos]

/-- A binary64 number and an integer are compared as what they stand for. -/
theorem compareInt?_eq (x : Binary64) (n : Int) :
    x.compareInt? n = x.extent?.bind fun p => (Number.int n).extent?.map (compare p) := by
  rcases x with _ | ⟨_ | _⟩ | ⟨s, m, e⟩ <;>
    simp [compareInt?, extent?, Number.extent?, compare_lt_iff_lt.2, compare_gt_iff_gt.2,
      lt_top_of_finite, compare_finite, compareRatios_eq, ratio_pos]

end Binary64

namespace Number

/-- Numbers are compared as what they stand for. -/
theorem compare?_eq (a b : Number) :
    a.compare? b = a.extent?.bind fun p => b.extent?.map (compare p) := by
  cases a with
  | int n =>
    cases b with
    | int m =>
      have hcast := (Int.cast_strictMono (R := ℚ)).cmp_map_eq n m
      rw [cmp_eq_compare, cmp_eq_compare] at hcast
      simp [compare?, extent?, Binary64.compare_finite, hcast]
    | float y =>
      rw [compare?, Binary64.compareInt?_eq]
      cases hy : y.extent? with
      | none => simp [extent?, hy]
      | some q =>
        have hswap := cmp_swap q ((n : ℚ) : WithTop ℚ)
        rw [cmp_eq_compare, cmp_eq_compare] at hswap
        simpa [extent?, hy] using hswap
  | float x =>
    cases b with
    | int m => exact Binary64.compareInt?_eq x m
    | float y => exact Binary64.compare?_eq x y

/-- The first number is not greater. -/
def atMost (a b : Number) : Bool := a.less b || a.same b

theorem less_iff {a b : Number} :
    a.less b ↔ ∃ p q, a.extent? = some p ∧ b.extent? = some q ∧ p < q := by
  simp only [less, compare?_eq, beq_iff_eq]
  cases a.extent? <;> cases b.extent? <;> simp [compare_lt_iff_lt]

theorem atMost_iff {a b : Number} :
    a.atMost b ↔ ∃ p q, a.extent? = some p ∧ b.extent? = some q ∧ p ≤ q := by
  simp only [atMost, less, same, compare?_eq, Bool.or_eq_true, beq_iff_eq]
  cases a.extent? <;> cases b.extent? <;>
    simp [compare_lt_iff_lt, le_iff_lt_or_eq]

/-- Two numbers are the same if they stand for the same. -/
theorem same_iff {a b : Number} : a.same b ↔ ∃ p, a.extent? = some p ∧ b.extent? = some p := by
  simp only [same, compare?_eq, beq_iff_eq]
  cases a.extent? <;> cases b.extent? <;> simp
  exact eq_comm

/-- What is smaller than a number is smaller than all numbers from there on. -/
theorem less_of_less_of_atMost {a b c : Number} (hab : a.less b) (hbc : b.atMost c) : a.less c := by
  obtain ⟨p, q, ha, hb, hpq⟩ := less_iff.1 hab
  obtain ⟨q', r, hb', hc, hqr⟩ := atMost_iff.1 hbc
  cases hb.symm.trans hb'
  exact less_iff.2 ⟨p, r, ha, hc, hpq.trans_le hqr⟩

end Number

end Stepwise
