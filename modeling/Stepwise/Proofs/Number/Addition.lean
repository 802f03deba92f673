-- SUMMARY: The sum of two binary64 numbers that are integers is the one nearest to the sum of the integers.
import Mathlib.Tactic.Ring
import Stepwise.Proofs.Number.Rounding

/-!
# Addition of integers

Two binary64 numbers are added as fractions whose denominators are powers of two. A power of two
in both parts of a fraction does not change what it is rounded to, so two that are integers have
the sum that is nearest to the sum of these integers.
-/

namespace Stepwise

namespace Binary64

/-! ## Common factors -/

/-- A quotient is rounded as it is without a common factor. -/
theorem roundDiv_mul_right (num den : Nat) {c : Nat} (hc : 0 < c) :
    roundDiv (num * c) (den * c) = roundDiv num den := by
  have hless (a b : Nat) : a * c < b * c ↔ a < b := Nat.mul_lt_mul_right hc
  simp only [roundDiv, Nat.mul_div_mul_right _ _ hc, Nat.mul_mod_mul_right, ← Nat.mul_assoc, hless]

theorem roundScaled_mul_right (num den : Nat) {c : Nat} (hc : 0 < c) (e : Int) :
    roundScaled (num * c) (den * c) e = roundScaled num den e := by
  unfold roundScaled
  split
  · rw [Nat.mul_right_comm, roundDiv_mul_right _ _ hc]
  · rw [Nat.mul_right_comm, roundDiv_mul_right _ _ hc]

theorem truncScaled_mul_right (num den : Nat) {c : Nat} (hc : 0 < c) (e : Int) :
    truncScaled (num * c) (den * c) e = truncScaled num den e := by
  unfold truncScaled
  split
  · rw [Nat.mul_right_comm, Nat.mul_div_mul_right _ _ hc]
  · rw [Nat.mul_right_comm, Nat.mul_div_mul_right _ _ hc]

theorem log2_mul_pow {k : Nat} (hk : k ≠ 0) (j : Nat) : Nat.log2 (k * 2 ^ j) = Nat.log2 k + j := by
  have hne : k * 2 ^ j ≠ 0 := Nat.mul_ne_zero hk (Nat.two_pow_pos j).ne'
  rw [Nat.log2_eq_iff hne]
  have hlow := Nat.log2_self_le hk
  have hhigh : k < 2 ^ (Nat.log2 k + 1) := Nat.lt_log2_self
  constructor
  · rw [Nat.pow_add]
    exact Nat.mul_le_mul_right _ hlow
  · rw [Nat.add_right_comm, Nat.pow_add]
    exact Nat.mul_lt_mul_of_pos_right hhigh (Nat.two_pow_pos j)

/-- A fraction is rounded as it is without a power of two in both its parts. -/
theorem ofRatio_mul_pow (s : Bool) (k j : Nat) : ofRatio s (k * 2 ^ j) (2 ^ j) = ofRatio s k 1 := by
  by_cases hk : k = 0
  · rw [hk, Nat.zero_mul, ofRatio, ofRatio, if_pos rfl, if_pos rfl]
  · have hpos : 0 < 2 ^ j := Nat.two_pow_pos j
    have hne : k * 2 ^ j ≠ 0 := Nat.mul_ne_zero hk hpos.ne'
    have hden : 2 ^ j = 1 * 2 ^ j := (Nat.one_mul _).symm
    have hlog : (Nat.log2 (k * 2 ^ j) : Int) - Nat.log2 (2 ^ j) = Nat.log2 k - Nat.log2 1 := by
      rw [log2_mul_pow hk, hden, log2_mul_pow Nat.one_ne_zero]
      omega
    have htrunc (e : Int) : truncScaled (k * 2 ^ j) (2 ^ j) e = truncScaled k 1 e := by
      rw [hden, ← truncScaled_mul_right k 1 hpos, Nat.one_mul]
    have hround (e : Int) : roundScaled (k * 2 ^ j) (2 ^ j) e = roundScaled k 1 e := by
      rw [hden, ← roundScaled_mul_right k 1 hpos, Nat.one_mul]
    have hunit : unitExponent (k * 2 ^ j) (2 ^ j) = unitExponent k 1 := by
      simp only [unitExponent, hlog, htrunc]
    simp only [ofRatio, if_neg hk, if_neg hne, hunit, hround]

/-! ## Sums -/

theorem ratio_den (s : Bool) (m : Nat) (e : Int) : ∃ j : Nat, (ratio s m e).2 = 2 ^ j := by
  by_cases he : e < 0
  · exact ⟨e.natAbs, if_pos he⟩
  · exact ⟨0, if_neg he⟩

theorem standsFor_zero (s : Bool) : (zero s).StandsFor 0 := by
  have hzero := standsFor_fraction s 0 (j := 1074) (by decide)
  have hsigned : signed s 0 = 0 := by cases s <;> rfl
  rwa [Nat.zero_mul, hsigned] at hzero

/-- The sum of two values that are integers is the one nearest to the sum of the integers, or zero under
some sign. -/
theorem StandsFor.add_eq {x y : Binary64} {z w : Int} (hx : x.StandsFor z) (hy : y.StandsFor w) :
    x + y = nearest (z + w) ∨ z + w = 0 ∧ (x + y).StandsFor 0 := by
  rcases x with mark | s | ⟨s, m, e⟩
  · cases hx
  · cases s <;> cases hx
  rcases y with mark | s' | ⟨s', m', e'⟩
  · cases hy
  · cases s' <;> cases hy
  obtain ⟨j, hj⟩ := ratio_den s m e
  obtain ⟨j', hj'⟩ := ratio_den s' m' e'
  -- Over the product of the denominators the numerators add up to the sum of the integers.
  have hsum : (ratio s m e).1 * (ratio s' m' e').2 + (ratio s' m' e').1 * (ratio s m e).2
      = (z + w) * (2 ^ (j + j') : Nat) := by
    rw [hx.ratio_eq, hy.ratio_eq, hj, hj', Nat.pow_add]
    push_cast
    ring
  have hden : (ratio s m e).2 * (ratio s' m' e').2 = 2 ^ (j + j') := by rw [hj, hj', Nat.pow_add]
  have hadd : (.finite s m e + .finite s' m' e' : Binary64)
      = if (z + w) * (2 ^ (j + j') : Nat) = 0 then zero (s && s')
        else ofRatio (decide ((z + w) * (2 ^ (j + j') : Nat) < 0))
          ((z + w) * (2 ^ (j + j') : Nat)).natAbs (2 ^ (j + j')) := by
    rw [← hsum, ← hden]
    rfl
  have hpos : (0 : Int) < (2 ^ (j + j') : Nat) := by exact_mod_cast Nat.two_pow_pos _
  rw [hadd]
  by_cases hzero : z + w = 0
  · rw [hzero, Int.zero_mul, if_pos rfl]
    exact .inr ⟨rfl, standsFor_zero _⟩
  · left
    have hsign : (z + w) * (2 ^ (j + j') : Nat) < 0 ↔ z + w < 0 := by
      rw [mul_neg_iff]
      omega
    rw [if_neg (mul_ne_zero hzero hpos.ne'), decide_eq_decide.2 hsign, Int.natAbs_mul,
      Int.natAbs_natCast, ofRatio_mul_pow, nearest]

end Binary64

end Stepwise
