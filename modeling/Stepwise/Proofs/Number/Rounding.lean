-- SUMMARY: The binary64 number nearest to an integer: which integers it keeps, and how far it is off.
import Stepwise.Proofs.Number.Order

/-!
# Rounding of integers

An integer is made a binary64 number by rounding it to 53 binary digits. Integers that need no
more digits are kept, so all up to `2 ^ 53` are; others are off by at most one part in `2 ^ 53`.
From `2 ^ 1024` on, after rounding, there is no finite number left.
-/

namespace Stepwise

namespace Binary64

/-! ## Rounded quotients -/

/-- A rounded quotient is off by half a unit at most. -/
theorem roundDiv_error (num : Nat) {den : Nat} (hden : 0 < den) :
    2 * (roundDiv num den * den) ≤ 2 * num + den ∧ 2 * num ≤ 2 * (roundDiv num den * den) + den := by
  have hdiv : num / den * den + num % den = num := Nat.div_add_mod' num den
  have hmod : num % den < den := Nat.mod_lt num hden
  have hsucc : (num / den + 1) * den = num / den * den + den := Nat.succ_mul _ _
  simp only [roundDiv]
  split
  · omega
  · split
    · rw [hsucc]
      omega
    · split
      · omega
      · rw [hsucc]
        omega

/-- What is divided without rest is not rounded. -/
theorem roundDiv_of_dvd {num den : Nat} (hden : 0 < den) (h : den ∣ num) :
    roundDiv num den = num / den := by
  simp [roundDiv, Nat.mod_eq_zero_of_dvd h, hden]

/-- A quotient between two integers is rounded to one between them. -/
theorem le_roundDiv {num den low : Nat} (hden : 0 < den) (h : low * den ≤ num) :
    low ≤ roundDiv num den := by
  have hle : low ≤ num / den := (Nat.le_div_iff_mul_le hden).2 h
  simp only [roundDiv]
  split_ifs <;> omega

theorem roundDiv_le {num den high : Nat} (hden : 0 < den) (h : num < high * den) :
    roundDiv num den ≤ high := by
  have hlt : num / den < high := (Nat.div_lt_iff_lt_mul hden).2 h
  simp only [roundDiv]
  split_ifs <;> omega

/-! ## Rounded natural numbers -/

theorem mul_pow_lt {m e a b c : Nat} (hm : m < 2 ^ a) (he : e ≤ b) (hc : a + b = c) :
    m * 2 ^ e < 2 ^ c := by
  rw [← hc, Nat.pow_add]
  calc m * 2 ^ e ≤ m * 2 ^ b := Nat.mul_le_mul_left m (Nat.pow_le_pow_right (by decide) he)
    _ < 2 ^ a * 2 ^ b := Nat.mul_lt_mul_of_pos_right hm (Nat.two_pow_pos b)

theorem le_mul_pow {m e a b c : Nat} (hm : 2 ^ a ≤ m) (he : b ≤ e) (hc : a + b = c) :
    2 ^ c ≤ m * 2 ^ e := by
  rw [← hc, Nat.pow_add]
  exact Nat.mul_le_mul hm (Nat.pow_le_pow_right (by decide) he)

/-- The unit in which a natural number is counted by 53 binary digits. -/
def unit (k : Nat) : Nat := 2 ^ (Nat.log2 k - 52)

/-- The natural number rounded to 53 binary digits. -/
def rounded (k : Nat) : Nat := roundDiv k (unit k) * unit k

theorem unit_pos (k : Nat) : 0 < unit k := Nat.two_pow_pos _

theorem unit_of_lt {k : Nat} (h : k < 2 ^ 53) : unit k = 1 := by
  have hlog : Nat.log2 k - 52 = 0 := by
    by_cases hk : k = 0
    · simp [hk]
    · have := (Nat.log2_lt hk).2 h
      omega
  rw [unit, hlog, Nat.pow_zero]

/-- The unit is the greatest that leaves 53 digits. -/
theorem unit_bounds {k : Nat} (h : 2 ^ 52 ≤ k) : 2 ^ 52 * unit k ≤ k ∧ k < 2 ^ 53 * unit k := by
  have hk : k ≠ 0 := by
    rintro rfl
    exact absurd h (by decide)
  have hlog : 52 ≤ Nat.log2 k := (Nat.le_log2 hk).2 h
  have hlow : 52 + (Nat.log2 k - 52) = Nat.log2 k := by omega
  have hhigh : 53 + (Nat.log2 k - 52) = Nat.log2 k + 1 := by omega
  rw [unit, ← Nat.pow_add, ← Nat.pow_add, hlow, hhigh]
  exact ⟨Nat.log2_self_le hk, Nat.lt_log2_self⟩

/-- A number that its unit counts without rest is kept. -/
theorem rounded_of_dvd {k : Nat} (h : unit k ∣ k) : rounded k = k := by
  rw [rounded, roundDiv_of_dvd (unit_pos k) h, Nat.div_mul_cancel h]

theorem rounded_of_lt {k : Nat} (h : k < 2 ^ 53) : rounded k = k :=
  rounded_of_dvd (unit_of_lt h ▸ Nat.one_dvd k)

/-- A number that 53 digits are enough for is kept. -/
theorem rounded_mul_pow {m : Nat} (hm : m < 2 ^ 53) (e : Nat) : rounded (m * 2 ^ e) = m * 2 ^ e := by
  by_cases hlt : m * 2 ^ e < 2 ^ 53
  · exact rounded_of_lt hlt
  · -- The unit is a power of two, and one up to `2 ^ e`, or else the number would be smaller.
    refine rounded_of_dvd (Nat.dvd_mul_left_of_dvd ?_ m)
    have hbounds := unit_bounds (k := m * 2 ^ e) (by omega)
    have hless : m * 2 ^ e < 2 ^ 53 * 2 ^ e := Nat.mul_lt_mul_of_pos_right hm (Nat.two_pow_pos e)
    refine Nat.pow_dvd_pow 2 (Nat.le_of_not_lt fun hgt => ?_)
    have hpow : 2 * 2 ^ e ≤ unit (m * 2 ^ e) := by
      rw [unit, ← Nat.pow_succ']
      exact Nat.pow_le_pow_right (by decide) hgt
    omega

/-- A rounded number is off by one part in `2 ^ 53` at most. -/
theorem rounded_error (k : Nat) :
    2 ^ 53 * rounded k ≤ 2 ^ 53 * k + k ∧ 2 ^ 53 * k ≤ 2 ^ 53 * rounded k + k := by
  by_cases hlt : k < 2 ^ 53
  · rw [rounded_of_lt hlt]
    omega
  · have hbounds := unit_bounds (k := k) (by omega)
    have herror := roundDiv_error k (unit_pos k)
    rw [← rounded] at herror
    omega

/-- A number is not rounded past a power of two. -/
theorem pow_le_rounded {k a : Nat} (hk : k ≠ 0) (h : a ≤ Nat.log2 k) : 2 ^ a ≤ rounded k := by
  have hpow : 2 ^ a ≤ 2 ^ Nat.log2 k := Nat.pow_le_pow_right (by decide) h
  by_cases hlt : k < 2 ^ 53
  · rw [rounded_of_lt hlt]
    exact hpow.trans (Nat.log2_self_le hk)
  · have hlarge : 2 ^ 52 ≤ k := by omega
    have hlog : 52 ≤ Nat.log2 k := (Nat.le_log2 hk).2 hlarge
    have hdigits : 2 ^ 52 ≤ roundDiv k (unit k) := le_roundDiv (unit_pos k) (unit_bounds hlarge).1
    exact hpow.trans (le_mul_pow hdigits (Nat.le_refl _) (by omega))

/-- What is less than `2 ^ 53` after rounding was so before. -/
theorem lt_of_rounded_lt {k : Nat} (h : rounded k < 2 ^ 53) : k < 2 ^ 53 := by
  by_contra hge
  have hk : k ≠ 0 := by
    rintro rfl
    exact hge (by decide)
  exact absurd (pow_le_rounded hk ((Nat.le_log2 hk).2 (Nat.le_of_not_lt hge))) h.not_ge

/-! ## Binary64 numbers that are integers -/

def signed (negative : Bool) (k : Nat) : Int := if negative then -(k : Int) else k

theorem signed_natAbs (n : Int) : signed (decide (n < 0)) n.natAbs = n := by
  by_cases h : n < 0
  · rw [signed, decide_eq_true h, if_pos rfl, Int.ofNat_natAbs_of_nonpos h.le, Int.neg_neg]
  · rw [signed, decide_eq_false h, if_neg Bool.false_ne_true, Int.natAbs_of_nonneg (Int.not_lt.1 h)]

/-- The value is finite, and an integer. -/
def StandsFor (x : Binary64) (z : Int) : Prop :=
  x.extent? = some (((z : ℚ) : WithTop ℚ) : WithBot (WithTop ℚ))

theorem standsFor_finite (s : Bool) (m e : Nat) : StandsFor (.finite s m e) (signed s (m * 2 ^ e)) := by
  have hneg : ¬ (e : Int) < 0 := by omega
  simp only [StandsFor, extent?, ratio, if_neg hneg, signed, Int.natAbs_natCast]
  cases s <;> simp

theorem standsFor_fraction (s : Bool) (k : Nat) {j : Nat} (hj : 0 < j) :
    StandsFor (.finite s (k * 2 ^ j) (-j)) (signed s k) := by
  have hneg : -(j : Int) < 0 := by omega
  have hpow : (2 : ℚ) ^ j ≠ 0 := pow_ne_zero j two_ne_zero
  simp only [StandsFor, extent?, ratio, if_pos hneg, signed, Int.natAbs_neg, Int.natAbs_natCast]
  cases s <;> simp [hpow, neg_div]

/-- The fraction of a value that is an integer. -/
theorem StandsFor.ratio_eq {s : Bool} {m : Nat} {e z : Int} (h : StandsFor (.finite s m e) z) :
    (ratio s m e).1 = z * (ratio s m e).2 := by
  have hden : ((ratio s m e).2 : ℚ) ≠ 0 := by exact_mod_cast (ratio_pos s m e).ne'
  have hvalue : ((ratio s m e).1 : ℚ) / (ratio s m e).2 = z := by
    simpa [StandsFor, extent?] using h
  rw [div_eq_iff hden] at hvalue
  exact_mod_cast hvalue

/-- A value that is an integer is found to be one, and to be which. -/
theorem StandsFor.toInt? {x : Binary64} {z : Int} (h : x.StandsFor z) :
    x.toInt? = some z ∧ x.isInteger = true := by
  rcases x with mark | s | ⟨s, m, e⟩
  · cases h
  · cases s <;> cases h
  · have hden : (ratio s m e).2 ≠ 0 := (ratio_pos s m e).ne'
    constructor
    · simp [Binary64.toInt?, h.ratio_eq, Int.mul_tdiv_cancel, hden]
    · simp [isInteger, h.ratio_eq, Int.natAbs_mul]

/-- Two values that are integers have the order of the integers. -/
theorem StandsFor.compare? {x y : Binary64} {z w : Int} (hx : x.StandsFor z) (hy : y.StandsFor w) :
    x.compare? y = some (compare z w) := by
  have hcast := (Int.cast_strictMono (R := ℚ)).cmp_map_eq z w
  rw [cmp_eq_compare, cmp_eq_compare] at hcast
  rw [compare?_eq, hx, hy, Option.bind_some, Option.map_some, compare_finite, hcast]

/-- A value that is an integer has the order of the integer with the integers. -/
theorem StandsFor.compareInt? {x : Binary64} {z : Int} (h : x.StandsFor z) (n : Int) :
    x.compareInt? n = some (compare z n) := by
  have hcast := (Int.cast_strictMono (R := ℚ)).cmp_map_eq z n
  rw [cmp_eq_compare, cmp_eq_compare] at hcast
  rw [compareInt?_eq, h, Option.bind_some, Number.extent?, Option.map_some, compare_finite, hcast]

theorem StandsFor.ne_infinite {x : Binary64} {z : Int} (h : x.StandsFor z) (s : Bool) :
    x ≠ .infinite s := by
  rintro rfl
  cases s <;> cases h

/-- No integer is infinite. -/
theorem StandsFor.compare?_infinite {x : Binary64} {z : Int} (h : x.StandsFor z) (s : Bool) :
    (x.compare? (.infinite s) == some .eq) = false := by
  cases x with
  | nan mark => cases h
  | infinite s' => exact absurd rfl (h.ne_infinite s')
  | finite s' m e => cases s <;> rfl

/-! ## Rounding to the format -/

/-- The exponent leaves 53 digits of an integer. -/
theorem unitExponent_one {k : Nat} (hk : k ≠ 0) : unitExponent k 1 = (Nat.log2 k : Int) - 52 := by
  have hdigits : ¬ truncScaled k 1 ((Nat.log2 k : Int) - 52) < leastMantissa := by
    have hleast : leastMantissa = 2 ^ 52 := rfl
    rw [hleast, Nat.not_lt]
    unfold truncScaled
    split
    · rename_i hneg
      have hexp : ((Nat.log2 k : Int) - 52).natAbs = 52 - Nat.log2 k := by omega
      have hsum : Nat.log2 k + (52 - Nat.log2 k) = 52 := by omega
      rw [hexp, Nat.div_one]
      calc 2 ^ 52 = 2 ^ Nat.log2 k * 2 ^ (52 - Nat.log2 k) := by rw [← Nat.pow_add, hsum]
        _ ≤ k * 2 ^ (52 - Nat.log2 k) := Nat.mul_le_mul_right _ (Nat.log2_self_le hk)
    · rename_i hge
      have hexp : ((Nat.log2 k : Int) - 52).natAbs = Nat.log2 k - 52 := by omega
      rw [hexp, Nat.one_mul]
      refine (Nat.le_div_iff_mul_le (Nat.two_pow_pos _)).2 (unit_bounds ?_).1
      exact (Nat.le_log2 hk).1 (by omega)
  have hlog : Nat.log2 1 = 0 := by decide
  have hleast : leastExponent ≤ (Nat.log2 k : Int) - 52 := by
    simp only [leastExponent]
    omega
  simp only [unitExponent, hlog, Int.natCast_zero, Int.sub_zero]
  rw [if_neg hdigits, max_eq_left hleast]

/-- Fewer than 53 digits are filled up with zeros. -/
theorem ofRatio_one_of_lt (s : Bool) {k : Nat} (hk : k ≠ 0) (h : k < 2 ^ 52) :
    ofRatio s k 1 = .finite s (k * 2 ^ (52 - Nat.log2 k)) (-(52 - Nat.log2 k : Nat)) := by
  have hlog : Nat.log2 k < 52 := (Nat.log2_lt hk).2 h
  have hexp : (Nat.log2 k : Int) - 52 = -(52 - Nat.log2 k : Nat) := by omega
  have hless : k * 2 ^ (52 - Nat.log2 k) < 2 ^ 53 := by
    have hsum : Nat.log2 k + 1 + (52 - Nat.log2 k) = 53 := by omega
    rw [← hsum, Nat.pow_add]
    exact Nat.mul_lt_mul_of_pos_right Nat.lt_log2_self (Nat.two_pow_pos _)
  have hscaled : roundScaled k 1 (-(52 - Nat.log2 k : Nat)) = k * 2 ^ (52 - Nat.log2 k) := by
    rw [roundScaled, if_pos (by omega), Int.natAbs_neg, Int.natAbs_natCast,
      roundDiv_of_dvd Nat.one_pos (Nat.one_dvd _), Nat.div_one]
    rfl
  have hcarry : k * 2 ^ (52 - Nat.log2 k) ≠ 2 * leastMantissa := hless.ne
  have hrange : ¬ greatestExponent < -(52 - Nat.log2 k : Nat) := by
    simp only [greatestExponent]
    omega
  simp only [ofRatio, if_neg hk, unitExponent_one hk, hexp, hscaled, if_neg hcarry, if_neg hrange]

/-- Other numbers have 53 digits after rounding, at some exponent. -/
theorem ofRatio_one_of_ge (s : Bool) {k : Nat} (h : 2 ^ 52 ≤ k) :
    ∃ m e : Nat, rounded k = m * 2 ^ e ∧ 2 ^ 52 ≤ m ∧ m < 2 ^ 53 ∧
      ofRatio s k 1 = if 971 < e then .infinite s else .finite s m e := by
  have hk : k ≠ 0 := by
    rintro rfl
    exact absurd h (by decide)
  have hlog : 52 ≤ Nat.log2 k := (Nat.le_log2 hk).2 h
  have hexp : (Nat.log2 k : Int) - 52 = (Nat.log2 k - 52 : Nat) := by omega
  have hscaled : roundScaled k 1 (Nat.log2 k - 52 : Nat) = roundDiv k (unit k) := by
    rw [roundScaled, if_neg (by omega), Int.natAbs_natCast, Nat.one_mul]
    rfl
  have hlow : 2 ^ 52 ≤ roundDiv k (unit k) := le_roundDiv (unit_pos k) (unit_bounds h).1
  have hhigh : roundDiv k (unit k) ≤ 2 ^ 53 := roundDiv_le (unit_pos k) (unit_bounds h).2
  have hcarry : 2 * leastMantissa = 2 ^ 53 := rfl
  simp only [ofRatio, if_neg hk, unitExponent_one hk, hexp, hscaled, hcarry]
  by_cases hm : roundDiv k (unit k) = 2 ^ 53
  · -- The carry to a 54th digit raises the exponent.
    refine ⟨2 ^ 52, Nat.log2 k - 52 + 1, ?_, Nat.le_refl _, by decide, ?_⟩
    · rw [rounded, hm, unit, ← Nat.pow_add, ← Nat.pow_add]
      congr 1
      omega
    · simp only [if_pos hm, greatestExponent]
      norm_cast
  · refine ⟨roundDiv k (unit k), Nat.log2 k - 52, rfl, hlow, by omega, ?_⟩
    simp only [if_neg hm, greatestExponent]
    norm_cast

/-- Rounding to binary64 rounds the number, or else passes the finite values. -/
theorem ofRatio_one (s : Bool) (k : Nat) :
    (rounded k < 2 ^ 1024 → (ofRatio s k 1).StandsFor (signed s (rounded k))) ∧
      (2 ^ 1024 ≤ rounded k → ofRatio s k 1 = .infinite s) := by
  by_cases h : k < 2 ^ 52
  · have hlt : rounded k < 2 ^ 1024 := by
      rw [rounded_of_lt (by omega)]
      omega
    refine ⟨fun _ => ?_, fun hge => absurd hlt hge.not_gt⟩
    rw [rounded_of_lt (by omega)]
    by_cases hk : k = 0
    · subst hk
      have hzero := standsFor_fraction s 0 (j := 1074) (by decide)
      rwa [Nat.zero_mul] at hzero
    · have hlog : Nat.log2 k < 52 := (Nat.log2_lt hk).2 h
      rw [ofRatio_one_of_lt s hk h]
      exact standsFor_fraction s k (by omega)
  · obtain ⟨m, e, hrounded, hlow, hhigh, hvalue⟩ := ofRatio_one_of_ge s (Nat.le_of_not_lt h)
    rw [hrounded, hvalue]
    by_cases he : 971 < e
    · have hge : 2 ^ 1024 ≤ m * 2 ^ e := le_mul_pow hlow (Nat.succ_le_of_lt he) rfl
      rw [if_pos he]
      exact ⟨fun hlt => absurd hge hlt.not_ge, fun _ => rfl⟩
    · have hlt : m * 2 ^ e < 2 ^ 1024 := mul_pow_lt hhigh (Nat.le_of_not_lt he) rfl
      rw [if_neg he]
      exact ⟨fun _ => standsFor_finite s m e, fun hge => absurd hlt hge.not_gt⟩

/-! ## The nearest binary64 number -/

/-- The binary64 number nearest to an integer; it is infinite if none of the finite ones is. -/
def nearest (n : Int) : Binary64 := ofRatio (decide (n < 0)) n.natAbs 1

/-- The integer that the nearest binary64 number stands for, if it is finite. -/
def nearestInt? (n : Int) : Option Int := (nearest n).toInt?

theorem nearestInt?_eq (n : Int) :
    nearestInt? n = if rounded n.natAbs < 2 ^ 1024 then some (signed (decide (n < 0)) (rounded n.natAbs))
      else none := by
  obtain ⟨hfinite, hinfinite⟩ := ofRatio_one (decide (n < 0)) n.natAbs
  rw [nearestInt?, nearest]
  split
  · rename_i hlt
    exact (hfinite hlt).toInt?.1
  · rename_i hge
    rw [hinfinite (Nat.le_of_not_lt hge)]
    rfl

/-- The nearest binary64 number stands for an integer, unless it is infinite. -/
theorem nearest_cases (n : Int) :
    (∃ r, nearestInt? n = some r ∧ (nearest n).StandsFor r) ∨
      (nearestInt? n = none ∧ nearest n = .infinite (decide (n < 0))) := by
  obtain ⟨hfinite, hinfinite⟩ := ofRatio_one (decide (n < 0)) n.natAbs
  rw [nearestInt?_eq]
  split
  · rename_i hlt
    exact .inl ⟨_, rfl, hfinite hlt⟩
  · rename_i hge
    exact .inr ⟨rfl, hinfinite (Nat.le_of_not_lt hge)⟩

/-- An integer is made a binary64 number if the nearest one is finite. -/
theorem ofInt?_eq (n : Int) : ofInt? n = (nearestInt? n).map fun _ => nearest n := by
  unfold ofInt?
  obtain ⟨r, hr, hstands⟩ | ⟨hr, hinfinite⟩ := nearest_cases n
  · rw [hr, Option.map_some]
    cases hx : nearest n with
    | infinite s => exact absurd hx (hstands.ne_infinite s)
    | _ =>
      rw [nearest] at hx
      rw [hx]
  · rw [hr]
    rw [nearest] at hinfinite
    rw [hinfinite]
    rfl

/-- The integer is a binary64 number: 53 binary digits are enough for it, at an exponent of the format. -/
def IsExact (n : Int) : Prop := ∃ m e : Nat, m < 2 ^ 53 ∧ e ≤ 971 ∧ n.natAbs = m * 2 ^ e

theorem isExact_of_le {n : Int} (h : n.natAbs ≤ 2 ^ 53) : IsExact n := by
  by_cases heq : n.natAbs = 2 ^ 53
  · exact ⟨2 ^ 52, 1, by decide, by decide, heq⟩
  · exact ⟨n.natAbs, 0, by omega, by decide, (Nat.mul_one _).symm⟩

/-- What is a binary64 number is its own nearest. -/
theorem nearestInt?_of_isExact {n : Int} (h : IsExact n) : nearestInt? n = some n := by
  obtain ⟨m, e, hm, he, hn⟩ := h
  have hkept : rounded n.natAbs = n.natAbs := by
    rw [hn, rounded_mul_pow hm]
  have hlt : n.natAbs < 2 ^ 1024 := hn ▸ mul_pow_lt hm he rfl
  rw [nearestInt?_eq, hkept, if_pos hlt, signed_natAbs]

/-- Only what is a binary64 number is its own nearest. -/
theorem nearestInt?_eq_self_iff {n : Int} : nearestInt? n = some n ↔ IsExact n := by
  refine ⟨fun h => ?_, nearestInt?_of_isExact⟩
  rcases Nat.le_total n.natAbs (2 ^ 53) with hsmall | hlarge
  · exact isExact_of_le hsmall
  have hlow : 2 ^ 52 ≤ n.natAbs := by omega
  have hne : n.natAbs ≠ 0 := by omega
  rw [nearestInt?_eq] at h
  split at h
  · rename_i hlt
    have hkept : rounded n.natAbs = n.natAbs := by
      have hsigned := congrArg Int.natAbs (Option.some.inj h)
      unfold signed at hsigned
      split at hsigned <;> simpa using hsigned
    rw [hkept] at hlt
    have hpow : 2 ^ Nat.log2 n.natAbs < 2 ^ 1024 := lt_of_le_of_lt (Nat.log2_self_le hne) hlt
    have hlog : Nat.log2 n.natAbs < 1024 := (pow_lt_pow_iff_right₀ one_lt_two).1 hpow
    have hexponent : Nat.log2 n.natAbs - 52 ≤ 971 := by
      clear hlt hpow
      omega
    refine ⟨roundDiv n.natAbs (unit n.natAbs), Nat.log2 n.natAbs - 52, ?_, hexponent, hkept.symm⟩
    refine Nat.lt_of_mul_lt_mul_right (a := unit n.natAbs) ?_
    exact lt_of_eq_of_lt hkept (unit_bounds hlow).2
  · cases h

/-- The nearest binary64 number is off by one part in `2 ^ 53` at most. -/
theorem nearestInt?_error {n r : Int} (h : nearestInt? n = some r) :
    2 ^ 53 * (r - n).natAbs ≤ n.natAbs := by
  rw [nearestInt?_eq] at h
  split at h
  · obtain rfl := Option.some.inj h
    obtain ⟨hhigh, hlow⟩ := rounded_error n.natAbs
    unfold signed
    split <;> rename_i hsign
    · have hneg : n < 0 := of_decide_eq_true hsign
      omega
    · have hpos : ¬ n < 0 := by simpa using hsign
      omega
  · cases h

/-- Below `2 ^ 53` an integer is the nearest only to itself. -/
theorem nearestInt?_eq_some_iff {n r : Int} (hr : r.natAbs < 2 ^ 53) :
    nearestInt? n = some r ↔ n = r := by
  constructor
  · intro h
    rw [nearestInt?_eq] at h
    split at h
    · have hsize : (signed (decide (n < 0)) (rounded n.natAbs)).natAbs = rounded n.natAbs := by
        unfold signed
        split <;> simp
      have hlt : n.natAbs < 2 ^ 53 := by
        refine lt_of_rounded_lt ?_
        rw [← hsize, Option.some.inj h]
        exact hr
      rw [rounded_of_lt hlt, signed_natAbs] at h
      exact Option.some.inj h
    · cases h
  · rintro rfl
    exact nearestInt?_of_isExact (isExact_of_le hr.le)

end Binary64

end Stepwise
