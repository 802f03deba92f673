-- SUMMARY: Rounding gives values of the binary64 format only, so numbers that are read from text fit it.
import Mathlib.Tactic.Linarith
import Mathlib.Tactic.Ring
import Stepwise.Proofs.Number.Numeral

/-!
# The format

A quotient is rounded to 53 binary digits, in units that are chosen by its size. So every number
that is read from a text is one of the format, or infinite, or `nan`. An integer among them
needs no further rounding.
-/

namespace Stepwise

namespace Binary64

/-! ## Units -/

/-- The number is less than so many units of `den * 2 ^ e`. -/
def Below (num den count : Nat) (e : Int) : Prop := (num : ℚ) < count * (den * (2 : ℚ) ^ e)

theorem below_iff (num den count : Nat) (e : Int) :
    Below num den count e ↔
      if e < 0 then num * 2 ^ e.natAbs < count * den else num < count * (den * 2 ^ e.natAbs) := by
  unfold Below
  split
  · rename_i hneg
    have hexp : e = -(e.natAbs : Int) := by omega
    have hpow : (0 : ℚ) < 2 ^ e.natAbs := by positivity
    rw [hexp, zpow_neg, zpow_natCast, Int.natAbs_neg, Int.natAbs_natCast, ← mul_assoc, ← div_eq_mul_inv,
      lt_div_iff₀ hpow]
    exact_mod_cast Iff.rfl
  · rename_i hpos
    have hexp : e = (e.natAbs : Int) := by omega
    rw [hexp, zpow_natCast, Int.natAbs_natCast]
    exact_mod_cast Iff.rfl

variable {num den count : Nat} {e e' : Int}

theorem Below.mono (h : Below num den count e) (he : e ≤ e') : Below num den count e' := by
  refine lt_of_lt_of_le h ?_
  have hpow : (2 : ℚ) ^ e ≤ 2 ^ e' := zpow_le_zpow_right₀ (by norm_num) he
  gcongr

/-- Of units of half the size there are twice as many. -/
theorem Below.half (h : Below num den count e) : Below num den (2 * count) (e - 1) := by
  unfold Below at *
  rw [zpow_sub_one₀ (by norm_num)]
  push_cast
  linarith

theorem truncScaled_lt_iff (hden : 0 < den) (e : Int) :
    truncScaled num den e < count ↔ Below num den count e := by
  rw [below_iff, truncScaled]
  split
  · exact Nat.div_lt_iff_lt_mul hden
  · exact Nat.div_lt_iff_lt_mul (Nat.mul_pos hden (Nat.two_pow_pos _))

theorem roundScaled_le (hden : 0 < den) (h : Below num den count e) : roundScaled num den e ≤ count := by
  rw [below_iff] at h
  unfold roundScaled
  split at h <;> rename_i hsign
  · rw [if_pos hsign]
    exact roundDiv_le hden h
  · rw [if_neg hsign]
    exact roundDiv_le (Nat.mul_pos hden (Nat.two_pow_pos _)) h

/-- The numbers of binary digits tell the unit up to a factor of two. -/
theorem below_log2 (hden : 0 < den) :
    Below num den (2 ^ 53) ((Nat.log2 num : Int) - (Nat.log2 den : Int) - 52) := by
  have hnum : (num : ℚ) < 2 ^ (Nat.log2 num + 1) := by exact_mod_cast Nat.lt_log2_self
  have hlow : (2 : ℚ) ^ Nat.log2 den ≤ den := by exact_mod_cast Nat.log2_self_le hden.ne'
  have hexp : (2 : ℚ) ^ (Nat.log2 num + 1)
      = 2 ^ 53 * (2 ^ Nat.log2 den * (2 : ℚ) ^ ((Nat.log2 num : Int) - (Nat.log2 den : Int) - 52)) := by
    have htwo : (2 : ℚ) ≠ 0 := two_ne_zero
    rw [← zpow_natCast, ← zpow_natCast, ← zpow_natCast, ← zpow_add₀ htwo, ← zpow_add₀ htwo]
    congr 1
    push_cast
    ring
  unfold Below
  rw [Nat.cast_pow, Nat.cast_ofNat]
  have hunit : (0 : ℚ) ≤ 2 ^ ((Nat.log2 num : Int) - (Nat.log2 den : Int) - 52) := (zpow_pos two_pos _).le
  refine hnum.trans_le ?_
  rw [hexp]
  gcongr

/-- Counted in its unit, a quotient has 53 digits at most. -/
theorem below_unitExponent (hden : 0 < den) : Below num den (2 ^ 53) (unitExponent num den) := by
  refine Below.mono ?_ (le_max_left _ _)
  split
  · rename_i htrunc
    exact ((truncScaled_lt_iff hden _).1 htrunc).half
  · exact below_log2 hden

/-! ## Values -/

/-- The value has 53 binary digits at most and an exponent that is not too great, if it is finite. -/
def IsFormat (x : Binary64) : Prop :=
  ∀ s m e, x = .finite s m e → m < 2 ^ 53 ∧ e ≤ greatestExponent

theorem isFormat_nan (mark : Nat) : IsFormat (.nan mark) := nofun

theorem isFormat_infinite (s : Bool) : IsFormat (.infinite s) := nofun

theorem isFormat_zero (s : Bool) : IsFormat (zero s) := by
  intro s' m e h
  cases h
  decide

/-- Rounding gives values of the format only. -/
theorem isFormat_ofRatio (s : Bool) (num : Nat) (hden : 0 < den) : IsFormat (ofRatio s num den) := by
  have hbelow : Below num den (2 ^ 53) (unitExponent num den) := below_unitExponent hden
  have hle := roundScaled_le hden hbelow
  have hcarry : 2 * leastMantissa = 2 ^ 53 := rfl
  have hfinite {m : Nat} {e : Int} (hm : m < 2 ^ 53) :
      IsFormat (if greatestExponent < e then .infinite s else .finite s m e) := by
    split
    · exact isFormat_infinite s
    · rename_i hrange
      intro s' m' e' h
      cases h
      exact ⟨hm, Int.not_lt.1 hrange⟩
  simp only [ofRatio]
  split
  · exact isFormat_zero s
  · split
    · exact hfinite (show leastMantissa < 2 ^ 53 by decide)
    · exact hfinite (by omega)

theorem isFormat_ofScientific (s : Bool) (digits : Nat) (e : Int) : IsFormat (ofScientific s digits e) := by
  unfold ofScientific
  split
  · exact isFormat_zero s
  · dsimp only
    split
    · exact isFormat_infinite s
    · split
      · exact isFormat_zero s
      · split
        · exact isFormat_ofRatio s _ (Nat.pow_pos (by decide))
        · exact isFormat_ofRatio s _ Nat.one_pos

/-- The integers of the format need no rounding. -/
theorem IsFormat.isExact {x : Binary64} {n : Int} (h : x.IsFormat) (hn : x.toInt? = some n) :
    IsExact n := by
  cases x with
  | nan mark => cases hn
  | infinite s => cases hn
  | finite s m e =>
    obtain ⟨hm, he⟩ := h s m e rfl
    have hsize : n.natAbs = (ratio s m e).1.natAbs / (ratio s m e).2 := by
      rw [← Option.some.inj hn, Int.natAbs_tdiv, Int.natAbs_natCast]
      rfl
    have hnum : (ratio s m e).1.natAbs = if e < 0 then m else m * 2 ^ e.natAbs := by
      by_cases hneg : e < 0 <;> cases s <;> simp [ratio, hneg, Int.natAbs_mul]
    have hden : (ratio s m e).2 = if e < 0 then 2 ^ e.natAbs else 1 := by
      cases s <;> simp [ratio]
    rw [hnum, hden] at hsize
    split at hsize
    · refine isExact_of_le (hsize ▸ (Nat.div_le_self _ _).trans hm.le)
    · simp only [greatestExponent] at he
      exact ⟨m, e.natAbs, hm, by omega, by rw [hsize, Nat.div_one]⟩

end Binary64

namespace Numeral

open Binary64 (IsFormat)

theorem isFormat_of_spelled? {negative : Bool} {whole fraction : List Nat} {tail : List Char} {x : Binary64}
    (h : spelled? negative whole fraction tail = some x) : x.IsFormat := by
  unfold spelled? at h
  split at h
  · cases h
  · obtain ⟨e, -, rfl⟩ := Option.map_eq_some_iff.1 h
    exact Binary64.isFormat_ofScientific _ _ _

/-- A number that is read from a text is one of the format. -/
theorem isFormat_of_readNumber? {s : String} {x : Binary64} (h : readNumber? s = some x) : x.IsFormat := by
  simp only [readNumber?] at h
  split at h
  · obtain rfl := Option.some.inj h
    exact Binary64.isFormat_infinite _
  · split at h
    · obtain rfl := Option.some.inj h
      exact Binary64.isFormat_nan _
    · obtain ⟨whole, fraction, tail, hspelled, -⟩ := readDecimal?_eq_spelled? _ _
      rw [hspelled] at h
      exact isFormat_of_spelled? h

end Numeral

end Stepwise
