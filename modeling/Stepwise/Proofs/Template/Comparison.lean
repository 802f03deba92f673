-- SUMMARY: Integers compared with decimal literals: which rounding that goes through, and when it is exact.
import Stepwise.Proofs.Template.Operator

/-!
# Comparison of integers

An integer is compared with a decimal literal by way of binary64 numbers. A bare literal is
rounded when it is read, and then compared exactly. A quoted literal is a text, so both sides are
rounded, and an integer that is too large to be rounded to a finite number is a fault. The
comparison is exact for integers that need no rounding. Others are found equal although they
differ, and a large integer is found unequal to its own decimal text.
-/

namespace Stepwise

namespace Template

open Binary64 (intText nearest nearestInt? IsExact)

/-! ## Integers and texts -/

theorem looselyEqual_int (m r : Int) : looselyEqual (.int m) (.int r) = .ok (decide (m = r)) := by
  have hsame : Value.same (.int m) (.int r) = decide (m = r) := by
    simp [Value.same, Value.number?, Number.same_int]
  rw [looselyEqual, hsame]
  by_cases h : m = r <;> simp [Value.isNull, Value.str?, h]

/-- No integer is infinite. -/
theorem looselyEqual_infinite (m : Int) (negative : Bool) :
    looselyEqual (.int m) (.float (.infinite negative)) = .ok false := by
  cases negative <;> rfl

theorem looselyEqual_text (m : Int) (t : String) :
    looselyEqual (.int m) (.str t) = sameNumber (.int m) (.str t) := rfl

/-- The integer that stands for another one where both sides are rounded. -/
def roundedInt (m : Int) : Except Fault Int :=
  match nearestInt? m with
  | some r => .ok r
  | none => .error Value.tooLarge

theorem roundedInt_of_some {m r : Int} (h : nearestInt? m = some r) : roundedInt m = .ok r := by
  rw [roundedInt, h]

/-- A text that spells no number is equal to no integer. -/
theorem sameNumber_of_none (m : Int) {t : String} (ht : Numeral.readNumber? t = none) :
    sameNumber (.int m) (.str t) = (roundedInt m).map fun _ => false := by
  simp only [sameNumber, Value.toBinary64, Binary64.ofInt?_eq, roundedInt, ht]
  cases nearestInt? m <;> rfl

/-- The decimal text of an integer is equal to those that are rounded to the same. -/
theorem sameNumber_intText (m n : Int) :
    sameNumber (.int m) (.str (intText n))
      = (roundedInt m).map fun r => decide (nearestInt? n = some r) := by
  simp only [sameNumber, Value.toBinary64, Binary64.ofInt?_eq, roundedInt, Numeral.readNumber?_intText]
  obtain ⟨r, hr, hleft⟩ | ⟨hr, -⟩ := Binary64.nearest_cases m
  · rw [hr]
    refine congrArg Except.ok ?_
    obtain ⟨k, hk, hright⟩ | ⟨hk, hinfinite⟩ := Binary64.nearest_cases n
    · rw [hk, hleft.compare? hright]
      by_cases heq : r = k
      · simp [heq]
      · simp [heq, Ne.symm heq]
    · rw [hk, hinfinite, hleft.compare?_infinite]
      rfl
  · rw [hr]
    rfl

/-! ## Conditions on integers -/

variable {c : Context} {p : String} {m : Int}

theorem compared_of_int (hm : resolve c (Text.strip p) = .ok (.int m)) (s : String) :
    compared c (Text.strip p) s = looselyEqual (.int m) (literal s) := by
  rw [compared, hm, Checks.ok_bind]
  rfl

theorem compared_intText (hm : resolve c (Text.strip p) = .ok (.int m)) (n : Int) :
    compared c (Text.strip p) (intText n) = .ok (decide (nearestInt? n = some m)) := by
  rw [compared_of_int hm, literal_intText]
  cases nearestInt? n with
  | none => exact looselyEqual_infinite m _
  | some r => simp [looselyEqual_int, eq_comm]

theorem compared_quoted (hm : resolve c (Text.strip p) = .ok (.int m)) {q : Char} (hq : IsQuote q)
    (n : Int) :
    compared c (Text.strip p) (quoted q (intText n))
      = (roundedInt m).map fun r => decide (nearestInt? n = some r) := by
  rw [compared_of_int hm, literal_quoted hq, looselyEqual_text, sameNumber_intText]

/-- No integer equals a literal that holds a brace. -/
theorem compared_of_brace (hm : resolve c (Text.strip p) = .ok (.int m)) {s : String}
    (hs : '\x7d' ∈ s.toList) : compared c (Text.strip p) s = (roundedInt m).map fun _ => false := by
  obtain ⟨t, ht, hmem⟩ := literal_of_brace hs
  rw [compared_of_int hm, ht, looselyEqual_text, sameNumber_of_none m (Numeral.readNumber?_of_brace hmem)]

/-! ## Exactness -/

/-- The comparison of what is rounded is exact if both integers need no rounding, or one of them is less
than `2 ^ 53`. -/
theorem roundedInt_exact {n : Int} (h : IsExact m ∧ IsExact n ∨ m.natAbs < 2 ^ 53 ∨ n.natAbs < 2 ^ 53) :
    ((roundedInt m).map fun r => decide (nearestInt? n = some r))
      = (roundedInt m).map fun _ => decide (m = n) := by
  cases hr : nearestInt? m with
  | none => simp only [roundedInt, hr, Except.map]
  | some r =>
    rw [roundedInt_of_some hr]
    refine congrArg Except.ok (decide_eq_decide.2 ?_)
    rcases h with ⟨hm, hn⟩ | hm | hn
    · obtain rfl := Option.some.inj (hr.symm.trans (Binary64.nearestInt?_of_isExact hm))
      rw [Binary64.nearestInt?_of_isExact hn, Option.some.injEq, eq_comm]
    · have hkept := Binary64.nearestInt?_of_isExact (Binary64.isExact_of_le hm.le)
      obtain rfl := Option.some.inj (hr.symm.trans hkept)
      rw [Binary64.nearestInt?_eq_some_iff hm, eq_comm]
    · rw [Binary64.nearestInt?_of_isExact (Binary64.isExact_of_le hn.le), ← hr, eq_comm,
        Binary64.nearestInt?_eq_some_iff hn]

/-- What is rounded to the same differs by one part in `2 ^ 53` of each integer at most. -/
theorem roundedInt_error {n : Int}
    (h : ((roundedInt m).map fun r => decide (nearestInt? n = some r)) = .ok true) :
    2 ^ 53 * (m - n).natAbs ≤ m.natAbs + n.natAbs := by
  cases hr : nearestInt? m with
  | none =>
    rw [roundedInt, hr] at h
    cases h
  | some r =>
    rw [roundedInt_of_some hr] at h
    have hn : nearestInt? n = some r := of_decide_eq_true (Except.ok.inj h)
    have herror := Binary64.nearestInt?_error hr
    have herror' := Binary64.nearestInt?_error hn
    omega

/-! ## Equality with a decimal -/

section Decimal

variable (hinside : IsInside p) (heq : ¬ Occurs "==" p) (hm : resolve c (Text.strip p) = .ok (.int m))

include hinside heq hm

/-- An integer equals a bare decimal if it is the integer that the decimal is rounded to. -/
theorem equal_bare (n : Int) :
    evaluate c (braced p ++ " == " ++ intText n) = .ok (decide (nearestInt? n = some m)) := by
  rw [evaluate_equal hinside.2 (operand?_of_isInside hinside _) c heq, compared_intText hm]

theorem equal_bare_exact {n : Int} (h : IsExact n ∨ m.natAbs < 2 ^ 53) :
    evaluate c (braced p ++ " == " ++ intText n) = .ok (decide (m = n)) := by
  rw [equal_bare hinside heq hm]
  refine congrArg Except.ok (decide_eq_decide.2 ?_)
  rcases h with hexact | hsmall
  · rw [Binary64.nearestInt?_of_isExact hexact, Option.some.injEq, eq_comm]
  · rw [Binary64.nearestInt?_eq_some_iff hsmall, eq_comm]

theorem equal_bare_error {n : Int} (h : evaluate c (braced p ++ " == " ++ intText n) = .ok true) :
    2 ^ 53 * (m - n).natAbs ≤ n.natAbs := by
  rw [equal_bare hinside heq hm] at h
  exact Binary64.nearestInt?_error (of_decide_eq_true (Except.ok.inj h))

/-- An integer equals a quoted decimal if both are rounded to the same. -/
theorem equal_quoted {q : Char} (hq : IsQuote q) (n : Int) :
    evaluate c (braced p ++ " == " ++ quoted q (intText n))
      = (roundedInt m).map fun r => decide (nearestInt? n = some r) := by
  rw [evaluate_equal hinside.2 (operand?_of_isInside hinside _) c heq, compared_quoted hm hq]

end Decimal

/-- An integer is compared with a decimal after rounding the decimal, and after rounding both sides if
the decimal is quoted. That is exact for integers that need no rounding, and otherwise off by one part
in `2 ^ 53` at most. An expression with the operator in it is equal to nothing. -/
theorem equal_decimal (c : Context) (p : String) (m n : Int) (hinside : IsInside p)
    (hm : resolve c (Text.strip p) = .ok (.int m)) :
    (¬ Occurs "==" p →
      let bare := evaluate c (braced p ++ " == " ++ intText n)
      bare = .ok (decide (nearestInt? n = some m)) ∧
        (IsExact n ∨ m.natAbs < 2 ^ 53 → bare = .ok (decide (m = n))) ∧
        (bare = .ok true → 2 ^ 53 * (m - n).natAbs ≤ n.natAbs)) ∧
    (¬ Occurs "==" p → ∀ q, IsQuote q →
      let between := evaluate c (braced p ++ " == " ++ quoted q (intText n))
      between = ((roundedInt m).map fun r => decide (nearestInt? n = some r)) ∧
        (IsExact m ∧ IsExact n ∨ m.natAbs < 2 ^ 53 ∨ n.natAbs < 2 ^ 53 →
          between = (roundedInt m).map fun _ => decide (m = n)) ∧
        (between = .ok true → 2 ^ 53 * (m - n).natAbs ≤ m.natAbs + n.natAbs)) ∧
    (Occurs "==" p → ∀ s, evaluate c (braced p ++ " == " ++ s) = (roundedInt m).map fun _ => false) := by
  refine ⟨fun heq => ?_, fun heq q hq => ?_, fun heq s => ?_⟩
  · exact ⟨equal_bare hinside heq hm n, equal_bare_exact hinside heq hm, equal_bare_error hinside heq hm⟩
  · dsimp only
    rw [equal_quoted hinside heq hm hq]
    exact ⟨rfl, roundedInt_exact, roundedInt_error⟩
  · obtain ⟨t, ht, hbrace⟩ := evaluate_equal_inside hinside.2 (operand?_of_isInside hinside s) c heq
    rw [ht, compared_of_brace hm hbrace]

/-- A context with the number `2 ^ 53 + 1` under `x`. -/
def wide : Context where
  bindings := [(.str "x", .int 9007199254740993)]

/-- The number needs 54 binary digits, so it is not its own decimal, but equal to those around it. -/
theorem equal_decimal_wide :
    evaluate wide (braced "x" ++ " == " ++ intText 9007199254740993) = .ok false ∧
      evaluate wide (braced "x" ++ " == " ++ quoted '"' (intText 9007199254740992)) = .ok true := by
  have hm : resolve wide (Text.strip "x") = .ok (.int 9007199254740993) := by decide +kernel
  constructor
  · rw [((equal_decimal wide "x" _ 9007199254740993 (by decide) hm).1 (by decide)).1]
    decide +kernel
  · rw [((equal_decimal wide "x" _ 9007199254740992 (by decide) hm).2.1 (by decide) '"' (by decide)).1]
    decide +kernel

/-- Neither kind of decimal is compared exactly. -/
theorem not_exact_of_wide :
    (¬ ∀ (c : Context) (p : String) (m n : Int), IsInside p → resolve c (Text.strip p) = .ok (.int m) →
      evaluate c (braced p ++ " == " ++ intText n) = .ok (decide (m = n))) ∧
    ¬ ∀ (c : Context) (p : String) (m n : Int), IsInside p → resolve c (Text.strip p) = .ok (.int m) →
      evaluate c (braced p ++ " == " ++ quoted '"' (intText n)) = .ok (decide (m = n)) := by
  have hm : resolve wide (Text.strip "x") = .ok (.int 9007199254740993) := by decide +kernel
  constructor
  · intro h
    have hequal := h wide "x" _ 9007199254740993 (by decide) hm
    have hfound : evaluate wide (braced "x" ++ " == " ++ intText 9007199254740993) = .ok false := by
      decide +kernel
    rw [hfound] at hequal
    exact absurd (Except.ok.inj hequal) (by decide)
  · intro h
    have hunequal := h wide "x" _ 9007199254740992 (by decide) hm
    have hfound : evaluate wide (braced "x" ++ " == " ++ quoted '"' (intText 9007199254740992))
        = .ok true := by
      decide +kernel
    rw [hfound] at hunequal
    exact absurd (Except.ok.inj hunequal) (by decide)

end Template

end Stepwise
