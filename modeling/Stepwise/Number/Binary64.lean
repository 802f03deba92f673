-- SUMMARY: Binary64 numbers as exact data: rounding a quotient to nearest, conversion, order and addition.

/-!
# Binary64

A binary64 number is a datum here, not a machine word: a sign, a mantissa and a
power of two, or one of the values that are no number. Every operation is exact
arithmetic on natural numbers followed by one rounding to nearest, ties to even.
-/

namespace Stepwise

/-- A binary64 value. A finite one stands for `mantissa * 2 ^ exponent` under its sign; rounding
produces mantissas of 53 binary digits, or of fewer under the least exponent, `-1074`. A `nan` has no
order, so it is not even equal to itself; its mark says where it was made, and containers find it
again by its mark. -/
inductive Binary64 where
  | nan (mark : Nat)
  | infinite (negative : Bool)
  | finite (negative : Bool) (mantissa : Nat) (exponent : Int)
deriving DecidableEq, Repr, Inhabited

namespace Binary64

/-! ## Rounding -/

def leastExponent : Int := -1074

def greatestExponent : Int := 971

/-- The least mantissa of 53 binary digits, `2 ^ 52`. -/
def leastMantissa : Nat := 4503599627370496

def zero (negative : Bool) : Binary64 := .finite negative 0 leastExponent

/-- The `nan` that a calculation gives. -/
def undefined : Binary64 := .nan 0

def one : Binary64 := .finite false leastMantissa (-52)

/-- The quotient of two numbers, rounded to nearest; a tie goes to the even neighbour. -/
def roundDiv (num den : Nat) : Nat :=
  let q := num / den
  let r := num % den
  if 2 * r < den then q
  else if den < 2 * r then q + 1
  else if q % 2 = 0 then q else q + 1

/-- `num / den` counted in units of `2 ^ e`, rounded to nearest. -/
def roundScaled (num den : Nat) (e : Int) : Nat :=
  if e < 0 then roundDiv (num * Nat.pow 2 e.natAbs) den
  else roundDiv num (den * Nat.pow 2 e.natAbs)

/-- `num / den` counted in units of `2 ^ e`, cut off. -/
def truncScaled (num den : Nat) (e : Int) : Nat :=
  if e < 0 then num * Nat.pow 2 e.natAbs / den else num / (den * Nat.pow 2 e.natAbs)

/-- The exponent whose unit leaves 53 binary digits of `num / den`, or the least one. -/
def unitExponent (num den : Nat) : Int :=
  let e : Int := (Nat.log2 num : Int) - (Nat.log2 den : Int) - 52
  let e := if truncScaled num den e < leastMantissa then e - 1 else e
  max e leastExponent

/-- The binary64 value nearest to `num / den` under a sign, for `den > 0`. -/
def ofRatio (negative : Bool) (num den : Nat) : Binary64 :=
  if num = 0 then zero negative
  else
    let e := unitExponent num den
    let m := roundScaled num den e
    let (m, e) := if m = 2 * leastMantissa then (leastMantissa, e + 1) else (m, e)
    if greatestExponent < e then .infinite negative else .finite negative m e

/-- The binary64 value nearest to `digits * 10 ^ exponent`. Powers far outside the format's range
are recognised by the number of digits, so the power is computed only when it matters. -/
def ofScientific (negative : Bool) (digits : Nat) (exponent : Int) : Binary64 :=
  if digits = 0 then zero negative
  else
    let size : Int := exponent + (Nat.log2 digits : Int) * 30103 / 100000
    if 310 < size then .infinite negative
    else if size < -330 then zero negative
    else if exponent < 0 then ofRatio negative digits (Nat.pow 10 exponent.natAbs)
    else ofRatio negative (digits * Nat.pow 10 exponent.natAbs) 1

/-- The nearest binary64 value to an integer, unless it lies beyond the finite ones. -/
def ofInt? (n : Int) : Option Binary64 :=
  match ofRatio (decide (n < 0)) n.natAbs 1 with
  | .infinite _ => none
  | x => some x

/-! ## Exact value -/

/-- The numerator and denominator of `± m * 2 ^ e`. -/
def ratio (negative : Bool) (m : Nat) (e : Int) : Int × Nat :=
  let num : Nat := if e < 0 then m else m * Nat.pow 2 e.natAbs
  let den : Nat := if e < 0 then Nat.pow 2 e.natAbs else 1
  (if negative then -(num : Int) else num, den)

/-- The integer next to the value on the side of zero; only finite values have one. -/
def toInt? : Binary64 → Option Int
  | .finite negative m e =>
    let (num, den) := ratio negative m e
    some (num.tdiv den)
  | _ => none

def isInteger : Binary64 → Bool
  | .finite negative m e =>
    let (num, den) := ratio negative m e
    num.natAbs % den == 0
  | _ => false

/-- The value is zero, of either sign. -/
def isZero : Binary64 → Bool
  | .finite _ m _ => m == 0
  | _ => false

/-- The value is `nan`. -/
def isNan : Binary64 → Bool
  | .nan _ => true
  | _ => false

/-! ## Order -/

/-- The order of two fractions with positive denominators. -/
def compareRatios (a b : Int × Nat) : Ordering :=
  compare (a.1 * b.2) (b.1 * a.2)

/-- The numeric order; there is none with `nan`. Both zeros are equal. -/
def compare? : Binary64 → Binary64 → Option Ordering
  | .nan _, _ => none
  | _, .nan _ => none
  | .infinite a, .infinite b => some (if a = b then .eq else if a then .lt else .gt)
  | .infinite a, .finite .. => some (if a then .lt else .gt)
  | .finite .., .infinite b => some (if b then .gt else .lt)
  | .finite s m e, .finite s' m' e' => some (compareRatios (ratio s m e) (ratio s' m' e'))

/-- The numeric order between a binary64 value and an integer, decided exactly. -/
def compareInt? : Binary64 → Int → Option Ordering
  | .nan _, _ => none
  | .infinite a, _ => some (if a then .lt else .gt)
  | .finite s m e, n => some (compareRatios (ratio s m e) (n, 1))

/-! ## Arithmetic -/

/-- The nearest value to the exact sum. A sum of zero is negative only if both terms are. -/
def add : Binary64 → Binary64 → Binary64
  | .nan _, _ => undefined
  | _, .nan _ => undefined
  | .infinite a, .infinite b => if a = b then .infinite a else undefined
  | .infinite a, .finite .. => .infinite a
  | .finite .., .infinite b => .infinite b
  | .finite s m e, .finite s' m' e' =>
    let (n, d) := ratio s m e
    let (n', d') := ratio s' m' e'
    let sum := n * d' + n' * d
    if sum = 0 then zero (s && s') else ofRatio (decide (sum < 0)) sum.natAbs (d * d')

instance : Add Binary64 := ⟨add⟩

/-- The value under the other sign. -/
def neg : Binary64 → Binary64
  | .nan mark => .nan mark
  | .infinite s => .infinite !s
  | .finite s m e => .finite (!s) m e

instance : Neg Binary64 := ⟨neg⟩

/-- The nearest value to the exact product; its sign is that of the factors' signs. -/
def mul : Binary64 → Binary64 → Binary64
  | .nan _, _ => undefined
  | _, .nan _ => undefined
  | .infinite a, .infinite b => .infinite (a != b)
  | .infinite a, .finite s m _ => if m = 0 then undefined else .infinite (a != s)
  | .finite s m _, .infinite b => if m = 0 then undefined else .infinite (s != b)
  | .finite s m e, .finite s' m' e' =>
    let (n, d) := ratio s m e
    let (n', d') := ratio s' m' e'
    ofRatio (s != s') (n.natAbs * n'.natAbs) (d * d')

instance : Mul Binary64 := ⟨mul⟩

end Binary64

end Stepwise
