-- SUMMARY: The shortest decimal text that reads back as a given binary64 number.
import Stepwise.Number.Binary64

/-!
# Shortest decimals

A finite number is written with the fewest significant digits that still round to
it, the nearest such decimal among those of equal length. Decimal exponents from
`-4` to `15` are written positionally and always with a point; others as a power of
ten with a signed exponent of at least two digits.
-/

namespace Stepwise.Binary64

/-! ## Decimal digits of a natural number -/

/-- The decimal text of a natural number. -/
def natText (n : Nat) : String := String.ofList (Nat.toDigits 10 n)

def intText (n : Int) : String := if n < 0 then "-" ++ natText n.natAbs else natText n.natAbs

/-! ## Search for the shortest decimal -/

/-- `a * 10 ^ k` over `b` as a fraction, for an exponent of either sign. -/
def decimalScale (a b : Nat) (k : Int) : Nat × Nat :=
  if k < 0 then (a, b * Nat.pow 10 k.natAbs) else (a * Nat.pow 10 k.natAbs, b)

/-- The greatest `p ≤ start + fuel` with `10 ^ p ≤ num / den`, searched upwards from `start`. -/
def raisePower (num den : Nat) (start : Int) : Nat → Int
  | 0 => start
  | fuel + 1 =>
    let (n, d) := decimalScale num den (-(start + 1))
    if d ≤ n then raisePower num den (start + 1) fuel else start

/-- The power of ten of the leading decimal digit of `m * 2 ^ e`, for `m > 0`. -/
def leadingPower (m : Nat) (e : Int) : Int :=
  let num := if e < 0 then m else m * Nat.pow 2 e.natAbs
  let den := if e < 0 then Nat.pow 2 e.natAbs else 1
  raisePower num den (((Nat.log2 m : Int) + e) * 30103 / 100000 - 2) 6

/-- The multiple of `10 ^ k` nearest to `m * 2 ^ e` among its two neighbours that round to it. -/
def gridHit? (m : Nat) (e : Int) (k : Int) : Option Nat :=
  -- all distances are counted in quarters of the unit, so that half units are integers
  let quarter := 4 * m
  let low := if m = leastMantissa ∧ leastExponent < e then quarter - 1 else quarter - 2
  let high := quarter + 2
  let (a, b) := decimalScale 1 1 (-k)
  let scaleNum := if e - 2 < 0 then a else a * Nat.pow 2 (e - 2).natAbs
  let scaleDen := if e - 2 < 0 then b * Nat.pow 2 (e - 2).natAbs else b
  let value := quarter * scaleNum
  let inside (d : Nat) : Bool :=
    if m % 2 = 0 then decide (low * scaleNum ≤ d * scaleDen ∧ d * scaleDen ≤ high * scaleNum)
    else decide (low * scaleNum < d * scaleDen ∧ d * scaleDen < high * scaleNum)
  let below := value / scaleDen
  let above := below + 1
  match inside below, inside above with
  | true, true =>
    let fromBelow := value - below * scaleDen
    let toAbove := above * scaleDen - value
    if fromBelow < toAbove then some below
    else if toAbove < fromBelow then some above
    else if below % 2 = 0 then some below else some above
  | true, false => some below
  | false, true => some above
  | false, false => none

/-- The first grid from `count` digits on, `fuel` grids at most, that holds a decimal rounding to
the value; 17 digits always suffice. -/
def searchGrids (m : Nat) (e p : Int) (count : Nat) : Nat → Nat × Int
  | 0 => (0, 0)
  | fuel + 1 =>
    let k := p - (count : Int) + 1
    match gridHit? m e k with
    | some d => (d, k)
    | none => searchGrids m e p (count + 1) fuel

/-- Take trailing zeros off a decimal, raising its exponent. -/
def stripZeros (d : Nat) (k : Int) : Nat → Nat × Int
  | 0 => (d, k)
  | fuel + 1 => if d % 10 = 0 then stripZeros (d / 10) (k + 1) fuel else (d, k)

/-- The shortest decimal `d * 10 ^ k` that rounds to `m * 2 ^ e`, for `m > 0`; `d` does not end in
zero. -/
def shortest (m : Nat) (e : Int) : Nat × Int :=
  let (d, k) := searchGrids m e (leadingPower m e) 1 17
  stripZeros d k 17

/-! ## Layout -/

/-- `count` zeros. -/
def zeros (count : Nat) : List Char := List.replicate count '0'

/-- Digits with the point after the leading digit's power: positional notation. -/
def positional (ds : List Char) (power : Int) : List Char :=
  if power < 0 then '0' :: '.' :: zeros (power.natAbs - 1) ++ ds
  else
    let whole := power.natAbs + 1
    if ds.length ≤ whole then ds ++ zeros (whole - ds.length) ++ ['.', '0']
    else ds.take whole ++ '.' :: ds.drop whole

/-- Digits as a mantissa with a power of ten. -/
def exponential (ds : List Char) (power : Int) : List Char :=
  let mantissa := match ds with
    | d :: rest@(_ :: _) => d :: '.' :: rest
    | _ => ds
  let size := Nat.toDigits 10 power.natAbs
  mantissa ++ 'e' :: (if power < 0 then '-' else '+') :: (if size.length < 2 then '0' :: size else size)

/-- The digits of `d * 10 ^ k` laid out: positional from `10 ^ -4` up to `10 ^ 16`. -/
def layout (d : Nat) (k : Int) : List Char :=
  let ds := Nat.toDigits 10 d
  let power := k + ds.length - 1
  if -4 ≤ power ∧ power < 16 then positional ds power else exponential ds power

/-- The text of a number: the shortest decimal that reads back as it. -/
def text : Binary64 → String
  | .nan _ => "nan"
  | .infinite negative => if negative then "-inf" else "inf"
  | .finite negative m e =>
    let body := if m = 0 then ['0', '.', '0'] else
      let (d, k) := shortest m e
      layout d k
    String.ofList (if negative then '-' :: body else body)

end Stepwise.Binary64
