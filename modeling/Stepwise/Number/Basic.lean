-- SUMMARY: Numbers that are integers or binary64 values, and their common order.
import Stepwise.Number.Binary64

/-!
# Numbers

Data knows two kinds of number, unbounded integers and binary64 values. They share one
numeric order, which is decided exactly: no integer is rounded to be compared.
-/

namespace Stepwise

/-- An integer or a binary64 value. -/
inductive Number where
  | int (n : Int)
  | float (x : Binary64)
deriving DecidableEq, Repr

namespace Number

/-- The numeric order of two numbers; there is none with `nan`. -/
def compare? : Number → Number → Option Ordering
  | .int a, .int b => some (compare a b)
  | .int a, .float y => (y.compareInt? a).map Ordering.swap
  | .float x, .int b => x.compareInt? b
  | .float x, .float y => x.compare? y

def same (a b : Number) : Bool := compare? a b == some .eq

def less (a b : Number) : Bool := compare? a b == some .lt

/-- The sum of two numbers, an integer if both are. A sum with a binary64 number is one, for which an
integer has to be near a finite one. -/
def add? : Number → Number → Option Number
  | .int a, .int b => some (.int (a + b))
  | .int a, .float y => (Binary64.ofInt? a).map fun x => .float (x + y)
  | .float x, .int b => (Binary64.ofInt? b).map fun y => .float (x + y)
  | .float x, .float y => some (.float (x + y))

theorem less_int (a b : Int) : less (.int a) (.int b) = decide (a < b) := by
  by_cases h : a < b
  · simp [less, compare?, Int.compare_eq_lt.2 h, h]
  · simp [less, compare?, Int.compare_eq_lt, h]

theorem same_int (a b : Int) : same (.int a) (.int b) = decide (a = b) := by
  by_cases h : a = b <;> simp [same, compare?, h]

end Number

end Stepwise
