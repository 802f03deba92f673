-- SUMMARY: Sets of characters given by ranges of code points.

/-!
# Ranges of code points

The character classes of the Unicode standard are kept as sorted lists of closed
ranges. Membership is the only question asked of them.
-/

namespace Stepwise.Text

/-- The code point lies in one of the closed ranges. -/
def inRanges (ranges : List (Nat × Nat)) (code : Nat) : Bool :=
  ranges.any fun range => range.1 ≤ code && code ≤ range.2

end Stepwise.Text
