-- SUMMARY: Blank characters, and cutting text at them.
import Stepwise.Text.Ranges

/-!
# Blanks

A blank is a character with the Unicode property `White_Space`, or one of the four
information separators U+001C to U+001F. Text is trimmed of blanks at both ends and
split into the words between them.
-/

namespace Stepwise.Text

def blankRanges : List (Nat × Nat) :=
  [
   (0x9, 0xD), (0x1C, 0x20), (0x85, 0x85), (0xA0, 0xA0), (0x1680, 0x1680), (0x2000, 0x200A),
   (0x2028, 0x2029), (0x202F, 0x202F), (0x205F, 0x205F), (0x3000, 0x3000)]

def isBlank (c : Char) : Bool := inRanges blankRanges c.toNat

/-- The text without the blanks at its front. -/
def trimLeft (cs : List Char) : List Char := cs.dropWhile isBlank

/-- The text without the blanks at either end. -/
def trim (cs : List Char) : List Char := (trimLeft (trimLeft cs).reverse).reverse

/-- The words of a text: its longest blank-free pieces, in order. -/
def words (cs : List Char) : List (List Char) :=
  (cs.splitBy fun a b => isBlank a == isBlank b).filter fun piece => !piece.any isBlank

/-- A string without the blanks at either end. -/
def strip (s : String) : String := String.ofList (trim s.toList)

end Stepwise.Text
