-- SUMMARY: Reading integers and binary64 numbers from text.
import Stepwise.Number.Binary64
import Stepwise.Number.Shortest
import Stepwise.Text.Blank
import Stepwise.Text.Digit
import Stepwise.Text.Quoted
import Stepwise.Fault

/-!
# Numerals

An integer numeral is an optional sign and decimal digits; a number numeral may add a
point and a power of ten, or be a name of infinity or of `nan`. Digits of any script
count, a single underscore may stand between two digits, and blanks around the
numeral are ignored.
-/

namespace Stepwise.Numeral

/-! ## Margins and signs -/

/-- A blank that may surround a numeral: every blank but the information separators. -/
def isMargin (c : Char) : Bool := Text.isBlank c && !(0x1C ≤ c.toNat && c.toNat ≤ 0x1F)

/-- The text without its margins. -/
def trimMargin (cs : List Char) : List Char :=
  ((cs.dropWhile isMargin).reverse.dropWhile isMargin).reverse

/-- A leading sign taken off: whether it is a minus, and the rest. -/
def takeSign : List Char → Bool × List Char
  | '-' :: rest => (true, rest)
  | '+' :: rest => (false, rest)
  | cs => (false, cs)

/-! ## Digits -/

/-- The decimal number with the given digits, leading one first. -/
def ofDigits (ds : List Nat) : Nat := ds.foldl (fun n d => 10 * n + d) 0

def startsWithDigit : List Char → Bool
  | c :: _ => (Text.decimalValue? c).isSome
  | [] => false

/-- The digits at the front of a text and the rest. An underscore between two digits is skipped;
`joined` says that a digit stands just before the text. -/
def takeDigits (joined : Bool) : List Char → List Nat × List Char
  | [] => ([], [])
  | c :: rest =>
    match Text.decimalValue? c with
    | some d =>
      let (ds, tail) := takeDigits true rest
      (d :: ds, tail)
    | none =>
      if joined && c == '_' && startsWithDigit rest then takeDigits false rest else ([], c :: rest)

/-! ## Integers -/

/-- The most digits of an integer in decimal text. -/
def maxDigits : Nat := 4300

/-- The fault of a text that is no integer numeral; it shows the text, cut after 200 characters. -/
def notInteger (s : String) : Fault :=
  .badValue ("invalid literal for int() with base 10: "
    ++ String.ofList ((Text.display s).toList.take 200))

def tooManyDigits (count : Nat) : Fault :=
  .badValue ("Exceeds the limit (4300 digits) for integer string conversion: value has "
    ++ Binary64.natText count ++ " digits; use sys.set_int_max_str_digits() to increase the limit")

/-- The integer that a text spells, or the fault of a text that spells none. The digits at its front
are counted before what follows them is looked at, unless an underscore there stands alone. -/
def toInt (s : String) : Except Fault Int :=
  let (negative, body) := takeSign (trimMargin s.toList)
  let (ds, rest) := takeDigits false body
  if ds.isEmpty || rest.head? == some '_' then .error (notInteger s)
  else if maxDigits < ds.length then .error (tooManyDigits ds.length)
  else if rest.isEmpty then .ok (if negative then -(ofDigits ds : Int) else ofDigits ds)
  else .error (notInteger s)

/-! ## Numbers -/

/-- The lower case of an ASCII letter; other characters are kept. -/
def asciiLower (c : Char) : Char :=
  if 'A' ≤ c ∧ c ≤ 'Z' then Char.ofNat (c.toNat + 32) else c

/-- The power of ten after a mantissa; an absent one is zero. -/
def readExponent? : List Char → Option Int
  | [] => some 0
  | c :: rest =>
    if c = 'e' ∨ c = 'E' then
      let (negative, body) := takeSign rest
      match takeDigits false body with
      | ([], _) => none
      | (ds, []) => some (if negative then -(ofDigits ds : Int) else ofDigits ds)
      | _ => none
    else none

/-- The number that an unsigned text of digits, point and exponent spells. -/
def readDecimal? (negative : Bool) (cs : List Char) : Option Binary64 :=
  let (whole, rest) := takeDigits false cs
  let (fraction, rest) := match rest with
    | '.' :: more => takeDigits false more
    | _ => ([], rest)
  if whole.isEmpty && fraction.isEmpty then none
  else (readExponent? rest).map fun e =>
    .ofScientific negative (ofDigits (whole ++ fraction)) (e - fraction.length)

/-- The binary64 number that a text spells. -/
def readNumber? (s : String) : Option Binary64 :=
  let (negative, body) := takeSign (trimMargin s.toList)
  let name := String.ofList (body.map asciiLower)
  if name = "inf" ∨ name = "infinity" then some (.infinite negative)
  else if name = "nan" then some .undefined
  else readDecimal? negative body

end Stepwise.Numeral
