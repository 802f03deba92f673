-- SUMMARY: The values of plain YAML scalars: null, truth values, integers, floats and text.
import Stepwise.Value.Observe
import Stepwise.Json.Reader

/-!
# Plain scalars as values

A plain scalar that has the form of a `null`, a truth value or a number is one; any
other is text. Integers are written in base two, eight, ten, sixteen or sixty, floats
with a point in base ten or sixty, and underscores may stand between digits. An exponent
needs a sign. An equals sign alone and two less-than signs have no value.
-/

namespace Stepwise.Yaml

/-! ## Words -/

/-- A word in lower case, with a capital, and in capitals. -/
def spellings (word : String) : List String := [word, word.capitalize, word.toUpper]

/-- The words for `null`. -/
def nullWords : List String := ["", "~"] ++ spellings "null"

def trueWords : List String := ["yes", "true", "on"].flatMap spellings

def falseWords : List String := ["no", "false", "off"].flatMap spellings

/-- The texts that mean something else than a value. -/
def reservedWords : List String := ["=", "<<"]

/-! ## Digits -/

def splitColons (current : List Char) : List Char → List (List Char)
  | [] => [current.reverse]
  | c :: rest =>
    if c = ':' then current.reverse :: splitColons [] rest else splitColons (c :: current) rest

/-- A decimal digit or an underscore. -/
def isDecimal (c : Char) : Bool := Json.isDigit c || c == '_'

/-- A digit that is not zero. -/
def isNonzero (c : Char) : Bool := Json.isDigit c && c != '0'

/-- A place of a number in base sixty after the first: one digit, or two below sixty. -/
def isSixtieth : List Char → Bool
  | [d] => Json.isDigit d
  | [t, d] => '0' ≤ t && t ≤ '5' && Json.isDigit d
  | _ => false

/-- A text without underscores. -/
def dropUnderscores (cs : List Char) : List Char := cs.filter (· != '_')

/-- The number that digits spell in a base that is a power of two; there must be one. -/
def readRadix (base : Nat) (cs : List Char) : Except Fault Int :=
  if cs.isEmpty then
    .error (.badValue ("invalid literal for int() with base " ++ Binary64.natText base ++ ": ''"))
  else .ok ((cs.foldl (fun n c => base * n + (Json.hexValue? c).getD 0) 0 : Nat) : Int)

/-- The number that decimal digits spell. -/
def readDecimal (cs : List Char) : Except Fault Int := Numeral.toInt (String.ofList cs)

def readSixty (places : List (List Char)) : Except Fault Int := do
  let places ← places.mapM readDecimal
  return places.foldl (fun n place => 60 * n + place) 0

/-! ## Integers -/

/-- The forms of integers without their sign. -/
inductive IntForm where
  | base (n : Nat) (digits : List Char)
  | decimal (digits : List Char)
  | sixty (places : List (List Char))
deriving Repr

/-- The form of an integer without its sign. -/
def intForm? (cs : List Char) : Option IntForm :=
  match cs with
  | ['0'] => some (.decimal cs)
  | '0' :: 'b' :: d :: ds =>
    if (d :: ds).all fun c => c == '0' || c == '1' || c == '_' then some (.base 2 (d :: ds)) else none
  | '0' :: 'x' :: d :: ds =>
    if (d :: ds).all fun c => (Json.hexValue? c).isSome || c == '_' then some (.base 16 (d :: ds))
    else none
  | '0' :: ds =>
    if ds.all fun c => ('0' ≤ c && c ≤ '7') || c == '_' then some (.base 8 cs) else none
  | d :: ds =>
    if !isNonzero d then none
    else if ds.all isDecimal then some (.decimal cs)
    else
      match splitColons [] cs with
      | first :: place :: places =>
        if first.tail.all isDecimal && (place :: places).all isSixtieth then
          some (.sixty (first :: place :: places))
        else none
      | _ => none
  | [] => none

def IntForm.value : IntForm → Except Fault Int
  | .base n digits => readRadix n (dropUnderscores digits)
  | .decimal digits => readDecimal (dropUnderscores digits)
  | .sixty places => readSixty (places.map dropUnderscores)

/-! ## Floats -/

/-- The text is empty or an exponent: a letter, a sign and digits. -/
def isExponent : List Char → Bool
  | [] => true
  | e :: sign :: d :: ds =>
    (e == 'e' || e == 'E') && (sign == '+' || sign == '-') && (d :: ds).all Json.isDigit
  | _ => false

/-- The text is a fraction and perhaps an exponent, after the point. -/
def isFraction (cs : List Char) : Bool := isExponent (cs.dropWhile isDecimal)

/-- The forms of floats without their sign. -/
inductive FloatForm where
  | infinite
  | nan
  | decimal (text : List Char)
  | sixty (places : List (List Char))
deriving Repr

/-- The form of a float. Some forms may not have a sign. -/
def floatForm? (signed : Bool) (cs : List Char) : Option FloatForm :=
  let text := String.ofList cs
  if text ∈ [".inf", ".Inf", ".INF"] then some .infinite
  else if text ∈ [".nan", ".NaN", ".NAN"] then (if signed then none else some .nan)
  else
    match cs with
    | '.' :: d :: ds =>
      if !signed && Json.isDigit d && isFraction ds then some (.decimal cs) else none
    | d :: _ =>
      if !Json.isDigit d then none
      else
        let whole := cs.takeWhile isDecimal
        match cs.dropWhile isDecimal with
        | '.' :: fraction => if isFraction fraction then some (.decimal cs) else none
        | ':' :: _ =>
          let places := splitColons [] (cs.takeWhile (· != '.'))
          match cs.dropWhile (· != '.') with
          | '.' :: fraction =>
            if whole.all isDecimal && places.tail.all isSixtieth && fraction.all isDecimal then
              some (.sixty (splitColons [] cs))
            else none
          | _ => none
        | _ => none
    | [] => none

/-- The sum of places in base sixty, from the last to the first. The value of a place is rounded to a
binary64 number before it is multiplied, and has to be a finite one. -/
def sumSixty (power : Nat) (total : Binary64) : List Binary64 → Except Fault Binary64
  | [] => .ok total
  | x :: xs =>
    match Binary64.ofInt? (Nat.pow 60 power) with
    | some unit => sumSixty (power + 1) (total + x * unit) xs
    | none => .error Value.tooLarge

/-- The float that decimal text spells. -/
def readFloat (cs : List Char) : Binary64 :=
  (Numeral.readNumber? (String.ofList (dropUnderscores cs))).getD .undefined

/-- The `nan` of every document. -/
def documentNan : Binary64 := .nan 2

def FloatForm.value : FloatForm → Except Fault Binary64
  | .infinite => .ok (.infinite false)
  | .nan => .ok documentNan
  | .decimal text => .ok (readFloat text)
  | .sixty places => sumSixty 0 (.zero false) (places.map readFloat).reverse

/-! ## Values -/

def plainNumber? (cs : List Char) : Option (Except Fault Value) :=
  let signed := cs.head? == some '-' || cs.head? == some '+'
  let negative := cs.head? == some '-'
  let body := if signed then cs.tail else cs
  match intForm? body, floatForm? signed body with
  | some form, _ => some (form.value.map fun n => .int (if negative then -n else n))
  | none, some form => some (form.value.map fun x => .float (if negative then -x else x))
  | none, none => none

/-- The value of a plain scalar, if it has one. -/
def plainValue? (text : String) : Option (Except Fault Value) :=
  if text ∈ nullWords then some (.ok .null)
  else if text ∈ trueWords then some (.ok (.bool true))
  else if text ∈ falseWords then some (.ok (.bool false))
  else if text ∈ reservedWords then none
  else some ((plainNumber? text.toList).getD (.ok (.str text)))

end Stepwise.Yaml
