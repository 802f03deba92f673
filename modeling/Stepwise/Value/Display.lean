-- SUMMARY: The text of a value, by itself and inside other values, and which values have one.
import Stepwise.Value.Basic
import Stepwise.Number.Shortest
import Stepwise.Text.Quoted
import Stepwise.Fault

/-!
# Display

The text of a string is the string. Any other value is displayed: strings inside it in
quotes, sequences in brackets, a tuple of one item with a comma after it, dictionaries
as `key: value` pairs in braces.

An integer of more than 4300 digits is not written out in decimal. A value that holds one
has no text; `spell` gives the text of a value or the fault of having none.
-/

namespace Stepwise

open Binary64 (intText)

/-! ## Pieces -/

/-- The text of a truth value. -/
def displayBool (b : Bool) : String := if b then "True" else "False"

/-- The text of `null`. -/
def displayNull : String := "None"

def displayList (items : List String) : String := "[" ++ ", ".intercalate items ++ "]"

/-- Displayed items between parentheses. -/
def displayTuple : List String → String
  | [item] => "(" ++ item ++ ",)"
  | items => "(" ++ ", ".intercalate items ++ ")"

def displayDict (entries : List String) : String := "\x7b" ++ ", ".intercalate entries ++ "\x7d"

/-! ## Keys and values -/

mutual

def Key.display : Key → String
  | .null => displayNull
  | .bool b => displayBool b
  | .int n => intText n
  | .float x => x.text
  | .str s => Text.display s
  | .tuple items => displayTuple (Key.displayAll items)

def Key.displayAll : List Key → List String
  | [] => []
  | k :: ks => k.display :: Key.displayAll ks

end

mutual

/-- A value as it is displayed inside another value. -/
def Value.display : Value → String
  | .null => displayNull
  | .bool b => displayBool b
  | .int n => intText n
  | .float x => x.text
  | .str s => Text.display s
  | .list items => displayList (Value.displayAll items)
  | .tuple items => displayTuple (Value.displayAll items)
  | .dict entries => displayDict (Value.displayEntries entries)
  | .runLog => displayList []

def Value.displayAll : List Value → List String
  | [] => []
  | v :: vs => v.display :: Value.displayAll vs

def Value.displayEntries : List (Key × Value) → List String
  | [] => []
  | (k, v) :: es => (k.display ++ ": " ++ v.display) :: Value.displayEntries es

end

/-- The text of a key: a string itself, else its display. -/
def Key.text : Key → String
  | .str s => s
  | k => k.display

/-- The text of a value: a string itself, else its display. -/
def Value.text : Value → String
  | .str s => s
  | v => v.display

/-! ## Spelling -/

/-- The least natural number that is not written out in decimal, `10 ^ 4300`. -/
def unspellableBound : Nat := Nat.pow 10 4300

/-- The fault of writing out an integer that has too many digits. -/
def unspellable : Fault :=
  .badValue ("Exceeds the limit (4300 digits) for integer string conversion; "
    ++ "use sys.set_int_max_str_digits() to increase the limit")

/-- The integer is written out in decimal. -/
def isSpellableInt (n : Int) : Bool := n.natAbs < unspellableBound

mutual

/-- Every integer in the key is written out. -/
def Key.isSpellable : Key → Bool
  | .int n => isSpellableInt n
  | .tuple items => Key.allSpellable items
  | .null | .bool _ | .float _ | .str _ => true

/-- Every integer in the keys is written out. -/
def Key.allSpellable : List Key → Bool
  | [] => true
  | k :: ks => k.isSpellable && Key.allSpellable ks

end

mutual

/-- Every integer in the value is written out. -/
def Value.isSpellable : Value → Bool
  | .int n => isSpellableInt n
  | .list items => Value.allSpellable items
  | .tuple items => Value.allSpellable items
  | .dict entries => Value.entriesSpellable entries
  | .null | .bool _ | .float _ | .str _ | .runLog => true

/-- Every integer in the values is written out. -/
def Value.allSpellable : List Value → Bool
  | [] => true
  | v :: vs => v.isSpellable && Value.allSpellable vs

/-- Every integer in the entries is written out. -/
def Value.entriesSpellable : List (Key × Value) → Bool
  | [] => true
  | (k, v) :: es => k.isSpellable && v.isSpellable && Value.entriesSpellable es

end

/-- The text of an integer, unless it is not written out. -/
def spellInt (n : Int) : Except Fault String :=
  if isSpellableInt n then .ok (intText n) else .error unspellable

/-- The text of a key, unless it holds an integer that is not written out. -/
def Key.spell (k : Key) : Except Fault String :=
  if k.isSpellable then .ok k.text else .error unspellable

/-- The text of a value, unless it holds an integer that is not written out. -/
def Value.spell (v : Value) : Except Fault String :=
  if v.isSpellable then .ok v.text else .error unspellable

/-- The display of a value, unless it holds an integer that is not written out. -/
def Value.spellDisplay (v : Value) : Except Fault String :=
  if v.isSpellable then .ok v.display else .error unspellable

@[simp] theorem Key.text_str (s : String) : Key.text (.str s) = s := rfl

@[simp] theorem Value.text_str (s : String) : Value.text (.str s) = s := rfl

@[simp] theorem Value.spell_str (s : String) : Value.spell (.str s) = .ok s := rfl

theorem Value.spell_of_isSpellable {v : Value} (h : v.isSpellable = true) : v.spell = .ok v.text := by
  simp [Value.spell, h]

theorem Key.spell_of_isSpellable {k : Key} (h : k.isSpellable = true) : k.spell = .ok k.text := by
  simp [Key.spell, h]

end Stepwise
