-- SUMMARY: Quoted text: a string between quotes with escapes, for display and for JSON.
import Stepwise.Text.Printable

/-!
# Quoted text

Text shown inside a larger value stands between quotes. For display the quotes are
single unless the text holds single quotes and no double ones, and characters that are
not printable are written by number. In JSON the quotes are double and everything
outside ASCII is written in UTF-16 units of four hexadecimal digits.
-/

namespace Stepwise.Text

/-! ## Hexadecimal numbers -/

/-- The last `count` hexadecimal digits of a number, in lower case. -/
def hexDigits (count n : Nat) : List Char :=
  let ds := Nat.toDigits 16 n
  List.replicate (count - ds.length) '0' ++ ds

/-! ## Display -/

def displayChar (quote c : Char) : List Char :=
  if c = quote ∨ c = '\\' then ['\\', c]
  else if c = '\t' then ['\\', 't']
  else if c = '\n' then ['\\', 'n']
  else if c = '\r' then ['\\', 'r']
  else if isPrintable c then [c]
  else if c.toNat < 0x100 then '\\' :: 'x' :: hexDigits 2 c.toNat
  else if c.toNat < 0x10000 then '\\' :: 'u' :: hexDigits 4 c.toNat
  else '\\' :: 'U' :: hexDigits 8 c.toNat

def displayQuote (cs : List Char) : Char :=
  if cs.contains '\'' && !cs.contains '"' then '"' else '\''

/-- A text in quotes, for display. -/
def display (s : String) : String :=
  let quote := displayQuote s.toList
  String.ofList (quote :: (s.toList.flatMap (displayChar quote)) ++ [quote])

/-! ## JSON -/

/-- One UTF-16 unit in a JSON string. -/
def jsonUnit (unit : Nat) : List Char := '\\' :: 'u' :: hexDigits 4 unit

/-- A character inside a JSON string. -/
def jsonChar (c : Char) : List Char :=
  if c = '"' ∨ c = '\\' then ['\\', c]
  else if c = '\n' then ['\\', 'n']
  else if c = '\r' then ['\\', 'r']
  else if c = '\t' then ['\\', 't']
  else if c = '\x08' then ['\\', 'b']
  else if c = '\x0c' then ['\\', 'f']
  else if 0x20 ≤ c.toNat ∧ c.toNat < 0x7F then [c]
  else if c.toNat < 0x10000 then jsonUnit c.toNat
  else
    let rest := c.toNat - 0x10000
    jsonUnit (0xD800 + rest / 0x400) ++ jsonUnit (0xDC00 + rest % 0x400)

def json (s : String) : String := String.ofList ('"' :: (s.toList.flatMap jsonChar) ++ ['"'])

end Stepwise.Text
