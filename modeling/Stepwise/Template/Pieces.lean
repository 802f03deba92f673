-- SUMMARY: Cutting template text into literal characters and expressions.
import Stepwise.Text.Blank

/-!
# Template text

An expression stands between two opening and two closing braces and holds no closing
brace itself. A template is cut from left to right: where an expression starts it is
taken whole, and every other character is literal. Nothing is lost in the cut.
-/

namespace Stepwise.Template

/-- A piece of a template: a literal character, or the inside of an expression. -/
inductive Piece where
  | char (c : Char)
  | hole (inside : List Char)
deriving DecidableEq, Repr

def Piece.source : Piece → List Char
  | .char c => [c]
  | .hole inside => '\x7b' :: '\x7b' :: inside ++ ['\x7d', '\x7d']

/-- A character that may stand inside an expression. -/
def isInside (c : Char) : Bool := c != '\x7d'

/-- The inside of the expression that a text starts with, if it starts with one. -/
def holeAt? : List Char → Option (List Char)
  | '\x7b' :: '\x7b' :: rest =>
    match rest.takeWhile isInside, rest.dropWhile isInside with
    | c :: inside, '\x7d' :: '\x7d' :: _ => some (c :: inside)
    | _, _ => none
  | _ => none

/-- The pieces of a text, the first `skip` characters of which have been taken already. -/
def cut (skip : Nat) : List Char → List Piece
  | [] => []
  | c :: rest =>
    match skip with
    | k + 1 => cut k rest
    | 0 =>
      match holeAt? (c :: rest) with
      | some inside => .hole inside :: cut (inside.length + 3) rest
      | none => .char c :: cut 0 rest

def pieces (template : String) : List Piece := cut 0 template.toList

/-- The expression inside a hole: its text without blanks around it. -/
def expression (inside : List Char) : String := String.ofList (Text.trim inside)

/-- The expressions of a template, in order. -/
def expressions (template : String) : List String :=
  (pieces template).filterMap fun
    | .char _ => none
    | .hole inside => some (expression inside)

/-- The expression that makes up the whole text; a line end after it does not count. -/
def whole? (template : String) : Option String :=
  let cs := template.toList
  match holeAt? cs with
  | some inside =>
    match cs.drop (inside.length + 4) with
    | [] | ['\n'] => some (expression inside)
    | _ => none
  | none => none

/-! ## Nothing is lost -/

theorem holeAt?_eq_some {cs inside : List Char} (h : holeAt? cs = some inside) :
    ∃ rest, cs = '\x7b' :: '\x7b' :: inside ++ '\x7d' :: '\x7d' :: rest ∧ inside ≠ [] ∧
      inside.all isInside = true := by
  unfold holeAt? at h
  split at h
  · rename_i rest
    split at h
    · rename_i c cs' tail htake hdrop
      obtain rfl := Option.some.inj h
      refine ⟨tail, ?_, by simp, ?_⟩
      · rw [← htake, ← hdrop]
        simp only [List.cons_append, List.takeWhile_append_dropWhile]
      · rw [← htake]
        exact List.all_takeWhile
    · cases h
  · cases h

theorem cut_source (skip : Nat) (cs : List Char) (h : skip ≤ cs.length) :
    (cut skip cs).flatMap Piece.source = cs.drop skip := by
  induction cs generalizing skip with
  | nil => simp [cut]
  | cons c rest ih =>
    cases skip with
    | succ k => simpa [cut] using ih k (by simpa using h)
    | zero =>
      rw [cut]
      cases hh : holeAt? (c :: rest) with
      | none => simp [Piece.source, ih 0 (Nat.zero_le _)]
      | some inside =>
        obtain ⟨tail, heq, -, -⟩ := holeAt?_eq_some hh
        simp only [List.cons_append, List.cons.injEq] at heq
        obtain ⟨rfl, rfl⟩ := heq
        simp only [List.flatMap_cons, Piece.source]
        rw [ih (inside.length + 3) (by simp)]
        simp [List.drop_append]

/-- A template is the concatenation of its pieces. -/
theorem pieces_source (template : String) :
    (pieces template).flatMap Piece.source = template.toList := by
  simpa [pieces] using cut_source 0 template.toList (Nat.zero_le _)

end Stepwise.Template
