-- SUMMARY: What literals of conditions are: quoted texts, decimal integers, and texts that hold a brace.
import Mathlib.Data.List.Basic
import Stepwise.Proofs.Number.Numeral
import Stepwise.Template.Condition

/-!
# Literals

A literal in quotes is the text between them, whatever it is. The decimal text of an integer is
the integer that its nearest binary64 number stands for, or that number if it is infinite. A
text with a brace is no number, so it stays a text.
-/

namespace Stepwise

namespace Template

open Binary64 (intText nearest nearestInt?)

theorem literal_blank_append (s : String) : literal (" " ++ s) = literal s := by
  rw [literal, Text.strip_blank_append]
  rfl

/-! ## Quoted texts -/

/-- The character opens and closes quoted texts. -/
def IsQuote (q : Char) : Prop := q = '\'' ∨ q = '"'

instance (q : Char) : Decidable (IsQuote q) := inferInstanceAs (Decidable (_ ∨ _))

def quoted (q : Char) (t : String) : String := String.singleton q ++ t ++ String.singleton q

theorem toList_quoted (q : Char) (t : String) : (quoted q t).toList = q :: t.toList ++ [q] := by
  simp [quoted]

theorem isBlank_quote {q : Char} (h : IsQuote q) : Text.isBlank q = false := by
  rcases h with rfl | rfl <;> decide

/-- A quoted text is the text between the quotes. -/
theorem literal_quoted {q : Char} (h : IsQuote q) (t : String) : literal (quoted q t) = .str t := by
  have hkept : Text.strip (quoted q t) = quoted q t := by
    rw [Text.strip, toList_quoted, Text.trim_of_ends (isBlank_quote h) (isBlank_quote h), ← toList_quoted,
      String.ofList_toList]
  have hinside : unquote? (q :: t.toList ++ [q]) = some t.toList := by
    obtain ⟨c, cs, hcons⟩ : ∃ c cs, t.toList ++ [q] = c :: cs :=
      List.exists_cons_of_ne_nil (by simp)
    have hlast : (c :: cs).getLast? = some q := by
      rw [← hcons]
      simp
    have hdrop : (c :: cs).dropLast = t.toList := by
      rw [← hcons]
      simp
    rw [List.cons_append, hcons, unquote?, if_pos ⟨h, hlast⟩, hdrop]
  rw [literal, hkept]
  simp only [toList_quoted, hinside, String.ofList_toList]

/-! ## Texts with a brace -/

theorem mem_unquote? {cs inside : List Char} {c : Char} (hc : ¬ IsQuote c)
    (h : unquote? cs = some inside) (hmem : c ∈ cs) : c ∈ inside := by
  unfold unquote? at h
  split at h
  · rename_i q d rest
    split at h
    · rename_i hends
      obtain rfl := Option.some.inj h
      have hne : c ≠ q := fun heq => hc (heq ▸ hends.1)
      have hrest := (List.mem_cons.1 hmem).resolve_left hne
      rw [← List.dropLast_append_getLast? q hends.2] at hrest
      exact (List.mem_append.1 hrest).resolve_right (by simp [hne])
    · cases h
  · cases h

/-- A literal with a brace is a text, and holds it. -/
theorem literal_of_brace {s : String} (h : '\x7d' ∈ s.toList) :
    ∃ t, literal s = .str t ∧ '\x7d' ∈ t.toList := by
  have hstrip : '\x7d' ∈ (Text.strip s).toList := Text.mem_strip (by decide) h
  have hname (name : String) (hname : '\x7d' ∉ name.toList) : Text.strip s ≠ name := by
    rintro rfl
    exact hname hstrip
  rw [literal]
  split
  · rename_i inside hinside
    exact ⟨_, rfl, by simpa using mem_unquote? (by decide) hinside hstrip⟩
  · rw [if_neg (hname "true" (by decide)), if_neg (hname "false" (by decide)),
      if_neg (hname "null" (by decide)), Numeral.readNumber?_of_brace hstrip]
    exact ⟨_, rfl, hstrip⟩

/-! ## Decimal integers -/

theorem unquote?_intText (n : Int) : unquote? (intText n).toList = none := by
  unfold unquote?
  split
  · rename_i q c rest hcons
    refine if_neg fun hends => ?_
    have hmem : q ∈ (intText n).toList := hcons ▸ List.mem_cons_self
    have hnot := Numeral.isDigit_of_mem_intText hmem
    rcases hends.1 with rfl | rfl <;> revert hnot <;> decide
  · rfl

theorem numberLiteral_nearest (n : Int) :
    numberLiteral (intText n) (nearest n)
      = match nearestInt? n with
        | some r => .int r
        | none => .float (.infinite (decide (n < 0))) := by
  have hpoint : (intText n).toList.contains '.' = false := by
    rw [← Bool.not_eq_true, List.contains_iff_mem]
    intro hmem
    have hnot := Numeral.isDigit_of_mem_intText hmem
    revert hnot
    decide
  obtain ⟨r, hr, hstands⟩ | ⟨hr, hinfinite⟩ := Binary64.nearest_cases n
  · obtain ⟨htoInt, hinteger⟩ := hstands.toInt?
    simp only [numberLiteral, htoInt, hinteger, hpoint, hr]
    rfl
  · rw [hr, hinfinite]
    rfl

/-- The decimal text of an integer is read through the nearest binary64 number. -/
theorem literal_intText (n : Int) :
    literal (intText n)
      = match nearestInt? n with
        | some r => .int r
        | none => .float (.infinite (decide (n < 0))) := by
  have hkept : Text.strip (intText n) = intText n := by
    rw [Text.strip, Text.trim_of_forall fun c hc => Numeral.isBlank_of_mem_intText hc, String.ofList_toList]
  have hname (name : String) (hname : name.toList.all (fun c => c == '-' || c.isDigit) = false) :
      intText n ≠ name := by
    rintro rfl
    rw [← Bool.not_eq_true, List.all_eq_true] at hname
    exact hname fun c hc => by simpa using Numeral.isDigit_of_mem_intText hc
  rw [literal, hkept]
  simp only [unquote?_intText, hname "true" rfl, hname "false" rfl, hname "null" rfl, if_false,
    Numeral.readNumber?_intText]
  exact numberLiteral_nearest n

end Template

end Stepwise
