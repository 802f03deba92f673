-- SUMMARY: Strings that are one expression keep the type of its value; all others are filled as text.
import Mathlib.Data.List.Basic
import Stepwise.Proofs.Template.Agreement

/-!
# Whole expressions

A string can be an expression, or hold expressions among other characters. The first kind is
filled by the value itself, the second by text, in which an expression that addresses nothing
stays as it stands. A string is taken to be of the first kind also if a line end follows the
expression, and only then.
-/

namespace Stepwise

namespace Template

/-! ## Expressions in a text -/

/-- The text can stand inside an expression: it is not empty and holds no closing brace. -/
def IsInside (p : String) : Prop := p ≠ "" ∧ '\x7d' ∉ p.toList

instance (p : String) : Decidable (IsInside p) := inferInstanceAs (Decidable (_ ∧ _))

/-- The text as an expression. -/
def braced (p : String) : String := "\x7b\x7b" ++ p ++ "\x7d\x7d"

theorem toList_braced_append (p rest : String) :
    (braced p ++ rest).toList
      = '\x7b' :: '\x7b' :: p.toList ++ '\x7d' :: '\x7d' :: rest.toList := by
  simp [braced]

/-- An expression at the front of a text is found there, whatever follows. -/
theorem holeAt?_braced {p : String} (h : IsInside p) (rest : List Char) :
    holeAt? ('\x7b' :: '\x7b' :: p.toList ++ '\x7d' :: '\x7d' :: rest) = some p.toList := by
  have hinside : ∀ ch ∈ p.toList, isInside ch = true := by
    intro ch hch
    have hne : ch ≠ '\x7d' := fun heq => h.2 (heq ▸ hch)
    simpa [isInside] using hne
  have hend : isInside '\x7d' = false := rfl
  obtain ⟨ch, chs, hcons⟩ := List.exists_cons_of_ne_nil (mt String.toList_eq_nil_iff.1 h.1)
  rw [List.cons_append, List.cons_append, holeAt?, List.takeWhile_append_of_pos hinside,
    List.dropWhile_append_of_pos hinside, hcons]
  simp [hend]

/-- What has been taken already is passed over. -/
theorem cut_length_append (taken rest : List Char) : cut taken.length (taken ++ rest) = cut 0 rest := by
  induction taken with
  | nil => rfl
  | cons ch taken ih => rw [List.length_cons, List.cons_append, cut, ih]

/-- An expression at the front of a text is its first piece. -/
theorem cut_braced_append {p : String} (h : IsInside p) (rest : String) :
    cut 0 (braced p ++ rest).toList = .hole p.toList :: cut 0 rest.toList := by
  have hhole := holeAt?_braced h rest.toList
  have hskip := cut_length_append ('\x7b' :: p.toList ++ ['\x7d', '\x7d']) rest.toList
  have htaken : ('\x7b' :: p.toList ++ ['\x7d', '\x7d']).length = p.toList.length + 3 := by simp
  rw [htaken, List.append_assoc, List.cons_append] at hskip
  rw [List.cons_append] at hhole
  rw [toList_braced_append, List.cons_append, cut, hhole]
  exact congrArg _ hskip

/-- Where no expression starts, the characters are cut off one by one. -/
theorem cut_of_none {before rest : List Char}
    (h : ∀ front more inside, before = front ++ more → more ≠ [] →
      holeAt? (more ++ rest) ≠ some inside) :
    cut 0 (before ++ rest) = before.map .char ++ cut 0 rest := by
  induction before with
  | nil => rfl
  | cons ch before ih =>
    have hnone : holeAt? (ch :: (before ++ rest)) = none :=
      Option.eq_none_iff_forall_ne_some.2 fun inside =>
        h [] (ch :: before) inside rfl (List.cons_ne_nil _ _)
    have hbefore := ih fun front more inside hsplit =>
      h (ch :: front) more inside (congrArg (ch :: ·) hsplit)
    rw [List.cons_append, cut, hnone, hbefore]
    rfl

/-- The expression at the front of a text is its first, and the others are those of what follows. -/
theorem expressions_braced_append {p : String} (h : IsInside p) (rest : String) :
    expressions (braced p ++ rest) = Text.strip p :: expressions rest := by
  rw [expressions, pieces, cut_braced_append h]
  rfl

/-- A text is taken for an expression if it is one, or one and a line end. -/
theorem whole?_eq_some_iff {s path : String} :
    whole? s = some path ↔
      ∃ p, IsInside p ∧ (s = braced p ∨ s = braced p ++ "\n") ∧ path = Text.strip p := by
  constructor
  · intro h
    simp only [whole?] at h
    split at h
    · rename_i inside hhole
      obtain ⟨rest, hs, hne, hall⟩ := holeAt?_eq_some hhole
      have hinside : IsInside (String.ofList inside) := by
        refine ⟨by simpa [← String.toList_inj] using hne, fun hmem => ?_⟩
        have hend := List.all_eq_true.1 hall '\x7d' (by simpa using hmem)
        cases hend
      have hrest : s.toList.drop (inside.length + 4) = rest := by
        rw [hs]
        simp [List.drop_append]
      rw [hrest] at h
      refine ⟨String.ofList inside, hinside, ?_⟩
      split at h
      · refine ⟨.inl ?_, (Option.some.inj h).symm.trans (by simp [expression, Text.strip])⟩
        simp [← String.toList_inj, hs, braced]
      · refine ⟨.inr ?_, (Option.some.inj h).symm.trans (by simp [expression, Text.strip])⟩
        simp [← String.toList_inj, hs, braced]
      · cases h
    · cases h
  · rintro ⟨p, hinside, hs, rfl⟩
    obtain ⟨rest, hs, hrest⟩ : ∃ rest, s = braced p ++ rest ∧ (rest = "" ∨ rest = "\n") := by
      rcases hs with rfl | rfl
      · exact ⟨"", by simp, .inl rfl⟩
      · exact ⟨"\n", rfl, .inr rfl⟩
    have hdrop : s.toList.drop (p.toList.length + 4) = rest.toList := by
      rw [hs, toList_braced_append]
      simp [List.drop_append]
    simp only [whole?]
    rw [hs, toList_braced_append, holeAt?_braced hinside, ← toList_braced_append, ← hs]
    simp only [hdrop]
    rcases hrest with rfl | rfl <;> rfl

/-- A text that is taken for an expression holds no other. -/
theorem expressions_of_whole? {s path : String} (h : whole? s = some path) : expressions s = [path] := by
  obtain ⟨p, hp, hs, rfl⟩ := whole?_eq_some_iff.1 h
  have hrest (rest : String) (hnone : expressions rest = []) :
      expressions (braced p ++ rest) = [Text.strip p] := by
    rw [expressions_braced_append hp, hnone]
  rcases hs with rfl | rfl
  · have hempty := hrest "" rfl
    rwa [String.append_empty] at hempty
  · exact hrest "\n" (by decide)

/-- No value takes the place of a text that is no expression, with or without a line end. -/
theorem whole?_eq_none_iff {s : String} :
    whole? s = none ↔ ∀ p, IsInside p → s ≠ braced p ∧ s ≠ braced p ++ "\n" := by
  rw [Option.eq_none_iff_forall_ne_some]
  constructor
  · intro h p hp
    refine ⟨fun hs => ?_, fun hs => ?_⟩
    · exact h _ (whole?_eq_some_iff.2 ⟨p, hp, .inl hs, rfl⟩)
    · exact h _ (whole?_eq_some_iff.2 ⟨p, hp, .inr hs, rfl⟩)
  · intro h path hpath
    obtain ⟨p, hp, hs, -⟩ := whole?_eq_some_iff.1 hpath
    rcases hs with hs | hs
    · exact (h p hp).1 hs
    · exact (h p hp).2 hs

/-! ## Filling -/

variable {c : Context}

/-- Pieces whose expressions address nothing are filled by themselves. -/
theorem fillPieces_of_unresolved {ps : List Piece}
    (h : ∀ inside, Piece.hole inside ∈ ps → resolve c (expression inside) = .ok .null) :
    fillPieces c ps = .ok (String.ofList (ps.flatMap Piece.source)) := by
  induction ps with
  | nil => rfl
  | cons piece rest ih =>
    have hrest := ih fun inside hmem => h inside (List.mem_cons_of_mem _ hmem)
    have hpiece : fillPiece c piece = .ok (String.ofList piece.source) := by
      cases piece with
      | char ch => rfl
      | hole inside =>
        rw [fillPiece, h inside List.mem_cons_self]
        rfl
    rw [fillPieces, hpiece, hrest, List.flatMap_cons, String.ofList_append]
    rfl

/-- A text whose expressions address nothing is filled by itself. -/
theorem fillText_of_unresolved {s : String} (h : ∀ path ∈ expressions s, resolve c path = .ok .null) :
    fillText c s = .ok s := by
  rw [fillText, fillPieces_of_unresolved fun inside hmem => h _ (mem_expressions_of_hole hmem),
    pieces_source, String.ofList_toList]

/-- A string that is one expression, with or without a line end, is filled by what it addresses. Any
other is filled as text, and by itself if its expressions address nothing. -/
theorem fill_string (c : Context) (s : String) :
    (∀ p, IsInside p → s = braced p ∨ s = braced p ++ "\n" →
      fill c (.str s) = resolve c (Text.strip p)) ∧
    ((∀ p, IsInside p → s ≠ braced p ∧ s ≠ braced p ++ "\n") →
      fill c (.str s) = (fillText c s).map .str ∧
      ((∀ path ∈ expressions s, resolve c path = .ok .null) → fill c (.str s) = .ok (.str s))) := by
  rw [fill, fillString]
  refine ⟨fun p hp hs => ?_, fun hs => ?_⟩
  · rw [whole?_eq_some_iff.2 ⟨p, hp, hs, rfl⟩]
  · rw [whole?_eq_none_iff.2 hs]
    have htext : (do return Value.str (← fillText c s)) = (fillText c s).map .str := by
      cases fillText c s <;> rfl
    refine ⟨htext, fun hnone => ?_⟩
    rw [fillText_of_unresolved hnone]
    rfl

/-- A context with the number 5 under `x`. -/
def five : Context where
  bindings := [(.str "x", .int 5)]

/-- A blank before the expression makes it part of a longer text; what is unbalanced stays as it stands. -/
theorem fill_string_of_margins :
    fill five (.str " \x7b\x7bx\x7d\x7d\n") = .ok (.str " 5\n") ∧
      fill five (.str "\x7b\x7b\x7by\x7d\x7d\x7d\n") = .ok (.str "\x7b\x7b\x7by\x7d\x7d\x7d\n") := by
  constructor
  · have hs := whole?_eq_none_iff.1 (by decide : whole? " \x7b\x7bx\x7d\x7d\n" = none)
    rw [((fill_string five _).2 hs).1]
    decide +kernel
  · have hs := whole?_eq_none_iff.1 (by decide : whole? "\x7b\x7b\x7by\x7d\x7d\x7d\n" = none)
    have hpaths : expressions "\x7b\x7b\x7by\x7d\x7d\x7d\n" = ["\x7by"] := by decide
    refine ((fill_string five _).2 hs).2 ?_
    rw [hpaths]
    rw [List.forall_mem_singleton]
    decide +kernel

/-- An expression and a line end are more than an expression, and yet the line end is dropped, and the
number keeps its type. -/
theorem not_text_of_lineEnd : ¬ ∀ (c : Context) (s : String),
    (∀ p, IsInside p → s ≠ braced p) →
    fill c (.str s) = (fillText c s).map .str ∧
      ((∀ path ∈ expressions s, resolve c path = .ok .null) → fill c (.str s) = .ok (.str s)) := by
  intro h
  have hmore (p : String) : "\x7b\x7bx\x7d\x7d\n" ≠ braced p := by
    intro heq
    have hend := congrArg (fun s => s.toList.getLast?) heq
    simp [braced, List.getLast?_cons, List.getLast?_append] at hend
  have htext := (h five "\x7b\x7bx\x7d\x7d\n" fun p _ => hmore p).1
  have hvalue : fill five (.str "\x7b\x7bx\x7d\x7d\n") = .ok (.int 5) := by decide +kernel
  have hfilled : fillText five "\x7b\x7bx\x7d\x7d\n" = .ok "5\n" := by decide +kernel
  rw [hvalue, hfilled] at htext
  cases htext

end Template

end Stepwise
