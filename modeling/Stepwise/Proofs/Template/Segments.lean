-- SUMMARY: Where a path is cut into segments, and which paths the static check reads as references.
import Stepwise.Template.Path
import Stepwise.Workflow.References

/-!
# Segments

A path is cut at every point, so that the segments of two paths joined by a point are those of
the one and then those of the other. The static check cuts nothing: it looks for the text
`steps.`, a name, and a further point. It finds those of the paths into the output of a step
whose name is not empty and holds no blank, and that go on below the output.
-/

namespace Stepwise

namespace Template

theorem splitPoints_append (current cs ds : List Char) :
    splitPoints current (cs ++ '.' :: ds) = splitPoints current cs ++ splitPoints [] ds := by
  induction cs generalizing current with
  | nil => simp [splitPoints]
  | cons c cs ih =>
    simp only [List.cons_append, splitPoints]
    split
    · rw [ih, List.cons_append]
    · exact ih _

theorem segments_append (path rest : String) :
    segments (path ++ "." ++ rest) = segments path ++ segments rest := by
  have hpoint : ".".toList = ['.'] := rfl
  rw [segments, String.toList_append, String.toList_append, hpoint, List.append_assoc,
    List.singleton_append, splitPoints_append, List.map_append]
  rfl

/-- A text without points is a single piece. -/
theorem splitPoints_of_not_mem (current : List Char) {cs : List Char} (h : '.' ∉ cs) :
    splitPoints current cs = [current.reverse ++ cs] := by
  induction cs generalizing current with
  | nil => simp [splitPoints]
  | cons c cs ih =>
    obtain ⟨hc, hcs⟩ := List.ne_and_not_mem_of_not_mem_cons h
    rw [splitPoints, if_neg hc.symm, ih _ hcs, List.reverse_cons, List.append_assoc,
      List.singleton_append]

/-- Two pieces at least are cut at the first point. -/
theorem splitPoints_eq_cons {current cs first second : List Char} {rest : List (List Char)}
    (h : splitPoints current cs = first :: second :: rest) :
    ∃ piece ds, cs = piece ++ '.' :: ds ∧ '.' ∉ piece ∧ first = current.reverse ++ piece ∧
      splitPoints [] ds = second :: rest := by
  induction cs generalizing current with
  | nil => simp [splitPoints] at h
  | cons c cs ih =>
    rw [splitPoints] at h
    split at h
    · rename_i hc
      subst hc
      obtain ⟨rfl, hrest⟩ := List.cons.inj h
      exact ⟨[], cs, rfl, List.not_mem_nil, (List.append_nil _).symm, hrest⟩
    · rename_i hc
      obtain ⟨piece, ds, rfl, hpiece, rfl, hrest⟩ := ih h
      refine ⟨c :: piece, ds, rfl, ?_, by simp, hrest⟩
      exact List.not_mem_cons_of_ne_of_not_mem (Ne.symm hc) hpiece

theorem segments_of_not_mem {piece : String} (h : '.' ∉ piece.toList) : segments piece = [piece] := by
  rw [segments, splitPoints_of_not_mem [] h]
  simp

/-- Two segments at least are cut at the first point. -/
theorem segments_eq_cons {path first second : String} {rest : List String}
    (h : segments path = first :: second :: rest) :
    ∃ path', path = first ++ "." ++ path' ∧ '.' ∉ first.toList ∧ segments path' = second :: rest := by
  obtain ⟨cs, more, hpieces, hfirst, hmore⟩ := List.map_eq_cons_iff.1 h
  obtain ⟨cs', rest', rfl, hsecond, hrest⟩ := List.map_eq_cons_iff.1 hmore
  obtain ⟨piece, ds, hpath, hpiece, hcs, hds⟩ := splitPoints_eq_cons hpieces
  have hpoint : ".".toList = ['.'] := rfl
  subst hfirst
  refine ⟨String.ofList ds, ?_, by simpa [hcs] using hpiece, ?_⟩
  · rw [← String.toList_inj, hpath]
    simp [hcs, hpoint]
  · rw [segments, String.toList_ofList, hds, List.map_cons, hsecond, hrest]

end Template

namespace Workflow

open Template

/-- The text may stand for a step in the eyes of the static check: it is not empty and holds no
blank. -/
def IsPlain (name : String) : Prop := name ≠ "" ∧ ∀ c ∈ name.toList, Text.isBlank c = false

instance (name : String) : Decidable (IsPlain name) :=
  inferInstanceAs (Decidable (_ ∧ _))

theorem isNameChar_iff {c : Char} : isNameChar c = true ↔ c ≠ '.' ∧ Text.isBlank c = false := by
  simp [isNameChar]

/-- A run of characters of a name that is followed by a point is taken whole. -/
theorem span_isNameChar {name : List Char} (h : ∀ c ∈ name, isNameChar c = true) (rest : List Char) :
    (name ++ '.' :: rest).takeWhile isNameChar = name ∧
      (name ++ '.' :: rest).dropWhile isNameChar = '.' :: rest := by
  rw [List.takeWhile_append_of_pos h, List.dropWhile_append_of_pos h]
  have hpoint : isNameChar '.' = false := rfl
  simp [hpoint]

/-- The static check reads an expression as a reference exactly if the path leads below the output
of a step with a plain name. -/
theorem referencedStep?_eq_some {expression name : String} :
    referencedStep? expression = some name ↔
      IsPlain name ∧ ∃ part rest, segments expression = "steps" :: name :: part :: rest := by
  constructor
  · intro h
    simp only [referencedStep?] at h
    split at h
    · rename_i hmark
      obtain ⟨behind, hbehind⟩ := List.isPrefixOf_iff_prefix.1 hmark
      rw [← hbehind, List.drop_left] at h
      split at h
      · rename_i c cs tail htake hdrop
        cases h
        have hname : ∀ d ∈ c :: cs, isNameChar d = true := by
          rw [← htake]
          exact List.all_eq_true.1 List.all_takeWhile
        have hcut : behind = c :: cs ++ '.' :: tail := by
          rw [← htake, ← hdrop, List.takeWhile_append_dropWhile]
        have hexpression : expression
            = "steps" ++ "." ++ (String.ofList (c :: cs) ++ "." ++ String.ofList tail) := by
          rw [← String.toList_inj, ← hbehind, hcut]
          simp
        have hpoint : '.' ∉ (String.ofList (c :: cs)).toList := fun hmem =>
          absurd rfl (isNameChar_iff.1 (hname '.' (by simpa using hmem))).1
        refine ⟨⟨by simp [← String.toList_inj], fun d hd => ?_⟩, ?_⟩
        · exact (isNameChar_iff.1 (hname d (by simpa using hd))).2
        · obtain ⟨part, rest, hrest⟩ := List.exists_cons_of_ne_nil (segments_ne_nil (String.ofList tail))
          refine ⟨part, rest, ?_⟩
          rw [hexpression, segments_append, segments_append, segments_of_not_mem hpoint, hrest]
          rfl
      · cases h
    · cases h
  · rintro ⟨⟨hne, hblank⟩, part, rest, hsegments⟩
    obtain ⟨path, rfl, -, hpath⟩ := segments_eq_cons hsegments
    obtain ⟨path, rfl, hpoint, -⟩ := segments_eq_cons hpath
    have hname : ∀ c ∈ name.toList, isNameChar c = true := fun c hc =>
      isNameChar_iff.2 ⟨fun heq => hpoint (heq ▸ hc), hblank c hc⟩
    obtain ⟨htake, hdrop⟩ := span_isNameChar hname path.toList
    have hlist : ("steps" ++ "." ++ (name ++ "." ++ path)).toList
        = "steps.".toList ++ (name.toList ++ '.' :: path.toList) := by simp
    obtain ⟨c, cs, hcs⟩ := List.exists_cons_of_ne_nil (mt String.toList_eq_nil_iff.1 hne)
    have hmark : "steps.".toList.isPrefixOf
        ("steps.".toList ++ (name.toList ++ '.' :: path.toList)) = true :=
      List.isPrefixOf_iff_prefix.2 (List.prefix_append _ _)
    simp only [referencedStep?, hlist, hmark, if_true, List.drop_left, htake, hdrop]
    rw [hcs]
    refine congrArg some ?_
    rw [← hcs, String.ofList_toList]

end Workflow

end Stepwise
