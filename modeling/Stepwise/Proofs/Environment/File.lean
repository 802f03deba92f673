-- SUMMARY: Environment files: the lines of a text, and the assignment that a line makes.
import Mathlib.Data.List.Forall2
import Stepwise.Environment

/-!
# Environment files

A text is read line by line, from the top to the bottom. A line ends with a line feed, a carriage
return, or one after the other, and the last one may end with the text. What a line assigns stands
around its first equals sign, without the blanks on either side and without quotes around the text.
-/

namespace Stepwise.EnvironmentFile

/-! ## Lines -/

/-- Nothing in the text ends a line. -/
def Unbroken (cs : List Char) : Prop := ∀ c ∈ cs, ¬ (c = '\n' ∨ c = '\r')

/-- A line ending with the text behind it. A line feed belongs to the carriage return before it. -/
inductive Ends : List Char → List Char → Prop
  | lineFeed (rest : List Char) : Ends ['\n'] rest
  | both (rest : List Char) : Ends ['\r', '\n'] rest
  | carriageReturn {rest : List Char} : rest.head? ≠ some '\n' → Ends ['\r'] rest

/-- The lines of a text, without their endings. -/
inductive Lines : List Char → List (List Char) → Prop
  | nil : Lines [] []
  | last {line : List Char} : line ≠ [] → Unbroken line → Lines line [line]
  | cons {line ending rest : List Char} {lines : List (List Char)} :
    Unbroken line → Ends ending rest → Lines rest lines → Lines (line ++ ending ++ rest) (line :: lines)

theorem unbroken_nil : Unbroken [] := nofun

theorem Unbroken.cons {c : Char} {cs : List Char} (hc : ¬ (c = '\n' ∨ c = '\r')) (h : Unbroken cs) :
    Unbroken (c :: cs) :=
  List.forall_mem_cons.2 ⟨hc, h⟩

theorem Unbroken.reverse {cs : List Char} (h : Unbroken cs) : Unbroken cs.reverse :=
  fun c hc => h c (List.mem_reverse.1 hc)

/-- What has been read of the current line goes on with the text. -/
theorem lines_splitLines_append {current : List Char} (h : Unbroken current) (cs : List Char) :
    Lines (current.reverse ++ cs) (splitLines current cs) := by
  induction current, cs using splitLines.induct with
  | case1 current hempty =>
    cases List.isEmpty_iff.1 hempty
    exact .nil
  | case2 current hfull =>
    have hne : current.reverse ≠ [] := by simpa using hfull
    rw [splitLines, if_neg hfull, List.append_nil]
    exact .last hne h.reverse
  | case3 current rest ih =>
    have hlines := Lines.cons h.reverse (.both rest) (ih unbroken_nil)
    simpa [splitLines] using hlines
  | case4 current c rest hpair hends ih =>
    have hending : Ends [c] rest := by
      rcases hends with rfl | rfl
      · exact .lineFeed rest
      · refine .carriageReturn ?_
        intro hfeed
        obtain ⟨rest', rfl⟩ := List.head?_eq_some_iff.1 hfeed
        exact hpair rest' rfl rfl
    have hlines := Lines.cons h.reverse hending (ih unbroken_nil)
    rw [splitLines]
    · rw [if_pos hends]
      simpa using hlines
    · exact hpair
  | case5 current c rest hpair hends ih =>
    have hlines := ih (h.cons hends)
    rw [splitLines]
    · rw [if_neg hends]
      simpa using hlines
    · exact hpair

theorem lines_splitLines (cs : List Char) : Lines cs (splitLines [] cs) :=
  lines_splitLines_append unbroken_nil cs

/-! ## Assignments -/

/-- A line that is no comment assigns what stands behind its first equals sign to what stands before. -/
def Assigns (line : List Char) (name text : String) : Prop :=
  ∃ left right : List Char, Text.trim line = left ++ '=' :: right ∧ '=' ∉ left ∧
    (Text.trim line).head? ≠ some '#' ∧
    name = String.ofList (Text.trim left) ∧ text = String.ofList (unquote (Text.trim right))

theorem takeWhile_of_notMem {left : List Char} (h : '=' ∉ left) (right : List Char) :
    (left ++ '=' :: right).takeWhile (· != '=') = left := by
  have hall : ∀ c ∈ left, (c != '=') = true := by
    intro c hc
    rw [bne_iff_ne]
    rintro rfl
    exact h hc
  rw [List.takeWhile_append_of_pos hall, List.takeWhile_cons_of_neg (by simp), List.append_nil]

theorem assignment?_eq {line left right : List Char} (hline : Text.trim line = left ++ '=' :: right)
    (hleft : '=' ∉ left) (hcomment : (Text.trim line).head? ≠ some '#') :
    assignment? line
      = some (String.ofList (Text.trim left), String.ofList (unquote (Text.trim right))) := by
  have hmakes : (Text.trim line).head? != some '#' && (Text.trim line).contains '=' := by
    rw [Bool.and_eq_true, bne_iff_ne, List.contains_iff_mem]
    exact ⟨hcomment, hline ▸ List.mem_append_right left List.mem_cons_self⟩
  rw [assignment?]
  simp only [if_pos hmakes]
  rw [hline, takeWhile_of_notMem hleft, List.drop_append, List.drop_of_length_le (Nat.le_succ _)]
  simp

theorem assignment?_eq_some_iff {line : List Char} {name text : String} :
    assignment? line = some (name, text) ↔ Assigns line name text := by
  constructor
  · intro h
    have hmakes : (Text.trim line).head? != some '#' && (Text.trim line).contains '=' := by
      by_contra hnone
      rw [assignment?] at h
      simp only [if_neg hnone] at h
      cases h
    rw [Bool.and_eq_true, bne_iff_ne, List.contains_iff_mem] at hmakes
    obtain ⟨left, right, hline, hleft⟩ := List.eq_append_cons_of_mem hmakes.2
    rw [assignment?_eq hline hleft hmakes.1, Option.some.injEq, Prod.mk.injEq] at h
    exact ⟨left, right, hline, hleft, hmakes.1, h.1.symm, h.2.symm⟩
  · rintro ⟨left, right, hline, hleft, hcomment, rfl, rfl⟩
    exact assignment?_eq hline hleft hcomment

/-- The assignments that the lines of a text make, from the top to the bottom. -/
def Reads (content : String) (assigned : List (String × String)) : Prop :=
  ∃ (lines : List (List Char)) (found : List (Option (String × String))),
    Lines content.toList lines ∧
    List.Forall₂ (fun line a? => ∀ name text, a? = some (name, text) ↔ Assigns line name text) lines found ∧
    assigned = found.filterMap id

theorem reads_assignments (content : String) : Reads content (assignments content) := by
  refine ⟨splitLines [] content.toList, (splitLines [] content.toList).map assignment?, lines_splitLines _, ?_, ?_⟩
  · rw [List.forall₂_map_right_iff, List.forall₂_same]
    exact fun line _ name text => assignment?_eq_some_iff
  · rw [assignments, List.filterMap_map]
    rfl

end Stepwise.EnvironmentFile
