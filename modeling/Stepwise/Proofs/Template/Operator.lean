-- SUMMARY: Where the operator of a condition is found, and when inequality is the negation of equality.
import Mathlib.Data.List.Infix
import Stepwise.Proofs.Template.Literal
import Stepwise.Proofs.Template.Whole

/-!
# Operators of conditions

The operator of a condition is searched in its whole text, for `==` first. In front of it
stands an expression, which may hold neither operator; what stands behind it is free. So an
equality is always read as one. An inequality is read as one if its literal holds no `==`, and
then it is the negation of the equality. Otherwise the `==` of the literal is taken for the
operator, and the condition is the equality with what follows there.
-/

namespace Stepwise

namespace Template

/-! ## First occurrences -/

/-- The mark stands somewhere in the text. -/
def Occurs (mark s : String) : Prop := mark.toList <:+: s.toList

instance (mark s : String) : Decidable (Occurs mark s) :=
  inferInstanceAs (Decidable (_ <:+: _))

section Marks

variable {mark : List Char}

/-- A mark does not start with a character that it does not hold. -/
theorem afterMark?_cons (hmark : mark ≠ []) {ch : Char} (hch : ch ∉ mark) (cs : List Char) :
    afterMark? mark (ch :: cs) = afterMark? mark cs := by
  have hnot : mark.isPrefixOf (ch :: cs) = false := by
    obtain ⟨m, ms, rfl⟩ := List.exists_cons_of_ne_nil hmark
    have hne : m ≠ ch := fun heq => hch (heq ▸ List.mem_cons_self)
    simp [List.isPrefixOf, hne]
  rw [afterMark?, hnot, if_neg Bool.false_ne_true]

/-- A mark that does not stand in a text is found behind it, past a character that it does not hold. -/
theorem afterMark?_append (hmark : mark ≠ []) {before : List Char} (h : ¬ mark <:+: before) {ch : Char}
    (hch : ch ∉ mark) (cs : List Char) : afterMark? mark (before ++ ch :: cs) = afterMark? mark cs := by
  induction before with
  | nil => exact afterMark?_cons hmark hch cs
  | cons x before ih =>
    have hnot : ¬ mark.isPrefixOf (x :: (before ++ ch :: cs)) = true := by
      intro hprefix
      have hwhole : x :: before ++ [ch] <+: x :: (before ++ ch :: cs) := ⟨cs, by simp⟩
      rcases List.prefix_or_prefix_of_prefix (List.isPrefixOf_iff_prefix.1 hprefix) hwhole with hmem | hmem
      · rcases List.prefix_concat_iff.1 hmem with rfl | hin
        · exact hch (by simp)
        · exact h hin.isInfix
      · exact hch (hmem.subset (by simp))
    rw [List.cons_append, afterMark?, if_neg hnot]
    exact ih fun hin => h (hin.trans (List.suffix_cons x before).isInfix)

theorem afterMark?_eq_none {cs : List Char} (h : ¬ mark <:+: cs) : afterMark? mark cs = none := by
  induction cs with
  | nil => rfl
  | cons x cs ih =>
    have hnot : ¬ mark.isPrefixOf (x :: cs) = true := fun hprefix =>
      h (List.isPrefixOf_iff_prefix.1 hprefix).isInfix
    rw [afterMark?, if_neg hnot]
    exact ih fun hin => h (hin.trans (List.suffix_cons x cs).isInfix)

/-- A mark is found where it stands first. -/
theorem afterMark?_of_first (hmark : mark ≠ []) {before : List Char}
    (h : ¬ mark <:+: before ++ mark.dropLast) (rest : List Char) :
    afterMark? mark (before ++ mark ++ rest) = some rest := by
  induction before with
  | nil =>
    obtain ⟨m, ms, rfl⟩ := List.exists_cons_of_ne_nil hmark
    have hprefix : (m :: ms).isPrefixOf (m :: (ms ++ rest)) = true :=
      List.isPrefixOf_iff_prefix.2 ⟨rest, rfl⟩
    rw [List.nil_append, List.cons_append, afterMark?, if_pos hprefix]
    simp
  | cons x before ih =>
    have hnot : ¬ mark.isPrefixOf (x :: (before ++ mark ++ rest)) = true := by
      intro hprefix
      have hwhole : x :: before ++ mark.dropLast <+: x :: (before ++ mark ++ rest) := by
        refine ⟨[mark.getLast hmark] ++ rest, ?_⟩
        conv_rhs => rw [← List.dropLast_append_getLast hmark]
        simp
      have hlength : mark.length ≤ (x :: before ++ mark.dropLast).length := by
        simp
        omega
      have hin := List.isPrefixOf_iff_prefix.1 hprefix
      exact h (List.prefix_of_prefix_length_le hin hwhole hlength).isInfix
    rw [List.cons_append, List.cons_append, afterMark?, if_neg hnot]
    exact ih fun hin => h (hin.trans (List.suffix_cons x _).isInfix)

/-- A mark that stands in a text is found there, whatever follows. -/
theorem afterMark?_of_infix (hmark : mark ≠ []) {cs : List Char} (h : mark <:+: cs) (ds : List Char) :
    ∃ rest, afterMark? mark (cs ++ ds) = some (rest ++ ds) := by
  induction cs with
  | nil => exact absurd (List.infix_nil.1 h) hmark
  | cons x cs ih =>
    have hlength := h.length_le
    rw [List.cons_append, afterMark?]
    split
    · refine ⟨(x :: cs).drop mark.length, congrArg some ?_⟩
      rw [← List.cons_append, List.drop_append_of_le_length hlength]
    · rename_i hnot
      have hprefix : ¬ mark <+: x :: cs := fun hin =>
        hnot (List.isPrefixOf_iff_prefix.2 (hin.trans ⟨ds, rfl⟩))
      exact ih ((List.infix_cons_iff.1 h).resolve_left hprefix)

end Marks

/-! ## Comparisons -/

variable {c : Context} {p s : String}

/-- Whether the value that a path addresses equals a literal. -/
def compared (c : Context) (path s : String) : Except Fault Bool := do
  looselyEqual (c.settle (← resolve c path)) (literal s)

/-- The expression whose value a comparison takes: the one in front, or the first one in the literal,
as braces with nothing between them are no expression. -/
def operand? (p s : String) : Option String :=
  if p = "" then (expressions s).head? else some (Text.strip p)

theorem operand?_of_isInside (h : IsInside p) (s : String) : operand? p s = some (Text.strip p) :=
  if_neg h.1

/-- Characters that open no expression are cut off one by one. -/
theorem cut_append (cs : List Char) (h : '\x7b' ∉ cs) (rest : List Char) :
    cut 0 (cs ++ rest) = cs.map .char ++ cut 0 rest := by
  refine cut_of_none fun front more inside hsplit hmore hhole => ?_
  obtain ⟨tail, hopen, -, -⟩ := holeAt?_eq_some hhole
  obtain ⟨ch, more, rfl⟩ := List.exists_cons_of_ne_nil hmore
  have hch : ch = '\x7b' := (List.cons.inj hopen).1
  exact h (by simp [hsplit, hch])

/-- Empty braces and an operator hold no expression. -/
theorem expressions_empty_append {mark : String} (hmark : '\x7b' ∉ mark.toList) (s : String) :
    expressions (braced "" ++ mark ++ s) = expressions s := by
  have hchars : (braced "" ++ mark ++ s).toList
      = '\x7b' :: '\x7b' :: '\x7d' :: '\x7d' :: (mark.toList ++ s.toList) := by
    rw [String.append_assoc, toList_braced_append]
    simp
  have hfirst : holeAt? ('\x7b' :: '\x7b' :: '\x7d' :: '\x7d' :: (mark.toList ++ s.toList)) = none := by
    simp [holeAt?, isInside]
  have hsecond : holeAt? ('\x7b' :: '\x7d' :: '\x7d' :: (mark.toList ++ s.toList)) = none := by
    simp [holeAt?]
  have hrest : cut 0 ('\x7d' :: '\x7d' :: (mark.toList ++ s.toList))
      = ('\x7d' :: '\x7d' :: mark.toList).map .char ++ cut 0 s.toList :=
    cut_append ('\x7d' :: '\x7d' :: mark.toList) (by simpa using hmark) s.toList
  rw [expressions, expressions, pieces, pieces, hchars, cut]
  simp only [hfirst]
  rw [cut]
  simp only [hsecond, hrest]
  simp

theorem head?_expressions (hp : '\x7d' ∉ p.toList) (mark : String) (hmark : '\x7b' ∉ mark.toList)
    (s : String) : (expressions (braced p ++ mark ++ s)).head? = operand? p s := by
  by_cases hempty : p = ""
  · rw [hempty, expressions_empty_append hmark, operand?, if_pos rfl]
  · rw [String.append_assoc, expressions_braced_append ⟨hempty, hp⟩, operand?, if_neg hempty,
      List.head?_cons]

/-- A mark that holds no brace and does not stand in an expression is found behind it. -/
theorem afterMark?_braced {mark : String} (hmark : mark.toList ≠ []) (hopen : '\x7b' ∉ mark.toList)
    (hclose : '\x7d' ∉ mark.toList) (hp : ¬ Occurs mark p) (rest : String) :
    afterMark? mark.toList (braced p ++ rest).toList = afterMark? mark.toList rest.toList := by
  rw [toList_braced_append, List.cons_append, List.cons_append, afterMark?_cons hmark hopen,
    afterMark?_cons hmark hopen, afterMark?_append hmark hp hclose, afterMark?_cons hmark hclose]

theorem afterMark?_equal (hp : ¬ Occurs "==" p) (s : String) :
    afterMark? ['=', '='] (braced p ++ " == " ++ s).toList = some (" " ++ s).toList := by
  rw [String.append_assoc]
  refine (afterMark?_braced (by decide) (by decide) (by decide) hp _).trans ?_
  simp [afterMark?]

/-- An operator inside the expression comes before the one behind it. -/
theorem afterMark?_inside (hp : Occurs "==" p) (rest : String) :
    ∃ more, afterMark? ['=', '='] (braced p ++ rest).toList = some more ∧ '\x7d' ∈ more := by
  have hin : ['=', '='] <:+: p.toList := hp
  obtain ⟨more, hmore⟩ := afterMark?_of_infix (by decide) hin ('\x7d' :: '\x7d' :: rest.toList)
  refine ⟨more ++ '\x7d' :: '\x7d' :: rest.toList, ?_, by simp⟩
  rw [toList_braced_append, List.cons_append, List.cons_append,
    afterMark?_cons (by decide) (by decide), afterMark?_cons (by decide) (by decide), hmore]

/-- The operator of an inequality holds no equality sign but its own. -/
theorem afterMark?_unequal (hp : ¬ Occurs "==" p) (s : String) :
    afterMark? ['=', '='] (braced p ++ " != " ++ s).toList = afterMark? ['=', '='] s.toList := by
  rw [String.append_assoc]
  refine (afterMark?_braced (by decide) (by decide) (by decide) hp _).trans ?_
  simp [afterMark?]

theorem afterMark?_unequal_self (hp : ¬ Occurs "!=" p) (s : String) :
    afterMark? ['!', '='] (braced p ++ " != " ++ s).toList = some (" " ++ s).toList := by
  rw [String.append_assoc]
  refine (afterMark?_braced (by decide) (by decide) (by decide) hp _).trans ?_
  simp [afterMark?]

/-- A condition that takes no value is a text, which counts as true as it holds a brace. -/
theorem evaluate_of_operand?_none (c : Context) (hp : '\x7d' ∉ p.toList) {mark : String}
    (hmark : '\x7b' ∉ mark.toList) (h : operand? p s = none) :
    evaluate c (braced p ++ mark ++ s) = .ok true := by
  have hnone : expressions (braced p ++ mark ++ s) = [] :=
    List.head?_eq_none_iff.1 ((head?_expressions hp mark hmark s).trans h)
  have hbrace : '\x7d' ∈ (braced p ++ mark ++ s).toList := by simp [braced]
  obtain ⟨t, ht, hmem⟩ := literal_of_brace hbrace
  have hne : t ≠ "" := by
    rintro rfl
    cases hmem
  rw [evaluate, hnone, ht]
  simp [Value.truthy, hne]

theorem compared_blank_append (c : Context) (path s : String) :
    compared c path (" " ++ s) = compared c path s := by
  rw [compared, literal_blank_append, compared]

/-- A condition with `==` compares the value of its first path with what follows. -/
theorem evaluate_of_equal {condition path rest : String} (c : Context)
    (hpath : (expressions condition).head? = some path)
    (hmark : afterMark? ['=', '='] condition.toList = some rest.toList) :
    evaluate c condition = compared c path rest := by
  obtain ⟨more, hmore⟩ := List.head?_eq_some_iff.1 hpath
  simp only [evaluate, hmore, hmark, String.ofList_toList]
  rfl

/-- A condition without `==` but with `!=` denies what follows it of that value. -/
theorem evaluate_of_unequal {condition path rest : String} (c : Context)
    (hpath : (expressions condition).head? = some path)
    (hnone : afterMark? ['=', '='] condition.toList = none)
    (hmark : afterMark? ['!', '='] condition.toList = some rest.toList) :
    evaluate c condition = (compared c path rest).map (!·) := by
  obtain ⟨more, hmore⟩ := List.head?_eq_some_iff.1 hpath
  simp only [evaluate, hmore, hnone, hmark, String.ofList_toList, compared]
  cases resolve c path with
  | error f => rfl
  | ok v => cases looselyEqual (c.settle v) (literal rest) <;> rfl

section Operand

variable {path : String} (hclose : '\x7d' ∉ p.toList) (hpath : operand? p s = some path)

include hclose hpath

/-- An equality compares the value it takes with its literal. -/
theorem evaluate_equal (c : Context) (heq : ¬ Occurs "==" p) :
    evaluate c (braced p ++ " == " ++ s) = compared c path s := by
  have hhead := (head?_expressions hclose " == " (by decide) s).trans hpath
  rw [evaluate_of_equal c hhead (afterMark?_equal heq s), compared_blank_append]

/-- An operator inside the expression is taken for the one of the equality, and what follows it for
the literal. -/
theorem evaluate_equal_inside (c : Context) (heq : Occurs "==" p) :
    ∃ t, evaluate c (braced p ++ " == " ++ s) = compared c path t ∧ '\x7d' ∈ t.toList := by
  have hhead := (head?_expressions hclose " == " (by decide) s).trans hpath
  obtain ⟨rest, hrest, hmem⟩ := afterMark?_inside heq (" == " ++ s)
  rw [← String.append_assoc, ← String.toList_ofList (l := rest)] at hrest
  exact ⟨String.ofList rest, evaluate_of_equal c hhead hrest, by rwa [String.toList_ofList]⟩

/-- An inequality whose literal holds no equality sign denies that the value equals the literal. -/
theorem evaluate_unequal (c : Context) (heq : ¬ Occurs "==" p) (hne : ¬ Occurs "!=" p)
    (hs : ¬ Occurs "==" s) :
    evaluate c (braced p ++ " != " ++ s) = (compared c path s).map (!·) := by
  have hhead := (head?_expressions hclose " != " (by decide) s).trans hpath
  have hnone := (afterMark?_unequal heq s).trans (afterMark?_eq_none hs)
  rw [evaluate_of_unequal c hhead hnone (afterMark?_unequal_self hne s), compared_blank_append]

/-- An equality sign in the literal of an inequality is taken for the operator. -/
theorem evaluate_unequal_of_first (c : Context) (heq : ¬ Occurs "==" p) {before rest : String}
    (hs : s = before ++ "==" ++ rest) (hfirst : ¬ Occurs "==" (before ++ "=")) :
    evaluate c (braced p ++ " != " ++ s) = compared c path rest := by
  have hhead := (head?_expressions hclose " != " (by decide) s).trans hpath
  refine evaluate_of_equal c hhead ?_
  rw [afterMark?_unequal heq, hs, String.toList_append, String.toList_append]
  refine afterMark?_of_first (List.cons_ne_nil _ _) ?_ _
  rw [Occurs, String.toList_append] at hfirst
  exact hfirst

end Operand

/-- An inequality is the negation of the equality if its literal holds no `==`. If it does, the first
`==` in it is the operator, and the value is equal to what follows there. A comparison that
takes no value is true either way. -/
theorem unequal_negates (c : Context) (p s : String) (hclose : '\x7d' ∉ p.toList) (heq : ¬ Occurs "==" p)
    (hne : ¬ Occurs "!=" p) :
    (∀ path, operand? p s = some path →
      evaluate c (braced p ++ " == " ++ s) = compared c path s ∧
      (¬ Occurs "==" s →
        evaluate c (braced p ++ " != " ++ s) = (evaluate c (braced p ++ " == " ++ s)).map (!·)) ∧
      ∀ before rest, s = before ++ "==" ++ rest → ¬ Occurs "==" (before ++ "=") →
        evaluate c (braced p ++ " != " ++ s) = compared c path rest) ∧
    (operand? p s = none →
      evaluate c (braced p ++ " == " ++ s) = .ok true ∧
        evaluate c (braced p ++ " != " ++ s) = .ok true) := by
  refine ⟨fun path hpath => ⟨?_, fun hs => ?_, fun before rest hs hfirst => ?_⟩, fun hnone => ⟨?_, ?_⟩⟩
  · exact evaluate_equal hclose hpath c heq
  · rw [evaluate_equal hclose hpath c heq]
    exact evaluate_unequal hclose hpath c heq hne hs
  · exact evaluate_unequal_of_first hclose hpath c heq hs hfirst
  · exact evaluate_of_operand?_none c hclose (by decide) hnone
  · exact evaluate_of_operand?_none c hclose (by decide) hnone

/-- The number 5 is unequal to a quoted `a`. Behind the first `==` of another literal it is equal to what
stands there. -/
theorem unequal_negates_five :
    evaluate five (braced "x" ++ " != " ++ "\"a\"") = .ok true ∧
      evaluate five (braced "x" ++ " != " ++ "\"a==5") = .ok true := by
  have hnegates (s : String) := unequal_negates five "x" s (by decide) (by decide) (by decide)
  constructor
  · rw [((hnegates "\"a\"").1 "x" (by decide)).2.1 (by decide)]
    decide +kernel
  · rw [((hnegates "\"a==5").1 "x" (by decide)).2.2 "\"a" "5" (by decide) (by decide)]
    decide +kernel

/-- The number 5 is taken to be neither equal nor unequal to a quoted text with two equality signs. -/
theorem not_negates_of_quoted_equal : ¬ ∀ (c : Context) (p s : String) (a b : Bool),
    IsInside p → ¬ Occurs "==" p → ¬ Occurs "!=" p →
    evaluate c (braced p ++ " == " ++ s) = .ok a → evaluate c (braced p ++ " != " ++ s) = .ok b →
    b = !a := by
  intro h
  have hnot := h five "x" "\"a==b\"" false false (by decide) (by decide) (by decide) (by decide +kernel)
    (by decide +kernel)
  cases hnot

end Template

end Stepwise
