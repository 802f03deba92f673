-- SUMMARY: Filling a text is a single pass: it is cut at its expressions once, and the texts of their values come between.
import Mathlib.Data.Nat.Find
import Stepwise.Proofs.Template.Replacement
import Stepwise.Proofs.Template.Whole

/-!
# Substitution in texts

An expression stands in a text wherever two opening braces, a text without a closing brace and
two closing braces follow each other. A text is cut from left to right: at the first expression
in it, then at the first in what is left behind that one, and so on. This cut depends on the
text only. Filling leaves the texts between the expressions as they are and puts the text of its
value in the place of each expression, whatever braces that text may hold.
-/

namespace Stepwise

namespace Template

/-! ## Cuts -/

/-- A text without an expression that starts in it, and the expression that follows. -/
structure Span where
  before : String
  inside : String
deriving DecidableEq, Repr

/-- Behind `before` an expression starts in the text. -/
def StartsBehind (s before : String) : Prop := ∃ p rest, IsInside p ∧ s = before ++ braced p ++ rest

/-- The text is cut at its expressions: each span ends with the first expression of what is left,
and no expression stands in the text behind the last span. -/
inductive IsCut : String → List Span → String → Prop
  | last {s : String} : (∀ before, ¬ StartsBehind s before) → IsCut s [] s
  | span {before p rest last : String} {spans : List Span} : IsInside p →
    (∀ before', StartsBehind (before ++ braced p ++ rest) before' → before.length ≤ before'.length) →
    IsCut rest spans last → IsCut (before ++ braced p ++ rest) (⟨before, p⟩ :: spans) last

/-- An expression that starts at the same place in the same text is the same one. -/
theorem braced_append_inj {p p' rest rest' : String} (hp : IsInside p) (hp' : IsInside p')
    (h : braced p ++ rest = braced p' ++ rest') : p = p' ∧ rest = rest' := by
  have hchars := congrArg String.toList h
  rw [toList_braced_append, toList_braced_append] at hchars
  have hinside : p.toList = p'.toList := by
    rw [← Option.some.injEq, ← holeAt?_braced hp rest.toList, ← holeAt?_braced hp' rest'.toList, hchars]
  rw [hinside] at hchars
  have hrest : rest.toList = rest'.toList := by simpa using hchars
  exact ⟨String.toList_inj.1 hinside, String.toList_inj.1 hrest⟩

/-- Two splits of a text at the same length are the same. -/
theorem append_inj_of_length {a b rest rest' : String} (h : a ++ rest = b ++ rest')
    (hlength : a.length = b.length) : a = b ∧ rest = rest' := by
  have hchars := congrArg String.toList h
  rw [String.toList_append, String.toList_append] at hchars
  obtain ⟨ha, hrest⟩ := List.append_inj hchars (by rwa [String.length_toList, String.length_toList])
  exact ⟨String.toList_inj.1 ha, String.toList_inj.1 hrest⟩

/-- A text is cut in one way only. -/
theorem IsCut.unique {s last last' : String} {spans spans' : List Span} (h : IsCut s spans last)
    (h' : IsCut s spans' last') : spans' = spans ∧ last' = last := by
  induction h generalizing spans' last' with
  | last hnone =>
    cases h' with
    | last => exact ⟨rfl, rfl⟩
    | span hp _ _ => exact absurd ⟨_, _, hp, rfl⟩ (hnone _)
  | @span before p rest last spans hp hfirst _ ih =>
    generalize hs : before ++ braced p ++ rest = s at h'
    cases h' with
    | last hnone => exact absurd ⟨p, rest, hp, hs.symm⟩ (hnone before)
    | @span before' p' rest' _ _ hp' hfirst' hrest' =>
      have hle : before.length ≤ before'.length := hfirst before' ⟨p', rest', hp', hs⟩
      have hge : before'.length ≤ before.length := hfirst' before ⟨p, rest, hp, hs.symm⟩
      rw [String.append_assoc, String.append_assoc] at hs
      obtain ⟨rfl, hbehind⟩ := append_inj_of_length hs (Nat.le_antisymm hle hge)
      obtain ⟨rfl, rfl⟩ := braced_append_inj hp hp' hbehind
      obtain ⟨rfl, rfl⟩ := ih hrest'
      exact ⟨rfl, rfl⟩

/-- Every text can be cut. -/
theorem exists_isCut (s : String) : ∃ spans last, IsCut s spans last := by
  induction hn : s.length using Nat.strongRecOn generalizing s with
  | ind n ih =>
    classical
    by_cases hsome : ∃ k before, before.length = k ∧ StartsBehind s before
    · -- The first expression is the one with the shortest text in front of it.
      obtain ⟨before, hlength, p, rest, hp, hs⟩ := Nat.find_spec hsome
      have hfirst (before' : String) (h : StartsBehind s before') : before.length ≤ before'.length :=
        hlength ▸ Nat.find_min' hsome ⟨before', rfl, h⟩
      have hshorter : rest.length < n := by
        have hbraces : (braced p).length = p.length + 4 := by simp [braced, ← String.length_toList]
        rw [← hn, hs, String.length_append, String.length_append, hbraces]
        omega
      obtain ⟨spans, last, hrest⟩ := ih _ hshorter rest rfl
      subst hs
      exact ⟨_, last, .span hp hfirst hrest⟩
    · exact ⟨[], s, .last fun before h => hsome ⟨_, before, rfl, h⟩⟩

/-! ## Cuts and pieces -/

/-- What is taken for an expression is one. -/
theorem startsBehind_of_holeAt? (front : List Char) {more inside : List Char}
    (h : holeAt? more = some inside) :
    StartsBehind (String.ofList (front ++ more)) (String.ofList front) := by
  obtain ⟨rest, rfl, hne, hall⟩ := holeAt?_eq_some h
  refine ⟨String.ofList inside, String.ofList rest, ⟨by simpa [← String.toList_inj] using hne, ?_⟩, ?_⟩
  · intro hmem
    have hend := List.all_eq_true.1 hall '\x7d' (by simpa using hmem)
    cases hend
  · simp [← String.toList_inj, braced]

/-- The pieces of a span: its characters and its expression. -/
def Span.pieces (e : Span) : List Piece := e.before.toList.map .char ++ [.hole e.inside.toList]

/-- The pieces of a text are those of its cut. -/
theorem IsCut.pieces_eq {s last : String} {spans : List Span} (h : IsCut s spans last) :
    pieces s = spans.flatMap Span.pieces ++ last.toList.map .char := by
  induction h with
  | @last s hnone =>
    have hchars : cut 0 (s.toList ++ []) = s.toList.map .char ++ cut 0 [] := by
      refine cut_of_none fun front more inside hsplit _ hhole => ?_
      rw [List.append_nil] at hhole
      have hstarts := startsBehind_of_holeAt? front hhole
      rw [← hsplit, String.ofList_toList] at hstarts
      exact hnone _ hstarts
    simpa [pieces, cut] using hchars
  | @span before p rest last spans hp hfirst hrest ih =>
    have hsource : (before ++ braced p ++ rest).toList = before.toList ++ (braced p ++ rest).toList := by
      simp
    have hbefore : cut 0 (before.toList ++ (braced p ++ rest).toList)
        = before.toList.map .char ++ cut 0 (braced p ++ rest).toList := by
      refine cut_of_none fun front more inside hsplit hmore hhole => ?_
      have hstarts := startsBehind_of_holeAt? front hhole
      rw [← List.append_assoc, ← hsplit, ← hsource, String.ofList_toList] at hstarts
      have hle : before.length ≤ front.length := by simpa using hfirst _ hstarts
      have hlength : before.length = front.length + more.length := by
        rw [← String.length_toList, hsplit, List.length_append]
      have hpos : 0 < more.length := List.length_pos_iff.2 hmore
      omega
    have hhole : cut 0 (braced p ++ rest).toList = .hole p.toList :: cut 0 rest.toList :=
      cut_braced_append hp rest
    rw [pieces, hsource, hbefore, hhole, ← pieces, ih]
    simp [Span.pieces]

theorem holes_spans (spans : List Span) (last : String) :
    holes (spans.flatMap Span.pieces ++ last.toList.map .char)
      = spans.map fun e => Text.strip e.inside := by
  have hchars (cs : List Char) (ps : List Piece) : holes (cs.map .char ++ ps) = holes ps := by
    simp [holes, List.filterMap_append]
  induction spans with
  | nil => simp [holes]
  | cons e spans ih =>
    rw [List.flatMap_cons, Span.pieces, List.append_assoc, List.append_assoc, hchars, List.map_cons, ← ih]
    rfl

/-- The expressions of a text are those of its cut, in order. -/
theorem IsCut.expressions_eq {s last : String} {spans : List Span} (h : IsCut s spans last) :
    expressions s = spans.map fun e => Text.strip e.inside := by
  have hholes : expressions s = holes (pieces s) := rfl
  rw [hholes, h.pieces_eq, holes_spans]

/-! ## Filling -/

/-- The text that comes in the place of an expression: that of the value it addresses, or the
expression as it stands if it addresses nothing. -/
def shown (c : Context) (p : String) : Except Fault String := do
  let v ← resolve c (Text.strip p)
  if v.isNull then return braced p else format (c.settle v)

/-- The texts between the expressions, with other texts in the place of the expressions. -/
def weave (spans : List Span) (texts : List String) (last : String) : String :=
  String.join (List.zipWith (fun e text => e.before ++ text) spans texts) ++ last

variable {c : Context}

theorem fillPiece_hole (p : String) : fillPiece c (.hole p.toList) = shown c p := by
  have hsource : String.ofList (Piece.hole p.toList).source = braced p := by
    simp [← String.toList_inj, Piece.source, braced]
  simp only [fillPiece, shown, expression, Text.strip, hsource]

theorem fillPieces_chars (cs : List Char) (ps : List Piece) :
    fillPieces c (cs.map .char ++ ps) = (fillPieces c ps).map (String.ofList cs ++ ·) := by
  induction cs with
  | nil => cases h : fillPieces c ps <;> simp [h, Except.map]
  | cons ch cs ih =>
    rw [List.map_cons, List.cons_append, fillPieces, ih, fillPiece]
    cases fillPieces c ps with
    | error f => rfl
    | ok text => simp [bind, Except.bind, pure, Except.pure, Except.map, ← String.toList_inj]

theorem fillPieces_spans (spans : List Span) (last : String) :
    fillPieces c (spans.flatMap Span.pieces ++ last.toList.map .char)
      = (spans.mapM fun e => shown c e.inside).map (weave spans · last) := by
  induction spans with
  | nil =>
    have hlast := fillPieces_chars (c := c) last.toList []
    simpa [fillPieces, Except.map, weave, pure, Except.pure] using hlast
  | cons e spans ih =>
    rw [List.flatMap_cons, Span.pieces, List.append_assoc, List.append_assoc, fillPieces_chars,
      List.cons_append, List.nil_append, fillPieces, fillPiece_hole, ih, List.mapM_cons]
    cases shown c e.inside with
    | error f => rfl
    | ok text =>
      cases spans.mapM fun e => shown c e.inside with
      | error f => rfl
      | ok texts =>
        simp [bind, Except.bind, pure, Except.pure, Except.map, weave, ← String.toList_inj]

/-- With the expressions in their own places a cut is the text again. -/
theorem IsCut.weave_braced {s last : String} {spans : List Span} (h : IsCut s spans last) :
    weave spans (spans.map fun e => braced e.inside) last = s := by
  induction h with
  | last => simp [weave, String.join]
  | span _ _ _ ih =>
    conv_rhs => rw [← ih]
    simp [weave, ← String.toList_inj]

/-- There is one way to cut a text at its expressions. The expressions found in the text are those of
its cut, in order, and in every context the text is filled by the same literal parts, with the texts
of the values in the places of the expressions. -/
theorem text_substituted (s : String) : ∃ (spans : List Span) (last : String),
    IsCut s spans last ∧
    (∀ spans' last', IsCut s spans' last' → spans' = spans ∧ last' = last) ∧
    weave spans (spans.map fun e => braced e.inside) last = s ∧
    references (.str s) = spans.map (fun e => Text.strip e.inside) ∧
    ∀ c : Context, fillText c s = (do
      let texts ← spans.mapM fun e => shown c e.inside
      return weave spans texts last) := by
  obtain ⟨spans, last, hcut⟩ := exists_isCut s
  refine ⟨spans, last, hcut, fun _ _ h' => hcut.unique h', hcut.weave_braced, hcut.expressions_eq,
    fun c => ?_⟩
  rw [fillText, hcut.pieces_eq, fillPieces_spans]
  cases spans.mapM fun e => shown c e.inside <;> rfl

/-- Braces that come with a value are text like any other, and braces without a partner stay. -/
example :
    fillText { bindings := [(.str "x", .str "\x7b\x7by\x7d\x7d"), (.str "y", .int 1)] }
      "\x7b\x7b\x7bx\x7d\x7d \x7b\x7b x \x7d\x7d\x7d \x7b\x7by\x7d\x7d"
      = .ok "\x7b\x7b\x7bx\x7d\x7d \x7b\x7by\x7d\x7d\x7d 1" := by
  decide +kernel

end Template

end Stepwise
