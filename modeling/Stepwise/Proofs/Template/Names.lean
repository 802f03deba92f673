-- SUMMARY: Names as expressions: which of them lead back to the variable or the step that has the name.
import Stepwise.Proofs.Number.Numeral
import Stepwise.Proofs.Template.Segments
import Stepwise.Proofs.Template.Whole
import Stepwise.Proofs.Value.Keys

/-!
# Names in expressions

The name of a variable, or that of a step behind `steps.`, is an expression, and as such it is
read as a path. A name without points is a single segment, and so it leads back to what has
the name; but `input` and `logs` lead elsewhere, whatever is bound under them. A name that
holds a point is cut there, so that the path never comes to what has the whole name.
-/

namespace Stepwise

/-! ## Blanks at the ends -/

namespace Text

/-- What is left of a text does not end in a blank. -/
theorem isBlank_getLast?_trim (cs : List Char) : ∀ c ∈ (trim cs).getLast?, isBlank c = false := by
  intro c hc
  rw [trim, List.getLast?_reverse] at hc
  have hhead := List.head?_dropWhile_not isBlank (trimLeft cs).reverse
  rw [← trimLeft, hc] at hhead
  exact hhead

/-- A text that has nothing to strip has none behind a text that starts with no blank. -/
theorem strip_append {s : String} (hs : strip s = s) (hne : s ≠ "") {first : Char}
    (hfirst : isBlank first = false) (front : List Char) :
    strip (String.ofList (first :: front) ++ s) = String.ofList (first :: front) ++ s := by
  have htrim : trim s.toList = s.toList := by
    rw [← String.toList_inj, strip, String.toList_ofList] at hs
    exact hs
  obtain ⟨last, hlast⟩ := Option.isSome_iff_exists.1
    (List.getLast?_isSome.2 (mt String.toList_eq_nil_iff.1 hne))
  have hblank : isBlank last = false :=
    isBlank_getLast?_trim s.toList last (by rw [htrim]; exact hlast)
  obtain ⟨body, hbody⟩ := List.getLast?_eq_some_iff.1 hlast
  have hlist : (String.ofList (first :: front) ++ s).toList = first :: (front ++ body) ++ [last] := by
    simp [hbody]
  rw [strip, hlist, trim_of_ends hfirst hblank, ← hlist, String.ofList_toList]

end Text

namespace Template

/-! ## Names -/

/-- A name that an expression may hold: not empty, without braces, and without blanks at its ends. -/
structure IsName (n : String) : Prop where
  nonempty : n ≠ ""
  unbraced : '\x7b' ∉ n.toList ∧ '\x7d' ∉ n.toList
  stripped : Text.strip n = n

/-- The name is a single segment, and so leads back to the step that has it. -/
structure NamesStep (n : String) : Prop extends IsName n where
  undivided : '.' ∉ n.toList

/-- The name leads back to the variable that has it. -/
structure NamesVariable (n : String) : Prop extends NamesStep n where
  not_input : n ≠ "input"
  not_logs : n ≠ "logs"

instance (n : String) : Decidable (IsName n) :=
  decidable_of_iff (n ≠ "" ∧ ('\x7b' ∉ n.toList ∧ '\x7d' ∉ n.toList) ∧ Text.strip n = n)
    ⟨fun h => ⟨h.1, h.2.1, h.2.2⟩, fun h => ⟨h.nonempty, h.unbraced, h.stripped⟩⟩

instance (n : String) : Decidable (NamesStep n) :=
  decidable_of_iff (IsName n ∧ '.' ∉ n.toList) ⟨fun h => ⟨h.1, h.2⟩, fun h => ⟨h.toIsName, h.undivided⟩⟩

instance (n : String) : Decidable (NamesVariable n) :=
  decidable_of_iff (NamesStep n ∧ n ≠ "input" ∧ n ≠ "logs")
    ⟨fun h => ⟨h.1, h.2.1, h.2.2⟩, fun h => ⟨h.toNamesStep, h.not_input, h.not_logs⟩⟩

/-- The path addresses the value, and a text that is this expression is filled by it. -/
structure Reads (c : Context) (path : String) (v : Value) : Prop where
  resolve : resolve c path = .ok v
  fill : fill c (.str (braced path)) = .ok v

variable {c : Context} {n path : String} {v : Value}

theorem IsName.reads (h : IsName path) (hresolve : Template.resolve c path = .ok v) :
    Reads c path v where
  resolve := hresolve
  fill := by
    rw [(fill_string c _).1 path ⟨h.nonempty, h.unbraced.2⟩ (.inl rfl), h.stripped, hresolve]

/-- The output of the step is addressed by a name too. -/
theorem IsName.output (h : IsName n) : IsName ("steps." ++ n) where
  nonempty := by simp [← String.toList_inj]
  unbraced := by simpa using h.unbraced
  stripped := Text.strip_append h.stripped h.nonempty (rfl : Text.isBlank 's' = false) "teps.".toList

/-! ## Names that lead back -/

theorem resolve_variable (h : NamesVariable n) : resolve c n = .ok (c.bindings.field n) := by
  rw [resolve, segments_of_not_mem h.undivided]
  split
  · rename_i heq
    cases heq
  · rename_i heq
    exact absurd (List.cons.inj heq).1 h.not_input
  · rename_i heq
    obtain ⟨rfl, rfl⟩ := List.cons.inj heq
    rw [if_neg h.not_logs, walk_nil]
  · rename_i heq
    cases heq

theorem segments_output (n : String) : segments ("steps." ++ n) = "steps" :: segments n :=
  segments_append "steps" n

theorem resolve_output {r : StepResult} (h : '.' ∉ n.toList) (hr : c.resultOf? (.str n) = some r) :
    resolve c ("steps." ++ n) = .ok r.output := by
  rw [resolve, segments_output, segments_of_not_mem h]
  simp only [hr, walk_nil]

/-- Nothing is addressed in a step that is not recorded. -/
theorem resolve_of_unrecorded {rest : List String} (h : segments path = "steps" :: n :: rest)
    (hnone : c.resultOf? (.str n) = none) : resolve c path = .ok .null := by
  simp only [resolve, h, hnone]

/-! ## Names that lead elsewhere -/

theorem IsName.divided (h : IsName n) (hnot : ¬ NamesStep n) : '.' ∈ n.toList :=
  not_not.1 fun hpoint => hnot ⟨h, hpoint⟩

theorem IsName.elsewhere (h : IsName n) (hnot : ¬ NamesVariable n) :
    '.' ∈ n.toList ∨ n = "input" ∨ n = "logs" := by
  by_contra hother
  obtain ⟨hpoint, hinput, hlogs⟩ : '.' ∉ n.toList ∧ n ≠ "input" ∧ n ≠ "logs" := by
    simpa only [not_or] using hother
  exact hnot ⟨⟨h, hpoint⟩, hinput, hlogs⟩

/-- A text with a point is cut at the first one. -/
theorem segments_of_mem (h : '.' ∈ n.toList) :
    ∃ first rest, first ≠ n ∧ segments n = first :: segments rest := by
  obtain ⟨piece, rest, hn, hpiece⟩ := List.eq_append_cons_of_mem h
  have hfirst : '.' ∉ (String.ofList piece).toList := by simpa using hpiece
  have hcut : n = String.ofList piece ++ "." ++ String.ofList rest := by
    simp [← String.toList_inj, hn]
  refine ⟨String.ofList piece, String.ofList rest, fun heq => hfirst (heq ▸ h), ?_⟩
  rw [hcut, segments_append, segments_of_not_mem hfirst]
  rfl

/-- Other names lead elsewhere, whatever is bound under them. -/
theorem resolve_bindVariable (h : '.' ∈ n.toList ∨ n = "input" ∨ n = "logs") (c : Context) (v : Value) :
    resolve (c.bindVariable (.str n) v) n = resolve c n := by
  rcases h with hpoint | rfl | rfl
  · obtain ⟨first, rest, hne, hsegments⟩ := segments_of_mem hpoint
    have hfield : (c.bindVariable (.str n) v).bindings.field first = c.bindings.field first := by
      rw [Dict.field, Dict.field, Context.bindVariable, Dict.field?_insert, if_neg hne]
    have hnot : n ≠ "logs" := by
      rintro rfl
      exact absurd hpoint (by decide)
    simp only [resolve, hsegments]
    split
    · rfl
    · rfl
    · rename_i heq
      obtain ⟨rfl, rfl⟩ := List.cons.inj heq
      rw [if_neg hnot, if_neg hnot, hfield]
      rfl
    · rfl
  · rfl
  · rfl

theorem resolve_record {r : StepResult} (h : '.' ∈ n.toList) (hr : r.step = .str n) (c : Context) :
    resolve (c.record r) ("steps." ++ n) = resolve c ("steps." ++ n) := by
  obtain ⟨first, rest, hne, hsegments⟩ := segments_of_mem h
  have hresult : (c.record r).resultOf? (.str first) = c.resultOf? (.str first) := by
    have hother : r.step.same (.str first) = false := by
      rw [hr, Value.same_str_right]
      simpa using hne.symm
    simp [Context.resultOf?, hother]
  simp only [resolve, segments_output, hsegments, hresult]
  rfl

end Template

end Stepwise
