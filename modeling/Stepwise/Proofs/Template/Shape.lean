-- SUMMARY: Finding out, filling and collecting expressions see the same expressions at every depth of a template.
import Stepwise.Proofs.Template.Answers

/-!
# The shape of templates

Three recursions go through a template. One collects its expressions, one finds out whether it
can be filled, and one fills it. They see the same expressions: a template can be filled if it
holds no `null` and each expression collected from it addresses something, and contexts that
show these expressions alike fill it alike. The filling has the shape of the template: lists
keep their length, dictionaries their keys, and only strings give way, each to its own filling.
-/

namespace Stepwise

namespace Template

open Checks

variable {c : Context}

/-! ## Shape -/

mutual

/-- The second value has the shape of the first, with its own filling in place of each string. -/
inductive Shaped (c : Context) : Value → Value → Prop
  | string {s : String} {v : Value} : fillString c s = .ok v → Shaped c (.str s) v
  | list {items items' : List Value} : ShapedAll c items items' → Shaped c (.list items) (.list items')
  | dict {entries entries' : Dict} :
    ShapedEntries c entries entries' → Shaped c (.dict entries) (.dict entries')
  | other {v : Value} : (∀ s, v ≠ .str s) → (∀ items, v ≠ .list items) →
    (∀ entries, v ≠ .dict entries) → Shaped c v v

/-- Item by item. -/
inductive ShapedAll (c : Context) : List Value → List Value → Prop
  | nil : ShapedAll c [] []
  | cons {v w : Value} {vs ws : List Value} :
    Shaped c v w → ShapedAll c vs ws → ShapedAll c (v :: vs) (w :: ws)

/-- Entry by entry, under the same keys. -/
inductive ShapedEntries (c : Context) : List (Key × Value) → List (Key × Value) → Prop
  | nil : ShapedEntries c [] []
  | cons {k : Key} {v w : Value} {es fs : List (Key × Value)} :
    Shaped c v w → ShapedEntries c es fs → ShapedEntries c ((k, v) :: es) ((k, w) :: fs)

end

theorem ShapedAll.length_eq {vs ws : List Value} (h : ShapedAll c vs ws) : vs.length = ws.length := by
  induction vs generalizing ws with
  | nil =>
    cases h
    rfl
  | cons v vs ih =>
    cases h with
    | cons _ hrest => rw [List.length_cons, List.length_cons, ih hrest]

theorem ShapedEntries.keys_eq {es fs : List (Key × Value)} (h : ShapedEntries c es fs) :
    es.map (·.1) = fs.map (·.1) := by
  induction es generalizing fs with
  | nil =>
    cases h
    rfl
  | cons e es ih =>
    cases h with
    | cons _ hrest => rw [List.map_cons, List.map_cons, ih hrest]

mutual

/-- Whatever is filled keeps its shape, and whatever has the shape is the filling. -/
theorem fill_eq_ok_iff : (v : Value) → {w : Value} → (fill c v = .ok w ↔ Shaped c v w)
  | .str s, w => by
    constructor
    · exact .string
    · rintro (h | _ | _ | ⟨hs, -, -⟩)
      · exact h
      · exact absurd rfl (hs s)
  | .list items, w => by
    rw [fill, bind_iff]
    constructor
    · rintro ⟨items', hitems, hw⟩
      cases hw
      exact .list ((fillAll_eq_ok_iff items).1 hitems)
    · rintro (_ | hitems | _ | ⟨-, hlist, -⟩)
      · exact ⟨_, (fillAll_eq_ok_iff items).2 hitems, rfl⟩
      · exact absurd rfl (hlist items)
  | .dict entries, w => by
    rw [fill, bind_iff]
    constructor
    · rintro ⟨entries', hentries, hw⟩
      cases hw
      exact .dict ((fillEntries_eq_ok_iff entries).1 hentries)
    · rintro (_ | _ | hentries | ⟨-, -, hdict⟩)
      · exact ⟨_, (fillEntries_eq_ok_iff entries).2 hentries, rfl⟩
      · exact absurd rfl (hdict entries)
  | .null, w | .bool _, w | .int _, w | .float _, w | .tuple _, w | .runLog, w => by
    constructor
    · intro h
      cases h
      exact .other nofun nofun nofun
    · rintro (_ | _ | _ | _)
      rfl

theorem fillAll_eq_ok_iff : (vs : List Value) → {ws : List Value} →
    (fillAll c vs = .ok ws ↔ ShapedAll c vs ws)
  | [], ws => by
    constructor
    · intro h
      cases h
      exact .nil
    · rintro ⟨⟩
      rfl
  | v :: vs, ws => by
    simp only [fillAll, bind_iff, pure_iff]
    constructor
    · rintro ⟨w, hw, ws, hws, rfl⟩
      exact .cons ((fill_eq_ok_iff v).1 hw) ((fillAll_eq_ok_iff vs).1 hws)
    · rintro (_ | ⟨hw, hws⟩)
      exact ⟨_, (fill_eq_ok_iff v).2 hw, _, (fillAll_eq_ok_iff vs).2 hws, rfl⟩

theorem fillEntries_eq_ok_iff : (es : List (Key × Value)) → {fs : List (Key × Value)} →
    (fillEntries c es = .ok fs ↔ ShapedEntries c es fs)
  | [], fs => by
    constructor
    · intro h
      cases h
      exact .nil
    · rintro ⟨⟩
      rfl
  | (k, v) :: es, fs => by
    simp only [fillEntries, bind_iff, pure_iff]
    constructor
    · rintro ⟨w, hw, fs, hfs, rfl⟩
      exact .cons ((fill_eq_ok_iff v).1 hw) ((fillEntries_eq_ok_iff es).1 hfs)
    · rintro (_ | ⟨hw, hfs⟩)
      exact ⟨_, (fill_eq_ok_iff v).2 hw, _, (fillEntries_eq_ok_iff es).2 hfs, rfl⟩

end

/-! ## Agreement of the recursions -/

/-- The recursions agree on a template of data, in a context that no path of it fails in. -/
structure Coheres (c : Context) (v : Value) : Prop where
  /-- It can be filled if it holds no `null` and all its expressions address something. -/
  tells : Tells (isFillable c v) (¬ v.HoldsNull ∧ Finds c (references v))
  /-- It is filled if what stands in longer texts can be written. -/
  answers : Answers (fill c v) ↔ Shows c (embedded v)
  /-- Its filling has its shape. -/
  shaped : ∀ w, fill c v = .ok w ↔ Shaped c v w
  /-- Only what its expressions address is read from the context. -/
  reads : ∀ d, c.ShowsOn d (references v) →
    (fill c v).map c.settle = (fill d v).map d.settle ∧ isFillable c v = isFillable d v

theorem coheres {v : Value} (hdata : v.isSettled = true) (hlook : Looks c (references v)) : Coheres c v where
  tells := tells_isFillable v hlook
  answers := (answers_fill c v).trans (and_iff_right hlook)
  shaped _ := fill_eq_ok_iff v
  reads _ h := ⟨fill_shown v h (.of_isSettled hdata), isFillable_shown v h⟩

/-- A list under `xs`, and under `pairs` a dictionary with a tuple for a key. -/
def stocked : Context where
  bindings := [(.str "xs", .list [.int 1, .int 2]),
    (.str "pairs", .dict [(.tuple [.int 1, .int 2], .int 3)])]

/-- Expressions as a whole string, in a longer text and in nested data. -/
def form : Value :=
  .dict [(.str "all", .str "\x7b\x7bxs\x7d\x7d"),
    (.str "some", .list [.str "first: \x7b\x7b xs.0 \x7d\x7d", .bool true])]

theorem coheres_form :
    Looks stocked (references form) ∧ Coheres stocked form ∧ isFillable stocked form = .ok true ∧
      fill stocked form = .ok (.dict [(.str "all", .list [.int 1, .int 2]),
        (.str "some", .list [.str "first: 1", .bool true])]) := by
  have hlook : Looks stocked (references form) := by
    change ∀ path ∈ references form, Answers (resolve stocked path)
    decide +kernel
  exact ⟨hlook, coheres rfl hlook, by decide +kernel, by decide +kernel⟩

/-- What cannot be written as JSON, in a longer text. -/
def unwritableText : Value := .list [.str "n \x7b\x7bpairs\x7d\x7d"]

/-- A template of which every expression addresses something need not have a filling, whatever its shape. -/
theorem not_shaped_of_unwritable :
    Looks stocked (references unwritableText) ∧ isFillable stocked unwritableText = .ok true ∧
      ¬ ∃ w, Shaped stocked unwritableText w := by
  refine ⟨?_, by decide +kernel, ?_⟩
  · change ∀ path ∈ references unwritableText, Answers (resolve stocked path)
    decide +kernel
  · rintro ⟨w, hw⟩
    have hnot : ¬ Answers (fill stocked unwritableText) := by decide +kernel
    exact hnot ⟨w, (fill_eq_ok_iff unwritableText).2 hw⟩

end Template

end Stepwise
