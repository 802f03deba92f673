-- SUMMARY: What can be filled is filled with the values of its expressions, at every depth.
import Stepwise.Proofs.Template.Agreement
import Stepwise.Proofs.Value.Keys

/-!
# Replacement of expressions

Two recursions go through a template: one finds out whether it can be filled, the other fills
it. They agree. A template can be filled if and only if it holds no `null` and every one of its
expressions addresses something, and then `Replaced` says how its filling looks: each expression
has given way to what it addresses, to the value itself where it makes up a whole string and to
its text elsewhere. All this presupposes that no path is a fault, and the filling besides that
the values in longer texts can be written.
-/

namespace Stepwise

/-! ## Nothing left out -/

/-- The value is `null`, or a list or dictionary that holds it at some depth. -/
inductive Value.HoldsNull : Value → Prop
  | null : HoldsNull .null
  | list {items : List Value} {v : Value} : v ∈ items → HoldsNull v → HoldsNull (.list items)
  | dict {entries : Dict} {e : Key × Value} : e ∈ entries → HoldsNull e.2 →
    HoldsNull (.dict entries)

namespace Value

theorem holdsNull_list {items : List Value} :
    (Value.list items).HoldsNull ↔ ∃ v ∈ items, v.HoldsNull := by
  constructor
  · rintro (_ | ⟨hv, h⟩)
    exact ⟨_, hv, h⟩
  · rintro ⟨v, hv, h⟩
    exact .list hv h

theorem holdsNull_dict {entries : Dict} :
    (Value.dict entries).HoldsNull ↔ ∃ e ∈ entries, e.2.HoldsNull := by
  constructor
  · rintro (_ | _ | ⟨he, h⟩)
    exact ⟨_, he, h⟩
  · rintro ⟨e, he, h⟩
    exact .dict he h

end Value

namespace Template

variable {c : Context}

/-- Every path leads somewhere, if only to `null`, and none is a fault. -/
def Looks (c : Context) (paths : List String) : Prop := ∀ path ∈ paths, ∃ v, resolve c path = .ok v

/-- Every path addresses something. -/
def Finds (c : Context) (paths : List String) : Prop := ∀ path ∈ paths, resolve c path ≠ .ok .null

theorem Looks.left {paths paths' : List String} (h : Looks c (paths ++ paths')) : Looks c paths :=
  fun path hpath => h path (List.mem_append_left _ hpath)

theorem Looks.right {paths paths' : List String} (h : Looks c (paths ++ paths')) :
    Looks c paths' := fun path hpath => h path (List.mem_append_right _ hpath)

theorem finds_append {paths paths' : List String} :
    Finds c (paths ++ paths') ↔ Finds c paths ∧ Finds c paths' := List.forall_mem_append

/-- The check has an answer, and it says whether `p` holds. -/
def Tells (answer : Except Fault Bool) (p : Prop) : Prop := ∃ b, answer = .ok b ∧ (b = true ↔ p)

namespace Tells

variable {first rest : Except Fault Bool} {p q : Prop}

theorem congr (h : Tells first p) (hpq : p ↔ q) : Tells first q := by
  obtain ⟨b, hb, hbp⟩ := h
  exact ⟨b, hb, hbp.trans hpq⟩

theorem and (h : Tells first p) (h' : Tells rest q) :
    Tells (do if ← first then rest else return false) (p ∧ q) := by
  obtain ⟨b, rfl, hb⟩ := h
  cases b with
  | false => exact ⟨false, rfl, iff_of_false nofun fun hpq => nomatch hb.2 hpq.1⟩
  | true =>
    obtain ⟨b', rfl, hb'⟩ := h'
    exact ⟨b', rfl, hb'.trans ⟨fun hq => ⟨hb.1 rfl, hq⟩, And.right⟩⟩

end Tells

theorem tells_allResolve {paths : List String} (h : Looks c paths) :
    Tells (allResolve c paths) (Finds c paths) := by
  induction paths with
  | nil => exact ⟨true, rfl, iff_of_true rfl (List.forall_mem_nil _)⟩
  | cons path rest ih =>
    obtain ⟨⟨v, hv⟩, hrest⟩ := List.forall_mem_cons.1 h
    obtain ⟨b, hb, hfinds⟩ := ih hrest
    have hcons : Finds c (path :: rest) ↔ v ≠ .null ∧ Finds c rest := by
      simp [Finds, hv]
    rw [allResolve, hv, Checks.ok_bind, hcons]
    cases hnull : v.isNull with
    | true =>
      have hnot : ¬ (v ≠ .null ∧ Finds c rest) := fun hfound => hfound.1 (Value.isNull_iff.1 hnull)
      exact ⟨false, rfl, iff_of_false Bool.false_ne_true hnot⟩
    | false =>
      refine ⟨b, hb, hfinds.trans ⟨fun hfound => ⟨?_, hfound⟩, And.right⟩⟩
      rintro rfl
      cases hnull

mutual

/-- A value can be filled if it holds no `null` and all its expressions address something. -/
theorem tells_isFillable : (v : Value) → Looks c (references v) →
    Tells (isFillable c v) (¬ v.HoldsNull ∧ Finds c (references v))
  | .null, _ => ⟨false, rfl, iff_of_false nofun fun h => h.1 .null⟩
  | .bool _, _ | .int _, _ | .float _, _ | .tuple _, _ | .runLog, _ =>
    ⟨true, rfl, iff_of_true rfl ⟨nofun, nofun⟩⟩
  | .str s, h => (tells_allResolve h).congr ⟨fun hfinds => ⟨nofun, hfinds⟩, And.right⟩
  | .list items, h => (tells_allFillable items h).congr (by
      rw [references, Value.holdsNull_list]
      simp)
  | .dict entries, h => (tells_entriesFillable entries h).congr (by
      rw [references, Value.holdsNull_dict]
      simp)

theorem tells_allFillable : (vs : List Value) → Looks c (referencesAll vs) →
    Tells (allFillable c vs) ((∀ v ∈ vs, ¬ v.HoldsNull) ∧ Finds c (referencesAll vs))
  | [], _ => ⟨true, rfl, iff_of_true rfl ⟨nofun, nofun⟩⟩
  | v :: vs, h => ((tells_isFillable v h.left).and (tells_allFillable vs h.right)).congr (by
      rw [List.forall_mem_cons, referencesAll, finds_append]
      exact and_and_and_comm)

theorem tells_entriesFillable : (es : List (Key × Value)) → Looks c (referencesEntries es) →
    Tells (entriesFillable c es) ((∀ e ∈ es, ¬ e.2.HoldsNull) ∧ Finds c (referencesEntries es))
  | [], _ => ⟨true, rfl, iff_of_true rfl ⟨nofun, nofun⟩⟩
  | (k, v) :: es, h => ((tells_isFillable v h.left).and (tells_entriesFillable es h.right)).congr (by
      rw [List.forall_mem_cons, referencesEntries, finds_append]
      exact and_and_and_comm)

end

/-! ## Expressions replaced -/

mutual

/-- The expressions inside a value that stand in a longer text, in order. -/
def embedded : Value → List String
  | .str s => if (whole? s).isSome then [] else expressions s
  | .list items => embeddedAll items
  | .dict entries => embeddedEntries entries
  | _ => []

/-- The expressions inside list items that stand in a longer text. -/
def embeddedAll : List Value → List String
  | [] => []
  | v :: vs => embedded v ++ embeddedAll vs

/-- The expressions inside dictionary entries that stand in a longer text. -/
def embeddedEntries : List (Key × Value) → List String
  | [] => []
  | (_, v) :: es => embedded v ++ embeddedEntries es

end

/-- What the paths address can be written as text. -/
def Writes (c : Context) (paths : List String) : Prop :=
  ∀ path ∈ paths, ∀ v, resolve c path = .ok v → v ≠ .null →
    ∃ text, format (c.settle v) = .ok text

theorem Writes.left {paths paths' : List String} (h : Writes c (paths ++ paths')) :
    Writes c paths := fun path hpath => h path (List.mem_append_left _ hpath)

theorem Writes.right {paths paths' : List String} (h : Writes c (paths ++ paths')) :
    Writes c paths' := fun path hpath => h path (List.mem_append_right _ hpath)

/-- The text of the pieces, with the text of its value in place of each expression. -/
inductive Inlined (c : Context) : List Piece → String → Prop
  | nil : Inlined c [] ""
  | char {ch : Char} {rest : List Piece} {text : String} :
    Inlined c rest text → Inlined c (.char ch :: rest) (String.singleton ch ++ text)
  | hole {inside : List Char} {rest : List Piece} {v : Value} {shown text : String} :
    resolve c (expression inside) = .ok v → v ≠ .null → format (c.settle v) = .ok shown →
    Inlined c rest text → Inlined c (.hole inside :: rest) (shown ++ text)

mutual

/-- The second value is the first with what it addresses in place of each expression. -/
inductive Replaced (c : Context) : Value → Value → Prop
  | whole {s path : String} {v : Value} :
    whole? s = some path → resolve c path = .ok v → v ≠ .null → Replaced c (.str s) v
  | text {s text : String} :
    whole? s = none → Inlined c (pieces s) text → Replaced c (.str s) (.str text)
  | list {items items' : List Value} :
    ReplacedAll c items items' → Replaced c (.list items) (.list items')
  | dict {entries entries' : Dict} :
    ReplacedEntries c entries entries' → Replaced c (.dict entries) (.dict entries')
  | other {v : Value} : (∀ s, v ≠ .str s) → (∀ items, v ≠ .list items) →
    (∀ entries, v ≠ .dict entries) → Replaced c v v

/-- Item by item. -/
inductive ReplacedAll (c : Context) : List Value → List Value → Prop
  | nil : ReplacedAll c [] []
  | cons {v w : Value} {vs ws : List Value} :
    Replaced c v w → ReplacedAll c vs ws → ReplacedAll c (v :: vs) (w :: ws)

/-- Entry by entry, under the same keys. -/
inductive ReplacedEntries (c : Context) : List (Key × Value) → List (Key × Value) → Prop
  | nil : ReplacedEntries c [] []
  | cons {k : Key} {v w : Value} {es fs : List (Key × Value)} :
    Replaced c v w → ReplacedEntries c es fs → ReplacedEntries c ((k, v) :: es) ((k, w) :: fs)

end

/-- Filling comes to an end, and replaces what can be found. -/
def Fills {α : Type} (answer : Except Fault α) (found : Prop) (replaced : α → Prop) : Prop :=
  ∃ a, answer = .ok a ∧ (found → replaced a)

def holes (ps : List Piece) : List String :=
  ps.filterMap fun
    | .char _ => none
    | .hole inside => some (expression inside)

theorem fills_fillPieces {ps : List Piece} (hlook : Looks c (holes ps)) (hwrite : Writes c (holes ps)) :
    Fills (fillPieces c ps) (Finds c (holes ps)) (Inlined c ps) := by
  induction ps with
  | nil => exact ⟨"", rfl, fun _ => .nil⟩
  | cons piece rest ih =>
    cases piece with
    | char ch =>
      obtain ⟨text, hrest, hinlined⟩ := ih hlook hwrite
      refine ⟨String.singleton ch ++ text, ?_, fun hfinds => .char (hinlined hfinds)⟩
      rw [fillPieces, hrest]
      rfl
    | hole inside =>
      obtain ⟨⟨v, hv⟩, hlook⟩ := List.forall_mem_cons.1 hlook
      obtain ⟨hshown, hwrite⟩ := List.forall_mem_cons.1 hwrite
      obtain ⟨text, hrest, hinlined⟩ := ih hlook hwrite
      by_cases hnull : v = .null
      · -- The expression stays as it stands.
        refine ⟨String.ofList (Piece.hole inside).source ++ text, ?_, fun hfinds => ?_⟩
        · rw [fillPieces, fillPiece, hv, hrest, hnull]
          rfl
        · exact absurd (hnull ▸ hv) (hfinds _ List.mem_cons_self)
      · obtain ⟨shown, hshown⟩ := hshown v hv hnull
        refine ⟨shown ++ text, ?_, fun hfinds => ?_⟩
        · have hpiece : fillPiece c (.hole inside) = .ok shown := by
            rw [fillPiece, hv, Checks.ok_bind, if_neg (mt Value.isNull_iff.1 hnull), hshown]
          rw [fillPieces, hpiece, hrest]
          rfl
        · exact .hole hv hnull hshown (hinlined (List.forall_mem_cons.1 hfinds).2)

theorem fills_fillString {s : String} (hlook : Looks c (expressions s))
    (hwrite : Writes c (embedded (.str s))) :
    Fills (fillString c s) (Finds c (expressions s)) (Replaced c (.str s)) := by
  unfold fillString
  cases hwhole : whole? s with
  | some path =>
    have hpath := mem_expressions_of_whole? hwhole
    obtain ⟨v, hv⟩ := hlook path hpath
    refine ⟨v, hv, fun hfinds => .whole hwhole hv ?_⟩
    rintro rfl
    exact hfinds path hpath hv
  | none =>
    rw [embedded, hwhole] at hwrite
    obtain ⟨text, htext, hinlined⟩ := fills_fillPieces hlook hwrite
    refine ⟨.str text, ?_, fun hfinds => .text hwhole (hinlined hfinds)⟩
    dsimp only
    rw [fillText, htext]
    rfl

mutual

/-- A value is filled by what its expressions address. -/
theorem fills_fill : (v : Value) → Looks c (references v) → Writes c (embedded v) →
    Fills (fill c v) (Finds c (references v)) (Replaced c v)
  | .null, _, _ | .bool _, _, _ | .int _, _, _ | .float _, _, _ | .tuple _, _, _ | .runLog, _, _ =>
    ⟨_, rfl, fun _ => .other nofun nofun nofun⟩
  | .str _, hlook, hwrite => fills_fillString hlook hwrite
  | .list items, hlook, hwrite => by
    obtain ⟨items', hitems, hreplaced⟩ := fills_fillAll items hlook hwrite
    refine ⟨.list items', ?_, fun hfinds => .list (hreplaced hfinds)⟩
    rw [fill, hitems]
    rfl
  | .dict entries, hlook, hwrite => by
    obtain ⟨entries', hentries, hreplaced⟩ := fills_fillEntries entries hlook hwrite
    refine ⟨.dict entries', ?_, fun hfinds => .dict (hreplaced hfinds)⟩
    rw [fill, hentries]
    rfl

theorem fills_fillAll : (vs : List Value) → Looks c (referencesAll vs) → Writes c (embeddedAll vs) →
    Fills (fillAll c vs) (Finds c (referencesAll vs)) (ReplacedAll c vs)
  | [], _, _ => ⟨[], rfl, fun _ => .nil⟩
  | v :: vs, hlook, hwrite => by
    obtain ⟨w, hw, hfirst⟩ := fills_fill v hlook.left hwrite.left
    obtain ⟨ws, hws, hrest⟩ := fills_fillAll vs hlook.right hwrite.right
    refine ⟨w :: ws, ?_, fun hfinds => ?_⟩
    · rw [fillAll, hw, hws]
      rfl
    · obtain ⟨hv, hvs⟩ := finds_append.1 hfinds
      exact .cons (hfirst hv) (hrest hvs)

theorem fills_fillEntries : (es : List (Key × Value)) → Looks c (referencesEntries es) →
    Writes c (embeddedEntries es) →
    Fills (fillEntries c es) (Finds c (referencesEntries es)) (ReplacedEntries c es)
  | [], _, _ => ⟨[], rfl, fun _ => .nil⟩
  | (k, v) :: es, hlook, hwrite => by
    obtain ⟨w, hw, hfirst⟩ := fills_fill v hlook.left hwrite.left
    obtain ⟨fs, hfs, hrest⟩ := fills_fillEntries es hlook.right hwrite.right
    refine ⟨(k, w) :: fs, ?_, fun hfinds => ?_⟩
    · rw [fillEntries, hw, hfs]
      rfl
    · obtain ⟨hv, hes⟩ := finds_append.1 hfinds
      exact .cons (hfirst hv) (hrest hes)

end

end Template

end Stepwise
