-- SUMMARY: When paths, templates and conditions give an answer, and which operands are taken to be equal.
import Stepwise.Proofs.Number.Format
import Stepwise.Proofs.Template.Comparison
import Stepwise.Proofs.Template.Replacement
import Stepwise.Proofs.Template.Walk

/-!
# Answers

Three things keep a template from giving an answer. A path is broken where a segment that looks
like a position in a sequence spells none. A value cannot be written into a longer text if it
holds an integer with too many digits, or a tuple for a key. And an integer beyond the finite
binary64 numbers cannot be compared with a text. Whatever else is asked is answered: what
addresses nothing leads to `null`, and operands that cannot be compared are unequal.
-/

namespace Stepwise

namespace Checks

variable {ε α β γ : Type}

def Answers (x : Except ε α) : Prop := ∃ a, x = .ok a

instance (x : Except ε α) : Decidable (Answers x) :=
  match x with
  | .ok a => .isTrue ⟨a, rfl⟩
  | .error _ => .isFalse nofun

theorem answers_ok (a : α) : Answers (.ok a : Except ε α) := ⟨a, rfl⟩

theorem not_answers_error (e : ε) : ¬ Answers (.error e : Except ε α) := nofun

theorem answers_map {x : Except ε α} {f : α → β} : Answers (do return f (← x)) ↔ Answers x := by
  cases x with
  | error e => exact iff_of_false (not_answers_error e) (not_answers_error e)
  | ok a => exact iff_of_true (answers_ok (f a)) (answers_ok a)

theorem answers_map₂ {x : Except ε α} {y : Except ε β} {f : α → β → γ} :
    Answers (do return f (← x) (← y)) ↔ Answers x ∧ Answers y := by
  cases x with
  | error e => exact iff_of_false (not_answers_error e) fun h => not_answers_error e h.1
  | ok a => exact answers_map.trans (and_iff_right (answers_ok a)).symm

theorem answers_ite {p : Prop} [Decidable p] {a : α} {e : ε} :
    Answers (if p then .ok a else .error e) ↔ p := by
  by_cases h : p
  · rw [if_pos h]
    exact iff_of_true (answers_ok a) h
  · rw [if_neg h]
    exact iff_of_false (not_answers_error e) h

end Checks

open Checks

/-! ## Writing -/

/-- The key is no tuple. -/
def Key.isName : Key → Bool
  | .tuple _ => false
  | _ => true

mutual

/-- No dictionary in the value has a tuple for a key. -/
def Value.isNamed : Value → Bool
  | .list items | .tuple items => Value.allNamed items
  | .dict entries => Value.entriesNamed entries
  | _ => true

/-- No dictionary in the values has a tuple for a key. -/
def Value.allNamed : List Value → Bool
  | [] => true
  | v :: vs => v.isNamed && Value.allNamed vs

/-- Neither the entries nor a dictionary in them have a tuple for a key. -/
def Value.entriesNamed : List (Key × Value) → Bool
  | [] => true
  | (k, v) :: es => k.isName && v.isNamed && Value.entriesNamed es

end

/-- The value can be written into a longer text: its integers have texts, and its keys do as well, except
in a tuple, the text of which is no JSON. -/
def Value.IsWritable (v : Value) : Prop :=
  v.isSpellable = true ∧ ((∃ items, v = .tuple items) ∨ v.isNamed = true)

namespace Json

theorem answers_spellInt {n : Int} : Answers (spellInt n) ↔ isSpellableInt n = true := answers_ite

theorem answers_memberName : (k : Key) → (Answers (memberName k) ↔ k.isSpellable = true ∧ k.isName = true)
  | .int _ => answers_spellInt.trans (and_iff_left rfl).symm
  | .tuple _ => iff_of_false (not_answers_error _) nofun
  | .null | .bool _ | .float _ | .str _ => iff_of_true (answers_ok _) ⟨rfl, rfl⟩

mutual

/-- A value has a JSON text if its integers have texts and no tuple is a key. -/
theorem answers_render : (v : Value) → (Answers (render v) ↔ v.isSpellable = true ∧ v.isNamed = true)
  | .int _ => answers_spellInt.trans (and_iff_left rfl).symm
  | .list items => answers_map.trans (answers_renderAll items)
  | .tuple items => answers_map.trans (answers_renderAll items)
  | .dict entries => answers_map.trans (answers_renderEntries entries)
  | .null | .bool _ | .float _ | .str _ | .runLog => iff_of_true (answers_ok _) ⟨rfl, rfl⟩

theorem answers_renderAll : (vs : List Value) →
    (Answers (renderAll vs) ↔ Value.allSpellable vs = true ∧ Value.allNamed vs = true)
  | [] => iff_of_true (answers_ok _) ⟨rfl, rfl⟩
  | v :: vs => by
    rw [Value.allSpellable, Value.allNamed, Bool.and_eq_true, Bool.and_eq_true, and_and_and_comm,
      ← answers_render v, ← answers_renderAll vs]
    exact answers_map₂

theorem answers_renderEntries : (es : List (Key × Value)) →
    (Answers (renderEntries es) ↔ Value.entriesSpellable es = true ∧ Value.entriesNamed es = true)
  | [] => iff_of_true (answers_ok _) ⟨rfl, rfl⟩
  | (k, v) :: es => by
    rw [Value.entriesSpellable, Value.entriesNamed, Bool.and_eq_true, Bool.and_eq_true, Bool.and_eq_true,
      Bool.and_eq_true, and_and_and_comm, @and_and_and_comm (k.isSpellable = true), ← answers_memberName k,
      ← answers_render v, ← answers_renderEntries es, renderEntries]
    cases memberName k with
    | error e => exact iff_of_false (not_answers_error e) fun h => not_answers_error e h.1.1
    | ok name => exact answers_map₂.trans (and_congr_left' (and_iff_right (answers_ok name)).symm)

end

end Json

namespace Template

open Binary64 (nearestInt?)

theorem answers_spell {v : Value} : Answers v.spell ↔ v.isSpellable = true := answers_ite

/-- A value that is no tuple is writable if its integers have texts and no tuple is a key. -/
theorem isWritable_iff {v : Value} (h : ∀ items, v ≠ .tuple items) :
    v.IsWritable ↔ v.isSpellable = true ∧ v.isNamed = true := by
  refine and_congr_right fun _ => or_iff_right ?_
  rintro ⟨items, hitems⟩
  exact h items hitems

theorem answers_format (v : Value) : Answers (format v) ↔ v.IsWritable := by
  cases v with
  | tuple items => exact answers_spell.trans (and_iff_left (.inl ⟨items, rfl⟩)).symm
  | dict entries | list items =>
    rw [isWritable_iff (by simp)]
    exact Json.answers_render _
  | int n => exact answers_spell.trans (and_iff_left (.inr rfl)).symm
  | float x =>
    refine iff_of_true ?_ ⟨rfl, .inr rfl⟩
    rw [format]
    split <;> exact answers_ok _
  | null | bool b | str s | runLog => exact iff_of_true (answers_ok _) ⟨rfl, .inr rfl⟩

/-! ## Filling -/

variable {c : Context}

/-- What the paths lead to can be written into a longer text. -/
def Shows (c : Context) (paths : List String) : Prop :=
  ∀ path ∈ paths, ∀ v, resolve c path = .ok v → (c.settle v).IsWritable

theorem looks_nil (c : Context) : Looks c [] := List.forall_mem_nil _

theorem shows_nil (c : Context) : Shows c [] := List.forall_mem_nil _

theorem looks_cons {path : String} {paths : List String} :
    Looks c (path :: paths) ↔ Answers (resolve c path) ∧ Looks c paths := List.forall_mem_cons

theorem looks_append {paths paths' : List String} :
    Looks c (paths ++ paths') ↔ Looks c paths ∧ Looks c paths' :=
  List.forall_mem_append

theorem shows_append {paths paths' : List String} :
    Shows c (paths ++ paths') ↔ Shows c paths ∧ Shows c paths' :=
  List.forall_mem_append

theorem answers_fillPiece (c : Context) (inside : List Char) :
    Answers (fillPiece c (.hole inside)) ↔
      Answers (resolve c (expression inside)) ∧ Shows c [expression inside] := by
  rw [fillPiece, Shows, List.forall_mem_singleton]
  cases hv : resolve c (expression inside) with
  | error f => exact iff_of_false (not_answers_error f) fun h => not_answers_error f h.1
  | ok v =>
    have hshows : (∀ w, (.ok v : Except Fault Value) = .ok w → (c.settle w).IsWritable) ↔
        (c.settle v).IsWritable := by simp
    rw [ok_bind, hshows, and_iff_right (answers_ok v)]
    by_cases hnull : v.isNull = true
    · rw [if_pos hnull, Value.isNull_iff.1 hnull]
      exact iff_of_true (answers_ok _) ⟨rfl, .inr rfl⟩
    · rw [if_neg hnull]
      exact answers_format (c.settle v)

theorem answers_fillPieces (c : Context) (ps : List Piece) :
    Answers (fillPieces c ps) ↔ Looks c (holes ps) ∧ Shows c (holes ps) := by
  induction ps with
  | nil => exact iff_of_true (answers_ok _) ⟨looks_nil c, shows_nil c⟩
  | cons piece rest ih =>
    have hpieces : Answers (fillPieces c (piece :: rest)) ↔
        Answers (fillPiece c piece) ∧ Answers (fillPieces c rest) := answers_map₂
    cases piece with
    | char ch => exact hpieces.trans ((and_iff_right (answers_ok _)).trans ih)
    | hole inside =>
      have hholes : holes (.hole inside :: rest) = [expression inside] ++ holes rest := rfl
      rw [hpieces, ih, answers_fillPiece, hholes, shows_append, List.singleton_append, looks_cons]
      exact and_and_and_comm

/-- A string is filled if its paths lead somewhere, and if what they lead to can be written where it stands
in a longer text. -/
theorem answers_fillString (c : Context) (s : String) :
    Answers (fillString c s) ↔ Looks c (expressions s) ∧ Shows c (embedded (.str s)) := by
  rw [fillString, embedded]
  cases hwhole : whole? s with
  | some path =>
    rw [expressions_of_whole? hwhole, looks_cons, and_iff_left (looks_nil c), Option.isSome_some,
      if_pos rfl, and_iff_left (shows_nil c)]
  | none => exact answers_map.trans (answers_fillPieces c (pieces s))

mutual

/-- A template is filled under the same conditions, at every depth. -/
theorem answers_fill (c : Context) : (v : Value) →
    (Answers (fill c v) ↔ Looks c (references v) ∧ Shows c (embedded v))
  | .str s => answers_fillString c s
  | .list items => answers_map.trans (answers_fillAll c items)
  | .dict entries => answers_map.trans (answers_fillEntries c entries)
  | .null | .bool _ | .int _ | .float _ | .tuple _ | .runLog =>
    iff_of_true (answers_ok _) ⟨looks_nil c, shows_nil c⟩

theorem answers_fillAll (c : Context) : (vs : List Value) →
    (Answers (fillAll c vs) ↔ Looks c (referencesAll vs) ∧ Shows c (embeddedAll vs))
  | [] => iff_of_true (answers_ok _) ⟨looks_nil c, shows_nil c⟩
  | v :: vs => by
    rw [referencesAll, embeddedAll, looks_append, shows_append, and_and_and_comm, ← answers_fill c v,
      ← answers_fillAll c vs]
    exact answers_map₂

theorem answers_fillEntries (c : Context) : (es : List (Key × Value)) →
    (Answers (fillEntries c es) ↔ Looks c (referencesEntries es) ∧ Shows c (embeddedEntries es))
  | [] => iff_of_true (answers_ok _) ⟨looks_nil c, shows_nil c⟩
  | (k, v) :: es => by
    rw [referencesEntries, embeddedEntries, looks_append, shows_append, and_and_and_comm,
      ← answers_fill c v, ← answers_fillEntries c es]
    exact answers_map₂

end

/-! ## Finding out whether a template can be filled -/

theorem answers_isFillable {v : Value} (h : Looks c (references v)) : Answers (isFillable c v) := by
  obtain ⟨b, hb, -⟩ := tells_isFillable v h
  exact ⟨b, hb⟩

/-! ## Comparing -/

/-- The value is an integer beyond the finite binary64 numbers. -/
def Overflows (v : Value) : Prop := ∃ m, v = .int m ∧ nearestInt? m = none

/-- The operands are the same, or one is a text that spells the number that the other is. -/
def LooselyEqual (v w : Value) : Prop :=
  v.same w = true ∨ (v.str?.isSome ≠ w.str?.isSome ∧
    ∃ x y, v.toBinary64 = .ok x ∧ w.toBinary64 = .ok y ∧ x.compare? y = some .eq)

/-- Only such an integer is too large to be made a number. -/
theorem overflows_iff {v : Value} : Overflows v ↔ ∃ f, v.toBinary64 = .error f ∧ f.kind = .overflow := by
  constructor
  · rintro ⟨m, rfl, hm⟩
    refine ⟨Value.tooLarge, ?_, rfl⟩
    rw [Value.toBinary64, Binary64.ofInt?_eq, hm]
    rfl
  · rintro ⟨f, hf, hkind⟩
    cases v with
    | int n =>
      cases hn : nearestInt? n with
      | none => exact ⟨n, rfl, hn⟩
      | some r =>
        rw [Value.toBinary64, Binary64.ofInt?_eq, hn] at hf
        cases hf
    | str s =>
      rw [Value.toBinary64] at hf
      split at hf
      · cases hf
      · cases hf
        cases hkind
    | bool b | float x => cases hf
    | _ =>
      cases hf
      cases hkind

/-- No literal is too large an integer, as it is read by way of a binary64 number. -/
theorem not_overflows_literal (s : String) : ¬ Overflows (literal s) := by
  have hnumber {t : String} {x : Binary64} (hx : Numeral.readNumber? t = some x) :
      ¬ Overflows (numberLiteral t x) := by
    rintro ⟨m, hm, hnone⟩
    have hinteger : x.toInt? = some m := by
      unfold numberLiteral at hm
      split at hm
      · rename_i n hn
        split at hm
        · rw [hn, Value.int.inj hm]
        · cases hm
      · cases hm
    have hkept := Binary64.nearestInt?_of_isExact ((Numeral.isFormat_of_readNumber? hx).isExact hinteger)
    rw [hnone] at hkept
    cases hkept
  rw [literal]
  split
  · rintro ⟨m, hm, -⟩
    cases hm
  · split_ifs
    · rintro ⟨m, hm, -⟩
      cases hm
    · rintro ⟨m, hm, -⟩
      cases hm
    · rintro ⟨m, hm, -⟩
      cases hm
    · split
      · rename_i x hx
        exact hnumber hx
      · rintro ⟨m, hm, -⟩
        cases hm

/-- A fault that is no overflow makes operands unequal. -/
theorem caught_eq_false {f : Fault} {b : Bool}
    (h : (if f.kind = .overflow then .error f else .ok false : Except Fault Bool) = .ok b) : b = false := by
  split at h
  · cases h
  · exact (Except.ok.inj h).symm

/-- Two operands are equal as numbers if both count as one, and as the same. -/
theorem sameNumber_iff {v w : Value} {b : Bool} (h : sameNumber v w = .ok b) :
    b = true ↔ ∃ x y, v.toBinary64 = .ok x ∧ w.toBinary64 = .ok y ∧ x.compare? y = some .eq := by
  unfold sameNumber at h
  split at h
  · rename_i f hf
    rw [caught_eq_false h, hf]
    simp
  · rename_i x hx
    split at h
    · rename_i g hg
      rw [caught_eq_false h, hg]
      simp
    · rename_i y hy
      rw [← Except.ok.inj h, hx, hy]
      simp

/-- A number is compared with another unless one of them is too large, and what is no number with
anything. -/
theorem answers_sameNumber (v w : Value) :
    Answers (sameNumber v w) ↔ ¬ Overflows v ∧ (Answers v.toBinary64 → ¬ Overflows w) := by
  have hcaught {f : Fault} :
      Answers (if f.kind = .overflow then .error f else .ok false : Except Fault Bool) ↔ f.kind ≠ .overflow := by
    rw [← ite_not]
    exact answers_ite
  rw [overflows_iff, overflows_iff]
  unfold sameNumber
  split
  · rename_i f hf
    rw [hf, hcaught]
    simp [not_answers_error]
  · rename_i x hx
    split
    · rename_i g hg
      rw [hx, hg, hcaught]
      simp [answers_ok]
    · rename_i y hy
      rw [hx, hy]
      simp [answers_ok]

/-- Nothing but `null` is loosely equal to `null`. -/
theorem looselyEqual_null_iff {v w : Value} (h : (v.isNull || w.isNull) = true) :
    (v.isNull && w.isNull) = true ↔ LooselyEqual v w := by
  have hnumber {x : Binary64} : Value.toBinary64 .null ≠ .ok x := nofun
  have hsame (v : Value) : v.same .null = v.isNull := by cases v <;> rfl
  rcases Bool.or_eq_true_iff.1 h with hv | hw
  · rw [Value.isNull_iff.1 hv, LooselyEqual, Value.same_null, beq_iff_eq, Bool.and_eq_true,
      Value.isNull_iff, Value.isNull_iff, and_iff_right rfl]
    refine (or_iff_left ?_).symm
    rintro ⟨-, x, y, hx, -⟩
    exact hnumber hx
  · have hnull : Value.isNull .null = true := rfl
    rw [Value.isNull_iff.1 hw, LooselyEqual, hsame, Bool.and_eq_true, and_iff_left hnull]
    refine (or_iff_left ?_).symm
    rintro ⟨-, x, y, -, hy, -⟩
    exact hnumber hy

/-- The answer of a comparison says whether the operands are loosely equal. -/
theorem looselyEqual_iff {v w : Value} {b : Bool} (h : looselyEqual v w = .ok b) :
    b = true ↔ LooselyEqual v w := by
  unfold looselyEqual at h
  split at h
  · rename_i hnull
    rw [← Except.ok.inj h]
    exact looselyEqual_null_iff hnull
  · split at h
    · rename_i hsame
      exact iff_of_true (Except.ok.inj h).symm (.inl hsame)
    · rename_i hsame
      split at h
      · rename_i htext
        rw [sameNumber_iff h, LooselyEqual, or_iff_right hsame, and_iff_right (bne_iff_ne.1 htext)]
      · rename_i htext
        rw [← Except.ok.inj h, LooselyEqual, or_iff_right hsame]
        exact iff_of_false Bool.false_ne_true fun hequal => htext (bne_iff_ne.2 hequal.1)

/-- The literal of a comparison is a text, and the value an integer too large to be compared with it. -/
def Incomparable (v : Value) (s : String) : Prop := Overflows v ∧ (literal s).str?.isSome = true

/-- A value is compared with a literal unless it is too large for it. -/
theorem answers_looselyEqual (v : Value) (s : String) :
    Answers (looselyEqual v (literal s)) ↔ ¬ Incomparable v s := by
  have hliteral := not_overflows_literal s
  unfold Incomparable looselyEqual
  generalize literal s = w at hliteral
  split
  · rename_i hnull
    refine iff_of_true (answers_ok _) ?_
    rintro ⟨⟨m, rfl, -⟩, htext⟩
    cases w with
    | null => cases htext
    | _ => cases hnull
  · split
    · rename_i hsame
      refine iff_of_true (answers_ok _) ?_
      rintro ⟨⟨m, rfl, -⟩, htext⟩
      cases w with
      | str t => cases hsame
      | _ => cases htext
    · split
      · rename_i htext
        rw [answers_sameNumber]
        have hother : (¬ Overflows v ∧ (Answers v.toBinary64 → ¬ Overflows w)) ↔ ¬ Overflows v :=
          and_iff_left fun _ => hliteral
        rw [hother]
        refine not_congr ⟨fun hlarge => ⟨hlarge, ?_⟩, And.left⟩
        obtain ⟨m, rfl, -⟩ := hlarge
        simpa [Value.str?] using htext
      · rename_i htext
        refine iff_of_true (answers_ok _) ?_
        rintro ⟨⟨m, rfl, -⟩, hstr⟩
        exact htext (by rw [hstr]; rfl)

/-! ## Conditions -/

/-- The text that a condition compares with: what follows its first `==`, or else its first `!=`. -/
def comparedText? (condition : String) : Option String :=
  ((afterMark? ['=', '='] condition.toList).or (afterMark? ['!', '='] condition.toList)).map String.ofList

theorem overflows_settle (c : Context) {v : Value} : Overflows (c.settle v) ↔ Overflows v := by
  cases v <;> simp [Overflows, Context.settle, Value.settle]

/-- A condition is evaluated if its first path leads somewhere, and not to an integer that is too large
to be compared with a text. -/
theorem answers_evaluate (c : Context) (condition : String) :
    Answers (evaluate c condition) ↔ ∀ path, (expressions condition).head? = some path →
      Answers (resolve c path) ∧
      ∀ v s, resolve c path = .ok v → comparedText? condition = some s → ¬ Incomparable v s := by
  cases hpaths : expressions condition with
  | nil =>
    rw [evaluate, hpaths]
    exact iff_of_true (answers_ok _) (by simp)
  | cons path more =>
    rw [evaluate, hpaths, List.head?_cons]
    simp only [Option.some.injEq, forall_eq']
    cases hv : resolve c path with
    | error f => exact iff_of_false (not_answers_error f) fun h => not_answers_error f h.1
    | ok v =>
      have hcompared (s : String) :
          Answers (looselyEqual (c.settle v) (literal s)) ↔ ¬ Incomparable v s := by
        rw [answers_looselyEqual, Incomparable, overflows_settle, Incomparable]
      rw [ok_bind, and_iff_right (answers_ok v), comparedText?]
      cases afterMark? ['=', '='] condition.toList with
      | some rest => simpa using hcompared (String.ofList rest)
      | none =>
        cases afterMark? ['!', '='] condition.toList with
        | some rest => simpa using answers_map.trans (hcompared (String.ofList rest))
        | none => exact iff_of_true (answers_ok _) (by simp)

/-! ## Templates as a whole -/

theorem looks_iff {paths : List String} : Looks c paths ↔ ∀ path ∈ paths, ¬ IsBroken c path :=
  forall₂_congr fun _ _ => resolve_answers_iff

/-- What comes of paths, templates and conditions, whatever their text and whatever the context holds. -/
structure Behaves (c : Context) : Prop where
  ends : ∀ path, (∃ w, Leads c path w) ∨ Misleads c path ∨ IsBroken c path
  /-- A path leads to what its segments address. -/
  leads : ∀ path w, Leads c path w → resolve c path = .ok w
  /-- A path with a segment that addresses nothing leads to `null`. -/
  misleads : ∀ path, Misleads c path → resolve c path = .ok .null
  /-- A path is a fault only where a segment looks like a position in a sequence and spells none. -/
  breaks : ∀ path, IsBroken c path → ∃ wording, resolve c path = .error (.badValue wording)
  resolves : ∀ path, Answers (resolve c path) ↔ ¬ IsBroken c path
  /-- A template is filled unless a path is broken or a value in a longer text cannot be written. -/
  fills : ∀ v, Answers (fill c v) ↔
    (∀ path ∈ references v, ¬ IsBroken c path) ∧ Shows c (embedded v)
  /-- Whether a template can be filled is found out unless a path is broken. -/
  finds : ∀ v, (∀ path ∈ references v, ¬ IsBroken c path) → Answers (isFillable c v)
  /-- A condition is evaluated unless its path is broken or its operands are incomparable. -/
  evaluates : ∀ condition, Answers (evaluate c condition) ↔
    ∀ path, (expressions condition).head? = some path → ¬ IsBroken c path ∧
      ∀ v s, resolve c path = .ok v → comparedText? condition = some s → ¬ Incomparable v s
  /-- Operands are found equal if they are the same, or a text and the number that it spells. -/
  compares : ∀ v w b, looselyEqual v w = .ok b → (b = true ↔ LooselyEqual v w)

theorem behaves (c : Context) : Behaves c where
  ends path := walk_cases c.logs (origin c path).1 (origin c path).2
  leads _ _ := resolve_of_leads
  misleads _ := resolve_of_misleads
  breaks _ := resolve_of_isBroken
  resolves _ := resolve_answers_iff
  fills v := (answers_fill c v).trans (and_congr_left' looks_iff)
  finds _ h := answers_isFillable (looks_iff.2 h)
  evaluates condition := by
    refine (answers_evaluate c condition).trans (forall₂_congr fun path _ => and_congr_left' ?_)
    exact resolve_answers_iff
  compares _ _ _ := looselyEqual_iff

/-- A context with a list under `xs`, and an integer with too many digits under `m`. -/
def crowded : Context where
  bindings := [(.str "xs", .list [.int 1, .int 2]), (.str "m", .int unspellableBound)]

/-- A second sign and a superscript are no part of a position. An integer can be too large to be compared
with a text, and to be written. -/
theorem not_always_answers :
    ¬ Answers (resolve crowded "xs.--1") ∧ ¬ Answers (resolve crowded "xs.²") ∧
      ¬ Answers (evaluate crowded "\x7b\x7bm\x7d\x7d == abc") ∧
      ¬ Answers (fill crowded (.str "\x7b\x7bm\x7d\x7d.")) := by
  decide +kernel

end Template

end Stepwise
