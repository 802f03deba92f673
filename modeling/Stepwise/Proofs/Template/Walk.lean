-- SUMMARY: Where a path leads: to what its segments address, to null if one addresses nothing, or to a fault.
import Stepwise.Proofs.Checks
import Stepwise.Proofs.Number.Numeral
import Stepwise.Template.Path

/-!
# Walking along a path

A segment addresses an entry of a dictionary by its key, and an item of a sequence by a position
that it spells. A path leads to what its segments address one after the other, and to `null` as
soon as one addresses nothing. There is one way to go wrong: a segment can look like a position
and spell none, because it has more than one sign, digit characters that are no decimal digits,
or too many digits. Where such a segment meets a sequence, the path is a fault.
-/

namespace Stepwise

namespace Template

open Numeral (AllDecimal values ofDigits maxDigits)

/-! ## Positions -/

/-- The segment consists of minus signs and digit characters behind them. -/
def SignsAndDigits (segment : String) (minuses : Nat) (digits : List Char) : Prop :=
  segment.toList = List.replicate minuses '-' ++ digits ∧ digits ≠ [] ∧ ∀ d ∈ digits, Text.isDigit d = true

/-- The segment spells a position: one minus sign at most and decimal digits, not too many. -/
def SpellsPosition (segment : String) (position : Int) : Prop :=
  ∃ minuses digits, SignsAndDigits segment minuses digits ∧ minuses ≤ 1 ∧ AllDecimal digits ∧
    digits.length ≤ maxDigits ∧
    position = if minuses = 1 then -(ofDigits (values digits) : Int) else ofDigits (values digits)

/-- The segment looks like a position and spells none. -/
def Misreads (segment : String) : Prop :=
  ∃ minuses digits, SignsAndDigits segment minuses digits ∧
    (1 < minuses ∨ ¬ AllDecimal digits ∨ maxDigits < digits.length)

theorem isDigit_minus : Text.isDigit '-' = false := by decide +kernel

theorem isDigit_plus : Text.isDigit '+' = false := by decide +kernel

theorem isDigit_underscore : Text.isDigit '_' = false := by decide +kernel

theorem ne_of_isDigit {d ch : Char} (hd : Text.isDigit d = true) (hch : Text.isDigit ch = false) :
    d ≠ ch := by
  rintro rfl
  rw [hch] at hd
  cases hd

theorem isPosition_iff {segment : String} :
    isPosition segment = true ↔ ∃ minuses digits, SignsAndDigits segment minuses digits := by
  simp only [isPosition, Bool.and_eq_true, Bool.not_eq_true', List.isEmpty_eq_false_iff, List.all_eq_true]
  constructor
  · rintro ⟨hne, hdigits⟩
    have hsigns : segment.toList.takeWhile (· == '-')
        = List.replicate (segment.toList.takeWhile (· == '-')).length '-' :=
      List.eq_replicate_of_mem fun ch hch => by simpa using List.mem_takeWhile_imp hch
    refine ⟨(segment.toList.takeWhile (· == '-')).length, _, ?_, hne, hdigits⟩
    rw [← hsigns, List.takeWhile_append_dropWhile]
  · rintro ⟨minuses, digits, hsegment, hne, hdigits⟩
    have hdrop : segment.toList.dropWhile (· == '-') = digits := by
      rw [hsegment, List.dropWhile_append_of_pos (by simp), List.dropWhile_eq_self_iff]
      intro hpos hminus
      exact ne_of_isDigit (hdigits _ (List.getElem_mem hpos)) isDigit_minus (eq_of_beq hminus)
    rw [hdrop]
    exact ⟨hne, hdigits⟩

/-- What looks like a position spells one, or is misread. -/
theorem spells_or_misreads {segment : String} (h : isPosition segment = true) :
    (∃ position, SpellsPosition segment position) ∨ Misreads segment := by
  obtain ⟨minuses, digits, hsegment⟩ := isPosition_iff.1 h
  by_cases hgood : minuses ≤ 1 ∧ AllDecimal digits ∧ digits.length ≤ maxDigits
  · exact .inl ⟨_, minuses, digits, hsegment, hgood.1, hgood.2.1, hgood.2.2, rfl⟩
  · refine .inr ⟨minuses, digits, hsegment, ?_⟩
    by_contra hnot
    simp only [not_or, not_not, Nat.not_lt] at hnot
    exact hgood hnot

namespace SignsAndDigits

variable {segment : String} {minuses : Nat} {digits : List Char}

theorem isBlank_of_mem (h : SignsAndDigits segment minuses digits) :
    ∀ ch ∈ segment.toList, Text.isBlank ch = false := by
  intro ch hch
  rw [h.1, List.mem_append] at hch
  rcases hch with hsign | hdigit
  · rw [List.eq_of_mem_replicate hsign]
    decide
  · exact Text.isBlank_of_isDigit (h.2.2 ch hdigit)

/-- The first minus sign is the sign of the numeral, and the others stand before its digits. -/
theorem takeSign (h : SignsAndDigits segment minuses digits) :
    Numeral.takeSign segment.toList
      = (decide (0 < minuses), List.replicate (minuses - 1) '-' ++ digits) := by
  obtain ⟨hsegment, hne, hdigits⟩ := h
  cases minuses with
  | succ k => simp [hsegment, List.replicate_succ, Numeral.takeSign]
  | zero =>
    obtain ⟨d, ds, rfl⟩ := List.exists_cons_of_ne_nil hne
    have hd := hdigits d List.mem_cons_self
    have hminus : d ≠ '-' := ne_of_isDigit hd isDigit_minus
    have hplus : d ≠ '+' := ne_of_isDigit hd isDigit_plus
    simp [hsegment, Numeral.takeSign, hminus, hplus]

/-- Further signs, and digit characters that are no decimal digits, are left over when digits are read. -/
theorem takeDigits_ne_nil (h : SignsAndDigits segment minuses digits)
    (hbad : 1 < minuses ∨ ¬ AllDecimal digits) :
    (Numeral.takeDigits false (List.replicate (minuses - 1) '-' ++ digits)).2 ≠ [] := by
  obtain ⟨ch, hmem, hnone, hjoin⟩ : ∃ ch ∈ List.replicate (minuses - 1) '-' ++ digits,
      Text.decimalValue? ch = none ∧ ch ≠ '_' := by
    rcases hbad with hsigns | hdigit
    · refine ⟨'-', List.mem_append_left _ (List.mem_replicate.2 ⟨by omega, rfl⟩), ?_, by decide⟩
      decide +kernel
    · simp only [AllDecimal, not_forall, Bool.not_eq_true, Option.isSome_eq_false_iff,
        Option.isNone_iff_eq_none] at hdigit
      obtain ⟨ch, hch, hnone⟩ := hdigit
      exact ⟨ch, List.mem_append_right _ hch, hnone, ne_of_isDigit (h.2.2 ch hch) isDigit_underscore⟩
  exact List.ne_nil_of_mem (Numeral.mem_takeDigits hnone hjoin hmem false)

/-- One sign at most and decimal digits are read, unless the digits are too many. -/
theorem toInt (h : SignsAndDigits segment minuses digits) (hsigns : minuses ≤ 1)
    (hdecimal : AllDecimal digits) :
    Numeral.toInt segment =
      if maxDigits < digits.length then .error (Numeral.tooManyDigits digits.length)
      else .ok (if minuses = 1 then -(ofDigits (values digits) : Int) else ofDigits (values digits)) := by
  have hnone : minuses - 1 = 0 := by omega
  have hbool : decide (0 < minuses) = decide (minuses = 1) := decide_eq_decide.2 (by omega)
  have hsign := h.takeSign
  rw [hnone, List.replicate_zero, List.nil_append, hbool] at hsign
  rw [Numeral.toInt_of_allDecimal h.isBlank_of_mem hsign hdecimal h.2.1]
  simp only [decide_eq_true_eq]

end SignsAndDigits

/-- A segment that spells a position is read as it. -/
theorem toInt_of_spells {segment : String} {position : Int} (h : SpellsPosition segment position) :
    Numeral.toInt segment = .ok position := by
  obtain ⟨minuses, digits, hsegment, hsigns, hdecimal, hlength, rfl⟩ := h
  rw [hsegment.toInt hsigns hdecimal, if_neg (Nat.not_lt.2 hlength)]

/-- A segment that is misread is a fault. -/
theorem toInt_of_misreads {segment : String} (h : Misreads segment) :
    ∃ wording, Numeral.toInt segment = .error (.badValue wording) := by
  obtain ⟨minuses, digits, hsegment, hbad⟩ := h
  by_cases hrest : 1 < minuses ∨ ¬ AllDecimal digits
  · exact Numeral.toInt_of_rest hsegment.isBlank_of_mem hsegment.takeSign (hsegment.takeDigits_ne_nil hrest)
  · have hlong : maxDigits < digits.length := (or_assoc.2 hbad).resolve_left hrest
    simp only [not_or, not_not, Nat.not_lt] at hrest
    rw [hsegment.toInt hrest.1 hrest.2, if_pos hlong]
    exact ⟨_, rfl⟩

theorem isPosition_of_spells {segment : String} {position : Int} (h : SpellsPosition segment position) :
    isPosition segment = true := by
  obtain ⟨minuses, digits, hsegment, -⟩ := h
  exact isPosition_iff.2 ⟨minuses, digits, hsegment⟩

theorem isPosition_of_misreads {segment : String} (h : Misreads segment) : isPosition segment = true := by
  obtain ⟨minuses, digits, hsegment, -⟩ := h
  exact isPosition_iff.2 ⟨minuses, digits, hsegment⟩

/-! ## Segments -/

/-- The items of a sequence; the log of the run is one. -/
def sequence? (log : List Value) : Value → Option (List Value)
  | .list items | .tuple items => some items
  | .runLog => some log
  | _ => none

/-- The position lies in the sequence and holds the value; negative ones count from the end. -/
def Holds (items : List Value) (position : Int) (w : Value) : Prop :=
  (0 ≤ position ∧ items[position.toNat]? = some w) ∨
    (position < 0 ∧ 0 ≤ position + items.length ∧ items[(position + items.length).toNat]? = some w)

/-- The segment addresses the second value in the first: by its key, or by the position it spells. -/
inductive Addresses (log : List Value) : Value → String → Value → Prop
  | key {entries : Dict} {segment : String} {w : Value} :
    Dict.field? entries segment = some w → Addresses log (.dict entries) segment w
  | item {v : Value} {items : List Value} {segment : String} {position : Int} {w : Value} :
    sequence? log v = some items → SpellsPosition segment position → Holds items position w →
    Addresses log v segment w

/-- The segment looks like a position in a sequence, and spells none. -/
def Breaks (log : List Value) (v : Value) (segment : String) : Prop :=
  (sequence? log v).isSome = true ∧ Misreads segment

def Misses (log : List Value) (v : Value) (segment : String) : Prop :=
  ¬ Breaks log v segment ∧ ∀ w, ¬ Addresses log v segment w

theorem itemAt?_eq_some {items : List Value} {position : Int} {w : Value} :
    itemAt? items position = some w ↔ Holds items position w := by
  unfold itemAt? Holds
  by_cases hneg : position < 0
  · by_cases hin : position + items.length < 0
    · simp [hneg, hin]
    · simp [hneg, hin, Int.not_lt.1 hin]
  · simp [hneg, Int.not_lt.1 hneg]

variable {log : List Value} {v w : Value} {segment : String}

theorem child_of_sequence {items : List Value} (h : sequence? log v = some items) (segment : String) :
    child log v segment = itemAtSegment items segment := by
  cases v with
  | list vs | tuple vs | runLog =>
    obtain rfl := Option.some.inj h
    rfl
  | _ => cases h

theorem itemAtSegment_of_spells {items : List Value} {position : Int}
    (h : SpellsPosition segment position) :
    itemAtSegment items segment = .ok ((itemAt? items position).getD .null) := by
  rw [itemAtSegment, if_pos (isPosition_of_spells h), toInt_of_spells h]
  rfl

theorem child_of_addresses (h : Addresses log v segment w) : child log v segment = .ok w := by
  cases h with
  | key hfield => rw [child, hfield, Option.getD_some]
  | item hitems hspells hholds =>
    rw [child_of_sequence hitems, itemAtSegment_of_spells hspells, itemAt?_eq_some.2 hholds,
      Option.getD_some]

theorem child_of_breaks (h : Breaks log v segment) :
    ∃ wording, child log v segment = .error (.badValue wording) := by
  obtain ⟨hsequence, hbad⟩ := h
  obtain ⟨items, hitems⟩ := Option.isSome_iff_exists.1 hsequence
  obtain ⟨wording, hwording⟩ := toInt_of_misreads hbad
  refine ⟨wording, ?_⟩
  rw [child_of_sequence hitems, itemAtSegment, if_pos (isPosition_of_misreads hbad), hwording]
  rfl

theorem child_of_misses (h : Misses log v segment) : child log v segment = .ok .null := by
  obtain ⟨hwhole, hnot⟩ := h
  cases hsequence : sequence? log v with
  | some items =>
    rw [child_of_sequence hsequence]
    cases hform : isPosition segment with
    | false => rw [itemAtSegment, hform, if_neg Bool.false_ne_true]
    | true =>
      obtain ⟨position, hspells⟩ | hbad := spells_or_misreads hform
      · rw [itemAtSegment_of_spells hspells]
        cases hitem : itemAt? items position with
        | none => rfl
        | some w => exact absurd (.item hsequence hspells (itemAt?_eq_some.1 hitem)) (hnot w)
      · exact absurd ⟨by rw [hsequence]; rfl, hbad⟩ hwhole
  | none =>
    cases v with
    | dict entries =>
      cases hfield : Dict.field? entries segment with
      | none => rw [child, hfield, Option.getD_none]
      | some w => exact absurd (.key hfield) (hnot w)
    | list vs | tuple vs | runLog => cases hsequence
    | _ => rfl

/-- A segment addresses a value, or nothing, or it is a fault. -/
theorem addresses_cases (log : List Value) (v : Value) (segment : String) :
    (∃ w, Addresses log v segment w) ∨ Misses log v segment ∨ Breaks log v segment := by
  by_cases hsome : ∃ w, Addresses log v segment w
  · exact .inl hsome
  · by_cases hbreaks : Breaks log v segment
    · exact .inr (.inr hbreaks)
    · exact .inr (.inl ⟨hbreaks, not_exists.1 hsome⟩)

/-! ## Walks -/

/-- The segments lead from the first value to the second, each into what the one before addresses. -/
inductive Reaches (log : List Value) : Value → List String → Value → Prop
  | here {v : Value} : Reaches log v [] v
  | into {v u w : Value} {segment : String} {rest : List String} :
    Addresses log v segment u → Reaches log u rest w → Reaches log v (segment :: rest) w

/-- The segments lead into a value in which the next one behaves as the relation says. -/
def Stops (stops : Value → String → Prop) (log : List Value) (v : Value) (parts : List String) : Prop :=
  ∃ before segment rest u, parts = before ++ segment :: rest ∧ Reaches log v before u ∧ stops u segment

variable {parts : List String}

theorem walk_of_reaches (h : Reaches log v parts w) : walk log v parts = .ok w := by
  induction h with
  | here => rfl
  | into haddresses _ ih => rw [walk, child_of_addresses haddresses, Checks.ok_bind, ih]

/-- What has been reached is where the walk goes on. -/
theorem walk_append (h : Reaches log v parts w) (rest : List String) :
    walk log v (parts ++ rest) = walk log w rest := by
  induction h with
  | here => rfl
  | into haddresses _ ih => rw [List.cons_append, walk, child_of_addresses haddresses, Checks.ok_bind, ih]

theorem walk_of_misses (h : Stops (Misses log) log v parts) : walk log v parts = .ok .null := by
  obtain ⟨before, segment, rest, u, rfl, hreaches, hmisses⟩ := h
  rw [walk_append hreaches, walk, child_of_misses hmisses, Checks.ok_bind, walk_null]

theorem walk_of_breaks (h : Stops (Breaks log) log v parts) :
    ∃ wording, walk log v parts = .error (.badValue wording) := by
  obtain ⟨before, segment, rest, u, rfl, hreaches, hbreaks⟩ := h
  obtain ⟨wording, hwording⟩ := child_of_breaks hbreaks
  refine ⟨wording, ?_⟩
  rw [walk_append hreaches, walk, hwording]
  rfl

theorem Stops.into {stops : Value → String → Prop} {u : Value} (haddresses : Addresses log v segment u)
    (h : Stops stops log u parts) : Stops stops log v (segment :: parts) := by
  obtain ⟨before, next, rest, w, rfl, hreaches, hstops⟩ := h
  exact ⟨segment :: before, next, rest, w, rfl, .into haddresses hreaches, hstops⟩

/-- A walk comes to its end, or stops at a segment that addresses nothing, or at one that is a fault. -/
theorem walk_cases (log : List Value) (v : Value) (parts : List String) :
    (∃ w, Reaches log v parts w) ∨ Stops (Misses log) log v parts ∨ Stops (Breaks log) log v parts := by
  induction parts generalizing v with
  | nil => exact .inl ⟨v, .here⟩
  | cons segment rest ih =>
    obtain ⟨u, haddresses⟩ | hmisses | hbreaks := addresses_cases log v segment
    · obtain ⟨w, hreaches⟩ | hstop | hstop := ih u
      · exact .inl ⟨w, .into haddresses hreaches⟩
      · exact .inr (.inl (hstop.into haddresses))
      · exact .inr (.inr (hstop.into haddresses))
    · exact .inr (.inl ⟨[], segment, rest, v, rfl, .here, hmisses⟩)
    · exact .inr (.inr ⟨[], segment, rest, v, rfl, .here, hbreaks⟩)

/-! ## Paths -/

/-- The value that a path starts from, and the segments that lead on from there. -/
def origin (c : Context) (path : String) : Value × List String :=
  match segments path with
  | "steps" :: name :: rest => (((c.resultOf? (.str name)).map (·.output)).getD .null, rest)
  | "input" :: rest => (c.inputs, rest)
  | first :: rest => if path = "logs" then (.runLog, []) else (c.bindings.field first, rest)
  | [] => (.null, [])

theorem resolve_eq_walk (c : Context) (path : String) :
    resolve c path = walk c.logs (origin c path).1 (origin c path).2 := by
  unfold resolve origin
  generalize segments path = parts
  split
  · rename_i name rest
    change _ = walk c.logs (((c.resultOf? (.str name)).map (·.output)).getD .null) rest
    cases c.resultOf? (.str name) with
    | none => exact (walk_null c.logs rest).symm
    | some r => rfl
  · rfl
  · by_cases hlogs : path = "logs"
    · simp only [if_pos hlogs]
      rfl
    · simp only [if_neg hlogs]
  · rfl

def Leads (c : Context) (path : String) (w : Value) : Prop :=
  Reaches c.logs (origin c path).1 (origin c path).2 w

/-- The path comes to a segment that addresses nothing. -/
def Misleads (c : Context) (path : String) : Prop :=
  Stops (Misses c.logs) c.logs (origin c path).1 (origin c path).2

/-- The path comes to a sequence with a segment that looks like a position and spells none. -/
def IsBroken (c : Context) (path : String) : Prop :=
  Stops (Breaks c.logs) c.logs (origin c path).1 (origin c path).2

variable {c : Context} {path : String}

theorem resolve_of_leads (h : Leads c path w) : resolve c path = .ok w :=
  (resolve_eq_walk c path).trans (walk_of_reaches h)

theorem resolve_of_misleads (h : Misleads c path) : resolve c path = .ok .null :=
  (resolve_eq_walk c path).trans (walk_of_misses h)

theorem resolve_of_isBroken (h : IsBroken c path) :
    ∃ wording, resolve c path = .error (.badValue wording) := by
  rw [resolve_eq_walk]
  exact walk_of_breaks h

/-- A path leads somewhere, if only to `null`, unless it is broken. -/
theorem resolve_answers_iff : (∃ v, resolve c path = .ok v) ↔ ¬ IsBroken c path := by
  constructor
  · rintro ⟨v, hv⟩ hbroken
    obtain ⟨wording, hwording⟩ := resolve_of_isBroken hbroken
    rw [hwording] at hv
    cases hv
  · intro hwhole
    obtain ⟨w, hreaches⟩ | hstop | hstop := walk_cases c.logs (origin c path).1 (origin c path).2
    · exact ⟨w, resolve_of_leads hreaches⟩
    · exact ⟨.null, resolve_of_misleads hstop⟩
    · exact absurd hstop hwhole

end Template

end Stepwise
