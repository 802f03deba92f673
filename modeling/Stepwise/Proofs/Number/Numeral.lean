-- SUMMARY: Numerals as they are read: signs and digits of any script, and the decimal text of an integer.
import Mathlib.Data.List.TakeWhile
import Stepwise.Number.Numeral
import Stepwise.Proofs.Number.Rounding

/-!
# Reading numerals

A run of decimal digits is read as a whole, up to what cannot go on with it. So an integer is
read from a sign at most and decimal digits, not too many; a text that has further signs or
other digit characters spells none. The decimal text of an integer is read as a binary64
number too, and then as the nearest one.
-/

namespace Stepwise

/-! ## Classes of characters -/

namespace Text

/-- Ranges that do not meet have no code point in common. -/
theorem inRanges_disjoint {r r' : List (Nat × Nat)}
    (h : ∀ a ∈ r, ∀ b ∈ r', a.2 < b.1 ∨ b.2 < a.1) {code : Nat} (hcode : inRanges r code = true) :
    inRanges r' code = false := by
  rw [← Bool.not_eq_true]
  intro hcode'
  obtain ⟨a, ha, hin⟩ := List.any_eq_true.1 hcode
  obtain ⟨b, hb, hin'⟩ := List.any_eq_true.1 hcode'
  simp only [Bool.and_eq_true, decide_eq_true_eq] at hin hin'
  rcases h a ha b hb with hlt | hlt <;> omega

theorem isSome_decimalValue? (c : Char) :
    (decimalValue? c).isSome = inRanges decimalRanges c.toNat := by
  rw [decimalValue?, Option.isSome_map, List.isSome_find?, inRanges]

/-- No digit separates words. -/
theorem isBlank_of_isDigit {c : Char} (h : isDigit c = true) : isBlank c = false := by
  rw [isDigit, Bool.or_eq_true, isSome_decimalValue?] at h
  rcases h with h | h
  · exact inRanges_disjoint (by decide +kernel) h
  · exact inRanges_disjoint (by decide +kernel) h

/-- The ASCII digits have the values that their places give them. -/
theorem decimalValue?_of_isDigit {c : Char} (h : c.isDigit = true) :
    decimalValue? c = some (c.toNat - '0'.toNat) := by
  have hbounds : 48 ≤ c.toNat ∧ c.toNat ≤ 57 := by
    simpa [Char.isDigit, UInt32.le_iff_toNat_le] using h
  have hzero : '0'.toNat = 48 := rfl
  simp only [decimalValue?, decimalRanges, List.find?_cons, hbounds.1, hbounds.2, decide_true,
    Bool.and_self, Option.map_some, hzero, Option.some.injEq]
  omega

theorem dropWhile_of_forall {p : Char → Bool} {cs : List Char} (h : ∀ c ∈ cs, p c = false) :
    cs.dropWhile p = cs := by
  rw [List.dropWhile_eq_self_iff]
  intro hpos
  simp [h _ (List.getElem_mem hpos)]

theorem trim_of_forall {cs : List Char} (h : ∀ c ∈ cs, isBlank c = false) : trim cs = cs := by
  have hreverse : ∀ c ∈ cs.reverse, isBlank c = false := fun c hc => h c (List.mem_reverse.1 hc)
  rw [trim, trimLeft, trimLeft, dropWhile_of_forall h, dropWhile_of_forall hreverse, List.reverse_reverse]

/-- A text that neither begins nor ends with a blank is kept. -/
theorem trim_of_ends {first last : Char} (hfirst : isBlank first = false) (hlast : isBlank last = false)
    (cs : List Char) : trim (first :: cs ++ [last]) = first :: cs ++ [last] := by
  have hfront : trimLeft (first :: cs ++ [last]) = first :: cs ++ [last] := by
    simp [trimLeft, hfirst]
  have hback : trimLeft (first :: cs ++ [last]).reverse = (first :: cs ++ [last]).reverse := by
    simp [trimLeft, hlast]
  rw [trim, hfront, hback, List.reverse_reverse]

theorem mem_dropWhile {p : Char → Bool} {c : Char} {cs : List Char} (hc : p c = false) (h : c ∈ cs) :
    c ∈ cs.dropWhile p := by
  have hwhole : c ∈ cs.takeWhile p ++ cs.dropWhile p := by rwa [List.takeWhile_append_dropWhile]
  rcases List.mem_append.1 hwhole with hmem | hmem
  · exact absurd (List.mem_takeWhile_imp hmem) (by simp [hc])
  · exact hmem

/-- Only blanks are cut off. -/
theorem mem_strip {s : String} {c : Char} (hc : isBlank c = false) (h : c ∈ s.toList) :
    c ∈ (strip s).toList := by
  rw [strip, String.toList_ofList, trim, List.mem_reverse]
  exact mem_dropWhile hc (List.mem_reverse.2 (mem_dropWhile hc h))

/-- Blanks before a text are cut off. -/
theorem strip_blank_append (s : String) : strip (" " ++ s) = strip s := by
  have hblank : isBlank ' ' = true := by decide
  have hcons : (" " ++ s).toList = ' ' :: s.toList := by simp
  have hfront : trimLeft (' ' :: s.toList) = trimLeft s.toList := List.dropWhile_cons_of_pos hblank
  rw [strip, strip, hcons, trim, hfront, trim]

end Text

namespace Numeral

theorem isMargin_of_not_isBlank {c : Char} (h : Text.isBlank c = false) : isMargin c = false := by
  simp [isMargin, h]

theorem trimMargin_of_forall {cs : List Char} (h : ∀ c ∈ cs, Text.isBlank c = false) :
    trimMargin cs = cs := by
  have hfront : ∀ c ∈ cs, isMargin c = false := fun c hc => isMargin_of_not_isBlank (h c hc)
  have hback : ∀ c ∈ cs.reverse, isMargin c = false := fun c hc => hfront c (List.mem_reverse.1 hc)
  rw [trimMargin, Text.dropWhile_of_forall hfront, Text.dropWhile_of_forall hback, List.reverse_reverse]

/-! ## Digits -/

def AllDecimal (cs : List Char) : Prop := ∀ c ∈ cs, (Text.decimalValue? c).isSome = true

def values (cs : List Char) : List Nat := cs.filterMap Text.decimalValue?

/-- The text does not go on with a numeral. -/
def Ends (rest : List Char) : Prop := ∀ c ∈ rest.head?, Text.decimalValue? c = none ∧ c ≠ '_'

theorem length_values {cs : List Char} (h : AllDecimal cs) : (values cs).length = cs.length :=
  List.filterMap_length_eq_length.2 h

/-- Decimal digits are taken as far as they go. -/
theorem takeDigits_append {cs rest : List Char} (h : AllDecimal cs) (hrest : Ends rest) (joined : Bool) :
    takeDigits joined (cs ++ rest) = (values cs, rest) := by
  induction cs generalizing joined with
  | nil =>
    cases rest with
    | nil => rfl
    | cons c rest =>
      obtain ⟨hnone, hne⟩ := hrest c rfl
      simp [takeDigits, hnone, hne, values]
  | cons c cs ih =>
    obtain ⟨hc, hcs⟩ := List.forall_mem_cons.1 h
    obtain ⟨d, hd⟩ := Option.isSome_iff_exists.1 hc
    simp only [List.cons_append, takeDigits, hd, ih hcs, values, List.filterMap_cons]

theorem takeDigits_of_allDecimal {cs : List Char} (h : AllDecimal cs) (joined : Bool) :
    takeDigits joined cs = (values cs, []) := by
  have hends : Ends [] := nofun
  have htaken := takeDigits_append h hends joined
  rwa [List.append_nil] at htaken

/-- Decimal text is a run of decimal digits. -/
theorem allDecimal_toDigits (k : Nat) : AllDecimal (Nat.toDigits 10 k) := by
  intro c hc
  have hdigit := Nat.isDigit_of_mem_toDigits (by decide) (by decide) hc
  rw [Text.decimalValue?_of_isDigit hdigit]
  rfl

theorem values_of_isDigit {cs : List Char} (h : ∀ c ∈ cs, c.isDigit = true) :
    values cs = cs.map fun c => c.toNat - '0'.toNat := by
  induction cs with
  | nil => rfl
  | cons c cs ih =>
    obtain ⟨hc, hcs⟩ := List.forall_mem_cons.1 h
    have hcs := ih hcs
    simp only [values, List.filterMap_cons, Text.decimalValue?_of_isDigit hc] at hcs ⊢
    rw [hcs, List.map_cons]

/-- The digits of a number spell it. -/
theorem ofDigits_values_toDigits (k : Nat) : ofDigits (values (Nat.toDigits 10 k)) = k := by
  have hdigits : ∀ c ∈ Nat.toDigits 10 k, c.isDigit = true := fun c hc =>
    Nat.isDigit_of_mem_toDigits (by decide) (by decide) hc
  rw [values_of_isDigit hdigits, ofDigits, List.foldl_map]
  exact Nat.ofDigitChars_eq_foldl.symm.trans Nat.ofDigitChars_ten_toDigits

/-! ## Integers -/

/-- A sign is taken off a text that begins with no other. -/
theorem toInt_eq {s : String} {negative : Bool} {body : List Char}
    (hblank : ∀ c ∈ s.toList, Text.isBlank c = false) (hsign : takeSign s.toList = (negative, body)) :
    toInt s =
      if (takeDigits false body).1.isEmpty || (takeDigits false body).2.head? == some '_' then
        .error (notInteger s)
      else if maxDigits < (takeDigits false body).1.length then
        .error (tooManyDigits (takeDigits false body).1.length)
      else if (takeDigits false body).2.isEmpty then
        .ok (if negative then -(ofDigits (takeDigits false body).1 : Int)
          else ofDigits (takeDigits false body).1)
      else .error (notInteger s) := by
  rw [toInt, trimMargin_of_forall hblank, hsign]

/-- Decimal digits spell an integer, unless there are too many. -/
theorem toInt_of_allDecimal {s : String} {negative : Bool} {cs : List Char}
    (hblank : ∀ c ∈ s.toList, Text.isBlank c = false) (hsign : takeSign s.toList = (negative, cs))
    (h : AllDecimal cs) (hne : cs ≠ []) :
    toInt s = if maxDigits < cs.length then .error (tooManyDigits cs.length)
      else .ok (if negative then -(ofDigits (values cs) : Int) else ofDigits (values cs)) := by
  have hvalues : values cs ≠ [] := by
    rw [ne_eq, ← List.length_eq_zero_iff, length_values h, List.length_eq_zero_iff]
    exact hne
  rw [toInt_eq hblank hsign, takeDigits_of_allDecimal h]
  simp [hvalues, length_values h]

/-- A text in which digits do not go on to the end spells no integer. -/
theorem toInt_of_rest {s : String} {negative : Bool} {body : List Char}
    (hblank : ∀ c ∈ s.toList, Text.isBlank c = false) (hsign : takeSign s.toList = (negative, body))
    (hrest : (takeDigits false body).2 ≠ []) : ∃ wording, toInt s = .error (.badValue wording) := by
  rw [toInt_eq hblank hsign]
  split
  · exact ⟨_, rfl⟩
  · split
    · exact ⟨_, rfl⟩
    · rw [if_neg (mt List.isEmpty_iff.1 hrest)]
      exact ⟨_, rfl⟩

/-! ## Texts that spell no number -/

theorem mem_takeDigits {c : Char} (hdigit : Text.decimalValue? c = none) (hjoin : c ≠ '_') {cs : List Char}
    (h : c ∈ cs) (joined : Bool) : c ∈ (takeDigits joined cs).2 := by
  induction cs generalizing joined with
  | nil => exact h
  | cons d cs ih =>
    have hrest {x : Nat} (hd : Text.decimalValue? d = some x) : c ∈ cs := by
      rcases List.mem_cons.1 h with rfl | hmem
      · rw [hdigit] at hd
        cases hd
      · exact hmem
    rw [takeDigits]
    split
    · rename_i hd
      exact ih (hrest hd) true
    · split
      · rename_i hskip
        have hjoined := (Bool.and_eq_true_iff.1 hskip).1
        have hunderscore : d = '_' := by simpa using (Bool.and_eq_true_iff.1 hjoined).2
        exact ih ((List.mem_cons.1 h).resolve_left fun heq => hjoin (heq.trans hunderscore)) false
      · exact h

theorem mem_takeSign {c : Char} (hminus : c ≠ '-') (hplus : c ≠ '+') {cs : List Char} (h : c ∈ cs) :
    c ∈ (takeSign cs).2 := by
  unfold takeSign
  split
  · exact (List.mem_cons.1 h).resolve_left hminus
  · exact (List.mem_cons.1 h).resolve_left hplus
  · exact h

theorem decimalValue?_brace : Text.decimalValue? '\x7d' = none := by decide +kernel

theorem readExponent?_of_brace {cs : List Char} (h : '\x7d' ∈ cs) : readExponent? cs = none := by
  cases cs with
  | nil => cases h
  | cons c rest =>
    rw [readExponent?]
    split
    · rename_i hletter
      have hrest : '\x7d' ∈ rest := (List.mem_cons.1 h).resolve_left fun heq => by
        rw [← heq] at hletter
        exact absurd hletter (by decide)
      have htail := mem_takeDigits decimalValue?_brace (by decide)
        (mem_takeSign (by decide) (by decide) hrest) false
      split
      · rename_i hsign
        split
        · rfl
        · rename_i hdigits
          rw [hsign, hdigits] at htail
          cases htail
        · rfl
    · rfl

/-- The number with digits before and behind the point, and with the power of ten that follows them. -/
def spelled? (negative : Bool) (whole fraction : List Nat) (tail : List Char) : Option Binary64 :=
  if whole.isEmpty && fraction.isEmpty then none
  else (readExponent? tail).map fun e =>
    .ofScientific negative (ofDigits (whole ++ fraction)) (e - fraction.length)

/-- Only digits and a point are read before the power of ten, and no brace. -/
theorem readDecimal?_eq_spelled? (negative : Bool) (cs : List Char) :
    ∃ whole fraction tail, readDecimal? negative cs = spelled? negative whole fraction tail ∧
      ('\x7d' ∈ cs → '\x7d' ∈ tail) := by
  have hrest (h : '\x7d' ∈ cs) := mem_takeDigits decimalValue?_brace (by decide) h false
  simp only [readDecimal?]
  split
  · rename_i more hmore
    refine ⟨_, (takeDigits false more).1, (takeDigits false more).2, rfl, fun h => ?_⟩
    have hmem := hrest h
    rw [hmore] at hmem
    have hmem := (List.mem_cons.1 hmem).resolve_left (by decide)
    exact mem_takeDigits decimalValue?_brace (by decide) hmem false
  · exact ⟨_, [], (takeDigits false cs).2, rfl, hrest⟩

theorem readDecimal?_of_brace {negative : Bool} {cs : List Char} (h : '\x7d' ∈ cs) :
    readDecimal? negative cs = none := by
  obtain ⟨whole, fraction, tail, hspelled, htail⟩ := readDecimal?_eq_spelled? negative cs
  rw [hspelled, spelled?, readExponent?_of_brace (htail h)]
  split <;> rfl

/-- No numeral holds a brace. -/
theorem readNumber?_of_brace {s : String} (h : '\x7d' ∈ s.toList) : readNumber? s = none := by
  have hmargin : isMargin '\x7d' = false := by decide
  have htrim : '\x7d' ∈ trimMargin s.toList := by
    rw [trimMargin, List.mem_reverse]
    exact Text.mem_dropWhile hmargin (List.mem_reverse.2 (Text.mem_dropWhile hmargin h))
  have hbody := mem_takeSign (by decide) (by decide) htrim
  have hname (name : String) (hname : '\x7d' ∉ name.toList) :
      String.ofList ((takeSign (trimMargin s.toList)).2.map asciiLower) ≠ name := by
    rintro rfl
    refine hname ?_
    rw [String.toList_ofList]
    exact List.mem_map.2 ⟨_, hbody, by decide⟩
  simp only [readNumber?]
  rw [if_neg (not_or.2 ⟨hname "inf" (by decide), hname "infinity" (by decide)⟩),
    if_neg (hname "nan" (by decide)), readDecimal?_of_brace hbody]

/-! ## The decimal text of an integer -/

/-- A number that is known by its size to be beyond the format would be rounded to infinity as well. -/
theorem ofScientific_zero (negative : Bool) (k : Nat) :
    Binary64.ofScientific negative k 0 = Binary64.ofRatio negative k 1 := by
  by_cases hk : k = 0
  · simp [Binary64.ofScientific, Binary64.ofRatio, hk]
  · simp only [Binary64.ofScientific, if_neg hk, Int.zero_add]
    split
    · rename_i hsize
      have hlog : 1024 ≤ Nat.log2 k := by omega
      have hlarge : 2 ^ 1024 ≤ Binary64.rounded k :=
        Binary64.pow_le_rounded hk hlog
      exact ((Binary64.ofRatio_one negative k).2 hlarge).symm
    · rw [if_neg (by omega), if_neg (by omega)]
      exact congrArg (Binary64.ofRatio negative · 1) (Nat.mul_one k)

/-- Digits are not the name of a number. -/
theorem asciiLower_ne_of_isDigit {c : Char} {cs : List Char} {name : String} (hc : c.isDigit = true)
    (hname : name.toList.head?.any Char.isDigit = false) :
    String.ofList ((c :: cs).map asciiLower) ≠ name := by
  have hbounds : 48 ≤ c.toNat ∧ c.toNat ≤ 57 := by
    simpa [Char.isDigit, UInt32.le_iff_toNat_le] using hc
  have hsame : asciiLower c = c := by
    refine if_neg fun hletter => ?_
    have hle : 'A'.toNat ≤ c.toNat := hletter.1
    have hA : 'A'.toNat = 65 := rfl
    omega
  rintro rfl
  simp [hsame, hc] at hname

/-- Decimal digits are read as the nearest binary64 number, under any sign. -/
theorem readDecimal?_toDigits (negative : Bool) (k : Nat) :
    readDecimal? negative (Nat.toDigits 10 k) = some (Binary64.ofRatio negative k 1) := by
  have hvalues : values (Nat.toDigits 10 k) ≠ [] := by
    rw [ne_eq, ← List.length_eq_zero_iff, length_values (allDecimal_toDigits k), List.length_eq_zero_iff]
    exact Nat.toDigits_ne_nil
  rw [readDecimal?, takeDigits_of_allDecimal (allDecimal_toDigits k)]
  simp [hvalues, readExponent?, ofDigits_values_toDigits, ofScientific_zero]

theorem toList_intText (n : Int) :
    (Binary64.intText n).toList
      = if n < 0 then '-' :: Nat.toDigits 10 n.natAbs else Nat.toDigits 10 n.natAbs := by
  unfold Binary64.intText Binary64.natText
  split <;> simp

/-- The decimal text of an integer consists of digits, and a minus sign before them at most. -/
theorem isDigit_of_mem_intText {n : Int} {c : Char} (hc : c ∈ (Binary64.intText n).toList) :
    c = '-' ∨ c.isDigit = true := by
  have hdigit : c ∈ Nat.toDigits 10 n.natAbs → c.isDigit = true :=
    Nat.isDigit_of_mem_toDigits (by decide) (by decide)
  rw [toList_intText] at hc
  split at hc
  · rcases List.mem_cons.1 hc with rfl | hc
    · exact .inl rfl
    · exact .inr (hdigit hc)
  · exact .inr (hdigit hc)

theorem isBlank_of_mem_intText {n : Int} {c : Char} (hc : c ∈ (Binary64.intText n).toList) :
    Text.isBlank c = false := by
  rcases isDigit_of_mem_intText hc with rfl | hdigit
  · decide
  · refine Text.isBlank_of_isDigit ?_
    simp [Text.isDigit, Text.decimalValue?_of_isDigit hdigit]

/-- The decimal text of an integer is read as the nearest binary64 number. -/
theorem readNumber?_intText (n : Int) :
    readNumber? (Binary64.intText n) = some (Binary64.nearest n) := by
  obtain ⟨c, cs, hdigits⟩ := List.exists_cons_of_ne_nil (Nat.toDigits_ne_nil (n := n.natAbs) (b := 10))
  have hc : c.isDigit = true :=
    Nat.isDigit_of_mem_toDigits (by decide) (by decide) (hdigits ▸ List.mem_cons_self)
  have hsign : takeSign (trimMargin (Binary64.intText n).toList)
      = (decide (n < 0), Nat.toDigits 10 n.natAbs) := by
    rw [trimMargin_of_forall fun d hd => isBlank_of_mem_intText hd, toList_intText, hdigits]
    split
    · rename_i hneg
      simp [takeSign, hneg]
    · rename_i hpos
      have hminus : c ≠ '-' := by
        rintro rfl
        cases hc
      have hplus : c ≠ '+' := by
        rintro rfl
        cases hc
      simp [takeSign, hpos, hminus, hplus]
  have hname (name : String) (h : name.toList.head?.any Char.isDigit = false) :
      String.ofList ((Nat.toDigits 10 n.natAbs).map asciiLower) ≠ name :=
    hdigits ▸ asciiLower_ne_of_isDigit hc h
  rw [readNumber?, hsign]
  simp only [hname "inf" rfl, hname "infinity" rfl, hname "nan" rfl, or_self, if_false]
  exact readDecimal?_toDigits _ _

end Numeral

end Stepwise
