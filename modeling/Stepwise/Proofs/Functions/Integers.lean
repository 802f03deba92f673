-- SUMMARY: The built-in functions round the integers that they are given to binary64 numbers.
import Stepwise.Functions
import Stepwise.Proofs.Checks
import Stepwise.Proofs.Number.Addition
import Stepwise.Proofs.Number.Numeral

/-!
# Integers given to functions

The addition of numbers and the fetching of an object read their arguments as binary64 numbers,
whether an integer comes as such, as its decimal text or in a wrapper. Integers that need no
rounding are added exactly and stand for the object of their own number. Others are rounded, as is
the sum, and an object is asked for under the rounded number. What no finite number is near to is
infinite if it comes as a text and a fault otherwise.
-/

namespace Stepwise.Functions

open Binary64 (intText nearest nearestInt? IsExact StandsFor)
open Checks

variable {σ : Type} {v : Value} {n : Int}

/-! ## Arguments -/

/-- An integer, or its decimal text. -/
inductive Writes : Value → Int → Prop
  | int (n : Int) : Writes (.int n) n
  | text (n : Int) : Writes (.str (intText n)) n

/-- An argument that gives an integer, by itself or in a wrapper that holds it under `value`. -/
inductive Gives : Value → Int → Prop
  | plain {v : Value} {n : Int} : Writes v n → Gives v n
  | wrapped {d : Dict} {v : Value} {n : Int} :
    Dict.field? d "value" = some v → Writes v n → Gives (.dict d) n

/-- The argument is an integer, not its text, and no finite number is near to it. -/
def Overflows (v : Value) (n : Int) : Prop := unwrap v = .int n ∧ nearestInt? n = none

instance (v : Value) (n : Int) : Decidable (Overflows v n) := inferInstanceAs (Decidable (_ ∧ _))

theorem Writes.eq_or_eq (h : Writes v n) : v = .int n ∨ v = .str (intText n) := by
  cases h with
  | int => exact .inl rfl
  | text => exact .inr rfl

theorem Gives.unwrap (h : Gives v n) : unwrap v = .int n ∨ unwrap v = .str (intText n) := by
  cases h with
  | plain h =>
    obtain rfl | rfl := h.eq_or_eq
    · exact .inl rfl
    · exact .inr rfl
  | wrapped hvalue h =>
    rw [Functions.unwrap, hvalue, Option.getD_some]
    exact h.eq_or_eq

/-- An integer is read as the nearest number, unless it is beyond all of them. -/
theorem Gives.number? (h : Gives v n) :
    number? v = if Overflows v n then .error Value.tooLarge else .ok (some (nearest n)) := by
  rcases h.unwrap with hv | hv
  · cases hr : nearestInt? n with
    | none =>
      rw [if_pos ⟨hv, hr⟩, Functions.number?, hv]
      simp [Value.toBinary64, Binary64.ofInt?_eq, hr, Value.tooLarge, Fault.overflow]
    | some r =>
      have hnot : ¬ Overflows v n := by
        rintro ⟨-, hnone⟩
        rw [hr] at hnone
        cases hnone
      rw [if_neg hnot, Functions.number?, hv]
      simp [Value.toBinary64, Binary64.ofInt?_eq, hr]
  · have hnot : ¬ Overflows v n := by
      rintro ⟨hint, -⟩
      rw [hv] at hint
      cases hint
    rw [if_neg hnot, Functions.number?, hv]
    simp [Value.toBinary64, Numeral.readNumber?_intText]

/-! ## Reported numbers -/

/-- The number nearest to an integer, as it is reported. -/
def nearestValue (n : Int) : Value := numberValue (nearest n)

theorem numberValue_of_standsFor {x : Binary64} (h : x.StandsFor n) : numberValue x = .int n := by
  rw [numberValue, h.toInt?.1, h.toInt?.2]

theorem nearestValue_of_some {r : Int} (h : nearestInt? n = some r) : nearestValue n = .int r := by
  obtain ⟨r', hr', hstands⟩ | ⟨hr', -⟩ := Binary64.nearest_cases n
  · obtain rfl := Option.some.inj (h.symm.trans hr')
    exact numberValue_of_standsFor hstands
  · rw [h] at hr'
    cases hr'

theorem nearestValue_of_none (h : nearestInt? n = none) :
    nearestValue n = .float (.infinite (decide (n < 0))) := by
  obtain ⟨r', hr', -⟩ | ⟨-, hinfinite⟩ := Binary64.nearest_cases n
  · rw [h] at hr'
    cases hr'
  · rw [nearestValue, hinfinite]
    rfl

/-- The sum of two numbers that are integers is reported as the number nearest to the sum. -/
theorem numberValue_add {x y : Binary64} {r s : Int} (hx : x.StandsFor r) (hy : y.StandsFor s) :
    numberValue (x + y) = nearestValue (r + s) := by
  obtain hadd | ⟨hzero, hadd⟩ := hx.add_eq hy
  · rw [hadd, nearestValue]
  · have hnearest := Binary64.nearestInt?_of_isExact (Binary64.isExact_of_le (n := 0) (by decide))
    rw [numberValue_of_standsFor hadd, hzero, nearestValue_of_some hnearest]

/-! ## Addition -/

def additionReport (a b total : Value) : Value :=
  .record [("a", a), ("b", b), ("sum", total),
    ("operation", .str (a.text ++ " + " ++ b.text ++ " = " ++ total.text))]

theorem additionReport_inj {a b total a' b' total' : Value}
    (h : additionReport a b total = additionReport a' b' total') : a = a' ∧ b = b' ∧ total = total' := by
  simp only [additionReport, Value.record, Dict.ofFields, List.map_cons, Value.dict.injEq, List.cons.injEq,
    Prod.mk.injEq, true_and] at h
  exact ⟨h.1, h.2.1, h.2.2.1⟩

theorem isNan_nearest (n : Int) : (nearest n).isNan = false := by
  obtain ⟨r, -, hstands⟩ | ⟨-, hinfinite⟩ := Binary64.nearest_cases n
  · cases hx : nearest n with
    | nan mark =>
      rw [hx] at hstands
      cases hstands
    | _ => rfl
  · rw [hinfinite]
    rfl

theorem addition_of_gives {d : Dict} {a b : Int} (ha : Gives (d.field "a") a)
    (hb : Gives (d.field "b") b) :
    addition (.dict d)
      = if Overflows (d.field "a") a ∨ Overflows (d.field "b") b then .error Value.tooLarge
        else .ok (success (additionReport (nearestValue a) (nearestValue b)
          (numberValue (nearest a + nearest b)))) := by
  rw [addition, Value.toRecord, ok_bind, ha.number?, hb.number?]
  by_cases hover : Overflows (d.field "a") a
  · have hany : Overflows (d.field "a") a ∨ Overflows (d.field "b") b := .inl hover
    rw [if_pos hover, if_pos hany]
    rfl
  by_cases hover' : Overflows (d.field "b") b
  · have hany : Overflows (d.field "a") a ∨ Overflows (d.field "b") b := .inr hover'
    rw [if_neg hover, ok_bind, if_pos hover', if_pos hany]
    rfl
  · rw [if_neg hover, ok_bind, if_neg hover', ok_bind, if_neg (not_or.2 ⟨hover, hover'⟩)]
    simp only [isNan_nearest, Bool.or_self, Bool.false_eq_true, if_false]
    rfl

/-- A call of the addition answers with its result, or with the words of its fault. -/
theorem call_add (clock : Clock σ) (parameters : Value) (tools? : Option (ToolCaller σ)) (world : σ) :
    (FunctionRegistry.builtin clock).call (.str "add_numbers") parameters tools? world
      = match addition parameters with
        | .ok r => (.ok r, world)
        | .error f => (.ok (failure (FunctionRegistry.orUnknown f.wording)), world) := by
  have hfound : (FunctionRegistry.builtin clock).lookUp (.str "add_numbers")
      = .ok (some { description := FunctionRegistry.describe "add_numbers" "Adds two numbers together"
                      [("a", "number", "First number", true), ("b", "number", "Second number", true)]
                    handler := add }) := rfl
  rw [FunctionRegistry.call, hfound]
  simp only [FunctionRegistry.runHandler, add]
  cases addition parameters <;> rfl

/-! ## Fetching -/

/-- What comes of asking the tool for the object of a number. -/
def fetched (call : ToolCaller σ) (id : Int) (world : σ) : Except Raised FunctionResult × σ :=
  match call (.str "get_object") (.record [("object_id", .int id)]) world with
  | (.ok v, world) =>
    (.ok (if v.truthy then success v else failure ("Object with ID " ++ intText id ++ " not found")), world)
  | (.error e, world) =>
    match wordingOf e with
    | .ok reason => (.ok (failure ("Failed to retrieve object: " ++ reason)), world)
    | .error crash =>
      ((FunctionRegistry.broken (.str "get_object") crash.raised).mapError Crash.raised, world)

/-- A call that fetches an object asks the tool once, if the argument is the number of an object. -/
theorem call_fetch (clock : Clock σ) (d : Dict) (call : ToolCaller σ) (world : σ) :
    (FunctionRegistry.builtin clock).call (.str "get_object") (.dict d) (some call) world
      = match number? (d.field "object_id") with
        | .error f => (.ok (failure (FunctionRegistry.orUnknown f.wording)), world)
        | .ok x? =>
          match objectNumber? x? with
          | none => (.ok (failure "Valid numeric object_id is required (must be >= 1)"), world)
          | some id => fetched call id world := by
  have hfound : (FunctionRegistry.builtin clock).lookUp (.str "get_object")
      = .ok (some { description := FunctionRegistry.describe "get_object" "Retrieves an object by its numeric ID"
                      [("object_id", "number", "The numeric ID of the object", true)]
                    handler := fetch }) := rfl
  rw [FunctionRegistry.call, hfound]
  have hrecord : ((Value.dict d).toRecord "get").bind (fun d => number? (d.field "object_id"))
      = number? (d.field "object_id") := rfl
  simp only [FunctionRegistry.runHandler, fetch, hrecord]
  cases number? (d.field "object_id") with
  | error f => rfl
  | ok x? =>
    simp only [Ask.lift_ok, pure_bind]
    cases objectNumber? x? with
    | none => rfl
    | some id =>
      simp only [fetched, bind, ExceptT.bind, ExceptT.mk, StateT.bind, ExceptT.bindCont]
      obtain ⟨answer, world'⟩ := call (.str "get_object") (.record [("object_id", .int id)]) world
      cases answer with
      | error e => cases hreason : wordingOf e <;> simp [hreason] <;> rfl
      | ok v =>
        by_cases htrue : v.truthy = true
        · simp only [if_pos htrue]
          rfl
        · simp only [if_neg htrue]
          rfl

/-- The number of an object is read as the nearest finite number. -/
theorem objectNumber?_of_some {r : Int} (hid : 1 ≤ n) (h : nearestInt? n = some r) :
    objectNumber? (some (nearest n)) = some r := by
  obtain ⟨r', hr', hstands⟩ | ⟨hr', -⟩ := Binary64.nearest_cases n
  · obtain rfl := Option.some.inj (h.symm.trans hr')
    have herror := Binary64.nearestInt?_error h
    have hpositive : ¬ (some (compare r 1) = some Ordering.lt) := by
      rw [Option.some.injEq, compare_lt_iff_lt]
      omega
    rw [objectNumber?, hstands.compareInt?, if_neg hpositive, hstands.toInt?.2, if_pos rfl, hstands.toInt?.1]
  · rw [h] at hr'
    cases hr'

/-- What no finite number is near to is the number of no object. -/
theorem objectNumber?_of_none (h : nearestInt? n = none) : objectNumber? (some (nearest n)) = none := by
  obtain ⟨r', hr', -⟩ | ⟨-, hinfinite⟩ := Binary64.nearest_cases n
  · rw [h] at hr'
    cases hr'
  · rw [hinfinite]
    cases decide (n < 0) <;> rfl

/-! ## Whole calls -/

/-- The words of the fault for an integer that no finite number is near to. -/
def overflowError : String := "int too large to convert to float"

theorem call_add_of_gives {d : Dict} {a b : Int} (clock : Clock σ) (ha : Gives (d.field "a") a)
    (hb : Gives (d.field "b") b)
    (tools? : Option (ToolCaller σ)) (world : σ) :
    (FunctionRegistry.builtin clock).call (.str "add_numbers") (.dict d) tools? world
      = (.ok (if Overflows (d.field "a") a ∨ Overflows (d.field "b") b then failure overflowError
          else success (additionReport (nearestValue a) (nearestValue b)
            (numberValue (nearest a + nearest b)))), world) := by
  rw [call_add, addition_of_gives ha hb]
  by_cases hover : Overflows (d.field "a") a ∨ Overflows (d.field "b") b
  · rw [if_pos hover, if_pos hover]
    rfl
  · rw [if_neg hover, if_neg hover]

/-- The sum of integers that have near finite numbers is the number nearest to the sum of these. -/
theorem numberValue_add_nearest {a b r s : Int} (ha : nearestInt? a = some r) (hb : nearestInt? b = some s) :
    numberValue (nearest a + nearest b) = nearestValue (r + s) := by
  obtain ⟨r', hr', hx⟩ | ⟨hr', -⟩ := Binary64.nearest_cases a
  · obtain ⟨s', hs', hy⟩ | ⟨hs', -⟩ := Binary64.nearest_cases b
    · obtain rfl := Option.some.inj (ha.symm.trans hr')
      obtain rfl := Option.some.inj (hb.symm.trans hs')
      exact numberValue_add hx hy
    · rw [hb] at hs'
      cases hs'
  · rw [ha] at hr'
    cases hr'

/-- A reported number is the integer that it is of only if that needs no rounding. -/
theorem nearestValue_eq_int_iff {n : Int} : nearestValue n = .int n ↔ IsExact n := by
  rw [← Binary64.nearestInt?_eq_self_iff]
  refine ⟨fun h => ?_, nearestValue_of_some⟩
  cases hr : nearestInt? n with
  | none =>
    rw [nearestValue_of_none hr] at h
    cases h
  | some r =>
    rw [nearestValue_of_some hr, Value.int.injEq] at h
    rw [h]

theorem not_overflows {r : Int} (h : nearestInt? n = some r) : ¬ Overflows v n := by
  rintro ⟨-, hnone⟩
  rw [h] at hnone
  cases hnone

/-- An addition reports its arguments and their sum without an error exactly if none of the three needs
rounding. -/
theorem call_add_exact_iff {d : Dict} {a b : Int} (clock : Clock σ) (ha : Gives (d.field "a") a)
    (hb : Gives (d.field "b") b)
    (tools? : Option (ToolCaller σ)) (world : σ) :
    (FunctionRegistry.builtin clock).call (.str "add_numbers") (.dict d) tools? world
        = (.ok (success (additionReport (.int a) (.int b) (.int (a + b)))), world) ↔
      IsExact a ∧ IsExact b ∧ IsExact (a + b) := by
  rw [call_add_of_gives clock ha hb]
  constructor
  · intro h
    by_cases hover : Overflows (d.field "a") a ∨ Overflows (d.field "b") b
    · rw [if_pos hover] at h
      cases h
    rw [if_neg hover] at h
    injection h with hresult
    injection hresult with hsuccess
    injection hsuccess with _ hdata
    obtain ⟨ha', hb', htotal⟩ := additionReport_inj hdata
    have haExact := nearestValue_eq_int_iff.1 ha'
    have hbExact := nearestValue_eq_int_iff.1 hb'
    refine ⟨haExact, hbExact, nearestValue_eq_int_iff.1 ?_⟩
    rw [← htotal]
    exact (numberValue_add_nearest (Binary64.nearestInt?_of_isExact haExact)
      (Binary64.nearestInt?_of_isExact hbExact)).symm
  · rintro ⟨haExact, hbExact, hsum⟩
    have hr := Binary64.nearestInt?_of_isExact haExact
    have hs := Binary64.nearestInt?_of_isExact hbExact
    rw [if_neg (not_or.2 ⟨not_overflows hr, not_overflows hs⟩), numberValue_add_nearest hr hs,
      nearestValue_of_some hr, nearestValue_of_some hs, nearestValue_eq_int_iff.2 hsum]

/-- The built-in functions answer for the numbers nearest to the integers that they are given. An addition
reports the number nearest to each argument and to the sum of these, and the integers themselves exactly if
none of them needs rounding. The tool is asked for the object of the nearest number, which is the one that
was given exactly if that needs no rounding. Beyond the finite numbers, there is no object, an integer is a
fault, and its text is infinite. -/
theorem integers_rounded (clock : Clock σ) (d : Dict) (world : σ) :
    (∀ a b, Gives (d.field "a") a → Gives (d.field "b") b → ∀ tools? : Option (ToolCaller σ),
      let answer := (FunctionRegistry.builtin clock).call (.str "add_numbers") (.dict d) tools? world
      (∀ r s, nearestInt? a = some r → nearestInt? b = some s →
        answer = (.ok (success (additionReport (.int r) (.int s) (nearestValue (r + s)))), world)) ∧
      (nearestInt? a = none ∨ nearestInt? b = none →
        answer = (.ok (if Overflows (d.field "a") a ∨ Overflows (d.field "b") b then failure overflowError
          else success (additionReport (nearestValue a) (nearestValue b)
            (numberValue (nearest a + nearest b)))), world)) ∧
      (answer = (.ok (success (additionReport (.int a) (.int b) (.int (a + b)))), world) ↔
        IsExact a ∧ IsExact b ∧ IsExact (a + b))) ∧
    (∀ id, 1 ≤ id → Gives (d.field "object_id") id → ∀ call : ToolCaller σ,
      let answer := (FunctionRegistry.builtin clock).call (.str "get_object") (.dict d) (some call) world
      (∀ r, nearestInt? id = some r →
        answer = fetched call r world ∧ (r = id ↔ IsExact id) ∧ 2 ^ 53 * (r - id).natAbs ≤ id.natAbs) ∧
      (nearestInt? id = none →
        answer = (.ok (failure (if Overflows (d.field "object_id") id then overflowError
          else "Valid numeric object_id is required (must be >= 1)")), world))) := by
  constructor
  · intro a b ha hb tools?
    have hexact := call_add_exact_iff clock ha hb tools? world
    refine ⟨?_, fun _ => call_add_of_gives clock ha hb tools? world, hexact⟩
    intro r s hr hs
    rw [call_add_of_gives clock ha hb, if_neg (not_or.2 ⟨not_overflows hr, not_overflows hs⟩),
      numberValue_add_nearest hr hs, nearestValue_of_some hr, nearestValue_of_some hs]
  · intro id hid hgives call
    constructor
    · intro r hr
      refine ⟨?_, ?_, Binary64.nearestInt?_error hr⟩
      · rw [call_fetch, hgives.number?, if_neg (not_overflows hr)]
        simp only [objectNumber?_of_some hid hr]
      · rw [← Binary64.nearestInt?_eq_self_iff, hr, Option.some.injEq]
    · intro hnone
      rw [call_fetch, hgives.number?]
      by_cases hover : Overflows (d.field "object_id") id
      · rw [if_pos hover, if_pos hover]
        rfl
      · rw [if_neg hover, if_neg hover]
        simp only [objectNumber?_of_none hnone]

/-! ## An integer that needs rounding -/

/-- One more than the integers up to which none needs rounding. -/
def wideInteger : Int := 9007199254740993

/-- Arguments that give the integer by itself, as its text and in a wrapper. -/
def wideArguments : Dict :=
  .ofFields [("a", .int wideInteger), ("b", .str (intText wideInteger)),
    ("object_id", .record [("type", .str "number"), ("value", .str (intText wideInteger))])]

def noting : ToolCaller (List Value) := fun _ parameters noted => (.ok parameters, noted ++ [parameters])

def stopped : Clock (List Value) := fun noted => ("2024-01-02T03:04:05+00:00", noted)

theorem fetched_noting (id : Int) : (fetched noting id []).2 = [.record [("object_id", .int id)]] := rfl

theorem nearestInt?_wideInteger : nearestInt? wideInteger = some 9007199254740992 := by decide +kernel

theorem gives_wideArguments :
    Gives (wideArguments.field "a") wideInteger ∧ Gives (wideArguments.field "b") wideInteger ∧
      Gives (wideArguments.field "object_id") wideInteger :=
  ⟨.plain (.int _), .plain (.text _), .wrapped rfl (.text _)⟩

theorem integers_rounded_of_wideArguments :
    Gives (wideArguments.field "a") wideInteger ∧ Gives (wideArguments.field "b") wideInteger ∧
    1 ≤ wideInteger ∧ Gives (wideArguments.field "object_id") wideInteger ∧
    (FunctionRegistry.builtin stopped).call (.str "add_numbers") (.dict wideArguments) (some noting) []
      = (.ok (success (additionReport (.int 9007199254740992) (.int 9007199254740992)
          (nearestValue 18014398509481984))), []) ∧
    (FunctionRegistry.builtin stopped).call (.str "get_object") (.dict wideArguments) (some noting) []
      = fetched noting 9007199254740992 [] := by
  obtain ⟨ha, hb, hid⟩ := gives_wideArguments
  have hpositive : 1 ≤ wideInteger := by decide
  have hnearest := nearestInt?_wideInteger
  obtain ⟨hadd, hfetch⟩ := integers_rounded stopped wideArguments ([] : List Value)
  exact ⟨ha, hb, hpositive, hid, (hadd _ _ ha hb (some noting)).1 _ _ hnearest hnearest,
    ((hfetch _ hpositive hid noting).1 _ hnearest).1⟩

theorem not_isExact_wideInteger : ¬ IsExact wideInteger := by
  rw [← Binary64.nearestInt?_eq_self_iff, nearestInt?_wideInteger]
  decide

/-- An addition reports another integer than it is given, and another object is fetched. -/
theorem not_exact_of_wideArguments :
    (¬ ∀ (d : Dict) (a b : Int), Gives (d.field "a") a → Gives (d.field "b") b →
      (FunctionRegistry.builtin stopped).call (.str "add_numbers") (.dict d) (some noting) []
        = (.ok (success (additionReport (.int a) (.int b) (.int (a + b)))), [])) ∧
    (¬ ∀ (d : Dict) (id : Int), 1 ≤ id → Gives (d.field "object_id") id →
      (FunctionRegistry.builtin stopped).call (.str "get_object") (.dict d) (some noting) [] = fetched noting id []) := by
  obtain ⟨ha, hb, hid⟩ := gives_wideArguments
  have hpositive : 1 ≤ wideInteger := by decide
  constructor
  · intro hclaim
    exact not_isExact_wideInteger ((call_add_exact_iff stopped ha hb (some noting) []).1 (hclaim _ _ _ ha hb)).1
  · intro hclaim
    have hanswer := hclaim _ _ hpositive hid
    rw [call_fetch, hid.number?, if_neg (not_overflows nearestInt?_wideInteger)] at hanswer
    simp only [objectNumber?_of_some hpositive nearestInt?_wideInteger] at hanswer
    have hnoted := congrArg Prod.snd hanswer
    rw [fetched_noting, fetched_noting] at hnoted
    simp only [Value.record, Dict.ofFields, List.map_cons, List.map_nil, List.cons.injEq, Value.dict.injEq,
      Prod.mk.injEq, Value.int.injEq, and_true, true_and] at hnoted
    exact absurd hnoted (by decide)

end Stepwise.Functions
