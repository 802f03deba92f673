-- SUMMARY: Sorting by keys that are values: stable, and defined also where keys have no order.
import Stepwise.Value.Observe
import Stepwise.Sorting.Adaptive

/-!
# Sorting by values

Items are sorted by keys that are dynamic values. Numbers, and likewise texts, are
ordered completely, and sorting by them is the stable sort. Other keys may have no order,
so that sorting fails, or an order with gaps, as among numbers with `nan`; then the
adaptive sort tells what becomes of them.
-/

namespace Stepwise.Value

variable {α : Type}

/-- The value is a number and takes part in the order of numbers. -/
def isOrderedNumber : Value → Bool
  | .bool _ | .int _ => true
  | .float x => !x.isNan
  | _ => false

def isText (v : Value) : Bool := v.str?.isSome

/-- The first value does not come after the second, among values that are ordered completely. -/
def notAfter (v w : Value) : Bool :=
  match w.less v with
  | .ok after => !after
  | .error _ => true

/-- Items in the order of their keys; items with keys of one place keep their order. -/
def sortBy (key : α → Value) (items : List α) : Except Fault (List α) :=
  if items.all (fun a => (key a).isOrderedNumber) || items.all (fun a => (key a).isText) then
    .ok (items.mergeSort fun a b => notAfter (key a) (key b))
  else Sorting.sort (fun a b => (key a).less (key b)) items

theorem sortBy_of_numbers {key : α → Value} {items : List α}
    (h : ∀ a ∈ items, (key a).isOrderedNumber = true) :
    sortBy key items = .ok (items.mergeSort fun a b => notAfter (key a) (key b)) := by
  have h : (items.all fun a => (key a).isOrderedNumber) = true := by simpa using h
  simp [sortBy, h]

theorem sortBy_of_texts {key : α → Value} {items : List α}
    (h : ∀ a ∈ items, (key a).isText = true) :
    sortBy key items = .ok (items.mergeSort fun a b => notAfter (key a) (key b)) := by
  have h : (items.all fun a => (key a).isText) = true := by simpa using h
  simp [sortBy, h]

end Stepwise.Value
