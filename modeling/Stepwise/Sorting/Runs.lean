-- SUMMARY: Ordered runs at the front of a list, and searches in ordered items.
import Stepwise.Fault

/-!
# Runs

Sorting starts from the runs that items already form. A short run is lengthened by
putting the items after it where they belong. All questions about the order go through
one comparison, which may fail; where the order leaves items unordered it is the
sequence of comparisons that decides where they end up.
-/

namespace Stepwise.Sorting

variable {α : Type}

/-- Tells whether the first item comes strictly before the second. -/
abbrev Precedence (α : Type) := α → α → Except Fault Bool

/-! ## Natural runs -/

/-- The longest run at the front of some items in which each item after the first stands to the one
before it as `descending` says, in reverse, and the rest. -/
def takeRun (before : Precedence α) (descending : Bool) (last : α) (run : List α) :
    List α → Except Fault (List α × List α)
  | [] => .ok (last :: run, [])
  | item :: items => do
    if (← before item last) == descending then takeRun before descending item (last :: run) items
    else return (last :: run, item :: items)

/-- The ordered run at the front of some items, and the rest. A strictly descending run is turned
round. -/
def frontRun (before : Precedence α) : List α → Except Fault (List α × List α)
  | [] => .ok ([], [])
  | [item] => .ok ([item], [])
  | first :: second :: items => do
    let descending ← before second first
    let (run, rest) ← takeRun before descending second [first] items
    return (if descending then run else run.reverse, rest)

/-! ## Insertion -/

/-- Put an item into ordered items, after those of the same place, looking at the middle first. -/
def insertOrdered (before : Precedence α) (item : α) (items : List α) : Except Fault (List α) :=
  if h : items = [] then .ok [item]
  else do
    have hmid : items.length / 2 < items.length :=
      Nat.div_lt_self (List.length_pos_iff.2 h) (by decide)
    let middle := items[items.length / 2]
    if ← before item middle then
      return (← insertOrdered before item (items.take (items.length / 2)))
        ++ items.drop (items.length / 2)
    else
      return items.take (items.length / 2 + 1)
        ++ (← insertOrdered before item (items.drop (items.length / 2 + 1)))
termination_by items.length
decreasing_by
  · simp only [List.length_take]; omega
  · simp only [List.length_drop]; omega

/-- Put items into ordered items, one after the other. -/
def insertAll (before : Precedence α) (ordered : List α) : List α → Except Fault (List α)
  | [] => .ok ordered
  | item :: items => do insertAll before (← insertOrdered before item ordered) items

/-- The next run of some items, of the given length at least if there are enough items, and the
rest. -/
def nextRun (before : Precedence α) (least : Nat) (items : List α) :
    Except Fault (List α × List α) := do
  let (run, rest) ← frontRun before items
  let missing := least - run.length
  return (← insertAll before run (rest.take missing), rest.drop missing)

/-! ## Searching -/

/-- Where a property of positions that holds up to some place ceases to hold, between two bounds. -/
def bisect (holds : Nat → Except Fault Bool) (low high : Nat) : Except Fault Nat :=
  if _h : low < high then do
    if ← holds (low + (high - low) / 2) then bisect holds (low + (high - low) / 2 + 1) high
    else bisect holds low (low + (high - low) / 2)
  else .ok low
termination_by high - low

/-- Go on from an offset in steps of doubling length while a property of offsets holds. Gives the last
offset at which it held and the first at which it did not, at most the limit. -/
def stride (holds : Nat → Except Fault Bool) (limit last offset : Nat) : Except Fault (Nat × Nat) :=
  if _h : offset < limit then do
    if ← holds offset then stride holds limit offset (2 * offset + 1)
    else return (last, offset)
  else .ok (last, min offset limit)
termination_by limit - offset

/-- Where a property of the first `count` positions that holds up to some place ceases to hold,
searched from a position outwards. -/
def gallop (holds : Nat → Except Fault Bool) (count start : Nat) : Except Fault Nat := do
  if ← holds start then
    let (last, offset) ← stride (fun k => holds (start + k)) (count - start) 0 1
    bisect holds (start + last + 1) (start + offset)
  else
    let (last, offset) ← stride (fun k => (!·) <$> holds (start - k)) (start + 1) 0 1
    bisect holds (start + 1 - offset) (start - last)

/-- The number of ordered items that come before an item or share its place, searched from a
position. -/
def countUpTo (before : Precedence α) (item : α) (items : List α) (start : Nat) :
    Except Fault Nat :=
  gallop (fun i => match items[i]? with
    | some x => (!·) <$> before item x
    | none => .ok false) items.length start

/-- The number of ordered items that come strictly before an item, searched from a position. -/
def countBefore (before : Precedence α) (item : α) (items : List α) (start : Nat) :
    Except Fault Nat :=
  gallop (fun i => match items[i]? with
    | some x => before x item
    | none => .ok false) items.length start

end Stepwise.Sorting
