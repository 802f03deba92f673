-- SUMMARY: The adaptive merge sort: runs found in the items are merged in a balanced order.
import Stepwise.Sorting.Merge

/-!
# Adaptive merge sort

The runs of a list are found from left to right and merged in neighbouring pairs. Which
pair comes next is told by the powers of the places where runs meet: the number of
halvings of the whole list after which the middles of the two runs lie in different
parts. A place of greater power is merged before one of smaller power.

On items that the order compares completely the result is the stable sort; on others it
is one fixed arrangement.
-/

namespace Stepwise.Sorting

variable {α : Type}

/-- A run that waits to be merged: where it starts, its items, and the power of the place where it
meets the next one. -/
structure Pending (α : Type) where
  start : Nat
  items : List α
  power : Nat := 0

/-- The least length of a run: lists shorter than 64 are one run, and longer ones are halved, rounding
up, until they are shorter. -/
def leastRun (odd : Bool) (n : Nat) : Nat :=
  if n < 64 then n + (if odd then 1 else 0)
  else leastRun (odd || n % 2 == 1) (n / 2)
termination_by n

/-- The number of halvings of `[0, n)` after which two places, given as `a / 2` and `b / 2`, lie in
different parts. -/
def meetingPower (n : Nat) : Nat → Nat → Nat → Nat
  | 0, _, _ => 0
  | fuel + 1, a, b =>
    if n ≤ a then meetingPower n fuel (2 * (a - n)) (2 * (b - n)) + 1
    else if n ≤ b then 1
    else meetingPower n fuel (2 * a) (2 * b) + 1

/-- The power of the place where a run meets the one after it, of the given length, in a list of
length `n`. -/
def powerBetween (n : Nat) (run : Pending α) (length : Nat) : Nat :=
  let a := 2 * run.start + run.items.length
  meetingPower n (n + 1) a (a + run.items.length + length)

/-- Two neighbouring runs merged into one, and the patience for the next merge. -/
def joinRuns (before : Precedence α) (patience : Nat) (left right : Pending α) :
    Except Fault (Pending α × Nat) := do
  let (items, patience) ← mergeRuns before patience left.items right.items
  return ({ start := left.start, items, power := right.power }, patience)

/-- Merge the latest runs while the place between them has a greater power than the given one. The
latest run comes first. -/
def collapse (before : Precedence α) (power : Nat) : Nat → Nat → List (Pending α) →
    Except Fault (List (Pending α) × Nat)
  | fuel + 1, patience, right :: left :: rest => do
    if power < left.power then
      let (run, patience) ← joinRuns before patience left right
      collapse before power fuel patience (run :: rest)
    else return (right :: left :: rest, patience)
  | _, patience, runs => .ok (runs, patience)

/-- Wait with one more run, after merging what has to be merged before it. -/
def push (before : Precedence α) (n patience : Nat) (runs : List (Pending α)) (start : Nat)
    (items : List α) : Except Fault (List (Pending α) × Nat) := do
  match runs with
  | [] => return ([{ start, items }], patience)
  | latest :: _ =>
    let power := powerBetween n latest items.length
    let (runs, patience) ← collapse before power runs.length patience runs
    match runs with
    | [] => return ([{ start, items }], patience)
    | latest :: rest => return ({ start, items } :: { latest with power } :: rest, patience)

/-- Find the runs of some items, the first of which stands at the given place in a list of length `n`,
merging them as they come. -/
def gather (before : Precedence α) (n least : Nat) : Nat → Nat → List (Pending α) → Nat → List α →
    Except Fault (List (Pending α) × Nat)
  | 0, patience, runs, _, _ => .ok (runs, patience)
  | _ + 1, patience, runs, _, [] => .ok (runs, patience)
  | fuel + 1, patience, runs, start, items => do
    let (run, rest) ← nextRun before least items
    let (runs, patience) ← push before n patience runs start run
    gather before n least fuel patience runs (start + run.length) rest

/-- Merge all runs, the latest of which comes first. The middle one of three joins the shorter of its
neighbours. -/
def mergeAll (before : Precedence α) : Nat → Nat → List (Pending α) → Except Fault (List α)
  | fuel + 1, patience, c :: b :: a :: rest => do
    if a.items.length < c.items.length then
      let (run, patience) ← joinRuns before patience a b
      mergeAll before fuel patience (c :: run :: rest)
    else
      let (run, patience) ← joinRuns before patience b c
      mergeAll before fuel patience (run :: a :: rest)
  | _, patience, [right, left] => do
    return (← mergeRuns before patience left.items right.items).1
  | _, _, [run] => .ok run.items
  | _, _, _ => .ok []

/-- The items in order; items of one place keep their order. -/
def sort (before : Precedence α) (items : List α) : Except Fault (List α) := do
  let n := items.length
  let (runs, patience) ← gather before n (leastRun false n) n longStretch [] 0 items
  mergeAll before runs.length patience runs

end Stepwise.Sorting
