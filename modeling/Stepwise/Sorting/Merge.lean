-- SUMMARY: Merging two neighbouring runs, item by item or in whole stretches.
import Stepwise.Sorting.Runs

/-!
# Merging runs

Two neighbouring runs are merged from the end at which the shorter of them lies. Items
are taken one by one; once one run has won often enough in a row, whole stretches are
taken, found by a search, as long as they are long. How often is often enough is learnt
from merge to merge.

Whichever end the merge works from, items of equal place keep their order: those of the
left run come first.
-/

namespace Stepwise.Sorting

variable {α : Type}

/-- The length from which stretches are worth searching for. -/
def longStretch : Nat := 7

/-- A merge in progress. The items of both runs that are left are listed from the end at which the
merge works, and the merged ones with the latest first. -/
structure Merging (α : Type) where
  /-- The merge works from the right end. -/
  backward : Bool
  merged : List α := []
  left : List α
  right : List α
  /-- How often in a row one run has to win before stretches are searched for. -/
  patience : Nat
  /-- The patience that the next merge starts with. -/
  learnt : Nat

namespace Merging

/-- Nothing is left to compare: one run is used up, or only the last item of the run that the merge
keeps aside is left. -/
def isOver (m : Merging α) : Bool :=
  if m.backward then m.left.isEmpty || m.right.length ≤ 1
  else m.right.isEmpty || m.left.length ≤ 1

def takeLeft (m : Merging α) (count : Nat) : Merging α :=
  { m with merged := (m.left.take count).reverse ++ m.merged, left := m.left.drop count }

def takeRight (m : Merging α) (count : Nat) : Merging α :=
  { m with merged := (m.right.take count).reverse ++ m.merged, right := m.right.drop count }

/-- The items of a merge that is over, in order. -/
def items (m : Merging α) : List α :=
  if m.backward then
    let rest := if m.right.length = 1 then m.left ++ m.right else m.right ++ m.left
    rest.reverse ++ m.merged
  else
    let rest := if m.left.length = 1 then m.right ++ m.left else m.left ++ m.right
    m.merged.reverse ++ rest

/-- Take items one by one, until the merge is over or one run has won often enough in a row. -/
def oneByOne (before : Precedence α) (leftWins rightWins : Nat) :
    Nat → Merging α → Except Fault (Merging α)
  | 0, m => .ok m
  | fuel + 1, m =>
    match m.left, m.right with
    | a :: _, b :: _ => do
      if (← before b a) != m.backward then
        let m := m.takeRight 1
        if m.isOver || m.patience ≤ rightWins + 1 then return m
        else oneByOne before 0 (rightWins + 1) fuel m
      else
        let m := m.takeLeft 1
        if m.isOver || m.patience ≤ leftWins + 1 then return m
        else oneByOne before (leftWins + 1) 0 fuel m
    | _, _ => .ok m

/-- The number of left items that come out before the next right one. -/
def leftStretch (before : Precedence α) (m : Merging α) : Except Fault Nat :=
  match m.right with
  | [] => .ok 0
  | b :: _ =>
    if m.backward then do
      return m.left.length - (← countUpTo before b m.left.reverse (m.left.length - 1))
    else countUpTo before b m.left 0

/-- The number of right items that come out before the next left one. -/
def rightStretch (before : Precedence α) (m : Merging α) : Except Fault Nat :=
  match m.left with
  | [] => .ok 0
  | a :: _ =>
    if m.backward then do
      return m.right.length - (← countBefore before a m.right.reverse (m.right.length - 1))
    else countBefore before a m.right 0

/-- Take stretches of both runs in turn, each followed by one item of the other run, until the merge
is over or neither stretch is long. Every turn makes the merge less patient. -/
def byStretches (before : Precedence α) : Nat → Merging α → Except Fault (Merging α)
  | 0, m => .ok m
  | fuel + 1, m => do
    let patience := if 1 < m.patience then m.patience - 1 else m.patience
    let m := { m with patience, learnt := patience }
    let lefts ← m.leftStretch before
    let m := m.takeLeft lefts
    if m.isOver then return m
    let m := m.takeRight 1
    if m.isOver then return m
    let rights ← m.rightStretch before
    let m := m.takeRight rights
    if m.isOver then return m
    let m := m.takeLeft 1
    if m.isOver then return m
    if longStretch ≤ lefts || longStretch ≤ rights then byStretches before fuel m
    else return { m with patience := m.patience + 1, learnt := m.patience + 1 }

/-- Merge until nothing is left to compare. -/
def run (before : Precedence α) : Nat → Merging α → Except Fault (Merging α)
  | 0, m => .ok m
  | fuel + 1, m => do
    let m ← m.oneByOne before 0 0 (m.left.length + m.right.length)
    if m.isOver then return m
    let m ← byStretches before (m.left.length + m.right.length)
      { m with patience := m.patience + 1 }
    if m.isOver then return m else run before fuel m

end Merging

/-- Merge two runs that overlap, the second of which has the least item and the first the greatest.
Gives the patience for the next merge, too. -/
def mergeOverlapping (before : Precedence α) (patience : Nat) (left right : List α) :
    Except Fault (List α × Nat) := do
  let backward := right.length < left.length
  let m : Merging α :=
    if backward then
      Merging.takeLeft { backward, left := left.reverse, right := right.reverse, patience,
                         learnt := patience } 1
    else Merging.takeRight { backward, left, right, patience, learnt := patience } 1
  let m ← if m.isOver then pure m else m.run before (left.length + right.length)
  return (m.items, m.learnt)

/-- Merge two neighbouring runs. The items at both ends that are in place already are left there. -/
def mergeRuns (before : Precedence α) (patience : Nat) (left right : List α) :
    Except Fault (List α × Nat) :=
  match right with
  | [] => .ok (left, patience)
  | first :: _ => do
    let settled ← countUpTo before first left 0
    match (left.drop settled).getLast? with
    | none => return (left ++ right, patience)
    | some last =>
      let loose ← countBefore before last right (right.length - 1)
      if loose = 0 then return (left ++ right, patience)
      else
        let (items, patience) ← mergeOverlapping before patience (left.drop settled)
          (right.take loose)
        return (left.take settled ++ items ++ right.drop loose, patience)

end Stepwise.Sorting
