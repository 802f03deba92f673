-- SUMMARY: Dynamic values and dictionary keys, with decidable equality.
import Stepwise.Number.Binary64

/-!
# Values

Workflow data is dynamic: inputs, variables, step outputs and most fields of a step
definition hold a `Value`. Dictionaries keep the order in which their keys were first
inserted. Besides data a value may contain `runLog`, the log of the run in progress:
it stands for whatever lines the log holds when the value is looked at, and `settle`
replaces it by them.
-/

namespace Stepwise

/-- What may be a dictionary key: the scalars, and tuples of keys. -/
inductive Key where
  | null
  | bool (b : Bool)
  | int (n : Int)
  | float (x : Binary64)
  | str (s : String)
  | tuple (items : List Key)
deriving Repr, Inhabited

/-- A dynamic value. -/
inductive Value where
  | null
  | bool (b : Bool)
  | int (n : Int)
  | float (x : Binary64)
  | str (s : String)
  | list (items : List Value)
  | tuple (items : List Value)
  | dict (entries : List (Key × Value))
  /-- The log of the run in progress. -/
  | runLog
deriving Repr, Inhabited

/-- The entries of a dictionary, in insertion order. -/
abbrev Dict := List (Key × Value)

/-! ## Equality of keys -/

mutual

def Key.beq : Key → Key → Bool
  | .null, .null => true
  | .bool a, .bool b => a == b
  | .int a, .int b => a == b
  | .float a, .float b => a == b
  | .str a, .str b => a == b
  | .tuple a, .tuple b => Key.beqList a b
  | _, _ => false

def Key.beqList : List Key → List Key → Bool
  | [], [] => true
  | a :: as, b :: bs => Key.beq a b && Key.beqList as bs
  | _, _ => false

end

mutual

theorem Key.beq_iff : (a b : Key) → (Key.beq a b = true ↔ a = b)
  | .null, b => by cases b <;> simp [Key.beq]
  | .bool _, b => by cases b <;> simp [Key.beq]
  | .int _, b => by cases b <;> simp [Key.beq]
  | .float _, b => by cases b <;> simp [Key.beq]
  | .str _, b => by cases b <;> simp [Key.beq]
  | .tuple as, b => by
    cases b with
    | tuple bs => simp [Key.beq, Key.beqList_iff as bs]
    | _ => simp [Key.beq]

theorem Key.beqList_iff : (as bs : List Key) → (Key.beqList as bs = true ↔ as = bs)
  | [], bs => by cases bs <;> simp [Key.beqList]
  | a :: as, bs => by
    cases bs with
    | nil => simp [Key.beqList]
    | cons b bs => simp [Key.beqList, Key.beq_iff a b, Key.beqList_iff as bs]

end

instance : DecidableEq Key := fun a b => decidable_of_iff _ (Key.beq_iff a b)

/-! ## Equality of values -/

mutual

/-- Identity of values: same constructors, same order of entries. -/
def Value.beq : Value → Value → Bool
  | .null, .null => true
  | .bool a, .bool b => a == b
  | .int a, .int b => a == b
  | .float a, .float b => a == b
  | .str a, .str b => a == b
  | .list a, .list b => Value.beqList a b
  | .tuple a, .tuple b => Value.beqList a b
  | .dict a, .dict b => Value.beqEntries a b
  | .runLog, .runLog => true
  | _, _ => false

def Value.beqList : List Value → List Value → Bool
  | [], [] => true
  | a :: as, b :: bs => Value.beq a b && Value.beqList as bs
  | _, _ => false

def Value.beqEntries : List (Key × Value) → List (Key × Value) → Bool
  | [], [] => true
  | (k, a) :: as, (l, b) :: bs => k == l && Value.beq a b && Value.beqEntries as bs
  | _, _ => false

end

mutual

theorem Value.beq_iff : (a b : Value) → (Value.beq a b = true ↔ a = b)
  | .null, b => by cases b <;> simp [Value.beq]
  | .bool _, b => by cases b <;> simp [Value.beq]
  | .int _, b => by cases b <;> simp [Value.beq]
  | .float _, b => by cases b <;> simp [Value.beq]
  | .str _, b => by cases b <;> simp [Value.beq]
  | .runLog, b => by cases b <;> simp [Value.beq]
  | .list as, b => by
    cases b with
    | list bs => simp [Value.beq, Value.beqList_iff as bs]
    | _ => simp [Value.beq]
  | .tuple as, b => by
    cases b with
    | tuple bs => simp [Value.beq, Value.beqList_iff as bs]
    | _ => simp [Value.beq]
  | .dict as, b => by
    cases b with
    | dict bs => simp [Value.beq, Value.beqEntries_iff as bs]
    | _ => simp [Value.beq]

theorem Value.beqList_iff : (as bs : List Value) → (Value.beqList as bs = true ↔ as = bs)
  | [], bs => by cases bs <;> simp [Value.beqList]
  | a :: as, bs => by
    cases bs with
    | nil => simp [Value.beqList]
    | cons b bs => simp [Value.beqList, Value.beq_iff a b, Value.beqList_iff as bs]

theorem Value.beqEntries_iff :
    (as bs : List (Key × Value)) → (Value.beqEntries as bs = true ↔ as = bs)
  | [], bs => by cases bs <;> simp [Value.beqEntries]
  | (k, a) :: as, bs => by
    cases bs with
    | nil => simp [Value.beqEntries]
    | cons b bs =>
      obtain ⟨l, b⟩ := b
      simp [Value.beqEntries, Value.beq_iff a b, Value.beqEntries_iff as bs]

end

instance : DecidableEq Value := fun a b => decidable_of_iff _ (Value.beq_iff a b)

/-! ## The log of the run in progress -/

mutual

/-- The value with the given log lines wherever it refers to the log of the run. -/
def Value.settle (log : List Value) : Value → Value
  | .list items => .list (Value.settleList log items)
  | .tuple items => .tuple (Value.settleList log items)
  | .dict entries => .dict (Value.settleEntries log entries)
  | .runLog => .list log
  | .null => .null
  | .bool b => .bool b
  | .int n => .int n
  | .float x => .float x
  | .str s => .str s

def Value.settleList (log : List Value) : List Value → List Value
  | [] => []
  | v :: vs => v.settle log :: Value.settleList log vs

def Value.settleEntries (log : List Value) : List (Key × Value) → List (Key × Value)
  | [] => []
  | (k, v) :: es => (k, v.settle log) :: Value.settleEntries log es

end

theorem Value.settleList_eq_map (log : List Value) (vs : List Value) :
    Value.settleList log vs = vs.map (·.settle log) := by
  induction vs with
  | nil => rfl
  | cons v vs ih => simp [Value.settleList, ih]

theorem Value.settleEntries_eq_map (log : List Value) (es : List (Key × Value)) :
    Value.settleEntries log es = es.map fun e => (e.1, e.2.settle log) := by
  induction es with
  | nil => rfl
  | cons e es ih => simp [Value.settleEntries, ih]

mutual

/-- The value is data: it does not refer to the log of the run. -/
def Value.isSettled : Value → Bool
  | .list items => Value.allSettled items
  | .tuple items => Value.allSettled items
  | .dict entries => Value.entriesSettled entries
  | .runLog => false
  | _ => true

/-- Every item is data. -/
def Value.allSettled : List Value → Bool
  | [] => true
  | v :: vs => v.isSettled && Value.allSettled vs

def Value.entriesSettled : List (Key × Value) → Bool
  | [] => true
  | (_, v) :: es => v.isSettled && Value.entriesSettled es

end

mutual

theorem Value.settle_of_isSettled (log : List Value) :
    (v : Value) → v.isSettled = true → v.settle log = v
  | .null, _ => rfl
  | .bool _, _ => rfl
  | .int _, _ => rfl
  | .float _, _ => rfl
  | .str _, _ => rfl
  | .runLog, h => by simp [Value.isSettled] at h
  | .list items, h => by
    rw [Value.settle, Value.settleList_of_allSettled log items (by simpa [Value.isSettled] using h)]
  | .tuple items, h => by
    rw [Value.settle, Value.settleList_of_allSettled log items (by simpa [Value.isSettled] using h)]
  | .dict entries, h => by
    rw [Value.settle,
      Value.settleEntries_of_settled log entries (by simpa [Value.isSettled] using h)]

theorem Value.settleList_of_allSettled (log : List Value) :
    (vs : List Value) → Value.allSettled vs = true → Value.settleList log vs = vs
  | [], _ => rfl
  | v :: vs, h => by
    simp only [Value.allSettled, Bool.and_eq_true] at h
    rw [Value.settleList, Value.settle_of_isSettled log v h.1,
      Value.settleList_of_allSettled log vs h.2]

theorem Value.settleEntries_of_settled (log : List Value) :
    (es : List (Key × Value)) → Value.entriesSettled es = true → Value.settleEntries log es = es
  | [], _ => rfl
  | (k, v) :: es, h => by
    simp only [Value.entriesSettled, Bool.and_eq_true] at h
    rw [Value.settleEntries, Value.settle_of_isSettled log v h.1,
      Value.settleEntries_of_settled log es h.2]

end

end Stepwise
