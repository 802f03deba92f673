-- SUMMARY: Sameness of keys, and look-up and update in ordered dictionaries.
import Stepwise.Value.Basic
import Stepwise.Number.Basic
import Stepwise.Fault

/-!
# Dictionaries

Two keys are the same if they are equal as data, where numbers count by their value:
`1`, `1.0` and `true` are one key. A `nan`, which equals nothing, is the same key as one
with its mark. Storing under a key that is already there keeps the
key and its place and changes the value; a new key goes to the end.
-/

namespace Stepwise

/-! ## Keys -/

namespace Key

def number? : Key → Option Number
  | .bool b => some (.int (if b then 1 else 0))
  | .int n => some (.int n)
  | .float x => some (.float x)
  | _ => none

mutual

/-- The two keys address the same entry. -/
def same : Key → Key → Bool
  | .null, k => k == .null
  | .str a, k => k == .str a
  | .tuple as, k =>
    match k with
    | .tuple bs => sameList as bs
    | _ => false
  | .bool a, k =>
    match k.number? with
    | some n => Number.same (.int (if a then 1 else 0)) n
    | none => false
  | .int a, k =>
    match k.number? with
    | some n => Number.same (.int a) n
    | none => false
  | .float (.nan mark), k => k == .float (.nan mark)
  | .float x, k =>
    match k.number? with
    | some n => Number.same (.float x) n
    | none => false

/-- The keys of two tuples address the same entries, place by place. -/
def sameList : List Key → List Key → Bool
  | [], [] => true
  | a :: as, b :: bs => a.same b && sameList as bs
  | _, _ => false

end

mutual

def toValue : Key → Value
  | .null => .null
  | .bool b => .bool b
  | .int n => .int n
  | .float x => .float x
  | .str s => .str s
  | .tuple items => .tuple (toValues items)

def toValues : List Key → List Value
  | [] => []
  | k :: ks => k.toValue :: toValues ks

end

def str? : Key → Option String
  | .str s => some s
  | _ => none

@[simp] theorem same_str (a b : String) : same (.str a) (.str b) = decide (a = b) := by
  by_cases h : a = b
  · simp [same, h]
  · simp [same, h, Ne.symm h]

end Key

mutual

/-- The key that a value can serve as; lists and dictionaries cannot. -/
def Value.toKey? : Value → Option Key
  | .null => some .null
  | .bool b => some (.bool b)
  | .int n => some (.int n)
  | .float x => some (.float x)
  | .str s => some (.str s)
  | .tuple items => (Value.toKeys? items).map .tuple
  | .list _ | .dict _ | .runLog => none

def Value.toKeys? : List Value → Option (List Key)
  | [] => some []
  | v :: vs =>
    match v.toKey?, Value.toKeys? vs with
    | some k, some ks => some (k :: ks)
    | _, _ => none

end

/-- The key that a value serves as, or a fault if it cannot be one. -/
def Value.toKey (v : Value) : Except Fault Key :=
  match v.toKey? with
  | some k => .ok k
  | none => .error .wrongType

/-! ## Entries -/

namespace Dict

def get? (d : Dict) (k : Key) : Option Value :=
  match d with
  | [] => none
  | (l, v) :: rest => if k.same l then some v else get? rest k

def contains (d : Dict) (k : Key) : Bool := d.any fun e => k.same e.1

def insert (d : Dict) (k : Key) (v : Value) : Dict :=
  match d with
  | [] => [(k, v)]
  | (l, w) :: rest => if k.same l then (l, v) :: rest else (l, w) :: insert rest k v

/-- The dictionary without a key's entry. -/
def erase (d : Dict) (k : Key) : Dict := d.filter fun e => !k.same e.1

/-- The keys, in insertion order. -/
def keys (d : Dict) : List Key := d.map (·.1)

/-- The entries stored one after the other into an empty dictionary. -/
def ofEntries (entries : List (Key × Value)) : Dict :=
  entries.foldl (fun d e => d.insert e.1 e.2) []

def field? (d : Dict) (name : String) : Option Value := d.get? (.str name)

/-- The value under a string key, `null` if there is none. -/
def field (d : Dict) (name : String) : Value := (d.field? name).getD .null

def ofFields (fields : List (String × Value)) : Dict := fields.map fun e => (.str e.1, e.2)

/-- The first of several spellings of a field that is present, with its value. -/
def pick? (d : Dict) : List String → Option Value
  | [] => none
  | name :: names =>
    match d.field? name with
    | some v => some v
    | none => d.pick? names

/-- The value of the first present spelling of a field, `null` if there is none. -/
def pick (d : Dict) (names : List String) : Value := (d.pick? names).getD .null

@[simp] theorem get?_nil (k : Key) : get? [] k = none := rfl

theorem get?_cons (l : Key) (v : Value) (rest : Dict) (k : Key) :
    get? ((l, v) :: rest) k = if k.same l then some v else get? rest k := rfl

theorem contains_eq_isSome (d : Dict) (k : Key) : d.contains k = (d.get? k).isSome := by
  induction d with
  | nil => rfl
  | cons e rest ih =>
    obtain ⟨l, v⟩ := e
    simp only [contains, List.any_cons, get?_cons] at ih ⊢
    by_cases h : k.same l = true <;> simp [h, ih]

theorem insert_nil (k : Key) (v : Value) : insert [] k v = [(k, v)] := rfl

end Dict

def Value.record (fields : List (String × Value)) : Value := .dict (Dict.ofFields fields)

end Stepwise
