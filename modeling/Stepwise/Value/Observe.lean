-- SUMMARY: Truth, sameness, order and type names of values, and their reading as sequences and dictionaries.
import Stepwise.Value.Dict
import Stepwise.Number.Numeral

/-!
# Observing values

The questions that rules ask of a dynamic value: whether it counts as true, whether it
is the same as another, which one comes first, what it holds when taken apart. They are
asked of data; a value that refers to the log of the run is settled first.
-/

namespace Stepwise

def Number.toValue : Number → Value
  | .int n => .int n
  | .float x => .float x

namespace Value

/-! ## Kinds -/

def typeName : Value → String
  | .null => "NoneType"
  | .bool _ => "bool"
  | .int _ => "int"
  | .float _ => "float"
  | .str _ => "str"
  | .list _ | .runLog => "list"
  | .tuple _ => "tuple"
  | .dict _ => "dict"

/-- The value is `null`. -/
def isNull : Value → Bool
  | .null => true
  | _ => false

/-- The number that a value counts as; the truth values count as one and zero. -/
def number? : Value → Option Number
  | .bool b => some (.int (if b then 1 else 0))
  | .int n => some (.int n)
  | .float x => some (.float x)
  | _ => none

/-- A value counts as true unless it is `null`, `false`, zero or empty. -/
def truthy : Value → Bool
  | .null => false
  | .bool b => b
  | .int n => n != 0
  | .float x => !x.isZero
  | .str s => s != ""
  | .list items => !items.isEmpty
  | .tuple items => !items.isEmpty
  | .dict entries => !entries.isEmpty
  | .runLog => true

/-- The first value if it counts as true, else the second. -/
def orElse (v w : Value) : Value := if v.truthy then v else w

@[simp] theorem truthy_null : truthy .null = false := rfl

theorem ne_null_of_truthy {v : Value} (h : v.truthy = true) : v ≠ .null := by
  rintro rfl
  cases h

@[simp] theorem truthy_bool (b : Bool) : truthy (.bool b) = b := rfl

/-! ## Sameness -/

/-- Both values are `nan` with one mark. -/
def isSameNan (v w : Value) : Bool :=
  match v, w with
  | .float (.nan a), .float (.nan b) => a == b
  | _, _ => false

mutual

/-- The two values are the same as data: numbers by value, sequences of one kind item by item,
dictionaries entry by entry in any order. A `nan` by itself is the same as nothing; as an item or in
an entry it is found again by its mark. -/
def same : Value → Value → Bool
  | .null, w => w == .null
  | .str a, w => w == .str a
  | .bool a, w =>
    match w.number? with
    | some n => Number.same (.int (if a then 1 else 0)) n
    | none => false
  | .int a, w =>
    match w.number? with
    | some n => Number.same (.int a) n
    | none => false
  | .float x, w =>
    match w.number? with
    | some n => Number.same (.float x) n
    | none => false
  | .list as, w =>
    match w with
    | .list bs => sameList as bs
    | _ => false
  | .tuple as, w =>
    match w with
    | .tuple bs => sameList as bs
    | _ => false
  | .dict as, w =>
    match w with
    | .dict bs => as.length == bs.length && sameEntries as bs
    | _ => false
  | .runLog, w => w == .runLog

/-- The items of two sequences are the same, place by place. -/
def sameList : List Value → List Value → Bool
  | [], [] => true
  | a :: as, b :: bs => (a.isSameNan b || a.same b) && sameList as bs
  | _, _ => false

/-- Every entry has a same one in the other dictionary. -/
def sameEntries : List (Key × Value) → List (Key × Value) → Bool
  | [], _ => true
  | (k, a) :: as, bs =>
    match Dict.get? bs k with
    | some b => (a.isSameNan b || a.same b) && sameEntries as bs
    | none => false

end

@[simp] theorem same_str (a : String) (w : Value) : same (.str a) w = (w == .str a) := by
  rw [same]

@[simp] theorem same_null (w : Value) : same .null w = (w == .null) := by
  rw [same]

/-- The two values match as items: they are the same, or `nan` with one mark. -/
def isMatch (v w : Value) : Bool := v.isSameNan w || v.same w

def memberOf (v : Value) (vs : List Value) : Bool := vs.any v.isMatch

@[simp] theorem isMatch_str (a : String) (w : Value) : isMatch (.str a) w = (w == .str a) := by
  simp [isMatch, isSameNan]

/-! ## Order -/

mutual

/-- The first value comes before the second. Numbers compare by value, strings and sequences of one
kind by their first difference; other pairs have no order. -/
def less : Value → Value → Except Fault Bool
  | .str a, w =>
    match w with
    | .str b => .ok (decide (a < b))
    | _ => .error .wrongType
  | .list as, w =>
    match w with
    | .list bs => lessList as bs
    | _ => .error .wrongType
  | .tuple as, w =>
    match w with
    | .tuple bs => lessList as bs
    | _ => .error .wrongType
  | .bool a, w =>
    match w.number? with
    | some n => .ok (Number.less (.int (if a then 1 else 0)) n)
    | none => .error .wrongType
  | .int a, w =>
    match w.number? with
    | some n => .ok (Number.less (.int a) n)
    | none => .error .wrongType
  | .float x, w =>
    match w.number? with
    | some n => .ok (Number.less (.float x) n)
    | none => .error .wrongType
  | .null, _ | .dict _, _ | .runLog, _ => .error .wrongType

/-- The first sequence comes before the second: by the first items that differ, else by length. -/
def lessList : List Value → List Value → Except Fault Bool
  | [], bs => .ok (!bs.isEmpty)
  | _ :: _, [] => .ok false
  | a :: as, b :: bs => if a.isSameNan b || a.same b then lessList as bs else a.less b

end

/-! ## Parts -/

/-- The entries of a dictionary; other values have none. -/
def dict? : Value → Option Dict
  | .dict entries => some entries
  | _ => none

/-- The text of a string; other values have none. -/
def str? : Value → Option String
  | .str s => some s
  | _ => none

/-- The entries of a dictionary, asked for its field `field`. -/
def toRecord (field : String) (v : Value) : Except Fault Dict :=
  match v with
  | .dict entries => .ok entries
  | _ => .error (.noField v.typeName field)

/-- What a value yields when taken item by item: items, characters, or keys. -/
def items (v : Value) : Except Fault (List Value) :=
  match v with
  | .list vs | .tuple vs => .ok vs
  | .str s => .ok (s.toList.map fun c => .str (String.singleton c))
  | .dict entries => .ok (entries.map fun e => e.1.toValue)
  | _ => .error .wrongType

/-- The first text occurs in the second. -/
def occursIn (part : List Char) : List Char → Bool
  | [] => part.isEmpty
  | c :: cs => part.isPrefixOf (c :: cs) || occursIn part cs

/-- The name is found in a value: a member, a key, or a part of a text. -/
def holdsKey (v : Value) (name : Key) : Except Fault Bool :=
  match v with
  | .list vs | .tuple vs => .ok (name.toValue.memberOf vs)
  | .dict entries => .ok (Dict.contains entries name)
  | .str s =>
    match name with
    | .str part => .ok (occursIn part.toList s.toList)
    | _ => .error .wrongType
  | _ => .error .wrongType

def holds (v : Value) (name : String) : Except Fault Bool := v.holdsKey (.str name)

/-- One item as an entry of a dictionary under construction: it must hold a key and a value. -/
def toEntry (position : Nat) (item : Value) : Except Fault (Key × Value) := do
  match ← item.items with
  | [k, v] => return (← k.toKey, v)
  | parts => throw (.badValue
      s!"dictionary update sequence element #{position} has length {parts.length}; 2 is required")

/-- The entries of consecutive items, the first of which stands at the given position. -/
def toEntries (position : Nat) : List Value → Except Fault (List (Key × Value))
  | [] => .ok []
  | item :: rest => do
    let entry ← item.toEntry position
    let entries ← toEntries (position + 1) rest
    return entry :: entries

/-- A value as a dictionary: a dictionary itself, or a sequence of key-value pairs. -/
def toDict (v : Value) : Except Fault Dict :=
  match v with
  | .dict entries => .ok entries
  | _ => do
    let entries ← toEntries 0 (← v.items)
    return Dict.ofEntries entries

/-- The items of a value; one that counts as false has none. -/
def itemsIfAny (v : Value) : Except Fault (List Value) := if v.truthy then v.items else .ok []

/-- A value as a dictionary; one that counts as false is empty. -/
def dictIfAny (v : Value) : Except Fault Dict := if v.truthy then v.toDict else .ok []

def toKeySet (v : Value) : Except Fault (List Key) := do
  (← v.items).mapM toKey

/-! ## Numbers -/

/-- The fault of an integer beyond the finite binary64 values. -/
def tooLarge : Fault := .overflow "int too large to convert to float"

def addTo (v : Value) (n : Number) : Except Fault Number :=
  match v.number? with
  | none => .error .wrongType
  | some m =>
    match n.add? m with
    | some sum => .ok sum
    | none => .error tooLarge

/-- A value as a binary64 number: a number, or a text that spells one. -/
def toBinary64 (v : Value) : Except Fault Binary64 :=
  match v with
  | .bool b => .ok (if b then .one else .zero false)
  | .int n =>
    match Binary64.ofInt? n with
    | some x => .ok x
    | none => .error tooLarge
  | .float x => .ok x
  | .str s =>
    match Numeral.readNumber? s with
    | some x => .ok x
    | none => .error (.badValue "")
  | _ => .error .wrongType

end Value

end Stepwise
