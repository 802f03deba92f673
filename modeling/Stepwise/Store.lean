-- SUMMARY: The in-memory state store: values under keys, each with an optional time of expiry.
import Stepwise.Value.Sorting

/-!
# State store

A stored value may have a lifetime. It is still there at the very moment its lifetime
ends and gone after it. Expired entries are taken out when they are asked for, or when
the keys are listed; until then they still count as entries.

Lifetimes are dynamic values: `null` is no lifetime, any number is one, and other values
cannot be added to the time.
-/

namespace Stepwise

/-- A value in the store, with the last moment at which it is there. -/
structure StoredValue where
  value : Value
  expiry? : Option Number := none
deriving DecidableEq, Repr, Inhabited

/-- A store: the lifetime of values that are stored without one, and the entries by key. -/
structure Store where
  lifetime : Value := .null
  entries : List (Key × StoredValue) := []
deriving DecidableEq, Repr, Inhabited

def StoredValue.isExpired (now : Number) (v : StoredValue) : Bool :=
  match v.expiry? with
  | some expiry => expiry.less now
  | none => false

namespace Store

/-! ## Entries -/

/-- The entry of a key, expired or not. -/
def stored? (s : Store) (key : Key) : Option StoredValue :=
  (s.entries.find? fun e => key.same e.1).map (·.2)

/-- Entries with one more or one changed; a known key keeps its place. -/
def put (key : Key) (v : StoredValue) : List (Key × StoredValue) → List (Key × StoredValue)
  | [] => [(key, v)]
  | (k, w) :: rest => if key.same k then (k, v) :: rest else (k, w) :: put key v rest

/-- The store without the entry of a key. -/
def erase (s : Store) (key : Key) : Store :=
  { s with entries := s.entries.filter fun e => !key.same e.1 }

/-- The store without expired entries. -/
def purge (now : Number) (s : Store) : Store :=
  { s with entries := s.entries.filter fun e => !e.2.isExpired now }

/-- The end of a lifetime that starts now; `null` never ends. -/
def expiryAt (now : Number) (lifetime : Value) : Except Fault (Option Number) :=
  if lifetime.isNull then .ok none else (lifetime.addTo now).map some

/-! ## Operations -/

/-- Store a value, with a lifetime of its own or the store's. -/
def set (now : Number) (key : Key) (v lifetime : Value) (s : Store) : Except Fault Store := do
  let expiry? ← expiryAt now (if lifetime.isNull then s.lifetime else lifetime)
  return { s with entries := put key { value := v, expiry? } s.entries }

/-- The value of a key, `null` if there is none; an expired entry is taken out. -/
def get (now : Number) (key : Key) (s : Store) : Value × Store :=
  match s.stored? key with
  | none => (.null, s)
  | some v => if v.isExpired now then (.null, s.erase key) else (v.value, s)

/-- Delete a key. Tells whether it had an entry. -/
def delete (key : Key) (s : Store) : Bool × Store :=
  ((s.stored? key).isSome, s.erase key)

/-- The keys in order, after the expired entries have been taken out. Keys that cannot be compared are
a fault. -/
def keys (now : Number) (s : Store) : Except Fault (List Key) × Store :=
  let s := s.purge now
  (Value.sortBy Key.toValue (s.entries.map (·.1)), s)

/-- Delete everything. Tells how many entries there were. -/
def clear (s : Store) : Nat × Store := (s.entries.length, { s with entries := [] })

/-! ## The log of a finished run -/

/-- The store with the lines of a log wherever a value refers to the log of the run. -/
def settle (log : List Value) (s : Store) : Store :=
  { s with entries := s.entries.map fun e => (e.1, { e.2 with value := e.2.value.settle log }) }

/-! ## Entries of texts -/

theorem same_str_eq (k : String) (l : Key) : (Key.str k).same l = decide (l = .str k) := by
  rw [Key.same]
  by_cases h : l = .str k <;> simp [h]

theorem find?_put (key k : String) (v : StoredValue) (es : List (Key × StoredValue)) :
    (put (.str key) v es).find? (fun e => (Key.str k).same e.1) =
      if key = k then some (.str key, v) else es.find? fun e => (Key.str k).same e.1 := by
  simp only [same_str_eq]
  induction es with
  | nil => by_cases h : key = k <;> simp [put, h]
  | cons e rest ih =>
    obtain ⟨l, w⟩ := e
    by_cases hl : l = .str key
    · subst hl
      by_cases h : key = k <;> simp [put, h]
    · by_cases hk : l = .str k
      · subst hk
        have h : key ≠ k := fun h => hl (by rw [h])
        simp [put, h]
      · simp [put, same_str_eq, hl, hk, ih]

/-- A key that has been erased has no entry; other keys keep theirs. -/
theorem stored?_erase (key k : String) (s : Store) :
    (s.erase (.str key)).stored? (.str k) = if key = k then none else s.stored? (.str k) := by
  have hfind : (s.entries.filter fun e => !(Key.str key).same e.1).find?
        (fun e => (Key.str k).same e.1)
      = if key = k then none else s.entries.find? fun e => (Key.str k).same e.1 := by
    simp only [same_str_eq]
    induction s.entries with
    | nil => simp
    | cons e rest ih =>
      obtain ⟨l, w⟩ := e
      by_cases hl : l = .str key
      · subst hl
        by_cases h : key = k <;> simp_all
      · by_cases hk : l = .str k
        · subst hk
          have h : key ≠ k := fun h => hl (by rw [h])
          simp [h, Ne.symm h]
        · simp [hl, hk, ih]
  by_cases h : key = k <;> simp [stored?, erase, hfind, h]

end Store

end Stepwise
