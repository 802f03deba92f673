-- SUMMARY: What a store holds is decided by the calls that were made of it.
import Mathlib.Data.List.Induction
import Mathlib.Data.List.Nodup
import Stepwise.Store

/-!
# Histories of a store

A store is asked one thing after the other, each at its time. What is under a key is decided
by the latest of the calls that affect the key, which stored a value there or took it out;
and a value that was stored is still held unless the key has been read since, after
the value had expired.
-/

namespace Stepwise.Store

/-! ## Calls -/

/-- What a store is asked. -/
inductive Call where
  | set (key : String) (v lifetime : Value)
  | get (key : String)
  | delete (key : String)
  | keys
  | clear
deriving DecidableEq, Repr

namespace Call

/-- The store after the call. A value that cannot be given its lifetime is not stored. -/
def apply (now : Number) (s : Store) : Call → Store
  | .set key v lifetime =>
    match s.set now (.str key) v lifetime with
    | .ok t => t
    | .error _ => s
  | .get key => (s.get now (.str key)).2
  | .delete key => (s.delete (.str key)).2
  | .keys => (s.keys now).2
  | .clear => s.clear.2

/-- The call only asks for what is there. -/
def isReading : Call → Bool
  | .get _ | .keys => true
  | _ => false

/-- The call asks, among others, for what is under the key. -/
def reads (k : String) : Call → Bool
  | .get key => key = k
  | .keys => true
  | _ => false

/-- What the call leaves under the key if it affects the key: the value that it stores, or nothing. The
value gets its own lifetime or the one of the store. -/
def leaves? (lifetime : Value) (k : String) (now : Number) : Call → Option (Option StoredValue)
  | .set key v own =>
    if key = k then
      match expiryAt now (if own.isNull then lifetime else own) with
      | .ok expiry? => some (some { value := v, expiry? })
      | .error _ => none
    else none
  | .delete key => if key = k then some none else none
  | .clear => some none
  | .get _ | .keys => none

theorem leaves?_of_isReading {c : Call} (h : c.isReading) (lifetime : Value) (k : String) (now : Number) :
    c.leaves? lifetime k now = none := by
  cases c
  case get => rfl
  case keys => rfl
  all_goals cases h

end Call

/-- The store after calls, each at its time. -/
def after (s : Store) (history : List (Number × Call)) : Store :=
  history.foldl (fun s c => c.2.apply c.1 s) s

@[simp] theorem after_concat (s : Store) (history : List (Number × Call)) (now : Number) (c : Call) :
    s.after (history ++ [(now, c)]) = c.apply now (s.after history) := by
  simp [after]

/-! ## What calls leave under a key -/

section
variable (lifetime : Value) (k : String)

/-- What the latest of the calls that affect the key has left there. -/
def latest? (history : List (Number × Call)) : Option StoredValue :=
  (history.reverse.findSome? fun c => c.2.leaves? lifetime k c.1).join

/-- What the latest of the calls that affect the key has left there, unless it has expired. -/
def live? (history : List (Number × Call)) (now : Number) : Option StoredValue :=
  (latest? lifetime k history).filter fun v => !v.isExpired now

/-- When the key has been read since the latest of the calls that affect it. -/
def readings (history : List (Number × Call)) : List Number :=
  ((history.reverse.takeWhile fun c => (c.2.leaves? lifetime k c.1).isNone).filter
    fun c => c.2.reads k).map (·.1)

/-- What the latest of the calls that affect the key has left there, unless the key has been read since
when it had expired. -/
def held? (history : List (Number × Call)) : Option StoredValue :=
  (latest? lifetime k history).filter fun v => (readings lifetime k history).all (!v.isExpired ·)

variable {lifetime k}

theorem latest?_concat (history : List (Number × Call)) (now : Number) (c : Call) :
    latest? lifetime k (history ++ [(now, c)]) =
      (c.leaves? lifetime k now).getD (latest? lifetime k history) := by
  cases h : c.leaves? lifetime k now <;> simp [latest?, h]

theorem readings_concat (history : List (Number × Call)) (now : Number) (c : Call) :
    readings lifetime k (history ++ [(now, c)]) =
      if (c.leaves? lifetime k now).isSome then []
      else if c.reads k then now :: readings lifetime k history else readings lifetime k history := by
  cases h : c.leaves? lifetime k now <;> cases hr : c.reads k <;> simp [readings, h, hr]

/-- A call that affects the key decides what is held there; a reading takes out what has expired. -/
theorem held?_concat (history : List (Number × Call)) (now : Number) (c : Call) :
    held? lifetime k (history ++ [(now, c)]) =
      (c.leaves? lifetime k now).getD
        (if c.reads k then (held? lifetime k history).filter fun v => !v.isExpired now
        else held? lifetime k history) := by
  rw [held?, held?, latest?_concat, readings_concat]
  cases h : c.leaves? lifetime k now with
  | some left => cases left <;> simp
  | none => cases hr : c.reads k <;> simp [Option.filter_filter, Bool.and_comm]

/-- Without the readings the latest call that affects the key is the same. -/
theorem latest?_filter (history : List (Number × Call)) :
    latest? lifetime k (history.filter fun c => !c.2.isReading) = latest? lifetime k history := by
  induction history using List.reverseRecOn with
  | nil => rfl
  | append_singleton history c ih =>
    obtain ⟨now, c⟩ := c
    rw [List.filter_append, latest?_concat]
    cases hc : c.isReading
    · simp [hc, latest?_concat, ih]
    · simp [hc, ih, Call.leaves?_of_isReading hc]

/-- A reading anywhere among the calls leaves the latest call that affects the key the same. -/
theorem latest?_insert (earlier later : List (Number × Call)) (now : Number) {c : Call} (hc : c.isReading) :
    latest? lifetime k (earlier ++ (now, c) :: later) = latest? lifetime k (earlier ++ later) := by
  rw [← latest?_filter, ← latest?_filter (earlier ++ later)]
  simp [hc]

end

/-! ## Stores of texts -/

theorem map_put (key : String) (v : StoredValue) (es : List (Key × StoredValue)) :
    (put (.str key) v es).map (·.1) =
      if .str key ∈ es.map (·.1) then es.map (·.1) else es.map (·.1) ++ [.str key] := by
  induction es with
  | nil => simp [put]
  | cons e rest ih =>
    obtain ⟨l, w⟩ := e
    by_cases hl : l = .str key
    · simp [put, same_str_eq, hl]
    · simp only [put, same_str_eq, hl, decide_false, Bool.false_eq_true, if_false, List.map_cons, ih,
        List.mem_cons, Ne.symm hl, false_or]
      split <;> simp

/-- Where every key has one entry, entries are taken out key by key. -/
theorem find?_filter {es : List (Key × StoredValue)} (h : (es.map (·.1)).Nodup) (k : String)
    (p : Key × StoredValue → Bool) :
    (es.filter p).find? (fun e => (Key.str k).same e.1) =
      (es.find? fun e => (Key.str k).same e.1).filter p := by
  simp only [same_str_eq]
  induction es with
  | nil => rfl
  | cons e rest ih =>
    obtain ⟨hout, hrest⟩ := List.nodup_cons.1 h
    by_cases hk : e.1 = .str k
    · have hnone : (rest.filter p).find? (fun e => decide (e.1 = .str k)) = none := by
        refine List.find?_eq_none.2 fun d hd => ?_
        simp only [decide_eq_true_eq]
        intro hd'
        exact hout (List.mem_map.2 ⟨d, List.mem_of_mem_filter hd, hd'.trans hk.symm⟩)
      cases hp : p e <;> simp [hk, hp, hnone, Option.filter_some]
    · cases hp : p e <;> simp [hk, hp, ih hrest]

/-- The entries of the store are under these texts, each in one entry. -/
structure IsKeyed (ks : List String) (s : Store) : Prop where
  entries_eq : s.entries.map (·.1) = ks.map .str
  nodup : ks.Nodup

namespace IsKeyed

variable {ks : List String} {s : Store}

theorem entries_nodup (h : s.IsKeyed ks) : (s.entries.map (·.1)).Nodup := by
  rw [h.entries_eq]
  exact h.nodup.map fun a b hab => by injection hab

theorem mem_iff (h : s.IsKeyed ks) (k : String) : k ∈ ks ↔ (s.stored? (.str k)).isSome := by
  have hmem : k ∈ ks ↔ Key.str k ∈ s.entries.map (·.1) := by simp [h.entries_eq]
  rw [hmem]
  simp [stored?, same_str_eq]

theorem length_eq (h : s.IsKeyed ks) : s.entries.length = ks.length := by
  rw [← List.length_map (·.1), h.entries_eq, List.length_map]

theorem filter (h : s.IsKeyed ks) (p : Key × StoredValue → Bool) :
    ∃ ks', { s with entries := s.entries.filter p }.IsKeyed ks' := by
  have hsub : ((s.entries.filter p).map (·.1)).Sublist (ks.map .str) :=
    h.entries_eq ▸ List.filter_sublist.map _
  obtain ⟨ks', hks', heq⟩ := List.sublist_map_iff.1 hsub
  exact ⟨ks', heq, h.nodup.sublist hks'⟩

theorem put (h : s.IsKeyed ks) (key : String) (v : StoredValue) :
    ∃ ks', { s with entries := Store.put (.str key) v s.entries }.IsKeyed ks' := by
  by_cases hk : key ∈ ks
  · refine ⟨ks, ?_, h.nodup⟩
    simp [map_put, h.entries_eq, hk]
  · refine ⟨ks ++ [key], ?_, ?_⟩
    · simp [map_put, h.entries_eq, hk]
    · exact List.concat_eq_append ▸ h.nodup.concat hk

theorem stored?_filter (h : s.IsKeyed ks) (k : String) (p : Key × StoredValue → Bool) :
    { s with entries := s.entries.filter p }.stored? (.str k) =
      (s.stored? (.str k)).filter fun v => p (.str k, v) := by
  rw [stored?, find?_filter h.entries_nodup, stored?]
  cases hfound : s.entries.find? fun e => (Key.str k).same e.1 with
  | none => rfl
  | some e =>
    have hkey : e.1 = .str k := by simpa [same_str_eq] using List.find?_some hfound
    obtain ⟨key, v⟩ := e
    cases hkey
    cases hp : p (.str k, v) <;> simp [hp, Option.filter_some]

end IsKeyed

/-! ## What is held -/

theorem apply_set (now : Number) (s : Store) (key : String) (v own : Value) :
    (Call.set key v own).apply now s =
      match expiryAt now (if own.isNull then s.lifetime else own) with
      | .ok expiry? => { s with entries := put (.str key) { value := v, expiry? } s.entries }
      | .error _ => s := by
  simp only [Call.apply, set]
  cases expiryAt now (if own.isNull then s.lifetime else own) <;> rfl

/-- Asking for a value leaves the store as it is or takes one entry out. -/
theorem apply_get_or (now : Number) (s : Store) (key : String) :
    (Call.get key).apply now s = s ∨ (Call.get key).apply now s = s.erase (.str key) := by
  simp only [Call.apply, get]
  split
  · exact .inl rfl
  · split
    · exact .inr rfl
    · exact .inl rfl

theorem apply_lifetime (now : Number) (c : Call) (s : Store) : (c.apply now s).lifetime = s.lifetime := by
  cases c with
  | set key v own =>
    rw [apply_set]
    cases expiryAt now (if own.isNull then s.lifetime else own) <;> rfl
  | get key =>
    rcases apply_get_or now s key with h | h
    · rw [h]
    · rw [h, erase]
  | delete key => rfl
  | keys => rfl
  | clear => rfl

namespace IsKeyed

variable {ks : List String} {s : Store}

theorem apply (h : s.IsKeyed ks) (now : Number) (c : Call) : ∃ ks', (c.apply now s).IsKeyed ks' := by
  cases c with
  | set key v own =>
    rw [apply_set]
    cases expiryAt now (if own.isNull then s.lifetime else own) with
    | error f => exact ⟨ks, h⟩
    | ok expiry? => exact h.put key _
  | get key =>
    rcases apply_get_or now s key with heq | heq
    · rw [heq]
      exact ⟨ks, h⟩
    · rw [heq]
      exact h.filter _
  | delete key => exact h.filter _
  | keys => exact h.filter _
  | clear => exact ⟨[], rfl, List.nodup_nil⟩

/-- After a call there is under a key what the call leaves there. A call that does not affect the key at
most takes out what it finds expired. -/
theorem stored?_apply (h : s.IsKeyed ks) (now : Number) (c : Call) (k : String) :
    (c.apply now s).stored? (.str k) =
      (c.leaves? s.lifetime k now).getD
        (if c.reads k then (s.stored? (.str k)).filter fun v => !v.isExpired now
        else s.stored? (.str k)) := by
  cases c with
  | set key v own =>
    simp only [apply_set, Call.leaves?, Call.reads]
    cases expiryAt now (if own.isNull then s.lifetime else own) with
    | error f => simp
    | ok expiry? => by_cases hkey : key = k <;> simp [stored?, find?_put, hkey]
  | get key =>
    simp only [Call.apply, Call.leaves?, Call.reads, get, Option.getD_none]
    by_cases hkey : key = k
    · subst hkey
      cases hstored : s.stored? (.str key) with
      | none => simp [hstored]
      | some v => cases hv : v.isExpired now <;> simp [hv, hstored, stored?_erase, Option.filter_some]
    · split
      · simp [hkey]
      · split <;> simp [hkey, stored?_erase]
  | delete key =>
    by_cases hkey : key = k <;> simp [Call.apply, Call.leaves?, Call.reads, delete, stored?_erase, hkey]
  | keys => exact h.stored?_filter k fun e => !e.2.isExpired now
  | clear => rfl

end IsKeyed

/-- Calls leave a store of texts, with the lifetime that it had. -/
theorem after_isKeyed (lifetime : Value) (history : List (Number × Call)) :
    (after { lifetime } history).lifetime = lifetime ∧ ∃ ks, (after { lifetime } history).IsKeyed ks := by
  induction history using List.reverseRecOn with
  | nil => exact ⟨rfl, [], rfl, List.nodup_nil⟩
  | append_singleton history c ih =>
    obtain ⟨hlifetime, ks, hks⟩ := ih
    obtain ⟨now, c⟩ := c
    rw [after_concat, apply_lifetime]
    exact ⟨hlifetime, hks.apply now c⟩

/-- What the store has under a key is what is held there after the calls. -/
theorem stored?_after (lifetime : Value) (history : List (Number × Call)) (k : String) :
    (after { lifetime } history).stored? (.str k) = held? lifetime k history := by
  induction history using List.reverseRecOn with
  | nil => rfl
  | append_singleton history c ih =>
    obtain ⟨hlifetime, ks, hks⟩ := after_isKeyed lifetime history
    obtain ⟨now, c⟩ := c
    rw [after_concat, hks.stored?_apply, ih, hlifetime, held?_concat]

end Stepwise.Store
