-- SUMMARY: A store answers as the calls before decide: readings see what is live, deletions what is held.
import Mathlib.Data.List.Sort
import Mathlib.Data.String.Basic
import Stepwise.Proofs.Number.Order
import Stepwise.Proofs.Store.History

/-!
# Answers of a store

What `get` and `keys` answer is decided by the latest of the calls that affect a key, and by
the time: they find a value until it has expired. Which expired entries have been taken out
before is not seen there. `delete` and `clear` do see it, for they do not ask for the time:
they count every entry that no reading has found expired yet.
-/

namespace Stepwise.Store

/-! ## Answers and entries -/

/-- The value under a key is found unless it has expired. -/
theorem get_eq (now : Number) (key : Key) (s : Store) :
    (s.get now key).1 = ((s.stored? key).filter fun v => !v.isExpired now).elim .null (·.value) := by
  unfold get
  split
  · next h => simp [h]
  · next v h => cases hv : v.isExpired now <;> simp [h, hv, Option.filter_some]

theorem notAfter_str (a b : String) : Value.notAfter (.str a) (.str b) = decide (a ≤ b) := by
  simp only [Value.notAfter, Value.less, ← not_lt, decide_not]

/-- The keys of the entries that have not expired are listed in order. -/
theorem IsKeyed.keys_eq {ks : List String} {s : Store} (h : s.IsKeyed ks) (now : Number) :
    ∃ found : List String, (s.keys now).1 = .ok (found.map .str) ∧ found.SortedLT ∧
      ∀ k, k ∈ found ↔ ((s.stored? (.str k)).filter fun v => !v.isExpired now).isSome := by
  obtain ⟨left, hleft⟩ := h.filter fun e => !e.2.isExpired now
  refine ⟨left.mergeSort (· ≤ ·), ?_, ?_, fun k => ?_⟩
  · have htexts : ∀ key ∈ left.map Key.str, key.toValue.isText = true := by
      intro key hkey
      obtain ⟨k, -, rfl⟩ := List.mem_map.1 hkey
      rfl
    rw [Store.keys, purge, hleft.entries_eq, Value.sortBy_of_texts htexts]
    refine congrArg Except.ok (List.map_mergeSort fun a _ b _ => ?_).symm
    exact (notAfter_str a b).symm
  · have hsorted : (left.mergeSort (· ≤ ·)).SortedLE := List.sortedLE_mergeSort
    exact hsorted.sortedLT_of_nodup (List.nodup_mergeSort.2 hleft.nodup)
  · rw [List.mem_mergeSort, hleft.mem_iff, h.stored?_filter]

/-! ## Answers and calls -/

section
variable {lifetime : Value} {history : List (Number × Call)} {now : Number}

theorem readings_subset (k : String) : ∀ t ∈ readings lifetime k history, t ∈ history.map (·.1) := by
  intro t ht
  obtain ⟨c, hc, rfl⟩ := List.mem_map.1 ht
  have hc := List.mem_reverse.1 ((List.takeWhile_prefix _).subset (List.mem_of_mem_filter hc))
  exact List.mem_map_of_mem hc

/-- A value that had expired at one time has expired at all later ones. -/
theorem isExpired_of_atMost {v : StoredValue} {t : Number} (h : v.isExpired t) (ht : t.atMost now) :
    v.isExpired now := by
  unfold StoredValue.isExpired at *
  cases hv : v.expiry? with
  | none => simp [hv] at h
  | some expiry =>
    rw [hv] at h
    exact Number.less_of_less_of_atMost h ht

/-- While time does not go back, what is live is what is held and has not expired. -/
theorem held?_filter (h : ∀ t ∈ history.map (·.1), t.atMost now) (k : String) :
    (held? lifetime k history).filter (fun v => !v.isExpired now) = live? lifetime k history now := by
  unfold held? live?
  cases hlatest : latest? lifetime k history with
  | none => rfl
  | some v =>
    have hall (hv : v.isExpired now = false) : (readings lifetime k history).all (!v.isExpired ·) := by
      refine List.all_eq_true.2 fun t ht => ?_
      cases hvt : v.isExpired t
      · rfl
      · rw [isExpired_of_atMost hvt (h t (readings_subset k t ht))] at hv
        cases hv
    cases hv : v.isExpired now
    · simp [Option.filter_some, hv, hall hv]
    · simp [Option.filter_some, hv]

/-- A value is found under a key exactly if the latest call that affects the key stored it and it has not
expired. -/
theorem get_after_eq (h : ∀ t ∈ history.map (·.1), t.atMost now) (k : String) :
    ((after { lifetime } history).get now (.str k)).1 =
      (live? lifetime k history now).elim .null (·.value) := by
  rw [get_eq, stored?_after, held?_filter h]

/-- The keys of the values that are live are listed in order. -/
theorem keys_after_eq (h : ∀ t ∈ history.map (·.1), t.atMost now) :
    ∃ found : List String, ((after { lifetime } history).keys now).1 = .ok (found.map .str) ∧
      found.SortedLT ∧ ∀ k, k ∈ found ↔ (live? lifetime k history now).isSome := by
  obtain ⟨-, ks, hks⟩ := after_isKeyed lifetime history
  obtain ⟨found, hfound, hsorted, hmem⟩ := hks.keys_eq now
  refine ⟨found, hfound, hsorted, fun k => ?_⟩
  rw [hmem, stored?_after, held?_filter h]

/-- The keys that are listed depend on what is live only. -/
theorem keys_after_congr {history' : List (Number × Call)}
    (h : ∀ t ∈ history.map (·.1), t.atMost now) (h' : ∀ t ∈ history'.map (·.1), t.atMost now)
    (hlive : ∀ k, live? lifetime k history now = live? lifetime k history' now) :
    ((after { lifetime } history).keys now).1 = ((after { lifetime } history').keys now).1 := by
  obtain ⟨found, hfound, hsorted, hmem⟩ := keys_after_eq h
  obtain ⟨found', hfound', hsorted', hmem'⟩ := keys_after_eq h'
  have heq : found = found' :=
    hsorted.eq_of_mem_iff hsorted' fun k => by rw [hmem, hmem', hlive]
  rw [hfound, hfound', heq]

/-- What is live is held. -/
theorem held?_of_live? {k : String} {v : StoredValue} (h : ∀ t ∈ history.map (·.1), t.atMost now)
    (hv : live? lifetime k history now = some v) : held? lifetime k history = some v := by
  rw [← held?_filter h] at hv
  exact (Option.filter_eq_some_iff.1 hv).1

/-- After a reading what is held under its key is what is live. -/
theorem held?_concat_reading {k : String} {c : Call} (h : ∀ t ∈ history.map (·.1), t.atMost now)
    (hreading : c.isReading) (hreads : c.reads k) :
    held? lifetime k (history ++ [(now, c)]) = live? lifetime k history now := by
  rw [held?_concat, Call.leaves?_of_isReading hreading, Option.getD_none, if_pos hreads, held?_filter h]

/-- A key is deleted exactly if a value is held under it. -/
theorem delete_after_eq (history : List (Number × Call)) (k : String) :
    ((after { lifetime } history).delete (.str k)).1 = (held? lifetime k history).isSome := by
  rw [delete, stored?_after]

/-- Clearing counts the keys under which a value is held. -/
theorem clear_after_eq (lifetime : Value) (history : List (Number × Call)) :
    ∃ ks : List String, ks.Nodup ∧ (∀ k, k ∈ ks ↔ (held? lifetime k history).isSome) ∧
      (after { lifetime } history).clear.1 = ks.length := by
  obtain ⟨-, ks, hks⟩ := after_isKeyed lifetime history
  refine ⟨ks, hks.nodup, fun k => ?_, hks.length_eq⟩
  rw [hks.mem_iff, stored?_after]

end

/-! ## What readings see -/

/-- Values with the lifetime of the store and with one of their own, read when the first has expired and
again later. -/
def lapses : List (Number × Call) :=
  [(.int 1000, .set "b" (.int 1) .null), (.int 1000, .set "a" (.int 2) (.int 20)),
    (.int 1000, .set "c" (.int 3) (.int 15)), (.int 1011, .get "b"), (.int 1011, .set "b" (.int 4) .null),
    (.int 1012, .keys), (.int 1012, .delete "c")]

/-- Just after the keys have been listed, exactly those that were listed are deleted and counted. -/
theorem listed_deleted (lifetime : Value) {history : List (Number × Call)} {now : Number}
    (h : ∀ t ∈ history.map (·.1), t.atMost now) :
    ∃ found : List String, ((after { lifetime } history).keys now).1 = .ok (found.map .str) ∧
      (∀ k, ((after { lifetime } (history ++ [(now, .keys)])).delete (.str k)).1 = decide (k ∈ found)) ∧
      (after { lifetime } (history ++ [(now, .keys)])).clear.1 = found.length := by
  obtain ⟨found, hfound, hsorted, hmem⟩ :
      ∃ found : List String, ((after { lifetime } history).keys now).1 = .ok (found.map .str) ∧
        found.SortedLT ∧ ∀ k, k ∈ found ↔ (live? lifetime k history now).isSome := keys_after_eq h
  have hheld (k : String) :
      (held? lifetime k (history ++ [(now, .keys)])).isSome = decide (k ∈ found) := by
    rw [held?_concat_reading h rfl rfl, Bool.eq_iff_iff, ← hmem, decide_eq_true_eq]
  refine ⟨found, hfound, fun k => ?_, ?_⟩
  · rw [delete_after_eq, hheld]
  · obtain ⟨ks, hnodup, hks, hclear⟩ := clear_after_eq lifetime (history ++ [(now, .keys)])
    have hperm : ks.Perm found := by
      refine (List.perm_ext_iff_of_nodup hnodup hsorted.nodup).2 fun k => ?_
      rw [hks, hheld, decide_eq_true_eq]
    rw [hclear, hperm.length_eq]

/-- A reading anywhere among the calls changes no answer to a later reading, and the answer to a later
deletion only where nothing is live. -/
theorem answers_of_insert (lifetime : Value) {earlier later : List (Number × Call)} {t now : Number}
    {c : Call} (hc : c.isReading) (ht : t.atMost now)
    (h : ∀ u ∈ (earlier ++ later).map (·.1), u.atMost now) :
    (∀ k, ((after { lifetime } (earlier ++ (t, c) :: later)).get now (.str k)).1 =
      ((after { lifetime } (earlier ++ later)).get now (.str k)).1) ∧
    ((after { lifetime } (earlier ++ (t, c) :: later)).keys now).1 =
      ((after { lifetime } (earlier ++ later)).keys now).1 ∧
    (∀ k, ((after { lifetime } (earlier ++ (t, c) :: later)).delete (.str k)).1 ≠
      ((after { lifetime } (earlier ++ later)).delete (.str k)).1 →
        live? lifetime k (earlier ++ later) now = none) := by
  have h' : ∀ u ∈ (earlier ++ (t, c) :: later).map (·.1), u.atMost now := by
    intro u hu
    simp only [List.map_append, List.map_cons, List.mem_append, List.mem_cons] at hu h
    rcases hu with hu | rfl | hu
    · exact h u (.inl hu)
    · exact ht
    · exact h u (.inr hu)
  have hlive (k : String) : live? lifetime k (earlier ++ (t, c) :: later) now =
      live? lifetime k (earlier ++ later) now := by rw [live?, latest?_insert earlier later t hc, live?]
  refine ⟨fun k => ?_, keys_after_congr h' h hlive, fun k hk => ?_⟩
  · rw [get_after_eq h', hlive, get_after_eq h]
  · cases hv : live? lifetime k (earlier ++ later) now with
    | none => rfl
    | some v =>
      refine absurd ?_ hk
      rw [delete_after_eq, delete_after_eq, held?_of_live? h hv, held?_of_live? h' (hlive k ▸ hv)]

/-- `delete` and `clear` answer by what is held: every value that is live, and those that have expired and
that no reading has found expired. Just after a reading these are the live ones. A reading anywhere
among the calls changes no answer to a later reading, and what it takes out from later deletions is
nothing that is live. -/
theorem deletions_see_held (lifetime : Value) (history : List (Number × Call)) (now : Number)
    (h : ∀ t ∈ history.map (·.1), t.atMost now) :
    (∀ k, ((after { lifetime } history).delete (.str k)).1 = (held? lifetime k history).isSome) ∧
    (∃ ks : List String, ks.Nodup ∧ (∀ k, k ∈ ks ↔ (held? lifetime k history).isSome) ∧
      (after { lifetime } history).clear.1 = ks.length) ∧
    (∀ k v, live? lifetime k history now = some v → held? lifetime k history = some v) ∧
    (∀ k, ((after { lifetime } (history ++ [(now, .get k)])).delete (.str k)).1 =
      (live? lifetime k history now).isSome) ∧
    (∃ found : List String, ((after { lifetime } history).keys now).1 = .ok (found.map .str) ∧
      (∀ k, ((after { lifetime } (history ++ [(now, .keys)])).delete (.str k)).1 = decide (k ∈ found)) ∧
      (after { lifetime } (history ++ [(now, .keys)])).clear.1 = found.length) ∧
    ∀ (earlier later : List (Number × Call)) (t : Number) (c : Call),
      history = earlier ++ later → c.isReading → t.atMost now →
        (∀ k, ((after { lifetime } (earlier ++ (t, c) :: later)).get now (.str k)).1 =
          ((after { lifetime } history).get now (.str k)).1) ∧
        ((after { lifetime } (earlier ++ (t, c) :: later)).keys now).1 =
          ((after { lifetime } history).keys now).1 ∧
        (∀ k, ((after { lifetime } (earlier ++ (t, c) :: later)).delete (.str k)).1 ≠
          ((after { lifetime } history).delete (.str k)).1 → live? lifetime k history now = none) := by
  refine ⟨delete_after_eq history, clear_after_eq lifetime history, fun k v => held?_of_live? h,
    fun k => ?_, listed_deleted lifetime h, ?_⟩
  · rw [delete_after_eq, held?_concat_reading h rfl (by simp [Call.reads])]
  · rintro earlier later t c rfl hc ht
    exact answers_of_insert lifetime hc ht h

/-- A value that has expired, and no reading of it. -/
def lapsed : List (Number × Call) := [(.int 1000, .set "a" (.int 1) (.int 5))]

/-- The expired value is held, until a reading finds it. -/
theorem deletions_see_held_of_lapsed :
    (∀ t ∈ lapsed.map (·.1), t.atMost (.int 1010)) ∧
      ((after {} lapsed).delete (.str "a")).1 = true ∧
      ((after {} (lapsed ++ [(.int 1010, .get "a")])).delete (.str "a")).1 = false := by
  have htimes : ∀ t ∈ lapsed.map (·.1), t.atMost (.int 1010) := by decide
  obtain ⟨hdelete, -, -, hread, -⟩ := deletions_see_held .null lapsed (.int 1010) htimes
  exact ⟨htimes, hdelete "a", hread "a"⟩

/-- A key is deleted and counted under which no reading would have found anything; and not any more once
there has been a reading. -/
theorem expired_value_deleted :
    ((after {} lapsed).get (.int 1010) (.str "a")).1 = .null ∧
      ((after {} lapsed).keys (.int 1010)).1 = .ok [] ∧
      ((after {} lapsed).delete (.str "a")).1 = true ∧
      (after {} lapsed).clear.1 = 1 ∧
      ((after {} (lapsed ++ [(.int 1010, .get "a")])).delete (.str "a")).1 = false ∧
      (after {} (lapsed ++ [(.int 1010, .get "a")])).clear.1 = 0 := by
  have hnone : ((after {} lapsed).purge (.int 1010)).entries = [] := rfl
  have hkeys : ((after {} lapsed).keys (.int 1010)).1 = .ok [] := by
    simp [keys, hnone, Value.sortBy_of_texts]
  exact ⟨rfl, hkeys, rfl, rfl, rfl, rfl⟩

end Stepwise.Store
