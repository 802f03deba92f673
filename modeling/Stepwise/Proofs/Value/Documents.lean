-- SUMMARY: What documents hold is built up from scalars, as lists and entry by entry.
import Stepwise.Proofs.Value.Lawful
import Stepwise.Yaml.Document

/-!
# Values of documents

The readers of JSON and of YAML build values up: scalars are read from words and numbers, lists
from their items, and dictionaries by storing one entry after the other. So a property that
values gain in this way holds of everything that is read.
-/

namespace Stepwise

open Checks Value

variable {P : Value → Prop}

/-! ## JSON -/

namespace Json

theorem isScalar_of_readWord? {cs rest : List Char} {v : Value}
    (h : readWord? cs = some (v, rest)) : v.isScalar = true := by
  obtain ⟨w, hw, h⟩ := List.exists_of_findSome?_eq_some h
  obtain ⟨after, -, hafter⟩ := Option.map_eq_some_iff.1 h
  cases hafter
  have hwords : ∀ w ∈ words, w.2.isScalar = true := by decide
  exact hwords w hw

theorem isScalar_of_readNumber {cs rest : List Char} {v : Value}
    (h : readNumber cs = .ok (v, rest)) : v.isScalar = true := by
  unfold readNumber at h
  -- The sign, the whole part, the fraction and the power of ten are read before the value is made.
  split at h
  split at h
  split at h
  · cases h
  split at h
  split at h
  split at h
  · obtain ⟨n, -, h⟩ := bind_iff.1 h
    cases h
    rfl
  · cases h
    rfl

theorem isScalar_of_readScalar {cs rest : List Char} {v : Value}
    (h : readScalar cs = .ok (v, rest)) : v.isScalar = true := by
  unfold readScalar at h
  split at h
  · split at h
    · cases h
      rfl
    · cases h
  · split at h
    · rename_i hword
      cases h
      exact isScalar_of_readWord? hword
    · exact isScalar_of_readNumber h

mutual

/-- The value at the front of a text has the property. -/
theorem holds_of_readValue (hP : BuildsUp P) : (room fuel : Nat) → (cs : List Char) →
    {v : Value} → {rest : List Char} → readValue room fuel cs = .ok (v, rest) → P v
  | _, 0, _, _, _, h => by cases h
  | room, fuel + 1, cs, v, rest, h => by
    unfold readValue at h
    split at h
    · split at h
      · cases h
      · split at h
        · cases h
          exact hP.list nofun
        · obtain ⟨⟨vs, after⟩, hitems, h⟩ := map_iff.1 h
          cases h
          exact hP.list (holds_of_readItems hP _ fuel _ hitems)
    · split at h
      · cases h
      · split at h
        · cases h
          exact hP.empty
        · obtain ⟨⟨d, after⟩, hmembers, h⟩ := map_iff.1 h
          cases h
          exact holds_of_readMembers hP _ fuel [] hP.empty _ hmembers
    · exact hP.scalar (isScalar_of_readScalar h)

theorem holds_of_readItems (hP : BuildsUp P) : (room fuel : Nat) → (cs : List Char) →
    {vs : List Value} → {rest : List Char} → readItems room fuel cs = .ok (vs, rest) →
      ∀ v ∈ vs, P v
  | _, 0, _, _, _, h => by cases h
  | room, fuel + 1, cs, vs, rest, h => by
    rw [readItems] at h
    obtain ⟨⟨v, after⟩, hv, h⟩ := bind_iff.1 h
    have hv := holds_of_readValue hP room fuel cs hv
    dsimp only at h
    split at h
    · cases h
      simpa using hv
    · obtain ⟨⟨vs, after⟩, hvs, h⟩ := bind_iff.1 h
      cases h
      simpa using ⟨hv, holds_of_readItems hP room fuel _ hvs⟩
    · cases h

theorem holds_of_readMembers (hP : BuildsUp P) : (room fuel : Nat) → (d : Dict) → P (.dict d) →
    (cs : List Char) → {members : Dict} → {rest : List Char} →
      readMembers room fuel d cs = .ok (members, rest) → P (.dict members)
  | _, 0, _, _, _, _, _, h => by cases h
  | room, fuel + 1, d, hd, cs, members, rest, h => by
    unfold readMembers at h
    split at h
    · split at h
      · cases h
      · rename_i name after hname
        split at h
        · obtain ⟨⟨v, after⟩, hv, h⟩ := bind_iff.1 h
          have hv := holds_of_readValue hP room fuel _ hv
          have hd := hP.insert (.str name) hd hv
          dsimp only at h
          split at h
          · cases h
            exact hd
          · exact holds_of_readMembers hP room fuel _ hd _ h
          · cases h
        · cases h
    · cases h

end

/-- What a JSON document holds is built up. -/
theorem holds_of_read (hP : BuildsUp P) {s : String} {v : Value} (h : read s = .ok v) : P v := by
  unfold read at h
  dsimp only at h
  obtain ⟨⟨w, rest⟩, hw, h⟩ := bind_iff.1 h
  dsimp only at h
  split at h
  · cases h
    exact holds_of_readValue hP _ _ _ hw
  · cases h

end Json

/-! ## YAML -/

namespace Yaml

theorem isScalar_of_plainNumber? {cs : List Char} {v : Value}
    (h : plainNumber? cs = some (.ok v)) : v.isScalar = true := by
  unfold plainNumber? at h
  dsimp only at h
  split at h
  · obtain ⟨n, -, h⟩ := map_iff.1 (Option.some.inj h)
    cases h
    rfl
  · obtain ⟨x, -, h⟩ := map_iff.1 (Option.some.inj h)
    cases h
    rfl
  · cases h

theorem isScalar_of_plainValue? {text : String} {v : Value} (h : plainValue? text = some (.ok v)) :
    v.isScalar = true := by
  unfold plainValue? at h
  split at h
  · cases h
    rfl
  · split at h
    · cases h
      rfl
    · split at h
      · cases h
        rfl
      · split at h
        · cases h
        · cases hnumber : plainNumber? text.toList with
          | none =>
            rw [hnumber] at h
            cases h
            rfl
          | some answer =>
            rw [hnumber] at h
            cases h
            exact isScalar_of_plainNumber? hnumber

theorem isScalar_of_scalarValue {text : String} {v : Value} (h : scalarValue text = .ok v) :
    v.isScalar = true := by
  unfold scalarValue at h
  cases hplain : plainValue? text with
  | none =>
    rw [hplain] at h
    cases h
  | some answer =>
    rw [hplain] at h
    cases h
    exact isScalar_of_plainValue? hplain

namespace Node

mutual

/-- The value of a node has the property. -/
theorem holds_of_toValue (hP : BuildsUp P) : (n : Node) → {v : Value} → n.toValue = .ok v → P v
  | .scalar text plain, v, h => by
    cases plain with
    | false =>
      rw [toValue] at h
      cases h
      exact hP.scalar rfl
    | true =>
      rw [toValue] at h
      exact hP.scalar (isScalar_of_scalarValue h)
  | .sequence items, v, h => by
    rw [toValue] at h
    obtain ⟨vs, hvs, h⟩ := bind_iff.1 h
    cases h
    exact hP.list (holds_of_toValues hP items hvs)
  | .mapping entries, v, h => by
    rw [toValue] at h
    obtain ⟨d, hd, h⟩ := bind_iff.1 h
    cases h
    exact holds_of_toEntries hP entries [] hP.empty hd

theorem holds_of_toValues (hP : BuildsUp P) : (ns : List Node) → {vs : List Value} →
    toValues ns = .ok vs → ∀ v ∈ vs, P v
  | [], vs, h => by
    rw [toValues] at h
    cases h
    exact nofun
  | n :: ns, vs, h => by
    simp only [toValues, bind_iff, pure_iff] at h
    obtain ⟨v, hv, rest, hrest, rfl⟩ := h
    simpa using ⟨holds_of_toValue hP n hv, holds_of_toValues hP ns hrest⟩

theorem holds_of_toEntries (hP : BuildsUp P) : (es : List (Node × Node)) → (d : Dict) →
    P (.dict d) → {entries : Dict} → toEntries d es = .ok entries → P (.dict entries)
  | [], d, hd, entries, h => by
    rw [toEntries] at h
    cases h
    exact hd
  | (key, n) :: es, d, hd, entries, h => by
    rw [toEntries] at h
    obtain ⟨keyValue, -, h⟩ := bind_iff.1 h
    split at h
    · cases h
    · rename_i k hk
      obtain ⟨v, hv, h⟩ := bind_iff.1 h
      exact holds_of_toEntries hP es _ (hP.insert k hd (holds_of_toValue hP n hv)) h

end

end Node

/-- What a YAML document holds is built up. -/
theorem holds_of_read (hP : BuildsUp P) {s : String} {v : Value} (h : read s = .ok v) : P v := by
  unfold read at h
  split at h
  · obtain ⟨n?, -, h⟩ := bind_iff.1 h
    split at h
    · cases h
      exact hP.scalar rfl
    · unfold Node.evaluate at h
      split at h
      · cases h
      · exact Node.holds_of_toValue hP _ h
  · obtain ⟨n?, -, h⟩ := bind_iff.1 h
    cases h

end Yaml

end Stepwise
