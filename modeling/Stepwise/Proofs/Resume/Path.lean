-- SUMMARY: The check of resume paths accepts exactly the paths that lead through the tree of steps.
import Mathlib.Data.List.Forall2
import Stepwise.Proofs.Checks
import Stepwise.Proofs.Run.Opening

/-!
# Checked resume paths

The engine checks the frames of a resume path one after the other before it runs. It reads
each index as an integer, from a text or a float too, and then the frames have to lead from
container to container (`Step.Admits`). With integer indices they are read as the run reads
them. A path that the engine reports itself passes the check.
-/

namespace Stepwise

/-- The value is an integer, where the truth values count as integers. -/
def Value.isInteger : Value → Bool
  | .int _ | .bool _ => true
  | _ => false

/-- The index of a frame, if it has one, is an integer. -/
def Frame.HasIntegerIndex (frame : Value) : Prop :=
  ∀ (d : Dict) (v : Value), frame = .dict d → Dict.field? d "index" = some v → v.isInteger = true

def Frame.IsReadOf (f : Frame) (d : Dict) : Prop :=
  Dict.field? d "branch" = some (.str f.branch) ∧
    ∃ v, Dict.field? d "index" = some v ∧ ResumePath.toInt v = .ok f.index

theorem Frame.isReadOf_toDict (f : Frame) : f.IsReadOf f.toDict := ⟨rfl, .int f.index, rfl, rfl⟩

/-- Where the run reads a frame as one, the check has read it as the same. -/
theorem Frame.isReadOf_iff {d : Dict} {f : Frame} (h : Frame.ofDict? d = some f) {g : Frame} :
    g.IsReadOf d ↔ g = f := by
  obtain ⟨e, he, hbranch, hindex⟩ := Frame.ofDict?_eq_some.1 h
  have hfields : Dict.field? d "branch" = some e.branch ∧ Dict.field? d "index" = some e.start := by
    unfold Entry.ofFrame at he
    split at he
    · rename_i hb hi
      cases he
      exact ⟨hb, hi⟩
    · cases he
  have hread : ResumePath.toInt e.start = .ok f.index := by
    unfold Entry.index at hindex
    split at hindex
    · rename_i hstart
      rwa [hstart]
    · rename_i hstart
      rwa [hstart]
    · cases hindex
  rw [IsReadOf, hfields.1, hfields.2, hbranch]
  obtain ⟨branch, index⟩ := g
  constructor
  · rintro ⟨hsame, v, hv, hint⟩
    cases hsame
    cases hv
    cases hread.symm.trans hint
    rfl
  · rintro rfl
    exact ⟨rfl, _, rfl, hread⟩

namespace ResumePath

open Checks

/-- A field of a frame is one of a dictionary. -/
theorem field_eq_ok {frame v : Value} {name : String} :
    field frame name = .ok v ↔ ∃ d : Dict, frame = .dict d ∧ Dict.field? d name = some v := by
  cases frame with
  | dict d =>
    simp only [field, Value.dict.injEq, exists_eq_left']
    cases Dict.field? d name <;> simp
  | _ => simp [field]

/-- An integer is read as the index that it is. -/
theorem toInt_of_isInteger {v : Value} {index : Int} (hv : v.isInteger = true)
    (h : toInt v = .ok index) (branch : Value) : Entry.index ⟨branch, v⟩ = .ok index := by
  cases v with
  | int n => exact h
  | bool b => exact h
  | _ => cases hv

/-- With an integer index the run reads the frame that the check reads. -/
theorem ofDict?_of_isReadOf {d : Dict} {f : Frame} (h : f.IsReadOf d)
    (hint : Frame.HasIntegerIndex (.dict d)) : Frame.ofDict? d = some f := by
  obtain ⟨hbranch, v, hindex, hread⟩ := h
  refine Frame.ofDict?_eq_some.2 ⟨⟨.str f.branch, v⟩, ?_, rfl, ?_⟩
  · rw [Entry.ofFrame, hbranch, hindex]
  · exact toInt_of_isInteger (hint d v rfl hindex) hread (.str f.branch)

/-- What a frame that can be entered holds. -/
theorem enter_eq_ok {container : Step} {frame branch : Value} {ss : List Step} {index : Int} :
    enter container frame = .ok (branch, ss, index) ↔
      ∃ (d : Dict) (f : Frame), frame = .dict d ∧ f.IsReadOf d ∧ branch = .str f.branch ∧
        index = f.index ∧ container.branchNamed? f.branch = some ss := by
  simp only [enter, bind_iff, pure_iff, Prod.mk.injEq]
  constructor
  · rintro ⟨b, hb, ss', hss, v, hv, n, hn, rfl, rfl, rfl⟩
    obtain ⟨d, rfl, hbranch⟩ := field_eq_ok.1 hb
    obtain ⟨d', heq, hindex⟩ := field_eq_ok.1 hv
    cases heq
    obtain ⟨name, rfl, hnamed⟩ := Step.branch_eq_ok hss
    exact ⟨d, { branch := name, index := n }, rfl, ⟨hbranch, v, hindex, hn⟩, rfl, rfl, hnamed⟩
  · rintro ⟨d, f, rfl, ⟨hbranch, v, hindex, hread⟩, rfl, rfl, hnamed⟩
    have hss : container.branch (.str f.branch) = .ok ss := by simp [Step.branch, hnamed]
    exact ⟨_, field_eq_ok.2 ⟨d, rfl, hbranch⟩, ss, hss, v, field_eq_ok.2 ⟨d, rfl, hindex⟩, _, hread,
      rfl, rfl, rfl⟩

/-- The check of a frame that can be entered goes on in the step that the frame leads to. -/
theorem check_cons {container : Step} {d : Dict} {f : Frame} {rest : List Value} {ss : List Step}
    (hf : f.IsReadOf d) (hbranch : container.branchNamed? f.branch = some ss) :
    check container (.dict d :: rest) =
      if f.index < 0 ∨ ss.length < f.index then
        .error (indexOutOfRange container (.str f.branch) f.index)
      else match rest, ss[f.index.toNat]? with
        | [], _ => .ok ()
        | _, some next => check next rest
        | _, none => .error (pastEnd (.str f.branch)) := by
  rw [check, enter_eq_ok.2 ⟨d, f, rfl, hf, rfl, rfl, hbranch⟩, mapError_ok, ok_bind]
  dsimp only
  split
  · rfl
  · rfl

/-- A path passes the check if and only if it consists of dictionaries that are read as frames, and
these lead from container to container. -/
theorem check_eq_ok {container : Step} {path : List Value} :
    check container path = .ok () ↔
      ∃ (ds : List Dict) (fs : List Frame), path = ds.map .dict ∧
        List.Forall₂ Frame.IsReadOf fs ds ∧ container.Admits fs := by
  induction path generalizing container with
  | nil =>
    refine iff_of_true rfl ⟨[], [], rfl, .nil, trivial⟩
  | cons frame rest ih =>
    constructor
    · intro h
      obtain ⟨⟨branch, ss, index⟩, henter, -⟩ := bind_iff.1 h
      obtain ⟨d, f, rfl, hf, -, -, hbranch⟩ := enter_eq_ok.1 (mapError_iff.1 henter)
      rw [check_cons hf hbranch] at h
      split at h
      · cases h
      · have hbounds : 0 ≤ f.index ∧ f.index ≤ ss.length := by omega
        cases rest with
        | nil => exact ⟨[d], [f], rfl, .cons hf .nil, ss, hbranch, hbounds.1, hbounds.2, .inl rfl⟩
        | cons frame' rest =>
          cases hnext : ss[f.index.toNat]? with
          | none =>
            rw [hnext] at h
            cases h
          | some next =>
            rw [hnext] at h
            obtain ⟨ds, fs, hds, hreads, hadmits⟩ := ih.1 h
            obtain ⟨more, hdrop⟩ := exists_drop_eq_cons.2 hnext
            exact ⟨d :: ds, f :: fs, by rw [hds, List.map_cons], .cons hf hreads, ss, hbranch,
              hbounds.1, hbounds.2, .inr ⟨next, more, hdrop, hadmits⟩⟩
    · rintro ⟨ds, fs, hpath, hreads, hadmits⟩
      cases hreads with
      | nil => cases hpath
      | @cons f d fs ds hf hreads =>
        cases hpath
        obtain ⟨ss, hbranch, hlow, hhigh, hrest⟩ := hadmits
        rw [check_cons hf hbranch, if_neg (by omega)]
        cases hreads with
        | nil => rfl
        | @cons g e fs ds hg hreads =>
          obtain ⟨next, more, hdrop, hadmits⟩ := hrest.resolve_left (List.cons_ne_nil g fs)
          rw [exists_drop_eq_cons.1 ⟨more, hdrop⟩]
          exact ih.2 ⟨e :: ds, g :: fs, rfl, .cons hg hreads, hadmits⟩

/-- Frames with integer indices are read in the run as they are in the check. -/
theorem filterMap_of_isReadOf {ds : List Dict} {fs : List Frame}
    (hreads : List.Forall₂ Frame.IsReadOf fs ds)
    (hint : ∀ d ∈ ds, Frame.HasIntegerIndex (.dict d)) :
    (∀ d ∈ ds, (Frame.ofDict? d).isSome = true) ∧ ds.filterMap Frame.ofDict? = fs := by
  induction hreads with
  | nil => exact ⟨nofun, rfl⟩
  | @cons f d fs ds hf _ ih =>
    simp only [List.forall_mem_cons] at hint ⊢
    have hread := ofDict?_of_isReadOf hf hint.1
    obtain ⟨hlegible, hrest⟩ := ih hint.2
    exact ⟨⟨by rw [hread]; rfl, hlegible⟩, by rw [List.filterMap_cons_some hread, hrest]⟩

/-- A path of the engine's own frames passes the check if they lead from container to container. -/
theorem check_of_admits {container : Step} {fs : List Frame} (h : container.Admits fs) :
    check container (fs.map Frame.toValue) = .ok () := by
  refine check_eq_ok.2 ⟨fs.map Frame.toDict, fs, by rw [List.map_map]; rfl, ?_, h⟩
  rw [List.forall₂_map_right_iff]
  exact List.forall₂_same.2 fun f _ => f.isReadOf_toDict

end ResumePath

end Stepwise
