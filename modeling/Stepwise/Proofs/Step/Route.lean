-- SUMMARY: The way along a path: the containers it leads through, and the steps it leaves behind.
import Stepwise.Proofs.Step.Position

/-!
# Routes

On its way a path leads through containers, and in each branch that it enters it leaves
some steps behind. A run that pauses at the end of a path has done with the latter, and
comes through the former again when it is resumed. There one step more is left behind: the
one that paused it.
-/

namespace Stepwise

namespace Step

/-! ## Containers on the way -/

/-- The containers that a path leads through, from the outside in. -/
def along : List Frame → Step → List Step
  | [], _ => []
  | f :: fs, s =>
    s :: match s.branchNamed? f.branch with
      | none => []
      | some ss =>
        match ss.drop f.index.toNat with
        | [] => []
        | next :: _ => next.along fs

/-- The containers on the way through steps, the first of which is entered at a path. -/
def alongOf (fs : List Frame) : List Step → List Step
  | [] => []
  | s :: _ => s.along fs

@[simp] theorem along_nil (s : Step) : s.along [] = [] := rfl

@[simp] theorem alongOf_nil (ss : List Step) : alongOf [] ss = [] := by
  cases ss <;> rfl

theorem along_cons {s : Step} {f : Frame} {ss : List Step} (fs : List Frame)
    (h : s.branchNamed? f.branch = some ss) :
    s.along (f :: fs) = s :: alongOf fs (ss.drop f.index.toNat) := by
  simp only [along, h]
  cases ss.drop f.index.toNat <;> rfl

theorem alongOf_sublist_of {fs : List Frame} (h : ∀ s : Step, (s.along fs).Sublist s.nodes)
    (ss : List Step) : (alongOf fs ss).Sublist (nodesOf ss) := by
  cases ss with
  | nil => exact .refl _
  | cons s rest => exact (h s).trans (List.sublist_append_left _ _)

/-- The containers on the way stand in document order. -/
theorem along_sublist (fs : List Frame) (s : Step) : (s.along fs).Sublist s.nodes := by
  induction fs generalizing s with
  | nil => exact List.nil_sublist _
  | cons f fs ih =>
    rw [nodes_eq]
    cases hbranch : s.branchNamed? f.branch with
    | none =>
      simp only [along, hbranch]
      exact (List.nil_sublist _).cons_cons s
    | some ss =>
      rw [along_cons fs hbranch]
      have hdrop := (alongOf_sublist_of ih (ss.drop f.index.toNat)).trans
        (nodesOf_drop_sublist f.index.toNat ss)
      exact (hdrop.trans (branchNamed?_sublist hbranch)).cons_cons s

theorem alongOf_sublist (fs : List Frame) (ss : List Step) :
    (alongOf fs ss).Sublist (nodesOf ss) :=
  alongOf_sublist_of (along_sublist fs) ss

/-- The step at the end of a path is nested in every container on the way. -/
theorem mem_inner_of_along {fs : List Frame} {s x y : Step} {left : List Step}
    (h : s.seek fs = some (x, left)) (hy : y ∈ s.along fs) : x ∈ y.inner := by
  induction fs generalizing s left with
  | nil => cases hy
  | cons f fs ih =>
    obtain ⟨ss, hbranch, hin⟩ := Option.bind_eq_some_iff.1 (seek_cons f fs s ▸ h)
    obtain ⟨next, rest, left', hat, hseek, rfl⟩ := seekIn_eq_some.1 hin
    rw [along_cons fs hbranch, (stepAt?_eq_some.1 hat).2] at hy
    rcases List.mem_cons.1 hy with rfl | hy
    · exact (branchNamed?_sublist hbranch).subset
        (mem_nodesOf_of_stepAt? hat (mem_nodes_of_seek hseek))
    · exact ih hseek hy

/-! ## Steps left behind -/

/-- The steps that a path leaves behind: those before it in each branch that it enters. -/
def behind : List Frame → Step → List Step
  | [], _ => []
  | f :: fs, s =>
    match s.branchNamed? f.branch with
    | none => []
    | some ss =>
      ss.take f.index.toNat ++
        match ss.drop f.index.toNat with
        | [] => []
        | next :: _ => next.behind fs

/-- The steps left behind on the way through steps, the first of which is entered at a path. -/
def behindOf (fs : List Frame) : List Step → List Step
  | [] => []
  | s :: _ => s.behind fs

/-- The steps left behind at an index of a sequence, where a step is entered at a path. -/
def behindIn (index : Int) (fs : List Frame) (ss : List Step) : List Step :=
  ss.take index.toNat ++ behindOf fs (ss.drop index.toNat)

@[simp] theorem behind_nil (s : Step) : s.behind [] = [] := rfl

@[simp] theorem behindOf_nil (ss : List Step) : behindOf [] ss = [] := by
  cases ss <;> rfl

theorem behind_cons {s : Step} {f : Frame} {ss : List Step} (fs : List Frame)
    (h : s.branchNamed? f.branch = some ss) : s.behind (f :: fs) = behindIn f.index fs ss := by
  simp only [behind, h, behindIn]
  cases ss.drop f.index.toNat <;> rfl

theorem behindIn_zero (fs : List Frame) (s : Step) (ss : List Step) :
    behindIn 0 fs (s :: ss) = s.behind fs := rfl

/-- What is left behind in the rest of a sequence is left behind in the sequence. -/
theorem behindIn_drop {index : Int} {n : Nat} {ss : List Step} (h : 0 ≤ index) (fs : List Frame) :
    behindIn (index + n) fs ss = ss.take n ++ behindIn index fs (ss.drop n) := by
  have hsum : (index + n).toNat = n + index.toNat := by omega
  simp only [behindIn, hsum, List.take_add, List.drop_drop, List.append_assoc]

theorem behindIn_cons {index : Int} {s : Step} {ss : List Step} (h : 0 ≤ index) (fs : List Frame) :
    behindIn (index + 1) fs (s :: ss) = s :: behindIn index fs ss :=
  behindIn_drop (n := 1) h fs

/-- The next position leaves behind the step at this one as well. -/
theorem behind_next {fs : List Frame} {s x : Step} {left : List Step}
    (h : s.seek fs = some (x, left)) (hfs : fs ≠ []) :
    s.behind (nextFrames fs) = s.behind fs ++ [x] ∧ s.along (nextFrames fs) = s.along fs := by
  induction fs generalizing s left with
  | nil => exact absurd rfl hfs
  | cons f fs ih =>
    obtain ⟨ss, hbranch, hin⟩ := Option.bind_eq_some_iff.1 (seek_cons f fs s ▸ h)
    obtain ⟨next, rest, left', hat, hseek, rfl⟩ := seekIn_eq_some.1 hin
    obtain ⟨hindex, hdrop⟩ := stepAt?_eq_some.1 hat
    cases fs with
    | nil =>
      obtain ⟨rfl, -⟩ := Prod.mk.inj (Option.some.inj hseek)
      have htake : ss.take f.next.index.toNat = ss.take f.index.toNat ++ [next] := by
        have hnext : f.next.index.toNat = f.index.toNat + 1 := by simp only [Frame.next]; omega
        rw [hnext, List.take_add, hdrop]
        rfl
      rw [nextFrames, behind_cons [] (f := f.next) hbranch, behind_cons [] hbranch,
        along_cons [] (f := f.next) hbranch, along_cons [] hbranch]
      simp [behindIn, htake]
    | cons g fs =>
      obtain ⟨hbehind, halong⟩ := ih hseek (List.cons_ne_nil g fs)
      rw [nextFrames, behind_cons _ hbranch, behind_cons _ hbranch, along_cons _ hbranch,
        along_cons _ hbranch]
      simp [behindIn, hdrop, behindOf, alongOf, hbehind, halong]

end Step

end Stepwise
