-- SUMMARY: Paths into a tree of steps: where they lead, what comes after, and which the engine accepts.
import Stepwise.Proofs.Step.Order
import Stepwise.Run.Engine

/-!
# Positions

A path of frames leads from a container through its branches to a step. What comes after
that step in document order is what a run that paused there has still to do: it is what
lies ahead of the next position, where the run resumes. The engine accepts a path exactly
if every frame names a branch and an index in it, and every frame but the last leads to a
step.
-/

namespace Stepwise

/-- The position one step later in the innermost branch. -/
def nextFrames : List Frame → List Frame
  | [] => []
  | [f] => [f.next]
  | f :: g :: fs => f :: nextFrames (g :: fs)

theorem nextPosition_toDict (fs : List Frame) :
    nextPosition (fs.map Frame.toDict) = (nextFrames fs).map Frame.toDict := by
  fun_induction nextFrames fs with
  | case1 => rfl
  | case2 f => simp [nextPosition, nextEntries_toDict]
  | case3 f g fs ih =>
    simp only [List.map_cons, nextPosition] at ih ⊢
    rw [ih]

/-- The step at an index, and the steps after it. -/
def stepAt? (index : Int) (ss : List Step) : Option (Step × List Step) :=
  if index < 0 then none
  else match ss.drop index.toNat with
    | [] => none
    | s :: rest => some (s, rest)

theorem stepAt?_eq_some {index : Int} {ss : List Step} {s : Step} {rest : List Step} :
    stepAt? index ss = some (s, rest) ↔ 0 ≤ index ∧ ss.drop index.toNat = s :: rest := by
  unfold stepAt?
  by_cases h : index < 0
  · simp [h, Int.not_le.2 h]
  · rcases ss.drop index.toNat with _ | ⟨r, more⟩ <;> simp [h, Int.not_lt.1 h]

theorem stepAt?_zero (s : Step) (ss : List Step) : stepAt? 0 (s :: ss) = some (s, ss) := rfl

/-- An index into the rest of a sequence is one into the sequence, further on. -/
theorem stepAt?_drop {index : Int} {n : Nat} {ss : List Step} (h : 0 ≤ index) :
    stepAt? index (ss.drop n) = stepAt? (index + n) ss := by
  have hn : ¬ index < 0 := by omega
  have hn' : ¬ index + n < 0 := by omega
  have hsum : n + index.toNat = (index + n).toNat := by omega
  simp only [stepAt?, hn, hn', if_false, List.drop_drop, hsum]

theorem stepAt?_cons {index : Int} {s : Step} {ss : List Step} (h : 0 ≤ index) :
    stepAt? (index + 1) (s :: ss) = stepAt? index ss :=
  (stepAt?_drop (n := 1) h).symm

theorem exists_drop_eq_cons {n : Nat} {ss : List Step} {s : Step} :
    (∃ rest, ss.drop n = s :: rest) ↔ ss[n]? = some s := by
  constructor
  · rintro ⟨rest, h⟩
    have h0 : (ss.drop n)[0]? = some s := by rw [h]; rfl
    rwa [List.getElem?_drop] at h0
  · intro h
    obtain ⟨hlt, heq⟩ := List.getElem?_eq_some_iff.1 h
    exact ⟨_, by rw [List.drop_eq_getElem_cons hlt, heq]⟩

namespace Step

/-! ## Where paths lead -/

/-- The step that a path leads to, and the nodes that come after it and what is nested in it. -/
def seek : List Frame → Step → Option (Step × List Step)
  | [], s => some (s, [])
  | f :: fs, s => do
    let ss ← s.branchNamed? f.branch
    let (next, rest) ← stepAt? f.index ss
    let (x, left) ← seek fs next
    return (x, left ++ nodesOf rest)

/-- The step that a path leads to from a step of a sequence, and what comes after it. -/
def seekIn (index : Int) (fs : List Frame) (ss : List Step) : Option (Step × List Step) := do
  let (next, rest) ← stepAt? index ss
  let (x, left) ← next.seek fs
  return (x, left ++ nodesOf rest)

theorem seek_cons (f : Frame) (fs : List Frame) (s : Step) :
    s.seek (f :: fs) = (s.branchNamed? f.branch).bind (seekIn f.index fs) := rfl

theorem seekIn_eq_some {index : Int} {fs : List Frame} {ss left : List Step} {x : Step} :
    seekIn index fs ss = some (x, left) ↔
      ∃ next rest left', stepAt? index ss = some (next, rest) ∧
        next.seek fs = some (x, left') ∧ left = left' ++ nodesOf rest := by
  simp only [seekIn, Option.bind_eq_bind, Option.bind_eq_some_iff, Option.pure_def,
    Option.some.injEq, Prod.mk.injEq, Prod.exists]
  constructor
  · rintro ⟨next, rest, hat, y, left', hseek, rfl, rfl⟩
    exact ⟨next, rest, left', hat, hseek, rfl⟩
  · rintro ⟨next, rest, left', hat, hseek, rfl⟩
    exact ⟨next, rest, hat, x, left', hseek, rfl, rfl⟩

theorem mem_nodesOf_of_stepAt? {index : Int} {ss rest : List Step} {next x : Step}
    (h : stepAt? index ss = some (next, rest)) (hx : x ∈ next.nodes) : x ∈ nodesOf ss := by
  refine (nodesOf_drop_sublist index.toNat ss).subset ?_
  rw [(stepAt?_eq_some.1 h).2]
  exact List.mem_append_left _ hx

/-- A path leads to a node. -/
theorem mem_nodes_of_seek {fs : List Frame} {s x : Step} {left : List Step}
    (h : s.seek fs = some (x, left)) : x ∈ s.nodes := by
  induction fs generalizing s left with
  | nil =>
    cases h
    rw [nodes_eq]
    exact .head _
  | cons f fs ih =>
    obtain ⟨ss, hbranch, hin⟩ := Option.bind_eq_some_iff.1 (seek_cons f fs s ▸ h)
    obtain ⟨next, rest, left', hat, hseek, rfl⟩ := seekIn_eq_some.1 hin
    rw [nodes_eq]
    exact .tail _ ((branchNamed?_sublist hbranch).subset (mem_nodesOf_of_stepAt? hat (ih hseek)))

theorem mem_nodesOf_of_seekIn {index : Int} {fs : List Frame} {ss left : List Step} {x : Step}
    (h : seekIn index fs ss = some (x, left)) : x ∈ nodesOf ss := by
  obtain ⟨next, rest, left', hat, hseek, -⟩ := seekIn_eq_some.1 h
  exact mem_nodesOf_of_stepAt? hat (mem_nodes_of_seek hseek)

/-! ## What lies ahead -/

/-- The nodes that a run does when it enters a step at a path: after the frames only what follows
them, and without a path everything. -/
def ahead : List Frame → Step → List Step
  | [], s => s.nodes
  | f :: fs, s =>
    match s.branchNamed? f.branch with
    | none => []
    | some ss =>
      match ss.drop f.index.toNat with
      | [] => []
      | next :: rest => next.ahead fs ++ nodesOf rest

/-- The nodes that a run does when it goes through steps, entering the first at a path. -/
def aheadOf (fs : List Frame) : List Step → List Step
  | [] => []
  | s :: rest => s.ahead fs ++ nodesOf rest

theorem aheadOf_nil (ss : List Step) : aheadOf [] ss = nodesOf ss := by
  cases ss <;> rfl

theorem ahead_nil (s : Step) : s.ahead [] = s.nodes := rfl

theorem ahead_cons {s : Step} {f : Frame} {ss : List Step} (fs : List Frame)
    (h : s.branchNamed? f.branch = some ss) :
    s.ahead (f :: fs) = aheadOf fs (ss.drop f.index.toNat) := by
  simp only [ahead, h]
  cases ss.drop f.index.toNat <;> rfl

/-- What lies ahead of the next position is what comes after the step at this one. -/
theorem ahead_next {fs : List Frame} {s x : Step} {left : List Step}
    (h : s.seek fs = some (x, left)) (hfs : fs ≠ []) : s.ahead (nextFrames fs) = left := by
  induction fs generalizing s left with
  | nil => exact absurd rfl hfs
  | cons f fs ih =>
    rw [seek_cons] at h
    obtain ⟨ss, hbranch, hin⟩ := Option.bind_eq_some_iff.1 h
    obtain ⟨next, rest, left', hat, hseek, rfl⟩ := seekIn_eq_some.1 hin
    obtain ⟨hindex, hdrop⟩ := stepAt?_eq_some.1 hat
    cases fs with
    | nil =>
      obtain ⟨rfl, rfl⟩ := Prod.mk.inj (Option.some.inj hseek)
      have hnext : ss.drop f.next.index.toNat = rest := by
        have : f.next.index.toNat = f.index.toNat + 1 := by simp only [Frame.next]; omega
        rw [this, ← List.drop_drop, hdrop]
        rfl
      rw [nextFrames, ahead_cons [] (f := f.next) hbranch, hnext, aheadOf_nil]
      rfl
    | cons g fs =>
      rw [nextFrames, ahead_cons _ hbranch, hdrop, aheadOf, ih hseek (List.cons_ne_nil g fs)]

/-! ## Accepted paths -/

/-- Every frame names a branch and an index in it, and every frame but the last leads to a step. -/
def Admits : List Frame → Step → Prop
  | [], _ => True
  | f :: fs, s =>
    ∃ ss, s.branchNamed? f.branch = some ss ∧ 0 ≤ f.index ∧ f.index ≤ ss.length ∧
      (fs = [] ∨ ∃ next rest, ss.drop f.index.toNat = next :: rest ∧ next.Admits fs)

/-- A sequence may be gone through after entering its first step at a path. -/
def AdmitsIn (fs : List Frame) (ss : List Step) : Prop :=
  fs = [] ∨ ∃ next rest, ss = next :: rest ∧ next.Admits fs

theorem not_admits_of_isAction {s : Step} {f : Frame} {fs : List Frame} (hs : s.isAction = true) :
    ¬ s.Admits (f :: fs) := by
  rintro ⟨ss, hbranch, -⟩
  rw [isAction_of_branchNamed? hbranch] at hs
  cases hs

/-- The position after a step is one where the engine may resume. -/
theorem admits_next {fs : List Frame} {s x : Step} {left : List Step}
    (h : s.seek fs = some (x, left)) : s.Admits (nextFrames fs) := by
  induction fs generalizing s left with
  | nil => trivial
  | cons f fs ih =>
    rw [seek_cons] at h
    obtain ⟨ss, hbranch, hin⟩ := Option.bind_eq_some_iff.1 h
    obtain ⟨next, rest, left', hat, hseek, rfl⟩ := seekIn_eq_some.1 hin
    obtain ⟨hindex, hdrop⟩ := stepAt?_eq_some.1 hat
    have hlength := congrArg List.length hdrop
    rw [List.length_drop, List.length_cons] at hlength
    cases fs with
    | nil =>
      refine ⟨ss, hbranch, ?_, ?_, .inl rfl⟩ <;> simp only [Frame.next] <;> omega
    | cons g fs =>
      exact ⟨ss, hbranch, hindex, by omega, .inr ⟨next, rest, hdrop, ih hseek⟩⟩

end Step

namespace Workflow

/-- The step that a path leads to from a step of the workflow, and the nodes after it. -/
def seek (w : Workflow) (index : Int) (fs : List Frame) : Option (Step × List Step) :=
  Step.seekIn index fs w.steps

theorem mem_nodes_of_seek {w : Workflow} {index : Int} {fs : List Frame} {x : Step}
    {left : List Step} (h : w.seek index fs = some (x, left)) : x ∈ w.nodes :=
  Step.mem_nodesOf_of_seekIn h

def at? (w : Workflow) (index : Int) (fs : List Frame) : Option Step :=
  (w.seek index fs).map (·.1)

/-- The nodes that a run does when it starts at a step of the workflow, entering it at a path. -/
def ahead (w : Workflow) (index : Int) (fs : List Frame) : List Step :=
  Step.aheadOf fs (w.steps.drop index.toNat)

end Workflow

end Stepwise
