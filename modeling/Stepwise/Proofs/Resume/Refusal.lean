-- SUMMARY: Resume paths that do not fit, and the faults that a run is refused with for them.
import Stepwise.Proofs.Resume.Prepare

/-!
# Refused resume paths

A path is accepted if it can be read as frames that lead through the step that the run
starts at, and is refused otherwise. The fault tells of a bad value, whatever is wrong with
the path, but for one case: an index that is infinite is too large to be read.
-/

namespace Stepwise

def Frame.HasInfiniteIndex (d : Dict) : Prop :=
  ∃ negative, Dict.field? d "index" = some (.float (.infinite negative))

/-- The frames lead through the step that the run starts at, and the check reads them in the path. -/
def Workflow.Fits (w : Workflow) (start : Int) (fs : List Frame) (path : List Dict) : Prop :=
  List.Forall₂ Frame.IsReadOf fs path ∧
    ∃ s rest, w.steps.drop start.toNat = s :: rest ∧ s.Admits fs

/-! ## Faults of the check -/

/-- A fault that a path may be refused with: that of a bad value, or of an overflow where an index is
infinite. -/
def Fault.Refuses (f : Fault) (path : List Dict) : Prop :=
  f.kind = .value ∨ f.kind = .overflow ∧ ∃ d ∈ path, Frame.HasInfiniteIndex d

theorem Fault.Refuses.mono {f : Fault} {path path' : List Dict} (h : f.Refuses path)
    (hsub : path ⊆ path') : f.Refuses path' :=
  h.imp_right fun ⟨hkind, d, hd, hindex⟩ => ⟨hkind, d, hsub hd, hindex⟩

theorem Numeral.toInt_error {s : String} {f : Fault} (h : toInt s = .error f) : f.kind = .value := by
  unfold toInt at h
  dsimp only at h
  split at h
  · cases h
    rfl
  · split at h
    · cases h
      rfl
    · split at h
      · cases h
      · cases h
        rfl

theorem Step.branch_error {s : Step} {branch : Value} {f : Fault} (h : s.branch branch = .error f) :
    f.kind = .value ∨ f.kind = .attribute := by
  have hnone : (s.noBranch branch).kind = .value := by
    unfold noBranch
    split <;> rfl
  unfold Step.branch at h
  split at h
  · split at h
    · cases h
    · cases h
      exact .inl hnone
  · split at h
    · cases h
      exact .inr rfl
    · cases h
      exact .inl hnone

namespace ResumePath

open Checks

theorem toInt_error {v : Value} {f : Fault} (h : toInt v = .error f) :
    f.kind = .type ∨ f.kind = .value ∨
      f.kind = .overflow ∧ ∃ negative, v = .float (.infinite negative) := by
  cases v with
  | int | bool => cases h
  | str s => exact .inr (.inl (Numeral.toInt_error h))
  | float x =>
    cases x with
    | finite => cases h
    | nan =>
      cases h
      exact .inr (.inl rfl)
    | infinite negative =>
      cases h
      exact .inr (.inr ⟨rfl, negative, rfl⟩)
  | _ =>
    cases h
    exact .inl rfl

theorem field_error {d : Dict} {name : String} {f : Fault} (h : field (.dict d) name = .error f) :
    f.kind = .key := by
  unfold field at h
  dsimp only at h
  split at h
  · cases h
  · cases h
    rfl

/-- A fault of a frame is reported as a bad value, unless it is that of an infinite index. -/
theorem malformed_refuses {container : Step} {d : Dict} {f : Fault}
    (h : (enter container (.dict d)).mapError (malformed (.dict d)) = .error f) : f.Refuses [d] := by
  obtain ⟨g, henter, rfl⟩ := mapError_error_iff.1 h
  have hmalformed (hkind : g.kind = .value ∨ g.kind = .attribute ∨ g.kind = .key ∨ g.kind = .type) :
      (malformed (.dict d) g).kind = .value := by
    unfold malformed
    rcases hkind with hkind | hkind | hkind | hkind <;> rw [hkind]
    · exact hkind
    all_goals rfl
  simp only [enter, bind_error_iff] at henter
  rcases henter with hbranch | ⟨branch, -, hsteps | ⟨ss, -, hindex | ⟨v, hindex, hread | hpure⟩⟩⟩
  · exact .inl (hmalformed (.inr (.inr (.inl (field_error hbranch)))))
  · exact .inl (hmalformed ((Step.branch_error hsteps).imp_right .inl))
  · exact .inl (hmalformed (.inr (.inr (.inl (field_error hindex)))))
  · rcases toInt_error hread with hkind | hkind | ⟨hkind, negative, rfl⟩
    · exact .inl (hmalformed (.inr (.inr (.inr hkind))))
    · exact .inl (hmalformed (.inl hkind))
    · refine .inr ⟨?_, d, .head _, negative, ?_⟩
      · rw [malformed, hkind]
        exact hkind
      · obtain ⟨_, heq, hfield⟩ := field_eq_ok.1 hindex
        cases heq
        exact hfield
  · obtain ⟨n, -, hpure⟩ := hpure
    cases hpure

/-- A path that does not pass the check is refused. -/
theorem check_refuses {container : Step} {path : List Dict} {f : Fault}
    (h : check container (path.map .dict) = .error f) : f.Refuses path := by
  induction path generalizing container with
  | nil => cases h
  | cons d ds ih =>
    rcases henter : (enter container (.dict d)).mapError (malformed (.dict d)) with g | ⟨b, ss, n⟩
    · rw [List.map_cons, check, henter] at h
      cases h
      exact (malformed_refuses henter).mono (by simp)
    · obtain ⟨_, frame, heq, hread, -, -, hbranch⟩ := enter_eq_ok.1 (mapError_iff.1 henter)
      cases heq
      rw [List.map_cons, check_cons hread hbranch] at h
      split at h
      · cases h
        unfold indexOutOfRange
        split
        · exact .inl rfl
        · exact .inl rfl
      · cases ds with
        | nil => cases h
        | cons d' ds =>
          rw [List.map_cons] at h
          cases hnext : ss[frame.index.toNat]? with
          | none =>
            rw [hnext] at h
            cases h
            exact .inl rfl
          | some next =>
            rw [hnext] at h
            exact (ih h).mono (List.subset_cons_self _ _)

end ResumePath

/-! ## Accepted paths -/

namespace Workflow

open Checks

variable {w : Workflow} {start : Value} {n : Int} {path : List Dict}

theorem truthy_pathValue (h : path ≠ []) : (Context.pathValue path).truthy = true := by
  cases path with
  | nil => exact absurd rfl h
  | cons d ds => rfl

/-- A path is accepted if and only if it fits. -/
theorem requirePath_eq_ok (hstart : startIndex start = .ok n) (hn : 0 ≤ n) (hne : path ≠ []) :
    w.requirePath start (Context.pathValue path) = .ok () ↔ ∃ fs, w.Fits n fs path := by
  rw [requirePath_iff hstart (truthy_pathValue hne) hn]
  constructor
  · rintro ⟨s, frames, hat, hframes, hcheck⟩
    cases hframes
    obtain ⟨ds, fs, heq, hreads, hadmits⟩ := ResumePath.check_eq_ok.1 hcheck
    obtain rfl := (List.map_inj_right fun _ _ => Value.dict.inj).1 heq
    obtain ⟨rest, hdrop⟩ := exists_drop_eq_cons.2 hat
    exact ⟨fs, hreads, s, rest, hdrop, hadmits⟩
  · rintro ⟨fs, hreads, s, rest, hdrop, hadmits⟩
    exact ⟨s, path.map .dict, exists_drop_eq_cons.1 ⟨rest, hdrop⟩, rfl,
      ResumePath.check_eq_ok.2 ⟨path, fs, rfl, hreads, hadmits⟩⟩

/-- A path that is not accepted is refused. -/
theorem requirePath_refuses {f : Fault} (hstart : startIndex start = .ok n)
    (h : w.requirePath start (Context.pathValue path) = .error f) (hn : 0 ≤ n) : f.Refuses path := by
  have hend : (!Number.less (.int n) (.int w.size)) = true ↔ w.size ≤ n := by
    simp [Number.less_int]
  unfold requirePath at h
  split at h
  · cases h
  · simp only [number?_of_startIndex hstart] at h
    split at h
    · cases h
      exact .inl rfl
    · rename_i hbehind
      rw [hend] at hbehind
      rw [hstart, ok_bind] at h
      cases hat : w.steps[n.toNat]? with
      | none =>
        rw [List.getElem?_eq_none_iff] at hat
        unfold size at hbehind
        omega
      | some s =>
        rw [hat] at h
        exact ResumePath.check_refuses h

/-- With a path more, the checks come to the same unless they refuse the path. -/
theorem prepare_of_path {r : Request} {start : Int} {c : Context}
    (h : prepare w { r with resumePath := .null } = .ok (start, c))
    (hpath : r.resumePath = Context.pathValue path) :
    (∀ f, w.requirePath r.startStep r.resumePath = .error f → prepare w r = .error (.fault f)) ∧
      (w.requirePath r.startStep r.resumePath = .ok () →
        prepare w r = .ok (start, { c with resumePath := path })) := by
  obtain ⟨hwell, hrefs, hstart, -, ⟨given, inputs, hgiven, hinputs, hc⟩, hnamed, hindex⟩ :=
    prepare_eq_ok.1 h
  constructor
  · intro f hf
    unfold prepare
    rw [hwell, hgiven]
    simp only [ok_bind, liftM, monadLift, MonadLift.monadLift, hinputs, hrefs, hstart, hf]
    rfl
  · intro hok
    refine prepare_eq_ok.2 ⟨hwell, hrefs, hstart, hok, ⟨given, inputs, hgiven, hinputs, ?_⟩, hnamed,
      hindex⟩
    obtain ⟨bindings, logs, past, results, _, _, hb, hl, hp, hr, hnone, hempty, rfl⟩ :=
      Context.ofParts_eq_ok.1 hc
    refine Context.ofParts_eq_ok.2 ⟨bindings, logs, past, results, path.map .dict, path, hb, hl, hp, hr,
      ?_, ?_, rfl⟩
    · cases path with
      | nil => rw [Request.parts, hpath]; rfl
      | cons d ds => rw [Request.parts, hpath]; rfl
    · rw [mapM_iff, List.map_map]
      rfl

end Workflow

end Stepwise
