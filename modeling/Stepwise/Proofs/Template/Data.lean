-- SUMMARY: What templates read of a context: its data, and not where the run stands; what they give.
import Stepwise.Proofs.Template.Agreement
import Stepwise.Proofs.Value.Data

/-!
# Templates and the data of a run

A template is filled from the inputs, the variables, the history and the log. So two
contexts with the same data fill every template alike, wherever their runs stand. A
template that is itself data gives data, unless it asks for the log as a whole.
-/

namespace Stepwise

/-! ## The same data -/

/-- The contexts hold the same data. -/
structure Context.SameData (c d : Context) : Prop where
  inputs : c.inputs = d.inputs
  bindings : c.bindings = d.bindings
  logs : c.logs = d.logs
  results : c.results = d.results

namespace Template

variable {c d : Context}

theorem resolve_congr (h : c.SameData d) (path : String) : resolve c path = resolve d path := by
  unfold resolve Context.resultOf?
  rw [h.inputs, h.bindings, h.logs, h.results]

end Template

/-- Contexts with the same data agree on every expression. -/
theorem Context.SameData.agreesOn {c d : Context} (h : c.SameData d) (paths : List String) :
    c.AgreesOn d paths where
  reads := fun path _ => Template.resolve_congr h path
  shows := fun _ _ _ _ => .of_logs h.logs

/-! ## Data only -/

/-- The inputs, the variables and the outputs in the history are data. -/
structure Context.IsData (c : Context) : Prop where
  inputs : c.inputs.isSettled = true
  bindings : Dict.IsData c.bindings
  results : ∀ r ∈ c.results, r.output.isSettled = true

/-- The value is data, and no expression in it asks for the log as a whole. -/
structure Value.OmitsLog (v : Value) : Prop where
  isSettled : v.isSettled = true
  references : "logs" ∉ Template.references v

namespace Template

open Checks

theorem isSettled_itemAtSegment {items : List Value} {segment : String} {v : Value}
    (h : ∀ w ∈ items, w.isSettled = true) (hv : itemAtSegment items segment = .ok v) :
    v.isSettled = true := by
  have hitem (position : Int) : ((itemAt? items position).getD .null).isSettled = true := by
    cases hw : itemAt? items position with
    | none => rfl
    | some w =>
      unfold itemAt? at hw
      extract_lets place at hw
      split at hw
      · cases hw
      · exact h w (List.mem_of_getElem? hw)
  unfold itemAtSegment at hv
  split at hv
  · obtain ⟨position, -, hv⟩ := bind_iff.1 hv
    cases pure_iff.1 hv
    exact hitem position
  · cases hv
    rfl

theorem isSettled_child {log : List Value} {v w : Value} {segment : String}
    (h : v.isSettled = true) (hw : child log v segment = .ok w) : w.isSettled = true := by
  cases v with
  | dict entries =>
    cases hw
    exact Dict.IsData.getD (Value.isSettled_dict.1 h) _
  | list items => exact isSettled_itemAtSegment (Value.isSettled_list.1 h) hw
  | tuple items => exact isSettled_itemAtSegment (Value.isSettled_tuple.1 h) hw
  | runLog => cases h
  | _ =>
    cases hw
    rfl

theorem isSettled_walk {log : List Value} {v w : Value} {segments : List String}
    (h : v.isSettled = true) (hw : walk log v segments = .ok w) : w.isSettled = true := by
  induction segments generalizing v with
  | nil =>
    cases hw
    exact h
  | cons segment rest ih =>
    obtain ⟨u, hu, hw⟩ := bind_iff.1 hw
    exact ih (isSettled_child h hu) hw

/-- What lies in data is the same whatever the log holds. -/
theorem child_of_isSettled {v : Value} (h : v.isSettled = true) (log log' : List Value)
    (segment : String) : child log v segment = child log' v segment := by
  cases v with
  | runLog => cases h
  | _ => rfl

theorem walk_of_isSettled {v : Value} (h : v.isSettled = true) (log log' : List Value)
    (segments : List String) : walk log v segments = walk log' v segments := by
  induction segments generalizing v with
  | nil => rfl
  | cons segment rest ih =>
    rw [walk_cons, walk_cons, child_of_isSettled h log log']
    cases hchild : child log' v segment with
    | error f => rfl
    | ok w => exact ih (isSettled_child h hchild)

theorem isSettled_resolve {path : String} {v : Value} (hc : c.IsData) (hpath : path ≠ "logs")
    (hv : resolve c path = .ok v) : v.isSettled = true := by
  unfold resolve at hv
  split at hv
  · split at hv
    · rename_i r hr
      exact isSettled_walk (hc.results r (List.mem_reverse.1 (List.mem_of_find?_eq_some hr))) hv
    · cases hv
      rfl
  · exact isSettled_walk hc.inputs hv
  · rw [if_neg hpath] at hv
    exact isSettled_walk (hc.bindings.getD _) hv
  · cases hv
    rfl

theorem isSettled_fillString {template : String} {v : Value} (hc : c.IsData)
    (hlog : "logs" ∉ expressions template) (hv : fillString c template = .ok v) :
    v.isSettled = true := by
  unfold fillString at hv
  split at hv
  · rename_i path hpath
    refine isSettled_resolve hc ?_ hv
    rintro rfl
    exact hlog (mem_expressions_of_whole? hpath)
  · obtain ⟨text, -, hv⟩ := bind_iff.1 hv
    cases pure_iff.1 hv
    rfl

mutual

/-- What omits the log as a whole is filled by data. -/
theorem isSettled_fill (hc : c.IsData) : (v : Value) → v.isSettled = true →
    "logs" ∉ references v → {w : Value} → fill c v = .ok w → w.isSettled = true
  | .str s, _, hlog, w, hw => isSettled_fillString hc hlog hw
  | .list items, h, hlog, w, hw => by
    obtain ⟨ws, hws, hw⟩ := bind_iff.1 hw
    cases pure_iff.1 hw
    exact isSettled_fillAll hc items h hlog hws
  | .dict entries, h, hlog, w, hw => by
    obtain ⟨ws, hws, hw⟩ := bind_iff.1 hw
    cases pure_iff.1 hw
    exact isSettled_fillEntries hc entries h hlog hws
  | .null, h, _, w, hw => by cases hw; exact h
  | .bool _, h, _, w, hw => by cases hw; exact h
  | .int _, h, _, w, hw => by cases hw; exact h
  | .float _, h, _, w, hw => by cases hw; exact h
  | .tuple _, h, _, w, hw => by cases hw; exact h
  | .runLog, h, _, w, hw => by cases h

theorem isSettled_fillAll (hc : c.IsData) : (vs : List Value) → Value.allSettled vs = true →
    "logs" ∉ referencesAll vs → {ws : List Value} → fillAll c vs = .ok ws →
    Value.allSettled ws = true
  | [], _, _, ws, hws => by cases hws; rfl
  | v :: vs, h, hlog, ws, hws => by
    simp only [Value.allSettled, Bool.and_eq_true] at h
    simp only [referencesAll, List.mem_append, not_or] at hlog
    simp only [fillAll, bind_iff, pure_iff] at hws
    obtain ⟨w, hw, ws', hws', rfl⟩ := hws
    rw [Value.allSettled, isSettled_fill hc v h.1 hlog.1 hw,
      isSettled_fillAll hc vs h.2 hlog.2 hws']
    rfl

theorem isSettled_fillEntries (hc : c.IsData) : (es : List (Key × Value)) →
    Value.entriesSettled es = true → "logs" ∉ referencesEntries es →
    {ws : List (Key × Value)} → fillEntries c es = .ok ws → Value.entriesSettled ws = true
  | [], _, _, ws, hws => by cases hws; rfl
  | (k, v) :: es, h, hlog, ws, hws => by
    simp only [Value.entriesSettled, Bool.and_eq_true] at h
    simp only [referencesEntries, List.mem_append, not_or] at hlog
    simp only [fillEntries, bind_iff, pure_iff] at hws
    obtain ⟨w, hw, ws', hws', rfl⟩ := hws
    rw [Value.entriesSettled, isSettled_fill hc v h.1 hlog.1 hw,
      isSettled_fillEntries hc es h.2 hlog.2 hws']
    rfl

end

end Template

end Stepwise
