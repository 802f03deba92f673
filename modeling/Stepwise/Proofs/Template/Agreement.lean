-- SUMMARY: Contexts that agree on the expressions of a template fill it alike, and show its filling alike.
import Stepwise.Proofs.Checks
import Stepwise.Template.Condition

/-!
# Agreement on expressions

A template reads a context through its expressions only. Two contexts show an expression alike
if what it addresses looks the same in both, with the lines of the log wherever it refers to
the log of the run. Contexts that show all expressions of a template alike write the same text
for it, find it fillable alike, and take it for the same condition. They agree on an expression
if it addresses the same value besides, and then they fill a template by the same value.
-/

namespace Stepwise

/-! ## Values shown alike -/

mutual

/-- Two logs are shown alike by a value that refers to no log, or else they are the same. -/
theorem Value.isSettled_or_of_settle_eq {log log' : List Value} :
    (v : Value) → v.settle log = v.settle log' → v.isSettled = true ∨ log = log'
  | .null, _ => .inl rfl
  | .bool _, _ => .inl rfl
  | .int _, _ => .inl rfl
  | .float _, _ => .inl rfl
  | .str _, _ => .inl rfl
  | .runLog, h => .inr (Value.list.inj h)
  | .list items, h => Value.allSettled_or_of_settle_eq items (Value.list.inj h)
  | .tuple items, h => Value.allSettled_or_of_settle_eq items (Value.tuple.inj h)
  | .dict entries, h => Value.entriesSettled_or_of_settle_eq entries (Value.dict.inj h)

theorem Value.allSettled_or_of_settle_eq {log log' : List Value} :
    (vs : List Value) → Value.settleList log vs = Value.settleList log' vs →
      Value.allSettled vs = true ∨ log = log'
  | [], _ => .inl rfl
  | v :: vs, h => by
    obtain ⟨hv, hvs⟩ := List.cons.inj h
    rcases Value.isSettled_or_of_settle_eq v hv with hv | hlog
    · rcases Value.allSettled_or_of_settle_eq vs hvs with hvs | hlog
      · simp [Value.allSettled, hv, hvs]
      · exact .inr hlog
    · exact .inr hlog

theorem Value.entriesSettled_or_of_settle_eq {log log' : List Value} :
    (es : List (Key × Value)) → Value.settleEntries log es = Value.settleEntries log' es →
      Value.entriesSettled es = true ∨ log = log'
  | [], _ => .inl rfl
  | (k, v) :: es, h => by
    obtain ⟨he, hes⟩ := List.cons.inj h
    rcases Value.isSettled_or_of_settle_eq v (Prod.mk.inj he).2 with hv | hlog
    · rcases Value.entriesSettled_or_of_settle_eq es hes with hes | hlog
      · simp [Value.entriesSettled, hv, hes]
      · exact .inr hlog
    · exact .inr hlog

end

/-- Both contexts show the value with the same lines wherever it refers to the log of the run. -/
def Context.ShowAlike (c d : Context) (v : Value) : Prop := c.settle v = d.settle v

namespace Context.ShowAlike

variable {c d : Context} {v : Value}

theorem rfl : c.ShowAlike c v := Eq.refl _

theorem of_isSettled (h : v.isSettled = true) : c.ShowAlike d v := by
  simp [ShowAlike, Context.settle, Value.settle_of_isSettled _ v h]

theorem of_logs (h : c.logs = d.logs) : c.ShowAlike d v := by
  simp [ShowAlike, Context.settle, h]

theorem isSettled_or (h : c.ShowAlike d v) : v.isSettled = true ∨ c.logs = d.logs :=
  Value.isSettled_or_of_settle_eq v h

/-- What has been shown alike is shown alike again. -/
theorem again (h : c.ShowAlike d v) : c.ShowAlike d (c.settle v) := by
  rcases h.isSettled_or with hv | hlogs
  · rw [Context.settle, Value.settle_of_isSettled _ v hv]
    exact h
  · exact of_logs hlogs

theorem list_iff {vs : List Value} : c.ShowAlike d (.list vs) ↔ ∀ v ∈ vs, c.ShowAlike d v := by
  simp [ShowAlike, Context.settle, Value.settle, Value.settleList_eq_map]

theorem dict_iff {es : List (Key × Value)} :
    c.ShowAlike d (.dict es) ↔ ∀ e ∈ es, c.ShowAlike d e.2 := by
  simp [ShowAlike, Context.settle, Value.settle, Value.settleEntries_eq_map]

end Context.ShowAlike

/-! ## Expressions shown alike -/

/-- What the paths address looks the same in both contexts, or it is the same fault. -/
def Context.ShowsOn (c d : Context) (paths : List String) : Prop :=
  ∀ path ∈ paths, (Template.resolve c path).map c.settle = (Template.resolve d path).map d.settle

namespace Context.ShowsOn

variable {c d : Context} {paths paths' : List String}

theorem mono (h : c.ShowsOn d paths) (hsub : paths' ⊆ paths) : c.ShowsOn d paths' :=
  fun path hpath => h path (hsub hpath)

theorem left (h : c.ShowsOn d (paths ++ paths')) : c.ShowsOn d paths :=
  h.mono (List.subset_append_left _ _)

theorem right (h : c.ShowsOn d (paths ++ paths')) : c.ShowsOn d paths' :=
  h.mono (List.subset_append_right _ _)

end Context.ShowsOn

theorem Value.isNull_settle (log : List Value) (v : Value) : (v.settle log).isNull = v.isNull := by
  cases v <;> rfl

namespace Template

open Checks

variable {c d : Context}

theorem shown_cases {x y : Except Fault Value} (h : x.map c.settle = y.map d.settle) :
    (∃ f, x = .error f ∧ y = .error f) ∨ ∃ v w, x = .ok v ∧ y = .ok w ∧ c.settle v = d.settle w := by
  cases x with
  | error f =>
    cases y with
    | error g => exact .inl ⟨f, rfl, congrArg _ (Except.error.inj h).symm⟩
    | ok w => cases h
  | ok v =>
    cases y with
    | error g => cases h
    | ok w => exact .inr ⟨v, w, rfl, rfl, Except.ok.inj h⟩

/-- Two answers that look the same are looked at with the same result. -/
theorem bind_shown {α : Type} {x y : Except Fault Value} (h : x.map c.settle = y.map d.settle)
    (f : Value → Except Fault α) : (do f (c.settle (← x))) = (do f (d.settle (← y))) := by
  obtain ⟨g, rfl, rfl⟩ | ⟨v, w, rfl, rfl, hsame⟩ := shown_cases h
  · rfl
  · simp only [ok_bind, hsame]

/-- Of two answers that look the same both are `null` or none is. -/
theorem isNull_shown {α : Type} {x y : Except Fault Value} (h : x.map c.settle = y.map d.settle)
    (f : Bool → Except Fault α) : (do f (← x).isNull) = (do f (← y).isNull) := by
  have hnull := bind_shown h fun v => f v.isNull
  simpa only [Context.settle, Value.isNull_settle] using hnull

/-! ### Text -/

/-- The expression that makes up a text is one of its expressions. -/
theorem mem_expressions_of_whole? {template path : String} (h : whole? template = some path) :
    path ∈ expressions template := by
  unfold whole? at h
  dsimp only at h
  split at h
  · rename_i inside hhole
    have hpath : path = expression inside := by
      split at h
      · exact (Option.some.inj h).symm
      · exact (Option.some.inj h).symm
      · cases h
    unfold expressions pieces
    cases hcs : template.toList with
    | nil =>
      rw [hcs] at hhole
      cases hhole
    | cons ch rest =>
      rw [hcs] at hhole
      simp [cut, hhole, hpath]
  · cases h

theorem mem_expressions_of_hole {template : String} {inside : List Char}
    (h : Piece.hole inside ∈ pieces template) : expression inside ∈ expressions template :=
  List.mem_filterMap.2 ⟨_, h, rfl⟩

theorem fillPiece_shown {piece : Piece} {paths : List String} (h : c.ShowsOn d paths)
    (hpiece : ∀ inside, piece = .hole inside → expression inside ∈ paths) :
    fillPiece c piece = fillPiece d piece := by
  cases piece with
  | char ch => rfl
  | hole inside =>
    have hshown := bind_shown (h _ (hpiece inside rfl)) fun v =>
      if v.isNull then pure (String.ofList (Piece.hole inside).source) else format v
    simp only [Context.settle, Value.isNull_settle] at hshown
    exact hshown

theorem fillPieces_shown {ps : List Piece} (h : ∀ piece ∈ ps, fillPiece c piece = fillPiece d piece) :
    fillPieces c ps = fillPieces d ps := by
  induction ps with
  | nil => rfl
  | cons piece rest ih =>
    simp only [List.forall_mem_cons] at h
    simp only [fillPieces, h.1, ih h.2]

theorem fillText_shown {template : String} (h : c.ShowsOn d (expressions template)) :
    fillText c template = fillText d template := by
  refine fillPieces_shown fun piece hpiece => fillPiece_shown h ?_
  rintro inside rfl
  exact mem_expressions_of_hole hpiece

/-! ### Data -/

theorem fillString_shown {template : String} (h : c.ShowsOn d (expressions template)) :
    (fillString c template).map c.settle = (fillString d template).map d.settle := by
  unfold fillString
  split
  · rename_i path hpath
    exact h path (mem_expressions_of_whole? hpath)
  · rw [fillText_shown h]
    cases fillText d template <;> rfl

mutual

/-- What a value is filled with looks the same, if the value itself does. -/
theorem fill_shown : (v : Value) → c.ShowsOn d (references v) → c.ShowAlike d v →
    (fill c v).map c.settle = (fill d v).map d.settle
  | .str _, h, _ => fillString_shown h
  | .list items, h, hv => by
    have hitems := fillAll_shown items h (Context.ShowAlike.list_iff.1 hv)
    have hmap (e : Context) : (fill e (.list items)).map e.settle
        = ((fillAll e items).map (Value.settleList e.logs)).map .list := by
      rw [fill]
      cases fillAll e items <;> rfl
    rw [hmap, hmap, hitems]
  | .dict entries, h, hv => by
    have hentries := fillEntries_shown entries h (Context.ShowAlike.dict_iff.1 hv)
    have hmap (e : Context) : (fill e (.dict entries)).map e.settle
        = ((fillEntries e entries).map (Value.settleEntries e.logs)).map .dict := by
      rw [fill]
      cases fillEntries e entries <;> rfl
    rw [hmap, hmap, hentries]
  | .null, _, hv => congrArg Except.ok hv
  | .bool _, _, hv => congrArg Except.ok hv
  | .int _, _, hv => congrArg Except.ok hv
  | .float _, _, hv => congrArg Except.ok hv
  | .tuple _, _, hv => congrArg Except.ok hv
  | .runLog, _, hv => congrArg Except.ok hv

theorem fillAll_shown : (vs : List Value) → c.ShowsOn d (referencesAll vs) →
    (∀ v ∈ vs, c.ShowAlike d v) → (fillAll c vs).map (Value.settleList c.logs)
      = (fillAll d vs).map (Value.settleList d.logs)
  | [], _, _ => rfl
  | v :: vs, h, hvs => by
    have hmap (e : Context) : (fillAll e (v :: vs)).map (Value.settleList e.logs)
        = (do return (← (fill e v).map e.settle) ::
            (← (fillAll e vs).map (Value.settleList e.logs))) := by
      rw [fillAll]
      cases fill e v <;> cases fillAll e vs <;> rfl
    simp only [List.forall_mem_cons] at hvs
    rw [hmap, hmap, fill_shown v h.left hvs.1, fillAll_shown vs h.right hvs.2]

theorem fillEntries_shown : (es : List (Key × Value)) → c.ShowsOn d (referencesEntries es) →
    (∀ e ∈ es, c.ShowAlike d e.2) → (fillEntries c es).map (Value.settleEntries c.logs)
      = (fillEntries d es).map (Value.settleEntries d.logs)
  | [], _, _ => rfl
  | (k, v) :: es, h, hes => by
    have hmap (e : Context) : (fillEntries e ((k, v) :: es)).map (Value.settleEntries e.logs)
        = (do return (k, ← (fill e v).map e.settle) ::
            (← (fillEntries e es).map (Value.settleEntries e.logs))) := by
      rw [fillEntries]
      cases fill e v <;> cases fillEntries e es <;> rfl
    simp only [List.forall_mem_cons] at hes
    rw [hmap, hmap, fill_shown v h.left hes.1, fillEntries_shown es h.right hes.2]

end

theorem fillAsText_shown {v : Value} (h : c.ShowsOn d (references v)) (hv : c.ShowAlike d v) :
    fillAsText c v = fillAsText d v := by
  cases v with
  | str s => exact fillText_shown h
  | _ => exact bind_shown (fill_shown _ h hv) format

/-! ### Fillable values -/

theorem allResolve_shown {paths : List String} (h : c.ShowsOn d paths) :
    allResolve c paths = allResolve d paths := by
  induction paths with
  | nil => rfl
  | cons path paths ih =>
    have hrest := ih (h.mono (List.subset_cons_self _ _))
    simp only [allResolve, ← hrest]
    exact isNull_shown (h path List.mem_cons_self) fun null =>
      if null then pure false else allResolve c paths

mutual

/-- Contexts that show the expressions of a value alike find it fillable alike. -/
theorem isFillable_shown : (v : Value) → c.ShowsOn d (references v) →
    isFillable c v = isFillable d v
  | .str _, h => allResolve_shown h
  | .list items, h => allFillable_shown items h
  | .dict entries, h => entriesFillable_shown entries h
  | .null, _ => rfl
  | .bool _, _ => rfl
  | .int _, _ => rfl
  | .float _, _ => rfl
  | .tuple _, _ => rfl
  | .runLog, _ => rfl

theorem allFillable_shown : (vs : List Value) → c.ShowsOn d (referencesAll vs) →
    allFillable c vs = allFillable d vs
  | [], _ => rfl
  | v :: vs, h => by simp only [allFillable, isFillable_shown v h.left, allFillable_shown vs h.right]

theorem entriesFillable_shown : (es : List (Key × Value)) → c.ShowsOn d (referencesEntries es) →
    entriesFillable c es = entriesFillable d es
  | [], _ => rfl
  | (_, v) :: es, h => by
    simp only [entriesFillable, isFillable_shown v h.left, entriesFillable_shown es h.right]

end

/-! ### Conditions -/

theorem evaluate_shown {condition : String} (h : c.ShowsOn d (expressions condition)) :
    evaluate c condition = evaluate d condition := by
  unfold evaluate
  split
  · rfl
  · rename_i path paths hpaths
    rw [hpaths] at h
    obtain ⟨f, hc, hd⟩ | ⟨v, w, hc, hd, hsame⟩ := shown_cases (h path List.mem_cons_self)
    · rw [hc, hd]
      rfl
    · simp only [hc, hd, ok_bind, hsame]

theorem evaluateValue_shown {condition : Value} (h : c.ShowsOn d (references condition)) :
    evaluateValue c condition = evaluateValue d condition := by
  cases condition with
  | str s => exact evaluate_shown h
  | _ => rfl

end Template

/-! ## Agreement -/

/-- The paths address the same in both contexts: the same value, shown alike, or the same fault. -/
structure Context.AgreesOn (c d : Context) (paths : List String) : Prop where
  reads : ∀ path ∈ paths, Template.resolve c path = Template.resolve d path
  shows : ∀ path ∈ paths, ∀ v, Template.resolve c path = .ok v → c.ShowAlike d v

namespace Context.AgreesOn

variable {c d : Context} {paths paths' : List String}

theorem rfl : c.AgreesOn c paths := ⟨fun _ _ => Eq.refl _, fun _ _ _ _ => .rfl⟩

theorem mono (h : c.AgreesOn d paths) (hsub : paths' ⊆ paths) : c.AgreesOn d paths' where
  reads := fun path hpath => h.reads path (hsub hpath)
  shows := fun path hpath => h.shows path (hsub hpath)

theorem left (h : c.AgreesOn d (paths ++ paths')) : c.AgreesOn d paths :=
  h.mono (List.subset_append_left _ _)

theorem right (h : c.AgreesOn d (paths ++ paths')) : c.AgreesOn d paths' :=
  h.mono (List.subset_append_right _ _)

theorem showsOn (h : c.AgreesOn d paths) : c.ShowsOn d paths := by
  intro path hpath
  have hshows := h.shows path hpath
  rw [← h.reads path hpath]
  cases hv : Template.resolve c path with
  | error f => rfl
  | ok v => exact congrArg Except.ok (hshows v hv)

end Context.AgreesOn

namespace Template

variable {c d : Context}

theorem fillString_agree {template : String} (h : c.AgreesOn d (expressions template)) :
    fillString c template = fillString d template := by
  unfold fillString
  split
  · rename_i path hpath
    exact h.reads path (mem_expressions_of_whole? hpath)
  · rw [fillText_shown h.showsOn]

mutual

/-- Contexts that agree on the expressions of a value fill it alike. -/
theorem fill_agree : (v : Value) → c.AgreesOn d (references v) → fill c v = fill d v
  | .str _, h => fillString_agree h
  | .list items, h => by simp only [fill, fillAll_agree items h]
  | .dict entries, h => by simp only [fill, fillEntries_agree entries h]
  | .null, _ => rfl
  | .bool _, _ => rfl
  | .int _, _ => rfl
  | .float _, _ => rfl
  | .tuple _, _ => rfl
  | .runLog, _ => rfl

theorem fillAll_agree : (vs : List Value) → c.AgreesOn d (referencesAll vs) →
    fillAll c vs = fillAll d vs
  | [], _ => rfl
  | v :: vs, h => by simp only [fillAll, fill_agree v h.left, fillAll_agree vs h.right]

theorem fillEntries_agree : (es : List (Key × Value)) → c.AgreesOn d (referencesEntries es) →
    fillEntries c es = fillEntries d es
  | [], _ => rfl
  | (_, v) :: es, h => by simp only [fillEntries, fill_agree v h.left, fillEntries_agree es h.right]

end

/-- What they fill it with is shown alike, if the value itself is. -/
theorem fill_shows (v : Value) (h : c.AgreesOn d (references v)) (hv : c.ShowAlike d v) {w : Value}
    (hw : fill c v = .ok w) : c.ShowAlike d w := by
  have hshown := fill_shown v h.showsOn hv
  rw [← fill_agree v h, hw] at hshown
  exact Except.ok.inj hshown

theorem fillLines_agree {lines : List Value} (h : c.AgreesOn d (referencesAll lines))
    (hlines : ∀ v ∈ lines, c.ShowAlike d v) :
    lines.mapM (fillAsText c) = lines.mapM (fillAsText d) := by
  induction lines with
  | nil => rfl
  | cons v vs ih =>
    simp only [List.forall_mem_cons] at hlines
    simp only [List.mapM_cons, fillAsText_shown h.left.showsOn hlines.1, ih h.right hlines.2]

end Template

end Stepwise
