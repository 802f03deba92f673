-- SUMMARY: Which steps a switch runs for a value that is one of its keys, and the keys that it misses.
import Stepwise.Proofs.Number.Numeral
import Stepwise.Proofs.Resume.Reported
import Stepwise.Proofs.Run.Reentry
import Stepwise.Proofs.Step.Fields
import Stepwise.Proofs.Template.Whole

/-!
# Cases of a switch

The cases of a switch are stored under the texts of their keys, and the value of its subject is
compared with them as it is formatted inside a text. The two agree on texts, integers and floats
with a fraction, so that the switch runs what is listed under the key that its value is. Truth
values and floats without a fraction are formatted otherwise, in lower case and without the
fraction. They miss what is listed under them and run what another key of that text lists, or the
default, or nothing.
-/

namespace Stepwise

variable {σ : Type}

/-! ## Texts of numbers -/

namespace Binary64

theorem mem_positional (ds : List Char) (power : Int) : '.' ∈ positional ds power := by
  unfold positional
  split
  · simp
  · dsimp only
    split <;> simp

theorem mem_exponential (ds : List Char) (power : Int) : 'e' ∈ exponential ds power := by
  simp [exponential]

/-- A number is written with a point or an exponent. -/
theorem mem_layout (d : Nat) (k : Int) : '.' ∈ layout d k ∨ 'e' ∈ layout d k := by
  unfold layout
  dsimp only
  split
  · exact .inl (mem_positional _ _)
  · exact .inr (mem_exponential _ _)

theorem mem_text_finite (negative : Bool) (m : Nat) (e : Int) :
    '.' ∈ (text (.finite negative m e)).toList ∨ 'e' ∈ (text (.finite negative m e)).toList := by
  by_cases hm : m = 0
  · left
    cases negative <;> simp [text, hm]
  · have hlayout := mem_layout (shortest m e).1 (shortest m e).2
    rcases hlayout with h | h
    · left
      cases negative <;> simp [text, hm, h]
    · right
      cases negative <;> simp [text, hm, h]

/-- No finite number is written like an integer. -/
theorem text_ne_intText {x : Binary64} (h : x.isInteger = true) (n : Int) : x.text ≠ intText n := by
  intro heq
  have hchars {c : Char} (hc : c ∈ x.text.toList) : c = '-' ∨ c.isDigit = true :=
    Numeral.isDigit_of_mem_intText (heq ▸ hc)
  cases x with
  | finite negative m e =>
    rcases mem_text_finite negative m e with hmem | hmem
    · exact absurd (hchars hmem) (by decide)
    · exact absurd (hchars hmem) (by decide)
  | _ => cases h

end Binary64

/-! ## Texts of keys -/

namespace Key

/-- The key is a text, a number or a truth value. -/
def isScalar : Key → Bool
  | .str _ | .int _ | .float _ | .bool _ => true
  | .null | .tuple _ => false

/-- A value that is the key is formatted otherwise than the key is written. -/
def isReworded : Key → Bool
  | .bool _ => true
  | .float x => x.isInteger
  | _ => false

/-- The text of a value that is the key. -/
def shown : Key → String
  | .bool b => Json.boolText b
  | .float x => if x.isInteger then Binary64.intText (x.toInt?.getD 0) else x.text
  | k => k.text

/-- The value is the key: it is of the same kind and equal. The sign of a zero does not count. -/
def Is (k : Key) (v : Value) : Prop :=
  v = k.toValue ∨ ∃ x y, k = .float x ∧ v = .float y ∧ x.isZero = true ∧ y.isZero = true

variable {k : Key} {v : Value}

theorem shown_of_not_reworded (h : k.isReworded = false) : k.shown = k.text := by
  cases k with
  | bool => cases h
  | float x => exact if_neg (by simpa [isReworded] using h)
  | _ => rfl

theorem shown_ne_text (h : k.isReworded = true) : k.shown ≠ k.text := by
  cases k with
  | bool b => cases b <;> decide
  | float x =>
    have hinteger : x.isInteger = true := h
    intro heq
    simp only [shown, hinteger, if_true] at heq
    exact Binary64.text_ne_intText hinteger _ heq.symm
  | _ => cases h

/-- All zeros have the text of the integer. -/
theorem format_zero {x : Binary64} (h : x.isZero = true) : Template.format (.float x) = .ok "0" := by
  cases x with
  | finite negative m e =>
    have hm : m = 0 := by simpa [Binary64.isZero] using h
    subst hm
    cases negative <;> simp [Template.format, Binary64.isInteger, Binary64.toInt?, Binary64.ratio] <;> rfl
  | _ => cases h

/-- A value that is a key has the text of that. -/
theorem format_of_is (hscalar : k.isScalar = true) (hspell : k.isSpellable = true) (hv : k.Is v) :
    Template.format v = .ok k.shown := by
  have hself : Template.format k.toValue = .ok k.shown := by
    cases k with
    | null | tuple => cases hscalar
    | str | bool => rfl
    | int n => exact Value.spell_of_isSpellable hspell
    | float x =>
      simp only [toValue, Template.format, shown]
      split <;> rfl
  rcases hv with rfl | ⟨x, y, rfl, rfl, hx, hy⟩
  · exact hself
  · rw [format_zero hy, ← hself, toValue, format_zero hx]

/-- A value that is a key refers to no log and is not null. -/
theorem is_plain (hscalar : k.isScalar = true) (hv : k.Is v) :
    v.isNull = false ∧ v.isSpellable = k.isSpellable ∧ ∀ log, v.settle log = v := by
  rcases hv with rfl | ⟨x, y, rfl, rfl, hx, hy⟩
  · cases k with
    | null | tuple => cases hscalar
    | _ => exact ⟨rfl, rfl, fun _ => rfl⟩
  · exact ⟨rfl, rfl, fun _ => rfl⟩

end Key

/-! ## Cases by their texts -/

namespace Step

variable {mapping : Dict} {cases : List (String × List Step)}

/-- The labels of cases are the texts of the keys that they are listed under. -/
theorem labels_of_isCaseOf (h : List.Forall₂ IsCaseOf mapping cases) :
    cases.map (·.1) = mapping.map (·.1.text) := by
  induction h with
  | nil => rfl
  | cons hcase _ ih => rw [List.map_cons, List.map_cons, ih, hcase.label]

/-- What is listed under a key is the case of its text. -/
theorem caseSteps?_of_mem (h : List.Forall₂ IsCaseOf mapping cases)
    (htexts : (mapping.map (·.1.text)).Nodup) {k : Key} {listed : Value} (hk : (k, listed) ∈ mapping) :
    k.isSpellable = true ∧ ∃ steps, stepsOf listed = .ok steps ∧ caseSteps? cases k.text = some steps := by
  induction h with
  | nil => cases hk
  | @cons e c rest _ hcase _ ih =>
    obtain ⟨hnew, htexts⟩ := List.nodup_cons.1 htexts
    rw [caseSteps?, List.find?_cons, hcase.label]
    rcases List.mem_cons.1 hk with rfl | hk
    · exact ⟨hcase.spells, c.2, hcase.steps, by simp⟩
    · have hne : e.1.text ≠ k.text := fun heq => hnew (List.mem_map.2 ⟨_, hk, heq.symm⟩)
      rw [beq_false_of_ne hne]
      exact ih htexts hk

theorem caseSteps?_eq_none (h : List.Forall₂ IsCaseOf mapping cases) {text : String}
    (hnone : ∀ e ∈ mapping, e.1.text ≠ text) : caseSteps? cases text = none := by
  have hlabel : ∀ c ∈ cases, c.1 ≠ text := by
    intro c hc heq
    have hmem : text ∈ mapping.map (·.1.text) := labels_of_isCaseOf h ▸ heq ▸ List.mem_map_of_mem hc
    obtain ⟨e, he, htext⟩ := List.mem_map.1 hmem
    exact hnone e he htext
  rw [caseSteps?, List.find?_eq_none.2 fun c hc => by simpa using hlabel c hc, Option.map_none]

end Step

/-! ## Switches set to work -/

/-- The step runs the steps of a branch from the first on, nothing else, and reports the output. -/
def Step.branchRun (engine : Engine σ) (s : Step) (branch : String) (steps : List Step) (output : Value) :
    RunM σ StepResult :=
  RunM.recorded s do
    runFrom engine branch 0 0 steps
    return output

/-- What a switch reports: its value, and the case that it has come to. -/
def switchReport (v matched : Value) : Value := .record [("value", v), ("matched_case", matched)]

theorem StepM.entry_of_nil {α : Type} {t : Situation σ} (again : Entry → α) (afresh : StepM σ α)
    (hpath : t.context.resumePath = []) : StepM.entry again afresh t = afresh t := by
  have hpop : t.context.popFrame = (none, t.context) := by simp [Context.popFrame, hpath]
  have hcontext : StepM.context t = (.ok t.context, t) := rfl
  rw [StepM.entry, bind_of_ok hcontext, hpop]
  rfl

section Switch

variable {engine : Engine σ} {name subject v : Value} {cases : List (String × List Step)}
  {default? : Option (List Step)} {t : Situation σ} {text : String} {steps : List Step}

/-- What a switch finds that is set to work from its beginning: its subject has a value that has a text. -/
structure FindsText (c : Context) (subject v : Value) (text : String) : Prop where
  given : StepLabel.isMissing subject = false
  fresh : c.resumePath = []
  fills : Template.fill c subject = .ok v
  settled : c.settle v = v
  nonnull : v.isNull = false
  spells : v.isSpellable = true
  formats : Template.format v = .ok text

/-- Such a switch comes to the branch for the text. -/
theorem opening_of_finds (h : FindsText t.context subject v text) :
    (Step.switch name subject cases default?).opening t
      = match caseChoice? (.switch name subject cases default?) (some text) with
        | none => (.ok (.pass (switchReport v .null)), t)
        | some e => StepM.lift (e.opening (.switch name subject cases default?)
            (switchReport v (matchedCase e.branch))) t := by
  have hfilled : StepM.filled subject t = (.ok v, t) := by
    rw [StepM.filled, StepM.look, h.fills]
    rfl
  have hsettled : StepM.settled v t = (.ok v, t) := by
    rw [StepM.settled, StepM.look, h.settled]
    rfl
  have htext : StepM.lift (subjectText? v) t = (.ok (some text), t) := by
    rw [subjectText?, h.nonnull, h.formats]
    rfl
  have hspelled : StepM.spelled v t = (.ok v.text, t) := by
    rw [StepM.spelled, StepM.look, h.settled, Value.spell_of_isSpellable h.spells]
    rfl
  have hentry : switchChoice? (.switch name subject cases default?) v t
      = (.ok (caseChoice? (.switch name subject cases default?) (some text)), t) := by
    rw [switchChoice?, StepM.entry_of_nil _ _ h.fresh, bind_of_ok hsettled, bind_of_ok htext]
    rfl
  rw [Step.opening, StepLabel.require_of_given h.given, pure_bind, bind_of_ok hfilled, bind_of_ok hentry]
  cases caseChoice? (.switch name subject cases default?) (some text) with
  | none => exact bind_of_ok hspelled
  | some e => rfl

/-- A switch that comes to the beginning of a branch runs that branch. -/
theorem runStep_of_entry {branch : String} (h : FindsText t.context subject v text)
    (hentry : caseChoice? (.switch name subject cases default?) (some text) = some (.afresh branch))
    (hbranch : (Step.switch name subject cases default?).branchNamed? branch = some steps) :
    runStep engine (.switch name subject cases default?) t
      = (Step.switch name subject cases default?).branchRun engine branch steps
        (switchReport v (matchedCase (.str branch))) t := by
  cases hname : (Step.switch name subject cases default?).name.isSpellable with
  | false =>
    rw [runStep, Step.branchRun, RunM.recorded_of_unspellable hname, RunM.recorded_of_unspellable hname]
  | true =>
    have hopening : (Step.switch name subject cases default?).opening
        (t.start (.switch name subject cases default?))
          = (.ok (.enter branch (0 : Nat) steps (switchReport v (matchedCase (.str branch)))),
            t.start (.switch name subject cases default?)) := by
      rw [opening_of_finds (t := t.start _) h, hentry]
      dsimp only
      rw [Entry.opening_of_frame (f := { branch, index := 0 }) rfl rfl hbranch]
      rfl
    rw [runStep_of_enter engine hname hbranch hopening, Step.branchRun, RunM.recorded_of_spellable hname]
    rfl

/-- A switch runs the case of the text of its subject's value. -/
theorem runStep_of_case (h : FindsText t.context subject v text)
    (hcase : Step.caseSteps? cases text = some steps) :
    runStep engine (.switch name subject cases default?) t
      = (Step.switch name subject cases default?).branchRun engine (Branch.ofCase text) steps
        (switchReport v (.str text)) t := by
  have hentry : caseChoice? (.switch name subject cases default?) (some text)
      = some (.afresh (Branch.ofCase text)) := by
    simp [caseChoice?, hcase]
  have hbranch : (Step.switch name subject cases default?).branchNamed? (Branch.ofCase text)
      = some steps := by
    cases default? with
    | none => simp [Step.branchNamed?, Branch.label?_ofCase, hcase]
    | some => simp [Step.branchNamed?, Branch.ofCase_ne_default, Branch.label?_ofCase, hcase]
  rw [runStep_of_entry h hentry hbranch, matchedCase_ofCase]

/-- Without such a case it runs the default. -/
theorem runStep_of_default (h : FindsText t.context subject v text)
    (hcase : Step.caseSteps? cases text = none) :
    runStep engine (.switch name subject cases (some steps)) t
      = (Step.switch name subject cases (some steps)).branchRun engine Branch.defaultName steps
        (switchReport v (.str "default")) t := by
  have hentry : caseChoice? (.switch name subject cases (some steps)) (some text)
      = some (.afresh Branch.defaultName) := by
    simp [caseChoice?, hcase]
  exact runStep_of_entry h hentry (by simp [Step.branchNamed?])

/-- Without a default it runs nothing. -/
theorem runStep_of_none (h : FindsText t.context subject v text)
    (hcase : Step.caseSteps? cases text = none) :
    runStep engine (.switch name subject cases none) t
      = RunM.recorded (.switch name subject cases none) (pure (switchReport v .null)) t := by
  have hentry : caseChoice? (.switch name subject cases none) (some text) = none := by
    simp [caseChoice?, hcase]
  cases hname : (Step.switch name subject cases none).name.isSpellable with
  | false => rw [runStep, RunM.recorded_of_unspellable hname, RunM.recorded_of_unspellable hname]
  | true =>
    have hopening : (Step.switch name subject cases none).opening
        (t.start (.switch name subject cases none))
          = (.ok (.pass (switchReport v .null)), t.start (.switch name subject cases none)) := by
      rw [opening_of_finds (t := t.start _) h, hentry]
    rw [runStep, RunM.recorded_of_spellable hname, RunM.recorded_of_spellable hname, RunM.closed,
      bind_of_ok hopening]
    rfl

end Switch

/-! ## Values that are keys -/

section Keys

variable {d mapping : Dict} {name subject v listed : Value} {cases : List (String × List Step)}
  {default? : Option (List Step)} {k : Key} {p : String} {t : Situation σ}

/-- A switch whose subject is one expression for a key finds the key's text. -/
theorem finds_of_is (hp : Template.IsInside p)
    (hvalue : Template.resolve t.context (Text.strip p) = .ok v) (hfresh : t.context.resumePath = [])
    (hscalar : k.isScalar = true) (hspell : k.isSpellable = true) (hv : k.Is v) :
    FindsText t.context (.str (Template.braced p)) v k.shown := by
  obtain ⟨hnull, hspells, hsettle⟩ := Key.is_plain hscalar hv
  refine ⟨?_, hfresh, ?_, hsettle _, hnull, hspells.trans hspell, Key.format_of_is hscalar hspell hv⟩
  · have hempty : Template.braced p ≠ "" := by simp [← String.toList_inj, Template.braced]
    simp [StepLabel.isMissing, hempty]
  · have hwhole := Template.whole?_eq_some_iff.2 ⟨p, hp, .inl rfl, rfl⟩
    rw [Template.fill, Template.fillString, hwhole]
    exact hvalue

/-- A switch, set to work from its beginning on a value that is a key of its cases, runs what is listed
under this key if the key is a text, an integer or a float with a fraction. A truth value and a float
without a fraction miss what is listed under them: the switch runs what is listed under another key
with their text in lower case and without the fraction, or else its default, or nothing. -/
theorem switch_selects (engine : Engine σ)
    (hread : Step.ofValue (.dict d) = .ok (.switch name subject cases default?))
    (hmapping : d.field? "cases" = some (.dict mapping)) (htexts : (mapping.map (·.1.text)).Nodup)
    (hk : (k, listed) ∈ mapping) (hscalar : k.isScalar = true) (hp : Template.IsInside p)
    (hsubject : d.pick ["switch_value", "switchValue"] = .str (Template.braced p))
    (hvalue : Template.resolve t.context (Text.strip p) = .ok v) (hv : k.Is v)
    (hfresh : t.context.resumePath = []) :
    let s := Step.switch name subject cases default?
    (k.isReworded = false → ∃ steps, Step.stepsOf listed = .ok steps ∧
      runStep engine s t = s.branchRun engine (Branch.ofCase k.text) steps
        (switchReport v (.str k.text)) t) ∧
    (k.isReworded = true →
      (∀ l other, (l, other) ∈ mapping → l.text = k.shown → l ≠ k ∧
        ∃ steps, Step.stepsOf other = .ok steps ∧
          runStep engine s t = s.branchRun engine (Branch.ofCase l.text) steps
            (switchReport v (.str l.text)) t) ∧
      ((∀ e ∈ mapping, e.1.text ≠ k.shown) → runStep engine s t =
        match default? with
        | some steps => s.branchRun engine Branch.defaultName steps
            (switchReport v (.str "default")) t
        | none => RunM.recorded s (pure (switchReport v .null)) t)) := by
  intro s
  obtain ⟨hpick, hcases⟩ := Step.switch_of_ofValue hread
  obtain rfl := hpick.trans hsubject
  rw [Step.casesUnder_eq_field?, hmapping] at hcases
  obtain ⟨_, rfl, hread⟩ := Step.casesOfEntries_of_nodup [] (by simpa using htexts) hcases
  obtain ⟨hspell, steps, hsteps, hcase⟩ := Step.caseSteps?_of_mem hread htexts hk
  have hfinds := finds_of_is hp hvalue hfresh hscalar hspell hv
  refine ⟨fun hplain => ?_, fun hreworded => ⟨fun l other hl htext => ?_, fun hnone => ?_⟩⟩
  · rw [Key.shown_of_not_reworded hplain] at hfinds
    exact ⟨steps, hsteps, runStep_of_case hfinds hcase⟩
  · obtain ⟨-, steps, hsteps, hcase⟩ := Step.caseSteps?_of_mem hread htexts hl
    rw [← htext] at hfinds
    refine ⟨?_, steps, hsteps, runStep_of_case hfinds hcase⟩
    rintro rfl
    exact Key.shown_ne_text hreworded htext.symm
  · have hcase := Step.caseSteps?_eq_none hread hnone
    cases default? with
    | none => exact runStep_of_none hfinds hcase
    | some steps => exact runStep_of_default hfinds hcase

end Keys

/-! ## A switch on ratings -/

def loggedLine (line : String) : Value :=
  .list [.record [("name", .str "tell"), ("type", .str "log"), ("message", .str line)]]

/-- Cases under a text, a number and a truth value. -/
def ratings : Dict :=
  [(.str "low", loggedLine "low"), (.int 2, loggedLine "two"), (.bool true, loggedLine "yes")]

/-- A switch with these cases. -/
def rate : Dict :=
  Dict.ofFields [("name", .str "rate"), ("type", .str "switch"), ("switch_value", .str "\x7b\x7bx\x7d\x7d"),
    ("cases", .dict ratings)]

/-- A run that has come to the switch with a value under `x`. -/
def ratedAs (v : Value) : Situation Unit where
  context := { bindings := [(.str "x", v)] }
  outside := ()

def tell (line : String) : Step := .action (.str "tell") (.log (.str line))

/-- The switch as it is read. -/
def rating : Step :=
  .switch (.str "rate") (.str "\x7b\x7bx\x7d\x7d")
    [("low", [tell "low"]), ("2", [tell "two"]), ("True", [tell "yes"])] none

theorem switch_selects_of_ratings :
    (∃ steps, Step.stepsOf (loggedLine "two") = .ok steps ∧
      runStep ({} : Engine Unit) rating (ratedAs (.int 2))
        = rating.branchRun {} (Branch.ofCase "2") steps (switchReport (.int 2) (.str "2"))
          (ratedAs (.int 2))) ∧
    runStep ({} : Engine Unit) rating (ratedAs (.bool true))
      = RunM.recorded rating (pure (switchReport (.bool true) .null)) (ratedAs (.bool true)) := by
  have hread : Step.ofValue (.dict rate) = .ok rating := by decide +kernel
  have hmapping : rate.field? "cases" = some (.dict ratings) := by decide +kernel
  have htexts : (ratings.map (·.1.text)).Nodup := by decide +kernel
  have htwo : ((.int 2, loggedLine "two") : Key × Value) ∈ ratings := .tail _ (.head _)
  have hyes : ((.bool true, loggedLine "yes") : Key × Value) ∈ ratings := .tail _ (.tail _ (.head _))
  constructor
  · exact (switch_selects {} hread hmapping htexts htwo rfl (p := "x") (by decide) (by decide +kernel)
      (by decide +kernel) (.inl rfl) rfl).1 rfl
  · exact ((switch_selects {} hread hmapping htexts hyes rfl (p := "x") (by decide) (by decide +kernel)
      (by decide +kernel) (.inl rfl) rfl).2 rfl).2 (by decide +kernel)

/-- The case listed under a truth value is not run for this value. -/
theorem not_selects_truth :
    ¬ ∀ (engine : Engine Unit) (d mapping : Dict) (s : Step) (k : Key) (listed : Value) (p : String)
      (t : Situation Unit),
      Step.ofValue (.dict d) = .ok s → s.kind = .switch → d.field? "cases" = some (.dict mapping) →
      (∀ e ∈ mapping, e.1.isScalar = true) → (mapping.map (·.1.text)).Nodup → (k, listed) ∈ mapping →
      Template.IsInside p → d.pick ["switch_value", "switchValue"] = .str (Template.braced p) →
      Template.resolve t.context (Text.strip p) = .ok k.toValue → t.context.resumePath = [] →
      ∃ steps output, Step.stepsOf listed = .ok steps ∧
        runStep engine s t = s.branchRun engine (Branch.ofCase k.text) steps output t := by
  intro h
  obtain ⟨steps, output, hsteps, hrun⟩ := h {} rate ratings rating (.bool true) (loggedLine "yes") "x"
    (ratedAs (.bool true)) (by decide +kernel) rfl (by decide +kernel) (by decide +kernel)
    (by decide +kernel) (.tail _ (.tail _ (.head _))) (by decide) (by decide +kernel) (by decide +kernel)
    rfl
  have hlisted : Step.stepsOf (loggedLine "yes") = .ok [tell "yes"] := by decide +kernel
  obtain rfl := Except.ok.inj (hlisted.symm.trans hsteps)
  -- The switch logs nothing, and its case logs a line.
  have hlogs := congrArg (·.2.context.logs) hrun
  have hnothing : (runStep ({} : Engine Unit) rating (ratedAs (.bool true))).2.context.logs = [] := by
    decide +kernel
  rw [hnothing] at hlogs
  cases hlogs

end Stepwise
