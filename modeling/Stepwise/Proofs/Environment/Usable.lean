-- SUMMARY: What is loaded has the types of the settings, and only its bounds can keep it from being used.
import Stepwise.LaxSettings
import Stepwise.Proofs.Environment.Precedence

/-!
# Settings from a fresh environment

A text that converts gives its setting a value of the setting's type, so that a fresh environment without
providers holds the record of some settings after it is loaded. The bounds of token counts and lifetimes
are looked at only when a model builds the interpreter's settings: they are the ones that were loaded, unless
some of these are outside their bounds. Of the model no more is assumed than what it does with values of the
declared types.
-/

namespace Stepwise

/-! ## Typed settings -/

namespace Settings

def entries (s : Settings) : Dict :=
  .ofFields [("sampling_enabled", .bool s.samplingEnabled),
    ("sampling_max_tokens", .int s.samplingMaxTokens),
    ("sampling_system_prompt", textValue s.samplingSystemPrompt?),
    ("sampling_model", textValue s.samplingModel?),
    ("state_ttl_seconds", intValue s.stateTtl?),
    ("log_level", .str s.logLevel)]

theorem toValue_eq (s : Settings) : s.toValue = .dict s.entries := rfl

theorem exists_of_convert_int {text : String} {v : Value} (h : SettingType.int.convert text = .ok v) :
    ∃ n, v = .int n := by
  rw [SettingType.convert] at h
  cases hread : Numeral.toInt text with
  | error f =>
    rw [hread] at h
    cases h
  | ok n =>
    rw [hread] at h
    cases h
    exact ⟨n, rfl⟩

/-- A text that converts gives its setting a value of the setting's type. -/
theorem exists_applyChange (s : Settings) {setting : SettingDeclaration} {text : String} {v : Value}
    (hdeclared : setting ∈ declaredSettings) (hconvert : setting.type.convert text = .ok v) :
    ∃ s' : Settings, applyChange s.entries (setting.name, v) = s'.entries := by
  simp only [declaredSettings, List.mem_cons, List.not_mem_nil, or_false] at hdeclared
  rcases hdeclared with rfl | rfl | rfl | rfl | rfl | rfl
  · obtain rfl := Except.ok.inj hconvert
    exact ⟨{ s with samplingEnabled := Text.lowercase text.toList == "true".toList }, rfl⟩
  · obtain ⟨n, rfl⟩ := exists_of_convert_int hconvert
    exact ⟨{ s with samplingMaxTokens := n }, rfl⟩
  · obtain rfl := Except.ok.inj hconvert
    exact ⟨{ s with samplingSystemPrompt? := some text }, rfl⟩
  · obtain rfl := Except.ok.inj hconvert
    exact ⟨{ s with samplingModel? := some text }, rfl⟩
  · obtain ⟨n, rfl⟩ := exists_of_convert_int hconvert
    exact ⟨{ s with stateTtl? := some n }, rfl⟩
  · obtain rfl := Except.ok.inj hconvert
    exact ⟨{ s with logLevel := text }, rfl⟩

/-- Assignments to variables leave the settings typed. -/
theorem exists_settle (s : Settings) (seen : List (String × String)) :
    ∃ s' : Settings, settle s.entries (seen.map fun a => .ofVariable a.1 a.2) = s'.entries := by
  induction seen generalizing s with
  | nil => exact ⟨s, rfl⟩
  | cons a rest ih =>
    rw [List.map_cons]
    cases hchange : (Assignment.ofVariable a.1 a.2).change? with
    | none =>
      have hskip := settle_of_change?_eq_none hchange s.entries [] (rest.map fun a => .ofVariable a.1 a.2)
      rw [List.nil_append, List.nil_append] at hskip
      rw [hskip]
      exact ih s
    | some c =>
      obtain ⟨setting, hfound, v, hconvert, rfl⟩ := changeTo_eq_some_iff.1 hchange
      obtain ⟨s', hs'⟩ := s.exists_applyChange (List.mem_of_find?_eq_some hfound) hconvert
      rw [settle, List.filterMap_cons_some hchange, List.foldl_cons, hs']
      exact ih s'

end Settings

/-! ## Models -/

def SettingType.holds : SettingType → Value → Bool
  | .bool, .bool _ | .int, .int _ | .str, .str _ => true
  | _, _ => false

/-- Named values of declared settings, each of its setting's type. -/
def Dict.IsTyped (d : Dict) : Prop :=
  ∀ e ∈ d, ∃ setting ∈ declaredSettings, e.1 = .str setting.name ∧ setting.type.holds e.2 = true

/-- Token counts and lifetimes are positive where they are given. -/
def Dict.IsBounded (d : Dict) : Prop :=
  ∀ name ∈ ["sampling_max_tokens", "state_ttl_seconds"], ∀ n, d.field? name = some (.int n) → 0 < n

namespace Settings

def IsBounded (s : Settings) : Prop := 0 < s.samplingMaxTokens ∧ ∀ n ∈ s.stateTtl?, 0 < n

/-- The entries that are not null. -/
def given (s : Settings) : Dict := s.entries.filter fun e => !e.2.isNull

theorem isTyped_given (s : Settings) : s.given.IsTyped := by
  obtain ⟨enabled, tokens, prompt?, model?, ttl?, level⟩ := s
  intro e he
  obtain ⟨hentry, hgiven⟩ := List.mem_filter.1 he
  simp only [entries, Dict.ofFields, List.map_cons, List.map_nil, List.mem_cons, List.not_mem_nil,
    or_false] at hentry
  rcases hentry with rfl | rfl | rfl | rfl | rfl | rfl
  · exact ⟨⟨"sampling_enabled", .bool true, .bool⟩, by decide, rfl, rfl⟩
  · exact ⟨⟨"sampling_max_tokens", .int 1000, .int⟩, by decide, rfl, rfl⟩
  · cases prompt? with
    | none => cases hgiven
    | some prompt => exact ⟨⟨"sampling_system_prompt", .null, .str⟩, by decide, rfl, rfl⟩
  · cases model? with
    | none => cases hgiven
    | some model => exact ⟨⟨"sampling_model", .null, .str⟩, by decide, rfl, rfl⟩
  · cases ttl? with
    | none => cases hgiven
    | some ttl => exact ⟨⟨"state_ttl_seconds", .null, .int⟩, by decide, rfl, rfl⟩
  · exact ⟨⟨"log_level", .str "INFO", .str⟩, by decide, rfl, rfl⟩

theorem textValue_injective : Function.Injective textValue := by
  intro s? s'? h
  cases s? <;> cases s'? <;> simp_all [textValue]

theorem intValue_injective : Function.Injective intValue := by
  intro n? n'? h
  cases n? <;> cases n'? <;> simp_all [intValue]

/-- The settings are what a dictionary gives: each is the value that is given for it, or its default. -/
def Complete (s : Settings) (d : Dict) : Prop :=
  ∀ setting ∈ declaredSettings,
    Dict.field? s.entries setting.name = some ((d.field? setting.name).getD setting.default)

theorem complete_given (s : Settings) : s.Complete s.given := by
  obtain ⟨enabled, tokens, prompt?, model?, ttl?, level⟩ := s
  simp only [Complete, declaredSettings, List.forall_mem_cons]
  cases prompt? <;> cases model? <;> cases ttl? <;> exact ⟨rfl, rfl, rfl, rfl, rfl, rfl, nofun⟩

/-- The defaults are in their bounds, so that only what is given can be outside. -/
theorem Complete.isBounded_iff {s : Settings} {d : Dict} (h : s.Complete d) : s.IsBounded ↔ d.IsBounded := by
  have htokens : some (Value.int s.samplingMaxTokens) = some ((d.field? "sampling_max_tokens").getD (.int 1000)) :=
    h ⟨"sampling_max_tokens", .int 1000, .int⟩ (by decide)
  have hlifetime : some (intValue s.stateTtl?) = some ((d.field? "state_ttl_seconds").getD .null) :=
    h ⟨"state_ttl_seconds", .null, .int⟩ (by decide)
  have hpositive : 0 < s.samplingMaxTokens ↔
      ∀ n, d.field? "sampling_max_tokens" = some (.int n) → 0 < n := by
    cases hgiven : d.field? "sampling_max_tokens" with
    | none =>
      rw [hgiven] at htokens
      rw [Value.int.inj (Option.some.inj htokens)]
      simp
    | some v =>
      rw [hgiven] at htokens
      rw [← (Option.some.inj htokens : Value.int s.samplingMaxTokens = v)]
      simp
  have hlasting : (∀ n ∈ s.stateTtl?, 0 < n) ↔
      ∀ n, d.field? "state_ttl_seconds" = some (.int n) → 0 < n := by
    cases hgiven : d.field? "state_ttl_seconds" with
    | none =>
      rw [hgiven] at hlifetime
      rw [intValue_injective (Option.some.inj hlifetime : _ = intValue none)]
      simp
    | some v =>
      rw [hgiven] at hlifetime
      cases hlifetime
      cases s.stateTtl? <;> simp
  rw [IsBounded, hpositive, hlasting, Dict.IsBounded, List.forall_mem_cons, List.forall_mem_singleton]

/-- A dictionary gives no two settings. -/
theorem Complete.eq {s s' : Settings} {d : Dict} (h : s.Complete d) (h' : s'.Complete d) : s = s' := by
  have hsame : ∀ setting ∈ declaredSettings,
      Dict.field? s.entries setting.name = Dict.field? s'.entries setting.name :=
    fun setting hsetting => (h setting hsetting).trans (h' setting hsetting).symm
  simp only [declaredSettings, List.forall_mem_cons] at hsame
  obtain ⟨henabled, htokens, hprompt, hmodel, hlifetime, hlevel, -⟩ := hsame
  obtain ⟨enabled, tokens, prompt?, model?, ttl?, level⟩ := s
  obtain ⟨enabled', tokens', prompt'?, model'?, ttl'?, level'⟩ := s'
  have henabled : some (Value.bool enabled) = some (.bool enabled') := henabled
  have htokens : some (Value.int tokens) = some (.int tokens') := htokens
  have hprompt : some (textValue prompt?) = some (textValue prompt'?) := hprompt
  have hmodel : some (textValue model?) = some (textValue model'?) := hmodel
  have hlifetime : some (intValue ttl?) = some (intValue ttl'?) := hlifetime
  have hlevel : some (Value.str level) = some (.str level') := hlevel
  cases henabled
  cases htokens
  cases hlevel
  cases textValue_injective (Option.some.inj hprompt)
  cases textValue_injective (Option.some.inj hmodel)
  cases intValue_injective (Option.some.inj hlifetime)
  rfl

theorem entries_injective : Function.Injective entries := fun s s' h =>
  s.complete_given.eq (d := s.given) fun setting hsetting => by
    rw [← h]
    exact s.complete_given setting hsetting

end Settings

/-- What a settings model is relied on for: of values of the declared types it accepts exactly those in
their bounds, and then each setting has the value that is given, or else its default. -/
structure SettingsModel.IsFaithful {ε : Type} (model : SettingsModel ε) : Prop where
  accepts_iff {d : Dict} : d.IsTyped → ((model d).isOk = true ↔ d.IsBounded)
  keeps {d : Dict} {s : Settings} : d.IsTyped → model d = .ok s → s.Complete d

namespace Settings

/-- Typed settings are built again as they are, unless some are outside their bounds. -/
theorem model_given {ε : Type} {model : SettingsModel ε} (hmodel : model.IsFaithful) (s : Settings) :
    (s.IsBounded → model s.given = .ok s) ∧ (¬ s.IsBounded → (model s.given).isOk = false) := by
  have haccepts : (model s.given).isOk = true ↔ s.IsBounded :=
    (hmodel.accepts_iff s.isTyped_given).trans s.complete_given.isBounded_iff.symm
  refine ⟨fun hbounded => ?_, fun hbounded => Bool.eq_false_iff.2 (mt haccepts.1 hbounded)⟩
  cases hbuilt : model s.given with
  | error _ =>
    have hok := haccepts.2 hbounded
    rw [hbuilt] at hok
    cases hok
  | ok s' => rw [(hmodel.keeps s.isTyped_given hbuilt).eq s.complete_given]

end Settings

/-! ## A faithful model -/

namespace LaxSettings

variable {d : Dict} {name : String}

theorem mem_of_field? {v : Value} (h : Dict.field? d name = some v) : (.str name, v) ∈ d := by
  induction d with
  | nil => cases h
  | cons e rest ih =>
    rw [Dict.field?, Dict.get?] at h
    split at h
    · rename_i hsame
      cases h
      have hkey : e.1 = .str name := by simpa [Key.same] using hsame
      exact List.mem_cons.2 (.inl (Prod.ext hkey.symm rfl))
    · exact List.mem_cons_of_mem e (ih h)

/-- A typed value is of the type of its setting. -/
theorem holds_of_field? (hd : d.IsTyped) {setting : SettingDeclaration}
    (hsetting : setting ∈ declaredSettings)
    (v : Value) (hv : d.field? setting.name = some v) : setting.type.holds v = true := by
  have hnames : ∀ s ∈ declaredSettings, ∀ s' ∈ declaredSettings, s.name = s'.name → s = s' := by decide
  obtain ⟨found, hfound, hname, hholds⟩ := hd _ (mem_of_field? hv)
  rwa [hnames setting hsetting found hfound (Key.str.inj hname)]

theorem readField_bool (default : Bool)
    (hv : ∀ v, d.field? name = some v → SettingType.bool.holds v = true) :
    ∃ b, readField d name default readBool = .ok b ∧ (d.field? name).getD (.bool default) = .bool b := by
  rw [readField]
  cases hfield : d.field? name with
  | none => exact ⟨default, rfl, rfl⟩
  | some v =>
    have hholds := hv v hfield
    cases v with
    | bool b => exact ⟨b, rfl, rfl⟩
    | _ => cases hholds

theorem readField_level (default : String)
    (hv : ∀ v, d.field? name = some v → SettingType.str.holds v = true) :
    ∃ s, readField d name default readText = .ok s ∧ (d.field? name).getD (.str default) = .str s := by
  rw [readField]
  cases hfield : d.field? name with
  | none => exact ⟨default, rfl, rfl⟩
  | some v =>
    have hholds := hv v hfield
    cases v with
    | str s => exact ⟨s, rfl, rfl⟩
    | _ => cases hholds

theorem readField_text (hv : ∀ v, d.field? name = some v → SettingType.str.holds v = true) :
    ∃ s?, readField d name none (readOptional readText) = .ok s? ∧
      (d.field? name).getD .null = Settings.textValue s? := by
  rw [readField]
  cases hfield : d.field? name with
  | none => exact ⟨none, rfl, rfl⟩
  | some v =>
    have hholds := hv v hfield
    cases v with
    | str s => exact ⟨some s, rfl, rfl⟩
    | _ => cases hholds

theorem readPositive_int (n : Int) :
    readPositive (.int n) = if 0 < n then .ok n else .error .greaterThan := rfl

theorem readField_tokens (default : Int) (hdefault : 0 < default)
    (hv : ∀ v, d.field? name = some v → SettingType.int.holds v = true) :
    ∃ n, readField d name default readPositive = (if 0 < n then .ok n else .error (name, .greaterThan)) ∧
      (d.field? name).getD (.int default) = .int n := by
  rw [readField]
  cases hfield : d.field? name with
  | none => exact ⟨default, (if_pos hdefault).symm, rfl⟩
  | some v =>
    have hholds := hv v hfield
    cases v with
    | int n =>
      refine ⟨n, ?_, rfl⟩
      by_cases hn : 0 < n <;> simp [readPositive_int, hn]
    | _ => cases hholds

theorem readField_lifetime (hv : ∀ v, d.field? name = some v → SettingType.int.holds v = true) :
    ∃ n?, readField d name none (readOptional readPositive)
        = (if ∀ n ∈ n?, 0 < n then .ok n? else .error (name, .greaterThan)) ∧
      (d.field? name).getD .null = Settings.intValue n? := by
  rw [readField]
  cases hfield : d.field? name with
  | none => exact ⟨none, (if_pos nofun).symm, rfl⟩
  | some v =>
    have hholds := hv v hfield
    cases v with
    | int n =>
      refine ⟨some n, ?_, rfl⟩
      by_cases hn : 0 < n <;> simp [readOptional, Value.isNull, readPositive_int, hn, Except.map]
    | _ => cases hholds

/-- Typed values are taken as they are, unless some are outside their bounds. -/
theorem ofDict_typed (hd : d.IsTyped) :
    ∃ s : Settings, s.Complete d ∧ (s.IsBounded → ofDict d = .ok s) ∧
      (¬ s.IsBounded → (ofDict d).isOk = false) := by
  have holds : ∀ setting ∈ declaredSettings, ∀ v, d.field? setting.name = some v →
      setting.type.holds v = true := fun _ hsetting => holds_of_field? hd hsetting
  simp only [declaredSettings, List.forall_mem_cons] at holds
  obtain ⟨henabled, htokens, hprompt, hmodel, hlifetime, hlevel, -⟩ := holds
  obtain ⟨enabled, henabled, henabled'⟩ := readField_bool true henabled
  obtain ⟨tokens, htokens, htokens'⟩ := readField_tokens 1000 (by decide) htokens
  obtain ⟨prompt?, hprompt, hprompt'⟩ := readField_text hprompt
  obtain ⟨model?, hmodel, hmodel'⟩ := readField_text hmodel
  obtain ⟨lifetime?, hlifetime, hlifetime'⟩ := readField_lifetime hlifetime
  obtain ⟨level, hlevel, hlevel'⟩ := readField_level "INFO" hlevel
  refine ⟨{ samplingEnabled := enabled, samplingMaxTokens := tokens, samplingSystemPrompt? := prompt?,
            samplingModel? := model?, stateTtl? := lifetime?, logLevel := level }, ?_, ?_, ?_⟩
  · simp only [Settings.Complete, declaredSettings, List.forall_mem_cons]
    rw [henabled', htokens', hprompt', hmodel', hlifetime', hlevel']
    exact ⟨rfl, rfl, rfl, rfl, rfl, rfl, nofun⟩
  · rintro ⟨hpositive, hlasting⟩
    rw [if_pos hpositive] at htokens
    rw [if_pos hlasting] at hlifetime
    rw [ofDict, henabled, htokens, hprompt, hmodel, hlifetime, hlevel]
  · intro hbounded
    rw [ofDict, henabled, htokens, hprompt, hmodel, hlifetime, hlevel]
    by_cases hpositive : 0 < tokens
    · have hlasting : ¬ ∀ n ∈ lifetime?, 0 < n := fun hlasting => hbounded ⟨hpositive, hlasting⟩
      rw [if_pos hpositive, if_neg hlasting]
      rfl
    · rw [if_neg hpositive]
      rfl

/-- The lax model does with typed values what it is relied on for. -/
theorem isFaithful : SettingsModel.IsFaithful ofDict where
  accepts_iff hd := by
    obtain ⟨s, hcomplete, hin, hout⟩ := ofDict_typed hd
    rw [← hcomplete.isBounded_iff]
    by_cases hbounded : s.IsBounded
    · rw [hin hbounded]
      exact iff_of_true rfl hbounded
    · rw [hout hbounded]
      exact iff_of_false Bool.false_ne_true hbounded
  keeps hd h := by
    obtain ⟨s, hcomplete, hin, hout⟩ := ofDict_typed hd
    by_cases hbounded : s.IsBounded
    · rw [hin hbounded] at h
      cases h
      exact hcomplete
    · have hfails := hout hbounded
      rw [h] at hfails
      cases hfails

end LaxSettings

/-! ## Loading -/

namespace Environment

/-- A fresh environment holds the default settings. -/
theorem settings_fresh : ({} : Environment).settings = ({} : Settings).entries := rfl

/-- Whatever a fresh environment without providers is loaded from, it holds settings of their types: each
has the value of the last assignment to it that converts, or its default. A faithful model gives these to
the interpreter, unless the token count or the lifetime is not positive; then it gives none. -/
theorem load_usable {ε : Type} {model : SettingsModel ε} (hmodel : model.IsFaithful)
    (sources : EnvironmentSources) :
    let e := (({} : Environment).load sources).1
    (({} : Environment).load sources).2 = .ok () ∧
    (∀ name, Dict.field? e.settings name
      = (lastValue? name (sources.seen.map fun a => .ofVariable a.1 a.2)).or
          (Dict.field? ({} : Environment).settings name)) ∧
    ∃ s : Settings, s.toValue = .dict e.settings ∧
      (s.IsBounded → e.interpreterSettings model = .ok s) ∧
      (¬ s.IsBounded → (e.interpreterSettings model).isOk = false) := by
  have hnone : ({} : Environment).assignmentsFrom sources = sources.seen.map fun a => .ofVariable a.1 a.2 :=
    List.append_nil _
  rw [load_eq, hnone]
  obtain ⟨s, hs⟩ := Settings.exists_settle {} sources.seen
  refine ⟨rfl, fun name => field?_settle _ _ name, s, by rw [settings_fresh, hs, Settings.toValue_eq], ?_⟩
  rw [interpreterSettings, settings_fresh, hs]
  exact s.model_given hmodel

theorem load_usable_of_dozen :
    SettingsModel.IsFaithful LaxSettings.ofDict ∧
    (({} : Environment).load
      { process := [("WORKFLOW_SAMPLING_MAX_TOKENS", "12")] }).1.interpreterSettings LaxSettings.ofDict
        = .ok { samplingMaxTokens := 12 } := by
  obtain ⟨-, -, s, hs, hbuilt, -⟩ :=
    load_usable LaxSettings.isFaithful { process := [("WORKFLOW_SAMPLING_MAX_TOKENS", "12")] }
  have hsettings : (({} : Environment).load { process := [("WORKFLOW_SAMPLING_MAX_TOKENS", "12")] }).1.settings
      = ({ samplingMaxTokens := 12 } : Settings).entries := by
    decide +kernel
  rw [hsettings] at hs
  cases Settings.entries_injective (Value.dict.inj hs)
  exact ⟨LaxSettings.isFaithful, hbuilt ⟨by decide, nofun⟩⟩

/-- A token count that is not positive is loaded, and the settings cannot be built. -/
theorem not_usable_of_zero_tokens :
    ¬ ∀ (ε : Type) (model : SettingsModel ε), model.IsFaithful → ∀ sources : EnvironmentSources,
      ∃ s, ((({} : Environment).load sources).1.interpreterSettings model) = .ok s := by
  intro hclaim
  obtain ⟨s, hs⟩ := hclaim _ _ LaxSettings.isFaithful { process := [("WORKFLOW_SAMPLING_MAX_TOKENS", "0")] }
  have hfails : ((({} : Environment).load
      { process := [("WORKFLOW_SAMPLING_MAX_TOKENS", "0")] }).1.interpreterSettings LaxSettings.ofDict).isOk
        = false := by
    decide +kernel
  rw [hs] at hfails
  cases hfails

end Environment

end Stepwise
