-- SUMMARY: The last assignment that converts gives a setting its value, and loading again changes nothing.
import Mathlib.Data.List.Induction
import Mathlib.Data.List.TakeWhile
import Stepwise.Proofs.Environment.File
import Stepwise.Proofs.Value.Entries

/-!
# Precedence of settings

An environment is loaded from one list of assignments: the lines of the first file, the variables of
the process and the updates of the providers, in this order. The ones that convert are stored one over
the other, so that each setting has the value of the last that is to it. What is stored over itself
stays, and therefore loading again changes nothing.
-/

namespace Stepwise

/-! ## Storing twice -/

/-- Storing under keys: under a key that is there, the value is replaced and nothing is moved. -/
structure Overwrites {τ α κ : Type} (store : τ → α → τ) (key : α → κ) (holds : κ → τ → Prop) : Prop where
  holds_self (t : τ) (a : α) : holds (key a) (store t a)
  holds_store {k : κ} {t : τ} (a : α) : holds k t → holds k (store t a)
  replaces {a b : α} (t : τ) : key a = key b → store (store t a) b = store t b
  commutes {a b : α} {t : τ} : key a ≠ key b → holds (key b) t → store (store t a) b = store (store t b) a

namespace Overwrites

variable {τ α κ : Type} {store : τ → α → τ} {key : α → κ} {holds : κ → τ → Prop}

theorem holds_foldl (h : Overwrites store key holds) {k : κ} (as : List α) {t : τ} (ht : holds k t) :
    holds k (as.foldl store t) := by
  induction as generalizing t with
  | nil => exact ht
  | cons a rest ih => exact ih (h.holds_store a ht)

/-- After the items are stored, there is something under the key of each. -/
theorem holds_of_mem (h : Overwrites store key holds) {a : α} {as : List α} (ha : a ∈ as) (t : τ) :
    holds (key a) (as.foldl store t) := by
  induction as generalizing t with
  | nil => cases ha
  | cons b rest ih =>
    rcases List.mem_cons.1 ha with rfl | hrest
    · exact h.holds_foldl rest (h.holds_self t a)
    · exact ih hrest (store t b)

/-- What is stored last need not have been stored first, if the keys in between are there. -/
theorem store_foldl_store (h : Overwrites store key holds) (a : α) (as : List α) {t : τ}
    (hthere : ∀ b ∈ as, holds (key b) t) :
    store (as.foldl store (store t a)) a = store (as.foldl store t) a := by
  induction as generalizing t with
  | nil => exact h.replaces t rfl
  | cons b rest ih =>
    have hrest : ∀ c ∈ rest, holds (key c) (store t b) :=
      fun c hc => h.holds_store b (hthere c (List.mem_cons_of_mem b hc))
    rw [List.foldl_cons, List.foldl_cons]
    by_cases heq : key a = key b
    · rw [h.replaces t heq]
    · rw [h.commutes heq (hthere b List.mem_cons_self)]
      exact ih hrest

theorem foldl_foldl (h : Overwrites store key holds) (as : List α) (t : τ) :
    as.foldl store (as.foldl store t) = as.foldl store t := by
  -- The last item is the one that the second round must be shown not to miss.
  induction as using List.reverseRecOn with
  | nil => rfl
  | append_singleton as a ih =>
    rw [List.foldl_append, List.foldl_append, List.foldl_cons, List.foldl_nil, List.foldl_cons, List.foldl_nil,
      h.store_foldl_store a as fun b hb => h.holds_of_mem hb t, ih]

end Overwrites

/-! ## Assignments -/

/-- An assignment: of a text to a variable, or of a value to a setting by a provider. -/
inductive Assignment where
  | ofVariable (name text : String)
  | ofProvider (name : Key) (v : Value)

/-- The setting that is changed, with its new value, if there is such a setting and its value is read. -/
def changeTo (s? : Option SettingDeclaration) (read : SettingDeclaration → Except Fault Value) :
    Option (String × Value) :=
  s?.bind fun s => (read s).toOption.map fun v => (s.name, v)

theorem changeTo_eq_some_iff {s? : Option SettingDeclaration} {read : SettingDeclaration → Except Fault Value}
    {c : String × Value} :
    changeTo s? read = some c ↔ ∃ s, s? = some s ∧ ∃ v, read s = .ok v ∧ c = (s.name, v) := by
  cases s? with
  | none => simp [changeTo]
  | some s => cases hread : read s <;> simp [changeTo, hread, Except.toOption, eq_comm]

/-- The setting that an assignment is to, with the value that its text converts to. -/
def Assignment.change? : Assignment → Option (String × Value)
  | .ofVariable name text => changeTo (settingOfVariable? name) fun s => s.type.convert text
  | .ofProvider name v => changeTo (declaredSetting? name) fun s => Environment.updateValue s v

def applyChange (settings : Dict) (c : String × Value) : Dict := settings.insert (.str c.1) c.2

/-- Settings with the changes that assignments make, one after the other. -/
def settle (settings : Dict) (assignments : List Assignment) : Dict :=
  (assignments.filterMap Assignment.change?).foldl applyChange settings

/-- The value that the last of the assignments that change a setting gives to it. -/
def lastValue? (name : String) (assignments : List Assignment) : Option Value :=
  (assignments.filterMap Assignment.change?).reverse.lookup name

theorem settle_append (settings : Dict) (as bs : List Assignment) :
    settle settings (as ++ bs) = settle (settle settings as) bs := by
  rw [settle, List.filterMap_append, List.foldl_append]
  rfl

theorem settle_cons (settings : Dict) (a : Assignment) (as : List Assignment) :
    settle settings (a :: as) = settle (settle settings [a]) as :=
  settle_append settings [a] as

/-- An assignment that does not convert makes no difference to the others. -/
theorem settle_of_change?_eq_none {a : Assignment} (h : a.change? = none) (settings : Dict)
    (before after : List Assignment) :
    settle settings (before ++ a :: after) = settle settings (before ++ after) := by
  rw [settle, settle, List.filterMap_append, List.filterMap_append, List.filterMap_cons_none h]

/-- The assignments that convert settle the settings as if there were no others. -/
theorem settle_filter (settings : Dict) (as : List Assignment) :
    settle settings (as.filter fun a => a.change?.isSome) = settle settings as := by
  rw [settle, settle, List.filterMap_filter]
  congr 2
  funext a
  cases a.change? <;> rfl

theorem field?_foldl_applyChange (changes : List (String × Value)) (settings : Dict) (name : String) :
    Dict.field? (changes.foldl applyChange settings) name
      = (changes.reverse.lookup name).or (Dict.field? settings name) := by
  induction changes generalizing settings with
  | nil => rfl
  | cons c rest ih =>
    obtain ⟨changed, v⟩ := c
    have hfirst : List.lookup name [(changed, v)] = if name = changed then some v else none := by
      by_cases h : name = changed
      · simp [h]
      · have hne : (name == changed) = false := beq_false_of_ne h
        simp [List.lookup_cons, h, hne]
    rw [List.foldl_cons, ih, applyChange, Dict.field?_insert, List.reverse_cons, List.lookup_append, hfirst,
      Option.or_assoc]
    split <;> rfl

/-- A setting has the value of the last change to it, or the one that it had. -/
theorem field?_settle (settings : Dict) (as : List Assignment) (name : String) :
    Dict.field? (settle settings as) name = (lastValue? name as).or (Dict.field? settings name) :=
  field?_foldl_applyChange _ settings name

theorem overwrites_applyChange :
    Overwrites applyChange Prod.fst fun name settings => (Dict.get? settings (.str name)).isSome where
  holds_self settings c := by rw [applyChange, Dict.get?_insert_self]; rfl
  holds_store c h := by
    rw [applyChange, Dict.get?_insert]
    split
    · rfl
    · exact h
  replaces settings h := by rw [applyChange, applyChange, applyChange, h, Dict.insert_insert]
  commutes h hthere := Dict.insert_comm _ _ (by simpa using h) hthere

theorem settle_settle (settings : Dict) (as : List Assignment) :
    settle (settle settings as) as = settle settings as :=
  overwrites_applyChange.foldl_foldl _ settings

/-! ## Sources -/

namespace EnvironmentSources

def fileAssignments (sources : EnvironmentSources) : List (String × String) :=
  match sources.files.filterMap id with
  | content :: _ => EnvironmentFile.assignments content
  | [] => []

/-- The variables that are seen: those of the file, and then those of the process that are of settings. -/
def seen (sources : EnvironmentSources) : List (String × String) :=
  sources.fileAssignments ++ sources.process.filter fun a => (settingOfVariable? a.1).isSome

end EnvironmentSources

/-- The name is that of a setting, or can be shown in the words that refuse it. -/
def isPassable (name : Key) : Bool := (declaredSetting? name).isSome || name.isSpellable

/-- What a provider has given up with is written out, if it has given up. -/
def reported (answer : Except Raised Value) : Except Crash Unit :=
  match answer with
  | .ok _ => .ok ()
  | .error raised => raised.spell.map fun _ => ()

/-- The updates of a provider. A dictionary is gone through up to the first name that is of no setting and
cannot even be shown; any other answer, and none, has no updates. -/
def provided (answer : Except Raised Value) : List Assignment :=
  match answer with
  | .ok (.dict entries) =>
    (entries.takeWhile fun entry => isPassable entry.1).map fun entry => .ofProvider entry.1 entry.2
  | _ => []

/-- Names that are texts can be shown. -/
theorem provided_record (updates : List (String × Value)) :
    provided (.ok (.record updates)) = updates.map fun u => .ofProvider (.str u.1) u.2 := by
  have hall : ∀ entry ∈ Dict.ofFields updates, isPassable entry.1 = true := by
    intro entry hentry
    obtain ⟨u, -, rfl⟩ := List.mem_map.1 hentry
    exact Bool.or_true _
  rw [Value.record, provided, List.takeWhile_eq_self_iff.2 hall, Dict.ofFields, List.map_map]
  rfl

/-! ## Loading -/

namespace Environment

/-- The providers that loading gets to: it breaks off where one has given up with something that cannot be
written out. -/
def reached (e : Environment) : List (Except Raised Value) :=
  e.providers.takeWhile fun answer => (reported answer).isOk

/-- What an environment is loaded from, in order: the variables of the sources and the updates of the
providers. -/
def assignmentsFrom (e : Environment) (sources : EnvironmentSources) : List Assignment :=
  sources.seen.map (fun a => .ofVariable a.1 a.2) ++ e.reached.flatMap provided

/-- Noted variables with one more or one changed. -/
def note (noted : List (String × String)) (a : String × String) : List (String × String) :=
  putVariable a.1 a.2 noted

theorem applyVariable_eq (e : Environment) (name text : String) :
    e.applyVariable name text = { e with settings := settle e.settings [.ofVariable name text] } := by
  unfold applyVariable settle
  simp only [List.filterMap_cons, List.filterMap_nil, Assignment.change?, changeTo]
  cases settingOfVariable? name with
  | none => rfl
  | some s =>
    dsimp only [Option.bind_some]
    cases s.type.convert text <;> rfl

/-- Variables are noted and settle the settings. -/
theorem foldl_seeVariable (seen : List (String × String)) (e : Environment) :
    seen.foldl seeVariable e
      = { e with
          assignments := seen.foldl note e.assignments
          settings := settle e.settings (seen.map fun a => .ofVariable a.1 a.2) } := by
  induction seen generalizing e with
  | nil => rfl
  | cons a rest ih =>
    rw [List.foldl_cons, ih, seeVariable, applyVariable_eq, List.map_cons,
      settle_cons e.settings _ (rest.map fun a => .ofVariable a.1 a.2)]
    rfl

/-- One update settles its setting. Only a name that can be neither found nor shown is a fault. -/
theorem updateOne_cases (e : Environment) (report : UpdateReport) (name : Key) (v : Value) :
    (isPassable name = true ∧ ∃ report',
      e.updateOne report name v
        = .ok ({ e with settings := settle e.settings [.ofProvider name v] }, report')) ∨
    (isPassable name = false ∧ ∃ f, e.updateOne report name v = .error f) := by
  unfold updateOne settle isPassable
  simp only [List.filterMap_cons, List.filterMap_nil, Assignment.change?, changeTo]
  cases declaredSetting? name with
  | none =>
    cases hspell : name.isSpellable with
    | true =>
      rw [Key.spell_of_isSpellable hspell]
      exact .inl ⟨rfl, _, rfl⟩
    | false =>
      rw [Key.spell, hspell]
      exact .inr ⟨rfl, _, rfl⟩
  | some s =>
    refine .inl ⟨rfl, ?_⟩
    dsimp only [Option.bind_some]
    cases updateValue s v with
    | ok v' => exact ⟨_, rfl⟩
    | error f => exact ⟨_, rfl⟩

/-- An update settles the settings up to a name that can be neither found nor shown. -/
theorem updateAll_eq (entries : Dict) (e : Environment) (report : UpdateReport) :
    (e.updateAll report entries).1 = { e with settings := settle e.settings (provided (.ok (.dict entries))) } := by
  induction entries generalizing e report with
  | nil => rfl
  | cons entry rest ih =>
    obtain ⟨name, v⟩ := entry
    rw [updateAll, provided]
    obtain ⟨hpassed, report', hone⟩ | ⟨hstopped, f, hone⟩ := e.updateOne_cases report name v
    · rw [hone, List.takeWhile_cons, if_pos hpassed, List.map_cons,
        settle_cons e.settings _ ((rest.takeWhile fun entry => isPassable entry.1).map _)]
      exact ih _ _
    · rw [hone, List.takeWhile_cons, hstopped, if_neg Bool.false_ne_true]
      rfl

/-- A provider settles the settings with its updates. Loading goes on behind it unless it has given up with
something that cannot be written out. -/
theorem applyProvider_eq (e : Environment) (answer : Except Raised Value) :
    e.applyProvider answer = ({ e with settings := settle e.settings (provided answer) }, reported answer) := by
  cases answer with
  | error raised => rfl
  | ok v =>
    refine Prod.ext ?_ rfl
    cases v with
    | dict entries =>
      cases entries with
      | nil => rfl
      | cons entry rest => exact updateAll_eq (entry :: rest) e {}
    | _ =>
      dsimp only [applyProvider, Value.orElse]
      split <;> rfl

/-- Providers settle the settings, as far as loading gets to them. -/
theorem applyProviders_eq (answers : List (Except Raised Value)) (e : Environment) :
    e.applyProviders answers
      = ({ e with settings :=
            settle e.settings ((answers.takeWhile fun answer => (reported answer).isOk).flatMap provided) },
        forM answers reported) := by
  induction answers generalizing e with
  | nil => rfl
  | cons answer rest ih =>
    rw [applyProviders, applyProvider_eq, List.takeWhile_cons, List.forM_cons]
    cases hreported : reported answer with
    | error crash =>
      cases answer with
      | ok v => cases hreported
      | error raised => rfl
    | ok _ =>
      have hgoes : (Except.ok () : Except Crash Unit).isOk = true := rfl
      rw [if_pos hgoes, List.flatMap_cons, settle_append]
      exact ih _

/-- Loading notes the variables, and settles the settings with all assignments. -/
theorem load_eq (e : Environment) (sources : EnvironmentSources) :
    e.load sources = ({ e with
      assignments := sources.seen.foldl note e.assignments
      settings := settle e.settings (e.assignmentsFrom sources) }, forM e.providers reported) := by
  have hload : e.load sources
      = (sources.seen.foldl seeVariable e).applyProviders (sources.seen.foldl seeVariable e).providers := by
    rw [EnvironmentSources.seen, List.foldl_append]
    rfl
  rw [hload, applyProviders_eq, foldl_seeVariable, assignmentsFrom, settle_append]
  rfl

/-! ## Loading again -/

def notedDict (noted : List (String × String)) : Dict := noted.map fun a => (.str a.1, .str a.2)

theorem notedDict_injective : Function.Injective notedDict := by
  refine List.map_injective_iff.2 ?_
  rintro ⟨name, text⟩ ⟨name', text'⟩ h
  simpa using h

theorem notedDict_putVariable (name text : String) (noted : List (String × String)) :
    notedDict (putVariable name text noted) = (notedDict noted).insert (.str name) (.str text) := by
  induction noted with
  | nil => rfl
  | cons a rest ih =>
    have hcons : notedDict (a :: rest) = (.str a.1, .str a.2) :: notedDict rest := rfl
    rw [putVariable, hcons, Dict.insert, Key.same_str]
    by_cases h : a.1 = name
    · rw [if_pos h, if_pos (decide_eq_true h.symm)]
      rfl
    · rw [if_neg h, if_neg (by simpa using Ne.symm h), ← ih]
      rfl

theorem notedDict_foldl (seen noted : List (String × String)) :
    notedDict (seen.foldl note noted)
      = (seen.map fun a => (a.1, Value.str a.2)).foldl applyChange (notedDict noted) := by
  induction seen generalizing noted with
  | nil => rfl
  | cons a rest ih =>
    rw [List.foldl_cons, ih, note, notedDict_putVariable, List.map_cons, List.foldl_cons]
    rfl

/-- Noting variables that are noted changes nothing. -/
theorem foldl_note_foldl (seen noted : List (String × String)) :
    seen.foldl note (seen.foldl note noted) = seen.foldl note noted := by
  apply notedDict_injective
  rw [notedDict_foldl, notedDict_foldl]
  exact overwrites_applyChange.foldl_foldl _ _

theorem load_load (e : Environment) (sources : EnvironmentSources) :
    (e.load sources).1.load sources = e.load sources := by
  have hsame : (e.load sources).1.assignmentsFrom sources = e.assignmentsFrom sources := by
    rw [load_eq]
    rfl
  rw [load_eq (e.load sources).1, hsame, load_eq]
  simp only [foldl_note_foldl, settle_settle]

/-- Loading comes to its end if it gets to all providers. -/
theorem load_isOk_iff (e : Environment) (sources : EnvironmentSources) :
    (e.load sources).2.isOk = true ↔ e.reached = e.providers := by
  rw [load_eq, reached, List.takeWhile_eq_self_iff]
  induction e.providers with
  | nil => exact ⟨nofun, fun _ => rfl⟩
  | cons answer rest ih =>
    rw [List.forM_cons, List.forall_mem_cons, ← ih]
    cases reported answer with
    | error crash => exact ⟨nofun, nofun⟩
    | ok _ => exact ⟨fun h => ⟨rfl, h⟩, And.right⟩

end Environment

end Stepwise
