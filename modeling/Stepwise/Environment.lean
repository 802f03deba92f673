-- SUMMARY: Settings from an environment: a file of assignments, process variables and providers.
import Stepwise.Settings
import Stepwise.Text.Lowercase
import Stepwise.Text.Blank
import Stepwise.Error

/-!
# Environment

The settings of an environment start from their defaults. Loading applies, one after the
other, the assignments of the first environment file that exists, the variables of the
process and the updates of the registered providers. A text is converted to the type of
its setting; one that cannot be converted is passed over and changes nothing.
-/

namespace Stepwise

/-! ## Declared settings -/

/-- The types of settings. -/
inductive SettingType where
  | bool
  | int
  | str
deriving DecidableEq, Repr

def SettingType.name : SettingType → String
  | .bool => "bool"
  | .int => "int"
  | .str => "str"

/-- A text as a value of a type. Only `true`, in any case, is true. -/
def SettingType.convert (type : SettingType) (text : String) : Except Fault Value :=
  match type with
  | .bool => .ok (.bool (Text.lowercase text.toList == "true".toList))
  | .int => (Numeral.toInt text).map .int
  | .str => .ok (.str text)

/-- A setting with its default. -/
structure SettingDeclaration where
  name : String
  default : Value
  type : SettingType
deriving DecidableEq, Repr

def SettingDeclaration.variableName (s : SettingDeclaration) : String :=
  "WORKFLOW_" ++ s.name.toUpper

def declaredSettings : List SettingDeclaration :=
  [⟨"sampling_enabled", .bool true, .bool⟩,
   ⟨"sampling_max_tokens", .int 1000, .int⟩,
   ⟨"sampling_system_prompt", .null, .str⟩,
   ⟨"sampling_model", .null, .str⟩,
   ⟨"state_ttl_seconds", .null, .int⟩,
   ⟨"log_level", .str "INFO", .str⟩]

def declaredSetting? (name : Key) : Option SettingDeclaration :=
  declaredSettings.find? fun s => name.same (.str s.name)

def settingOfVariable? (name : String) : Option SettingDeclaration :=
  declaredSettings.find? fun s => s.variableName == name

/-! ## Environment files -/

namespace EnvironmentFile

/-- The lines of a text, given the characters of the current line in reverse. Lines end with a line
feed, a carriage return, or one after the other. -/
def splitLines (current : List Char) : List Char → List (List Char)
  | [] => if current.isEmpty then [] else [current.reverse]
  | '\r' :: '\n' :: rest => current.reverse :: splitLines [] rest
  | c :: rest =>
    if c = '\n' ∨ c = '\r' then current.reverse :: splitLines [] rest
    else splitLines (c :: current) rest

/-- The text starts and ends with the character. -/
def isEnclosedBy (quote : Char) (cs : List Char) : Bool :=
  cs.head? == some quote && cs.getLast? == some quote

/-- A text without quotes around it. -/
def unquote (cs : List Char) : List Char :=
  if isEnclosedBy '"' cs || isEnclosedBy '\'' cs then cs.tail.dropLast else cs

/-- The assignment that a line makes. Comments and lines without an equals sign make none. -/
def assignment? (line : List Char) : Option (String × String) :=
  let cs := Text.trim line
  if cs.head? != some '#' && cs.contains '=' then
    let name := cs.takeWhile (· != '=')
    let text := cs.drop (name.length + 1)
    some (String.ofList (Text.trim name), String.ofList (unquote (Text.trim text)))
  else none

/-- The assignments of a file, in order. -/
def assignments (content : String) : List (String × String) :=
  (splitLines [] content.toList).filterMap assignment?

end EnvironmentFile

/-! ## Environments -/

/-- Where an environment is loaded from: the contents of the environment files that may exist, the
nearest first, and the variables of the process. -/
structure EnvironmentSources where
  files : List (Option String) := []
  process : List (String × String) := []

/-- An environment: the assignments to variables seen so far, the settings, and the providers with what
each answers. -/
structure Environment where
  assignments : List (String × String) := []
  settings : Dict := declaredSettings.map fun s => (.str s.name, s.default)
  providers : List (Except Raised Value) := []

/-- What came of an update: the settings changed, and what was refused. -/
structure UpdateReport where
  updated : List String := []
  errors : List String := []
deriving DecidableEq, Repr

namespace Environment

/-- Variables with one more or one changed. -/
def putVariable (name text : String) : List (String × String) → List (String × String)
  | [] => [(name, text)]
  | (n, t) :: rest => if n = name then (n, text) :: rest else (n, t) :: putVariable name text rest

def assign (e : Environment) (name : String) (v : Value) : Environment :=
  { e with settings := e.settings.insert (.str name) v }

/-- Apply a variable to the setting that it sets, if any. -/
def applyVariable (e : Environment) (name text : String) : Environment :=
  match settingOfVariable? name with
  | none => e
  | some s =>
    match s.type.convert text with
    | .ok v => e.assign s.name v
    | .error _ => e

def seeVariable (e : Environment) (assignment : String × String) : Environment :=
  let (name, text) := assignment
  applyVariable { e with assignments := putVariable name text e.assignments } name text

/-- The value that an update gives a setting: texts are converted. -/
def updateValue (s : SettingDeclaration) (v : Value) : Except Fault Value :=
  match v with
  | .str text => s.type.convert text
  | v => .ok v

/-- Update one setting. A name that is no setting is refused, in words that show it. -/
def updateOne (e : Environment) (report : UpdateReport) (name : Key) (v : Value) :
    Except Fault (Environment × UpdateReport) :=
  match declaredSetting? name with
  | none => do
    return (e, { report with errors := report.errors ++ ["Unknown setting: " ++ (← name.spell)] })
  | some s =>
    match updateValue s v with
    | .ok v => .ok (e.assign s.name v, { report with updated := report.updated ++ [s.name] })
    | .error f => .ok (e, { report with
        errors := report.errors ++ ["Invalid value for " ++ s.name ++ ": " ++ f.wording] })

/-- Update settings one after the other: the environment as far as it was brought, and what came of
it. -/
def updateAll (e : Environment) (report : UpdateReport) : Dict → Environment × Except Fault UpdateReport
  | [] => (e, .ok report)
  | (name, v) :: rest =>
    match e.updateOne report name v with
    | .ok (e, report) => updateAll e report rest
    | .error f => (e, .error f)

/-- Update settings from a value, which must be a dictionary. -/
def updateFrom (e : Environment) (updates : Value) : Environment × Except Fault UpdateReport :=
  match updates.toRecord "items" with
  | .ok d => e.updateAll {} d
  | .error f => (e, .error f)

/-- The environment and the report, if nothing keeps the update from its end. -/
def update (e : Environment) (updates : Value) : Except Fault (Environment × UpdateReport) :=
  let (e, report) := e.updateFrom updates
  report.map fun report => (e, report)

/-- Apply what a provider answers. One that fails changes nothing, and neither does an answer that is no
dictionary. What the provider gives up with has to be written out. -/
def applyProvider (e : Environment) (answer : Except Raised Value) : Environment × Except Crash Unit :=
  match answer with
  | .ok v => ((e.updateFrom (v.orElse (.dict []))).1, .ok ())
  | .error raised => (e, raised.spell.map fun _ => ())

/-- Apply what providers answer, one after the other: the environment as far as it was brought, and what
kept it from its end, if anything did. -/
def applyProviders (e : Environment) : List (Except Raised Value) → Environment × Except Crash Unit
  | [] => (e, .ok ())
  | answer :: rest =>
    match e.applyProvider answer with
    | (e, .ok ()) => applyProviders e rest
    | (e, .error crash) => (e, .error crash)

def load (e : Environment) (sources : EnvironmentSources) : Environment × Except Crash Unit :=
  let assignments := match sources.files.filterMap id with
    | content :: _ => EnvironmentFile.assignments content
    | [] => []
  let e := assignments.foldl seeVariable e
  let known := sources.process.filter fun a => (settingOfVariable? a.1).isSome
  let e := known.foldl seeVariable e
  e.applyProviders e.providers

def register (e : Environment) (answer : Except Raised Value) : Environment :=
  { e with providers := e.providers ++ [answer] }

/-- A setting by name, or the given value if there is none. -/
def get (e : Environment) (name default : Value) : Except Fault Value := do
  return (e.settings.get? (← name.toKey)).getD default

/-- Set a setting back to its default. `none` if there is no such setting. -/
def reset (e : Environment) (name : Key) : Option (Environment × Value) :=
  (declaredSetting? name).map fun s => (e.assign s.name s.default, s.default)

/-- The settings of the interpreter that a model builds from what the environment holds. -/
def interpreterSettings {ε : Type} (model : SettingsModel ε) (e : Environment) : Except ε Settings :=
  model (e.settings.filter fun s => !s.2.isNull)

/-- Every declared setting with its value, default, type and variable. -/
def overview (e : Environment) : Value :=
  .record (declaredSettings.map fun s => (s.name, .record [
    ("value", e.settings.field s.name), ("default", s.default), ("type", .str s.type.name),
    ("env_var", .str s.variableName)]))

end Environment

namespace UpdateReport

def toValue (r : UpdateReport) : Value :=
  .record [("success", .bool r.errors.isEmpty), ("updated", .list (r.updated.map .str)),
    ("errors", .list (r.errors.map .str))]

end UpdateReport

end Stepwise
