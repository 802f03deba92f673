-- SUMMARY: Interpreter settings and their defaults, and models that build them.
import Stepwise.Value.Observe

/-!
# Settings

The settings of the interpreter. A model builds them from loosely typed values, or says what
is wrong with these.
-/

namespace Stepwise

/-- The settings of the interpreter. -/
structure Settings where
  samplingEnabled : Bool := true
  samplingMaxTokens : Int := 1000
  samplingSystemPrompt? : Option String := none
  samplingModel? : Option String := none
  stateTtl? : Option Int := none
  logLevel : String := "INFO"
deriving DecidableEq, Repr, Inhabited

/-- Builds settings from named values. -/
abbrev SettingsModel (ε : Type) := Dict → Except ε Settings

namespace Settings

def textValue (s? : Option String) : Value :=
  match s? with
  | some s => .str s
  | none => .null

def intValue (n? : Option Int) : Value :=
  match n? with
  | some n => .int n
  | none => .null

def toValue (s : Settings) : Value :=
  .record [("sampling_enabled", .bool s.samplingEnabled),
    ("sampling_max_tokens", .int s.samplingMaxTokens),
    ("sampling_system_prompt", textValue s.samplingSystemPrompt?),
    ("sampling_model", textValue s.samplingModel?),
    ("state_ttl_seconds", intValue s.stateTtl?),
    ("log_level", .str s.logLevel)]

end Settings

end Stepwise
