-- SUMMARY: A settings model that reads loosely typed values and reports all that it rejects.
import Stepwise.Settings
import Stepwise.Json.Reader

/-!
# A lax settings model

A settings value may come as text from an environment. Truth values are also read from
the numbers one and zero and from the usual words, integers from integral floats of a
machine word and from digits, texts only from texts. An integer in text may have a sign,
leading zeros, single underscores between its digits and a fraction of zeros. Token counts
and lifetimes must be positive. All rejected settings are reported, in the order in which
the settings are declared. Environments and engines do not depend on this model: it stands
for the one that they are given.
-/

namespace Stepwise

/-- Why a value is no setting of its type. -/
inductive Rejection where
  | boolType
  | boolParsing
  | intType
  | intParsing
  | intSize
  | intFromFloat
  | finiteNumber
  | greaterThan
  | stringType
deriving DecidableEq, Repr

/-- The name by which a rejection is reported. -/
def Rejection.label : Rejection → String
  | .boolType => "bool_type"
  | .boolParsing => "bool_parsing"
  | .intType => "int_type"
  | .intParsing => "int_parsing"
  | .intSize => "int_parsing_size"
  | .intFromFloat => "int_from_float"
  | .finiteNumber => "finite_number"
  | .greaterThan => "greater_than"
  | .stringType => "string_type"

namespace LaxSettings

/-! ## Single values -/

/-- The words for true, in lower case. -/
def trueWords : List String := ["1", "t", "y", "on", "yes", "true"]

/-- The words for false, in lower case. -/
def falseWords : List String := ["0", "f", "n", "no", "off", "false"]

/-- The truth value that a text spells. -/
def readBoolText (s : String) : Except Rejection Bool :=
  let word := String.ofList (s.toList.map Numeral.asciiLower)
  if word ∈ trueWords then .ok true
  else if word ∈ falseWords then .ok false
  else .error .boolParsing

/-- The bound of the integers of a machine word, `2 ^ 63`: they lie between it and its negation. -/
def wordBound : Int := 9223372036854775808

/-- The integer lies strictly inside a machine word. -/
def fitsWord (n : Int) : Bool := -wordBound < n && n < wordBound

/-- The truth value that an integer stands for. One outside a machine word is not looked at. -/
def readBoolInt (n : Int) : Except Rejection Bool :=
  if n = 0 then .ok false
  else if n = 1 then .ok true
  else if fitsWord n || n = -wordBound then .error .boolParsing
  else .error .boolType

/-- A truth value. -/
def readBool (v : Value) : Except Rejection Bool :=
  match v with
  | .bool b => .ok b
  | .str s => readBoolText s
  | .int n => readBoolInt n
  | .float x =>
    match x.isInteger, x.toInt? with
    | true, some n => if fitsWord n then readBoolInt n else .error .boolType
    | _, _ => .error .boolType
  | _ => .error .boolType

def isLeadingDigit (c : Char) : Bool := '1' ≤ c && c ≤ '9'

/-- The integer that a text spells in the plain form: an optional minus and ASCII digits without a
leading zero. Digits that are too many are refused whatever follows them. -/
def readPlainInt (cs : List Char) : Except Rejection Int :=
  let (negative, body) := match cs with
    | '-' :: rest => (true, rest)
    | _ => (false, cs)
  let (ds, rest) := Json.spanDigits body
  let size := ds.length + (if negative then 1 else 0)
  let leads := ds.head?.any isLeadingDigit
  if leads && Numeral.maxDigits < size then .error .intSize
  else if rest.isEmpty && (leads || ds == ['0']) then
    .ok (if negative then -(Json.digitsValue ds : Int) else Json.digitsValue ds)
  else .error .intParsing

/-- A text after a leading zero without the zeros and underscores that follow it; `last` is the
character before the text. Digits, a minus or a fraction may come after them, and at the end of the
text the last character stays. -/
def dropZeros? (last : Char) : List Char → Option (List Char)
  | [] => some [last]
  | c :: rest =>
    if c = '0' ∨ c = '_' then dropZeros? c rest
    else if isLeadingDigit c ∨ c = '-' then some (c :: rest)
    else if c = '.' then some (last :: c :: rest)
    else none

/-- An unsigned text without leading zeros. -/
def unpadded? (cs : List Char) : Option (List Char) :=
  match cs with
  | '0' :: rest => dropZeros? '0' rest
  | c :: _ => if isLeadingDigit c ∨ c = '-' then some cs else none
  | [] => none

/-- A text without a fraction of zeros after a point. -/
def dropZeroFraction (cs : List Char) : List Char :=
  let whole := cs.takeWhile (· != '.')
  let fraction := cs.drop (whole.length + 1)
  if !fraction.isEmpty && fraction.all (· == '0') then whole else cs

/-- Two underscores stand side by side. -/
def hasUnderscorePair (cs : List Char) : Bool := (cs.zip cs.tail).any (· == ('_', '_'))

/-- A text without underscores, each of which must stand alone inside the text. -/
def dropUnderscores? (cs : List Char) : Option (List Char) :=
  if cs.head? == some '_' || cs.getLast? == some '_' || hasUnderscorePair cs then none
  else some (cs.filter (· != '_'))

/-- The plain form of a text that spells an integer in another way. -/
def plainForm? (cs : List Char) : Option (List Char) := do
  let cs ← match Numeral.trimMargin cs with
    | '+' :: '-' :: _ => none
    | '+' :: rest => some rest
    | cs => some cs
  let (sign, body) := match cs with
    | '-' :: rest => (['-'], rest)
    | _ => ([], cs)
  let digits ← dropUnderscores? (dropZeroFraction (← unpadded? body))
  return sign ++ digits

/-- The integer that a text spells in ASCII digits. -/
def readIntText (s : String) : Except Rejection Int :=
  match readPlainInt s.toList with
  | .error .intParsing =>
    match (plainForm? s.toList).map readPlainInt with
    | some (.ok n) => .ok n
    | _ => .error .intParsing
  | answer => answer

/-- An integer. -/
def readInt (v : Value) : Except Rejection Int :=
  match v with
  | .bool b => .ok (if b then 1 else 0)
  | .int n => .ok n
  | .str s => readIntText s
  | .float x =>
    match x.isInteger, x.toInt? with
    | true, some n => if fitsWord n then .ok n else .error .intSize
    | false, some _ => .error .intFromFloat
    | _, none => .error .finiteNumber
  | _ => .error .intType

def readPositive (v : Value) : Except Rejection Int := do
  let n ← readInt v
  if 0 < n then return n else throw .greaterThan

def readText (v : Value) : Except Rejection String :=
  match v with
  | .str s => .ok s
  | _ => .error .stringType

/-- A value that may be `null`. -/
def readOptional {α : Type} (read : Value → Except Rejection α) (v : Value) :
    Except Rejection (Option α) :=
  if v.isNull then .ok none else (read v).map some

/-! ## Records -/

/-- A setting that is given, or its default. -/
def readField {α : Type} (d : Dict) (name : String) (default : α)
    (read : Value → Except Rejection α) : Except (String × Rejection) α :=
  match d.field? name with
  | none => .ok default
  | some v =>
    match read v with
    | .ok a => .ok a
    | .error r => .error (name, r)

/-- The rejection of a setting, if it was rejected. -/
def rejected {α : Type} (field : Except (String × Rejection) α) : List (String × Rejection) :=
  match field with
  | .ok _ => []
  | .error e => [e]

/-- The settings that a dictionary describes, or all its rejected settings. -/
def ofDict (d : Dict) : Except (List (String × Rejection)) Settings :=
  let enabled := readField d "sampling_enabled" true readBool
  let maxTokens := readField d "sampling_max_tokens" 1000 readPositive
  let systemPrompt := readField d "sampling_system_prompt" none (readOptional readText)
  let model := readField d "sampling_model" none (readOptional readText)
  let ttl := readField d "state_ttl_seconds" none (readOptional readPositive)
  let logLevel := readField d "log_level" "INFO" readText
  match enabled, maxTokens, systemPrompt, model, ttl, logLevel with
  | .ok samplingEnabled, .ok samplingMaxTokens, .ok samplingSystemPrompt?, .ok samplingModel?,
      .ok stateTtl?, .ok logLevel =>
    .ok { samplingEnabled, samplingMaxTokens, samplingSystemPrompt?, samplingModel?, stateTtl?,
          logLevel }
  | _, _, _, _, _, _ =>
    .error (rejected enabled ++ rejected maxTokens ++ rejected systemPrompt ++ rejected model
      ++ rejected ttl ++ rejected logLevel)

end LaxSettings

end Stepwise
