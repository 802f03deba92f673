-- SUMMARY: Faults that no rule of the workflow foresees, by kind and wording.

/-!
# Faults

A fault is what a computation on dynamic data, or a collaborator, ends with when it
cannot answer: a value of the wrong type, an absent key, a text that is no number. The
first four kinds are shown by their name alone, the others by their wording. Every fault
has a text; only what collaborators give up with may have none.
-/

namespace Stepwise

/-- The kinds of fault. -/
inductive Fault.Kind where
  /-- An operation met a value of a type it does not apply to. -/
  | type
  /-- A field was asked of a value whose type has no fields. -/
  | attribute
  /-- A record lacks a required key. -/
  | key
  /-- A position lies outside a sequence. -/
  | index
  /-- A value of the right type has no meaning here. -/
  | value
  /-- A number is too large for its target. -/
  | overflow
  /-- A collaborator gave up. -/
  | runtime
  /-- A file is absent. -/
  | file
  /-- A text is no JSON document. -/
  | json
  /-- A failure that is known by its name alone. -/
  | other (name : String)
deriving DecidableEq, Repr, Inhabited

/-- The name by which a kind of fault is reported. -/
def Fault.Kind.label : Fault.Kind → String
  | .type => "TypeError"
  | .attribute => "AttributeError"
  | .key => "KeyError"
  | .index => "IndexError"
  | .value => "ValueError"
  | .overflow => "OverflowError"
  | .runtime => "RuntimeError"
  | .file => "FileNotFoundError"
  | .json => "JSONDecodeError"
  | .other name => name

/-- Wider kinds of failure by name, each with the names of kinds that belong to it. -/
def Fault.Kind.wider : List (String × List String) :=
  [("LookupError", ["KeyError", "IndexError"]),
   ("ArithmeticError", ["OverflowError", "ZeroDivisionError", "FloatingPointError"]),
   ("OSError", ["FileNotFoundError", "FileExistsError", "PermissionError", "TimeoutError",
     "ConnectionError", "InterruptedError", "NotADirectoryError", "IsADirectoryError"]),
   ("RuntimeError", ["RecursionError", "NotImplementedError"]),
   ("ValueError", ["JSONDecodeError", "UnicodeError"]),
   ("ImportError", ["ModuleNotFoundError"]),
   ("NameError", ["UnboundLocalError"])]

/-- The names under which a kind of fault can be caught: its own and those of wider kinds. -/
def Fault.Kind.families (kind : Fault.Kind) : List String :=
  let around := wider.filter fun family => family.2.contains kind.label
  kind.label :: around.map (·.1) ++ ["Exception"]

/-- The kind is shown by its name, whatever the wording. -/
def Fault.Kind.isAnonymous : Fault.Kind → Bool
  | .type | .attribute | .key | .index => true
  | _ => false

/-- A fault: its kind and the wording that goes with it. -/
structure Fault where
  kind : Fault.Kind
  wording : String := ""
deriving DecidableEq, Repr, Inhabited

namespace Fault

/-- The text of a fault inside a message. -/
def shown (f : Fault) : String :=
  if f.kind.isAnonymous then "<" ++ f.kind.label ++ ">" else f.wording

def wrongType : Fault := { kind := .type }
def missingKey : Fault := { kind := .key }
def badIndex : Fault := { kind := .index, wording := "list index out of range" }
def badValue (wording : String) : Fault := { kind := .value, wording }
def overflow (wording : String) : Fault := { kind := .overflow, wording }
def runtime (wording : String) : Fault := { kind := .runtime, wording }
def noFile (wording : String) : Fault := { kind := .file, wording }
def badJson : Fault := { kind := .json }

/-- The fault of data that is nested too deeply to be followed. -/
def tooDeep : Fault := { kind := .other "RecursionError" }

/-- A value of the named type was asked for a field it cannot have. -/
def noField (typeName field : String) : Fault :=
  { kind := .attribute, wording := "'" ++ typeName ++ "' object has no attribute '" ++ field ++ "'" }

end Fault

/-- What a collaborator gives up with: a fault, or something of a kind of its own that cannot be written
out. Trying to write that out ends with another crash. -/
inductive Crash where
  | fault (f : Fault)
  | mute (kind : Fault.Kind) (instead : Crash)
deriving DecidableEq, Repr, Inhabited

end Stepwise
