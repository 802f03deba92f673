-- SUMMARY: Checking a run's inputs against a schema, filling defaults and wrapping scalars.
import Stepwise.Input.Schema
import Stepwise.Error

/-!
# Admission of inputs

Inputs are accepted parameter by parameter in order of declaration. An absent input is
an error if required and takes its default otherwise; a scalar given for an array
becomes a list of one, which is noted under the name of the parameter; any other value
must have the declared type. The dictionary of inputs is given back together with the
verdict, as far as it was brought.
-/

namespace Stepwise.Input

/-- The value has the named type. Names of no type accept every value. -/
def hasType (type : Value) (v : Value) : Bool :=
  match type, v with
  | .str "string", v => v.str?.isSome
  | .str "number", .int _ => true
  | .str "number", .float _ => true
  | .str "number", _ => false
  | .str "boolean", .bool _ => true
  | .str "boolean", _ => false
  | .str "object", v => v.dict?.isSome
  | _, _ => true

/-- A value given for an array becomes a list of one, unless it is a sequence. -/
def isWrapped (v : Value) : Bool :=
  match v with
  | .list _ | .runLog | .tuple _ => false
  | _ => true

/-- A value given for an array: sequences as a list, anything else as a list of one. -/
def asList (v : Value) : Value :=
  match v with
  | .list _ | .runLog => v
  | .tuple items => .list items
  | v => .list [v]

/-- One parameter's part in the admission. -/
def acceptOne (name : Key) (p : InputParameter) (inputs : Dict) : Except Error Dict :=
  match inputs.get? name with
  | none =>
    if p.required then .error (Error.spelled (.missingInput name))
    else .ok (if p.default.isNull then inputs else inputs.insert name p.default)
  | some v =>
    if v.isNull && !p.required then .ok inputs
    else if p.type.same (.str "array") then
      if isWrapped v && !name.isSpellable then .error (.fault unspellable)
      else .ok (inputs.insert name (asList v))
    else if hasType p.type v then .ok inputs
    else .error (Error.spelled (.wrongInput name p.type.text v.typeName))

/-- The admission of inputs by the given parameters: the verdict, and the inputs as far as they were
brought. -/
def acceptAll : List (Key × InputParameter) → Dict → Except Error Unit × Dict
  | [], inputs => (.ok (), inputs)
  | (name, p) :: rest, inputs =>
    match acceptOne name p inputs with
    | .ok inputs => acceptAll rest inputs
    | .error e => (.error e, inputs)

/-- The admission of a value that is no dictionary. Parameters can be found missing in it, but it has no
inputs to check and takes no defaults. -/
def acceptOther (v : Value) : List (Key × InputParameter) → Except Error Unit
  | [] => .ok ()
  | (name, p) :: rest => do
    if ← (v.holdsKey name : Except Fault Bool) then throw (.fault .wrongType)
    if p.required then throw (Error.spelled (.missingInput name))
    if p.default.isNull then acceptOther v rest else throw (.fault .wrongType)

/-- The admission of any value: the verdict, and the value as far as it was brought. -/
def acceptValue (parameters : List (Key × InputParameter)) : Value → Except Error Unit × Value
  | .dict inputs =>
    let (verdict, inputs) := acceptAll parameters inputs
    (verdict, .dict inputs)
  | v => (acceptOther v parameters, v)

/-- The inputs as accepted by a schema, or the first error. -/
def accept (schema : InputSchema) (inputs : Dict) : Except Error Dict :=
  match acceptAll schema.parameters inputs with
  | (.ok (), accepted) => .ok accepted
  | (.error e, _) => .error e

theorem accept_empty (inputs : Dict) : accept {} inputs = .ok inputs := rfl

end Stepwise.Input
