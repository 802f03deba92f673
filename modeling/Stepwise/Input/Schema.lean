-- SUMMARY: Input schemas: the declared inputs of a workflow, and the three ways of writing them.
import Stepwise.Value.Observe

/-!
# Input schemas

A schema is an ordered list of parameters, each with a type, a required flag, a default
and a description. It is written as an object schema with `properties` and `required`,
as a mapping from names to declarations, or as a list of declarations that carry their
names.
-/

namespace Stepwise

/-- One declared input. -/
structure InputParameter where
  name : Key
  type : Value := .str "string"
  required : Bool := false
  default : Value := .null
  description : Value := .str ""
deriving DecidableEq, Repr, Inhabited

/-- The declared inputs by name, in order of declaration. -/
structure InputSchema where
  parameters : List (Key × InputParameter) := []
deriving DecidableEq, Repr, Inhabited

/-! ## Parameters -/

namespace InputParameter

def ofDict (name : Key) (d : Dict) : InputParameter where
  name
  type := (d.field? "type").getD (.str "string")
  required := (d.field "required").truthy
  default := d.field "default"
  description := (d.field? "description").getD (.str "")

/-- The declaration of a parameter, apart from its required flag. -/
def schemaFields (p : InputParameter) : List (String × Value) :=
  [("type", p.type), ("description", p.description)]
    ++ (if p.default.isNull then [] else [("default", p.default)])

def toValue (p : InputParameter) : Value :=
  .record ([("type", p.type), ("description", p.description)]
    ++ (if p.required then [("required", .bool true)] else [])
    ++ (if p.default.isNull then [] else [("default", p.default)]))

/-- The parameters agree in everything they declare. -/
def same (p q : InputParameter) : Bool :=
  p.name.same q.name && p.type.isMatch q.type && p.required == q.required
    && p.default.isMatch q.default && p.description.isMatch q.description

end InputParameter

/-! ## Schemas -/

namespace InputSchema

/-- A parameter stored under its key: a known key keeps its place. -/
def store (key : Key) (p : InputParameter) :
    List (Key × InputParameter) → List (Key × InputParameter)
  | [] => [(key, p)]
  | (k, q) :: rest => if key.same k then (k, p) :: rest else (k, q) :: store key p rest

def find? (key : Key) : List (Key × InputParameter) → Option InputParameter
  | [] => none
  | (k, p) :: rest => if key.same k then some p else find? key rest

/-- The schemas declare the same parameters, in whatever order. -/
def same (s t : InputSchema) : Bool :=
  s.parameters.length == t.parameters.length
    && s.parameters.all fun e => (find? e.1 t.parameters).any e.2.same

def keys (s : InputSchema) : List Key := s.parameters.map (·.1)

def required (s : InputSchema) : List Key :=
  (s.parameters.filter fun e => e.2.required).map (·.1)

/-- One property of an object schema; it is required if it is listed or says so itself. -/
def propertyParameter (required : List Key) (name : Key) (property : Value) :
    Except Fault InputParameter := do
  let d ← property.dictIfAny
  let flag := if required.any name.same then .bool true
    else (d.field? "required").getD (.bool false)
  return .ofDict name (d.insert (.str "required") flag)

def mappedParameter (name : Key) (declaration : Value) : Except Fault InputParameter := do
  let d ← if declaration.truthy then declaration.toRecord "get" else .ok []
  return .ofDict name d

def isObjectSchema (v : Value) : Except Fault Bool := do
  if ← v.holds "properties" then return true
  let d ← v.toRecord "get"
  return (d.field "type").same (.str "object")

def ofObjectSchema (d : Dict) : Except Fault InputSchema := do
  let required ← if (d.field "required").truthy then (d.field "required").toKeySet else .ok []
  let properties ←
    if (d.field "properties").truthy then (d.field "properties").toRecord "items" else .ok []
  let parameters ← properties.mapM fun (name, property) => do
    return (name, ← propertyParameter required name property)
  return { parameters }

/-- The schema that a mapping from names to declarations describes. -/
def ofMapping (d : Dict) : Except Fault InputSchema := do
  let parameters ← d.mapM fun (name, declaration) => do
    return (name, ← mappedParameter name declaration)
  return { parameters }

/-- The schema that a value describes, as an object schema or as a mapping. -/
def ofValue (v : Value) : Except Fault InputSchema := do
  if !v.truthy then return {}
  let asObject ← isObjectSchema v
  let d ← v.toRecord "get"
  if asObject then ofObjectSchema d else ofMapping d

/-- Declarations that carry their names, stored one after the other; those without a name or a type
are passed over. -/
def storeRows (parameters : List (Key × InputParameter)) :
    List Value → Except Fault (List (Key × InputParameter))
  | [] => .ok parameters
  | row :: rows => do
    let d ← row.toRecord "get"
    if !(d.field "name").truthy || !(d.field "type").truthy then storeRows parameters rows
    else
      let name ← (d.field "name").toKey
      storeRows (store name (.ofDict name d) parameters) rows

/-- The schema that a list of declarations describes. -/
def ofRows (v : Value) : Except Fault InputSchema := do
  return { parameters := ← storeRows [] (← v.items) }

def toValue (s : InputSchema) : Value :=
  .record [
    ("type", .str "object"),
    ("properties", .dict (s.parameters.map fun e => (e.1, .record e.2.schemaFields))),
    ("required", .list (s.required.map Key.toValue))]

end InputSchema

end Stepwise
