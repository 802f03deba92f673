-- SUMMARY: The function registry and its built-in functions.
import Stepwise.Collaborators

/-!
# Functions

A registry finds functions by name and turns whatever a function raises into an
unsuccessful result. Three functions are built in: a greeting, the addition of two
numbers, and the fetching of an object by its number through a tool.
-/

namespace Stepwise

variable {σ : Type}

/-! ## Arguments -/

namespace Functions

/-- A parameter's value, taken out of a wrapper that holds it under `value`. -/
def unwrap (v : Value) : Value :=
  match v with
  | .dict entries => (Dict.field? entries "value").getD v
  | v => v

/-- A parameter as a number. Truth values and texts that spell no number are none; an integer beyond
the binary64 numbers is a fault. -/
def number? (v : Value) : Except Fault (Option Binary64) :=
  match unwrap v with
  | .null | .bool _ => .ok none
  | w =>
    match w.toBinary64 with
    | .ok x => .ok (some x)
    | .error f => if f.kind = .overflow then .error f else .ok none

/-- A number as data: an integer if it has no fraction. -/
def numberValue (x : Binary64) : Value :=
  match x.isInteger, x.toInt? with
  | true, some n => .int n
  | _, _ => .float x

def failure (error : String) : FunctionResult := { success := false, error := .str error }

def success (data : Value) : FunctionResult := { success := true, data }

/-! ## Built-in functions -/

/-- Whom parameters ask to greet. -/
def addressee (parameters : Value) : Except Fault String := do
  let d ← parameters.toRecord "get"
  ((d.field "name").orElse (.str "World")).spell

def greeting (name time : String) : FunctionResult :=
  success (.record [("message", .str ("Hello, " ++ name ++ "!")), ("timestamp", .str time)])

/-- Greet by name, and tell the time. -/
def greet (clock : Clock σ) : Handler σ := fun parameters _ world =>
  match addressee parameters with
  | .ok name =>
    let (time, world) := clock world
    (.ok (greeting name time), world)
  | .error f => (.error (.fault f), world)

def additionError : String :=
  "Both 'a' and 'b' parameters are required and must be valid numbers"

/-- The result of adding two parameters. -/
def addition (parameters : Value) : Except Fault FunctionResult := do
  let d ← parameters.toRecord "get"
  let a? ← number? (d.field "a")
  let b? ← number? (d.field "b")
  match a?, b? with
  | some a, some b =>
    if a.isNan || b.isNan then return failure additionError
    else
      let (a, b, total) := (numberValue a, numberValue b, numberValue (a + b))
      return success (.record [("a", a), ("b", b), ("sum", total),
        ("operation", .str (a.text ++ " + " ++ b.text ++ " = " ++ total.text))])
  | _, _ => return failure additionError

def add : Handler σ := fun parameters _ => Ask.lift (addition parameters)

/-- The number of an object: a positive integer. -/
def objectNumber? (x? : Option Binary64) : Option Int :=
  match x? with
  | some x => if x.compareInt? 1 = some .lt then none else if x.isInteger then x.toInt? else none
  | none => none

/-- The words of what was raised, which have to be written out. -/
def wordingOf : Raised → Except Crash String
  | .step e => e.problem.spell
  | .fault f => .ok f.wording
  | .mute _ instead => .error instead

/-- Fetch an object by its number. -/
def fetch : Handler σ := fun parameters tools? =>
  match tools? with
  | none => pure (failure "ToolCaller not available in handler context")
  | some call => do
    let x? ← Ask.lift ((parameters.toRecord "get").bind fun d => number? (d.field "object_id"))
    match objectNumber? x? with
    | none => return failure "Valid numeric object_id is required (must be >= 1)"
    | some n =>
      let answer ← (fun world =>
        match call (.str "get_object") (.record [("object_id", .int n)]) world with
        | (.ok v, world) => (.ok (.ok v), world)
        | (.error e, world) => (.ok (.error e), world) : Ask σ (Except Raised Value))
      match answer with
      | .error e => do
        let reason ← Ask.written (wordingOf e)
        return failure ("Failed to retrieve object: " ++ reason)
      | .ok v =>
        if v.truthy then return success v
        else return failure ("Object with ID " ++ Binary64.intText n ++ " not found")

end Functions

/-! ## Descriptions -/

def FunctionParameter.toValue (p : FunctionParameter) : Value :=
  .record [("name", p.name), ("type", p.type), ("description", p.description),
    ("required", p.required)]

def FunctionDescription.toValue (d : FunctionDescription) : Value :=
  .record [("name", d.name.toValue), ("description", d.description),
    ("parameters", .list (d.parameters.map FunctionParameter.toValue))]

/-! ## The registry -/

namespace FunctionRegistry

/-- The description of a function with a name and parameters in words: each with its name, type and
description, and whether it is required. -/
def describe (name description : String) (parameters : List (String × String × String × Bool)) :
    FunctionDescription where
  name := .str name
  description := .str description
  parameters := parameters.map fun (name, type, description, required) =>
    { name := .str name, type := .str type, description := .str description
      required := .bool required }

/-- The built-in functions, with the clock that they look at. -/
def builtin (clock : Clock σ) : FunctionRegistry σ :=
  [{ description := describe "hello_world" "Returns a greeting message"
      [("name", "string", "Name to greet (defaults to 'World')", false)]
     handler := Functions.greet clock },
   { description := describe "add_numbers" "Adds two numbers together"
      [("a", "number", "First number", true), ("b", "number", "Second number", true)]
     handler := Functions.add },
   { description := describe "get_object" "Retrieves an object by its numeric ID"
      [("object_id", "number", "The numeric ID of the object", true)]
     handler := Functions.fetch }]

/-- The registry with a function registered; a known name keeps its place. -/
def register (registry : FunctionRegistry σ) (f : RegisteredFunction σ) : FunctionRegistry σ :=
  match registry with
  | [] => [f]
  | g :: rest =>
    if f.description.name.same g.description.name then f :: rest else g :: register rest f

def find? (registry : FunctionRegistry σ) (name : Key) : Option (RegisteredFunction σ) :=
  List.find? (fun f : RegisteredFunction σ => name.same f.description.name) registry

def lookUp (registry : FunctionRegistry σ) (name : Value) :
    Except Fault (Option (RegisteredFunction σ)) := do
  return registry.find? (← name.toKey)

/-- The words for a failure without words. -/
def unknownError : String := "Unknown error occurred"

/-- An error in words, also where there are none. -/
def orUnknown (error : String) : String := if error = "" then unknownError else error

/-- The function's own error, also where it has none. -/
def errorOf (r : FunctionResult) : Value := r.error.orElse (.str unknownError)

/-- What comes of a call of the named function in which something is raised. That has to be written out, and
so has the name. -/
def broken (name : Value) (raised : Raised) : Except Crash FunctionResult := do
  let _ ← name.spell.mapError .fault
  return Functions.failure (orUnknown (← Functions.wordingOf raised))

/-- Run the function of a name; what it raises becomes an unsuccessful result. -/
def runHandler (f : RegisteredFunction σ) (name parameters : Value) (tools? : Option (ToolCaller σ)) :
    Ask σ FunctionResult := fun world =>
  match f.handler parameters tools? world with
  | (.ok r, world) => (.ok r, world)
  | (.error raised, world) => ((broken name raised).mapError Crash.raised, world)

/-- The result of calling a function that is not in the registry. -/
def notFound (name : Value) : Except Fault FunctionResult := do
  return Functions.failure ("Function '" ++ (← name.spell) ++ "' not found in registry")

def call (registry : FunctionRegistry σ) (name parameters : Value)
    (tools? : Option (ToolCaller σ)) : Ask σ FunctionResult :=
  match registry.lookUp name with
  | .error f => Ask.lift (.error f)
  | .ok none => Ask.lift (notFound name)
  | .ok (some f) => runHandler f name parameters tools?

end FunctionRegistry

end Stepwise
