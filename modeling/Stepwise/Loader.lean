-- SUMMARY: Loading workflows from stored templates and their rows.
import Stepwise.Workflow.Basic
import Stepwise.Text.Lowercase
import Stepwise.Text.Blank
import Stepwise.Value.Sorting

/-!
# Loading workflows

A workflow template keeps its steps as rows, in the order of their `execution_order`.
One row may be the start of the workflow and tells its name and inputs; without one they
come from the template's metadata. The key and the type of a row are the name and the
type of its step, whatever the row's configuration says.
-/

namespace Stepwise

/-- Where templates come from: a template by its number, and the rows of a template. -/
structure TemplateSource where
  template : Value → Except Fault Value
  rows : Value → Except Fault Value

namespace Loader

/-! ## Rows -/

def templateType : String := "workflow"

def startType : String := "start"

def isStart (row : Dict) : Bool := (row.field "step_type").same (.str startType)

def isStep (row : Dict) : Bool :=
  !(row.field "step_type").memberOf [.null, .str "", .str "property", .str startType]

/-- A value, or what a text holds as JSON. -/
def unpack (v : Value) : Except Fault Value :=
  match v with
  | .str s => Json.read s
  | v => .ok v

def configuration (row : Dict) : Except Fault Value :=
  unpack ((row.field "step_config").orElse (.dict []))

/-- The first row that starts the workflow. -/
def findStart? : List Value → Except Fault (Option Dict)
  | [] => .ok none
  | row :: rows => do
    let d ← row.toRecord "get"
    if isStart d then return some d else findStart? rows

def stepRows : List Value → Except Fault (List Dict)
  | [] => .ok []
  | row :: rows => do
    let d ← row.toRecord "get"
    let rest ← stepRows rows
    return if isStep d then d :: rest else rest

/-! ## Order -/

def order (row : Dict) : Value := (row.field "execution_order").orElse (.int 0)

/-- Rows in the order of execution; rows of the same place keep their order. -/
def sort (rows : List Dict) : Except Fault (List Dict) := Value.sortBy order rows

/-! ## Parts of a workflow -/

/-- What a workflow has besides its steps. -/
structure Heading where
  name : Value
  description : Value
  inputs : InputSchema

/-- The name of a template as the name of a tool: its words in lower case, joined by underscores. -/
def toolName (template : Dict) : Except Fault Value := do
  match (template.field "name").orElse (.str "") with
  | .str s => return .str ("_".intercalate ((Text.words (Text.lowercase s.toList)).map String.ofList))
  | v => throw (.noField v.typeName "lower")

def startHeading (template start : Dict) : Except Fault Heading := do
  let d ← (← configuration start).toRecord "get"
  let given := d.field "tool_name"
  let name ← if given.truthy then pure given else toolName template
  let description := (d.field "tool_description").orElse
    ((d.field "display_description").orElse (template.field "description"))
  let inputs ← InputSchema.ofRows ((d.field "input_parameters").orElse (.list []))
  return { name, description, inputs }

def metadataHeading (template : Dict) : Except Fault Heading := do
  let metadata ← unpack ((template.field "metadata").orElse (.dict []))
  let d ← metadata.toRecord "get"
  let name := (d.field "mcp_tool_name").orElse ((template.field "name").orElse (.str ""))
  let inputs ← InputSchema.ofValue (← unpack (d.field "input_schema"))
  return { name, description := template.field "description", inputs }

def stepOf (row : Dict) : Except Error Step := do
  let d ← ((do (← configuration row).toDict) : Except Fault Dict)
  Step.ofValue (.dict ((d.insert (.str "name") (row.field "key")).insert (.str "type")
    (row.field "step_type")))

/-! ## Loading -/

/-- The entries of a template, which must be a workflow template. -/
def requireWorkflow (id template : Value) : Except Fault Dict := do
  let d ← template.toRecord "get"
  let type := d.field "type"
  if type.same (.str templateType) then return d
  else throw (.badValue ("Template " ++ (← id.spell) ++ " is not a workflow (type: "
    ++ (← type.spell) ++ ")"))

/-- The workflow of a template and its rows, whose name has to be fit to be written out. -/
def build (template : Dict) (rows : List Value) : Except Error Workflow := do
  let start? ← (findStart? rows : Except Fault (Option Dict))
  let heading ← (match start? with
    | some start => startHeading template start
    | none => metadataHeading template : Except Fault Heading)
  let ordered ← ((do sort (← stepRows rows)) : Except Fault (List Dict))
  let steps ← ordered.mapM stepOf
  let _ ← (heading.name.spell : Except Fault String)
  return {
    name := heading.name
    description := heading.description.orElse (.str "")
    inputs := heading.inputs
    steps }

/-- Load the workflow of a template, if there is such a template. With its rows at hand the template's
number has to be fit to be written out. -/
def load (source : TemplateSource) (id : Value) : Except Error (Option Workflow) := do
  let template ← (source.template id : Except Fault Value)
  if template.isNull then return none
  else
    let d ← (requireWorkflow id template : Except Fault Dict)
    let rows ← ((do (← source.rows id).items) : Except Fault (List Value))
    let _ ← (id.spell : Except Fault String)
    return some (← build d rows)

end Loader

end Stepwise
