import Stepwise.Collaborators
import Stepwise.Environment
import Stepwise.Error
import Stepwise.Fault
import Stepwise.Functions
import Stepwise.Input.Admission
import Stepwise.Input.Schema
import Stepwise.Json.Printer
import Stepwise.Json.Reader
import Stepwise.LaxSettings
import Stepwise.Loader
import Stepwise.Number.Basic
import Stepwise.Number.Binary64
import Stepwise.Number.Numeral
import Stepwise.Number.Shortest
import Stepwise.Proofs.Checks
import Stepwise.Proofs.Environment.File
import Stepwise.Proofs.Environment.Precedence
import Stepwise.Proofs.Environment.Usable
import Stepwise.Proofs.Functions.Integers
import Stepwise.Proofs.Input.Admission
import Stepwise.Proofs.Input.Holding
import Stepwise.Proofs.Input.Writings
import Stepwise.Proofs.Number.Addition
import Stepwise.Proofs.Number.Format
import Stepwise.Proofs.Number.Numeral
import Stepwise.Proofs.Number.Order
import Stepwise.Proofs.Number.Rounding
import Stepwise.Proofs.Resume.Chain
import Stepwise.Proofs.Resume.Continuation
import Stepwise.Proofs.Resume.Cut
import Stepwise.Proofs.Resume.Entries
import Stepwise.Proofs.Resume.Exact
import Stepwise.Proofs.Resume.Path
import Stepwise.Proofs.Resume.Point
import Stepwise.Proofs.Resume.Prepare
import Stepwise.Proofs.Resume.Refusal
import Stepwise.Proofs.Resume.Reported
import Stepwise.Proofs.Resume.Saved
import Stepwise.Proofs.Run.Atomicity
import Stepwise.Proofs.Run.Behind
import Stepwise.Proofs.Run.Binding
import Stepwise.Proofs.Run.Blame
import Stepwise.Proofs.Run.Closing
import Stepwise.Proofs.Run.Creation
import Stepwise.Proofs.Run.Derivation
import Stepwise.Proofs.Run.Effect
import Stepwise.Proofs.Run.Entered
import Stepwise.Proofs.Run.Failure
import Stepwise.Proofs.Run.Growth
import Stepwise.Proofs.Run.History
import Stepwise.Proofs.Run.Induction
import Stepwise.Proofs.Run.Inputs
import Stepwise.Proofs.Run.Journal
import Stepwise.Proofs.Run.Opening
import Stepwise.Proofs.Run.Paired
import Stepwise.Proofs.Run.Performing
import Stepwise.Proofs.Run.Raising
import Stepwise.Proofs.Run.Reach
import Stepwise.Proofs.Run.Readback
import Stepwise.Proofs.Run.Reading
import Stepwise.Proofs.Run.Reentry
import Stepwise.Proofs.Run.References
import Stepwise.Proofs.Run.Rereading
import Stepwise.Proofs.Run.Savable
import Stepwise.Proofs.Run.Saving
import Stepwise.Proofs.Run.Selection
import Stepwise.Proofs.Run.Signal
import Stepwise.Proofs.Run.Simulation
import Stepwise.Proofs.Run.Stop
import Stepwise.Proofs.Run.Stored
import Stepwise.Proofs.Run.Trail
import Stepwise.Proofs.Run.WeakestPre
import Stepwise.Proofs.Step.Data
import Stepwise.Proofs.Step.Fields
import Stepwise.Proofs.Step.Order
import Stepwise.Proofs.Step.Position
import Stepwise.Proofs.Step.Postorder
import Stepwise.Proofs.Step.Read
import Stepwise.Proofs.Step.Rereading
import Stepwise.Proofs.Step.Route
import Stepwise.Proofs.Store.Answers
import Stepwise.Proofs.Store.History
import Stepwise.Proofs.Store.Memory
import Stepwise.Proofs.Template.Agreement
import Stepwise.Proofs.Template.Answers
import Stepwise.Proofs.Template.Comparison
import Stepwise.Proofs.Template.Data
import Stepwise.Proofs.Template.Literal
import Stepwise.Proofs.Template.Names
import Stepwise.Proofs.Template.Operator
import Stepwise.Proofs.Template.Segments
import Stepwise.Proofs.Template.Shape
import Stepwise.Proofs.Template.Substitution
import Stepwise.Proofs.Template.Walk
import Stepwise.Proofs.Template.Whole
import Stepwise.Proofs.Value.Data
import Stepwise.Proofs.Value.Documents
import Stepwise.Proofs.Value.Entries
import Stepwise.Proofs.Value.Keys
import Stepwise.Proofs.Value.Lawful
import Stepwise.Proofs.Workflow.Dangling
import Stepwise.Proofs.Workflow.Loading
import Stepwise.Proofs.Workflow.Lookup
import Stepwise.Proofs.Workflow.Names
import Stepwise.Proofs.Workflow.Prefix
import Stepwise.Proofs.Workflow.Rereading
import Stepwise.Proofs.Workflow.Scope
import Stepwise.Run.Action
import Stepwise.Run.Branching
import Stepwise.Run.Context
import Stepwise.Run.Engine
import Stepwise.Run.Machine
import Stepwise.Run.Outcome
import Stepwise.Run.Pause
import Stepwise.Sampling
import Stepwise.Scripted
import Stepwise.Settings
import Stepwise.Sorting.Adaptive
import Stepwise.Sorting.Merge
import Stepwise.Sorting.Runs
import Stepwise.Step.Basic
import Stepwise.Step.Reading
import Stepwise.Step.Tree
import Stepwise.Store
import Stepwise.Template.Condition
import Stepwise.Template.Fill
import Stepwise.Template.Path
import Stepwise.Template.Pieces
import Stepwise.Text.Blank
import Stepwise.Text.Digit
import Stepwise.Text.Lowercase
import Stepwise.Text.Printable
import Stepwise.Text.Quoted
import Stepwise.Text.Ranges
import Stepwise.Value.Basic
import Stepwise.Value.Dict
import Stepwise.Value.Display
import Stepwise.Value.Observe
import Stepwise.Value.Sorting
import Stepwise.Workflow.Basic
import Stepwise.Workflow.Document
import Stepwise.Workflow.References
import Stepwise.Workflow.Wellformed
import Stepwise.Yaml.Cursor
import Stepwise.Yaml.Document
import Stepwise.Yaml.Node
import Stepwise.Yaml.Plain
import Stepwise.Yaml.Quoted
import Stepwise.Yaml.Token
import Stepwise.Yaml.Unquoted
