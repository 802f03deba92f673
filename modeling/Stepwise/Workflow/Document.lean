-- SUMMARY: Workflows written as documents.
import Stepwise.Workflow.Basic

/-!
# Workflows in documents

A workflow stands under the key `workflow` of a document. What a document holds is found out by
a reader, whose form of documents is left open.
-/

namespace Stepwise

/-- Why a text is not read. -/
inductive Unread where
  /-- It is no document, for a reason in the reader's words. -/
  | malformed (wording : String)
  | fault (f : Fault)
deriving DecidableEq, Repr

/-- Reads documents: what a text holds, if it is one. -/
abbrev DocumentReader := String → Except Unread Value

/-- The fault of a text that is not read. -/
def Unread.toFault : Unread → Fault
  | .malformed wording => .badValue ("Invalid YAML: " ++ wording)
  | .fault f => f

namespace Workflow

def documentKey : String := "workflow"

/-- The fault of a document without a workflow. -/
def noWorkflow : Fault := .badValue "YAML must contain 'workflow' key"

def ofDocument (document : Value) : Except Fault Value := do
  if !document.truthy then throw noWorkflow
  if !(← document.holds documentKey) then throw noWorkflow
  match document with
  | .dict entries => return Dict.field entries documentKey
  | _ => throw .wrongType

def ofYaml (read : DocumentReader) (s : String) : Except Error Workflow := do
  let v ← ((do ofDocument (← (read s).mapError Unread.toFault)) : Except Fault Value)
  ofValue v

/-- The workflow in a file: its path, and its content if it exists. -/
def ofFile (read : DocumentReader) (path : String) (content? : Option String) :
    Except Error Workflow :=
  match content? with
  | some content => ofYaml read content
  | none => .error (.fault (.noFile ("Workflow file not found: " ++ path)))

end Workflow

end Stepwise
