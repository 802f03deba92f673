-- SUMMARY: The tree of steps: nested sequences, names in document order, search, and branches by name.
import Stepwise.Step.Basic
import Stepwise.Value.Observe
import Stepwise.Value.Display

/-!
# The tree of steps

A conditional has two nested sequences and a switch one for each case and for a default
that holds steps. Document order lists a step before the steps nested in it, and these
sequence by sequence. A branch is entered by name: `then`, `else`, `default_case`, or
`cases.` followed by the text of a case.
-/

namespace Stepwise

/-! ## Branch names -/

namespace Branch

def thenName : String := "then"
def elseName : String := "else"
def defaultName : String := "default_case"

/-- What precedes the text of a case in a branch name. -/
def caseMark : String := "cases."

def ofCase (label : String) : String := caseMark ++ label

/-- The text after the mark of a case. -/
def label? (branch : String) : Option String :=
  if caseMark.toList.isPrefixOf branch.toList then
    some (String.ofList (branch.toList.drop caseMark.length))
  else none

theorem label?_ofCase (label : String) : label? (ofCase label) = some label := by
  have h : (caseMark ++ label).toList = caseMark.toList ++ label.toList := String.toList_append
  have hp : caseMark.toList.isPrefixOf (caseMark.toList ++ label.toList) = true := by
    simp [List.isPrefixOf_iff_prefix]
  have hl : caseMark.length = caseMark.toList.length := rfl
  simp [label?, ofCase, h, hp, hl]

end Branch

namespace Step

/-! ## Nested sequences -/

/-- The nested step sequences, in order of declaration. -/
def children : Step → List (List Step)
  | .action .. => []
  | .conditional _ _ thenSteps elseSteps => [thenSteps, elseSteps]
  | .switch _ _ cases none => cases.map (·.2)
  | .switch _ _ cases (some []) => cases.map (·.2)
  | .switch _ _ cases (some steps) => cases.map (·.2) ++ [steps]

mutual

/-- The names of a step and the steps nested in it, in document order. -/
def names : Step → List Value
  | .action name _ => [name]
  | .conditional name _ thenSteps elseSteps => name :: (namesOf thenSteps ++ namesOf elseSteps)
  | .switch name _ cases none => name :: namesOfCases cases
  | .switch name _ cases (some steps) => name :: (namesOfCases cases ++ namesOf steps)

def namesOf : List Step → List Value
  | [] => []
  | s :: ss => s.names ++ namesOf ss

def namesOfCases : List (String × List Step) → List Value
  | [] => []
  | (_, steps) :: rest => namesOf steps ++ namesOfCases rest

end

mutual

/-- The first step of the given name, in document order. -/
def find? (wanted : Value) : Step → Option Step
  | s@(.action name _) => if name.same wanted then some s else none
  | s@(.conditional name _ thenSteps elseSteps) =>
    if name.same wanted then some s
    else (findIn? wanted thenSteps).or (findIn? wanted elseSteps)
  | s@(.switch name _ cases none) =>
    if name.same wanted then some s else findInCases? wanted cases
  | s@(.switch name _ cases (some steps)) =>
    if name.same wanted then some s
    else (findInCases? wanted cases).or (findIn? wanted steps)

/-- The first step of the given name in a sequence. -/
def findIn? (wanted : Value) : List Step → Option Step
  | [] => none
  | s :: ss => (find? wanted s).or (findIn? wanted ss)

def findInCases? (wanted : Value) : List (String × List Step) → Option Step
  | [] => none
  | (_, steps) :: rest => (findIn? wanted steps).or (findInCases? wanted rest)

end

/-! ## Branches -/

def caseSteps? (cases : List (String × List Step)) (label : String) : Option (List Step) :=
  (cases.find? fun e => e.1 == label).map (·.2)

/-- The fault of a branch that a step does not have. -/
def noBranch (s : Step) (branch : Value) : Fault :=
  if !s.name.isSpellable then unspellable
  else .badValue ("Step '" ++ s.name.text ++ "' has no branch '" ++ branch.text ++ "'")

/-- The steps of a branch named by a text. -/
def branchNamed? (s : Step) (branch : String) : Option (List Step) :=
  match s with
  | .action .. => none
  | .conditional _ _ thenSteps elseSteps =>
    if branch = Branch.thenName then some thenSteps
    else if branch = Branch.elseName then some elseSteps
    else none
  | .switch _ _ cases default? =>
    match default? with
    | some steps =>
      if branch = Branch.defaultName then some steps
      else (Branch.label? branch).bind (caseSteps? cases)
    | none => (Branch.label? branch).bind (caseSteps? cases)

/-- The steps of a branch. A switch can only be asked for a text. -/
def branch (s : Step) (branch : Value) : Except Fault (List Step) :=
  match branch with
  | .str name =>
    match s.branchNamed? name with
    | some steps => .ok steps
    | none => .error (s.noBranch branch)
  | _ =>
    match s with
    | .switch .. => .error (.noField branch.typeName "startswith")
    | _ => .error (s.noBranch branch)

/-! ## Names and nested sequences -/

theorem namesOfCases_eq_flatMap (cs : List (String × List Step)) :
    namesOfCases cs = (cs.map (·.2)).flatMap namesOf := by
  induction cs with
  | nil => rfl
  | cons c cs ih => simp [namesOfCases, ih]

/-- A step's own name comes first, then the names of its nested sequences. -/
theorem names_eq (s : Step) : s.names = s.name :: s.children.flatMap namesOf := by
  match s with
  | .action .. => simp [names, name, children]
  | .conditional .. => simp [names, name, children]
  | .switch _ _ cs none => simp [names, name, children, namesOfCases_eq_flatMap]
  | .switch _ _ cs (some []) => simp [names, name, children, namesOfCases_eq_flatMap, namesOf]
  | .switch _ _ cs (some (s :: ss)) => simp [names, name, children, namesOfCases_eq_flatMap]

end Step

end Stepwise
