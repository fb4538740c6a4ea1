/-
Module: GitZero.ControlPlane.GithubVariables
Purpose: The configuration variables of a run, chosen from those of the organization and of
  the repository.
Trusted boundary: `toUpperCase`, a parameter
Main exports: ActionsVariable, compareVariableNames, toSorted, addLevel, selectActionsVariables
-/
import GitZero.Lib.Utf16
import Mathlib.Data.List.Sort

namespace GitZero.ControlPlane

def maxCombinedVariableBytes : Nat := 256 * 1024

/-- A variable as the API of GitHub lists it. -/
structure ActionsVariable where
  name : String
  value : String
deriving Repr, DecidableEq

section Names

variable (toUpperCase : String → String)

def ActionsVariable.normalizedName (entry : ActionsVariable) : String :=
  toUpperCase entry.name

/-- JavaScript compares the code units. -/
def compareVariableNames (left right : ActionsVariable) : Ordering :=
  let a := Utf16.encode (left.normalizedName toUpperCase).toList
  let b := Utf16.encode (right.normalizedName toUpperCase).toList
  if a < b then .lt else if b < a then .gt else .eq

/-- `variables.toSorted(compareVariableNames)`, which is stable. -/
def toSorted (entries : List ActionsVariable) : List ActionsVariable :=
  entries.insertionSort fun left right => compareVariableNames toUpperCase left right ≠ .gt

/-- `new TextEncoder().encode(name + value).byteLength` -/
def ActionsVariable.bytes (entry : ActionsVariable) : Nat :=
  (entry.name ++ entry.value).utf8ByteSize

/-- The map from normalized names, in the order of insertion, and the bytes so far. -/
structure Selection where
  selected : List (String × ActionsVariable) := []
  byteCount : Nat := 0

/-- The loop of `addLevel` over the sorted variables of a scope. -/
def addSorted (selection : Selection) : List ActionsVariable → Selection
  | [] => selection
  | entry :: entries =>
      let normalizedName := entry.normalizedName toUpperCase
      if normalizedName ∈ selection.selected.map Prod.fst then addSorted selection entries
      else if selection.byteCount + entry.bytes > maxCombinedVariableBytes then selection
      else addSorted
        { selected := selection.selected ++ [(normalizedName, entry)]
          byteCount := selection.byteCount + entry.bytes }
        entries

/-- The variables of one level, in their order, as far as they fit beside those already selected. -/
def addLevel (selection : Selection) (entries : List ActionsVariable) : Selection :=
  addSorted toUpperCase selection (toSorted toUpperCase entries)

/-- `Object.fromEntries`: a later entry replaces the value of an earlier one. -/
def fromEntries (entries : List (String × String)) : List (String × String) :=
  entries.foldl (fun object entry =>
    if entry.1 ∈ object.map Prod.fst then
      object.map fun old => if old.1 = entry.1 then entry else old
    else object ++ [entry]) []

/-- The repository's variables first, then those of the organization. -/
def selectActionsVariables (organization repository : List ActionsVariable) :
    List (String × String) :=
  let selection := addLevel toUpperCase (addLevel toUpperCase {} repository) organization
  fromEntries (selection.selected.map fun entry => (entry.2.name, entry.2.value))

end Names

end GitZero.ControlPlane
