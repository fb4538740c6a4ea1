/-
Module: GitZero.Workflow.Matrix
Purpose: The matrix of a job: which combinations its strategy defines.
Trusted boundary: `serde_json::to_value`
Main exports: MatrixPlan, expandMatrix, expandMatrixDefinition, strategyFailFast,
  strategyMaxParallel
-/
import GitZero.Workflow.Plan

namespace GitZero.Workflows

variable [Serde]

/-- `BTreeMap::extend`: later entries replace earlier ones. -/
def extend {α : Type} (map other : BTreeMap α) : BTreeMap α :=
  other.toList.foldl (fun map entry => map.insert entry.1 entry.2) map

def yamlToJson (workflow jobId : String) (value : Value) : Outcome Json :=
  match Serde.yamlToJson value with
  | .ok json => .ok json
  | .error reason => incompatible workflow jobId reason

def matrixEntry (workflow jobId name : String) : Value × Value → Outcome (String × Json)
  | (key, value) =>
      match key.asStr with
      | none => incompatible workflow jobId s!"matrix {name} keys must be strings"
      | some key => return (key, ← yamlToJson workflow jobId value)

def matrixObject (workflow jobId name : String) : Value → Outcome (BTreeMap Json)
  | .mapping entries => return .ofList (← entries.mapM (matrixEntry workflow jobId name))
  | _ => incompatible workflow jobId s!"matrix {name} entries must be mappings"

def matrixObjects (workflow jobId name : String) : Value → Outcome (List (BTreeMap Json))
  | .sequence values => values.mapM (matrixObject workflow jobId name)
  | _ => incompatible workflow jobId s!"matrix {name} must be a static list"

def matrixObjectMatches (combination filter : BTreeMap Json) : Bool :=
  filter.toList.all fun (key, value) => combination[key]? = some value

/-- What the loop over the keys of a matrix collects. -/
structure MatrixDefinition where
  dimensions : List (String × List Json) := []
  includes : List (BTreeMap Json) := []
  excludes : List (BTreeMap Json) := []

def matrixDimension (workflow jobId dimension : String) : Value → Outcome (List Json)
  | .sequence values =>
      if values.isEmpty then
        incompatible workflow jobId s!"matrix dimension '{dimension}' cannot be empty"
      else values.mapM (yamlToJson workflow jobId)
  | _ => incompatible workflow jobId s!"matrix dimension '{dimension}' must be a static list"

def readMatrixKey (workflow jobId : String) (definition : MatrixDefinition) :
    Value × Value → Outcome MatrixDefinition
  | (key, value) =>
      match key.asStr with
      | none => incompatible workflow jobId "matrix keys must be strings"
      | some "include" =>
          return { definition with
            includes := ← matrixObjects workflow jobId "include" value }
      | some "exclude" =>
          return { definition with
            excludes := ← matrixObjects workflow jobId "exclude" value }
      | some dimension => do
          let values ← matrixDimension workflow jobId dimension value
          return { definition with
            dimensions := definition.dimensions ++ [(dimension, values)] }

def matrixLimit {α : Type} (workflow jobId : String) (combinations : List α) : Outcome (List α) :=
  if combinations.length > 256 then
    incompatible workflow jobId "matrix expands beyond GitHub's 256-job limit"
  else .ok combinations

def multiplyDimension (workflow jobId : String) (combinations : List (BTreeMap Json))
    (dimension : String × List Json) : Outcome (List (BTreeMap Json)) :=
  matrixLimit workflow jobId <|
    combinations.flatMap fun combination =>
      dimension.2.map fun value => combination.insert dimension.1 value

def includeCompatible (original include_ : BTreeMap Json) : Bool :=
  include_.toList.all fun (key, value) =>
    match original[key]? with
    | none => true
    | some original => original = value

/-- One `include` entry: compared with the combinations before any include, applied to
the current ones at the same index. -/
def applyInclude (workflow jobId : String) (original combinations : List (BTreeMap Json))
    (include_ : BTreeMap Json) : Outcome (List (BTreeMap Json)) := do
  let compatible := original.map fun combination => includeCompatible combination include_
  let augmented ← compatible.zipIdx.foldlM
    (fun combinations (applies, index) =>
      if applies then do
        let combination ← expect "index out of bounds" combinations[index]?
        return combinations.set index (extend combination include_)
      else return combinations) combinations
  matrixLimit workflow jobId <|
    if compatible.contains true then augmented else combinations ++ [include_]

/-- The combinations of a matrix that is written out. -/
def expandMatrixDefinition (workflow jobId : String) : Value → Outcome (List (BTreeMap Json))
  | .mapping matrix => do
      let definition ← matrix.foldlM (readMatrixKey workflow jobId) {}
      let initial : List (BTreeMap Json) :=
        if definition.dimensions.isEmpty && !definition.includes.isEmpty then [] else [∅]
      let product ← definition.dimensions.foldlM (multiplyDimension workflow jobId) initial
      let original := product.filter fun combination =>
        !definition.excludes.any (matrixObjectMatches combination)
      definition.includes.foldlM (applyInclude workflow jobId original) original
  | _ => incompatible workflow jobId "matrix must resolve to a mapping"

/-- The combinations of a matrix, or the expression that gives them when the job starts. -/
structure MatrixPlan where
  combinations : List (BTreeMap Json)
  dynamic : Option Value

def validateStrategyKey (workflow jobId : String) : Value × Value → Outcome Unit
  | (key, value) =>
      match key.asStr with
      | none => incompatible workflow jobId "strategy keys must be strings"
      | some "matrix" => .ok ()
      | some "fail-fast" =>
          if value.asBool.isSome then .ok ()
          else incompatible workflow jobId "strategy fail-fast must be a static boolean"
      | some "max-parallel" =>
          if value.asU64.any (0 < ·) then .ok ()
          else incompatible workflow jobId
            "strategy max-parallel must be a positive static integer"
      | some key => incompatible workflow jobId s!"strategy key '{key}' is not supported yet"

/-- The combinations of a strategy. -/
def expandMatrix (workflow jobId : String) : Option Value → Outcome MatrixPlan
  | none => .ok { combinations := [∅], dynamic := none }
  | some (.mapping strategy) => do
      strategy.forM (validateStrategyKey workflow jobId)
      match getKey "matrix" strategy with
      | none => return { combinations := [∅], dynamic := none }
      | some matrix =>
          if containsExpression matrix then
            return { combinations := [∅], dynamic := some matrix }
          else
            return { combinations := ← expandMatrixDefinition workflow jobId matrix
                     dynamic := none }
  | some _ => incompatible workflow jobId "strategy must be a mapping"

def strategyEntry (strategy : Option Value) (key : String) : Option Value :=
  (strategy.bind Value.asMapping).bind (getKey key)

/-- `fail-fast`, which is on unless it says otherwise. -/
def strategyFailFast (strategy : Option Value) : Bool :=
  ((strategyEntry strategy "fail-fast").bind Value.asBool).getD true

/-- `max-parallel`, if there is one. -/
def strategyMaxParallel (strategy : Option Value) : Option Nat :=
  (strategyEntry strategy "max-parallel").bind Value.asU64

end GitZero.Workflows
