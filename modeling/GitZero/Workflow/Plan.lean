/-
Module: GitZero.Workflow.Plan
Purpose: Execution plans: the planned jobs that the compiler and the linker build.
Trusted boundary: `serde_json::to_value`, a parameter
Main exports: Serde, PlannedPermissions, PlannedJob, PlannedVirtualJob, ExecutionPlan
-/
import GitZero.Workflow.Syntax
import Std.Data.ExtTreeSet.Lemmas

namespace GitZero.Workflows

abbrev BTreeSet := Std.ExtTreeSet String compare

/-- The JSON values of a matrix and their conversion from YAML. -/
class Serde where
  Json : Type
  decEq : DecidableEq Json
  yamlToJson : Value → Except String Json

export Serde (Json)

instance [Serde] : DecidableEq Json := Serde.decEq

/-! ### Permissions -/

/-- The permissions that a job may read and those it may write. -/
structure PlannedPermissions where
  read : Finset String
  write : Finset String
deriving DecidableEq

def PlannedPermissions.default : PlannedPermissions where
  read := {"contents", "pull-requests"}
  write := ∅

def PlannedPermissions.intersect (permissions maximum : PlannedPermissions) :
    PlannedPermissions :=
  let available := (permissions.read ∪ permissions.write).filter fun permission =>
    permission ∈ maximum.read ∨ permission ∈ maximum.write
  let write := permissions.write ∩ maximum.write
  { read := available \ write, write }

/-! ### Planned jobs -/

/-- The deployment environment of a job. -/
structure PlannedEnvironment where
  name : String
  url : Option String
  deployment : Bool
deriving Repr, DecidableEq

/-- What becomes of a waiting job when another one comes. -/
inductive PlannedConcurrencyQueue where
  | single | max
deriving Repr, DecidableEq

/-- The concurrency group of a job or of a plan, as templates. -/
structure PlannedConcurrency where
  group : String
  cancelInProgress : String
  queue : PlannedConcurrencyQueue
deriving Repr, DecidableEq

/-- The types of the inputs of a reusable workflow. -/
inductive ReusableInputType where
  | string | boolean | number
deriving Repr, DecidableEq

/-- An input with its declared type; the value is converted when the job starts. -/
structure PlannedReusableInput where
  value : Value
  inputType : ReusableInputType

/-- The inputs of one call, evaluated in the matrix of the calling job. -/
structure PlannedReusableInputScope [Serde] where
  inputs : BTreeMap PlannedReusableInput
  matrix : BTreeMap Json

/-- The concurrency of a called workflow, which all its jobs hold together. -/
structure PlannedConcurrencyScope [Serde] where
  id : String
  configuration : PlannedConcurrency
  reusableInputScopes : List PlannedReusableInputScope

/-- Which secrets a call hands on. -/
structure PlannedReusableSecretScope where
  inherit : Bool := false
  mappings : BTreeMap String := ∅
  required : BTreeSet := ∅

/-- What a step does. -/
inductive StepKind where
  | checkout (inputs : BTreeMap String)
  | run (shell script : String)
  | uses (action : String) (inputs : BTreeMap String)
  | wait (stepIds : List String)
  | waitAll
  | cancel (stepId : String)

/-- A step of a planned job. -/
structure PlannedStep where
  id : String
  githubAction : String
  name : String
  environment : BTreeMap String := ∅
  workingDirectory : Option String := none
  condition : Option String := none
  continueOnError : Option String := none
  timeoutMinutes : Option String := none
  background : Option String := none
  kind : StepKind

section Plans

variable [Serde]

/-- A planned job, over the type of its virtual job: that type holds plans of its own,
so the knot is tied in `PlannedVirtualJob`. -/
structure PlannedJobOf (Virtual : Type) where
  id : String
  baseId : String
  name : String
  definingWorkflowPath : String
  needs : List String
  needAliases : BTreeMap String
  condition : Option String
  runsOn : Value
  reusableInputScopes : List PlannedReusableInputScope
  reusableSecretScopes : List PlannedReusableSecretScope
  virtualJob : Option Virtual
  matrix : BTreeMap Json
  dynamicMatrix : Option Value
  matrixFailFast : Bool
  matrixMaxParallel : Option Nat
  strategyJobIndex : Option Nat
  strategyJobTotal : Option Nat
  continueOnError : Option String
  timeoutMinutes : Option String
  permissions : PlannedPermissions
  concurrency : Option PlannedConcurrency
  concurrencyScopeIds : List String
  concurrencyAcquire : List PlannedConcurrencyScope
  concurrencyRelease : List String
  deploymentEnvironment : Option PlannedEnvironment
  environment : BTreeMap String
  outputs : BTreeMap String
  steps : List PlannedStep

/-- A plan, over the type of its virtual jobs: these hold plans themselves. -/
structure ExecutionPlanOf (Virtual : Type) where
  workflowName : String
  workflowPath : String
  concurrency : Option PlannedConcurrency
  jobs : List (PlannedJobOf Virtual)

/-- A call whose matrix is evaluated while the plan runs. -/
structure PlannedDynamicReusableCallOf (Virtual : Type) where
  calledPlan : ExecutionPlanOf Virtual
  inputs : BTreeMap PlannedReusableInput
  secrets : PlannedReusableSecretScope
  outputs : BTreeMap String

/-- The jobs that run nothing: gates, results, and the template of a call whose matrix is not
known yet. -/
inductive PlannedVirtualJob where
  | reusableGate
  | reusableResult (jobs outputs : BTreeMap String)
  | reusableMatrixResult (invocations : List String) (maxParallel : Nat) (failFast : Bool)
  | reusableDynamicCall (call : PlannedDynamicReusableCallOf PlannedVirtualJob)

/-- A job of a plan. -/
abbrev PlannedJob := PlannedJobOf PlannedVirtualJob

/-- The plan of a workflow. -/
abbrev ExecutionPlan := ExecutionPlanOf PlannedVirtualJob

abbrev PlannedDynamicReusableCall := PlannedDynamicReusableCallOf PlannedVirtualJob

end Plans

end GitZero.Workflows
