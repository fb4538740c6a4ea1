/-
Module: GitZero.Workflow.Compile
Purpose: `compile`: the plan of one workflow file without reusable calls.
Trusted boundary: the analysis of expression templates, a parameter that the expression
  crate fills
Main exports: Templates, plannedPermissions, plannedConcurrency, validateDependencies,
  compileJob, compile
-/
import GitZero.Lib.DepthFirst
import GitZero.Workflow.Matrix
import GitZero.Workflow.Steps

namespace GitZero.Workflows

/-- `analyze_template`, with its error as displayed. -/
class Templates where
  analyzeTemplate : String → Except String Expression.ExpressionAnalysis

/-! ### Permissions -/

def readWriteTokenPermissions : List String :=
  ["actions", "artifact-metadata", "attestations", "checks", "code-quality", "contents",
    "deployments", "discussions", "issues", "packages", "pages", "pull-requests",
    "security-events", "statuses"]

def readOnlyTokenPermissions : List String := ["vulnerability-alerts"]

def tokenPermissionKeys : List String :=
  ["actions", "artifact-metadata", "attestations", "checks", "code-quality", "contents",
    "deployments", "discussions", "id-token", "issues", "packages", "pages", "pull-requests",
    "security-events", "statuses", "vulnerability-alerts"]

def permissionEntry (workflow location : String) (permissions : PlannedPermissions) :
    Value × Value → Outcome PlannedPermissions
  | (name, access) =>
      match name.asStr with
      | none => unsupportedWorkflow workflow s!"{location} permission names must be strings"
      | some name =>
          if name ∉ tokenPermissionKeys then
            unsupportedWorkflow workflow s!"{location} permission '{name}' is not recognized"
          else
            match access.asStr with
            | some "none" => .ok permissions
            | some "read" =>
                if name ≠ "id-token" then
                  .ok { permissions with read := insert name permissions.read }
                else unsupportedWorkflow workflow
                  s!"{location} permission 'id-token' does not support read access"
            | some "write" =>
                if name = "id-token" then unsupportedWorkflow workflow
                  (s!"{location} permission 'id-token: write' is not supported because " ++
                    "GitZero does not issue GitHub OIDC tokens")
                else if name ∈ readOnlyTokenPermissions then unsupportedWorkflow workflow
                  s!"{location} permission '{name}' supports only read or none access"
                else .ok { permissions with write := insert name permissions.write }
            | _ => unsupportedWorkflow workflow
                s!"{location} permission '{name}' must be read, write, or none"

/-- `permissions`, within those that the workflow has. -/
def plannedPermissions (workflow location : String) (value : Option Value)
    (inherited : PlannedPermissions) : Outcome PlannedPermissions :=
  match value with
  | none => .ok inherited
  | some (.string "read-all") =>
      .ok { read := (readWriteTokenPermissions ++ readOnlyTokenPermissions).toFinset, write := ∅ }
  | some (.string "write-all") => unsupportedWorkflow workflow
      (s!"{location} permissions request write-all, which includes unsupported " ++
        "id-token: write access")
  | some (.mapping values) =>
      values.foldlM (permissionEntry workflow location) { read := ∅, write := ∅ }
  | some _ => unsupportedWorkflow workflow
      s!"{location} permissions must be read-all, write-all, or a permission mapping"

/-! ### Concurrency, environments and defaults -/

section Templates

variable [Templates]

def checkConcurrencyField (workflow location : String) (allowedContexts : List String) :
    String × String → Outcome Unit
  | (field, value) =>
      match Templates.analyzeTemplate value with
      | .error error => unsupportedWorkflow workflow
          s!"{location} concurrency {field} is invalid: {error}"
      | .ok analysis =>
          if analysis.contextRoots.any (fun root => String.ofList root ∉ allowedContexts) ||
              analysis.usesHashFiles || analysis.usesStatusFunction then
            unsupportedWorkflow workflow
              (s!"{location} concurrency {field} uses a context or function unavailable to " ++
                "GitHub concurrency")
          else .ok ()

def concurrencySettings (workflow location : String) :
    Concurrency → Outcome PlannedConcurrency
  | .group group => .ok { group, cancelInProgress := "false", queue := .single }
  | .configuration configuration =>
      match firstKey configuration.extra with
      | some feature => unsupportedWorkflow workflow
          s!"{location} concurrency key '{feature}' is not supported"
      | none => do
          let queue ← match configuration.queue.getD "single" with
            | "single" => pure PlannedConcurrencyQueue.single
            | "max" => pure PlannedConcurrencyQueue.max
            | value =>
                unsupportedWorkflow workflow
                  s!"{location} concurrency queue must be 'single' or 'max', not '{value}'"
          return { group := configuration.group,
                   cancelInProgress := configuration.cancelInProgress.getD "false", queue }

def concurrencyGroupUnsafe (group : String) : Bool :=
  (Expression.trim group.toList).isEmpty ||
    group.toList.any (fun char => char = '\x00' || char = '\n' || char = '\r') ||
    (!containsText group expressionMarker && group.utf8ByteSize > 256) ||
    group.utf8ByteSize > 4096

/-- `concurrency`, whose templates may refer to the given contexts. -/
def plannedConcurrency (workflow location : String) (concurrency : Option Concurrency)
    (allowedContexts : List String) : Outcome (Option PlannedConcurrency) :=
  match concurrency with
  | none => .ok none
  | some concurrency => do
      let planned ← concurrencySettings workflow location concurrency
      if concurrencyGroupUnsafe planned.group then
        unsupportedWorkflow workflow
          s!"{location} concurrency group is empty or exceeds its safe bounds"
      else
        checkConcurrencyField workflow location allowedContexts ("group", planned.group)
        checkConcurrencyField workflow location allowedContexts
          ("cancel-in-progress", planned.cancelInProgress)
        if !containsText planned.cancelInProgress expressionMarker &&
            planned.cancelInProgress ∉ ["true", "false"] then
          unsupportedWorkflow workflow
            s!"{location} concurrency cancel-in-progress must be a boolean or expression"
        else if planned.queue = .max && planned.cancelInProgress = "true" then
          unsupportedWorkflow workflow
            s!"{location} concurrency cannot combine queue: max with cancel-in-progress: true"
        else return some planned

end Templates

def plannedEnvironment (workflow jobId : String) (environment : Option JobEnvironment) :
    Outcome (Option PlannedEnvironment) := do
  match environment with
  | none => return none
  | some environment =>
      let planned : PlannedEnvironment ← match environment with
        | .name name => pure { name, url := none, deployment := true }
        | .configuration configuration =>
            match firstKey configuration.extra with
            | some feature =>
                incompatible workflow jobId s!"environment key '{feature}' is not supported"
            | none => pure { name := configuration.name, url := configuration.url,
                             deployment := configuration.deployment }
      if (Expression.trim planned.name.toList).isEmpty then
        incompatible workflow jobId "environment name must not be empty"
      else return some planned

def validateDefaults (workflow location : String) (defaults : Defaults) : Outcome Unit :=
  match firstKey defaults.extra with
  | some feature => unsupportedWorkflow workflow
      s!"{location} defaults key '{feature}' is not supported"
  | none =>
      match firstKey defaults.run.extra with
      | some feature => unsupportedWorkflow workflow
          s!"{location} defaults.run key '{feature}' is not supported"
      | none =>
          if (defaults.run.shell.toList ++ defaults.run.workingDirectory.toList).any
              (containsText · expressionMarker) then
            unsupportedWorkflow workflow s!"{location} defaults.run cannot contain expressions"
          else .ok ()

def validateJob (workflow jobId : String) (job : Job) : Outcome Unit :=
  if job.uses.isSome then
    incompatible workflow jobId "reusable workflow call was not linked"
  else if job.runsOn.isNone then
    incompatible workflow jobId "runnable job must define runs-on"
  else if job.container.isSome then
    incompatible workflow jobId "container is not supported yet"
  else if job.services.isSome then
    incompatible workflow jobId "services is not supported yet"
  else if !job.inputs.isEmpty || job.secrets.isSome then
    incompatible workflow jobId "with and secrets are only valid on reusable workflow calls"
  else
    match firstKey job.extra with
    | some feature => incompatible workflow jobId s!"job key '{feature}' is not supported yet"
    | none => .ok ()

/-! ### Dependencies -/

section Dependencies

variable [Serde]

/-- The graph keeps the needs of the first job with a base id. -/
def dependencyGraph (jobs : List PlannedJob) : BTreeMap (List String) :=
  jobs.foldl (fun graph job => graph.insertIfNew job.baseId job.needs) ∅

def checkDependency (workflow : String) (graph : BTreeMap (List String)) (job dependency : String) :
    Outcome Unit :=
  if dependency ∉ graph then incompatible workflow job s!"needs unknown job '{dependency}'"
  else if dependency = job then incompatible workflow job "job cannot need itself"
  else .ok ()

/-- The search never leaves the graph nor its depth bound: see `visitAll_obstacle`. -/
def reportObstacle (workflow : String) : DepthFirst.Obstacle String → Outcome Unit
  | .cycle job => incompatible workflow job "job dependency graph contains a cycle"
  | .missing _ => .error (.panicked "graph index")
  | .exhausted => .error (.panicked "visit does not return")

/-- Every need names a job, and the jobs can be ordered. -/
def validateDependencies (workflow : String) (jobs : List PlannedJob) : Outcome Unit := do
  let graph := dependencyGraph jobs
  graph.toList.forM fun (job, needs) => needs.forM (checkDependency workflow graph job)
  match DepthFirst.visitAll (fun job => graph[job]?) graph.keys with
  | .ok _ => return ()
  | .error obstacle => reportObstacle workflow obstacle

end Dependencies

/-! ### Jobs -/

section Compile

variable [Serde] [Templates]

/-- What `compile` computes once for all the jobs of a workflow. -/
structure CompileContext where
  workflowName : String
  workflowPath : String
  permissions : PlannedPermissions

def instanceId (jobId : String) (hasMatrix : Bool) (matrixIndex : Nat) : String :=
  if hasMatrix then s!"{jobId}[{matrixIndex + 1}]" else jobId

/-- One instance of a job: its index in the matrix and its combination. -/
def compileInstance (context : CompileContext) (workflow : Workflow) (jobId : String) (job : Job)
    (plan : MatrixPlan) (matrixIndex : Nat) (matrix : BTreeMap Json) : Outcome PlannedJob := do
  let hasMatrix := plan.dynamic.isSome || plan.combinations.length > 1 ||
    plan.combinations.any (!·.isEmpty)
  let steps ← compileSteps context.workflowName jobId job.steps
    (job.defaults.run.shell.or workflow.defaults.run.shell)
    (job.defaults.run.workingDirectory.or workflow.defaults.run.workingDirectory)
  let runsOn ← expect "validated runnable job has runs-on" job.runsOn
  let permissions ← plannedPermissions context.workflowName s!"job '{jobId}'" job.permissions
    context.permissions
  let concurrency ← plannedConcurrency context.workflowName s!"job '{jobId}'" job.concurrency
    ["github", "inputs", "vars", "needs", "strategy", "matrix"]
  let deploymentEnvironment ← plannedEnvironment context.workflowName jobId job.environment
  return {
    id := instanceId jobId hasMatrix matrixIndex
    baseId := jobId
    name := job.name.getD jobId
    definingWorkflowPath := context.workflowPath
    needs := job.needs
    needAliases := .ofList (job.needs.map fun dependency => (dependency, dependency))
    condition := job.condition
    runsOn
    reusableInputScopes := []
    reusableSecretScopes := []
    virtualJob := none
    matrix
    dynamicMatrix := plan.dynamic
    matrixFailFast := strategyFailFast job.strategy
    matrixMaxParallel := strategyMaxParallel job.strategy
    strategyJobIndex := job.strategy.map fun _ => matrixIndex
    strategyJobTotal := job.strategy.map fun _ => plan.combinations.length
    continueOnError := job.continueOnError
    timeoutMinutes := job.timeoutMinutes
    permissions
    concurrency
    concurrencyScopeIds := []
    concurrencyAcquire := []
    concurrencyRelease := []
    deploymentEnvironment
    environment := extend workflow.env job.env
    outputs := job.outputs
    steps }

/-- The jobs of one entry: one for each combination of its matrix. -/
def compileJob (context : CompileContext) (workflow : Workflow) (entry : String × Job) :
    Outcome (List PlannedJob) := do
  let (jobId, job) := entry
  validateJob context.workflowName jobId job
  validateDefaults context.workflowName s!"job '{jobId}'" job.defaults
  let plan ← expandMatrix context.workflowName jobId job.strategy
  plan.combinations.zipIdx.mapM fun (matrix, matrixIndex) =>
    compileInstance context workflow jobId job plan matrixIndex matrix

/-- `path.to_string_lossy().replace('\\', "/")` -/
def forwardSlashes (path : String) : String :=
  String.ofList (path.toList.map fun char => if char = '\\' then '/' else char)

/-- A workflow without a name goes by its path. -/
def workflowNameAt (workflow : Workflow) (workflowPath : String) : String :=
  if workflow.name = defaultWorkflowName then workflowPath else workflow.name

/-- A workflow without its calls. -/
def compile (workflow : Workflow) (path : String) : Outcome ExecutionPlan := do
  let workflowPath := forwardSlashes path
  let workflowName := workflowNameAt workflow workflowPath
  match firstKey workflow.extra with
  | some feature =>
      unsupportedWorkflow workflowName s!"top-level key '{feature}' is not supported yet"
  | none =>
      validateDefaults workflowName "workflow" workflow.defaults
      let permissions ← plannedPermissions workflowName "workflow" workflow.permissions
        PlannedPermissions.default
      let concurrency ← plannedConcurrency workflowName "workflow" workflow.concurrency
        ["github", "inputs", "vars"]
      let groups ← workflow.jobs.mapM
        (compileJob { workflowName, workflowPath, permissions } workflow)
      let jobs := groups.flatten
      validateDependencies workflowName jobs
      return { workflowName, workflowPath, concurrency, jobs }

end Compile

end GitZero.Workflows
