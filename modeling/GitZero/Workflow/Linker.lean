/-
Module: GitZero.Workflow.Linker
Purpose: Linking reusable workflows: every calling job is replaced by a gate, the jobs
  of the called plan under the caller's name, and a result.
Trusted boundary: none beyond `Workflow.Compile`
Main exports: CallSite, expandReusableCall, reusableMatrixResult,
  expandDynamicReusableCall, expandTemplate, compileLinkedWorkflow, compileWithReusables
-/
import GitZero.Workflow.Contract
import Mathlib.Algebra.Ring.Nat

namespace GitZero.Workflows

/-! ### Expanding one call -/

/-- `text[bytes..]`: nothing if the offset is behind the end or inside a character. -/
def sliceFrom : List Char → Nat → Option (List Char)
  | text, 0 => some text
  | [], _ + 1 => none
  | char :: rest, bytes + 1 =>
      if char.utf8Size ≤ bytes + 1 then sliceFrom rest (bytes + 1 - char.utf8Size) else none

def byteLength (text : List Char) : Nat := (text.map Char.utf8Size).sum

section Expansion

variable [Serde]

/-- The arguments of `expand_reusable_call`. -/
structure CallSite where
  jobId : String
  placeholder : PlannedJob
  calledPlan : ExecutionPlan
  inputs : BTreeMap PlannedReusableInput
  secrets : PlannedReusableSecretScope
  outputs : BTreeMap String

namespace CallSite

variable (site : CallSite)

def gateId : String := s!"{site.jobId}::gate"

def inputScopes : List PlannedReusableInputScope :=
  site.placeholder.reusableInputScopes ++
    [{ inputs := site.inputs, matrix := site.placeholder.matrix }]

/-- The group of the calling job, then the group of the called workflow. -/
def invocationScopes : List PlannedConcurrencyScope :=
  (site.placeholder.concurrency.map fun configuration =>
    { id := s!"{site.jobId}::caller-concurrency", configuration
      reusableInputScopes := site.placeholder.reusableInputScopes }).toList ++
  (site.calledPlan.concurrency.map fun configuration =>
    { id := s!"{site.jobId}::workflow-concurrency", configuration
      reusableInputScopes := site.inputScopes }).toList

def invocationScopeIds : List String := site.invocationScopes.map (·.id)

def gate : PlannedJob :=
  { site.placeholder with
    id := site.gateId
    baseId := site.gateId
    name := s!"{site.placeholder.name} / reusable workflow gate"
    outputs := ∅
    concurrency := none
    concurrencyScopeIds := site.invocationScopeIds
    concurrencyAcquire := site.invocationScopes
    concurrencyRelease := []
    virtualJob := some .reusableGate }

/-- The called base ids under the name of the call. -/
def aliases : BTreeMap String :=
  .ofList (site.calledPlan.jobs.map fun job => (job.baseId, s!"{site.jobId}::{job.baseId}"))

def publicAliases : BTreeMap String :=
  .ofList (site.aliases.toList.filter fun entry => !containsText entry.1 "::")

def aliasOf (dependency : String) : Outcome String :=
  expect "aliases index" site.aliases[dependency]?

/-- The values of a map through the aliases. -/
def aliasValues (map : BTreeMap String) : Outcome (BTreeMap String) := do
  let entries ← map.toList.mapM fun entry => return (entry.1, ← site.aliasOf entry.2)
  return .ofList entries

def scopeUnder (scopeId : String) : String := s!"{site.jobId}::{scopeId}"

def acquireUnder (scope : PlannedConcurrencyScope) : PlannedConcurrencyScope :=
  { scope with
    id := site.scopeUnder scope.id
    reusableInputScopes := site.inputScopes ++ scope.reusableInputScopes }

def virtualUnder : PlannedVirtualJob → Outcome PlannedVirtualJob
  | .reusableResult jobs outputs => return .reusableResult (← site.aliasValues jobs) outputs
  | .reusableMatrixResult invocations maxParallel failFast =>
      return .reusableMatrixResult (← invocations.mapM site.aliasOf) maxParallel failFast
  | .reusableGate => return .reusableGate
  | .reusableDynamicCall call => return .reusableDynamicCall call

/-- A job of the called plan, under the name of the call. -/
def calledJob (job : PlannedJob) : Outcome PlannedJob := do
  let baseId ← site.aliasOf job.baseId
  let suffix ← expect "byte index" (sliceFrom job.id.toList (byteLength job.baseId.toList))
  let needs ← job.needs.mapM site.aliasOf
  let needAliases ← site.aliasValues job.needAliases
  let virtualJob ← job.virtualJob.mapM site.virtualUnder
  return { job with
    id := baseId ++ String.ofList suffix
    baseId
    name := s!"{site.placeholder.name} / {job.name}"
    permissions := job.permissions.intersect site.placeholder.permissions
    needs := needs ++ [site.gateId]
    needAliases := site.placeholder.needs.foldl
      (fun aliases dependency => aliases.insertIfNew dependency dependency) needAliases
    concurrencyScopeIds :=
      site.invocationScopeIds ++ job.concurrencyScopeIds.map site.scopeUnder
    concurrencyAcquire := job.concurrencyAcquire.map site.acquireUnder
    concurrencyRelease := job.concurrencyRelease.map site.scopeUnder
    reusableInputScopes := site.inputScopes ++ job.reusableInputScopes
    reusableSecretScopes :=
      site.placeholder.reusableSecretScopes ++ [site.secrets] ++ job.reusableSecretScopes
    virtualJob }

def result : PlannedJob :=
  { site.placeholder with
    id := site.jobId
    baseId := site.jobId
    condition := some "$\x7b\x7b always() \x7d\x7d"
    needs := site.publicAliases.toList.map Prod.snd
    needAliases := site.publicAliases
    outputs := ∅
    concurrency := none
    concurrencyScopeIds := site.invocationScopeIds
    concurrencyAcquire := []
    concurrencyRelease := site.invocationScopeIds.reverse
    virtualJob := some (.reusableResult site.publicAliases site.outputs) }

end CallSite

/-- One invocation: its gate, the called jobs, and its result. -/
def expandReusableCall (site : CallSite) : Outcome (List PlannedJob) := do
  let calledJobs ← site.calledPlan.jobs.mapM site.calledJob
  return site.gate :: calledJobs ++ [site.result]

/-- The job that collects the results of all invocations. -/
def reusableMatrixResult (jobId : String) (placeholder : PlannedJob) (invocations : List String) :
    PlannedJob :=
  { placeholder with
    id := jobId
    baseId := jobId
    condition := some "$\x7b\x7b always() \x7d\x7d"
    needs := invocations
    needAliases := .ofList (invocations.map fun invocation => (invocation, invocation))
    matrix := ∅
    dynamicMatrix := none
    matrixMaxParallel := none
    strategyJobIndex := none
    strategyJobTotal := none
    outputs := ∅
    steps := []
    concurrency := none
    concurrencyScopeIds := []
    concurrencyAcquire := []
    concurrencyRelease := []
    virtualJob := some (.reusableMatrixResult invocations
      (max (min (placeholder.matrixMaxParallel.getD invocations.length) invocations.length) 1)
      placeholder.matrixFailFast) }

def invocationId (jobId : String) (index : Nat) : String := s!"{jobId}::matrix-{index + 1}"

def invocationIds (jobId : String) (instances : List PlannedJob) : List String :=
  (List.range instances.length).map (invocationId jobId)

/-- One expansion for each instance of a calling job. -/
def expandInvocations (jobId : String) (instances : List PlannedJob)
    (call : PlannedDynamicReusableCall) : Outcome (List PlannedJob) := do
  let expanded ← instances.zipIdx.mapM fun (placeholder, index) =>
    expandReusableCall {
      jobId := invocationId jobId index, placeholder, calledPlan := call.calledPlan
      inputs := call.inputs, secrets := call.secrets, outputs := call.outputs }
  return expanded.flatten

/-- The invocations of a template and the job that collects their results. -/
def expandDynamicReusableCall (template : PlannedJob) (instances : List PlannedJob)
    (call : PlannedDynamicReusableCall) : Outcome (List PlannedJob) := do
  let expanded ← expandInvocations template.baseId instances call
  return expanded ++
    [reusableMatrixResult template.baseId template (invocationIds template.baseId instances)]

/-- The end of `expand_dynamic_matrix_job` of the executor: one instance of a template
for each combination of its evaluated matrix. -/
def dynamicInstances (template : PlannedJob) (combinations : List (BTreeMap Json)) :
    List PlannedJob :=
  combinations.mapIdx fun index matrix =>
    { template with
      id := s!"{template.baseId}[{index + 1}]"
      matrix
      dynamicMatrix := none
      strategyJobIndex := some index
      strategyJobTotal := some combinations.length }

/-- `execute_base_group` on a dynamic call: the instances run whatever the condition of
their template says. -/
def expandTemplate (template : PlannedJob) (combinations : List (BTreeMap Json))
    (call : PlannedDynamicReusableCall) : Outcome (List PlannedJob) :=
  let instances := (dynamicInstances template combinations).map fun job =>
    { job with condition := some "$\x7b\x7b always() \x7d\x7d" }
  expandDynamicReusableCall { template with matrix := ∅ } instances call

/-- The jobs of a run once a template is expanded. -/
def replaceTemplate (jobs : List PlannedJob) (template : PlannedJob)
    (expanded : List PlannedJob) : List PlannedJob :=
  jobs.filter (fun job => job.baseId ≠ template.baseId) ++ expanded

/-- The choice of `compile_linked_workflow` between a template, one expansion, and one
expansion for each combination of a static matrix. -/
def expandCall (workflow jobId : String) (instances : List PlannedJob)
    (call : PlannedDynamicReusableCall) : Outcome (List PlannedJob) :=
  if instances.any (·.dynamicMatrix.isSome) then
    match instances with
    | [template] => .ok [{ template with virtualJob := some (.reusableDynamicCall call) }]
    | _ => incompatible workflow jobId
        "dynamic reusable-call matrix produced multiple templates"
  else
    match instances with
    | [placeholder] => expandReusableCall {
        jobId, placeholder, calledPlan := call.calledPlan
        inputs := call.inputs, secrets := call.secrets, outputs := call.outputs }
    | instances => do
        let expanded ← expandInvocations jobId instances call
        let first ← expect "index out of bounds" instances.head?
        return expanded ++ [reusableMatrixResult jobId first (invocationIds jobId instances)]

end Expansion

/-! ### Linking a workflow -/

def maxReusableWorkflowLevels : Nat := 10

def maxUniqueReusableWorkflows : Nat := 50

section Linking

variable [Serde]

def callsOf (workflow : Workflow) : BTreeMap Job :=
  .ofList (workflow.jobs.filter fun entry => entry.2.uses.isSome)

/-- A calling job as `compile` sees it. -/
def placeholderOf (job : Job) : Job :=
  if job.uses.isSome then
    { job with
      runsOn := some (.string "macos-latest")
      uses := none
      inputs := ∅
      secrets := none
      steps := [] }
  else job

def rootOf (workflow : Workflow) : Workflow :=
  { workflow with
    jobs := workflow.jobs.map fun entry => (entry.1, placeholderOf entry.2)
    distinct := by simpa [Function.comp_def] using workflow.distinct }

def groupPlaceholders (calls : BTreeMap Job) (jobs : List PlannedJob) :
    BTreeMap (List PlannedJob) :=
  (jobs.filter fun job => job.baseId ∈ calls).foldl
    (fun groups job =>
      groups.alter job.baseId fun group => some (group.getD [] ++ [job])) ∅

/-- The state of the loop that links the jobs of a plan in order. -/
structure LinkState where
  linked : List PlannedJob := []
  replaced : Finset String := ∅
  expansions : BTreeMap (List PlannedJob)

def linkJob (calls : BTreeMap Job) (state : LinkState) (job : PlannedJob) : Outcome LinkState :=
  if job.baseId ∈ calls then
    if job.baseId ∈ state.replaced then .ok state
    else do
      let expansion ← expect "call expansion exists" state.expansions[job.baseId]?
      return { linked := state.linked ++ expansion
               replaced := insert job.baseId state.replaced
               expansions := state.expansions.erase job.baseId }
  else .ok { state with linked := state.linked ++ [job] }

/-- `compile_linked_workflow` on a called workflow: its path, the call stack and the set
of called workflows. -/
abbrev Descend := Workflow → String → List String → Finset String →
  Outcome (ExecutionPlan × Finset String)

def checkLimits (workflow jobId path : String) (callStack : List String)
    (calledWorkflows : Finset String) (below : Option Descend) : Outcome Descend :=
  if calledWorkflows.card > maxUniqueReusableWorkflows then
    incompatible workflow jobId
      s!"workflow tree calls more than {maxUniqueReusableWorkflows} unique reusable workflows"
  else
    match below with
    | none => incompatible workflow jobId
        s!"reusable workflow nesting exceeds {maxReusableWorkflowLevels} total workflow levels"
    | some descend =>
        if path ∈ callStack then
          let cycle := " -> ".intercalate (callStack ++ [path])
          incompatible workflow jobId s!"reusable workflow call cycle: {cycle}"
        else .ok descend

/-- One round of the loop over the calls of a workflow.  `below` is missing at the last
workflow level. -/
def linkCall (reusableWorkflows : BTreeMap Workflow) (below : Option Descend)
    (workflow : Workflow) (placeholders : BTreeMap (List PlannedJob)) (callStack : List String)
    (state : Finset String × BTreeMap (List PlannedJob)) (entry : String × Job) :
    Outcome (Finset String × BTreeMap (List PlannedJob)) := do
  let (jobId, call) := entry
  let instances ← expect "compiled call placeholder" placeholders[jobId]?
  let uses ← expect "call has uses" call.uses
  let path ← reusablePath workflow.name jobId uses reusableWorkflows
  let calledWorkflows := insert path state.1
  let descend ← checkLimits workflow.name jobId path callStack calledWorkflows below
  match reusableWorkflows[path]? with
  | none =>
      incompatible workflow.name jobId s!"local reusable workflow '{path}' was not found"
  | some called =>
      let contract ← reusableContract workflow.name jobId called
      let inputs ← bindReusableInputs workflow.name jobId call contract
      let secrets ← bindReusableSecrets workflow.name jobId call contract
      let (calledPlan, calledWorkflows) ←
        descend called path (callStack ++ [path]) calledWorkflows
      if calledPlan.jobs.isEmpty then
        incompatible workflow.name jobId "reusable workflow must contain at least one job"
      else
        let expansion ← expandCall workflow.name jobId instances
          { calledPlan, inputs, secrets, outputs := contract.outputs }
        return (calledWorkflows, state.2.insert jobId expansion)

variable [Templates]

def linkWorkflow (reusableWorkflows : BTreeMap Workflow) (below : Option Descend) : Descend :=
  fun workflow path callStack calledWorkflows => do
    let calls := callsOf workflow
    if calls.isEmpty then return (← compile workflow path, calledWorkflows)
    else
      calls.toList.forM fun entry => validateReusableCallJob workflow.name entry.1 entry.2
      let plan ← compile (rootOf workflow) path
      let placeholders := groupPlaceholders calls plan.jobs
      let (calledWorkflows, expansions) ← calls.toList.foldlM
        (linkCall reusableWorkflows below workflow placeholders callStack)
        (calledWorkflows, ∅)
      let state ← plan.jobs.foldlM (linkJob calls) { expansions }
      validateDependencies plan.workflowName state.linked
      return ({ plan with jobs := state.linked }, calledWorkflows)

/-- `compile_linked_workflow`, by the number of workflow levels below the current one. -/
def compileLinkedWorkflow (reusableWorkflows : BTreeMap Workflow) : Nat → Descend
  | 0 => linkWorkflow reusableWorkflows none
  | levels + 1 =>
      linkWorkflow reusableWorkflows (some (compileLinkedWorkflow reusableWorkflows levels))

/-- A workflow with its calls, down to the permitted depth. -/
def compileWithReusables (workflow : Workflow) (path : String)
    (reusableWorkflows : BTreeMap Workflow) : Outcome ExecutionPlan := do
  let (plan, _) ← compileLinkedWorkflow reusableWorkflows (maxReusableWorkflowLevels - 1)
    workflow path [] ∅
  return plan

end Linking

end GitZero.Workflows
