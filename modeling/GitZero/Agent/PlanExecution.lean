/-
Module: GitZero.Agent.PlanExecution
Purpose: The loop of `execute_plan_inner`: bases that wait, run and complete, templates that are
  replaced by their expansion, and matrices of reusable calls with a bound and with fail-fast.
Trusted boundary: what a base group returns, and when, is data of the events
Main exports: ReusableMatrixRuntime, PlanRun, PlanOccurrence, beginPlan, planAdvance,
  executePlanInner
-/
import GitZero.Agent.Schedule
import GitZero.Lib.Machine
import GitZero.Workflow.Names

namespace GitZero.Agent

open Workflows

section PlanExecution

variable [Serde]

/-! ### Matrices of reusable calls -/

/-- The counters of one expanded matrix call: which of its invocations have started, are active or
failed, under its two strategy values. -/
structure ReusableMatrixRuntime where
  invocations : List String
  maxParallel : Nat
  failFast : Bool
  active : BTreeSet := ∅
  started : BTreeSet := ∅
  failed : Bool := false
  /-- The value of the watch channel `cancel`. -/
  cancelled : Bool := false

/-- `format!("{invocation}::gate")`. -/
def gateOf (invocation : String) : String := under invocation "gate"

/-- `base_id == invocation`, or what is behind `invocation` starts with `::`. -/
def isWithin (invocation baseId : String) : Bool :=
  baseId = invocation || (invocation ++ "::").toList.isPrefixOf baseId.toList

def runtimeOf (job : PlannedJob) : Option (String × ReusableMatrixRuntime) :=
  match job.virtualJob with
  | some (.reusableMatrixResult invocations maxParallel failFast) =>
      some (job.baseId, { invocations, maxParallel, failFast })
  | _ => none

def reusableMatrixRuntimes (jobs : List PlannedJob) : BTreeMap ReusableMatrixRuntime :=
  .ofList (jobs.filterMap runtimeOf)

def ReusableMatrixRuntime.admits (group : ReusableMatrixRuntime) (baseId : String) : Bool :=
  if group.invocations.any (fun invocation => baseId = gateOf invocation) then
    !group.failed && group.active.size < group.maxParallel
  else true

def reusableMatrixGateCanStart (groups : BTreeMap ReusableMatrixRuntime) (baseId : String) : Bool :=
  groups.toList.all fun entry => entry.2.admits baseId

def ReusableMatrixRuntime.start (group : ReusableMatrixRuntime) (baseId : String) :
    ReusableMatrixRuntime :=
  match group.invocations.find? fun invocation => baseId = gateOf invocation with
  | some invocation =>
      { group with
        started := group.started.insert invocation
        active := group.active.insert invocation }
  | none => group

def startReusableMatrixInvocation (groups : BTreeMap ReusableMatrixRuntime) (baseId : String) :
    BTreeMap ReusableMatrixRuntime :=
  groups.map fun _ group => group.start baseId

/-- The groups whose cancellation reaches a base. -/
def reusableMatrixCancellations (groups : BTreeMap ReusableMatrixRuntime) (baseId : String) :
    List String :=
  (groups.toList.filter fun entry =>
    entry.2.active.toList.any fun invocation => isWithin invocation baseId).map Prod.fst

/-- The end of the invocation fails its group, for the first time. -/
def ReusableMatrixRuntime.failsWith (group : ReusableMatrixRuntime) (baseId : String)
    (conclusion : JobConclusion) : Bool :=
  group.invocations.contains baseId && conclusion.failed && group.failFast && !group.failed

def ReusableMatrixRuntime.finish (group : ReusableMatrixRuntime) (baseId : String)
    (conclusion : JobConclusion) : ReusableMatrixRuntime :=
  { group with
    active := if group.invocations.contains baseId then group.active.erase baseId else group.active
    failed := group.failed || group.failsWith baseId conclusion
    cancelled := group.cancelled || group.failsWith baseId conclusion }

/-- The groups afterwards, and those that have failed now. -/
def finishReusableMatrixInvocation (groups : BTreeMap ReusableMatrixRuntime) (baseId : String)
    (conclusion : JobConclusion) : BTreeMap ReusableMatrixRuntime × List String :=
  (groups.map fun _ group => group.finish baseId conclusion,
    (groups.toList.filter fun entry => entry.2.failsWith baseId conclusion).map Prod.fst)

/-- The invocations of a group that fail-fast leaves out. -/
def ReusableMatrixRuntime.unstarted (group : ReusableMatrixRuntime) : List String :=
  group.invocations.filter fun invocation => !group.started.contains invocation

/-! ### The state of the loop -/

/-- How `execute_plan_inner` fails: with the error of a base group or of a report, or by itself. -/
inductive PlanFailure where
  | error (message : String)
  | runCancelled
  | noProgress
  | scopesHeld
deriving Repr, DecidableEq

def PlanFailure.message : PlanFailure → String
  | .error message => message
  | .runCancelled => "run cancelled"
  | .noProgress => "workflow job dependency graph could not make progress"
  | .scopesHeld => "reusable workflow concurrency scopes did not reach their release gates"

/-- A future of `running_bases`, with what it was given at its start. -/
structure RunningBase where
  baseId : String
  jobs : List PlannedJob
  completed : Completed
  completionOrder : List String
  /-- The matrices whose cancellation it observes. -/
  groups : List String
  /-- The concurrency scopes whose cancellation it observes. -/
  scopes : List String

/-- The local variables of `execute_plan` between two turns of its loop. -/
structure PlanRun where
  jobs : List PlannedJob
  /-- In the order in which they were first seen; `seen` holds the same ids. -/
  baseOrder : List String
  completed : Completed := {}
  completionOrder : List String := []
  pendingBases : BTreeSet
  reusableMatrices : BTreeMap ReusableMatrixRuntime
  activeConcurrencyScopes : BTreeSet := ∅
  runningBases : List RunningBase := []
  completedSteps : Nat := 0
  cancellationError : Option String := none
  /-- The gates reported by `report_skipped`, with their names. -/
  skipReports : List (String × String) := []
  /-- The value of the watch channel `cancel` of the run. -/
  cancelled : Bool := false
  /-- The receiver of the events is gone, so that `report_skipped` fails. -/
  outboundClosed : Bool := false
  returned : Option (Except PlanFailure PlanExecution) := none

namespace PlanRun

def job? (run : PlanRun) (baseId : String) : Option PlannedJob :=
  run.jobs.find? (·.baseId = baseId)

/-- The filters of the loop. A base that waits has a job, which `expect` relies on. -/
def isReady (run : PlanRun) (baseId : String) : Bool :=
  run.pendingBases.contains baseId &&
    reusableMatrixGateCanStart run.reusableMatrices baseId &&
    (run.job? baseId).any fun job => job.needs.all run.completed.bases.contains

/-- `concurrency_scope_cancellations`. -/
def scopeCancellations (run : PlanRun) (jobs : List PlannedJob) : List String :=
  (jobs.flatMap (·.concurrencyScopeIds)).filter run.activeConcurrencyScopes.contains

/-- The body of the loop over the ready bases: a bound of a matrix that is reached by the bases
before it holds a gate back. -/
def startBase (run : PlanRun) (baseId : String) : PlanRun :=
  if reusableMatrixGateCanStart run.reusableMatrices baseId then
    let groups := startReusableMatrixInvocation run.reusableMatrices baseId
    let jobs := run.jobs.filter (·.baseId = baseId)
    { run with
      pendingBases := run.pendingBases.erase baseId
      reusableMatrices := groups
      runningBases := run.runningBases ++ [{
        baseId, jobs
        completed := run.completed
        completionOrder := run.completionOrder
        groups := reusableMatrixCancellations groups baseId
        scopes := run.scopeCancellations jobs }] }
  else run

def startReady (run : PlanRun) : PlanRun :=
  (run.baseOrder.filter run.isReady).foldl startBase run

/-- The public bases with a conclusion, in the order of their ids. -/
def planExecution (run : PlanRun) (plan : ExecutionPlan) : PlanExecution :=
  Agent.planExecution plan run.completed.bases

/-- No future is left while bases are missing. -/
def emptyFailure (run : PlanRun) : PlanFailure :=
  match run.cancellationError with
  | some error => .error error
  | none => if run.cancelled then .runCancelled else .noProgress

/-- A cancelled run starts nothing. -/
def startRound (run : PlanRun) : PlanRun := if run.cancelled then run else run.startReady

/-- `running_bases.next().await`, which returns at once when no future is left. -/
def awaitNext (run : PlanRun) : PlanRun :=
  if run.runningBases.isEmpty then { run with returned := some (.error run.emptyFailure) } else run

/-- Behind the loop.  Scopes that are still held are released first; an error of that release
comes before the error about the scopes in the source, and is not told apart from it here. -/
def leaveLoop (plan : ExecutionPlan) (run : PlanRun) : PlanRun :=
  if run.activeConcurrencyScopes.isEmpty then
    { run with returned := some (.ok (run.planExecution plan)) }
  else
    { run with
      activeConcurrencyScopes := ∅
      returned := some (.error .scopesHeld) }

/-- From the head of the loop to its `await`, or to the end. -/
def loopHead (plan : ExecutionPlan) (run : PlanRun) : PlanRun :=
  if run.completed.bases.size < run.baseOrder.length then run.startRound.awaitNext
  else run.leaveLoop plan

/-! ### The end of a base -/

def see (run : PlanRun) (baseId : String) : PlanRun :=
  { run with
    baseOrder := if run.baseOrder.contains baseId then run.baseOrder else run.baseOrder ++ [baseId]
    pendingBases := run.pendingBases.insert baseId }

/-- The jobs of an expansion take the place of their template. -/
def expand (run : PlanRun) (templateBase : String) (expandedJobs : List PlannedJob) : PlanRun :=
  let jobs := run.jobs.filter (·.baseId ≠ templateBase) ++ expandedJobs
  let replaced := { run with jobs }
  let seen := (expandedJobs.map (·.baseId)).eraseDups.foldl see replaced
  { seen with
    reusableMatrices := (reusableMatrixRuntimes jobs).toList.foldl
      (fun groups entry => groups.insertIfNew entry.1 entry.2) run.reusableMatrices }

def conclude (run : PlanRun) (baseId : String) (conclusion : JobConclusion)
    (outputs : BTreeMap String) : PlanRun :=
  { run with
    completed := {
      bases := run.completed.bases.insert baseId conclusion
      outputs := run.completed.outputs.insert baseId outputs }
    completionOrder := run.completionOrder ++ [baseId] }

/-- `if pending_bases.remove(skipped)`. -/
def skipBase (run : PlanRun) (baseId : String) : PlanRun :=
  if run.pendingBases.contains baseId then
    conclude { run with pendingBases := run.pendingBases.erase baseId } baseId .skipped ∅
  else run

/-- `report_skipped` on the gate of an invocation that is left out. -/
def reportGate (run : PlanRun) (invocation : String) : Except String PlanRun :=
  match run.job? (gateOf invocation) with
  | some gate =>
      if run.pendingBases.contains (gateOf invocation) then
        if run.outboundClosed then .error "control plane event channel closed"
        else .ok { run with
          skipReports := run.skipReports ++ [(gateOf invocation, gate.name)] }
      else .ok run
  | none => .ok run

def skipInvocation (run : PlanRun) (invocation : String) : Except String PlanRun := do
  let reported ← run.reportGate invocation
  return (reported.baseOrder.filter (isWithin invocation)).foldl skipBase reported

def skipGroup (run : PlanRun) (groupId : String) : Except String PlanRun :=
  match run.reusableMatrices[groupId]? with
  | some group => group.unstarted.foldlM skipInvocation run
  | none => .error "no entry found for key"

end PlanRun

/-- What `execute_base_group` returns: a template returns the jobs that replace it. -/
structure GroupExecution extends BaseExecution where
  expandedJobs : List PlannedJob := []

/-- The end of a base. -/
structure BaseEnd where
  baseId : String
  execution : Except String GroupExecution
  /-- A concurrency scope that the base is in has been cancelled. -/
  scopeCancelled : Bool := false
  /-- The base had seen a cancellation that is not that of the run. -/
  interrupted : Bool := false

namespace PlanRun

/-- A source of the effective cancellation of a base has been cancelled. -/
def reached (run : PlanRun) (base : RunningBase) (ended : BaseEnd) : Bool :=
  run.cancelled || (ended.scopeCancelled && !base.scopes.isEmpty) ||
    base.groups.any fun group => (run.reusableMatrices[group]?).any (·.cancelled)

/-- An error behind a cancellation that is not that of the run counts as a cancelled base. -/
def settledExecution (run : PlanRun) (base : RunningBase) (ended : BaseEnd) :
    Except String GroupExecution :=
  match ended.execution with
  | .error error =>
      if ended.interrupted && run.reached base ended then
        .ok { conclusion := .cancelled, completedSteps := 0, outputs := ∅ }
      else .error error
  | .ok execution => .ok execution

/-- The future that has ended is taken out of `running_bases`; others stay, even of its id. -/
def depart (run : PlanRun) (baseId : String) : PlanRun :=
  { run with runningBases := run.runningBases.eraseP (·.baseId = baseId) }

/-- The result of a base is stored, and the matrices that it is an invocation of go on. -/
def finishBase (run : PlanRun) (baseId : String) (execution : BaseExecution) : PlanRun :=
  { run.conclude baseId execution.conclusion execution.outputs with
    completedSteps := run.completedSteps + execution.completedSteps
    reusableMatrices :=
      (finishReusableMatrixInvocation run.reusableMatrices baseId execution.conclusion).1 }

def failedGroups (run : PlanRun) (baseId : String) (execution : BaseExecution) : List String :=
  (finishReusableMatrixInvocation run.reusableMatrices baseId execution.conclusion).2

def completeBase (run : PlanRun) (baseId : String) (execution : GroupExecution) :
    Except String PlanRun :=
  if execution.expandedJobs.isEmpty then
    (run.failedGroups baseId execution.toBaseExecution).foldlM skipGroup
      (run.finishBase baseId execution.toBaseExecution)
  else .ok (run.expand baseId execution.expandedJobs)

/-- What the loop makes of the next base that ends. -/
def settleBase (plan : ExecutionPlan) (run : PlanRun) (base : RunningBase) (ended : BaseEnd) :
    PlanRun :=
  match run.settledExecution base ended with
  | .error error =>
      if run.cancelled then
        loopHead plan { run.depart base.baseId with
          cancellationError := some (run.cancellationError.getD error) }
      else { run.depart base.baseId with returned := some (.error (.error error)) }
  | .ok execution =>
      match (run.depart base.baseId).completeBase base.baseId execution with
      | .ok next => loopHead plan next
      | .error error => { run.depart base.baseId with returned := some (.error (.error error)) }

end PlanRun

/-! ### The run of a plan -/

/-- Between two ends of bases: the run is cancelled, the receiver of the events goes away, and
running bases acquire and release the concurrency scopes of their job. -/
inductive PlanOccurrence where
  | cancel
  | closeOutbound
  | acquire (baseId scope : String)
  | release (baseId : String)
  | ended (base : BaseEnd)

def RunningBase.acquires (base : RunningBase) (scope : String) : Bool :=
  base.jobs.head?.any fun job => job.concurrencyAcquire.any (·.id = scope)

def RunningBase.releases (base : RunningBase) : List String :=
  (base.jobs.head?.map (·.concurrencyRelease)).getD []

def PlanRun.running? (run : PlanRun) (baseId : String) : Option RunningBase :=
  run.runningBases.find? (·.baseId = baseId)

/-- An occurrence while the loop waits; a base that is not running has nothing to do. -/
def PlanRun.react (plan : ExecutionPlan) (run : PlanRun) : PlanOccurrence → PlanRun
  | .cancel => { run with cancelled := true }
  | .closeOutbound => { run with outboundClosed := true }
  | .acquire baseId scope =>
      match run.running? baseId with
      | some base =>
          if base.acquires scope then
            { run with activeConcurrencyScopes := run.activeConcurrencyScopes.insert scope }
          else run
      | none => run
  | .release baseId =>
      match run.running? baseId with
      | some base =>
          { run with
            activeConcurrencyScopes :=
              base.releases.foldl (fun scopes scope => scopes.erase scope)
                run.activeConcurrencyScopes }
      | none => run
  | .ended ended =>
      match run.running? ended.baseId with
      | some base => run.settleBase plan base ended
      | none => run

/-- One turn of `execute_plan`, unless it has returned. -/
def planAdvance (plan : ExecutionPlan) (run : PlanRun) (occurrence : PlanOccurrence) : PlanRun :=
  if run.returned.isSome then run else run.react plan occurrence

/-- The loop before its first `await`; `cancelled` tells that the run is cancelled already. -/
def beginPlan (plan : ExecutionPlan) (cancelled : Bool) : PlanRun :=
  PlanRun.loopHead plan {
    jobs := plan.jobs
    baseOrder := baseOrder plan
    pendingBases := .ofList (baseOrder plan)
    reusableMatrices := reusableMatrixRuntimes plan.jobs
    cancelled }

/-- `execute_plan_inner`. -/
def executePlanInner (plan : ExecutionPlan) (cancelled : Bool) (occurrences : List PlanOccurrence) :
    PlanRun :=
  Machine.run (planAdvance plan) (beginPlan plan cancelled) occurrences

end PlanExecution

end GitZero.Agent
