/-
Module: GitZero.Agent.Schedule
Purpose: The schedule of a plan: which base jobs start, what each is started with, and how the
  results of its instances become the result of the base.
Trusted boundary: expression evaluation and the steps of a job, parameters; the schedule is that of
  plans without reusable-call matrices and without concurrency groups, in a run that is not
  cancelled
Main exports: StartContext, Evaluations, executeBaseGroup, PlanState, PlanEvent, planStep,
  executePlan
-/
import GitZero.Agent.Conclusions
import GitZero.Lib.Outcomes
import GitZero.Workflow.Linker
import Mathlib.Algebra.Ring.Nat

namespace GitZero.Agent

open Workflows
open Expression (ExecutionStatus)

def JobConclusion.asGithubResult : JobConclusion → String
  | .success => "success"
  | .failure => "failure"
  | .timedOut => "failure"
  | .cancelled => "cancelled"
  | .skipped => "skipped"

/-! ### What a job is started with -/

/-- The results of the bases that have completed. -/
structure Completed where
  bases : BTreeMap JobConclusion := ∅
  outputs : BTreeMap (BTreeMap String) := ∅

/-- `completed_bases[id]` and `completed_outputs[id]`, which panic on an unknown base. -/
def Completed.result (completed : Completed) (id : String) :
    Except String (JobConclusion × BTreeMap String) :=
  match completed.bases[id]?, completed.outputs[id]? with
  | some conclusion, some outputs => .ok (conclusion, outputs)
  | _, _ => .error "no entry found for key"

/-- An entry of the contexts `needs` and `jobs`. -/
structure NeedEntry where
  alias_ : String
  result : String
  outputs : BTreeMap String

def needEntry (completed : Completed) (entry : String × String) : Except String NeedEntry := do
  let (conclusion, outputs) ← completed.result entry.2
  return { alias_ := entry.1, result := conclusion.asGithubResult, outputs }

def needEntries (completed : Completed) (aliases : BTreeMap String) :
    Except String (List NeedEntry) :=
  aliases.toList.mapM (needEntry completed)

def dependencyStatusOf (conclusions : List JobConclusion) : ExecutionStatus :=
  if conclusions.any (· = .cancelled) then .cancelled
  else if conclusions.any (·.failed) then .failure
  else if conclusions.any (· = .skipped) then .skipped
  else .success

def dependencyStatus (completed : Completed) (needs : List String) :
    Except String ExecutionStatus := do
  let results ← needs.mapM completed.result
  return dependencyStatusOf (results.map Prod.fst)

section Schedule

variable [Serde]

/-- The parts of an evaluation context that differ between the starts of one job: the rest is
made of the run, the workspace and the job. -/
structure StartContext (Inputs : Type) where
  needs : List NeedEntry
  status : ExecutionStatus
  inputs : Inputs

/-- What a job returns. -/
structure JobExecution where
  conclusion : JobConclusion
  completedSteps : Nat
  outputs : BTreeMap String

/-- What the expressions of a job evaluate to and what its steps do, as functions of the job
and of the context that it is started with. -/
structure Evaluations (Inputs : Type) where
  emptyInputs : Inputs
  resolveReusableInputs : PlannedJob → StartContext Inputs → Except String Inputs
  containsStatusFunction : String → Bool
  evaluateCondition : PlannedJob → StartContext Inputs → String → Except String Bool
  expandMatrix : PlannedJob → StartContext Inputs → Except String (List (BTreeMap Json))
  /-- An output of a reusable workflow; the second list is the context `jobs`. -/
  renderOutput : PlannedJob → StartContext Inputs → List NeedEntry → String → Except String String
  executeJob : PlannedJob → StartContext Inputs → Except String JobExecution

variable {Inputs : Type} (evaluations : Evaluations Inputs)

/-- The context of a job, less its inputs. -/
def startContext (completed : Completed) (job : PlannedJob) (inputs : Inputs) :
    Except String (StartContext Inputs) := do
  let status ← dependencyStatus completed job.needs
  let needs ← needEntries completed job.needAliases
  return { needs, status, inputs }

def conditionAllows (job : PlannedJob) (context : StartContext Inputs) : Except String Bool :=
  match job.condition with
  | none => .ok (context.status = .success)
  | some condition =>
      if context.status ≠ .success && !evaluations.containsStatusFunction condition then .ok false
      else evaluations.evaluateCondition job context condition

/-! ### Virtual jobs -/

/-- What all jobs of a base return together. -/
structure BaseExecution where
  conclusion : JobConclusion
  completedSteps : Nat
  outputs : BTreeMap String

def BaseExecution.skipped : BaseExecution where
  conclusion := .skipped
  completedSteps := 0
  outputs := ∅

/-- The outputs of a matrix of calls: later completions win. -/
def mergeInvocation (outputs : BTreeMap String) (invocation : BTreeMap String) : BTreeMap String :=
  invocation.toList.foldl (fun outputs (name, value) =>
    if value.isEmpty then outputs.insertIfNew name "" else outputs.insert name value) outputs

def executeVirtualJob (completed : Completed) (completionOrder : List String) (job : PlannedJob)
    (context : StartContext Inputs) : PlannedVirtualJob → Except String BaseExecution
  | .reusableGate => .ok { conclusion := .success, completedSteps := 0, outputs := ∅ }
  | .reusableResult jobs outputs => do
      let results ← jobs.toList.mapM fun entry => completed.result entry.2
      let entries ← needEntries completed jobs
      let rendered ← outputs.toList.mapM fun (name, value) => do
        return (name, ← evaluations.renderOutput job context entries value)
      return {
        conclusion := aggregateConclusions (results.map Prod.fst)
        completedSteps := 0
        outputs := (∅ : BTreeMap String).insertMany rendered }
  | .reusableMatrixResult invocations _ _ => do
      let results ← invocations.mapM completed.result
      let ordered := completionOrder.filter invocations.contains
      let rest := invocations.filter fun invocation => !ordered.contains invocation
      let merged ← (ordered ++ rest.eraseDups).foldlM (fun outputs invocation => do
        let (conclusion, values) ← completed.result invocation
        return if conclusion = .success then mergeInvocation outputs values else outputs) ∅
      return {
        conclusion := aggregateConclusions (results.map Prod.fst)
        completedSteps := 0
        outputs := merged }
  | .reusableDynamicCall _ =>
      .error "dynamic reusable calls expand before generic virtual execution"

/-! ### The instances of a base -/

/-- The end of an instance; `interrupted` tells that the failure of another one has reached it
before it began or while it ran. -/
structure InstanceEvent where
  index : Nat
  interrupted : Option JobExecution := none

/-- What the jobs of one base share: the strategy value `fail-fast`, and who has returned. -/
structure GroupState where
  failFast : Bool := false
  executions : Std.ExtTreeMap Nat JobExecution compare := ∅

def instanceExecution (context : PlannedJob → Except String (StartContext Inputs))
    (state : GroupState) (job : PlannedJob) (event : InstanceEvent) :
    Except String JobExecution :=
  match event.interrupted with
  | some execution =>
      if state.failFast then .ok execution else .error "no fail-fast failure so far"
  | none => do
      let started ← context job
      evaluations.executeJob job started

def groupStep (instances : List PlannedJob)
    (context : PlannedJob → Except String (StartContext Inputs)) (state : GroupState)
    (event : InstanceEvent) : Except String GroupState :=
  match instances[event.index]? with
  | none => .error "no such instance"
  | some job => do
      let execution ← instanceExecution evaluations context state job event
      return {
        failFast := state.failFast || (execution.conclusion.failed && job.matrixFailFast)
        executions := state.executions.insert event.index execution }

/-- The executions of a base in the order of its instances. -/
def mergeExecutions (executions : List JobExecution) : BaseExecution where
  conclusion := aggregateConclusions (executions.map (·.conclusion))
  completedSteps := (executions.map (·.completedSteps)).sum
  outputs := executions.foldl (fun outputs execution =>
    outputs.insertMany execution.outputs.toList) ∅

/-- Every instance ends once, in the order of the events. -/
def executeInstances (instances : List PlannedJob)
    (context : PlannedJob → Except String (StartContext Inputs)) (events : List InstanceEvent) :
    Except String BaseExecution := do
  if (events.map (·.index)).isPerm (List.range instances.length) then
    let ended ← events.foldlM (groupStep evaluations instances context) {}
    return mergeExecutions ((List.range instances.length).filterMap fun index =>
      ended.executions[index]?)
  else .error "the base has not completed"

def alwaysCondition : String := "$\x7b\x7b always() \x7d\x7d"

/-- The instances of a base: a dynamic matrix is expanded when the base starts. -/
def expandInstances (completed : Completed) (inputs : Inputs) (first : PlannedJob)
    (others : List PlannedJob) : Except String (List PlannedJob) :=
  if first.dynamicMatrix.isSome then
    match others with
    | [] => do
        let context ← startContext completed first inputs
        let combinations ← evaluations.expandMatrix first context
        return dynamicInstances first combinations
    | _ => .error "dynamic matrix job has multiple templates"
  else .ok (first :: others)

/-- A base whose condition holds. -/
def executeAllowed (completed : Completed) (completionOrder : List String) (first : PlannedJob)
    (others : List PlannedJob) (context : StartContext Inputs) (events : List InstanceEvent) :
    Except String BaseExecution :=
  match first.virtualJob with
  | some virtualJob =>
      executeVirtualJob evaluations completed completionOrder { first with matrix := ∅ } context
        virtualJob
  | none => do
      let expanded ← expandInstances evaluations completed context.inputs first others
      let running := expanded.map fun job => { job with condition := some alwaysCondition }
      if running.isEmpty then .error "base job has no instances"
      else executeInstances evaluations running (startContext completed · context.inputs) events

/-- `execute_base_group` on the jobs of a base. -/
def executeBaseGroup (completed : Completed) (completionOrder : List String)
    (instances : List PlannedJob) (events : List InstanceEvent) : Except String BaseExecution :=
  match instances with
  | [] => .error "base job has no instances"
  | first :: others => do
      let template := { first with matrix := ∅ }
      let bare ← startContext completed template evaluations.emptyInputs
      let inputs ← evaluations.resolveReusableInputs template bare
      let context := { bare with inputs }
      let allowed ← conditionAllows evaluations template context
      if allowed then
        executeAllowed evaluations completed completionOrder first others context events
      else return .skipped

/-! ### The schedule -/

/-- The plan between two turns of the schedule: what has completed, what waits, and what runs with
the results it was started with. -/
structure PlanState where
  completed : Completed := {}
  completionOrder : List String := []
  pending : List String
  running : List (String × Completed × List String) := []
  completedSteps : Nat := 0

/-- The bases of a plan in the order of its jobs. -/
def baseOrder (plan : ExecutionPlan) : List String := (plan.jobs.map (·.baseId)).eraseDups

def instancesOf (plan : ExecutionPlan) (baseId : String) : List PlannedJob :=
  plan.jobs.filter (·.baseId = baseId)

def ready (plan : ExecutionPlan) (completed : Completed) (baseId : String) : Bool :=
  match instancesOf plan baseId with
  | [] => false
  | first :: _ => first.needs.all fun dependency => completed.bases.contains dependency

/-- Each ready base is started with the results so far. -/
def startReady (plan : ExecutionPlan) (state : PlanState) : PlanState :=
  let started := state.pending.filter (ready plan state.completed)
  { state with
    pending := state.pending.filter fun baseId => !ready plan state.completed baseId
    running := state.running ++
      started.map fun baseId => (baseId, state.completed, state.completionOrder) }

/-- A base completes, its instances in some order. -/
structure PlanEvent where
  baseId : String
  instances : List InstanceEvent

/-- One round of the loop of `execute_plan_inner`. -/
def planStep (plan : ExecutionPlan) (state : PlanState) (event : PlanEvent) :
    Except String PlanState := do
  let state := startReady plan state
  match state.running.find? (·.1 = event.baseId) with
  | none => .error "workflow job dependency graph could not make progress"
  | some (baseId, completed, completionOrder) =>
      let execution ← executeBaseGroup evaluations completed completionOrder
        (instancesOf plan baseId) event.instances
      return { state with
        completed := {
          bases := state.completed.bases.insert baseId execution.conclusion
          outputs := state.completed.outputs.insert baseId execution.outputs }
        completionOrder := state.completionOrder ++ [baseId]
        running := state.running.filter (·.1 ≠ baseId)
        completedSteps := state.completedSteps + execution.completedSteps }

/-- The jobs of a completed plan that make it fail, time out or be cancelled. -/
structure PlanExecution where
  failedJobs : List String
  timedOutJobs : List String
  cancelledJobs : List String
deriving DecidableEq

/-- `!job.contains("::")`. -/
def isPublic (baseId : String) : Bool := !containsText baseId "::"

/-- The public bases with a conclusion, in the order of their ids. -/
def concluded (plan : ExecutionPlan) (bases : BTreeMap JobConclusion) (conclusion : JobConclusion) :
    List String :=
  (bases.toList.filter fun entry => entry.2 = conclusion && isPublic entry.1).map fun entry =>
    s!"{plan.workflowName} / {entry.1}"

def planExecution (plan : ExecutionPlan) (bases : BTreeMap JobConclusion) : PlanExecution where
  failedJobs := concluded plan bases .failure
  timedOutJobs := concluded plan bases .timedOut
  cancelledJobs := concluded plan bases .cancelled

/-- The loop runs until every base has a conclusion. -/
def executePlan (plan : ExecutionPlan) (events : List PlanEvent) :
    Except String (PlanState × PlanExecution) := do
  let ended ← events.foldlM (planStep evaluations plan) { pending := baseOrder plan }
  if ended.completed.bases.size < (baseOrder plan).length then
    .error "the plan has not completed"
  else return (ended, planExecution plan ended.completed.bases)

end Schedule

end GitZero.Agent
