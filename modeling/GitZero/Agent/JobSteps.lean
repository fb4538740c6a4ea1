/-
Module: GitZero.Agent.JobSteps
Purpose: The step loop of a job: foreground and background steps, the control steps that join
  the latter, the final drain and the post entry points.
Trusted boundary: what the processes of a step do, and the moments of a cancellation or a
  timeout, are data of an execution; infrastructure errors are left out
Main exports: Completion, Runtime, JobState, World, flushOne, round, drain, runPosts, executeSteps
-/
import GitZero.Agent.Conclusions
import GitZero.Lib.Machine
import GitZero.Workflow.Linker

namespace GitZero.Agent

open Workflows
open Expression (ExecutionStatus)

/-! ### Paths -/

def splitPath (path : String) : List String :=
  if path.isEmpty then [] else (path.toList.splitOn ':').map String.ofList

def deferredPathAdditions (initial final : List String) : Option (List String) :=
  (List.range' 1 final.length).findSome? fun prefixLength =>
    let additions := final.take prefixLength
    let retained := initial.filter fun entry => !additions.contains entry
    if retained = final.drop prefixLength then some additions else none

/-! ### What a step leaves behind -/

/-- What `steps.<id>` shows of a step, and whether it ran at all. -/
structure StepExecution where
  conclusion : JobConclusion
  outcome : JobConclusion
  outputs : BTreeMap String := ∅
  ran : Bool := true

/-- The entry of a step in the context `steps`. -/
structure StepRecord where
  outputs : BTreeMap String
  outcome : JobConclusion
  conclusion : JobConclusion

/-- The summary that one step has written. -/
structure StepSummary where
  name : String
  markdown : String

/-- The summaries of a job so far; later ones are left out when the limit is reached. -/
structure JobSummaryBuilder where
  steps : List StepSummary := []
  omittedSteps : Bool := false

def maxStepSummariesPerJob : Nat := 20

def JobSummaryBuilder.push (summary : JobSummaryBuilder) (step : StepSummary) :
    JobSummaryBuilder :=
  if summary.steps.length < maxStepSummariesPerJob then
    { summary with steps := summary.steps ++ [step] }
  else { summary with omittedSteps := true }

def JobSummaryBuilder.append (summary other : JobSummaryBuilder) : JobSummaryBuilder :=
  let pushed := other.steps.foldl push summary
  { pushed with omittedSteps := pushed.omittedSteps || other.omittedSteps }

section Steps

-- a registered post entry point, whatever it holds
variable {Post : Type}

/-- What a step has done when it ends: its environment is the one that it started with, as
its processes changed it. -/
structure Completion (Post : Type) where
  execution : StepExecution
  environment : BTreeMap String
  posts : List Post := []
  summary : JobSummaryBuilder := {}

/-- What a step sees when it starts. -/
structure Snapshot where
  environment : BTreeMap String
  steps : BTreeMap StepRecord
  status : ExecutionStatus

/-- A background step; the task is the step with what it saw when it started. -/
structure Runtime where
  task : Option (PlannedStep × Snapshot)
  conclusion : Option JobConclusion := none
  explicitlyCancelled : Bool := false
  flushed : Bool := false

/-- What an entry of the journal stands for. -/
inductive EntryKind where
  | foreground | control | merged | post
deriving Repr, DecidableEq

/-- A line of the record of a job: a step that concluded, or a background step that was
merged into the job. -/
structure Entry where
  kind : EntryKind
  stepId : String := ""
  conclusion : JobConclusion
deriving Repr, DecidableEq

/-- The variables of the loop.  `stopped` stands for its `break`; `journal` is no variable of
the source, it records what the loop does. -/
structure JobState (Post : Type) where
  environment : BTreeMap String
  steps : BTreeMap StepRecord := ∅
  posts : List Post := []
  summary : JobSummaryBuilder := {}
  completedSteps : Nat := 0
  status : ExecutionStatus := .success
  background : BTreeMap Runtime := ∅
  backgroundOrder : List String := []
  stopped : Bool := false
  journal : List Entry := []

def JobState.snapshot (state : JobState Post) : Snapshot where
  environment := state.environment
  steps := state.steps
  status := state.status

/-- One execution of a job: what its expressions evaluate to, what its steps do, and what the
loop reads of a cancellation or a timeout of the job. -/
structure World (Post : Type) where
  isBackground : PlannedStep → Snapshot → Bool
  continueOnError : PlannedStep → Snapshot → Bool
  execute : PlannedStep → Snapshot → Completion Post
  /-- A background step, by whether it was told to stop before it was joined. -/
  complete : PlannedStep → Snapshot → Bool → Completion Post
  /-- A post entry point and the environment it leaves; `none` if its condition is false. -/
  runPost : Post → Snapshot → Option (JobConclusion × BTreeMap String)
  cancelRequested : PlannedStep → Bool
  timedOutAfter : PlannedStep → Bool
  timedOutAfterDrain : Bool
  timedOutAfterPost : Post → Bool
  timedOutAtEnd : Bool
  /-- The `PATH` of the agent itself. -/
  path : Option String

variable (world : World Post)

/-! ### Joining background steps -/

def mergeBackgroundEnvironment (environment initial final : BTreeMap String) : BTreeMap String :=
  let merged := final.toList.foldl (fun environment (name, value) =>
    if name ≠ "PATH" && initial[name]? ≠ some value then environment.insert name value
    else environment) environment
  let initialPath := ((initial["PATH"]?).or world.path).getD ""
  let finalPath := (final["PATH"]?).getD ""
  if initialPath = finalPath then merged
  else
    match deferredPathAdditions (splitPath initialPath) (splitPath finalPath) with
    | some additions =>
        let current := ((((merged["PATH"]?).or world.path).map splitPath)).getD []
        let entries := additions ++ current.filter fun entry => !additions.contains entry
        merged.insert "PATH" (":".intercalate entries)
    | none => merged.insert "PATH" finalPath

def merge (id : String) (initial : BTreeMap String) (completion : Completion Post)
    (state : JobState Post) : JobState Post :=
  let execution := completion.execution
  { state with
    environment := mergeBackgroundEnvironment world state.environment initial
      completion.environment
    posts := state.posts ++ completion.posts
    summary := state.summary.append completion.summary
    completedSteps := if execution.ran then state.completedSteps + 1 else state.completedSteps
    steps := state.steps.insert id {
      outputs := execution.outputs
      outcome := execution.outcome
      conclusion := execution.conclusion }
    journal := state.journal ++
      [{ kind := .merged, stepId := id, conclusion := execution.conclusion }] }

/-- One round of the loop of `flush_background_steps`. -/
def flushOne (state : JobState Post) (id : String) : JobState Post × JobConclusion :=
  match state.background[id]? with
  | none => (state, .success)
  | some runtime =>
      match runtime.task with
      | none => (state, runtime.conclusion.getD .success)
      | some (step, snapshot) =>
          let completion := world.complete step snapshot runtime.explicitlyCancelled
          let conclusion := completion.execution.conclusion
          let joined := { runtime with task := none, conclusion := some conclusion }
          if runtime.flushed then
            ({ state with background := state.background.insert id joined }, conclusion)
          else
            (merge world id snapshot.environment completion { state with
              background := state.background.insert id { joined with flushed := true } },
              conclusion)

def flushBackgroundSteps : List String → JobState Post → JobState Post × List JobConclusion
  | [], state => (state, [])
  | id :: ids, state =>
      let (state, conclusion) := flushOne world state id
      let (state, conclusions) := flushBackgroundSteps ids state
      (state, conclusion :: conclusions)

def JobState.unflushed (state : JobState Post) : List String :=
  state.backgroundOrder.filter fun id =>
    match state.background[id]? with
    | some runtime => !runtime.flushed
    | none => false

/-! ### The loop -/

/-- The background steps that a control step names. -/
def targetIds (state : JobState Post) : StepKind → Option (List String)
  | .wait stepIds => some stepIds
  | .waitAll => some state.unflushed
  | .cancel stepId => some [stepId]
  | _ => none

def isCancel : StepKind → Bool
  | .cancel _ => true
  | _ => false

def cancelTarget (state : JobState Post) (id : String) : JobState Post :=
  match state.background[id]? with
  | some runtime => { state with
      background := state.background.insert id { runtime with explicitlyCancelled := true } }
  | none => state

/-- A `cancel` step marks its target before it joins it. -/
def markTargets (step : PlannedStep) (targets : List String) (state : JobState Post) :
    JobState Post :=
  if isCancel step.kind then targets.foldl cancelTarget state else state

def controlStep (step : PlannedStep) (targets : List String) (state : JobState Post) :
    JobState Post :=
  let (flushed, conclusions) := flushBackgroundSteps world targets (markTargets step targets state)
  let outcome :=
    if isCancel step.kind then .success else backgroundWaitConclusion conclusions
  let conclusion :=
    if world.continueOnError step state.snapshot && outcome = .failure then .success else outcome
  { flushed with
    completedSteps := flushed.completedSteps + 1
    steps := flushed.steps.insert step.id { outputs := ∅, outcome, conclusion }
    status := statusAfter conclusion flushed.status
    journal := flushed.journal ++ [{ kind := .control, stepId := step.id, conclusion }] }

def startBackgroundStep (step : PlannedStep) (state : JobState Post) : JobState Post :=
  { state with
    backgroundOrder := state.backgroundOrder ++ [step.id]
    background := state.background.insert step.id { task := some (step, state.snapshot) } }

def foregroundStep (step : PlannedStep) (state : JobState Post) : JobState Post :=
  let completion := world.execute step state.snapshot
  let execution := completion.execution
  let status := statusAfter execution.conclusion state.status
  { state with
    environment := completion.environment
    posts := state.posts ++ completion.posts
    summary := state.summary.append completion.summary
    completedSteps := if execution.ran then state.completedSteps + 1 else state.completedSteps
    steps := state.steps.insert step.id {
      outputs := execution.outputs
      outcome := execution.outcome
      conclusion := execution.conclusion }
    status
    stopped := status = .cancelled || world.timedOutAfter step
    journal := state.journal ++
      [{ kind := .foreground, stepId := step.id, conclusion := execution.conclusion }] }

/-- One step of the job. -/
def round (state : JobState Post) (step : PlannedStep) : JobState Post :=
  if state.stopped then state
  else if world.cancelRequested step then { state with status := .cancelled, stopped := true }
  else
    match targetIds state step.kind with
    | some targets => controlStep world step targets state
    | none =>
        if world.isBackground step state.snapshot then startBackgroundStep step state
        else foregroundStep world step state

/-! ### The end of the job -/

/-- The conclusions that the drain folds into the job: those of the background steps, less
the explicitly cancelled ones that ended so. -/
def backgroundConclusions (state : JobState Post) : List JobConclusion :=
  state.backgroundOrder.filterMap fun id =>
    match state.background[id]? with
    | some runtime =>
        match runtime.conclusion with
        | some conclusion =>
            if runtime.explicitlyCancelled && conclusion = .cancelled then none
            else some conclusion
        | none => none
    | none => none

/-- The background steps that are left when the loop ends are joined in the order in which they
were started. -/
def drain (state : JobState Post) : JobState Post :=
  let drained := (flushBackgroundSteps world state.unflushed state).1
  { drained with
    status := statusAfter (backgroundWaitConclusion (backgroundConclusions drained))
      drained.status }

/-- The entry points in the order in which they run, last registered first. -/
def runPosts : List Post → JobState Post → JobState Post
  | [], state => state
  | post :: rest, state =>
      if state.status = .cancelled then state
      else
        match world.runPost post state.snapshot with
        | none => runPosts rest state
        | some (conclusion, environment) =>
            let state := { state with
              environment
              status := if conclusion.failed then .failure else state.status
              journal := state.journal ++ [{ kind := .post, conclusion }] }
            if world.timedOutAfterPost post then state else runPosts rest state

def JobState.outcome (state : JobState Post) : JobConclusion :=
  match state.status with
  | .success => .success
  | .failure => .failure
  | .cancelled => .cancelled
  | .skipped => .skipped

/-- The steps of a job and its outcome before the `continue-on-error` of the job. -/
def executeSteps (steps : List PlannedStep) (environment : BTreeMap String) :
    JobState Post × JobConclusion :=
  let drained := drain world (Machine.run (round world) { environment } steps)
  if world.timedOutAfterDrain then (drained, .timedOut)
  else
    let ended := runPosts world drained.posts.reverse drained
    if world.timedOutAtEnd then (ended, .timedOut) else (ended, ended.outcome)

end Steps

end GitZero.Agent
