/-
Module: GitZero.ControlPlane.Dispatch
Purpose: The asynchronous core of the Workspace, cut at its awaits: check
  synchronization, dispatch, job initialization and deployment synchronization.
Trusted boundary: none
Main exports: Outcome, Reply, awaitThen, syncCheck, dispatchIteration, deliver,
  initializeJob, initializeCatch, syncDeployment
-/
import GitZero.ControlPlane.Concurrency

namespace GitZero.ControlPlane

open Table

/-- How a segment of an async function ends: it returns, it throws, or it waits
with the given frames still to run (innermost first). -/
inductive Outcome where
  | done
  | threw
  | suspended (frames : List Frame)
deriving Repr, DecidableEq

/-- What an async function has done when it yields or ends. -/
abbrev Segment := State × Outcome

/-- `await` of an async call inside a function whose remaining work is `frame`.
Every `await` yields, also when the awaited call has already returned. -/
def awaitThen (frame : Frame) : Segment → Segment
  | (state, .done) => (state, .suspended [frame])
  | (state, .threw) => (state, .threw)
  | (state, .suspended frames) => (state, .suspended (frames ++ [frame]))

/-- Result of `fetchPullRequestMergeSnapshot`. -/
inductive MergeSnapshot where
  | pending
  | conflicted
  | changed
  | ready (mergeSha : String)
deriving Repr, DecidableEq

/-- What the environment hands to a suspended task.  A reply that is not of the
kind a frame waits for counts as a rejected call. -/
inductive Reply where
  | settled
  | failed (error : String)
  | token (credential : InstallationAccessToken)
  | mergeSnapshot (snapshot : MergeSnapshot)
  | actionsVariables (values : List (String × String))
  | checkRun (id : Nat)
  | deployment (id : Nat)
  | credential (text : String)
deriving Repr, DecidableEq

def Reply.error : Reply → String
  | .failed error => error
  | _ => "unexpected reply"

/-! ### Check synchronization -/

/-- The check run of a row is brought up to date. -/
def syncCheck (state : State) (row : JobRow) : Segment :=
  if !row.job.reportToGithub || row.job.checkRunId.isNone then
    (state.updateJobs (fun job => job.id = row.id)
      fun job => { job with checkSyncNeeded := false }, .done)
  else if row.status = .running ∨ (row.status = .completed ∧ row.conclusion.isSome) then
    (state, .suspended [.checkUpdate row])
  else (state, .done)

def resumeCheckUpdate (now : Millis) (state : State) (row : JobRow) : Reply → Segment
  | .settled =>
      (state.updateJobs (fun job => job.id = row.id && job.status = row.status)
        fun job => { job with checkSyncNeeded := false }, .done)
  | _ => ({ state with alarm := some (now + checkRetryMilliseconds) }, .done)

/-! ### Dispatch -/

/-- An open socket whose agent has said hello and has a free slot, as `try_dispatch` compares
them. -/
structure AgentCandidate where
  socket : SocketId
  hello : AgentHello
  agentId : AgentId
  assigned : Nat
  capacity : Nat
  connectedAt : Millis
deriving Repr, DecidableEq

section Text

variable [JsText]

/-- `SELECT COUNT(*) .. WHERE agent_id = ? AND status IN ('assigned', 'running')` -/
def State.assignedCount (state : State) (agentId : AgentId) : Nat :=
  (state.jobs.filter fun row => row.agentId = some agentId && row.active).length

def candidateOf (state : State) (socket : Socket) : Option AgentCandidate :=
  match socket.hello with
  | none => none
  | some hello =>
      if socket.isOpen = false ∨ socket.drainingJobIds.length > 0 ∨ supportsMacos hello = false ∨
          state.assignedCount socket.agentId ≥ hello.maxParallelism then none
      else
        some
          { socket := socket.id
            hello := hello
            agentId := socket.agentId
            assigned := state.assignedCount socket.agentId
            capacity := hello.maxParallelism
            connectedAt := socket.connectedAt }

def availableAgents (state : State) : List AgentCandidate :=
  state.sockets.filterMap (candidateOf state)

/-- The comparison that replaces the running best of `leastLoadedCompatibleAgent`. -/
def lessLoaded (candidate best : AgentCandidate) : Bool :=
  let candidateLoad := candidate.assigned * best.capacity
  let bestLoad := best.assigned * candidate.capacity
  candidateLoad < bestLoad ||
    (candidateLoad = bestLoad && candidate.assigned < best.assigned) ||
    (candidateLoad = bestLoad && candidate.assigned = best.assigned &&
      candidate.connectedAt < best.connectedAt) ||
    (candidateLoad = bestLoad && candidate.assigned = best.assigned &&
      candidate.connectedAt = best.connectedAt && localeBefore candidate.agentId best.agentId)

/-- One turn of the loop of `leastLoadedCompatibleAgent`. -/
def keepBest (requirements : List RunnerRequirement) (best : Option AgentCandidate)
    (candidate : AgentCandidate) : Option AgentCandidate :=
  if agentSatisfiesRequirements candidate.hello requirements then
    match best with
    | none => some candidate
    | some current => if lessLoaded candidate current then some candidate else best
  else best

def leastLoadedCompatibleAgent (candidates : List AgentCandidate)
    (requirements : List RunnerRequirement) : Option AgentCandidate :=
  candidates.foldl (keepBest requirements) none

/-- The oldest ready job that some available agent can run, and that agent. -/
def selectDispatch (state : State) : Option (JobRow × AgentCandidate) :=
  let ready := state.jobs.filter fun row =>
    row.status = .queued && row.initializationNeeded = .ready
  (ready.insertionSort fun left right => left.createdAt ≤ right.createdAt).findSome? fun queued =>
    (leastLoadedCompatibleAgent (availableAgents state) queued.runnerRequirements).map
      fun candidate => (queued, candidate)

/-- The assigning `UPDATE`, recorded in the history of assignments. -/
def claimJob (state : State) (queued : JobRow) (candidate : AgentCandidate) (now : Millis) :
    State :=
  { state.updateJobs (fun job => job.id = queued.id && job.status = .queued)
      fun job =>
        { job with
          status := .assigned
          agentId := some candidate.agentId
          leaseExpiresAt := some (now + leaseMilliseconds)
          attemptCount := job.attemptCount + 1
          lastError := none } with
    assignments := state.assignments ++
      [{ job := queued.id, agent := candidate.agentId, socket := candidate.socket }] }

/-- The `catch` block of a dispatch iteration. -/
def dispatchFailure (now : Millis) (state : State) (jobId : JobId) : Segment :=
  match state.requeue jobId "assignment could not be delivered" now with
  | none => (state, .threw)
  | some (requeued, none) =>
      ({ requeued with alarm := some (now + checkRetryMilliseconds) }, .done)
  | some (requeued, some terminal) => awaitThen .dispatchFailed (syncCheck requeued terminal)

/-- The run that `tryDispatch` builds from the job and its token. -/
def dispatchSpec? (state : State) (job : QueuedJob)
    (credential : Option InstallationAccessToken) : Option RunSpec :=
  runSpec? job (state.eventPayload job.id) (credential.elim "" (·.token))
    (credential.map (·.expiresAtEpochSeconds))

/-- The rest of an iteration once the token, if any, is there: build the run,
send it to the socket chosen before the `await`, and go round the loop. -/
def deliver (now : Millis) (state : State) (assignment : Nat) (job : QueuedJob)
    (socket : SocketId) (credential : Option InstallationAccessToken) : Segment :=
  match dispatchSpec? state job credential with
  | none => dispatchFailure now state job.id
  | some spec =>
      match state.sendServer socket (.runJob spec assignment) with
      | none => dispatchFailure now state job.id
      | some sent => (sent.scheduleAlarm now, .suspended [.dispatchLoop])

/-- One turn of the loop of `tryDispatch`, up to its first `await`. -/
def dispatchIteration (now : Millis) (state : State) : Segment :=
  match selectDispatch state with
  | none => (state, .done)
  | some (queued, candidate) =>
      let claimed := claimJob state queued candidate now
      if queued.job.requiresGithubToken then
        (claimed, .suspended
          [.dispatchToken state.assignments.length queued.job candidate.agentId candidate.socket])
      else deliver now claimed state.assignments.length queued.job candidate.socket none

def resumeDispatchToken (now : Millis) (state : State) (assignment : Nat) (job : QueuedJob)
    (socket : SocketId) : Reply → Segment
  | .token credential => deliver now state assignment job socket (some credential)
  | _ => dispatchFailure now state job.id

/-! ### Job initialization -/

/-- The claiming `UPDATE .. RETURNING *`. -/
def claimInitialization (now : Millis) (row : JobRow) : JobRow :=
  { row with
    initializationNeeded := .running
    initializationAttemptCount := row.initializationAttemptCount + 1
    initializationRetryAt := some (now + initializationLeaseMilliseconds) }

def initializationClaimable (now : Millis) (jobId : JobId) (row : JobRow) : Bool :=
  row.id = jobId && row.status = .queued && row.initializationNeeded ≠ .ready &&
    row.initializationRetryAt.any (· ≤ now)

/-- `status = 'queued' AND initialization_needed = 2`, the guard of every write
an initialization attempt makes after its GitHub calls but one. -/
def initializing (jobId : JobId) (row : JobRow) : Bool :=
  row.id = jobId && row.status = .queued && row.initializationNeeded = .running

/-- The `catch` and `finally` blocks of `initializeJob`.  The last branch of the
`catch` completes whatever row it finds under the job's id. -/
def initializeCatch (now : Millis) (state : State) (claim : JobRow) (error : String) : Segment :=
  let detail := truncateDiagnostic error
  if claim.initializationAttemptCount ≥ maxInitializationAttempts then
    let marked := state.updateJobs (initializing claim.job.id)
      fun job =>
        { job with
          initializationNeeded := .ready
          initializationRetryAt := none
          lastError := some detail }
    match marked.jobRow? claim.job.id with
    | none => (marked.scheduleAlarm now, .threw)
    | some terminal =>
        let completed := marked.completeInfrastructureJob terminal .failure
          ("GitZero could not initialize the run after " ++
            toString claim.initializationAttemptCount ++ " attempts. Last error: " ++ detail) now
        match completed.jobRow? claim.job.id with
        | none => (completed.scheduleAlarm now, .threw)
        | some row => awaitThen .initTerminal (syncCheck completed row)
  else
    let retried := state.updateJobs (initializing claim.job.id)
      fun job =>
        { job with
          initializationNeeded := .pending
          initializationRetryAt :=
            some (now + initializationRetryDelay claim.initializationAttemptCount)
          lastError := some detail }
    (retried.scheduleAlarm now, .done)

/-- The storing `UPDATE` and, if it found the row, the dispatch inside the `try`. -/
def initializeStore (now : Millis) (state : State) (claim : JobRow) (job : QueuedJob) : Segment :=
  if state.jobs.any (initializing claim.job.id) then
    let stored := state.updateJobs (initializing claim.job.id)
      fun row =>
        { row with
          job := job
          initializationNeeded := .ready
          initializationRetryAt := none
          lastError := none }
    match dispatchIteration now stored with
    | (dispatched, .threw) => initializeCatch now dispatched claim "job dispatch failed"
    | segment => awaitThen (.initDispatched claim) segment
  else (state.scheduleAlarm now, .done)

def initializeCheckRun (now : Millis) (state : State) (claim : JobRow) (job : QueuedJob) :
    Segment :=
  if job.reportToGithub then (state, .suspended [.initCheckRun claim job])
  else initializeStore now state claim job

def initializeVariables (now : Millis) (state : State) (claim : JobRow) (job : QueuedJob) :
    Segment :=
  if job.requiresGithubToken then (state, .suspended [.initVariables claim job])
  else initializeCheckRun now state claim job

def withExecutionRef (job : QueuedJob) : QueuedJob :=
  if job.pullRequest.executionRef.isNone then
    { job with
      pullRequest :=
        { job.pullRequest with
          executionRef := some ("refs/pull/" ++ toString job.pullRequest.number ++ "/merge") } }
  else job

def withMergeSha (job : QueuedJob) (mergeSha : String) : QueuedJob :=
  { job with pullRequest := { job.pullRequest with mergeSha := some mergeSha } }

/-- A job that is due is claimed for one attempt, up to its first await. -/
def initializeJob (now : Millis) (state : State) (jobId : JobId) : Segment :=
  match state.jobs.find? (initializationClaimable now jobId) with
  | none => (state, .done)
  | some row =>
      let claim := claimInitialization now row
      let claimed := state.updateJobs (initializationClaimable now jobId) (claimInitialization now)
      let job := withExecutionRef claim.job
      if job.pullRequest.mergeSha.isNone then
        if job.requiresGithubToken then (claimed, .suspended [.initMergeSnapshot claim job])
        else
          initializeVariables now claimed claim (withMergeSha job job.pullRequest.headSha)
      else initializeVariables now claimed claim job

def resumeInitMergeSnapshot (now : Millis) (state : State) (claim : JobRow) (job : QueuedJob) :
    Reply → Segment
  | .mergeSnapshot (.ready mergeSha) =>
      initializeVariables now state claim (withMergeSha job mergeSha)
  | .mergeSnapshot .conflicted =>
      ((state.completeInitializingJob claim .neutral
        ("GitZero did not create a run because GitHub reports that the pull request cannot be " ++
          "merged into its base branch.")
        now).scheduleAlarm now, .done)
  | .mergeSnapshot .changed =>
      ((state.completeInitializingJob claim .failure
        ("GitZero could not pin the webhook's merge snapshot because the pull request " ++
          "head or base changed before GitHub finished computing it.")
        now).scheduleAlarm now, .done)
  | .mergeSnapshot .pending =>
      initializeCatch now state claim "GitHub is still computing the pull request merge snapshot"
  | reply => initializeCatch now state claim reply.error

def resumeInitVariables (now : Millis) (state : State) (claim : JobRow) (job : QueuedJob) :
    Reply → Segment
  | .actionsVariables values =>
      initializeCheckRun now state claim { job with actionsVariables := values }
  | reply => initializeCatch now state claim reply.error

def resumeInitCheckRun (now : Millis) (state : State) (claim : JobRow) (job : QueuedJob) :
    Reply → Segment
  | .checkRun id => initializeStore now state claim { job with checkRunId := some id }
  | reply => initializeCatch now state claim reply.error

/-! ### Deployment synchronization -/

def deploymentClaimable (now : Millis) (key : JobId × String) (row : DeploymentRow) : Bool :=
  row.jobId = key.1 && row.unitId = key.2 && row.syncNeeded ≠ .synced &&
    row.syncRetryAt.any (· ≤ now)

def claimDeployment (now : Millis) (row : DeploymentRow) : DeploymentRow :=
  { row with
    syncNeeded := .running
    syncAttemptCount := row.syncAttemptCount + 1
    syncRetryAt := some (now + deploymentSyncLeaseMilliseconds) }

/-- The `catch` block of `syncDeployment`, then its `finally`. -/
def deploymentCatch (now : Millis) (state : State) (claim : DeploymentRow) (error : String) :
    Segment :=
  let failed : State :=
    match state.deploymentRow? claim.jobId claim.unitId with
    | none => state
    | some current =>
        let delay :=
          if current.desiredState ≠ claim.desiredState ∨
              current.environmentUrl ≠ claim.environmentUrl then 0
          else deploymentRetryDelay claim.syncAttemptCount
        state.updateDeployments
          (fun row => row.jobId = claim.jobId && row.unitId = claim.unitId &&
            row.syncNeeded = SyncNeeded.running)
          fun row =>
            { row with
              syncNeeded := .pending
              syncRetryAt := some (now + delay)
              lastError := some (truncateDiagnostic error) }
  (failed.scheduleAlarm now, .done)

/-- A deployment that is due is claimed for one attempt. -/
def syncDeployment (now : Millis) (state : State) (key : JobId × String) : Segment :=
  match state.deployments.find? (deploymentClaimable now key) with
  | none => (state, .done)
  | some row =>
      let claim := claimDeployment now row
      let claimed := state.updateDeployments (deploymentClaimable now key) (claimDeployment now)
      match claimed.jobRow? key.1 with
      | none => deploymentCatch now claimed claim ("unknown job " ++ toString key.1)
      | some _ => (claimed, .suspended [.deploymentSync claim])

/-- The writes after `syncGitHubDeployment` returned a deployment id. -/
def storeDeploymentSync (now : Millis) (state : State) (claim : DeploymentRow) (id : Nat) :
    State :=
  let key : DeploymentRow → Bool := fun row =>
    row.jobId = claim.jobId && row.unitId = claim.unitId
  let identified := state.updateDeployments (fun row => key row && row.githubDeploymentId.isNone)
    fun row => { row with githubDeploymentId := some id }
  let current : DeploymentRow → Bool := fun row =>
    key row && row.syncNeeded = .running && row.desiredState = claim.desiredState &&
      row.environmentUrl = claim.environmentUrl
  if identified.deployments.any current then
    identified.updateDeployments current fun row =>
      { row with
        syncedState := some row.desiredState
        syncedEnvironmentUrl := row.environmentUrl
        syncNeeded := .synced
        syncRetryAt := none
        lastError := none
        updatedAt := now }
  else
    identified.updateDeployments (fun row => key row && row.syncNeeded = .running) fun row =>
      { row with
        syncNeeded := .pending
        syncRetryAt := some now
        lastError := none }

def resumeDeploymentSync (now : Millis) (state : State) (claim : DeploymentRow) :
    Reply → Segment
  | .deployment id => ((storeDeploymentSync now state claim id).scheduleAlarm now, .done)
  | reply => deploymentCatch now state claim reply.error

end Text

end GitZero.ControlPlane
