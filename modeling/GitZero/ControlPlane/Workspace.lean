/-
Module: GitZero.ControlPlane.Workspace
Purpose: Event handlers of the Workspace Durable Object and the machine they
  form: external events and resumptions of suspended tasks, in any order.
Trusted boundary: none
Main exports: Event, step, initial, resumeFrame, unwind, enqueue, alarm,
  handleAgentEvent, webSocketMessage, handleAgentDisconnect
-/
import GitZero.Lib.Machine
import GitZero.ControlPlane.Dispatch

namespace GitZero.ControlPlane

open Table

section Text

variable [JsText]

/-! ### Disconnect and alarm -/

/-- The loop of `handleAgentDisconnect` over the rows it selected at its start.
`socket` is history: it names the socket whose event started the loop. -/
def disconnectLoop (now : Millis) (socket : SocketId) (state : State) : List JobRow → Segment
  | [] => awaitThen .scheduleAfterDispatch (dispatchIteration now state)
  | row :: rest =>
      match state.requeue row.id "agent disconnected" now with
      | none => (state, .threw)
      | some (requeued, none) => disconnectLoop now socket requeued rest
      | some (requeued, some terminal) =>
          awaitThen (.disconnect socket rest) (syncCheck requeued terminal)

/-- The jobs of the agent are taken back one after the other. -/
def handleAgentDisconnect (now : Millis) (state : State) (socket : SocketId)
    (agentId : AgentId) : Segment :=
  disconnectLoop now socket state
    (state.jobs.filter fun row => row.agentId = some agentId && row.active)

def alarmDeploymentLoop (now dueAt : Millis) (state : State) : List (JobId × String) → Segment
  | [] => awaitThen .scheduleAfterDispatch (dispatchIteration now (state.prune dueAt))
  | key :: rest => awaitThen (.alarmDeployment rest dueAt) (syncDeployment now state key)

def dueDeployments (state : State) (dueAt : Millis) : List (JobId × String) :=
  (((state.deployments.filter fun row =>
      row.syncNeeded ≠ .synced && row.syncRetryAt.any (· ≤ dueAt)).insertionSort
    fun left right => left.syncRetryAt.getD 0 ≤ right.syncRetryAt.getD 0).take 20).map
      fun row => (row.jobId, row.unitId)

def alarmCheckLoop (now dueAt : Millis) (state : State) : List JobRow → Segment
  | [] => alarmDeploymentLoop now dueAt state (dueDeployments state dueAt)
  | row :: rest => awaitThen (.alarmCheck rest dueAt) (syncCheck state row)

/-- `ORDER BY completed_at` puts `NULL` first. -/
def unsyncedChecks (state : State) : List JobRow :=
  ((state.jobs.filter (·.checkSyncNeeded)).insertionSort
    fun left right => left.completedAt.elim 0 (· + 1) ≤ right.completedAt.elim 0 (· + 1)).take 20

def leaseExpired (now : Millis) (row : JobRow) : Bool :=
  row.active && row.leaseExpiresAt.any (· ≤ now)

/-- One turn of the lease-expiry loop; the row is there, so `requeue` does not
throw, and its result is not used. -/
def expireLease (now : Millis) (state : State) (row : JobRow) : State :=
  let cancelled := state.cancelOnAgent row "agent lease expired"
  ((cancelled.requeue row.id "agent lease expired" now).map (·.1)).getD cancelled

def expireQueued (now : Millis) (state : State) (row : JobRow) : State :=
  state.completeInfrastructureJob row .timedOut
    "No compatible GitZero agent became available before the queue deadline." now

/-- `alarm` after its initialization loop. -/
def alarmExpire (now : Millis) (state : State) : Segment :=
  let expired := (state.jobs.filter (leaseExpired now)).foldl (expireLease now) state
  let timedOut :=
    (expired.jobs.filter fun row => row.status = .queued && row.queueExpiresAt ≤ now).foldl
      (expireQueued now) expired
  alarmCheckLoop now now timedOut (unsyncedChecks timedOut)

def alarmInitLoop (now : Millis) (state : State) : List JobId → Segment
  | [] => alarmExpire now state
  | jobId :: rest => awaitThen (.alarmInit rest) (initializeJob now state jobId)

def initializationDue (state : State) (now : Millis) : List JobId :=
  (((state.jobs.filter fun row =>
      row.status = .queued && row.initializationNeeded ≠ .ready &&
        row.initializationRetryAt.any (· ≤ now)).insertionSort
    fun left right =>
      left.initializationRetryAt.getD 0 ≤ right.initializationRetryAt.getD 0).take 5).map (·.id)

/-- A firing alarm is no longer set. -/
def alarm (now : Millis) (state : State) : Segment :=
  alarmInitLoop now { state with alarm := none } (initializationDue state now)

/-! ### Agent messages -/

/-- The renewal loop of a heartbeat; `none` in the second component where a
`cancel_job` could not be sent and the handler throws. -/
def renewLeases (now : Millis) (socket : SocketId) (agentId : AgentId) (state : State) :
    List JobId → State × Option Unit
  | [] => (state, some ())
  | jobId :: rest =>
      let owned : JobRow → Bool := fun row =>
        row.id = jobId && row.agentId = some agentId && row.active
      if state.jobs.any owned then
        renewLeases now socket agentId
          (state.updateJobs owned
            fun row => { row with leaseExpiresAt := some (now + leaseMilliseconds) }) rest
      else
        match state.sendServer socket
            (.cancelJob jobId "The control plane no longer owns this job lease.") with
        | none => (state, none)
        | some sent => renewLeases now socket agentId sent rest

def heartbeat (now : Millis) (state : State) (socket : SocketId) (agentId : AgentId)
    (runningJobIds : List JobId) : Segment :=
  let reported := runningJobIds.eraseDups
  match renewLeases now socket agentId state reported with
  | (renewed, none) => (renewed, .threw)
  | (renewed, some ()) =>
      let drained := renewed.updateSocket socket fun entry =>
        { entry with drainingJobIds := entry.drainingJobIds.filter (reported.contains ·) }
      (drained.scheduleAlarm now, .suspended [.heartbeatScheduled])

def jobStarted (now : Millis) (state : State) (agentId : AgentId) (jobId : JobId) : Segment :=
  match state.assignedJob jobId agentId with
  | none => (state, .threw)
  | some row =>
      if row.status = .assigned then
        let started := state.updateJobs
          (fun job => job.id = row.id && job.agentId = some agentId && job.status = .assigned)
          fun job =>
            { job with
              status := .running
              startedAt := some now
              leaseExpiresAt := some (now + leaseMilliseconds)
              checkSyncNeeded := true }
        match started.jobRow? row.id with
        | none => (started, .threw)
        | some running => syncCheck started running
      else (state, .done)

/-- Back to the queue with the discovered requirements.  Unlike `requeue`, this
does not touch the run's concurrency leases. -/
def rejectJob (state : State) (agentId : AgentId) (jobId : JobId)
    (requirements : List RunnerRequirement) (reason : String) : State :=
  let counted : State := { state with requeues := state.requeues + 1 }
  counted.updateJobs
    (fun job => job.id = jobId && job.agentId = some agentId && job.status = .assigned)
    fun job =>
      { job with
        status := .queued
        agentId := none
        leaseExpiresAt := none
        startedAt := none
        lastError := some reason
        runnerRequirements := requirements
        attemptCount := job.attemptCount - 1 }

def jobRejected (now : Millis) (state : State) (socket : SocketId) (agentId : AgentId)
    (jobId : JobId) (requirements : List RunnerRequirement) (reason : String) : Segment :=
  match state.assignedJob jobId agentId with
  | none => (state, .threw)
  | some row =>
      let hello := (state.socket? socket).bind (·.hello)
      if row.status ≠ .assigned ∨ hello.isNone ∨
          hello.any (agentSatisfiesRequirements · requirements) then
        (state.sendLast socket (.error "invalid_job_rejection"
          ("A job may be rejected only before it starts and only for runner " ++
            "requirements this agent does not satisfy.")),
          .done)
      else
        let draining := state.updateSocket socket fun entry =>
          { entry with drainingJobIds := (entry.drainingJobIds ++ [row.id]).eraseDups }
        awaitThen .scheduleAfterDispatch
          (dispatchIteration now
            (rejectJob draining agentId row.id (normalizeRunnerRequirements requirements) reason))

def concurrencyAcquire (now : Millis) (state : State) (socket : SocketId) (agentId : AgentId)
    (jobId : JobId) (requestId : RequestId) (unitId group : String) (cancelInProgress : Bool)
    (queue : QueueMode) : Segment :=
  match state.assignedJob jobId agentId with
  | none => (state, .threw)
  | some row =>
      if queue = .max ∧ cancelInProgress then
        (state.sendLast socket (.concurrencyCancelled requestId
          "GitHub Actions does not allow queue: max with cancel-in-progress: true."), .done)
      else
        (state.acquireConcurrency socket agentId row requestId unitId group cancelInProgress
          queue now, .done)

def credentialUnauthorized : CredentialKind → String
  | .secret =>
      ("Managed secrets are unavailable to manual, fork, Dependabot, or unverified pull request " ++
        "runs.")
  | .repositoryToken _ | .workflowToken =>
      "The parent GitZero run is not authorized for GitHub tokens."

def credentialFailed : CredentialKind → String
  | .repositoryToken .source | .repositoryToken .environment =>
      ("Internal repository credential access was denied because the target does not match the " ++
        "active run.")
  | .repositoryToken .sharedSource =>
      ("Private source access was denied. Confirm the target Actions sharing policy and " ++
        "GitHub App installation include this repository.")
  | .repositoryToken .checkout =>
      ("Private checkout access was denied. Confirm the target has the same owner and " ++
        "the GitHub App installation includes this repository.")
  | .workflowToken =>
      ("The requested workflow token could not be issued. Confirm the GitHub App has every " ++
        "requested repository permission.")
  | .secret => "Managed secrets could not be decrypted for this job."

def credentialAuthorized (state : State) (kind : CredentialKind) (job : QueuedJob) : Bool :=
  match kind with
  | .secret => managedSecretsAllowed job (state.eventPayload job.id)
  | .repositoryToken _ | .workflowToken => job.requiresGithubToken

def credentialRequest (state : State) (socket : SocketId) (agentId : AgentId)
    (kind : CredentialKind) (jobId : JobId) (requestId : RequestId) : Segment :=
  match state.assignedJob jobId agentId with
  | none => (state, .threw)
  | some row =>
      if row.status = .completed then
        (state.sendLast socket (.credentialDenied kind requestId
          "The parent GitZero run is no longer active."), .done)
      else if credentialAuthorized state kind row.job = false then
        (state.sendLast socket (.credentialDenied kind requestId (credentialUnauthorized kind)),
          .done)
      else (state, .suspended [.credential kind row.job.id requestId agentId socket])

/-- Ownership is checked again after the `await`. -/
def resumeCredential (state : State) (kind : CredentialKind) (jobId : JobId)
    (requestId : RequestId) (agentId : AgentId) (socket : SocketId) : Reply → Segment
  | .credential text =>
      if state.jobs.any fun row => row.id = jobId && row.agentId = some agentId && row.active then
        (state.sendLast socket (.credentialGranted kind requestId text), .done)
      else (state, .done)
  | _ => (state.sendLast socket (.credentialDenied kind requestId (credentialFailed kind)), .done)

/-- The two refusals that `deployment_started` and `deployment_finished` share. -/
def deploymentRefusal (row : JobRow) : Option ServerMessage :=
  if row.status = .completed then
    some (.error "deployment_run_completed"
      "The parent GitZero run is no longer active for deployment updates.")
  else if !row.job.requiresGithubToken || !row.job.reportToGithub then
    some (.error "deployment_not_authorized"
      "The parent GitZero run is not authorized to publish GitHub deployments.")
  else none

/-- A task started with `waitUntil`: it runs on its own from here. -/
def spawn : Segment → State
  | (state, .suspended frames) => { state with tasks := state.tasks ++ [frames] }
  | (state, _) => state

/-- `waitUntil(syncDeployment)` unless a sync is in flight, then `scheduleAlarm`. -/
def publishDeployment (now : Millis) (state : State) (existing : Option DeploymentRow)
    (key : JobId × String) : Segment :=
  let started :=
    if existing.any (·.syncNeeded = .running) then state
    else spawn (syncDeployment now state key)
  (started.scheduleAlarm now, .done)

def deploymentStarted (now : Millis) (state : State) (socket : SocketId) (agentId : AgentId)
    (jobId : JobId) (unitId environment : String) : Segment :=
  match state.assignedJob jobId agentId with
  | none => (state, .threw)
  | some row =>
      match deploymentRefusal row with
      | some refusal => (state.sendLast socket refusal, .done)
      | none =>
          match state.deploymentRow? row.job.id unitId with
          | none =>
              publishDeployment now
                { state with
                  deployments := state.deployments ++
                    [{ jobId := row.job.id
                       unitId := unitId
                       environment := environment
                       desiredState := .inProgress
                       environmentUrl := none
                       githubDeploymentId := none
                       syncedState := none
                       syncedEnvironmentUrl := none
                       syncNeeded := .pending
                       syncAttemptCount := 0
                       syncRetryAt := some now
                       lastError := none
                       createdAt := now
                       updatedAt := now }] } none (row.job.id, unitId)
          | some existing =>
              if toLowerCase existing.environment ≠ toLowerCase environment then
                (state.sendLast socket (.error "deployment_environment_mismatch"
                  "A workflow job cannot change its deployment environment during a run."), .done)
              else
                let desired :=
                  if existing.desiredState ≠ .inProgress then
                    state.updateDeployments
                      (fun entry => entry.jobId = row.job.id && entry.unitId = unitId)
                      (State.desireDeployment .inProgress none now)
                  else state
                publishDeployment now desired (some existing) (row.job.id, unitId)

def deploymentFinished (now : Millis) (state : State) (socket : SocketId) (agentId : AgentId)
    (jobId : JobId) (unitId : String) (conclusion : Conclusion)
    (environmentUrl : Option String) : Segment :=
  match state.assignedJob jobId agentId with
  | none => (state, .threw)
  | some row =>
      match deploymentRefusal row with
      | some refusal => (state.sendLast socket refusal, .done)
      | none =>
          match state.deploymentRow? row.job.id unitId with
          | none =>
              (state.sendLast socket (.error "deployment_not_started"
                "A workflow job must start its deployment before publishing a terminal state."),
                .done)
          | some existing =>
              let desired :=
                if existing.desiredState ≠ deploymentState conclusion ∨
                    existing.environmentUrl ≠ environmentUrl then
                  state.updateDeployments
                    (fun entry => entry.jobId = row.job.id && entry.unitId = unitId)
                    (State.desireDeployment (deploymentState conclusion) environmentUrl now)
                else state
              publishDeployment now desired (some existing) (row.job.id, unitId)

def progress (state : State) (agentId : AgentId) (jobId : JobId) : Segment :=
  match state.assignedJob jobId agentId with
  | none => (state, .threw)
  | some _ => (state, .done)

def jobFinished (now : Millis) (state : State) (agentId : AgentId) (jobId : JobId)
    (conclusion : Conclusion) (summary : String) : Segment :=
  match state.assignedJob jobId agentId with
  | none => (state, .threw)
  | some row =>
      if row.status = .completed then (state, .done)
      else
        let released := state.releaseConcurrencyForRun row.id "The parent GitZero run completed."
        let completed :=
          (released.updateJobs
            (fun job => job.id = jobId && job.agentId = some agentId && job.active)
            fun job =>
              { job with
                status := .completed
                completedAt := some now
                conclusion := some conclusion
                summary := some summary
                leaseExpiresAt := none
                checkSyncNeeded := true }).finishOutstandingDeployments jobId now
        match completed.jobRow? jobId with
        | none => (completed, .threw)
        | some finished => awaitThen .finishedSynced (syncCheck completed finished)

/-- `hello` does not reach this function. -/
def handleAgentEvent (now : Millis) (state : State) (socket : SocketId) (agentId : AgentId) :
    AgentMessage → Segment
  | .hello _ => (state, .done)
  | .heartbeat _ runningJobIds => heartbeat now state socket agentId runningJobIds
  | .jobStarted _ jobId => jobStarted now state agentId jobId
  | .jobRejected _ jobId requirements reason =>
      jobRejected now state socket agentId jobId requirements reason
  | .concurrencyAcquire _ jobId requestId unitId group cancelInProgress queue =>
      concurrencyAcquire now state socket agentId jobId requestId unitId group cancelInProgress
        queue
  | .concurrencyRelease _ jobId requestId =>
      (state.releaseConcurrency requestId jobId agentId, .done)
  | .credentialRequest _ kind jobId requestId =>
      credentialRequest state socket agentId kind jobId requestId
  | .deploymentStarted _ jobId unitId environment =>
      deploymentStarted now state socket agentId jobId unitId environment
  | .deploymentFinished _ jobId unitId conclusion environmentUrl =>
      deploymentFinished now state socket agentId jobId unitId conclusion environmentUrl
  | .progress _ jobId => progress state agentId jobId
  | .jobFinished _ jobId conclusion summary =>
      jobFinished now state agentId jobId conclusion summary

def messageIdOf : AgentMessage → Option MessageId
  | .hello _ => none
  | .heartbeat id _ | .jobStarted id _ | .jobRejected id _ _ _
  | .concurrencyAcquire id _ _ _ _ _ _ | .concurrencyRelease id _ _ | .credentialRequest id _ _ _
  | .deploymentStarted id _ _ _ | .deploymentFinished id _ _ _ _ | .progress id _
  | .jobFinished id _ _ _ => some id

/-- `socket.close` moves the socket out of OPEN; its close event comes later. -/
def closeSocket (state : State) (socket : SocketId) : State :=
  state.updateSocket socket fun entry => { entry with isOpen := false }

/-- Another open socket of the agent has said hello. -/
def duplicateAgent (state : State) (socket : SocketId) (agentId : AgentId) : Bool :=
  state.sockets.any fun candidate =>
    candidate.agentId = agentId && candidate.id ≠ socket && candidate.isOpen &&
      candidate.hello.isSome

def acceptHello (now : Millis) (state : State) (socket : SocketId) (hello : AgentHello) : State :=
  state.updateSocket socket fun entry =>
    { entry with hello := some hello, drainingJobIds := [], lastSeenAt := now }

/-- Refuse a hello: tell the agent why, then close. -/
def refuseHello (state : State) (socket : SocketId) (code message : String) : Segment :=
  match state.sendServer socket (.error code message) with
  | none => (state, .threw)
  | some sent => (closeSocket sent socket, .done)

def webSocketHello (now : Millis) (state : State) (entry : Socket) (hello : AgentHello) :
    Segment :=
  if hello.agentId ≠ entry.agentId then (closeSocket state entry.id, .done)
  else if hello.protocolVersion ≠ protocolVersion then
    refuseHello state entry.id "protocol_mismatch" "Control plane requires protocol 14."
  else if duplicateAgent state entry.id hello.agentId then
    refuseHello state entry.id "duplicate_agent_id"
      "Another agent is already connected with this agent ID."
  else
    match (acceptHello now state entry.id hello).sendServer entry.id
        (.welcome protocolVersion 15) with
    | none => (acceptHello now state entry.id hello, .threw)
    | some sent => dispatchIteration now sent

/-- `INSERT INTO messages .. ON CONFLICT DO NOTHING`: `none` if the id is known. -/
def reserveMessage (now : Millis) (state : State) (messageId : MessageId) : Option State :=
  if state.messages.any fun entry => entry.1 = messageId then none
  else some { state with messages := state.messages ++ [(messageId, now)] }

/-- A hello, or a message that is handled once by its id. -/
def webSocketMessage (now : Millis) (state : State) (entry : Socket) (message : AgentMessage) :
    Segment :=
  match message, messageIdOf message with
  | .hello hello, _ => webSocketHello now state entry hello
  | _, none => (state, .done)
  | _, some messageId =>
      if entry.hello.isNone then
        (state.sendLast entry.id (.error "hello_required" "Send hello before job events."), .done)
      else
        let seen := state.updateSocket entry.id fun current => { current with lastSeenAt := now }
        match reserveMessage now seen messageId with
        | none => (seen.sendLast entry.id (.ack messageId), .done)
        | some reserved =>
            awaitThen (.ack entry.id messageId)
              (handleAgentEvent now reserved entry.id entry.agentId message)

/-! ### The machine -/

/-- The row that `enqueue` inserts. -/
def queuedRow (now : Millis) (runNumber : Nat) (job : QueuedJob) : JobRow :=
  let needsInitialization := job.requiresGithubToken || job.reportToGithub
  { id := job.id
    job := { job with runNumber := runNumber, event := {} }
    status := .queued
    agentId := none
    leaseExpiresAt := none
    createdAt := now
    startedAt := none
    completedAt := none
    conclusion := none
    summary := none
    checkSyncNeeded := false
    attemptCount := 0
    queueExpiresAt := now + queueTimeoutMilliseconds
    lastError := none
    initializationNeeded := if needsInitialization then .pending else .ready
    initializationAttemptCount := 0
    initializationRetryAt := if needsInitialization then some now else none
    runnerRequirements := [] }

/-- A delivery that was seen before inserts nothing. -/
def enqueue (now : Millis) (state : State) (job : QueuedJob) (deliveryId : String) : Segment :=
  let pruned := state.prune now
  if pruned.deliveries.any fun entry => entry.1 = deliveryId then (pruned, .done)
  else
    let numbered :=
      { pruned with
        deliveries := pruned.deliveries ++ [(deliveryId, job.id)]
        runNumber := pruned.runNumber + 1 }
    -- The insert violates the primary key of `jobs` when the id is taken.
    if numbered.jobs.any fun row => row.id = job.id then (numbered, .threw)
    else
      let inserted :=
        { numbered with
          jobs := numbered.jobs ++ [queuedRow now numbered.runNumber job]
          events := numbered.events ++ [(job.id, job.event)] }
      if job.requiresGithubToken || job.reportToGithub then
        ((spawn (initializeJob now inserted job.id)).scheduleAlarm now, .done)
      else awaitThen .scheduleAfterDispatch (dispatchIteration now inserted)

/-- A suspended function goes on with what it has waited for. -/
def resumeFrame (now : Millis) (state : State) (reply : Reply) : Frame → Segment
  | .dispatchToken assignment job _ socket =>
      resumeDispatchToken now state assignment job socket reply
  | .dispatchLoop => dispatchIteration now state
  | .dispatchFailed => ({ state with alarm := some (now + checkRetryMilliseconds) }, .done)
  | .initMergeSnapshot claim job => resumeInitMergeSnapshot now state claim job reply
  | .initVariables claim job => resumeInitVariables now state claim job reply
  | .initCheckRun claim job => resumeInitCheckRun now state claim job reply
  | .initDispatched _ | .initTerminal => (state.scheduleAlarm now, .done)
  | .checkUpdate row => resumeCheckUpdate now state row reply
  | .deploymentSync claim => resumeDeploymentSync now state claim reply
  | .disconnect socket rest => disconnectLoop now socket state rest
  | .alarmInit rest => alarmInitLoop now state rest
  | .alarmCheck rest dueAt => alarmCheckLoop now dueAt state rest
  | .alarmDeployment rest dueAt => alarmDeploymentLoop now dueAt state rest
  | .heartbeatScheduled => dispatchIteration now state
  | .finishedSynced => awaitThen .scheduleAfterDispatch (dispatchIteration now state)
  | .scheduleAfterDispatch => (state.scheduleAlarm now, .done)
  | .credential kind jobId requestId agentId socket =>
      resumeCredential state kind jobId requestId agentId socket reply
  | .ack socket messageId => (state.sendLast socket (.ack messageId), .done)

/-- An exception passes the frames of the waiting callers: `initializeJob` has a
`catch` around its dispatch and a `finally` around everything. -/
def unwind (now : Millis) : State → List Frame → State
  | state, [] => state
  | state, .initDispatched claim :: rest =>
      match initializeCatch now state claim "job dispatch failed" with
      | (caught, .done) => spawn (caught, if rest = [] then .done else .suspended rest)
      | (caught, .suspended frames) => spawn (caught, .suspended (frames ++ rest))
      | (caught, .threw) => unwind now caught rest
  | state, .initTerminal :: rest => unwind now (state.scheduleAlarm now) rest
  | state, _ :: rest => unwind now state rest

/-- Put the rest of a task back after one of its segments ended. -/
def settle (now : Millis) (rest : List Frame) : Segment → State
  | (state, .done) => spawn (state, if rest = [] then .done else .suspended rest)
  | (state, .suspended frames) => spawn (state, .suspended (frames ++ rest))
  | (state, .threw) => unwind now state rest

def resumeTask (now : Millis) (state : State) (task : Nat) (reply : Reply) : State :=
  match state.tasks[task]? with
  | some (frame :: rest) =>
      settle now rest
        (resumeFrame now { state with tasks := state.tasks.eraseIdx task } reply frame)
  | _ => state

def acceptSocket (now : Millis) (state : State) (agentId : AgentId) : State :=
  { state with
    sockets := state.sockets ++
      [{ id := state.nextSocket
         agentId := agentId
         isOpen := true
         hello := none
         drainingJobIds := []
         connectedAt := now
         lastSeenAt := now }]
    nextSocket := state.nextSocket + 1 }

/-- `webSocketClose`; the runtime no longer lists the socket. -/
def webSocketClose (now : Millis) (state : State) (entry : Socket) : Segment :=
  let removed := { state with sockets := delete state.sockets (·.id = entry.id) }
  if entry.hello.isSome then handleAgentDisconnect now removed entry.id entry.agentId
  else (removed, .done)

def webSocketError (now : Millis) (state : State) (entry : Socket) : Segment :=
  if entry.hello.isSome then handleAgentDisconnect now state entry.id entry.agentId
    else (state, .done)

/-- External events.  `leaveOpen` is the peer or the network ending a connection
before the runtime delivers the close event. -/
inductive Event where
  | enqueue (job : QueuedJob) (deliveryId : String) (now : Millis)
  | connect (agentId : AgentId) (now : Millis)
  | leaveOpen (socket : SocketId)
  | message (socket : SocketId) (message : AgentMessage) (now : Millis)
  | close (socket : SocketId) (now : Millis)
  | error (socket : SocketId) (now : Millis)
  | alarm (now : Millis)
  | resume (task : Nat) (reply : Reply) (now : Millis)
deriving Repr, DecidableEq

/-- Deliver a socket event, if the runtime still knows the socket. -/
def onSocket (state : State) (socket : SocketId) (handler : Socket → Segment) : State :=
  match state.socket? socket with
  | none => state
  | some entry => spawn (handler entry)

/-- The Workspace after one event. -/
def step (state : State) : Event → State
  | .enqueue job deliveryId now => spawn (enqueue now state job deliveryId)
  | .connect agentId now => acceptSocket now state agentId
  | .leaveOpen socket => closeSocket state socket
  | .message socket message now =>
      onSocket state socket fun entry => webSocketMessage now state entry message
  | .close socket now => onSocket state socket (webSocketClose now state)
  | .error socket now => onSocket state socket (webSocketError now state)
  | .alarm now => spawn (alarm now state)
  | .resume task reply now => resumeTask now state task reply

/-- An empty Durable Object. -/
def initial : State := {}

end Text

end GitZero.ControlPlane
