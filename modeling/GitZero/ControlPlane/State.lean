/-
Module: GitZero.ControlPlane.State
Purpose: The Workspace's storage, sockets and suspended tasks, with the reads
  and writes that several handlers share.
Trusted boundary: none
Main exports: Socket, Frame, Assignment, State, State.sendServer,
  State.sendToAgent, State.jobRow?, State.scheduleAlarm, State.prune
-/
import GitZero.ControlPlane.Schema

namespace GitZero.ControlPlane

open Table

/-- A registered agent WebSocket with its serialized attachment.  `isOpen` is
`readyState === WebSocket.OPEN`. -/
structure Socket where
  id : SocketId
  agentId : AgentId
  isOpen : Bool
  hello : Option AgentHello
  drainingJobIds : List JobId
  connectedAt : Millis
  lastSeenAt : Millis
deriving Repr, DecidableEq, Inhabited

/-- History variable: one execution of the assigning `UPDATE` of `tryDispatch`. -/
structure Assignment where
  job : JobId
  agent : AgentId
  socket : SocketId
deriving Repr, DecidableEq, Inhabited

/-!
An `async` handler is cut at its `await`s.  What is left to do after an `await`
is a `Frame`; a suspended task is the stack of frames of the functions that are
waiting for one another, innermost first.  The last `await` of a function needs
no frame.
-/

/-- Where an async function of the Workspace is suspended, with the local variables it still
needs. -/
inductive Frame where
  /-- `tryDispatch` in `createAgentToken`; `assignment` is the history position
  of the claim this iteration made. -/
  | dispatchToken (assignment : Nat) (job : QueuedJob) (agentId : AgentId) (socket : SocketId)
  /-- `tryDispatch` in `scheduleAlarm` at the end of an iteration -/
  | dispatchLoop
  /-- `tryDispatch` in `syncCheck(terminal)` of its `catch` -/
  | dispatchFailed
  /-- `initializeJob` in `fetchPullRequestMergeSnapshot` -/
  | initMergeSnapshot (claim : JobRow) (job : QueuedJob)
  /-- `initializeJob` in `fetchActionsVariables` -/
  | initVariables (claim : JobRow) (job : QueuedJob)
  /-- `initializeJob` in `createCheckRun` -/
  | initCheckRun (claim : JobRow) (job : QueuedJob)
  /-- `initializeJob` in `tryDispatch`, still inside its `try` -/
  | initDispatched (claim : JobRow)
  /-- `initializeJob` in `syncCheck` of its `catch` -/
  | initTerminal
  /-- `syncCheck` in `updateCheckRun` -/
  | checkUpdate (row : JobRow)
  /-- `syncDeployment` in `syncGitHubDeployment` -/
  | deploymentSync (claim : DeploymentRow)
  /-- `handleAgentDisconnect` in `syncCheck(terminal)`, with the rows to go;
  `socket` is history -/
  | disconnect (socket : SocketId) (rest : List JobRow)
  /-- `alarm` in `initializeJob`, with the ids to go -/
  | alarmInit (rest : List JobId)
  /-- `alarm` in `syncCheck`, with the rows to go and its second clock reading -/
  | alarmCheck (rest : List JobRow) (dueAt : Millis)
  /-- `alarm` in `syncDeployment`, with the keys to go -/
  | alarmDeployment (rest : List (JobId × String)) (dueAt : Millis)
  /-- heartbeat in `scheduleAlarm`; `tryDispatch` is next -/
  | heartbeatScheduled
  /-- `job_finished` in `syncCheck`; `tryDispatch` is next -/
  | finishedSynced
  /-- in `tryDispatch`; `scheduleAlarm` is next and last -/
  | scheduleAfterDispatch
  /-- token and secret requests in their GitHub or WebCrypto call -/
  | credential (kind : CredentialKind) (jobId : JobId) (requestId : RequestId)
      (agentId : AgentId) (socket : SocketId)
  /-- `webSocketMessage` in `handleAgentEvent`; the acknowledgement is next -/
  | ack (socket : SocketId) (messageId : MessageId)
deriving Repr, DecidableEq, Inhabited

/-- The Workspace between two segments: its tables, its sockets with what was sent and not yet
delivered, and the functions that are suspended; the history variables are read by no handler. -/
structure State where
  jobs : List JobRow := []
  /-- `concurrency_leases` in the order of its AUTOINCREMENT `sequence` -/
  leases : List ConcurrencyRow := []
  nextSequence : Nat := 1
  deployments : List DeploymentRow := []
  events : List (JobId × EventPayload) := []
  deliveries : List (String × JobId) := []
  messages : List (MessageId × Millis) := []
  runNumber : Nat := 0
  sockets : List Socket := []
  nextSocket : SocketId := 0
  /-- messages sent and not yet delivered; each socket's share of it is ordered -/
  outbox : List (SocketId × ServerMessage) := []
  alarm : Option Millis := none
  tasks : List (List Frame) := []
  /-- history variable: every assignment made so far -/
  assignments : List Assignment := []
  /-- history variable: how often a job was taken back from its agent by
  `requeue` or by an accepted rejection -/
  requeues : Nat := 0
  /-- history variable: the cutoff of every `prune` so far -/
  cutoffs : List Millis := []
deriving Repr, DecidableEq, Inhabited

namespace State

def jobRow? (state : State) (jobId : JobId) : Option JobRow :=
  row JobRow.id state.jobs jobId

def updateJobs (state : State) (selected : JobRow → Bool) (set : JobRow → JobRow) : State :=
  { state with jobs := update state.jobs selected set }

def updateLeases (state : State) (selected : ConcurrencyRow → Bool)
    (set : ConcurrencyRow → ConcurrencyRow) : State :=
  { state with leases := update state.leases selected set }

def updateDeployments (state : State) (selected : DeploymentRow → Bool)
    (set : DeploymentRow → DeploymentRow) : State :=
  { state with deployments := update state.deployments selected set }

def socket? (state : State) (socket : SocketId) : Option Socket :=
  row Socket.id state.sockets socket

def updateSocket (state : State) (socket : SocketId) (set : Socket → Socket) : State :=
  { state with sockets := update state.sockets (fun candidate => candidate.id = socket) set }

def socketOpen (state : State) (socket : SocketId) : Bool :=
  (state.socket? socket).any (·.isOpen)

/-- `socket.send` throws (`none`) unless the socket is open. -/
def sendServer (state : State) (socket : SocketId) (message : ServerMessage) : Option State :=
  if state.socketOpen socket then
    some { state with outbox := state.outbox ++ [(socket, message)] }
  else none

/-- A send after which the handler has nothing more to do, so that a throw
changes nothing else. -/
def sendLast (state : State) (socket : SocketId) (message : ServerMessage) : State :=
  (state.sendServer socket message).getD state

/-- Send to the first open socket of an agent; the flag is the return value. -/
def sendToAgent (state : State) (agentId : AgentId) (message : ServerMessage) : State × Bool :=
  match state.sockets.find? fun socket => socket.agentId = agentId && socket.isOpen with
  | some socket => ({ state with outbox := state.outbox ++ [(socket.id, message)] }, true)
  | none => (state, false)

/-- `cancel_job` goes to every open socket of the row's agent. -/
def cancelOnAgent (state : State) (row : JobRow) (reason : String) : State :=
  match row.agentId with
  | none => state
  | some agentId =>
      { state with
        outbox := state.outbox ++
          (state.sockets.filter fun socket => socket.agentId = agentId && socket.isOpen).map
            fun socket => (socket.id, .cancelJob row.id reason) }

def eventPayload (state : State) (jobId : JobId) : EventPayload :=
  ((state.events.find? fun entry => entry.1 = jobId).map (·.2)).getD {}

/-- Owner check of agent messages; `none` where the source throws. -/
def assignedJob (state : State) (jobId : JobId) (agentId : AgentId) : Option JobRow :=
  (state.jobRow? jobId).filter fun row =>
    row.agentId = some agentId &&
      (row.status = .assigned || row.status = .running || row.status = .completed)

def deploymentRow? (state : State) (jobId : JobId) (unitId : String) : Option DeploymentRow :=
  row (fun deployment => (deployment.jobId, deployment.unitId)) state.deployments (jobId, unitId)

/-- The `UPDATE` shared by the three handlers that change a deployment's desired
state: an in-flight sync keeps its claim, attempt count and deadline. -/
def desireDeployment (desired : DeploymentState) (url : Option String) (now : Millis)
    (deployment : DeploymentRow) : DeploymentRow :=
  { deployment with
    desiredState := desired
    environmentUrl := url
    syncNeeded := if deployment.syncNeeded = .running then .running else .pending
    syncAttemptCount :=
      if deployment.syncNeeded = .running then deployment.syncAttemptCount else 0
    syncRetryAt := if deployment.syncNeeded = .running then deployment.syncRetryAt else some now
    lastError := none
    updatedAt := now }

def finishOutstandingDeployments (state : State) (jobId : JobId) (now : Millis) : State :=
  state.updateDeployments
    (fun deployment => deployment.jobId = jobId && deployment.desiredState = .inProgress)
    (desireDeployment .error none now)

def completeInfrastructureJob (state : State) (row : JobRow) (conclusion : Conclusion)
    (summary : String) (now : Millis) : State :=
  (state.updateJobs
    (fun job => job.id = row.id &&
      (job.status = .queued || job.status = .assigned || job.status = .running))
    fun job =>
      { job with
        status := .completed
        agentId := none
        leaseExpiresAt := none
        completedAt := some now
        conclusion := some conclusion
        summary := some summary
        checkSyncNeeded := true
        lastError := some summary
        initializationNeeded := .ready
        initializationRetryAt := none }).finishOutstandingDeployments row.id now

def completeInitializingJob (state : State) (row : JobRow) (conclusion : Conclusion)
    (summary : String) (now : Millis) : State :=
  state.updateJobs
    (fun job => job.id = row.id && job.status = .queued && job.initializationNeeded = .running)
    fun job =>
      { job with
        status := .completed
        completedAt := some now
        conclusion := some conclusion
        summary := some summary
        checkSyncNeeded := false
        lastError := some summary
        initializationNeeded := .ready
        initializationRetryAt := none }

/-- The least of the deadlines that are set (`SELECT MIN`). -/
def earliest (deadlines : List (Option Millis)) : Option Millis :=
  deadlines.reduceOption.min?

def scheduleAlarm (state : State) (now : Millis) : State :=
  let lease := earliest ((state.jobs.filter (·.active)).map (·.leaseExpiresAt))
  let queueDeadline :=
    earliest ((state.jobs.filter (·.status = .queued)).map fun row => some row.queueExpiresAt)
  let checkRetry :=
    if state.jobs.any (·.checkSyncNeeded) then some (now + checkRetryMilliseconds) else none
  let initializationRetry :=
    earliest ((state.jobs.filter fun row =>
      row.status = .queued && row.initializationNeeded ≠ .ready).map (·.initializationRetryAt))
  let deploymentRetry :=
    earliest ((state.deployments.filter (·.syncNeeded ≠ .synced)).map (·.syncRetryAt))
  { state with
    alarm := earliest [lease, queueDeadline, checkRetry, initializationRetry, deploymentRetry] }

/-- `status = 'completed' AND completed_at < cutoff` -/
def prunable (cutoff : Millis) (row : JobRow) : Bool :=
  row.status = .completed && row.completedAt.any (· < cutoff)

def prune (state : State) (now : Millis) : State :=
  let cutoff := now - retentionMilliseconds
  let gone : JobId → Bool := fun jobId =>
    state.jobs.any fun row => row.id = jobId && prunable cutoff row
  { state with
    messages := delete state.messages fun entry => entry.2 < cutoff
    deliveries := delete state.deliveries fun entry => gone entry.2
    events := delete state.events fun entry => gone entry.1
    deployments := delete state.deployments fun deployment => gone deployment.jobId
    jobs := delete state.jobs (prunable cutoff)
    cutoffs := state.cutoffs ++ [cutoff] }

end State

end GitZero.ControlPlane
