/-
Module: GitZero.ControlPlane.Actions
Purpose: The elementary actions of the Workspace on its jobs, leases, outbox and
  assignment history.  Every segment of every handler is a sequence of them;
  results about whole runs are proved action by action.
Trusted boundary: none
Main exports: RowStep, Action, Acts, Trace, Action.moves, Action.queues,
  Action.within
-/
import GitZero.ControlPlane.Workspace
import GitZero.ControlPlane.Leases
import Mathlib.Logic.Relation

namespace GitZero.ControlPlane

open Table

/-- The three places that call `completeInfrastructureJob`. -/
inductive CompletionCause where
  /-- `requeue`, with the assignment attempts used up -/
  | attemptsExhausted
  /-- `alarm`, past the queue deadline -/
  | queueExpired
  /-- the `catch` of `initializeJob`, with the initialization attempts used up -/
  | initializationExhausted
deriving DecidableEq

/-- The `UPDATE` statements on `jobs` other than the assigning one.  The agent is
the one named in the `WHERE` clause. -/
inductive RowKind where
  | claimInitialization
  | storeInitialization
  | retryInitialization
  | exhaustInitialization
  | completeInitializing
  | completeInfrastructure (cause : CompletionCause)
  | start (agent : AgentId)
  | reject (agent : AgentId)
  | requeue
  | finish (agent : AgentId)
  | renew (agent : AgentId)
  | syncCheck
deriving DecidableEq

/-- What each statement assigns, and what is known of a row it selects. -/
inductive RowStep : RowKind → JobRow → JobRow → Prop where
  | claimInitialization {row : JobRow} (now : Millis) (queued : row.status = .queued)
      (needed : row.initializationNeeded ≠ .ready) :
      RowStep .claimInitialization row (ControlPlane.claimInitialization now row)
  | storeInitialization {row : JobRow} (job : QueuedJob) (queued : row.status = .queued)
      (claimed : row.initializationNeeded = .running) (same : job.id = row.id) :
      RowStep .storeInitialization row
        { row with
          job := job
          initializationNeeded := .ready
          initializationRetryAt := none
          lastError := none }
  | retryInitialization {row : JobRow} (retryAt : Millis) (detail : String)
      (queued : row.status = .queued) (claimed : row.initializationNeeded = .running) :
      RowStep .retryInitialization row
        { row with
          initializationNeeded := .pending
          initializationRetryAt := some retryAt
          lastError := some detail }
  | exhaustInitialization {row : JobRow} (detail : String) (queued : row.status = .queued)
      (claimed : row.initializationNeeded = .running) :
      RowStep .exhaustInitialization row
        { row with
          initializationNeeded := .ready
          initializationRetryAt := none
          lastError := some detail }
  | completeInitializing {row : JobRow} (now : Millis) (conclusion : Conclusion)
      (summary : String) (queued : row.status = .queued)
      (claimed : row.initializationNeeded = .running) :
      RowStep .completeInitializing row
        { row with
          status := .completed
          completedAt := some now
          conclusion := some conclusion
          summary := some summary
          checkSyncNeeded := false
          lastError := some summary
          initializationNeeded := .ready
          initializationRetryAt := none }
  | completeInfrastructure {row : JobRow} {cause : CompletionCause} (now : Millis)
      (conclusion : Conclusion) (summary : String) (unfinished : row.status ≠ .completed)
      (waited : cause = .queueExpired → row.status = .queued) :
      RowStep (.completeInfrastructure cause) row
        { row with
          status := .completed
          agentId := none
          leaseExpiresAt := none
          completedAt := some now
          conclusion := some conclusion
          summary := some summary
          checkSyncNeeded := true
          lastError := some summary
          initializationNeeded := .ready
          initializationRetryAt := none }
  | start {row : JobRow} {agent : AgentId} (now : Millis) (owner : row.agentId = some agent)
      (assigned : row.status = .assigned) :
      RowStep (.start agent) row
        { row with
          status := .running
          startedAt := some now
          leaseExpiresAt := some (now + leaseMilliseconds)
          checkSyncNeeded := true }
  | reject {row : JobRow} {agent : AgentId} (requirements : List RunnerRequirement)
      (reason : String) (owner : row.agentId = some agent) (assigned : row.status = .assigned) :
      RowStep (.reject agent) row
        { row with
          status := .queued
          agentId := none
          leaseExpiresAt := none
          startedAt := none
          lastError := some reason
          runnerRequirements := requirements
          attemptCount := row.attemptCount - 1 }
  | requeue {row : JobRow} (reason : String) (active : row.active = true)
      (attempts : row.attemptCount < maxAssignmentAttempts) :
      RowStep .requeue row
        { row with
          status := .queued
          agentId := none
          leaseExpiresAt := none
          startedAt := none
          lastError := some reason }
  | finish {row : JobRow} {agent : AgentId} (now : Millis) (conclusion : Conclusion)
      (summary : String) (owner : row.agentId = some agent) (active : row.active = true) :
      RowStep (.finish agent) row
        { row with
          status := .completed
          completedAt := some now
          conclusion := some conclusion
          summary := some summary
          leaseExpiresAt := none
          checkSyncNeeded := true }
  | renew {row : JobRow} {agent : AgentId} (expiresAt : Millis)
      (owner : row.agentId = some agent) (active : row.active = true) :
      RowStep (.renew agent) row { row with leaseExpiresAt := some expiresAt }
  | syncCheck {row : JobRow} : RowStep .syncCheck row { row with checkSyncNeeded := false }

theorem RowStep.id_eq {kind : RowKind} {old new : JobRow} (rowStep : RowStep kind old new) :
    new.id = old.id := by
  cases rowStep <;> rfl

theorem RowStep.named {kind : RowKind} {old new : JobRow} (rowStep : RowStep kind old new)
    (named : old.job.id = old.id) : new.job.id = new.id := by
  cases rowStep <;> first | exact named | assumption

/-- What a statement of a handler does to the state: every event is a row of these. -/
inductive Action where
  /-- nothing but the alarm, the deployments, bookkeeping and the tasks -/
  | quiet
  /-- a change of one socket that leaves its agent, its hello and whether it is open -/
  | sockets
  /-- a socket that leaves the state `OPEN` -/
  | shut (socket : SocketId)
  | greet (socket : SocketId) (hello : AgentHello)
  | connect (agent : AgentId)
  | dropSocket (socket : SocketId)
  | job (kind : RowKind) (id : JobId)
  | assign (id : JobId) (agent : AgentId) (socket : SocketId)
  | insert (id : JobId)
  | prune (now : Millis)
  | countRequeue
  | releaseRun (id : JobId)
  | release (requestId : RequestId) (runId : JobId) (agent : AgentId)
  | acquire (requestId : RequestId) (runId : JobId) (agent : AgentId)
  | send (socket : SocketId) (message : ServerMessage)
  /-- no change: a disconnect loop goes to sleep with these rows to go -/
  | suspendLoop (socket : SocketId) (rows : List JobRow)

/-- The part of the state that actions other than `quiet` change. -/
structure SameCore (before after : State) : Prop where
  jobs : after.jobs = before.jobs
  leases : after.leases = before.leases
  nextSequence : after.nextSequence = before.nextSequence
  assignments : after.assignments = before.assignments
  outbox : after.outbox = before.outbox
  requeues : after.requeues = before.requeues
  cutoffs : after.cutoffs = before.cutoffs
  nextSocket : after.nextSocket = before.nextSocket

/-- The same agent on the other side, and the same hello. -/
structure SameEndpoint (old new : Socket) : Prop where
  id : new.id = old.id
  agentId : new.agentId = old.agentId
  hello : new.hello = old.hello
  isOpen : new.isOpen = old.isOpen

/-- The statements that select active rows and end their assignment or start it. -/
def RowKind.moves : RowKind → Bool
  | .completeInfrastructure _ | .start _ | .reject _ | .requeue | .finish _ => true
  | _ => false

/-- The statements that follow a release of all leases of their run. -/
def RowKind.unheld : RowKind → Bool
  | .completeInfrastructure .attemptsExhausted | .requeue | .finish _ => true
  | _ => false

/-- The statements by which the Workspace takes a job back from its agent. -/
def RowKind.takesBack : RowKind → Bool
  | .completeInfrastructure .attemptsExhausted | .requeue | .reject _ => true
  | _ => false

theorem RowKind.still_spec {kind : RowKind} (still : kind.moves = false) :
    kind.unheld = false ∧ kind.takesBack = false := by
  cases kind with
  | completeInfrastructure | start | reject | requeue | finish => cases still
  | _ => exact ⟨rfl, rfl⟩

/-- The action may change owner, status or assignment of the active job. -/
def Action.moves : Action → JobId → Prop
  | .job kind id, jobId => kind.moves = true ∧ id = jobId
  | .assign id _ _, jobId => id = jobId
  | _, _ => False

/-- The action may put the job into the queue. -/
def Action.queues : Action → JobId → Prop
  | .job .requeue id, jobId | .job (.reject _) id, jobId | .insert id, jobId => id = jobId
  | _, _ => False

/-- The actions of the Workspace on its own account, with every requeue, every
assignment and every release of a run concerning a job of `ids`.  What only an
agent's message, an enqueue or the `catch` of an initialization can cause is left
out. -/
def Action.within (ids : JobId → Prop) : Action → Prop
  | .job .requeue id | .job (.completeInfrastructure .attemptsExhausted) id
  | .job (.completeInfrastructure .queueExpired) id => ids id
  | .job (.completeInfrastructure .initializationExhausted) _ | .job (.start _) _
  | .job (.reject _) _ | .job (.finish _) _ => False
  | .assign id _ _ | .releaseRun id => ids id
  | .insert _ | .release _ _ _ | .acquire _ _ _ => False
  | .shut _ | .greet _ _ | .connect _ | .dropSocket _ | .suspendLoop _ _ => False
  | _ => True

theorem Action.within_of_still {ids : JobId → Prop} {kind : RowKind} {id : JobId}
    (still : kind.moves = false) : (Action.job kind id).within ids := by
  cases kind with
  | completeInfrastructure | start | reject | requeue | finish => cases still
  | _ => trivial

theorem Action.within_moves {ids : JobId → Prop} {action : Action} {jobId : JobId}
    (inside : action.within ids) (moves : action.moves jobId) : ids jobId := by
  cases action with
  | job kind id =>
      obtain ⟨moving, rfl⟩ := moves
      cases kind with
      | completeInfrastructure cause => cases cause <;> first | exact inside | exact inside.elim
      | requeue => exact inside
      | start | reject | finish => exact inside.elim
      | _ => cases moving
  | assign id => exact moves ▸ inside
  | _ => exact moves.elim

theorem Action.within_queues {ids : JobId → Prop} {action : Action} {jobId : JobId}
    (inside : action.within ids) (queues : action.queues jobId) : ids jobId := by
  cases action with
  | job kind id =>
      cases kind with
      | requeue => exact queues ▸ inside
      | reject => exact inside.elim
      | _ => exact queues.elim
  | insert => exact inside.elim
  | _ => exact queues.elim

/-- Only `requeue` and a rejection make a row queued. -/
theorem RowStep.queued {kind : RowKind} {old new : JobRow} (rowStep : RowStep kind old new)
    (queued : new.status = .queued) :
    old.status = .queued ∨ ∀ id, (Action.job kind id).queues id := by
  cases rowStep with
  | claimInitialization now was | storeInitialization job was
  | retryInitialization retryAt detail was | exhaustInitialization detail was => exact .inl was
  | completeInitializing | completeInfrastructure | start | finish => cases queued
  | reject | requeue => exact .inr fun _ => rfl
  | renew | syncCheck => exact .inl queued

/-- A row update that does not move its job leaves active rows with their agent. -/
theorem RowStep.owner_of_still {kind : RowKind} {old new : JobRow}
    (rowStep : RowStep kind old new) (still : kind.moves = false) (active : old.active = true) :
    new.status = old.status ∧ new.agentId = old.agentId := by
  cases rowStep with
  | renew | syncCheck => exact ⟨rfl, rfl⟩
  | completeInfrastructure | start | reject | requeue | finish => cases still
  | claimInitialization now queued | storeInitialization job queued
  | retryInitialization retryAt detail queued | exhaustInitialization detail queued
  | completeInitializing now conclusion summary queued => simp [JobRow.active, queued] at active

theorem Action.within_mono {ids more : JobId → Prop} (weaker : ∀ id, ids id → more id) :
    ∀ action : Action, action.within ids → action.within more := by
  intro action inside
  cases action with
  | job kind id =>
      cases kind with
      | completeInfrastructure cause =>
          cases cause <;> first | exact weaker id inside | exact inside.elim
      | requeue => exact weaker id inside
      | start | reject | finish => exact inside.elim
      | _ => trivial
  | assign id | releaseRun id => exact weaker id inside
  | insert | release | acquire | shut | greet | connect | dropSocket | suspendLoop =>
      exact inside.elim
  | _ => trivial

/-! ### Actions on the state -/

section Text

variable [JsText]

/-- The change of the state that goes with an action, with the guards that the code checks and the
rows that it selects. -/
inductive Acts : Action → State → State → Prop where
  | quiet {before after : State} (core : SameCore before after)
      (sockets : after.sockets = before.sockets) : Acts .quiet before after
  | sockets {state : State} (socket : SocketId) (set : Socket → Socket)
      (keeps : ∀ entry, SameEndpoint entry (set entry)) :
      Acts .sockets state (state.updateSocket socket set)
  | shut {state : State} (socket : SocketId) : Acts (.shut socket) state (closeSocket state socket)
  | greet {state : State} (socket : SocketId) (hello : AgentHello) (now : Millis) :
      Acts (.greet socket hello) state (acceptHello now state socket hello)
  | connect {state : State} (agentId : AgentId) (now : Millis) :
      Acts (.connect agentId) state (acceptSocket now state agentId)
  | dropSocket {state : State} (socket : SocketId) :
      Acts (.dropSocket socket) state
        { state with sockets := delete state.sockets (·.id = socket) }
  | job {state : State} (kind : RowKind) (id : JobId) (selected : JobRow → Bool)
      (set : JobRow → JobRow)
      (rows : ∀ row ∈ state.jobs, selected row = true → row.id = id ∧ RowStep kind row (set row))
      (unheld : kind.unheld = true → ∀ lease ∈ state.leases, lease.runId ≠ id)
      (counted : kind.takesBack = true → 0 < state.requeues) :
      Acts (.job kind id) state (state.updateJobs selected set)
  | assign {state : State} (queued : JobRow) (candidate : AgentCandidate) (now : Millis)
      (member : queued ∈ state.jobs) (status : queued.status = .queued)
      (ready : queued.initializationNeeded = .ready)
      (available : candidate ∈ availableAgents state) :
      Acts (.assign queued.id candidate.agentId candidate.socket) state
        (claimJob state queued candidate now)
  | insert {state : State} (now : Millis) (runNumber : Nat) (job : QueuedJob)
      (fresh : ∀ row ∈ state.jobs, row.id ≠ job.id) :
      Acts (.insert job.id) state
        { state with jobs := state.jobs ++ [queuedRow now runNumber job] }
  | prune {state : State} (now : Millis) : Acts (.prune now) state (state.prune now)
  | countRequeue {state : State} :
      Acts .countRequeue state { state with requeues := state.requeues + 1 }
  | releaseRun {state : State} (runId : JobId) (reason : String) :
      Acts (.releaseRun runId) state (state.releaseConcurrencyForRun runId reason)
  | release {state : State} (requestId : RequestId) (runId : JobId) (agent : AgentId) :
      Acts (.release requestId runId agent) state (state.releaseConcurrency requestId runId agent)
  | acquire {state : State} (socket : SocketId) (agent : AgentId) (row : JobRow)
      (requestId : RequestId) (unitId group : String) (cancelInProgress : Bool)
      (queue : QueueMode) (now : Millis) (owned : state.assignedJob row.id agent = some row) :
      Acts (.acquire requestId row.id agent) state
        (state.acquireConcurrency socket agent row requestId unitId group cancelInProgress
          queue now)
  | send {state : State} (socket : SocketId) (message : ServerMessage)
      (run : ∀ spec assignment, message = .runJob spec assignment →
        ∃ agent, state.assignments[assignment]? =
          some { job := spec.id, agent := agent, socket := socket }) :
      Acts (.send socket message) state
        { state with outbox := state.outbox ++ [(socket, message)] }

/-- A sequence of allowed actions. -/
def Trace (allowed : Action → Prop) : State → State → Prop :=
  Relation.ReflTransGen fun before after => ∃ action, allowed action ∧ Acts action before after

namespace Trace

variable {allowed more : Action → Prop} {first second third : State}

theorem refl (state : State) : Trace allowed state state := Relation.ReflTransGen.refl

theorem trans (front : Trace allowed first second) (back : Trace allowed second third) :
    Trace allowed first third := Relation.ReflTransGen.trans front back

theorem one {action : Action} (acts : Acts action first second) (ok : allowed action) :
    Trace allowed first second := Relation.ReflTransGen.single ⟨action, ok, acts⟩

theorem mono (trace : Trace allowed first second)
    (weaker : ∀ action, allowed action → more action) : Trace more first second := by
  induction trace with
  | refl => exact refl _
  | tail _ last inductionHypothesis =>
      obtain ⟨action, ok, acts⟩ := last
      exact inductionHypothesis.trans (one acts (weaker action ok))

/-- A property that every allowed action keeps is kept by the trace. -/
theorem invariant {Inv : State → Prop}
    (keeps : ∀ action before after, allowed action → Acts action before after →
      Inv before → Inv after)
    (trace : Trace allowed first second) (before : Inv first) : Inv second := by
  induction trace with
  | refl => exact before
  | tail _ last inductionHypothesis =>
      obtain ⟨action, ok, acts⟩ := last
      exact keeps action _ _ ok acts inductionHypothesis

end Trace

end Text

end GitZero.ControlPlane
