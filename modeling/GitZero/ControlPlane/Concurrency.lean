/-
Module: GitZero.ControlPlane.Concurrency
Purpose: Repository-scoped concurrency groups: acquire, release, release of a
  whole run, and promotion of the next waiter.
Trusted boundary: none
Main exports: State.acquireConcurrency, State.releaseConcurrency,
  State.releaseConcurrencyForRun, State.promoteConcurrency, State.requeue
-/
import GitZero.ControlPlane.State

namespace GitZero.ControlPlane.State

open Table

/-- The row that the promotion transaction picks, in `sequence` order: no holder
in the group, and the run still active on the lease's agent. -/
def promotable (state : State) (repositoryKey groupKey : String) : Option ConcurrencyRow :=
  if state.leases.any fun lease => lease.inGroup repositoryKey groupKey && lease.holds then none
  else
    state.leases.find? fun lease =>
      lease.inGroup repositoryKey groupKey && lease.status = .waiting &&
        state.jobs.any fun job =>
          job.id = lease.runId && job.active && job.agentId = some lease.agentId

/-- The promotion loop.  Each turn that does not return deletes a row, so
`promoteConcurrency` starts it with more turns than there are rows. -/
def promoteLoop : Nat → State → String → String → State
  | 0, state, _, _ => state
  | turns + 1, state, repositoryKey, groupKey =>
      match state.promotable repositoryKey groupKey with
      | none => state
      | some next =>
          let promoted := state.updateLeases
            (fun lease => lease.requestId = next.requestId && lease.status = .waiting)
            fun lease => { lease with status := .active }
          match promoted.sendToAgent next.agentId (.concurrencyGranted next.requestId) with
          | (sent, true) => sent
          | (unsent, false) =>
              promoteLoop turns
                { unsent with
                  leases := delete unsent.leases fun lease => lease.requestId = next.requestId }
                repositoryKey groupKey

def promoteConcurrency (state : State) (repositoryKey groupKey : String) : State :=
  promoteLoop (state.leases.length + 1) state repositoryKey groupKey

def sendConcurrencyCancellation (state : State) (lease : ConcurrencyRow) (reason : String) :
    State :=
  (state.sendToAgent lease.agentId (.concurrencyCancelled lease.requestId reason)).1

def releaseConcurrency (state : State) (requestId : RequestId) (runId : JobId)
    (agentId : AgentId) : State :=
  let released : ConcurrencyRow → Bool := fun lease =>
    lease.requestId = requestId && lease.runId = runId && lease.agentId = agentId
  match state.leases.find? released with
  | none => state
  | some lease =>
      let remaining := { state with leases := delete state.leases released }
      if lease.status = .waiting then remaining
      else remaining.promoteConcurrency lease.repositoryKey lease.groupKey

/-- The groups of the deleted rows that held or were cancelling, each once, in
the order of a JavaScript `Map`. -/
def heldGroups (leases : List ConcurrencyRow) : List (String × String) :=
  ((leases.filter (·.status ≠ .waiting)).map
    fun lease => (lease.repositoryKey, lease.groupKey)).eraseDups

def releaseConcurrencyForRun (state : State) (runId : JobId) (reason : String) : State :=
  let leases := state.leases.filter (·.runId = runId)
  let remaining := { state with leases := delete state.leases (·.runId = runId) }
  let notified := leases.foldl
    (fun current lease => current.sendConcurrencyCancellation lease reason) remaining
  (heldGroups leases).foldl
    (fun current group => current.promoteConcurrency group.1 group.2) notified

/-- Take an active job from its agent: back to the queue, or completed when its
assignment attempts are used up (the second component is then the row that the
caller must report).  `none` where the source throws: the row does not exist. -/
def requeue (state : State) (jobId : JobId) (reason : String) (now : Millis) :
    Option (State × Option JobRow) :=
  match state.jobRow? jobId with
  | none => none
  | some row =>
      if row.active = false then some (state, none)
      else
        let counted : State := { state with requeues := state.requeues + 1 }
        let released := counted.releaseConcurrencyForRun row.id
          ("The parent GitZero run was requeued: " ++ reason)
        if row.attemptCount ≥ maxAssignmentAttempts then
          let completed := released.completeInfrastructureJob row .failure
            ("GitZero could not complete the run after " ++ toString row.attemptCount ++
              " agent assignment attempts. Last error: " ++ reason) now
          some (completed, completed.jobRow? jobId)
        else
          some
            (released.updateJobs (fun job => job.id = jobId && job.active)
              fun job =>
                { job with
                  status := .queued
                  agentId := none
                  leaseExpiresAt := none
                  startedAt := none
                  lastError := some reason },
              none)

section Text

variable [JsText]

/-- What the acquire transaction decided. -/
inductive AcquireDecision where
  | rejected (reason : String)
  | inserted (status : ConcurrencyStatus) (activeToCancel : Option ConcurrencyRow)
deriving Repr, DecidableEq

/-- The insert half of the acquire transaction: the holder, if any, moves to
`cancelling` on request, and the new row waits behind it or becomes active. -/
def insertLease (state : State) (lease : ConcurrencyRow) (cancelInProgress : Bool) :
    State × AcquireDecision :=
  let holder := state.leases.find? fun other =>
    other.inGroup lease.repositoryKey lease.groupKey && other.holds
  let cancelled := if cancelInProgress then holder else none
  let marked :=
    match cancelled with
    | none => state
    | some active =>
        state.updateLeases (fun other => other.requestId = active.requestId)
          fun other => { other with status := .cancelling }
  let status : ConcurrencyStatus := if holder.isSome then .waiting else .active
  ({ marked with
      leases := marked.leases ++
        [{ lease with sequence := marked.nextSequence, status := status }]
      nextSequence := marked.nextSequence + 1 },
    .inserted status cancelled)

/-- The acquire transaction: the new state, the displaced waiters and the
decision. -/
def acquireTransaction (state : State) (lease : ConcurrencyRow) (cancelInProgress : Bool) :
    State × List ConcurrencyRow × AcquireDecision :=
  let waiting : ConcurrencyRow → Bool := fun other =>
    other.inGroup lease.repositoryKey lease.groupKey && other.status = .waiting
  match lease.queueMode with
  | .single =>
      let result :=
        insertLease { state with leases := delete state.leases waiting } lease cancelInProgress
      (result.1, state.leases.filter waiting, result.2)
  | .max =>
      if (state.leases.filter waiting).length ≥ 100 then
        (state, [],
          .rejected "The concurrency group already has GitHub's maximum of 100 pending units.")
      else
        let result := insertLease state lease cancelInProgress
        (result.1, [], result.2)

/-- The row that an acquire inserts, before its sequence and status are known. -/
def requestedLease (agentId : AgentId) (row : JobRow) (requestId : RequestId)
    (unitId group : String) (queue : QueueMode) (now : Millis) : ConcurrencyRow :=
  { sequence := 0
    requestId := requestId
    runId := row.id
    agentId := agentId
    repositoryKey := repositoryKeyOf row.job.repository
    groupKey := toLowerCase (trim group)
    groupName := trim group
    unitId := unitId
    queueMode := queue
    status := .waiting
    createdAt := now }

/-- The messages after the acquire transaction: displaced waiters, a rejection,
the holder that must cancel, the grant. -/
def announceAcquire (state : State) (socket : SocketId) (lease : ConcurrencyRow)
    (displaced : List ConcurrencyRow) (decision : AcquireDecision) : State :=
  let notified := displaced.foldl
    (fun current waiter => current.sendConcurrencyCancellation waiter
      "A newer concurrency request replaced this pending unit.") state
  match decision with
  | .rejected reason => notified.sendLast socket (.concurrencyCancelled lease.requestId reason)
  | .inserted status activeToCancel =>
      let cancelled := activeToCancel.elim notified fun active =>
        notified.sendConcurrencyCancellation active
          ("A newer unit in concurrency group '" ++ lease.groupName ++
            "' requested cancel-in-progress.")
      if status = .active then cancelled.sendLast socket (.concurrencyGranted lease.requestId)
      else cancelled

/-- The reply to a request id that already has a row. -/
def repeatAcquire (state : State) (socket : SocketId) (agentId : AgentId) (row : JobRow)
    (existing : ConcurrencyRow) : State :=
  if existing.runId ≠ row.id ∨ existing.agentId ≠ agentId then
    state.sendLast socket (.concurrencyCancelled existing.requestId
      "Concurrency request ID is already owned by another run.")
  else
    match existing.status with
    | .active => state.sendLast socket (.concurrencyGranted existing.requestId)
    | .cancelling =>
        state.sendLast socket (.concurrencyCancelled existing.requestId
          "Concurrency unit was superseded by a newer request.")
    | .waiting => state

def acquireConcurrency (state : State) (socket : SocketId) (agentId : AgentId) (row : JobRow)
    (requestId : RequestId) (unitId group : String) (cancelInProgress : Bool)
    (queue : QueueMode) (now : Millis) : State :=
  match state.leases.find? fun lease => lease.requestId = requestId with
  | some existing => state.repeatAcquire socket agentId row existing
  | none =>
      let lease := requestedLease agentId row requestId unitId group queue now
      let transaction := state.acquireTransaction lease cancelInProgress
      announceAcquire transaction.1 socket lease transaction.2.1 transaction.2.2

end Text

end GitZero.ControlPlane.State
