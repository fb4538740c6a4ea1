/-
Module: GitZero.Agent.ConcurrencyRequests
Purpose: The requests of an agent for concurrency leases: a machine in which acquires, leases and
  the decisions of the control plane take turns in any order.
Trusted boundary: the tokio channels and locks; which task runs, whether the lock is taken and
  whether the outbound channel has room then is data of the events
Main exports: RequestState, Phase, Exchange, ConcurrencyClient, Action, react, Event, step
-/
import GitZero.Agent.ProblemMatchers

namespace GitZero.Agent.ConcurrencyRequests

open Commands (byteLength)
open Expression (Text)
open ProblemMatchers (truncateUtf8)
open Workflows (PlannedConcurrencyQueue)

/-- Request ids are drawn once; equality is all that is used of them. -/
abbrev Uuid := Nat

/-- The messages of an agent on a concurrency request, less their own ids. -/
inductive AgentMessage where
  | concurrencyAcquire (jobId requestId : Uuid) (unitId group : Text) (cancelInProgress : Bool)
      (queue : PlannedConcurrencyQueue)
  | concurrencyRelease (jobId requestId : Uuid)
deriving Repr, DecidableEq

/-- An entry of the request table. -/
structure RequestState where
  granted : Bool := false
  /-- Whether the sender of the grant is still in the entry. -/
  grant : Bool := true
deriving Repr, DecidableEq

def maxUnitIdBytes : Nat := 512

def boundedUnitId (value : Text) : Text :=
  if byteLength value ≤ maxUnitIdBytes then value
  else truncateUtf8 value (maxUnitIdBytes - Char.utf8Size '…') ++ ['…']

/-- The arguments of `acquire`, with the id that it draws. -/
structure Call where
  runId : Uuid
  requestId : Uuid
  unitId : Text
  group : Text
  cancelInProgress : Bool
  queue : PlannedConcurrencyQueue
deriving Repr, DecidableEq

def Call.acquireMessage (call : Call) : AgentMessage :=
  .concurrencyAcquire call.runId call.requestId (boundedUnitId call.unitId) call.group
    call.cancelInProgress call.queue

def Call.releaseMessage (call : Call) : AgentMessage :=
  .concurrencyRelease call.runId call.requestId

/-- How a request ends: `acquire` or `release` returns, or what they left is dropped. -/
inductive Ending where
  | cancelled (reason : String)
  | failed (error : String)
  | released (result : Except String Unit)
  | dropped
deriving DecidableEq

/-- Where `acquire`, the lease and its `release` are suspended. -/
inductive Phase where
  /-- `acquire` waits for the lock, to insert its entry. -/
  | inserting
  | sendingAcquire
  /-- The `select!` on the grant and the outer cancellation. -/
  | selecting
  /-- `grant_rx.await`, after the outer cancellation has lost its sender. -/
  | awaiting
  /-- `acquire` waits for the lock, to remove its entry and fail. -/
  | failing (error : String)
  /-- `abandon` waits for the lock. -/
  | abandoning
  | sendingAbandon
  /-- The lease is held. -/
  | held
  /-- `release_inner` waits for the lock. -/
  | releasing
  | sendingRelease
  | ended (ending : Ending)
deriving DecidableEq

/-- What the control plane decided on a request. -/
inductive Decision where
  | granted | cancelled
deriving Repr, DecidableEq

/-- All that belongs to one request. -/
structure Exchange where
  call : Call
  phase : Phase := .inserting
  /-- The entry of the request in the table. -/
  entry : Option RequestState := none
  /-- The value of the grant's oneshot channel. -/
  grant : Option (Except String Unit) := none
  /-- The value of the watch channel that cancels the lease. -/
  cancel : Bool := false
  outerCancelled : Bool
  outerClosed : Bool := false
  /-- The messages on the request that went into the outbound channel. -/
  outbound : List AgentMessage := []
  /-- The first decision on the request that arrived, as history. -/
  decided : Option Decision := none

/-- What a task meets when it runs. -/
structure Surroundings where
  /-- Another task holds the lock of the table. -/
  locked : Bool
  /-- The outbound channel has room. -/
  room : Bool
deriving Repr, DecidableEq

/-- The arm that `select!` looks at. -/
inductive Branch where
  | grant | outer
deriving Repr, DecidableEq

namespace Exchange

/-- `send` on the outbound channel, which waits for room and fails where the channel is closed. -/
def send (closed : Bool) (surroundings : Surroundings) (exchange : Exchange)
    (message : AgentMessage) (sent failed : Phase) : Exchange :=
  if closed then { exchange with phase := failed }
  else if surroundings.room then
    { exchange with phase := sent, outbound := exchange.outbound ++ [message] }
  else exchange

/-- `requests.lock().await.remove(&request_id)` -/
def remove (surroundings : Surroundings) (exchange : Exchange) (next : Phase) : Exchange :=
  if surroundings.locked then exchange else { exchange with entry := none, phase := next }

/-- The head of the loop of `acquire`. -/
def loopHead (exchange : Exchange) : Phase :=
  if exchange.outerCancelled then .abandoning else .selecting

/-- The response of `grant_rx`, if there is one: its sender may be gone. -/
def receive (exchange : Exchange) : Exchange :=
  match exchange.grant with
  | some (.ok _) => { exchange with phase := .held }
  | some (.error reason) => { exchange with phase := .ended (.cancelled reason) }
  | none =>
      if exchange.entry.any (·.grant) then exchange
      else { exchange with
        phase := .failing "concurrency request ended without a control plane decision" }

/-- The task of the request runs until it is suspended again. -/
def proceed (closed : Bool) (surroundings : Surroundings) (branch : Branch)
    (exchange : Exchange) : Exchange :=
  match exchange.phase with
  | .inserting =>
      if surroundings.locked then exchange
      else { exchange with entry := some {}, phase := .sendingAcquire }
  | .sendingAcquire =>
      exchange.send closed surroundings exchange.call.acquireMessage exchange.loopHead
        (.failing "control plane event channel closed while acquiring concurrency")
  | .selecting =>
      match branch with
      | .grant => exchange.receive
      | .outer =>
          if exchange.outerCancelled then { exchange with phase := .abandoning }
          else if exchange.outerClosed then { exchange with phase := .awaiting }
          else exchange
  | .awaiting => exchange.receive
  | .failing error => exchange.remove surroundings (.ended (.failed error))
  | .abandoning => exchange.remove surroundings .sendingAbandon
  | .sendingAbandon =>
      let ended : Phase := .ended (.cancelled
        "The parent run was cancelled while waiting for concurrency.")
      exchange.send closed surroundings exchange.call.releaseMessage ended ended
  | .releasing => exchange.remove surroundings .sendingRelease
  | .sendingRelease =>
      exchange.send closed surroundings exchange.call.releaseMessage (.ended (.released (.ok ())))
        (.ended (.released (.error
          "control plane event channel closed while releasing concurrency")))
  | .held => exchange
  | .ended _ => exchange

/-- The first decision stays. -/
def decide (exchange : Exchange) (decision : Decision) : Exchange :=
  { exchange with decided := exchange.decided.or (some decision) }

/-- A value for the grant, if its sender is in the entry. -/
def answer (exchange : Exchange) (request : RequestState) (value : Except String Unit) :
    Exchange :=
  if request.grant then { exchange with grant := some value } else exchange

def handleGranted (exchange : Exchange) : Exchange :=
  match exchange.entry with
  | none => exchange
  | some request =>
      { exchange.answer request (.ok ()) with entry := some { granted := true, grant := false } }

def handleCancelled (exchange : Exchange) (reason : String) : Exchange :=
  match exchange.entry with
  | none => exchange
  | some request =>
      if request.granted then { exchange with cancel := true }
      else { exchange.answer request (.error reason) with entry := none }

/-- What `cancel_all` does to an entry. -/
def drain (exchange : Exchange) : Exchange :=
  match exchange.entry with
  | none => exchange
  | some request =>
      { exchange.answer request (.error "Control plane connection closed.") with
        entry := none, cancel := true }

/-- `Drop` of a lease: `try_lock` and `try_send` -/
def dropLease (closed : Bool) (surroundings : Surroundings) (exchange : Exchange) : Exchange :=
  { exchange with
    phase := .ended .dropped
    entry := if surroundings.locked then exchange.entry else none
    outbound :=
      if !closed && surroundings.room then exchange.outbound ++ [exchange.call.releaseMessage]
      else exchange.outbound }

end Exchange

/-- `acquire` has not returned. -/
def Phase.isAcquiring : Phase → Bool
  | .inserting | .sendingAcquire | .selecting | .awaiting | .failing _ | .abandoning
  | .sendingAbandon => true
  | _ => false

/-- `release` has not returned. -/
def Phase.isReleasing : Phase → Bool
  | .releasing | .sendingRelease => true
  | _ => false

/-- What happens to a request. -/
inductive Action where
  | proceed (surroundings : Surroundings) (branch : Branch)
  | granted (surroundings : Surroundings)
  | cancelled (surroundings : Surroundings) (reason : String)
  | cancelOuter
  | closeOuter
  | release
  | dropLease (surroundings : Surroundings)
  | dropAcquire
  | dropRelease
deriving Repr, DecidableEq

/-- One action. A decision answers an acquire message, which alone carries the id to the control
plane; the handlers wait while the lock is taken. -/
def react (closed : Bool) (exchange : Exchange) : Action → Exchange
  | .proceed surroundings branch => exchange.proceed closed surroundings branch
  | .granted surroundings =>
      if exchange.outbound = [] || surroundings.locked then exchange
      else (exchange.decide .granted).handleGranted
  | .cancelled surroundings reason =>
      if exchange.outbound = [] || surroundings.locked then exchange
      else (exchange.decide .cancelled).handleCancelled reason
  | .cancelOuter => { exchange with outerCancelled := true }
  | .closeOuter => { exchange with outerClosed := true }
  | .release => if exchange.phase = .held then { exchange with phase := .releasing } else exchange
  | .dropLease surroundings =>
      if exchange.phase = .held then exchange.dropLease closed surroundings else exchange
  | .dropAcquire =>
      if exchange.phase.isAcquiring then { exchange with phase := .ended .dropped } else exchange
  | .dropRelease =>
      -- `released` is set, so that `Drop` does nothing.
      if exchange.phase.isReleasing then { exchange with phase := .ended .dropped } else exchange

/-- The client, with an exchange for each id that was drawn. -/
structure ConcurrencyClient where
  closed : Bool := false
  exchanges : Uuid → Option Exchange := fun _ => none

def ConcurrencyClient.requests (client : ConcurrencyClient) (requestId : Uuid) :
    Option RequestState :=
  (client.exchanges requestId).bind Exchange.entry

/-- A call of `acquire`, one step of a call, or the loss of the connection. -/
inductive Event where
  | acquire (call : Call) (outerCancelled : Bool)
  | act (requestId : Uuid) (action : Action)
  | disconnect

/-- An id that is in use is not taken again. -/
def step (client : ConcurrencyClient) : Event → ConcurrencyClient
  | .acquire call outerCancelled =>
      if (client.exchanges call.requestId).isSome then client
      else { client with
        exchanges := Function.update client.exchanges call.requestId
          (some { call, outerCancelled }) }
  | .act requestId action =>
      { client with
        exchanges := Function.update client.exchanges requestId
          ((client.exchanges requestId).map fun exchange => react client.closed exchange action) }
  | .disconnect =>
      { closed := true
        exchanges := fun requestId => (client.exchanges requestId).map Exchange.drain }

end GitZero.Agent.ConcurrencyRequests
