/-
Module: GitZero.ControlPlane.Fleet
Purpose: The Workspace together with the agents at the other end of its sockets:
  the executions that an agent runs on a connection and the messages in flight.
Trusted boundary: none
Main exports: Execution, Connection, Connection.receive, Fleet, Occurrence,
  advance, Endpoints, Endpoints.step, forall_modify
-/
import GitZero.ControlPlane.Connections

namespace GitZero.ControlPlane

open Table

/-! ### Agents -/

/-- An entry of `running`: the task that executes a job and holds a permit.  `assignment`
is history: the assignment whose `run_job` started the task. -/
structure Execution where
  jobId : JobId
  assignment : Nat
  cancelled : Bool := false
deriving Repr, DecidableEq

/-- A message on its way to the Workspace.  `assignment` is history: that of the execution
that sent it, and `none` for a message of `run_connection` itself. -/
structure Sending where
  assignment : Option Nat
  message : AgentMessage
deriving Repr, DecidableEq

/-- One run of `run_connection`.  A task that has ended has left `running`, as
`reap_finished` removes it before `running` is read. -/
structure Connection where
  agentId : AgentId
  /-- the permits of the semaphore, free or taken -/
  permits : Nat
  isUp : Bool := true
  /-- how many of the Workspace's messages have been handled -/
  received : Nat := 0
  running : List Execution := []
  /-- the messages in flight, oldest first -/
  sending : List Sending := []
deriving Repr, DecidableEq

/-- The command line of the agent is the same. -/
structure Connection.SameArguments (before after : Connection) : Prop where
  agentId : after.agentId = before.agentId
  permits : after.permits = before.permits

namespace Connection

variable (connection : Connection)

/-- `run_connection` returns, and `stop_all` ends every task before the next one.
What was sent before is still in flight. -/
def stop : Connection := { connection with isUp := false, running := [] }

def executes (jobId : JobId) : Bool := connection.running.any (·.jobId = jobId)

/-- `RunJob`: a duplicate assignment is ignored, and a job beyond the agent's capacity
ends the connection. -/
def runJob (jobId : JobId) (assignment : Nat) : Connection :=
  if connection.executes jobId then connection
  else if connection.running.length < connection.permits then
    { connection with
      running := connection.running ++ [{ jobId := jobId, assignment := assignment }] }
  else connection.stop

def cancelJob (jobId : JobId) : Connection :=
  { connection with
    running := update connection.running (·.jobId = jobId)
      fun execution => { execution with cancelled := true } }

/-- The replies to requests of executions go to the clients that made them. -/
def handleServerMessage : ServerMessage → Connection
  | .welcome version _ => if version ≠ protocolVersion then connection.stop else connection
  | .runJob job assignment => connection.runJob job.id assignment
  | .cancelJob jobId _ => connection.cancelJob jobId
  | .concurrencyGranted _ | .concurrencyCancelled _ _ | .credentialGranted _ _ _
  | .credentialDenied _ _ _ | .ack _ | .error _ _ => connection

/-- The next of the messages that were sent on the connection. -/
def next? (sent : List ServerMessage) : Option ServerMessage :=
  if connection.isUp then sent[connection.received]? else none

def receive (sent : List ServerMessage) : Connection :=
  match connection.next? sent with
  | none => connection
  | some message =>
      { connection with received := connection.received + 1 }.handleServerMessage message

theorem runJob_arguments (jobId : JobId) (assignment : Nat) :
    connection.SameArguments (connection.runJob jobId assignment) := by
  unfold runJob
  split
  · exact ⟨rfl, rfl⟩
  · split
    · exact ⟨rfl, rfl⟩
    · exact ⟨rfl, rfl⟩

theorem receive_arguments (sent : List ServerMessage) :
    connection.SameArguments (connection.receive sent) := by
  unfold receive
  split
  · exact ⟨rfl, rfl⟩
  · rename_i message _
    cases message with
    | welcome version interval =>
        rw [handleServerMessage]
        split
        · exact ⟨rfl, rfl⟩
        · exact ⟨rfl, rfl⟩
    | runJob job assignment =>
        obtain ⟨agentId, permits⟩ := runJob_arguments
          { connection with received := connection.received + 1 } job.id assignment
        exact ⟨agentId, permits⟩
    | _ => exact ⟨rfl, rfl⟩

end Connection

/-- The job that a message is about. -/
def AgentMessage.jobId? : AgentMessage → Option JobId
  | .hello _ | .heartbeat _ _ => none
  | .jobStarted _ jobId | .jobRejected _ jobId _ _ | .concurrencyAcquire _ jobId _ _ _ _ _
  | .concurrencyRelease _ jobId _ | .credentialRequest _ _ jobId _ | .deploymentStarted _ jobId _ _
  | .deploymentFinished _ jobId _ _ _ | .progress _ jobId | .jobFinished _ jobId _ _ => some jobId

namespace Connection

variable (connection : Connection)

def send (sending : Sending) : Connection :=
  { connection with sending := connection.sending ++ [sending] }

/-- The messages of the loop of `run_connection`: the hello of its command line, and
heartbeats with the keys of `running`, in any order. -/
def speaks : AgentMessage → Bool
  | .hello hello =>
      hello.protocolVersion = protocolVersion && hello.agentId = connection.agentId &&
        hello.maxParallelism = connection.permits
  | .heartbeat _ runningJobIds => runningJobIds.isPerm (connection.running.map (·.jobId))
  | _ => false

def say (message : AgentMessage) : Connection :=
  if connection.isUp && connection.speaks message then
    connection.send { assignment := none, message := message }
  else connection

/-- An execution sends a message about its own job. -/
def report (jobId : JobId) (message : AgentMessage) : Connection :=
  match connection.running.find? (·.jobId = jobId) with
  | none => connection
  | some execution =>
      if connection.isUp && message.jobId? = some jobId then
        connection.send { assignment := some execution.assignment, message := message }
      else connection

/-- The task of the job has ended, and its permit is free. -/
def finish (jobId : JobId) : Connection :=
  { connection with running := delete connection.running (·.jobId = jobId) }

theorem say_arguments (message : AgentMessage) :
    connection.SameArguments (connection.say message) := by
  unfold say
  split
  · exact ⟨rfl, rfl⟩
  · exact ⟨rfl, rfl⟩

theorem report_arguments (jobId : JobId) (message : AgentMessage) :
    connection.SameArguments (connection.report jobId message) := by
  unfold report
  split
  · exact ⟨rfl, rfl⟩
  · split
    · exact ⟨rfl, rfl⟩
    · exact ⟨rfl, rfl⟩

end Connection

/-! ### The system -/

/-- `connections` are in the order of the ids of their sockets. -/
structure Fleet where
  workspace : State := {}
  connections : List Connection := []
deriving Repr, DecidableEq

/-- What can happen: the Workspace's own events, and the steps of a connection. -/
inductive Occurrence where
  | connect (agentId : AgentId) (permits : Nat) (now : Millis)
  /-- an event that no message and no new connection causes -/
  | workspace (event : Event)
  /-- the agent handles the next message of the Workspace -/
  | receive (socket : SocketId)
  | say (socket : SocketId) (message : AgentMessage)
  | report (socket : SocketId) (jobId : JobId) (message : AgentMessage)
  | finish (socket : SocketId) (jobId : JobId)
  | stop (socket : SocketId)
  /-- the oldest message in flight on the connection reaches the Workspace -/
  | arrive (socket : SocketId) (now : Millis)
deriving Repr, DecidableEq

/-- The messages that the Workspace has sent on a socket. -/
def State.sentOn (state : State) (socket : SocketId) : List ServerMessage :=
  (state.outbox.filter fun entry => entry.1 = socket).map (·.2)

def Event.isInternal : Event → Bool
  | .connect _ _ | .message _ _ _ => false
  | _ => true

def Fleet.onConnection (fleet : Fleet) (socket : SocketId) (set : Connection → Connection) :
    Fleet :=
  { fleet with connections := fleet.connections.modify socket set }

/-- The oldest message in flight on a connection. -/
def Fleet.arriving? (fleet : Fleet) (socket : SocketId) : Option Sending :=
  (fleet.connections[socket]?).bind (·.sending.head?)

section Text

variable [JsText]

/-- The Workspace and the agents after one occurrence on either side. -/
def advance (fleet : Fleet) : Occurrence → Fleet
  | .connect agentId permits now =>
      { workspace := step fleet.workspace (.connect agentId now)
        connections := fleet.connections ++ [{ agentId := agentId, permits := permits }] }
  | .workspace event =>
      if event.isInternal then { fleet with workspace := step fleet.workspace event } else fleet
  | .receive socket =>
      fleet.onConnection socket (·.receive (fleet.workspace.sentOn socket))
  | .say socket message => fleet.onConnection socket (·.say message)
  | .report socket jobId message => fleet.onConnection socket (·.report jobId message)
  | .finish socket jobId => fleet.onConnection socket (·.finish jobId)
  | .stop socket => fleet.onConnection socket (·.stop)
  | .arrive socket now =>
      match fleet.arriving? socket with
      | none => fleet
      | some sending =>
          { workspace := step fleet.workspace (.message socket sending.message now)
            connections := fleet.connections.modify socket fun connection =>
              { connection with sending := connection.sending.tail } }

/-! ### Sockets and connections -/

/-- Every registered socket has its agent at the other end. -/
structure Endpoints (state : State) (connections : List Connection) : Prop where
  numbered : state.nextSocket = connections.length
  agents : ∀ entry ∈ state.sockets, (connections[entry.id]?).map (·.agentId) = some entry.agentId

theorem May.of_internal {state : State} {event : Event} {action : Action}
    (may : May state event action) (internal : ∀ agent now, event ≠ .connect agent now) :
    ∀ agent, action ≠ .connect agent := by
  rintro agent rfl
  rcases may with own | inside
  · cases own.ownCase with
    | connect => exact internal _ _ rfl
    | sent known sent => cases sent
  · exact inside

theorem Acts.nextSocket {action : Action} {before after : State} (acts : Acts action before after)
    (stays : ∀ agent, action ≠ .connect agent) : after.nextSocket = before.nextSocket := by
  cases acts with
  | quiet core _ => exact core.nextSocket
  | connect agentId now => exact absurd rfl (stays agentId)
  | sockets | shut | greet | dropSocket | job | assign | insert | prune | countRequeue | send => rfl
  | releaseRun runId reason => rw [before.releaseConcurrencyForRun_frame runId reason]
  | release requestId runId agent => rw [before.releaseConcurrency_frame requestId runId agent]
  | acquire socket agent row requestId unitId group cancelInProgress queue now _ =>
      rw [before.acquireConcurrency_frame socket agent row requestId unitId group
        cancelInProgress queue now]

theorem Acts.endpoints {action : Action} {before after : State} {connections : List Connection}
    (acts : Acts action before after) (stays : ∀ agent, action ≠ .connect agent)
    (endpoints : Endpoints before connections) : Endpoints after connections := by
  constructor
  · rw [acts.nextSocket stays]
    exact endpoints.numbered
  · intro entry member
    rcases acts.endpoint_back member with ⟨old, present, id, agent, -⟩ | ⟨⟨agent, connects⟩, -⟩
    · rw [← id, ← agent]
      exact endpoints.agents old present
    · exact absurd connects (stays agent)

/-- Sockets and connections still belong together after an event of the Workspace. -/
theorem Endpoints.step {state : State} {connections : List Connection} (ready : Ready state)
    (endpoints : Endpoints state connections) {event : Event}
    (internal : ∀ agent now, event ≠ .connect agent now) :
    Endpoints (ControlPlane.step state event) connections :=
  (step_sound ready event).1.invariant
    (fun _ _ _ may acts held => acts.endpoints (may.of_internal internal) held) endpoints

omit [JsText] in
theorem Endpoints.connect {state : State} {connections : List Connection}
    (endpoints : Endpoints state connections) (agent : AgentId) (permits : Nat) (now : Millis) :
    Endpoints (acceptSocket now state agent)
      (connections ++ [{ agentId := agent, permits := permits }]) := by
  constructor
  · rw [List.length_append, ← endpoints.numbered]
    rfl
  · intro entry member
    rcases List.mem_append.mp member with old | new
    · have known := endpoints.agents entry old
      obtain ⟨connection, found, agent⟩ := Option.map_eq_some_iff.mp known
      rw [lookup_append found, Option.map_some, agent]
    · rw [List.mem_singleton.mp new, endpoints.numbered, List.getElem?_concat_length]
      rfl

omit [JsText] in
/-- A column that the change of one connection leaves alone. -/
theorem map_modify {Value : Type} {column : Connection → Value} {set : Connection → Connection}
    (keeps : ∀ connection, column (set connection) = column connection)
    (connections : List Connection) (socket : SocketId) :
    (connections.modify socket set).map column = connections.map column := by
  apply List.ext_getElem?
  intro place
  rw [List.getElem?_map, List.getElem?_map, List.getElem?_modify]
  cases connections[place]? with
  | none => rfl
  | some connection =>
      by_cases same : socket = place
      · simp [same, keeps]
      · simp [same]

omit [JsText] in
theorem Endpoints.modify {state : State} {connections : List Connection}
    (endpoints : Endpoints state connections) (socket : SocketId) {set : Connection → Connection}
    (keeps : ∀ connection, (set connection).agentId = connection.agentId) :
    Endpoints state (connections.modify socket set) := by
  constructor
  · rw [List.length_modify]
    exact endpoints.numbered
  · intro entry member
    rw [← List.getElem?_map, map_modify keeps, List.getElem?_map]
    exact endpoints.agents entry member

omit [JsText] in
/-- An invariant of every connection is kept if the changed one has it. -/
theorem forall_modify {items : List Connection} {index : Nat} {set : Connection → Connection}
    {Inv : Connection → Prop} (all : ∀ item ∈ items, Inv item)
    (one : ∀ item, items[index]? = some item → Inv (set item)) :
    ∀ item ∈ items.modify index set, Inv item := by
  intro item member
  obtain ⟨place, found⟩ := List.mem_iff_getElem?.mp member
  rw [List.getElem?_modify] at found
  obtain ⟨old, present, rfl⟩ := Option.map_eq_some_iff.mp found
  split
  · next same =>
      subst same
      exact one old present
  · exact all old (List.mem_of_getElem? present)

end Text

/-- A manual job: nothing is to be fetched for it. -/
def Ascii.manualJob (id : JobId) : QueuedJob := { job id with requiresGithubToken := false }

end GitZero.ControlPlane
