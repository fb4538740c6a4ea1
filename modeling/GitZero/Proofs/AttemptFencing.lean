/-
Module: GitZero.Proofs.AttemptFencing
Purpose: When the messages of an execution leave a job alone that has been assigned again.
Trusted boundary: none
Main exports: ReassignedTo, AttemptFenced, SingleAttempt, OwnedByLatest,
  Attempted, attempts_fenced_of_single, stale_conclusion_completes_job
-/
import GitZero.ControlPlane.Fleet

namespace GitZero.ControlPlane

open Table Machine

/-! ### Attempts -/

/-- The job was assigned again after the assignment. -/
def Superseded (state : State) (assignment : Nat) (jobId : JobId) : Prop :=
  ∃ later made, assignment < later ∧ state.assignments[later]? = some made ∧ made.job = jobId

/-- It was assigned again to the agent. -/
def ReassignedTo (state : State) (assignment : Nat) (jobId : JobId) (agent : AgentId) : Prop :=
  ∃ later made, assignment < later ∧ state.assignments[later]? = some made ∧ made.job = jobId ∧
    made.agent = agent

/-- `job_started`, `job_rejected`, the deployment messages and `job_finished`. -/
def AgentMessage.reportsOn : AgentMessage → Option JobId
  | .jobStarted _ jobId | .jobRejected _ jobId _ _ | .deploymentStarted _ jobId _ _
  | .deploymentFinished _ jobId _ _ _ | .jobFinished _ jobId _ _ => some jobId
  | _ => none

theorem AgentMessage.jobId?_of_reportsOn {message : AgentMessage} {jobId : JobId}
    (reports : message.reportsOn = some jobId) : message.jobId? = some jobId := by
  cases message with
  | jobStarted | jobRejected | deploymentStarted | deploymentFinished | jobFinished => exact reports
  | _ => cases reports

/-- The connection executes the job, or has messages of an execution of it in flight. -/
def Connection.Attempts (connection : Connection) (jobId : JobId) : Prop :=
  (∃ execution ∈ connection.running, execution.jobId = jobId) ∨
    ∃ sending ∈ connection.sending, sending.assignment ≠ none ∧
      sending.message.jobId? = some jobId

instance (connection : Connection) (jobId : JobId) : Decidable (connection.Attempts jobId) :=
  inferInstanceAs (Decidable (_ ∨ _))

/-- The executions of a connection and the messages of executions are of the latest
assignments of their jobs to its agent. -/
structure Connection.Current (state : State) (connection : Connection) : Prop where
  running : ∀ execution ∈ connection.running,
    ¬ ReassignedTo state execution.assignment execution.jobId connection.agentId
  sending : ∀ sending ∈ connection.sending, ∀ assignment jobId,
    sending.assignment = some assignment → sending.message.jobId? = some jobId →
      ¬ ReassignedTo state assignment jobId connection.agentId

section Text

variable [JsText]

/-- A message of an execution that reaches the Workspace when its job has been assigned
again does not change the row of the job. -/
def AttemptFenced (fleet : Fleet) (occurrence : Occurrence) : Prop :=
  ∀ socket now sending assignment jobId, occurrence = .arrive socket now →
    fleet.arriving? socket = some sending → sending.assignment = some assignment →
    sending.message.reportsOn = some jobId → Superseded fleet.workspace assignment jobId →
      (advance fleet occurrence).workspace.jobRow? jobId = fleet.workspace.jobRow? jobId

/-- A job is assigned to an agent only when no connection of the agent executes it or has
messages of an execution of it in flight, and a `run_job` starts an execution only when the
job was not assigned to the agent again. -/
structure SingleAttempt (fleet : Fleet) (occurrence : Occurrence) : Prop where
  assigns : ∀ made ∈
      (advance fleet occurrence).workspace.assignments.drop fleet.workspace.assignments.length,
    ∀ connection ∈ (advance fleet occurrence).connections, connection.agentId = made.agent →
      ¬ connection.Attempts made.job
  starts : ∀ socket connection job assignment, occurrence = .receive socket →
    fleet.connections[socket]? = some connection →
    connection.next? (fleet.workspace.sentOn socket) = some (.runJob job assignment) →
      ¬ ReassignedTo fleet.workspace assignment job.id connection.agentId

/-! ### Rows and their latest assignments -/

/-- An active row is with the agent of the latest assignment of its job. -/
def OwnedByLatest (state : State) : Prop :=
  ∀ row ∈ state.jobs, row.active = true → ∃ assignment made,
    state.assignments[assignment]? = some made ∧ row.agentId = some made.agent ∧
      Latest state assignment row.id

theorem Acts.ownedByLatest {action : Action} {before after : State}
    (acts : Acts action before after) (tidy : Tidy before) (owned : OwnedByLatest before) :
    OwnedByLatest after := by
  intro row member active
  rcases acts.active_row member active with ⟨old, present, same, was, owner⟩ |
    ⟨agent, socket, assigns, owner⟩
  · obtain ⟨assignment, made, found, owns, latest⟩ := owned old present was
    obtain ⟨more, grown, assigns⟩ := acts.assignments
    have apart : ∀ new ∈ more, new.job ≠ row.id := by
      intro new inside wrong
      have assigned := assigns new inside
      rw [wrong] at assigned
      subst assigned
      exact tidy.not_queued_of_active ⟨old, present, same, was⟩ acts.assign_queued
    refine ⟨assignment, made, ?_, owner.symm.trans owns, ?_⟩
    · rw [grown]
      exact lookup_append found
    · rw [same] at latest
      exact latest.grow grown apart
  · subst assigns
    have grown := acts.assign_history
    have last : after.assignments[before.assignments.length]? = some ⟨row.id, agent, socket⟩ := by
      rw [grown, List.getElem?_concat_length]
    refine ⟨before.assignments.length, _, last, owner, ⟨_, last, rfl⟩, ?_⟩
    intro later made behind found
    have inside := (List.getElem?_eq_some_iff.mp found).1
    rw [grown, List.length_append, List.length_singleton] at inside
    omega

theorem ownedByLatest_step {state : State} (ready : Ready state) (owned : OwnedByLatest state)
    (event : Event) : OwnedByLatest (step state event) := by
  have keeps : ∀ action before after, May state event action → Acts action before after →
      Tidy before ∧ OwnedByLatest before → Tidy after ∧ OwnedByLatest after :=
    fun _ _ _ _ acts held => ⟨acts.tidy held.1, acts.ownedByLatest held.1 held.2⟩
  exact ((step_sound ready event).1.invariant keeps ⟨ready.tidy, owned⟩).2

omit [JsText] in
/-- Where the assignment was followed by another one, the agent of an active row got the job
later. -/
theorem reassignedTo_of_owner {state : State} (owned : OwnedByLatest state) {row : JobRow}
    (member : row ∈ state.jobs) (active : row.active = true) {agent : AgentId}
    (owner : row.agentId = some agent) {assignment : Nat}
    (superseded : Superseded state assignment row.id) :
    ReassignedTo state assignment row.id agent := by
  obtain ⟨latest, made, found, owns, ⟨same, isMade, sameJob⟩, last⟩ := owned row member active
  obtain ⟨later, other, behind, isOther, job⟩ := superseded
  rw [found] at isMade
  cases isMade
  rw [owner] at owns
  have notAfter : ¬ latest < later := fun after => last later other after isOther job
  exact ⟨latest, made, by omega, found, sameJob, (Option.some.inj owns).symm⟩

/-! ### Messages about a job that the agent does not have -/

omit [JsText] in
theorem sendLast_jobs (state : State) (socket : SocketId) (message : ServerMessage) :
    (state.sendLast socket message).jobs = state.jobs := by
  rw [State.sendLast, State.sendServer]
  split
  · rfl
  · rfl

theorem handleAgentEvent_disowned {state : State} {agent : AgentId} {message : AgentMessage}
    {jobId : JobId} (reports : message.reportsOn = some jobId)
    (disowned : ∀ row, state.assignedJob jobId agent = some row → row.status = .completed)
    (now : Millis) (socket : SocketId) :
    (handleAgentEvent now state socket agent message).1.jobs = state.jobs := by
  cases owned : state.assignedJob jobId agent with
  | none =>
      cases message with
      | jobStarted | jobRejected | deploymentStarted | deploymentFinished | jobFinished =>
          cases reports
          simp only [handleAgentEvent, jobStarted, jobRejected, deploymentStarted,
            deploymentFinished, jobFinished, owned]
      | _ => cases reports
  | some row =>
      have completed := disowned row owned
      cases message with
      | jobStarted | jobRejected | deploymentStarted | deploymentFinished | jobFinished =>
          cases reports
          simp [handleAgentEvent, jobStarted, jobRejected, deploymentStarted, deploymentFinished,
            jobFinished, owned, completed, deploymentRefusal, sendLast_jobs]
      | _ => cases reports

theorem webSocketMessage_disowned {state : State} {entry : Socket} {message : AgentMessage}
    {jobId : JobId} (reports : message.reportsOn = some jobId)
    (disowned : ∀ row, state.assignedJob jobId entry.agentId = some row → row.status = .completed)
    (now : Millis) : (webSocketMessage now state entry message).1.jobs = state.jobs := by
  unfold webSocketMessage
  split
  · cases reports
  · rfl
  · split
    · exact sendLast_jobs state entry.id _
    · dsimp only
      split
      · exact sendLast_jobs _ entry.id _
      · rename_i reserved reservation
        have jobs : reserved.jobs = state.jobs := by
          unfold reserveMessage at reservation
          split at reservation
          · cases reservation
          · cases reservation
            rfl
        rw [awaitThen_state, handleAgentEvent_disowned reports, jobs]
        intro row owned
        rw [assignedJob_congr jobs] at owned
        exact disowned row owned

/-- A message about a job that its agent does not have, or that is completed, changes no row. -/
theorem step_disowned {state : State} {socket : SocketId} {message : AgentMessage} {jobId : JobId}
    (reports : message.reportsOn = some jobId)
    (disowned : ∀ entry, state.socket? socket = some entry → ∀ row,
      state.assignedJob jobId entry.agentId = some row → row.status = .completed)
    (now : Millis) : (step state (.message socket message now)).jobs = state.jobs := by
  unfold step onSocket
  dsimp only
  split
  · rfl
  · rename_i entry known
    rw [(spawn_core _).1.jobs]
    exact webSocketMessage_disowned reports (disowned entry known) now

/-! ### What a connection keeps -/

section Connections

omit [JsText]

variable {state : State} {connection : Connection}

/-- A change of a connection that starts nothing and sends nothing for an execution. -/
theorem Connection.Current.of_fewer {after : Connection} (current : connection.Current state)
    (agent : after.agentId = connection.agentId)
    (running : ∀ execution ∈ after.running, ∃ old ∈ connection.running,
      old.jobId = execution.jobId ∧ old.assignment = execution.assignment)
    (sending : ∀ sending ∈ after.sending,
      sending ∈ connection.sending ∨ sending.assignment = none) : after.Current state := by
  constructor
  · intro execution member
    obtain ⟨old, present, job, assignment⟩ := running execution member
    rw [agent, ← job, ← assignment]
    exact current.running old present
  · intro message member assignment jobId isFrom about
    rw [agent]
    rcases sending message member with old | own
    · exact current.sending message old assignment jobId isFrom about
    · rw [own] at isFrom
      cases isFrom

theorem Connection.Current.stop (current : connection.Current state) :
    connection.stop.Current state := by
  refine current.of_fewer rfl ?_ ?_
  · intro execution member
    cases member
  · exact fun _ => .inl

theorem Connection.Current.cancelJob (current : connection.Current state) (jobId : JobId) :
    (connection.cancelJob jobId).Current state := by
  refine current.of_fewer rfl ?_ ?_
  · intro execution member
    obtain ⟨old, present, rfl⟩ := mem_update.mp member
    refine ⟨old, present, ?_⟩
    split
    · exact ⟨rfl, rfl⟩
    · exact ⟨rfl, rfl⟩
  · exact fun _ => .inl

theorem Connection.Current.runJob (current : connection.Current state) {jobId : JobId}
    {assignment : Nat} (starts : ¬ ReassignedTo state assignment jobId connection.agentId) :
    (connection.runJob jobId assignment).Current state := by
  unfold Connection.runJob
  split
  · exact current
  · split
    · constructor
      · intro execution member
        rcases List.mem_append.mp member with old | new
        · exact current.running execution old
        · rw [List.mem_singleton.mp new]
          exact starts
      · exact current.sending
    · exact current.stop

theorem Connection.Current.receive (current : connection.Current state)
    {sent : List ServerMessage}
    (starts : ∀ job assignment, connection.next? sent = some (.runJob job assignment) →
      ¬ ReassignedTo state assignment job.id connection.agentId) :
    (connection.receive sent).Current state := by
  unfold Connection.receive
  split
  · exact current
  · rename_i message next
    have counted : Connection.Current state
        { connection with received := connection.received + 1 } :=
          ⟨current.running, current.sending⟩
    cases message with
    | welcome version interval =>
        rw [Connection.handleServerMessage]
        split
        · exact counted.stop
        · exact counted
    | runJob job assignment => exact counted.runJob (starts job assignment next)
    | cancelJob jobId reason => exact counted.cancelJob jobId
    | _ => exact counted

theorem Connection.Current.say (current : connection.Current state) (message : AgentMessage) :
    (connection.say message).Current state := by
  unfold Connection.say
  split
  · refine current.of_fewer rfl ?_ ?_
    · exact fun execution member => ⟨execution, member, rfl, rfl⟩
    · intro sending member
      rcases List.mem_append.mp member with old | new
      · exact .inl old
      · rw [List.mem_singleton.mp new]
        exact .inr rfl
  · exact current

theorem Connection.Current.report (current : connection.Current state) (jobId : JobId)
    (message : AgentMessage) : (connection.report jobId message).Current state := by
  unfold Connection.report
  split
  · exact current
  · rename_i execution found
    have member := List.mem_of_find?_eq_some found
    have isJob : execution.jobId = jobId := by simpa using List.find?_some found
    split
    · rename_i sends
      rw [Bool.and_eq_true, decide_eq_true_eq] at sends
      refine ⟨current.running, ?_⟩
      intro sending inside assignment about isFrom isAbout
      rcases List.mem_append.mp inside with old | new
      · exact current.sending sending old assignment about isFrom isAbout
      · rw [List.mem_singleton.mp new] at isFrom isAbout
        cases isFrom
        rw [sends.2] at isAbout
        cases isAbout
        rw [← isJob]
        exact current.running execution member
    · exact current

theorem Connection.Current.finish (current : connection.Current state) (jobId : JobId) :
    (connection.finish jobId).Current state := by
  refine current.of_fewer rfl ?_ ?_
  · exact fun execution member => ⟨execution, (mem_delete.mp member).1, rfl, rfl⟩
  · exact fun _ => .inl

theorem Connection.Current.arrive (current : connection.Current state) :
    Connection.Current state { connection with sending := connection.sending.tail } := by
  refine current.of_fewer rfl ?_ ?_
  · exact fun execution member => ⟨execution, member, rfl, rfl⟩
  · exact fun sending member => .inl (List.mem_of_mem_tail member)

/-- New assignments leave a connection current that attempts none of them. -/
theorem Connection.Current.grow {after : State} (current : connection.Current state)
    {more : List Assignment} (grown : after.assignments = state.assignments ++ more)
    (apart : ∀ made ∈ more, connection.agentId = made.agent → ¬ connection.Attempts made.job) :
    connection.Current after := by
  have back : ∀ {assignment jobId}, ReassignedTo after assignment jobId connection.agentId →
      connection.Attempts jobId → ReassignedTo state assignment jobId connection.agentId := by
    rintro assignment jobId ⟨later, made, behind, found, rfl, agent⟩ attempts
    rw [grown, List.getElem?_append] at found
    split at found
    · exact ⟨later, made, behind, found, rfl, agent⟩
    · exact absurd attempts (apart made (List.mem_of_getElem? found) agent.symm)
  constructor
  · intro execution member reassigned
    exact current.running execution member
      (back reassigned (.inl ⟨execution, member, rfl⟩))
  · intro sending member assignment jobId isFrom about reassigned
    refine current.sending sending member assignment jobId isFrom about
      (back reassigned (.inr ⟨sending, member, ?_, about⟩))
    rw [isFrom]
    exact Option.some_ne_none assignment

end Connections

/-! ### The system -/

/-- Every connection is current, and the Workspace knows its agents and their jobs. -/
structure Attempted (fleet : Fleet) : Prop where
  ready : Ready fleet.workspace
  owned : OwnedByLatest fleet.workspace
  endpoints : Endpoints fleet.workspace fleet.connections
  current : ∀ connection ∈ fleet.connections, connection.Current fleet.workspace

omit [JsText] in
theorem attempted_initial : Attempted {} := by
  refine ⟨ready_initial, ?_, ⟨rfl, ?_⟩, ?_⟩
  · intro row member
    cases member
  · intro entry member
    cases member
  · intro connection member
    cases member

omit [JsText] in
/-- A change of one connection that keeps it current. -/
theorem Attempted.onConnection {fleet : Fleet} (attempted : Attempted fleet) (socket : SocketId)
    {set : Connection → Connection}
    (keeps : ∀ connection, (set connection).agentId = connection.agentId)
    (current : ∀ connection, fleet.connections[socket]? = some connection →
      (set connection).Current fleet.workspace) : Attempted (fleet.onConnection socket set) :=
  ⟨attempted.ready, attempted.owned, attempted.endpoints.modify socket keeps,
    forall_modify attempted.current current⟩

/-- A step of the Workspace, with the connections as they then are. -/
theorem Attempted.workspace {fleet : Fleet} (attempted : Attempted fleet) {event : Event}
    {connections : List Connection}
    (endpoints : Endpoints (step fleet.workspace event) connections)
    (current : ∀ connection ∈ connections, connection.Current fleet.workspace)
    (apart : ∀ made ∈ (step fleet.workspace event).assignments.drop
        fleet.workspace.assignments.length,
      ∀ connection ∈ connections, connection.agentId = made.agent →
        ¬ connection.Attempts made.job) :
    Attempted { workspace := step fleet.workspace event, connections := connections } := by
  obtain ⟨more, grown⟩ := (step_sound attempted.ready event).1.assignments
  refine ⟨attempted.ready.step event, ownedByLatest_step attempted.ready attempted.owned event,
    endpoints, fun connection member => (current connection member).grow grown ?_⟩
  intro made new agent
  refine apart made ?_ connection member agent
  rw [grown, List.drop_left]
  exact new

theorem Attempted.advance {fleet : Fleet} {occurrence : Occurrence} (attempted : Attempted fleet)
    (single : SingleAttempt fleet occurrence) :
    Attempted (ControlPlane.advance fleet occurrence) := by
  have assigns := single.assigns
  cases occurrence with
  | connect agent permits now =>
      refine attempted.workspace (attempted.endpoints.connect agent permits now) ?_ assigns
      intro connection member
      rcases List.mem_append.mp member with old | new
      · exact attempted.current connection old
      · rw [List.mem_singleton.mp new]
        constructor
        · intro execution inside
          cases inside
        · intro sending inside
          cases inside
  | workspace event =>
      unfold ControlPlane.advance at assigns ⊢
      dsimp only at assigns ⊢
      split
      · rename_i internal
        rw [if_pos internal] at assigns
        refine attempted.workspace (attempted.endpoints.step attempted.ready ?_)
          attempted.current assigns
        rintro agent now rfl
        cases internal
      · exact attempted
  | receive socket =>
      refine attempted.onConnection socket (fun connection =>
        (connection.receive_arguments _).agentId) ?_
      intro connection found
      apply (attempted.current connection (List.mem_of_getElem? found)).receive
      exact fun job assignment => single.starts socket connection job assignment rfl found
  | say socket message =>
      refine attempted.onConnection socket (fun connection =>
        (connection.say_arguments message).agentId) ?_
      exact fun connection found =>
        (attempted.current connection (List.mem_of_getElem? found)).say message
  | report socket jobId message =>
      refine attempted.onConnection socket
        (fun connection => (connection.report_arguments jobId message).agentId) ?_
      exact fun connection found =>
        (attempted.current connection (List.mem_of_getElem? found)).report jobId message
  | finish socket jobId =>
      refine attempted.onConnection socket (fun _ => rfl) ?_
      exact fun connection found =>
        (attempted.current connection (List.mem_of_getElem? found)).finish jobId
  | stop socket =>
      refine attempted.onConnection socket (fun _ => rfl) ?_
      exact fun connection found => (attempted.current connection (List.mem_of_getElem? found)).stop
  | arrive socket now =>
      unfold ControlPlane.advance at assigns ⊢
      dsimp only at assigns ⊢
      split
      · exact attempted
      · rename_i sending found
        rw [found] at assigns
        refine attempted.workspace ?_ ?_ assigns
        · refine (attempted.endpoints.step attempted.ready ?_).modify socket fun _ => rfl
          intro agent later wrong
          cases wrong
        · exact forall_modify attempted.current fun connection present =>
            (attempted.current connection (List.mem_of_getElem? present)).arrive

theorem Attempted.fenced {fleet : Fleet} (attempted : Attempted fleet) (occurrence : Occurrence) :
    AttemptFenced fleet occurrence := by
  rintro socket now sending assignment jobId rfl arrives isFrom reports superseded
  obtain ⟨connection, found, first⟩ := Option.bind_eq_some_iff.mp arrives
  have member := List.mem_of_mem_head? first
  have latest := (attempted.current connection (List.mem_of_getElem? found)).sending sending member
    assignment jobId isFrom (AgentMessage.jobId?_of_reportsOn reports)
  -- The agent has the job only by a later assignment, and then this one was its last.
  have disowned : ∀ entry, fleet.workspace.socket? socket = some entry → ∀ row,
      fleet.workspace.assignedJob jobId entry.agentId = some row → row.status = .completed := by
    intro entry known row owned
    obtain ⟨lookup, owner, status⟩ := assignedJob_spec owned
    apply status.resolve_left
    intro active
    have agent := attempted.endpoints.agents entry (row_mem known)
    rw [show entry.id = socket from row_key known, found, Option.map_some,
      Option.some.injEq] at agent
    rw [← jobRow?_id lookup] at superseded latest
    rw [agent] at latest
    exact latest (reassignedTo_of_owner attempted.owned (jobRow?_mem lookup) active owner
      superseded)
  have jobs : (ControlPlane.advance fleet (.arrive socket now)).workspace.jobs =
      fleet.workspace.jobs := by
    simp only [ControlPlane.advance, arrives]
    exact step_disowned reports disowned now
  rw [State.jobRow?, jobs, State.jobRow?]

/-- In every run in which no agent has two attempts at a job at once, the messages of an
execution leave the job alone once it has been assigned again. -/
theorem attempts_fenced_of_single (occurrences : List Occurrence)
    (single : Along advance SingleAttempt {} occurrences) :
    Along advance AttemptFenced {} occurrences :=
  single.safe (fun _ _ attempted single => attempted.advance single)
    (fun _ occurrence attempted _ => attempted.fenced occurrence) attempted_initial

/-- The assignment that a `run_job` belongs to. -/
def ServerMessage.assignment? : ServerMessage → Option Nat
  | .runJob _ assignment => some assignment
  | _ => none

/-- A `run_job` of the newest assignment may start an execution. -/
theorem singleAttempt_receive {fleet : Fleet} {socket : SocketId}
    (newest : ∀ assignment ∈ ((fleet.connections[socket]?).bind fun connection =>
        connection.next? (fleet.workspace.sentOn socket)).bind (·.assignment?),
      fleet.workspace.assignments.length ≤ assignment + 1) :
    SingleAttempt fleet (.receive socket) := by
  constructor
  · intro made new
    simp [advance, Fleet.onConnection] at new
  · rintro _ connection job assignment ⟨⟩ found next ⟨later, made, behind, isMade, -⟩
    have last := newest assignment (by simp [found, next, ServerMessage.assignment?])
    have inside := (List.getElem?_eq_some_iff.mp isMade).1
    omega

def Occurrence.receives : Occurrence → Bool
  | .receive _ => true
  | _ => false

theorem singleAttempt_of {fleet : Fleet} {occurrence : Occurrence}
    (other : occurrence.receives = false)
    (assigns : ∀ made ∈
        (advance fleet occurrence).workspace.assignments.drop fleet.workspace.assignments.length,
      ∀ connection ∈ (advance fleet occurrence).connections, connection.agentId = made.agent →
        ¬ connection.Attempts made.job) : SingleAttempt fleet occurrence := by
  refine ⟨assigns, ?_⟩
  rintro socket connection job assignment rfl
  cases other

end Text

section Sample

open scoped Ascii

/-- The connection of agent `a` fails after the `job_finished` of job 1, which is in flight
when the lease expires and the job goes to agent `b`. -/
def movedJob : List Occurrence :=
  [.connect "a" 1 0, .say 0 (.hello (Ascii.hello "a" 1)), .arrive 0 0,
    .connect "b" 1 1, .say 1 (.hello (Ascii.hello "b" 1)), .arrive 1 1,
    .workspace (.enqueue (Ascii.manualJob 1) "d" 2), .receive 0, .receive 0,
    .report 0 1 (.jobFinished 1 1 .success ""), .workspace (.leaveOpen 0),
    .workspace (.alarm 60002), .arrive 0 60003]

/-- The late report of agent `a` leaves the job with agent `b`. -/
theorem movedJob_fenced :
    (run advance {} movedJob).workspace.jobs.map (fun row => (row.status, row.agentId)) =
        [(.assigned, some "b")] ∧
      Along advance AttemptFenced {} movedJob := by
  refine ⟨by decide, attempts_fenced_of_single movedJob ?_⟩
  refine ⟨?_, ?_, ?_, ?_, ?_, ?_, ?_, ?_, ?_, ?_, ?_, ?_, ?_, trivial⟩
  all_goals
    first
      | apply singleAttempt_receive
        decide
      | apply singleAttempt_of rfl
        decide

/-- The lease of job 1 expires while agent `a` executes it.  The job is cancelled on the agent
and assigned to it again, and the agent ignores the second `run_job`. -/
def expiredAttempt : List Occurrence :=
  [.connect "a" 1 0, .say 0 (.hello (Ascii.hello "a" 1)), .arrive 0 0,
    .workspace (.enqueue (Ascii.manualJob 1) "d" 0), .receive 0, .receive 0,
    .workspace (.alarm 60000), .receive 0, .receive 0,
    .report 0 1 (.jobFinished 1 1 .cancelled "Run cancelled.")]

/-- The conclusion of the first attempt then completes the second one. -/
theorem stale_conclusion_completes_job :
    (run advance {} expiredAttempt).workspace.assignments = [⟨1, "a", 0⟩, ⟨1, "a", 0⟩] ∧
      (run advance {} expiredAttempt).connections.map (·.running) = [[⟨1, 0, true⟩]] ∧
      (run advance {} (expiredAttempt ++ [.arrive 0 60001])).workspace.jobs.map
        (fun row => (row.status, row.conclusion)) = [(.completed, some .cancelled)] ∧
      ¬ Along advance AttemptFenced {} (expiredAttempt ++ [.arrive 0 60001]) := by
  refine ⟨by decide, by decide, by decide, fun fenced => ?_⟩
  have same := (Along.append.mp fenced).2.1 0 60001
    ⟨some 0, .jobFinished 1 1 .cancelled "Run cancelled."⟩ 0 1 rfl (by decide) rfl rfl
    ⟨1, ⟨1, "a", 0⟩, by decide, by decide, rfl⟩
  have statuses := congrArg (Option.map (·.status)) same
  revert statuses
  decide

end Sample

end GitZero.ControlPlane

