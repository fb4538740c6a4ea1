/-
Module: GitZero.Proofs.CapacityAgreement
Purpose: When a `run_job` that reaches an agent finds a free permit there.
Trusted boundary: none
Main exports: CapacityAgreed, SlotsCovered, Capable, Capacities,
  capacity_agreed_of_covered, slot_given_before_permit_is_free
-/
import GitZero.ControlPlane.Fleet

namespace GitZero.ControlPlane

open Table Machine

/-! ### Capacity -/

/-- The job is assigned to or running on the agent. -/
def State.counts (state : State) (agent : AgentId) (jobId : JobId) : Bool :=
  state.jobs.any fun row => row.id = jobId && row.agentId = some agent && row.active

/-- How many of the jobs that the agent would execute, with this one, the Workspace does not
count for it. -/
def Connection.uncounted (connection : Connection) (state : State) (jobId : JobId) : Nat :=
  ((jobId :: connection.running.map (·.jobId)).filter fun id =>
    !state.counts connection.agentId id).length

section Text

variable [JsText]

/-- A `run_job` for a job that the agent does not execute finds a free permit. -/
def CapacityAgreed (fleet : Fleet) (occurrence : Occurrence) : Prop :=
  ∀ socket connection job assignment, occurrence = .receive socket →
    fleet.connections[socket]? = some connection →
    connection.next? (fleet.workspace.sentOn socket) = some (.runJob job assignment) →
    connection.executes job.id = false → connection.running.length < connection.permits

/-- An agent keeps its `--max-parallelism`, and when a `run_job` reaches it, the Workspace counts
the job and every execution of the agent, or has as many slots left as there are of them that
it does not count. -/
structure SlotsCovered (fleet : Fleet) (occurrence : Occurrence) : Prop where
  connects : ∀ agent permits now, occurrence = .connect agent permits now →
    ∀ connection ∈ fleet.connections, connection.agentId = agent → connection.permits = permits
  receives : ∀ socket connection job assignment, occurrence = .receive socket →
    fleet.connections[socket]? = some connection →
    connection.next? (fleet.workspace.sentOn socket) = some (.runJob job assignment) →
    connection.executes job.id = false →
      connection.uncounted fleet.workspace job.id = 0 ∨
        connection.uncounted fleet.workspace job.id +
          fleet.workspace.assignedCount connection.agentId ≤ connection.permits

/-! ### The Workspace's count -/

omit [JsText] in
theorem assignedCount_eq (state : State) (agent : AgentId) :
    state.assignedCount agent =
      state.jobs.countP fun row => row.agentId = some agent && row.active :=
  List.countP_eq_length_filter.symm

omit [JsText] in
theorem countP_update_le {rows : List JobRow} {selected counted : JobRow → Bool}
    {set : JobRow → JobRow}
    (back : ∀ row ∈ rows, selected row = true → counted (set row) = true → counted row = true) :
    (update rows selected set).countP counted ≤ rows.countP counted := by
  rw [update, List.countP_map]
  apply List.countP_mono_left
  intro row member isCounted
  rw [Function.comp_apply] at isCounted
  split at isCounted
  · next picked => exact back row member picked isCounted
  · exact isCounted

omit [JsText] in
/-- A statement on one row adds one row at most. -/
theorem countP_update_le_succ {rows : List JobRow} {selected counted : JobRow → Bool}
    {set : JobRow → JobRow} (single : rows.countP selected ≤ 1) :
    (update rows selected set).countP counted ≤ rows.countP counted + 1 := by
  have split : (update rows selected set).countP counted ≤
      rows.countP counted + rows.countP selected := by
    clear single
    induction rows with
    | nil => exact Nat.zero_le _
    | cons row rows inductionHypothesis =>
        rw [update, List.map_cons, ← update]
        by_cases picked : selected row = true
        · rw [if_pos picked, List.countP_cons, List.countP_cons, List.countP_cons_of_pos picked]
          split <;> split <;> omega
        · rw [if_neg picked, List.countP_cons, List.countP_cons, List.countP_cons_of_neg picked]
          omega
  omega

/-- Only an assignment adds to the count of its agent. -/
theorem Acts.assignedCount_le {action : Action} {before after : State}
    (acts : Acts action before after) {agent : AgentId}
    (spared : ∀ id socket, action ≠ .assign id agent socket) :
    after.assignedCount agent ≤ before.assignedCount agent := by
  have kept : after.jobs = before.jobs →
      after.assignedCount agent ≤ before.assignedCount agent := by
    intro same
    rw [State.assignedCount, same, ← State.assignedCount]
  cases acts with
  | quiet core _ => exact kept core.jobs
  | job kind id selected set rows _ _ =>
      rw [assignedCount_eq, assignedCount_eq]
      apply countP_update_le
      intro row member picked counted
      rw [Bool.and_eq_true, decide_eq_true_eq] at counted ⊢
      obtain ⟨was, same⟩ := (rows row member picked).2.active_back counted.2
      exact ⟨same ▸ counted.1, was⟩
  | assign queued candidate now member status ready available =>
      rw [assignedCount_eq, assignedCount_eq]
      apply countP_update_le
      intro row _ _ counted
      rw [Bool.and_eq_true, decide_eq_true_eq] at counted
      refine absurd ?_ (spared queued.id candidate.socket)
      rw [← Option.some.inj counted.1]
  | insert now runNumber job fresh =>
      rw [assignedCount_eq, assignedCount_eq, List.countP_append, List.countP_singleton, if_neg]
      · exact Nat.le_refl _
      · simp [queuedRow, JobRow.active]
  | prune now =>
      rw [assignedCount_eq, assignedCount_eq]
      exact List.filter_sublist.countP_le
  | sockets | shut | greet | connect | dropSocket | countRequeue | send => exact kept rfl
  | releaseRun runId reason => exact kept (before.releaseConcurrencyForRun_frame runId reason).jobs
  | release requestId runId other =>
      exact kept (before.releaseConcurrency_frame requestId runId other).jobs
  | acquire socket other row requestId unitId group cancelInProgress queue now _ =>
      exact kept (before.acquireConcurrency_frame socket other row requestId unitId group
        cancelInProgress queue now).jobs

/-- An assignment is made through a connection whose hello has room for one more. -/
theorem Acts.assign_room {before after : State} {jobId : JobId} {agent : AgentId}
    {socket : SocketId} (acts : Acts (.assign jobId agent socket) before after)
    (tidy : Tidy before) :
    after.assignedCount agent ≤ before.assignedCount agent + 1 ∧
      ∃ entry ∈ before.sockets, ∃ hello, entry.hello = some hello ∧ entry.agentId = agent ∧
        before.assignedCount agent < hello.maxParallelism := by
  cases acts with
  | assign queued candidate now member status ready available =>
      constructor
      · rw [assignedCount_eq, assignedCount_eq]
        apply countP_update_le_succ
        apply countP_le_one tidy.distinct
        intro first one second two isFirst isSecond
        simp only [Bool.and_eq_true, decide_eq_true_eq] at isFirst isSecond
        exact tidy.eq_of_id one two (isFirst.1.trans isSecond.1.symm)
      · obtain ⟨entry, registered, chosen⟩ := List.mem_filterMap.mp available
        unfold candidateOf at chosen
        split at chosen
        · cases chosen
        · rename_i hello greeted
          split at chosen
          · cases chosen
          · rename_i usable
            cases chosen
            rw [not_or, not_or, not_or] at usable
            exact ⟨entry, registered, hello, greeted, rfl, Nat.lt_of_not_le usable.2.2.2⟩

/-! ### Hellos -/

/-- A connection's hello is the one it had, or the one that is accepted. -/
theorem Acts.hello_back {action : Action} {before after : State} (acts : Acts action before after)
    {entry : Socket} (member : entry ∈ after.sockets) {hello : AgentHello}
    (said : entry.hello = some hello) :
    (∃ old ∈ before.sockets, old.id = entry.id ∧ old.hello = some hello) ∨
      action = .greet entry.id hello := by
  have kept : after.sockets = before.sockets →
      ∃ old ∈ before.sockets, old.id = entry.id ∧ old.hello = some hello :=
    fun same => ⟨entry, same ▸ member, rfl, said⟩
  cases acts with
  | quiet core sockets => exact .inl (kept sockets)
  | sockets changed set keeps =>
      obtain ⟨old, present, rfl⟩ := mem_update.mp member
      refine .inl ⟨old, present, ?_⟩
      split at said
      · next picked =>
          rw [if_pos picked]
          exact ⟨(keeps old).id.symm, (keeps old).hello.symm.trans said⟩
      · next spared =>
          rw [if_neg spared]
          exact ⟨rfl, said⟩
  | shut changed =>
      obtain ⟨old, present, rfl⟩ := mem_update.mp member
      refine .inl ⟨old, present, ?_⟩
      split at said
      · next picked =>
          rw [if_pos picked]
          exact ⟨rfl, said⟩
      · next spared =>
          rw [if_neg spared]
          exact ⟨rfl, said⟩
  | greet changed greeting now =>
      obtain ⟨old, present, rfl⟩ := mem_update.mp member
      split at said
      · next picked =>
          cases said
          rw [if_pos picked]
          exact .inr (by rw [of_decide_eq_true picked])
      · next spared =>
          rw [if_neg spared]
          exact .inl ⟨old, present, rfl, said⟩
  | connect agentId now =>
      rcases List.mem_append.mp member with old | new
      · exact .inl ⟨entry, old, rfl, said⟩
      · rw [List.mem_singleton.mp new] at said
        cases said
  | dropSocket dropped => exact .inl ⟨entry, (mem_delete.mp member).1, rfl, said⟩
  | job | assign | insert | prune | countRequeue | send => exact .inl (kept rfl)
  | releaseRun runId reason =>
      exact .inl (kept (before.releaseConcurrencyForRun_frame runId reason).sockets)
  | release requestId runId agent =>
      exact .inl (kept (before.releaseConcurrency_frame requestId runId agent).sockets)
  | acquire changed agent job requestId unitId group cancelInProgress queue now _ =>
      exact .inl (kept (before.acquireConcurrency_frame changed agent job requestId unitId group
        cancelInProgress queue now).sockets)

theorem May.greeting {state : State} {event : Event} {socket : SocketId} {hello : AgentHello}
    (may : May state event (.greet socket hello)) :
    ∃ now, event = .message socket (.hello hello) now := by
  rcases may with own | inside
  · cases own.ownCase with
    | greet known accepted => exact ⟨_, rfl⟩
    | sent known sent => cases sent
  · exact inside.elim

/-! ### The Workspace and the agents' permits -/

/-- Two connections of one agent have the same permits. -/
def Uniform (connections : List Connection) : Prop :=
  ∀ one ∈ connections, ∀ two ∈ connections, one.agentId = two.agentId → one.permits = two.permits

/-- Accepted hellos name the permits of their connections, and no agent has more jobs than
permits. -/
structure Capable (connections : List Connection) (state : State) : Prop where
  tidy : Tidy state
  endpoints : Endpoints state connections
  hellos : ∀ entry ∈ state.sockets, ∀ hello, entry.hello = some hello →
    (connections[entry.id]?).map (·.permits) = some hello.maxParallelism
  counts : ∀ connection ∈ connections,
    state.assignedCount connection.agentId ≤ connection.permits
  served : ∀ row ∈ state.jobs, row.active = true → ∀ agent, row.agentId = some agent →
    agent ∈ connections.map (·.agentId)

theorem Capable.acts {connections : List Connection} {action : Action} {before after : State}
    (capable : Capable connections before) (uniform : Uniform connections)
    (acts : Acts action before after) (stays : ∀ agent, action ≠ .connect agent)
    (greets : ∀ socket hello, action = .greet socket hello →
      (connections[socket]?).map (·.permits) = some hello.maxParallelism) :
    Capable connections after := by
  refine ⟨acts.tidy capable.tidy, acts.endpoints stays capable.endpoints, ?_, ?_, ?_⟩
  · intro entry member hello said
    rcases acts.hello_back member said with ⟨old, present, id, was⟩ | greeting
    · rw [← id]
      exact capable.hellos old present hello was
    · exact greets entry.id hello greeting
  · intro connection member
    by_cases assigns : ∃ id socket, action = .assign id connection.agentId socket
    · obtain ⟨id, socket, rfl⟩ := assigns
      obtain ⟨more, entry, registered, hello, said, agent, room⟩ := acts.assign_room capable.tidy
      -- The connection of the hello is another one of the same agent, if not this one.
      obtain ⟨other, found, isAgent⟩ :=
        Option.map_eq_some_iff.mp (capable.endpoints.agents entry registered)
      have permits := capable.hellos entry registered hello said
      rw [found, Option.map_some, Option.some.injEq] at permits
      rw [uniform connection member other (List.mem_of_getElem? found)
        (agent.symm.trans isAgent.symm), permits]
      omega
    · have spared : ∀ id socket, action ≠ .assign id connection.agentId socket :=
        fun id socket same => assigns ⟨id, socket, same⟩
      exact (acts.assignedCount_le spared).trans (capable.counts connection member)
  · intro row member active agent owner
    rcases acts.active_row member active with ⟨old, present, -, was, same⟩ |
      ⟨assignee, socket, rfl, same⟩
    · exact capable.served old present was agent (same.trans owner)
    · rw [owner] at same
      cases same
      obtain ⟨⟨entry, registered, -, rfl, -⟩, -⟩ := acts.assign_spec
      have known := capable.endpoints.agents entry registered
      rw [← List.getElem?_map] at known
      exact List.mem_of_getElem? known

/-- What a connection says of itself, and that it executes a job once. -/
structure Connection.Proper (connection : Connection) : Prop where
  greetings : ∀ sending ∈ connection.sending, ∀ hello, sending.message = .hello hello →
    hello.maxParallelism = connection.permits
  distinct : (connection.running.map (·.jobId)).Nodup

omit [JsText] in
theorem Connection.executes_eq_false {connection : Connection} {jobId : JobId} :
    connection.executes jobId = false ↔ jobId ∉ connection.running.map (·.jobId) := by
  simp [Connection.executes]

section Connections

omit [JsText]

variable {connection : Connection}

theorem Connection.Proper.stop (proper : connection.Proper) : connection.stop.Proper :=
  ⟨proper.greetings, List.nodup_nil⟩

theorem Connection.Proper.runJob (proper : connection.Proper) (jobId : JobId) (assignment : Nat) :
    (connection.runJob jobId assignment).Proper := by
  unfold Connection.runJob
  split
  · exact proper
  · rename_i new
    split
    · refine ⟨proper.greetings, ?_⟩
      apply nodup_key_append proper.distinct
      intro execution member same
      rw [Bool.not_eq_true, Connection.executes_eq_false] at new
      exact new (List.mem_map.mpr ⟨execution, member, same⟩)
    · exact proper.stop

theorem Connection.Proper.cancelJob (proper : connection.Proper) (jobId : JobId) :
    (connection.cancelJob jobId).Proper :=
  ⟨proper.greetings, nodup_key_update (fun _ _ _ => rfl) proper.distinct⟩

theorem Connection.Proper.receive (proper : connection.Proper) (sent : List ServerMessage) :
    (connection.receive sent).Proper := by
  unfold Connection.receive
  split
  · exact proper
  · rename_i message _
    have counted : Connection.Proper { connection with received := connection.received + 1 } :=
      ⟨proper.greetings, proper.distinct⟩
    cases message with
    | welcome version interval =>
        rw [Connection.handleServerMessage]
        split
        · exact counted.stop
        · exact counted
    | runJob job assignment => exact counted.runJob job.id assignment
    | cancelJob jobId reason => exact counted.cancelJob jobId
    | _ => exact counted

theorem Connection.Proper.send (proper : connection.Proper) {sending : Sending}
    (greeting : ∀ hello, sending.message = .hello hello →
      hello.maxParallelism = connection.permits) : (connection.send sending).Proper := by
  refine ⟨?_, proper.distinct⟩
  intro other member hello isHello
  rcases List.mem_append.mp member with old | new
  · exact proper.greetings other old hello isHello
  · rw [List.mem_singleton.mp new] at isHello
    exact greeting hello isHello

theorem Connection.Proper.say (proper : connection.Proper) (message : AgentMessage) :
    (connection.say message).Proper := by
  unfold Connection.say
  split
  · rename_i speaks
    apply proper.send
    rintro hello rfl
    simp only [Connection.speaks, Bool.and_eq_true, decide_eq_true_eq] at speaks
    exact speaks.2.2
  · exact proper

theorem Connection.Proper.report (proper : connection.Proper) (jobId : JobId)
    (message : AgentMessage) : (connection.report jobId message).Proper := by
  unfold Connection.report
  split
  · exact proper
  · split
    · rename_i sends
      apply proper.send
      rintro hello rfl
      simp [AgentMessage.jobId?] at sends
    · exact proper

theorem Connection.Proper.finish (proper : connection.Proper) (jobId : JobId) :
    (connection.finish jobId).Proper :=
  ⟨proper.greetings, nodup_key_delete proper.distinct⟩

theorem Connection.Proper.arrive (proper : connection.Proper) :
    Connection.Proper { connection with sending := connection.sending.tail } :=
  ⟨fun sending member => proper.greetings sending (List.mem_of_mem_tail member), proper.distinct⟩

end Connections

/-! ### The system -/

/-- The invariant of the fleet: hellos name the permits of their connections, and no agent has more
jobs than permits. -/
structure Capacities (fleet : Fleet) : Prop where
  ready : Ready fleet.workspace
  uniform : Uniform fleet.connections
  capable : Capable fleet.connections fleet.workspace
  proper : ∀ connection ∈ fleet.connections, connection.Proper

omit [JsText] in
theorem capacities_initial : Capacities {} := by
  refine ⟨ready_initial, ?_, ⟨ready_initial.tidy, ⟨rfl, ?_⟩, ?_, ?_, ?_⟩, ?_⟩
  · intro one member
    cases member
  · intro entry member
    cases member
  · intro entry member
    cases member
  · intro connection member
    cases member
  · intro row member
    cases member
  · intro connection member
    cases member

omit [JsText] in
theorem arguments_of_modify {connections : List Connection} {socket : SocketId}
    {set : Connection → Connection}
    (keeps : ∀ connection : Connection, connection.SameArguments (set connection)) :
    ∀ connection ∈ connections.modify socket set,
      ∃ old ∈ connections, old.SameArguments connection := by
  apply forall_modify
  · exact fun connection member => ⟨connection, member, rfl, rfl⟩
  · exact fun connection found => ⟨connection, List.mem_of_getElem? found, keeps connection⟩

omit [JsText] in
theorem Uniform.modify {connections : List Connection} (uniform : Uniform connections)
    (socket : SocketId) {set : Connection → Connection}
    (keeps : ∀ connection : Connection, connection.SameArguments (set connection)) :
    Uniform (connections.modify socket set) := by
  intro one first two second same
  obtain ⟨oldOne, presentOne, agentOne, permitsOne⟩ := arguments_of_modify keeps one first
  obtain ⟨oldTwo, presentTwo, agentTwo, permitsTwo⟩ := arguments_of_modify keeps two second
  rw [permitsOne, permitsTwo]
  exact uniform oldOne presentOne oldTwo presentTwo (agentOne.symm.trans (same.trans agentTwo))

omit [JsText] in
theorem Capable.modify {connections : List Connection} {state : State}
    (capable : Capable connections state) (socket : SocketId) {set : Connection → Connection}
    (keeps : ∀ connection : Connection, connection.SameArguments (set connection)) :
    Capable (connections.modify socket set) state := by
  refine ⟨capable.tidy, capable.endpoints.modify socket fun connection =>
    (keeps connection).agentId,
    ?_, ?_, ?_⟩
  · intro entry member hello said
    rw [← List.getElem?_map, map_modify fun connection => (keeps connection).permits,
      List.getElem?_map]
    exact capable.hellos entry member hello said
  · intro connection member
    obtain ⟨old, present, agent, permits⟩ := arguments_of_modify keeps connection member
    rw [agent, permits]
    exact capable.counts old present
  · intro row member active agent owner
    rw [map_modify fun connection => (keeps connection).agentId]
    exact capable.served row member active agent owner

theorem Capable.step {connections : List Connection} {state : State} (ready : Ready state)
    (capable : Capable connections state) (uniform : Uniform connections) {event : Event}
    (internal : ∀ agent now, event ≠ .connect agent now)
    (greets : ∀ socket hello now, event = .message socket (.hello hello) now →
      (connections[socket]?).map (·.permits) = some hello.maxParallelism) :
    Capable connections (ControlPlane.step state event) := by
  have keeps : ∀ action before after, May state event action → Acts action before after →
      Capable connections before → Capable connections after := by
    intro action before after may acts held
    apply held.acts uniform acts (may.of_internal internal)
    rintro socket hello rfl
    obtain ⟨now, isGreeting⟩ := may.greeting
    exact greets socket hello now isGreeting
  exact (step_sound ready event).1.invariant keeps capable

omit [JsText] in
/-- A new connection of an agent that keeps its parallelism. -/
theorem Capable.connect {connections : List Connection} {state : State}
    (capable : Capable connections state) {agent : AgentId} {permits : Nat} (now : Millis)
    (same : ∀ connection ∈ connections, connection.agentId = agent →
      connection.permits = permits) :
    Capable (connections ++ [{ agentId := agent, permits := permits }])
      (acceptSocket now state agent) := by
  refine ⟨⟨capable.tidy.distinct, capable.tidy.named⟩, capable.endpoints.connect agent permits now,
    ?_, ?_, ?_⟩
  · intro entry member hello said
    rcases List.mem_append.mp member with old | new
    · obtain ⟨connection, found, isPermits⟩ :=
        Option.map_eq_some_iff.mp (capable.hellos entry old hello said)
      rw [lookup_append found, Option.map_some, isPermits]
    · rw [List.mem_singleton.mp new] at said
      cases said
  · intro connection member
    rcases List.mem_append.mp member with old | new
    · exact capable.counts connection old
    · rw [List.mem_singleton.mp new]
      by_cases known : ∃ connection ∈ connections, connection.agentId = agent
      · obtain ⟨other, present, isAgent⟩ := known
        rw [← same other present isAgent, ← isAgent]
        exact capable.counts other present
      · -- No job is with an agent that has never connected.
        have none : state.assignedCount agent = 0 := by
          rw [assignedCount_eq, List.countP_eq_zero]
          intro row present counted
          rw [Bool.and_eq_true, decide_eq_true_eq] at counted
          obtain ⟨connection, inside, isAgent⟩ :=
            List.mem_map.mp (capable.served row present counted.2 agent counted.1)
          exact known ⟨connection, inside, isAgent⟩
        exact none.trans_le (Nat.zero_le permits)
  · intro row member active owner isOwner
    rw [List.map_append]
    exact List.mem_append_left _ (capable.served row member active owner isOwner)

omit [JsText] in
theorem Capacities.onConnection {fleet : Fleet} (capacities : Capacities fleet)
    (socket : SocketId) {set : Connection → Connection}
    (keeps : ∀ connection : Connection, connection.SameArguments (set connection))
    (proper : ∀ connection : Connection, connection.Proper → (set connection).Proper) :
    Capacities (fleet.onConnection socket set) := by
  refine ⟨capacities.ready, capacities.uniform.modify socket keeps,
    capacities.capable.modify socket keeps, forall_modify capacities.proper ?_⟩
  exact fun connection found =>
    proper connection (capacities.proper connection (List.mem_of_getElem? found))

theorem Capacities.advance {fleet : Fleet} {occurrence : Occurrence}
    (capacities : Capacities fleet) (covered : SlotsCovered fleet occurrence) :
    Capacities (ControlPlane.advance fleet occurrence) := by
  cases occurrence with
  | connect agent permits now =>
      have same := covered.connects agent permits now rfl
      refine ⟨capacities.ready.step (.connect agent now), ?_,
        capacities.capable.connect now same, ?_⟩
      · intro one first two second isAgent
        rcases List.mem_append.mp first with oldOne | newOne
        · rcases List.mem_append.mp second with oldTwo | newTwo
          · exact capacities.uniform one oldOne two oldTwo isAgent
          · rw [List.mem_singleton.mp newTwo] at isAgent ⊢
            exact same one oldOne isAgent
        · rw [List.mem_singleton.mp newOne] at isAgent ⊢
          rcases List.mem_append.mp second with oldTwo | newTwo
          · exact (same two oldTwo isAgent.symm).symm
          · rw [List.mem_singleton.mp newTwo]
      · intro connection member
        rcases List.mem_append.mp member with old | new
        · exact capacities.proper connection old
        · rw [List.mem_singleton.mp new]
          refine ⟨?_, List.nodup_nil⟩
          intro sending inside
          cases inside
  | workspace event =>
      unfold ControlPlane.advance
      dsimp only
      split
      · rename_i internal
        refine ⟨capacities.ready.step event, capacities.uniform, ?_, capacities.proper⟩
        apply capacities.capable.step capacities.ready capacities.uniform
        · rintro agent now rfl
          cases internal
        · rintro socket hello now rfl
          cases internal
      · exact capacities
  | receive socket =>
      exact capacities.onConnection socket (fun connection => connection.receive_arguments _)
        fun connection proper => proper.receive _
  | say socket message =>
      exact capacities.onConnection socket (fun connection => connection.say_arguments message)
        fun connection proper => proper.say message
  | report socket jobId message =>
      exact capacities.onConnection socket
        (fun connection => connection.report_arguments jobId message)
        fun connection proper => proper.report jobId message
  | finish socket jobId =>
      exact capacities.onConnection socket (fun _ => ⟨rfl, rfl⟩)
        fun connection proper => proper.finish jobId
  | stop socket =>
      exact capacities.onConnection socket (fun _ => ⟨rfl, rfl⟩) fun connection proper =>
        proper.stop
  | arrive socket now =>
      unfold ControlPlane.advance
      dsimp only
      split
      · exact capacities
      · rename_i sending arrives
        obtain ⟨connection, found, first⟩ := Option.bind_eq_some_iff.mp arrives
        have stepped : Capable fleet.connections
            (step fleet.workspace (.message socket sending.message now)) := by
          apply capacities.capable.step capacities.ready capacities.uniform
          · intro agent later wrong
            cases wrong
          · intro other hello later same
            obtain ⟨rfl, isGreeting, -⟩ := Event.message.inj same
            have proper := capacities.proper connection (List.mem_of_getElem? found)
            rw [found, Option.map_some,
              proper.greetings sending (List.mem_of_mem_head? first) hello isGreeting]
        refine ⟨capacities.ready.step (.message socket sending.message now), ?_, ?_, ?_⟩
        · exact capacities.uniform.modify socket fun _ => ⟨rfl, rfl⟩
        · exact stepped.modify socket fun _ => ⟨rfl, rfl⟩
        · exact forall_modify capacities.proper fun connection present =>
            (capacities.proper connection (List.mem_of_getElem? present)).arrive

omit [JsText] in
/-- The jobs that the Workspace counts for an agent are at most its count. -/
theorem counted_le {state : State} {agent : AgentId} {ids : List JobId} (distinct : ids.Nodup) :
    (ids.filter (state.counts agent)).length ≤ state.assignedCount agent := by
  have within : ids.filter (state.counts agent) ⊆
      (state.jobs.filter fun row => row.agentId = some agent && row.active).map JobRow.id := by
    intro id member
    obtain ⟨row, present, isRow⟩ := List.any_eq_true.mp (List.mem_filter.mp member).2
    simp only [Bool.and_eq_true, decide_eq_true_eq] at isRow
    refine List.mem_map.mpr ⟨row, List.mem_filter.mpr ⟨present, ?_⟩, isRow.1.1⟩
    simp [isRow.1.2, isRow.2]
  have shorter := (List.subperm_of_subset (distinct.filter _) within).length_le
  rwa [List.length_map] at shorter

omit [JsText] in
theorem Capacities.agreed {fleet : Fleet} {occurrence : Occurrence}
    (capacities : Capacities fleet) (covered : SlotsCovered fleet occurrence) :
    CapacityAgreed fleet occurrence := by
  intro socket connection job assignment receives found next new
  have member := List.mem_of_getElem? found
  have distinct : (job.id :: connection.running.map (·.jobId)).Nodup :=
    List.nodup_cons.mpr ⟨Connection.executes_eq_false.mp new,
      (capacities.proper connection member).distinct⟩
  have parts := List.length_eq_length_filter_add (l := job.id :: connection.running.map (·.jobId))
    (fleet.workspace.counts connection.agentId)
  have counted : ((job.id :: connection.running.map (·.jobId)).filter
      (fleet.workspace.counts connection.agentId)).length ≤
        fleet.workspace.assignedCount connection.agentId := counted_le distinct
  have capacity := capacities.capable.counts connection member
  have cover := covered.receives socket connection job assignment receives found next new
  rw [Connection.uncounted] at cover
  rw [List.length_cons, List.length_map] at parts
  omega

/-- In every run in which the Workspace's free slots cover what it does not count, every
`run_job` finds a free permit. -/
theorem capacity_agreed_of_covered (occurrences : List Occurrence)
    (covered : Along advance SlotsCovered {} occurrences) :
    Along advance CapacityAgreed {} occurrences :=
  covered.safe (fun _ _ capacities covered => capacities.advance covered)
    (fun _ _ capacities covered => capacities.agreed covered) capacities_initial

/-- The job of a `run_job`. -/
def ServerMessage.runs? : ServerMessage → Option JobId
  | .runJob job _ => some job.id
  | _ => none

omit [JsText] in
theorem slotsCovered_receive {fleet : Fleet} {socket : SocketId}
    (covers : ∀ connection ∈ fleet.connections[socket]?,
      ∀ jobId ∈ (connection.next? (fleet.workspace.sentOn socket)).bind (·.runs?),
        connection.uncounted fleet.workspace jobId = 0) :
    SlotsCovered fleet (.receive socket) := by
  constructor
  · rintro agent permits now ⟨⟩
  · rintro _ connection job assignment ⟨⟩ found next -
    exact .inl (covers connection found job.id (by simp [next, ServerMessage.runs?]))

omit [JsText] in
theorem slotsCovered_of {fleet : Fleet} {occurrence : Occurrence}
    (other : ∀ socket, occurrence ≠ .receive socket)
    (connects : ∀ agent permits now, occurrence = .connect agent permits now →
      fleet.connections = []) : SlotsCovered fleet occurrence := by
  constructor
  · intro agent permits now isConnect connection member
    rw [connects agent permits now isConnect] at member
    cases member
  · intro socket connection job assignment isReceive
    exact absurd isReceive (other socket)

end Text

section Sample

open scoped Ascii

/-- Agent `a` executes job 1 while job 2 waits for a slot. -/
def oneSlot : List Occurrence :=
  [.connect "a" 1 0, .say 0 (.hello (Ascii.hello "a" 1)), .arrive 0 0,
    .workspace (.enqueue (Ascii.manualJob 1) "d" 0), .receive 0, .receive 0,
    .workspace (.enqueue (Ascii.manualJob 2) "e" 1),
    .report 0 1 (.jobFinished 1 1 .success "")]

/-- The task of job 1 ends before the `run_job` of job 2 reaches the agent. -/
def endsFirst : List Occurrence :=
  oneSlot ++ [.arrive 0 2, .workspace (.resume 0 .settled 2), .finish 0 1, .receive 0]

/-- The permit is free when the second job comes. -/
theorem endsFirst_agreed :
    (run advance {} endsFirst).connections.map (·.running) = [[⟨2, 1, false⟩]] ∧
      Along advance CapacityAgreed {} endsFirst := by
  refine ⟨by decide, capacity_agreed_of_covered endsFirst ?_⟩
  refine ⟨?_, ?_, ?_, ?_, ?_, ?_, ?_, ?_, ?_, ?_, ?_, ?_, trivial⟩
  all_goals
    first
      | apply slotsCovered_receive
        decide
      | apply slotsCovered_of
        · rintro socket ⟨⟩
        · rintro agent permits now ⟨⟩
          try rfl

/-- The `job_finished` of job 1 frees the slot in the Workspace, which gives it to job 2; the
agent still deletes the directory of job 1 when the `run_job` arrives. -/
theorem slot_given_before_permit_is_free :
    (run advance {}
      (oneSlot ++ [.arrive 0 2, .workspace (.resume 0 .settled 2)])).workspace.jobs.map
        (fun row => (row.status, row.agentId)) =
          [(.completed, some "a"), (.assigned, some "a")] ∧
      (run advance {} (oneSlot ++ [.arrive 0 2, .workspace (.resume 0 .settled 2),
        .receive 0])).connections.map (·.isUp) = [false] ∧
      ¬ Along advance CapacityAgreed {}
        (oneSlot ++ [.arrive 0 2, .workspace (.resume 0 .settled 2), .receive 0]) := by
  refine ⟨by decide, by decide, fun agreed => ?_⟩
  obtain ⟨connection, job, assignment, found, next, new, full⟩ :
      ∃ connection job assignment,
        (run advance {}
          (oneSlot ++ [.arrive 0 2, .workspace (.resume 0 .settled 2)])).connections[0]? =
          some connection ∧
        connection.next? ((run advance {} (oneSlot ++ [.arrive 0 2,
          .workspace (.resume 0 .settled 2)])).workspace.sentOn 0) =
            some (.runJob job assignment) ∧
        connection.executes job.id = false ∧ ¬ connection.running.length < connection.permits :=
    ⟨_, _, _, rfl, rfl, rfl, by decide⟩
  exact full ((Along.append.mp agreed).2.2.2.1 0 connection job assignment rfl found next new)

end Sample

end GitZero.ControlPlane
