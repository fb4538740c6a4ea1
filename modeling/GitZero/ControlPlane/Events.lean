/-
Module: GitZero.ControlPlane.Events
Purpose: What one event can do to the Workspace: the elementary actions it may
  take, read off the state before it, and the frames it leaves suspended.
Trusted boundary: none
Main exports: TakenBack, Own, Moved, May, Pending, Ready, Event.resumes, resumeFrame_sound,
  unwind_trace, settle_trace, step_sound, Ready.step, run_trace, ready_run
-/
import GitZero.ControlPlane.Steps

namespace GitZero.ControlPlane

open Table Machine

section Text

variable [JsText]

/-! ### The vocabulary of events -/

/-- The jobs that the resumption of a frame takes back from their agents. -/
def TakenBy (state : State) (now : Millis) (reply : Reply) : Frame → JobId → Prop
  | .dispatchToken _ job _ socket, id => id = job.id ∧ ¬ Delivers state job socket reply
  | .disconnect _ rows, id => ∃ row ∈ rows, row.id = id
  | .alarmInit rest, id => rest = [] ∧ LeaseExpired state now id
  | _, _ => False

/-- The jobs that an event may take back from their agents by `requeue`. -/
def TakenBack (state : State) : Event → JobId → Prop
  | .close socket _, id | .error socket _, id =>
      ∃ entry, state.socket? socket = some entry ∧ entry.hello.isSome = true ∧
        Owned state id entry.agentId
  | .alarm now, id => initializationDue state now = [] ∧ LeaseExpired state now id
  | .resume task reply now, id =>
      ∃ frame frames, state.tasks[task]? = some (frame :: frames) ∧
        TakenBy state now reply frame id
  | _, _ => False

/-- A close or error event of the connection leaves its disconnect loop suspended. -/
def SuspendsLoop (state : State) (socket : SocketId) (action : Action) : Prop :=
  ∃ entry rest, state.socket? socket = some entry ∧ entry.hello.isSome = true ∧
    rest <:+ disconnectRows state entry.agentId ∧ action = .suspendLoop socket rest

/-- The actions that are an event's own: the insert of an enqueue, changes of the
socket table, the actions of an agent's message that is new to the Workspace, and
the terminal branch of a failing initialization, entered
directly or by an exception of the dispatch inside its `try`. -/
def Own (state : State) : Event → Action → Prop
  | .enqueue job _ _, action => Inserts state job.id action
  | .connect agentId _, action => action = .connect agentId
  | .leaveOpen socket, action => action = .shut socket
  | .close socket _, action => action = .dropSocket socket ∨ SuspendsLoop state socket action
  | .error socket _, action => SuspendsLoop state socket action
  | .message socket message _, action =>
      ∃ entry, state.socket? socket = some entry ∧
        ((∃ hello, message = .hello hello ∧ Greets state entry hello action) ∨
          (entry.hello.isSome = true ∧
            (∀ known ∈ state.messages, messageIdOf message ≠ some known.1) ∧
            Sent state socket entry.agentId message action))
  | .resume task reply _, action =>
      (∃ frame frames claim, state.tasks[task]? = some (frame :: frames) ∧
        (caughtAttempt frame reply = some claim ∨
          (Throws state reply frame ∧ .initDispatched claim ∈ frames)) ∧
        Exhausts claim action) ∨
      ∃ socket rows frames rest, state.tasks[task]? = some (.disconnect socket rows :: frames) ∧
        rest <:+ rows ∧ action = .suspendLoop socket rest
  | _, _ => False

/-- The event may change owner, status or assignment of the active job. -/
def Moved (state : State) (event : Event) (jobId : JobId) : Prop :=
  TakenBack state event jobId ∨ ∃ action, Own state event action ∧ action.moves jobId

/-- The event may put the job into the queue. -/
def Requeued (state : State) (event : Event) (jobId : JobId) : Prop :=
  TakenBack state event jobId ∨ ∃ action, Own state event action ∧ action.queues jobId

/-- Everything an event can do: its own actions, and actions on the Workspace's
account that concern jobs in the queue or jobs it takes back. -/
def May (state : State) (event : Event) (action : Action) : Prop :=
  Own state event action ∨
    action.within fun id => QueuedIn state id ∨ Requeued state event id

theorem May.of_within {state : State} {event : Event} {action : Action}
    (inside : action.within fun id => QueuedIn state id) : May state event action :=
  .inr (Action.within_mono (fun _ => .inl) action inside)

theorem May.of_taken {state : State} {event : Event} {ids : JobId → Prop} {action : Action}
    (taken : ∀ id, ids id → TakenBack state event id)
    (inside : action.within fun id => QueuedIn state id ∨ ids id) : May state event action :=
  .inr (Action.within_mono (fun id => Or.imp_right fun member => .inl (taken id member)) action
    inside)

theorem May.of_handler {state : State} {event : Event} {own : Action → Prop} {action : Action}
    (mine : ∀ action, own action → Own state event action)
    (acts : HandlerActs state own action) : May state event action := by
  rcases acts with sent | inside
  · exact .inl (mine action sent)
  · refine .inr (Action.within_mono (fun id => Or.imp_right ?_) action inside)
    exact fun ⟨queueing, sent, queues⟩ => .inr ⟨queueing, mine queueing sent, queues⟩

theorem May.of_disconnect {state : State} {event : Event} {socket : SocketId} {entry : Socket}
    {action : Action} (known : state.socket? socket = some entry)
    (taken : ∀ id, (∃ entry, state.socket? socket = some entry ∧ entry.hello.isSome = true ∧
      Owned state id entry.agentId) → TakenBack state event id)
    (mine : ∀ action, SuspendsLoop state socket action → Own state event action)
    (acts : DisconnectActs state entry action) : May state event action := by
  obtain ⟨hello, inside | ⟨rest, rfl, suffix⟩⟩ := acts
  · refine .of_taken (fun id owned => taken id ⟨entry, known, hello, owned⟩)
      (Action.within_mono (fun id => Or.imp_right ?_) action inside)
    rintro ⟨row, member, rfl⟩
    obtain ⟨present, owner, active⟩ := mem_disconnectRows.mp member
    exact ⟨row, present, rfl, owner, active⟩
  · exact .inl (mine _ ⟨entry, rest, known, hello, suffix, by rw [row_key known]⟩)

theorem May.quiet {state : State} {event : Event} : May state event .quiet := .inr trivial

/-- The actions that are an event's own, one by one. -/
inductive OwnCase (state : State) : Event → Action → Prop where
  | insert {job : QueuedJob} {deliveryId : String} {now : Millis}
      (inactive : ¬ ActiveIn state job.id) :
      OwnCase state (.enqueue job deliveryId now) (.insert job.id)
  | connect {agent : AgentId} {now : Millis} :
      OwnCase state (.connect agent now) (.connect agent)
  | leave {socket : SocketId} : OwnCase state (.leaveOpen socket) (.shut socket)
  | close {socket : SocketId} {now : Millis} :
      OwnCase state (.close socket now) (.dropSocket socket)
  | suspend {event : Event} {socket : SocketId} {now : Millis} {rest : List JobRow}
      (disconnects : event = .close socket now ∨ event = .error socket now) :
      OwnCase state event (.suspendLoop socket rest)
  | resumeLoop {task : Nat} {reply : Reply} {now : Millis} {socket : SocketId}
      {rows rest : List JobRow} {frames : List Frame}
      (found : state.tasks[task]? = some (.disconnect socket rows :: frames)) :
      OwnCase state (.resume task reply now) (.suspendLoop socket rest)
  | greet {socket : SocketId} {hello : AgentHello} {now : Millis} {entry : Socket}
      (known : state.socket? socket = some entry) (accepted : HelloAccepted state entry hello) :
      OwnCase state (.message socket (.hello hello) now) (.greet socket hello)
  | refuse {socket : SocketId} {hello : AgentHello} {now : Millis} :
      OwnCase state (.message socket (.hello hello) now) (.shut socket)
  | sent {socket : SocketId} {message : AgentMessage} {now : Millis} {entry : Socket}
      {action : Action} (known : state.socket? socket = some entry)
      (sent : Sent state socket entry.agentId message action) :
      OwnCase state (.message socket message now) action
  | exhaust {task : Nat} {reply : Reply} {now : Millis} {claim : JobRow} :
      OwnCase state (.resume task reply now)
        (.job (.completeInfrastructure .initializationExhausted) claim.job.id)

theorem Own.ownCase {state : State} {event : Event} {action : Action}
    (own : Own state event action) : OwnCase state event action := by
  cases event with
  | enqueue job deliveryId now =>
      obtain ⟨inactive, rfl⟩ := own
      exact .insert inactive
  | connect agentId now =>
      cases own
      exact .connect
  | leaveOpen socket =>
      cases own
      exact .leave
  | message socket message now =>
      obtain ⟨entry, known, ⟨hello, rfl, ⟨accepted, rfl⟩ | rfl⟩ | ⟨-, -, sent⟩⟩ := own
      · have id : entry.id = socket := row_key known
        rw [id]
        exact .greet known accepted
      · have id : entry.id = socket := row_key known
        rw [id]
        exact .refuse
      · exact .sent known sent
  | close socket now =>
      rcases own with rfl | ⟨entry, rest, -, -, -, rfl⟩
      · exact .close
      · exact .suspend (.inl rfl)
  | error socket now =>
      obtain ⟨entry, rest, -, -, -, rfl⟩ := own
      exact .suspend (.inr rfl)
  | resume task reply now =>
      rcases own with ⟨frame, frames, claim, -, -, -, rfl⟩ |
        ⟨socket, rows, frames, rest, found, -, rfl⟩
      · exact .exhaust
      · exact .resumeLoop found
  | alarm => exact own.elim

/-- Only an enqueue inserts. -/
theorem Own.inserts {state : State} {event : Event} {id : JobId}
    (own : Own state event (.insert id)) :
    ∃ job deliveryId now, event = .enqueue job deliveryId now ∧ ¬ ActiveIn state job.id ∧
      id = job.id := by
  cases own.ownCase with
  | insert inactive => exact ⟨_, _, _, rfl, inactive, rfl⟩
  | sent known sent => cases sent

/-- Only a message acquires. -/
theorem Own.acquires {state : State} {event : Event} {requestId : RequestId} {jobId : JobId}
    {agent : AgentId} (own : Own state event (.acquire requestId jobId agent)) :
    ∃ socket message now entry, event = .message socket message now ∧
      state.socket? socket = some entry ∧
      Sent state socket entry.agentId message (.acquire requestId jobId agent) := by
  cases own.ownCase with
  | sent known sent => exact ⟨_, _, _, _, rfl, known, sent⟩

/-- A message updates rows, and the `catch` of an initialization does. -/
theorem Own.updates {state : State} {event : Event} {kind : RowKind} {id : JobId}
    (own : Own state event (.job kind id)) :
    (∃ socket message now entry, event = .message socket message now ∧
      state.socket? socket = some entry ∧
      Sent state socket entry.agentId message (.job kind id)) ∨
    ∃ task reply now, event = .resume task reply now ∧
      kind = .completeInfrastructure .initializationExhausted := by
  cases own.ownCase with
  | sent known sent => exact .inl ⟨_, _, _, _, rfl, known, sent⟩
  | exhaust => exact .inr ⟨_, _, _, rfl, rfl⟩

/-- What puts an active job into the queue moves it. -/
theorem Requeued.moved {state : State} {event : Event} {jobId : JobId}
    (active : ActiveIn state jobId) (requeued : Requeued state event jobId) :
    Moved state event jobId := by
  rcases requeued with taken | ⟨action, own, queues⟩
  · exact .inl taken
  · refine .inr ⟨action, own, ?_⟩
    cases action with
    | job kind id =>
        cases kind with
        | requeue | reject => exact ⟨rfl, queues⟩
        | _ => exact queues.elim
    | insert id =>
        obtain ⟨job, deliveryId, now, -, inactive, same⟩ := own.inserts
        exact absurd (by rw [← same, queues]; exact active) inactive
    | _ => exact queues.elim

theorem May.not_moves {state : State} {event : Event} {action : Action} (tidy : Tidy state)
    (may : May state event action) {jobId : JobId} (active : ActiveIn state jobId)
    (unmoved : ¬ Moved state event jobId) : ¬ action.moves jobId := by
  intro moves
  rcases may with own | inside
  · exact unmoved (.inr ⟨action, own, moves⟩)
  · rcases Action.within_moves inside moves with queued | requeued
    · exact tidy.not_queued_of_active active queued
    · exact unmoved (requeued.moved active)

/-- The event resumes the task at this position. -/
def Event.resumes : Event → Nat → Bool
  | .resume task _ _, index => task = index
  | _, _ => false

/-- The frame is suspended before the event and not the one that the event
resumes. -/
def Pending (state : State) (event : Event) (frame : Frame) : Prop :=
  ∃ index task, state.tasks[index]? = some task ∧
    frame ∈ if event.resumes index then task.tail else task

omit [JsText] in
theorem Pending.mem {state : State} {event : Event} {frame : Frame}
    (pending : Pending state event frame) : ∃ task ∈ state.tasks, frame ∈ task := by
  obtain ⟨index, task, found, inside⟩ := pending
  refine ⟨task, List.mem_of_getElem? found, ?_⟩
  split at inside
  · exact List.mem_of_mem_tail inside
  · exact inside

omit [JsText] in
/-- The frames of other tasks are pending when a task is resumed. -/
theorem Pending.of_other {state : State} {task : Nat} {reply : Reply} {now : Millis}
    {other : List Frame} {frame : Frame} (member : other ∈ state.tasks.eraseIdx task)
    (inside : frame ∈ other) : Pending state (.resume task reply now) frame := by
  obtain ⟨index, apart, present⟩ := List.mem_eraseIdx_iff_getElem?.mp member
  refine ⟨index, other, present, ?_⟩
  simpa [Event.resumes, apart.symm] using inside

omit [JsText] in
/-- So are the frames behind the one that is resumed. -/
theorem Pending.of_behind {state : State} {task : Nat} {reply : Reply} {now : Millis}
    {head frame : Frame} {frames : List Frame}
    (found : state.tasks[task]? = some (head :: frames)) (inside : frame ∈ frames) :
    Pending state (.resume task reply now) frame :=
  ⟨task, head :: frames, found, by simpa [Event.resumes] using inside⟩

omit [JsText] in
/-- All frames are, when nothing is resumed. -/
theorem Pending.of_mem {state : State} {event : Event}
    (fresh : ∀ index, event.resumes index = false) {task : List Frame} {frame : Frame}
    (member : task ∈ state.tasks) (inside : frame ∈ task) : Pending state event frame := by
  obtain ⟨index, found⟩ := List.mem_iff_getElem?.mp member
  exact ⟨index, task, found, by rw [fresh index]; exact inside⟩

/-- These frames as a list. -/
def pendingFrames (state : State) (event : Event) : List Frame :=
  (state.tasks.mapIdx fun index task => if event.resumes index then task.tail else task).flatten

omit [JsText] in
theorem mem_pendingFrames {state : State} {event : Event} {frame : Frame} :
    frame ∈ pendingFrames state event ↔ Pending state event frame := by
  simp only [pendingFrames, List.mem_flatten, List.mem_mapIdx, Pending]
  constructor
  · rintro ⟨frames, ⟨index, bound, rfl⟩, inside⟩
    exact ⟨index, state.tasks[index], List.getElem?_eq_getElem bound, inside⟩
  · rintro ⟨index, task, found, inside⟩
    obtain ⟨bound, rfl⟩ := List.getElem?_eq_some_iff.mp found
    exact ⟨_, ⟨index, bound, rfl⟩, inside⟩

/-- Rows are keyed and every suspended frame keeps what it was suspended with. -/
structure Ready (state : State) : Prop where
  tidy : Tidy state
  frames : ∀ task ∈ state.tasks, ∀ frame ∈ task, FrameOk state frame

/-! ### Messages -/

omit [JsText] in
theorem assignedJob_congr {before after : State} (jobs : after.jobs = before.jobs)
    (jobId : JobId) (agent : AgentId) :
    after.assignedJob jobId agent = before.assignedJob jobId agent := by
  simp [State.assignedJob, State.jobRow?, jobs]

theorem Sent.congr {before after : State} {socket : SocketId} {agent : AgentId}
    {message : AgentMessage} {action : Action} (jobs : after.jobs = before.jobs)
    (leases : after.leases = before.leases)
    (hello : (after.socket? socket).bind (·.hello) = (before.socket? socket).bind (·.hello))
    (sent : Sent after socket agent message action) :
    Sent before socket agent message action := by
  have same := assignedJob_congr jobs
  cases sent with
  | start owned assigned => exact .start (same _ _ ▸ owned) assigned
  | reject owned accepted =>
      obtain ⟨assigned, current, found, unsatisfied⟩ := accepted
      exact .reject (same _ _ ▸ owned) ⟨assigned, current, hello ▸ found, unsatisfied⟩
  | finish owned unfinished => exact .finish (same _ _ ▸ owned) unfinished
  | releaseRun owned unfinished => exact .releaseRun (same _ _ ▸ owned) unfinished
  | acquire owned legal admitted =>
      refine .acquire (same _ _ ▸ owned) legal ?_
      unfold State.Admitted at admitted ⊢
      rwa [leases] at admitted
  | release => exact .release

omit [JsText] in
theorem socket?_updateSocket (state : State) (socket other : SocketId) {set : Socket → Socket}
    (keeps : ∀ entry, (set entry).id = entry.id) :
    (state.updateSocket socket set).socket? other =
      (state.socket? other).map fun entry => if entry.id = socket then set entry else entry := by
  have looked : row Socket.id
      (update state.sockets (fun candidate => candidate.id = socket) set) other = _ :=
    row_update keeps other
  simpa [State.socket?, State.updateSocket] using looked

omit [JsText] in
theorem hello_of_seen (state : State) (socket other : SocketId) (now : Millis) :
    ((state.updateSocket socket fun current => { current with lastSeenAt := now }).socket?
      other).bind (·.hello) = (state.socket? other).bind (·.hello) := by
  rw [socket?_updateSocket]
  · cases state.socket? other with
    | none => rfl
    | some entry =>
        dsimp only [Option.map_some, Option.bind_some]
        split <;> rfl
  · exact fun _ => rfl

theorem webSocketMessage_sound {state : State} (tidy : Tidy state) (now : Millis)
    {socket : SocketId} {entry : Socket} (known : state.socket? socket = some entry)
    (message : AgentMessage) :
    Sound (May state (.message socket message now)) state
      (webSocketMessage now state entry message) := by
  have socketId : entry.id = socket := row_key known
  unfold webSocketMessage
  split
  · exact (webSocketHello_sound tidy now entry _).mono fun _ => .of_handler
      fun _ greets => ⟨entry, known, .inl ⟨_, rfl, greets⟩⟩
  · exact .done (.refl _) rfl
  · rename_i message _ _ messageId notHello identified
    split
    · exact (sendLast_sound state entry.id (by simp)).mono fun _ => .of_within
    · rename_i greeted
      have seen : Trace (May state (.message socket message now)) state
          (state.updateSocket entry.id fun current => { current with lastSeenAt := now }) :=
        .one (.sockets entry.id _ fun _ => ⟨rfl, rfl, rfl, rfl⟩) (.inr trivial)
      dsimp only
      split
      · exact .after seen rfl ((sendLast_sound _ entry.id (by simp)).mono
          fun _ => .of_within)
      · rename_i reserved reservation
        have fresh : ∀ known ∈ state.messages, messageIdOf message ≠ some known.1 := by
          intro old member same
          unfold reserveMessage at reservation
          split at reservation
          · cases reservation
          · rename_i unseen
            simp only [List.any_eq_true, decide_eq_true_eq, not_exists, not_and] at unseen
            rw [identified, Option.some.injEq] at same
            exact unseen old member same.symm
        have reserving : Trace (May state (.message socket message now))
            (state.updateSocket entry.id fun current => { current with lastSeenAt := now })
            reserved ∧ reserved.tasks = state.tasks ∧ reserved.jobs = state.jobs ∧
            reserved.leases = state.leases ∧ reserved.sockets =
              (state.updateSocket entry.id fun current =>
                { current with lastSeenAt := now }).sockets := by
          unfold reserveMessage at reservation
          split at reservation
          · cases reservation
          · cases reservation
            exact ⟨.one (.quiet ⟨rfl, rfl, rfl, rfl, rfl, rfl, rfl, rfl⟩ rfl) .quiet, rfl,
              rfl, rfl, rfl⟩
        obtain ⟨noted, tasks, jobs, leases, sockets⟩ := reserving
        have front := seen.trans noted
        have hello : (reserved.socket? entry.id).bind (·.hello) =
            (state.socket? entry.id).bind (·.hello) := by
          rw [State.socket?, sockets]
          exact hello_of_seen state entry.id entry.id now
        refine .after front tasks (.await (.mono
          (handleAgentEvent_sound (front.tidy tidy) now entry.id entry.agentId message) ?_) trivial)
        have own : ∀ action, Sent reserved entry.id entry.agentId message action →
            Own state (.message socket message now) action := by
          intro action sent
          refine ⟨entry, known, .inr ⟨?_, fresh, socketId ▸ sent.congr jobs leases hello⟩⟩
          simpa [Option.isSome_iff_ne_none] using greeted
        rintro action (sent | inside)
        · exact .inl (own action sent)
        · refine .inr (Action.within_mono (fun id => ?_) action inside)
          rintro (queued | ⟨queueing, sent, queues⟩)
          · exact .inl (by simpa [QueuedIn, jobs] using queued)
          · exact .inr (.inr ⟨queueing, own queueing sent, queues⟩)

/-! ### Resumptions -/

/-- The actions that are the resumed frame's own. -/
def ResumeOwn (frame : Frame) (reply : Reply) (action : Action) : Prop :=
  (∃ claim, caughtAttempt frame reply = some claim ∧ Exhausts claim action) ∨
    ∃ socket rows rest, frame = .disconnect socket rows ∧ rest <:+ rows ∧
      action = .suspendLoop socket rest

/-- A suspended function acts on the job it has claimed, or on queued ones. -/
theorem resumeFrame_sound {state : State} (tidy : Tidy state) (now : Millis) {frame : Frame}
    (ok : FrameOk state frame) (reply : Reply) :
    Sound (fun action =>
      (action.within fun id => QueuedIn state id ∨ TakenBy state now reply frame id) ∨
        ResumeOwn frame reply action) state (resumeFrame now state reply frame) := by
  have plain : ∀ {ids : JobId → Prop} {segment : Segment},
      Sound (Action.within ids) state segment →
      (∀ id, ids id → QueuedIn state id ∨ TakenBy state now reply frame id) →
      Sound (fun action =>
        (action.within fun id => QueuedIn state id ∨ TakenBy state now reply frame id) ∨
          ResumeOwn frame reply action) state segment :=
    fun sound weaker => (sound.widen weaker).mono fun _ => .inl
  cases frame with
  | dispatchToken assignment job agent socket =>
      cases reply with
      | token credential =>
          refine plain (deliver_sound tidy now ok (some credential)) ?_
          rintro id ⟨rfl, blocked⟩
          refine .inr ⟨rfl, ?_⟩
          rintro ⟨other, same, deliverable⟩
          cases same
          exact blocked deliverable
      | settled | failed | mergeSnapshot | actionsVariables | checkRun | deployment | credential =>
          refine plain (dispatchFailure_sound tidy now job.id) ?_
          rintro id rfl
          refine .inr ⟨rfl, ?_⟩
          rintro ⟨other, wrong, -⟩
          cases wrong
  | dispatchLoop | heartbeatScheduled =>
      exact plain (dispatchIteration_sound tidy now) fun _ => .inl
  | finishedSynced => exact plain ((dispatchIteration_sound tidy now).await trivial) fun _ => .inl
  | initMergeSnapshot claim job =>
      exact (resumeInit_sound tidy now ok reply ⟨claim, job, .inl rfl⟩).mono
        fun action => Or.imp (Action.within_mono (fun _ => .inl) action) .inl
  | initVariables claim job =>
      exact (resumeInit_sound tidy now ok reply ⟨claim, job, .inr (.inl rfl)⟩).mono
        fun action => Or.imp (Action.within_mono (fun _ => .inl) action) .inl
  | initCheckRun claim job =>
      exact (resumeInit_sound tidy now ok reply ⟨claim, job, .inr (.inr rfl)⟩).mono
        fun action => Or.imp (Action.within_mono (fun _ => .inl) action) .inl
  | disconnect socket rows =>
      refine (disconnectLoop_sound now socket rows tidy).mono fun action => Or.imp_right ?_
      rintro ⟨rest, rfl, suffix⟩
      exact .inr ⟨socket, rows, rest, rfl, suffix, rfl⟩
  | alarmInit rest => exact plain (alarmInitLoop_sound tidy now rest) fun _ => id
  | alarmCheck rest dueAt => exact plain (alarmCheckLoop_sound tidy now dueAt rest) fun _ => .inl
  | alarmDeployment rest dueAt =>
      exact plain (alarmDeploymentLoop_sound tidy now dueAt rest) fun _ => .inl
  | checkUpdate row => exact plain (resumeCheckUpdate_sound now state row reply) fun _ => False.elim
  | deploymentSync claim =>
      exact plain (resumeDeploymentSync_sound now state claim reply) fun _ => False.elim
  | credential kind jobId requestId agentId socket =>
      exact plain (resumeCredential_sound state kind jobId requestId agentId socket reply)
        fun _ => False.elim
  | ack socket messageId =>
      exact plain (sendLast_sound state socket (by simp)) fun _ => False.elim
  | dispatchFailed =>
      exact plain (.done (quiet_trace ⟨rfl, rfl, rfl, rfl, rfl, rfl, rfl, rfl⟩ rfl) rfl) fun _ =>
        False.elim
  | initDispatched | initTerminal | scheduleAfterDispatch =>
      exact plain (.done (quiet_trace (scheduleAlarm_core state now) rfl) rfl) fun _ => False.elim

/-- The actions of an exception that passes the frames `rest`. -/
def UnwindActs (ids : JobId → Prop) (rest : List Frame) (action : Action) : Prop :=
  action.within ids ∨ ∃ claim, .initDispatched claim ∈ rest ∧ Exhausts claim action

/-- Tasks after a step: old ones, and ones made of frames of `rest` and new ones. -/
def TasksFrom (allowed : Action → Prop) (rest : List Frame) (before after : State) : Prop :=
  (∀ task ∈ after.tasks, task ∈ before.tasks ∨
    ∀ frame ∈ task, frame ∈ rest ∨ FrameNew allowed after frame) ∧
  ∀ task ∈ before.tasks, task ∈ after.tasks

/-- The frames still wait in some task. -/
def Waiting (frames : List Frame) (state : State) : Prop :=
  ∀ frame ∈ frames, ∃ task ∈ state.tasks, frame ∈ task

omit [JsText] in
theorem TasksFrom.mono {allowed more : Action → Prop} {rest others : List Frame}
    {before after : State} (weaker : ∀ action, allowed action → more action)
    (subset : ∀ frame ∈ rest, frame ∈ others) (from_ : TasksFrom allowed rest before after) :
    TasksFrom more others before after :=
  ⟨fun task member => (from_.1 task member).imp_right fun fresh frame inside =>
    (fresh frame inside).imp (subset frame) (·.mono weaker), from_.2⟩

/-- Putting a segment's frames back in front of the waiting callers. -/
theorem Sound.resettle {allowed : Action → Prop} {before : State} {segment : Segment}
    (sound : Sound allowed before segment) (quiet : allowed .quiet) {frames rest : List Frame}
    (made : ∀ frame ∈ frames, frame ∈ rest ∨ FrameNew allowed segment.1 frame) :
    Trace allowed before (ControlPlane.spawn (segment.1, .suspended frames)) ∧
      TasksFrom allowed rest before (ControlPlane.spawn (segment.1, .suspended frames)) ∧
      Waiting frames (ControlPlane.spawn (segment.1, .suspended frames)) := by
  obtain ⟨core, sockets⟩ := spawn_core (segment.1, .suspended frames)
  refine ⟨sound.trace.trans (.one (.quiet core sockets) quiet), ⟨fun task member => ?_,
    fun task member => mem_spawn_tasks.mpr (.inl (sound.kept task member))⟩,
    fun frame inside => ⟨frames, mem_spawn_tasks.mpr (.inr rfl), inside⟩⟩
  have new : ∀ frame, FrameNew allowed segment.1 frame →
      FrameNew allowed (ControlPlane.spawn (segment.1, .suspended frames)) frame :=
    fun frame => FrameNew.congr core.jobs core.assignments
  rcases mem_spawn_tasks.mp member with old | last
  · refine (sound.started task old).imp_right fun fresh frame inside => ?_
    exact .inr (new frame (fresh frame inside))
  · cases last
    exact .inr fun frame inside => (made frame inside).imp_right (new frame)

/-- Going back to the waiting callers, if there are any. -/
theorem Sound.callers {allowed : Action → Prop} {before after : State} {outcome : Outcome}
    (sound : Sound allowed before (after, outcome)) (quiet : allowed .quiet)
    (rest : List Frame) :
    Trace allowed before
        (ControlPlane.spawn (after, if rest = [] then .done else .suspended rest)) ∧
      TasksFrom allowed rest before
        (ControlPlane.spawn (after, if rest = [] then .done else .suspended rest)) ∧
      Waiting rest (ControlPlane.spawn (after, if rest = [] then .done else .suspended rest)) := by
  split
  · rename_i none
    exact ⟨sound.trace, ⟨fun task member => (sound.started task member).imp_right
      fun fresh frame inside => .inr (fresh frame inside), sound.kept⟩,
      fun frame inside => by rw [none] at inside; cases inside⟩
  · exact sound.resettle quiet fun frame inside => .inl inside

omit [JsText] in
theorem syncCheck_tasks (state : State) (row : JobRow) :
    (syncCheck state row).1.tasks = state.tasks := by
  unfold syncCheck
  split
  · rfl
  · split <;> rfl

omit [JsText] in
theorem awaitThen_state (frame : Frame) (segment : Segment) :
    (awaitThen frame segment).1 = segment.1 := by
  obtain ⟨state, outcome⟩ := segment
  cases outcome <;> rfl

theorem initializeCatch_tasks (now : Millis) (state : State) (claim : JobRow) (error : String) :
    (initializeCatch now state claim error).1.tasks = state.tasks := by
  unfold initializeCatch
  dsimp only
  split
  · split
    · rfl
    · split
      · rfl
      · rw [awaitThen_state, syncCheck_tasks]
        rfl
  · rfl

omit [JsText] in
theorem UnwindActs.mono {ids : JobId → Prop} {frame : Frame} {rest : List Frame}
    {action : Action} (acts : UnwindActs ids rest action) :
    UnwindActs ids (frame :: rest) action :=
  acts.imp_right fun ⟨claim, member, exhausts⟩ =>
    ⟨claim, List.mem_cons_of_mem _ member, exhausts⟩

/-- An error that nobody catches ends the functions that wait for it. -/
theorem unwind_trace (ids : JobId → Prop) (now : Millis) (rest : List Frame) (state : State) :
    Trace (UnwindActs ids rest) state (unwind now state rest) ∧
      TasksFrom (UnwindActs ids rest) rest state (unwind now state rest) := by
  induction rest generalizing state with
  | nil => exact ⟨.refl _, fun task member => .inl member, fun _ member => member⟩
  | cons frame rest inductionHypothesis =>
      -- What the callers further out leave, seen from here.
      have outer : ∀ {before after : State}, after.tasks = before.tasks →
          Trace (UnwindActs ids (frame :: rest)) before after →
          Trace (UnwindActs ids (frame :: rest)) before (unwind now after rest) ∧
            TasksFrom (UnwindActs ids (frame :: rest)) (frame :: rest) before
              (unwind now after rest) := by
        intro before after tasks front
        obtain ⟨trace, from_⟩ := inductionHypothesis after
        obtain ⟨started, kept⟩ := from_.mono (fun _ => UnwindActs.mono)
          fun _ inside => List.mem_cons_of_mem frame inside
        exact ⟨front.trans (trace.mono fun _ => .mono), tasks ▸ started, tasks ▸ kept⟩
      cases frame with
      | initDispatched claim =>
          have caught : Sound (UnwindActs ids (.initDispatched claim :: rest)) state
              (initializeCatch now state claim "job dispatch failed") :=
            (initializeCatch_sound ids now state claim "job dispatch failed").mono
              fun action => Or.imp_right fun exhausts => ⟨claim, List.mem_cons_self, exhausts⟩
          have tasks := initializeCatch_tasks now state claim "job dispatch failed"
          unfold unwind
          split
          · rename_i after outcome
            rw [outcome] at caught
            obtain ⟨trace, from_, -⟩ := caught.callers (.inl trivial) rest
            exact ⟨trace, from_.mono (fun _ => id) fun _ => List.mem_cons_of_mem _⟩
          · rename_i after frames outcome
            rw [outcome] at caught
            obtain ⟨trace, from_, -⟩ := caught.resettle (.inl trivial)
              (fun inner (inside : inner ∈ frames ++ rest) =>
                (List.mem_append.mp inside).symm.imp_right (caught.frames frames rfl inner))
            exact ⟨trace, from_.mono (fun _ => id) fun _ => List.mem_cons_of_mem _⟩
          · rename_i after outcome
            rw [outcome] at caught tasks
            exact outer tasks caught.trace
      | initTerminal =>
          exact outer rfl (.one (.quiet (scheduleAlarm_core state now) rfl) (.inl trivial))
      | _ => exact outer rfl (.refl _)

/-- What settling may do: what the segment did, and the unwinding if it threw. -/
def SettleActs (allowed : Action → Prop) (ids : JobId → Prop) (rest : List Frame)
    (segment : Segment) (action : Action) : Prop :=
  allowed action ∨ (segment.2 = .threw ∧ UnwindActs ids rest action)

/-- What a segment did, and the end of the functions around it. -/
theorem settle_trace {allowed : Action → Prop} {before : State} {segment : Segment}
    (now : Millis) (sound : Sound allowed before segment) (ids : JobId → Prop)
    (rest : List Frame) (quiet : allowed .quiet) :
    Trace (SettleActs allowed ids rest segment) before (settle now rest segment) ∧
      TasksFrom (SettleActs allowed ids rest segment) rest before (settle now rest segment) ∧
      (segment.2 ≠ .threw → Waiting rest (settle now rest segment)) := by
  obtain ⟨state, outcome⟩ := segment
  cases outcome with
  | done =>
      obtain ⟨trace, from_, waiting⟩ := sound.callers quiet rest
      exact ⟨trace.mono fun _ => .inl, from_.mono (fun _ => .inl) fun _ => id, fun _ => waiting⟩
  | threw =>
      obtain ⟨trace, from_⟩ := unwind_trace ids now rest state
      have thrown : state.tasks = before.tasks := sound.thrown rfl
      obtain ⟨started, kept⟩ := from_.mono (fun action acts =>
        (Or.inr ⟨rfl, acts⟩ : SettleActs allowed ids rest (state, .threw) action)) fun _ => id
      exact ⟨(sound.trace.mono fun _ => .inl).trans (trace.mono fun _ acts => .inr ⟨rfl, acts⟩),
        ⟨thrown ▸ started, thrown ▸ kept⟩, fun wrong => absurd rfl wrong⟩
  | suspended frames =>
      obtain ⟨trace, from_, waiting⟩ := sound.resettle quiet
        (fun inner (inside : inner ∈ frames ++ rest) =>
          (List.mem_append.mp inside).symm.imp_right (sound.frames frames rfl inner))
      exact ⟨trace.mono fun _ => .inl, from_.mono (fun _ => .inl) fun _ => id,
        fun _ frame inside => waiting frame (List.mem_append_right _ inside)⟩

/-! ### Steps -/

/-- The frames a step leaves: those it did not resume, and new ones; an exception
ends the calls it passes. -/
structure FramesFrom (before : State) (event : Event) (after : State) : Prop where
  origin : ∀ task ∈ after.tasks, ∀ frame ∈ task,
    Pending before event frame ∨ FrameNew (May before event) after frame
  kept : ∀ frame, Pending before event frame → (∃ task ∈ after.tasks, frame ∈ task) ∨
    ∃ task reply now top frames, event = .resume task reply now ∧
      before.tasks[task]? = some (top :: frames) ∧ frame ∈ frames ∧ Throws before reply top

theorem FramesFrom.of_kept {before after : State} {event : Event}
    (fresh : ∀ index, event.resumes index = false)
    (started : ∀ task ∈ after.tasks,
      task ∈ before.tasks ∨ ∀ frame ∈ task, FrameNew (May before event) after frame)
    (kept : ∀ task ∈ before.tasks, task ∈ after.tasks) : FramesFrom before event after := by
  constructor
  · intro task member frame inside
    rcases started task member with old | new
    · exact .inl (.of_mem fresh old inside)
    · exact .inr (new frame inside)
  · rintro frame ⟨index, task, found, inside⟩
    rw [fresh index] at inside
    exact .inl ⟨task, kept task (List.mem_of_getElem? found), inside⟩

theorem Sound.step {state : State} {event : Event} {segment : Segment}
    (fresh : ∀ index, event.resumes index = false) (sound : Sound (May state event) state segment) :
    Trace (May state event) state (ControlPlane.spawn segment) ∧
      FramesFrom state event (ControlPlane.spawn segment) := by
  obtain ⟨trace, started, kept⟩ := sound.spawn .quiet
  exact ⟨trace, .of_kept fresh started kept⟩

theorem unchanged_step {state : State} {event : Event}
    (fresh : ∀ index, event.resumes index = false) :
    Trace (May state event) state state ∧ FramesFrom state event state :=
  ⟨.refl _, .of_kept fresh (fun _ member => .inl member) fun _ member => member⟩

theorem throws_tasks {state : State} {tasks : List (List Frame)} {reply : Reply} {frame : Frame}
    (throws : Throws { state with tasks := tasks } reply frame) : Throws state reply frame := by
  cases frame <;> exact throws

theorem resumeTask_step {state : State} (ready : Ready state) (task : Nat) (reply : Reply)
    (now : Millis) :
    Trace (May state (.resume task reply now)) state (resumeTask now state task reply) ∧
      FramesFrom state (.resume task reply now) (resumeTask now state task reply) := by
  unfold resumeTask
  split
  · rename_i frame rest found
    have taken : Trace (May state (.resume task reply now)) state
        { state with tasks := state.tasks.eraseIdx task } :=
      .one (.quiet ⟨rfl, rfl, rfl, rfl, rfl, rfl, rfl, rfl⟩ rfl) .quiet
    have ok : FrameOk state frame :=
      ready.frames _ (List.mem_of_getElem? found) frame List.mem_cons_self
    have sound := resumeFrame_sound (taken.tidy ready.tidy) now ok reply
    have throws : (resumeFrame now { state with tasks := state.tasks.eraseIdx task } reply
        frame).2 = .threw → Throws state reply frame :=
      fun threw => throws_tasks (resumeFrame_threw (taken.tidy ready.tidy) ok threw)
    obtain ⟨trace, ⟨started, kept⟩, waiting⟩ :=
      settle_trace now sound (fun _ => False) rest (.inl trivial)
    have may : ∀ action, SettleActs (fun action =>
        (action.within fun id => QueuedIn state id ∨ TakenBy state now reply frame id) ∨
          ResumeOwn frame reply action) (fun _ => False) rest
        (resumeFrame now { state with tasks := state.tasks.eraseIdx task } reply frame) action →
        May state (.resume task reply now) action := by
      rintro action ((inside | ⟨claim, caught, exhausts⟩ | ⟨socket, rows, left, rfl, suffix, rfl⟩) |
        ⟨threw, acts⟩)
      · exact .of_taken (fun id taking => ⟨frame, rest, found, taking⟩) inside
      · exact .inl (.inl ⟨frame, rest, claim, found, .inl caught, exhausts⟩)
      · exact .inl (.inr ⟨socket, rows, rest, left, found, suffix, rfl⟩)
      · rcases acts with routine | ⟨claim, member, exhausts⟩
        · exact .of_within (Action.within_mono (fun _ => False.elim) action routine)
        · exact .inl (.inl ⟨frame, rest, claim, found, .inr ⟨throws threw, member⟩, exhausts⟩)
    refine ⟨taken.trans (trace.mono may), ?_, ?_⟩
    · intro other member inner inside
      rcases started other member with old | fresh
      · exact .inl (.of_other old inside)
      · rcases fresh inner inside with waits | new
        · exact .inl (.of_behind found waits)
        · exact .inr (new.mono may)
    · rintro inner ⟨index, other, present, inside⟩
      by_cases same : task = index
      · subst same
        rw [found] at present
        cases present
        have waits : inner ∈ rest := by simpa [Event.resumes] using inside
        by_cases threw :
            (resumeFrame now { state with tasks := state.tasks.eraseIdx task } reply frame).2 =
              .threw
        · exact .inr ⟨task, reply, now, frame, rest, rfl, found, waits, throws threw⟩
        · exact .inl (waiting threw inner waits)
      · refine .inl ⟨other, kept other (List.mem_eraseIdx_iff_getElem?.mpr
          ⟨index, fun wrong => same wrong.symm, present⟩), ?_⟩
        simpa [Event.resumes, same] using inside
  · rename_i empty
    have bare : ∀ index other inner, state.tasks[index]? = some other → inner ∈ other →
        task ≠ index := by
      rintro index other inner present inside rfl
      cases other with
      | nil => cases inside
      | cons frame rest => exact empty frame rest present
    refine ⟨.refl _, ?_, ?_⟩
    · intro other member inner inside
      obtain ⟨index, present⟩ := List.mem_iff_getElem?.mp member
      refine .inl ⟨index, other, present, ?_⟩
      simpa [Event.resumes, bare index other inner present inside] using inside
    · intro inner pending
      exact .inl pending.mem

/-- What one event can do. -/
theorem step_sound {state : State} (ready : Ready state) (event : Event) :
    Trace (May state event) state (step state event) ∧
      FramesFrom state event (step state event) := by
  have tidy := ready.tidy
  cases event with
  | enqueue job deliveryId now =>
      exact ((enqueue_sound tidy now job deliveryId).mono fun _ => .of_handler
        fun _ => id).step fun _ => rfl
  | connect agentId now =>
      exact ⟨.one (.connect agentId now) (.inl rfl),
        .of_kept (fun _ => rfl) (fun _ member => .inl member) fun _ member => member⟩
  | leaveOpen socket =>
      exact ⟨.one (.shut socket) (.inl rfl),
        .of_kept (fun _ => rfl) (fun _ member => .inl member) fun _ member => member⟩
  | message socket message now =>
      unfold step onSocket
      dsimp only
      split
      · exact unchanged_step fun _ => rfl
      · rename_i entry known
        exact (webSocketMessage_sound tidy now known message).step fun _ => rfl
  | close socket now =>
      unfold step onSocket
      dsimp only
      split
      · exact unchanged_step fun _ => rfl
      · rename_i entry known
        refine ((webSocketClose_sound tidy now entry).mono ?_).step fun _ => rfl
        rintro action (rfl | acts)
        · exact .inl (.inl (by rw [row_key known]))
        · exact .of_disconnect known (fun _ owned => owned) (fun _ => .inr) acts
  | error socket now =>
      unfold step onSocket
      dsimp only
      split
      · exact unchanged_step fun _ => rfl
      · rename_i entry known
        exact ((webSocketError_sound tidy now entry).mono fun _ =>
          .of_disconnect known (fun _ owned => owned) fun _ => id).step fun _ => rfl
  | alarm now =>
      exact ((alarm_sound tidy now).mono fun _ => .of_taken fun _ => id).step fun _ => rfl
  | resume task reply now => exact resumeTask_step ready task reply now

/-- The history grows by the assignments that are made. -/
theorem Acts.assignments {action : Action} {before after : State}
    (acts : Acts action before after) :
    ∃ more, after.assignments = before.assignments ++ more ∧
      ∀ made ∈ more, action = .assign made.job made.agent made.socket := by
  have same : after.assignments = before.assignments → ∃ more,
      after.assignments = before.assignments ++ more ∧
        ∀ made ∈ more, action = .assign made.job made.agent made.socket :=
    fun kept => ⟨[], by simp [kept], fun _ member => nomatch member⟩
  cases acts with
  | quiet core _ => exact same core.assignments
  | sockets | shut | greet | connect | dropSocket | job | insert | prune | countRequeue | send =>
      exact same rfl
  | assign => exact ⟨_, rfl, fun made member => by rw [List.mem_singleton.mp member]⟩
  | releaseRun runId reason =>
      exact same (before.releaseConcurrencyForRun_frame runId reason).assignments
  | release requestId runId agent =>
      exact same (before.releaseConcurrency_frame requestId runId agent).assignments
  | acquire socket agent row requestId unitId group cancelInProgress queue now _ =>
      exact same (before.acquireConcurrency_frame socket agent row requestId unitId group
        cancelInProgress queue now).assignments

theorem Trace.assignments {allowed : Action → Prop} {before after : State}
    (trace : Trace allowed before after) :
    ∃ more, after.assignments = before.assignments ++ more := by
  induction trace with
  | refl => exact ⟨[], by simp⟩
  | tail _ last inductionHypothesis =>
      obtain ⟨action, -, acts⟩ := last
      obtain ⟨early, grown⟩ := inductionHypothesis
      obtain ⟨late, grownLater, -⟩ := acts.assignments
      exact ⟨early ++ late, by rw [grownLater, grown, List.append_assoc]⟩

omit [JsText] in
theorem FrameOk.grow {before after : State} {frame : Frame} (ok : FrameOk before frame)
    {more : List Assignment} (grown : after.assignments = before.assignments ++ more) :
    FrameOk after frame := by
  cases frame with
  | dispatchToken =>
      unfold FrameOk
      rw [grown]
      exact lookup_append ok
  | _ => exact ok

/-- Every event keeps the invariant of the Workspace. -/
theorem Ready.step {state : State} (ready : Ready state) (event : Event) :
    Ready (step state event) := by
  obtain ⟨trace, frames⟩ := step_sound ready event
  obtain ⟨more, grown⟩ := trace.assignments
  refine ⟨trace.tidy ready.tidy, fun task member frame inside => ?_⟩
  rcases frames.origin task member frame inside with pending | new
  · obtain ⟨old, present, within⟩ := pending.mem
    exact (ready.frames old present frame within).grow grown
  · exact new.ok

omit [JsText] in
theorem ready_initial : Ready initial :=
  ⟨⟨List.nodup_nil, fun _ member => nomatch member⟩, fun _ member => nomatch member⟩

/-- A run is a trace. -/
theorem run_trace {state : State} (ready : Ready state) (events : List Event) :
    Trace (fun _ => True) state (run step state events) := by
  induction events generalizing state with
  | nil => exact .refl _
  | cons event events inductionHypothesis =>
      exact ((step_sound ready event).1.mono fun _ _ => trivial).trans
        (inductionHypothesis (ready.step event))

/-- Every reachable state has it. -/
theorem ready_run (events : List Event) : Ready (run step initial events) :=
  run_invariant (fun _ event ready => ready.step event) ready_initial events

end Text

end GitZero.ControlPlane
