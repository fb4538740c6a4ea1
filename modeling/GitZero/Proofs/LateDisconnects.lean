/-
Module: GitZero.Proofs.LateDisconnects
Purpose: When the close or error event of a connection takes back only the jobs
  that were assigned through it.
Trusted boundary: none
Main exports: Attached, Handover, LoopsUndisturbed, Spares, Tethered,
  disconnect_spares_other_connections, late_close_requeues_job
-/
import GitZero.ControlPlane.Connections
import GitZero.Proofs.ConcurrencyQueue

namespace GitZero.ControlPlane

open Table Machine

section Text

variable [JsText]

/-! ### Jobs and the connections they were assigned through -/

/-- No connection of the agent has said hello, and no job is active on it. -/
def Vacated (state : State) (agent : AgentId) : Prop :=
  (∀ socket, ¬ Connected state socket agent) ∧
    ∀ row ∈ state.jobs, row.agentId = some agent → row.active = false

/-- An agent has one connection that has said hello, and its active jobs were last
assigned through that one. -/
structure Attached (state : State) : Prop where
  single : ∀ one two agent, Connected state one agent → Connected state two agent → one = two
  jobs : ∀ row ∈ state.jobs, row.active = true → ∃ agent socket,
    row.agentId = some agent ∧ state.lastAssignment row.id = some ⟨row.id, agent, socket⟩ ∧
      ∀ other, Connected state other agent → other = socket

omit [JsText] in
theorem attached_initial : Attached initial := by
  constructor
  · rintro one two agent ⟨entry, member, -⟩
    cases member
  · intro row member
    cases member

/-- Every action keeps jobs attached, a hello if its connection has said hello before
or its agent is vacated. -/
theorem Acts.attached {action : Action} {before after : State} (acts : Acts action before after)
    (tidy : Tidy before) (attached : Attached before)
    (greets : ∀ socket hello, action = .greet socket hello → ∀ agent,
      (∃ entry ∈ before.sockets, entry.id = socket ∧ entry.agentId = agent) →
      Connected before socket agent ∨ Vacated before agent) : Attached after := by
  -- A connection that is new to the table of greeted ones belongs to a vacated agent.
  have origin : ∀ socket agent, Connected after socket agent →
      Connected before socket agent ∨
        (Vacated before agent ∧ ∃ hello, action = .greet socket hello) := by
    intro socket agent connected
    rcases acts.connected_back connected with was | ⟨⟨hello, greeted⟩, known⟩
    · exact .inl was
    · rcases greets socket hello greeted agent known with was | vacated
      · exact .inl was
      · exact .inr ⟨vacated, hello, greeted⟩
  constructor
  · intro one two agent first second
    rcases origin one agent first with was | ⟨vacated, hello, greeted⟩
    · rcases origin two agent second with also | ⟨vacated, -⟩
      · exact attached.single one two agent was also
      · exact absurd was (vacated.1 one)
    · rcases origin two agent second with was | ⟨-, other, again⟩
      · exact absurd was (vacated.1 two)
      · rw [greeted] at again
        cases again
        rfl
  · intro row member active
    rcases acts.active_row member active with ⟨old, present, same, was, owner⟩ |
      ⟨agent, socket, assigns, owner⟩
    · obtain ⟨agent, socket, owned, last, only⟩ := attached.jobs old present was
      have spared : action.spares row.id := by
        rintro other through rfl
        exact tidy.not_queued_of_active ⟨old, present, same, was⟩ acts.assign_queued
      refine ⟨agent, socket, owner.symm.trans owned, ?_, fun other connected => ?_⟩
      · rw [acts.lastAssignment spared, ← same]
        exact last
      · rcases origin other agent connected with before | ⟨vacated, -⟩
        · exact only other before
        · rw [vacated.2 old present owned] at was
          cases was
    · subst assigns
      obtain ⟨through, -, last⟩ := acts.assign_spec
      refine ⟨agent, socket, owner, last, fun other connected => ?_⟩
      rcases origin other agent connected with was | ⟨-, hello, wrong⟩
      · exact attached.single other socket agent was through
      · cases wrong

/-! ### Hellos -/

/-- The event is a hello that the Workspace accepts on this connection. -/
def Greeting (state : State) (event : Event) (socket : SocketId) (agent : AgentId) : Prop :=
  ∃ hello now entry, event = .message socket (.hello hello) now ∧
    state.socket? socket = some entry ∧ entry.agentId = agent ∧ HelloAccepted state entry hello

/-- A connection says its first hello only when no other connection of its agent has
said hello that the runtime still lists, and no job is active on the agent. -/
def Handover (state : State) (event : Event) : Prop :=
  ∀ socket agent, Greeting state event socket agent →
    Connected state socket agent ∨ Vacated state agent

theorem May.greets {state : State} {event : Event} {socket : SocketId} {hello : AgentHello}
    (may : May state event (.greet socket hello)) : ∃ agent, Greeting state event socket agent := by
  rcases may with own | inside
  · cases own.ownCase with
    | greet known accepted => exact ⟨_, hello, _, _, rfl, known, rfl, accepted⟩
    | sent known sent => cases sent
  · exact inside.elim

/-- A message neither registers nor ends a connection. -/
theorem May.of_message {state : State} {socket : SocketId} {message : AgentMessage} {now : Millis}
    {action : Action} (may : May state (.message socket message now) action) :
    (∀ agent, action ≠ .connect agent) ∧ ∀ other, action ≠ .dropSocket other := by
  rcases may with own | inside
  · cases own.ownCase with
    | greet | refuse =>
        constructor
        · intro agent wrong
          cases wrong
        · intro other wrong
          cases wrong
    | suspend disconnects => rcases disconnects with wrong | wrong <;> cases wrong
    | sent known sent =>
        constructor
        · rintro agent rfl
          cases sent
        · rintro other rfl
          cases sent
  · constructor
    · rintro agent rfl
      exact inside
    · rintro other rfl
      exact inside

/-- What holds between the actions of a step: the agent of a hello is vacated until the
hello is there. -/
structure Greeted (before : State) (event : Event) (current : State) : Prop where
  tidy : Tidy current
  attached : Attached current
  endpoint : ∀ socket agent, Greeting before event socket agent →
    ∀ entry ∈ current.sockets, entry.id = socket → entry.agentId = agent
  vacated : ∀ socket agent, Greeting before event socket agent →
    Connected current socket agent ∨ Vacated current agent

theorem Greeted.acts {before current next : State} {event : Event} {action : Action}
    (greeted : Greeted before event current) (may : May before event action)
    (acts : Acts action current next) : Greeted before event next := by
  refine ⟨acts.tidy greeted.tidy, acts.attached greeted.tidy greeted.attached ?_, ?_, ?_⟩
  · rintro socket hello rfl agent ⟨entry, member, id, owner⟩
    obtain ⟨expected, greeting⟩ := may.greets
    have same := greeted.endpoint socket expected greeting entry member id
    rw [← owner, same]
    exact greeted.vacated socket expected greeting
  · intro socket agent greeting entry member id
    have ⟨hello, now, known, message, _⟩ := greeting
    subst message
    rcases acts.endpoint_back member with ⟨old, present, sameId, sameAgent, -⟩ | ⟨⟨new, wrong⟩, -⟩
    · rw [← sameAgent]
      exact greeted.endpoint socket agent greeting old present (sameId.trans id)
    · exact absurd wrong (may.of_message.1 new)
  · intro socket agent greeting
    have ⟨hello, now, known, message, _⟩ := greeting
    subst message
    rcases greeted.vacated socket agent greeting with connected | vacated
    · exact .inl (acts.connected (may.of_message.2 socket) connected)
    by_cases new : ∃ other, Connected next other agent
    · obtain ⟨other, connected⟩ := new
      rcases acts.connected_back connected with was | ⟨⟨said, rfl⟩, -⟩
      · exact absurd was (vacated.1 other)
      · obtain ⟨expected, ⟨again, later, entry, same, -⟩⟩ := may.greets
        cases same
        exact .inl connected
    · refine .inr ⟨fun other connected => new ⟨other, connected⟩, fun row member owner => ?_⟩
      by_contra busy
      have active : row.active = true := by simpa using busy
      rcases acts.active_row member active with ⟨old, present, -, was, same⟩ |
        ⟨assignee, through, rfl, same⟩
      · rw [vacated.2 old present (same.trans owner)] at was
        cases was
      · rw [owner] at same
        cases same
        exact vacated.1 through acts.assign_spec.1

theorem Attached.step {state : State} {event : Event} (ready : Ready state)
    (keyed : SocketsKeyed state) (attached : Attached state) (handover : Handover state event) :
    Attached (step state event) := by
  have start : Greeted state event state := by
    refine ⟨ready.tidy, attached, ?_, handover⟩
    rintro socket agent ⟨hello, now, entry, -, known, rfl, -⟩ other member same
    have lookup := row_of_mem keyed.distinct member
    rw [same] at lookup
    rw [Option.some.inj (lookup.symm.trans known)]
  exact ((step_sound ready event).1.invariant
    (fun _ _ _ may acts greeted => greeted.acts may acts) start).attached

/-! ### Disconnect loops -/

/-- The actions of a disconnect loop on the rows it is done with, after its close event. -/
def LoopFront (socket : SocketId) (front : List JobRow) (action : Action) : Prop :=
  action = .dropSocket socket ∨ action.within fun id => ∃ row ∈ front, row.id = id

/-- The rest of a loop over `rows`: so far only the rows before the rest were touched. -/
def LoopRest (socket : SocketId) (before after : State) (rows rest : List JobRow) : Prop :=
  ∃ front, rows = front ++ rest ∧ Trace (LoopFront socket front) before after

omit [JsText] in
theorem no_loop_of_within {ids : JobId → Prop} {state : State} {socket : SocketId}
    {rows : List JobRow} (new : FrameNew (Action.within ids) state (.disconnect socket rows)) :
    False := new

omit [JsText] in
theorem awaitThen_frames {frame inner : Frame} {segment : Segment} {frames : List Frame}
    (suspended : (awaitThen frame segment).2 = .suspended frames) (inside : inner ∈ frames) :
    inner = frame ∨ ∃ earlier, segment.2 = .suspended earlier ∧ inner ∈ earlier := by
  obtain ⟨state, outcome⟩ := segment
  cases outcome with
  | done =>
      cases suspended
      exact .inl (List.mem_singleton.mp inside)
  | threw => cases suspended
  | suspended earlier =>
      cases suspended
      rcases List.mem_append.mp inside with old | last
      · exact .inr ⟨earlier, rfl, old⟩
      · exact .inl (List.mem_singleton.mp last)

/-- Where the disconnect frames of a loop segment come from: its own, or old tasks. -/
theorem disconnectLoop_leaves (now : Millis) (socket : SocketId) (rows : List JobRow)
    {state : State} (tidy : Tidy state) {task : List Frame} {other : SocketId}
    {rest : List JobRow} (inside : .disconnect other rest ∈ task) :
    ((disconnectLoop now socket state rows).2 = .suspended task →
      other = socket ∧
        LoopRest socket state (disconnectLoop now socket state rows).1 rows rest) ∧
    (task ∈ (disconnectLoop now socket state rows).1.tasks → task ∈ state.tasks) := by
  induction rows generalizing state with
  | nil =>
      have sound : Sound (Action.within fun id => QueuedIn state id) state
          (disconnectLoop now socket state []) := (dispatchIteration_sound tidy now).await trivial
      constructor
      · intro suspended
        exact (no_loop_of_within (sound.frames task suspended _ inside)).elim
      · intro member
        rcases sound.started task member with old | fresh
        · exact old
        · exact (no_loop_of_within (fresh _ inside)).elim
  | cons row later inductionHypothesis =>
      have front : ∀ {done : List JobRow} {first second : State}, row ∈ done →
          Trace (Action.within (· = row.id)) first second →
          Trace (LoopFront socket done) first second := by
        intro done first second member trace
        refine trace.mono fun action own => .inr (Action.within_mono ?_ action own)
        rintro id rfl
        exact ⟨row, member, rfl⟩
      unfold disconnectLoop
      split
      · refine ⟨fun wrong => ?_, id⟩
        cases wrong
      · rename_i requeued taken
        obtain ⟨trace, tasks⟩ := requeue_trace tidy taken
        obtain ⟨suspends, keeps⟩ := inductionHypothesis (trace.tidy tidy)
        refine ⟨fun suspended => ?_, fun member => tasks ▸ keeps member⟩
        obtain ⟨same, done, split, before⟩ := suspends suspended
        refine ⟨same, row :: done, by rw [split, List.cons_append], ?_⟩
        refine (front List.mem_cons_self trace).trans (before.mono fun action => Or.imp_right ?_)
        exact Action.within_mono
          (fun id ⟨old, member, named⟩ => ⟨old, List.mem_cons_of_mem _ member, named⟩) action
      · rename_i requeued terminal taken
        obtain ⟨trace, tasks⟩ := requeue_trace tidy taken
        have synced : Sound (Action.within (· = row.id)) requeued (syncCheck requeued terminal) :=
          syncCheck_sound requeued terminal
        have kept := syncCheck_tasks requeued terminal
        refine ⟨fun suspended => ?_, fun member => ?_⟩
        · have mine : Frame.disconnect other rest = .disconnect socket later := by
            rcases awaitThen_frames suspended inside with last | inner
            · exact last
            · obtain ⟨frames, outcome, member⟩ := inner
              exact (no_loop_of_within (synced.frames frames outcome _ member)).elim
          cases mine
          refine ⟨rfl, [row], rfl, ?_⟩
          rw [awaitThen_state]
          exact (front List.mem_cons_self trace).trans (front List.mem_cons_self synced.trace)
        · rw [awaitThen_state, kept, tasks] at member
          exact member

/-- The event starts a disconnect loop of the connection over these rows, or goes on
with one. -/
def Loops (state : State) (event : Event) (socket : SocketId) (rows : List JobRow) : Prop :=
  (∃ now entry, (event = .close socket now ∨ event = .error socket now) ∧
    state.socket? socket = some entry ∧ entry.hello.isSome = true ∧
      rows = disconnectRows state entry.agentId) ∨
    ∃ task reply now frames, event = .resume task reply now ∧
      state.tasks[task]? = some (.disconnect socket rows :: frames)

/-- A loop that runs as a task of its own. -/
theorem spawn_loops {state begun : State} {socket other : SocketId} {rows rest : List JobRow}
    {task : List Frame} (now : Millis) (tidy : Tidy begun)
    (begins : Trace (LoopFront socket []) state begun) (tasks : begun.tasks = state.tasks)
    (member : task ∈ (spawn (disconnectLoop now socket begun rows)).tasks)
    (inside : .disconnect other rest ∈ task) :
    task ∈ state.tasks ∨ other = socket ∧
      LoopRest socket state (spawn (disconnectLoop now socket begun rows)) rows rest := by
  obtain ⟨suspends, keeps⟩ := disconnectLoop_leaves now socket rows tidy inside
  rcases mem_spawn_tasks.mp member with old | suspended
  · exact .inl (tasks ▸ keeps old)
  · obtain ⟨same, front, split, trace⟩ := suspends suspended
    obtain ⟨core, sockets⟩ := spawn_core (disconnectLoop now socket begun rows)
    refine .inr ⟨same, front, split, .trans (begins.mono fun action => Or.imp_right ?_)
      (trace.trans (.one (.quiet core sockets) (.inr trivial)))⟩
    exact Action.within_mono (fun id ⟨row, wrong, _⟩ => nomatch wrong) action

/-- A loop that goes on. -/
theorem resumeTask_loops {state : State} (ready : Ready state) {index : Nat}
    {socket other : SocketId} {rows rest : List JobRow} {frames task : List Frame}
    (found : state.tasks[index]? = some (.disconnect socket rows :: frames)) (reply : Reply)
    (now : Millis) (member : task ∈ (resumeTask now state index reply).tasks)
    (inside : .disconnect other rest ∈ task) :
    Pending state (.resume index reply now) (.disconnect other rest) ∨ other = socket ∧
      LoopRest socket state (resumeTask now state index reply) rows rest := by
  have idle : Trace (LoopFront socket []) state
    { state with tasks := state.tasks.eraseIdx index } :=
    .one (.quiet ⟨rfl, rfl, rfl, rfl, rfl, rfl, rfl, rfl⟩ rfl) (.inr trivial)
  have resumed : resumeTask now state index reply = settle now frames
      (disconnectLoop now socket { state with tasks := state.tasks.eraseIdx index } rows) := by
    unfold resumeTask
    rw [found]
    rfl
  rw [resumed] at member ⊢
  have leaves := fun (left : List Frame) (here : .disconnect other rest ∈ left) =>
    disconnectLoop_leaves now socket rows (idle.tidy ready.tidy) here
  rcases outcome : disconnectLoop now socket
    { state with tasks := state.tasks.eraseIdx index } rows with ⟨after, ending⟩
  rw [outcome] at member leaves
  have old : task ∈ after.tasks →
      Pending state (.resume index reply now) (.disconnect other rest) :=
    fun kept => .of_other ((leaves task inside).2 kept) inside
  cases ending with
  | done =>
      rcases mem_spawn_tasks.mp member with kept | suspended
      · exact .inl (old kept)
      · dsimp only at suspended
        split at suspended
        · cases suspended
        · cases suspended
          exact .inl (.of_behind found inside)
  | suspended inner =>
      rcases mem_spawn_tasks.mp member with kept | suspended
      · exact .inl (old kept)
      · cases suspended
        rcases List.mem_append.mp inside with here | behind
        · obtain ⟨same, front, split, trace⟩ := (leaves inner here).1 rfl
          obtain ⟨core, sockets⟩ := spawn_core (after, .suspended (inner ++ frames))
          refine .inr ⟨same, front, split, .trans ?_
            (trace.trans (.one (.quiet core sockets) (.inr trivial)))⟩
          exact .one (.quiet ⟨rfl, rfl, rfl, rfl, rfl, rfl, rfl, rfl⟩ rfl) (.inr trivial)
        · exact .inl (.of_behind found behind)
  | threw =>
      obtain ⟨-, started, -⟩ := unwind_trace (fun _ => False) now frames after
      rcases started task member with kept | fresh
      · exact .inl (old kept)
      · rcases fresh _ inside with behind | inside | ⟨claim, -, -, wrong⟩
        · exact .inl (.of_behind found behind)
        · exact inside.elim
        · cases wrong

/-- Only these events leave a disconnect loop. -/
theorem May.suspends {state : State} {event : Event} {socket : SocketId} {rest : List JobRow}
    (may : May state event (.suspendLoop socket rest)) :
    (∃ now, event = .close socket now ∨ event = .error socket now) ∨
      ∃ task reply now rows frames, event = .resume task reply now ∧
        state.tasks[task]? = some (.disconnect socket rows :: frames) := by
  rcases may with own | inside
  · cases own.ownCase with
    | suspend disconnects => exact .inl ⟨_, disconnects⟩
    | resumeLoop found => exact .inr ⟨_, _, _, _, _, rfl, found⟩
    | sent known sent => cases sent
  · exact inside.elim

/-- A suspended loop was suspended before the step, or is what the step has left of it. -/
theorem step_loops {state : State} (ready : Ready state) (event : Event) {task : List Frame}
    (member : task ∈ (step state event).tasks) {socket : SocketId} {rest : List JobRow}
    (inside : .disconnect socket rest ∈ task) :
    Pending state event (.disconnect socket rest) ∨
      ∃ rows, Loops state event socket rows ∧
        LoopRest socket state (step state event) rows rest := by
  rcases (step_sound ready event).2.origin task member _ inside with pending | new
  · exact .inl pending
  rcases May.suspends new with ⟨now, rfl | rfl⟩ | ⟨index, reply, now, rows, frames, rfl, found⟩
  · unfold step onSocket at member ⊢
    dsimp only at member ⊢
    split at member
    · exact .inl (.of_mem (fun _ => rfl) member inside)
    · rename_i entry known
      have id : entry.id = socket := row_key known
      have removed : Trace (LoopFront socket []) state
          { state with sockets := delete state.sockets (·.id = socket) } :=
        .one (.dropSocket socket) (.inl rfl)
      unfold webSocketClose at member ⊢
      rw [id] at member ⊢
      dsimp only at member ⊢
      split at member
      · rename_i hello
        rcases spawn_loops now (removed.tidy ready.tidy) removed rfl member inside with
          old | ⟨-, left⟩
        · exact .inl (.of_mem (fun _ => rfl) old inside)
        · refine .inr ⟨_, .inl ⟨now, entry, .inl rfl, known, hello, rfl⟩, ?_⟩
          rw [if_pos hello]
          exact left
      · exact .inl (.of_mem (fun _ => rfl) member inside)
  · unfold step onSocket at member ⊢
    dsimp only at member ⊢
    split at member
    · exact .inl (.of_mem (fun _ => rfl) member inside)
    · rename_i entry known
      have id : entry.id = socket := row_key known
      unfold webSocketError at member ⊢
      split at member
      · rename_i hello
        rw [id] at member
        rcases spawn_loops now ready.tidy (.refl _) rfl member inside with old | ⟨-, left⟩
        · exact .inl (.of_mem (fun _ => rfl) old inside)
        · refine .inr ⟨_, .inl ⟨now, entry, .inr rfl, known, hello, rfl⟩, ?_⟩
          rw [if_pos hello, id]
          exact left
      · exact .inl (.of_mem (fun _ => rfl) member inside)
  · rcases resumeTask_loops ready found reply now member inside with pending | ⟨-, left⟩
    · exact .inl pending
    · exact .inr ⟨rows, .inr ⟨index, reply, now, frames, rfl, found⟩, left⟩

/-! ### Runs -/

/-- While a disconnect loop waits, no other step puts a job into the queue that the loop
has still to take back. -/
def LoopsUndisturbed (state : State) (event : Event) : Prop :=
  ∀ socket rows, Pending state event (.disconnect socket rows) →
    ∀ row ∈ rows, ¬ Requeued state event row.id

/-- What a suspended disconnect loop still has to take back: jobs that are not in the
queue and, while active, were last assigned through its connection. -/
structure LoopOk (state : State) (socket : SocketId) (rows : List JobRow) : Prop where
  distinct : (rows.map JobRow.id).Nodup
  waiting : ∀ row ∈ rows, ¬ QueuedIn state row.id
  through : ∀ row ∈ rows, ActiveIn state row.id →
    ∃ made, state.lastAssignment row.id = some made ∧ made.socket = socket

/-- The invariant of runs in which connections of an agent do not overlap. -/
structure Tethered (state : State) : Prop where
  ready : Ready state
  keyed : SocketsKeyed state
  attached : Attached state
  queue : State.LeaseQueue state
  loops : ∀ task ∈ state.tasks, ∀ socket rows, .disconnect socket rows ∈ task →
    LoopOk state socket rows

/-- A trace that neither queues nor assigns the loop's jobs keeps the loop as it is. -/
theorem LoopOk.trace {before after : State} {allowed : Action → Prop} {socket : SocketId}
    {rows : List JobRow} (ok : LoopOk before socket rows) (trace : Trace allowed before after)
    (spared : ∀ row ∈ rows, ∀ action, allowed action →
      action.spares row.id ∧ ¬ action.queues row.id) : LoopOk after socket rows := by
  refine ⟨ok.distinct, fun row member queued => ?_, fun row member active => ?_⟩
  · rcases trace.queued queued with was | ⟨action, may, queues⟩
    · exact ok.waiting row member was
    · exact (spared row member action may).2 queues
  · obtain ⟨back, last⟩ := trace.unassigned fun action may => (spared row member action may).1
    rw [last]
    exact ok.through row member (back active)

omit [JsText] in
theorem LoopOk.tail {state : State} {socket : SocketId} {front rest : List JobRow}
    (ok : LoopOk state socket (front ++ rest)) : LoopOk state socket rest := by
  have distinct := ok.distinct
  rw [List.map_append] at distinct
  exact ⟨(List.nodup_append.mp distinct).2.1,
    fun row member => ok.waiting row (List.mem_append_right _ member),
    fun row member => ok.through row (List.mem_append_right _ member)⟩

omit [JsText] in
/-- The rows of a loop that an event starts or goes on with. -/
theorem Tethered.loops_ok {state : State} (tethered : Tethered state) {event : Event}
    {socket : SocketId} {rows : List JobRow} (loops : Loops state event socket rows) :
    LoopOk state socket rows := by
  rcases loops with ⟨now, entry, -, known, hello, rfl⟩ | ⟨task, reply, now, frames, -, found⟩
  · refine ⟨tethered.ready.tidy.distinct.sublist (List.filter_sublist.map _), ?_, ?_⟩
    · intro row member queued
      obtain ⟨present, -, active⟩ := mem_disconnectRows.mp member
      exact tethered.ready.tidy.not_queued_of_active ⟨row, present, rfl, active⟩ queued
    · intro row member _
      obtain ⟨present, owner, active⟩ := mem_disconnectRows.mp member
      obtain ⟨agent, through, owned, last, only⟩ := tethered.attached.jobs row present active
      rw [owner] at owned
      cases owned
      refine ⟨_, last, (only socket ?_).symm⟩
      exact ⟨entry, row_mem known, row_key known, rfl, hello⟩
  · exact tethered.loops _ (List.mem_of_getElem? found) socket rows List.mem_cons_self

/-- Only dispatches assign. -/
theorem May.assigns {state : State} {event : Event} {jobId : JobId} {agent : AgentId}
    {socket : SocketId} (may : May state event (.assign jobId agent socket)) :
    QueuedIn state jobId ∨ Requeued state event jobId := by
  rcases may with own | inside
  · cases own.ownCase with
    | sent known sent => cases sent
  · exact inside

theorem May.queues {state : State} {event : Event} {action : Action} {jobId : JobId}
    (may : May state event action) (queues : action.queues jobId) :
    QueuedIn state jobId ∨ Requeued state event jobId := by
  rcases may with own | inside
  · exact .inr (.inr ⟨action, own, queues⟩)
  · exact Action.within_queues inside queues

theorem Tethered.step {state : State} {event : Event} (tethered : Tethered state)
    (handover : Handover state event) (undisturbed : LoopsUndisturbed state event) :
    Tethered (step state event) := by
  have ⟨trace, _⟩ := step_sound tethered.ready event
  refine ⟨tethered.ready.step event,
    trace.invariant (fun _ _ _ _ acts => acts.socketsKeyed) tethered.keyed,
    tethered.attached.step tethered.ready tethered.keyed handover,
    trace.invariant (fun _ _ _ _ acts queue => queue.acts acts) tethered.queue, ?_⟩
  intro task member socket rest inside
  rcases step_loops tethered.ready event member inside with
    pending | ⟨rows, loops, front, rfl, touched⟩
  · obtain ⟨old, present, within⟩ := pending.mem
    have ok := tethered.loops old present socket rest within
    have calm := undisturbed socket rest pending
    refine ok.trace trace fun row listed action may => ⟨?_, fun queues => ?_⟩
    · rintro agent through rfl
      exact (May.assigns may).elim (ok.waiting row listed) (calm row listed)
    · exact (may.queues queues).elim (ok.waiting row listed) (calm row listed)
  · have ok := tethered.loops_ok loops
    have apart : ∀ row ∈ rest, ¬ ∃ done ∈ front, done.id = row.id := by
      rintro row listed ⟨done, early, same⟩
      have distinct := ok.distinct
      rw [List.map_append, List.nodup_append] at distinct
      exact distinct.2.2 _ (List.mem_map_of_mem early) _ (List.mem_map_of_mem listed) same
    refine ok.tail.trace touched fun row listed action acts => ?_
    rcases acts with rfl | own
    · refine ⟨fun _ _ wrong => ?_, id⟩
      cases wrong
    · exact ⟨Action.within_spares own (apart row listed),
        fun queues => apart row listed (Action.within_queues own queues)⟩

/-! ### Leases of other jobs -/

/-- The lease is still there, or was promoted. -/
def LeaseKept (state : State) (lease : ConcurrencyRow) : Prop :=
  lease ∈ state.leases ∨
    (lease.status = .waiting ∧ { lease with status := .active } ∈ state.leases)

/-- An open connection of the agent, other than this one. -/
def ReachableWithout (state : State) (socket : SocketId) (agent : AgentId) : Prop :=
  ∃ entry ∈ state.sockets, entry.id ≠ socket ∧ entry.agentId = agent ∧ entry.isOpen = true

omit [JsText] in
theorem promoteGroups_kept {lease : ConcurrencyRow} (groups : List (String × String))
    {state : State} (distinct : State.DistinctRequests state) (kept : LeaseKept state lease)
    (told : lease.holds = true ∨ State.Reachable state lease.agentId) :
    LeaseKept (groups.foldl
      (fun current group => current.promoteConcurrency group.1 group.2) state) lease := by
  induction groups generalizing state with
  | nil => exact kept
  | cons group groups inductionHypothesis =>
      have promotes := state.promoteConcurrency_promotes group.1 group.2
      refine inductionHypothesis (promotes.distinct distinct) ?_ ?_
      · rcases kept with member | ⟨waiting, member⟩
        · rcases told with holds | reachable
          · exact .inl (promotes.holder_kept distinct member holds)
          · exact promotes.waiter_kept distinct member reachable
        · exact .inr ⟨waiting, promotes.holder_kept distinct member rfl⟩
      · refine told.imp_right fun ⟨entry, member, reached⟩ => ⟨entry, ?_, reached⟩
        rw [promotes.frame.sockets]
        exact member

omit [JsText] in
/-- Releasing a run leaves the leases of another run whose agent can be told. -/
theorem releaseConcurrencyForRun_kept {state : State} {lease : ConcurrencyRow} {runId : JobId}
    (reason : String) (distinct : State.DistinctRequests state) (kept : LeaseKept state lease)
    (apart : lease.runId ≠ runId)
    (told : lease.holds = true ∨ State.Reachable state lease.agentId) :
    LeaseKept (state.releaseConcurrencyForRun runId reason) lease := by
  have frame := State.LeaseFrame.foldl
    (fun current (gone : ConcurrencyRow) =>
      State.sendConcurrencyCancellation_frame current gone reason)
    (state.leases.filter (·.runId = runId))
    { state with leases := delete state.leases (·.runId = runId) }
  have leases := State.cancellations_leases (state.leases.filter (·.runId = runId)) reason
    { state with leases := delete state.leases (·.runId = runId) }
  have remains : ∀ other : ConcurrencyRow, other.runId = lease.runId → other ∈ state.leases →
      other ∈ delete state.leases (·.runId = runId) := by
    intro other same member
    refine mem_delete.mpr ⟨member, ?_⟩
    simpa [same] using apart
  refine promoteGroups_kept _ ?_ ?_ ?_
  · unfold State.DistinctRequests
    rw [leases]
    exact nodup_key_delete distinct
  · unfold LeaseKept
    rw [leases]
    exact kept.imp (remains lease rfl) fun ⟨waiting, member⟩ => ⟨waiting, remains _ rfl member⟩
  · refine told.imp_right fun ⟨entry, member, reached⟩ => ⟨entry, ?_, reached⟩
    rw [frame.sockets]
    exact member

/-- What holds of a lease of another job while a disconnect loop runs. -/
structure LeaseSpared (socket : SocketId) (lease : ConcurrencyRow) (state : State) : Prop where
  queue : State.LeaseQueue state
  kept : LeaseKept state lease
  told : lease.holds = true ∨ ReachableWithout state socket lease.agentId

theorem LeaseSpared.acts {socket : SocketId} {lease : ConcurrencyRow} {before after : State}
    {action : Action} {ids : JobId → Prop} (spared : LeaseSpared socket lease before)
    (acts : Acts action before after) (other : ¬ ids lease.runId)
    (front : action = .dropSocket socket ∨ action.within ids) :
    LeaseSpared socket lease after := by
  have queue := spared.queue.acts acts
  have same : after.leases = before.leases → after.sockets = before.sockets →
      LeaseSpared socket lease after := by
    intro leases sockets
    refine ⟨queue, ?_, spared.told.imp_right ?_⟩
    · unfold LeaseKept
      rw [leases]
      exact spared.kept
    · unfold ReachableWithout
      rw [sockets]
      exact id
  cases acts with
  | quiet core sockets => exact same core.leases sockets
  | job | assign | prune | countRequeue | send => exact same rfl rfl
  | sockets changed set keeps =>
      refine ⟨queue, spared.kept, spared.told.imp_right ?_⟩
      rintro ⟨entry, member, elsewhere, owner, isOpen⟩
      refine ⟨_, mem_update.mpr ⟨entry, member, rfl⟩, ?_⟩
      split
      · have still := keeps entry
        exact ⟨by rw [still.id]; exact elsewhere, still.agentId.trans owner,
          still.isOpen.trans isOpen⟩
      · exact ⟨elsewhere, owner, isOpen⟩
  | dropSocket dropped =>
      have gone : dropped = socket := by
        rcases front with drops | inside
        · cases drops
          rfl
        · exact inside.elim
      subst gone
      refine ⟨queue, spared.kept, spared.told.imp_right ?_⟩
      rintro ⟨entry, member, elsewhere, reached⟩
      exact ⟨entry, mem_delete.mpr ⟨member, by simpa using elsewhere⟩, elsewhere, reached⟩
  | releaseRun runId reason =>
      have apart : lease.runId ≠ runId := by
        rcases front with wrong | inside
        · cases wrong
        · rintro rfl
          exact other inside
      have told : lease.holds = true ∨ State.Reachable before lease.agentId :=
        spared.told.imp_right fun ⟨entry, member, _, reached⟩ => ⟨entry, member, reached⟩
      refine ⟨queue, releaseConcurrencyForRun_kept reason spared.queue.distinct spared.kept apart
        told, spared.told.imp_right ?_⟩
      unfold ReachableWithout
      rw [(before.releaseConcurrencyForRun_frame runId reason).sockets]
      exact id
  | shut | greet | connect | insert | release | acquire =>
      rcases front with wrong | inside
      · cases wrong
      · exact inside.elim

/-! ### The jobs of other connections -/

/-- What the handler of a close or error event of the connection has made of the state
when it ends or comes to its next `await`. -/
inductive Handled (state : State) : Event → SocketId → State → Prop where
  | close {socket : SocketId} {now : Millis} {entry : Socket}
      (known : state.socket? socket = some entry) :
      Handled state (.close socket now) socket (webSocketClose now state entry).1
  | error {socket : SocketId} {now : Millis} {entry : Socket}
      (known : state.socket? socket = some entry) :
      Handled state (.error socket now) socket (webSocketError now state entry).1
  | goesOn {task : Nat} {reply : Reply} {now : Millis} {socket : SocketId} {rows : List JobRow}
      {frames : List Frame} (found : state.tasks[task]? =
        some (.disconnect socket rows :: frames)) :
      Handled state (.resume task reply now) socket
        (resumeFrame now { state with tasks := state.tasks.eraseIdx task } reply
          (.disconnect socket rows)).1

/-- The job is not requeued, completed or assigned again, and its leases are not
released: a lease that holds its group stays, and a waiting one stays or is promoted,
unless its agent has no connection left to be told about a promotion. -/
structure Spared (before after : State) (socket : SocketId) (jobId : JobId) : Prop where
  owner : SameOwner before after jobId
  leases : ∀ lease ∈ before.leases, lease.runId = jobId →
    lease.holds = true ∨ ReachableWithout before socket lease.agentId → LeaseKept after lease

/-- The close or error event of a connection spares every active job that was last
assigned through another connection. -/
def Spares (state : State) (event : Event) : Prop :=
  ∀ socket after, Handled state event socket after → ∀ row ∈ state.jobs, row.active = true →
    (∀ made, state.lastAssignment row.id = some made → made.socket ≠ socket) →
    Spared state after socket row.id

/-- The actions of the handler over `rows`. -/
def HandlesRows (state : State) (socket : SocketId) (rows : List JobRow) (action : Action) : Prop :=
  action = .dropSocket socket ∨
    action.within fun id => QueuedIn state id ∨ ∃ row ∈ rows, row.id = id

theorem Handled.trace {state after : State} {event : Event} {socket : SocketId}
    (handled : Handled state event socket after) (tidy : Tidy state) :
    ∃ rows, (rows = [] ∨ Loops state event socket rows) ∧
      Trace (HandlesRows state socket rows) state after := by
  -- The marker of a suspended loop is no action on the state.
  have acted : ∀ {rows : List JobRow} {first second : State},
      Trace (LoopActs state socket rows) first second →
      Trace (HandlesRows state socket rows) first second := by
    intro rows first second trace
    induction trace with
    | refl => exact .refl _
    | tail _ last inductionHypothesis =>
        obtain ⟨action, inside | ⟨rest, rfl, -⟩, acts⟩ := last
        · exact inductionHypothesis.trans (.one acts (.inr inside))
        · cases acts
  cases handled with
  | @close _ now entry known =>
      have id : entry.id = socket := row_key known
      have removed : Trace (HandlesRows state socket []) state
          { state with sockets := delete state.sockets (·.id = socket) } :=
        .one (.dropSocket socket) (.inl rfl)
      unfold webSocketClose
      rw [id]
      dsimp only
      split
      · rename_i hello
        refine ⟨_, .inr (.inl ⟨now, entry, .inl rfl, known, hello, rfl⟩), ?_⟩
        refine .trans (.one (.dropSocket socket) (.inl rfl)) ?_
        exact acted (disconnectLoop_sound now socket _ (removed.tidy tidy)).trace
      · exact ⟨[], .inl rfl, removed⟩
  | @error _ now entry known =>
      have id : entry.id = socket := row_key known
      unfold webSocketError
      split
      · rename_i hello
        refine ⟨_, .inr (.inl ⟨now, entry, .inr rfl, known, hello, rfl⟩), ?_⟩
        rw [id]
        exact acted (disconnectLoop_sound now socket _ tidy).trace
      · exact ⟨[], .inl rfl, .refl _⟩
  | @goesOn task reply now _ rows frames found =>
      have idle : Trace (HandlesRows state socket rows) state
          { state with tasks := state.tasks.eraseIdx task } :=
        .one (.quiet ⟨rfl, rfl, rfl, rfl, rfl, rfl, rfl, rfl⟩ rfl) (.inr trivial)
      refine ⟨rows, .inr (.inr ⟨task, reply, now, frames, rfl, found⟩), idle.trans ?_⟩
      exact acted (disconnectLoop_sound now socket rows (idle.tidy tidy)).trace

theorem Tethered.spares {state : State} (tethered : Tethered state) (event : Event) :
    Spares state event := by
  intro socket after handled row member active elsewhere
  obtain ⟨rows, loops, trace⟩ := handled.trace tethered.ready.tidy
  have isActive : ActiveIn state row.id := ⟨row, member, rfl, active⟩
  have other : ¬ (QueuedIn state row.id ∨ ∃ listed ∈ rows, listed.id = row.id) := by
    rintro (queued | ⟨listed, inside, same⟩)
    · exact tethered.ready.tidy.not_queued_of_active isActive queued
    · rcases loops with rfl | loops
      · cases inside
      · obtain ⟨made, last, through⟩ :=
          (tethered.loops_ok loops).through listed inside (same ▸ isActive)
        rw [same] at last
        exact elsewhere made last through
  constructor
  · refine trace.sameOwner fun action handles moves => ?_
    rcases handles with rfl | inside
    · exact moves
    · exact other (Action.within_moves inside moves)
  · intro lease present same told
    have start : LeaseSpared socket lease state := ⟨tethered.queue, .inl present, told⟩
    exact (trace.invariant (fun _ _ _ handles acts spared =>
      spared.acts acts (by rw [same]; exact other) handles) start).kept

/-- Connections of an agent hand over one after the other, and disconnect loops that
wait are not disturbed. -/
structure Orderly (state : State) (event : Event) : Prop where
  handover : Handover state event
  undisturbed : LoopsUndisturbed state event

omit [JsText] in
theorem tethered_initial : Tethered initial := by
  refine ⟨ready_initial, ⟨List.nodup_nil, ?_⟩, attached_initial, leaseQueue_initial, ?_⟩
  · intro entry member
    cases member
  · intro task member
    cases member

/-- In every run in which the connections of an agent do not overlap, the close and
error events of a connection spare the jobs of all others. -/
theorem disconnect_spares_other_connections (events : List Event)
    (orderly : Along step Orderly initial events) : Along step Spares initial events :=
  orderly.safe (fun _ _ tethered good => tethered.step good.handover good.undisturbed)
    (fun _ event tethered _ => tethered.spares event) tethered_initial

/-- `handleAgentDisconnect` in `syncCheck`. -/
def Frame.isLoop : Frame → Bool
  | .disconnect _ _ => true
  | _ => false

/-- The agent of a hello. -/
def Event.greets : Event → Option AgentId
  | .message _ (.hello hello) _ => some hello.agentId
  | _ => none

theorem step_close {state : State} {socket : SocketId} {entry : Socket} {now : Millis}
    (known : state.socket? socket = some entry) :
    step state (.close socket now) = spawn (webSocketClose now state entry) := by
  unfold step onSocket
  dsimp only
  rw [known]

theorem orderly_of {state : State} {event : Event}
    (idle : ∀ frame ∈ pendingFrames state event, frame.isLoop = false)
    (silent : ∀ entry ∈ state.sockets, event.greets = some entry.agentId → entry.hello = none)
    (vacated : ∀ row ∈ state.jobs, event.greets = row.agentId → row.active = false) :
    Orderly state event := by
  constructor
  · rintro socket agent ⟨hello, now, entry, rfl, known, rfl, accepted⟩
    have greets : Event.greets (.message socket (.hello hello) now) = some entry.agentId :=
      congrArg some accepted.agent
    refine .inr ⟨?_, fun row member owner => vacated row member (greets.trans owner.symm)⟩
    rintro other ⟨registered, member, -, owner, said⟩
    rw [silent registered member (by rw [owner]; exact greets)] at said
    cases said
  · intro socket rows pending
    cases idle _ (mem_pendingFrames.mpr pending)

end Text

section Sample

open scoped Ascii

/-- Job 1 runs on agent `a`, job 2 on agent `b`, and the connection of `a` closes. -/
def otherAgentCloses : List Event :=
  [.connect "a" 0, .message 0 (.hello (Ascii.hello "a" 1)) 0,
    .connect "b" 0, .message 1 (.hello (Ascii.hello "b" 1)) 0,
    .enqueue (Ascii.job 1) "d" 0, .enqueue (Ascii.job 2) "e" 0,
    .resume 0 (.actionsVariables []) 1, .resume 0 (.actionsVariables []) 2,
    .resume 0 (.token ⟨"token", 60⟩) 3, .resume 0 (.token ⟨"token", 60⟩) 4,
    .message 0 (.jobStarted 1 1) 5, .message 1 (.jobStarted 2 2) 6, .close 0 7]

/-- The job of the other agent is left alone. -/
theorem otherAgentCloses_spares :
    (run step initial otherAgentCloses).jobs.map (fun row => (row.status, row.agentId)) =
        [(.queued, none), (.running, some "b")] ∧
      Along step Spares initial otherAgentCloses := by
  refine ⟨by decide, disconnect_spares_other_connections otherAgentCloses ?_⟩
  refine ⟨?_, ?_, ?_, ?_, ?_, ?_, ?_, ?_, ?_, ?_, ?_, ?_, ?_, trivial⟩
  all_goals
    apply orderly_of
    · decide
    · decide
    · decide

/-- The first connection of agent `a` has left the state `OPEN`; the second one says
hello and gets job 1. -/
def reconnected : List Event :=
  [.connect "a" 0, .message 0 (.hello (Ascii.hello "a" 1)) 0, .leaveOpen 0,
    .connect "a" 1, .message 1 (.hello (Ascii.hello "a" 1)) 1,
    .enqueue (Ascii.job 1) "d" 2, .resume 0 (.actionsVariables []) 3,
    .resume 0 (.token ⟨"token", 60⟩) 4, .message 1 (.jobStarted 1 1) 5]

/-- The close event of the first connection then takes the running job back. -/
theorem late_close_requeues_job :
    (run step initial reconnected).jobs.map (fun row => (row.status, row.agentId)) =
        [(.running, some "a")] ∧
      (run step initial reconnected).lastAssignment 1 = some ⟨1, "a", 1⟩ ∧
      (run step initial (reconnected ++ [.close 0 6])).jobs.map (·.status) = [.assigned] ∧
      ¬ Along step Spares initial (reconnected ++ [.close 0 6]) := by
  refine ⟨by decide, by decide, by decide, fun spares => ?_⟩
  obtain ⟨entry, known⟩ : ∃ entry, (run step initial reconnected).socket? 0 = some entry :=
    ⟨_, rfl⟩
  obtain ⟨row, member, id, running⟩ : ∃ row ∈ (run step initial reconnected).jobs,
      row.id = 1 ∧ row.status = .running := by decide
  have taken : ∀ new ∈ (step (run step initial reconnected) (.close 0 6)).jobs,
      new.status = .assigned := by decide
  rw [step_close known, (spawn_core _).1.jobs] at taken
  have last : (run step initial reconnected).lastAssignment row.id = some ⟨1, "a", 1⟩ := by
    rw [id]
    decide
  have spared := (Along.append.mp spares).2.1 0 _ (.close known) row member
    (by simp [JobRow.active, running]) (by rw [last]; simp)
  obtain ⟨new, present, -, still, -⟩ := spared.owner.row row member rfl
    (by simp [JobRow.active, running])
  rw [taken new present, running] at still
  cases still

end Sample

end GitZero.ControlPlane
