/-
Module: GitZero.ControlPlane.Connections
Purpose: Which connection a job was last assigned through, which connections are
  registered, and what single actions do to both.
Trusted boundary: none
Main exports: State.lastAssignment, Connected, SocketsKeyed, Acts.lastAssignment,
  Acts.active_row, Acts.connected, Acts.connected_back, Trace.unassigned
-/
import GitZero.ControlPlane.Events

namespace GitZero.ControlPlane

open Table

/-! ### The last assignment of a job -/

/-- The latest assignment of the job. -/
def State.lastAssignment (state : State) (jobId : JobId) : Option Assignment :=
  (state.assignments.filter fun made => made.job = jobId).getLast?

theorem lastAssignment_grown {before after : State} {jobId : JobId} {more : List Assignment}
    (grown : after.assignments = before.assignments ++ more)
    (apart : ∀ made ∈ more, made.job ≠ jobId) :
    after.lastAssignment jobId = before.lastAssignment jobId := by
  have none : more.filter (fun made => made.job = jobId) = [] := by simpa using apart
  unfold State.lastAssignment
  rw [grown, List.filter_append, none, List.append_nil]

/-- The action does not assign the job. -/
def Action.spares (action : Action) (jobId : JobId) : Prop :=
  ∀ agent socket, action ≠ .assign jobId agent socket

theorem Action.within_spares {ids : JobId → Prop} {action : Action} {jobId : JobId}
    (inside : action.within ids) (outside : ¬ ids jobId) : action.spares jobId := by
  rintro agent socket rfl
  exact outside inside

/-- A statement on `jobs` leaves a row active only if it was, on the same agent. -/
theorem RowStep.active_back {kind : RowKind} {old new : JobRow} (rowStep : RowStep kind old new)
    (active : new.active = true) : old.active = true ∧ new.agentId = old.agentId := by
  cases rowStep with
  | claimInitialization now queued | storeInitialization job queued
  | retryInitialization retryAt detail queued | exhaustInitialization detail queued =>
      simp [JobRow.active, ControlPlane.claimInitialization, queued] at active
  | completeInitializing | completeInfrastructure | reject | requeue | finish => cases active
  | start now owner assigned => exact ⟨by simp [JobRow.active, assigned], rfl⟩
  | renew | syncCheck => exact ⟨active, rfl⟩

/-! ### Registered connections -/

/-- The connection is registered for the agent and has said hello. -/
def Connected (state : State) (socket : SocketId) (agent : AgentId) : Prop :=
  ∃ entry ∈ state.sockets, entry.id = socket ∧ entry.agentId = agent ∧ entry.hello.isSome = true

/-- Socket ids are a key, and new ones are handed out in order. -/
structure SocketsKeyed (state : State) : Prop where
  distinct : (state.sockets.map Socket.id).Nodup
  below : ∀ entry ∈ state.sockets, entry.id < state.nextSocket

section Text

variable [JsText]

/-- An action that spares a job leaves its last assignment. -/
theorem Acts.lastAssignment {action : Action} {before after : State}
    (acts : Acts action before after) {jobId : JobId} (spared : action.spares jobId) :
    after.lastAssignment jobId = before.lastAssignment jobId := by
  obtain ⟨more, grown, made⟩ := acts.assignments
  refine lastAssignment_grown grown fun assignment member same => ?_
  exact spared assignment.agent assignment.socket (same ▸ made assignment member)

/-- Rows become active by an assignment only. -/
theorem Acts.active_row {action : Action} {before after : State}
    (acts : Acts action before after) {row : JobRow} (member : row ∈ after.jobs)
    (active : row.active = true) :
    (∃ old ∈ before.jobs, old.id = row.id ∧ old.active = true ∧ old.agentId = row.agentId) ∨
      ∃ agent socket, action = .assign row.id agent socket ∧ row.agentId = some agent := by
  have kept : after.jobs = before.jobs → (∃ old ∈ before.jobs, old.id = row.id ∧
      old.active = true ∧ old.agentId = row.agentId) ∨
      ∃ agent socket, action = .assign row.id agent socket ∧ row.agentId = some agent :=
    fun same => .inl ⟨row, same ▸ member, rfl, active, rfl⟩
  cases acts with
  | quiet core _ => exact kept core.jobs
  | job kind id selected set rows _ _ =>
      obtain ⟨old, present, rfl⟩ := mem_update.mp member
      split at active
      · rename_i picked
        obtain ⟨-, rowStep⟩ := rows old present picked
        obtain ⟨was, agent⟩ := rowStep.active_back active
        rw [if_pos picked]
        exact .inl ⟨old, present, rowStep.id_eq.symm, was, agent.symm⟩
      · rename_i spared
        rw [if_neg spared]
        exact .inl ⟨old, present, rfl, active, rfl⟩
  | assign queued candidate now present status ready available =>
      obtain ⟨old, found, rfl⟩ := mem_update.mp member
      split
      · rename_i picked
        simp only [Bool.and_eq_true, decide_eq_true_eq] at picked
        exact .inr ⟨candidate.agentId, candidate.socket, by rw [picked.1], rfl⟩
      · rename_i spared
        rw [if_neg spared] at active
        exact .inl ⟨old, found, rfl, active, rfl⟩
  | insert now runNumber job fresh =>
      rcases List.mem_append.mp member with old | new
      · exact .inl ⟨row, old, rfl, active, rfl⟩
      · rw [List.mem_singleton.mp new] at active
        cases active
  | prune now => exact .inl ⟨row, (mem_delete.mp member).1, rfl, active, rfl⟩
  | sockets | shut | greet | connect | dropSocket | countRequeue | send => exact kept rfl
  | releaseRun runId reason => exact kept (before.releaseConcurrencyForRun_frame runId reason).jobs
  | release requestId runId agent =>
      exact kept (before.releaseConcurrency_frame requestId runId agent).jobs
  | acquire socket agent job requestId unitId group cancelInProgress queue now _ =>
      exact kept (before.acquireConcurrency_frame socket agent job requestId unitId group
        cancelInProgress queue now).jobs

theorem Acts.activeIn {action : Action} {before after : State} (acts : Acts action before after)
    {jobId : JobId} (spared : action.spares jobId) (active : ActiveIn after jobId) :
    ActiveIn before jobId := by
  obtain ⟨row, member, rfl, isActive⟩ := active
  rcases acts.active_row member isActive with ⟨old, present, same, was, -⟩ |
    ⟨agent, socket, assigns, -⟩
  · exact ⟨old, present, same, was⟩
  · exact absurd assigns (spared agent socket)

/-- A trace that never assigns the job does not make it active, and leaves its last
assignment. -/
theorem Trace.unassigned {allowed : Action → Prop} {before after : State}
    (trace : Trace allowed before after) {jobId : JobId}
    (spared : ∀ action, allowed action → action.spares jobId) :
    (ActiveIn after jobId → ActiveIn before jobId) ∧
      after.lastAssignment jobId = before.lastAssignment jobId := by
  induction trace with
  | refl => exact ⟨id, rfl⟩
  | tail _ last inductionHypothesis =>
      obtain ⟨action, ok, acts⟩ := last
      exact ⟨fun active => inductionHypothesis.1 (acts.activeIn (spared action ok) active),
        (acts.lastAssignment (spared action ok)).trans inductionHypothesis.2⟩

theorem candidateOf_spec {state : State} {entry : Socket} {candidate : AgentCandidate}
    (chosen : candidateOf state entry = some candidate) :
    candidate.socket = entry.id ∧ candidate.agentId = entry.agentId ∧
      entry.hello = some candidate.hello ∧ entry.isOpen = true := by
  unfold candidateOf at chosen
  split at chosen
  · cases chosen
  · rename_i hello greeted
    split at chosen
    · cases chosen
    · rename_i usable
      cases chosen
      simp only [not_or, Bool.not_eq_false] at usable
      exact ⟨rfl, rfl, greeted, usable.1⟩

/-- An assignment goes to a registered connection. -/
theorem Acts.assign_spec {before after : State} {jobId : JobId} {agent : AgentId}
    {socket : SocketId} (acts : Acts (.assign jobId agent socket) before after) :
    Connected before socket agent ∧ after.sockets = before.sockets ∧
      after.lastAssignment jobId = some ⟨jobId, agent, socket⟩ := by
  cases acts with
  | assign queued candidate now member status ready available =>
      obtain ⟨entry, registered, chosen⟩ := List.mem_filterMap.mp available
      obtain ⟨socketId, agentId, hello, -⟩ := candidateOf_spec chosen
      refine ⟨⟨entry, registered, socketId.symm, agentId.symm, by simp [hello]⟩, rfl, ?_⟩
      simp [State.lastAssignment, claimJob, List.filter_append]

theorem Acts.assign_queued {before after : State} {jobId : JobId} {agent : AgentId}
    {socket : SocketId} (acts : Acts (.assign jobId agent socket) before after) :
    QueuedIn before jobId := by
  cases acts with
  | assign queued candidate now member status ready available =>
      exact ⟨queued, member, rfl, status⟩

theorem Acts.assign_history {before after : State} {jobId : JobId} {agent : AgentId}
    {socket : SocketId} (acts : Acts (.assign jobId agent socket) before after) :
    after.assignments = before.assignments ++ [⟨jobId, agent, socket⟩] := by
  cases acts with
  | assign => rfl

/-- Only its close event ends a connection. -/
theorem Acts.connected {action : Action} {before after : State} (acts : Acts action before after)
    {socket : SocketId} {agent : AgentId} (stays : action ≠ .dropSocket socket)
    (connected : Connected before socket agent) : Connected after socket agent := by
  obtain ⟨entry, member, id, owner, hello⟩ := connected
  have kept : after.sockets = before.sockets → Connected after socket agent :=
    fun same => ⟨entry, same ▸ member, id, owner, hello⟩
  cases acts with
  | quiet core sockets => exact kept sockets
  | sockets changed set keeps =>
      refine ⟨_, mem_update.mpr ⟨entry, member, rfl⟩, ?_⟩
      split
      · have same := keeps entry
        exact ⟨same.id.trans id, same.agentId.trans owner, by rw [same.hello]; exact hello⟩
      · exact ⟨id, owner, hello⟩
  | shut changed =>
      refine ⟨_, mem_update.mpr ⟨entry, member, rfl⟩, ?_⟩
      split <;> exact ⟨id, owner, hello⟩
  | greet changed greeting now =>
      refine ⟨_, mem_update.mpr ⟨entry, member, rfl⟩, ?_⟩
      split
      · exact ⟨id, owner, rfl⟩
      · exact ⟨id, owner, hello⟩
  | connect agentId now => exact ⟨entry, List.mem_append_left _ member, id, owner, hello⟩
  | dropSocket dropped =>
      refine ⟨entry, mem_delete.mpr ⟨member, ?_⟩, id, owner, hello⟩
      simp only [decide_eq_false_iff_not]
      rintro rfl
      exact stays (by rw [id])
  | job | assign | insert | prune | countRequeue | send => exact kept rfl
  | releaseRun runId reason =>
      exact kept (before.releaseConcurrencyForRun_frame runId reason).sockets
  | release requestId runId agentId =>
      exact kept (before.releaseConcurrency_frame requestId runId agentId).sockets
  | acquire changed agentId job requestId unitId group cancelInProgress queue now _ =>
      exact kept (before.acquireConcurrency_frame changed agentId job requestId unitId group
        cancelInProgress queue now).sockets

/-- Where a connection of the table comes from: it was there for the same agent, or it
is the one that a `connect` registers. -/
theorem Acts.endpoint_back {action : Action} {before after : State}
    (acts : Acts action before after) {entry : Socket} (member : entry ∈ after.sockets) :
    (∃ old ∈ before.sockets, old.id = entry.id ∧ old.agentId = entry.agentId ∧
      (entry.hello.isSome = true → old.hello.isSome = true ∨
        ∃ hello, action = .greet entry.id hello)) ∨
      ((∃ agent, action = .connect agent) ∧ entry.hello = none) := by
  have kept : after.sockets = before.sockets → ∃ old ∈ before.sockets, old.id = entry.id ∧
      old.agentId = entry.agentId ∧ (entry.hello.isSome = true → old.hello.isSome = true ∨
        ∃ hello, action = .greet entry.id hello) :=
    fun same => ⟨entry, same ▸ member, rfl, rfl, .inl⟩
  cases acts with
  | quiet core sockets => exact .inl (kept sockets)
  | sockets changed set keeps =>
      obtain ⟨old, present, rfl⟩ := mem_update.mp member
      split
      · have same := keeps old
        exact .inl ⟨old, present, same.id.symm, same.agentId.symm, fun said =>
          .inl (same.hello ▸ said)⟩
      · exact .inl ⟨old, present, rfl, rfl, .inl⟩
  | shut changed =>
      obtain ⟨old, present, rfl⟩ := mem_update.mp member
      split <;> exact .inl ⟨old, present, rfl, rfl, .inl⟩
  | greet changed greeting now =>
      obtain ⟨old, present, rfl⟩ := mem_update.mp member
      split
      · rename_i picked
        have same : old.id = changed := of_decide_eq_true picked
        exact .inl ⟨old, present, rfl, rfl, fun _ => .inr ⟨greeting, by rw [← same]⟩⟩
      · exact .inl ⟨old, present, rfl, rfl, .inl⟩
  | connect agentId now =>
      rcases List.mem_append.mp member with old | new
      · exact .inl ⟨entry, old, rfl, rfl, .inl⟩
      · rw [List.mem_singleton.mp new]
        exact .inr ⟨⟨agentId, rfl⟩, rfl⟩
  | dropSocket dropped => exact .inl ⟨entry, (mem_delete.mp member).1, rfl, rfl, .inl⟩
  | job | assign | insert | prune | countRequeue | send => exact .inl (kept rfl)
  | releaseRun runId reason =>
      exact .inl (kept (before.releaseConcurrencyForRun_frame runId reason).sockets)
  | release requestId runId agentId =>
      exact .inl (kept (before.releaseConcurrency_frame requestId runId agentId).sockets)
  | acquire changed agentId job requestId unitId group cancelInProgress queue now _ =>
      exact .inl (kept (before.acquireConcurrency_frame changed agentId job requestId unitId group
        cancelInProgress queue now).sockets)

/-- A connection says hello by a `greet` only. -/
theorem Acts.connected_back {action : Action} {before after : State}
    (acts : Acts action before after) {socket : SocketId} {agent : AgentId}
    (connected : Connected after socket agent) :
    Connected before socket agent ∨
      (∃ hello, action = .greet socket hello) ∧
        ∃ entry ∈ before.sockets, entry.id = socket ∧ entry.agentId = agent := by
  obtain ⟨entry, member, rfl, rfl, said⟩ := connected
  rcases acts.endpoint_back member with ⟨old, present, id, owner, hello⟩ | ⟨-, silent⟩
  · rcases hello said with before | greeted
    · exact .inl ⟨old, present, id, owner, before⟩
    · exact .inr ⟨greeted, old, present, id, owner⟩
  · rw [silent] at said
    cases said

theorem Acts.socketsKeyed {action : Action} {before after : State}
    (acts : Acts action before after) (keyed : SocketsKeyed before) : SocketsKeyed after := by
  have kept : after.sockets = before.sockets → after.nextSocket = before.nextSocket →
      SocketsKeyed after := by
    intro sockets next
    exact ⟨by rw [sockets]; exact keyed.distinct, by rw [sockets, next]; exact keyed.below⟩
  have updated : ∀ (changed : SocketId) (set : Socket → Socket),
      (∀ entry, (set entry).id = entry.id) → SocketsKeyed (before.updateSocket changed set) := by
    intro changed set keeps
    refine ⟨nodup_key_update (fun old _ _ => keeps old) keyed.distinct,
      forall_update keyed.below ?_⟩
    intro entry _ _ below
    rw [keeps entry]
    exact below
  cases acts with
  | quiet core sockets => exact kept sockets core.nextSocket
  | sockets changed set keeps => exact updated changed set fun entry => (keeps entry).id
  | shut changed => exact updated changed _ fun _ => rfl
  | greet changed greeting now => exact updated changed _ fun _ => rfl
  | connect agentId now =>
      constructor
      · exact nodup_key_append keyed.distinct fun entry member => (keyed.below entry member).ne
      · intro entry member
        rcases List.mem_append.mp member with old | new
        · exact Nat.lt_succ_of_lt (keyed.below entry old)
        · rw [List.mem_singleton.mp new]
          exact Nat.lt_succ_self _
  | dropSocket dropped => exact ⟨nodup_key_delete keyed.distinct, forall_delete keyed.below⟩
  | job | assign | insert | prune | countRequeue | send => exact kept rfl rfl
  | releaseRun runId reason =>
      have frame := before.releaseConcurrencyForRun_frame runId reason
      exact kept frame.sockets (by rw [frame])
  | release requestId runId agentId =>
      have frame := before.releaseConcurrency_frame requestId runId agentId
      exact kept frame.sockets (by rw [frame])
  | acquire changed agentId job requestId unitId group cancelInProgress queue now _ =>
      have frame := before.acquireConcurrency_frame changed agentId job requestId unitId group
        cancelInProgress queue now
      exact kept frame.sockets (by rw [frame])

end Text

end GitZero.ControlPlane
