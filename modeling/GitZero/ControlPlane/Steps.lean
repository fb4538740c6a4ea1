/-
Module: GitZero.ControlPlane.Steps
Purpose: What a hello, a close and an enqueue do to the Workspace, whom a command is delivered
  to, and what every awaited part returns: the actions they take in terms of the state before.
Trusted boundary: none
Main exports: Owned, HelloAccepted, Greets, DisconnectActs, Inserts, Delivers, Throws,
  webSocketHello_sound, webSocketClose_sound, webSocketError_sound, enqueue_sound,
  disconnectLoop_threw, resumeFrame_threw
-/
import GitZero.ControlPlane.Handlers

namespace GitZero.ControlPlane

open Table

section Text

variable [JsText]

/-! ### Socket events and enqueue -/

/-- Row `jobId` is assigned to or running on `agent`. -/
def Owned (state : State) (jobId : JobId) (agent : AgentId) : Prop :=
  ∃ row ∈ state.jobs, row.id = jobId ∧ row.agentId = some agent ∧ row.active = true

theorem refuseHello_sound (state : State) (socket : SocketId) (code message : String) :
    Sound (fun action => action = .shut socket ∨ action.within fun _ => False) state
      (refuseHello state socket code message) := by
  unfold refuseHello
  split
  · exact .threw (.refl _) rfl
  · rename_i sent delivered
    obtain ⟨trace, tasks⟩ := send_trace delivered fun spec assignment wrong => nomatch wrong
    exact .done ((trace.mono fun _ => .inr).trans (.one (.shut socket) (.inl rfl))) tasks

/-- A hello is accepted for the agent of its connection, in the right protocol and
while no other open connection of that agent has said hello. -/
structure HelloAccepted (state : State) (entry : Socket) (hello : AgentHello) : Prop where
  agent : hello.agentId = entry.agentId
  protocol : hello.protocolVersion = protocolVersion
  single : duplicateAgent state entry.id hello.agentId = false

/-- The change of the socket table that a hello makes. -/
def Greets (state : State) (entry : Socket) (hello : AgentHello) (action : Action) : Prop :=
  (HelloAccepted state entry hello ∧ action = .greet entry.id hello) ∨ action = .shut entry.id

/-- A hello changes its socket, and hands out queued jobs. -/
theorem webSocketHello_sound {state : State} (tidy : Tidy state) (now : Millis) (entry : Socket)
    (hello : AgentHello) :
    Sound (HandlerActs state (Greets state entry hello)) state
      (webSocketHello now state entry hello) := by
  have refused : ∀ action : Action, (action = .shut entry.id ∨ action.within fun _ => False) →
      HandlerActs state (Greets state entry hello) action := by
    rintro action (rfl | routine)
    · exact .inl (.inr rfl)
    · exact .routine routine
  unfold webSocketHello
  split
  · exact .done (.one (.shut entry.id) (.inl (.inr rfl))) rfl
  · split
    · exact (refuseHello_sound ..).mono refused
    · split
      · exact (refuseHello_sound ..).mono refused
      · rename_i agent protocol single
        have greeting : HelloAccepted state entry hello :=
          ⟨not_not.mp agent, not_not.mp protocol, by simpa using single⟩
        have accepted : Trace (HandlerActs state (Greets state entry hello)) state
            (acceptHello now state entry.id hello) :=
          .one (.greet entry.id hello now) (.inl (.inl ⟨greeting, rfl⟩))
        split
        · exact .threw accepted rfl
        · rename_i sent delivered
          obtain ⟨welcome, tasks⟩ := send_trace delivered fun spec assignment wrong => nomatch wrong
          have front := accepted.trans (welcome.mono fun _ => .routine)
          exact .handler front tasks (dispatchIteration_sound (front.tidy tidy) now)

/-- The rows that `handleAgentDisconnect` selects. -/
def disconnectRows (state : State) (agentId : AgentId) : List JobRow :=
  state.jobs.filter fun row => row.agentId = some agentId && row.active

omit [JsText] in
theorem mem_disconnectRows {state : State} {agentId : AgentId} {row : JobRow} :
    row ∈ disconnectRows state agentId ↔
      row ∈ state.jobs ∧ row.agentId = some agentId ∧ row.active = true := by
  simp [disconnectRows]

/-- The actions of a close or error event of a connection that has said hello. -/
def DisconnectActs (state : State) (entry : Socket) (action : Action) : Prop :=
  entry.hello.isSome = true ∧ LoopActs state entry.id (disconnectRows state entry.agentId) action

/-- A closed socket takes back the jobs of its agent. -/
theorem webSocketClose_sound {state : State} (tidy : Tidy state) (now : Millis) (entry : Socket) :
    Sound (fun action => action = .dropSocket entry.id ∨ DisconnectActs state entry action) state
      (webSocketClose now state entry) := by
  have removed : Trace (fun action => action = .dropSocket entry.id ∨
      DisconnectActs state entry action) state
      { state with sockets := delete state.sockets (·.id = entry.id) } :=
    .one (.dropSocket entry.id) (.inl rfl)
  unfold webSocketClose
  dsimp only
  split
  · rename_i hello
    exact .after removed rfl (.mono (disconnectLoop_sound now entry.id _ (removed.tidy tidy))
      fun action acts => .inr ⟨hello, acts⟩)
  · exact .done removed rfl

/-- So does a failed one. -/
theorem webSocketError_sound {state : State} (tidy : Tidy state) (now : Millis) (entry : Socket) :
    Sound (DisconnectActs state entry) state (webSocketError now state entry) := by
  unfold webSocketError
  split
  · rename_i hello
    exact (disconnectLoop_sound now entry.id _ tidy).mono fun action acts => ⟨hello, acts⟩
  · exact .done (.refl _) rfl

/-- The insert of an enqueue; the id of an active job is taken. -/
def Inserts (state : State) (jobId : JobId) (action : Action) : Prop :=
  ¬ ActiveIn state jobId ∧ action = .insert jobId

/-- A delivery inserts one job. -/
theorem enqueue_sound {state : State} (tidy : Tidy state) (now : Millis) (job : QueuedJob)
    (deliveryId : String) :
    Sound (HandlerActs state (Inserts state job.id)) state (enqueue now state job deliveryId) := by
  have pruned : Trace (HandlerActs state (Inserts state job.id)) state (state.prune now) :=
    .one (.prune now) (.routine trivial)
  unfold enqueue
  dsimp only
  split
  · exact .done pruned rfl
  · have numbered : Trace (HandlerActs state (Inserts state job.id)) state
        { state.prune now with
          deliveries := (state.prune now).deliveries ++ [(deliveryId, job.id)]
          runNumber := (state.prune now).runNumber + 1 } :=
      pruned.trans (.one (.quiet ⟨rfl, rfl, rfl, rfl, rfl, rfl, rfl, rfl⟩ rfl) (.routine trivial))
    split
    · exact .threw numbered rfl
    · rename_i fresh
      simp only [List.any_eq_true, decide_eq_true_eq, not_exists, not_and] at fresh
      have unknown : ¬ ActiveIn state job.id := by
        rintro ⟨row, member, same, active⟩
        refine fresh row (mem_delete.mpr ⟨member, ?_⟩) same
        have unfinished : row.status ≠ .completed := by
          intro completed
          simp [JobRow.active, completed] at active
        simp [State.prunable, unfinished]
      have inserted : Trace (HandlerActs state (Inserts state job.id)) state
          { state.prune now with
            deliveries := (state.prune now).deliveries ++ [(deliveryId, job.id)]
            runNumber := (state.prune now).runNumber + 1
            jobs := (state.prune now).jobs ++
              [queuedRow now ((state.prune now).runNumber + 1) job]
            events := (state.prune now).events ++ [(job.id, job.event)] } :=
        .trans numbered (.trans (.one (.insert now ((state.prune now).runNumber + 1) job fresh)
          (.inl ⟨unknown, rfl⟩)) (.one (.quiet ⟨rfl, rfl, rfl, rfl, rfl, rfl, rfl, rfl⟩ rfl)
            (.routine trivial)))
      split
      · obtain ⟨trace, started, kept⟩ := (Sound.handler inserted rfl
          (initializeJob_sound (inserted.tidy tidy) now job.id)).spawn (.routine trivial)
        exact ⟨trace.trans (.one (.quiet (scheduleAlarm_core _ now) rfl) (.routine trivial)),
          fun _ wrong => (by cases wrong), started, kept, fun wrong => by cases wrong⟩
      · exact .await (.handler inserted rfl (dispatchIteration_sound (inserted.tidy tidy) now))
          trivial

/-! ### Resumptions -/

/-- The token arrived, the run can be built and its socket is still open. -/
def Delivers (state : State) (job : QueuedJob) (socket : SocketId) (reply : Reply) : Prop :=
  ∃ credential, reply = .token credential ∧ Deliverable state job socket (some credential)

/-- The resumptions that throw: the row they go back to is gone. -/
def Throws (state : State) (reply : Reply) : Frame → Prop
  | .dispatchToken _ job _ socket =>
      state.jobRow? job.id = none ∧ ¬ Delivers state job socket reply
  | .disconnect _ rows => ∃ row ∈ rows, state.jobRow? row.id = none
  | .initMergeSnapshot claim _ | .initVariables claim _ | .initCheckRun claim _ =>
      state.jobRow? claim.job.id = none
  | _ => False

theorem initializeStore_returns {state : State} (tidy : Tidy state) (now : Millis)
    {claim : JobRow} {job : QueuedJob} (same : job.id = claim.job.id) :
    (initializeStore now state claim job).2 ≠ .threw := by
  unfold initializeStore
  split
  · dsimp only
    have stored := storeInitialization_trace (fun _ => True) state same
    have returned := dispatchIteration_returns (stored.tidy tidy) now
    split
    · rename_i outcome
      exact absurd (by rw [outcome]) returned
    · exact fun threw => returned (awaitThen_threw.mp threw)
  · simp

theorem initializeCheckRun_returns {state : State} (tidy : Tidy state) (now : Millis)
    {claim : JobRow} {job : QueuedJob} (same : job.id = claim.job.id) :
    (initializeCheckRun now state claim job).2 ≠ .threw := by
  unfold initializeCheckRun
  split
  · simp
  · exact initializeStore_returns tidy now same

theorem initializeVariables_returns {state : State} (tidy : Tidy state) (now : Millis)
    {claim : JobRow} {job : QueuedJob} (same : job.id = claim.job.id) :
    (initializeVariables now state claim job).2 ≠ .threw := by
  unfold initializeVariables
  split
  · simp
  · exact initializeCheckRun_returns tidy now same

theorem initializeJob_returns {state : State} (tidy : Tidy state) (now : Millis)
    (jobId : JobId) : (initializeJob now state jobId).2 ≠ .threw := by
  unfold initializeJob
  split
  · simp
  · rename_i row found
    have claimed : Trace (Action.within fun _ => True) state
        (state.updateJobs (initializationClaimable now jobId) (claimInitialization now)) := by
      refine job_trace .claimInitialization jobId rfl fun row _ picked => ?_
      simp only [initializationClaimable, Bool.and_eq_true, decide_eq_true_eq] at picked
      exact ⟨picked.1.1.1, .claimInitialization now picked.1.1.2 picked.1.2⟩
    have same : (withExecutionRef (claimInitialization now row).job).id =
        (claimInitialization now row).job.id := withExecutionRef_id _
    dsimp only
    split
    · split
      · simp
      · exact initializeVariables_returns (claimed.tidy tidy) now same
    · exact initializeVariables_returns (claimed.tidy tidy) now same

omit [JsText] in
/-- An update that keeps ids makes no row disappear. -/
theorem jobRow?_of_updateJobs {state : State} {selected : JobRow → Bool} {set : JobRow → JobRow}
    {jobId : JobId} (gone : (state.updateJobs selected set).jobRow? jobId = none)
    (keyed : ∀ job, (set job).id = job.id) : state.jobRow? jobId = none := by
  refine row_eq_none.mpr fun job member same => ?_
  refine row_eq_none.mp gone _ (mem_update.mpr ⟨job, member, rfl⟩) ?_
  split
  · exact (keyed job).trans same
  · exact same

theorem initializeCatch_threw {now : Millis} {state : State} {claim : JobRow} {error : String}
    (threw : (initializeCatch now state claim error).2 = .threw) :
    state.jobRow? claim.job.id = none := by
  unfold initializeCatch at threw
  dsimp only at threw
  split at threw
  · split at threw
    · rename_i gone
      exact jobRow?_of_updateJobs gone fun _ => rfl
    · split at threw
      · rename_i gone
        exact jobRow?_of_updateJobs (jobRow?_of_updateJobs gone fun _ => rfl) fun _ => rfl
      · exact absurd (awaitThen_threw.mp threw) (syncCheck_returns _ _)
  · cases threw

theorem syncDeployment_returns (now : Millis) (state : State) (key : JobId × String) :
    (syncDeployment now state key).2 ≠ .threw := by
  unfold syncDeployment
  split
  · simp
  · dsimp only
    split <;> simp [deploymentCatch]

theorem alarmDeploymentLoop_returns {state : State} (tidy : Tidy state) (now dueAt : Millis)
    (keys : List (JobId × String)) :
    (alarmDeploymentLoop now dueAt state keys).2 ≠ .threw := by
  cases keys with
  | nil =>
      have pruned : Trace (Action.within fun _ => True) state (state.prune dueAt) :=
        .one (.prune dueAt) trivial
      exact fun threw => dispatchIteration_returns (pruned.tidy tidy) now (awaitThen_threw.mp threw)
  | cons key rest => exact fun threw => syncDeployment_returns _ _ _ (awaitThen_threw.mp threw)

theorem alarmCheckLoop_returns {state : State} (tidy : Tidy state) (now dueAt : Millis)
    (rows : List JobRow) : (alarmCheckLoop now dueAt state rows).2 ≠ .threw := by
  cases rows with
  | nil => exact alarmDeploymentLoop_returns tidy now dueAt _
  | cons row rest => exact fun threw => syncCheck_returns _ _ (awaitThen_threw.mp threw)

theorem alarmInitLoop_returns {state : State} (tidy : Tidy state) (now : Millis)
    (ids : List JobId) : (alarmInitLoop now state ids).2 ≠ .threw := by
  cases ids with
  | nil =>
      obtain ⟨expiry, -⟩ := foldl_trace (fun current _ => Tidy current)
        (fun current row _ holds =>
          have ⟨trace, tasks⟩ := expireLease_trace holds now row
          ⟨trace, tasks, trace.tidy holds⟩)
        (state.jobs.filter (leaseExpired now)) state tidy
      obtain ⟨timeout, -⟩ := foldl_trace StillQueued (expireQueued_trace now) _ _
        (stillQueued_filter (expiry.tidy tidy) now)
      exact alarmCheckLoop_returns (timeout.tidy (expiry.tidy tidy)) now now _
  | cons jobId rest => exact fun threw => initializeJob_returns tidy _ _ (awaitThen_threw.mp threw)

omit [JsText] in
theorem requeue_rows {state requeued : State} {jobId other : JobId} {reason : String}
    {now : Millis} {terminal : Option JobRow}
    (taken : state.requeue jobId reason now = some (requeued, terminal))
    (gone : requeued.jobRow? other = none) : state.jobRow? other = none := by
  unfold State.requeue at taken
  cases lookup : state.jobRow? jobId with
  | none => simp [lookup] at taken
  | some row =>
      simp only [lookup] at taken
      have frame := State.releaseConcurrencyForRun_frame
        { state with requeues := state.requeues + 1 } row.id
        ("The parent GitZero run was requeued: " ++ reason)
      split at taken
      · cases taken
        exact gone
      · split at taken
        · cases taken
          exact (frame.jobRow? other).symm.trans (jobRow?_of_updateJobs gone fun _ => rfl)
        · cases taken
          exact (frame.jobRow? other).symm.trans (jobRow?_of_updateJobs gone fun _ => rfl)

/-- It throws only where one of its rows is gone. -/
theorem disconnectLoop_threw {now : Millis} {socket : SocketId} {rows : List JobRow}
    {state : State} (tidy : Tidy state)
    (threw : (disconnectLoop now socket state rows).2 = .threw) :
    ∃ row ∈ rows, state.jobRow? row.id = none := by
  induction rows generalizing state with
  | nil => exact absurd (awaitThen_threw.mp threw) (dispatchIteration_returns tidy now)
  | cons row rest inductionHypothesis =>
      unfold disconnectLoop at threw
      split at threw
      · rename_i missing
        refine ⟨row, List.mem_cons_self, ?_⟩
        by_contra present
        obtain ⟨found, lookup⟩ := Option.ne_none_iff_exists'.mp present
        exact requeue_isSome lookup _ _ missing
      · rename_i requeued taken
        obtain ⟨trace, -⟩ := requeue_trace tidy taken
        obtain ⟨other, member, gone⟩ := inductionHypothesis (trace.tidy tidy) threw
        refine ⟨other, List.mem_cons_of_mem _ member, ?_⟩
        exact requeue_rows taken gone
      · exact absurd (awaitThen_threw.mp threw) (syncCheck_returns _ _)

/-- Where a suspended function throws. -/
theorem resumeFrame_threw {now : Millis} {state : State} {reply : Reply} {frame : Frame}
    (tidy : Tidy state) (ok : FrameOk state frame)
    (threw : (resumeFrame now state reply frame).2 = .threw) : Throws state reply frame := by
  cases frame with
  | dispatchToken assignment job agent socket =>
      cases reply with
      | token credential =>
          obtain ⟨gone, blocked⟩ := deliver_threw threw
          refine ⟨gone, ?_⟩
          rintro ⟨other, same, deliverable⟩
          cases same
          exact blocked deliverable
      | settled | failed | mergeSnapshot | actionsVariables | checkRun | deployment | credential =>
          refine ⟨dispatchFailure_threw threw, ?_⟩
          rintro ⟨other, wrong, -⟩
          cases wrong
  | dispatchLoop | heartbeatScheduled => exact absurd threw (dispatchIteration_returns tidy now)
  | finishedSynced =>
      exact absurd (awaitThen_threw.mp threw) (dispatchIteration_returns tidy now)
  | initMergeSnapshot claim job =>
      cases reply with
      | mergeSnapshot snapshot =>
          cases snapshot with
          | pending => exact initializeCatch_threw threw
          | conflicted | changed => cases threw
          | ready => exact absurd threw (initializeVariables_returns tidy now ok)
      | settled | failed | token | actionsVariables | checkRun | deployment | credential =>
          exact initializeCatch_threw threw
  | initVariables claim job =>
      cases reply with
      | actionsVariables values =>
          exact absurd threw (initializeCheckRun_returns tidy now ok)
      | settled | failed | token | mergeSnapshot | checkRun | deployment | credential =>
          exact initializeCatch_threw threw
  | initCheckRun claim job =>
      cases reply with
      | checkRun id => exact absurd threw (initializeStore_returns tidy now ok)
      | settled | failed | token | mergeSnapshot | actionsVariables | deployment | credential =>
          exact initializeCatch_threw threw
  | disconnect socket rows => exact disconnectLoop_threw tidy threw
  | alarmInit rest => exact absurd threw (alarmInitLoop_returns tidy now rest)
  | alarmCheck rest dueAt => exact absurd threw (alarmCheckLoop_returns tidy now dueAt rest)
  | alarmDeployment rest dueAt =>
      exact absurd threw (alarmDeploymentLoop_returns tidy now dueAt rest)
  | checkUpdate row => cases reply <;> cases threw
  | deploymentSync claim => cases reply <;> cases threw
  | credential kind jobId requestId agentId socket =>
      cases reply with
      | credential text =>
          unfold resumeFrame resumeCredential at threw
          dsimp only at threw
          split at threw <;> cases threw
      | settled | failed | token | mergeSnapshot | actionsVariables | checkRun | deployment =>
          cases threw
  | dispatchFailed | initDispatched | initTerminal | scheduleAfterDispatch | ack => cases threw

end Text

end GitZero.ControlPlane
