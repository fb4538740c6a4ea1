/-
Module: GitZero.ControlPlane.Handlers
Purpose: The handlers of the Workspace as sequences of elementary actions:
  initialization, disconnect, alarm and agent messages, each with the actions
  that only it can take.
Trusted boundary: none
Main exports: Exhausts, Sent, initializeJob_sound, initializeCatch_sound,
  disconnectLoop_sound, alarm_sound, handleAgentEvent_sound
-/
import GitZero.ControlPlane.Segments

namespace GitZero.ControlPlane

open Table

/-! ### Dispatch returns -/

theorem requeue_isSome {state : State} {jobId : JobId} {row : JobRow}
    (present : state.jobRow? jobId = some row) (reason : String) (now : Millis) :
    state.requeue jobId reason now ≠ none := by
  unfold State.requeue
  simp only [present]
  split
  · simp
  · split <;> simp

theorem awaitThen_threw {frame : Frame} {segment : Segment} :
    (awaitThen frame segment).2 = .threw ↔ segment.2 = .threw := by
  obtain ⟨state, outcome⟩ := segment
  cases outcome <;> simp [awaitThen]

theorem syncCheck_returns (state : State) (row : JobRow) : (syncCheck state row).2 ≠ .threw := by
  unfold syncCheck
  split
  · simp
  · split <;> simp

/-- Only a row that is gone makes the `catch` of a dispatch throw. -/
theorem dispatchFailure_threw {now : Millis} {state : State} {jobId : JobId}
    (threw : (dispatchFailure now state jobId).2 = .threw) : state.jobRow? jobId = none := by
  cases lookup : state.jobRow? jobId with
  | none => rfl
  | some row =>
      exfalso
      unfold dispatchFailure at threw
      split at threw
      · rename_i failed
        exact requeue_isSome lookup _ _ failed
      · cases threw
      · exact syncCheck_returns _ _ (awaitThen_threw.mp threw)

section Text

variable [JsText]

theorem deliver_threw {now : Millis} {state : State} {assignment : Nat} {job : QueuedJob}
    {socket : SocketId} {credential : Option InstallationAccessToken}
    (threw : (deliver now state assignment job socket credential).2 = .threw) :
    state.jobRow? job.id = none ∧ ¬ Deliverable state job socket credential := by
  unfold deliver at threw
  cases built : dispatchSpec? state job credential with
  | none =>
      simp only [built] at threw
      exact ⟨dispatchFailure_threw threw, by simp [Deliverable, built]⟩
  | some spec =>
      simp only [built] at threw
      cases delivered : state.sendServer socket (.runJob spec assignment) with
      | none =>
          simp only [delivered] at threw
          have closed : state.socketOpen socket = false := by
            by_contra isOpen
            simp [State.sendServer, isOpen] at delivered
          exact ⟨dispatchFailure_threw threw, by simp [Deliverable, closed]⟩
      | some sent => simp [delivered] at threw

theorem dispatchIteration_returns {state : State} (tidy : Tidy state) (now : Millis) :
    (dispatchIteration now state).2 ≠ .threw := by
  intro threw
  unfold dispatchIteration at threw
  split at threw
  · cases threw
  · rename_i queued candidate selected
    obtain ⟨member, status, -, -⟩ := selectDispatch_spec selected
    dsimp only at threw
    split at threw
    · cases threw
    · have gone := (deliver_threw threw).1
      rw [tidy.named queued member] at gone
      have holds : Holds (claimJob state queued candidate now) state.assignments.length queued.id
          candidate.agentId := claimJob_holds member status now
      obtain ⟨row, present, id, -⟩ := holds.1
      exact row_eq_none.mp gone row present id

/-! ### Initialization -/

/-- The action that only the terminal branch of the `catch` of `initializeJob` takes. -/
def Exhausts (claim : JobRow) (action : Action) : Prop :=
  maxInitializationAttempts ≤ claim.initializationAttemptCount ∧
    action = .job (.completeInfrastructure .initializationExhausted) claim.job.id

/-- The reply sends the initialization attempt of the frame into its `catch`. -/
def caughtAttempt : Frame → Reply → Option JobRow
  | .initMergeSnapshot claim _, reply =>
      match reply with
      | .mergeSnapshot .pending => some claim
      | .mergeSnapshot _ => none
      | _ => some claim
  | .initVariables claim _, reply =>
      match reply with
      | .actionsVariables _ => none
      | _ => some claim
  | .initCheckRun claim _, reply =>
      match reply with
      | .checkRun _ => none
      | _ => some claim
  | _, _ => none

/-- A failed attempt acts on the job that it has claimed. -/
theorem initializeCatch_sound (ids : JobId → Prop) (now : Millis) (state : State)
    (claim : JobRow) (error : String) :
    Sound (fun action => action.within ids ∨ Exhausts claim action) state
      (initializeCatch now state claim error) := by
  unfold initializeCatch
  dsimp only
  split
  · rename_i attempts
    have marked : Trace (fun action => action.within ids ∨ Exhausts claim action) state
        (state.updateJobs (initializing claim.job.id) fun job =>
          { job with
            initializationNeeded := .ready
            initializationRetryAt := none
            lastError := some (truncateDiagnostic error) }) := by
      refine .mono (job_trace .exhaustInitialization claim.job.id rfl fun job _ picked => ?_)
        fun _ => .inl
      simp only [initializing, Bool.and_eq_true, decide_eq_true_eq] at picked
      exact ⟨picked.1.1, .exhaustInitialization _ picked.1.2 picked.2⟩
    split
    · exact .threw (marked.trans (.one (.quiet (scheduleAlarm_core _ now) rfl) (.inl trivial))) rfl
    · rename_i terminal found
      have terminalId := jobRow?_id found
      have completed := marked.trans (completeInfrastructureJob_trace .initializationExhausted
        .failure ("GitZero could not initialize the run after " ++
          toString claim.initializationAttemptCount ++ " attempts. Last error: " ++
          truncateDiagnostic error) now (.inr ⟨attempts, by rw [terminalId]⟩) (.inl trivial)
        (fun wrong => nomatch wrong) fun wrong => nomatch wrong)
      split
      · exact .threw (completed.trans (.one (.quiet (scheduleAlarm_core _ now) rfl)
          (.inl trivial))) rfl
      · exact .after completed rfl
          (((syncCheck_sound _ _).mono fun _ => .inl).await trivial)
  · refine .done (.trans (.mono (job_trace .retryInitialization claim.job.id rfl
      fun job _ picked => ?_) fun _ => .inl)
      (.one (.quiet (scheduleAlarm_core _ now) rfl) (.inl trivial))) rfl
    simp only [initializing, Bool.and_eq_true, decide_eq_true_eq] at picked
    exact ⟨picked.1.1, .retryInitialization _ _ picked.1.2 picked.2⟩

/-- The storing `UPDATE` of an attempt. -/
theorem storeInitialization_trace (ids : JobId → Prop) (state : State) {claim : JobRow}
    {job : QueuedJob} (same : job.id = claim.job.id) :
    Trace (Action.within ids) state
      (state.updateJobs (initializing claim.job.id) fun row =>
        { row with
          job := job
          initializationNeeded := .ready
          initializationRetryAt := none
          lastError := none }) := by
  refine job_trace .storeInitialization claim.job.id rfl fun row _ picked => ?_
  simp only [initializing, Bool.and_eq_true, decide_eq_true_eq] at picked
  exact ⟨picked.1.1, .storeInitialization job picked.1.2 picked.2
    (same.trans picked.1.1.symm)⟩

theorem initializeStore_sound {state : State} (tidy : Tidy state) (now : Millis)
    {claim : JobRow} {job : QueuedJob} (same : job.id = claim.job.id) :
    Sound (Action.within fun id => QueuedIn state id) state
      (initializeStore now state claim job) := by
  unfold initializeStore
  split
  · dsimp only
    have stored := storeInitialization_trace (fun id => QueuedIn state id) state same
    have returned := dispatchIteration_returns (stored.tidy tidy) now
    split
    · rename_i outcome
      exact absurd (by rw [outcome]) returned
    · exact .await (.behind stored rfl (dispatchIteration_sound (stored.tidy tidy) now)) trivial
  · exact .done (quiet_trace (scheduleAlarm_core _ now) rfl) rfl

theorem initializeCheckRun_sound {state : State} (tidy : Tidy state) (now : Millis)
    {claim : JobRow} {job : QueuedJob} (same : job.id = claim.job.id) :
    Sound (Action.within fun id => QueuedIn state id) state
      (initializeCheckRun now state claim job) := by
  unfold initializeCheckRun
  split
  · exact .suspended (.refl _) rfl same
  · exact initializeStore_sound tidy now same

theorem initializeVariables_sound {state : State} (tidy : Tidy state) (now : Millis)
    {claim : JobRow} {job : QueuedJob} (same : job.id = claim.job.id) :
    Sound (Action.within fun id => QueuedIn state id) state
      (initializeVariables now state claim job) := by
  unfold initializeVariables
  split
  · exact .suspended (.refl _) rfl same
  · exact initializeCheckRun_sound tidy now same

omit [JsText] in
theorem withExecutionRef_id (job : QueuedJob) : (withExecutionRef job).id = job.id := by
  unfold withExecutionRef
  split <;> rfl

/-- It acts on the queued job only. -/
theorem initializeJob_sound {state : State} (tidy : Tidy state) (now : Millis) (jobId : JobId) :
    Sound (Action.within fun id => QueuedIn state id) state (initializeJob now state jobId) := by
  unfold initializeJob
  split
  · exact .done (.refl _) rfl
  · rename_i row found
    have claimed : Trace (Action.within fun id => QueuedIn state id) state
        (state.updateJobs (initializationClaimable now jobId) (claimInitialization now)) := by
      refine job_trace .claimInitialization jobId rfl fun row _ picked => ?_
      simp only [initializationClaimable, Bool.and_eq_true, decide_eq_true_eq] at picked
      exact ⟨picked.1.1.1, .claimInitialization now picked.1.1.2 picked.1.2⟩
    have same : (withExecutionRef (claimInitialization now row).job).id =
        (claimInitialization now row).job.id := withExecutionRef_id _
    dsimp only
    split
    · split
      · exact .suspended claimed rfl same
      · exact .behind claimed rfl (initializeVariables_sound (claimed.tidy tidy) now same)
    · exact .behind claimed rfl (initializeVariables_sound (claimed.tidy tidy) now same)

theorem completeInitializingJob_trace {ids : JobId → Prop} (state : State) (row : JobRow)
    (conclusion : Conclusion) (summary : String) (now : Millis) :
    Trace (Action.within ids) state
      (state.completeInitializingJob row conclusion summary now) := by
  refine job_trace .completeInitializing row.id rfl fun job _ picked => ?_
  simp only [Bool.and_eq_true, decide_eq_true_eq] at picked
  exact ⟨picked.1.1, .completeInitializing now conclusion summary picked.1.2 picked.2⟩

/-- The three resumptions of an initialization attempt. -/
theorem resumeInit_sound {state : State} (tidy : Tidy state) (now : Millis) {frame : Frame}
    (ok : FrameOk state frame) (reply : Reply)
    (attempt : ∃ claim job, frame = .initMergeSnapshot claim job ∨
      frame = .initVariables claim job ∨ frame = .initCheckRun claim job) :
    Sound (fun action => (action.within fun id => QueuedIn state id) ∨
      ∃ claim, caughtAttempt frame reply = some claim ∧ Exhausts claim action) state
      (resumeFrame now state reply frame) := by
  have caught : ∀ claim error, caughtAttempt frame reply = some claim →
      Sound (fun action => (action.within fun id => QueuedIn state id) ∨
        ∃ claim, caughtAttempt frame reply = some claim ∧ Exhausts claim action) state
        (initializeCatch now state claim error) := by
    intro claim error entered
    refine (initializeCatch_sound (fun id => QueuedIn state id) now state claim error).mono ?_
    exact fun action => Or.imp_right fun exhausts => ⟨claim, entered, exhausts⟩
  obtain ⟨claim, job, rfl | rfl | rfl⟩ := attempt
  · cases reply with
    | mergeSnapshot snapshot =>
        cases snapshot with
        | pending => exact caught claim _ rfl
        | conflicted | changed =>
            exact .mono (.done (scheduleAlarm_trace
              (completeInitializingJob_trace state claim _ _ now) now) rfl) fun _ => .inl
        | ready mergeSha =>
            exact .mono (initializeVariables_sound tidy now ok) fun _ => .inl
    | settled | failed | token | actionsVariables | checkRun | deployment | credential =>
        exact caught claim _ rfl
  · cases reply with
    | actionsVariables values =>
        exact .mono (initializeCheckRun_sound tidy now ok) fun _ => .inl
    | settled | failed | token | mergeSnapshot | checkRun | deployment | credential =>
        exact caught claim _ rfl
  · cases reply with
    | checkRun id => exact .mono (initializeStore_sound tidy now ok) fun _ => .inl
    | settled | failed | token | mergeSnapshot | actionsVariables | deployment | credential =>
        exact caught claim _ rfl

/-! ### Deployments -/

theorem deploymentCatch_sound {ids : JobId → Prop} (now : Millis) (state : State)
    (claim : DeploymentRow) (error : String) :
    Sound (Action.within ids) state (deploymentCatch now state claim error) := by
  unfold deploymentCatch
  dsimp only
  split
  · exact .done (quiet_trace ⟨rfl, rfl, rfl, rfl, rfl, rfl, rfl, rfl⟩ rfl) rfl
  · exact .done (quiet_trace ⟨rfl, rfl, rfl, rfl, rfl, rfl, rfl, rfl⟩ rfl) rfl

theorem syncDeployment_sound {ids : JobId → Prop} (now : Millis) (state : State)
    (key : JobId × String) : Sound (Action.within ids) state (syncDeployment now state key) := by
  unfold syncDeployment
  split
  · exact .done (.refl _) rfl
  · dsimp only
    have claimed : ∀ row : DeploymentRow, Trace (Action.within ids) state
        (state.updateDeployments (deploymentClaimable now key) (claimDeployment now)) :=
      fun _ => quiet_trace ⟨rfl, rfl, rfl, rfl, rfl, rfl, rfl, rfl⟩ rfl
    rename_i row _
    split
    · exact .after (claimed row) rfl (deploymentCatch_sound ..)
    · exact .suspended (claimed row) rfl trivial

theorem storeDeploymentSync_trace {ids : JobId → Prop} (now : Millis) (state : State)
    (claim : DeploymentRow) (id : Nat) :
    Trace (Action.within ids) state (storeDeploymentSync now state claim id) ∧
      (storeDeploymentSync now state claim id).tasks = state.tasks := by
  unfold storeDeploymentSync
  dsimp only
  split
  · exact ⟨quiet_trace ⟨rfl, rfl, rfl, rfl, rfl, rfl, rfl, rfl⟩ rfl, rfl⟩
  · exact ⟨quiet_trace ⟨rfl, rfl, rfl, rfl, rfl, rfl, rfl, rfl⟩ rfl, rfl⟩

theorem resumeDeploymentSync_sound {ids : JobId → Prop} (now : Millis) (state : State)
    (claim : DeploymentRow) (reply : Reply) :
    Sound (Action.within ids) state (resumeDeploymentSync now state claim reply) := by
  unfold resumeDeploymentSync
  split
  · rename_i id
    obtain ⟨trace, tasks⟩ := storeDeploymentSync_trace now state claim id
    exact .done (scheduleAlarm_trace trace now) tasks
  · exact deploymentCatch_sound ..

/-! ### Disconnect and alarm -/

/-- The actions of a disconnect loop over `rows`. -/
def LoopActs (state : State) (socket : SocketId) (rows : List JobRow) (action : Action) : Prop :=
  (action.within fun id => QueuedIn state id ∨ ∃ row ∈ rows, row.id = id) ∨
    ∃ rest, action = .suspendLoop socket rest ∧ rest <:+ rows

theorem LoopActs.later {state requeued : State} {socket : SocketId} {row : JobRow}
    {rest : List JobRow}
    (trace : Trace (Action.within (· = row.id)) state requeued) {action : Action}
    (acts : LoopActs requeued socket rest action) : LoopActs state socket (row :: rest) action := by
  rcases acts with inside | ⟨further, rfl, suffix⟩
  · refine .inl (Action.within_mono ?_ action inside)
    rintro id (queued | ⟨other, member, rfl⟩)
    · rcases trace.queued queued with was | ⟨moving, ok, queues⟩
      · exact .inl was
      · have same := Action.within_queues ok queues
        exact .inr ⟨row, List.mem_cons_self, same.symm⟩
    · exact .inr ⟨other, List.mem_cons_of_mem _ member, rfl⟩
  · exact .inr ⟨further, rfl, suffix.trans (List.suffix_cons row rest)⟩

/-- It takes back the rows that it was started with. -/
theorem disconnectLoop_sound (now : Millis) (socket : SocketId) (rows : List JobRow)
    {state : State} (tidy : Tidy state) :
    Sound (LoopActs state socket rows) state (disconnectLoop now socket state rows) := by
  induction rows generalizing state with
  | nil =>
      refine .await (.mono (dispatchIteration_sound tidy now) fun action inside => .inl ?_) trivial
      exact Action.within_mono (fun _ => .inl) action inside
  | cons row rest inductionHypothesis =>
      have own : ∀ {requeued : State}, Trace (Action.within (· = row.id)) state requeued →
          Trace (LoopActs state socket (row :: rest)) state requeued := by
        refine fun trace => trace.mono fun action inside => .inl ?_
        refine Action.within_mono ?_ action inside
        rintro id rfl
        exact .inr ⟨row, List.mem_cons_self, rfl⟩
      unfold disconnectLoop
      split
      · exact .threw (.refl _) rfl
      · rename_i requeued taken
        obtain ⟨trace, tasks⟩ := requeue_trace tidy taken
        exact .after (own trace) tasks
          ((inductionHypothesis (trace.tidy tidy)).mono fun _ => .later trace)
      · rename_i requeued terminal taken
        obtain ⟨trace, tasks⟩ := requeue_trace tidy taken
        have synced : Sound (LoopActs state socket (row :: rest)) requeued
            (syncCheck requeued terminal) := (syncCheck_sound requeued terminal).mono fun _ => .inl
        exact .after (own trace) tasks
          (synced.await (.inr ⟨rest, rfl, List.suffix_cons row rest⟩))

theorem alarmDeploymentLoop_sound {state : State} (tidy : Tidy state) (now dueAt : Millis)
    (keys : List (JobId × String)) :
    Sound (Action.within fun id => QueuedIn state id) state
      (alarmDeploymentLoop now dueAt state keys) := by
  cases keys with
  | nil =>
      have pruned : Trace (Action.within fun id => QueuedIn state id) state
          (state.prune dueAt) := .one (.prune dueAt) trivial
      exact .await (.behind pruned rfl (dispatchIteration_sound (pruned.tidy tidy) now)) trivial
  | cons key rest => exact (syncDeployment_sound now state key).await trivial

theorem alarmCheckLoop_sound {state : State} (tidy : Tidy state) (now dueAt : Millis)
    (rows : List JobRow) :
    Sound (Action.within fun id => QueuedIn state id) state
      (alarmCheckLoop now dueAt state rows) := by
  cases rows with
  | nil => exact alarmDeploymentLoop_sound tidy now dueAt _
  | cons row rest => exact (syncCheck_sound state row).await trivial

/-- Row `jobId` is active and its lease has run out. -/
def LeaseExpired (state : State) (now : Millis) (jobId : JobId) : Prop :=
  ∃ row ∈ state.jobs, row.id = jobId ∧ leaseExpired now row = true

theorem cancelOnAgent_trace {ids : JobId → Prop} (state : State) (row : JobRow)
    (reason : String) :
    Trace (Action.within ids) state (state.cancelOnAgent row reason) := by
  have sends : ∀ (sockets : List Socket) (start : State),
      Trace (Action.within ids) start
        { start with
          outbox := start.outbox ++ sockets.map fun socket =>
            (socket.id, .cancelJob row.id reason) } := by
    intro sockets
    induction sockets with
    | nil => exact fun start => by simpa using Trace.refl start
    | cons socket rest inductionHypothesis =>
        intro start
        have first : Trace (Action.within ids) start
            { start with outbox := start.outbox ++ [(socket.id, .cancelJob row.id reason)] } :=
          .one (.send socket.id _ fun spec assignment wrong => nomatch wrong) trivial
        simpa using first.trans (inductionHypothesis _)
  unfold State.cancelOnAgent
  split
  · exact .refl _
  · exact sends _ state

theorem expireLease_trace {state : State} (tidy : Tidy state) (now : Millis) (row : JobRow) :
    Trace (Action.within (· = row.id)) state (expireLease now state row) ∧
      (expireLease now state row).tasks = state.tasks := by
  have cancelled : Trace (Action.within (· = row.id)) state
      (state.cancelOnAgent row "agent lease expired") := cancelOnAgent_trace ..
  have tasks : (state.cancelOnAgent row "agent lease expired").tasks = state.tasks := by
    unfold State.cancelOnAgent
    split <;> rfl
  unfold expireLease
  dsimp only
  cases taken : (state.cancelOnAgent row "agent lease expired").requeue row.id
      "agent lease expired" now with
  | none => exact ⟨cancelled, tasks⟩
  | some result =>
      obtain ⟨requeued, kept⟩ := requeue_trace (cancelled.tidy tidy) taken
      exact ⟨cancelled.trans requeued, kept.trans tasks⟩

/-- A loop over rows whose turns each concern only their own row.  `Inv` speaks of
the state and of the rows still to come. -/
theorem foldl_trace {turn : State → JobRow → State} (Inv : State → List JobRow → Prop)
    (one : ∀ state row rest, Inv state (row :: rest) →
      Trace (Action.within (· = row.id)) state (turn state row) ∧
        (turn state row).tasks = state.tasks ∧ Inv (turn state row) rest)
    (rows : List JobRow) (state : State) (holds : Inv state rows) :
    Trace (Action.within fun id => ∃ row ∈ rows, row.id = id) state (rows.foldl turn state) ∧
      (rows.foldl turn state).tasks = state.tasks := by
  induction rows generalizing state with
  | nil => exact ⟨.refl _, rfl⟩
  | cons row rest inductionHypothesis =>
      obtain ⟨first, tasks, next⟩ := one state row rest holds
      obtain ⟨further, restTasks⟩ := inductionHypothesis _ next
      refine ⟨.trans (first.mono (Action.within_mono ?_))
        (further.mono (Action.within_mono ?_)), restTasks.trans tasks⟩
      · rintro id rfl
        exact ⟨row, List.mem_cons_self, rfl⟩
      · rintro id ⟨other, member, rfl⟩
        exact ⟨other, List.mem_cons_of_mem _ member, rfl⟩

/-- The rows that the queue-deadline loop has still to visit are queued. -/
structure StillQueued (state : State) (rows : List JobRow) : Prop where
  distinct : (rows.map JobRow.id).Nodup
  queued : ∀ row ∈ rows, ∀ job ∈ state.jobs, job.id = row.id → job.status = .queued

theorem expireQueued_trace (now : Millis) (state : State) (row : JobRow) (rest : List JobRow)
    (still : StillQueued state (row :: rest)) :
    Trace (Action.within (· = row.id)) state (expireQueued now state row) ∧
      (expireQueued now state row).tasks = state.tasks ∧
      StillQueued (expireQueued now state row) rest := by
  have queued := still.queued row List.mem_cons_self
  refine ⟨completeInfrastructureJob_trace .queueExpired _ _ _ rfl trivial (fun _ => queued)
    (fun wrong => nomatch wrong), rfl, ?_⟩
  have distinct := still.distinct
  rw [List.map_cons, List.nodup_cons] at distinct
  refine ⟨distinct.2, ?_⟩
  intro other member job present same
  obtain ⟨old, found, rfl⟩ := mem_update.mp present
  split at same
  · rename_i picked
    simp only [Bool.and_eq_true, decide_eq_true_eq] at picked
    have listed : row.id ∈ rest.map JobRow.id :=
      List.mem_map.mpr ⟨other, member, same.symm.trans picked.1⟩
    exact absurd listed distinct.1
  · rename_i spared
    rw [if_neg spared]
    exact still.queued other (List.mem_cons_of_mem _ member) old found same

omit [JsText] in
theorem stillQueued_filter {state : State} (tidy : Tidy state) (now : Millis) :
    StillQueued state
      (state.jobs.filter fun row => row.status = .queued && row.queueExpiresAt ≤ now) := by
  refine ⟨tidy.distinct.sublist (List.filter_sublist.map _), ?_⟩
  intro row member job present same
  obtain ⟨found, picked⟩ := List.mem_filter.mp member
  simp only [Bool.and_eq_true, decide_eq_true_eq] at picked
  rw [tidy.eq_of_id present found same]
  exact picked.1

/-- `alarm` after its lease loop touches only queued jobs. -/
theorem alarmTimeout_sound {state : State} (tidy : Tidy state) (now : Millis) :
    let timedOut :=
      (state.jobs.filter fun row => row.status = .queued && row.queueExpiresAt ≤ now).foldl
        (expireQueued now) state
    Sound (Action.within fun id => QueuedIn state id) state
      (alarmCheckLoop now now timedOut (unsyncedChecks timedOut)) := by
  dsimp only
  obtain ⟨timeout, tasks⟩ := foldl_trace StillQueued (expireQueued_trace now) _ _
    (stillQueued_filter tidy now)
  refine (Sound.dispatch_within timeout tasks
    (alarmCheckLoop_sound (timeout.tidy tidy) now now _)).widen ?_
  rintro id (queued | ⟨row, member, rfl⟩)
  · exact queued
  · obtain ⟨found, picked⟩ := List.mem_filter.mp member
    simp only [Bool.and_eq_true, decide_eq_true_eq] at picked
    exact ⟨row, found, rfl, picked.1⟩

theorem alarmExpire_sound {state : State} (tidy : Tidy state) (now : Millis) :
    Sound (Action.within fun id => QueuedIn state id ∨ LeaseExpired state now id) state
      (alarmExpire now state) := by
  obtain ⟨expiry, tasks⟩ := foldl_trace (fun current _ => Tidy current)
    (fun current row _ holds =>
      have ⟨trace, tasks⟩ := expireLease_trace holds now row
      ⟨trace, tasks, trace.tidy holds⟩)
    (state.jobs.filter (leaseExpired now)) state tidy
  refine (Sound.dispatch_within expiry tasks (alarmTimeout_sound (expiry.tidy tidy) now)).widen ?_
  rintro id (queued | ⟨row, member, rfl⟩)
  · exact .inl queued
  · obtain ⟨found, expired⟩ := List.mem_filter.mp member
    exact .inr ⟨row, found, rfl, expired⟩

theorem alarmInitLoop_sound {state : State} (tidy : Tidy state) (now : Millis)
    (ids : List JobId) :
    Sound (Action.within fun id => QueuedIn state id ∨ (ids = [] ∧ LeaseExpired state now id))
      state (alarmInitLoop now state ids) := by
  cases ids with
  | nil =>
      exact (alarmExpire_sound tidy now).widen fun id => Or.imp_right fun expired => ⟨rfl, expired⟩
  | cons jobId rest =>
      exact ((initializeJob_sound tidy now jobId).widen fun _ => .inl).await trivial

/-- The alarm acts on queued jobs, and on those whose lease has expired. -/
theorem alarm_sound {state : State} (tidy : Tidy state) (now : Millis) :
    Sound (Action.within fun id => QueuedIn state id ∨
      (initializationDue state now = [] ∧ LeaseExpired state now id)) state (alarm now state) := by
  have cleared : Trace (Action.within fun id => QueuedIn state id ∨
      (initializationDue state now = [] ∧ LeaseExpired state now id)) state
      { state with alarm := none } := quiet_trace ⟨rfl, rfl, rfl, rfl, rfl, rfl, rfl, rfl⟩ rfl
  exact .after cleared rfl (alarmInitLoop_sound (cleared.tidy tidy) now _)

/-! ### Agent messages -/

/-- A rejection is accepted before the job has started and for requirements that
the agent's hello does not satisfy. -/
def RejectionAccepted (state : State) (socket : SocketId) (row : JobRow)
    (requirements : List RunnerRequirement) : Prop :=
  row.status = .assigned ∧ ∃ hello, (state.socket? socket).bind (·.hello) = some hello ∧
    agentSatisfiesRequirements hello requirements = false

/-- The actions that only an agent's message causes, with the check of ownership
they come after. -/
inductive Sent (state : State) (socket : SocketId) (agent : AgentId) :
    AgentMessage → Action → Prop where
  | start {messageId : MessageId} {jobId : JobId} {row : JobRow}
      (owned : state.assignedJob jobId agent = some row) (assigned : row.status = .assigned) :
      Sent state socket agent (.jobStarted messageId jobId) (.job (.start agent) jobId)
  | reject {messageId : MessageId} {jobId : JobId} {requirements : List RunnerRequirement}
      {reason : String} {row : JobRow} (owned : state.assignedJob jobId agent = some row)
      (accepted : RejectionAccepted state socket row requirements) :
      Sent state socket agent (.jobRejected messageId jobId requirements reason)
        (.job (.reject agent) jobId)
  | finish {messageId : MessageId} {jobId : JobId} {conclusion : Conclusion} {summary : String}
      {row : JobRow} (owned : state.assignedJob jobId agent = some row)
      (unfinished : row.status ≠ .completed) :
      Sent state socket agent (.jobFinished messageId jobId conclusion summary)
        (.job (.finish agent) jobId)
  | releaseRun {messageId : MessageId} {jobId : JobId} {conclusion : Conclusion}
      {summary : String} {row : JobRow} (owned : state.assignedJob jobId agent = some row)
      (unfinished : row.status ≠ .completed) :
      Sent state socket agent (.jobFinished messageId jobId conclusion summary)
        (.releaseRun jobId)
  | acquire {messageId : MessageId} {jobId : JobId} {requestId : RequestId}
      {unitId group : String} {cancelInProgress : Bool} {queue : QueueMode} {row : JobRow}
      (owned : state.assignedJob jobId agent = some row)
      (legal : ¬ (queue = .max ∧ cancelInProgress = true))
      (admitted : state.Admitted row requestId group queue) :
      Sent state socket agent
        (.concurrencyAcquire messageId jobId requestId unitId group cancelInProgress queue)
        (.acquire requestId jobId agent)
  | release {messageId : MessageId} {jobId : JobId} {requestId : RequestId} :
      Sent state socket agent (.concurrencyRelease messageId jobId requestId)
        (.release requestId jobId agent)

omit [JsText] in
theorem assignedJob_spec {state : State} {jobId : JobId} {agent : AgentId} {row : JobRow}
    (owned : state.assignedJob jobId agent = some row) :
    state.jobRow? jobId = some row ∧ row.agentId = some agent ∧
      (row.active = true ∨ row.status = .completed) := by
  obtain ⟨lookup, picked⟩ := Option.filter_eq_some_iff.mp owned
  simp only [Bool.and_eq_true, Bool.or_eq_true, decide_eq_true_eq] at picked
  refine ⟨lookup, picked.1, ?_⟩
  simpa [JobRow.active] using picked.2

/-- The actions open to a message handler: its own, and the dispatch behind them. -/
def HandlerActs (state : State) (own : Action → Prop) (action : Action) : Prop :=
  own action ∨ action.within fun id =>
    QueuedIn state id ∨ ∃ queueing, own queueing ∧ queueing.queues id

omit [JsText] in
theorem HandlerActs.of_within {state : State} {own : Action → Prop} {action : Action}
    (inside : action.within fun id => QueuedIn state id) : HandlerActs state own action :=
  .inr (Action.within_mono (fun _ => .inl) action inside)

omit [JsText] in
theorem HandlerActs.routine {state : State} {own : Action → Prop} {action : Action}
    (inside : action.within fun _ => False) : HandlerActs state own action :=
  .of_within (Action.within_mono (fun _ => False.elim) action inside)

/-- The dispatch at the end of a handler. -/
theorem Sound.handler {state middle : State} {own : Action → Prop} {segment : Segment}
    (front : Trace (HandlerActs state own) state middle) (tasks : middle.tasks = state.tasks)
    (sound : Sound (Action.within fun id => QueuedIn middle id) middle segment) :
    Sound (HandlerActs state own) state segment := by
  refine (Sound.dispatch front tasks sound).mono ?_
  rintro action (acts | inside)
  · exact acts
  · refine .inr (Action.within_mono (fun id => ?_) action inside)
    rintro (queued | ⟨queueing, acts, queues⟩)
    · exact .inl queued
    · rcases acts with mine | routine
      · exact .inr ⟨queueing, mine, queues⟩
      · exact Action.within_queues routine queues

theorem renewLeases_trace (now : Millis) (socket : SocketId) (agentId : AgentId)
    (jobIds : List JobId) (state : State) :
    Trace (Action.within fun _ => False) state (renewLeases now socket agentId state jobIds).1 ∧
      (renewLeases now socket agentId state jobIds).1.tasks = state.tasks := by
  induction jobIds generalizing state with
  | nil => exact ⟨.refl _, rfl⟩
  | cons jobId rest inductionHypothesis =>
      unfold renewLeases
      dsimp only
      split
      · obtain ⟨further, tasks⟩ := inductionHypothesis
          (state.updateJobs (fun row => row.id = jobId && row.agentId = some agentId && row.active)
            fun row => { row with leaseExpiresAt := some (now + leaseMilliseconds) })
        refine ⟨.trans (job_trace (.renew agentId) jobId rfl fun row _ picked => ?_) further, tasks⟩
        simp only [Bool.and_eq_true, decide_eq_true_eq] at picked
        exact ⟨picked.1.1, .renew _ picked.1.2 picked.2⟩
      · split
        · exact ⟨.refl _, rfl⟩
        · rename_i sent delivered
          obtain ⟨first, kept⟩ := send_trace delivered fun spec assignment wrong => nomatch wrong
          obtain ⟨further, tasks⟩ := inductionHypothesis sent
          exact ⟨first.trans further, tasks.trans kept⟩

theorem heartbeat_sound (now : Millis) (state : State) (socket : SocketId) (agentId : AgentId)
    (runningJobIds : List JobId) :
    Sound (Action.within fun _ => False) state
      (heartbeat now state socket agentId runningJobIds) := by
  unfold heartbeat
  dsimp only
  obtain ⟨renewal, tasks⟩ := renewLeases_trace now socket agentId runningJobIds.eraseDups state
  split
  · rename_i renewed outcome
    rw [outcome] at renewal tasks
    exact .threw renewal tasks
  · rename_i renewed outcome
    rw [outcome] at renewal tasks
    have drained : Trace (Action.within fun _ => False) renewed
        (renewed.updateSocket socket fun entry =>
          { entry with
            drainingJobIds := entry.drainingJobIds.filter (runningJobIds.eraseDups.contains ·) }) :=
      .one (.sockets socket _ fun _ => ⟨rfl, rfl, rfl, rfl⟩) trivial
    exact .suspended (scheduleAlarm_trace (renewal.trans drained) now) tasks trivial

theorem jobStarted_sound (now : Millis) (state : State) (socket : SocketId) (agentId : AgentId)
    (messageId : MessageId) (jobId : JobId) :
    Sound (HandlerActs state (Sent state socket agentId (.jobStarted messageId jobId))) state
      (jobStarted now state agentId jobId) := by
  unfold jobStarted
  split
  · exact .threw (.refl _) rfl
  · rename_i row owned
    have rowId := jobRow?_id (assignedJob_spec owned).1
    split
    · rename_i assigned
      dsimp only
      have started : Trace (HandlerActs state
          (Sent state socket agentId (.jobStarted messageId jobId))) state
          (state.updateJobs
            (fun job => job.id = row.id && job.agentId = some agentId && job.status = .assigned)
            fun job =>
              { job with
                status := .running
                startedAt := some now
                leaseExpiresAt := some (now + leaseMilliseconds)
                checkSyncNeeded := true }) := by
        refine .one (.job (.start agentId) jobId _ _ ?_ (fun wrong => nomatch wrong)
          fun wrong => nomatch wrong) (.inl (.start owned assigned))
        intro job _ picked
        simp only [Bool.and_eq_true, decide_eq_true_eq] at picked
        exact ⟨picked.1.1.trans rowId, .start now picked.1.2 picked.2⟩
      split
      · exact .threw started rfl
      · exact .after started rfl ((syncCheck_sound _ _).mono fun _ => .routine)
    · exact .done (.refl _) rfl

theorem rejectJob_trace {allowed : Action → Prop} (state : State) (agentId : AgentId)
    (jobId : JobId) (requirements : List RunnerRequirement) (reason : String)
    (count : allowed .countRequeue) (ok : allowed (.job (.reject agentId) jobId)) :
    Trace allowed state (rejectJob state agentId jobId requirements reason) := by
  refine .trans (.one .countRequeue count) (.one (.job (.reject agentId) jobId _ _ ?_
    (fun wrong => nomatch wrong) fun _ => Nat.succ_pos _) ok)
  intro job _ picked
  simp only [Bool.and_eq_true, decide_eq_true_eq] at picked
  exact ⟨picked.1.1, .reject requirements reason picked.1.2 picked.2⟩

theorem jobRejected_sound {state : State} (tidy : Tidy state) (now : Millis) (socket : SocketId)
    (agentId : AgentId) (messageId : MessageId) (jobId : JobId)
    (requirements : List RunnerRequirement) (reason : String) :
    Sound (HandlerActs state
      (Sent state socket agentId (.jobRejected messageId jobId requirements reason))) state
      (jobRejected now state socket agentId jobId requirements reason) := by
  unfold jobRejected
  split
  · exact .threw (.refl _) rfl
  · rename_i row owned
    have rowId := jobRow?_id (assignedJob_spec owned).1
    dsimp only
    split
    · exact (sendLast_sound state socket (by simp)).mono fun _ => .routine
    · rename_i accepted
      have valid : RejectionAccepted state socket row requirements := by
        simp only [not_or, not_not, Option.isNone_iff_eq_none] at accepted
        obtain ⟨assigned, known, unsatisfied⟩ := accepted
        obtain ⟨hello, found⟩ := Option.ne_none_iff_exists'.mp known
        rw [found] at unsatisfied
        exact ⟨assigned, hello, found, by simpa using unsatisfied⟩
      have rejected : Trace (HandlerActs state
          (Sent state socket agentId (.jobRejected messageId jobId requirements reason))) state
          (rejectJob (state.updateSocket socket fun entry =>
            { entry with drainingJobIds := (entry.drainingJobIds ++ [row.id]).eraseDups })
            agentId row.id (normalizeRunnerRequirements requirements) reason) := by
        have draining : Acts .sockets state (state.updateSocket socket fun entry =>
            { entry with drainingJobIds := (entry.drainingJobIds ++ [row.id]).eraseDups }) :=
          .sockets socket _ fun _ => ⟨rfl, rfl, rfl, rfl⟩
        refine .trans (.one draining (.routine trivial))
          (rejectJob_trace _ _ _ _ _ (.routine trivial) (.inl ?_))
        rw [rowId]
        exact .reject owned valid
      exact .await (.handler rejected rfl (dispatchIteration_sound (rejected.tidy tidy) now))
        trivial

theorem concurrencyAcquire_sound (now : Millis) (state : State) (socket : SocketId)
    (agentId : AgentId) (messageId : MessageId) (jobId : JobId) (requestId : RequestId)
    (unitId group : String) (cancelInProgress : Bool) (queue : QueueMode) :
    Sound (HandlerActs state (Sent state socket agentId
      (.concurrencyAcquire messageId jobId requestId unitId group cancelInProgress queue))) state
      (concurrencyAcquire now state socket agentId jobId requestId unitId group cancelInProgress
        queue) := by
  unfold concurrencyAcquire
  split
  · exact .threw (.refl _) rfl
  · rename_i row owned
    have rowId := jobRow?_id (assignedJob_spec owned).1
    split
    · exact (sendLast_sound state socket (by simp)).mono fun _ => .routine
    · rename_i legal
      by_cases admitted : state.Admitted row requestId group queue
      · have frame := state.acquireConcurrency_frame socket agentId row requestId unitId group
          cancelInProgress queue now
        refine .done (.one (.acquire socket agentId row requestId unitId group cancelInProgress
          queue now (by rw [rowId]; exact owned)) (.inl ?_)) frame.tasks
        rw [rowId]
        exact .acquire owned legal admitted
      · rcases State.acquireConcurrency_unadmitted admitted socket agentId unitId cancelInProgress
          now with same | ⟨message, plain, same⟩
        · rw [same]
          exact .done (.refl _) rfl
        · rw [same]
          exact (sendLast_sound state socket plain).mono fun _ => .routine

theorem credentialRequest_sound (state : State) (socket : SocketId) (agentId : AgentId)
    (kind : CredentialKind) (jobId : JobId) (requestId : RequestId) :
    Sound (Action.within fun _ => False) state
      (credentialRequest state socket agentId kind jobId requestId) := by
  unfold credentialRequest
  split
  · exact .threw (.refl _) rfl
  · split
    · exact sendLast_sound state socket (by simp)
    · split
      · exact sendLast_sound state socket (by simp)
      · exact .suspended (.refl _) rfl trivial

theorem resumeCredential_sound (state : State) (kind : CredentialKind) (jobId : JobId)
    (requestId : RequestId) (agentId : AgentId) (socket : SocketId) (reply : Reply) :
    Sound (Action.within fun _ => False) state
      (resumeCredential state kind jobId requestId agentId socket reply) := by
  unfold resumeCredential
  split
  · split
    · exact sendLast_sound state socket (by simp)
    · exact .done (.refl _) rfl
  · exact sendLast_sound state socket (by simp)

omit [JsText] in
/-- What `FrameNew` speaks of. -/
theorem FrameNew.congr {allowed : Action → Prop} {before after : State} {frame : Frame}
    (jobs : after.jobs = before.jobs) (assignments : after.assignments = before.assignments)
    (new : FrameNew allowed before frame) : FrameNew allowed after frame := by
  cases frame with
  | dispatchToken => simpa [FrameNew, Holds, Latest, jobs, assignments] using new
  | _ => exact new

omit [JsText] in
theorem spawn_core (segment : Segment) :
    SameCore segment.1 (spawn segment) ∧ (spawn segment).sockets = segment.1.sockets := by
  obtain ⟨state, outcome⟩ := segment
  cases outcome <;> exact ⟨⟨rfl, rfl, rfl, rfl, rfl, rfl, rfl, rfl⟩, rfl⟩

omit [JsText] in
theorem mem_spawn_tasks {segment : Segment} {task : List Frame} :
    task ∈ (spawn segment).tasks ↔ task ∈ segment.1.tasks ∨ segment.2 = .suspended task := by
  obtain ⟨state, outcome⟩ := segment
  cases outcome with
  | done | threw => simp [spawn]
  | suspended frames => simp [spawn, eq_comm]

/-- A segment run as a task of its own. -/
theorem Sound.spawn {allowed : Action → Prop} {before : State} {segment : Segment}
    (sound : Sound allowed before segment) (quiet : allowed .quiet) :
    Trace allowed before (ControlPlane.spawn segment) ∧
      (∀ task ∈ (ControlPlane.spawn segment).tasks, task ∈ before.tasks ∨
        ∀ frame ∈ task, FrameNew allowed (ControlPlane.spawn segment) frame) ∧
      ∀ task ∈ before.tasks, task ∈ (ControlPlane.spawn segment).tasks := by
  obtain ⟨core, sockets⟩ := spawn_core segment
  refine ⟨sound.trace.trans (.one (.quiet core sockets) quiet), fun task member => ?_,
    fun task member => mem_spawn_tasks.mpr (.inl (sound.kept task member))⟩
  have new : ∀ frame, FrameNew allowed segment.1 frame →
      FrameNew allowed (ControlPlane.spawn segment) frame :=
    fun frame => FrameNew.congr core.jobs core.assignments
  rcases mem_spawn_tasks.mp member with kept | started
  · exact (sound.started task kept).imp_right fun fresh frame inside =>
      new frame (fresh frame inside)
  · exact .inr fun frame inside => new frame (sound.frames task started frame inside)

/-- `publishDeployment` after a change of the deployments table. -/
theorem publishDeployment_sound (state : State) (deployments : List DeploymentRow)
    (now : Millis) (existing : Option DeploymentRow) (key : JobId × String) :
    Sound (Action.within fun _ => False) state
      (publishDeployment now { state with deployments := deployments } existing key) := by
  have changed : Trace (Action.within fun _ => False) state
      { state with deployments := deployments } :=
        quiet_trace ⟨rfl, rfl, rfl, rfl, rfl, rfl, rfl, rfl⟩ rfl
  refine .after changed rfl ?_
  unfold publishDeployment
  dsimp only
  split
  · exact .done (quiet_trace (scheduleAlarm_core _ now) rfl) rfl
  · obtain ⟨trace, started, kept⟩ := (syncDeployment_sound now
      { state with deployments := deployments } key).spawn trivial
    exact ⟨scheduleAlarm_trace trace now, fun _ wrong => (nomatch wrong), started, kept,
      fun wrong => nomatch wrong⟩

omit [JsText] in
theorem deploymentRefusal_plain {row : JobRow} {refusal : ServerMessage}
    (refused : deploymentRefusal row = some refusal) :
    ∀ spec assignment, refusal ≠ .runJob spec assignment := by
  rintro spec assignment rfl
  unfold deploymentRefusal at refused
  split at refused
  · cases refused
  · split at refused <;> cases refused

theorem deploymentStarted_sound (now : Millis) (state : State) (socket : SocketId)
    (agentId : AgentId) (jobId : JobId) (unitId environment : String) :
    Sound (Action.within fun _ => False) state
      (deploymentStarted now state socket agentId jobId unitId environment) := by
  unfold deploymentStarted
  split
  · exact .threw (.refl _) rfl
  · split
    · rename_i refusal refused
      exact sendLast_sound state socket (deploymentRefusal_plain refused)
    · split
      · exact publishDeployment_sound state _ now _ _
      · split
        · exact sendLast_sound state socket (by simp)
        · dsimp only
          split
          · exact publishDeployment_sound state _ now _ _
          · exact publishDeployment_sound state _ now _ _

theorem deploymentFinished_sound (now : Millis) (state : State) (socket : SocketId)
    (agentId : AgentId) (jobId : JobId) (unitId : String) (conclusion : Conclusion)
    (environmentUrl : Option String) :
    Sound (Action.within fun _ => False) state
      (deploymentFinished now state socket agentId jobId unitId conclusion environmentUrl) := by
  unfold deploymentFinished
  split
  · exact .threw (.refl _) rfl
  · split
    · rename_i refusal refused
      exact sendLast_sound state socket (deploymentRefusal_plain refused)
    · split
      · exact sendLast_sound state socket (by simp)
      · dsimp only
        split
        · exact publishDeployment_sound state _ now _ _
        · exact publishDeployment_sound state _ now _ _

theorem jobFinished_sound (now : Millis) (state : State) (socket : SocketId)
    (agentId : AgentId) (messageId : MessageId) (jobId : JobId) (conclusion : Conclusion)
    (summary : String) :
    Sound (HandlerActs state (Sent state socket agentId
      (.jobFinished messageId jobId conclusion summary))) state
      (jobFinished now state agentId jobId conclusion summary) := by
  unfold jobFinished
  split
  · exact .threw (.refl _) rfl
  · rename_i row owned
    have rowId := jobRow?_id (assignedJob_spec owned).1
    split
    · exact .done (.refl _) rfl
    · rename_i unfinished
      dsimp only
      have released : Acts (.releaseRun row.id) state
          (state.releaseConcurrencyForRun row.id "The parent GitZero run completed.") :=
        .releaseRun row.id _
      have frame := state.releaseConcurrencyForRun_frame row.id "The parent GitZero run completed."
      have unheld := state.releaseConcurrencyForRun_unheld row.id
        "The parent GitZero run completed."
      have finished : Trace (HandlerActs state (Sent state socket agentId
          (.jobFinished messageId jobId conclusion summary))) state
          (((state.releaseConcurrencyForRun row.id
            "The parent GitZero run completed.").updateJobs
              (fun job => job.id = jobId && job.agentId = some agentId && job.active)
              fun job =>
                { job with
                  status := .completed
                  completedAt := some now
                  conclusion := some conclusion
                  summary := some summary
                  leaseExpiresAt := none
                  checkSyncNeeded := true }).finishOutstandingDeployments jobId now) := by
        refine .trans (.one released (.inl ?_))
          (.trans (.one (.job (.finish agentId) jobId _ _ ?_ (fun _ => rowId ▸ unheld)
            fun wrong => nomatch wrong) (.inl (.finish owned unfinished)))
            (.one (.quiet (finishOutstandingDeployments_core _ jobId now) rfl)
              (.routine trivial)))
        · rw [rowId]
          exact .releaseRun owned unfinished
        · intro job _ picked
          simp only [Bool.and_eq_true, decide_eq_true_eq] at picked
          exact ⟨picked.1.1, .finish now conclusion summary picked.1.2 picked.2⟩
      split
      · exact .threw finished frame.tasks
      · exact .after finished frame.tasks
          (((syncCheck_sound _ _).mono fun _ => .routine).await trivial)

/-- A message acts on jobs of the agent that sent it. -/
theorem handleAgentEvent_sound {state : State} (tidy : Tidy state) (now : Millis)
    (socket : SocketId) (agentId : AgentId) (message : AgentMessage) :
    Sound (HandlerActs state (Sent state socket agentId message)) state
      (handleAgentEvent now state socket agentId message) := by
  cases message with
  | hello => exact .done (.refl _) rfl
  | heartbeat => exact (heartbeat_sound ..).mono fun _ => .routine
  | jobStarted => exact jobStarted_sound ..
  | jobRejected => exact jobRejected_sound tidy ..
  | concurrencyAcquire => exact concurrencyAcquire_sound ..
  | concurrencyRelease messageId jobId requestId =>
      exact .done (.one (.release requestId jobId agentId) (.inl .release))
        (state.releaseConcurrency_frame requestId jobId agentId).tasks
  | credentialRequest => exact (credentialRequest_sound ..).mono fun _ => .routine
  | deploymentStarted => exact (deploymentStarted_sound ..).mono fun _ => .routine
  | deploymentFinished => exact (deploymentFinished_sound ..).mono fun _ => .routine
  | progress messageId jobId =>
      unfold handleAgentEvent progress
      dsimp only
      split
      · exact .threw (.refl _) rfl
      · exact .done (.refl _) rfl
  | jobFinished => exact jobFinished_sound ..

end Text

end GitZero.ControlPlane
