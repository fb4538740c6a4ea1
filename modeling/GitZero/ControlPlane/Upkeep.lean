/-
Module: GitZero.ControlPlane.Upkeep
Purpose: What the handlers write to the jobs and deployments tables and what an
  initialization attempt carries between its awaits, as one induction rule for
  invariants of the two tables.
Trusted boundary: none
Main exports: Ordinary, Prepared, DeploymentChange, Upkeep, Upkeep.Steady,
  Upkeep.step, Upkeep.run
-/
import GitZero.ControlPlane.Events

namespace GitZero.ControlPlane

open Table

/-- A write to a row that neither touches its job nor ends its initialization, and that completes
it only while it is being initialized. -/
structure Ordinary (old new : JobRow) : Prop where
  id : new.id = old.id
  job : new.job = old.job
  stays : old.initializationNeeded = .ready → new.initializationNeeded = .ready
  initialized : new.status ≠ .completed → new.initializationNeeded = .ready →
    old.initializationNeeded = .ready
  completes : new.status = .completed → old.status = .completed ∨ old.initializationNeeded ≠ .ready
  closed : old.status = .completed → new.status = .completed
  activates : new.active = true → old.active = true ∨ new.initializationNeeded = .ready

/-- What an initialization attempt makes of the job that it claimed. -/
inductive Prepared (Answers : QueuedJob → Reply → Prop) (original : QueuedJob) :
    QueuedJob → Prop where
  | merged (known : original.pullRequest.mergeSha ≠ none) :
      Prepared Answers original (withExecutionRef original)
  | head (anonymous : original.requiresGithubToken = false) :
      Prepared Answers original
        (withMergeSha (withExecutionRef original) (withExecutionRef original).pullRequest.headSha)
  | snapshot (mergeSha : String)
      (answered : Answers (withExecutionRef original) (.mergeSnapshot (.ready mergeSha))) :
      Prepared Answers original (withMergeSha (withExecutionRef original) mergeSha)
  | actionsVariables {job : QueuedJob} (values : List (String × String))
      (prepared : Prepared Answers original job)
      (answered : Answers job (.actionsVariables values)) :
      Prepared Answers original { job with actionsVariables := values }
  | checkRun {job : QueuedJob} (id : Nat) (prepared : Prepared Answers original job)
      (answered : Answers job (.checkRun id)) :
      Prepared Answers original { job with checkRunId := some id }

/-- The row that `deployment_started` inserts. -/
def startedDeployment (jobId : JobId) (unitId environment : String) (now : Millis) :
    DeploymentRow :=
  { jobId := jobId
    unitId := unitId
    environment := environment
    desiredState := .inProgress
    environmentUrl := none
    githubDeploymentId := none
    syncedState := none
    syncedEnvironmentUrl := none
    syncNeeded := .pending
    syncAttemptCount := 0
    syncRetryAt := some now
    lastError := none
    createdAt := now
    updatedAt := now }

/-- The statements on the deployments table, with what is known where they run. -/
inductive DeploymentChange (state : State) : List DeploymentRow → Prop where
  | started (row : JobRow) (member : row ∈ state.jobs) (active : row.active = true)
      (unitId environment : String) (now : Millis) :
      DeploymentChange state
        (state.deployments ++ [startedDeployment row.job.id unitId environment now])
  | desired (row : JobRow) (member : row ∈ state.jobs) (active : row.active = true)
      (unitId : String) (desired : DeploymentState) (url : Option String) (now : Millis) :
      DeploymentChange state
        (update state.deployments (fun entry => entry.jobId = row.job.id && entry.unitId = unitId)
          (State.desireDeployment desired url now))
  | claimed (now : Millis) (key : JobId × String) :
      DeploymentChange state
        (update state.deployments (deploymentClaimable now key) (claimDeployment now))
  | failed (claim : DeploymentRow) (retryAt : Millis) (error : String) :
      DeploymentChange state
        (update state.deployments
          (fun row => row.jobId = claim.jobId && row.unitId = claim.unitId &&
            row.syncNeeded = SyncNeeded.running)
          fun row =>
            { row with
              syncNeeded := .pending
              syncRetryAt := some retryAt
              lastError := some error })
  | identified (claim : DeploymentRow) (id : Nat) :
      DeploymentChange state
        (update state.deployments
          (fun row => (row.jobId = claim.jobId && row.unitId = claim.unitId : Bool) &&
            row.githubDeploymentId.isNone)
          fun row => { row with githubDeploymentId := some id })
  | synced (claim : DeploymentRow) (now : Millis) :
      DeploymentChange state
        (update state.deployments
          (fun row => (row.jobId = claim.jobId && row.unitId = claim.unitId : Bool) &&
            row.syncNeeded = .running && row.desiredState = claim.desiredState &&
            row.environmentUrl = claim.environmentUrl)
          fun row =>
            { row with
              syncedState := some row.desiredState
              syncedEnvironmentUrl := row.environmentUrl
              syncNeeded := .synced
              syncRetryAt := none
              lastError := none
              updatedAt := now })
  | stale (claim : DeploymentRow) (now : Millis) :
      DeploymentChange state
        (update state.deployments
          (fun row => (row.jobId = claim.jobId && row.unitId = claim.unitId : Bool) &&
            row.syncNeeded = .running)
          fun row =>
            { row with
              syncNeeded := .pending
              syncRetryAt := some now
              lastError := none })

/-- An invariant of the jobs and deployments tables, with its proof for each write. `Known` holds
of the jobs that wait for initialization, `Accepts` of the jobs that are enqueued, `Answers` of
the replies to an initialization attempt, with the job as the attempt has it so far. -/
structure Upkeep where
  Inv : State → Prop
  Known : QueuedJob → Prop
  Accepts : QueuedJob → Prop
  Answers : QueuedJob → Reply → Prop
  tables : ∀ {before after : State}, after.jobs = before.jobs →
    after.deployments = before.deployments → Inv before → Inv after
  tidy : ∀ {state : State}, Inv state → Tidy state
  known : ∀ {state : State}, Inv state → ∀ row ∈ state.jobs, row.initializationNeeded ≠ .ready →
    Known row.job
  ordinary : ∀ {state : State} {selected : JobRow → Bool} {set : JobRow → JobRow},
    (∀ row ∈ state.jobs, selected row = true → Ordinary row (set row)) → Inv state →
      Inv (state.updateJobs selected set)
  store : ∀ {state : State} {original job : QueuedJob}, Known original →
    Prepared Answers original job → Inv state →
      Inv (state.updateJobs (initializing original.id) fun row =>
        { row with
          job := job
          initializationNeeded := .ready
          initializationRetryAt := none
          lastError := none })
  complete : ∀ {state : State} (row : JobRow) (conclusion : Conclusion) (summary : String)
    (now : Millis), Inv state → Inv (state.completeInfrastructureJob row conclusion summary now)
  exhaust : ∀ {state : State} {jobId : JobId} {detail : String} {terminal : JobRow}
    (conclusion : Conclusion) (summary : String) (now : Millis), Inv state →
    (state.updateJobs (initializing jobId) fun job =>
      { job with
        initializationNeeded := .ready
        initializationRetryAt := none
        lastError := some detail }).jobRow? jobId = some terminal →
      Inv ((state.updateJobs (initializing jobId) fun job =>
        { job with
          initializationNeeded := .ready
          initializationRetryAt := none
          lastError := some detail }).completeInfrastructureJob terminal conclusion summary now)
  finish : ∀ {state : State} (jobId : JobId) (agentId : AgentId) (conclusion : Conclusion)
    (summary : String) (now : Millis), Inv state →
      Inv ((state.updateJobs (fun job => job.id = jobId && job.agentId = some agentId && job.active)
        fun job =>
          { job with
            status := .completed
            completedAt := some now
            conclusion := some conclusion
            summary := some summary
            leaseExpiresAt := none
            checkSyncNeeded := true }).finishOutstandingDeployments jobId now)
  insert : ∀ {state : State} {job : QueuedJob} (now : Millis) (runNumber : Nat), Accepts job →
    (∀ row ∈ state.jobs, row.id ≠ job.id) → Inv state →
      Inv { state with jobs := state.jobs ++ [queuedRow now runNumber job] }
  prune : ∀ {state : State} (now : Millis), Inv state → Inv (state.prune now)
  deploy : ∀ {state : State} {deployments : List DeploymentRow},
    DeploymentChange state deployments → Inv state → Inv { state with deployments := deployments }

namespace Upkeep

variable (upkeep : Upkeep)

/-- The frames of an initialization attempt carry what it has prepared. -/
def FrameKept : Frame → Prop
  | .initMergeSnapshot claim job =>
      upkeep.Known claim.job ∧ job = withExecutionRef claim.job
  | .initVariables claim job | .initCheckRun claim job =>
      upkeep.Known claim.job ∧ Prepared upkeep.Answers claim.job job
  | _ => True

/-- The state and every suspended function meet the invariant. -/
structure Steady (state : State) : Prop where
  inv : upkeep.Inv state
  frames : ∀ stack ∈ state.tasks, ∀ frame ∈ stack, upkeep.FrameKept frame

/-- A segment leaves such a state, and suspends only functions that meet the invariant. -/
structure Settled (segment : Segment) : Prop where
  steady : upkeep.Steady segment.1
  waiting : ∀ frames, segment.2 = .suspended frames → ∀ frame ∈ frames, upkeep.FrameKept frame

def Answered : Frame → Reply → Prop
  | .initMergeSnapshot _ job, reply | .initVariables _ job, reply | .initCheckRun _ job, reply =>
      upkeep.Answers job reply
  | _, _ => True

def Admits (state : State) : Event → Prop
  | .enqueue job _ _ => upkeep.Accepts job
  | .resume task reply _ => ∀ frame rest, state.tasks[task]? = some (frame :: rest) →
      upkeep.Answered frame reply
  | _ => True

variable {upkeep} {state before after : State} {segment : Segment}

/-! ### Segments -/

theorem Settled.done (steady : upkeep.Steady state) : upkeep.Settled (state, .done) :=
  ⟨steady, fun _ wrong => nomatch wrong⟩

theorem Settled.threw (steady : upkeep.Steady state) : upkeep.Settled (state, .threw) :=
  ⟨steady, fun _ wrong => nomatch wrong⟩

theorem Settled.suspended {frame : Frame} (steady : upkeep.Steady state)
    (kept : upkeep.FrameKept frame) : upkeep.Settled (state, .suspended [frame]) := by
  refine ⟨steady, fun frames same member inside => ?_⟩
  cases same
  rw [List.mem_singleton.mp inside]
  exact kept

theorem Settled.await (settled : upkeep.Settled segment) {frame : Frame}
    (kept : upkeep.FrameKept frame) : upkeep.Settled (awaitThen frame segment) := by
  obtain ⟨current, outcome⟩ := segment
  cases outcome with
  | done => exact .suspended settled.steady kept
  | threw => exact .threw settled.steady
  | suspended frames =>
      refine ⟨settled.steady, fun all same one inside => ?_⟩
      cases same
      rcases List.mem_append.mp inside with early | last
      · exact settled.waiting frames rfl one early
      · rw [List.mem_singleton.mp last]
        exact kept

theorem Settled.spawn (settled : upkeep.Settled segment) :
    upkeep.Steady (ControlPlane.spawn segment) := by
  refine ⟨?_, fun stack member => ?_⟩
  · obtain ⟨current, outcome⟩ := segment
    cases outcome with
    | done | threw => exact settled.steady.inv
    | suspended frames =>
        exact @Upkeep.tables upkeep current _ rfl rfl settled.steady.inv
  · rcases mem_spawn_tasks.mp member with older | started
    · exact settled.steady.frames stack older
    · exact settled.waiting stack started

/-! ### Writes -/

/-- A change outside of both tables and of the tasks. -/
theorem Steady.tables (steady : upkeep.Steady before) (jobs : after.jobs = before.jobs)
    (deployments : after.deployments = before.deployments) (tasks : after.tasks = before.tasks) :
    upkeep.Steady after :=
  ⟨upkeep.tables jobs deployments steady.inv, tasks ▸ steady.frames⟩

theorem Steady.lease (steady : upkeep.Steady before) (frame : State.LeaseFrame before after) :
    upkeep.Steady after :=
  steady.tables frame.jobs (by rw [frame]) frame.tasks

theorem Steady.scheduleAlarm (steady : upkeep.Steady state) (now : Millis) :
    upkeep.Steady (state.scheduleAlarm now) := steady.tables rfl rfl rfl

theorem Steady.ordinary (steady : upkeep.Steady state) {selected : JobRow → Bool}
    {set : JobRow → JobRow}
    (rows : ∀ row ∈ state.jobs, selected row = true → Ordinary row (set row)) :
    upkeep.Steady (state.updateJobs selected set) :=
  ⟨upkeep.ordinary rows steady.inv, steady.frames⟩

theorem Steady.deploy (steady : upkeep.Steady state) {deployments : List DeploymentRow}
    (change : DeploymentChange state deployments) :
    upkeep.Steady { state with deployments := deployments } :=
  ⟨upkeep.deploy change steady.inv, steady.frames⟩

theorem Steady.complete (steady : upkeep.Steady state) (row : JobRow) (conclusion : Conclusion)
    (summary : String) (now : Millis) :
    upkeep.Steady (state.completeInfrastructureJob row conclusion summary now) :=
  ⟨upkeep.complete row conclusion summary now steady.inv, steady.frames⟩

theorem Steady.prune (steady : upkeep.Steady state) (now : Millis) :
    upkeep.Steady (state.prune now) :=
  ⟨upkeep.prune now steady.inv, steady.frames⟩

theorem Steady.sendServer {sent : State} {socket : SocketId} {message : ServerMessage}
    (steady : upkeep.Steady state) (delivered : state.sendServer socket message = some sent) :
    upkeep.Steady sent := by
  unfold State.sendServer at delivered
  split at delivered
  · cases delivered
    exact steady.tables rfl rfl rfl
  · cases delivered

theorem Steady.sendLast (steady : upkeep.Steady state) (socket : SocketId)
    (message : ServerMessage) : upkeep.Steady (state.sendLast socket message) :=
  steady.lease (State.sendLast_frame state socket message)

/-! ### Checks and requeues -/

theorem syncCheck (steady : upkeep.Steady state) (row : JobRow) :
    upkeep.Settled (syncCheck state row) := by
  unfold ControlPlane.syncCheck
  split
  · exact .done (steady.ordinary fun job _ _ =>
      ⟨rfl, rfl, id, fun _ => id, .inl, id, .inl⟩)
  · split
    · exact .suspended steady trivial
    · exact .done steady

theorem resumeCheckUpdate (steady : upkeep.Steady state) (now : Millis) (row : JobRow)
    (reply : Reply) : upkeep.Settled (resumeCheckUpdate now state row reply) := by
  unfold ControlPlane.resumeCheckUpdate
  split
  · exact .done (steady.ordinary fun job _ _ =>
      ⟨rfl, rfl, id, fun _ => id, .inl, id, .inl⟩)
  · exact .done (steady.tables rfl rfl rfl)

theorem active_open {row : JobRow} (active : row.active = true) : row.status ≠ .completed := by
  intro completed
  simp [JobRow.active, completed] at active

theorem requeue (steady : upkeep.Steady state) {jobId : JobId} {reason : String} {now : Millis}
    {requeued : State} {terminal : Option JobRow}
    (taken : state.requeue jobId reason now = some (requeued, terminal)) :
    upkeep.Steady requeued := by
  unfold State.requeue at taken
  cases lookup : state.jobRow? jobId with
  | none => simp [lookup] at taken
  | some row =>
      simp only [lookup] at taken
      have counted : upkeep.Steady { state with requeues := state.requeues + 1 } :=
        steady.tables rfl rfl rfl
      have released := counted.lease (State.releaseConcurrencyForRun_frame _ row.id
        ("The parent GitZero run was requeued: " ++ reason))
      split at taken
      · cases taken
        exact steady
      · split at taken
        · cases taken
          exact released.complete _ _ _ _
        · cases taken
          refine released.ordinary fun job _ picked => ?_
          simp only [Bool.and_eq_true, decide_eq_true_eq] at picked
          exact ⟨rfl, rfl, id, fun _ => id, (fun wrong => nomatch wrong),
            fun completed => absurd completed (active_open picked.2), (fun wrong => nomatch wrong)⟩

/-! ### Dispatch -/

theorem dispatchFailure (steady : upkeep.Steady state) (now : Millis) (jobId : JobId) :
    upkeep.Settled (dispatchFailure now state jobId) := by
  unfold ControlPlane.dispatchFailure
  split
  · exact .threw steady
  · next requeued taken => exact .done ((requeue steady taken).tables rfl rfl rfl)
  · next requeued terminal taken =>
      exact (syncCheck (requeue steady taken) terminal).await trivial

section Text

variable [JsText]

theorem deliver (steady : upkeep.Steady state) (now : Millis) (assignment : Nat) (job : QueuedJob)
    (socket : SocketId) (credential : Option InstallationAccessToken) :
    upkeep.Settled (deliver now state assignment job socket credential) := by
  unfold ControlPlane.deliver
  split
  · exact dispatchFailure steady now job.id
  · split
    · exact dispatchFailure steady now job.id
    · next sent delivered =>
        exact .suspended ((steady.sendServer delivered).scheduleAlarm now) trivial

theorem dispatchIteration (steady : upkeep.Steady state) (now : Millis) :
    upkeep.Settled (dispatchIteration now state) := by
  unfold ControlPlane.dispatchIteration
  split
  · exact .done steady
  · next queued candidate selected =>
      have claimed : upkeep.Steady (claimJob state queued candidate now) := by
        obtain ⟨member, _, ready, _⟩ := selectDispatch_spec selected
        refine Steady.tables (steady.ordinary fun job present picked => ?_) rfl rfl rfl
        simp only [Bool.and_eq_true, decide_eq_true_eq] at picked
        have same := (upkeep.tidy steady.inv).eq_of_id present member picked.1
        exact ⟨rfl, rfl, id, fun _ => id, (fun wrong => nomatch wrong),
          fun completed => absurd completed (by rw [picked.2]; exact nofun),
          fun _ => .inr (by rw [same]; exact ready)⟩
      dsimp only
      split
      · exact .suspended claimed trivial
      · exact deliver claimed now _ _ _ _

/-! ### Initialization -/

theorem initializeCatch (steady : upkeep.Steady state) (now : Millis) (claim : JobRow)
    (error : String) : upkeep.Settled (initializeCatch now state claim error) := by
  unfold ControlPlane.initializeCatch
  dsimp only
  split
  · split
    · next missing =>
        -- Without a row under the job's id the marking update selects nothing.
        refine .threw (Steady.scheduleAlarm ?_ now)
        refine steady.tables ?_ rfl rfl
        have gone := jobRow?_of_updateJobs missing fun _ => rfl
        refine update_unselected fun row member => ?_
        simp [initializing, row_eq_none.mp gone row member]
    · next terminal found =>
        have completed : upkeep.Steady
            ((state.updateJobs (initializing claim.job.id) fun job =>
              { job with
                initializationNeeded := .ready
                initializationRetryAt := none
                lastError := some (truncateDiagnostic error) }).completeInfrastructureJob terminal
              .failure ("GitZero could not initialize the run after " ++
                toString claim.initializationAttemptCount ++ " attempts. Last error: " ++
                truncateDiagnostic error) now) :=
          ⟨upkeep.exhaust _ _ _ steady.inv found, steady.frames⟩
        split
        · exact .threw (completed.scheduleAlarm now)
        · exact (syncCheck completed _).await trivial
  · refine .done (Steady.scheduleAlarm (steady.ordinary fun job _ picked => ?_) now)
    simp only [initializing, Bool.and_eq_true, decide_eq_true_eq] at picked
    exact ⟨rfl, rfl, fun ready => by simp [picked.2] at ready, (fun _ wrong => by cases wrong),
      fun _ => .inr (by simp [picked.2]), id, .inl⟩

theorem initializeStore (steady : upkeep.Steady state) (now : Millis) {claim : JobRow}
    {job : QueuedJob} (known : upkeep.Known claim.job)
    (prepared : Prepared upkeep.Answers claim.job job) :
    upkeep.Settled (initializeStore now state claim job) := by
  unfold ControlPlane.initializeStore
  split
  · have stored : upkeep.Steady
        (state.updateJobs (initializing claim.job.id) fun row =>
          { row with
            job := job
            initializationNeeded := .ready
            initializationRetryAt := none
            lastError := none }) := ⟨upkeep.store known prepared steady.inv, steady.frames⟩
    have dispatched := dispatchIteration stored now
    dsimp only
    split
    · next failed outcome =>
        rw [outcome] at dispatched
        exact initializeCatch dispatched.steady now claim _
    · exact dispatched.await trivial
  · exact .done (steady.scheduleAlarm now)

theorem initializeCheckRun (steady : upkeep.Steady state) (now : Millis) {claim : JobRow}
    {job : QueuedJob} (known : upkeep.Known claim.job)
    (prepared : Prepared upkeep.Answers claim.job job) :
    upkeep.Settled (initializeCheckRun now state claim job) := by
  unfold ControlPlane.initializeCheckRun
  split
  · exact .suspended steady ⟨known, prepared⟩
  · exact initializeStore steady now known prepared

theorem initializeVariables (steady : upkeep.Steady state) (now : Millis) {claim : JobRow}
    {job : QueuedJob} (known : upkeep.Known claim.job)
    (prepared : Prepared upkeep.Answers claim.job job) :
    upkeep.Settled (initializeVariables now state claim job) := by
  unfold ControlPlane.initializeVariables
  split
  · exact .suspended steady ⟨known, prepared⟩
  · exact initializeCheckRun steady now known prepared

omit [JsText] in
theorem withExecutionRef_flags (job : QueuedJob) :
    (withExecutionRef job).requiresGithubToken = job.requiresGithubToken ∧
      (withExecutionRef job).pullRequest.mergeSha = job.pullRequest.mergeSha := by
  unfold withExecutionRef
  split <;> exact ⟨rfl, rfl⟩

theorem initializeJob (steady : upkeep.Steady state) (now : Millis) (jobId : JobId) :
    upkeep.Settled (initializeJob now state jobId) := by
  unfold ControlPlane.initializeJob
  split
  · exact .done steady
  · next row found =>
      have claimable := List.find?_some found
      simp only [initializationClaimable, Bool.and_eq_true, decide_eq_true_eq] at claimable
      have known := upkeep.known steady.inv row (List.mem_of_find?_eq_some found) claimable.1.2
      have claimed : upkeep.Steady
          (state.updateJobs (initializationClaimable now jobId) (claimInitialization now)) := by
        refine steady.ordinary fun job _ picked => ?_
        simp only [initializationClaimable, Bool.and_eq_true, decide_eq_true_eq] at picked
        exact ⟨rfl, rfl, fun ready => absurd ready picked.1.2, (fun _ wrong => by cases wrong),
          fun _ => .inr picked.1.2, id, .inl⟩
      obtain ⟨flag, sha⟩ := withExecutionRef_flags row.job
      dsimp only [claimInitialization]
      split
      · split
        · exact .suspended claimed ⟨known, rfl⟩
        · next anonymous =>
            rw [flag] at anonymous
            exact initializeVariables claimed now known (.head (by simpa using anonymous))
      · next merged =>
          rw [sha] at merged
          exact initializeVariables claimed now known (.merged fun none =>
            merged (by rw [none]; rfl))

theorem resumeInitMergeSnapshot (steady : upkeep.Steady state) (now : Millis) {claim : JobRow}
    {reply : Reply} (known : upkeep.Known claim.job)
    (answers : upkeep.Answers (withExecutionRef claim.job) reply) :
    upkeep.Settled
      (resumeInitMergeSnapshot now state claim (withExecutionRef claim.job) reply) := by
  have ended : ∀ conclusion summary,
      upkeep.Steady ((state.completeInitializingJob claim conclusion summary now).scheduleAlarm
        now) := by
    intro conclusion summary
    refine Steady.scheduleAlarm (steady.ordinary fun job _ picked => ?_) now
    simp only [Bool.and_eq_true, decide_eq_true_eq] at picked
    exact ⟨rfl, rfl, fun _ => rfl, fun open_ => absurd rfl open_,
      fun _ => .inr (by simp [picked.2]), fun _ => rfl, fun _ => .inr rfl⟩
  unfold ControlPlane.resumeInitMergeSnapshot
  split
  · exact initializeVariables steady now known (.snapshot _ answers)
  · exact .done (ended _ _)
  · exact .done (ended _ _)
  · exact initializeCatch steady now claim _
  · exact initializeCatch steady now claim _

theorem resumeInitVariables (steady : upkeep.Steady state) (now : Millis) {claim : JobRow}
    {job : QueuedJob} {reply : Reply} (known : upkeep.Known claim.job)
    (prepared : Prepared upkeep.Answers claim.job job) (answers : upkeep.Answers job reply) :
    upkeep.Settled (resumeInitVariables now state claim job reply) := by
  unfold ControlPlane.resumeInitVariables
  split
  · exact initializeCheckRun steady now known (.actionsVariables _ prepared answers)
  · exact initializeCatch steady now claim _

theorem resumeInitCheckRun (steady : upkeep.Steady state) (now : Millis) {claim : JobRow}
    {job : QueuedJob} {reply : Reply} (known : upkeep.Known claim.job)
    (prepared : Prepared upkeep.Answers claim.job job) (answers : upkeep.Answers job reply) :
    upkeep.Settled (resumeInitCheckRun now state claim job reply) := by
  unfold ControlPlane.resumeInitCheckRun
  split
  · exact initializeStore steady now known (.checkRun _ prepared answers)
  · exact initializeCatch steady now claim _

/-! ### Deployments -/

theorem deploymentCatch (steady : upkeep.Steady state) (now : Millis) (claim : DeploymentRow)
    (error : String) : upkeep.Settled (deploymentCatch now state claim error) := by
  unfold ControlPlane.deploymentCatch
  dsimp only
  refine .done (Steady.scheduleAlarm ?_ now)
  split
  · exact steady
  · exact steady.deploy (.failed claim _ _)

theorem syncDeployment (steady : upkeep.Steady state) (now : Millis) (key : JobId × String) :
    upkeep.Settled (syncDeployment now state key) := by
  unfold ControlPlane.syncDeployment
  split
  · exact .done steady
  · have claimed := steady.deploy (.claimed now key)
    dsimp only
    split
    · exact deploymentCatch claimed now _ _
    · exact .suspended claimed trivial

theorem resumeDeploymentSync (steady : upkeep.Steady state) (now : Millis) (claim : DeploymentRow)
    (reply : Reply) : upkeep.Settled (resumeDeploymentSync now state claim reply) := by
  unfold ControlPlane.resumeDeploymentSync
  split
  · next id =>
      refine .done (Steady.scheduleAlarm ?_ now)
      have identified := steady.deploy (.identified claim id)
      unfold storeDeploymentSync
      dsimp only
      split
      · exact identified.deploy (.synced claim now)
      · exact identified.deploy (.stale claim now)
  · exact deploymentCatch steady now claim _

/-! ### Disconnect and alarm -/

theorem disconnectLoop (now : Millis) (socket : SocketId) (rows : List JobRow)
    (steady : upkeep.Steady state) : upkeep.Settled (disconnectLoop now socket state rows) := by
  induction rows generalizing state with
  | nil => exact (dispatchIteration steady now).await trivial
  | cons row rest inductionHypothesis =>
      unfold ControlPlane.disconnectLoop
      split
      · exact .threw steady
      · next requeued taken => exact inductionHypothesis (requeue steady taken)
      · next requeued terminal taken =>
          exact (syncCheck (requeue steady taken) terminal).await trivial

theorem alarmDeploymentLoop (steady : upkeep.Steady state) (now dueAt : Millis)
    (keys : List (JobId × String)) :
    upkeep.Settled (alarmDeploymentLoop now dueAt state keys) := by
  cases keys with
  | nil => exact (dispatchIteration (steady.prune dueAt) now).await trivial
  | cons key rest => exact (syncDeployment steady now key).await trivial

theorem alarmCheckLoop (steady : upkeep.Steady state) (now dueAt : Millis) (rows : List JobRow) :
    upkeep.Settled (alarmCheckLoop now dueAt state rows) := by
  cases rows with
  | nil => exact alarmDeploymentLoop steady now dueAt _
  | cons row rest => exact (syncCheck steady row).await trivial

omit [JsText] in
theorem Steady.foldl {Item : Type} {turn : State → Item → State}
    (one : ∀ state item, upkeep.Steady state → upkeep.Steady (turn state item)) (items : List Item)
    (steady : upkeep.Steady state) : upkeep.Steady (items.foldl turn state) := by
  induction items generalizing state with
  | nil => exact steady
  | cons item rest inductionHypothesis => exact inductionHypothesis (one state item steady)

omit [JsText] in
theorem expireLease (now : Millis) (row : JobRow) (steady : upkeep.Steady state) :
    upkeep.Steady (expireLease now state row) := by
  have cancelled : upkeep.Steady (state.cancelOnAgent row "agent lease expired") := by
    unfold State.cancelOnAgent
    split
    · exact steady
    · exact steady.tables rfl rfl rfl
  unfold ControlPlane.expireLease
  dsimp only
  cases taken : (state.cancelOnAgent row "agent lease expired").requeue row.id
      "agent lease expired" now with
  | none => exact cancelled
  | some result => exact requeue cancelled taken

theorem alarmExpire (steady : upkeep.Steady state) (now : Millis) :
    upkeep.Settled (alarmExpire now state) := by
  unfold ControlPlane.alarmExpire
  have expired := Steady.foldl (fun _ row => expireLease now row)
    (state.jobs.filter (leaseExpired now)) steady
  exact alarmCheckLoop (Steady.foldl (fun _ row steady => steady.complete row _ _ now) _ expired)
    now now _

theorem alarmInitLoop (steady : upkeep.Steady state) (now : Millis) (jobIds : List JobId) :
    upkeep.Settled (alarmInitLoop now state jobIds) := by
  cases jobIds with
  | nil => exact alarmExpire steady now
  | cons jobId rest => exact (initializeJob steady now jobId).await trivial

/-! ### Agent messages -/

omit [JsText] in
theorem assignedJob_mem {jobId : JobId} {agentId : AgentId} {row : JobRow}
    (owned : state.assignedJob jobId agentId = some row) : row ∈ state.jobs :=
  jobRow?_mem (Option.filter_eq_some_iff.mp owned).1

omit [JsText] in
theorem assignedJob_active {jobId : JobId} {agentId : AgentId} {row : JobRow}
    (owned : state.assignedJob jobId agentId = some row) (unfinished : row.status ≠ .completed) :
    row.active = true := by
  have status := (Option.filter_eq_some_iff.mp owned).2
  simp only [Bool.and_eq_true, Bool.or_eq_true, decide_eq_true_eq] at status
  simp only [JobRow.active, Bool.or_eq_true, decide_eq_true_eq]
  exact status.2.resolve_right unfinished

omit [JsText] in
theorem renewLeases (now : Millis) (socket : SocketId) (agentId : AgentId) (jobIds : List JobId)
    (steady : upkeep.Steady state) :
    upkeep.Steady (renewLeases now socket agentId state jobIds).1 := by
  induction jobIds generalizing state with
  | nil => exact steady
  | cons jobId rest inductionHypothesis =>
      unfold ControlPlane.renewLeases
      dsimp only
      split
      · exact inductionHypothesis (steady.ordinary fun row _ _ =>
          ⟨rfl, rfl, id, fun _ => id, .inl, id, .inl⟩)
      · split
        · exact steady
        · next sent delivered => exact inductionHypothesis (steady.sendServer delivered)

omit [JsText] in
theorem heartbeat (steady : upkeep.Steady state) (now : Millis) (socket : SocketId)
    (agentId : AgentId) (runningJobIds : List JobId) :
    upkeep.Settled (heartbeat now state socket agentId runningJobIds) := by
  have renewed := renewLeases now socket agentId runningJobIds.eraseDups steady
  unfold ControlPlane.heartbeat
  dsimp only
  split
  · next failed outcome =>
      rw [outcome] at renewed
      exact .threw renewed
  · next current outcome =>
      rw [outcome] at renewed
      exact .suspended (renewed.tables rfl rfl rfl) trivial

omit [JsText] in
theorem jobStarted (steady : upkeep.Steady state) (now : Millis) (agentId : AgentId)
    (jobId : JobId) : upkeep.Settled (jobStarted now state agentId jobId) := by
  unfold ControlPlane.jobStarted
  split
  · exact .threw steady
  · next row owned =>
      split
      · have started : upkeep.Steady
            (state.updateJobs
              (fun job => job.id = row.id && job.agentId = some agentId && job.status = .assigned)
              fun job =>
                { job with
                  status := .running
                  startedAt := some now
                  leaseExpiresAt := some (now + leaseMilliseconds)
                  checkSyncNeeded := true }) := by
          refine steady.ordinary fun job _ picked => ?_
          simp only [Bool.and_eq_true, decide_eq_true_eq] at picked
          exact ⟨rfl, rfl, id, fun _ => id, (fun wrong => nomatch wrong),
            fun completed => absurd completed (by rw [picked.2]; exact nofun),
            fun _ => .inl (by simp [JobRow.active, picked.2])⟩
        dsimp only
        split
        · exact .threw started
        · exact syncCheck started _
      · exact .done steady

theorem jobRejected (steady : upkeep.Steady state) (now : Millis) (socket : SocketId)
    (agentId : AgentId) (jobId : JobId) (requirements : List RunnerRequirement)
    (reason : String) :
    upkeep.Settled (jobRejected now state socket agentId jobId requirements reason) := by
  unfold ControlPlane.jobRejected
  split
  · exact .threw steady
  · next row owned =>
      dsimp only
      split
      · exact .done (steady.sendLast _ _)
      · refine (dispatchIteration (Steady.ordinary ?_ fun job _ picked => ?_) now).await trivial
        · exact steady.tables rfl rfl rfl
        · simp only [Bool.and_eq_true, decide_eq_true_eq] at picked
          exact ⟨rfl, rfl, id, fun _ => id, (fun wrong => nomatch wrong),
            fun completed => absurd completed (by rw [picked.2]; exact nofun),
            (fun wrong => nomatch wrong)⟩

theorem concurrencyAcquire (steady : upkeep.Steady state) (now : Millis) (socket : SocketId)
    (agentId : AgentId) (jobId : JobId) (requestId : RequestId) (unitId group : String)
    (cancelInProgress : Bool) (queue : QueueMode) :
    upkeep.Settled (concurrencyAcquire now state socket agentId jobId requestId unitId group
      cancelInProgress queue) := by
  unfold ControlPlane.concurrencyAcquire
  split
  · exact .threw steady
  · split
    · exact .done (steady.sendLast _ _)
    · exact .done (steady.lease (State.acquireConcurrency_frame ..))

theorem credentialRequest (steady : upkeep.Steady state) (socket : SocketId) (agentId : AgentId)
    (kind : CredentialKind) (jobId : JobId) (requestId : RequestId) :
    upkeep.Settled (credentialRequest state socket agentId kind jobId requestId) := by
  unfold ControlPlane.credentialRequest
  split
  · exact .threw steady
  · split
    · exact .done (steady.sendLast _ _)
    · split
      · exact .done (steady.sendLast _ _)
      · exact .suspended steady trivial

omit [JsText] in
theorem resumeCredential (steady : upkeep.Steady state) (kind : CredentialKind) (jobId : JobId)
    (requestId : RequestId) (agentId : AgentId) (socket : SocketId) (reply : Reply) :
    upkeep.Settled (resumeCredential state kind jobId requestId agentId socket reply) := by
  unfold ControlPlane.resumeCredential
  split
  · split
    · exact .done (steady.sendLast _ _)
    · exact .done steady
  · exact .done (steady.sendLast _ _)

theorem publishDeployment (steady : upkeep.Steady state) (now : Millis)
    (existing : Option DeploymentRow) (key : JobId × String) :
    upkeep.Settled (publishDeployment now state existing key) := by
  unfold ControlPlane.publishDeployment
  dsimp only
  refine .done (Steady.scheduleAlarm ?_ now)
  split
  · exact steady
  · exact (syncDeployment steady now key).spawn

omit [JsText] in
theorem deploymentRefusal_none {row : JobRow} (allowed : deploymentRefusal row = none) :
    row.status ≠ .completed := by
  intro completed
  simp [deploymentRefusal, completed] at allowed

theorem deploymentStarted (steady : upkeep.Steady state) (now : Millis) (socket : SocketId)
    (agentId : AgentId) (jobId : JobId) (unitId environment : String) :
    upkeep.Settled (deploymentStarted now state socket agentId jobId unitId environment) := by
  unfold ControlPlane.deploymentStarted
  split
  · exact .threw steady
  · next row owned =>
      split
      · exact .done (steady.sendLast _ _)
      · next allowed =>
          have member := assignedJob_mem owned
          have active := assignedJob_active owned (deploymentRefusal_none allowed)
          split
          · exact publishDeployment (steady.deploy (.started row member active _ _ now)) now _ _
          · split
            · exact .done (steady.sendLast _ _)
            · refine publishDeployment ?_ now _ _
              split
              · exact steady.deploy (.desired row member active _ _ _ now)
              · exact steady

theorem deploymentFinished (steady : upkeep.Steady state) (now : Millis) (socket : SocketId)
    (agentId : AgentId) (jobId : JobId) (unitId : String) (conclusion : Conclusion)
    (environmentUrl : Option String) :
    upkeep.Settled (deploymentFinished now state socket agentId jobId unitId conclusion
      environmentUrl) := by
  unfold ControlPlane.deploymentFinished
  split
  · exact .threw steady
  · next row owned =>
      split
      · exact .done (steady.sendLast _ _)
      · next allowed =>
          have member := assignedJob_mem owned
          have active := assignedJob_active owned (deploymentRefusal_none allowed)
          split
          · exact .done (steady.sendLast _ _)
          · refine publishDeployment ?_ now _ _
            split
            · exact steady.deploy (.desired row member active _ _ _ now)
            · exact steady

omit [JsText] in
theorem jobFinished (steady : upkeep.Steady state) (now : Millis) (agentId : AgentId)
    (jobId : JobId) (conclusion : Conclusion) (summary : String) :
    upkeep.Settled (jobFinished now state agentId jobId conclusion summary) := by
  unfold ControlPlane.jobFinished
  split
  · exact .threw steady
  · next row owned =>
      split
      · exact .done steady
      · have released := steady.lease (State.releaseConcurrencyForRun_frame state row.id
          "The parent GitZero run completed.")
        have completed : upkeep.Steady
            (((state.releaseConcurrencyForRun row.id "The parent GitZero run completed.").updateJobs
              (fun job => job.id = jobId && job.agentId = some agentId && job.active)
              fun job =>
                { job with
                  status := .completed
                  completedAt := some now
                  conclusion := some conclusion
                  summary := some summary
                  leaseExpiresAt := none
                  checkSyncNeeded := true }).finishOutstandingDeployments jobId now) :=
          ⟨upkeep.finish jobId agentId conclusion summary now released.inv, released.frames⟩
        dsimp only
        split
        · exact .threw completed
        · exact (syncCheck completed _).await trivial

theorem handleAgentEvent (steady : upkeep.Steady state) (now : Millis) (socket : SocketId)
    (agentId : AgentId) (message : AgentMessage) :
    upkeep.Settled (handleAgentEvent now state socket agentId message) := by
  cases message with
  | hello => exact .done steady
  | heartbeat => exact heartbeat steady now socket agentId _
  | jobStarted => exact jobStarted steady now agentId _
  | jobRejected => exact jobRejected steady now socket agentId _ _ _
  | concurrencyAcquire => exact concurrencyAcquire steady now socket agentId _ _ _ _ _ _
  | concurrencyRelease => exact .done (steady.lease (State.releaseConcurrency_frame ..))
  | credentialRequest => exact credentialRequest steady socket agentId _ _ _
  | deploymentStarted => exact deploymentStarted steady now socket agentId _ _ _
  | deploymentFinished => exact deploymentFinished steady now socket agentId _ _ _ _
  | progress =>
      simp only [ControlPlane.handleAgentEvent, ControlPlane.progress]
      split
      · exact .threw steady
      · exact .done steady
  | jobFinished => exact jobFinished steady now agentId _ _ _

/-! ### Events -/

theorem webSocketHello (steady : upkeep.Steady state) (now : Millis) (entry : Socket)
    (hello : AgentHello) : upkeep.Settled (webSocketHello now state entry hello) := by
  have refused : ∀ code message,
      upkeep.Settled (refuseHello state entry.id code message) := by
    intro code message
    unfold refuseHello
    split
    · exact .threw steady
    · next sent delivered => exact .done ((steady.sendServer delivered).tables rfl rfl rfl)
  have accepted : upkeep.Steady (acceptHello now state entry.id hello) :=
    steady.tables rfl rfl rfl
  unfold ControlPlane.webSocketHello
  split
  · exact .done (steady.tables rfl rfl rfl)
  · split
    · exact refused _ _
    · split
      · exact refused _ _
      · split
        · exact .threw accepted
        · next sent delivered => exact dispatchIteration (accepted.sendServer delivered) now

theorem webSocketMessage (steady : upkeep.Steady state) (now : Millis) (entry : Socket)
    (message : AgentMessage) : upkeep.Settled (webSocketMessage now state entry message) := by
  unfold ControlPlane.webSocketMessage
  split
  · exact webSocketHello steady now entry _
  · exact .done steady
  · split
    · exact .done (steady.sendLast _ _)
    · have seen : upkeep.Steady
          (state.updateSocket entry.id fun current => { current with lastSeenAt := now }) :=
        steady.tables rfl rfl rfl
      dsimp only
      split
      · exact .done (seen.sendLast _ _)
      · next reserved kept =>
          unfold reserveMessage at kept
          split at kept
          · cases kept
          · cases kept
            refine Settled.await (handleAgentEvent ?_ now _ _ _) trivial
            exact seen.tables rfl rfl rfl

theorem enqueue (steady : upkeep.Steady state) (now : Millis) {job : QueuedJob}
    (accepts : upkeep.Accepts job) (deliveryId : String) :
    upkeep.Settled (enqueue now state job deliveryId) := by
  unfold ControlPlane.enqueue
  have pruned := steady.prune now
  dsimp only
  split
  · exact .done pruned
  · split
    · exact .threw (pruned.tables rfl rfl rfl)
    · next fresh =>
        have inserted : ∀ runNumber, upkeep.Steady
            { state.prune now with
              jobs := (state.prune now).jobs ++ [queuedRow now runNumber job] } := by
          intro runNumber
          refine ⟨upkeep.insert now runNumber accepts ?_ pruned.inv, pruned.frames⟩
          intro row member same
          exact fresh (List.any_eq_true.mpr ⟨row, member, by simpa using same⟩)
        split
        · refine .done (Steady.scheduleAlarm (Settled.spawn (initializeJob ?_ now job.id)) now)
          exact (inserted _).tables rfl rfl rfl
        · refine Settled.await (dispatchIteration ?_ now) trivial
          exact (inserted _).tables rfl rfl rfl

theorem resumeFrame (steady : upkeep.Steady state) (now : Millis) {reply : Reply} {frame : Frame}
    (kept : upkeep.FrameKept frame) (answers : upkeep.Answered frame reply) :
    upkeep.Settled (resumeFrame now state reply frame) := by
  cases frame with
  | dispatchToken assignment job agentId socket =>
      cases reply with
      | token credential => exact deliver steady now _ _ _ _
      | _ => exact dispatchFailure steady now job.id
  | dispatchLoop => exact dispatchIteration steady now
  | dispatchFailed => exact .done (steady.tables rfl rfl rfl)
  | initMergeSnapshot claim job =>
      obtain ⟨known, rfl⟩ := kept
      exact resumeInitMergeSnapshot steady now known answers
  | initVariables claim job => exact resumeInitVariables steady now kept.1 kept.2 answers
  | initCheckRun claim job => exact resumeInitCheckRun steady now kept.1 kept.2 answers
  | initDispatched claim => exact .done (steady.scheduleAlarm now)
  | initTerminal => exact .done (steady.scheduleAlarm now)
  | checkUpdate row => exact resumeCheckUpdate steady now row reply
  | deploymentSync claim => exact resumeDeploymentSync steady now claim reply
  | disconnect socket rest => exact disconnectLoop now socket rest steady
  | alarmInit rest => exact alarmInitLoop steady now rest
  | alarmCheck rest dueAt => exact alarmCheckLoop steady now dueAt rest
  | alarmDeployment rest dueAt => exact alarmDeploymentLoop steady now dueAt rest
  | heartbeatScheduled => exact dispatchIteration steady now
  | finishedSynced => exact (dispatchIteration steady now).await trivial
  | scheduleAfterDispatch => exact .done (steady.scheduleAlarm now)
  | credential kind jobId requestId agentId socket =>
      exact resumeCredential steady kind jobId requestId agentId socket reply
  | ack socket messageId => exact .done (steady.sendLast _ _)

omit [JsText] in
/-- A segment that ended in the middle of a task, with the rest of the task behind it. -/
theorem Settled.resettle (settled : upkeep.Settled segment) {rest : List Frame}
    (kept : ∀ frame ∈ rest, upkeep.FrameKept frame) :
    (segment.2 = .done → upkeep.Steady
      (ControlPlane.spawn (segment.1, if rest = [] then .done else .suspended rest))) ∧
    ∀ frames, segment.2 = .suspended frames →
      upkeep.Steady (ControlPlane.spawn (segment.1, .suspended (frames ++ rest))) := by
  constructor
  · intro _
    split
    · exact settled.steady
    · refine Settled.spawn ⟨settled.steady, fun frames same => ?_⟩
      cases same
      exact kept
  · intro frames waiting
    refine Settled.spawn ⟨settled.steady, fun all same frame inside => ?_⟩
    cases same
    rcases List.mem_append.mp inside with early | late
    · exact settled.waiting frames waiting frame early
    · exact kept frame late

theorem unwind (now : Millis) {rest : List Frame} (kept : ∀ frame ∈ rest, upkeep.FrameKept frame)
    (steady : upkeep.Steady state) : upkeep.Steady (unwind now state rest) := by
  induction rest generalizing state with
  | nil => exact steady
  | cons frame rest inductionHypothesis =>
      have later := fun frame member => kept frame (List.mem_cons_of_mem _ member)
      cases frame with
      | initDispatched claim =>
          have caught := initializeCatch steady now claim "job dispatch failed"
          have resettled := caught.resettle later
          simp only [ControlPlane.unwind]
          split
          · next current outcome =>
              rw [outcome] at resettled
              exact resettled.1 rfl
          · next current frames outcome =>
              rw [outcome] at resettled
              exact resettled.2 frames rfl
          · next current outcome =>
              rw [outcome] at caught
              exact inductionHypothesis later caught.steady
      | initTerminal => exact inductionHypothesis later (steady.scheduleAlarm now)
      | _ => exact inductionHypothesis later steady

theorem settle (now : Millis) {rest : List Frame} (kept : ∀ frame ∈ rest, upkeep.FrameKept frame)
    (settled : upkeep.Settled segment) : upkeep.Steady (settle now rest segment) := by
  have resettled := settled.resettle kept
  obtain ⟨current, outcome⟩ := segment
  cases outcome with
  | done => exact resettled.1 rfl
  | threw => exact unwind now kept settled.steady
  | suspended frames => exact resettled.2 frames rfl

theorem resumeTask (steady : upkeep.Steady state) (now : Millis) (task : Nat) {reply : Reply}
    (answers : ∀ frame rest, state.tasks[task]? = some (frame :: rest) →
      upkeep.Answered frame reply) : upkeep.Steady (resumeTask now state task reply) := by
  unfold ControlPlane.resumeTask
  split
  · next frame rest found =>
      have kept := steady.frames _ (List.mem_of_getElem? found)
      have popped : upkeep.Steady { state with tasks := state.tasks.eraseIdx task } :=
        ⟨@Upkeep.tables upkeep state _ rfl rfl steady.inv, fun stack member =>
          steady.frames stack (List.mem_of_mem_eraseIdx member)⟩
      exact settle now (fun frame member => kept frame (List.mem_cons_of_mem _ member))
        (resumeFrame popped now (kept frame List.mem_cons_self) (answers frame rest found))
  · exact steady

omit [JsText] in
theorem onSocket (steady : upkeep.Steady state) {socket : SocketId} {handler : Socket → Segment}
    (settled : ∀ entry, upkeep.Settled (handler entry)) :
    upkeep.Steady (onSocket state socket handler) := by
  unfold ControlPlane.onSocket
  split
  · exact steady
  · exact (settled _).spawn

theorem handleAgentDisconnect (steady : upkeep.Steady state) (now : Millis) (entry : Socket) :
    upkeep.Settled (webSocketClose now state entry) ∧
      upkeep.Settled (webSocketError now state entry) := by
  have removed : upkeep.Steady
      { state with sockets := delete state.sockets (·.id = entry.id) } :=
    steady.tables rfl rfl rfl
  constructor
  · unfold webSocketClose
    dsimp only
    split
    · exact disconnectLoop now entry.id _ removed
    · exact .done removed
  · unfold webSocketError
    split
    · exact disconnectLoop now entry.id _ steady
    · exact .done steady

theorem step (steady : upkeep.Steady state) {event : Event} (admits : upkeep.Admits state event) :
    upkeep.Steady (step state event) := by
  cases event with
  | enqueue job deliveryId now => exact (enqueue steady now admits deliveryId).spawn
  | connect agentId now => exact steady.tables rfl rfl rfl
  | leaveOpen socket => exact steady.tables rfl rfl rfl
  | message socket message now =>
      exact onSocket steady fun entry => webSocketMessage steady now entry message
  | close socket now =>
      exact onSocket steady fun entry => (handleAgentDisconnect steady now entry).1
  | error socket now =>
      exact onSocket steady fun entry => (handleAgentDisconnect steady now entry).2
  | alarm now =>
      have fired : upkeep.Steady { state with alarm := none } := steady.tables rfl rfl rfl
      exact (alarmInitLoop fired now (initializationDue state now)).spawn
  | resume task reply now => exact resumeTask steady now task admits

/-- The invariant holds after every run of admitted events. -/
theorem run (start : upkeep.Inv initial) {events : List Event}
    (admits : Machine.Along ControlPlane.step upkeep.Admits initial events) :
    upkeep.Steady (Machine.run ControlPlane.step initial events) := by
  have steady : upkeep.Steady initial := ⟨start, fun _ member => nomatch member⟩
  have keeps : ∀ state event, upkeep.Steady state → upkeep.Admits state event →
      upkeep.Steady (ControlPlane.step state event) := fun _ _ steady admitted =>
    step steady admitted
  exact Machine.Along.invariant keeps steady admits

end Text

end Upkeep

end GitZero.ControlPlane
