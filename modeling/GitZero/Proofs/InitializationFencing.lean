/-
Module: GitZero.Proofs.InitializationFencing
Purpose: When an initialization attempt that has lost its claim leaves the jobs
  table as it is.
Trusted boundary: none
Main exports: Stale, AttemptRuns, InitializationFenced, Harmless,
  initializeStore_unchanged_iff, initializeCatch_unchanged_iff,
  initialization_fenced_iff, superseded_attempt_releases_claim
-/
import GitZero.ControlPlane.Events

namespace GitZero.ControlPlane

open Table Machine

/-! ### Attempts -/

/-- The attempt's claim was superseded by a newer attempt, or its job has left the
queue. -/
def Stale (state : State) (claim : JobRow) : Prop :=
  (∃ row ∈ state.jobs, row.id = claim.id ∧
    claim.initializationAttemptCount < row.initializationAttemptCount) ∨
    ¬ QueuedIn state claim.id

/-- The attempt that waits in the frame for GitHub. -/
def Frame.attempt : Frame → Option JobRow
  | .initMergeSnapshot claim _ | .initVariables claim _ | .initCheckRun claim _ => some claim
  | _ => none

/-- What a reply makes an attempt do. -/
inductive Turn where
  /-- the next call to GitHub -/
  | asks
  /-- the storing `UPDATE` -/
  | stores
  /-- the `UPDATE` of `completeInitializingJob` -/
  | givesUp
  /-- the `catch` block -/
  | fails

def turnAfterVariables (job : QueuedJob) : Turn := if job.reportToGithub then .asks else .stores

def turnAfterSnapshot (job : QueuedJob) : Turn :=
  if job.requiresGithubToken then .asks else turnAfterVariables job

def Frame.turn : Frame → Reply → Turn
  | .initMergeSnapshot _ job, .mergeSnapshot (.ready _) => turnAfterSnapshot job
  | .initMergeSnapshot _ _, .mergeSnapshot .conflicted
  | .initMergeSnapshot _ _, .mergeSnapshot .changed => .givesUp
  | .initVariables _ job, .actionsVariables _ => turnAfterVariables job
  | .initCheckRun _ _, .checkRun _ => .stores
  | _, _ => .fails

/-- No attempt has the job claimed. -/
def Unclaimed (state : State) (jobId : JobId) : Prop :=
  ∀ row ∈ state.jobs, initializing jobId row = false

/-- The check synchronization of the row has no `check_sync_needed` to clear at once. -/
def SyncedOrReported (row : JobRow) : Prop :=
  row.checkSyncNeeded = false ∨
    (row.job.reportToGithub = true ∧ row.job.checkRunId.isSome = true)

/-- The `catch` of the attempt has nothing to change: with attempts left no attempt has
the job claimed, and at the last attempt the job is completed already, or gone. -/
def FailsHarmlessly (state : State) (claim : JobRow) : Prop :=
  if maxInitializationAttempts ≤ claim.initializationAttemptCount then
    ∀ row ∈ state.jobs, row.id = claim.job.id → row.status = .completed ∧ SyncedOrReported row
  else Unclaimed state claim.job.id

def Turn.harmless (state : State) (claim : JobRow) : Turn → Prop
  | .asks => True
  | .stores => Unclaimed state claim.job.id
  | .givesUp => Unclaimed state claim.id
  | .fails => FailsHarmlessly state claim

/-! ### Guarded updates -/

theorem update_eq_self {Row : Type} {rows : List Row} {selected : Row → Bool}
    {set : Row → Row} :
    update rows selected set = rows ↔ ∀ row ∈ rows, selected row = true → set row = row := by
  have pointwise : update rows selected set = rows ↔
      ∀ row ∈ rows, (if selected row then set row else row) = row := by
    conv_lhs => rhs; rw [← List.map_id rows]
    exact List.map_inj_left
  rw [pointwise]
  refine forall₂_congr fun row _ => ?_
  split <;> simp_all

/-- A guarded update that changes what it selects leaves the table iff no attempt has
the job claimed. -/
theorem guarded_update_iff {state : State} {jobId : JobId} {set : JobRow → JobRow}
    (changes : ∀ row, initializing jobId row = true → set row ≠ row) :
    (state.updateJobs (initializing jobId) set).jobs = state.jobs ↔ Unclaimed state jobId := by
  refine update_eq_self.trans (forall₂_congr fun row _ => ?_)
  constructor
  · intro same
    by_contra claimed
    have picked : initializing jobId row = true := by simpa using claimed
    exact changes row picked (same picked)
  · intro unclaimed picked
    rw [unclaimed] at picked
    cases picked

theorem initializing_iff {jobId : JobId} {row : JobRow} :
    initializing jobId row = true ↔
      (row.id = jobId ∧ row.status = .queued) ∧ row.initializationNeeded = .running := by
  simp [initializing]

theorem ne_of_needed {old new : JobRow} (running : old.initializationNeeded = .running)
    (other : new.initializationNeeded ≠ .running) : new ≠ old := by
  rintro rfl
  exact other running

section Text

variable [JsText]

/-! ### The storing update and the dispatch behind it -/

/-- The job's row is not claimed, whatever its status. -/
def Released (state : State) (jobId : JobId) : Prop :=
  ∀ row ∈ state.jobs, row.id = jobId → row.initializationNeeded ≠ .running

omit [JsText] in
theorem Released.update {state : State} {jobId : JobId} {selected : JobRow → Bool}
    {set : JobRow → JobRow} (released : Released state jobId)
    (keeps : ∀ row, (set row).id = row.id)
    (needed : ∀ row, (set row).initializationNeeded = row.initializationNeeded ∨
      (set row).initializationNeeded = .ready) :
    Released (state.updateJobs selected set) jobId := by
  refine forall_update released fun row _ _ was same => ?_
  rcases needed row with kept | ready
  · rw [kept]
    exact was ((keeps row).symm.trans same)
  · rw [ready]
    decide

omit [JsText] in
theorem Released.congr {before after : State} {jobId : JobId} (released : Released before jobId)
    (jobs : after.jobs = before.jobs) : Released after jobId := by
  unfold Released
  rw [jobs]
  exact released

omit [JsText] in
theorem Released.requeue {state requeued : State} {jobId other : JobId} {reason : String}
    {now : Millis} {terminal : Option JobRow} (released : Released state jobId)
    (taken : state.requeue other reason now = some (requeued, terminal)) :
    Released requeued jobId := by
  unfold State.requeue at taken
  cases lookup : state.jobRow? other with
  | none => simp [lookup] at taken
  | some row =>
      simp only [lookup] at taken
      have freed := released.congr (State.releaseConcurrencyForRun_frame
        { state with requeues := state.requeues + 1 } row.id
        ("The parent GitZero run was requeued: " ++ reason)).jobs
      split at taken
      · cases taken
        exact released
      · split at taken
        · cases taken
          exact freed.update (fun _ => rfl) fun _ => .inr rfl
        · cases taken
          exact freed.update (fun _ => rfl) fun _ => .inl rfl

omit [JsText] in
theorem Released.syncCheck {state : State} {jobId : JobId} (released : Released state jobId)
    (row : JobRow) : Released (syncCheck state row).1 jobId := by
  unfold ControlPlane.syncCheck
  split
  · exact released.update (fun _ => rfl) fun _ => .inl rfl
  · split <;> exact released

omit [JsText] in
theorem Released.dispatchFailure {state : State} {jobId : JobId} (released : Released state jobId)
    (now : Millis) (other : JobId) : Released (dispatchFailure now state other).1 jobId := by
  unfold ControlPlane.dispatchFailure
  split
  · exact released
  · rename_i requeued taken
    exact (released.requeue taken).congr rfl
  · rename_i requeued terminal taken
    rw [awaitThen_state]
    exact (released.requeue taken).syncCheck terminal

theorem Released.deliver {state : State} {jobId : JobId} (released : Released state jobId)
    (now : Millis) (assignment : Nat) (job : QueuedJob) (socket : SocketId)
    (credential : Option InstallationAccessToken) :
    Released (deliver now state assignment job socket credential).1 jobId := by
  unfold ControlPlane.deliver
  split
  · exact released.dispatchFailure now job.id
  · split
    · exact released.dispatchFailure now job.id
    · rename_i sent delivered
      unfold State.sendServer at delivered
      split at delivered
      · cases delivered
        exact released.congr rfl
      · cases delivered

theorem Released.dispatchIteration {state : State} {jobId : JobId}
    (released : Released state jobId) (now : Millis) :
    Released (dispatchIteration now state).1 jobId := by
  unfold ControlPlane.dispatchIteration
  split
  · exact released
  · rename_i queued candidate selected
    have claimed : Released (claimJob state queued candidate now) jobId :=
      forall_update released fun _ _ _ was same => was same
    dsimp only
    split
    · exact claimed
    · exact claimed.deliver _ _ _ _ _

/-- The storing update leaves the table iff no attempt has the job claimed. -/
theorem initializeStore_unchanged_iff {state : State} (tidy : Tidy state) (now : Millis)
    {claim : JobRow} {job : QueuedJob} (same : job.id = claim.job.id) :
    (initializeStore now state claim job).1.jobs = state.jobs ↔ Unclaimed state claim.job.id := by
  constructor
  · intro kept row member
    by_contra claimed
    have picked : initializing claim.job.id row = true := by simpa using claimed
    have found : state.jobs.any (initializing claim.job.id) = true :=
      List.any_eq_true.mpr ⟨row, member, picked⟩
    obtain ⟨⟨id, queued⟩, running⟩ := initializing_iff.mp picked
    have stored : Released (state.updateJobs (initializing claim.job.id) fun row =>
        { row with
          job := job
          initializationNeeded := .ready
          initializationRetryAt := none
          lastError := none }) claim.job.id := by
      intro new present named
      obtain ⟨old, was, rfl⟩ := mem_update.mp present
      split at named
      · simp_all
      · rename_i spared
        rw [tidy.eq_of_id was member (named.trans id.symm), picked] at spared
        exact absurd rfl spared
    have returned := dispatchIteration_returns
      ((storeInitialization_trace (fun _ => True) state same).tidy tidy) now
    unfold initializeStore at kept
    rw [if_pos found] at kept
    dsimp only at kept
    split at kept
    · rename_i outcome
      exact returned (by rw [outcome])
    · rw [awaitThen_state] at kept
      have after := stored.dispatchIteration now
      unfold Released at after
      rw [kept] at after
      exact after row member id running
  · intro unclaimed
    have none : state.jobs.any (initializing claim.job.id) = false := by
      simpa [Unclaimed] using unclaimed
    unfold initializeStore
    rw [none]
    rfl

omit [JsText] in
/-- Rows of the job that are completed, with a check synchronization that clears nothing
at once, stay as they are in it. -/
theorem syncCheck_unchanged_iff {state : State} (tidy : Tidy state) {row : JobRow}
    (member : row ∈ state.jobs) (completed : row.status = .completed) :
    (syncCheck state row).1.jobs = state.jobs ↔ SyncedOrReported row := by
  unfold syncCheck SyncedOrReported
  split
  · rename_i unreported
    refine update_eq_self.trans ⟨fun same => ?_, fun synced other present picked => ?_⟩
    · have cleared := congrArg JobRow.checkSyncNeeded (same row member (by simp))
      exact .inl cleared.symm
    · have isRow : other = row := tidy.eq_of_id present member (of_decide_eq_true picked)
      subst isRow
      rcases synced with off | ⟨reports, known⟩
      · rw [← off]
      · simp [reports, Option.isSome_iff_ne_none.mp known] at unreported
  · rename_i reported
    have both : row.job.reportToGithub = true ∧ row.job.checkRunId.isSome = true := by
      simpa [Option.isSome_iff_ne_none] using reported
    refine iff_of_true ?_ (.inr both)
    split <;> rfl

omit [JsText] in
theorem syncCheck_status {state : State} {row new : JobRow}
    (member : new ∈ (syncCheck state row).1.jobs) :
    ∃ old ∈ state.jobs, old.id = new.id ∧ old.status = new.status := by
  unfold syncCheck at member
  split at member
  · obtain ⟨old, present, rfl⟩ := mem_update.mp member
    split <;> exact ⟨old, present, rfl, rfl⟩
  · split at member <;> exact ⟨new, member, rfl, rfl⟩

omit [JsText] in
/-- `completeInfrastructureJob` leaves no row of the job unfinished. -/
theorem completeInfrastructureJob_completes {state : State} {terminal row : JobRow}
    {conclusion : Conclusion} {summary : String} {now : Millis}
    (member : row ∈ (state.completeInfrastructureJob terminal conclusion summary now).jobs)
    (same : row.id = terminal.id) : row.status = .completed := by
  obtain ⟨old, present, rfl⟩ := mem_update.mp member
  split
  · rfl
  · rename_i spared
    rw [if_neg spared] at same
    cases status : old.status with
    | completed => rfl
    | queued | assigned | running => simp [same, status] at spared

omit [JsText] in
theorem completeInfrastructureJob_unchanged {state : State} {terminal : JobRow}
    {conclusion : Conclusion} {summary : String} {now : Millis}
    (done : ∀ row ∈ state.jobs, row.id = terminal.id → row.status = .completed) :
    (state.completeInfrastructureJob terminal conclusion summary now).jobs = state.jobs := by
  refine update_eq_self.mpr fun row member picked => ?_
  simp only [Bool.and_eq_true, Bool.or_eq_true, decide_eq_true_eq] at picked
  rw [done row member picked.1] at picked
  simp at picked

/-- At the last attempt the `catch` block completes the rows of its job. -/
theorem initializeCatch_completes {now : Millis} {state : State} {claim row : JobRow}
    {error : String}
    (attempts : maxInitializationAttempts ≤ claim.initializationAttemptCount)
    (member : row ∈ (initializeCatch now state claim error).1.jobs)
    (same : row.id = claim.job.id) : row.status = .completed := by
  unfold initializeCatch at member
  rw [if_pos attempts] at member
  dsimp only at member
  split at member
  · rename_i gone
    exact absurd same (row_eq_none.mp gone row member)
  · rename_i terminal found
    split at member
    · rename_i gone
      exact absurd same (row_eq_none.mp gone row member)
    · rw [awaitThen_state] at member
      obtain ⟨old, present, id, status⟩ := syncCheck_status member
      rw [← status]
      refine completeInfrastructureJob_completes present ?_
      rw [id, same, jobRow?_id found]

/-- The `catch` block leaves the table iff it has nothing to change. -/
theorem initializeCatch_unchanged_iff (now : Millis) {state : State} (tidy : Tidy state)
    (claim : JobRow) (error : String) :
    (initializeCatch now state claim error).1.jobs = state.jobs ↔ FailsHarmlessly state claim := by
  by_cases attempts : maxInitializationAttempts ≤ claim.initializationAttemptCount
  · unfold FailsHarmlessly
    rw [if_pos attempts]
    by_cases done : ∀ row ∈ state.jobs, row.id = claim.job.id → row.status = .completed
    · -- Nothing is marked and nothing completed; what is left is the check.
      have idle : (state.updateJobs (initializing claim.job.id) fun job =>
          { job with
            initializationNeeded := .ready
            initializationRetryAt := none
            lastError := some (truncateDiagnostic error) }).jobs = state.jobs := by
        refine update_eq_self.mpr fun row member picked => ?_
        obtain ⟨⟨id, queued⟩, -⟩ := initializing_iff.mp picked
        rw [done row member id] at queued
        cases queued
      unfold initializeCatch
      rw [if_pos attempts]
      dsimp only
      revert idle
      generalize state.updateJobs (initializing claim.job.id) _ = marked
      intro idle
      split
      · rename_i gone
        refine iff_of_true idle fun row member same => ?_
        exact absurd same (row_eq_none.mp gone row (idle ▸ member))
      · rename_i terminal found
        have finished : ∀ row ∈ marked.jobs, row.id = terminal.id → row.status = .completed :=
          fun row member same => done row (idle ▸ member) (same.trans (jobRow?_id found))
        have present : terminal ∈ state.jobs := idle ▸ jobRow?_mem found
        generalize written : marked.completeInfrastructureJob terminal .failure _ now = completed
        have unchanged : completed.jobs = state.jobs := by
          rw [← written, completeInfrastructureJob_unchanged finished, idle]
        have again : completed.jobRow? claim.job.id = some terminal := by
          rw [← found]
          unfold State.jobRow?
          rw [unchanged, idle]
        rw [again]
        dsimp only
        rw [awaitThen_state, ← unchanged]
        have settled : Tidy completed :=
          ⟨by rw [unchanged]; exact tidy.distinct, by rw [unchanged]; exact tidy.named⟩
        rw [syncCheck_unchanged_iff settled (unchanged ▸ present)
          (done terminal present (jobRow?_id found))]
        constructor
        · intro synced row member same
          rw [settled.eq_of_id member (unchanged ▸ present) (same.trans (jobRow?_id found).symm)]
          exact ⟨done terminal present (jobRow?_id found), synced⟩
        · exact fun harmless => (harmless terminal (unchanged ▸ present) (jobRow?_id found)).2
    · refine iff_of_false (fun kept => done fun row member same => ?_) fun harmless => ?_
      · exact initializeCatch_completes attempts (kept ▸ member) same
      · exact done fun row member same => (harmless row member same).1
  · unfold initializeCatch FailsHarmlessly
    rw [if_neg attempts, if_neg attempts]
    refine guarded_update_iff fun row picked => ?_
    refine ne_of_needed (initializing_iff.mp picked).2 ?_
    simp

/-! ### What an attempt does when it resumes -/

theorem initializeCheckRun_unchanged_iff {state : State} (tidy : Tidy state) (now : Millis)
    {claim : JobRow} {job : QueuedJob} (same : job.id = claim.job.id) :
    (initializeCheckRun now state claim job).1.jobs = state.jobs ↔
      (turnAfterVariables job).harmless state claim := by
  unfold initializeCheckRun turnAfterVariables
  split
  · exact iff_of_true rfl trivial
  · exact initializeStore_unchanged_iff tidy now same

theorem initializeVariables_unchanged_iff {state : State} (tidy : Tidy state) (now : Millis)
    {claim : JobRow} {job : QueuedJob} (same : job.id = claim.job.id) :
    (initializeVariables now state claim job).1.jobs = state.jobs ↔
      (turnAfterSnapshot job).harmless state claim := by
  unfold initializeVariables turnAfterSnapshot
  split
  · exact iff_of_true rfl trivial
  · exact initializeCheckRun_unchanged_iff tidy now same

omit [JsText] in
theorem completeInitializingJob_unchanged_iff (now : Millis) (state : State) (claim : JobRow)
    (conclusion : Conclusion) (summary : String) :
    ((state.completeInitializingJob claim conclusion summary now).scheduleAlarm now).jobs =
      state.jobs ↔ Unclaimed state claim.id := by
  refine guarded_update_iff fun row picked => ?_
  refine ne_of_needed (initializing_iff.mp picked).2 ?_
  simp

/-- Resuming an attempt leaves the table iff what it does next has nothing to change. -/
theorem resumeAttempt_unchanged_iff {state : State} (tidy : Tidy state) {frame : Frame}
    (ok : FrameOk state frame) {claim : JobRow} (own : frame.attempt = some claim) (now : Millis)
    (reply : Reply) :
    (resumeFrame now state reply frame).1.jobs = state.jobs ↔
      (frame.turn reply).harmless state claim := by
  cases frame with
  | initMergeSnapshot made job =>
      cases own
      cases reply with
      | mergeSnapshot snapshot =>
          cases snapshot with
          | pending => exact initializeCatch_unchanged_iff now tidy _ _
          | conflicted | changed => exact completeInitializingJob_unchanged_iff now state _ _ _
          | ready mergeSha => exact initializeVariables_unchanged_iff tidy now ok
      | settled | failed | token | actionsVariables | checkRun | deployment | credential =>
          exact initializeCatch_unchanged_iff now tidy _ _
  | initVariables made job =>
      cases own
      cases reply with
      | actionsVariables values => exact initializeCheckRun_unchanged_iff tidy now ok
      | settled | failed | token | mergeSnapshot | checkRun | deployment | credential =>
          exact initializeCatch_unchanged_iff now tidy _ _
  | initCheckRun made job =>
      cases own
      cases reply with
      | checkRun id => exact initializeStore_unchanged_iff tidy now ok
      | settled | failed | token | mergeSnapshot | actionsVariables | deployment | credential =>
          exact initializeCatch_unchanged_iff now tidy _ _
  | _ => cases own

/-! ### Runs -/

/-- The state in which a task goes on. -/
def State.without (state : State) (task : Nat) : State :=
  { state with tasks := state.tasks.eraseIdx task }

/-- The code of an attempt that an event runs after its first `await`: what follows the
call to GitHub it waited for, or the `catch` block when the dispatch inside its `try`
throws. -/
inductive AttemptRuns (state : State) : Event → JobRow → State → State → Prop where
  | resumes {task : Nat} {reply : Reply} {now : Millis} {frame : Frame} {frames : List Frame}
      {claim : JobRow} (found : state.tasks[task]? = some (frame :: frames))
      (own : frame.attempt = some claim) :
      AttemptRuns state (.resume task reply now) claim (state.without task)
        (resumeFrame now (state.without task) reply frame).1
  | catches {task : Nat} {reply : Reply} {now : Millis} {frame : Frame} {frames : List Frame}
      {claim : JobRow} (found : state.tasks[task]? = some (frame :: frames))
      (thrown : (resumeFrame now (state.without task) reply frame).2 = .threw)
      (waits : .initDispatched claim ∈ frames) :
      AttemptRuns state (.resume task reply now) claim
        (resumeFrame now (state.without task) reply frame).1
        (initializeCatch now (resumeFrame now (state.without task) reply frame).1 claim
          "job dispatch failed").1

/-- An attempt whose claim was superseded, or whose job has left the queue, changes
nothing in the jobs table. -/
def InitializationFenced (state : State) (event : Event) : Prop :=
  ∀ claim before after, AttemptRuns state event claim before after → Stale before claim →
    after.jobs = before.jobs

/-- Such an attempt has nothing to change: the row its next statement is guarded by is
not claimed by a newer attempt, and a last attempt does not fail while its job is
unfinished. -/
structure Harmless (state : State) (event : Event) : Prop where
  resumes : ∀ task reply now frame frames claim, event = .resume task reply now →
    state.tasks[task]? = some (frame :: frames) → frame.attempt = some claim →
    Stale state claim → (frame.turn reply).harmless state claim
  catches : ∀ task reply now frame frames claim, event = .resume task reply now →
    state.tasks[task]? = some (frame :: frames) →
    (resumeFrame now (state.without task) reply frame).2 = .threw →
    .initDispatched claim ∈ frames →
    Stale (resumeFrame now (state.without task) reply frame).1 claim →
    FailsHarmlessly (resumeFrame now (state.without task) reply frame).1 claim

theorem initializationFenced_iff {state : State} (ready : Ready state) (event : Event) :
    InitializationFenced state event ↔ Harmless state event := by
  have tidy : ∀ task, Tidy (state.without task) := fun _ => ⟨ready.tidy.distinct, ready.tidy.named⟩
  have ok : ∀ {task : Nat} {frame : Frame} {frames : List Frame},
      state.tasks[task]? = some (frame :: frames) → FrameOk state frame := fun found =>
    ready.frames _ (List.mem_of_getElem? found) _ List.mem_cons_self
  have resumed : ∀ {task : Nat} {frame : Frame} {frames : List Frame} (reply : Reply)
      (now : Millis), state.tasks[task]? = some (frame :: frames) →
      Tidy (resumeFrame now (state.without task) reply frame).1 := fun reply now found =>
    (resumeFrame_sound (tidy _) now (ok found) reply).trace.tidy (tidy _)
  constructor
  · intro fenced
    constructor
    · rintro task reply now frame frames claim rfl found own stale
      exact (resumeAttempt_unchanged_iff (tidy task) (ok found) own now reply).mp
        (fenced claim _ _ (.resumes found own) stale)
    · rintro task reply now frame frames claim rfl found thrown waits stale
      exact (initializeCatch_unchanged_iff now (resumed reply now found) claim _).mp
        (fenced claim _ _ (.catches found thrown waits) stale)
  · intro harmless claim before after runs stale
    cases runs with
    | @resumes task reply now frame frames _ found own =>
        exact (resumeAttempt_unchanged_iff (tidy task) (ok found) own now reply).mpr
          (harmless.resumes task reply now frame frames claim rfl found own stale)
    | @catches task reply now frame frames _ found thrown waits =>
        exact (initializeCatch_unchanged_iff now (resumed reply now found) claim _).mpr
          (harmless.catches task reply now frame frames claim rfl found thrown waits stale)

/-- In a run every attempt without a claim leaves the jobs table as it is iff every one
of them has nothing to change. -/
theorem initialization_fenced_iff (events : List Event) :
    Along step InitializationFenced initial events ↔ Along step Harmless initial events := by
  constructor
  · exact fun fenced => fenced.safe (fun _ event ready _ => ready.step event)
      (fun _ event ready good => (initializationFenced_iff ready event).mp good) ready_initial
  · exact fun harmless => harmless.safe (fun _ event ready _ => ready.step event)
      (fun _ event ready good => (initializationFenced_iff ready event).mpr good) ready_initial

end Text

section Sample

open scoped Ascii

/-- The first attempt waits for the variables of the repository past its claim, and the
alarm lets a second one claim the job. -/
def supersededAttempt : List Event :=
  [.enqueue (Ascii.job 1) "d" 0, .alarm 120000]

/-- The first attempt then fails and gives the claim of the second one back. -/
theorem superseded_attempt_releases_claim :
    (run step initial supersededAttempt).jobs.map
        (fun row => (row.initializationNeeded, row.initializationAttemptCount)) =
        [(.running, 2)] ∧
      (run step initial (supersededAttempt ++ [.resume 0 (.failed "no answer") 130000])).jobs.map
        (fun row => (row.initializationNeeded, row.initializationAttemptCount)) =
        [(.pending, 2)] ∧
      ¬ Along step InitializationFenced initial
        (supersededAttempt ++ [.resume 0 (.failed "no answer") 130000]) := by
  refine ⟨by decide, by decide, fun fenced => ?_⟩
  obtain ⟨claim, job, frames, found, count, rowId, jobId⟩ : ∃ claim job frames,
      (run step initial supersededAttempt).tasks[0]? = some (.initVariables claim job :: frames) ∧
        claim.initializationAttemptCount = 1 ∧ claim.id = 1 ∧ claim.job.id = 1 :=
    ⟨_, _, _, rfl, rfl, rfl, rfl⟩
  have harmless := (initializationFenced_iff (ready_run supersededAttempt) _).mp
    (Along.append.mp fenced).2.1
  have newer : ∃ row ∈ (run step initial supersededAttempt).jobs,
      row.id = 1 ∧ 1 < row.initializationAttemptCount := by decide
  have claimed : ∃ row ∈ (run step initial supersededAttempt).jobs,
      initializing 1 row = true := by decide
  have idle := harmless.resumes 0 _ _ _ _ claim rfl found rfl
    (.inl (by rw [rowId, count]; exact newer))
  have early : ¬ maxInitializationAttempts ≤ claim.initializationAttemptCount := by
    rw [count]
    decide
  change FailsHarmlessly _ claim at idle
  unfold FailsHarmlessly at idle
  rw [if_neg early, jobId] at idle
  obtain ⟨row, member, picked⟩ := claimed
  rw [idle row member] at picked
  cases picked

end Sample

end GitZero.ControlPlane
