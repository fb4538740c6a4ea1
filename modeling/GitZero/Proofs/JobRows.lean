/-
Module: GitZero.Proofs.JobRows
Purpose: The columns of a jobs row agree in every reachable state, and the result
  of a completed row is final until it is pruned.
Trusted boundary: none
Main exports: RowValid, RowStep.valid, SameResult, Trace.valid, Trace.result_final,
  job_rows_valid_and_final
-/
import GitZero.ControlPlane.Events

namespace GitZero.ControlPlane

open Table Machine

/-- What the status of a row says about its other columns. -/
structure RowValid (row : JobRow) : Prop where
  queued : row.status = .queued →
    row.agentId = none ∧ row.leaseExpiresAt = none ∧
      row.attemptCount ≤ maxAssignmentAttempts - 1
  active : row.status = .assigned ∨ row.status = .running →
    row.agentId ≠ none ∧ row.leaseExpiresAt ≠ none ∧ row.initializationNeeded = .ready ∧
      1 ≤ row.attemptCount ∧ row.attemptCount ≤ maxAssignmentAttempts
  initializing : row.initializationNeeded ≠ .ready →
    row.status = .queued ∧ row.initializationRetryAt ≠ none
  completed : row.status = .completed →
    row.leaseExpiresAt = none ∧ row.conclusion ≠ none ∧ row.completedAt ≠ none

theorem RowValid.of_active {row : JobRow} (valid : RowValid row) (active : row.active = true) :
    row.agentId ≠ none ∧ row.leaseExpiresAt ≠ none ∧ row.initializationNeeded = .ready ∧
      1 ≤ row.attemptCount ∧ row.attemptCount ≤ maxAssignmentAttempts :=
  valid.active (by simpa [JobRow.active] using active)

/-- Every statement on `jobs` keeps the columns of its rows in agreement. -/
theorem RowStep.valid {kind : RowKind} {old new : JobRow} (rowStep : RowStep kind old new)
    (valid : RowValid old) : RowValid new := by
  cases rowStep with
  | claimInitialization now queued needed =>
      have columns := valid.queued queued
      constructor <;> simp_all [ControlPlane.claimInitialization]
  | storeInitialization job queued claimed same =>
      have columns := valid.queued queued
      constructor <;> simp_all
  | retryInitialization retryAt detail queued claimed =>
      have columns := valid.queued queued
      constructor <;> simp_all
  | exhaustInitialization detail queued claimed =>
      have columns := valid.queued queued
      constructor <;> simp_all
  | completeInitializing now conclusion summary queued claimed =>
      have columns := valid.queued queued
      constructor <;> simp_all
  | completeInfrastructure now conclusion summary unfinished waited =>
      constructor <;> simp
  | start now owner assigned =>
      have columns := valid.active (.inl assigned)
      constructor <;> simp_all
  | reject requirements reason owner assigned =>
      have columns := valid.active (.inl assigned)
      constructor <;> simp_all
      omega
  | requeue reason active attempts =>
      have columns := valid.of_active active
      constructor <;> simp_all
      omega
  | finish now conclusion summary owner active =>
      have columns := valid.of_active active
      constructor <;> simp_all
  | renew expiresAt owner active =>
      have columns := valid.of_active active
      have unfinished : old.status ≠ .completed ∧ old.status ≠ .queued := by
        constructor <;> intro status <;> simp [JobRow.active, status] at active
      constructor <;> simp_all
  | syncCheck => exact ⟨valid.queued, valid.active, valid.initializing, valid.completed⟩

theorem RowValid.assign {row : JobRow} (valid : RowValid row) (queued : row.status = .queued)
    (ready : row.initializationNeeded = .ready) (agent : AgentId) (expiresAt : Millis) :
    RowValid
      { row with
        status := .assigned
        agentId := some agent
        leaseExpiresAt := some expiresAt
        attemptCount := row.attemptCount + 1
        lastError := none } := by
  obtain ⟨-, -, attempts⟩ := valid.queued queued
  have bounded : row.attemptCount + 1 ≤ maxAssignmentAttempts := by
    simp only [maxAssignmentAttempts] at attempts ⊢
    omega
  constructor <;> simp [ready, bounded]

theorem queuedRow_valid (now : Millis) (runNumber : Nat) (job : QueuedJob) :
    RowValid (queuedRow now runNumber job) := by
  constructor <;> simp [queuedRow]

/-- The columns in which the result of a run is stored. -/
structure SameResult (old new : JobRow) : Prop where
  id : new.id = old.id
  status : new.status = old.status
  conclusion : new.conclusion = old.conclusion
  summary : new.summary = old.summary
  completedAt : new.completedAt = old.completedAt

theorem SameResult.refl (row : JobRow) : SameResult row row := ⟨rfl, rfl, rfl, rfl, rfl⟩

theorem SameResult.trans {first second third : JobRow} (front : SameResult first second)
    (back : SameResult second third) : SameResult first third :=
  ⟨back.id.trans front.id, back.status.trans front.status,
    back.conclusion.trans front.conclusion, back.summary.trans front.summary,
    back.completedAt.trans front.completedAt⟩

theorem RowStep.result_final {kind : RowKind} {old new : JobRow} (rowStep : RowStep kind old new)
    (completed : old.status = .completed) : SameResult old new := by
  cases rowStep with
  | syncCheck => exact ⟨rfl, rfl, rfl, rfl, rfl⟩
  | completeInfrastructure now conclusion summary unfinished => exact absurd completed unfinished
  | claimInitialization now queued | storeInitialization job queued
  | retryInitialization retryAt detail queued | exhaustInitialization detail queued
  | completeInitializing now conclusion summary queued => simp [completed] at queued
  | start now owner assigned | reject requirements reason owner assigned =>
      simp [completed] at assigned
  | requeue reason active | finish now conclusion summary owner active
  | renew expiresAt owner active => simp [JobRow.active, completed] at active

section Text

variable [JsText]

theorem Acts.valid {action : Action} {before after : State} (acts : Acts action before after)
    (tidy : Tidy before) (valid : ∀ row ∈ before.jobs, RowValid row) :
    ∀ row ∈ after.jobs, RowValid row := by
  cases acts with
  | quiet core _ => rwa [core.jobs]
  | job kind id selected set rows _ _ =>
      exact forall_update valid fun row member picked kept => (rows row member picked).2.valid kept
  | assign queued candidate now member status ready available =>
      refine forall_update valid fun row present picked kept => ?_
      simp only [Bool.and_eq_true, decide_eq_true_eq] at picked
      have same : row = queued := tidy.eq_of_id present member picked.1
      subst same
      exact kept.assign status ready candidate.agentId _
  | insert now runNumber job fresh =>
      intro row member
      rcases List.mem_append.mp member with old | new
      · exact valid row old
      · rw [List.mem_singleton.mp new]
        exact queuedRow_valid now runNumber job
  | prune now => exact forall_delete valid
  | sockets | shut | greet | connect | dropSocket | countRequeue | send => exact valid
  | releaseRun runId reason => rwa [(before.releaseConcurrencyForRun_frame runId reason).jobs]
  | release requestId runId agent =>
      rwa [(before.releaseConcurrency_frame requestId runId agent).jobs]
  | acquire socket agent row requestId unitId group cancelInProgress queue now _ =>
      rwa [(before.acquireConcurrency_frame socket agent row requestId unitId group
        cancelInProgress queue now).jobs]

/-- Actions keep the rows valid. -/
theorem Trace.valid {allowed : Action → Prop} {before after : State}
    (trace : Trace allowed before after) (tidy : Tidy before)
    (valid : ∀ row ∈ before.jobs, RowValid row) : ∀ row ∈ after.jobs, RowValid row := by
  have keeps : ∀ action first second, allowed action → Acts action first second →
      (Tidy first ∧ ∀ row ∈ first.jobs, RowValid row) →
      Tidy second ∧ ∀ row ∈ second.jobs, RowValid row :=
    fun action first second _ acts inv => ⟨acts.tidy inv.1, acts.valid inv.1 inv.2⟩
  exact (trace.invariant keeps ⟨tidy, valid⟩).2

/-- The row is still there with its result, or a prune since `before` deleted it. -/
def Final (before after : State) (row : JobRow) : Prop :=
  (∃ kept ∈ after.jobs, SameResult row kept) ∨
    ∃ cutoff ∈ after.cutoffs.drop before.cutoffs.length, State.prunable cutoff row = true

theorem Acts.cutoffs {action : Action} {before after : State} (acts : Acts action before after) :
    ∃ more, after.cutoffs = before.cutoffs ++ more := by
  cases acts with
  | quiet core _ => exact ⟨[], by simp [core.cutoffs]⟩
  | sockets | shut | greet | connect | dropSocket | job | insert | countRequeue | send | assign =>
      exact ⟨[], by simp [State.updateSocket, closeSocket, acceptHello, acceptSocket,
        State.updateJobs, claimJob]⟩
  | prune => exact ⟨_, rfl⟩
  | releaseRun runId reason =>
      exact ⟨[], by simp [(before.releaseConcurrencyForRun_frame runId reason).cutoffs]⟩
  | release requestId runId agent =>
      exact ⟨[], by simp [(before.releaseConcurrency_frame requestId runId agent).cutoffs]⟩
  | acquire socket agent row requestId unitId group cancelInProgress queue now _ =>
      exact ⟨[], by simp [(before.acquireConcurrency_frame socket agent row requestId unitId group
        cancelInProgress queue now).cutoffs]⟩

theorem Acts.result_final {action : Action} {before after : State}
    (acts : Acts action before after) {row : JobRow} (member : row ∈ before.jobs)
    (completed : row.status = .completed) : Final before after row := by
  have kept : after.jobs = before.jobs → Final before after row :=
    fun same => .inl ⟨row, same ▸ member, .refl row⟩
  cases acts with
  | quiet core _ => exact kept core.jobs
  | job kind id selected set rows _ _ =>
      refine .inl ⟨_, mem_update.mpr ⟨row, member, rfl⟩, ?_⟩
      split
      · exact (rows row member ‹_›).2.result_final completed
      · exact .refl row
  | assign queued candidate now present status ready available =>
      refine .inl ⟨_, mem_update.mpr ⟨row, member, rfl⟩, ?_⟩
      simp [completed, SameResult.refl]
  | insert now runNumber job fresh =>
      exact .inl ⟨row, List.mem_append_left _ member, .refl row⟩
  | prune now =>
      cases doomed : State.prunable (now - retentionMilliseconds) row with
      | true => exact .inr ⟨now - retentionMilliseconds, by simp [State.prune], doomed⟩
      | false => exact .inl ⟨row, mem_delete.mpr ⟨member, doomed⟩, .refl row⟩
  | sockets | shut | greet | connect | dropSocket | countRequeue | send => exact kept rfl
  | releaseRun runId reason =>
      exact kept (before.releaseConcurrencyForRun_frame runId reason).jobs
  | release requestId runId agent =>
      exact kept (before.releaseConcurrency_frame requestId runId agent).jobs
  | acquire socket agent row requestId unitId group cancelInProgress queue now _ =>
      exact kept (before.acquireConcurrency_frame socket agent row requestId unitId group
        cancelInProgress queue now).jobs

theorem Trace.cutoffs {allowed : Action → Prop} {before after : State}
    (trace : Trace allowed before after) : ∃ more, after.cutoffs = before.cutoffs ++ more := by
  induction trace with
  | refl => exact ⟨[], by simp⟩
  | tail _ last inductionHypothesis =>
      obtain ⟨action, -, acts⟩ := last
      obtain ⟨early, grown⟩ := inductionHypothesis
      obtain ⟨late, grownLater⟩ := acts.cutoffs
      exact ⟨early ++ late, by rw [grownLater, grown, List.append_assoc]⟩

/-- The result of a completed row is final along every trace. -/
theorem Trace.result_final {allowed : Action → Prop} {before after : State}
    (trace : Trace allowed before after) {row : JobRow} (member : row ∈ before.jobs)
    (completed : row.status = .completed) : Final before after row := by
  induction trace with
  | refl => exact .inl ⟨row, member, .refl row⟩
  | tail front last inductionHypothesis =>
      obtain ⟨action, -, acts⟩ := last
      obtain ⟨early, grown⟩ := Trace.cutoffs front
      obtain ⟨late, grownLater⟩ := acts.cutoffs
      rcases inductionHypothesis with ⟨kept, present, same⟩ | ⟨cutoff, pruned, doomed⟩
      · rcases acts.result_final present (same.status.trans completed) with
          ⟨further, found, still⟩ | ⟨cutoff, pruned, doomed⟩
        · exact .inl ⟨further, found, same.trans still⟩
        · refine .inr ⟨cutoff, ?_, ?_⟩
          · simp only [grownLater, List.drop_left] at pruned
            simp [grownLater, grown, pruned]
          · simpa [State.prunable, same.status, same.completedAt] using doomed
      · refine .inr ⟨cutoff, ?_, doomed⟩
        simp only [grown, List.drop_left] at pruned
        simp [grownLater, grown, pruned]

/-- In every reachable state the columns of every row agree with its status, and
whatever happens later, a completed row keeps its result until a prune deletes it. -/
theorem job_rows_valid_and_final (events later : List Event) :
    let reached := run step initial events
    (∀ row ∈ reached.jobs, RowValid row) ∧
      ∀ row ∈ reached.jobs, row.status = .completed →
        Final reached (run step reached later) row := by
  constructor
  · exact (run_trace ready_initial events).valid ready_initial.tidy fun _ member => nomatch member
  · intro row member completed
    exact (run_trace (ready_run events) later).result_final member completed

end Text

end GitZero.ControlPlane
