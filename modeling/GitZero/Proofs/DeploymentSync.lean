/-
Module: GitZero.Proofs.DeploymentSync
Purpose: In every reachable state the deployments table is consistent: what is
  marked as synced is synced, what is not has a deadline, and a completed job
  leaves no deployment in progress.
Trusted boundary: none
Main exports: DeploymentRow.Consistent, DeploymentsConsistent, deploymentUpkeep,
  deployments_consistent
-/
import GitZero.ControlPlane.Upkeep

namespace GitZero.ControlPlane

open Table

/-! ### The invariant -/

/-- The synchronization columns of one row. -/
structure DeploymentRow.Consistent (row : DeploymentRow) : Prop where
  synced : row.syncNeeded = .synced →
    row.syncedState = some row.desiredState ∧ row.syncedEnvironmentUrl = row.environmentUrl
  retried : row.syncNeeded ≠ .synced → row.syncRetryAt ≠ none

/-- A deployment belongs to a job that has been initialized, so that the attempts that complete a
job without looking at its deployments never meet one. -/
structure DeploymentsConsistent (state : State) : Prop where
  tidy : Tidy state
  initialized : ∀ row ∈ state.jobs, row.active = true → row.initializationNeeded = .ready
  consistent : ∀ deployment ∈ state.deployments, deployment.Consistent
  owned : ∀ deployment ∈ state.deployments, ∃ row ∈ state.jobs, row.id = deployment.jobId ∧
    row.initializationNeeded = .ready ∧
      (row.status = .completed → deployment.desiredState ≠ .inProgress)

theorem DeploymentsConsistent.tables {before after : State} (sound : DeploymentsConsistent before)
    (jobs : after.jobs = before.jobs) (deployments : after.deployments = before.deployments) :
    DeploymentsConsistent after := by
  refine ⟨⟨?_, ?_⟩, ?_, ?_, ?_⟩
  · rw [jobs]
    exact sound.tidy.distinct
  · rw [jobs]
    exact sound.tidy.named
  · rw [jobs]
    exact sound.initialized
  · rw [deployments]
    exact sound.consistent
  · rw [jobs, deployments]
    exact sound.owned

/-! ### Writes to the jobs -/

theorem Tidy.updateJobs {state : State} (tidy : Tidy state) {selected : JobRow → Bool}
    {set : JobRow → JobRow}
    (keeps : ∀ row ∈ state.jobs, selected row = true →
      (set row).id = row.id ∧ (set row).job.id = row.id) :
        Tidy (state.updateJobs selected set) := by
  refine ⟨nodup_key_update ?_ tidy.distinct, forall_update tidy.named fun row member picked _ => ?_⟩
  · intro row member picked
    exact (keeps row member picked).1
  · obtain ⟨sameId, sameJob⟩ := keeps row member picked
    rw [sameId, sameJob]

theorem DeploymentsConsistent.ordinary {state : State} (sound : DeploymentsConsistent state)
    {selected : JobRow → Bool} {set : JobRow → JobRow}
    (rows : ∀ row ∈ state.jobs, selected row = true → Ordinary row (set row)) :
    DeploymentsConsistent (state.updateJobs selected set) := by
  refine ⟨sound.tidy.updateJobs ?_, ?_, sound.consistent, ?_⟩
  · intro row member picked
    have change := rows row member picked
    exact ⟨change.id, by rw [change.job, sound.tidy.named row member]⟩
  · refine forall_update sound.initialized fun row member picked before active => ?_
    have change := rows row member picked
    rcases change.activates active with wasActive | ready
    · exact change.stays (before wasActive)
    · exact ready
  · intro deployment member
    obtain ⟨row, present, same, ready, settled⟩ := sound.owned deployment member
    refine ⟨_, mem_update.mpr ⟨row, present, rfl⟩, ?_⟩
    by_cases picked : selected row = true
    · have change := rows row present picked
      rw [if_pos picked]
      refine ⟨change.id.trans same, change.stays ready, fun completed => ?_⟩
      rcases change.completes completed with already | uninitialized
      · exact settled already
      · exact absurd ready uninitialized
    · rw [if_neg picked]
      exact ⟨same, ready, settled⟩

theorem DeploymentRow.Consistent.desire {row : DeploymentRow} (consistent : row.Consistent)
    (desired : DeploymentState) (url : Option String) (now : Millis) :
    (State.desireDeployment desired url now row).Consistent := by
  by_cases running : row.syncNeeded = .running
  · constructor
    · intro synced
      simp [State.desireDeployment, running] at synced
    · intro _
      have retried := consistent.retried (by rw [running]; exact nofun)
      simpa [State.desireDeployment, running] using retried
  · constructor
    · intro synced
      simp [State.desireDeployment, running] at synced
    · intro _
      simp [State.desireDeployment, running]

/-- A job is completed together with its outstanding deployments. -/
theorem DeploymentsConsistent.completed {state : State} (sound : DeploymentsConsistent state)
    {selected : JobRow → Bool} {set : JobRow → JobRow} (jobId : JobId) (now : Millis)
    (named : ∀ row, selected row = true → row.id = jobId)
    (same : ∀ row, (set row).id = row.id ∧ (set row).job = row.job)
    (completes : ∀ row, (set row).status = .completed)
    (ready : ∀ row, row.initializationNeeded = .ready → (set row).initializationNeeded = .ready) :
    DeploymentsConsistent
      ((state.updateJobs selected set).finishOutstandingDeployments jobId now) := by
  have keeps : Tidy (state.updateJobs selected set) := by
    refine sound.tidy.updateJobs fun row member _ => ⟨(same row).1, ?_⟩
    rw [(same row).2, sound.tidy.named row member]
  refine ⟨⟨keeps.distinct, keeps.named⟩, ?_, ?_, ?_⟩
  · refine forall_update sound.initialized fun row _ _ _ active => ?_
    exact absurd (completes row) (Upkeep.active_open active)
  · exact forall_update sound.consistent fun row _ _ consistent => consistent.desire _ _ _
  · intro deployment member
    obtain ⟨old, present, rfl⟩ := mem_update.mp member
    obtain ⟨row, owner, rowId, initialized, settled⟩ := sound.owned old present
    refine ⟨_, mem_update.mpr ⟨row, owner, rfl⟩, ?_⟩
    have sameJob : (if (decide (old.jobId = jobId) && decide (old.desiredState = .inProgress)) =
      true
        then State.desireDeployment .error none now old else old).jobId = old.jobId := by
      split <;> rfl
    rw [sameJob]
    by_cases picked : selected row = true
    · rw [if_pos picked]
      refine ⟨(same row).1.trans rowId, ready row initialized, fun _ => ?_⟩
      split
      · exact nofun
      · next outside =>
          have atJob : old.jobId = jobId := rowId.symm.trans (named row picked)
          simpa [atJob] using outside
    · rw [if_neg picked]
      refine ⟨rowId, initialized, fun completed => ?_⟩
      split
      · exact nofun
      · exact settled completed

theorem DeploymentsConsistent.complete {state : State} (sound : DeploymentsConsistent state)
    (row : JobRow) (conclusion : Conclusion) (summary : String) (now : Millis) :
    DeploymentsConsistent (state.completeInfrastructureJob row conclusion summary now) := by
  refine sound.completed row.id now ?_ (fun _ => ⟨rfl, rfl⟩) (fun _ => rfl) fun _ _ => rfl
  intro job picked
  simp only [Bool.and_eq_true, decide_eq_true_eq] at picked
  exact picked.1

/-- The last initialization attempt marks the row as ready before it completes it. -/
theorem DeploymentsConsistent.marked {state : State} (sound : DeploymentsConsistent state)
    (jobId : JobId) {set : JobRow → JobRow}
    (same : ∀ row, (set row).id = row.id ∧ (set row).status = row.status)
    (named : ∀ row ∈ state.jobs, row.id = jobId → (set row).job.id = jobId)
    (ready : ∀ row, (set row).initializationNeeded = .ready) :
    DeploymentsConsistent (state.updateJobs (initializing jobId) set) := by
  refine ⟨sound.tidy.updateJobs ?_, ?_, sound.consistent, ?_⟩
  · intro row member picked
    simp only [initializing, Bool.and_eq_true, decide_eq_true_eq] at picked
    exact ⟨(same row).1, (named row member picked.1.1).trans picked.1.1.symm⟩
  · exact forall_update sound.initialized fun row _ _ _ _ => ready row
  · intro deployment member
    obtain ⟨row, present, rowId, initialized, settled⟩ := sound.owned deployment member
    refine ⟨_, mem_update.mpr ⟨row, present, rfl⟩, ?_⟩
    split
    · exact ⟨(same row).1.trans rowId, ready row, fun completed =>
        settled ((same row).2 ▸ completed)⟩
    · exact ⟨rowId, initialized, settled⟩

theorem Prepared.id_eq {Answers : QueuedJob → Reply → Prop} {original job : QueuedJob}
    (prepared : Prepared Answers original job) : job.id = original.id := by
  have kept : (withExecutionRef original).id = original.id := by
    unfold withExecutionRef
    split <;> rfl
  induction prepared with
  | merged => exact kept
  | head => exact kept
  | snapshot => exact kept
  | actionsVariables values _ _ inductionHypothesis => exact inductionHypothesis
  | checkRun id _ _ inductionHypothesis => exact inductionHypothesis

/-! ### New and old jobs -/

theorem DeploymentsConsistent.insert {state : State} (sound : DeploymentsConsistent state)
    {job : QueuedJob} (now : Millis) (runNumber : Nat)
    (fresh : ∀ row ∈ state.jobs, row.id ≠ job.id) :
    DeploymentsConsistent { state with jobs := state.jobs ++ [queuedRow now runNumber job] } := by
  refine ⟨⟨nodup_key_append sound.tidy.distinct fresh, ?_⟩, ?_, sound.consistent, ?_⟩
  · intro row member
    rcases List.mem_append.mp member with old | new
    · exact sound.tidy.named row old
    · rw [List.mem_singleton.mp new]
      rfl
  · intro row member active
    rcases List.mem_append.mp member with old | new
    · exact sound.initialized row old active
    · rw [List.mem_singleton.mp new] at active
      exact nomatch active
  · intro deployment member
    obtain ⟨row, present, rest⟩ := sound.owned deployment member
    exact ⟨row, List.mem_append_left _ present, rest⟩

/-- Pruning deletes the deployments of the jobs that it deletes, and ids are distinct, so the job of
a deployment that stays is not deleted. -/
theorem DeploymentsConsistent.prune {state : State} (sound : DeploymentsConsistent state)
    (now : Millis) : DeploymentsConsistent (state.prune now) := by
  refine ⟨⟨nodup_key_delete sound.tidy.distinct, forall_delete sound.tidy.named⟩,
    forall_delete sound.initialized, forall_delete sound.consistent, ?_⟩
  intro deployment member
  obtain ⟨present, stays⟩ := mem_delete.mp member
  obtain ⟨row, owner, rowId, rest⟩ := sound.owned deployment present
  refine ⟨row, mem_delete.mpr ⟨owner, ?_⟩, rowId, rest⟩
  by_contra prunable
  rw [Bool.not_eq_false] at prunable
  have gone : (state.jobs.any fun row => decide (row.id = deployment.jobId) &&
      State.prunable (now - retentionMilliseconds) row) = true :=
    List.any_eq_true.mpr ⟨row, owner, by simp [rowId, prunable]⟩
  exact Bool.false_ne_true (stays.symm.trans gone)

/-! ### Writes to the deployments -/

/-- An update of deployments that keeps their jobs and desires no new progress. -/
theorem DeploymentsConsistent.updateDeployments {state : State}
    (sound : DeploymentsConsistent state) {selected : DeploymentRow → Bool}
    {set : DeploymentRow → DeploymentRow}
    (same : ∀ row, (set row).jobId = row.jobId ∧ (set row).desiredState = row.desiredState)
    (consistent : ∀ row, selected row = true → row.Consistent → (set row).Consistent) :
    DeploymentsConsistent
      { state with deployments := update state.deployments selected set } := by
  refine ⟨⟨sound.tidy.distinct, sound.tidy.named⟩, sound.initialized, ?_, ?_⟩
  · exact forall_update sound.consistent fun row _ picked => consistent row picked
  · refine forall_update sound.owned fun row _ _ owned => ?_
    rw [(same row).1, (same row).2]
    exact owned

theorem DeploymentsConsistent.deploy {state : State} (sound : DeploymentsConsistent state)
    {deployments : List DeploymentRow} (change : DeploymentChange state deployments) :
    DeploymentsConsistent { state with deployments := deployments } := by
  cases change with
  | started row member active unitId environment now =>
      refine ⟨⟨sound.tidy.distinct, sound.tidy.named⟩, sound.initialized, ?_, ?_⟩
      · intro deployment listed
        rcases List.mem_append.mp listed with old | new
        · exact sound.consistent deployment old
        · rw [List.mem_singleton.mp new]
          exact ⟨(fun wrong => nomatch wrong), fun _ => nofun⟩
      · intro deployment listed
        rcases List.mem_append.mp listed with old | new
        · exact sound.owned deployment old
        · rw [List.mem_singleton.mp new]
          exact ⟨row, member, (sound.tidy.named row member).symm,
            sound.initialized row member active,
            fun completed => absurd completed (Upkeep.active_open active)⟩
  | desired row member active unitId desired url now =>
      refine ⟨⟨sound.tidy.distinct, sound.tidy.named⟩, sound.initialized, ?_, ?_⟩
      · exact forall_update sound.consistent fun entry _ _ consistent => consistent.desire _ _ _
      · refine forall_update sound.owned fun entry _ picked _ => ?_
        simp only [Bool.and_eq_true, decide_eq_true_eq] at picked
        exact ⟨row, member, (sound.tidy.named row member).symm.trans picked.1.symm,
          sound.initialized row member active,
          fun completed => absurd completed (Upkeep.active_open active)⟩
  | claimed now key =>
      exact sound.updateDeployments (fun _ => ⟨rfl, rfl⟩) fun row _ _ =>
        ⟨(fun wrong => nomatch wrong), fun _ => nofun⟩
  | failed claim retryAt error =>
      exact sound.updateDeployments (fun _ => ⟨rfl, rfl⟩) fun row _ _ =>
        ⟨(fun wrong => nomatch wrong), fun _ => nofun⟩
  | identified claim id =>
      exact sound.updateDeployments (fun _ => ⟨rfl, rfl⟩) fun row _ consistent =>
        ⟨consistent.synced, consistent.retried⟩
  | synced claim now =>
      exact sound.updateDeployments (fun _ => ⟨rfl, rfl⟩) fun row _ _ =>
        ⟨fun _ => ⟨rfl, rfl⟩, fun unsynced => absurd rfl unsynced⟩
  | stale claim now =>
      exact sound.updateDeployments (fun _ => ⟨rfl, rfl⟩) fun row _ _ =>
        ⟨(fun wrong => nomatch wrong), fun _ => nofun⟩

/-! ### Every run -/

/-- Nothing is assumed of the enqueued jobs and of GitHub's replies. -/
def deploymentUpkeep : Upkeep where
  Inv := DeploymentsConsistent
  Known _ := True
  Accepts _ := True
  Answers _ _ := True
  tables jobs deployments sound := sound.tables jobs deployments
  tidy := DeploymentsConsistent.tidy
  known _ _ _ _ := trivial
  ordinary rows sound := sound.ordinary rows
  store _ prepared sound :=
    sound.marked _ (fun _ => ⟨rfl, rfl⟩) (fun _ _ _ => prepared.id_eq) fun _ => rfl
  complete row conclusion summary now sound := sound.complete row conclusion summary now
  exhaust conclusion summary now sound _ := by
    refine DeploymentsConsistent.complete (sound.marked _ ?_ ?_ ?_) _ _ _ _
    · exact fun _ => ⟨rfl, rfl⟩
    · exact fun row member atRow => (sound.tidy.named row member).trans atRow
    · exact fun _ => rfl
  finish jobId agentId conclusion summary now sound := by
    refine sound.completed jobId now ?_ (fun _ => ⟨rfl, rfl⟩) (fun _ => rfl) fun _ => id
    intro job picked
    simp only [Bool.and_eq_true, decide_eq_true_eq] at picked
    exact picked.1.1
  insert now runNumber _ fresh sound := sound.insert now runNumber fresh
  prune now sound := sound.prune now
  deploy change sound := sound.deploy change

section Text

variable [JsText]

/-- In every run a deployment that counts as synchronized was reported in its desired state, one
that does not is due at some time, and none of a completed job is in progress. -/
theorem deployments_consistent (events : List Event) :
    (∀ deployment ∈ (Machine.run step initial events).deployments,
      (deployment.syncNeeded = .synced →
        deployment.syncedState = some deployment.desiredState ∧
          deployment.syncedEnvironmentUrl = deployment.environmentUrl) ∧
      (deployment.syncNeeded ≠ .synced → deployment.syncRetryAt ≠ none)) ∧
    ∀ row ∈ (Machine.run step initial events).jobs, row.status = .completed →
      ∀ deployment ∈ (Machine.run step initial events).deployments, deployment.jobId = row.id →
        deployment.desiredState ≠ .inProgress := by
  have start : DeploymentsConsistent initial :=
    ⟨⟨List.nodup_nil, (fun _ member => nomatch member)⟩, (fun _ member => nomatch member),
      (fun _ member => nomatch member), (fun _ member => nomatch member)⟩
  have admits : Machine.Along step deploymentUpkeep.Admits initial events := by
    refine Machine.Along.of_forall (fun state event => ?_) initial events
    cases event with
    | resume task reply now =>
        intro frame rest _
        cases frame <;> trivial
    | _ => trivial
  have sound := (deploymentUpkeep.run start admits).inv
  constructor
  · intro deployment member
    have consistent := DeploymentsConsistent.consistent sound deployment member
    exact ⟨consistent.synced, consistent.retried⟩
  · intro row member completed deployment listed atRow
    obtain ⟨owner, present, ownerId, _, settled⟩ := sound.owned deployment listed
    have same := sound.tidy.eq_of_id present member (ownerId.trans atRow)
    exact settled (by rw [same]; exact completed)

end Text

end GitZero.ControlPlane
