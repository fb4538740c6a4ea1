/-
Module: GitZero.Proofs.LeaseOwnership
Purpose: When every concurrency lease belongs to a run that is active on the
  lease's agent and every group with a waiter has a holder.
Trusted boundary: none
Main exports: RowKind.forgets, Acts.leaseTable, Accounted, LeasesSound, leases_owned_and_served,
  acquire_after_finish_blocks_group
-/
import GitZero.ControlPlane.Events

namespace GitZero.ControlPlane

open Table Machine State

/-- The statements that end the assignment of a run and leave its leases. -/
def RowKind.forgets : RowKind → Bool
  | .reject _ | .completeInfrastructure .initializationExhausted => true
  | _ => false

/-- Every other statement on an active row leaves it active on its agent, or comes
after a release of the run's leases. -/
theorem RowStep.runnable {kind : RowKind} {old new : JobRow} (rowStep : RowStep kind old new)
    (held : kind.unheld = false) (minded : kind.forgets = false) (active : old.active = true) :
    new.active = true ∧ new.agentId = old.agentId := by
  cases rowStep with
  | claimInitialization now queued | storeInitialization job queued
  | retryInitialization retryAt detail queued | exhaustInitialization detail queued
  | completeInitializing now conclusion summary queued => simp [JobRow.active, queued] at active
  | @completeInfrastructure _ cause now conclusion summary unfinished waited =>
      cases cause with
      | attemptsExhausted => cases held
      | initializationExhausted => cases minded
      | queueExpired => simp [JobRow.active, waited rfl] at active
  | start => exact ⟨rfl, rfl⟩
  | reject => cases minded
  | requeue | finish => cases held
  | renew | syncCheck => exact ⟨active, rfl⟩

section Text

variable [JsText]

/-- What the lease table asks of the action that is taken next. -/
structure Minded (state : State) (action : Action) : Prop where
  forgets : ∀ kind id, action = .job kind id → kind.forgets = true →
    ∀ lease ∈ state.leases, lease.runId ≠ id
  acquires : ∀ requestId id agent, action = .acquire requestId id agent → ActiveIn state id

/-- One case for each action: the table of leases stays in order. -/
theorem Acts.leaseTable {action : Action} {before after : State} (acts : Acts action before after)
    (tidy : Tidy before) (minded : Minded before action) (table : LeaseTable before) :
    LeaseTable after := by
  cases acts with
  | quiet core _ => exact table.congr core.leases core.jobs
  | job kind id selected set rows unheld _ =>
      refine table.of_runnable rfl ?_
      rintro lease member ⟨job, present, run, active, owner⟩
      refine ⟨_, mem_update.mpr ⟨job, present, rfl⟩, ?_⟩
      split
      · rename_i picked
        obtain ⟨jobId, rowStep⟩ := rows job present picked
        have held : kind.unheld = false := by
          rw [Bool.eq_false_iff]
          exact fun released => unheld released lease member (run.symm.trans jobId)
        have kept : kind.forgets = false := by
          rw [Bool.eq_false_iff]
          exact fun forgets => minded.forgets kind id rfl forgets lease member
            (run.symm.trans jobId)
        obtain ⟨still, agent⟩ := rowStep.runnable held kept active
        exact ⟨rowStep.id_eq.trans run, still, agent.trans owner⟩
      · exact ⟨run, active, owner⟩
  | assign queued candidate now member status ready available =>
      refine table.of_runnable rfl ?_
      rintro lease _ ⟨job, present, run, active, owner⟩
      refine ⟨job, mem_update.mpr ⟨job, present, if_neg ?_⟩, run, active, owner⟩
      intro picked
      simp only [Bool.and_eq_true, decide_eq_true_eq] at picked
      simp [JobRow.active, picked.2] at active
  | insert now runNumber job fresh =>
      refine table.of_runnable rfl ?_
      rintro lease _ ⟨job, present, run⟩
      exact ⟨job, List.mem_append_left _ present, run⟩
  | prune now =>
      refine table.of_runnable rfl ?_
      rintro lease _ ⟨job, present, run, active, owner⟩
      refine ⟨job, mem_delete.mpr ⟨present, ?_⟩, run, active, owner⟩
      have unfinished : job.status ≠ .completed := by
        intro completed
        simp [JobRow.active, completed] at active
      simp [State.prunable, unfinished]
  | sockets | shut | greet | connect | dropSocket | countRequeue | send =>
      exact ⟨table.distinct, table.owned, table.served⟩
  | releaseRun runId reason => exact releaseConcurrencyForRun_table table runId reason
  | release requestId runId agent => exact releaseConcurrency_table table requestId runId agent
  | acquire socket agent row requestId unitId group cancelInProgress queue now owned =>
      obtain ⟨lookup, owner, -⟩ := assignedJob_spec owned
      obtain ⟨other, present, same, active⟩ := minded.acquires requestId row.id agent rfl
      have member : row ∈ before.jobs := row_mem lookup
      rw [tidy.eq_of_id present member same] at active
      exact acquireConcurrency_table table socket agent member active owner requestId unitId group
        cancelInProgress queue now

/-! ### Events -/

/-- The event leaves no lease behind: an acquire that inserts a row is for a run
that is still active, and neither a rejection nor the terminal branch of an
initialization is for a run that has leases. -/
structure Accounted (state : State) (event : Event) : Prop where
  acquires : ∀ requestId jobId agent, Own state event (.acquire requestId jobId agent) →
    ActiveIn state jobId
  forgets : ∀ kind jobId, Own state event (.job kind jobId) → kind.forgets = true →
    ∀ lease ∈ state.leases, lease.runId ≠ jobId

/-- The job of a `concurrency_acquire`. -/
def Event.acquires : Event → Option JobId
  | .message _ (.concurrencyAcquire _ jobId _ _ _ _ _) _ => some jobId
  | _ => none

theorem Own.acquires_job {state : State} {event : Event} {requestId : RequestId} {jobId : JobId}
    {agent : AgentId} (own : Own state event (.acquire requestId jobId agent)) :
    event.acquires = some jobId := by
  obtain ⟨socket, message, now, entry, rfl, -, sent⟩ := own.acquires
  cases sent
  rfl

/-- Such a message has no other action of its own. -/
theorem Own.acquiring {state : State} {event : Event} {jobId : JobId}
    (acquires : event.acquires = some jobId) :
    (∀ id, ¬ TakenBack state event id) ∧
      ∀ action, Own state event action → ∃ requestId agent,
        action = .acquire requestId jobId agent := by
  unfold Event.acquires at acquires
  split at acquires
  · cases acquires
    refine ⟨fun _ taken => taken, ?_⟩
    rintro action ⟨entry, -, ⟨hello, wrong, -⟩ | ⟨-, -, sent⟩⟩
    · cases wrong
    · cases sent
      exact ⟨_, _, rfl⟩
  · cases acquires

theorem Own.acquire_unmoved {state : State} {event : Event} {requestId : RequestId} {jobId : JobId}
    {agent : AgentId} (own : Own state event (.acquire requestId jobId agent)) :
    ¬ Moved state event jobId := by
  obtain ⟨untaken, only⟩ := Own.acquiring own.acquires_job
  rintro (taken | ⟨action, other, moves⟩)
  · exact untaken jobId taken
  · obtain ⟨_, _, rfl⟩ := only action other
    exact moves

/-- A trace adds leases only for the runs whose acquires it allows. -/
theorem Acts.leaseRuns {action : Action} {before after : State} (acts : Acts action before after) :
    ∀ lease ∈ after.leases, (∃ old ∈ before.leases, old.runId = lease.runId) ∨
      ∃ requestId agent, action = .acquire requestId lease.runId agent := by
  intro lease member
  have kept : after.leases = before.leases → (∃ old ∈ before.leases, old.runId = lease.runId) ∨
      ∃ requestId agent, action = .acquire requestId lease.runId agent :=
    fun same => .inl ⟨lease, same ▸ member, rfl⟩
  cases acts with
  | quiet core _ => exact kept core.leases
  | sockets | shut | greet | connect | dropSocket | job | assign | insert | prune |
    countRequeue | send =>
      exact kept rfl
  | releaseRun runId reason =>
      obtain ⟨old, present, same⟩ :=
        (before.releaseConcurrencyForRun_from runId reason).runId member
      exact .inl ⟨old, (mem_delete.mp present).1, same⟩
  | release requestId runId agent =>
      exact .inl ((before.releaseConcurrency_from requestId runId agent).runId member)
  | acquire socket agent row requestId unitId group cancelInProgress queue now _ =>
      rcases before.acquireConcurrency_runs socket agent row requestId unitId group
        cancelInProgress queue now lease member with old | mine
      · exact .inl old
      · exact .inr ⟨requestId, agent, by rw [mine]⟩

/-- What holds in the middle of an event: rows and leases agree, the runs of its
acquires are where they were, and no other run has new leases. -/
structure Midway (before : State) (event : Event) (state : State) : Prop where
  tidy : Tidy state
  table : LeaseTable state
  owners : ∀ requestId jobId agent, Own before event (.acquire requestId jobId agent) →
    SameOwner before state jobId
  runs : ∀ lease ∈ state.leases, (∃ old ∈ before.leases, old.runId = lease.runId) ∨
    ∃ requestId agent, Own before event (.acquire requestId lease.runId agent)

theorem Midway.minded {before state : State} {event : Event} (midway : Midway before event state)
    (accounted : Accounted before event) {action : Action} (may : May before event action) :
    Minded state action := by
  rcases may with own | inside
  · constructor
    · rintro kind id rfl forgets lease member run
      rcases midway.runs lease member with ⟨old, present, same⟩ | ⟨requestId, agent, acquires⟩
      · exact accounted.forgets kind id own forgets old present (same.trans run)
      · obtain ⟨_, _, wrong⟩ := (Own.acquiring acquires.acquires_job).2 _ own
        cases wrong
    · rintro requestId id agent rfl
      exact (midway.owners requestId id agent own).active
        (accounted.acquires requestId id agent own)
  · constructor
    · rintro kind id rfl forgets
      cases kind with
      | reject => exact inside.elim
      | completeInfrastructure cause =>
          cases cause with
          | initializationExhausted => exact inside.elim
          | attemptsExhausted | queueExpired => cases forgets
      | _ => cases forgets
    · rintro requestId id agent rfl
      exact inside.elim

theorem Midway.acts {before state next : State} {event : Event} (ready : Ready before)
    (accounted : Accounted before event) {action : Action} (may : May before event action)
    (acts : Acts action state next) (midway : Midway before event state) :
    Midway before event next := by
  refine ⟨acts.tidy midway.tidy, acts.leaseTable midway.tidy (midway.minded accounted may)
    midway.table, ?_, ?_⟩
  · intro requestId jobId agent own
    exact (midway.owners requestId jobId agent own).trans (acts.sameOwner (may.not_moves ready.tidy
      (accounted.acquires requestId jobId agent own) own.acquire_unmoved))
  · intro lease member
    rcases acts.leaseRuns lease member with ⟨old, present, same⟩ | ⟨requestId, agent, rfl⟩
    · rw [← same]
      exact midway.runs old present
    · rcases may with own | inside
      · exact .inr ⟨requestId, agent, own⟩
      · exact inside.elim

/-- Rows are keyed, and the lease table is as it should be. -/
structure LeasesSound (state : State) : Prop where
  ready : Ready state
  table : LeaseTable state

theorem LeasesSound.step {state : State} {event : Event} (sound : LeasesSound state)
    (accounted : Accounted state event) : LeasesSound (step state event) := by
  refine ⟨sound.ready.step event, ?_⟩
  have start : Midway state event state :=
    ⟨sound.ready.tidy, sound.table, fun _ jobId _ _ => .refl state jobId,
      fun lease member => .inl ⟨lease, member, rfl⟩⟩
  have trace := (step_sound sound.ready event).1
  exact (trace.invariant (fun _ _ _ may acts => Midway.acts sound.ready accounted may acts)
    start).table

omit [JsText] in
theorem leasesSound_initial : LeasesSound initial := by
  refine ⟨ready_initial, List.nodup_nil, fun _ member => (nomatch member), ?_⟩
  rintro repositoryKey groupKey ⟨lease, member, -⟩
  cases member

/-- In every run that leaves no lease behind, every lease belongs to a run that is
active on the lease's agent, and every group with a waiter has a holder. -/
theorem leases_owned_and_served (events : List Event)
    (accounted : Along step Accounted initial events) :
    let reached := run step initial events
    (∀ lease ∈ reached.leases, Runnable reached lease) ∧
      ∀ repositoryKey groupKey, Served reached repositoryKey groupKey := by
  have sound := accounted.invariant (fun _ _ sound good => LeasesSound.step sound good)
    leasesSound_initial
  exact ⟨sound.table.owned, sound.table.served⟩

/-- The events that may leave a lease behind: a rejection, and the failure of an
initialization. -/
def Event.mayForget : Event → Bool
  | .message _ (.jobRejected _ _ _ _) _ | .resume _ _ _ => true
  | _ => false

theorem Own.mayForget {state : State} {event : Event} {kind : RowKind} {jobId : JobId}
    (own : Own state event (.job kind jobId)) (forgets : kind.forgets = true) :
    event.mayForget = true := by
  rcases own.updates with ⟨socket, message, now, entry, rfl, -, sent⟩ | ⟨task, reply, now, rfl, -⟩
  · cases sent with
    | reject => rfl
    | start | finish => cases forgets
  · rfl

theorem accounted_of {state : State} {event : Event}
    (live : ∀ jobId ∈ event.acquires, ActiveIn state jobId)
    (kept : event.mayForget = true → state.leases = []) : Accounted state event := by
  refine ⟨fun _ jobId _ own => live jobId own.acquires_job, fun _ _ own forgets => ?_⟩
  rw [kept (own.mayForget forgets)]
  exact fun _ member => nomatch member

end Text

section Sample

open scoped Ascii

/-- Two jobs of one agent, up to their start. -/
def twoStarted : List Event :=
  [.connect "a" 0, .message 0 (.hello (Ascii.hello "a" 2)) 0,
    .enqueue (Ascii.job 1) "d" 0, .enqueue (Ascii.job 2) "e" 0,
    .resume 0 (.actionsVariables []) 1, .resume 0 (.actionsVariables []) 2,
    .resume 0 (.token ⟨"token", 60⟩) 3, .resume 0 (.token ⟨"token", 60⟩) 4,
    .message 0 (.jobStarted 1 1) 5, .message 0 (.jobStarted 2 2) 6]

/-- Both ask for the group `deploy`, and the one that has it finishes. -/
def handedOver : List Event :=
  twoStarted ++
    [.message 0 (.concurrencyAcquire 3 1 1 "unit" "deploy" false .single) 8,
      .message 0 (.concurrencyAcquire 4 2 2 "unit" "Deploy " false .single) 9,
      .message 0 (.jobFinished 5 1 .success "ok") 10]

/-- The group goes over to the waiting run. -/
theorem handedOver_served :
    (run step initial handedOver).leases.map (fun lease => (lease.runId, lease.status)) =
        [(2, .active)] ∧
      (let reached := run step initial handedOver
      (∀ lease ∈ reached.leases, Runnable reached lease) ∧
        ∀ repositoryKey groupKey, Served reached repositoryKey groupKey) := by
  refine ⟨by decide, leases_owned_and_served handedOver ?_⟩
  refine ⟨?_, ?_, ?_, ?_, ?_, ?_, ?_, ?_, ?_, ?_, ?_, ?_, ?_, trivial⟩
  all_goals
    apply accounted_of
    · decide
    · decide

/-- Job 1 asks for the group after it has finished. -/
def lateAcquire : List Event :=
  twoStarted ++
    [.message 0 (.jobFinished 3 1 .success "ok") 8,
      .message 0 (.concurrencyAcquire 4 1 1 "unit" "deploy" false .single) 9,
      .message 0 (.concurrencyAcquire 5 2 2 "unit" "deploy" false .max) 10]

/-- The finished run holds the group, and the other job waits behind it. -/
theorem acquire_after_finish_blocks_group :
    let reached := run step initial lateAcquire
    reached.jobs.map (fun row => (row.id, row.status)) = [(1, .completed), (2, .running)] ∧
      reached.leases.map (fun lease => (lease.runId, lease.status)) =
        [(1, .active), (2, .waiting)] ∧
      ¬ ∀ lease ∈ reached.leases, Runnable reached lease := by
  decide

end Sample

end GitZero.ControlPlane
