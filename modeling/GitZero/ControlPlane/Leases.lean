/-
Module: GitZero.ControlPlane.Leases
Purpose: What acquire, release and promotion do to the lease table, to the outbox
  and to nothing else.
Trusted boundary: none
Main exports: State.LeaseFrame, State.LeasesFrom, State.Promotes,
  State.promoteConcurrency_promotes, State.releaseConcurrencyForRun_unheld
-/
import GitZero.ControlPlane.Concurrency

namespace GitZero.ControlPlane

open Table

/-! ### Frames of the lease operations -/

namespace State

/-- `after` differs from `before` at most in its leases and its outbox. -/
def LeaseFrame (before after : State) : Prop :=
  after =
    { before with
      leases := after.leases
      nextSequence := after.nextSequence
      outbox := after.outbox }

namespace LeaseFrame

variable {before middle after : State}

theorem refl (state : State) : LeaseFrame state state := rfl

theorem trans (front : LeaseFrame before middle) (back : LeaseFrame middle after) :
    LeaseFrame before after := by
  unfold LeaseFrame at *
  rw [back, front]

theorem jobs (frame : LeaseFrame before after) : after.jobs = before.jobs := by rw [frame]

theorem sockets (frame : LeaseFrame before after) : after.sockets = before.sockets := by rw [frame]

theorem assignments (frame : LeaseFrame before after) :
    after.assignments = before.assignments := by rw [frame]

theorem requeues (frame : LeaseFrame before after) : after.requeues = before.requeues := by
  rw [frame]

theorem cutoffs (frame : LeaseFrame before after) : after.cutoffs = before.cutoffs := by rw [frame]

theorem tasks (frame : LeaseFrame before after) : after.tasks = before.tasks := by rw [frame]

theorem jobRow? (frame : LeaseFrame before after) (jobId : JobId) :
    after.jobRow? jobId = before.jobRow? jobId := by
  rw [State.jobRow?, State.jobRow?, frame.jobs]

theorem foldl {Item : Type*} {operation : State → Item → State}
    (one : ∀ state item, LeaseFrame state (operation state item)) (items : List Item)
    (state : State) : LeaseFrame state (items.foldl operation state) := by
  induction items generalizing state with
  | nil => exact refl state
  | cons item items inductionHypothesis =>
      exact (one state item).trans (inductionHypothesis _)

end LeaseFrame

theorem sendToAgent_frame (state : State) (agentId : AgentId) (message : ServerMessage) :
    LeaseFrame state (state.sendToAgent agentId message).1 := by
  unfold sendToAgent
  split <;> rfl

theorem sendLast_frame (state : State) (socket : SocketId) (message : ServerMessage) :
    LeaseFrame state (state.sendLast socket message) := by
  unfold sendLast sendServer
  split <;> rfl

theorem sendConcurrencyCancellation_frame (state : State) (lease : ConcurrencyRow)
    (reason : String) : LeaseFrame state (state.sendConcurrencyCancellation lease reason) :=
  sendToAgent_frame ..

/-- What the promotion loop can have done. -/
inductive Promotes (repositoryKey groupKey : String) : State → State → Prop where
  | stop {state : State} (none : state.promotable repositoryKey groupKey = none) :
      Promotes repositoryKey groupKey state state
  | grant {state : State} {next : ConcurrencyRow} {entry : Socket}
      (chosen : state.promotable repositoryKey groupKey = some next)
      (reached : state.sockets.find? (fun socket =>
        socket.agentId = next.agentId && socket.isOpen) = some entry) :
      Promotes repositoryKey groupKey state
        { state with
          leases := update state.leases
            (fun lease => lease.requestId = next.requestId && lease.status = .waiting)
            fun lease => { lease with status := .active }
          outbox := state.outbox ++ [(entry.id, .concurrencyGranted next.requestId)] }
  | skip {state final : State} {next : ConcurrencyRow}
      (chosen : state.promotable repositoryKey groupKey = some next)
      (unreached : state.sockets.find? (fun socket =>
        socket.agentId = next.agentId && socket.isOpen) = none)
      (further : Promotes repositoryKey groupKey
        { state with leases := delete state.leases fun lease => lease.requestId = next.requestId }
        final) :
      Promotes repositoryKey groupKey state final

/-- Promoting a row that is then deleted leaves no trace. -/
theorem delete_promoted (leases : List ConcurrencyRow) (requestId : RequestId) :
    delete (update leases (fun lease => lease.requestId = requestId && lease.status = .waiting)
      fun lease => { lease with status := .active }) (fun lease => lease.requestId = requestId) =
      delete leases fun lease => lease.requestId = requestId := by
  refine delete_update fun lease picked => ?_
  simp only [Bool.and_eq_true, decide_eq_true_eq] at picked
  simp [picked.1]

theorem promotable_spec {state : State} {repositoryKey groupKey : String} {next : ConcurrencyRow}
    (chosen : state.promotable repositoryKey groupKey = some next) :
    next ∈ state.leases ∧ next.inGroup repositoryKey groupKey = true ∧ next.status = .waiting ∧
      (∀ lease ∈ state.leases, lease.inGroup repositoryKey groupKey = true →
        lease.holds = false) ∧
      ∃ job ∈ state.jobs, job.id = next.runId ∧ job.active = true ∧
        job.agentId = some next.agentId := by
  unfold promotable at chosen
  split at chosen
  · cases chosen
  · rename_i free
    have member := List.mem_of_find?_eq_some chosen
    have picked := List.find?_some chosen
    simp only [Bool.and_eq_true, decide_eq_true_eq, List.any_eq_true] at picked
    obtain ⟨⟨group, waiting⟩, job, present, ⟨same, active⟩, owner⟩ := picked
    refine ⟨member, group, waiting, ?_, job, present, same, active, owner⟩
    simpa using free

theorem promotable_none {state : State} {repositoryKey groupKey : String}
    (none : state.promotable repositoryKey groupKey = none) :
    (∃ holder ∈ state.leases, holder.inGroup repositoryKey groupKey = true ∧
      holder.holds = true) ∨
    ∀ lease ∈ state.leases, lease.inGroup repositoryKey groupKey = true →
      lease.status = .waiting → ¬ ∃ job ∈ state.jobs, job.id = lease.runId ∧ job.active = true ∧
        job.agentId = some lease.agentId := by
  unfold promotable at none
  split at none
  · rename_i held
    exact .inl (by simpa using held)
  · right
    rintro lease member group waiting ⟨job, present, same, active, owner⟩
    have skipped := List.find?_eq_none.mp none lease member
    simp only [group, waiting, decide_true, Bool.true_and, Bool.and_eq_true, decide_eq_true_eq,
      List.any_eq_true, not_exists, not_and] at skipped
    exact skipped job present ⟨same, active⟩ owner

theorem promoteLoop_promotes (repositoryKey groupKey : String) (turns : Nat) (state : State)
    (enough : state.leases.length < turns) :
    Promotes repositoryKey groupKey state (promoteLoop turns state repositoryKey groupKey) := by
  induction turns generalizing state with
  | zero => exact absurd enough (Nat.not_lt_zero _)
  | succ turns inductionHypothesis =>
      unfold promoteLoop
      split
      · rename_i none
        exact .stop none
      · rename_i next chosen
        dsimp only
        cases reached : state.sockets.find? fun socket =>
            socket.agentId = next.agentId && socket.isOpen with
        | some entry =>
            have sending : sendToAgent (state.updateLeases
                (fun lease => lease.requestId = next.requestId && lease.status = .waiting)
                fun lease => { lease with status := .active }) next.agentId
                (.concurrencyGranted next.requestId) =
                ({ state with
                  leases := update state.leases
                    (fun lease => lease.requestId = next.requestId && lease.status = .waiting)
                    fun lease => { lease with status := .active }
                  outbox := state.outbox ++ [(entry.id, .concurrencyGranted next.requestId)] },
                  true) := by
              simp [sendToAgent, updateLeases, reached]
            rw [sending]
            exact .grant chosen reached
        | none =>
            have sending : sendToAgent (state.updateLeases
                (fun lease => lease.requestId = next.requestId && lease.status = .waiting)
                fun lease => { lease with status := .active }) next.agentId
                (.concurrencyGranted next.requestId) =
                (state.updateLeases
                  (fun lease => lease.requestId = next.requestId && lease.status = .waiting)
                  fun lease => { lease with status := .active }, false) := by
              simp [sendToAgent, updateLeases, reached]
            rw [sending]
            refine .skip chosen reached ?_
            simp only [updateLeases, delete_promoted]
            refine inductionHypothesis _ ?_
            have shorter : (delete state.leases fun lease =>
                lease.requestId = next.requestId).length < state.leases.length :=
              List.length_filter_lt_length_iff_exists.mpr
                ⟨next, (promotable_spec chosen).1, by simp⟩
            exact Nat.lt_of_lt_of_le shorter (Nat.lt_succ_iff.mp enough)

theorem promoteConcurrency_promotes (state : State) (repositoryKey groupKey : String) :
    Promotes repositoryKey groupKey state (state.promoteConcurrency repositoryKey groupKey) :=
  promoteLoop_promotes repositoryKey groupKey _ state (Nat.lt_succ_self _)

theorem Promotes.frame {repositoryKey groupKey : String} {before after : State}
    (promotes : Promotes repositoryKey groupKey before after) : LeaseFrame before after := by
  induction promotes with
  | stop => rfl
  | grant => rfl
  | skip chosen unreached further inductionHypothesis => exact .trans (by rfl) inductionHypothesis

theorem promoteConcurrency_frame (state : State) (repositoryKey groupKey : String) :
    LeaseFrame state (state.promoteConcurrency repositoryKey groupKey) :=
  (promoteConcurrency_promotes state repositoryKey groupKey).frame

theorem releaseConcurrency_frame (state : State) (requestId : RequestId) (runId : JobId)
    (agentId : AgentId) : LeaseFrame state (state.releaseConcurrency requestId runId agentId) := by
  unfold releaseConcurrency
  dsimp only
  split
  · exact .refl state
  · split
    · rfl
    · exact .trans (by rfl) (promoteConcurrency_frame ..)

theorem releaseConcurrencyForRun_frame (state : State) (runId : JobId) (reason : String) :
    LeaseFrame state (state.releaseConcurrencyForRun runId reason) := by
  have dropped : LeaseFrame state
      { state with leases := delete state.leases (·.runId = runId) } := rfl
  have notified := LeaseFrame.foldl
    (fun current (lease : ConcurrencyRow) => sendConcurrencyCancellation_frame current lease reason)
    (state.leases.filter (·.runId = runId))
    { state with leases := delete state.leases (·.runId = runId) }
  have promoted := LeaseFrame.foldl
    (fun current (group : String × String) => promoteConcurrency_frame current group.1 group.2)
    (heldGroups (state.leases.filter (·.runId = runId)))
    ((state.leases.filter (·.runId = runId)).foldl
      (fun current lease => current.sendConcurrencyCancellation lease reason)
      { state with leases := delete state.leases (·.runId = runId) })
  exact dropped.trans (notified.trans promoted)

theorem insertLease_frame (state : State) (lease : ConcurrencyRow) (cancelInProgress : Bool) :
    LeaseFrame state (state.insertLease lease cancelInProgress).1 := by
  unfold insertLease
  dsimp only
  split <;> rfl

theorem acquireTransaction_frame (state : State) (lease : ConcurrencyRow)
    (cancelInProgress : Bool) :
    LeaseFrame state (state.acquireTransaction lease cancelInProgress).1 := by
  unfold acquireTransaction
  dsimp only
  split
  · exact .trans (by rfl) (insertLease_frame ..)
  · split
    · exact .refl state
    · exact insertLease_frame ..

theorem announceAcquire_frame (state : State) (socket : SocketId) (lease : ConcurrencyRow)
    (displaced : List ConcurrencyRow) (decision : AcquireDecision) :
    LeaseFrame state (state.announceAcquire socket lease displaced decision) := by
  have notified := LeaseFrame.foldl
    (fun current (waiter : ConcurrencyRow) => sendConcurrencyCancellation_frame current waiter
      "A newer concurrency request replaced this pending unit.") displaced state
  unfold announceAcquire
  cases decision with
  | rejected reason => exact notified.trans (sendLast_frame ..)
  | inserted status activeToCancel =>
      cases activeToCancel with
      | none =>
          dsimp only [Option.elim]
          split
          · exact notified.trans (sendLast_frame ..)
          · exact notified
      | some active =>
          dsimp only [Option.elim]
          have cancelled := notified.trans (sendConcurrencyCancellation_frame _ active
            ("A newer unit in concurrency group '" ++ lease.groupName ++
              "' requested cancel-in-progress."))
          split
          · exact cancelled.trans (sendLast_frame ..)
          · exact cancelled

theorem repeatAcquire_frame (state : State) (socket : SocketId) (agentId : AgentId)
    (row : JobRow) (existing : ConcurrencyRow) :
    LeaseFrame state (state.repeatAcquire socket agentId row existing) := by
  unfold repeatAcquire
  split
  · exact sendLast_frame ..
  · split
    · exact sendLast_frame ..
    · exact sendLast_frame ..
    · exact .refl state

theorem acquireConcurrency_frame [JsText] (state : State) (socket : SocketId)
    (agentId : AgentId) (row : JobRow) (requestId : RequestId) (unitId group : String)
    (cancelInProgress : Bool) (queue : QueueMode) (now : Millis) :
    LeaseFrame state (state.acquireConcurrency socket agentId row requestId unitId group
      cancelInProgress queue now) := by
  unfold acquireConcurrency
  split
  · exact repeatAcquire_frame ..
  · exact (acquireTransaction_frame ..).trans (announceAcquire_frame ..)

/-! ### What promotion and release leave of the leases -/

/-- Every lease of `after` is one of `before`, at most promoted. -/
def LeasesFrom (before after : State) : Prop :=
  ∀ lease ∈ after.leases, ∃ old ∈ before.leases,
    lease = old ∨ (old.status = .waiting ∧ lease = { old with status := .active })

namespace LeasesFrom

variable {before middle after : State}

theorem of_subset (subset : ∀ lease ∈ after.leases, lease ∈ before.leases) :
    LeasesFrom before after :=
  fun lease member => ⟨lease, subset lease member, .inl rfl⟩

theorem trans (front : LeasesFrom before middle) (back : LeasesFrom middle after) :
    LeasesFrom before after := by
  intro lease member
  obtain ⟨between, present, rfl | ⟨waiting, rfl⟩⟩ := back lease member
  · exact front _ present
  · obtain ⟨old, found, rfl | ⟨-, rfl⟩⟩ := front between present
    · exact ⟨_, found, .inr ⟨waiting, rfl⟩⟩
    · cases waiting

theorem runId (from_ : LeasesFrom before after) {lease : ConcurrencyRow}
    (member : lease ∈ after.leases) :
    ∃ old ∈ before.leases, old.runId = lease.runId := by
  obtain ⟨old, found, rfl | ⟨-, rfl⟩⟩ := from_ lease member
  · exact ⟨_, found, rfl⟩
  · exact ⟨old, found, rfl⟩

theorem foldl {Item : Type*} {operation : State → Item → State}
    (one : ∀ state item, LeasesFrom state (operation state item)) (items : List Item)
    (state : State) : LeasesFrom state (items.foldl operation state) := by
  induction items generalizing state with
  | nil => exact of_subset fun _ member => member
  | cons item items inductionHypothesis => exact (one state item).trans (inductionHypothesis _)

end LeasesFrom

@[simp] theorem sendToAgent_leases (state : State) (agentId : AgentId) (message : ServerMessage) :
    (state.sendToAgent agentId message).1.leases = state.leases := by
  unfold sendToAgent
  split <;> rfl

theorem Promotes.leasesFrom {repositoryKey groupKey : String} {before after : State}
    (promotes : Promotes repositoryKey groupKey before after) : LeasesFrom before after := by
  induction promotes with
  | stop => exact .of_subset fun _ member => member
  | grant chosen reached =>
      intro lease member
      obtain ⟨old, present, rfl⟩ := mem_update.mp member
      refine ⟨old, present, ?_⟩
      split
      · rename_i picked
        simp only [Bool.and_eq_true, decide_eq_true_eq] at picked
        exact .inr ⟨picked.2, rfl⟩
      · exact .inl rfl
  | skip chosen unreached further inductionHypothesis =>
      exact .trans (.of_subset fun lease member => (mem_delete.mp member).1) inductionHypothesis

theorem promoteConcurrency_from (state : State) (repositoryKey groupKey : String) :
    LeasesFrom state (state.promoteConcurrency repositoryKey groupKey) :=
  (promoteConcurrency_promotes state repositoryKey groupKey).leasesFrom

@[simp] theorem sendLast_leases (state : State) (socket : SocketId) (message : ServerMessage) :
    (state.sendLast socket message).leases = state.leases := by
  unfold sendLast sendServer
  split <;> rfl

theorem sendConcurrencyCancellation_from (reason : String) (state : State)
    (lease : ConcurrencyRow) :
    LeasesFrom state (state.sendConcurrencyCancellation lease reason) :=
  .of_subset fun _ member => sendToAgent_leases state lease.agentId _ ▸ member

theorem releaseConcurrencyForRun_from (state : State) (runId : JobId) (reason : String) :
    LeasesFrom { state with leases := delete state.leases (·.runId = runId) }
      (state.releaseConcurrencyForRun runId reason) := by
  have notified := LeasesFrom.foldl (sendConcurrencyCancellation_from reason)
    (state.leases.filter (·.runId = runId))
    { state with leases := delete state.leases (·.runId = runId) }
  exact notified.trans (LeasesFrom.foldl
    (fun current (group : String × String) => promoteConcurrency_from current group.1 group.2) _ _)

/-- Nothing of a released run is left. -/
theorem releaseConcurrencyForRun_unheld (state : State) (runId : JobId) (reason : String) :
    ∀ lease ∈ (state.releaseConcurrencyForRun runId reason).leases, lease.runId ≠ runId := by
  intro lease member
  obtain ⟨old, found, same⟩ := (state.releaseConcurrencyForRun_from runId reason).runId member
  have kept := (mem_delete.mp found).2
  rw [← same]
  simpa using kept

/-! ### The lease table -/

/-- The run of the lease is active on the lease's agent. -/
def Runnable (state : State) (lease : ConcurrencyRow) : Prop :=
  ∃ job ∈ state.jobs, job.id = lease.runId ∧ job.active = true ∧
    job.agentId = some lease.agentId

instance (state : State) (lease : ConcurrencyRow) : Decidable (Runnable state lease) :=
  inferInstanceAs (Decidable (∃ job ∈ state.jobs, _))

/-- Some open connection of the agent is registered. -/
def Reachable (state : State) (agentId : AgentId) : Prop :=
  ∃ entry ∈ state.sockets, entry.agentId = agentId ∧ entry.isOpen = true

/-- Request ids are a key. -/
def DistinctRequests (state : State) : Prop := (state.leases.map (·.requestId)).Nodup

theorem DistinctRequests.eq {state : State} (distinct : DistinctRequests state)
    {first second : ConcurrencyRow} (one : first ∈ state.leases) (two : second ∈ state.leases)
    (same : first.requestId = second.requestId) : first = second :=
  List.inj_on_of_nodup_map distinct one two same

/-- A group with a waiter has a holder. -/
def Served (state : State) (repositoryKey groupKey : String) : Prop :=
  (∃ lease ∈ state.leases, lease.inGroup repositoryKey groupKey = true ∧
    lease.status = .waiting) →
  ∃ holder ∈ state.leases, holder.inGroup repositoryKey groupKey = true ∧ holder.holds = true

theorem holds_iff {lease : ConcurrencyRow} : lease.holds = true ↔ lease.status ≠ .waiting := by
  cases status : lease.status <;> simp [ConcurrencyRow.holds, status]

namespace Promotes

variable {repositoryKey groupKey : String} {before after : State}

theorem distinct (promotes : Promotes repositoryKey groupKey before after)
    (distinct : DistinctRequests before) : DistinctRequests after := by
  induction promotes with
  | stop => exact distinct
  | grant =>
      exact nodup_key_update (fun _ _ _ => rfl) distinct
  | skip _ _ _ inductionHypothesis => exact inductionHypothesis (nodup_key_delete distinct)

/-- Promotion does not touch a row that holds its group. -/
theorem holder_kept (promotes : Promotes repositoryKey groupKey before after)
    (distinct : DistinctRequests before) {lease : ConcurrencyRow}
    (member : lease ∈ before.leases) (holds : lease.holds = true) : lease ∈ after.leases := by
  have unwaiting := holds_iff.mp holds
  induction promotes with
  | stop => exact member
  | grant => exact mem_update.mpr ⟨lease, member, by simp [unwaiting]⟩
  | @skip state final next chosen unreached further inductionHypothesis =>
      refine inductionHypothesis (nodup_key_delete distinct) (mem_delete.mpr ⟨member, ?_⟩)
      obtain ⟨present, -, waiting, -⟩ := promotable_spec chosen
      simp only [decide_eq_false_iff_not]
      intro same
      rw [distinct.eq member present same] at unwaiting
      exact unwaiting waiting

/-- A waiter whose agent can be told is kept, or promoted. -/
theorem waiter_kept (promotes : Promotes repositoryKey groupKey before after)
    (distinct : DistinctRequests before) {lease : ConcurrencyRow}
    (member : lease ∈ before.leases) (reachable : Reachable before lease.agentId) :
    lease ∈ after.leases ∨
      (lease.status = .waiting ∧ { lease with status := .active } ∈ after.leases) := by
  induction promotes with
  | stop => exact .inl member
  | @grant state next entry chosen reached =>
      by_cases picked : (decide (lease.requestId = next.requestId) &&
          decide (lease.status = .waiting)) = true
      · refine .inr ⟨?_, mem_update.mpr ⟨lease, member, if_pos picked⟩⟩
        simp only [Bool.and_eq_true, decide_eq_true_eq] at picked
        exact picked.2
      · exact .inl (mem_update.mpr ⟨lease, member, if_neg picked⟩)
  | @skip state final next chosen unreached further inductionHypothesis =>
      refine inductionHypothesis (nodup_key_delete distinct) (mem_delete.mpr ⟨member, ?_⟩) reachable
      obtain ⟨present, -⟩ := promotable_spec chosen
      simp only [decide_eq_false_iff_not]
      intro same
      obtain ⟨entry, registered, agent, isOpen⟩ := reachable
      have missed := List.find?_eq_none.mp unreached entry registered
      rw [distinct.eq member present same] at agent
      simp [agent, isOpen] at missed

/-- Promotion leaves no group it has looked at without a holder. -/
theorem served (promotes : Promotes repositoryKey groupKey before after)
    (runnable : ∀ lease ∈ before.leases, Runnable before lease) :
    Served after repositoryKey groupKey := by
  induction promotes with
  | stop none =>
      rintro ⟨lease, member, group, waiting⟩
      rcases promotable_none none with held | stuck
      · exact held
      · exact absurd (runnable lease member) (stuck lease member group waiting)
  | @grant state next entry chosen reached =>
      rintro -
      obtain ⟨present, group, waiting, -⟩ := promotable_spec chosen
      exact ⟨{ next with status := .active },
        mem_update.mpr ⟨next, present, by simp [waiting]⟩, group, rfl⟩
  | skip chosen unreached further inductionHypothesis =>
      exact inductionHypothesis fun lease member => runnable lease (mem_delete.mp member).1

/-- Other groups keep their holders. -/
theorem served_kept (promotes : Promotes repositoryKey groupKey before after)
    (distinct : DistinctRequests before) {otherRepository otherGroup : String}
    (was : Served before otherRepository otherGroup) :
    Served after otherRepository otherGroup := by
  rintro ⟨lease, member, group, waiting⟩
  obtain ⟨old, present, rfl | ⟨-, rfl⟩⟩ := promotes.leasesFrom lease member
  · obtain ⟨holder, found, same, holds⟩ := was ⟨_, present, group, waiting⟩
    exact ⟨holder, promotes.holder_kept distinct found holds, same, holds⟩
  · cases waiting

theorem runnable (promotes : Promotes repositoryKey groupKey before after)
    (owned : ∀ lease ∈ before.leases, Runnable before lease) :
    ∀ lease ∈ after.leases, Runnable after lease := by
  intro lease member
  unfold Runnable
  rw [promotes.frame.jobs]
  obtain ⟨old, present, rfl | ⟨-, rfl⟩⟩ := promotes.leasesFrom lease member
  · exact owned _ present
  · exact owned old present

end Promotes

/-- The rows of the table: request ids are a key, every lease belongs to a run that
is active on its agent, and every group with a waiter has a holder. -/
structure LeaseTable (state : State) : Prop where
  distinct : DistinctRequests state
  owned : ∀ lease ∈ state.leases, Runnable state lease
  served : ∀ repositoryKey groupKey, Served state repositoryKey groupKey

theorem LeaseTable.of_runnable {before after : State} (table : LeaseTable before)
    (leases : after.leases = before.leases)
    (runnable : ∀ lease ∈ before.leases, Runnable before lease → Runnable after lease) :
    LeaseTable after := by
  constructor
  · unfold DistinctRequests
    rw [leases]
    exact table.distinct
  · rw [leases]
    exact fun lease member => runnable lease member (table.owned lease member)
  · unfold Served
    rw [leases]
    exact table.served

theorem LeaseTable.congr {before after : State} (leases : after.leases = before.leases)
    (jobs : after.jobs = before.jobs) (table : LeaseTable before) : LeaseTable after := by
  refine table.of_runnable leases fun lease _ owned => ?_
  unfold Runnable
  rw [jobs]
  exact owned

/-- The promotions after the rows of a run, or one row, are gone. -/
theorem promoteGroups_table (groups : List (String × String)) {state : State}
    (distinct : DistinctRequests state) (owned : ∀ lease ∈ state.leases, Runnable state lease)
    (served : ∀ repositoryKey groupKey, (repositoryKey, groupKey) ∉ groups →
      Served state repositoryKey groupKey) :
    LeaseTable (groups.foldl
      (fun current group => current.promoteConcurrency group.1 group.2) state) := by
  induction groups generalizing state with
  | nil => exact ⟨distinct, owned, fun _ _ => served _ _ List.not_mem_nil⟩
  | cons group groups inductionHypothesis =>
      have promotes := state.promoteConcurrency_promotes group.1 group.2
      refine inductionHypothesis (promotes.distinct distinct) (promotes.runnable owned) ?_
      intro repositoryKey groupKey absent
      by_cases same : (repositoryKey, groupKey) = group
      · rw [← same] at promotes ⊢
        exact promotes.served owned
      · refine promotes.served_kept distinct (served repositoryKey groupKey ?_)
        simp [same, absent]

theorem mem_heldGroups {leases : List ConcurrencyRow} {repositoryKey groupKey : String} :
    (repositoryKey, groupKey) ∈ heldGroups leases ↔
      ∃ lease ∈ leases, lease.inGroup repositoryKey groupKey = true ∧ lease.holds = true := by
  simp only [heldGroups, List.mem_eraseDups, List.mem_map, List.mem_filter, decide_eq_true_eq,
    Prod.mk.injEq, holds_iff, ConcurrencyRow.inGroup, Bool.and_eq_true]
  constructor
  · rintro ⟨lease, ⟨member, holds⟩, group⟩
    exact ⟨lease, member, group, holds⟩
  · rintro ⟨lease, member, group, holds⟩
    exact ⟨lease, ⟨member, holds⟩, group⟩

theorem cancellations_leases (leases : List ConcurrencyRow) (reason : String) (state : State) :
    (leases.foldl (fun current lease => current.sendConcurrencyCancellation lease reason)
      state).leases = state.leases := by
  induction leases generalizing state with
  | nil => rfl
  | cons lease leases inductionHypothesis =>
      rw [List.foldl_cons, inductionHypothesis]
      exact sendToAgent_leases ..

theorem releaseConcurrency_from (state : State) (requestId : RequestId) (runId : JobId)
    (agentId : AgentId) : LeasesFrom state (state.releaseConcurrency requestId runId agentId) := by
  unfold releaseConcurrency
  dsimp only
  split
  · exact .of_subset fun _ member => member
  · split
    · exact .of_subset fun _ member => (mem_delete.mp member).1
    · refine .trans ?_ (promoteConcurrency_from _ _ _)
      exact .of_subset fun _ member => (mem_delete.mp member).1

theorem announceAcquire_leases (state : State) (socket : SocketId) (lease : ConcurrencyRow)
    (displaced : List ConcurrencyRow) (decision : AcquireDecision) :
    (state.announceAcquire socket lease displaced decision).leases = state.leases := by
  have notified := cancellations_leases displaced
    "A newer concurrency request replaced this pending unit." state
  unfold announceAcquire
  cases decision with
  | rejected reason => rw [sendLast_leases, notified]
  | inserted status activeToCancel =>
      cases activeToCancel with
      | none =>
          dsimp only [Option.elim]
          split
          · rw [sendLast_leases, notified]
          · exact notified
      | some active =>
          dsimp only [Option.elim, sendConcurrencyCancellation]
          split
          · rw [sendLast_leases, sendToAgent_leases]
            exact notified
          · rw [sendToAgent_leases]
            exact notified

theorem repeatAcquire_leases (state : State) (socket : SocketId) (agentId : AgentId)
    (row : JobRow) (existing : ConcurrencyRow) :
    (state.repeatAcquire socket agentId row existing).leases = state.leases := by
  unfold repeatAcquire
  split
  · exact sendLast_leases ..
  · split
    · exact sendLast_leases ..
    · exact sendLast_leases ..
    · rfl

theorem releaseConcurrencyForRun_table {state : State} (table : LeaseTable state)
    (runId : JobId) (reason : String) :
    LeaseTable (state.releaseConcurrencyForRun runId reason) := by
  have frame := LeaseFrame.foldl
    (fun current (lease : ConcurrencyRow) => sendConcurrencyCancellation_frame current lease reason)
    (state.leases.filter (·.runId = runId))
    { state with leases := delete state.leases (·.runId = runId) }
  have leases := cancellations_leases (state.leases.filter (·.runId = runId)) reason
    { state with leases := delete state.leases (·.runId = runId) }
  refine promoteGroups_table _ ?_ ?_ ?_
  · unfold DistinctRequests
    rw [leases]
    exact nodup_key_delete table.distinct
  · intro lease member
    rw [leases] at member
    unfold Runnable
    rw [frame.jobs]
    exact table.owned lease (mem_delete.mp member).1
  · rintro repositoryKey groupKey absent ⟨lease, member, group, waiting⟩
    rw [leases] at member ⊢
    obtain ⟨holder, found, same, holds⟩ :=
      table.served repositoryKey groupKey ⟨lease, (mem_delete.mp member).1, group, waiting⟩
    refine ⟨holder, mem_delete.mpr ⟨found, ?_⟩, same, holds⟩
    simp only [decide_eq_false_iff_not]
    intro released
    exact absent (mem_heldGroups.mpr
      ⟨holder, List.mem_filter.mpr ⟨found, by simpa using released⟩, same, holds⟩)

theorem releaseConcurrency_table {state : State} (table : LeaseTable state)
    (requestId : RequestId) (runId : JobId) (agentId : AgentId) :
    LeaseTable (state.releaseConcurrency requestId runId agentId) := by
  unfold releaseConcurrency
  dsimp only
  split
  · exact table
  · rename_i lease found
    have present := List.mem_of_find?_eq_some found
    have picked := List.find?_some found
    simp only [Bool.and_eq_true, decide_eq_true_eq] at picked
    -- The request id is a key, so the row that was found is the only one deleted.
    have gone : ∀ other ∈ state.leases, other ≠ lease → other ∈ delete state.leases fun row =>
        row.requestId = requestId && row.runId = runId && row.agentId = agentId := by
      intro other member apart
      refine mem_delete.mpr ⟨member, ?_⟩
      rw [Bool.eq_false_iff]
      intro selected
      simp only [Bool.and_eq_true, decide_eq_true_eq] at selected
      exact apart (table.distinct.eq member present (selected.1.1.trans picked.1.1.symm))
    have served : ∀ repositoryKey groupKey, ¬ (lease.inGroup repositoryKey groupKey = true ∧
        lease.holds = true) → Served
        { state with leases := delete state.leases fun row =>
            row.requestId = requestId && row.runId = runId && row.agentId = agentId }
        repositoryKey groupKey := by
      rintro repositoryKey groupKey spared ⟨waiter, member, group, waiting⟩
      obtain ⟨holder, there, same, holds⟩ :=
        table.served repositoryKey groupKey ⟨waiter, (mem_delete.mp member).1, group, waiting⟩
      refine ⟨holder, gone holder there ?_, same, holds⟩
      rintro rfl
      exact spared ⟨same, holds⟩
    have owned : ∀ row ∈ (delete state.leases fun row =>
        row.requestId = requestId && row.runId = runId && row.agentId = agentId),
        Runnable state row := fun row member => table.owned row (mem_delete.mp member).1
    split
    · rename_i waiting
      refine ⟨nodup_key_delete table.distinct, owned, fun _ _ => served _ _ ?_⟩
      exact fun spared => holds_iff.mp spared.2 waiting
    · refine promoteGroups_table [(lease.repositoryKey, lease.groupKey)]
        (nodup_key_delete table.distinct) owned ?_
      intro repositoryKey groupKey absent
      refine served repositoryKey groupKey fun spared => absent ?_
      have group := spared.1
      simp only [ConcurrencyRow.inGroup, Bool.and_eq_true, decide_eq_true_eq] at group
      simp [group]

/-- Telling a holder to cancel. -/
theorem cancelling_table {state : State} (table : LeaseTable state) (requestId : RequestId) :
    LeaseTable (state.updateLeases (fun lease => lease.requestId = requestId)
      fun lease => { lease with status := .cancelling }) := by
  refine ⟨nodup_key_update (fun _ _ _ => rfl) table.distinct, ?_, ?_⟩
  · exact forall_update table.owned fun _ _ _ owned => owned
  · rintro repositoryKey groupKey ⟨lease, member, group, waiting⟩
    obtain ⟨old, present, rfl⟩ := mem_update.mp member
    split at waiting
    · cases waiting
    · rename_i spared
      rw [if_neg spared] at group
      obtain ⟨holder, found, same, holds⟩ :=
        table.served repositoryKey groupKey ⟨old, present, group, waiting⟩
      refine ⟨_, mem_update.mpr ⟨holder, found, rfl⟩, ?_⟩
      split
      · exact ⟨same, rfl⟩
      · exact ⟨same, holds⟩

/-- Dropping waiters leaves every holder. -/
theorem displaced_table {state : State} (table : LeaseTable state) {gone : ConcurrencyRow → Bool}
    (waiters : ∀ lease, gone lease = true → lease.status = .waiting) :
    LeaseTable { state with leases := delete state.leases gone } := by
  refine ⟨nodup_key_delete table.distinct, forall_delete table.owned, ?_⟩
  rintro repositoryKey groupKey ⟨lease, member, group, waiting⟩
  obtain ⟨holder, found, same, holds⟩ :=
    table.served repositoryKey groupKey ⟨lease, (mem_delete.mp member).1, group, waiting⟩
  refine ⟨holder, mem_delete.mpr ⟨found, ?_⟩, same, holds⟩
  rw [Bool.eq_false_iff]
  exact fun dropped => holds_iff.mp holds (waiters holder dropped)

theorem appended_table {state : State} (table : LeaseTable state) {lease : ConcurrencyRow}
    (fresh : ∀ other ∈ state.leases, other.requestId ≠ lease.requestId)
    (runnable : Runnable state lease)
    (behind : lease.status = .waiting → ∃ holder ∈ state.leases,
      holder.inGroup lease.repositoryKey lease.groupKey = true ∧ holder.holds = true)
    (nextSequence : Nat) :
    LeaseTable { state with leases := state.leases ++ [lease], nextSequence := nextSequence } := by
  constructor
  · exact nodup_key_append table.distinct fresh
  · intro other member
    rcases List.mem_append.mp member with old | new
    · exact table.owned other old
    · rw [List.mem_singleton.mp new]
      exact runnable
  · rintro repositoryKey groupKey ⟨waiter, member, group, waiting⟩
    have among : ∃ holder ∈ state.leases,
        holder.inGroup repositoryKey groupKey = true ∧ holder.holds = true := by
      rcases List.mem_append.mp member with old | new
      · exact table.served repositoryKey groupKey ⟨waiter, old, group, waiting⟩
      · rw [List.mem_singleton.mp new] at group waiting
        simp only [ConcurrencyRow.inGroup, Bool.and_eq_true, decide_eq_true_eq] at group
        rw [← group.1, ← group.2]
        exact behind waiting
    obtain ⟨holder, found, same, holds⟩ := among
    exact ⟨holder, List.mem_append_left _ found, same, holds⟩

theorem insertLease_table {state : State} (table : LeaseTable state) {lease : ConcurrencyRow}
    (fresh : ∀ other ∈ state.leases, other.requestId ≠ lease.requestId)
    (runnable : Runnable state lease) (cancelInProgress : Bool) :
    LeaseTable (state.insertLease lease cancelInProgress).1 := by
  unfold insertLease
  dsimp only
  cases found : state.leases.find? fun other =>
      other.inGroup lease.repositoryKey lease.groupKey && other.holds with
  | none =>
      simp only [ite_self, Option.isSome_none, Bool.false_eq_true, if_false]
      refine appended_table table ?_ ?_ ?_ _
      · exact fresh
      · exact runnable
      · exact fun waiting => nomatch waiting
  | some holder =>
      have present := List.mem_of_find?_eq_some found
      have picked := List.find?_some found
      simp only [Bool.and_eq_true] at picked
      cases cancelInProgress with
      | false =>
          simp only [Bool.false_eq_true, if_false]
          refine appended_table table ?_ ?_ ?_ _
          · exact fresh
          · exact runnable
          · exact fun _ => ⟨holder, present, picked⟩
      | true =>
          simp only [if_true]
          refine appended_table (cancelling_table table holder.requestId) ?_ ?_ ?_ _
          · exact forall_update fresh fun _ _ _ apart => apart
          · exact runnable
          · exact fun _ => ⟨{ holder with status := .cancelling },
              mem_update.mpr ⟨holder, present, by simp⟩, picked.1, rfl⟩

theorem acquireConcurrency_table [JsText] {state : State} (table : LeaseTable state)
    (socket : SocketId) (agentId : AgentId) {row : JobRow} (member : row ∈ state.jobs)
    (active : row.active = true) (owner : row.agentId = some agentId) (requestId : RequestId)
    (unitId group : String) (cancelInProgress : Bool) (queue : QueueMode) (now : Millis) :
    LeaseTable (state.acquireConcurrency socket agentId row requestId unitId group
      cancelInProgress queue now) := by
  unfold acquireConcurrency
  split
  · rename_i existing _
    have frame := state.repeatAcquire_frame socket agentId row existing
    exact table.congr (repeatAcquire_leases ..) frame.jobs
  · rename_i none
    dsimp only
    have fresh : ∀ other ∈ state.leases, other.requestId ≠ requestId := by
      simpa using none
    refine .congr (announceAcquire_leases ..) (announceAcquire_frame ..).jobs ?_
    unfold acquireTransaction
    dsimp only [requestedLease]
    split
    · refine insertLease_table (displaced_table table fun lease dropped => ?_) ?_
        ⟨row, member, rfl, active, owner⟩ cancelInProgress
      · simp only [Bool.and_eq_true, decide_eq_true_eq] at dropped
        exact dropped.2
      · exact forall_delete fresh
    · split
      · exact table
      · exact insertLease_table table fresh ⟨row, member, rfl, active, owner⟩ cancelInProgress

theorem insertLease_runs (state : State) (lease : ConcurrencyRow) (cancelInProgress : Bool) :
    ∀ kept ∈ (state.insertLease lease cancelInProgress).1.leases,
      (∃ old ∈ state.leases, old.runId = kept.runId) ∨ kept.runId = lease.runId := by
  intro kept member
  unfold insertLease at member
  dsimp only at member
  rcases List.mem_append.mp member with earlier | inserted
  · left
    split at earlier
    · exact ⟨kept, earlier, rfl⟩
    · obtain ⟨old, present, rfl⟩ := mem_update.mp earlier
      refine ⟨old, present, ?_⟩
      split <;> rfl
  · rw [List.mem_singleton.mp inserted]
    exact .inr rfl

/-- The leases after an acquire are of the runs that had some, and of its own. -/
theorem acquireConcurrency_runs [JsText] (state : State) (socket : SocketId) (agentId : AgentId)
    (row : JobRow) (requestId : RequestId) (unitId group : String) (cancelInProgress : Bool)
    (queue : QueueMode) (now : Millis) :
    ∀ lease ∈ (state.acquireConcurrency socket agentId row requestId unitId group
        cancelInProgress queue now).leases,
      (∃ old ∈ state.leases, old.runId = lease.runId) ∨ lease.runId = row.id := by
  intro lease member
  unfold acquireConcurrency at member
  split at member
  · rw [repeatAcquire_leases] at member
    exact .inl ⟨lease, member, rfl⟩
  · dsimp only at member
    rw [announceAcquire_leases] at member
    unfold acquireTransaction at member
    dsimp only [requestedLease] at member
    split at member
    · rcases insertLease_runs _ _ _ lease member with ⟨old, present, same⟩ | mine
      · exact .inl ⟨old, (mem_delete.mp present).1, same⟩
      · exact .inr mine
    · split at member
      · exact .inl ⟨lease, member, rfl⟩
      · exact insertLease_runs _ _ _ lease member

/-- The acquire inserts a row: its request id is new and its group has room. -/
def Admitted [JsText] (state : State) (row : JobRow) (requestId : RequestId) (group : String)
    (queue : QueueMode) : Prop :=
  (∀ lease ∈ state.leases, lease.requestId ≠ requestId) ∧
    (queue = .max → (state.leases.filter fun lease =>
      lease.inGroup (repositoryKeyOf row.job.repository) (toLowerCase (trim group)) &&
        lease.status = .waiting).length < 100)

instance [JsText] (state : State) (row : JobRow) (requestId : RequestId) (group : String)
    (queue : QueueMode) : Decidable (state.Admitted row requestId group queue) :=
  inferInstanceAs (Decidable (_ ∧ _))

/-- Otherwise it is answered, if at all, on its own connection. -/
theorem acquireConcurrency_unadmitted [JsText] {state : State} {row : JobRow}
    {requestId : RequestId} {group : String} {queue : QueueMode}
    (refused : ¬ state.Admitted row requestId group queue) (socket : SocketId)
    (agentId : AgentId) (unitId : String) (cancelInProgress : Bool) (now : Millis) :
    state.acquireConcurrency socket agentId row requestId unitId group cancelInProgress queue now =
        state ∨
      ∃ message, (∀ spec assignment, message ≠ .runJob spec assignment) ∧
        state.acquireConcurrency socket agentId row requestId unitId group cancelInProgress queue
          now = state.sendLast socket message := by
  unfold acquireConcurrency
  split
  · unfold repeatAcquire
    split
    · exact .inr ⟨_, by simp, rfl⟩
    · split
      · exact .inr ⟨_, by simp, rfl⟩
      · exact .inr ⟨_, by simp, rfl⟩
      · exact .inl rfl
  · rename_i none
    have fresh : ∀ lease ∈ state.leases, lease.requestId ≠ requestId := by simpa using none
    -- The request id is new, so it is the group that is full.
    obtain ⟨rfl, full⟩ : queue = .max ∧ 100 ≤ (state.leases.filter fun lease =>
        lease.inGroup (repositoryKeyOf row.job.repository) (toLowerCase (trim group)) &&
          lease.status = .waiting).length := by
      by_contra room
      exact refused ⟨fresh, fun isMax => Nat.lt_of_not_le fun full => room ⟨isMax, full⟩⟩
    have answer : (state.acquireTransaction (requestedLease agentId row requestId unitId group .max
        now) cancelInProgress) = (state, [],
          .rejected
            "The concurrency group already has GitHub's maximum of 100 pending units.") := by
      simp only [acquireTransaction, requestedLease, ge_iff_le, if_pos full]
    dsimp only
    rw [answer]
    exact .inr ⟨_, by simp, rfl⟩

end State

end GitZero.ControlPlane
