/-
Module: GitZero.Proofs.ConcurrencyQueue
Purpose: The queue of a concurrency group over whole runs: one holder, a bounded
  number of waiters, displacement by a `single` request and promotion in order.
Trusted boundary: none
Main exports: State.LeaseQueue, State.Eligible, Visited, concurrency_queues_kept
-/
import GitZero.ControlPlane.Events
import GitZero.Proofs.LeaseOwnership

namespace GitZero.ControlPlane

open Table Machine

namespace State

/-- `repository_key = ? AND group_key = ? AND status = 'waiting'` -/
def waits (repositoryKey groupKey : String) (lease : ConcurrencyRow) : Bool :=
  lease.inGroup repositoryKey groupKey && lease.status = .waiting

/-- `repository_key = ? AND group_key = ? AND status IN ('active', 'cancelling')` -/
def occupies (repositoryKey groupKey : String) (lease : ConcurrencyRow) : Bool :=
  lease.inGroup repositoryKey groupKey && lease.holds

theorem waits_iff {repositoryKey groupKey : String} {lease : ConcurrencyRow} :
    waits repositoryKey groupKey lease = true ↔
      lease.inGroup repositoryKey groupKey = true ∧ lease.status = .waiting := by
  simp [waits]

theorem occupies_iff {repositoryKey groupKey : String} {lease : ConcurrencyRow} :
    occupies repositoryKey groupKey lease = true ↔
      lease.inGroup repositoryKey groupKey = true ∧ lease.holds = true := by
  simp [occupies]

/-- No waiter comes from an update to another status. -/
theorem countP_waits_update {leases : List ConcurrencyRow} {selected : ConcurrencyRow → Bool}
    {status : ConcurrencyStatus} (held : status ≠ .waiting) (repositoryKey groupKey : String) :
    (update leases selected fun lease => { lease with status := status }).countP
      (waits repositoryKey groupKey) ≤ leases.countP (waits repositoryKey groupKey) := by
  unfold update
  rw [List.countP_map]
  apply List.countP_mono_left
  intro lease _ waiting
  rw [Function.comp_apply] at waiting
  split at waiting
  · exact absurd (waits_iff.mp waiting).2 held
  · exact waiting

theorem countP_waits_delete (leases : List ConcurrencyRow) (repositoryKey groupKey : String) :
    (delete leases (waits repositoryKey groupKey)).countP (waits repositoryKey groupKey) = 0 := by
  rw [List.countP_eq_zero]
  intro lease member waiting
  rw [(mem_delete.mp member).2] at waiting
  cases waiting

/-- The lease table as a family of queues: rows in the order of their sequence, one
holder a group, at most 100 waiters a group. -/
structure LeaseQueue (state : State) : Prop where
  distinct : DistinctRequests state
  ordered : Ordered (·.sequence) state.leases
  numbered : ∀ lease ∈ state.leases, lease.sequence < state.nextSequence
  alone : ∀ repositoryKey groupKey, ∀ first ∈ state.leases, ∀ second ∈ state.leases,
    occupies repositoryKey groupKey first = true →
      occupies repositoryKey groupKey second = true → first = second
  bounded : ∀ repositoryKey groupKey, state.leases.countP (waits repositoryKey groupKey) ≤ 100

theorem sendLast_sequence (state : State) (socket : SocketId) (message : ServerMessage) :
    (state.sendLast socket message).nextSequence = state.nextSequence := by
  unfold sendLast sendServer
  split <;> rfl

theorem sendToAgent_sequence (state : State) (agentId : AgentId) (message : ServerMessage) :
    (state.sendToAgent agentId message).1.nextSequence = state.nextSequence := by
  unfold sendToAgent
  split <;> rfl

theorem cancellations_sequence (leases : List ConcurrencyRow) (reason : String) (state : State) :
    (leases.foldl (fun current lease => current.sendConcurrencyCancellation lease reason)
      state).nextSequence = state.nextSequence := by
  induction leases generalizing state with
  | nil => rfl
  | cons lease leases inductionHypothesis =>
      rw [List.foldl_cons, inductionHypothesis]
      exact sendToAgent_sequence ..

theorem repeatAcquire_sequence (state : State) (socket : SocketId) (agentId : AgentId)
    (row : JobRow) (existing : ConcurrencyRow) :
    (state.repeatAcquire socket agentId row existing).nextSequence = state.nextSequence := by
  unfold repeatAcquire
  split
  · exact sendLast_sequence ..
  · split
    · exact sendLast_sequence ..
    · exact sendLast_sequence ..
    · rfl

theorem announceAcquire_sequence (state : State) (socket : SocketId) (lease : ConcurrencyRow)
    (displaced : List ConcurrencyRow) (decision : AcquireDecision) :
    (state.announceAcquire socket lease displaced decision).nextSequence =
      state.nextSequence := by
  have notified := cancellations_sequence displaced
    "A newer concurrency request replaced this pending unit." state
  unfold announceAcquire
  cases decision with
  | rejected reason => rw [sendLast_sequence, notified]
  | inserted status activeToCancel =>
      cases activeToCancel with
      | none =>
          dsimp only [Option.elim]
          split
          · rw [sendLast_sequence, notified]
          · exact notified
      | some active =>
          dsimp only [Option.elim, sendConcurrencyCancellation]
          split
          · rw [sendLast_sequence, sendToAgent_sequence]
            exact notified
          · rw [sendToAgent_sequence]
            exact notified

namespace LeaseQueue

variable {state after : State}

theorem congr (queue : LeaseQueue state) (leases : after.leases = state.leases)
    (sequence : after.nextSequence = state.nextSequence) : LeaseQueue after := by
  constructor
  · unfold DistinctRequests
    rw [leases]
    exact queue.distinct
  · rw [leases]
    exact queue.ordered
  · rw [leases, sequence]
    exact queue.numbered
  · rw [leases]
    exact queue.alone
  · rw [leases]
    exact queue.bounded

theorem delete (queue : LeaseQueue state) (gone : ConcurrencyRow → Bool) :
    LeaseQueue { state with leases := Table.delete state.leases gone } := by
  constructor
  · exact nodup_key_delete queue.distinct
  · exact ordered_delete queue.ordered
  · exact forall_delete queue.numbered
  · intro repositoryKey groupKey first one second two
    exact queue.alone repositoryKey groupKey first (mem_delete.mp one).1 second
      (mem_delete.mp two).1
  · intro repositoryKey groupKey
    exact (List.filter_sublist.countP_le).trans (queue.bounded repositoryKey groupKey)

/-- An update that only turns statuses away from `waiting`, such that a group keeps one
holder. -/
theorem update (queue : LeaseQueue state) {selected : ConcurrencyRow → Bool}
    {status : ConcurrencyStatus} (held : status ≠ .waiting)
    (alone : ∀ repositoryKey groupKey,
      ∀ first ∈ Table.update state.leases selected fun lease => { lease with status := status },
      ∀ second ∈ Table.update state.leases selected fun lease => { lease with status := status },
      occupies repositoryKey groupKey first = true →
        occupies repositoryKey groupKey second = true → first = second) :
    LeaseQueue (state.updateLeases selected fun lease => { lease with status := status }) := by
  constructor
  · exact nodup_key_update (fun _ _ _ => rfl) queue.distinct
  · exact ordered_update (fun _ _ _ => rfl) queue.ordered
  · exact forall_update queue.numbered fun _ _ _ earlier => earlier
  · exact alone
  · intro repositoryKey groupKey
    exact (countP_waits_update held _ _).trans (queue.bounded repositoryKey groupKey)

/-- The row that `promotable` picks may become the holder. -/
theorem promote (queue : LeaseQueue state) {repositoryKey groupKey : String}
    {next : ConcurrencyRow} (chosen : state.promotable repositoryKey groupKey = some next) :
    LeaseQueue (state.updateLeases
      (fun lease => lease.requestId = next.requestId && lease.status = .waiting)
      fun lease => { lease with status := .active }) := by
  obtain ⟨present, inside, -, free, -⟩ := promotable_spec chosen
  refine queue.update (by decide) ?_
  -- A holder after the update is the picked row, or was a holder of another group before.
  have origin : ∀ otherRepository otherGroup, ∀ lease ∈ Table.update state.leases
      (fun lease => lease.requestId = next.requestId && lease.status = .waiting)
      (fun lease => { lease with status := .active }),
      occupies otherRepository otherGroup lease = true →
        lease = { next with status := .active } ∨
          (lease ∈ state.leases ∧ lease.inGroup repositoryKey groupKey = false) := by
    intro otherRepository otherGroup lease member holds
    obtain ⟨old, there, rfl⟩ := mem_update.mp member
    split
    · rename_i picked
      simp only [Bool.and_eq_true, decide_eq_true_eq] at picked
      rw [queue.distinct.eq there present picked.1]
      exact .inl rfl
    · rename_i spared
      rw [if_neg spared] at holds
      refine .inr ⟨there, Bool.eq_false_iff.mpr fun group => ?_⟩
      have idle := free old there group
      rw [(occupies_iff.mp holds).2] at idle
      cases idle
  have apart : ∀ otherRepository otherGroup, ∀ lease : ConcurrencyRow,
      lease.inGroup repositoryKey groupKey = false →
      occupies otherRepository otherGroup lease = true →
      occupies otherRepository otherGroup { next with status := .active } = true → False := by
    intro otherRepository otherGroup lease outside one two
    have same := (occupies_iff.mp one).1
    have also := (occupies_iff.mp two).1
    simp only [ConcurrencyRow.inGroup, Bool.and_eq_true, decide_eq_true_eq] at same also inside
    simp [ConcurrencyRow.inGroup, same, ← also, inside] at outside
  intro otherRepository otherGroup first one second two firstHolds secondHolds
  rcases origin _ _ first one firstHolds with rfl | ⟨old, outside⟩
  · rcases origin _ _ second two secondHolds with rfl | ⟨_, outside⟩
    · rfl
    · exact (apart _ _ second outside secondHolds firstHolds).elim
  · rcases origin _ _ second two secondHolds with rfl | ⟨older, _⟩
    · exact (apart _ _ first outside firstHolds secondHolds).elim
    · exact queue.alone _ _ first old second older firstHolds secondHolds

theorem promotes (queue : LeaseQueue state) {repositoryKey groupKey : String}
    (promotes : Promotes repositoryKey groupKey state after) : LeaseQueue after := by
  induction promotes with
  | stop => exact queue
  | grant chosen reached => exact (queue.promote chosen).congr rfl rfl
  | skip chosen unreached further inductionHypothesis =>
      exact inductionHypothesis (queue.delete _)

theorem promoteConcurrency (queue : LeaseQueue state) (repositoryKey groupKey : String) :
    LeaseQueue (state.promoteConcurrency repositoryKey groupKey) :=
  queue.promotes (promoteConcurrency_promotes state repositoryKey groupKey)

theorem promoteGroups (queue : LeaseQueue state) (groups : List (String × String)) :
    LeaseQueue (groups.foldl
      (fun current group => current.promoteConcurrency group.1 group.2) state) := by
  induction groups generalizing state with
  | nil => exact queue
  | cons group groups inductionHypothesis =>
      exact inductionHypothesis (queue.promoteConcurrency group.1 group.2)

theorem sendConcurrencyCancellation (queue : LeaseQueue state) (lease : ConcurrencyRow)
    (reason : String) : LeaseQueue (state.sendConcurrencyCancellation lease reason) := by
  unfold State.sendConcurrencyCancellation sendToAgent
  split
  · exact queue.congr rfl rfl
  · exact queue

theorem cancellations (queue : LeaseQueue state) (leases : List ConcurrencyRow)
    (reason : String) :
    LeaseQueue (leases.foldl
      (fun current lease => current.sendConcurrencyCancellation lease reason) state) := by
  induction leases generalizing state with
  | nil => exact queue
  | cons lease leases inductionHypothesis =>
      exact inductionHypothesis (queue.sendConcurrencyCancellation lease reason)

theorem releaseConcurrencyForRun (queue : LeaseQueue state) (runId : JobId) (reason : String) :
    LeaseQueue (state.releaseConcurrencyForRun runId reason) :=
  ((queue.delete _).cancellations _ _).promoteGroups _

theorem releaseConcurrency (queue : LeaseQueue state) (requestId : RequestId) (runId : JobId)
    (agentId : AgentId) : LeaseQueue (state.releaseConcurrency requestId runId agentId) := by
  unfold State.releaseConcurrency
  dsimp only
  split
  · exact queue
  · split
    · exact queue.delete _
    · exact (queue.delete _).promoteConcurrency _ _

/-- Telling the holder of a group to cancel leaves it the holder. -/
theorem cancelHolder (queue : LeaseQueue state) {repositoryKey groupKey : String}
    {holder : ConcurrencyRow} (present : holder ∈ state.leases)
    (holds : occupies repositoryKey groupKey holder = true) :
    LeaseQueue (state.updateLeases (fun other => other.requestId = holder.requestId)
      fun other => { other with status := .cancelling }) := by
  refine queue.update (by decide) ?_
  intro otherRepository otherGroup first one second two firstHolds secondHolds
  obtain ⟨older, there, rfl⟩ := mem_update.mp one
  obtain ⟨old, here, rfl⟩ := mem_update.mp two
  have was : ∀ lease ∈ state.leases, occupies otherRepository otherGroup
      (if decide (lease.requestId = holder.requestId) = true then
        { lease with status := .cancelling } else lease) = true →
      occupies otherRepository otherGroup lease = true := by
    intro lease member holdsNow
    split at holdsNow
    · rename_i picked
      rw [queue.distinct.eq member present (of_decide_eq_true picked)] at holdsNow ⊢
      exact occupies_iff.mpr ⟨(occupies_iff.mp holdsNow).1, (occupies_iff.mp holds).2⟩
    · exact holdsNow
  rw [queue.alone _ _ older there old here (was older there firstHolds) (was old here secondHolds)]

theorem append (queue : LeaseQueue state) {lease : ConcurrencyRow}
    (fresh : ∀ other ∈ state.leases, other.requestId ≠ lease.requestId)
    (numbered : lease.sequence = state.nextSequence)
    (free : lease.holds = true → ∀ other ∈ state.leases,
      occupies lease.repositoryKey lease.groupKey other = false)
    (room : lease.status = .waiting →
      state.leases.countP (waits lease.repositoryKey lease.groupKey) < 100) :
    LeaseQueue { state with
      leases := state.leases ++ [lease]
      nextSequence := state.nextSequence + 1 } := by
  have sameGroup : ∀ {repositoryKey groupKey : String},
      lease.inGroup repositoryKey groupKey = true →
        lease.repositoryKey = repositoryKey ∧ lease.groupKey = groupKey := by
    intro repositoryKey groupKey inside
    simpa [ConcurrencyRow.inGroup] using inside
  constructor
  · exact nodup_key_append queue.distinct fresh
  · refine ordered_append queue.ordered fun other member => ?_
    rw [numbered]
    exact queue.numbered other member
  · intro other member
    rcases List.mem_append.mp member with old | new
    · exact Nat.lt_succ_of_lt (queue.numbered other old)
    · rw [List.mem_singleton.mp new, numbered]
      exact Nat.lt_succ_self _
  · intro repositoryKey groupKey first one second two firstHolds secondHolds
    -- Next to the new row no row of its group holds.
    have clash : ∀ other ∈ state.leases, occupies repositoryKey groupKey other = true →
        occupies repositoryKey groupKey lease = true → False := by
      intro other member holds newHolds
      obtain ⟨rfl, rfl⟩ := sameGroup (occupies_iff.mp newHolds).1
      rw [free (occupies_iff.mp newHolds).2 other member] at holds
      cases holds
    rcases List.mem_append.mp one with old | new
    · rcases List.mem_append.mp two with older | newer
      · exact queue.alone _ _ first old second older firstHolds secondHolds
      · rw [List.mem_singleton.mp newer] at secondHolds
        exact (clash first old firstHolds secondHolds).elim
    · rw [List.mem_singleton.mp new] at firstHolds ⊢
      rcases List.mem_append.mp two with older | newer
      · exact (clash second older secondHolds firstHolds).elim
      · exact (List.mem_singleton.mp newer).symm
  · intro repositoryKey groupKey
    rw [List.countP_append]
    by_cases waiting : waits repositoryKey groupKey lease = true
    · obtain ⟨inside, status⟩ := waits_iff.mp waiting
      obtain ⟨rfl, rfl⟩ := sameGroup inside
      rw [List.countP_cons_of_pos waiting]
      exact room status
    · rw [List.countP_cons_of_neg waiting]
      exact queue.bounded repositoryKey groupKey

/-- The insert half of the acquire transaction, for a group with room for a waiter. -/
theorem insertLease (queue : LeaseQueue state) {lease : ConcurrencyRow}
    (fresh : ∀ other ∈ state.leases, other.requestId ≠ lease.requestId)
    (room : state.leases.countP (waits lease.repositoryKey lease.groupKey) < 100)
    (cancelInProgress : Bool) : LeaseQueue (state.insertLease lease cancelInProgress).1 := by
  unfold State.insertLease
  dsimp only
  cases found : state.leases.find? fun other =>
      other.inGroup lease.repositoryKey lease.groupKey && other.holds with
  | none =>
      simp only [ite_self, Option.isSome_none, Bool.false_eq_true, if_false]
      refine queue.append fresh rfl ?_ ?_
      · intro _ other member
        exact Bool.eq_false_iff.mpr (List.find?_eq_none.mp found other member)
      · exact fun _ => room
  | some holder =>
      have present := List.mem_of_find?_eq_some found
      have holds : occupies lease.repositoryKey lease.groupKey holder = true :=
        List.find?_some found
      cases cancelInProgress with
      | false =>
          simp only [Bool.false_eq_true, if_false]
          refine queue.append fresh rfl ?_ ?_
          · exact fun active => by cases active
          · exact fun _ => room
      | true =>
          simp only [if_true]
          refine (queue.cancelHolder present holds).append ?_ rfl ?_ ?_
          · exact forall_update fresh fun _ _ _ apart => apart
          · exact fun active => by cases active
          · exact fun _ => Nat.lt_of_le_of_lt (countP_waits_update (by decide) _ _) room

theorem acquireConcurrency [JsText] (queue : LeaseQueue state) (socket : SocketId)
    (agentId : AgentId) (row : JobRow) (requestId : RequestId) (unitId group : String)
    (cancelInProgress : Bool) (mode : QueueMode) (now : Millis) :
    LeaseQueue (state.acquireConcurrency socket agentId row requestId unitId group
      cancelInProgress mode now) := by
  unfold State.acquireConcurrency
  split
  · exact queue.congr (repeatAcquire_leases ..) (repeatAcquire_sequence ..)
  · rename_i none
    have fresh : ∀ other ∈ state.leases, other.requestId ≠ requestId := by
      simpa using none
    dsimp only
    refine LeaseQueue.congr ?_ (announceAcquire_leases ..) (announceAcquire_sequence ..)
    unfold acquireTransaction
    dsimp only [requestedLease]
    split
    · refine (queue.delete _).insertLease (forall_delete fresh) ?_ cancelInProgress
      have cleared := countP_waits_delete state.leases (repositoryKeyOf row.job.repository)
        (toLowerCase (trim group))
      exact Nat.lt_of_le_of_lt (Nat.le_of_eq cleared) (by decide)
    · split
      · exact queue
      · rename_i room
        refine queue.insertLease fresh ?_ cancelInProgress
        rw [List.countP_eq_length_filter]
        exact Nat.lt_of_not_le room

theorem acts [JsText] {action : Action} (queue : LeaseQueue state)
    (acts : Acts action state after) : LeaseQueue after := by
  cases acts with
  | quiet core => exact queue.congr core.leases core.nextSequence
  | releaseRun runId reason => exact queue.releaseConcurrencyForRun runId reason
  | release requestId runId agent => exact queue.releaseConcurrency requestId runId agent
  | acquire socket agent row requestId unitId group cancelInProgress mode now =>
      exact queue.acquireConcurrency socket agent row requestId unitId group cancelInProgress mode
        now
  | _ => exact queue.congr rfl rfl

end LeaseQueue

/-! ### Promotion -/

/-- A waiter of the group whose run is active on its connected agent. -/
def Eligible (state : State) (repositoryKey groupKey : String) (lease : ConcurrencyRow) : Prop :=
  lease ∈ state.leases ∧ waits repositoryKey groupKey lease = true ∧ Runnable state lease ∧
    Reachable state lease.agentId

/-- The lease became active, and its agent was told so in the only message sent. -/
def Granted (before after : State) (lease : ConcurrencyRow) : Prop :=
  { lease with status := .active } ∈ after.leases ∧
    ∃ entry ∈ before.sockets, entry.agentId = lease.agentId ∧ entry.isOpen = true ∧
      after.outbox = before.outbox ++ [(entry.id, .concurrencyGranted lease.requestId)]

/-- No row of the group is active or cancelling. -/
def Vacant (state : State) (repositoryKey groupKey : String) : Prop :=
  ∀ lease ∈ state.leases, occupies repositoryKey groupKey lease = false

instance (state : State) (repositoryKey groupKey : String) :
    Decidable (Vacant state repositoryKey groupKey) :=
  inferInstanceAs (Decidable (∀ lease ∈ state.leases, _))

/-- What promotion does for a group: nothing while it has a holder; else the eligible
waiter with the least sequence is granted, or no one when there is none. -/
structure PromotesLeast (before after : State) (repositoryKey groupKey : String) : Prop where
  held : ¬ Vacant before repositoryKey groupKey → after = before
  grants : Vacant before repositoryKey groupKey →
    (∃ lease, Eligible before repositoryKey groupKey lease) →
    ∃ next, Eligible before repositoryKey groupKey next ∧
      (∀ other, Eligible before repositoryKey groupKey other →
        other = next ∨ next.sequence < other.sequence) ∧
      Granted before after next
  idle : Vacant before repositoryKey groupKey →
    (∀ lease, ¬ Eligible before repositoryKey groupKey lease) →
    Vacant after repositoryKey groupKey ∧ after.outbox = before.outbox

theorem promotable_eq_none_of_held {state : State} {repositoryKey groupKey : String}
    (held : ¬ Vacant state repositoryKey groupKey) :
    state.promotable repositoryKey groupKey = none := by
  unfold promotable
  rw [if_pos]
  unfold Vacant at held
  push Not at held
  obtain ⟨holder, member, holds⟩ := held
  exact List.any_eq_true.mpr ⟨holder, member, by simpa [occupies] using holds⟩

/-- The picked row comes first among the waiters that can run. -/
theorem promotable_least {state : State} {repositoryKey groupKey : String}
    {next : ConcurrencyRow} (ordered : Ordered (·.sequence) state.leases)
    (chosen : state.promotable repositoryKey groupKey = some next) :
    ∀ other ∈ state.leases, waits repositoryKey groupKey other = true → Runnable state other →
      other = next ∨ next.sequence < other.sequence := by
  unfold promotable at chosen
  split at chosen
  · cases chosen
  · intro other member waiting runs
    refine find?_least ordered chosen other member ?_
    obtain ⟨inside, status⟩ := waits_iff.mp waiting
    obtain ⟨job, present, same, active, owner⟩ := runs
    simp only [inside, status, decide_true, Bool.true_and, List.any_eq_true]
    exact ⟨job, present, by simp [same, active, owner]⟩

theorem reachable_iff {state : State} {agentId : AgentId} :
    Reachable state agentId ↔ (state.sockets.find? fun socket =>
      socket.agentId = agentId && socket.isOpen).isSome = true := by
  simp [Reachable, List.find?_isSome]

/-- Deleting a waiter whose agent cannot be told leaves the eligible ones. -/
theorem eligible_skip {state : State} {repositoryKey groupKey : String} {next : ConcurrencyRow}
    (distinct : DistinctRequests state) (present : next ∈ state.leases)
    (unreached : ¬ Reachable state next.agentId) (lease : ConcurrencyRow) :
    Eligible { state with leases := delete state.leases fun row =>
        row.requestId = next.requestId } repositoryKey groupKey lease ↔
      Eligible state repositoryKey groupKey lease := by
  constructor
  · rintro ⟨member, waiting, runs, reached⟩
    exact ⟨(mem_delete.mp member).1, waiting, runs, reached⟩
  · rintro ⟨member, waiting, runs, reached⟩
    refine ⟨mem_delete.mpr ⟨member, ?_⟩, waiting, runs, reached⟩
    simp only [decide_eq_false_iff_not]
    intro same
    rw [distinct.eq member present same] at reached
    exact unreached reached

theorem Promotes.least {repositoryKey groupKey : String} {before after : State}
    (promotes : Promotes repositoryKey groupKey before after) (queue : LeaseQueue before) :
    PromotesLeast before after repositoryKey groupKey := by
  induction promotes with
  | @stop state none =>
      refine ⟨fun _ => rfl, ?_, fun vacant _ => ⟨vacant, rfl⟩⟩
      rintro vacant ⟨lease, member, waiting, runs, -⟩
      rcases promotable_none none with ⟨holder, present, holds⟩ | stuck
      · have idle := vacant holder present
        rw [occupies_iff.mpr holds] at idle
        cases idle
      · obtain ⟨inside, status⟩ := waits_iff.mp waiting
        exact (stuck lease member inside status runs).elim
  | @grant state next entry chosen reached =>
      obtain ⟨present, inside, waiting, -, runs⟩ := promotable_spec chosen
      have waiter := waits_iff.mpr ⟨inside, waiting⟩
      have agent := List.find?_some reached
      simp only [Bool.and_eq_true, decide_eq_true_eq] at agent
      have registered := List.mem_of_find?_eq_some reached
      have reachable : Reachable state next.agentId := ⟨entry, registered, agent⟩
      have eligible : Eligible state repositoryKey groupKey next :=
        ⟨present, waiter, runs, reachable⟩
      refine ⟨fun held => ?_, fun _ _ => ?_, fun _ none => (none next eligible).elim⟩
      · rw [promotable_eq_none_of_held held] at chosen
        cases chosen
      · refine ⟨next, eligible, ?_, ?_, entry, registered, agent.1, agent.2, rfl⟩
        · rintro other ⟨member, otherWaits, otherRuns, -⟩
          exact promotable_least queue.ordered chosen other member otherWaits otherRuns
        · exact mem_update.mpr ⟨next, present, by simp [waiting]⟩
  | @skip state final next chosen unreached further inductionHypothesis =>
      obtain ⟨present, -⟩ := promotable_spec chosen
      have missed : ¬ Reachable state next.agentId := by
        rw [reachable_iff, unreached]
        decide
      have same : ∀ lease, Eligible { state with
          leases := delete state.leases fun row => row.requestId = next.requestId }
          repositoryKey groupKey lease ↔ Eligible state repositoryKey groupKey lease :=
        eligible_skip queue.distinct present missed
      have later := inductionHypothesis (queue.delete _)
      have stillVacant : Vacant state repositoryKey groupKey → Vacant { state with
          leases := delete state.leases fun row => row.requestId = next.requestId }
          repositoryKey groupKey := forall_delete
      refine ⟨fun held => ?_, fun vacant some => ?_, fun vacant none => ?_⟩
      · rw [promotable_eq_none_of_held held] at chosen
        cases chosen
      · obtain ⟨lease, eligible⟩ := some
        obtain ⟨picked, chosenEligible, least, granted⟩ :=
          later.grants (stillVacant vacant) ⟨lease, (same lease).mpr eligible⟩
        exact ⟨picked, (same picked).mp chosenEligible,
          fun other candidate => least other ((same other).mpr candidate), granted⟩
      · exact later.idle (stillVacant vacant) fun lease eligible =>
          none lease ((same lease).mp eligible)

/-! ### Displacement -/

/-- A cancellation of the lease went to an open connection of its agent. -/
def ToldOff (before after : State) (lease : ConcurrencyRow) (reason : String) : Prop :=
  ∃ entry ∈ before.sockets, entry.agentId = lease.agentId ∧ entry.isOpen = true ∧
    ∃ news, after.outbox = before.outbox ++ news ∧
      (entry.id, .concurrencyCancelled lease.requestId reason) ∈ news

theorem ToldOff.later {before middle after : State} {lease : ConcurrencyRow} {reason : String}
    {more : List (SocketId × ServerMessage)} (told : ToldOff before middle lease reason)
    (grown : after.outbox = middle.outbox ++ more) : ToldOff before after lease reason := by
  obtain ⟨entry, registered, agent, isOpen, news, sent, among⟩ := told
  refine ⟨entry, registered, agent, isOpen, news ++ more, ?_, List.mem_append_left _ among⟩
  rw [grown, sent, List.append_assoc]

theorem sendToAgent_grows (state : State) (agentId : AgentId) (message : ServerMessage) :
    ∃ news, (state.sendToAgent agentId message).1.outbox = state.outbox ++ news := by
  unfold sendToAgent
  split
  · exact ⟨_, rfl⟩
  · exact ⟨[], (List.append_nil _).symm⟩

theorem sendLast_grows (state : State) (socket : SocketId) (message : ServerMessage) :
    ∃ news, (state.sendLast socket message).outbox = state.outbox ++ news := by
  unfold sendLast sendServer
  split
  · exact ⟨_, rfl⟩
  · exact ⟨[], (List.append_nil _).symm⟩

theorem cancellations_grow (leases : List ConcurrencyRow) (reason : String) (state : State) :
    ∃ news, (leases.foldl (fun current lease => current.sendConcurrencyCancellation lease reason)
      state).outbox = state.outbox ++ news := by
  induction leases generalizing state with
  | nil => exact ⟨[], (List.append_nil _).symm⟩
  | cons lease leases inductionHypothesis =>
      obtain ⟨first, sent⟩ := sendToAgent_grows state lease.agentId
        (.concurrencyCancelled lease.requestId reason)
      obtain ⟨rest, later⟩ := inductionHypothesis (state.sendConcurrencyCancellation lease reason)
      refine ⟨first ++ rest, ?_⟩
      rw [List.foldl_cons, later, ← List.append_assoc, ← sent]
      rfl

/-- Every lease of the list whose agent is connected is told. -/
theorem cancellations_told (leases : List ConcurrencyRow) (reason : String) {state : State}
    {lease : ConcurrencyRow} (member : lease ∈ leases)
    (reachable : Reachable state lease.agentId) :
    ToldOff state (leases.foldl
      (fun current lease => current.sendConcurrencyCancellation lease reason) state) lease
      reason := by
  induction leases generalizing state with
  | nil => cases member
  | cons first leases inductionHypothesis =>
      rw [List.foldl_cons]
      rcases List.mem_cons.mp member with rfl | later
      · obtain ⟨entry, found⟩ := Option.isSome_iff_exists.mp (reachable_iff.mp reachable)
        have agent := List.find?_some found
        simp only [Bool.and_eq_true, decide_eq_true_eq] at agent
        have told : ToldOff state (state.sendConcurrencyCancellation lease reason) lease
          reason := by
          refine ⟨entry, List.mem_of_find?_eq_some found, agent.1, agent.2,
            [(entry.id, .concurrencyCancelled lease.requestId reason)], ?_, by simp⟩
          unfold sendConcurrencyCancellation sendToAgent
          rw [found]
        obtain ⟨news, grown⟩ := cancellations_grow leases reason
          (state.sendConcurrencyCancellation lease reason)
        exact told.later grown
      · have sockets := (sendConcurrencyCancellation_frame state first reason).sockets
        obtain ⟨news, sent⟩ := sendToAgent_grows state first.agentId
          (.concurrencyCancelled first.requestId reason)
        have still : Reachable (state.sendConcurrencyCancellation first reason) lease.agentId := by
          rwa [Reachable, sockets]
        obtain ⟨entry, registered, agent, isOpen, rest, outbox, among⟩ :=
          inductionHypothesis later still
        refine ⟨entry, by rwa [← sockets], agent, isOpen, news ++ rest, ?_,
          List.mem_append_right _ among⟩
        rw [outbox, ← List.append_assoc, ← sent]
        rfl

theorem announceAcquire_grows (state : State) (socket : SocketId) (lease : ConcurrencyRow)
    (displaced : List ConcurrencyRow) (decision : AcquireDecision) :
    ∃ news, (state.announceAcquire socket lease displaced decision).outbox =
      (displaced.foldl (fun current waiter => current.sendConcurrencyCancellation waiter
        "A newer concurrency request replaced this pending unit.") state).outbox ++ news := by
  unfold announceAcquire
  cases decision with
  | rejected reason => exact sendLast_grows ..
  | inserted status activeToCancel =>
      cases activeToCancel with
      | none =>
          dsimp only [Option.elim]
          split
          · exact sendLast_grows ..
          · exact ⟨[], (List.append_nil _).symm⟩
      | some active =>
          dsimp only [Option.elim, sendConcurrencyCancellation]
          obtain ⟨first, cancelled⟩ := sendToAgent_grows (displaced.foldl
            (fun current waiter => (current.sendToAgent waiter.agentId (.concurrencyCancelled
              waiter.requestId "A newer concurrency request replaced this pending unit.")).1)
            state) active.agentId (.concurrencyCancelled active.requestId
              ("A newer unit in concurrency group '" ++ lease.groupName ++
                "' requested cancel-in-progress."))
          split
          · obtain ⟨last, sent⟩ := sendLast_grows (sendToAgent (displaced.foldl
              (fun current waiter => (current.sendToAgent waiter.agentId (.concurrencyCancelled
                waiter.requestId "A newer concurrency request replaced this pending unit.")).1)
              state) active.agentId (.concurrencyCancelled active.requestId
                ("A newer unit in concurrency group '" ++ lease.groupName ++
                  "' requested cancel-in-progress."))).1 socket
              (.concurrencyGranted lease.requestId)
            refine ⟨first ++ last, ?_⟩
            rw [sent, cancelled, List.append_assoc]
          · exact ⟨first, cancelled⟩

/-- What a row inserted into a group without waiters leaves of them. -/
theorem insertLease_waiters {state : State} {lease : ConcurrencyRow}
    (cleared : state.leases.countP (waits lease.repositoryKey lease.groupKey) = 0)
    (cancelInProgress : Bool) :
    ∃ own ∈ (state.insertLease lease cancelInProgress).1.leases,
      own.requestId = lease.requestId ∧ own.runId = lease.runId ∧ own.agentId = lease.agentId ∧
      own.inGroup lease.repositoryKey lease.groupKey = true ∧
      ((own.status = .waiting ∧ (state.insertLease lease cancelInProgress).1.leases.filter
          (waits lease.repositoryKey lease.groupKey) = [own]) ∨
        (own.status = .active ∧ (state.insertLease lease cancelInProgress).1.leases.filter
          (waits lease.repositoryKey lease.groupKey) = [])) := by
  have unwaited : ∀ leases : List ConcurrencyRow,
      leases.countP (waits lease.repositoryKey lease.groupKey) ≤
        state.leases.countP (waits lease.repositoryKey lease.groupKey) →
      leases.filter (waits lease.repositoryKey lease.groupKey) = [] := by
    intro leases fewer
    rw [cleared] at fewer
    exact List.filter_eq_nil_iff.mpr (List.countP_eq_zero.mp (Nat.le_zero.mp fewer))
  have inside : lease.inGroup lease.repositoryKey lease.groupKey = true := by
    simp [ConcurrencyRow.inGroup]
  unfold insertLease
  dsimp only
  cases found : state.leases.find? fun other =>
      other.inGroup lease.repositoryKey lease.groupKey && other.holds with
  | none =>
      simp only [ite_self, Option.isSome_none, Bool.false_eq_true, if_false]
      refine ⟨_, List.mem_append_right _ List.mem_cons_self, rfl, rfl, rfl, inside,
        .inr ⟨rfl, ?_⟩⟩
      rw [List.filter_append, unwaited _ (Nat.le_refl _), List.nil_append,
        List.filter_cons_of_neg (by simp [waits])]
      rfl
  | some holder =>
      cases cancelInProgress with
      | false =>
          simp only [Bool.false_eq_true, if_false]
          refine ⟨_, List.mem_append_right _ List.mem_cons_self, rfl, rfl, rfl, inside,
            .inl ⟨rfl, ?_⟩⟩
          rw [List.filter_append, unwaited _ (Nat.le_refl _), List.nil_append]
          exact List.filter_cons_of_pos (waits_iff.mpr ⟨inside, rfl⟩)
      | true =>
          simp only [if_true, updateLeases]
          refine ⟨_, List.mem_append_right _ List.mem_cons_self, rfl, rfl, rfl, inside,
            .inl ⟨rfl, ?_⟩⟩
          rw [List.filter_append, unwaited _ (countP_waits_update (by decide) _ _),
            List.nil_append]
          exact List.filter_cons_of_pos (waits_iff.mpr ⟨inside, rfl⟩)

section Text

variable [JsText]

/-- What a `single` request of the group leaves: of all waiters only its own row, if that
had to wait, and a cancellation for each displaced waiter whose agent is connected. -/
structure Displaces (before after : State) (agentId : AgentId) (row : JobRow)
    (requestId : RequestId) (group : String) : Prop where
  own : ∃ own ∈ after.leases, own.requestId = requestId ∧ own.runId = row.id ∧
    own.agentId = agentId ∧
    own.inGroup (repositoryKeyOf row.job.repository) (toLowerCase (trim group)) = true ∧
    ((own.status = .waiting ∧ after.leases.filter (waits (repositoryKeyOf row.job.repository)
        (toLowerCase (trim group))) = [own]) ∨
      (own.status = .active ∧ after.leases.filter (waits (repositoryKeyOf row.job.repository)
        (toLowerCase (trim group))) = []))
  told : ∀ waiter ∈ before.leases,
    waits (repositoryKeyOf row.job.repository) (toLowerCase (trim group)) waiter = true →
    Reachable before waiter.agentId →
    ToldOff before after waiter "A newer concurrency request replaced this pending unit."

theorem acquireConcurrency_displaces {state : State} {requestId : RequestId}
    (fresh : ∀ lease ∈ state.leases, lease.requestId ≠ requestId) (socket : SocketId)
    (agentId : AgentId) (row : JobRow) (unitId group : String) (cancelInProgress : Bool)
    (now : Millis) :
    Displaces state (state.acquireConcurrency socket agentId row requestId unitId group
      cancelInProgress .single now) agentId row requestId group := by
  have unmet : state.leases.find? (fun lease => lease.requestId = requestId) = none := by
    simpa using fresh
  -- The transaction without the messages, and the table with the waiters deleted.
  let lease := requestedLease agentId row requestId unitId group .single now
  let waiting := waits (repositoryKeyOf row.job.repository) (toLowerCase (trim group))
  let cleared : State := { state with leases := delete state.leases waiting }
  have acquired : state.acquireConcurrency socket agentId row requestId unitId group
      cancelInProgress .single now =
      announceAcquire (insertLease cleared lease cancelInProgress).1 socket lease
        (state.leases.filter waiting) (insertLease cleared lease cancelInProgress).2 := by
    unfold acquireConcurrency
    rw [unmet]
    rfl
  have frame := insertLease_frame cleared lease cancelInProgress
  have outbox : (insertLease cleared lease cancelInProgress).1.outbox = state.outbox := by
    unfold insertLease
    dsimp only
    split <;> rfl
  rw [acquired]
  constructor
  · rw [announceAcquire_leases]
    exact insertLease_waiters (countP_waits_delete ..) cancelInProgress
  · intro waiter member waits reachable
    have told := cancellations_told (state.leases.filter waiting)
      "A newer concurrency request replaced this pending unit."
        (List.mem_filter.mpr ⟨member, waits⟩)
      (show Reachable (insertLease cleared lease cancelInProgress).1 waiter.agentId by
        rwa [Reachable, frame.sockets])
    obtain ⟨news, grown⟩ := announceAcquire_grows (insertLease cleared lease cancelInProgress).1
      socket lease (state.leases.filter waiting) (insertLease cleared lease cancelInProgress).2
    obtain ⟨entry, registered, agent, isOpen, sent, shown, among⟩ := told.later grown
    exact ⟨entry, frame.sockets ▸ registered, agent, isOpen, sent, outbox ▸ shown, among⟩

end Text

end State

section Text

variable [JsText]

/-- The states in which leases are acquired, released or promoted: those between the
actions of a run, and from there with leases deleted, cancellations sent and groups
promoted, as the releases do before they promote the next group. -/
inductive Visited : State → Prop where
  | reached {state : State} (trace : Trace (fun _ => True) initial state) : Visited state
  | deleted {state : State} (before : Visited state) (gone : ConcurrencyRow → Bool) :
      Visited { state with leases := delete state.leases gone }
  | cancelled {state : State} (before : Visited state) (lease : ConcurrencyRow)
      (reason : String) : Visited (state.sendConcurrencyCancellation lease reason)
  | promoted {state : State} (before : Visited state) (repositoryKey groupKey : String) :
      Visited (state.promoteConcurrency repositoryKey groupKey)

omit [JsText] in
theorem leaseQueue_initial : State.LeaseQueue initial := by
  constructor
  · exact List.nodup_nil
  · exact List.Pairwise.nil
  · exact fun _ member => by cases member
  · exact fun _ _ _ member => by cases member
  · exact fun _ _ => Nat.zero_le _

theorem Visited.leaseQueue {state : State} (visited : Visited state) :
    State.LeaseQueue state := by
  induction visited with
  | reached trace =>
      exact trace.invariant (fun _ _ _ _ acts queue => queue.acts acts) leaseQueue_initial
  | deleted before gone inductionHypothesis => exact inductionHypothesis.delete gone
  | cancelled before lease reason inductionHypothesis =>
      exact inductionHypothesis.sendConcurrencyCancellation lease reason
  | promoted before repositoryKey groupKey inductionHypothesis =>
      exact inductionHypothesis.promoteConcurrency repositoryKey groupKey

open State in
/-- In every state that a run visits, a group has at most one holder and at most 100
waiters; a new `single` request displaces the waiters of its group; and promotion comes
to an end and grants the eligible waiter with the least sequence. -/
theorem concurrency_queues_kept :
    (∀ events, Visited (run step initial events)) ∧
    ∀ state, Visited state →
      (∀ repositoryKey groupKey,
        state.leases.countP (occupies repositoryKey groupKey) ≤ 1 ∧
          state.leases.countP (waits repositoryKey groupKey) ≤ 100) ∧
      (∀ socket agentId row requestId unitId group cancelInProgress now,
        (∀ lease ∈ state.leases, lease.requestId ≠ requestId) →
        Displaces state (state.acquireConcurrency socket agentId row requestId unitId group
          cancelInProgress .single now) agentId row requestId group) ∧
      ∀ repositoryKey groupKey,
        Promotes repositoryKey groupKey state (state.promoteConcurrency repositoryKey groupKey) ∧
        PromotesLeast state (state.promoteConcurrency repositoryKey groupKey) repositoryKey
          groupKey := by
  refine ⟨fun events => .reached (run_trace ready_initial events), fun state visited => ?_⟩
  have queue := visited.leaseQueue
  refine ⟨fun repositoryKey groupKey => ⟨?_, queue.bounded repositoryKey groupKey⟩, ?_, ?_⟩
  · exact countP_le_one queue.distinct (queue.alone repositoryKey groupKey)
  · intro socket agentId row requestId unitId group cancelInProgress now fresh
    exact acquireConcurrency_displaces fresh socket agentId row unitId group cancelInProgress now
  · intro repositoryKey groupKey
    have promotes := promoteConcurrency_promotes state repositoryKey groupKey
    exact ⟨promotes, promotes.least queue⟩

end Text

section Sample

open scoped Ascii

/-- Job 1 holds the group, and job 2 asks for it twice, then again under the first of its
request ids. -/
def askedAgain : List Event :=
  twoStarted ++
    [.message 0 (.concurrencyAcquire 3 1 1 "unit" "deploy" false .max) 8,
      .message 0 (.concurrencyAcquire 4 2 2 "unit" "deploy" false .max) 9,
      .message 0 (.concurrencyAcquire 5 2 3 "unit" "deploy" false .max) 10,
      .message 0 (.concurrencyAcquire 6 2 2 "unit" "deploy" false .single) 11]

/-- The connection of the agent of jobs 1 and 2 has left the state `OPEN` when job 3 of
another agent displaces job 2. -/
def displacedUnheard : List Event :=
  twoStarted ++
    [.connect "b" 7, .message 1 (.hello (Ascii.hello "b" 2)) 7,
      .enqueue (Ascii.job 3) "f" 7, .resume 4 (.actionsVariables []) 7,
      .resume 4 (.token ⟨"token", 60⟩) 7, .message 1 (.jobStarted 3 3) 7,
      .message 0 (.concurrencyAcquire 4 1 1 "unit" "deploy" false .max) 8,
      .message 0 (.concurrencyAcquire 5 2 2 "unit" "deploy" false .max) 9,
      .leaveOpen 0,
      .message 1 (.concurrencyAcquire 6 3 3 "unit" "deploy" false .single) 10]

def ServerMessage.cancelsRequest (requestId : RequestId) : ServerMessage → Bool
  | .concurrencyCancelled cancelled _ => cancelled = requestId
  | _ => false

/-- A `single` request under a known request id leaves another waiter, and a displaced
waiter without an open connection is not told. -/
theorem single_request_spares_waiter :
    (run step initial askedAgain).leases.map (fun lease => (lease.requestId, lease.status)) =
        [(1, .active), (2, .waiting), (3, .waiting)] ∧
      (run step initial displacedUnheard).leases.map
          (fun lease => (lease.requestId, lease.status)) = [(1, .active), (3, .waiting)] ∧
      (run step initial displacedUnheard).outbox.all
        (fun sent => !sent.2.cancelsRequest 2) = true := by
  decide

open State in
/-- Promotion after the holder of `askedAgain` is gone. -/
theorem askedAgain_promotes :
    let released : State := { run step initial askedAgain with
      leases := delete (run step initial askedAgain).leases fun lease => lease.requestId = 1 }
    Vacant released "owner/name" "deploy" ∧
      PromotesLeast released (released.promoteConcurrency "owner/name" "deploy") "owner/name"
        "deploy" := by
  obtain ⟨reached, law⟩ := concurrency_queues_kept
  exact ⟨by decide,
    ((law _ (.deleted (reached askedAgain) _)).2.2 "owner/name" "deploy").2⟩

end Sample

end GitZero.ControlPlane
