/-
Module: GitZero.ControlPlane.Segments
Purpose: Every segment of the asynchronous core is a sequence of elementary
  actions, which of them it may take, and which frames it leaves behind.
Trusted boundary: none
Main exports: Tidy, ActiveIn, Holds, FrameNew, Sound, requeue_trace, selectDispatch_spec,
  deliver_sound, dispatchIteration_sound
-/
import GitZero.ControlPlane.Actions

namespace GitZero.ControlPlane

open Table

/-- Row ids are a primary key and a row's JSON column is the job of that id. -/
structure Tidy (state : State) : Prop where
  distinct : (state.jobs.map JobRow.id).Nodup
  named : ∀ row ∈ state.jobs, row.job.id = row.id

theorem Tidy.row_of_mem {state : State} (tidy : Tidy state) {row : JobRow}
    (member : row ∈ state.jobs) : state.jobRow? row.id = some row :=
  Table.row_of_mem tidy.distinct member

theorem Tidy.eq_of_id {state : State} (tidy : Tidy state) {first second : JobRow}
    (one : first ∈ state.jobs) (two : second ∈ state.jobs) (same : first.id = second.id) :
    first = second := by
  have lookup := tidy.row_of_mem one
  rw [same, tidy.row_of_mem two] at lookup
  exact (Option.some.inj lookup).symm

theorem jobRow?_mem {state : State} {jobId : JobId} {row : JobRow}
    (lookup : state.jobRow? jobId = some row) : row ∈ state.jobs := row_mem lookup

theorem jobRow?_id {state : State} {jobId : JobId} {row : JobRow}
    (lookup : state.jobRow? jobId = some row) : row.id = jobId := row_key lookup

/-- The job is assigned or running. -/
def ActiveIn (state : State) (jobId : JobId) : Prop :=
  ∃ row ∈ state.jobs, row.id = jobId ∧ row.active = true

instance (state : State) (jobId : JobId) : Decidable (ActiveIn state jobId) :=
  inferInstanceAs (Decidable (∃ row ∈ state.jobs, _))

/-- The job is in the queue. -/
def QueuedIn (state : State) (jobId : JobId) : Prop :=
  ∃ row ∈ state.jobs, row.id = jobId ∧ row.status = .queued

/-- Assignment `assignment` is the latest one of the job. -/
def Latest (state : State) (assignment : Nat) (jobId : JobId) : Prop :=
  (∃ made, state.assignments[assignment]? = some made ∧ made.job = jobId) ∧
    ∀ later made, assignment < later → state.assignments[later]? = some made → made.job ≠ jobId

/-- Row `jobId` is still assigned to `agent` by the assignment `assignment`. -/
def Holds (state : State) (assignment : Nat) (jobId : JobId) (agent : AgentId) : Prop :=
  (∃ row ∈ state.jobs, row.id = jobId ∧ row.status = .assigned ∧ row.agentId = some agent) ∧
    Latest state assignment jobId

/-- What holds of a frame in the state in which a segment of `allowed` actions
suspends it. -/
def FrameNew (allowed : Action → Prop) (state : State) : Frame → Prop
  | .dispatchToken assignment job agent socket =>
      state.assignments[assignment]? = some { job := job.id, agent := agent, socket := socket } ∧
        Holds state assignment job.id agent
  | .initMergeSnapshot claim job | .initVariables claim job | .initCheckRun claim job =>
      job.id = claim.job.id
  | .disconnect socket rows => allowed (.suspendLoop socket rows)
  | _ => True

theorem FrameNew.mono {allowed more : Action → Prop} {state : State} {frame : Frame}
    (new : FrameNew allowed state frame) (weaker : ∀ action, allowed action → more action) :
    FrameNew more state frame := by
  cases frame with
  | disconnect socket rows => exact weaker _ new
  | _ => exact new

/-- What keeps holding of it: the part of `FrameNew` that no other step can end. -/
def FrameOk (state : State) : Frame → Prop
  | .dispatchToken assignment job agent socket =>
      state.assignments[assignment]? = some { job := job.id, agent := agent, socket := socket }
  | .initMergeSnapshot claim job | .initVariables claim job | .initCheckRun claim job =>
      job.id = claim.job.id
  | _ => True

theorem FrameNew.ok {allowed : Action → Prop} {state : State} {frame : Frame}
    (new : FrameNew allowed state frame) : FrameOk state frame := by
  cases frame with
  | dispatchToken => exact new.1
  | disconnect => trivial
  | _ => exact new

/-- Owner, status and history of one active row. -/
structure SameOwner (before after : State) (jobId : JobId) : Prop where
  row : ∀ old ∈ before.jobs, old.id = jobId → old.active = true →
    ∃ new ∈ after.jobs, new.id = jobId ∧ new.status = old.status ∧ new.agentId = old.agentId
  assignments : ∃ more, after.assignments = before.assignments ++ more ∧
    ∀ made ∈ more, made.job ≠ jobId

theorem SameOwner.refl (state : State) (jobId : JobId) : SameOwner state state jobId :=
  ⟨fun old member same _ => ⟨old, member, same, rfl, rfl⟩, [], by simp⟩

theorem SameOwner.of_eq {before after : State} {jobId : JobId} (jobs : after.jobs = before.jobs)
    (assignments : after.assignments = before.assignments) : SameOwner before after jobId :=
  ⟨fun old member same _ => ⟨old, jobs ▸ member, same, rfl, rfl⟩, [], by simp [assignments]⟩

theorem SameOwner.trans {first second third : State} {jobId : JobId}
    (front : SameOwner first second jobId) (back : SameOwner second third jobId) :
    SameOwner first third jobId := by
  constructor
  · intro old member same active
    obtain ⟨middle, present, id, status, agent⟩ := front.row old member same active
    have stillActive : middle.active = true := by
      simp only [JobRow.active, status] at active ⊢
      exact active
    obtain ⟨new, found, newId, newStatus, newAgent⟩ := back.row middle present id stillActive
    exact ⟨new, found, newId, newStatus.trans status, newAgent.trans agent⟩
  · obtain ⟨more, grown, apart⟩ := front.assignments
    obtain ⟨further, grownFurther, apartFurther⟩ := back.assignments
    refine ⟨more ++ further, by rw [grownFurther, grown, List.append_assoc], ?_⟩
    intro made member
    rcases List.mem_append.mp member with early | late
    · exact apart made early
    · exact apartFurther made late

private theorem sameOwner_update {state : State} {selected : JobRow → Bool}
    {set : JobRow → JobRow} {jobId : JobId}
    (spared : ∀ row ∈ state.jobs, selected row = true → row.id = jobId → row.active = true →
      (set row).id = row.id ∧ (set row).status = row.status ∧ (set row).agentId = row.agentId) :
    SameOwner state (state.updateJobs selected set) jobId := by
  refine ⟨fun old member same active => ?_, [], by simp [State.updateJobs]⟩
  refine ⟨if selected old then set old else old, mem_update.mpr ⟨old, member, rfl⟩, ?_⟩
  split
  · obtain ⟨id, status, agent⟩ := spared old member ‹_› same active
    exact ⟨id.trans same, status, agent⟩
  · exact ⟨same, rfl, rfl⟩

theorem SameOwner.active {before after : State} {jobId : JobId}
    (same : SameOwner before after jobId) (active : ActiveIn before jobId) :
    ActiveIn after jobId := by
  obtain ⟨old, member, id, isActive⟩ := active
  obtain ⟨new, present, newId, status, -⟩ := same.row old member id isActive
  refine ⟨new, present, newId, ?_⟩
  simpa [JobRow.active, status] using isActive

theorem lookup_append {Item : Type*} {items more : List Item} {index : Nat} {item : Item}
    (lookup : items[index]? = some item) : (items ++ more)[index]? = some item := by
  rw [List.getElem?_append_left (List.getElem?_eq_some_iff.mp lookup).1]
  exact lookup

theorem Latest.grow {before after : State} {assignment : Nat} {jobId : JobId}
    (latest : Latest before assignment jobId) {more : List Assignment}
    (grown : after.assignments = before.assignments ++ more)
    (apart : ∀ made ∈ more, made.job ≠ jobId) : Latest after assignment jobId := by
  obtain ⟨⟨made, lookup, same⟩, last⟩ := latest
  constructor
  · refine ⟨made, ?_, same⟩
    rw [grown]
    exact lookup_append lookup
  · intro later other after found
    rw [grown, List.getElem?_append] at found
    split at found
    · exact last later other after found
    · exact apart other (List.mem_of_getElem? found)

theorem SameOwner.holds {before after : State} {assignment : Nat} {jobId : JobId}
    {agent : AgentId} (same : SameOwner before after jobId)
    (holds : Holds before assignment jobId agent) : Holds after assignment jobId agent := by
  obtain ⟨⟨row, member, id, status, owner⟩, latest⟩ := holds
  have active : row.active = true := by simp [JobRow.active, status]
  obtain ⟨new, present, newId, newStatus, newOwner⟩ := same.row row member id active
  obtain ⟨more, grown, apart⟩ := same.assignments
  exact ⟨⟨new, present, newId, newStatus.trans status, newOwner.trans owner⟩,
    latest.grow grown apart⟩

theorem scheduleAlarm_core (state : State) (now : Millis) :
    SameCore state (state.scheduleAlarm now) := ⟨rfl, rfl, rfl, rfl, rfl, rfl, rfl, rfl⟩

theorem finishOutstandingDeployments_core (state : State) (jobId : JobId) (now : Millis) :
    SameCore state (state.finishOutstandingDeployments jobId now) :=
  ⟨rfl, rfl, rfl, rfl, rfl, rfl, rfl, rfl⟩

section Text

variable [JsText]

/-! ### What single actions preserve -/

theorem Acts.tidy {action : Action} {before after : State} (acts : Acts action before after)
    (tidy : Tidy before) : Tidy after := by
  cases acts with
  | quiet core _ =>
      exact ⟨by rw [core.jobs]; exact tidy.distinct, by rw [core.jobs]; exact tidy.named⟩
  | job kind id selected set rows _ _ =>
      have keyed : ∀ old ∈ before.jobs, (if selected old then set old else old).id = old.id := by
        intro old member
        split
        · exact (rows old member ‹_›).2.id_eq
        · rfl
      constructor
      · have keys : (update before.jobs selected set).map JobRow.id =
          before.jobs.map JobRow.id := by
          simp only [update, List.map_map]
          exact List.map_congr_left fun old member => keyed old member
        exact keys ▸ tidy.distinct
      · refine forall_update tidy.named fun old member picked named => ?_
        exact (rows old member picked).2.named named
  | assign queued candidate now member status ready available =>
      constructor
      · have keys : (claimJob before queued candidate now).jobs.map JobRow.id =
            before.jobs.map JobRow.id := map_key_update fun _ _ _ => rfl
        exact keys ▸ tidy.distinct
      · exact forall_update tidy.named fun _ _ _ named => named
  | insert now runNumber job fresh =>
      constructor
      · rw [List.map_append, List.nodup_append]
        refine ⟨tidy.distinct, by simp, ?_⟩
        intro id present other isNew
        obtain ⟨row, member, rfl⟩ := List.mem_map.mp present
        simp only [queuedRow, List.map_cons, List.map_nil, List.mem_singleton] at isNew
        exact isNew ▸ fresh row member
      · intro row member
        rcases List.mem_append.mp member with old | new
        · exact tidy.named row old
        · rw [List.mem_singleton.mp new]
          rfl
  | prune now => exact ⟨nodup_key_delete tidy.distinct, forall_delete tidy.named⟩
  | sockets | shut | greet | connect | dropSocket | countRequeue | send =>
      exact ⟨tidy.distinct, tidy.named⟩
  | releaseRun runId reason =>
      have same := (before.releaseConcurrencyForRun_frame runId reason).jobs
      exact ⟨by rw [same]; exact tidy.distinct, by rw [same]; exact tidy.named⟩
  | release requestId runId agent =>
      have same := (before.releaseConcurrency_frame requestId runId agent).jobs
      exact ⟨by rw [same]; exact tidy.distinct, by rw [same]; exact tidy.named⟩
  | acquire socket agent row requestId unitId group cancelInProgress queue now _ =>
      have same := (before.acquireConcurrency_frame socket agent row requestId unitId group
        cancelInProgress queue now).jobs
      exact ⟨by rw [same]; exact tidy.distinct, by rw [same]; exact tidy.named⟩

theorem Trace.tidy {allowed : Action → Prop} {before after : State}
    (trace : Trace allowed before after) (tidy : Tidy before) : Tidy after :=
  trace.invariant (fun _ _ _ _ acts => acts.tidy) tidy

/-- An action that does not move the job leaves it with its agent. -/
theorem Acts.sameOwner {action : Action} {before after : State}
    (acts : Acts action before after) {jobId : JobId} (still : ¬ action.moves jobId) :
    SameOwner before after jobId := by
  cases acts with
  | quiet core _ => exact .of_eq core.jobs core.assignments
  | job kind id selected set rows _ _ =>
      refine sameOwner_update fun row member picked same active => ?_
      obtain ⟨rowId, rowStep⟩ := rows row member picked
      have unmoved : kind.moves = false := by
        by_contra moving
        exact still ⟨by simpa using moving, rowId.symm.trans same⟩
      exact ⟨rowStep.id_eq, rowStep.owner_of_still unmoved active⟩
  | assign queued candidate now member status ready available =>
      have apart : queued.id ≠ jobId := still
      have rows : SameOwner before
          (before.updateJobs (fun job => job.id = queued.id && job.status = .queued)
            fun job =>
              { job with
                status := .assigned
                agentId := some candidate.agentId
                leaseExpiresAt := some (now + leaseMilliseconds)
                attemptCount := job.attemptCount + 1
                lastError := none }) jobId := by
        refine sameOwner_update fun row _ picked same _ => ?_
        simp only [Bool.and_eq_true, decide_eq_true_eq] at picked
        exact absurd (picked.1.symm.trans same) apart
      exact ⟨rows.row, [_], rfl, by simpa using apart⟩
  | insert now runNumber job fresh =>
      refine ⟨fun old member same _ => ⟨old, List.mem_append_left _ member, same, rfl, rfl⟩, [], ?_⟩
      simp
  | prune now =>
      refine ⟨fun old member same active => ⟨old, mem_delete.mpr ⟨member, ?_⟩, same, rfl, rfl⟩, [],
        by simp [State.prune]⟩
      have unfinished : old.status ≠ .completed := by
        intro completed
        simp [JobRow.active, completed] at active
      simp [State.prunable, unfinished]
  | sockets | shut | greet | connect | dropSocket | countRequeue | send => exact .of_eq rfl rfl
  | releaseRun runId reason =>
      have frame := before.releaseConcurrencyForRun_frame runId reason
      exact .of_eq frame.jobs frame.assignments
  | release requestId runId agent =>
      have frame := before.releaseConcurrency_frame requestId runId agent
      exact .of_eq frame.jobs frame.assignments
  | acquire socket agent row requestId unitId group cancelInProgress queue now _ =>
      have frame := before.acquireConcurrency_frame socket agent row requestId unitId group
        cancelInProgress queue now
      exact .of_eq frame.jobs frame.assignments

theorem Trace.sameOwner {allowed : Action → Prop} {before after : State}
    (trace : Trace allowed before after) {jobId : JobId}
    (still : ∀ action, allowed action → ¬ action.moves jobId) : SameOwner before after jobId := by
  induction trace with
  | refl => exact .refl before jobId
  | tail _ last inductionHypothesis =>
      obtain ⟨action, ok, acts⟩ := last
      exact inductionHypothesis.trans (acts.sameOwner (still action ok))

/-- A job is in the queue only if it was, or if an action put it there. -/
theorem Acts.queued {action : Action} {before after : State} (acts : Acts action before after)
    {jobId : JobId} (queued : QueuedIn after jobId) :
    QueuedIn before jobId ∨ action.queues jobId := by
  obtain ⟨row, member, id, status⟩ := queued
  have kept : after.jobs = before.jobs → QueuedIn before jobId ∨ action.queues jobId :=
    fun same => .inl ⟨row, same ▸ member, id, status⟩
  cases acts with
  | quiet core _ => exact kept core.jobs
  | job kind key selected set rows _ _ =>
      obtain ⟨old, present, rfl⟩ := mem_update.mp member
      split at id
      · rename_i picked
        rw [if_pos picked] at status
        obtain ⟨rowId, rowStep⟩ := rows old present picked
        have same : old.id = jobId := rowStep.id_eq.symm.trans id
        rcases rowStep.queued status with was | queues
        · exact .inl ⟨old, present, same, was⟩
        · exact .inr (by rw [← same, rowId]; exact queues key)
      · rename_i spared
        rw [if_neg spared] at status
        exact .inl ⟨old, present, id, status⟩
  | assign queued candidate now present wasQueued ready available =>
      obtain ⟨old, found, rfl⟩ := mem_update.mp member
      split at id
      · rename_i picked
        rw [if_pos picked] at status
        cases status
      · rename_i spared
        rw [if_neg spared] at status
        exact .inl ⟨old, found, id, status⟩
  | insert now runNumber job fresh =>
      rcases List.mem_append.mp member with old | new
      · exact .inl ⟨row, old, id, status⟩
      · rw [List.mem_singleton.mp new] at id
        exact .inr id
  | prune now => exact .inl ⟨row, (mem_delete.mp member).1, id, status⟩
  | sockets | shut | greet | connect | dropSocket | countRequeue | send => exact kept rfl
  | releaseRun runId reason => exact kept (before.releaseConcurrencyForRun_frame runId reason).jobs
  | release requestId runId agent =>
      exact kept (before.releaseConcurrency_frame requestId runId agent).jobs
  | acquire socket agent row requestId unitId group cancelInProgress queue now _ =>
      exact kept (before.acquireConcurrency_frame socket agent row requestId unitId group
        cancelInProgress queue now).jobs

theorem Trace.queued {allowed : Action → Prop} {before after : State}
    (trace : Trace allowed before after) {jobId : JobId} (queued : QueuedIn after jobId) :
    QueuedIn before jobId ∨ ∃ action, allowed action ∧ action.queues jobId := by
  induction trace with
  | refl => exact .inl queued
  | tail _ last inductionHypothesis =>
      obtain ⟨action, ok, acts⟩ := last
      rcases acts.queued queued with was | queues
      · exact inductionHypothesis was
      · exact .inr ⟨action, ok, queues⟩

/-! ### Segments as traces -/

/-- A segment is a trace of allowed actions, and every frame it leaves in its
outcome or in a task it starts is new in the sense of `FrameNew`.  Other tasks stay
as they are, and a segment that throws has started no task. -/
structure Sound (allowed : Action → Prop) (before : State) (segment : Segment) : Prop where
  trace : Trace allowed before segment.1
  frames : ∀ frames, segment.2 = .suspended frames →
    ∀ frame ∈ frames, FrameNew allowed segment.1 frame
  started : ∀ task ∈ segment.1.tasks,
    task ∈ before.tasks ∨ ∀ frame ∈ task, FrameNew allowed segment.1 frame
  kept : ∀ task ∈ before.tasks, task ∈ segment.1.tasks
  thrown : segment.2 = .threw → segment.1.tasks = before.tasks

namespace Sound

variable {allowed more : Action → Prop} {before middle : State} {segment : Segment}

theorem of_trace {after : State} {outcome : Outcome} (trace : Trace allowed before after)
    (tasks : after.tasks = before.tasks) (settled : ∀ frames, outcome ≠ .suspended frames) :
    Sound allowed before (after, outcome) :=
  ⟨trace, fun frames same => absurd same (settled frames), fun _ member => .inl (tasks ▸ member),
    fun _ member => tasks ▸ member, fun _ => tasks⟩

theorem done {after : State} (trace : Trace allowed before after)
    (tasks : after.tasks = before.tasks) : Sound allowed before (after, .done) :=
  of_trace trace tasks (by simp)

theorem threw {after : State} (trace : Trace allowed before after)
    (tasks : after.tasks = before.tasks) : Sound allowed before (after, .threw) :=
  of_trace trace tasks (by simp)

theorem suspended {after : State} {frame : Frame} (trace : Trace allowed before after)
    (tasks : after.tasks = before.tasks) (new : FrameNew allowed after frame) :
    Sound allowed before (after, .suspended [frame]) := by
  refine ⟨trace, ?_, fun _ member => .inl (tasks ▸ member), fun _ member => tasks ▸ member,
    fun _ => tasks⟩
  rintro frames same kept member
  cases same
  rwa [List.mem_singleton.mp member]

theorem mono (sound : Sound allowed before segment)
    (weaker : ∀ action, allowed action → more action) : Sound more before segment :=
  ⟨sound.trace.mono weaker,
    fun frames same frame inside => (sound.frames frames same frame inside).mono weaker,
    fun task member => (sound.started task member).imp_right
      fun fresh frame inside => (fresh frame inside).mono weaker,
    sound.kept, sound.thrown⟩

theorem widen {ids others : JobId → Prop} (sound : Sound (Action.within ids) before segment)
    (weaker : ∀ id, ids id → others id) : Sound (Action.within others) before segment :=
  sound.mono (Action.within_mono weaker)

theorem await (sound : Sound allowed before segment) {frame : Frame}
    (new : FrameNew allowed segment.1 frame) : Sound allowed before (awaitThen frame segment) := by
  obtain ⟨state, outcome⟩ := segment
  cases outcome with
  | done =>
      refine ⟨sound.trace, ?_, sound.started, sound.kept, fun wrong => nomatch wrong⟩
      rintro frames same kept member
      cases same
      rwa [List.mem_singleton.mp member]
  | threw => exact sound
  | suspended inner =>
      refine ⟨sound.trace, ?_, sound.started, sound.kept, fun wrong => nomatch wrong⟩
      rintro frames same kept member
      cases same
      rcases List.mem_append.mp member with early | last
      · exact sound.frames inner rfl kept early
      · rwa [List.mem_singleton.mp last]

/-- A segment that starts with a trace. -/
theorem after (front : Trace allowed before middle) (tasks : middle.tasks = before.tasks)
    (sound : Sound allowed middle segment) : Sound allowed before segment :=
  ⟨front.trans sound.trace, sound.frames, fun task member => tasks ▸ sound.started task member,
    fun task member => sound.kept task (tasks ▸ member), fun threw =>
      (sound.thrown threw).trans tasks⟩

/-- A dispatch behind a trace touches jobs that were queued before, or that the
trace itself may have put into the queue. -/
theorem dispatch (front : Trace allowed before middle) (tasks : middle.tasks = before.tasks)
    (sound : Sound (Action.within fun id => QueuedIn middle id) middle segment) :
    Sound (fun action => allowed action ∨ action.within fun id =>
      QueuedIn before id ∨ ∃ queueing, allowed queueing ∧ queueing.queues id) before segment :=
  .after (front.mono fun _ => .inl) tasks
    (sound.mono fun action inside =>
      .inr (Action.within_mono (fun _ => front.queued) action inside))

/-- The same when the trace before the dispatch is one of `Action.within`. -/
theorem dispatch_within {ids : JobId → Prop} (front : Trace (Action.within ids) before middle)
    (tasks : middle.tasks = before.tasks)
    (sound : Sound (Action.within fun id => QueuedIn middle id) middle segment) :
    Sound (Action.within fun id => QueuedIn before id ∨ ids id) before segment := by
  refine (dispatch front tasks sound).mono ?_
  rintro action (inside | inside)
  · exact Action.within_mono (fun _ => .inr) action inside
  · refine Action.within_mono ?_ action inside
    rintro id (queued | ⟨queueing, ok, queues⟩)
    · exact .inl queued
    · exact .inr (Action.within_queues ok queues)

/-- The same when the trace, too, touches only queued jobs. -/
theorem behind (front : Trace (Action.within fun id => QueuedIn before id) before middle)
    (tasks : middle.tasks = before.tasks)
    (sound : Sound (Action.within fun id => QueuedIn middle id) middle segment) :
    Sound (Action.within fun id => QueuedIn before id) before segment :=
  (dispatch_within front tasks sound).widen fun _ => or_self_iff.mp

end Sound

theorem quiet_trace {ids : JobId → Prop} {before after : State} (core : SameCore before after)
    (sockets : after.sockets = before.sockets) : Trace (Action.within ids) before after :=
  .one (.quiet core sockets) trivial

theorem scheduleAlarm_trace {ids : JobId → Prop} {before after : State}
    (trace : Trace (Action.within ids) before after) (now : Millis) :
    Trace (Action.within ids) before (after.scheduleAlarm now) :=
  trace.trans (quiet_trace (scheduleAlarm_core after now) rfl)

theorem send_trace {ids : JobId → Prop} {state sent : State} {socket : SocketId}
    {message : ServerMessage} (delivered : state.sendServer socket message = some sent)
    (run : ∀ spec assignment, message = .runJob spec assignment →
      ∃ agent, state.assignments[assignment]? =
        some { job := spec.id, agent := agent, socket := socket }) :
    Trace (Action.within ids) state sent ∧ sent.tasks = state.tasks := by
  unfold State.sendServer at delivered
  split at delivered
  · cases delivered
    exact ⟨.one (.send socket message run) trivial, rfl⟩
  · cases delivered

theorem sendLast_trace {ids : JobId → Prop} (state : State) (socket : SocketId)
    {message : ServerMessage} (plain : ∀ spec assignment, message ≠ .runJob spec assignment) :
    Trace (Action.within ids) state (state.sendLast socket message) ∧
      (state.sendLast socket message).tasks = state.tasks := by
  unfold State.sendLast
  cases delivered : state.sendServer socket message with
  | none => exact ⟨.refl _, rfl⟩
  | some sent => exact send_trace delivered fun spec assignment same => absurd same (plain _ _)

theorem sendLast_sound {ids : JobId → Prop} (state : State) (socket : SocketId)
    {message : ServerMessage} (plain : ∀ spec assignment, message ≠ .runJob spec assignment) :
    Sound (Action.within ids) state (state.sendLast socket message, .done) :=
  have ⟨trace, tasks⟩ := sendLast_trace state socket plain
  .done trace tasks

/-- `completeInfrastructureJob` on behalf of `cause`. -/
theorem completeInfrastructureJob_trace {allowed : Action → Prop} {state : State} {row : JobRow}
    (cause : CompletionCause) (conclusion : Conclusion) (summary : String) (now : Millis)
    (ok : allowed (.job (.completeInfrastructure cause) row.id)) (quiet : allowed .quiet)
    (waited : cause = .queueExpired → ∀ job ∈ state.jobs, job.id = row.id → job.status = .queued)
    (unheld : cause = .attemptsExhausted →
      0 < state.requeues ∧ ∀ lease ∈ state.leases, lease.runId ≠ row.id) :
    Trace allowed state (state.completeInfrastructureJob row conclusion summary now) := by
  refine .trans (.one (.job (.completeInfrastructure cause) row.id _ _ ?_ ?_ ?_) ok)
    (.one (.quiet (finishOutstandingDeployments_core _ row.id now) rfl) quiet)
  · intro job member picked
    simp only [Bool.and_eq_true, Bool.or_eq_true, decide_eq_true_eq] at picked
    refine ⟨picked.1, .completeInfrastructure now conclusion summary ?_
      fun expired => waited expired job member picked.1⟩
    intro completed
    simp [completed] at picked
  · intro released
    cases cause with
    | attemptsExhausted => exact (unheld rfl).2
    | queueExpired | initializationExhausted => cases released
  · intro takesBack
    cases cause with
    | attemptsExhausted => exact (unheld rfl).1
    | queueExpired | initializationExhausted => cases takesBack

/-- A statement on `jobs` that does not move its row. -/
theorem job_trace {ids : JobId → Prop} {state : State} (kind : RowKind) (id : JobId)
    {selected : JobRow → Bool} {set : JobRow → JobRow} (still : kind.moves = false)
    (rows : ∀ row ∈ state.jobs, selected row = true → row.id = id ∧ RowStep kind row (set row)) :
    Trace (Action.within ids) state (state.updateJobs selected set) := by
  obtain ⟨unheld, takesBack⟩ := RowKind.still_spec still
  refine .one (.job kind id selected set rows ?_ ?_) (Action.within_of_still still)
  · simp [unheld]
  · simp [takesBack]

theorem syncCheck_sound {ids : JobId → Prop} (state : State) (row : JobRow) :
    Sound (Action.within ids) state (syncCheck state row) := by
  unfold syncCheck
  split
  · refine .done (job_trace .syncCheck row.id rfl fun job _ picked => ?_) rfl
    exact ⟨by simpa using picked, .syncCheck⟩
  · split
    · exact .suspended (.refl _) rfl trivial
    · exact .done (.refl _) rfl

theorem resumeCheckUpdate_sound {ids : JobId → Prop} (now : Millis) (state : State)
    (row : JobRow) (reply : Reply) :
    Sound (Action.within ids) state (resumeCheckUpdate now state row reply) := by
  unfold resumeCheckUpdate
  split
  · refine .done (job_trace .syncCheck row.id rfl fun job _ picked => ?_) rfl
    simp only [Bool.and_eq_true, decide_eq_true_eq] at picked
    exact ⟨picked.1, .syncCheck⟩
  · exact .done (quiet_trace ⟨rfl, rfl, rfl, rfl, rfl, rfl, rfl, rfl⟩ rfl) rfl

/-! ### Requeue -/

/-- A requeue acts on its job only. -/
theorem requeue_trace {state requeued : State} {jobId : JobId} {reason : String} {now : Millis}
    {terminal : Option JobRow} (tidy : Tidy state)
    (taken : state.requeue jobId reason now = some (requeued, terminal)) :
    Trace (Action.within (· = jobId)) state requeued ∧ requeued.tasks = state.tasks := by
  unfold State.requeue at taken
  cases lookup : state.jobRow? jobId with
  | none => simp [lookup] at taken
  | some row =>
      have rowId := jobRow?_id lookup
      simp only [lookup] at taken
      split at taken
      · cases taken
        exact ⟨.refl _, rfl⟩
      · have counted : Trace (Action.within (· = jobId)) state
            { state with requeues := state.requeues + 1 } := .one .countRequeue trivial
        have released := counted.trans (.one (.releaseRun row.id
          ("The parent GitZero run was requeued: " ++ reason)) rowId)
        have frame := State.releaseConcurrencyForRun_frame
          { state with requeues := state.requeues + 1 } row.id
          ("The parent GitZero run was requeued: " ++ reason)
        have unheld := State.releaseConcurrencyForRun_unheld
          { state with requeues := state.requeues + 1 } row.id
          ("The parent GitZero run was requeued: " ++ reason)
        have counting : 0 < (State.releaseConcurrencyForRun
            { state with requeues := state.requeues + 1 } row.id
            ("The parent GitZero run was requeued: " ++ reason)).requeues := by
          rw [frame.requeues]
          exact Nat.succ_pos _
        split at taken
        · cases taken
          refine ⟨released.trans (completeInfrastructureJob_trace .attemptsExhausted _ _ _ rowId
            trivial (fun wrong => nomatch wrong) fun _ => ⟨counting, unheld⟩), frame.tasks⟩
        · rename_i attempts
          cases taken
          refine ⟨released.trans (.one (.job .requeue jobId _ _ ?_ (fun _ => rowId ▸ unheld)
            fun _ => counting) rfl), frame.tasks⟩
          intro job member picked
          simp only [Bool.and_eq_true, decide_eq_true_eq] at picked
          have present : job ∈ state.jobs := by rwa [frame.jobs] at member
          have same : job = row :=
            tidy.eq_of_id present (jobRow?_mem lookup) (picked.1.trans rowId.symm)
          exact ⟨picked.1, .requeue reason picked.2 (by rw [same]; omega)⟩

/-! ### Dispatch -/

theorem keepBest_cases {requirements : List RunnerRequirement} {best : Option AgentCandidate}
    {candidate chosen : AgentCandidate}
    (kept : keepBest requirements best candidate = some chosen) :
    chosen = candidate ∨ best = some chosen := by
  unfold keepBest at kept
  split at kept
  · split at kept
    · exact .inl (Option.some.inj kept).symm
    · split at kept
      · exact .inl (Option.some.inj kept).symm
      · exact .inr kept
  · exact .inr kept

theorem leastLoadedCompatibleAgent_mem {candidates : List AgentCandidate}
    {requirements : List RunnerRequirement} {chosen : AgentCandidate}
    (found : leastLoadedCompatibleAgent candidates requirements = some chosen) :
    chosen ∈ candidates := by
  have general : ∀ (rest : List AgentCandidate) (best : Option AgentCandidate),
      rest.foldl (keepBest requirements) best = some chosen → chosen ∈ rest ∨
        best = some chosen := by
    intro rest
    induction rest with
    | nil => exact fun best same => .inr same
    | cons head tail inductionHypothesis =>
        intro best same
        rcases inductionHypothesis _ same with later | now
        · exact .inl (List.mem_cons_of_mem _ later)
        · rcases keepBest_cases now with rfl | earlier
          · exact .inl List.mem_cons_self
          · exact .inr earlier
  rcases general candidates none found with member | impossible
  · exact member
  · cases impossible

/-- What is selected is a queued job that is ready, and an agent that can take it. -/
theorem selectDispatch_spec {state : State} {queued : JobRow} {candidate : AgentCandidate}
    (selected : selectDispatch state = some (queued, candidate)) :
    queued ∈ state.jobs ∧ queued.status = .queued ∧ queued.initializationNeeded = .ready ∧
      candidate ∈ availableAgents state := by
  obtain ⟨row, member, chosen⟩ := List.exists_of_findSome?_eq_some selected
  rw [List.mem_insertionSort, List.mem_filter] at member
  obtain ⟨best, found, same⟩ := Option.map_eq_some_iff.mp chosen
  cases same
  simp only [Bool.and_eq_true, decide_eq_true_eq] at member
  exact ⟨member.1, member.2.1, member.2.2, leastLoadedCompatibleAgent_mem found⟩

omit [JsText] in
theorem Tidy.not_active_of_queued {state : State} (tidy : Tidy state) {row : JobRow}
    (member : row ∈ state.jobs) (queued : row.status = .queued) : ¬ ActiveIn state row.id := by
  rintro ⟨other, present, same, active⟩
  rw [tidy.eq_of_id present member same] at active
  simp [JobRow.active, queued] at active

omit [JsText] in
theorem Tidy.not_queued_of_active {state : State} (tidy : Tidy state) {jobId : JobId}
    (active : ActiveIn state jobId) : ¬ QueuedIn state jobId := by
  rintro ⟨row, member, rfl, queued⟩
  exact tidy.not_active_of_queued member queued active

theorem runSpec?_id {job : QueuedJob} {event : EventPayload} {token : String}
    {expiry : Option Nat} {spec : RunSpec} (built : runSpec? job event token expiry = some spec) :
    spec.id = job.id := by
  unfold runSpec? at built
  dsimp only at built
  split at built
  · cases built
    rfl
  · cases built

theorem dispatchFailure_sound {state : State} (tidy : Tidy state) (now : Millis)
    (jobId : JobId) : Sound (Action.within (· = jobId)) state
    (dispatchFailure now state jobId) := by
  unfold dispatchFailure
  split
  · exact .threw (.refl _) rfl
  · rename_i requeued taken
    obtain ⟨trace, tasks⟩ := requeue_trace tidy taken
    exact .done (trace.trans (quiet_trace ⟨rfl, rfl, rfl, rfl, rfl, rfl, rfl, rfl⟩ rfl)) tasks
  · rename_i requeued terminal taken
    obtain ⟨trace, tasks⟩ := requeue_trace tidy taken
    exact .after trace tasks ((syncCheck_sound requeued terminal).await trivial)

/-- The run can be built and the socket chosen for it is still open. -/
def Deliverable (state : State) (job : QueuedJob) (socket : SocketId)
    (credential : Option InstallationAccessToken) : Prop :=
  (dispatchSpec? state job credential).isSome ∧ state.socketOpen socket

/-- A command goes to the socket of the assignment. -/
theorem deliver_sound {state : State} (tidy : Tidy state) (now : Millis) {assignment : Nat}
    {job : QueuedJob} {agent : AgentId} {socket : SocketId}
    (made : state.assignments[assignment]? =
      some { job := job.id, agent := agent, socket := socket })
    (credential : Option InstallationAccessToken) :
    Sound (Action.within fun id => id = job.id ∧ ¬ Deliverable state job socket credential) state
      (deliver now state assignment job socket credential) := by
  unfold deliver
  cases built : dispatchSpec? state job credential with
  | none =>
      have blocked : ¬ Deliverable state job socket credential := by simp [Deliverable, built]
      dsimp only
      exact (dispatchFailure_sound tidy now job.id).widen fun id same => ⟨same, blocked⟩
  | some spec =>
      dsimp only
      cases delivered : state.sendServer socket (.runJob spec assignment) with
      | none =>
          have closed : state.socketOpen socket = false := by
            by_contra isOpen
            simp [State.sendServer, isOpen] at delivered
          have blocked : ¬ Deliverable state job socket credential := by
            simp [Deliverable, closed]
          exact (dispatchFailure_sound tidy now job.id).widen fun id same => ⟨same, blocked⟩
      | some sent =>
          have run : ∀ other number, ServerMessage.runJob spec assignment = .runJob other number →
              ∃ agent, state.assignments[number]? =
                some { job := other.id, agent := agent, socket := socket } := by
            rintro other number same
            cases same
            exact ⟨agent, by rw [runSpec?_id built]; exact made⟩
          obtain ⟨trace, tasks⟩ := send_trace delivered run
          exact .suspended (scheduleAlarm_trace trace now) tasks trivial

omit [JsText] in
/-- The row that `claimJob` assigns holds its new assignment. -/
theorem claimJob_holds {state : State} {queued : JobRow} {candidate : AgentCandidate}
    (member : queued ∈ state.jobs) (status : queued.status = .queued) (now : Millis) :
    Holds (claimJob state queued candidate now) state.assignments.length queued.id
      candidate.agentId := by
  constructor
  · refine ⟨_, mem_update.mpr ⟨queued, member, rfl⟩, ?_⟩
    simp [status]
  · constructor
    · exact ⟨{ job := queued.id, agent := candidate.agentId, socket := candidate.socket },
        by simp [claimJob], rfl⟩
    · intro later made after lookup
      have bound := (List.getElem?_eq_some_iff.mp lookup).1
      simp only [claimJob, List.length_append, List.length_singleton] at bound
      omega

/-- A turn of the dispatcher acts on queued jobs only. -/
theorem dispatchIteration_sound {state : State} (tidy : Tidy state) (now : Millis) :
    Sound (Action.within fun id => QueuedIn state id) state (dispatchIteration now state) := by
  unfold dispatchIteration
  split
  · exact .done (.refl _) rfl
  · rename_i queued candidate selected
    obtain ⟨member, status, ready, available⟩ := selectDispatch_spec selected
    have inQueue : QueuedIn state queued.id := ⟨queued, member, rfl, status⟩
    have claim : Trace (Action.within fun id => QueuedIn state id) state
        (claimJob state queued candidate now) :=
      .one (.assign queued candidate now member status ready available) inQueue
    dsimp only
    split
    · refine .suspended claim rfl ⟨?_, ?_⟩
      · simp [claimJob, tidy.named queued member]
      · rw [tidy.named queued member]
        exact claimJob_holds member status now
    · have made : (claimJob state queued candidate now).assignments[state.assignments.length]? =
          some {
            job := queued.job.id, agent := candidate.agentId, socket := candidate.socket } := by
        simp [claimJob, tidy.named queued member]
      refine .after claim rfl ((deliver_sound (claim.tidy tidy) now made none).widen ?_)
      rintro id ⟨rfl, -⟩
      rwa [tidy.named queued member]

end Text

end GitZero.ControlPlane
