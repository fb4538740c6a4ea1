/-
Module: GitZero.Proofs.PlanRefinement
Purpose: The loop of `execute_plan_inner`, on plans without matrices of reusable calls and in runs
  that are not cancelled, is the schedule of `Schedule`.
Trusted boundary: none
Main exports: PlanOccurrence.Scheduled, Simulates, planRun_refines
-/
import GitZero.Proofs.PlanAccounting

namespace GitZero.Agent

open Workflows Outcomes

section PlanRefinement

variable [Serde] {Inputs : Type} {evaluations : Evaluations Inputs} {plan : ExecutionPlan}

/-- The base returns what `execute_base_group` makes of what it was started with, be it a result
or an error. -/
structure BaseEnd.Computed (evaluations : Evaluations Inputs) (run : PlanRun) (last : BaseEnd) :
    Prop where
  returns : ∀ base, run.running? last.baseId = some base → ∃ instances,
    last.execution = (executeBaseGroup evaluations base.completed base.completionOrder base.jobs
      instances).map fun execution => { execution with }
  /-- A cancelled concurrency scope is no part of the schedule: it does not excuse an error. -/
  calm : ∀ error, last.execution = .error error → last.interrupted = false

/-- The run is not cancelled, and bases return what they compute. -/
def PlanOccurrence.Scheduled (evaluations : Evaluations Inputs) (run : PlanRun) :
    PlanOccurrence → Prop
  | .cancel => False
  | .ended last => last.Computed evaluations run
  | _ => True

/-- The entry of a running base in the state of the schedule. -/
def RunningBase.entry (base : RunningBase) : String × Completed × List String :=
  (base.baseId, base.completed, base.completionOrder)

/-- The loop is where the schedule is. -/
structure Simulates (plan : ExecutionPlan) (state : PlanState) (run : PlanRun) : Prop where
  jobs : run.jobs = plan.jobs
  order : run.baseOrder = baseOrder plan
  completed : run.completed = state.completed
  completionOrder : run.completionOrder = state.completionOrder
  completedSteps : run.completedSteps = state.completedSteps
  pending : state.pending = (baseOrder plan).filter run.pendingBases.contains
  running : run.runningBases.map RunningBase.entry = state.running
  instances : ∀ base ∈ run.runningBases, base.jobs = instancesOf plan base.baseId
  matrices : run.reusableMatrices = ∅
  once : (run.runningBases.map (·.baseId)).Nodup
  apart : ∀ base ∈ run.runningBases, base.baseId ∉ run.pendingBases
  calm : run.cancelled = false
  unfailed : run.cancellationError = none

/-! ### Starting -/

omit [Serde] in
theorem gateCanStart_empty (baseId : String) : reusableMatrixGateCanStart ∅ baseId = true := by
  simp [reusableMatrixGateCanStart]

theorem isReady_of_simulates {state : PlanState} {run : PlanRun}
    (simulates : Simulates plan state run) (baseId : String) :
    run.isReady baseId = (run.pendingBases.contains baseId &&
      ready plan state.completed baseId) := by
  have first : run.job? baseId = (instancesOf plan baseId).head? := by
    rw [PlanRun.job?, simulates.jobs, instancesOf, List.head?_filter]
  unfold PlanRun.isReady ready
  rw [first, simulates.matrices, simulates.completed, gateCanStart_empty, Bool.and_true]
  cases instancesOf plan baseId with
  | nil => rfl
  | cons job jobs => rfl

/-- What starting the bases of a list does, when there are no matrices. -/
structure Starts (ids : List String) (before after : PlanRun) : Prop where
  jobs : after.jobs = before.jobs
  baseOrder : after.baseOrder = before.baseOrder
  completed : after.completed = before.completed
  completionOrder : after.completionOrder = before.completionOrder
  completedSteps : after.completedSteps = before.completedSteps
  pending : ∀ id, after.pendingBases.contains id =
    (before.pendingBases.contains id && !ids.contains id)
  running : after.runningBases.map RunningBase.entry =
    before.runningBases.map RunningBase.entry ++
      ids.map fun id => (id, before.completed, before.completionOrder)
  instances : ∀ base ∈ after.runningBases, base ∈ before.runningBases ∨
    base.jobs = before.jobs.filter (·.baseId = base.baseId)
  matrices : after.reusableMatrices = ∅
  calm : after.cancelled = before.cancelled
  cancellationError : after.cancellationError = before.cancellationError

theorem Starts.bases {ids : List String} {before after : PlanRun}
    (starts : Starts ids before after) :
    after.runningBases.map (·.baseId) = before.runningBases.map (·.baseId) ++ ids := by
  have entries := congrArg (List.map Prod.fst) starts.running
  simpa [Function.comp_def, RunningBase.entry] using entries

theorem starts_startBase {run : PlanRun} (matrices : run.reusableMatrices = ∅) (id : String) :
    Starts [id] run (run.startBase id) := by
  have admitted : reusableMatrixGateCanStart run.reusableMatrices id = true := by
    rw [matrices, gateCanStart_empty]
  unfold PlanRun.startBase
  rw [if_pos admitted]
  constructor
  case pending =>
    intro other
    change (run.pendingBases.erase id).contains other = _
    rw [Std.ExtTreeSet.contains_erase, Bool.and_comm]
    by_cases same : id = other
    · simp [same]
    · have differ : other ≠ id := Ne.symm same
      simp [same, differ]
  case running => rw [List.map_append]; rfl
  case instances =>
    intro base member
    rcases List.mem_append.mp member with older | newest
    · exact .inl older
    · rw [List.mem_singleton.mp newest]
      exact .inr rfl
  case matrices =>
    refine Std.ExtTreeMap.ext_getElem? fun other => ?_
    change (run.reusableMatrices.map _)[other]? = _
    rw [matrices, Std.ExtTreeMap.getElem?_map]
    simp
  all_goals rfl

theorem starts_foldl (ids : List String) {run : PlanRun} (matrices : run.reusableMatrices = ∅) :
    Starts ids run (ids.foldl PlanRun.startBase run) := by
  induction ids generalizing run with
  | nil =>
      exact ⟨rfl, rfl, rfl, rfl, rfl, by simp, by simp, fun _ member => .inl member, matrices,
        rfl, rfl⟩
  | cons id ids inductionHypothesis =>
      have first := starts_startBase matrices id
      have others := inductionHypothesis first.matrices
      rw [List.foldl_cons]
      constructor
      · exact others.jobs.trans first.jobs
      · exact others.baseOrder.trans first.baseOrder
      · exact others.completed.trans first.completed
      · exact others.completionOrder.trans first.completionOrder
      · exact others.completedSteps.trans first.completedSteps
      · intro other
        rw [others.pending, first.pending, Bool.and_assoc, ← Bool.not_or]
        simp
      · rw [others.running, first.running, first.completed, first.completionOrder,
          List.append_assoc]
        rfl
      · intro base member
        rcases others.instances base member with older | taken
        · exact first.instances base older
        · exact .inr (first.jobs ▸ taken)
      · exact others.matrices
      · exact others.calm.trans first.calm
      · exact others.cancellationError.trans first.cancellationError

/-- The loop starts the bases that the schedule starts. -/
theorem Simulates.startReady {state : PlanState} {run : PlanRun}
    (simulates : Simulates plan state run) :
    Simulates plan (startReady plan state) run.startReady := by
  have readies : run.baseOrder.filter run.isReady =
      state.pending.filter (ready plan state.completed) := by
    rw [simulates.order, simulates.pending, List.filter_filter]
    refine List.filter_congr fun id _ => ?_
    rw [isReady_of_simulates simulates, Bool.and_comm]
  have starts := starts_foldl (run.baseOrder.filter run.isReady) simulates.matrices
  have waiting : ∀ id ∈ run.baseOrder.filter run.isReady, id ∈ run.pendingBases :=
    fun id member => (isReady_iff.mp (List.mem_filter.mp member).2).1
  have left : ∀ id, id ∈ run.startReady.pendingBases →
      id ∈ run.pendingBases ∧ id ∉ run.baseOrder.filter run.isReady := by
    intro id waits
    have both := (starts.pending id).symm.trans (Std.ExtTreeSet.mem_iff_contains.mp waits)
    rw [Bool.and_eq_true, Bool.not_eq_true', ← Bool.not_eq_true, List.contains_iff_mem] at both
    exact ⟨Std.ExtTreeSet.mem_iff_contains.mpr both.1, both.2⟩
  constructor
  · exact starts.jobs.trans simulates.jobs
  · exact starts.baseOrder.trans simulates.order
  · exact starts.completed.trans simulates.completed
  · exact starts.completionOrder.trans simulates.completionOrder
  · exact starts.completedSteps.trans simulates.completedSteps
  · change state.pending.filter _ = (Agent.baseOrder plan).filter
      run.startReady.pendingBases.contains
    rw [simulates.pending, List.filter_filter]
    refine List.filter_congr fun id known => ?_
    rw [show run.startReady.pendingBases.contains id = _ from starts.pending id, readies,
      simulates.pending]
    cases waits : run.pendingBases.contains id with
    | false => simp
    | true =>
        have member : (((Agent.baseOrder plan).filter run.pendingBases.contains).filter
            (ready plan state.completed)).contains id = ready plan state.completed id := by
          rw [Bool.eq_iff_iff, List.contains_iff_mem, List.mem_filter, List.mem_filter]
          exact ⟨fun inside => inside.2, fun isReady => ⟨⟨known, waits⟩, isReady⟩⟩
        rw [member, Bool.and_true, Bool.true_and]
  · change run.startReady.runningBases.map _ = state.running ++ _
    rw [show run.startReady.runningBases.map _ = _ from starts.running, simulates.running, readies,
      simulates.completed, simulates.completionOrder]
  · intro base member
    rcases starts.instances base member with older | taken
    · exact simulates.instances base older
    · rw [taken, simulates.jobs]
      rfl
  · exact starts.matrices
  · rw [show run.startReady.runningBases.map _ = _ from starts.bases, List.nodup_append]
    have ordered : run.baseOrder.Nodup := simulates.order ▸ Table.nodup_eraseDups _
    refine ⟨simulates.once, ordered.filter _, fun one oneIn two twoIn same => ?_⟩
    obtain ⟨base, member, rfl⟩ := List.mem_map.mp oneIn
    exact simulates.apart base member (same ▸ waiting two twoIn)
  · intro base member waits
    have listed : base.baseId ∈ run.startReady.runningBases.map (·.baseId) :=
      List.mem_map_of_mem member
    rw [show run.startReady.runningBases.map _ = _ from starts.bases] at listed
    rcases List.mem_append.mp listed with older | newest
    · obtain ⟨earlier, inside, same⟩ := List.mem_map.mp older
      exact simulates.apart earlier inside (same.symm ▸ (left _ waits).1)
    · exact (left _ waits).2 newest
  · exact starts.calm.trans simulates.calm
  · exact starts.cancellationError.trans simulates.unfailed

/-! ### Ends -/

/-- Concurrency scopes and the channel of the events do not matter to the schedule. -/
theorem Simulates.aside {state : PlanState} {run : PlanRun} (simulates : Simulates plan state run)
    (activeConcurrencyScopes : BTreeSet) (outboundClosed : Bool) :
    Simulates plan state { run with activeConcurrencyScopes, outboundClosed } :=
  ⟨simulates.jobs, simulates.order, simulates.completed, simulates.completionOrder,
    simulates.completedSteps, simulates.pending, simulates.running, simulates.instances,
    simulates.matrices, simulates.once, simulates.apart, simulates.calm, simulates.unfailed⟩

theorem Simulates.find {state : PlanState} {run : PlanRun} {base : RunningBase} {baseId : String}
    (simulates : Simulates plan state run) (found : run.running? baseId = some base) :
    state.running.find? (·.1 = baseId) = some base.entry := by
  rw [← simulates.running, List.find?_map]
  change (run.runningBases.find? fun base => base.baseId = baseId).map RunningBase.entry = _
  rw [show run.runningBases.find? _ = _ from found]
  rfl

/-- The state of the schedule behind the end of a base. -/
def PlanState.after (state : PlanState) (baseId : String) (execution : BaseExecution) : PlanState :=
  { state with
    completed := {
      bases := state.completed.bases.insert baseId execution.conclusion
      outputs := state.completed.outputs.insert baseId execution.outputs }
    completionOrder := state.completionOrder ++ [baseId]
    running := state.running.filter (·.1 ≠ baseId)
    completedSteps := state.completedSteps + execution.completedSteps }

theorem planStep_eq {state : PlanState} {run : PlanRun} {base : RunningBase} {baseId : String}
    {instances : List InstanceEvent} (simulates : Simulates plan (Agent.startReady plan state) run)
    (found : run.running? baseId = some base) :
    planStep evaluations plan state { baseId, instances } =
      (executeBaseGroup evaluations base.completed base.completionOrder base.jobs instances).map
        ((Agent.startReady plan state).after base.baseId) := by
  have member := (running?_eq_some found).1
  rw [simulates.instances base member]
  unfold planStep
  dsimp only
  rw [simulates.find found]
  dsimp only [RunningBase.entry]
  cases executeBaseGroup evaluations base.completed base.completionOrder
    (instancesOf plan base.baseId) instances <;> rfl

/-- The schedule makes no progress either when no base runs. -/
theorem planStep_idle {state : PlanState} {run : PlanRun} {event : PlanEvent}
    (simulates : Simulates plan (Agent.startReady plan state) run)
    (idle : run.runningBases.isEmpty = true) :
    planStep evaluations plan state event = .error PlanFailure.noProgress.message := by
  have none : (Agent.startReady plan state).running = [] := by
    rw [← simulates.running, List.isEmpty_iff.mp idle]
    rfl
  unfold planStep
  dsimp only
  rw [none]
  rfl

theorem Simulates.finishBase {state : PlanState} {run : PlanRun}
    (simulates : Simulates plan state run) (baseId : String) (execution : BaseExecution) :
    Simulates plan (state.after baseId execution)
      ((run.depart baseId).finishBase baseId execution) := by
  constructor
  case jobs => exact simulates.jobs
  case order => exact simulates.order
  case completed =>
    change Completed.mk _ _ = Completed.mk _ _
    rw [← simulates.completed]
    rfl
  case completionOrder =>
    change run.completionOrder ++ _ = state.completionOrder ++ _
    rw [simulates.completionOrder]
  case completedSteps =>
    change run.completedSteps + _ = state.completedSteps + _
    rw [simulates.completedSteps]
  case pending => exact simulates.pending
  case running =>
    change (run.runningBases.eraseP _).map _ = state.running.filter _
    rw [eraseP_eq_filter simulates.once, ← simulates.running, List.filter_map]
    rfl
  case instances =>
    exact fun base member => simulates.instances base (List.mem_of_mem_eraseP member)
  case matrices =>
    refine Std.ExtTreeMap.ext_getElem? fun other => ?_
    change (run.reusableMatrices.map _)[other]? = _
    rw [simulates.matrices, Std.ExtTreeMap.getElem?_map]
    simp
  case once => exact simulates.once.sublist ((List.eraseP_sublist).map _)
  case apart => exact fun base member => simulates.apart base (List.mem_of_mem_eraseP member)
  case calm => exact simulates.calm
  case unfailed => exact simulates.unfailed

theorem completeBase_of_plain {run : PlanRun} {baseId : String} {execution : BaseExecution}
    (matrices : run.reusableMatrices = ∅) :
    run.completeBase baseId { execution with } = .ok (run.finishBase baseId execution) := by
  have none : run.failedGroups baseId execution = [] := by
    rw [PlanRun.failedGroups, finishReusableMatrixInvocation, matrices]
    simp
  change (run.failedGroups baseId execution).foldlM PlanRun.skipGroup
    (run.finishBase baseId execution) = _
  rw [none]
  rfl

/-! ### Runs -/

/-- The loop has done what a schedule does. -/
structure Follows (evaluations : Evaluations Inputs) (plan : ExecutionPlan)
    (events : List PlanEvent)
    (state : PlanState) (run : PlanRun) : Prop where
  scheduled : events.foldlM (planStep evaluations plan) { pending := baseOrder plan } = .ok state
  completed : run.completed = state.completed
  completionOrder : run.completionOrder = state.completionOrder
  completedSteps : run.completedSteps = state.completedSteps
  waits : run.returned = none → Simulates plan (Agent.startReady plan state) run
  returned : ∀ lists, run.returned = some (.ok lists) →
    executePlan evaluations plan events = .ok (state, lists)
  failed : ∀ failure, run.returned = some (.error failure) → failure = .scopesHeld ∨
    ∃ event, planStep evaluations plan state event = .error failure.message

theorem follows_loopHead {events : List PlanEvent} {state : PlanState} {run : PlanRun}
    (scheduled : events.foldlM (planStep evaluations plan)
      { pending := baseOrder plan } = .ok state)
    (simulates : Simulates plan state run) (still : run.returned = none) :
    Follows evaluations plan events state (run.loopHead plan) := by
  unfold PlanRun.loopHead
  split
  · have started := simulates.startReady
    have round : run.startRound = run.startReady := by
      unfold PlanRun.startRound
      rw [if_neg (by rw [simulates.calm]; exact Bool.false_ne_true)]
    have returned : run.startReady.returned = none :=
      round ▸ (startRound_frame PlanRun.returned startBase_returned run).trans still
    rw [round]
    unfold PlanRun.awaitNext
    split
    · next idle =>
        refine ⟨scheduled, started.completed, started.completionOrder, started.completedSteps,
          nofun, nofun, fun failure ended => .inr ⟨⟨"", []⟩, ?_⟩⟩
        have noProgress : run.startReady.emptyFailure = .noProgress := by
          unfold PlanRun.emptyFailure
          rw [started.unfailed, started.calm]
          rfl
        cases ended
        rw [noProgress]
        exact planStep_idle started idle
    · exact ⟨scheduled, started.completed, started.completionOrder, started.completedSteps,
        fun _ => started, fun lists ended => (nomatch returned.symm.trans ended),
        fun failure ended => nomatch returned.symm.trans ended⟩
  · next reached =>
      rw [simulates.completed, simulates.order] at reached
      unfold PlanRun.leaveLoop
      split
      · refine ⟨scheduled, simulates.completed, simulates.completionOrder, simulates.completedSteps,
          nofun, fun lists ended => ?_, nofun⟩
        cases ended
        unfold executePlan
        rw [scheduled]
        change (if _ then _ else _) = _
        rw [if_neg reached, PlanRun.planExecution, simulates.completed]
        rfl
      · refine ⟨scheduled, simulates.completed, simulates.completionOrder,
          simulates.completedSteps, nofun, nofun, fun failure ended => .inl ?_⟩
        cases ended
        rfl

theorem Follows.ended {events : List PlanEvent} {state : PlanState} {run : PlanRun}
    {base : RunningBase} {last : BaseEnd} (follows : Follows evaluations plan events state run)
    (still : run.returned = none) (found : run.running? last.baseId = some base)
    (computed : last.Computed evaluations run) :
    ∃ events state, Follows evaluations plan events state (run.settleBase plan base last) := by
  obtain ⟨instances, returned⟩ := computed.returns base found
  have simulates := follows.waits still
  have stepped : planStep evaluations plan state { baseId := last.baseId, instances } = _ :=
    planStep_eq simulates found
  cases ran : executeBaseGroup evaluations base.completed base.completionOrder base.jobs
    instances with
  | error error =>
      rw [ran] at returned stepped
      have settled : run.settledExecution base last = .error error := by
        unfold PlanRun.settledExecution
        rw [computed.calm error returned, returned]
        rfl
      have ended : run.settleBase plan base last =
          { run.depart base.baseId with returned := some (.error (.error error)) } := by
        unfold PlanRun.settleBase
        rw [settled, simulates.calm]
        rfl
      rw [ended]
      refine ⟨events, state, follows.scheduled, follows.completed, follows.completionOrder,
        follows.completedSteps, nofun, nofun, fun failure failed => ?_⟩
      cases failed
      exact .inr ⟨{ baseId := last.baseId, instances }, stepped⟩
  | ok execution =>
      rw [ran] at returned stepped
      refine ⟨events ++ [{ baseId := last.baseId, instances }],
        (Agent.startReady plan state).after base.baseId execution, ?_⟩
      have settled : run.settledExecution base last = .ok { execution with } := by
        unfold PlanRun.settledExecution
        rw [returned]
        rfl
      unfold PlanRun.settleBase
      rw [settled]
      dsimp only
      have plain : (run.depart base.baseId).reusableMatrices = ∅ := simulates.matrices
      rw [completeBase_of_plain plain]
      refine follows_loopHead ?_ (simulates.finishBase base.baseId execution) still
      exact foldlM_append_eq_ok.mpr ⟨state, follows.scheduled,
        foldlM_cons_eq_ok.mpr ⟨_, stepped, rfl⟩⟩

theorem Follows.advance {events : List PlanEvent} {state : PlanState} {run : PlanRun}
    {occurrence : PlanOccurrence} (follows : Follows evaluations plan events state run)
    (scheduled : occurrence.Scheduled evaluations run) :
    ∃ events state, Follows evaluations plan events state (planAdvance plan run occurrence) := by
  have aside : ∀ activeConcurrencyScopes outboundClosed,
      ∃ events state, Follows evaluations plan events state
        { run with activeConcurrencyScopes, outboundClosed } := fun scopes closed =>
    ⟨events, state, follows.scheduled, follows.completed, follows.completionOrder,
      follows.completedSteps, fun still => (follows.waits still).aside scopes closed,
      follows.returned, follows.failed⟩
  unfold planAdvance
  split
  · exact ⟨events, state, follows⟩
  · next waits =>
      have still : run.returned = none := Option.not_isSome_iff_eq_none.mp waits
      cases occurrence with
      | cancel => exact scheduled.elim
      | closeOutbound => exact aside run.activeConcurrencyScopes true
      | acquire baseId scope =>
          dsimp only [PlanRun.react]
          split
          · split
            · exact aside _ run.outboundClosed
            · exact ⟨events, state, follows⟩
          · exact ⟨events, state, follows⟩
      | release baseId =>
          dsimp only [PlanRun.react]
          split
          · exact aside _ run.outboundClosed
          · exact ⟨events, state, follows⟩
      | ended last =>
          dsimp only [PlanRun.react]
          split
          · next base found => exact follows.ended still found scheduled
          · exact ⟨events, state, follows⟩

theorem follows_begin (plain : ∀ job ∈ plan.jobs, runtimeOf job = none) :
    Follows evaluations plan [] { pending := baseOrder plan } (beginPlan plan false) := by
  have matrices : reusableMatrixRuntimes plan.jobs = ∅ := by
    rw [reusableMatrixRuntimes, List.filterMap_eq_nil_iff.mpr plain]
    rfl
  refine follows_loopHead rfl ⟨rfl, rfl, rfl, rfl, rfl, ?_, rfl, nofun, matrices,
    List.nodup_nil, nofun, rfl, rfl⟩ rfl
  refine (List.filter_eq_self.mpr fun id member => ?_).symm
  rw [← Std.ExtTreeSet.mem_iff_contains, Std.ExtTreeSet.mem_ofList, List.contains_iff_mem]
  exact member

theorem executePlan_error {events : List PlanEvent} {event : PlanEvent} {state : PlanState}
    {message : String}
    (scheduled : events.foldlM (planStep evaluations plan)
      { pending := baseOrder plan } = .ok state)
    (fails : planStep evaluations plan state event = .error message) :
    executePlan evaluations plan (events ++ [event]) = .error message := by
  have all : (events ++ [event]).foldlM (planStep evaluations plan)
      { pending := baseOrder plan } = .error message := by
    rw [List.foldlM_append, scheduled]
    change (planStep evaluations plan state event).bind _ = _
    rw [fails]
    rfl
  unfold executePlan
  rw [all]
  rfl

/-- The loop of `execute_plan_inner` refines the schedule: an uncancelled run of a plan without
matrices of reusable calls, in which bases return what `execute_base_group` computes of what they
were started with, a result or an error, has the results of a schedule of the same plan, and
returns what it returns.  An error of the loop is one that the schedule has next, unless scopes,
which the schedule does not have, are still held at the end. -/
theorem planRun_refines (evaluations : Evaluations Inputs) (plan : ExecutionPlan)
    (plain : ∀ job ∈ plan.jobs, runtimeOf job = none) (occurrences : List PlanOccurrence)
    (scheduled : Machine.Along (planAdvance plan)
      (fun run occurrence => occurrence.Scheduled evaluations run) (beginPlan plan false)
      occurrences) :
    let run := executePlanInner plan false occurrences
    ∃ events state,
      events.foldlM (planStep evaluations plan) { pending := baseOrder plan } = .ok state ∧
        run.completed = state.completed ∧ run.completionOrder = state.completionOrder ∧
        run.completedSteps = state.completedSteps ∧
        (∀ lists, run.returned = some (.ok lists) →
          executePlan evaluations plan events = .ok (state, lists)) ∧
        ∀ failure, run.returned = some (.error failure) → failure = .scopesHeld ∨
          ∃ event, executePlan evaluations plan (events ++ [event]) = .error failure.message := by
  intro run
  let Inv := fun run : PlanRun => ∃ events state, Follows evaluations plan events state run
  have initial : Inv (beginPlan plan false) := ⟨[], _, follows_begin plain⟩
  have keeps : ∀ (run : PlanRun) (occurrence : PlanOccurrence), Inv run →
      occurrence.Scheduled evaluations run → Inv (planAdvance plan run occurrence) :=
    fun _ _ ⟨_, _, follows⟩ scheduled => follows.advance scheduled
  have followed : Inv run := Machine.Along.invariant keeps initial scheduled
  obtain ⟨events, state, follows⟩ := followed
  refine ⟨events, state, follows.scheduled, follows.completed, follows.completionOrder,
    follows.completedSteps, follows.returned, fun failure ended => ?_⟩
  rcases follows.failed failure ended with held | ⟨event, fails⟩
  · exact .inl held
  · exact .inr ⟨event, executePlan_error follows.scheduled fails⟩

end PlanRefinement

namespace Sample

open Workflows.Sample

/-- The ends of the bases of `forkPlan`, the failing one first. -/
def forkOccurrences : List PlanOccurrence :=
  [.ended { baseId := "test", execution := .ok {
      conclusion := .failure, completedSteps := 1, outputs := ∅ } },
    .ended { baseId := "lint", execution := .ok {
      conclusion := .success, completedSteps := 1, outputs := ∅ } },
    .ended { baseId := "ship", execution := .ok { BaseExecution.skipped with } }]

theorem forkOccurrences_scheduled : Machine.Along (planAdvance forkPlan)
    (fun run occurrence => occurrence.Scheduled forkEvaluations run) (beginPlan forkPlan false)
    forkOccurrences := by
  refine ⟨⟨?_, nofun⟩, ⟨?_, nofun⟩, ⟨?_, nofun⟩, trivial⟩
  · intro base found
    obtain rfl := Option.some.inj (found.symm.trans rfl)
    exact ⟨[{ index := 0 }], rfl⟩
  · intro base found
    obtain rfl := Option.some.inj (found.symm.trans rfl)
    exact ⟨[{ index := 0 }], rfl⟩
  · intro base found
    obtain rfl := Option.some.inj (found.symm.trans rfl)
    exact ⟨[{ index := 0 }], rfl⟩

theorem forkPlan_refines :
    let run := executePlanInner forkPlan false forkOccurrences
    ∃ events state,
      events.foldlM (planStep forkEvaluations forkPlan) { pending := baseOrder forkPlan } =
          .ok state ∧
        run.completed = state.completed ∧ run.completionOrder = state.completionOrder ∧
        run.completedSteps = state.completedSteps ∧
        (∀ lists, run.returned = some (.ok lists) →
          executePlan forkEvaluations forkPlan events = .ok (state, lists)) ∧
        ∀ failure, run.returned = some (.error failure) → failure = .scopesHeld ∨
          ∃ event, executePlan forkEvaluations forkPlan (events ++ [event]) =
            .error failure.message := by
  have plain : ∀ job ∈ forkPlan.jobs, runtimeOf job = none := by
    intro job member
    simp only [forkPlan, List.mem_cons, List.not_mem_nil, or_false] at member
    rcases member with rfl | rfl | rfl <;> rfl
  exact planRun_refines forkEvaluations forkPlan plain forkOccurrences forkOccurrences_scheduled

/-- The loop does return. -/
example : (executePlanInner forkPlan false forkOccurrences).returned =
    some (.ok { failedJobs := ["ci / test"], timedOutJobs := [], cancelledJobs := [] }) := by
  decide

end Sample

end GitZero.Agent
