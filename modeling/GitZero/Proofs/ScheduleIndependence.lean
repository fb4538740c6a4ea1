/-
Module: GitZero.Proofs.ScheduleIndependence
Purpose: The results of a plan do not depend on the order in which its bases and their
  instances complete.
Trusted boundary: none
Main exports: CompletedAgree, Ends, Result, Result.unique, schedule_independent
-/
import GitZero.Agent.Schedule
import GitZero.Lib.OrderedMaps
import GitZero.Proofs.PlanIdentity

namespace GitZero.Agent

open Workflows Outcomes

/-- Two sets of results that agree on the bases they both have. -/
def CompletedAgree (one two : Completed) : Prop := ∀ id, Agree (one.result id) (two.result id)

section Schedule

variable [Serde] {Inputs : Type} {evaluations : Evaluations Inputs} {one two : Completed}

/-! ### Contexts -/

omit [Serde] in
theorem needEntries_agree (agree : CompletedAgree one two) (aliases : BTreeMap String) :
    Agree (needEntries one aliases) (needEntries two aliases) := by
  refine Agree.mapM fun entry _ => ?_
  exact (agree entry.2).bind fun _ => Agree.refl _

omit [Serde] in
theorem dependencyStatus_agree (agree : CompletedAgree one two) (needs : List String) :
    Agree (dependencyStatus one needs) (dependencyStatus two needs) :=
  (Agree.mapM fun id _ => agree id).bind fun _ => Agree.refl _

theorem startContext_agree (agree : CompletedAgree one two) (job : PlannedJob) (inputs : Inputs) :
    Agree (startContext one job inputs) (startContext two job inputs) := by
  refine (dependencyStatus_agree agree job.needs).bind fun status => ?_
  exact (needEntries_agree agree job.needAliases).bind fun _ => Agree.refl _

/-- Only the result of a matrix of calls depends on the order of completion. -/
theorem executeVirtualJob_agree (agree : CompletedAgree one two) (oneOrder twoOrder : List String)
    (job : PlannedJob) (context : StartContext Inputs) {virtualJob : PlannedVirtualJob}
    (noMatrix : ∀ invocations maxParallel failFast,
      virtualJob ≠ .reusableMatrixResult invocations maxParallel failFast) :
    Agree (executeVirtualJob evaluations one oneOrder job context virtualJob)
      (executeVirtualJob evaluations two twoOrder job context virtualJob) := by
  cases virtualJob with
  | reusableGate => exact Agree.refl _
  | reusableDynamicCall call => exact Agree.refl _
  | reusableMatrixResult invocations maxParallel failFast =>
      exact absurd rfl (noMatrix invocations maxParallel failFast)
  | reusableResult jobs outputs =>
      refine (Agree.mapM fun entry _ => agree entry.2).bind fun results => ?_
      exact (needEntries_agree agree jobs).bind fun _ => Agree.refl _

/-! ### Instances -/

section Instances

variable {instances : List PlannedJob} {context : PlannedJob → Except String (StartContext Inputs)}

/-- The instance at a place ends by itself. -/
def Ends (evaluations : Evaluations Inputs) (instances : List PlannedJob)
    (context : PlannedJob → Except String (StartContext Inputs)) (index : Nat)
    (execution : JobExecution) : Prop :=
  ∃ job started, instances[index]? = some job ∧ context job = .ok started ∧
    evaluations.executeJob job started = .ok execution

theorem Ends.unique {other : PlannedJob → Except String (StartContext Inputs)} {index : Nat}
    {left right : JobExecution} (agree : ∀ job, Agree (context job) (other job))
    (isLeft : Ends evaluations instances context index left)
    (isRight : Ends evaluations instances other index right) : left = right := by
  obtain ⟨job, started, isJob, isStarted, ran⟩ := isLeft
  obtain ⟨otherJob, otherStarted, isOtherJob, isOtherStarted, otherRan⟩ := isRight
  rw [isJob] at isOtherJob
  cases isOtherJob
  cases agree job started otherStarted isStarted isOtherStarted
  rw [ran] at otherRan
  exact Except.ok.inj otherRan

/-- As long as no failure has stopped the others, an instance ends by itself. -/
theorem groupStep_ok {state after : GroupState} {event : InstanceEvent}
    (running : state.failFast = false)
    (ran : groupStep evaluations instances context state event = .ok after) :
    ∃ job execution, instances[event.index]? = some job ∧
      Ends evaluations instances context event.index execution ∧
      after = {
        failFast := execution.conclusion.failed && job.matrixFailFast
        executions := state.executions.insert event.index execution } := by
  unfold groupStep at ran
  split at ran
  · cases ran
  · next job isJob =>
      obtain ⟨execution, isExecution, ended⟩ := bind_eq_ok.mp ran
      cases pure_eq_ok.mp ended
      unfold instanceExecution at isExecution
      cases interrupted : event.interrupted with
      | some early => simp [interrupted, running] at isExecution
      | none =>
          rw [interrupted] at isExecution
          obtain ⟨started, isStarted, ranJob⟩ := bind_eq_ok.mp isExecution
          exact ⟨job, execution, isJob, ⟨job, started, isJob, isStarted, ranJob⟩,
            by simp [running]⟩

/-- Every instance of a base without fail-fast ends by itself, whatever the order. -/
theorem foldlM_groupStep_ok {events : List InstanceEvent} {state ended : GroupState}
    (patient : ∀ job ∈ instances, job.matrixFailFast = false) (running : state.failFast = false)
    (distinct : (events.map (·.index)).Nodup)
    (ran : events.foldlM (groupStep evaluations instances context) state = .ok ended)
    (index : Nat) :
    (index ∈ events.map (·.index) → ∃ execution, ended.executions[index]? = some execution ∧
      Ends evaluations instances context index execution) ∧
    (index ∉ events.map (·.index) → ended.executions[index]? = state.executions[index]?) := by
  induction events generalizing state with
  | nil =>
      cases pure_eq_ok.mp ran
      exact ⟨(fun member => nomatch member), fun _ => rfl⟩
  | cons event events inductionHypothesis =>
      obtain ⟨middle, isMiddle, rest⟩ := foldlM_cons_eq_ok.mp ran
      obtain ⟨job, execution, isJob, ends, rfl⟩ := groupStep_ok running isMiddle
      have keepsRunning : (execution.conclusion.failed && job.matrixFailFast) = false := by
        simp [patient job (List.mem_of_getElem? isJob)]
      obtain ⟨fresh, laterDistinct⟩ := List.nodup_cons.mp distinct
      obtain ⟨later, kept⟩ := inductionHypothesis keepsRunning laterDistinct rest
      refine ⟨fun member => ?_, fun outside => ?_⟩
      · rcases List.mem_cons.mp member with same | inside
        · subst same
          refine ⟨execution, ?_, ends⟩
          rw [kept fresh]
          simp
        · exact later inside
      · rw [List.map_cons, List.mem_cons, not_or] at outside
        rw [kept outside.2]
        have differ : event.index ≠ index := fun same => outside.1 same.symm
        simp [Std.ExtTreeMap.getElem?_insert, differ]

/-- A base with one instance, or with a matrix that is not fail-fast. -/
def Patient (instances : List PlannedJob) : Prop :=
  instances.length ≤ 1 ∨ ∀ job ∈ instances, job.matrixFailFast = false

theorem executeInstances_ok {events : List InstanceEvent} {execution : BaseExecution}
    (patient : Patient instances)
    (ran : executeInstances evaluations instances context events = .ok execution) :
    ∃ executions : Nat → Option JobExecution,
      execution = mergeExecutions ((List.range instances.length).filterMap executions) ∧
      ∀ index < instances.length, ∃ one, executions index = some one ∧
        Ends evaluations instances context index one := by
  unfold executeInstances at ran
  split at ran
  · next complete =>
      have perm : (events.map (·.index)).Perm (List.range instances.length) :=
        List.isPerm_iff.mp complete
      obtain ⟨ended, folded, merged⟩ := bind_eq_ok.mp ran
      cases pure_eq_ok.mp merged
      refine ⟨fun index => ended.executions[index]?, rfl, ?_⟩
      intro index bound
      have member : index ∈ events.map (·.index) := perm.mem_iff.mpr (List.mem_range.mpr bound)
      have distinct : (events.map (·.index)).Nodup := perm.nodup_iff.mpr List.nodup_range
      rcases patient with few | patient
      · -- one instance: nobody else can have failed before it ends
        obtain ⟨event, rfl⟩ : ∃ event, events = [event] := by
          apply List.length_eq_one_iff.mp
          have lengths := perm.length_eq
          simp only [List.length_map, List.length_range] at lengths
          omega
        obtain ⟨middle, isMiddle, rest⟩ := foldlM_cons_eq_ok.mp folded
        cases pure_eq_ok.mp rest
        obtain ⟨job, execution, -, ends, rfl⟩ := groupStep_ok rfl isMiddle
        cases List.mem_singleton.mp member
        exact ⟨execution, by simp, ends⟩
      · exact (foldlM_groupStep_ok patient rfl distinct folded index).1 member
  · cases ran

theorem executeInstances_agree {other : PlannedJob → Except String (StartContext Inputs)}
    (patient : Patient instances) (agree : ∀ job, Agree (context job) (other job))
    (oneEvents twoEvents : List InstanceEvent) :
    Agree (executeInstances evaluations instances context oneEvents)
      (executeInstances evaluations instances other twoEvents) := by
  intro left right isLeft isRight
  obtain ⟨leftEnds, rfl, leftEach⟩ := executeInstances_ok patient isLeft
  obtain ⟨rightEnds, rfl, rightEach⟩ := executeInstances_ok patient isRight
  congr 1
  apply List.filterMap_congr
  intro index member
  obtain ⟨oneEnd, isOne, oneEnds⟩ := leftEach index (List.mem_range.mp member)
  obtain ⟨twoEnd, isTwo, twoEnds⟩ := rightEach index (List.mem_range.mp member)
  rw [isOne, isTwo, Ends.unique agree oneEnds twoEnds]

end Instances

/-! ### Bases -/

/-- A base that neither joins a matrix of calls nor runs a fail-fast matrix. -/
structure Unraced (instances : List PlannedJob) : Prop where
  calls : ∀ job ∈ instances, ∀ invocations maxParallel failFast,
    job.virtualJob ≠ some (.reusableMatrixResult invocations maxParallel failFast)
  matrix : ∀ job ∈ instances, job.matrixFailFast = true →
    job.dynamicMatrix = none ∧ instances.length ≤ 1

theorem patient_map {jobs : List PlannedJob} (change : PlannedJob → PlannedJob)
    (same : ∀ job, (change job).matrixFailFast = job.matrixFailFast) (patient : Patient jobs) :
    Patient (jobs.map change) := by
  rcases patient with few | patient
  · exact .inl (by simpa using few)
  · refine .inr fun job member => ?_
    obtain ⟨source, inside, rfl⟩ := List.mem_map.mp member
    rw [same]
    exact patient source inside

theorem Unraced.patient {first : PlannedJob} {others expanded : List PlannedJob}
    (unraced : Unraced (first :: others)) {completed : Completed} {inputs : Inputs}
    (ran : expandInstances evaluations completed inputs first others = .ok expanded) :
    Patient expanded := by
  unfold expandInstances at ran
  split at ran
  · next isDynamic =>
      have slow : first.matrixFailFast = false := by
        by_contra fast
        have static := (unraced.matrix first List.mem_cons_self (by simpa using fast)).1
        simp [static] at isDynamic
      split at ran
      · obtain ⟨context, -, ran⟩ := bind_eq_ok.mp ran
        obtain ⟨combinations, -, ran⟩ := bind_eq_ok.mp ran
        cases pure_eq_ok.mp ran
        refine .inr fun job member => ?_
        obtain ⟨index, -, rfl⟩ := List.mem_mapIdx.mp member
        exact slow
      · cases ran
  · cases ran
    by_cases few : (first :: others).length ≤ 1
    · exact .inl few
    · refine .inr fun job member => ?_
      by_contra fast
      exact few (unraced.matrix job member (by simpa using fast)).2

theorem expandInstances_agree (agree : CompletedAgree one two) (inputs : Inputs)
    (first : PlannedJob) (others : List PlannedJob) :
    Agree (expandInstances evaluations one inputs first others)
      (expandInstances evaluations two inputs first others) := by
  unfold expandInstances
  split
  · split
    · exact (startContext_agree agree first inputs).bind fun _ => Agree.refl _
    · exact Agree.refl _
  · exact Agree.refl _

theorem executeAllowed_agree (agree : CompletedAgree one two) (oneOrder twoOrder : List String)
    {first : PlannedJob} {others : List PlannedJob} (unraced : Unraced (first :: others))
    (context : StartContext Inputs) (oneEvents twoEvents : List InstanceEvent) :
    Agree (executeAllowed evaluations one oneOrder first others context oneEvents)
      (executeAllowed evaluations two twoOrder first others context twoEvents) := by
  unfold executeAllowed
  split
  · next virtualJob isVirtual =>
      refine executeVirtualJob_agree agree oneOrder twoOrder _ context ?_
      intro invocations maxParallel failFast same
      exact unraced.calls first List.mem_cons_self invocations maxParallel failFast
        (same ▸ isVirtual)
  · intro left right isLeft isRight
    obtain ⟨expanded, isExpanded, leftRan⟩ := bind_eq_ok.mp isLeft
    obtain ⟨otherExpanded, isOther, rightRan⟩ := bind_eq_ok.mp isRight
    cases expandInstances_agree agree context.inputs first others _ _ isExpanded isOther
    have patient := patient_map (fun job => { job with condition := some alwaysCondition })
      (fun _ => rfl) (unraced.patient isExpanded)
    dsimp only at leftRan rightRan
    split at leftRan
    · cases leftRan
    · next nonempty =>
        rw [if_neg nonempty] at rightRan
        exact executeInstances_agree patient (fun job =>
          startContext_agree agree job context.inputs)
          oneEvents twoEvents left right leftRan rightRan

/-- The result of a base is made of the results that it is started with. -/
theorem executeBaseGroup_agree (agree : CompletedAgree one two) (oneOrder twoOrder : List String)
    {instances : List PlannedJob} (unraced : Unraced instances)
    (oneEvents twoEvents : List InstanceEvent) :
    Agree (executeBaseGroup evaluations one oneOrder instances oneEvents)
      (executeBaseGroup evaluations two twoOrder instances twoEvents) := by
  unfold executeBaseGroup
  split
  · exact Agree.refl _
  · next first others =>
      refine (startContext_agree agree _ _).bind fun bare => ?_
      refine (Agree.refl _).bind fun inputs => ?_
      refine (Agree.refl _).bind fun allowed => ?_
      split
      · exact executeAllowed_agree agree oneOrder twoOrder unraced _ oneEvents twoEvents
      · exact Agree.refl _

/-! ### Results -/

/-- What a base can end with: it is started with results of other bases. -/
inductive Result (evaluations : Evaluations Inputs) (plan : ExecutionPlan) :
    String → JobConclusion × BTreeMap String → Prop where
  | intro {baseId : String} {completed : Completed} {completionOrder : List String}
      {events : List InstanceEvent} {execution : BaseExecution} :
      (∀ id result, completed.result id = .ok result → Result evaluations plan id result) →
      executeBaseGroup evaluations completed completionOrder (instancesOf plan baseId) events =
        .ok execution →
      Result evaluations plan baseId (execution.conclusion, execution.outputs)

/-- A plan without reusable-call matrices and without fail-fast matrices. -/
def RaceFree (plan : ExecutionPlan) : Prop := ∀ baseId, Unraced (instancesOf plan baseId)

/-- A base has one result, whatever the order of the schedule. -/
theorem Result.unique {plan : ExecutionPlan} (raceFree : RaceFree plan) {baseId : String}
    {left right : JobConclusion × BTreeMap String} (isLeft : Result evaluations plan baseId left)
    (isRight : Result evaluations plan baseId right) : left = right := by
  induction isLeft generalizing right with
  | @intro baseId completed order events execution _ ran inductionHypothesis =>
      cases isRight with
      | @intro _ otherCompleted otherOrder otherEvents otherExecution otherResults otherRan =>
          have agree : CompletedAgree completed otherCompleted := by
            intro id one two isOne isTwo
            exact inductionHypothesis id one isOne (otherResults id two isTwo)
          have same := executeBaseGroup_agree agree order otherOrder (raceFree baseId) events
            otherEvents execution otherExecution ran otherRan
          rw [same]

/-! ### Runs -/

section Runs

variable {plan : ExecutionPlan}

/-- Every result so far is one that its base can end with. -/
structure PlanSound (evaluations : Evaluations Inputs) (plan : ExecutionPlan) (state : PlanState) :
    Prop where
  completed : ∀ id result, state.completed.result id = .ok result →
    Result evaluations plan id result
  running : ∀ entry ∈ state.running, ∀ id result, entry.2.1.result id = .ok result →
    Result evaluations plan id result
  known : ∀ entry ∈ state.running, entry.1 ∈ baseOrder plan
  pending : ∀ id ∈ state.pending, id ∈ baseOrder plan
  bases : ∀ id ∈ state.completed.bases, id ∈ baseOrder plan
  outputs : ∀ id, id ∈ state.completed.outputs ↔ id ∈ state.completed.bases

theorem PlanSound.startReady {state : PlanState} (sound : PlanSound evaluations plan state) :
    PlanSound evaluations plan (startReady plan state) where
  completed := sound.completed
  running := by
    intro entry member
    rcases List.mem_append.mp member with older | started
    · exact sound.running entry older
    · obtain ⟨baseId, -, rfl⟩ := List.mem_map.mp started
      exact sound.completed
  known := by
    intro entry member
    rcases List.mem_append.mp member with older | started
    · exact sound.known entry older
    · obtain ⟨baseId, inside, rfl⟩ := List.mem_map.mp started
      exact sound.pending baseId (List.mem_filter.mp inside).1
  pending id member := sound.pending id (List.mem_filter.mp member).1
  bases := sound.bases
  outputs := sound.outputs

theorem PlanSound.planStep {state after : PlanState} {event : PlanEvent}
    (sound : PlanSound evaluations plan state)
    (ran : planStep evaluations plan state event = .ok after) :
    PlanSound evaluations plan after := by
  have started := sound.startReady
  unfold Agent.planStep at ran
  dsimp only at ran
  split at ran
  · cases ran
  · next baseId completed order found =>
      have member := List.mem_of_find?_eq_some found
      obtain ⟨execution, isExecution, ran⟩ := bind_eq_ok.mp ran
      cases pure_eq_ok.mp ran
      have result : Result evaluations plan baseId (execution.conclusion, execution.outputs) :=
        .intro (started.running _ member) isExecution
      constructor
      case completed =>
        intro id other isOther
        by_cases same : baseId = id
        · subst same
          simp only [Completed.result, Std.ExtTreeMap.getElem?_insert_self] at isOther
          cases isOther
          exact result
        · refine started.completed id other ?_
          simpa [Completed.result, Std.ExtTreeMap.getElem?_insert, same] using isOther
      case running =>
        exact fun entry inside => started.running entry (List.mem_filter.mp inside).1
      case known => exact fun entry inside => started.known entry (List.mem_filter.mp inside).1
      case pending => exact started.pending
      case bases =>
        intro id inside
        rcases Std.ExtTreeMap.mem_insert.mp inside with same | older
        · cases compare_eq_iff_eq.mp same
          exact started.known _ member
        · exact started.bases id older
      case outputs =>
        intro id
        rw [Std.ExtTreeMap.mem_insert, Std.ExtTreeMap.mem_insert, started.outputs id]

theorem PlanSound.run {events : List PlanEvent} {state ended : PlanState}
    (sound : PlanSound evaluations plan state)
    (ran : events.foldlM (Agent.planStep evaluations plan) state = .ok ended) :
    PlanSound evaluations plan ended := by
  induction events generalizing state with
  | nil =>
      cases pure_eq_ok.mp ran
      exact sound
  | cons event events inductionHypothesis =>
      obtain ⟨middle, isMiddle, rest⟩ := foldlM_cons_eq_ok.mp ran
      exact inductionHypothesis (sound.planStep isMiddle) rest

theorem planSound_start : PlanSound evaluations plan { pending := baseOrder plan } where
  completed id result isResult := by simp [Completed.result] at isResult
  running entry member := by simp at member
  known entry member := by simp at member
  pending id member := member
  bases id member := by simp at member
  outputs id := by simp

/-- A plan ends when every base has a result. -/
theorem executePlan_ok {events : List PlanEvent} {ended : PlanState} {execution : PlanExecution}
    (ran : executePlan evaluations plan events = .ok (ended, execution)) :
    PlanSound evaluations plan ended ∧ execution = planExecution plan ended.completed.bases ∧
      ∀ id, id ∈ ended.completed.bases ↔ id ∈ baseOrder plan := by
  unfold executePlan at ran
  obtain ⟨state, folded, ran⟩ := bind_eq_ok.mp ran
  split at ran
  · cases ran
  · next complete =>
      cases pure_eq_ok.mp ran
      have sound := planSound_start.run folded
      refine ⟨sound, rfl, fun id => ⟨sound.bases id, fun inOrder => ?_⟩⟩
      have inside : ended.completed.bases.keys ⊆ baseOrder plan := fun key member =>
        sound.bases key (Std.ExtTreeMap.mem_keys.mp member)
      have lengths : (baseOrder plan).length ≤ ended.completed.bases.keys.length := by
        rw [Std.ExtTreeMap.length_keys]
        omega
      have perm := (List.subperm_of_subset Std.ExtTreeMap.nodup_keys inside).perm_of_length_le
        lengths
      exact Std.ExtTreeMap.mem_keys.mp (perm.mem_iff.mpr inOrder)

theorem PlanSound.exists_result {state : PlanState} (sound : PlanSound evaluations plan state)
    {id : String} (member : id ∈ state.completed.bases) :
    ∃ conclusion outputs, state.completed.bases[id]? = some conclusion ∧
      state.completed.outputs[id]? = some outputs ∧
      Result evaluations plan id (conclusion, outputs) := by
  have inOutputs := (sound.outputs id).mpr member
  obtain ⟨conclusion, isConclusion⟩ := Option.isSome_iff_exists.mp
    (Std.ExtTreeMap.isSome_getElem?_iff_mem.mpr member)
  obtain ⟨outputs, isOutputs⟩ := Option.isSome_iff_exists.mp
    (Std.ExtTreeMap.isSome_getElem?_iff_mem.mpr inOutputs)
  refine ⟨conclusion, outputs, isConclusion, isOutputs, sound.completed id _ ?_⟩
  simp [Completed.result, isConclusion, isOutputs]

/-- Any two executions of a plan end with the same results. -/
theorem schedule_independent (evaluations : Evaluations Inputs) (plan : ExecutionPlan)
    (raceFree : RaceFree plan) (oneEvents twoEvents : List PlanEvent) (one two : PlanState)
    (oneLists twoLists : PlanExecution)
    (oneRan : executePlan evaluations plan oneEvents = .ok (one, oneLists))
    (twoRan : executePlan evaluations plan twoEvents = .ok (two, twoLists)) :
    one.completed.bases = two.completed.bases ∧ one.completed.outputs = two.completed.outputs ∧
      oneLists = twoLists := by
  obtain ⟨oneSound, oneExecution, oneBases⟩ := executePlan_ok oneRan
  obtain ⟨twoSound, twoExecution, twoBases⟩ := executePlan_ok twoRan
  have each : ∀ id : String, one.completed.bases[id]? = two.completed.bases[id]? ∧
      one.completed.outputs[id]? = two.completed.outputs[id]? := by
    intro id
    by_cases member : id ∈ baseOrder plan
    · obtain ⟨conclusion, outputs, isConclusion, isOutputs, result⟩ :=
        oneSound.exists_result ((oneBases id).mpr member)
      obtain ⟨otherConclusion, otherOutputs, isOther, isOtherOutputs, otherResult⟩ :=
        twoSound.exists_result ((twoBases id).mpr member)
      cases result.unique raceFree otherResult
      exact ⟨isConclusion.trans isOther.symm, isOutputs.trans isOtherOutputs.symm⟩
    · have absent : ∀ {state : PlanState}, PlanSound evaluations plan state →
          state.completed.bases[id]? = none ∧ state.completed.outputs[id]? = none := by
        intro state sound
        have notBase : id ∉ state.completed.bases := fun inside => member (sound.bases id inside)
        have notOutput : id ∉ state.completed.outputs := fun inside =>
          notBase ((sound.outputs id).mp inside)
        exact ⟨Std.ExtTreeMap.getElem?_eq_none notBase, Std.ExtTreeMap.getElem?_eq_none notOutput⟩
      rw [(absent oneSound).1, (absent twoSound).1, (absent oneSound).2, (absent twoSound).2]
      exact ⟨rfl, rfl⟩
  have bases := Std.ExtTreeMap.ext_getElem? fun id => (each id).1
  have outputs := Std.ExtTreeMap.ext_getElem? fun id => (each id).2
  exact ⟨bases, outputs, by rw [oneExecution, twoExecution, bases]⟩

end Runs

end Schedule

namespace Sample

open Workflows.Sample

def plainJob (id : String) (needs : List String) : PlannedJob where
  id
  baseId := id
  name := id
  definingWorkflowPath := ".github/workflows/ci.yml"
  needs
  needAliases := Std.ExtTreeMap.ofList (needs.map fun need => (need, need))
  condition := none
  runsOn := .string "macos-latest"
  reusableInputScopes := []
  reusableSecretScopes := []
  virtualJob := none
  matrix := ∅
  dynamicMatrix := none
  matrixFailFast := false
  matrixMaxParallel := none
  strategyJobIndex := none
  strategyJobTotal := none
  continueOnError := none
  timeoutMinutes := none
  permissions := .default
  concurrency := none
  concurrencyScopeIds := []
  concurrencyAcquire := []
  concurrencyRelease := []
  deploymentEnvironment := none
  environment := ∅
  outputs := ∅
  steps := []

/-- Two jobs that run at the same time, and one that needs both. -/
def forkPlan : ExecutionPlan where
  workflowName := "ci"
  workflowPath := ".github/workflows/ci.yml"
  concurrency := none
  jobs := [plainJob "lint" [], plainJob "test" [], plainJob "ship" ["lint", "test"]]

/-- The job `test` fails; each job hands on what it was started with. -/
def forkEvaluations : Evaluations Unit where
  emptyInputs := ()
  resolveReusableInputs _ _ := .ok ()
  containsStatusFunction _ := true
  evaluateCondition _ _ _ := .ok true
  expandMatrix _ _ := .ok []
  renderOutput _ _ _ value := .ok value
  executeJob job context := .ok {
    conclusion := if job.id = "test" then .failure else .success
    completedSteps := 1
    outputs := Std.ExtTreeMap.ofList (context.needs.map fun need => (need.alias_, need.result)) }

def ends (baseId : String) : PlanEvent where
  baseId
  instances := [{ index := 0 }]

theorem forkPlan_raceFree : RaceFree forkPlan := by
  have plain : ∀ job ∈ forkPlan.jobs, job.virtualJob = none ∧ job.matrixFailFast = false := by
    intro job member
    simp only [forkPlan, List.mem_cons, List.not_mem_nil, or_false] at member
    rcases member with rfl | rfl | rfl <;> exact ⟨rfl, rfl⟩
  intro baseId
  constructor
  case calls =>
    intro job member invocations maxParallel failFast isCall
    rw [(plain job (List.mem_filter.mp member).1).1] at isCall
    cases isCall
  case matrix =>
    intro job member fast
    rw [(plain job (List.mem_filter.mp member).1).2] at fast
    cases fast

theorem exists_of_isOk {outcome : Except String (PlanState × PlanExecution)}
    (isOk : outcome.isOk = true) : ∃ state lists, outcome = .ok (state, lists) := by
  cases outcome with
  | error failure => cases isOk
  | ok value => exact ⟨value.1, value.2, rfl⟩

/-- Both orders of the jobs `lint` and `test` end with the same results. -/
theorem forkPlan_orders_agree : ∃ one two lists,
    executePlan forkEvaluations forkPlan [ends "lint", ends "test", ends "ship"] =
      .ok (one, lists) ∧
    executePlan forkEvaluations forkPlan [ends "test", ends "lint", ends "ship"] =
      .ok (two, lists) ∧
    one.completed.bases = two.completed.bases ∧
      one.completed.outputs = two.completed.outputs := by
  obtain ⟨one, oneLists, oneRan⟩ := exists_of_isOk
    (show (executePlan forkEvaluations forkPlan [ends "lint", ends "test", ends "ship"]).isOk = true
      by decide)
  obtain ⟨two, twoLists, twoRan⟩ := exists_of_isOk
    (show (executePlan forkEvaluations forkPlan [ends "test", ends "lint", ends "ship"]).isOk = true
      by decide)
  obtain ⟨bases, outputs, lists⟩ := schedule_independent forkEvaluations forkPlan forkPlan_raceFree
    _ _ one two oneLists twoLists oneRan twoRan
  subst lists
  exact ⟨one, two, oneLists, oneRan, twoRan, bases, outputs⟩

end Sample

end GitZero.Agent
