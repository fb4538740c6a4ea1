/-
Module: GitZero.Proofs.PlanAccounting
Purpose: Every base of a plan waits, runs or has a conclusion, through every run of its loop, and
  what a base is started with is final.
Trusted boundary: none
Main exports: Completed.Kept, BasesAccounted, PlanOccurrence.Expanding, Extensible, Carried,
  bases_accounted, plan_returns_all
-/
import GitZero.Agent.PlanExecution
import GitZero.Lib.Table
import GitZero.Proofs.ScheduleIndependence
import GitZero.Proofs.TemplateNames

namespace GitZero.Agent

open Workflows Outcomes

section PlanAccounting

variable [Serde] {run : PlanRun} {plan : ExecutionPlan}

/-! ### The invariant -/

/-- The results so far stay. -/
structure Completed.Kept (before after : Completed) : Prop where
  bases : ∀ (id : String) (conclusion : JobConclusion), before.bases[id]? = some conclusion →
    after.bases[id]? = some conclusion
  outputs : ∀ (id : String) (outputs : BTreeMap String), before.outputs[id]? = some outputs →
    after.outputs[id]? = some outputs

omit [Serde] in
theorem Completed.Kept.refl (completed : Completed) : completed.Kept completed :=
  ⟨fun _ _ found => found, fun _ _ found => found⟩

omit [Serde] in
theorem Completed.Kept.trans {first second third : Completed} (front : first.Kept second)
    (back : second.Kept third) : first.Kept third :=
  ⟨fun id conclusion found => back.bases id conclusion (front.bases id conclusion found),
    fun id outputs found => back.outputs id outputs (front.outputs id outputs found)⟩

/-- A running base was started with the conclusions of all its needs, and they are final. -/
structure RunningBase.Given (base : RunningBase) (run : PlanRun) : Prop where
  needs : ∃ first, base.jobs.head? = some first ∧ first.baseId = base.baseId ∧
    ∀ dependency ∈ first.needs, dependency ∈ base.completed.bases
  kept : base.completed.Kept run.completed

/-- The bases of a plan, less those for which `free` holds, wait, run or have a conclusion. -/
structure AccountedBut (free : String → Prop) (run : PlanRun) : Prop where
  distinct : run.baseOrder.Nodup
  pendingSeen : ∀ id, id ∈ run.pendingBases → id ∈ run.baseOrder
  runningSeen : ∀ base ∈ run.runningBases, base.baseId ∈ run.baseOrder
  concludedSeen : ∀ id, id ∈ run.completed.bases → id ∈ run.baseOrder
  covered : run.cancellationError = none → ∀ id ∈ run.baseOrder, ¬ free id →
    id ∈ run.pendingBases ∨ (∃ base ∈ run.runningBases, base.baseId = id) ∨
      id ∈ run.completed.bases
  once : (run.runningBases.map (·.baseId)).Nodup
  notRunning : ∀ base ∈ run.runningBases,
    base.baseId ∉ run.pendingBases ∧ base.baseId ∉ run.completed.bases
  notConcluded : ∀ id, id ∈ run.pendingBases → id ∉ run.completed.bases
  outputs : ∀ id, id ∈ run.completed.outputs ↔ id ∈ run.completed.bases
  ordered : run.completionOrder.Nodup
  concluded : ∀ id, id ∈ run.completionOrder ↔ id ∈ run.completed.bases
  jobs : ∀ id, id ∈ run.pendingBases → ∃ job ∈ run.jobs, job.baseId = id
  given : ∀ base ∈ run.runningBases, base.Given run

/-- Every base waits, runs or has a conclusion, and only one of these. -/
abbrev BasesAccounted (run : PlanRun) : Prop := AccountedBut (fun _ => False) run

/-- An expansion brings its template again, and otherwise only bases that are new. -/
def PlanOccurrence.Renews (run : PlanRun) : PlanOccurrence → Prop
  | .ended last => ∀ base execution, run.running? last.baseId = some base →
      last.execution = .ok execution → execution.expandedJobs ≠ [] →
        (∃ job ∈ execution.expandedJobs, job.baseId = last.baseId) ∧
        ∀ job ∈ execution.expandedJobs, job.baseId ≠ last.baseId → job.baseId ∉ run.baseOrder
  | _ => True

/-- As in `execute_base_group`: only the template of a dynamic call returns jobs, and these are
its expansion by the combinations that its matrix evaluates to. -/
def PlanOccurrence.Expanding (run : PlanRun) : PlanOccurrence → Prop
  | .ended last => ∀ base execution, run.running? last.baseId = some base →
      last.execution = .ok execution → execution.expandedJobs ≠ [] →
        ∃ template call combinations, base.jobs = [template] ∧
          template.virtualJob = some (.reusableDynamicCall call) ∧
          expandTemplate template combinations call = .ok execution.expandedJobs
  | _ => True

/-! ### Starting -/

theorem job?_eq_some {baseId : String} {job : PlannedJob} (found : run.job? baseId = some job) :
    job ∈ run.jobs ∧ job.baseId = baseId := by
  refine ⟨List.mem_of_find?_eq_some found, ?_⟩
  simpa using List.find?_some found

theorem isReady_iff {baseId : String} :
    run.isReady baseId = true ↔ baseId ∈ run.pendingBases ∧
      reusableMatrixGateCanStart run.reusableMatrices baseId = true ∧
      ∃ job, run.job? baseId = some job ∧
        ∀ dependency ∈ job.needs, dependency ∈ run.completed.bases := by
  cases found : run.job? baseId with
  | none => simp [PlanRun.isReady, found]
  | some job => simp [PlanRun.isReady, found, and_assoc]

/-- What `startBase` relies on. -/
structure Startable (run : PlanRun) (baseId : String) : Prop where
  pending : baseId ∈ run.pendingBases
  needs : ∃ job, run.job? baseId = some job ∧
    ∀ dependency ∈ job.needs, dependency ∈ run.completed.bases

theorem AccountedBut.startBase {baseId : String} (accounted : BasesAccounted run)
    (startable : Startable run baseId) : BasesAccounted (run.startBase baseId) := by
  unfold PlanRun.startBase
  split
  · obtain ⟨job, found, satisfied⟩ := startable.needs
    have waiting := startable.pending
    have fresh : ∀ base ∈ run.runningBases, base.baseId ≠ baseId := fun base member same =>
      (accounted.notRunning base member).1 (same ▸ waiting)
    have first : (run.jobs.filter (·.baseId = baseId)).head? = some job := by
      rw [List.head?_filter]
      exact found
    constructor
    · exact accounted.distinct
    · intro id member
      exact accounted.pendingSeen id (Std.ExtTreeSet.mem_of_mem_erase member)
    · intro base member
      rcases List.mem_append.mp member with older | newest
      · exact accounted.runningSeen base older
      · rw [List.mem_singleton.mp newest]
        exact accounted.pendingSeen baseId waiting
    · exact accounted.concludedSeen
    · intro calm id seen _
      rcases accounted.covered calm id seen not_false with left | ⟨base, member, same⟩ | done
      · by_cases same : id = baseId
        · exact .inr (.inl ⟨_, List.mem_append_right _ List.mem_cons_self, same.symm⟩)
        · refine .inl (Std.ExtTreeSet.mem_erase.mpr ⟨?_, left⟩)
          simpa using fun equal => same equal.symm
      · exact .inr (.inl ⟨base, List.mem_append_left _ member, same⟩)
      · exact .inr (.inr done)
    · rw [List.map_append, List.nodup_append]
      refine ⟨accounted.once, List.nodup_singleton _, ?_⟩
      intro one oneIn two twoIn
      obtain ⟨base, member, rfl⟩ := List.mem_map.mp oneIn
      rw [List.map_singleton, List.mem_singleton] at twoIn
      rw [twoIn]
      exact fresh base member
    · intro base member
      rcases List.mem_append.mp member with older | newest
      · exact ⟨fun inside => (accounted.notRunning base older).1
          (Std.ExtTreeSet.mem_of_mem_erase inside), (accounted.notRunning base older).2⟩
      · rw [List.mem_singleton.mp newest]
        exact ⟨by simp, accounted.notConcluded baseId waiting⟩
    · intro id member
      exact accounted.notConcluded id (Std.ExtTreeSet.mem_of_mem_erase member)
    · exact accounted.outputs
    · exact accounted.ordered
    · exact accounted.concluded
    · intro id member
      exact accounted.jobs id (Std.ExtTreeSet.mem_of_mem_erase member)
    · intro base member
      rcases List.mem_append.mp member with older | newest
      · exact ⟨(accounted.given base older).needs, (accounted.given base older).kept⟩
      · rw [List.mem_singleton.mp newest]
        exact ⟨⟨job, first, (job?_eq_some found).2, satisfied⟩, .refl _⟩
  · exact accounted

theorem startBase_completed (run : PlanRun) (baseId : String) :
    (run.startBase baseId).completed = run.completed := by
  unfold PlanRun.startBase
  split <;> rfl

theorem startBase_jobs (run : PlanRun) (baseId : String) :
    (run.startBase baseId).jobs = run.jobs := by
  unfold PlanRun.startBase
  split <;> rfl

theorem Startable.startBase {baseId other : String} (startable : Startable run baseId)
    (differ : other ≠ baseId) : Startable (run.startBase other) baseId := by
  obtain ⟨job, found, satisfied⟩ := startable.needs
  refine ⟨?_, job, ?_, ?_⟩
  · unfold PlanRun.startBase
    split
    · exact Std.ExtTreeSet.mem_erase.mpr ⟨by simpa using differ, startable.pending⟩
    · exact startable.pending
  · rw [PlanRun.job?, startBase_jobs]
    exact found
  · rw [startBase_completed]
    exact satisfied

/-- What starting one base keeps, starting the ready bases keeps. -/
theorem startReady_induction {Inv : PlanRun → Prop}
    (keeps : ∀ (run : PlanRun) (baseId : String), Inv run → Startable run baseId →
      Inv (run.startBase baseId))
    (distinct : run.baseOrder.Nodup) (holds : Inv run) : Inv run.startReady := by
  have all : ∀ (ids : List String) (current : PlanRun), ids.Nodup →
      (∀ id ∈ ids, Startable current id) → Inv current →
        Inv (ids.foldl PlanRun.startBase current) := by
    intro ids
    induction ids with
    | nil => exact fun _ _ _ holds => holds
    | cons id ids inductionHypothesis =>
        intro current nodup startable holds
        obtain ⟨absent, nodup⟩ := List.nodup_cons.mp nodup
        refine inductionHypothesis _ nodup (fun other member => ?_)
          (keeps current id holds (startable id List.mem_cons_self))
        exact (startable other (List.mem_cons_of_mem _ member)).startBase
          fun same => absent (same ▸ member)
  refine all _ run (distinct.filter _) (fun id member => ?_) holds
  obtain ⟨waiting, _, needs⟩ := isReady_iff.mp (List.mem_filter.mp member).2
  exact ⟨waiting, needs⟩

theorem AccountedBut.startReady (accounted : BasesAccounted run) : BasesAccounted run.startReady :=
  startReady_induction (fun _ _ (held : BasesAccounted _) startable => held.startBase startable)
    accounted.distinct accounted

/-- What starting any base keeps, a round keeps. -/
theorem startRound_induction (Inv : PlanRun → Prop)
    (keeps : ∀ (run : PlanRun) (baseId : String), Inv run → Inv (run.startBase baseId))
    (holds : Inv run) : Inv run.startRound := by
  have all : ∀ (ids : List String) (current : PlanRun), Inv current →
      Inv (ids.foldl PlanRun.startBase current) := by
    intro ids
    induction ids with
    | nil => exact fun _ holds => holds
    | cons id ids inductionHypothesis =>
        exact fun current holds => inductionHypothesis _ (keeps current id holds)
  unfold PlanRun.startRound
  split
  · exact holds
  · exact all _ run holds

/-- A field that starting a base leaves alone. -/
theorem startRound_frame {α : Type} (field : PlanRun → α)
    (keeps : ∀ (run : PlanRun) (baseId : String), field (run.startBase baseId) = field run)
    (run : PlanRun) : field run.startRound = field run :=
  startRound_induction (fun current => field current = field run)
    (fun current baseId same => (keeps current baseId).trans same) rfl

/-- The head of the loop starts bases, and else writes only what the end of the loop needs. -/
theorem loopHead_induction (Inv : PlanRun → Prop)
    (starts : ∀ (run : PlanRun) (baseId : String), Inv run → Inv (run.startBase baseId))
    (aside : ∀ (run : PlanRun) activeConcurrencyScopes returned, Inv run →
      Inv { run with activeConcurrencyScopes, returned })
    (holds : Inv run) : Inv (run.loopHead plan) := by
  unfold PlanRun.loopHead
  split
  · have round := startRound_induction Inv starts holds
    unfold PlanRun.awaitNext
    split
    · exact aside run.startRound run.startRound.activeConcurrencyScopes _ round
    · exact round
  · unfold PlanRun.leaveLoop
    split
    · exact aside run run.activeConcurrencyScopes _ holds
    · exact aside run ∅ _ holds

/-- A change of fields that the accounting does not read. -/
structure SameAccounts (before after : PlanRun) : Prop where
  jobs : after.jobs = before.jobs
  baseOrder : after.baseOrder = before.baseOrder
  completed : after.completed = before.completed
  completionOrder : after.completionOrder = before.completionOrder
  pendingBases : after.pendingBases = before.pendingBases
  runningBases : after.runningBases = before.runningBases
  cancellationError : after.cancellationError = before.cancellationError

theorem AccountedBut.congr {free : String → Prop} {after : PlanRun}
    (accounted : AccountedBut free run) (same : SameAccounts run after) :
    AccountedBut free after := by
  obtain ⟨jobs, baseOrder, completed, completionOrder, pendingBases, runningBases,
    cancellationError⟩ := same
  constructor
  · rw [baseOrder]
    exact accounted.distinct
  · rw [pendingBases, baseOrder]
    exact accounted.pendingSeen
  · rw [runningBases, baseOrder]
    exact accounted.runningSeen
  · rw [completed, baseOrder]
    exact accounted.concludedSeen
  · rw [cancellationError, baseOrder, pendingBases, runningBases, completed]
    exact accounted.covered
  · rw [runningBases]
    exact accounted.once
  · rw [runningBases, pendingBases, completed]
    exact accounted.notRunning
  · rw [pendingBases, completed]
    exact accounted.notConcluded
  · rw [completed]
    exact accounted.outputs
  · rw [completionOrder]
    exact accounted.ordered
  · rw [completionOrder, completed]
    exact accounted.concluded
  · rw [pendingBases, jobs]
    exact accounted.jobs
  · intro base member
    rw [runningBases] at member
    exact ⟨(accounted.given base member).needs, completed ▸ (accounted.given base member).kept⟩

theorem AccountedBut.startRound (accounted : BasesAccounted run) :
    BasesAccounted run.startRound := by
  unfold PlanRun.startRound
  split
  · exact accounted
  · exact accounted.startReady

theorem awaitNext_same (run : PlanRun) : SameAccounts run run.awaitNext := by
  unfold PlanRun.awaitNext
  split <;> exact ⟨rfl, rfl, rfl, rfl, rfl, rfl, rfl⟩

theorem leaveLoop_same (run : PlanRun) : SameAccounts run (run.leaveLoop plan) := by
  unfold PlanRun.leaveLoop
  split <;> exact ⟨rfl, rfl, rfl, rfl, rfl, rfl, rfl⟩

theorem AccountedBut.loopHead (accounted : BasesAccounted run) :
    BasesAccounted (run.loopHead plan) := by
  unfold PlanRun.loopHead
  split
  · exact accounted.startRound.congr (awaitNext_same _)
  · exact accounted.congr (leaveLoop_same _)

theorem loopHead_completed (plan : ExecutionPlan) (run : PlanRun) :
    (run.loopHead plan).completed = run.completed := by
  unfold PlanRun.loopHead
  split
  · rw [(awaitNext_same _).completed, startRound_frame PlanRun.completed startBase_completed]
  · exact (leaveLoop_same _).completed

/-! ### Conclusions -/

theorem mem_conclude_bases {baseId id : String} {conclusion : JobConclusion}
    {outputs : BTreeMap String} :
    id ∈ (run.conclude baseId conclusion outputs).completed.bases ↔
      id = baseId ∨ id ∈ run.completed.bases := by
  change id ∈ run.completed.bases.insert baseId conclusion ↔ _
  rw [Std.ExtTreeMap.mem_insert, compare_eq_iff_eq, eq_comm]

theorem mem_conclude_outputs {baseId id : String} {conclusion : JobConclusion}
    {outputs : BTreeMap String} :
    id ∈ (run.conclude baseId conclusion outputs).completed.outputs ↔
      id = baseId ∨ id ∈ run.completed.outputs := by
  change id ∈ run.completed.outputs.insert baseId outputs ↔ _
  rw [Std.ExtTreeMap.mem_insert, compare_eq_iff_eq, eq_comm]

theorem conclude_kept (run : PlanRun) {baseId : String} (conclusion : JobConclusion)
    (outputs : BTreeMap String)
    (fresh : baseId ∉ run.completed.bases) (freshOutputs : baseId ∉ run.completed.outputs) :
    run.completed.Kept (run.conclude baseId conclusion outputs).completed := by
  constructor
  · intro id found known
    have differ : id ≠ baseId := by
      rintro rfl
      exact fresh (Std.ExtTreeMap.mem_iff_isSome_getElem?.mpr (by rw [known]; rfl))
    simpa [PlanRun.conclude, Std.ExtTreeMap.getElem?_insert, Ne.symm differ] using known
  · intro id found known
    have differ : id ≠ baseId := by
      rintro rfl
      exact freshOutputs (Std.ExtTreeMap.mem_iff_isSome_getElem?.mpr (by rw [known]; rfl))
    simpa [PlanRun.conclude, Std.ExtTreeMap.getElem?_insert, Ne.symm differ] using known

/-- The base that is unaccounted for gets its conclusion. -/
theorem AccountedBut.conclude {baseId : String} {conclusion : JobConclusion}
    {outputs : BTreeMap String} (accounted : AccountedBut (· = baseId) run)
    (seen : baseId ∈ run.baseOrder) (waiting : baseId ∉ run.pendingBases)
    (running : ∀ base ∈ run.runningBases, base.baseId ≠ baseId)
    (fresh : baseId ∉ run.completed.bases) :
    BasesAccounted (run.conclude baseId conclusion outputs) := by
  have freshOutputs := mt (accounted.outputs baseId).mp fresh
  constructor
  · exact accounted.distinct
  · exact accounted.pendingSeen
  · exact accounted.runningSeen
  · intro id member
    rcases mem_conclude_bases.mp member with rfl | older
    · exact seen
    · exact accounted.concludedSeen id older
  · intro calm id known _
    by_cases same : id = baseId
    · exact .inr (.inr (mem_conclude_bases.mpr (.inl same)))
    · rcases accounted.covered calm id known same with left | running | done
      · exact .inl left
      · exact .inr (.inl running)
      · exact .inr (.inr (mem_conclude_bases.mpr (.inr done)))
  · exact accounted.once
  · intro base member
    refine ⟨(accounted.notRunning base member).1, fun inside => ?_⟩
    rcases mem_conclude_bases.mp inside with same | older
    · exact running base member same
    · exact (accounted.notRunning base member).2 older
  · intro id member inside
    rcases mem_conclude_bases.mp inside with rfl | older
    · exact waiting member
    · exact accounted.notConcluded id member older
  · intro id
    rw [mem_conclude_bases, mem_conclude_outputs, accounted.outputs id]
  · refine List.nodup_append.mpr ⟨accounted.ordered, List.nodup_singleton _, ?_⟩
    intro one oneIn two twoIn
    rw [List.mem_singleton.mp twoIn]
    rintro rfl
    exact fresh ((accounted.concluded one).mp oneIn)
  · intro id
    rw [mem_conclude_bases, ← accounted.concluded id]
    simp [PlanRun.conclude, or_comm]
  · exact accounted.jobs
  · intro base member
    exact ⟨(accounted.given base member).needs,
      (accounted.given base member).kept.trans (conclude_kept _ _ _ fresh freshOutputs)⟩

/-- Taking a waiting base off leaves it unaccounted for. -/
theorem AccountedBut.withdraw {baseId : String} (accounted : BasesAccounted run) :
    AccountedBut (· = baseId) { run with pendingBases := run.pendingBases.erase baseId } := by
  constructor
  · exact accounted.distinct
  · exact fun id member => accounted.pendingSeen id (Std.ExtTreeSet.mem_of_mem_erase member)
  · exact accounted.runningSeen
  · exact accounted.concludedSeen
  · intro calm id seen other
    rcases accounted.covered calm id seen not_false with left | rest
    · exact .inl (Std.ExtTreeSet.mem_erase.mpr ⟨by simpa using Ne.symm other, left⟩)
    · exact .inr rest
  · exact accounted.once
  · exact fun base member => ⟨fun inside => (accounted.notRunning base member).1
      (Std.ExtTreeSet.mem_of_mem_erase inside), (accounted.notRunning base member).2⟩
  · exact fun id member => accounted.notConcluded id (Std.ExtTreeSet.mem_of_mem_erase member)
  · exact accounted.outputs
  · exact accounted.ordered
  · exact accounted.concluded
  · exact fun id member => accounted.jobs id (Std.ExtTreeSet.mem_of_mem_erase member)
  · exact fun base member =>
      ⟨(accounted.given base member).needs, (accounted.given base member).kept⟩

theorem AccountedBut.skipBase {baseId : String} (accounted : BasesAccounted run) :
    BasesAccounted (run.skipBase baseId) := by
  unfold PlanRun.skipBase
  split
  · next waits =>
      have waiting : baseId ∈ run.pendingBases := Std.ExtTreeSet.mem_iff_contains.mpr waits
      refine accounted.withdraw.conclude (accounted.pendingSeen baseId waiting) (by simp)
        (fun base member same => ?_) (accounted.notConcluded baseId waiting)
      exact (accounted.notRunning base member).1 (same ▸ waiting)
  · exact accounted

theorem skipBase_kept {baseId : String} (accounted : BasesAccounted run) :
    run.completed.Kept (run.skipBase baseId).completed := by
  unfold PlanRun.skipBase
  split
  · next waits =>
      have fresh := accounted.notConcluded baseId (Std.ExtTreeSet.mem_iff_contains.mpr waits)
      exact conclude_kept { run with pendingBases := _ } _ _ fresh
        (mt (accounted.outputs baseId).mp fresh)
  · exact .refl _

/-- The accounts are right again, and no result was lost on the way. -/
structure Carried (before after : PlanRun) : Prop where
  accounted : BasesAccounted after
  kept : before.completed.Kept after.completed

theorem Carried.trans {first second third : PlanRun} (front : Carried first second)
    (back : Carried second third) : Carried first third :=
  ⟨back.accounted, front.kept.trans back.kept⟩

theorem SameAccounts.carried {after : PlanRun} (same : SameAccounts run after)
    (accounted : BasesAccounted run) : Carried run after :=
  ⟨accounted.congr same, same.completed ▸ .refl _⟩

theorem skipInvocation_eq {invocation : String} {after : PlanRun}
    (ran : run.skipInvocation invocation = .ok after) : ∃ reported,
      run.reportGate invocation = .ok reported ∧
        after = (reported.baseOrder.filter (isWithin invocation)).foldl PlanRun.skipBase
          reported := by
  unfold PlanRun.skipInvocation at ran
  obtain ⟨reported, report, same⟩ := bind_eq_ok.mp ran
  cases same
  exact ⟨reported, report, rfl⟩

/-- What leaving out a base keeps, and reporting it; leaving out invocations and whole matrices
then keeps it too. -/
structure KeptBySkips (Inv : PlanRun → Prop) : Prop where
  bases : ∀ (run : PlanRun) (baseId : String), Inv run → Inv (run.skipBase baseId)
  reports : ∀ (run : PlanRun) (skipReports : List (String × String)), Inv run →
    Inv { run with skipReports }

namespace KeptBySkips

variable {Inv : PlanRun → Prop}

theorem skipBases (kept : KeptBySkips Inv) (ids : List String) (holds : Inv run) :
    Inv (ids.foldl PlanRun.skipBase run) := by
  induction ids generalizing run with
  | nil => exact holds
  | cons id ids inductionHypothesis => exact inductionHypothesis (kept.bases run id holds)

theorem reportGate (kept : KeptBySkips Inv) {invocation : String} {reported : PlanRun}
    (ran : run.reportGate invocation = .ok reported) (holds : Inv run) : Inv reported := by
  unfold PlanRun.reportGate at ran
  split at ran
  · split at ran
    · split at ran
      · cases ran
      · cases ran
        exact kept.reports run _ holds
    · cases ran
      exact holds
  · cases ran
    exact holds

theorem skipInvocation (kept : KeptBySkips Inv) {invocation : String} {after : PlanRun}
    (ran : run.skipInvocation invocation = .ok after) (holds : Inv run) : Inv after := by
  obtain ⟨reported, report, rfl⟩ := skipInvocation_eq ran
  exact kept.skipBases _ (kept.reportGate report holds)

theorem skipGroup (kept : KeptBySkips Inv) {groupId : String} {after : PlanRun}
    (ran : run.skipGroup groupId = .ok after) (holds : Inv run) : Inv after := by
  unfold PlanRun.skipGroup at ran
  split at ran
  · exact foldlM_ok_induction Inv (fun _ _ _ _ holds skipped => kept.skipInvocation skipped holds)
      holds ran
  · cases ran

theorem skipGroups (kept : KeptBySkips Inv) {groupIds : List String} {after : PlanRun}
    (ran : groupIds.foldlM PlanRun.skipGroup run = .ok after) (holds : Inv run) : Inv after :=
  foldlM_ok_induction Inv (fun _ _ _ _ holds skipped => kept.skipGroup skipped holds) holds ran

end KeptBySkips

theorem carried_keptBySkips (run : PlanRun) : KeptBySkips (Carried run) where
  bases _ _ carried := carried.trans ⟨carried.accounted.skipBase, skipBase_kept carried.accounted⟩
  reports _ _ carried :=
    carried.trans (SameAccounts.carried ⟨rfl, rfl, rfl, rfl, rfl, rfl, rfl⟩ carried.accounted)

/-! ### The end of a base -/

theorem eraseP_eq_filter {bases : List RunningBase} {baseId : String}
    (once : (bases.map (·.baseId)).Nodup) :
    bases.eraseP (·.baseId = baseId) = bases.filter (·.baseId ≠ baseId) := by
  induction bases with
  | nil => rfl
  | cons base bases inductionHypothesis =>
      obtain ⟨fresh, once⟩ := List.nodup_cons.mp once
      by_cases same : base.baseId = baseId
      · rw [List.eraseP_cons_of_pos (by simpa using same),
          List.filter_cons_of_neg (by simpa using same), List.filter_eq_self.mpr]
        intro other inside
        exact decide_eq_true fun equal =>
          fresh (List.mem_map.mpr ⟨other, inside, equal.trans same.symm⟩)
      · rw [List.eraseP_cons_of_neg (by simpa using same),
          List.filter_cons_of_pos (by simpa using same), inductionHypothesis once]

theorem mem_depart (accounted : BasesAccounted run) {baseId : String} {other : RunningBase} :
    other ∈ (run.depart baseId).runningBases ↔
      other ∈ run.runningBases ∧ other.baseId ≠ baseId := by
  change other ∈ run.runningBases.eraseP _ ↔ _
  rw [eraseP_eq_filter accounted.once, List.mem_filter, decide_eq_true_iff]

/-- The base that has ended is unaccounted for. -/
theorem AccountedBut.depart {base : RunningBase} (accounted : BasesAccounted run) :
    AccountedBut (· = base.baseId) (run.depart base.baseId) := by
  have stays : ∀ other ∈ (run.depart base.baseId).runningBases, other ∈ run.runningBases :=
    fun other inside => ((mem_depart accounted).mp inside).1
  constructor
  · exact accounted.distinct
  · exact accounted.pendingSeen
  · exact fun other inside => accounted.runningSeen other (stays other inside)
  · exact accounted.concludedSeen
  · intro calm id seen other
    rcases accounted.covered calm id seen not_false with left | ⟨running, inside, same⟩ | done
    · exact .inl left
    · exact .inr (.inl ⟨running, (mem_depart accounted).mpr ⟨inside, same.symm ▸ other⟩, same⟩)
    · exact .inr (.inr done)
  · exact accounted.once.sublist ((List.eraseP_sublist).map _)
  · exact fun other inside => accounted.notRunning other (stays other inside)
  · exact accounted.notConcluded
  · exact accounted.outputs
  · exact accounted.ordered
  · exact accounted.concluded
  · exact accounted.jobs
  · exact fun other inside => ⟨(accounted.given other (stays other inside)).needs,
      (accounted.given other (stays other inside)).kept⟩

/-- What the loop over the bases of an expansion does to the bases. -/
structure Sees (ids : List String) (before after : PlanRun) : Prop where
  distinct : before.baseOrder.Nodup → after.baseOrder.Nodup
  seen : ∀ id, id ∈ after.baseOrder ↔ id ∈ before.baseOrder ∨ id ∈ ids
  pending : ∀ id, id ∈ after.pendingBases ↔ id ∈ before.pendingBases ∨ id ∈ ids
  jobs : after.jobs = before.jobs
  completed : after.completed = before.completed
  completionOrder : after.completionOrder = before.completionOrder
  runningBases : after.runningBases = before.runningBases
  cancellationError : after.cancellationError = before.cancellationError

theorem sees_see (run : PlanRun) (id : String) : Sees [id] run (run.see id) := by
  constructor
  · intro distinct
    unfold PlanRun.see
    dsimp only
    split
    · exact distinct
    · next absent =>
        refine List.nodup_append.mpr ⟨distinct, List.nodup_singleton _,
          fun one oneIn two twoIn => ?_⟩
        rw [List.mem_singleton.mp twoIn]
        rintro rfl
        exact absent (List.contains_iff_mem.mpr oneIn)
  · intro other
    unfold PlanRun.see
    dsimp only
    split
    · next known =>
        rw [List.mem_singleton]
        refine ⟨.inl, fun either => either.elim (fun before => before) fun same => ?_⟩
        exact same ▸ List.contains_iff_mem.mp known
    · rw [List.mem_append]
  · intro other
    change other ∈ run.pendingBases.insert id ↔ _
    rw [Std.ExtTreeSet.mem_insert, compare_eq_iff_eq, List.mem_singleton, or_comm, eq_comm]
  all_goals rfl

theorem sees_foldl (ids : List String) (run : PlanRun) :
    Sees ids run (ids.foldl PlanRun.see run) := by
  induction ids generalizing run with
  | nil => exact ⟨fun distinct => distinct, by simp, by simp, rfl, rfl, rfl, rfl, rfl⟩
  | cons id ids inductionHypothesis =>
      have first := sees_see run id
      have others := inductionHypothesis (run.see id)
      constructor
      · exact fun distinct => others.distinct (first.distinct distinct)
      · intro other
        rw [List.foldl_cons, others.seen, first.seen, List.mem_singleton, List.mem_cons, or_assoc]
      · intro other
        rw [List.foldl_cons, others.pending, first.pending, List.mem_singleton, List.mem_cons,
          or_assoc]
      · exact others.jobs.trans first.jobs
      · exact others.completed.trans first.completed
      · exact others.completionOrder.trans first.completionOrder
      · exact others.runningBases.trans first.runningBases
      · exact others.cancellationError.trans first.cancellationError

/-- The bases of a list of jobs. -/
def basesOf (jobs : List PlannedJob) : List String := (jobs.map (·.baseId)).eraseDups

theorem mem_basesOf {jobs : List PlannedJob} {id : String} :
    id ∈ basesOf jobs ↔ ∃ job ∈ jobs, job.baseId = id := by
  simp [basesOf]

/-- `expand` in terms of the bases. -/
theorem sees_expand (run : PlanRun) (templateBase : String) (expandedJobs : List PlannedJob) :
    Sees (basesOf expandedJobs)
      { run with jobs := run.jobs.filter (·.baseId ≠ templateBase) ++ expandedJobs }
      (run.expand templateBase expandedJobs) := by
  have sees := sees_foldl (basesOf expandedJobs)
    { run with jobs := run.jobs.filter (·.baseId ≠ templateBase) ++ expandedJobs }
  exact ⟨sees.distinct, sees.seen, sees.pending, sees.jobs, sees.completed, sees.completionOrder,
    sees.runningBases, sees.cancellationError⟩

theorem AccountedBut.expand {templateBase : String} {expandedJobs : List PlannedJob}
    (accounted : AccountedBut (· = templateBase) run)
    (again : ∃ job ∈ expandedJobs, job.baseId = templateBase)
    (fresh : ∀ job ∈ expandedJobs, job.baseId ≠ templateBase → job.baseId ∉ run.baseOrder)
    (waiting : templateBase ∉ run.pendingBases)
    (running : ∀ base ∈ run.runningBases, base.baseId ≠ templateBase)
    (unconcluded : templateBase ∉ run.completed.bases) :
    Carried run (run.expand templateBase expandedJobs) := by
  have sees := sees_expand run templateBase expandedJobs
  have completed : (run.expand templateBase expandedJobs).completed = run.completed :=
    sees.completed
  have runningBases : (run.expand templateBase expandedJobs).runningBases = run.runningBases :=
    sees.runningBases
  have completionOrder : (run.expand templateBase expandedJobs).completionOrder =
    run.completionOrder := sees.completionOrder
  have cancellationError : (run.expand templateBase expandedJobs).cancellationError =
    run.cancellationError := sees.cancellationError
  have added : ∀ id, id ∈ basesOf expandedJobs → id = templateBase ∨ id ∉ run.baseOrder := by
    intro id member
    obtain ⟨job, inside, rfl⟩ := mem_basesOf.mp member
    exact Classical.or_iff_not_imp_left.mpr (fresh job inside)
  refine ⟨?_, completed ▸ .refl _⟩
  constructor
  · exact sees.distinct accounted.distinct
  · intro id member
    rcases (sees.pending id).mp member with older | newer
    · exact (sees.seen id).mpr (.inl (accounted.pendingSeen id older))
    · exact (sees.seen id).mpr (.inr newer)
  · intro base member
    exact (sees.seen _).mpr (.inl (accounted.runningSeen base (runningBases ▸ member)))
  · intro id member
    exact (sees.seen id).mpr (.inl (accounted.concludedSeen id (completed ▸ member)))
  · intro calm id known _
    by_cases newer : id ∈ basesOf expandedJobs
    · exact .inl ((sees.pending id).mpr (.inr newer))
    · have older := ((sees.seen id).mp known).resolve_right newer
      have other : id ≠ templateBase := by
        rintro rfl
        exact newer (mem_basesOf.mpr again)
      rcases accounted.covered (cancellationError ▸ calm) id older other with left | up | done
      · exact .inl ((sees.pending id).mpr (.inl left))
      · exact .inr (.inl (runningBases ▸ up))
      · exact .inr (.inr (completed ▸ done))
  · exact runningBases ▸ accounted.once
  · intro base member
    have inside : base ∈ run.runningBases := runningBases ▸ member
    refine ⟨fun waits => ?_, fun done => ?_⟩
    · rcases (sees.pending _).mp waits with older | newer
      · exact (accounted.notRunning base inside).1 older
      · rcases added _ newer with same | absent
        · exact running base inside same
        · exact absent (accounted.runningSeen base inside)
    · exact (accounted.notRunning base inside).2 (completed ▸ done)
  · intro id member done
    have concluded : id ∈ run.completed.bases := completed ▸ done
    rcases (sees.pending id).mp member with older | newer
    · exact accounted.notConcluded id older concluded
    · rcases added id newer with rfl | absent
      · exact unconcluded concluded
      · exact absent (accounted.concludedSeen id concluded)
  · exact completed ▸ accounted.outputs
  · exact completionOrder ▸ accounted.ordered
  · exact completionOrder ▸ completed ▸ accounted.concluded
  · intro id member
    rcases (sees.pending id).mp member with older | newer
    · obtain ⟨job, inside, rfl⟩ := accounted.jobs id older
      refine ⟨job, ?_, rfl⟩
      rw [sees.jobs]
      refine List.mem_append_left _ (List.mem_filter.mpr ⟨inside, ?_⟩)
      exact decide_eq_true fun same => waiting (same ▸ older)
    · obtain ⟨job, inside, rfl⟩ := mem_basesOf.mp newer
      exact ⟨job, sees.jobs ▸ List.mem_append_right _ inside, rfl⟩
  · intro base member
    have inside : base ∈ run.runningBases := runningBases ▸ member
    exact ⟨(accounted.given base inside).needs, completed ▸ (accounted.given base inside).kept⟩

theorem running?_eq_some {baseId : String} {base : RunningBase}
    (found : run.running? baseId = some base) : base ∈ run.runningBases ∧ base.baseId = baseId := by
  refine ⟨List.mem_of_find?_eq_some found, ?_⟩
  simpa using List.find?_some found

theorem depart_others {baseId : String} (accounted : BasesAccounted run) :
    ∀ other ∈ (run.depart baseId).runningBases, other.baseId ≠ baseId :=
  fun _ inside => ((mem_depart accounted).mp inside).2

theorem finishBase_carried {base : RunningBase} (execution : BaseExecution)
    (accounted : BasesAccounted run) (member : base ∈ run.runningBases) :
    Carried run ((run.depart base.baseId).finishBase base.baseId execution) := by
  obtain ⟨waiting, unconcluded⟩ := accounted.notRunning base member
  constructor
  · exact (accounted.depart.conclude (accounted.runningSeen base member) waiting
      (depart_others accounted) unconcluded).congr ⟨rfl, rfl, rfl, rfl, rfl, rfl, rfl⟩
  · exact conclude_kept run _ _ unconcluded (mt (accounted.outputs _).mp unconcluded)

/-- A base that ends keeps the accounts: they are those of the state in which it no longer
runs. -/
theorem completeBase_carried {base : RunningBase} {execution : GroupExecution} {after : PlanRun}
    (accounted : BasesAccounted run) (member : base ∈ run.runningBases)
    (renews : execution.expandedJobs ≠ [] →
      (∃ job ∈ execution.expandedJobs, job.baseId = base.baseId) ∧
      ∀ job ∈ execution.expandedJobs, job.baseId ≠ base.baseId → job.baseId ∉ run.baseOrder)
    (ran : (run.depart base.baseId).completeBase base.baseId execution = .ok after) :
    Carried run after := by
  have departed : AccountedBut (· = base.baseId) (run.depart base.baseId) := accounted.depart
  obtain ⟨waiting, unconcluded⟩ := accounted.notRunning base member
  unfold PlanRun.completeBase at ran
  split at ran
  · exact (carried_keptBySkips run).skipGroups ran (finishBase_carried _ accounted member)
  · next filled =>
      cases ran
      obtain ⟨again, fresh⟩ := renews (by simpa using filled)
      have grown := departed.expand again fresh waiting (depart_others accounted) unconcluded
      exact ⟨grown.accounted, grown.kept⟩

/-- The accounts do not cover a base that has failed while the run was cancelled. -/
theorem AccountedBut.cancelled {base : RunningBase} (accounted : BasesAccounted run)
    (error : String) :
    BasesAccounted { run.depart base.baseId with cancellationError := some error } := by
  have departed : AccountedBut (· = base.baseId) (run.depart base.baseId) := accounted.depart
  exact ⟨departed.distinct, departed.pendingSeen, departed.runningSeen, departed.concludedSeen,
    nofun, departed.once, departed.notRunning, departed.notConcluded, departed.outputs,
    departed.ordered, departed.concluded, departed.jobs,
    fun other inside => ⟨(departed.given other inside).needs, (departed.given other inside).kept⟩⟩

theorem Carried.loopHead {after : PlanRun} (carried : Carried run after) :
    Carried run (after.loopHead plan) :=
  ⟨carried.accounted.loopHead, loopHead_completed plan after ▸ carried.kept⟩

/-- The loop hands on what the base returned, or nothing when it failed behind a cancellation. -/
theorem settledExecution_ok {base : RunningBase} {ended : BaseEnd} {execution : GroupExecution}
    (settled : run.settledExecution base ended = .ok execution) :
    ended.execution = .ok execution ∨ execution.expandedJobs = [] := by
  unfold PlanRun.settledExecution at settled
  split at settled
  · split at settled
    · cases settled
      exact .inr rfl
    · cases settled
  · next same => exact .inl (same.trans settled)

/-! ### Runs -/

/-- A run that ends with an error leaves the loop as it is; the base that had the error no
longer runs. -/
structure Aborted (before after : PlanRun) : Prop where
  failed : ∃ error, after.returned = some (.error error)
  completed : after.completed = before.completed

theorem settleBase_carried {base : RunningBase} {last : BaseEnd} (accounted : BasesAccounted run)
    (found : run.running? last.baseId = some base)
    (renews : (PlanOccurrence.ended last).Renews run) :
    Aborted run (run.settleBase plan base last) ∨ Carried run (run.settleBase plan base last) := by
  obtain ⟨member, same⟩ := running?_eq_some found
  unfold PlanRun.settleBase
  split
  · split
    · exact .inr (Carried.loopHead ⟨accounted.cancelled _, .refl _⟩)
    · exact .inl ⟨⟨_, rfl⟩, rfl⟩
  · next execution settled =>
      split
      · next next ran =>
          refine .inr (Carried.loopHead (completeBase_carried accounted member ?_ ran))
          intro filled
          rcases settledExecution_ok settled with returned | empty
          · exact same ▸ renews base execution found returned filled
          · exact absurd empty filled
      · exact .inl ⟨⟨_, rfl⟩, rfl⟩

theorem react_carried {occurrence : PlanOccurrence} (accounted : BasesAccounted run)
    (renews : occurrence.Renews run) :
    Aborted run (run.react plan occurrence) ∨ Carried run (run.react plan occurrence) := by
  have unchanged : Carried run run := ⟨accounted, .refl _⟩
  cases occurrence with
  | cancel => exact .inr (SameAccounts.carried ⟨rfl, rfl, rfl, rfl, rfl, rfl, rfl⟩ accounted)
  | closeOutbound => exact .inr (SameAccounts.carried ⟨rfl, rfl, rfl, rfl, rfl, rfl, rfl⟩ accounted)
  | acquire baseId scope =>
      refine .inr ?_
      dsimp only [PlanRun.react]
      split
      · split
        · exact SameAccounts.carried ⟨rfl, rfl, rfl, rfl, rfl, rfl, rfl⟩ accounted
        · exact unchanged
      · exact unchanged
  | release baseId =>
      refine .inr ?_
      dsimp only [PlanRun.react]
      split
      · exact SameAccounts.carried ⟨rfl, rfl, rfl, rfl, rfl, rfl, rfl⟩ accounted
      · exact unchanged
  | ended last =>
      dsimp only [PlanRun.react]
      split
      · next base found => exact settleBase_carried accounted found renews
      · exact .inr unchanged

theorem begin_accounted (plan : ExecutionPlan) (cancelled : Bool) :
    BasesAccounted (beginPlan plan cancelled) := by
  refine AccountedBut.loopHead ?_
  have waiting : ∀ id, id ∈ (Std.ExtTreeSet.ofList (baseOrder plan) : BTreeSet) ↔
      id ∈ baseOrder plan := fun id => by
    rw [Std.ExtTreeSet.mem_ofList, List.contains_iff_mem]
  constructor
  · exact Table.nodup_eraseDups _
  · exact fun id member => (waiting id).mp member
  · exact fun base member => nomatch member
  · exact fun id member => absurd member Std.ExtTreeMap.not_mem_empty
  · exact fun _ id seen _ => .inl ((waiting id).mpr seen)
  · exact List.nodup_nil
  · exact fun base member => nomatch member
  · exact fun id _ => Std.ExtTreeMap.not_mem_empty
  · exact fun id => by simp
  · exact List.nodup_nil
  · exact fun id => by simp
  · exact fun id member => mem_basesOf.mp ((waiting id).mp member)
  · exact fun base member => nomatch member

/-! ### What a plan returns -/

theorem startBase_returned (run : PlanRun) (baseId : String) :
    (run.startBase baseId).returned = run.returned := by
  unfold PlanRun.startBase
  split <;> rfl

/-- A field that skipping leaves alone. -/
structure UntouchedBySkips {α : Type} (field : PlanRun → α) : Prop where
  bases : ∀ (run : PlanRun) (baseId : String), field (run.skipBase baseId) = field run
  reports : ∀ (run : PlanRun) (skipReports : List (String × String)),
    field { run with skipReports } = field run

theorem UntouchedBySkips.kept {α : Type} {field : PlanRun → α}
    (untouched : UntouchedBySkips field) (run : PlanRun) :
    KeptBySkips fun current => field current = field run where
  bases current baseId same := (untouched.bases current baseId).trans same
  reports current skipReports same := (untouched.reports current skipReports).trans same

theorem UntouchedBySkips.skipGroup {α : Type} {field : PlanRun → α}
    (untouched : UntouchedBySkips field) {groupId : String} {after : PlanRun}
    (ran : run.skipGroup groupId = .ok after) : field after = field run :=
  (untouched.kept run).skipGroup ran rfl

theorem UntouchedBySkips.skipGroups {α : Type} {field : PlanRun → α}
    (untouched : UntouchedBySkips field) {groupIds : List String} {after : PlanRun}
    (ran : groupIds.foldlM PlanRun.skipGroup run = .ok after) : field after = field run :=
  (untouched.kept run).skipGroups ran rfl

theorem untouched_returned : UntouchedBySkips PlanRun.returned where
  bases run baseId := by
    unfold PlanRun.skipBase
    split <;> rfl
  reports _ _ := rfl

theorem expand_returned (run : PlanRun) (templateBase : String) (expandedJobs : List PlannedJob) :
    (run.expand templateBase expandedJobs).returned = run.returned := by
  have all : ∀ (ids : List String) (current : PlanRun),
      (ids.foldl PlanRun.see current).returned = current.returned := by
    intro ids
    induction ids with
    | nil => exact fun _ => rfl
    | cons id ids inductionHypothesis => exact fun current => inductionHypothesis (current.see id)
  exact all _ { run with jobs := _ }

theorem completeBase_returned {baseId : String} {execution : GroupExecution} {after : PlanRun}
    (ran : run.completeBase baseId execution = .ok after) : after.returned = run.returned := by
  unfold PlanRun.completeBase at ran
  split at ran
  · have same := untouched_returned.skipGroups ran
    exact same
  · cases ran
    exact expand_returned run _ _

/-- The results that a plan returns are those of all its bases. -/
def Whole (plan : ExecutionPlan) (run : PlanRun) : Prop :=
  ∀ execution, run.returned = some (.ok execution) →
    execution = run.planExecution plan ∧ run.baseOrder.length ≤ run.completed.bases.size

theorem whole_of_none (still : run.returned = none) : Whole plan run :=
  fun _ returned => nomatch still.symm.trans returned

theorem loopHead_whole (still : run.returned = none) : Whole plan (run.loopHead plan) := by
  have started : run.startRound.returned = none :=
    (startRound_frame PlanRun.returned startBase_returned run).trans still
  unfold PlanRun.loopHead
  split
  · unfold PlanRun.awaitNext
    split
    · exact fun _ returned => nomatch returned
    · exact whole_of_none started
  · next reached =>
      unfold PlanRun.leaveLoop
      split
      · intro execution returned
        cases returned
        exact ⟨rfl, Nat.le_of_not_lt reached⟩
      · exact fun _ returned => nomatch returned

theorem settleBase_whole {base : RunningBase} {last : BaseEnd} (still : run.returned = none) :
    Whole plan (run.settleBase plan base last) := by
  unfold PlanRun.settleBase
  split
  · split
    · exact loopHead_whole still
    · exact fun _ returned => nomatch returned
  · split
    · next ran => exact loopHead_whole ((completeBase_returned ran).trans still)
    · exact fun _ returned => nomatch returned

theorem react_whole {occurrence : PlanOccurrence} (still : run.returned = none) :
    Whole plan (run.react plan occurrence) := by
  cases occurrence with
  | cancel | closeOutbound => exact whole_of_none still
  | acquire baseId scope =>
      dsimp only [PlanRun.react]
      split
      · split <;> exact whole_of_none still
      · exact whole_of_none still
  | release baseId =>
      dsimp only [PlanRun.react]
      split <;> exact whole_of_none still
  | ended last =>
      dsimp only [PlanRun.react]
      split
      · exact settleBase_whole still
      · exact whole_of_none still

/-! ### Expansions take names of their own -/

/-- No base stands under a template that the run holds, and running bases have jobs of the run. -/
structure Extensible (run : PlanRun) : Prop where
  expandable : Expandable run.jobs
  known : ∀ id, id ∈ run.baseOrder ↔ ∃ job ∈ run.jobs, job.baseId = id
  running : ∀ base ∈ run.runningBases, ∀ job ∈ base.jobs,
    job ∈ run.jobs ∧ job.baseId = base.baseId

theorem Extensible.congr {after : PlanRun} (extensible : Extensible run)
    (jobs : after.jobs = run.jobs) (baseOrder : after.baseOrder = run.baseOrder)
    (running : ∀ base ∈ after.runningBases, base ∈ run.runningBases) : Extensible after := by
  refine ⟨jobs ▸ extensible.expandable, ?_, ?_⟩
  · rw [jobs, baseOrder]
    exact extensible.known
  · rw [jobs]
    exact fun base member => extensible.running base (running base member)

theorem Extensible.startBase (extensible : Extensible run) (baseId : String) :
    Extensible (run.startBase baseId) := by
  unfold PlanRun.startBase
  split
  · refine ⟨extensible.expandable, extensible.known, ?_⟩
    intro base member job inside
    rcases List.mem_append.mp member with older | newest
    · exact extensible.running base older job inside
    · rw [List.mem_singleton.mp newest] at inside ⊢
      obtain ⟨inJobs, same⟩ := List.mem_filter.mp inside
      exact ⟨inJobs, of_decide_eq_true same⟩
  · exact extensible

theorem Extensible.loopHead (extensible : Extensible run) : Extensible (run.loopHead plan) :=
  loopHead_induction Extensible (fun _ baseId holds => holds.startBase baseId)
    (fun _ _ _ holds => holds.congr rfl rfl fun _ member => member) extensible

theorem Extensible.depart (extensible : Extensible run) (baseId : String) :
    Extensible (run.depart baseId) :=
  extensible.congr rfl rfl fun _ inside => List.mem_of_mem_eraseP inside

theorem Extensible.expand {template : PlannedJob} {call : PlannedDynamicReusableCall}
    {combinations : List (BTreeMap Json)} {expandedJobs : List PlannedJob}
    (extensible : Extensible run) (member : template ∈ run.jobs)
    (isCall : template.virtualJob = some (.reusableDynamicCall call))
    (ran : expandTemplate template combinations call = .ok expandedJobs)
    (others : ∀ base ∈ run.runningBases, base.baseId ≠ template.baseId) :
    Extensible (run.expand template.baseId expandedJobs) := by
  obtain ⟨expandable, ⟨again, inExpanded, isBase⟩, _⟩ :=
    extensible.expandable.replaceTemplate member isCall ran
  have sees := sees_expand run template.baseId expandedJobs
  have jobs : (run.expand template.baseId expandedJobs).jobs =
      replaceTemplate run.jobs template expandedJobs := sees.jobs
  refine ⟨jobs ▸ expandable, fun id => ?_, fun base inside job isJob => ?_⟩
  · rw [sees.seen, jobs, mem_basesOf]
    constructor
    · rintro (older | ⟨job, inside, rfl⟩)
      · by_cases same : id = template.baseId
        · exact ⟨again, List.mem_append_right _ inExpanded, isBase.trans same.symm⟩
        · obtain ⟨job, inside, rfl⟩ := (extensible.known id).mp older
          exact ⟨job, List.mem_append_left _ (List.mem_filter.mpr ⟨inside, decide_eq_true same⟩),
            rfl⟩
      · exact ⟨job, List.mem_append_right _ inside, rfl⟩
    · rintro ⟨job, inside, rfl⟩
      rcases List.mem_append.mp inside with older | newer
      · exact .inl ((extensible.known _).mpr ⟨job, List.mem_of_mem_filter older, rfl⟩)
      · exact .inr ⟨job, newer, rfl⟩
  · have isRunning : base ∈ run.runningBases := sees.runningBases ▸ inside
    obtain ⟨inJobs, same⟩ := extensible.running base isRunning job isJob
    refine ⟨jobs ▸ List.mem_append_left _ (List.mem_filter.mpr ⟨inJobs, ?_⟩), same⟩
    exact decide_eq_true fun equal => others base isRunning (same.symm.trans equal)

theorem untouched_jobs : UntouchedBySkips PlanRun.jobs where
  bases run baseId := by
    unfold PlanRun.skipBase
    split <;> rfl
  reports _ _ := rfl

theorem untouched_baseOrder : UntouchedBySkips PlanRun.baseOrder where
  bases run baseId := by
    unfold PlanRun.skipBase
    split <;> rfl
  reports _ _ := rfl

theorem untouched_runningBases : UntouchedBySkips PlanRun.runningBases where
  bases run baseId := by
    unfold PlanRun.skipBase
    split <;> rfl
  reports _ _ := rfl

theorem Extensible.settleBase {base : RunningBase} {last : BaseEnd} (extensible : Extensible run)
    (accounted : BasesAccounted run) (found : run.running? last.baseId = some base)
    (expanding : (PlanOccurrence.ended last).Expanding run) :
    Extensible (run.settleBase plan base last) := by
  have departed := extensible.depart base.baseId
  have aside : ∀ (cancellationError : Option String) returned, Extensible
      { run.depart base.baseId with cancellationError, returned } :=
    fun _ _ => departed.congr rfl rfl fun _ member => member
  unfold PlanRun.settleBase
  split
  · split
    · exact (aside _ _).loopHead
    · exact aside _ _
  · next execution settled =>
      split
      · next next ran =>
          refine Extensible.loopHead ?_
          unfold PlanRun.completeBase at ran
          split at ran
          · have jobs := untouched_jobs.skipGroups ran
            have seen := untouched_baseOrder.skipGroups ran
            have bases := untouched_runningBases.skipGroups ran
            exact departed.congr jobs seen fun _ member => bases ▸ member
          · next filled =>
              cases ran
              have some : execution.expandedJobs ≠ [] := by simpa using filled
              have returned := (settledExecution_ok settled).resolve_right some
              obtain ⟨template, call, combinations, jobs, isCall, expanded⟩ :=
                expanding base execution found returned some
              obtain ⟨inJobs, same⟩ := extensible.running base (running?_eq_some found).1 template
                (jobs ▸ List.mem_cons_self)
              rw [← same] at departed ⊢
              exact departed.expand inJobs isCall expanded fun other inside =>
                depart_others accounted other inside
      · exact aside _ _

theorem Extensible.react {occurrence : PlanOccurrence} (extensible : Extensible run)
    (accounted : BasesAccounted run) (expanding : occurrence.Expanding run) :
    Extensible (run.react plan occurrence) := by
  have aside : ∀ activeConcurrencyScopes cancelled outboundClosed, Extensible
      { run with activeConcurrencyScopes, cancelled, outboundClosed } :=
    fun _ _ _ => extensible.congr rfl rfl fun _ member => member
  cases occurrence with
  | cancel | closeOutbound => exact aside _ _ _
  | acquire baseId scope =>
      dsimp only [PlanRun.react]
      split
      · split
        · exact aside _ _ _
        · exact extensible
      · exact extensible
  | release baseId =>
      dsimp only [PlanRun.react]
      split
      · exact aside _ _ _
      · exact extensible
  | ended last =>
      dsimp only [PlanRun.react]
      split
      · next base found => exact extensible.settleBase accounted found expanding
      · exact extensible

theorem Extensible.begin (expandable : Expandable plan.jobs) (cancelled : Bool) :
    Extensible (beginPlan plan cancelled) :=
  Extensible.loopHead ⟨expandable, fun _ => mem_basesOf, fun _ member => nomatch member⟩

/-- What an expansion brings beside its template stands under it, and is new for that. -/
theorem Extensible.renews {occurrence : PlanOccurrence} (extensible : Extensible run)
    (expanding : occurrence.Expanding run) : occurrence.Renews run := by
  cases occurrence with
  | ended last =>
      intro base execution found returned filled
      obtain ⟨template, call, combinations, jobs, isCall, ran⟩ :=
        expanding base execution found returned filled
      obtain ⟨member, isLast⟩ := running?_eq_some found
      obtain ⟨inJobs, isBase⟩ := extensible.running base member template
        (jobs ▸ List.mem_cons_self)
      obtain ⟨_, again, bases⟩ := extensible.expandable.replaceTemplate inJobs isCall ran
      rw [← isLast, ← isBase]
      refine ⟨again, fun job inside other seen => ?_⟩
      rcases bases job inside with same | ⟨inner, isUnder⟩
      · exact other same
      · obtain ⟨known, inKnown, same⟩ := (extensible.known job.baseId).mp seen
        exact extensible.expandable.apart ⟨template, inJobs, rfl, isCall⟩ inKnown inner
          (same.trans isUnder)
  | _ => exact trivial

/-! ### Runs of the loop -/

/-- The books of a loop: right as long as it has not failed, and complete when it returns. -/
structure Bookkept (plan : ExecutionPlan) (run : PlanRun) : Prop where
  accounted : (∃ error, run.returned = some (.error error)) ∨ BasesAccounted run
  extensible : Extensible run
  whole : Whole plan run

theorem Bookkept.begin (expandable : Expandable plan.jobs) (cancelled : Bool) :
    Bookkept plan (beginPlan plan cancelled) :=
  ⟨.inr (begin_accounted plan cancelled), .begin expandable cancelled, loopHead_whole rfl⟩

theorem Bookkept.advance {occurrence : PlanOccurrence} (bookkept : Bookkept plan run)
    (expanding : occurrence.Expanding run) :
    Bookkept plan (planAdvance plan run occurrence) ∧
      run.completed.Kept (planAdvance plan run occurrence).completed := by
  unfold planAdvance
  split
  · exact ⟨bookkept, .refl _⟩
  · next waits =>
      have still : run.returned = none := Option.not_isSome_iff_eq_none.mp waits
      have accounted := bookkept.accounted.resolve_left
        fun ⟨error, failed⟩ => nomatch still.symm.trans failed
      have extensible : Extensible (run.react plan occurrence) :=
        bookkept.extensible.react accounted expanding
      rcases react_carried accounted (bookkept.extensible.renews expanding) with aborted | carried
      · exact ⟨⟨.inl aborted.failed, extensible, react_whole still⟩, aborted.completed ▸ .refl _⟩
      · exact ⟨⟨.inr carried.accounted, extensible, react_whole still⟩, carried.kept⟩

theorem bookkept_run (expandable : Expandable plan.jobs) (cancelled : Bool)
    {occurrences : List PlanOccurrence}
    (expanding : Machine.Along (planAdvance plan) (fun run occurrence => occurrence.Expanding run)
      (beginPlan plan cancelled) occurrences) :
    Bookkept plan (executePlanInner plan cancelled occurrences) :=
  Machine.Along.invariant (fun _ _ bookkept expanding => (bookkept.advance expanding).1)
    (.begin expandable cancelled) expanding

theorem completed_kept_run {occurrences : List PlanOccurrence} (bookkept : Bookkept plan run)
    (expanding : Machine.Along (planAdvance plan) (fun run occurrence => occurrence.Expanding run)
      run occurrences) :
    run.completed.Kept (Machine.run (planAdvance plan) run occurrences).completed := by
  induction occurrences generalizing run with
  | nil => exact .refl _
  | cons occurrence occurrences inductionHypothesis =>
      have first := bookkept.advance expanding.1
      exact first.2.trans (inductionHypothesis first.1 expanding.2)

/-- In every run of a plan that has not failed, each base waits, runs or has a conclusion, and
only one of these; a running base was started with the conclusions of all its needs; and a
conclusion, with its outputs, is final, so that a base that has one does not run again.  The plan
is one in which nothing stands under a template, as in all plans that are linked from workflows
whose job ids are GitHub identifiers (`compileWithReusables_expandable`). -/
theorem bases_accounted (plan : ExecutionPlan) (expandable : Expandable plan.jobs)
    (cancelled : Bool) (occurrences later : List PlanOccurrence)
    (expanding : Machine.Along (planAdvance plan) (fun run occurrence => occurrence.Expanding run)
      (beginPlan plan cancelled) (occurrences ++ later)) :
    ((∃ error, (executePlanInner plan cancelled occurrences).returned = some (.error error)) ∨
        BasesAccounted (executePlanInner plan cancelled occurrences)) ∧
      (executePlanInner plan cancelled occurrences).completed.Kept
        (executePlanInner plan cancelled (occurrences ++ later)).completed := by
  obtain ⟨early, late⟩ := Machine.Along.append.mp expanding
  have bookkept := bookkept_run expandable cancelled early
  refine ⟨bookkept.accounted, ?_⟩
  have kept := completed_kept_run bookkept late
  rwa [executePlanInner, executePlanInner, Machine.run_append] at *

omit [Serde] in
theorem mem_of_size_le {completed : BTreeMap JobConclusion} {ids : List String}
    (within : ∀ id, id ∈ completed → id ∈ ids) (size : ids.length ≤ completed.size) {id : String}
    (member : id ∈ ids) : id ∈ completed := by
  have keys : completed.keys.Subperm ids :=
    Std.ExtTreeMap.nodup_keys.subperm fun key inside =>
      within key (Std.ExtTreeMap.mem_keys.mp inside)
  have perm := keys.perm_of_length_le (by rwa [Std.ExtTreeMap.length_keys])
  exact Std.ExtTreeMap.mem_keys.mp (perm.mem_iff.mpr member)

/-- A plan that returns a result has a conclusion for every base, has none that waits or runs, and
each base once in the order of completion; the lists that it returns are those of the
conclusions. -/
theorem plan_returns_all (plan : ExecutionPlan) (expandable : Expandable plan.jobs)
    (cancelled : Bool) (occurrences : List PlanOccurrence)
    (expanding : Machine.Along (planAdvance plan) (fun run occurrence => occurrence.Expanding run)
      (beginPlan plan cancelled) occurrences)
    {execution : PlanExecution}
    (returned : (executePlanInner plan cancelled occurrences).returned = some (.ok execution)) :
    let run := executePlanInner plan cancelled occurrences
    execution = run.planExecution plan ∧ run.pendingBases = ∅ ∧ run.runningBases = [] ∧
      run.completionOrder.Perm run.baseOrder ∧ ∀ id ∈ run.baseOrder, id ∈ run.completed.bases := by
  intro run
  have bookkept := bookkept_run expandable cancelled expanding
  obtain ⟨same, size⟩ := bookkept.whole execution returned
  have accounted : BasesAccounted run := bookkept.accounted.resolve_left
    fun ⟨error, failed⟩ => nomatch failed.symm.trans returned
  have all : ∀ id ∈ run.baseOrder, id ∈ run.completed.bases := fun id =>
    mem_of_size_le accounted.concludedSeen size
  refine ⟨same, ?_, ?_, ?_, all⟩
  · refine Std.ExtTreeSet.eq_empty_iff_forall_not_mem.mpr fun id waits => ?_
    exact accounted.notConcluded id waits (all id (accounted.pendingSeen id waits))
  · refine List.eq_nil_iff_forall_not_mem.mpr fun base runs => ?_
    exact (accounted.notRunning base runs).2 (all _ (accounted.runningSeen base runs))
  · refine (List.perm_ext_iff_of_nodup accounted.ordered accounted.distinct).mpr fun id => ?_
    rw [accounted.concluded]
    exact ⟨accounted.concludedSeen id, all id⟩

end PlanAccounting

namespace Sample

open Workflows.Sample

/-- A workflow with one job, called for each combination of a matrix that `build` hands on. -/
def unitCall : PlannedDynamicReusableCall where
  calledPlan := { forkPlan with jobs := [plainJob "unit" []] }
  inputs := ∅
  secrets := {}
  outputs := ∅

def callTemplate : PlannedJob := { plainJob "call" ["build"] with
  virtualJob := some (.reusableDynamicCall unitCall)
  dynamicMatrix := some (.string "needs.build.outputs.units") }

def callPlan : ExecutionPlan := { forkPlan with jobs := [plainJob "build" [], callTemplate] }

/-- The jobs that take the place of the template when its matrix has one combination. -/
def callExpansion : List PlannedJob :=
  (expandTemplate callTemplate [∅] unitCall).toOption.getD []

def succeeds (baseId : String) (expandedJobs : List PlannedJob) : PlanOccurrence :=
  .ended {
    baseId
    execution := .ok { conclusion := .success, completedSteps := 1, outputs := ∅, expandedJobs } }

def callStarts : List PlanOccurrence := [succeeds "build" [], succeeds "call" callExpansion]

def callEnds : List PlanOccurrence :=
  [succeeds "call::matrix-1::gate" [], succeeds "call::matrix-1::unit" [],
    succeeds "call::matrix-1" [], succeeds "call" []]

theorem callExpansion_ran : expandTemplate callTemplate [∅] unitCall = .ok callExpansion := by
  have ok : (expandTemplate callTemplate [∅] unitCall).toOption.isSome := by decide
  unfold callExpansion
  cases ran : expandTemplate callTemplate [∅] unitCall with
  | ok jobs => rfl
  | error error => exact absurd ok (by simp [ran, Except.toOption])

theorem callPlan_expandable : Expandable callPlan.jobs := by
  have isCall : ∀ {name call}, IsTemplate callPlan.jobs name call →
      name = "call" ∧ call = unitCall := by
    rintro name call ⟨job, member, rfl, isCall⟩
    rcases List.mem_cons.mp member with rfl | member
    · cases isCall
    · cases List.mem_singleton.mp member
      cases isCall
      exact ⟨rfl, rfl⟩
  constructor
  · intro name call isTemplate
    exact (isCall isTemplate).1 ▸ ⟨"cal".toList, 'l', rfl, by decide⟩
  · intro name call isTemplate job member inner
    rw [(isCall isTemplate).1]
    rcases List.mem_cons.mp member with rfl | member
    · exact Plain.ne_under ⟨by decide, by decide⟩ "call" inner
    · cases List.mem_singleton.mp member
      exact fun same => under_ne "call" inner same.symm
  · intro name call isTemplate
    rw [(isCall isTemplate).2]
    refine .of_plain fun _ _ ⟨job, member, _, isCall⟩ => ?_
    cases List.mem_singleton.mp member
    cases isCall

theorem expanding_of_plain (run : PlanRun) (baseId : String) :
    (succeeds baseId []).Expanding run := by
  intro base execution _ same filled
  cases same
  exact absurd rfl filled

theorem callPlan_expanding : Machine.Along (planAdvance callPlan)
    (fun run occurrence => occurrence.Expanding run) (beginPlan callPlan false)
    (callStarts ++ callEnds) := by
  refine ⟨expanding_of_plain _ _, ?_, expanding_of_plain _ _, expanding_of_plain _ _,
    expanding_of_plain _ _, expanding_of_plain _ _, trivial⟩
  intro base execution found same _
  cases same
  cases found
  exact ⟨callTemplate, unitCall, [∅], rfl, rfl, callExpansion_ran⟩

/-- The accounts are right when the call has been expanded, and no conclusion is lost later. -/
theorem callPlan_accounted :
    ((∃ error, (executePlanInner callPlan false callStarts).returned = some (.error error)) ∨
        BasesAccounted (executePlanInner callPlan false callStarts)) ∧
      (executePlanInner callPlan false callStarts).completed.Kept
        (executePlanInner callPlan false (callStarts ++ callEnds)).completed :=
  bases_accounted callPlan callPlan_expandable false callStarts callEnds callPlan_expanding

theorem callPlan_returns :
    (executePlanInner callPlan false (callStarts ++ callEnds)).returned = some (.ok {
      failedJobs := [], timedOutJobs := [], cancelledJobs := [] }) := by
  decide

theorem callPlan_returns_all :
    let run := executePlanInner callPlan false (callStarts ++ callEnds)
    { failedJobs := [], timedOutJobs := [], cancelledJobs := [] } = run.planExecution callPlan ∧
      run.pendingBases = ∅ ∧ run.runningBases = [] ∧ run.completionOrder.Perm run.baseOrder ∧
      ∀ id ∈ run.baseOrder, id ∈ run.completed.bases :=
  plan_returns_all callPlan callPlan_expandable false (callStarts ++ callEnds) callPlan_expanding
    callPlan_returns

end Sample

end GitZero.Agent
