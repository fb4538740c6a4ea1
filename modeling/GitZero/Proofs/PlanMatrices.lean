/-
Module: GitZero.Proofs.PlanMatrices
Purpose: Matrices of reusable calls over whole runs: how many invocations are active, and what a
  failed invocation does to those that have not started.
Trusted boundary: none
Main exports: ReusableMatrixRuntime.Bounded, ReusableMatrixRuntime.Advances, matrices_bounded,
  fail_fast_skips
-/
import GitZero.Proofs.PlanAccounting
import GitZero.Lib.OrderedMaps

namespace GitZero.Agent

open Workflows Outcomes

section PlanMatrices

/-! ### One matrix -/

/-- At most `maxParallel` invocations are active, all of them started ones. -/
structure ReusableMatrixRuntime.Bounded (group : ReusableMatrixRuntime) : Prop where
  parallel : group.active.size ≤ group.maxParallel
  started : ∀ invocation ∈ group.active, invocation ∈ group.started
  invocations : ∀ invocation ∈ group.started, invocation ∈ group.invocations
  cancelled : group.cancelled = group.failed
  failFast : group.failed = true → group.failFast = true

/-- A matrix goes on: once it has failed, it starts nothing more. -/
structure ReusableMatrixRuntime.Advances (before after : ReusableMatrixRuntime) : Prop where
  invocations : after.invocations = before.invocations
  maxParallel : after.maxParallel = before.maxParallel
  failFast : after.failFast = before.failFast
  started : ∀ invocation ∈ before.started, invocation ∈ after.started
  failed : before.failed = true → after.failed = true ∧ after.started = before.started ∧
    ∀ invocation ∈ after.active, invocation ∈ before.active

theorem ReusableMatrixRuntime.Advances.refl (group : ReusableMatrixRuntime) :
    group.Advances group :=
  ⟨rfl, rfl, rfl, fun _ member => member, fun failed => ⟨failed, rfl, fun _ member => member⟩⟩

theorem ReusableMatrixRuntime.Advances.trans {first second third : ReusableMatrixRuntime}
    (front : first.Advances second) (back : second.Advances third) : first.Advances third := by
  refine ⟨back.invocations.trans front.invocations, back.maxParallel.trans front.maxParallel,
    back.failFast.trans front.failFast,
    fun invocation member => back.started invocation (front.started invocation member), ?_⟩
  intro failed
  obtain ⟨stays, same, active⟩ := front.failed failed
  obtain ⟨staysAgain, sameAgain, activeAgain⟩ := back.failed stays
  exact ⟨staysAgain, sameAgain.trans same,
    fun invocation member => active invocation (activeAgain invocation member)⟩

/-- What a step does to a matrix. -/
structure MatrixStep (before after : ReusableMatrixRuntime) : Prop where
  advances : before.Advances after
  bounded : before.Bounded → after.Bounded

theorem mem_insert_iff {set : BTreeSet} {one two : String} :
    two ∈ set.insert one ↔ two = one ∨ two ∈ set := by
  rw [Std.ExtTreeSet.mem_insert, compare_eq_iff_eq, eq_comm]

/-- A gate starts only below the bound of its matrix, and not behind a failure. -/
theorem start_step {group : ReusableMatrixRuntime} {baseId : String}
    (admitted : group.admits baseId = true) : MatrixStep group (group.start baseId) := by
  unfold ReusableMatrixRuntime.start
  split
  · next invocation found =>
      have isGate : group.invocations.any (fun invocation => baseId = gateOf invocation) = true :=
        List.any_eq_true.mpr ⟨invocation, List.mem_of_find?_eq_some found,
          by simpa using List.find?_some found⟩
      unfold ReusableMatrixRuntime.admits at admitted
      rw [if_pos isGate, Bool.and_eq_true, Bool.not_eq_true', decide_eq_true_iff] at admitted
      obtain ⟨calm, below⟩ := admitted
      constructor
      · refine ⟨rfl, rfl, rfl, fun other member => mem_insert_iff.mpr (.inr member), ?_⟩
        intro failed
        exact absurd failed (by simp [calm])
      · intro bounded
        refine ⟨le_trans Std.ExtTreeSet.size_insert_le below, ?_, ?_, bounded.cancelled,
          bounded.failFast⟩
        · intro other member
          rcases mem_insert_iff.mp member with same | older
          · exact mem_insert_iff.mpr (.inl same)
          · exact mem_insert_iff.mpr (.inr (bounded.started other older))
        · intro other member
          rcases mem_insert_iff.mp member with rfl | older
          · exact List.mem_of_find?_eq_some found
          · exact bounded.invocations other older
  · exact ⟨.refl group, fun bounded => bounded⟩

theorem finish_step (group : ReusableMatrixRuntime) (baseId : String)
    (conclusion : JobConclusion) : MatrixStep group (group.finish baseId conclusion) := by
  have active : ∀ invocation ∈ (group.finish baseId conclusion).active,
      invocation ∈ group.active := by
    intro invocation member
    unfold ReusableMatrixRuntime.finish at member
    dsimp only at member
    split at member
    · exact Std.ExtTreeSet.mem_of_mem_erase member
    · exact member
  have size : (group.finish baseId conclusion).active.size ≤ group.active.size := by
    unfold ReusableMatrixRuntime.finish
    dsimp only
    split
    · exact Std.ExtTreeSet.size_erase_le
    · exact le_refl _
  have failing : group.failsWith baseId conclusion = true → group.failFast = true := by
    intro fails
    simp only [ReusableMatrixRuntime.failsWith, Bool.and_eq_true] at fails
    exact fails.1.2
  constructor
  · refine ⟨rfl, rfl, rfl, fun _ member => member, fun failed => ⟨?_, rfl, active⟩⟩
    change (group.failed || _) = true
    rw [failed, Bool.true_or]
  · intro bounded
    refine ⟨le_trans size bounded.parallel,
      fun invocation member => bounded.started invocation (active invocation member),
      bounded.invocations, ?_, ?_⟩
    · change (group.cancelled || _) = (group.failed || _)
      rw [bounded.cancelled]
    · intro failed
      rcases Bool.or_eq_true_iff.mp failed with older | newer
      · exact bounded.failFast older
      · exact failing newer

section Groups

variable [Serde] {run : PlanRun} {plan : ExecutionPlan}

theorem runtimeOf_bounded {job : PlannedJob} {groupId : String} {group : ReusableMatrixRuntime}
    (isGroup : runtimeOf job = some (groupId, group)) : group.Bounded := by
  unfold runtimeOf at isGroup
  split at isGroup
  · cases isGroup
    exact ⟨by simp, by simp, by simp, rfl, nofun⟩
  · cases isGroup

/-! ### All matrices -/

/-- What the loop does to the matrices: none is lost, and new ones have not begun. -/
structure MatricesStep (before after : BTreeMap ReusableMatrixRuntime) : Prop where
  advances : ∀ (id : String) (group : ReusableMatrixRuntime), before[id]? = some group →
    ∃ next : ReusableMatrixRuntime, after[id]? = some next ∧ group.Advances next
  bounded : (∀ (id : String) (group : ReusableMatrixRuntime), before[id]? = some group →
    group.Bounded) →
    ∀ (id : String) (group : ReusableMatrixRuntime), after[id]? = some group → group.Bounded

omit [Serde] in
theorem MatricesStep.refl (groups : BTreeMap ReusableMatrixRuntime) : MatricesStep groups groups :=
  ⟨fun _ group found => ⟨group, found, .refl group⟩, fun bounded => bounded⟩

omit [Serde] in
theorem MatricesStep.trans {first second third : BTreeMap ReusableMatrixRuntime}
    (front : MatricesStep first second) (back : MatricesStep second third) :
    MatricesStep first third := by
  refine ⟨fun id group found => ?_, fun bounded => back.bounded (front.bounded bounded)⟩
  obtain ⟨next, foundNext, advances⟩ := front.advances id group found
  obtain ⟨last, foundLast, advancesAgain⟩ := back.advances id next foundNext
  exact ⟨last, foundLast, advances.trans advancesAgain⟩

omit [Serde] in
theorem matricesStep_map {groups : BTreeMap ReusableMatrixRuntime}
    {change : ReusableMatrixRuntime → ReusableMatrixRuntime}
    (each : ∀ (id : String) (group : ReusableMatrixRuntime), groups[id]? = some group →
      MatrixStep group (change group)) :
    MatricesStep groups (groups.map fun _ group => change group) := by
  constructor
  · intro id group found
    exact ⟨change group, by rw [Std.ExtTreeMap.getElem?_map, found]; rfl,
      (each id group found).advances⟩
  · intro bounded id group found
    rw [Std.ExtTreeMap.getElem?_map] at found
    obtain ⟨old, foundOld, rfl⟩ := Option.map_eq_some_iff.mp found
    exact (each id old foundOld).bounded (bounded id old foundOld)

theorem startBase_matrices (run : PlanRun) (baseId : String) :
    MatricesStep run.reusableMatrices (run.startBase baseId).reusableMatrices := by
  unfold PlanRun.startBase
  split
  · next admitted =>
      refine matricesStep_map fun id group found => start_step ?_
      exact List.all_eq_true.mp admitted (id, group)
        (Std.ExtTreeMap.mem_toList_iff_getElem?_eq_some.mpr found)
  · exact .refl _

theorem loopHead_matrices (plan : ExecutionPlan) (run : PlanRun) :
    MatricesStep run.reusableMatrices (run.loopHead plan).reusableMatrices :=
  loopHead_induction (fun current => MatricesStep run.reusableMatrices current.reusableMatrices)
    (fun current baseId front => front.trans (startBase_matrices current baseId))
    (fun _ _ _ front => front) (.refl _)

/-- The matrices of an expansion come in beside those that are there. -/
theorem expand_matrices (run : PlanRun) (templateBase : String) (expandedJobs : List PlannedJob) :
    MatricesStep run.reusableMatrices
      (run.expand templateBase expandedJobs).reusableMatrices := by
  have filled : ∀ id : String, (run.expand templateBase expandedJobs).reusableMatrices[id]? =
      (run.reusableMatrices[id]?).or
        (((reusableMatrixRuntimes (run.jobs.filter (·.baseId ≠ templateBase) ++
          expandedJobs)).toList.find? fun entry => entry.1 = id).map Prod.snd) := fun id =>
    OrderedMaps.getElem?_foldl_insertIfNew _ Prod.fst Prod.snd _ id
  constructor
  · intro id group found
    exact ⟨group, by rw [filled, found]; rfl, .refl group⟩
  · intro bounded id group found
    rw [filled] at found
    cases old : run.reusableMatrices[id]? with
    | some older =>
        rw [old, Option.some_or] at found
        exact bounded id group (old.trans found)
    | none =>
        rw [old, Option.none_or] at found
        obtain ⟨entry, first, rfl⟩ := Option.map_eq_some_iff.mp found
        have inside := Std.ExtTreeMap.mem_toList_iff_getElem?_eq_some.mp
          (List.mem_of_find?_eq_some first)
        obtain ⟨job, _, isGroup⟩ := List.mem_filterMap.mp
          (OrderedMaps.getElem?_ofList_eq_some inside)
        exact runtimeOf_bounded isGroup

theorem untouched_matrices : UntouchedBySkips PlanRun.reusableMatrices where
  bases run baseId := by
    unfold PlanRun.skipBase
    split <;> rfl
  reports _ _ := rfl

theorem completeBase_matrices {baseId : String} {execution : GroupExecution} {after : PlanRun}
    (ran : run.completeBase baseId execution = .ok after) :
    MatricesStep run.reusableMatrices after.reusableMatrices := by
  unfold PlanRun.completeBase at ran
  split at ran
  · rw [untouched_matrices.skipGroups ran]
    exact matricesStep_map fun _ group _ => finish_step group baseId _
  · cases ran
    exact expand_matrices run baseId _

theorem settleBase_matrices (run : PlanRun) (base : RunningBase) (last : BaseEnd) :
    MatricesStep run.reusableMatrices (run.settleBase plan base last).reusableMatrices := by
  unfold PlanRun.settleBase
  split
  · split
    · exact loopHead_matrices plan { run.depart base.baseId with cancellationError := _ }
    · exact .refl _
  · split
    · next ran => exact (completeBase_matrices ran).trans (loopHead_matrices plan _)
    · exact .refl _

theorem planAdvance_matrices (run : PlanRun) (occurrence : PlanOccurrence) :
    MatricesStep run.reusableMatrices (planAdvance plan run occurrence).reusableMatrices := by
  unfold planAdvance
  split
  · exact .refl _
  · cases occurrence with
    | cancel | closeOutbound => exact .refl _
    | acquire baseId scope =>
        dsimp only [PlanRun.react]
        split
        · split <;> exact .refl _
        · exact .refl _
    | release baseId =>
        dsimp only [PlanRun.react]
        split <;> exact .refl _
    | ended last =>
        dsimp only [PlanRun.react]
        split
        · exact settleBase_matrices run _ last
        · exact .refl _

theorem begin_matrices (plan : ExecutionPlan) (cancelled : Bool) (id : String)
    (group : ReusableMatrixRuntime) (found : (beginPlan plan cancelled).reusableMatrices[id]? =
      some group) :
    group.Bounded := by
  refine (loopHead_matrices plan _).bounded (fun id group found => ?_) id group found
  obtain ⟨job, _, isGroup⟩ := List.mem_filterMap.mp (OrderedMaps.getElem?_ofList_eq_some found)
  exact runtimeOf_bounded isGroup

theorem run_matrices (plan : ExecutionPlan) (run : PlanRun) (occurrences : List PlanOccurrence) :
    MatricesStep run.reusableMatrices
      (Machine.run (planAdvance plan) run occurrences).reusableMatrices := by
  induction occurrences generalizing run with
  | nil => exact .refl _
  | cons occurrence occurrences inductionHypothesis =>
      exact (planAdvance_matrices run occurrence).trans
        (inductionHypothesis (planAdvance plan run occurrence))

/-- In every run of a plan, whatever its bases return: each matrix of reusable calls has at most
`maxParallel` active invocations, which have been started; no matrix is lost or loses a started
invocation; and a matrix that has failed, which only fail-fast lets it, is cancelled and starts
no further invocation. -/
theorem matrices_bounded (plan : ExecutionPlan) (cancelled : Bool)
    (occurrences later : List PlanOccurrence) (groupId : String) (group : ReusableMatrixRuntime)
    (found : (executePlanInner plan cancelled occurrences).reusableMatrices[groupId]? =
      some group) :
    group.Bounded ∧ ∃ next : ReusableMatrixRuntime,
      (executePlanInner plan cancelled (occurrences ++ later)).reusableMatrices[groupId]? =
        some next ∧ group.Advances next := by
  refine ⟨(run_matrices plan _ occurrences).bounded (begin_matrices plan cancelled) groupId
    group found, ?_⟩
  have gone := (run_matrices plan (executePlanInner plan cancelled occurrences) later).advances
    groupId group found
  rwa [executePlanInner, Machine.run_append]

/-! ### Fail-fast -/

/-- Only bases that have been seen wait. -/
def WaitsSeen (run : PlanRun) : Prop := ∀ id, id ∈ run.pendingBases → id ∈ run.baseOrder

theorem WaitsSeen.mono {after : PlanRun} (waitsSeen : WaitsSeen run)
    (fewer : ∀ id, id ∈ after.pendingBases → id ∈ run.pendingBases)
    (baseOrder : after.baseOrder = run.baseOrder) : WaitsSeen after :=
  fun id waits => baseOrder ▸ waitsSeen id (fewer id waits)

theorem WaitsSeen.loopHead (waitsSeen : WaitsSeen run) : WaitsSeen (run.loopHead plan) := by
  refine loopHead_induction WaitsSeen (fun current baseId seen => ?_) (fun _ _ _ seen => seen)
    waitsSeen
  unfold PlanRun.startBase
  split
  · exact seen.mono (fun _ waits => Std.ExtTreeSet.mem_of_mem_erase waits) rfl
  · exact seen

theorem WaitsSeen.expand (waitsSeen : WaitsSeen run) (templateBase : String)
    (expandedJobs : List PlannedJob) : WaitsSeen (run.expand templateBase expandedJobs) := by
  have sees := sees_expand run templateBase expandedJobs
  intro id waits
  rcases (sees.pending id).mp waits with older | newer
  · exact (sees.seen id).mpr (.inl (waitsSeen id older))
  · exact (sees.seen id).mpr (.inr newer)

theorem waitsSeen_keptBySkips : KeptBySkips WaitsSeen where
  bases run baseId seen := by
    unfold PlanRun.skipBase
    split
    · exact seen.mono (fun _ waits => Std.ExtTreeSet.mem_of_mem_erase waits) rfl
    · exact seen
  reports _ _ seen := seen

theorem WaitsSeen.settleBase {base : RunningBase} {last : BaseEnd} (waitsSeen : WaitsSeen run) :
    WaitsSeen (run.settleBase plan base last) := by
  unfold PlanRun.settleBase
  split
  · split
    · exact WaitsSeen.loopHead waitsSeen
    · exact waitsSeen
  · split
    · next ran =>
        refine WaitsSeen.loopHead ?_
        unfold PlanRun.completeBase at ran
        split at ran
        · exact waitsSeen_keptBySkips.skipGroups ran waitsSeen
        · cases ran
          have departed : WaitsSeen (run.depart base.baseId) := waitsSeen
          exact departed.expand _ _
    · exact waitsSeen

theorem WaitsSeen.advance (waitsSeen : WaitsSeen run) (occurrence : PlanOccurrence) :
    WaitsSeen (planAdvance plan run occurrence) := by
  unfold planAdvance
  split
  · exact waitsSeen
  · cases occurrence with
    | cancel | closeOutbound => exact waitsSeen
    | acquire baseId scope =>
        dsimp only [PlanRun.react]
        split
        · split <;> exact waitsSeen
        · exact waitsSeen
    | release baseId =>
        dsimp only [PlanRun.react]
        split <;> exact waitsSeen
    | ended last =>
        dsimp only [PlanRun.react]
        split
        · exact waitsSeen.settleBase
        · exact waitsSeen

theorem waitsSeen_run (plan : ExecutionPlan) (cancelled : Bool)
    (occurrences : List PlanOccurrence) :
    WaitsSeen (executePlanInner plan cancelled occurrences) := by
  have initial : WaitsSeen (beginPlan plan cancelled) := by
    refine WaitsSeen.loopHead fun id waits => ?_
    rwa [Std.ExtTreeSet.mem_ofList, List.contains_iff_mem] at waits
  have keeps : ∀ (run : PlanRun) (occurrence : PlanOccurrence), WaitsSeen run →
      WaitsSeen (planAdvance plan run occurrence) := fun _ occurrence seen =>
        seen.advance occurrence
  exact Machine.run_invariant keeps initial occurrences

/-- The base has been left out, or still can be. -/
def Skippable (baseId : String) (run : PlanRun) : Prop :=
  baseId ∈ run.pendingBases ∨ run.completed.bases[baseId]? = some .skipped

theorem skipBase_skipped (run : PlanRun) {baseId : String} (skippable : Skippable baseId run) :
    (run.skipBase baseId).completed.bases[baseId]? = some .skipped := by
  unfold PlanRun.skipBase
  split
  · exact Std.ExtTreeMap.getElem?_insert_self
  · next absent => exact skippable.resolve_left (mt Std.ExtTreeSet.mem_iff_contains.mp absent)

/-- A base that is left out stays so, whatever else is left out. -/
theorem skipped_keptBySkips (baseId : String) :
    KeptBySkips fun run => run.completed.bases[baseId]? = some .skipped where
  bases run other skipped := by
    by_cases same : other = baseId
    · exact same ▸ skipBase_skipped run (.inr (same.symm ▸ skipped))
    · unfold PlanRun.skipBase
      split
      · change (run.completed.bases.insert other .skipped)[baseId]? = _
        rw [Std.ExtTreeMap.getElem?_insert, if_neg (by simpa using same)]
        exact skipped
      · exact skipped
  reports _ _ skipped := skipped

theorem skippable_keptBySkips (baseId : String) : KeptBySkips (Skippable baseId) where
  bases run other skippable := by
    rcases skippable with waits | skipped
    · by_cases same : other = baseId
      · exact .inr (same ▸ skipBase_skipped run (.inl (same.symm ▸ waits)))
      · refine .inl ?_
        unfold PlanRun.skipBase
        split
        · exact Std.ExtTreeSet.mem_erase.mpr ⟨by simpa using same, waits⟩
        · exact waits
    · exact .inr ((skipped_keptBySkips baseId).bases run other skipped)
  reports _ _ skippable := skippable

/-- Every base within an invocation that is left out gets a conclusion. -/
theorem skipInvocation_skips {invocation baseId : String} {after : PlanRun}
    (ran : run.skipInvocation invocation = .ok after) (within : isWithin invocation baseId = true)
    (seen : baseId ∈ run.baseOrder) (skippable : Skippable baseId run) :
    after.completed.bases[baseId]? = some .skipped := by
  obtain ⟨reported, report, rfl⟩ := skipInvocation_eq ran
  have order : reported.baseOrder = run.baseOrder :=
    (untouched_baseOrder.kept run).reportGate report rfl
  have listed : baseId ∈ reported.baseOrder.filter (isWithin invocation) :=
    List.mem_filter.mpr ⟨order ▸ seen, within⟩
  have held := (skippable_keptBySkips baseId).reportGate report skippable
  generalize reported.baseOrder.filter (isWithin invocation) = ids at listed
  obtain ⟨before, after, rfl⟩ := List.append_of_mem listed
  rw [List.foldl_append, List.foldl_cons]
  refine (skipped_keptBySkips baseId).skipBases after (skipBase_skipped _ ?_)
  exact (skippable_keptBySkips baseId).skipBases before held

/-- What holds of a base while invocations are left out. -/
structure Leaving (baseId : String) (run : PlanRun) : Prop where
  seen : baseId ∈ run.baseOrder
  skippable : Skippable baseId run

theorem leaving_keptBySkips (baseId : String) : KeptBySkips (Leaving baseId) where
  bases run other leaving := ⟨untouched_baseOrder.bases run other ▸ leaving.seen,
    (skippable_keptBySkips baseId).bases run other leaving.skippable⟩
  reports _ _ leaving := ⟨leaving.seen, leaving.skippable⟩

theorem skipGroup_skips {groupId invocation baseId : String} {group : ReusableMatrixRuntime}
    {after : PlanRun} (leaving : Leaving baseId run)
    (ran : run.skipGroup groupId = .ok after)
    (found : run.reusableMatrices[groupId]? = some group) (known : invocation ∈ group.invocations)
    (unstarted : invocation ∉ group.started) (within : isWithin invocation baseId = true) :
    after.completed.bases[baseId]? = some .skipped := by
  have member : invocation ∈ group.unstarted := by
    refine List.mem_filter.mpr ⟨known, ?_⟩
    rw [Bool.not_eq_true', ← Bool.not_eq_true, ← Std.ExtTreeSet.mem_iff_contains]
    exact unstarted
  unfold PlanRun.skipGroup at ran
  rw [found] at ran
  dsimp only at ran
  refine foldlM_ok_reaches (Leaving baseId)
    (fun current => current.completed.bases[baseId]? = some .skipped) member ?_ ?_ ?_ leaving ran
  · exact fun current other _ next leaving skipped =>
      (leaving_keptBySkips baseId).skipInvocation skipped leaving
  · exact fun current next leaving skipped =>
      skipInvocation_skips skipped within leaving.seen leaving.skippable
  · exact fun current other _ next leaving done skipped =>
      (skipped_keptBySkips baseId).skipInvocation skipped done

theorem untouched_outboundClosed : UntouchedBySkips PlanRun.outboundClosed where
  bases run baseId := by
    unfold PlanRun.skipBase
    split <;> rfl
  reports _ _ := rfl

theorem exists_skipInvocation (opened : run.outboundClosed = false) (invocation : String) :
    ∃ after, run.skipInvocation invocation = .ok after := by
  have reported : ∃ reported, run.reportGate invocation = .ok reported := by
    unfold PlanRun.reportGate
    rw [opened]
    split
    · split
      · exact ⟨_, rfl⟩
      · exact ⟨_, rfl⟩
    · exact ⟨_, rfl⟩
  obtain ⟨reported, report⟩ := reported
  unfold PlanRun.skipInvocation
  rw [report]
  exact ⟨_, rfl⟩

theorem exists_skipGroup {groupId : String} {group : ReusableMatrixRuntime}
    (opened : run.outboundClosed = false) (found : run.reusableMatrices[groupId]? = some group) :
    ∃ after, run.skipGroup groupId = .ok after := by
  have all : ∀ (invocations : List String) (current : PlanRun), current.outboundClosed = false →
      ∃ after, invocations.foldlM PlanRun.skipInvocation current = .ok after := by
    intro invocations
    induction invocations with
    | nil => exact fun current _ => ⟨current, rfl⟩
    | cons invocation invocations inductionHypothesis =>
        intro current opened
        obtain ⟨next, skipped⟩ := exists_skipInvocation opened invocation
        obtain ⟨after, ran⟩ := inductionHypothesis next
          (((untouched_outboundClosed.kept current).skipInvocation skipped rfl).trans opened)
        exact ⟨after, foldlM_cons_eq_ok.mpr ⟨next, skipped, ran⟩⟩
  unfold PlanRun.skipGroup
  rw [found]
  exact all _ run opened

theorem exists_skipGroups {groupIds : List String} (opened : run.outboundClosed = false)
    (known : ∀ groupId ∈ groupIds, ∃ group : ReusableMatrixRuntime,
      run.reusableMatrices[groupId]? = some group) :
    ∃ after, groupIds.foldlM PlanRun.skipGroup run = .ok after := by
  induction groupIds generalizing run with
  | nil => exact ⟨run, rfl⟩
  | cons groupId groupIds inductionHypothesis =>
      obtain ⟨group, found⟩ := known groupId List.mem_cons_self
      obtain ⟨next, skipped⟩ := exists_skipGroup opened found
      obtain ⟨after, ran⟩ := inductionHypothesis
        ((untouched_outboundClosed.skipGroup skipped).trans opened) fun other member => by
          rw [untouched_matrices.skipGroup skipped]
          exact known other (List.mem_cons_of_mem _ member)
      exact ⟨after, foldlM_cons_eq_ok.mpr ⟨next, skipped, ran⟩⟩

theorem mem_failedGroups {baseId groupId : String} {execution : BaseExecution} :
    groupId ∈ run.failedGroups baseId execution ↔ ∃ group : ReusableMatrixRuntime,
      run.reusableMatrices[groupId]? = some group ∧
        group.failsWith baseId execution.conclusion = true := by
  unfold PlanRun.failedGroups finishReusableMatrixInvocation
  simp only [List.mem_map, List.mem_filter, Prod.exists]
  constructor
  · rintro ⟨id, group, ⟨inside, fails⟩, rfl⟩
    exact ⟨group, Std.ExtTreeMap.mem_toList_iff_getElem?_eq_some.mp inside, fails⟩
  · rintro ⟨group, found, fails⟩
    exact ⟨groupId, group, ⟨Std.ExtTreeMap.mem_toList_iff_getElem?_eq_some.mpr found, fails⟩, rfl⟩

theorem finishBase_matrix (run : PlanRun) {baseId groupId : String} {execution : BaseExecution}
    {group : ReusableMatrixRuntime} (found : run.reusableMatrices[groupId]? = some group) :
    (run.finishBase baseId execution).reusableMatrices[groupId]? =
      some (group.finish baseId execution.conclusion) := by
  change (run.reusableMatrices.map fun _ group =>
    group.finish baseId execution.conclusion)[groupId]? = _
  rw [Std.ExtTreeMap.getElem?_map, found]
  rfl

/-- A completion that fails a matrix leaves out what the matrix has not started. -/
theorem completeBase_skips {base : RunningBase} {execution : GroupExecution} {groupId : String}
    {group : ReusableMatrixRuntime} (waitsSeen : WaitsSeen run)
    (opened : run.outboundClosed = false) (plain : execution.expandedJobs = [])
    (found : run.reusableMatrices[groupId]? = some group)
    (fails : group.failsWith base.baseId execution.conclusion = true) :
    ∃ next, (run.depart base.baseId).completeBase base.baseId execution = .ok next ∧
      (∃ after : ReusableMatrixRuntime, next.reusableMatrices[groupId]? = some after ∧
        after.failed = true) ∧
      ∀ invocation ∈ group.invocations, invocation ∉ group.started →
        ∀ id, isWithin invocation id = true → id ∈ run.pendingBases →
          next.completed.bases[id]? = some .skipped := by
  have seen : WaitsSeen
      ((run.depart base.baseId).finishBase base.baseId execution.toBaseExecution) := waitsSeen
  generalize finished : (run.depart base.baseId).finishBase base.baseId execution.toBaseExecution =
    start at seen
  have matrix : start.reusableMatrices[groupId]? =
      some (group.finish base.baseId execution.conclusion) :=
    finished ▸ finishBase_matrix (run.depart base.baseId) found
  obtain ⟨next, ran⟩ : ∃ next, ((run.depart base.baseId).failedGroups base.baseId
      execution.toBaseExecution).foldlM PlanRun.skipGroup start = .ok next := by
    refine exists_skipGroups (finished ▸ opened) fun other inside => ?_
    obtain ⟨failed, known, _⟩ := mem_failedGroups.mp inside
    exact ⟨_, finished ▸ finishBase_matrix _ known⟩
  have failed : next.reusableMatrices[groupId]? =
      some (group.finish base.baseId execution.conclusion) :=
    (congrArg (·[groupId]?) (untouched_matrices.skipGroups ran)).trans matrix
  refine ⟨next, ?_, ⟨_, failed, ?_⟩, ?_⟩
  · unfold PlanRun.completeBase
    rw [if_pos (by rw [plain]; rfl), finished]
    exact ran
  · change (group.failed || _) = true
    rw [fails, Bool.or_true]
  · intro invocation known unstarted id within waits
    have waiting : id ∈ start.pendingBases := finished ▸ waits
    refine (foldlM_ok_reaches
      (fun current => Leaving id current ∧ current.reusableMatrices = start.reusableMatrices)
      (fun current => current.completed.bases[id]? = some .skipped)
      (mem_failedGroups.mpr ⟨group, found, fails⟩) ?_ ?_ ?_
      ⟨⟨seen id waiting, .inl waiting⟩, rfl⟩ ran)
    · intro current other _ last leaving skipped
      exact ⟨(leaving_keptBySkips id).skipGroup skipped leaving.1,
        (untouched_matrices.skipGroup skipped).trans leaving.2⟩
    · intro current last leaving skipped
      have inCurrent : current.reusableMatrices[groupId]? =
          some (group.finish base.baseId execution.conclusion) := leaving.2 ▸ matrix
      exact skipGroup_skips leaving.1 skipped inCurrent known unstarted within
    · exact fun current other _ last leaving done skipped =>
        (skipped_keptBySkips id).skipGroup skipped done

/-- Fail-fast, in every run: when an invocation of a matrix ends with a failure, the matrix is
cancelled, and every base that waits within an invocation that has not started has been skipped
when the loop waits again, whatever else is going on. -/
theorem fail_fast_skips (plan : ExecutionPlan) (cancelled : Bool)
    (occurrences : List PlanOccurrence) (last : BaseEnd)
    {base : RunningBase} {execution : GroupExecution} {groupId : String}
    {group : ReusableMatrixRuntime}
    (goesOn : (executePlanInner plan cancelled occurrences).returned = none)
    (opened : (executePlanInner plan cancelled occurrences).outboundClosed = false)
    (running : (executePlanInner plan cancelled occurrences).running? last.baseId = some base)
    (settled : (executePlanInner plan cancelled occurrences).settledExecution base last =
      .ok execution)
    (plain : execution.expandedJobs = [])
    (found : (executePlanInner plan cancelled occurrences).reusableMatrices[groupId]? = some group)
    (fails : group.failsWith last.baseId execution.conclusion = true) :
    let after := executePlanInner plan cancelled (occurrences ++ [.ended last])
    (∃ next : ReusableMatrixRuntime, after.reusableMatrices[groupId]? = some next ∧
      next.failed = true ∧ next.cancelled = true) ∧
    ∀ invocation ∈ group.invocations, invocation ∉ group.started →
      ∀ id, isWithin invocation id = true →
        id ∈ (executePlanInner plan cancelled occurrences).pendingBases →
          after.completed.bases[id]? = some .skipped := by
  intro after
  have same := (running?_eq_some running).2
  obtain ⟨next, ran, ⟨matrix, inNext, failed⟩, skipped⟩ :=
    completeBase_skips (waitsSeen_run plan cancelled occurrences) opened plain found (same ▸ fails)
  have stepped : after = next.loopHead plan := by
    change executePlanInner plan cancelled (occurrences ++ [.ended last]) = _
    rw [executePlanInner, Machine.run_append]
    change planAdvance plan (executePlanInner plan cancelled occurrences) (.ended last) = _
    unfold planAdvance PlanRun.react
    rw [if_neg (by rw [goesOn]; exact Bool.false_ne_true)]
    dsimp only
    rw [running]
    dsimp only
    unfold PlanRun.settleBase
    rw [settled]
    dsimp only
    rw [ran]
  constructor
  · obtain ⟨final, inAfter, advances⟩ :=
      (loopHead_matrices plan next).advances groupId matrix inNext
    have inside : after.reusableMatrices[groupId]? = some final := stepped ▸ inAfter
    have bounded : final.Bounded :=
      (run_matrices plan _ (occurrences ++ [PlanOccurrence.ended last])).bounded
        (begin_matrices plan cancelled) groupId final inside
    exact ⟨final, inside, (advances.failed failed).1,
      bounded.cancelled.trans (advances.failed failed).1⟩
  · intro invocation known unstarted id within waits
    rw [stepped, loopHead_completed]
    exact skipped invocation known unstarted id within waits

end Groups

end PlanMatrices

namespace Sample

open Workflows.Sample

def matrixResult (id : String) (invocations : List String) (maxParallel : Nat) : PlannedJob :=
  { plainJob id invocations with
    virtualJob := some (.reusableMatrixResult invocations maxParallel true) }

/-- A call with two combinations, of which one may run at a time. -/
def matrixPlan : ExecutionPlan := { forkPlan with
  jobs := [
    plainJob "call::matrix-1::gate" [], plainJob "call::matrix-1" ["call::matrix-1::gate"],
    plainJob "call::matrix-2::gate" [], plainJob "call::matrix-2" ["call::matrix-2::gate"],
    matrixResult "call" ["call::matrix-1", "call::matrix-2"] 1] }

/-- The first invocation is running, the second one waits. -/
def matrixStarts : List PlanOccurrence := [succeeds "call::matrix-1::gate" []]

def failsAt (baseId : String) : BaseEnd where
  baseId
  execution := .ok { conclusion := .failure, completedSteps := 1, outputs := ∅ }

def matrixGroup : ReusableMatrixRuntime where
  invocations := ["call::matrix-1", "call::matrix-2"]
  maxParallel := 1
  failFast := true
  active := .ofList ["call::matrix-1"]
  started := .ofList ["call::matrix-1"]

theorem matrixPlan_group :
    (executePlanInner matrixPlan false matrixStarts).reusableMatrices["call"]? =
      some matrixGroup := by
  rfl

theorem matrixPlan_bounded :
    matrixGroup.Bounded ∧ ∃ next : ReusableMatrixRuntime,
      (executePlanInner matrixPlan false
        (matrixStarts ++ [.ended (failsAt "call::matrix-1")])).reusableMatrices["call"]? =
          some next ∧ matrixGroup.Advances next :=
  matrices_bounded matrixPlan false matrixStarts _ "call" matrixGroup matrixPlan_group

/-- The failure of the first invocation leaves the second one out. -/
theorem matrixPlan_skips :
    (executePlanInner matrixPlan false
      (matrixStarts ++ [.ended (failsAt "call::matrix-1")])).completed.bases["call::matrix-2"]? =
        some .skipped := by
  have skips := (fail_fast_skips matrixPlan false matrixStarts (failsAt "call::matrix-1")
    rfl rfl rfl rfl rfl matrixPlan_group (by decide)).2
  exact skips "call::matrix-2" (by decide) (by decide) "call::matrix-2" (by decide)
    (by decide)

end Sample

end GitZero.Agent
