/-
Module: GitZero.Proofs.PlanIdentity
Purpose: The ids and the needs of a linked plan: when the ids are distinct, the needs
  agree on a base id, and the dependencies of all jobs are closed and acyclic.
Trusted boundary: none
Main exports: WellLinked, ValidWorkflow, StaticCall, NamesGate,
  linked_plan_wellLinked_iff
-/
import GitZero.Workflow.Dependencies
import GitZero.Workflow.Expansion

namespace GitZero.Workflows

section Linked

variable [Serde]

/-! ### The property -/

/-- Over all jobs of a plan, not only the first of each base id. -/
structure WellLinked (jobs : List PlannedJob) : Prop where
  distinct : (jobs.map (·.id)).Nodup
  functional : ∀ one ∈ jobs, ∀ two ∈ jobs, one.baseId = two.baseId → one.needs = two.needs
  proper : ∀ job ∈ jobs, job.baseId ∉ job.needs
  closed : ∀ job ∈ jobs, ∀ need ∈ job.needs, ∃ dependency ∈ jobs, dependency.baseId = need
  acyclic : ∀ job, ¬ Relation.TransGen (Needs jobs) job job

/-- The first two parts, which the linker has to provide; the others follow from the
validation of the plan. -/
structure Coherent (jobs : List PlannedJob) : Prop where
  distinct : (jobs.map (·.id)).Nodup
  functional : ∀ one ∈ jobs, ∀ two ∈ jobs, one.baseId = two.baseId → one.needs = two.needs

theorem getElem?_dependencyGraph_of_mem {jobs : List PlannedJob}
    (functional : ∀ one ∈ jobs, ∀ two ∈ jobs, one.baseId = two.baseId → one.needs = two.needs)
    {job : PlannedJob} (member : job ∈ jobs) :
    (dependencyGraph jobs)[job.baseId]? = some job.needs := by
  rw [getElem?_dependencyGraph]
  cases found : jobs.find? fun other => other.baseId = job.baseId with
  | none =>
      have absent := List.find?_eq_none.mp found job member
      simp at absent
  | some first =>
      have same : first.baseId = job.baseId := by simpa using List.find?_some found
      simp [functional first (List.mem_of_find?_eq_some found) job member same]

theorem Coherent.wellLinked {workflow : String} {jobs : List PlannedJob}
    (coherent : Coherent jobs) (valid : validateDependencies workflow jobs = .ok ()) :
    WellLinked jobs := by
  have graph := validateDependencies_ok valid
  have listed : ∀ job ∈ jobs, (dependencyGraph jobs)[job.baseId]? = some job.needs :=
    fun _ member => getElem?_dependencyGraph_of_mem coherent.functional member
  refine ⟨coherent.distinct, coherent.functional, ?_, ?_, ?_⟩
  · intro job member
    exact graph.proper job.baseId job.needs (listed job member)
  · intro job member need inside
    exact mem_dependencyGraph.mp (graph.known job.baseId job.needs (listed job member) need inside)
  · intro job loop
    have inside : job ∈ jobs := by
      cases loop with
      | single edge => exact edge.1
      | tail _ edge => exact edge.2.1
    have depends : ∀ dependency other, Needs jobs dependency other →
        DepthFirst.DependsOn (fun name : String => (dependencyGraph jobs)[name]?)
          dependency.baseId other.baseId := by
      intro dependency other needs
      exact ⟨other.needs, listed other needs.2.1, needs.2.2⟩
    exact DepthFirst.not_transGen_self_of_acc
      (graph.acc job.baseId (mem_dependencyGraph.mpr ⟨job, inside, rfl⟩))
      (Relation.TransGen.lift (fun other : PlannedJob => other.baseId) depends _ _ loop)

/-! ### Groups of jobs with names apart -/

/-- Coherent groups whose names differ in a tag make a coherent list. -/
theorem coherent_groups {κ : Type} (groups : List (κ × List PlannedJob))
    (distinct : (groups.map Prod.fst).Nodup) (tag : String → κ)
    (each : ∀ group ∈ groups, Coherent group.2)
    (tagged : ∀ group ∈ groups, ∀ job ∈ group.2, tag job.id = group.1 ∧ tag job.baseId = group.1) :
    Coherent (groups.flatMap Prod.snd) := by
  constructor
  · rw [List.map_flatMap, List.nodup_flatMap]
    refine ⟨fun group member => (each group member).distinct, ?_⟩
    rw [List.Nodup, List.pairwise_map] at distinct
    refine distinct.imp_of_mem ?_
    intro one two first second differ id inOne inTwo
    obtain ⟨job, member, same⟩ := List.mem_map.mp inOne
    obtain ⟨other, otherMember, otherSame⟩ := List.mem_map.mp inTwo
    apply differ
    rw [← (tagged one first job member).1, ← (tagged two second other otherMember).1, same,
      otherSame]
  · intro one first two second same
    obtain ⟨group, listed, member⟩ := List.mem_flatMap.mp first
    obtain ⟨other, otherListed, otherMember⟩ := List.mem_flatMap.mp second
    have sameKey : group.1 = other.1 := by
      rw [← (tagged group listed one member).2, ← (tagged other otherListed two otherMember).2,
        same]
    have sameGroup : group = other := List.inj_on_of_nodup_map distinct listed otherListed sameKey
    subst sameGroup
    exact (each group listed).functional one member two otherMember same

/-! ### Ids -/

/-- An id is the base id with a matrix index behind it, or without one. -/
def Suffixed (job : PlannedJob) : Prop :=
  ∃ suffix : List Char, job.id = job.baseId ++ String.ofList suffix ∧
    (suffix = [] ∨ suffix.head? = some '[')

theorem IsCalled.id_eq {site : CallSite} {job planned : PlannedJob}
    (called : IsCalled site job planned) (suffixed : Suffixed job) :
    planned.id = under site.jobId job.id ∧ Suffixed planned := by
  obtain ⟨suffix, same, shape⟩ := suffixed
  obtain ⟨found, sliced, renamed⟩ := called.id
  have chars : job.id.toList = job.baseId.toList ++ suffix := by
    rw [same, String.toList_append, String.toList_ofList]
  rw [chars, sliceFrom_append] at sliced
  cases sliced
  refine ⟨?_, suffix, renamed, shape⟩
  rw [renamed, called.baseId, same, under, under, String.append_assoc]

theorem IsInstance.suffixed {context : CompileContext} {jobId : String} {job : Job}
    {plan : MatrixPlan} {matrixIndex : Nat} {matrix : BTreeMap Json} {planned : PlannedJob}
    (is : IsInstance context jobId job plan matrixIndex matrix planned) : Suffixed planned := by
  obtain ⟨hasMatrix, id, _⟩ := is.id
  rw [Suffixed, id, is.baseId]
  cases hasMatrix with
  | false => exact ⟨[], by simp [instanceId], .inl rfl⟩
  | true =>
      refine ⟨'[' :: ((toString (matrixIndex + 1)).toList ++ [']']), ?_, .inr rfl⟩
      apply String.toList_inj.mp
      rw [instanceId_true]
      simp [String.toList_append]

theorem Suffixed.baseId_of_id {job : PlannedJob} (suffixed : Suffixed job) {name : String}
    (plain : Plain name) (same : job.id = name) : job.baseId = name := by
  obtain ⟨suffix, id, shape⟩ := suffixed
  rcases shape with none | bracket
  · rw [← same, id, none]
    simp
  · exfalso
    apply plain.2
    rw [← same, id, String.toList_append, String.toList_ofList]
    exact List.mem_append_right _ (List.mem_of_mem_head? bracket)

/-! ### Expansions -/

/-- A called plan that can be expanded without a clash of names. -/
structure Placeable (jobs : List PlannedJob) : Prop where
  coherent : Coherent jobs
  suffixed : ∀ job ∈ jobs, Suffixed job
  noGate : ∀ job ∈ jobs, job.baseId ≠ "gate"

omit [Serde] in
theorem plain_gate : Plain "gate" := ⟨by decide, by decide⟩

theorem IsExpansion.ids {site : CallSite} {called segment : List PlannedJob}
    (expansion : IsExpansion site called segment)
    (suffixed : ∀ job ∈ site.calledPlan.jobs, Suffixed job) :
    called.map (·.id) = (site.calledPlan.jobs.map (·.id)).map (under site.jobId) := by
  have each := expansion.each
  clear expansion
  generalize site.calledPlan.jobs = jobs at each suffixed
  induction each with
  | nil => rfl
  | cons first _ inductionHypothesis =>
      rw [List.map_cons, List.map_cons, List.map_cons,
        (first.id_eq (suffixed _ List.mem_cons_self)).1,
        inductionHypothesis fun job member => suffixed job (List.mem_cons_of_mem _ member)]

theorem IsExpansion.coherent {site : CallSite} {called segment : List PlannedJob}
    (expansion : IsExpansion site called segment)
    (placeable : Placeable site.calledPlan.jobs) : Coherent segment := by
  have ids := expansion.ids placeable.suffixed
  have gateId : site.gate.id = under site.jobId "gate" := gateId_eq site
  have gateBase : site.gate.baseId = under site.jobId "gate" := gateId_eq site
  have resultId : site.result.id = site.jobId := rfl
  have resultBase : site.result.baseId = site.jobId := rfl
  constructor
  · have calledIds : (called.map (·.id)).Nodup := by
      rw [ids]
      exact placeable.coherent.distinct.map fun _ _ => under_injective
    have noGate : under site.jobId "gate" ∉ called.map (·.id) := by
      rw [ids]
      intro member
      obtain ⟨id, listed, same⟩ := List.mem_map.mp member
      obtain ⟨job, inside, rfl⟩ := List.mem_map.mp listed
      exact placeable.noGate job inside
        ((placeable.suffixed job inside).baseId_of_id plain_gate (under_injective same))
    have noResult : site.jobId ∉ called.map (·.id) := by
      rw [ids]
      intro member
      obtain ⟨id, _, same⟩ := List.mem_map.mp member
      exact under_ne _ _ same
    rw [expansion.jobs, List.map_append, List.map_cons, List.map_singleton, gateId, resultId,
      List.cons_append, List.nodup_cons, List.nodup_append]
    refine ⟨?_, calledIds, List.nodup_singleton _, ?_⟩
    · rw [List.mem_append, List.mem_singleton]
      rintro (inside | same)
      · exact noGate inside
      · exact under_ne _ _ same
    · intro one inside two isResult same
      rw [List.mem_singleton] at isResult
      exact noResult (isResult ▸ same ▸ inside)
  · have calledBase : ∀ job, (∃ early ∈ site.calledPlan.jobs, IsCalled site early job) →
        job.baseId ≠ under site.jobId "gate" ∧ job.baseId ≠ site.jobId := by
      rintro job ⟨early, inside, isCalled⟩
      rw [isCalled.baseId]
      exact ⟨fun same => placeable.noGate early inside (under_injective same), under_ne _ _⟩
    intro one first two second same
    rcases expansion.mem_cases first with rfl | rfl | ⟨_, oneCalled⟩ <;>
      rcases expansion.mem_cases second with rfl | rfl | ⟨_, twoCalled⟩
    · rfl
    · exact absurd (gateBase.symm.trans same) (under_ne _ _)
    · exact absurd (same.symm.trans gateBase) (calledBase two twoCalled).1
    · exact absurd (gateBase.symm.trans same.symm) (under_ne _ _)
    · rfl
    · exact absurd (same.symm.trans resultBase) (calledBase two twoCalled).2
    · exact absurd (same.trans gateBase) (calledBase one oneCalled).1
    · exact absurd (same.trans resultBase) (calledBase one oneCalled).2
    · obtain ⟨early, inside, isCalled⟩ := oneCalled
      obtain ⟨other, otherInside, otherCalled⟩ := twoCalled
      rw [isCalled.baseId, otherCalled.baseId] at same
      rw [isCalled.needs, otherCalled.needs,
        placeable.coherent.functional early inside other otherInside (under_injective same)]

/-! ### Segments -/

/-- A name that is the name of a call or stands under it. -/
def Within (jobId name : String) : Prop := name = jobId ∨ ∃ inner, name = under jobId inner

omit [Serde] in
theorem Within.head_eq {jobId name : String} (plain : Plain jobId) (within : Within jobId name) :
    head name = jobId.toList := by
  rcases within with rfl | ⟨inner, rfl⟩
  · exact head_plain plain
  · exact head_under plain inner

theorem IsExpansion.within {site : CallSite} {called segment : List PlannedJob}
    (expansion : IsExpansion site called segment)
    (suffixed : ∀ job ∈ site.calledPlan.jobs, Suffixed job) {job : PlannedJob}
    (member : job ∈ segment) :
    Within site.jobId job.id ∧ Within site.jobId job.baseId ∧ Suffixed job := by
  rcases expansion.mem_cases member with rfl | rfl | ⟨_, early, inside, isCalled⟩
  · exact ⟨.inr ⟨_, gateId_eq site⟩, .inr ⟨_, gateId_eq site⟩, [], by simp [CallSite.gate],
      .inl rfl⟩
  · exact ⟨.inl rfl, .inl rfl, [], by simp [CallSite.result], .inl rfl⟩
  · obtain ⟨id, suffixed⟩ := isCalled.id_eq (suffixed early inside)
    exact ⟨.inr ⟨_, id⟩, .inr ⟨_, isCalled.baseId⟩, suffixed⟩

/-- The first component behind the name of a call. -/
def tagUnder (jobId name : String) : List Char :=
  head (String.ofList (name.toList.drop (jobId.toList.length + 2)))

omit [Serde] in
theorem tagUnder_under (jobId inner : String) : tagUnder jobId (under jobId inner) =
    head inner := by
  rw [tagUnder, under, String.toList_append, String.toList_append, List.append_assoc,
    List.drop_append, List.drop_eq_nil_of_le (Nat.le_add_right _ 2)]
  simp

omit [Serde] in
theorem tagUnder_within {jobId name : String} {index : Nat}
    (within : Within (under jobId (matrixName index)) name) :
    tagUnder jobId name = (matrixName index).toList := by
  rcases within with rfl | ⟨inner, rfl⟩
  · rw [tagUnder_under, head_plain (matrixName_plain index)]
  · rw [under_assoc, tagUnder_under, head_under (matrixName_plain index)]

/-- One group of the segment of a matrix: an expansion under its index, or the matrix
result, whose name has nothing behind the name of the call. -/
inductive MatrixGroup (jobId : String) (call : PlannedDynamicReusableCall)
    (template : PlannedJob) (instances : List PlannedJob) :
    List Char × List PlannedJob → Prop where
  | expansion {index : Nat} {placeholder : PlannedJob} {called segment : List PlannedJob}
      (member : placeholder ∈ instances)
      (isExpansion : IsExpansion (siteFor (under jobId (matrixName index)) call placeholder)
        called segment) :
      MatrixGroup jobId call template instances ((matrixName index).toList, segment)
  | result : MatrixGroup jobId call template instances
      ([], [reusableMatrixResult jobId template (invocationIds jobId instances)])

theorem IsMatrix.exists_keyed {jobId : String} {call : PlannedDynamicReusableCall}
    {template : PlannedJob} {instances segment : List PlannedJob}
    (isMatrix : IsMatrix jobId call template instances segment) :
    ∃ keyed : List (List Char × List PlannedJob), (keyed.map Prod.fst).Nodup ∧
      (∀ group ∈ keyed, MatrixGroup jobId call template instances group) ∧
      segment = keyed.flatMap Prod.snd := by
  obtain ⟨groups, indices, each, same⟩ := isMatrix.exists_groups
  have keys : (groups.map fun group => (matrixName group.1).toList).Nodup := by
    have distinct : (groups.map Prod.fst).Nodup := indices ▸ List.nodup_range
    have renamed := distinct.map fun _ _ names =>
      matrixName_injective (String.toList_inj.mp names)
    rwa [List.map_map] at renamed
  have nonempty : ∀ index, (matrixName index).toList ≠ [] := by
    intro index none
    simp [matrixName, String.toList_append] at none
  let result := reusableMatrixResult jobId template (invocationIds jobId instances)
  let keyed : List (List Char × List PlannedJob) :=
    groups.map fun group : Nat × List PlannedJob => ((matrixName group.1).toList, group.2)
  refine ⟨keyed ++ [([], [result])], ?_, ?_, ?_⟩
  · rw [List.map_append, List.map_map, List.map_singleton, List.nodup_append]
    refine ⟨keys, List.nodup_singleton _, ?_⟩
    intro one inside two last differ
    obtain ⟨group, _, rfl⟩ := List.mem_map.mp inside
    exact nonempty group.1 (differ.trans (List.mem_singleton.mp last))
  · intro group member
    rcases List.mem_append.mp member with inside | last
    · obtain ⟨early, listed, rfl⟩ := List.mem_map.mp inside
      obtain ⟨placeholder, listedToo, called, expansion⟩ := each early listed
      exact .expansion listedToo expansion
    · cases List.mem_singleton.mp last
      exact .result
  · rw [List.flatMap_append, List.flatMap_map, same]
    rfl

omit [Serde] in
theorem tagUnder_self (jobId : String) : tagUnder jobId jobId = [] := by
  rw [tagUnder, List.drop_eq_nil_of_le (Nat.le_add_right _ 2)]
  rfl

theorem IsMatrix.coherent {jobId : String} {call : PlannedDynamicReusableCall}
    {template : PlannedJob} {instances segment : List PlannedJob}
    (isMatrix : IsMatrix jobId call template instances segment)
    (placeable : Placeable call.calledPlan.jobs) : Coherent segment := by
  obtain ⟨keyed, distinct, each, same⟩ := isMatrix.exists_keyed
  rw [same]
  apply coherent_groups keyed distinct (tagUnder jobId)
  · intro group member
    cases each group member with
    | expansion _ isExpansion => exact isExpansion.coherent placeable
    | result => exact ⟨List.nodup_singleton _, by simp⟩
  · intro group member job inside
    cases each group member with
    | expansion _ isExpansion =>
        obtain ⟨id, baseId, _⟩ := isExpansion.within placeable.suffixed inside
        exact ⟨tagUnder_within id, tagUnder_within baseId⟩
    | result =>
        cases List.mem_singleton.mp inside
        exact ⟨tagUnder_self jobId, tagUnder_self jobId⟩

/-- How the jobs that stand for one job of a workflow are named. -/
structure NamedBy (jobId : String) (job : PlannedJob) : Prop where
  id : head job.id = jobId.toList
  baseId : head job.baseId = jobId.toList
  suffixed : Suffixed job

theorem IsInstance.namedBy {context : CompileContext} {jobId : String} {job : Job}
    {plan : MatrixPlan} {matrixIndex : Nat} {matrix : BTreeMap Json} {planned : PlannedJob}
    (plain : Plain jobId)
    (is : IsInstance context jobId job plan matrixIndex matrix planned) :
    NamedBy jobId planned := by
  obtain ⟨hasMatrix, id, _⟩ := is.id
  refine ⟨?_, ?_, is.suffixed⟩
  · rw [id, head_instanceId plain]
  · rw [is.baseId, head_plain plain]

theorem Expands.namedBy {jobId : String} {call : PlannedDynamicReusableCall}
    {instances segment : List PlannedJob} (plain : Plain jobId)
    (expands : Expands jobId call instances segment)
    (named : ∀ job ∈ instances, NamedBy jobId job)
    (suffixed : ∀ job ∈ call.calledPlan.jobs, Suffixed job) :
    ∀ job ∈ segment, NamedBy jobId job := by
  intro job member
  cases expands with
  | @template template dynamic =>
      cases List.mem_singleton.mp member
      have early := named template List.mem_cons_self
      exact ⟨early.id, early.baseId, early.suffixed⟩
  | single static expansion =>
      obtain ⟨id, baseId, suffixed⟩ := expansion.within suffixed member
      exact ⟨id.head_eq plain, baseId.head_eq plain, suffixed⟩
  | matrix static isMatrix =>
      obtain ⟨groups, _, each, same⟩ := isMatrix.exists_groups
      rw [same] at member
      rcases List.mem_append.mp member with inside | last
      · obtain ⟨group, listed, inside⟩ := List.mem_flatMap.mp inside
        obtain ⟨placeholder, _, called, expansion⟩ := each group listed
        obtain ⟨id, baseId, suffixed⟩ := expansion.within suffixed inside
        have nested : ∀ name, Within (under jobId (matrixName group.1)) name →
            head name = jobId.toList := by
          rintro name (rfl | ⟨inner, rfl⟩)
          · exact head_under plain _
          · rw [under_assoc, head_under plain]
        exact ⟨nested _ id, nested _ baseId, suffixed⟩
      · cases List.mem_singleton.mp last
        exact ⟨head_plain plain, head_plain plain, [], by simp [reusableMatrixResult], .inl rfl⟩

theorem AreInstances.coherent {context : CompileContext} {jobId : String} {job : Job}
    {plan : MatrixPlan} {instances : List PlannedJob}
    (are : AreInstances context jobId job plan instances) : Coherent instances := by
  have lengths : plan.combinations.length = instances.length := by
    simpa using are.each.length_eq
  constructor
  · by_cases many : plan.combinations.length > 1
    · have ids : instances.map (·.id) =
          plan.combinations.zipIdx.map fun entry => instanceId jobId true entry.2 := by
        have each := are.each
        generalize plan.combinations.zipIdx = entries at each
        clear lengths are
        induction each with
        | nil => rfl
        | cons first _ inductionHypothesis =>
            obtain ⟨hasMatrix, id, isTrue⟩ := first.id
            rw [List.map_cons, List.map_cons, id, isTrue many, inductionHypothesis]
      have indices : plan.combinations.zipIdx.map Prod.snd =
          List.range plan.combinations.length := by
        rw [List.range_eq_range']
        simp
      have distinct : (plan.combinations.zipIdx.map Prod.snd).Nodup :=
        indices ▸ List.nodup_range
      have renamed := distinct.map
        fun one two (same : instanceId jobId true one = instanceId jobId true two) =>
          instanceId_injective same
      rw [ids]
      rwa [List.map_map] at renamed
    · match instances with
      | [] => exact List.nodup_nil
      | [_] => exact List.nodup_singleton _
      | _ :: _ :: _ =>
          simp only [List.length_cons] at lengths
          omega
  · intro one first two second _
    obtain ⟨_, _, oneIs⟩ := are.instance_of_mem first
    obtain ⟨_, _, twoIs⟩ := are.instance_of_mem second
    rw [oneIs.needs, twoIs.needs]

theorem Expands.coherent {jobId : String} {call : PlannedDynamicReusableCall}
    {instances segment : List PlannedJob} (expands : Expands jobId call instances segment)
    (placeable : (∀ job ∈ instances, job.dynamicMatrix = none) →
      Placeable call.calledPlan.jobs) : Coherent segment := by
  cases expands with
  | template dynamic => exact ⟨List.nodup_singleton _, by simp⟩
  | @single placeholder called _ static expansion =>
      exact expansion.coherent (placeable (by simpa using static))
  | matrix static isMatrix => exact isMatrix.coherent (placeable static)

/-! ### Whole plans -/

section Plans

variable [Templates]

/-- The job ids of a workflow are GitHub identifiers. -/
def ValidWorkflow (workflow : Workflow) : Prop :=
  ∀ entry ∈ workflow.jobs, ValidId entry.1

/-- One call of a job without a dynamic matrix, from one workflow file to another. -/
def StaticCall (reusableWorkflows : BTreeMap Workflow) (caller callee : Workflow × String) :
    Prop :=
  ∃ entry ∈ caller.1.jobs, ∃ plan,
    Resolves reusableWorkflows caller.1 entry.1 entry.2 callee.1 callee.2 ∧
    expandMatrix (workflowNameAt caller.1 (forwardSlashes caller.2)) entry.1 entry.2.strategy =
      .ok plan ∧ plan.dynamic = none

/-- The workflow has a job with the id `gate` and at least one combination of its
matrix. -/
def NamesGate (file : Workflow × String) : Prop :=
  ∃ entry ∈ file.1.jobs, ∃ plan, entry.1 = "gate" ∧
    expandMatrix (workflowNameAt file.1 (forwardSlashes file.2)) entry.1 entry.2.strategy =
      .ok plan ∧ plan.combinations ≠ []

/-- No workflow that is called without a dynamic matrix, directly or through others,
names a job `gate`. -/
def GatesFree (reusableWorkflows : BTreeMap Workflow) (file : Workflow × String) : Prop :=
  ∀ callee, Relation.TransGen (StaticCall reusableWorkflows) file callee → ¬ NamesGate callee

omit [Serde] [Templates] in
theorem placeholderOf_strategy (job : Job) : (placeholderOf job).strategy = job.strategy := by
  unfold placeholderOf
  split <;> rfl

omit [Serde] [Templates] in
theorem IsContext.name_root {workflow : Workflow} {path : String} {context : CompileContext}
    (isContext : IsContext (rootOf workflow) path context) :
    context.workflowName = workflowNameAt workflow (forwardSlashes path) :=
  isContext.workflowName

/-- The instances of a part come from the matrix of its job in the workflow file. -/
theorem Part.areInstances {workflow : Workflow} {path : String} {context : CompileContext}
    {part : Part} (isContext : IsContext (rootOf workflow) path context)
    (compiled : compileJob context (rootOf workflow) (part.id, placeholderOf part.job) =
      .ok part.instances) :
    ∃ plan, AreInstances context part.id (placeholderOf part.job) plan part.instances ∧
      expandMatrix (workflowNameAt workflow (forwardSlashes path)) part.id part.job.strategy =
        .ok plan := by
  obtain ⟨plan, are⟩ := compileJob_ok compiled
  refine ⟨plan, are, ?_⟩
  rw [← placeholderOf_strategy, ← isContext.name_root]
  exact are.expanded

omit [Templates] in
theorem AreInstances.combinations_ne_nil {context : CompileContext} {jobId : String} {job : Job}
    {plan : MatrixPlan} {instances : List PlannedJob}
    (are : AreInstances context jobId job plan instances) :
    plan.combinations ≠ [] ↔ instances ≠ [] := by
  have lengths : plan.combinations.length = instances.length := by
    simpa using are.each.length_eq
  rw [← List.length_pos_iff, ← List.length_pos_iff, lengths]

omit [Templates] in
theorem AreInstances.static {context : CompileContext} {jobId : String} {job : Job}
    {plan : MatrixPlan} {instances : List PlannedJob}
    (are : AreInstances context jobId job plan instances) (present : instances ≠ [])
    (static : ∀ planned ∈ instances, planned.dynamicMatrix = none) : plan.dynamic = none := by
  obtain ⟨first, member⟩ := List.exists_mem_of_ne_nil instances present
  obtain ⟨_, _, is⟩ := are.instance_of_mem member
  rw [← is.dynamicMatrix]
  exact static first member

/-- What holds of every linked plan. -/
structure PlanFacts (reusableWorkflows : BTreeMap Workflow) (file : Workflow × String)
    (jobs : List PlannedJob) : Prop where
  suffixed : ∀ job ∈ jobs, Suffixed job
  gate : ∀ job ∈ jobs, job.baseId = "gate" → NamesGate file
  coherent : GatesFree reusableWorkflows file → Coherent jobs

theorem Links.planFacts {reusableWorkflows : BTreeMap Workflow}
    (validReusables : ∀ (path : String) called,
      reusableWorkflows[path]? = some called → ValidWorkflow called)
    {workflow : Workflow} {path : String} {plan : ExecutionPlan}
    (links : Links reusableWorkflows workflow path plan) (valid : ValidWorkflow workflow) :
    PlanFacts reusableWorkflows (workflow, path) plan.jobs := by
  induction links with
  | @intro workflow plan path context parts isContext entries jobs base valid' compiled own called
      linked inductionHypothesis =>
      have listed : ∀ part ∈ parts, (part.id, part.job) ∈ workflow.jobs :=
        fun part member => entries ▸ List.mem_map_of_mem member
      have plain : ∀ part ∈ parts, Plain part.id :=
        fun part member => (valid _ (listed part member)).plain
      have callee : ∀ part ∈ parts, ∀ found, part.call = some found →
          PlanFacts reusableWorkflows (found.workflow, found.path) found.call.calledPlan.jobs := by
        intro part member found isCall
        obtain ⟨_, _, _, present⟩ := (called part member found isCall).resolves
        exact inductionHypothesis part member found isCall (validReusables _ _ present)
      have named : ∀ part ∈ parts, ∀ job ∈ part.segment, NamedBy part.id job := by
        intro part member
        obtain ⟨matrix, are, _⟩ := Part.areInstances isContext (compiled part member)
        have early : ∀ job ∈ part.instances, NamedBy part.id job := by
          intro job inside
          obtain ⟨_, _, is⟩ := are.instance_of_mem inside
          exact is.namedBy (plain part member)
        cases call : part.call with
        | none =>
            rw [(own part member call).2]
            exact early
        | some found =>
            exact (expandCall_expands (called part member found call).expanded).namedBy
              (plain part member) early (callee part member found call).suffixed
      have present : ∀ part ∈ parts, part.segment ≠ [] → part.instances ≠ [] := by
        intro part member nonempty
        cases call : part.call with
        | none => rwa [← (own part member call).2]
        | some found => exact (called part member found call).instances
      rw [jobs]
      refine ⟨?_, ?_, ?_⟩
      · intro job member
        obtain ⟨part, inside, member⟩ := List.mem_flatMap.mp member
        exact (named part inside job member).suffixed
      · intro job member isGate
        obtain ⟨part, inside, member⟩ := List.mem_flatMap.mp member
        have names : part.id = "gate" := by
          have heads := (named part inside job member).baseId
          rw [isGate, head_plain plain_gate] at heads
          exact (String.toList_inj.mp heads).symm
        obtain ⟨matrix, are, expanded⟩ := Part.areInstances isContext (compiled part inside)
        refine ⟨_, listed part inside, matrix, names, expanded, ?_⟩
        exact are.combinations_ne_nil.mpr
          (present part inside (List.ne_nil_of_mem member))
      · intro gatesFree
        have groups := coherent_groups (parts.map fun part => (part.id.toList, part.segment)) ?_
          head ?_ ?_
        · rwa [List.flatMap_map] at groups
        · rw [List.map_map]
          have distinct := workflow.distinct
          rw [entries, List.map_map] at distinct
          have renamed := distinct.map fun _ _ => String.toList_inj.mp
          rwa [List.map_map] at renamed
        · intro group member
          obtain ⟨part, inside, rfl⟩ := List.mem_map.mp member
          obtain ⟨matrix, are, expanded⟩ := Part.areInstances isContext (compiled part inside)
          cases call : part.call with
          | none =>
              dsimp only
              rw [(own part inside call).2]
              exact are.coherent
          | some found =>
              have isCall := called part inside found call
              apply (expandCall_expands isCall.expanded).coherent
              intro static
              have edge : StaticCall reusableWorkflows (workflow, path)
                  (found.workflow, found.path) :=
                ⟨_, listed part inside, matrix, isCall.resolves, expanded,
                  are.static isCall.instances static⟩
              have facts := callee part inside found call
              refine ⟨facts.coherent ?_, facts.suffixed, ?_⟩
              · intro deeper reached
                exact gatesFree deeper (Relation.TransGen.head edge reached)
              · intro job member isGate
                exact gatesFree _ (Relation.TransGen.single edge) (facts.gate job member isGate)
        · intro group member job inside
          obtain ⟨part, listed, rfl⟩ := List.mem_map.mp member
          have facts := named part listed job inside
          exact ⟨facts.id, facts.baseId⟩

/-! A called job with the id `gate` takes the id of the gate it needs. -/

def SelfNeeding (jobs : List PlannedJob) : Prop := ∃ job ∈ jobs, job.baseId ∈ job.needs

omit [Templates] in
theorem IsExpansion.selfNeeding {site : CallSite} {called segment : List PlannedJob}
    (expansion : IsExpansion site called segment) {early : PlannedJob}
    (member : early ∈ site.calledPlan.jobs)
    (clash : early.baseId = "gate" ∨ early.baseId ∈ early.needs) : SelfNeeding segment := by
  obtain ⟨planned, inside, isCalled⟩ := Outcomes.forall₂_mem_right expansion.each.flip member
  refine ⟨planned, ?_, ?_⟩
  · rw [expansion.jobs]
    exact List.mem_append_left _ (List.mem_cons_of_mem _ inside)
  · rw [isCalled.baseId, isCalled.needs, List.mem_append]
    rcases clash with isGate | needsItself
    · right
      rw [isGate, gateId_eq]
      exact List.mem_singleton_self _
    · left
      exact List.mem_map_of_mem needsItself

omit [Templates] in
theorem Expands.selfNeeding {jobId : String} {call : PlannedDynamicReusableCall}
    {instances segment : List PlannedJob} (expands : Expands jobId call instances segment)
    (static : ∀ job ∈ instances, job.dynamicMatrix = none) {early : PlannedJob}
    (member : early ∈ call.calledPlan.jobs)
    (clash : early.baseId = "gate" ∨ early.baseId ∈ early.needs) : SelfNeeding segment := by
  cases expands with
  | template dynamic => simp [static _ List.mem_cons_self] at dynamic
  | single _ expansion => exact expansion.selfNeeding member clash
  | matrix _ isMatrix =>
      obtain ⟨groups, indices, each, same⟩ := isMatrix.exists_groups
      have nonempty : groups ≠ [] := by
        rintro rfl
        simp at indices
      obtain ⟨group, listed⟩ := List.exists_mem_of_ne_nil groups nonempty
      obtain ⟨placeholder, _, called, expansion⟩ := each group listed
      obtain ⟨job, inside, needsItself⟩ := expansion.selfNeeding member clash
      rw [same]
      exact ⟨job, List.mem_append_left _ (List.mem_flatMap.mpr ⟨group, listed, inside⟩),
        needsItself⟩

omit [Templates] in
/-- A job of the workflow keeps its base id in the plan. -/
theorem Expands.exists_baseId {jobId : String} {call : PlannedDynamicReusableCall}
    {instances segment : List PlannedJob} (expands : Expands jobId call instances segment)
    (based : ∀ job ∈ instances, job.baseId = jobId) : ∃ job ∈ segment, job.baseId = jobId := by
  cases expands with
  | @template template dynamic =>
      exact ⟨_, List.mem_cons_self, based template List.mem_cons_self⟩
  | @single placeholder _ _ _ expansion =>
      refine ⟨(siteFor jobId call placeholder).result, ?_, rfl⟩
      rw [expansion.jobs]
      exact List.mem_append_right _ List.mem_cons_self
  | @matrix first rest _ _ isMatrix =>
      obtain ⟨groups, _, _, same⟩ := isMatrix.exists_groups
      refine ⟨reusableMatrixResult jobId first (invocationIds jobId (first :: rest)), ?_, rfl⟩
      rw [same]
      exact List.mem_append_right _ List.mem_cons_self

theorem Links.exists_gate {reusableWorkflows : BTreeMap Workflow} {workflow : Workflow}
    {path : String} {plan : ExecutionPlan} (links : Links reusableWorkflows workflow path plan)
    (names : NamesGate (workflow, path)) : ∃ job ∈ plan.jobs, job.baseId = "gate" := by
  obtain ⟨⟨jobId, job⟩, listed, matrix, isGate, expanded, present⟩ := names
  cases links with
  | @intro _ _ _ context parts isContext entries jobs base valid compiled own called linked =>
      rw [entries] at listed
      obtain ⟨part, inside, same⟩ := List.mem_map.mp listed
      cases same
      obtain ⟨plan', are, expanded'⟩ := Part.areInstances isContext (compiled part inside)
      cases expanded.symm.trans expanded'
      have nonempty := are.combinations_ne_nil.mp present
      have based : ∀ job ∈ part.instances, job.baseId = part.id := by
        intro job member
        obtain ⟨_, _, is⟩ := are.instance_of_mem member
        exact is.baseId
      have found : ∃ job ∈ part.segment, job.baseId = part.id := by
        cases call : part.call with
        | none =>
            rw [(own part inside call).2]
            obtain ⟨first, member⟩ := List.exists_mem_of_ne_nil _ nonempty
            exact ⟨first, member, based first member⟩
        | some found =>
            exact (expandCall_expands (called part inside found call).expanded).exists_baseId based
      obtain ⟨job, member, same⟩ := found
      rw [jobs]
      exact ⟨job, List.mem_flatMap.mpr ⟨part, inside, member⟩, same.trans isGate⟩

/-- Along a static call, a clash in the called plan makes a job of the plan need itself. -/
theorem Links.selfNeeding_of_call {reusableWorkflows : BTreeMap Workflow} {workflow : Workflow}
    {path : String} {plan : ExecutionPlan} (links : Links reusableWorkflows workflow path plan)
    {callee : Workflow × String} (edge : StaticCall reusableWorkflows (workflow, path) callee)
    (clash : ∀ calledPlan, Links reusableWorkflows callee.1 callee.2 calledPlan →
      ∃ job ∈ calledPlan.jobs, job.baseId = "gate" ∨ job.baseId ∈ job.needs) :
    SelfNeeding plan.jobs := by
  obtain ⟨⟨jobId, job⟩, listed, matrix, resolves, expanded, static⟩ := edge
  cases links with
  | @intro _ _ _ context parts isContext entries jobs base valid compiled own called linked =>
      rw [entries] at listed
      obtain ⟨part, inside, same⟩ := List.mem_map.mp listed
      cases same
      obtain ⟨plan', are, expanded'⟩ := Part.areInstances isContext (compiled part inside)
      cases expanded.symm.trans expanded'
      obtain ⟨uses, named, resolved, found⟩ := resolves
      cases call : part.call with
      | none =>
          have isOwn := (own part inside call).1
          simp [isOwn] at named
      | some target =>
          have isCall := called part inside target call
          obtain ⟨uses', named', resolved', found'⟩ := isCall.resolves
          cases named.symm.trans named'
          have samePath : callee.2 = target.path := Except.ok.inj (resolved.symm.trans resolved')
          rw [samePath] at found
          have sameWorkflow : callee.1 = target.workflow :=
            Option.some.inj (found.symm.trans found')
          rw [sameWorkflow, samePath] at clash
          obtain ⟨early, member, clashes⟩ := clash _ (linked part inside target call)
          have staticInstances : ∀ job ∈ part.instances, job.dynamicMatrix = none := by
            intro job member
            obtain ⟨_, _, is⟩ := are.instance_of_mem member
            rw [is.dynamicMatrix, static]
          obtain ⟨job, within, needsItself⟩ := (expandCall_expands isCall.expanded).selfNeeding
            staticInstances member clashes
          rw [jobs]
          exact ⟨job, List.mem_flatMap.mpr ⟨part, inside, within⟩, needsItself⟩

theorem Links.selfNeeding {reusableWorkflows : BTreeMap Workflow} {file callee : Workflow × String}
    (reached : Relation.TransGen (StaticCall reusableWorkflows) file callee)
    (names : NamesGate callee) {plan : ExecutionPlan}
    (links : Links reusableWorkflows file.1 file.2 plan) : SelfNeeding plan.jobs := by
  induction reached using Relation.TransGen.head_induction_on generalizing plan with
  | single edge =>
      apply links.selfNeeding_of_call edge
      intro calledPlan calledLinks
      obtain ⟨job, member, isGate⟩ := calledLinks.exists_gate names
      exact ⟨job, member, .inl isGate⟩
  | head edge _ inductionHypothesis =>
      apply links.selfNeeding_of_call edge
      intro calledPlan calledLinks
      obtain ⟨job, member, needsItself⟩ := inductionHypothesis calledLinks
      exact ⟨job, member, .inr needsItself⟩

/-- A linked plan is well linked exactly when no workflow called without a dynamic
matrix names one of its jobs like a gate. -/
theorem linked_plan_wellLinked_iff (workflow : Workflow) (path : String)
    (reusableWorkflows : BTreeMap Workflow) (plan : ExecutionPlan)
    (valid : ValidWorkflow workflow)
    (validReusables : ∀ (path : String) called,
      reusableWorkflows[path]? = some called → ValidWorkflow called)
    (compiled : compileWithReusables workflow path reusableWorkflows = .ok plan) :
    WellLinked plan.jobs ↔ GatesFree reusableWorkflows (workflow, path) := by
  have links := compileWithReusables_links compiled
  constructor
  · intro wellLinked callee reached names
    obtain ⟨job, member, needsItself⟩ := Links.selfNeeding reached names links
    exact wellLinked.proper job member needsItself
  · intro gatesFree
    have coherent := (links.planFacts validReusables valid).coherent gatesFree
    cases links with
    | intro _ _ _ _ validated => exact coherent.wellLinked validated

end Plans

end Linked

/-! ### A called job named `gate` -/

namespace Sample

/-- Matrix values are their text, and templates hold no expressions. -/
scoped instance serde : Serde where
  Json := String
  decEq := inferInstance
  yamlToJson value := match value.asStr with
    | some text => .ok text
    | none => .error "matrix value is not JSON-compatible"

scoped instance templates : Templates where
  analyzeTemplate _ := .ok {}

def runner : Job where
  runsOn := some (.string "macos-latest")
  steps := [{ run := some "true" }]

def calleePath : String := ".github/workflows/callee.yml"

/-- A reusable workflow with one job. -/
def callee (jobId : String) : Workflow where
  name := "callee"
  trigger := .string "workflow_call"
  jobs := [(jobId, runner)]
  distinct := by simp

def caller : Workflow where
  name := "caller"
  jobs := [("call", { uses := some "./.github/workflows/callee.yml" })]
  distinct := by decide

def reusables (jobId : String) : BTreeMap Workflow :=
  (∅ : BTreeMap Workflow).insert calleePath (callee jobId)

def linked (jobId : String) : Outcome ExecutionPlan :=
  compileWithReusables caller ".github/workflows/ci.yml" (reusables jobId)

def idsOf : Outcome ExecutionPlan → Option (List String)
  | .ok plan => some (plan.jobs.map (·.id))
  | .error _ => none

theorem exists_of_idsOf (outcome : Outcome ExecutionPlan) (ids : List String)
    (same : idsOf outcome = some ids) :
    ∃ plan, outcome = .ok plan ∧ plan.jobs.map (·.id) = ids := by
  cases outcome with
  | error failure => cases same
  | ok plan => exact ⟨plan, rfl, Option.some.inj same⟩

theorem validId_of_chars {id : String} {first : Char} (rest : List Char)
    (chars : id.toList = first :: rest) (firstOk : isAsciiAlphabetic first = true)
    (restOk : rest.all isAsciiAlphanumeric = true) : ValidId id :=
  ⟨first, rest, chars, .inl firstOk, fun char member =>
    .inl (List.all_eq_true.mp restOk char member)⟩

theorem caller_valid : ValidWorkflow caller := by
  intro entry member
  cases List.mem_singleton.mp member
  exact validId_of_chars "all".toList rfl (by decide) (by decide)

theorem reusables_valid {jobId : String} (valid : ValidId jobId) (path : String)
    (called : Workflow) (found : (reusables jobId)[path]? = some called) :
    ValidWorkflow called := by
  rw [reusables, Std.ExtTreeMap.getElem?_insert] at found
  split at found
  · cases found
    intro entry member
    cases List.mem_singleton.mp member
    exact valid
  · simp at found

/-- The called job `gate` and the gate of the call share the id `call::gate`. -/
theorem called_gate_breaks_plan :
    ValidWorkflow caller ∧
    (∀ (path : String) called, (reusables "gate")[path]? = some called → ValidWorkflow called) ∧
    ∃ plan, compileWithReusables caller ".github/workflows/ci.yml" (reusables "gate") = .ok plan ∧
      ¬ WellLinked plan.jobs := by
  have valid : ValidId "gate" :=
    validId_of_chars "ate".toList rfl (by decide) (by decide)
  refine ⟨caller_valid, reusables_valid valid, ?_⟩
  obtain ⟨plan, ran, ids⟩ :=
    exists_of_idsOf (linked "gate") ["call::gate", "call::gate", "call"] (by decide +kernel)
  refine ⟨plan, ran, fun wellLinked => ?_⟩
  have distinct := wellLinked.distinct
  rw [ids] at distinct
  exact absurd distinct (by decide)

theorem staticCall_caller {jobId : String} {file : Workflow × String}
    (edge : StaticCall (reusables jobId) (caller, ".github/workflows/ci.yml") file) :
    file = (callee jobId, calleePath) := by
  obtain ⟨entry, member, _, resolves, _⟩ := edge
  cases List.mem_singleton.mp member
  obtain ⟨uses, named, resolved, found⟩ := resolves
  cases named
  have path : file.2 = calleePath := by
    have computed : reusablePath caller.name "call" "./.github/workflows/callee.yml"
        (reusables jobId) = .ok calleePath := rfl
    exact Except.ok.inj (resolved.symm.trans computed)
  rw [path, reusables, Std.ExtTreeMap.getElem?_insert_self] at found
  exact Prod.ext (Option.some.inj found).symm path

theorem no_staticCall_callee {jobId : String} {path : String} {file : Workflow × String} :
    ¬ StaticCall (reusables jobId) (callee jobId, path) file := by
  rintro ⟨entry, member, _, ⟨uses, named, _⟩, _⟩
  cases List.mem_singleton.mp member
  cases named

theorem gatesFree_build : GatesFree (reusables "build") (caller, ".github/workflows/ci.yml") := by
  intro file reached
  have isCallee : file = (callee "build", calleePath) := by
    induction reached with
    | single edge => exact staticCall_caller edge
    | tail _ edge inductionHypothesis =>
        rw [inductionHypothesis] at edge
        exact absurd edge no_staticCall_callee
  rw [isCallee]
  rintro ⟨entry, member, _, isGate, _⟩
  cases List.mem_singleton.mp member
  exact absurd isGate (by decide)

/-- A call of a workflow with one job. -/
theorem called_build_wellLinked :
    ∃ plan, compileWithReusables caller ".github/workflows/ci.yml" (reusables "build") = .ok plan ∧
      plan.jobs.map (·.id) = ["call::gate", "call::build", "call"] ∧ WellLinked plan.jobs := by
  have valid : ValidId "build" :=
    validId_of_chars "uild".toList rfl (by decide) (by decide)
  obtain ⟨plan, ran, ids⟩ :=
    exists_of_idsOf (linked "build") ["call::gate", "call::build", "call"] (by decide +kernel)
  exact ⟨plan, ran, ids, (linked_plan_wellLinked_iff caller _ (reusables "build") plan caller_valid
    (reusables_valid valid) ran).mpr gatesFree_build⟩

end Sample

end GitZero.Workflows
