/-
Module: GitZero.Workflow.Expansion
Purpose: What an expanded call looks like: the gate, the called jobs under the name of
  the call, and the result; for a matrix, one such expansion for each combination.
Trusted boundary: none
Main exports: IsCalled, IsExpansion, siteFor, IsMatrix, Expands, expandCall_expands,
  expandDynamicReusableCall_isMatrix, IsMatrix.exists_groups
-/
import GitZero.Workflow.Links
import GitZero.Workflow.Names

namespace GitZero.Workflows

open Outcomes

variable [Serde]

/-! ### One called job -/

/-- The virtual job of a called job keeps its kind; only the ids in it change. -/
inductive SameKind : Option PlannedVirtualJob → Option PlannedVirtualJob → Prop where
  | none : SameKind none none
  | gate : SameKind (some .reusableGate) (some .reusableGate)
  | result (jobs renamed outputs : BTreeMap String) :
      SameKind (some (.reusableResult jobs outputs)) (some (.reusableResult renamed outputs))
  | matrixResult (invocations renamed : List String) (maxParallel : Nat) (failFast : Bool) :
      SameKind (some (.reusableMatrixResult invocations maxParallel failFast))
        (some (.reusableMatrixResult renamed maxParallel failFast))
  | dynamicCall (call : PlannedDynamicReusableCall) :
      SameKind (some (.reusableDynamicCall call)) (some (.reusableDynamicCall call))

/-- What a job of a called workflow becomes where it is called. -/
structure IsCalled (site : CallSite) (job planned : PlannedJob) : Prop where
  id : ∃ suffix, sliceFrom job.id.toList (byteLength job.baseId.toList) = some suffix ∧
    planned.id = planned.baseId ++ String.ofList suffix
  baseId : planned.baseId = under site.jobId job.baseId
  needs : planned.needs = job.needs.map (under site.jobId) ++ [site.gateId]
  permissions : planned.permissions = job.permissions.intersect site.placeholder.permissions
  scopeIds : planned.concurrencyScopeIds =
    site.invocationScopeIds ++ job.concurrencyScopeIds.map (under site.jobId)
  acquire : planned.concurrencyAcquire = job.concurrencyAcquire.map site.acquireUnder
  release : planned.concurrencyRelease = job.concurrencyRelease.map (under site.jobId)
  kind : SameKind job.virtualJob planned.virtualJob

theorem gateId_eq (site : CallSite) : site.gateId = under site.jobId "gate" := by
  have separator : ("::gate" : String) = "::" ++ "gate" := rfl
  change site.jobId ++ "::gate" = _
  rw [separator, under, ← String.append_assoc]

theorem getElem?_aliases {site : CallSite} {baseId found : String} :
    site.aliases[baseId]? = some found ↔
      baseId ∈ site.calledPlan.jobs.map (·.baseId) ∧ found = under site.jobId baseId := by
  have asKeys : (site.calledPlan.jobs.map fun job =>
      (job.baseId, s!"{site.jobId}::{job.baseId}")) =
      (site.calledPlan.jobs.map (·.baseId)).map fun key => (key, under site.jobId key) := by
    rw [List.map_map]
    rfl
  rw [CallSite.aliases, asKeys]
  exact OrderedMaps.getElem?_ofList_keyed

theorem aliasOf_ok {site : CallSite} {baseId found : String}
    (ran : site.aliasOf baseId = .ok found) : found = under site.jobId baseId :=
  (getElem?_aliases.mp (expect_eq_ok.mp ran)).2

theorem mapM_aliasOf_ok {site : CallSite} {names found : List String}
    (ran : names.mapM site.aliasOf = .ok found) : found = names.map (under site.jobId) := by
  have all := mapM_eq_ok.mp ran
  induction all with
  | nil => rfl
  | cons first _ inductionHypothesis =>
      rw [List.map_cons, ← aliasOf_ok first, inductionHypothesis (mapM_eq_ok.mpr ‹_›)]

theorem virtualUnder_ok {site : CallSite} {virtual renamed : Option PlannedVirtualJob}
    (ran : virtual.mapM site.virtualUnder = .ok renamed) : SameKind virtual renamed := by
  cases virtual with
  | none =>
      cases pure_eq_ok.mp ran
      exact .none
  | some virtual =>
      obtain ⟨found, inner, same⟩ := bind_eq_ok.mp ran
      cases pure_eq_ok.mp same
      cases virtual with
      | reusableGate =>
          cases pure_eq_ok.mp inner
          exact .gate
      | reusableResult jobs outputs =>
          obtain ⟨renamed, _, inner⟩ := bind_eq_ok.mp inner
          obtain rfl := pure_eq_ok.mp inner
          exact .result jobs renamed outputs
      | reusableMatrixResult invocations maxParallel failFast =>
          obtain ⟨renamed, _, inner⟩ := bind_eq_ok.mp inner
          obtain rfl := pure_eq_ok.mp inner
          exact .matrixResult invocations renamed maxParallel failFast
      | reusableDynamicCall call =>
          cases pure_eq_ok.mp inner
          exact .dynamicCall call

theorem calledJob_ok {site : CallSite} {job planned : PlannedJob}
    (ran : site.calledJob job = .ok planned) : IsCalled site job planned := by
  unfold CallSite.calledJob at ran
  obtain ⟨baseId, renamed, ran⟩ := bind_eq_ok.mp ran
  obtain ⟨suffix, sliced, ran⟩ := bind_eq_ok.mp ran
  obtain ⟨needs, renamedNeeds, ran⟩ := bind_eq_ok.mp ran
  obtain ⟨needAliases, _, ran⟩ := bind_eq_ok.mp ran
  obtain ⟨virtualJob, renamedVirtual, ran⟩ := bind_eq_ok.mp ran
  cases pure_eq_ok.mp ran
  exact {
    id := ⟨suffix, expect_eq_ok.mp sliced, rfl⟩
    baseId := aliasOf_ok renamed
    needs := by rw [mapM_aliasOf_ok renamedNeeds]
    permissions := rfl, scopeIds := rfl, acquire := rfl, release := rfl
    kind := virtualUnder_ok renamedVirtual }

/-! ### One expansion -/

/-- The jobs that stand for one invocation of a called workflow. -/
structure IsExpansion (site : CallSite) (called segment : List PlannedJob) : Prop where
  computed : List.Forall₂ (fun job planned => site.calledJob job = .ok planned)
    site.calledPlan.jobs called
  jobs : segment = site.gate :: called ++ [site.result]

theorem IsExpansion.each {site : CallSite} {called segment : List PlannedJob}
    (expansion : IsExpansion site called segment) :
    List.Forall₂ (IsCalled site) site.calledPlan.jobs called :=
  expansion.computed.imp fun _ _ => calledJob_ok

/-- The jobs of one expansion, by their place. -/
theorem IsExpansion.mem_cases {site : CallSite} {called segment : List PlannedJob}
    (expansion : IsExpansion site called segment) {job : PlannedJob} (member : job ∈ segment) :
    job = site.gate ∨ job = site.result ∨
      (job ∈ called ∧ ∃ early ∈ site.calledPlan.jobs, IsCalled site early job) := by
  rw [expansion.jobs, List.mem_append, List.mem_cons, List.mem_singleton] at member
  rcases member with (isGate | inside) | isResult
  · exact .inl isGate
  · exact .inr (.inr ⟨inside, forall₂_mem_right expansion.each inside⟩)
  · exact .inr (.inl isResult)

theorem expandReusableCall_ok {site : CallSite} {segment : List PlannedJob}
    (ran : expandReusableCall site = .ok segment) : ∃ called, IsExpansion site called segment := by
  unfold expandReusableCall at ran
  obtain ⟨called, all, ran⟩ := bind_eq_ok.mp ran
  cases pure_eq_ok.mp ran
  exact ⟨called, mapM_eq_ok.mp all, rfl⟩

/-! ### A whole call -/

/-- A call as the place at which its plan is put. -/
def siteFor (jobId : String) (call : PlannedDynamicReusableCall) (placeholder : PlannedJob) :
    CallSite where
  jobId
  placeholder
  calledPlan := call.calledPlan
  inputs := call.inputs
  secrets := call.secrets
  outputs := call.outputs

/-- The segment of a matrix: an expansion for each instance, then the matrix result. -/
structure IsMatrix (jobId : String) (call : PlannedDynamicReusableCall) (template : PlannedJob)
    (instances segment : List PlannedJob) : Prop where
  expansions : ∃ expanded, List.Forall₂ (fun entry expansion =>
      ∃ called, IsExpansion (siteFor (invocationId jobId entry.2) call entry.1) called expansion)
      instances.zipIdx expanded ∧
    segment = expanded.flatten ++
      [reusableMatrixResult jobId template (invocationIds jobId instances)]

/-- The segment that stands for a calling job, by the number of its instances. -/
inductive Expands (jobId : String) (call : PlannedDynamicReusableCall) :
    List PlannedJob → List PlannedJob → Prop where
  | template {template : PlannedJob} (dynamic : template.dynamicMatrix.isSome) :
      Expands jobId call [template]
        [{ template with virtualJob := some (.reusableDynamicCall call) }]
  | single {placeholder : PlannedJob} {called segment : List PlannedJob}
      (static : placeholder.dynamicMatrix = none)
      (expansion : IsExpansion (siteFor jobId call placeholder) called segment) :
      Expands jobId call [placeholder] segment
  | matrix {first : PlannedJob} {rest segment : List PlannedJob}
      (static : ∀ job ∈ first :: rest, job.dynamicMatrix = none)
      (isMatrix : IsMatrix jobId call first (first :: rest) segment) :
      Expands jobId call (first :: rest) segment

theorem expandInvocations_ok {jobId : String} {instances jobs : List PlannedJob}
    {call : PlannedDynamicReusableCall}
    (ran : expandInvocations jobId instances call = .ok jobs) :
    ∃ expanded, List.Forall₂ (fun entry expansion =>
        ∃ called, IsExpansion (siteFor (invocationId jobId entry.2) call entry.1) called expansion)
        instances.zipIdx expanded ∧ jobs = expanded.flatten := by
  unfold expandInvocations at ran
  obtain ⟨expanded, all, ran⟩ := bind_eq_ok.mp ran
  cases pure_eq_ok.mp ran
  exact ⟨expanded, (mapM_eq_ok.mp all).imp fun _ _ => expandReusableCall_ok, rfl⟩

/-- What the linker puts in place of a call. -/
theorem expandCall_expands {workflow jobId : String} {instances segment : List PlannedJob}
    {call : PlannedDynamicReusableCall}
    (ran : expandCall workflow jobId instances call = .ok segment) :
    Expands jobId call instances segment := by
  unfold expandCall at ran
  split at ran
  · next dynamic =>
      match instances with
      | [] => cases ran
      | [template] =>
          cases ran
          exact .template (by simpa using dynamic)
      | _ :: _ :: _ => cases ran
  · next static =>
      have allStatic : ∀ job ∈ instances, job.dynamicMatrix = none := by
        intro job member
        by_contra isDynamic
        exact static (List.any_eq_true.mpr ⟨job, member, Option.isSome_iff_ne_none.mpr isDynamic⟩)
      match instances with
      | [] =>
          obtain ⟨_, _, ran⟩ := bind_eq_ok.mp ran
          cases ran
      | [placeholder] =>
          obtain ⟨called, expansion⟩ := expandReusableCall_ok ran
          exact .single (allStatic placeholder List.mem_cons_self) expansion
      | first :: second :: rest =>
          obtain ⟨jobs, expanded, ran⟩ := bind_eq_ok.mp ran
          obtain ⟨found, isFirst, ran⟩ := bind_eq_ok.mp ran
          cases pure_eq_ok.mp ran
          cases isFirst
          obtain ⟨expansions, all, same⟩ := expandInvocations_ok expanded
          exact .matrix allStatic ⟨expansions, all, by rw [same]⟩

/-- What takes the place of a template. -/
theorem expandDynamicReusableCall_isMatrix {template : PlannedJob}
    {instances jobs : List PlannedJob}
    {call : PlannedDynamicReusableCall}
    (ran : expandDynamicReusableCall template instances call = .ok jobs) :
    IsMatrix template.baseId call template instances jobs := by
  unfold expandDynamicReusableCall at ran
  obtain ⟨expanded, all, ran⟩ := bind_eq_ok.mp ran
  cases pure_eq_ok.mp ran
  obtain ⟨expansions, each, same⟩ := expandInvocations_ok all
  exact ⟨expansions, each, by rw [same]⟩

/-- The expansions of a matrix, each with its index. -/
theorem IsMatrix.exists_groups {jobId : String} {call : PlannedDynamicReusableCall}
    {template : PlannedJob} {instances segment : List PlannedJob}
    (isMatrix : IsMatrix jobId call template instances segment) :
    ∃ groups : List (Nat × List PlannedJob),
      groups.map Prod.fst = List.range instances.length ∧
      (∀ group ∈ groups, ∃ placeholder ∈ instances, ∃ called,
        IsExpansion (siteFor (under jobId (matrixName group.1)) call placeholder) called group.2) ∧
      segment = groups.flatMap Prod.snd ++
        [reusableMatrixResult jobId template (invocationIds jobId instances)] := by
  obtain ⟨expanded, all, same⟩ := isMatrix.expansions
  obtain ⟨lengths, each⟩ := List.forall₂_iff_zip.mp all
  refine ⟨(instances.zipIdx.zip expanded).map fun pair => (pair.1.2, pair.2), ?_, ?_, ?_⟩
  · have firsts : (instances.zipIdx.zip expanded).map Prod.fst = instances.zipIdx :=
      List.map_fst_zip (le_of_eq lengths)
    have indices := congrArg (List.map Prod.snd) firsts
    rw [List.map_map] at indices ⊢
    rw [List.range_eq_range']
    simpa [Function.comp_def] using indices
  · intro group member
    obtain ⟨⟨⟨placeholder, index⟩, expansion⟩, inside, same⟩ := List.mem_map.mp member
    cases same
    obtain ⟨called, isExpansion⟩ := each inside
    rw [invocationId_eq] at isExpansion
    exact ⟨placeholder, List.fst_mem_of_mem_zipIdx (List.of_mem_zip inside).1, called, isExpansion⟩
  · have seconds : (instances.zipIdx.zip expanded).map Prod.snd = expanded :=
      List.map_snd_zip (le_of_eq lengths.symm)
    have flat : expanded.flatten = (instances.zipIdx.zip expanded).flatMap Prod.snd := by
      rw [List.flatMap_def, seconds]
    rw [List.flatMap_map, same, flat]

end GitZero.Workflows
