/-
Module: GitZero.Proofs.LinkerPanics
Purpose: When the linker panics: exactly when it arrives at a calling job whose matrix
  expands to no combination.
Trusted boundary: none
Main exports: Sealed, Reaches, Enters, Strands, compileWithReusables_returns_iff
-/
import GitZero.Proofs.PlanIdentity
import GitZero.Workflow.Returns

namespace GitZero.Workflows

open Outcomes

section Linker

variable [Serde]

/-! ### The names that a job looks up -/

def baseIds (jobs : List PlannedJob) : List String := jobs.map (·.baseId)

theorem mem_baseIds {jobs : List PlannedJob} {job : PlannedJob} (member : job ∈ jobs) :
    job.baseId ∈ baseIds jobs :=
  List.mem_map_of_mem member

def PlannedVirtualJob.names : PlannedVirtualJob → List String
  | .reusableResult jobs _ => jobs.toList.map Prod.snd
  | .reusableMatrixResult invocations _ _ => invocations
  | .reusableGate => []
  | .reusableDynamicCall _ => []

/-- What an expansion of the plan replaces in a job through its aliases. -/
def namesOf (job : PlannedJob) : List String :=
  job.needs ++ job.needAliases.toList.map Prod.snd ++ job.virtualJob.toList.flatMap (·.names)

/-- A job that can be placed under a call: its id starts with its base id, and the names
in it are base ids of the plan. -/
structure Sealed (bases : List String) (job : PlannedJob) : Prop where
  id : ∃ suffix : List Char, job.id = job.baseId ++ String.ofList suffix
  names : ∀ name ∈ namesOf job, name ∈ bases

theorem mem_namesOf {job : PlannedJob} {name : String} :
    name ∈ namesOf job ↔ name ∈ job.needs ∨ (∃ key : String, job.needAliases[key]? = some name) ∨
      ∃ virtual, job.virtualJob = some virtual ∧ name ∈ virtual.names := by
  simp [namesOf, Std.ExtTreeMap.mem_toList_iff_getElem?_eq_some]

section Site

variable {site : CallSite}

theorem returns_aliasOf {name : String} (known : name ∈ baseIds site.calledPlan.jobs) :
    Returns (site.aliasOf name) := by
  apply returns_expect
  rw [Option.isSome_iff_exists]
  exact ⟨_, getElem?_aliases.mpr ⟨known, rfl⟩⟩

theorem returns_aliasValues {map : BTreeMap String}
    (known : ∀ entry ∈ map.toList, entry.2 ∈ baseIds site.calledPlan.jobs) :
    Returns (site.aliasValues map) := by
  unfold CallSite.aliasValues
  apply avoids_bind
  · apply avoids_mapM
    intro entry member
    apply avoids_bind (returns_aliasOf (known entry member))
    simp
  · simp

/-- The values of an aliased map are the old values under the name of the call. -/
theorem aliasValues_ok {map renamed : BTreeMap String} (ran : site.aliasValues map = .ok renamed)
    {key value : String} (found : renamed[key]? = some value) :
    ∃ early, map[key]? = some early ∧ value = under site.jobId early := by
  unfold CallSite.aliasValues at ran
  obtain ⟨entries, all, ran⟩ := bind_eq_ok.mp ran
  cases pure_eq_ok.mp ran
  have listed := OrderedMaps.getElem?_ofList_eq_some found
  obtain ⟨early, member, aliased⟩ := forall₂_mem_right (mapM_eq_ok.mp all) listed
  obtain ⟨name, aliased, same⟩ := bind_eq_ok.mp aliased
  cases pure_eq_ok.mp same
  exact ⟨early.2, Std.ExtTreeMap.mem_toList_iff_getElem?_eq_some.mp member, aliasOf_ok aliased⟩

theorem returns_virtualUnder {virtual : PlannedVirtualJob}
    (known : ∀ name ∈ virtual.names, name ∈ baseIds site.calledPlan.jobs) :
    Returns (site.virtualUnder virtual) := by
  cases virtual with
  | reusableGate => exact returns_ok _
  | reusableDynamicCall call => exact returns_ok _
  | reusableResult jobs outputs =>
      apply avoids_bind
      · apply returns_aliasValues
        intro entry member
        exact known entry.2 (List.mem_map_of_mem member)
      · simp
  | reusableMatrixResult invocations maxParallel failFast =>
      apply avoids_bind
      · exact avoids_mapM fun name member => returns_aliasOf (known name member)
      · simp

/-- The names of a virtual job under a call. -/
theorem virtualUnder_names {virtual renamed : PlannedVirtualJob}
    (ran : site.virtualUnder virtual = .ok renamed) {name : String}
    (member : name ∈ renamed.names) : ∃ early ∈ virtual.names, name = under site.jobId early := by
  cases virtual with
  | reusableGate =>
      cases pure_eq_ok.mp ran
      cases member
  | reusableDynamicCall call =>
      cases pure_eq_ok.mp ran
      cases member
  | reusableResult jobs outputs =>
      obtain ⟨values, aliased, ran⟩ := bind_eq_ok.mp ran
      obtain rfl := pure_eq_ok.mp ran
      obtain ⟨entry, listed, same⟩ := List.mem_map.mp member
      obtain ⟨early, found, renamed⟩ :=
        aliasValues_ok aliased (Std.ExtTreeMap.mem_toList_iff_getElem?_eq_some.mp listed)
      refine ⟨early, ?_, same ▸ renamed⟩
      exact List.mem_map.mpr
        ⟨(entry.1, early), Std.ExtTreeMap.mem_toList_iff_getElem?_eq_some.mpr found, rfl⟩
  | reusableMatrixResult invocations maxParallel failFast =>
      obtain ⟨values, aliased, ran⟩ := bind_eq_ok.mp ran
      obtain rfl := pure_eq_ok.mp ran
      have same := mapM_aliasOf_ok aliased
      rw [PlannedVirtualJob.names, same] at member
      obtain ⟨early, listed, renamed⟩ := List.mem_map.mp member
      exact ⟨early, listed, renamed.symm⟩

theorem returns_calledJob {job : PlannedJob} (member : job ∈ site.calledPlan.jobs)
    (isSealed : Sealed (baseIds site.calledPlan.jobs) job) : Returns (site.calledJob job) := by
  unfold CallSite.calledJob
  apply avoids_bind (returns_aliasOf (List.mem_map_of_mem member))
  intro _ _
  apply avoids_bind
  · apply returns_expect
    obtain ⟨suffix, same⟩ := isSealed.id
    rw [same, String.toList_append, String.toList_ofList, sliceFrom_append]
    rfl
  intro _ _
  apply avoids_bind
  · apply avoids_mapM
    intro name listed
    exact returns_aliasOf (isSealed.names name (mem_namesOf.mpr (.inl listed)))
  intro _ _
  apply avoids_bind
  · apply returns_aliasValues
    intro entry listed
    apply isSealed.names
    exact mem_namesOf.mpr (.inr (.inl
      ⟨entry.1, Std.ExtTreeMap.mem_toList_iff_getElem?_eq_some.mp listed⟩))
  intro _ _
  apply avoids_bind
  · cases isVirtual : job.virtualJob with
    | none => exact returns_ok _
    | some virtual =>
        apply avoids_bind
        · apply returns_virtualUnder
          intro name listed
          exact isSealed.names name (mem_namesOf.mpr (.inr (.inr ⟨virtual, isVirtual, listed⟩)))
        · simp
  · simp

/-- A called job names the called jobs under the call, the gate and the jobs that the
calling job needs. -/
theorem calledJob_names {job planned : PlannedJob} (ran : site.calledJob job = .ok planned)
    {name : String} (member : name ∈ namesOf planned) :
    (∃ early ∈ namesOf job, name = under site.jobId early) ∨ name = site.gateId ∨
      name ∈ site.placeholder.needs := by
  unfold CallSite.calledJob at ran
  obtain ⟨baseId, _, ran⟩ := bind_eq_ok.mp ran
  obtain ⟨suffix, _, ran⟩ := bind_eq_ok.mp ran
  obtain ⟨needs, renamedNeeds, ran⟩ := bind_eq_ok.mp ran
  obtain ⟨needAliases, renamedAliases, ran⟩ := bind_eq_ok.mp ran
  obtain ⟨virtualJob, renamedVirtual, ran⟩ := bind_eq_ok.mp ran
  cases pure_eq_ok.mp ran
  rcases mem_namesOf.mp member with needed | ⟨key, aliased⟩ | ⟨virtual, isVirtual, listed⟩
  · rw [mapM_aliasOf_ok renamedNeeds] at needed
    rcases List.mem_append.mp needed with inner | isGate
    · obtain ⟨early, listed, same⟩ := List.mem_map.mp inner
      exact .inl ⟨early, mem_namesOf.mpr (.inl listed), same.symm⟩
    · exact .inr (.inl (List.mem_singleton.mp isGate))
  · have filled := OrderedMaps.getElem?_foldl_insertIfNew site.placeholder.needs
      (fun dependency : String => dependency) (fun dependency => dependency) needAliases key
    rcases Option.or_eq_some_iff.mp (filled.symm.trans aliased) with old | ⟨_, new⟩
    · obtain ⟨early, found, same⟩ := aliasValues_ok renamedAliases old
      exact .inl ⟨early, mem_namesOf.mpr (.inr (.inl ⟨key, found⟩)), same⟩
    · obtain ⟨dependency, found, same⟩ := Option.map_eq_some_iff.mp new
      exact .inr (.inr (same ▸ List.mem_of_find?_eq_some found))
  · dsimp only at isVirtual
    subst isVirtual
    cases early : job.virtualJob with
    | none =>
        rw [early] at renamedVirtual
        cases pure_eq_ok.mp renamedVirtual
    | some inner =>
        rw [early] at renamedVirtual
        obtain ⟨found, ranInner, same⟩ := bind_eq_ok.mp renamedVirtual
        cases pure_eq_ok.mp same
        obtain ⟨name, inside, same⟩ := virtualUnder_names ranInner listed
        exact .inl ⟨name, mem_namesOf.mpr (.inr (.inr ⟨inner, early, inside⟩)), same⟩

/-! ### Expansions are sealed -/

variable {called segment : List PlannedJob} {bases : List String}

theorem IsExpansion.isSealed (expansion : IsExpansion site called segment)
    (inner : ∀ job ∈ site.calledPlan.jobs, Sealed (baseIds site.calledPlan.jobs) job)
    (placeholder : ∀ name ∈ namesOf site.placeholder, name ∈ bases)
    (subset : baseIds segment ⊆ bases) : ∀ job ∈ segment, Sealed bases job := by
  have gateIn : site.gateId ∈ bases := by
    apply subset
    rw [expansion.jobs]
    exact mem_baseIds (List.mem_append_left _ List.mem_cons_self : site.gate ∈ _)
  have calledIn : ∀ name ∈ baseIds site.calledPlan.jobs, under site.jobId name ∈ bases := by
    intro name member
    obtain ⟨early, listed, rfl⟩ := List.mem_map.mp member
    obtain ⟨job, inside, isCalled⟩ := forall₂_mem_right expansion.each.flip listed
    apply subset
    rw [expansion.jobs, ← isCalled.baseId]
    exact mem_baseIds (List.mem_append_left _ (List.mem_cons_of_mem _ inside))
  intro job member
  rw [expansion.jobs, List.mem_append, List.mem_cons, List.mem_singleton] at member
  rcases member with (isGate | inside) | isResult
  · subst isGate
    refine ⟨⟨[], by simp [CallSite.gate]⟩, ?_⟩
    intro name listed
    apply placeholder
    rcases mem_namesOf.mp listed with needed | aliased | ⟨virtual, isVirtual, listed⟩
    · exact mem_namesOf.mpr (.inl needed)
    · exact mem_namesOf.mpr (.inr (.inl aliased))
    · cases isVirtual
      cases listed
  · obtain ⟨early, listed, ran⟩ := forall₂_mem_right expansion.computed inside
    constructor
    · obtain ⟨suffix, _, same⟩ := (calledJob_ok ran).id
      exact ⟨suffix, same⟩
    · intro name named
      rcases calledJob_names ran named with ⟨old, oldNamed, same⟩ | isGate | needed
      · exact same ▸ calledIn old ((inner early listed).names old oldNamed)
      · exact isGate ▸ gateIn
      · exact placeholder name (mem_namesOf.mpr (.inl needed))
  · subst isResult
    refine ⟨⟨[], by simp [CallSite.result]⟩, ?_⟩
    have publicIn : ∀ key value : String, site.publicAliases[key]? = some value →
        value ∈ bases := by
      intro key value found
      have listed := List.mem_of_mem_filter (OrderedMaps.getElem?_ofList_eq_some found)
      obtain ⟨known, same⟩ :=
        getElem?_aliases.mp (Std.ExtTreeMap.mem_toList_iff_getElem?_eq_some.mp listed)
      exact same ▸ calledIn key known
    have valuesIn : ∀ name ∈ site.publicAliases.toList.map Prod.snd, name ∈ bases := by
      intro name listed
      obtain ⟨entry, inside, same⟩ := List.mem_map.mp listed
      exact same ▸ publicIn entry.1 entry.2
        (Std.ExtTreeMap.mem_toList_iff_getElem?_eq_some.mp inside)
    intro name listed
    rcases mem_namesOf.mp listed with needed | ⟨key, aliased⟩ | ⟨virtual, isVirtual, listed⟩
    · exact valuesIn name needed
    · exact publicIn key name aliased
    · cases isVirtual
      exact valuesIn name listed

end Site

variable {jobId : String} {call : PlannedDynamicReusableCall} {template : PlannedJob}
  {instances segment : List PlannedJob} {bases : List String}

theorem IsMatrix.isSealed (isMatrix : IsMatrix jobId call template instances segment)
    (inner : ∀ job ∈ call.calledPlan.jobs, Sealed (baseIds call.calledPlan.jobs) job)
    (placeholders : ∀ job ∈ instances, ∀ name ∈ namesOf job, name ∈ bases)
    (subset : baseIds segment ⊆ bases) : ∀ job ∈ segment, Sealed bases job := by
  obtain ⟨groups, indices, each, same⟩ := isMatrix.exists_groups
  have inGroups : ∀ group ∈ groups, ∀ job ∈ group.2, job.baseId ∈ bases := by
    intro group member job inside
    apply subset
    rw [same]
    exact mem_baseIds (List.mem_append_left _ (List.mem_flatMap.mpr ⟨group, member, inside⟩))
  have invocationsIn : ∀ name ∈ invocationIds jobId instances, name ∈ bases := by
    intro name member
    obtain ⟨index, bound, rfl⟩ := List.mem_map.mp member
    rw [← indices] at bound
    obtain ⟨group, listed, rfl⟩ := List.mem_map.mp bound
    obtain ⟨placeholder, _, called, expansion⟩ := each group listed
    have isResult := inGroups group listed
      (siteFor (under jobId (matrixName group.1)) call placeholder).result
      (by rw [expansion.jobs]; exact List.mem_append_right _ List.mem_cons_self)
    rw [invocationId_eq]
    exact isResult
  intro job member
  rw [same] at member
  rcases List.mem_append.mp member with inside | last
  · obtain ⟨group, listed, inside⟩ := List.mem_flatMap.mp inside
    obtain ⟨placeholder, isInstance, called, expansion⟩ := each group listed
    refine expansion.isSealed inner (placeholders placeholder isInstance) ?_ job inside
    intro name member
    obtain ⟨other, within, rfl⟩ := List.mem_map.mp member
    exact inGroups group listed other within
  · cases List.mem_singleton.mp last
    refine ⟨⟨[], by simp [reusableMatrixResult]⟩, ?_⟩
    intro name listed
    rcases mem_namesOf.mp listed with needed | ⟨key, aliased⟩ | ⟨virtual, isVirtual, listed⟩
    · exact invocationsIn name needed
    · obtain ⟨early, inside, entry⟩ :=
        List.mem_map.mp (OrderedMaps.getElem?_ofList_eq_some aliased)
      cases entry
      exact invocationsIn name inside
    · cases isVirtual
      exact invocationsIn name listed

theorem Expands.isSealed (expands : Expands jobId call instances segment)
    (inner : ∀ job ∈ call.calledPlan.jobs, Sealed (baseIds call.calledPlan.jobs) job)
    (placeholders : ∀ job ∈ instances, Sealed bases job)
    (subset : baseIds segment ⊆ bases) : ∀ job ∈ segment, Sealed bases job := by
  cases expands with
  | @template template dynamic =>
      intro job member
      cases List.mem_singleton.mp member
      obtain ⟨id, names⟩ := placeholders template List.mem_cons_self
      refine ⟨id, ?_⟩
      intro name listed
      apply names
      rcases mem_namesOf.mp listed with needed | aliased | ⟨virtual, isVirtual, listed⟩
      · exact mem_namesOf.mpr (.inl needed)
      · exact mem_namesOf.mpr (.inr (.inl aliased))
      · cases isVirtual
        cases listed
  | single static expansion =>
      exact expansion.isSealed inner (placeholders _ List.mem_cons_self).names subset
  | matrix static isMatrix =>
      exact isMatrix.isSealed inner (fun job member => (placeholders job member).names) subset

/-! ### Expansions return -/

theorem returns_expandReusableCall {site : CallSite}
    (inner : ∀ job ∈ site.calledPlan.jobs, Sealed (baseIds site.calledPlan.jobs) job) :
    Returns (expandReusableCall site) := by
  unfold expandReusableCall
  apply avoids_bind
  · exact avoids_mapM fun job member => returns_calledJob member (inner job member)
  · simp

theorem returns_expandCall {workflow : String} (present : instances ≠ [])
    (inner : ∀ job ∈ call.calledPlan.jobs, Sealed (baseIds call.calledPlan.jobs) job) :
    Returns (expandCall workflow jobId instances call) := by
  unfold expandCall
  split
  · split <;> simp
  · split
    · exact returns_expandReusableCall inner
    · apply avoids_bind
      · apply avoids_bind
        · exact avoids_mapM fun entry _ => returns_expandReusableCall inner
        · simp
      · intro _ _
        apply avoids_bind
        · apply returns_expect
          cases instances with
          | nil => exact absurd rfl present
          | cons first rest => rfl
        · simp

/-! ### Linked plans are sealed -/

variable [Templates] {reusableWorkflows : BTreeMap Workflow}

/-- The compiled jobs of a part, in the terms of the part. -/
structure Part.Compiled (part : Part) : Prop where
  based : ∀ job ∈ part.instances, job.baseId = part.id
  needs : ∀ job ∈ part.instances, job.needs = (placeholderOf part.job).needs
  aliases : ∀ job ∈ part.instances, ∀ name ∈ namesOf job, name ∈ job.needs
  prefixed : ∀ job ∈ part.instances, ∃ suffix, job.id = job.baseId ++ String.ofList suffix

theorem Part.compiled_of_ok {part : Part} {context : CompileContext} {workflow : Workflow}
    (compiled : compileJob context (rootOf workflow) (part.id, placeholderOf part.job) =
      .ok part.instances) : part.Compiled := by
  obtain ⟨matrix, are⟩ := compileJob_ok compiled
  refine ⟨?_, ?_, ?_, ?_⟩
  · intro job member
    obtain ⟨_, _, is⟩ := are.instance_of_mem member
    exact is.baseId
  · intro job member
    obtain ⟨_, _, is⟩ := are.instance_of_mem member
    exact is.needs
  · intro job member name listed
    obtain ⟨_, _, is⟩ := are.instance_of_mem member
    rcases mem_namesOf.mp listed with needed | ⟨key, aliased⟩ | ⟨virtual, isVirtual, _⟩
    · exact needed
    · rw [is.needAliases] at aliased
      obtain ⟨need, inside, same⟩ :=
        List.mem_map.mp (OrderedMaps.getElem?_ofList_eq_some aliased)
      cases same
      rwa [is.needs]
    · rw [is.virtualJob] at isVirtual
      cases isVirtual
  · intro job member
    obtain ⟨_, _, is⟩ := are.instance_of_mem member
    obtain ⟨suffix, same, _⟩ := is.suffixed
    exact ⟨suffix, same⟩

omit [Templates] in
/-- What a compiled job needs is a part with instances. -/
theorem exists_part_of_need {workflow : String} {parts : List Part}
    (distinct : (parts.map Part.id).Nodup) (compiled : ∀ part ∈ parts, part.Compiled)
    (base : validateDependencies workflow (parts.flatMap Part.instances) = .ok ())
    {part : Part} (member : part ∈ parts) {job : PlannedJob} (inside : job ∈ part.instances)
    {need : String} (needed : need ∈ job.needs) :
    ∃ other ∈ parts, other.id = need ∧ other.instances ≠ [] := by
  have functional : ∀ one ∈ parts.flatMap Part.instances, ∀ two ∈ parts.flatMap Part.instances,
      one.baseId = two.baseId → one.needs = two.needs := by
    intro one first two second same
    obtain ⟨onePart, oneListed, oneInside⟩ := List.mem_flatMap.mp first
    obtain ⟨twoPart, twoListed, twoInside⟩ := List.mem_flatMap.mp second
    rw [(compiled onePart oneListed).based one oneInside,
      (compiled twoPart twoListed).based two twoInside] at same
    cases List.inj_on_of_nodup_map distinct oneListed twoListed same
    rw [(compiled onePart oneListed).needs one oneInside,
      (compiled onePart oneListed).needs two twoInside]
  have graph := validateDependencies_ok base
  have listed := getElem?_dependencyGraph_of_mem functional
    (List.mem_flatMap.mpr ⟨part, member, inside⟩)
  obtain ⟨dependency, found, same⟩ :=
    mem_dependencyGraph.mp (graph.known job.baseId job.needs listed need needed)
  obtain ⟨other, otherListed, otherInside⟩ := List.mem_flatMap.mp found
  exact ⟨other, otherListed, ((compiled other otherListed).based dependency otherInside).symm.trans
    same, List.ne_nil_of_mem otherInside⟩

theorem Links.isSealed {workflow : Workflow} {path : String} {plan : ExecutionPlan}
    (links : Links reusableWorkflows workflow path plan) :
    ∀ job ∈ plan.jobs, Sealed (baseIds plan.jobs) job := by
  induction links with
  | @intro workflow plan path context parts isContext entries jobs base valid compiled own called
      linked inductionHypothesis =>
      have compiledParts : ∀ part ∈ parts, part.Compiled := fun part member =>
        Part.compiled_of_ok (compiled part member)
      have distinct : (parts.map Part.id).Nodup := by
        have distinct := workflow.distinct
        rwa [entries, List.map_map] at distinct
      have segmentIn : ∀ part ∈ parts, baseIds part.segment ⊆ baseIds plan.jobs := by
        intro part member name listed
        obtain ⟨job, inside, rfl⟩ := List.mem_map.mp listed
        rw [jobs]
        exact mem_baseIds (List.mem_flatMap.mpr ⟨part, member, inside⟩)
      have partIn : ∀ part ∈ parts, part.instances ≠ [] → part.id ∈ baseIds plan.jobs := by
        intro part member present
        have based := (compiledParts part member).based
        apply segmentIn part member
        cases isCall : part.call with
        | none =>
            rw [(own part member isCall).2]
            obtain ⟨first, inside⟩ := List.exists_mem_of_ne_nil _ present
            exact based first inside ▸ mem_baseIds inside
        | some target =>
            have expands := expandCall_expands (called part member target isCall).expanded
            obtain ⟨job, inside, same⟩ := expands.exists_baseId based
            exact same ▸ mem_baseIds inside
      have instances : ∀ part ∈ parts, ∀ job ∈ part.instances, Sealed (baseIds plan.jobs) job := by
        intro part member job inside
        refine ⟨(compiledParts part member).prefixed job inside, ?_⟩
        intro name listed
        have needed := (compiledParts part member).aliases job inside name listed
        obtain ⟨other, otherListed, same, present⟩ :=
          exists_part_of_need distinct compiledParts base member inside needed
        exact same ▸ partIn other otherListed present
      intro job member
      rw [jobs] at member
      obtain ⟨part, listed, inside⟩ := List.mem_flatMap.mp member
      cases isCall : part.call with
      | none =>
          rw [(own part listed isCall).2] at inside
          exact instances part listed job inside
      | some target =>
          have expands := expandCall_expands (called part listed target isCall).expanded
          exact expands.isSealed (inductionHypothesis part listed target isCall)
            (instances part listed) (segmentIn part listed) job inside

/-! ### Panics -/

def Panics {α : Type} (outcome : Outcome α) : Prop :=
  ∃ message, outcome = .error (.panicked message)

omit [Serde] [Templates] in
theorem not_panics_iff {α : Type} {outcome : Outcome α} : ¬ Panics outcome ↔ Returns outcome := by
  constructor
  · intro calm failure failed isPanic
    cases failure with
    | error error => exact isPanic
    | panicked message => exact calm ⟨message, failed⟩
  · rintro returns ⟨message, failed⟩
    exact returns _ failed trivial

omit [Serde] [Templates] in
theorem panics_bind {α β : Type} {first : Outcome α} {next : α → Outcome β}
    (returns : Returns first) :
    Panics (first >>= next) ↔ ∃ value, first = .ok value ∧ Panics (next value) := by
  constructor
  · rintro ⟨message, failed⟩
    rcases bind_eq_error.mp failed with early | ⟨value, ran, late⟩
    · exact absurd trivial (returns _ early)
    · exact ⟨value, ran, message, late⟩
  · rintro ⟨value, ran, message, late⟩
    exact ⟨message, bind_eq_error.mpr (.inr ⟨value, ran, late⟩)⟩

omit [Serde] [Templates] in
theorem panics_expect {α β : Type} {message : String} {value : Option α}
    {next : α → Outcome β} :
    Panics (expect message value >>= next) ↔
      value = none ∨ ∃ found, value = some found ∧ Panics (next found) := by
  cases value with
  | none => exact iff_of_true ⟨message, rfl⟩ (.inl rfl)
  | some found =>
      rw [expect, panics_bind (returns_ok found)]
      simp

/-! ### One call -/

/-- A round of the loop over the calls goes down into the called workflow. -/
structure Enters (reusableWorkflows : BTreeMap Workflow) (workflow : Workflow)
    (callStack : List String) (calledWorkflows : Finset String) (jobId : String) (call : Job)
    (callee : Workflow) (path : String) : Prop where
  resolves : Resolves reusableWorkflows workflow jobId call callee path
  few : (insert path calledWorkflows).card ≤ maxUniqueReusableWorkflows
  fresh : path ∉ callStack
  bound : ∃ contract, reusableContract workflow.name jobId callee = .ok contract ∧
    (∃ inputs, bindReusableInputs workflow.name jobId call contract = .ok inputs) ∧
    ∃ secrets, bindReusableSecrets workflow.name jobId call contract = .ok secrets

omit [Templates] in
theorem checkLimits_eq_ok {workflow jobId path : String} {callStack : List String}
    {calledWorkflows : Finset String} {below : Option Descend} {descend : Descend} :
    checkLimits workflow jobId path callStack calledWorkflows below = .ok descend ↔
      calledWorkflows.card ≤ maxUniqueReusableWorkflows ∧ below = some descend ∧
        path ∉ callStack := by
  unfold checkLimits
  split
  · next many => simp [incompatible, many]
  · next few =>
      cases below with
      | none => simp [incompatible]
      | some found =>
          dsimp only
          split
          · next repeated => simp [incompatible, repeated]
          · next fresh => simp [fresh, Nat.not_lt.mp few]

omit [Templates] in
theorem returns_checkLimits (workflow jobId path : String) (callStack : List String)
    (calledWorkflows : Finset String) (below : Option Descend) :
    Returns (checkLimits workflow jobId path callStack calledWorkflows below) := by
  unfold checkLimits
  split
  · simp
  · split
    · simp
    · split <;> simp

/-- Behind the linked plan of the called workflow, a round returns. -/
theorem returns_linkCall_rest {callee workflow : Workflow} {path : String}
    {calledPlan : ExecutionPlan} (links : Links reusableWorkflows callee path calledPlan)
    (present : instances ≠ []) (inputs : BTreeMap PlannedReusableInput)
    (secrets : PlannedReusableSecretScope) (outputs : BTreeMap String)
    (next : List PlannedJob → Finset String × BTreeMap (List PlannedJob)) :
    Returns (if calledPlan.jobs.isEmpty then
        incompatible workflow.name jobId "reusable workflow must contain at least one job"
      else do
        let expansion ← expandCall workflow.name jobId instances
          { calledPlan, inputs, secrets, outputs }
        return next expansion) := by
  split
  · simp
  · apply avoids_bind
    · exact returns_expandCall present links.isSealed
    · simp

/-- The round for one call panics without a placeholder, or where the called workflow
does. -/
theorem linkCall_panics {below : Option Descend}
    (links : ∀ descend, below = some descend → LinksBelow reusableWorkflows descend)
    {workflow : Workflow} {placeholders : BTreeMap (List PlannedJob)} {callStack : List String}
    {state : Finset String × BTreeMap (List PlannedJob)} {jobId : String} {job : Job}
    (isCall : job.uses.isSome)
    (present : ∀ instances, placeholders[jobId]? = some instances → instances ≠ []) :
    Panics (linkCall reusableWorkflows below workflow placeholders callStack state (jobId, job)) ↔
      placeholders[jobId]? = none ∨ (placeholders[jobId]? ≠ none ∧ ∃ callee path descend,
        Enters reusableWorkflows workflow callStack state.1 jobId job callee path ∧
        below = some descend ∧
        Panics (descend callee path (callStack ++ [path]) (insert path state.1))) := by
  unfold linkCall
  dsimp only
  rw [panics_expect]
  apply or_congr Iff.rfl
  constructor
  · rintro ⟨instances, grouped, panics⟩
    refine ⟨by simp [grouped], ?_⟩
    rcases panics_expect.mp panics with missing | ⟨uses, named, panics⟩
    · simp [missing] at isCall
    obtain ⟨path, resolved, panics⟩ := (panics_bind (returns_reusablePath _ _ _ _)).mp panics
    obtain ⟨descend, allowed, panics⟩ := (panics_bind (returns_checkLimits _ _ _ _ _ _)).mp panics
    obtain ⟨few, isBelow, fresh⟩ := checkLimits_eq_ok.mp allowed
    split at panics
    · exact absurd panics (not_panics_iff.mpr (returns_incompatible _ _ _))
    · next callee found =>
        obtain ⟨contract, declared, panics⟩ :=
          (panics_bind (returns_reusableContract _ _ _)).mp panics
        obtain ⟨inputs, boundInputs, panics⟩ :=
          (panics_bind (returns_bindReusableInputs _ _ _ _)).mp panics
        obtain ⟨secrets, boundSecrets, panics⟩ :=
          (panics_bind (returns_bindReusableSecrets _ _ _ _)).mp panics
        refine ⟨callee, path, descend, ⟨⟨uses, named, resolved, found⟩, few, fresh,
          contract, declared, ⟨inputs, boundInputs⟩, secrets, boundSecrets⟩, isBelow, ?_⟩
        obtain ⟨message, failed⟩ := panics
        rcases bind_eq_error.mp failed with early | ⟨⟨calledPlan, calledAfter⟩, descended, late⟩
        · exact ⟨message, early⟩
        · have linked := links descend isBelow _ _ _ _ _ _ descended
          exact absurd ⟨message, late⟩ (not_panics_iff.mpr
            (returns_linkCall_rest linked (present instances grouped) inputs secrets
              contract.outputs _))
  · rintro ⟨isSome, callee, path, descend, enters, isBelow, message, failed⟩
    obtain ⟨instances, grouped⟩ := Option.ne_none_iff_exists'.mp isSome
    obtain ⟨uses, named, resolved, found⟩ := enters.resolves
    obtain ⟨contract, declared, ⟨inputs, boundInputs⟩, secrets, boundSecrets⟩ := enters.bound
    refine ⟨instances, grouped, message, ?_⟩
    refine bind_eq_error.mpr (.inr ⟨uses, expect_eq_ok.mpr named, ?_⟩)
    refine bind_eq_error.mpr (.inr ⟨path, resolved, ?_⟩)
    refine bind_eq_error.mpr (.inr
      ⟨descend, checkLimits_eq_ok.mpr ⟨enters.few, isBelow, enters.fresh⟩, ?_⟩)
    rw [found]
    refine bind_eq_error.mpr (.inr ⟨contract, declared, ?_⟩)
    refine bind_eq_error.mpr (.inr ⟨inputs, boundInputs, ?_⟩)
    refine bind_eq_error.mpr (.inr ⟨secrets, boundSecrets, ?_⟩)
    exact bind_eq_error.mpr (.inl failed)

/-! ### Whole workflows -/

/-- The workflow levels below, as `linkWorkflow` takes them. -/
def belowLevels (reusableWorkflows : BTreeMap Workflow) : Nat → Option Descend
  | 0 => none
  | levels + 1 => some (compileLinkedWorkflow reusableWorkflows levels)

theorem compileLinkedWorkflow_eq (reusableWorkflows : BTreeMap Workflow) (levels : Nat) :
    compileLinkedWorkflow reusableWorkflows levels =
      linkWorkflow reusableWorkflows (belowLevels reusableWorkflows levels) := by
  cases levels <;> rfl

/-- Linking arrives at a call of the workflow: the workflow compiles, and the calls
before this one are linked. -/
def Reaches (reusableWorkflows : BTreeMap Workflow) (below : Option Descend)
    (workflow : Workflow) (path : String) (callStack : List String)
    (calledWorkflows : Finset String) (entry : String × Job) (calledNow : Finset String) : Prop :=
  (∀ call ∈ (callsOf workflow).toList,
    validateReusableCallJob workflow.name call.1 call.2 = .ok ()) ∧
  ∃ plan before after expansions, compile (rootOf workflow) path = .ok plan ∧
    (callsOf workflow).toList = before ++ entry :: after ∧
    before.foldlM (linkCall reusableWorkflows below workflow
      (groupPlaceholders (callsOf workflow) plan.jobs) callStack) (calledWorkflows, ∅) =
        .ok (calledNow, expansions)

/-- The matrix of a job expands to no combination. -/
def EmptyMatrix (workflow : Workflow) (path : String) (entry : String × Job) : Prop :=
  ∃ matrix, expandMatrix (workflowNameAt workflow (forwardSlashes path)) entry.1
    entry.2.strategy = .ok matrix ∧ matrix.combinations = []

/-- Linking arrives at a calling job whose matrix expands to no combination, in the
workflow itself or in a called one. -/
inductive Strands (reusableWorkflows : BTreeMap Workflow) :
    Nat → Workflow → String → List String → Finset String → Prop where
  | here {levels : Nat} {workflow : Workflow} {path : String} {callStack : List String}
      {calledWorkflows calledNow : Finset String} {entry : String × Job}
      (reaches : Reaches reusableWorkflows (belowLevels reusableWorkflows levels) workflow path
        callStack calledWorkflows entry calledNow)
      (empty : EmptyMatrix workflow path entry) :
      Strands reusableWorkflows levels workflow path callStack calledWorkflows
  | inside {levels : Nat} {workflow callee : Workflow} {path calleePath : String}
      {callStack : List String} {calledWorkflows calledNow : Finset String}
      {entry : String × Job}
      (reaches : Reaches reusableWorkflows (belowLevels reusableWorkflows (levels + 1)) workflow
        path callStack calledWorkflows entry calledNow)
      (nonempty : ¬ EmptyMatrix workflow path entry)
      (enters : Enters reusableWorkflows workflow callStack calledNow entry.1 entry.2 callee
        calleePath)
      (strands : Strands reusableWorkflows levels callee calleePath (callStack ++ [calleePath])
        (insert calleePath calledNow)) :
      Strands reusableWorkflows (levels + 1) workflow path callStack calledWorkflows

/-- A call has no placeholder exactly if its matrix is empty. -/
theorem groupPlaceholders_eq_none_iff {workflow : Workflow} {path : String}
    {plan : ExecutionPlan} (compiled : compile (rootOf workflow) path = .ok plan)
    {entry : String × Job} (member : entry ∈ (callsOf workflow).toList) :
    ((groupPlaceholders (callsOf workflow) plan.jobs)[entry.1]? = none ↔
      EmptyMatrix workflow path entry) ∧
    ∀ instances, (groupPlaceholders (callsOf workflow) plan.jobs)[entry.1]? = some instances →
      instances ≠ [] := by
  obtain ⟨jobId, job⟩ := entry
  obtain ⟨listed, isCall⟩ :=
    mem_callsOf.mp (Std.ExtTreeMap.mem_toList_iff_getElem?_eq_some.mp member)
  obtain ⟨context, groups, isContext, _, grouped, flat, _⟩ := compile_ok compiled
  obtain ⟨parts, found⟩ := CompiledParts.exists grouped
  rw [flat, found.jobs]
  obtain ⟨part, inside, same⟩ := List.mem_map.mp (found.entries ▸ listed)
  cases same
  obtain ⟨matrix, are, expanded⟩ := Part.areInstances isContext (found.compiled part inside)
  have group : (groupPlaceholders (callsOf workflow) (parts.flatMap Part.instances))[part.id]? =
      if part.instances = [] then none else some part.instances :=
    groupPlaceholders_part found.keyed inside ((mem_calls_iff listed).mpr isCall)
  have same : matrix.combinations = [] ↔ part.instances = [] :=
    not_iff_not.mp are.combinations_ne_nil
  constructor
  · rw [group]
    constructor
    · intro none
      refine ⟨matrix, expanded, same.mpr ?_⟩
      by_contra present
      simp [present] at none
    · rintro ⟨other, again, empty⟩
      cases expanded.symm.trans again
      simp [same.mp empty]
  · intro instances isGroup
    rw [group] at isGroup
    split at isGroup
    · cases isGroup
    · next present =>
        cases isGroup
        exact present

theorem linkWorkflow_panics {below : Option Descend}
    (links : ∀ descend, below = some descend → LinksBelow reusableWorkflows descend)
    (workflow : Workflow) (path : String) (callStack : List String)
    (calledWorkflows : Finset String) :
    Panics (linkWorkflow reusableWorkflows below workflow path callStack calledWorkflows) ↔
      ∃ entry calledNow,
        Reaches reusableWorkflows below workflow path callStack calledWorkflows entry calledNow ∧
        (EmptyMatrix workflow path entry ∨ (¬ EmptyMatrix workflow path entry ∧
          ∃ callee calleePath descend,
            Enters reusableWorkflows workflow callStack calledNow entry.1 entry.2 callee
              calleePath ∧
            below = some descend ∧
            Panics (descend callee calleePath (callStack ++ [calleePath])
              (insert calleePath calledNow)))) := by
  have round : ∀ plan, compile (rootOf workflow) path = .ok plan →
      ∀ entry ∈ (callsOf workflow).toList, ∀ state : Finset String × BTreeMap (List PlannedJob),
        Panics (linkCall reusableWorkflows below workflow
          (groupPlaceholders (callsOf workflow) plan.jobs) callStack state entry) ↔
        (EmptyMatrix workflow path entry ∨ (¬ EmptyMatrix workflow path entry ∧
          ∃ callee calleePath descend,
            Enters reusableWorkflows workflow callStack state.1 entry.1 entry.2 callee
              calleePath ∧
            below = some descend ∧
            Panics (descend callee calleePath (callStack ++ [calleePath])
              (insert calleePath state.1)))) := by
    intro plan compiled entry member state
    obtain ⟨missing, present⟩ := groupPlaceholders_eq_none_iff compiled member
    have isCall :=
      (mem_callsOf.mp (Std.ExtTreeMap.mem_toList_iff_getElem?_eq_some.mp member)).2
    rw [← missing]
    exact linkCall_panics links isCall present
  unfold linkWorkflow
  dsimp only
  split
  · next none =>
      constructor
      · intro panics
        obtain ⟨_, _, panics⟩ := (panics_bind (returns_compile _ _)).mp panics
        exact absurd panics (not_panics_iff.mpr (returns_pure _))
      · rintro ⟨entry, _, ⟨_, _, before, after, _, _, listed, _⟩, _⟩
        have member : entry ∈ (callsOf workflow).toList := by simp [listed]
        have found := Std.ExtTreeMap.mem_toList_iff_getElem?_eq_some.mp member
        rw [Std.ExtTreeMap.isEmpty_iff.mp none] at found
        simp at found
  · rw [panics_bind (avoids_forM fun entry _ => returns_validateReusableCallJob _ _ _)]
    constructor
    · rintro ⟨_, checked, panics⟩
      obtain ⟨plan, compiled, message, failed⟩ := (panics_bind (returns_compile _ _)).mp panics
      rcases bind_eq_error.mp failed with early | ⟨⟨calledNow, expansions⟩, calls, late⟩
      · obtain ⟨before, entry, after, ⟨calledNow, expansions⟩, listed, ran, stopped⟩ :=
          foldlM_eq_error.mp early
        have member : entry ∈ (callsOf workflow).toList := by simp [listed]
        exact ⟨entry, calledNow,
          ⟨forM_eq_ok.mp checked, plan, before, after, expansions, compiled, listed, ran⟩,
          (round plan compiled entry member _).mp ⟨message, stopped⟩⟩
      · obtain ⟨context, groups, _, _, grouped, flat, _⟩ := compile_ok compiled
        obtain ⟨parts, found⟩ := CompiledParts.exists grouped
        rw [← flat] at found
        obtain ⟨_, stop, _, linked, _⟩ := linkJobs_ok links found calls
        dsimp only at late
        rw [linked] at late
        have rest : Returns (do
            validateDependencies plan.workflowName stop.linked
            return ({ plan with jobs := stop.linked }, calledNow) :
              Outcome (ExecutionPlan × Finset String)) :=
          avoids_bind (returns_validateDependencies _ _) (by simp)
        exact absurd ⟨message, late⟩ (not_panics_iff.mpr rest)
    · rintro ⟨entry, calledNow, ⟨checked, plan, before, after, expansions, compiled, listed, ran⟩,
        panics⟩
      have member : entry ∈ (callsOf workflow).toList := by simp [listed]
      obtain ⟨message, stopped⟩ :=
        (round plan compiled entry member (calledNow, expansions)).mpr panics
      refine ⟨(), forM_eq_ok.mpr checked, message, ?_⟩
      refine bind_eq_error.mpr (.inr ⟨plan, compiled, bind_eq_error.mpr (.inl ?_)⟩)
      exact foldlM_eq_error.mpr ⟨before, entry, after, _, listed, ran, stopped⟩

/-- The linker panics exactly if it arrives at an empty matrix. -/
theorem compileLinkedWorkflow_panics (levels : Nat) (workflow : Workflow) (path : String)
    (callStack : List String) (calledWorkflows : Finset String) :
    Panics (compileLinkedWorkflow reusableWorkflows levels workflow path callStack
      calledWorkflows) ↔
      Strands reusableWorkflows levels workflow path callStack calledWorkflows := by
  induction levels generalizing workflow path callStack calledWorkflows with
  | zero =>
      rw [compileLinkedWorkflow_eq, linkWorkflow_panics (by intro _ same; cases same)]
      constructor
      · rintro ⟨entry, calledNow, reaches, empty | ⟨_, _, _, _, _, same, _⟩⟩
        · exact .here reaches empty
        · cases same
      · intro strands
        cases strands with
        | here reaches empty => exact ⟨_, _, reaches, .inl empty⟩
  | succ levels inductionHypothesis =>
      rw [compileLinkedWorkflow_eq, linkWorkflow_panics (by
        intro descend same
        cases same
        exact compileLinkedWorkflow_links reusableWorkflows levels)]
      constructor
      · rintro ⟨entry, calledNow, reaches, empty | ⟨nonempty, _, _, _, enters, same, panics⟩⟩
        · exact .here reaches empty
        · cases same
          exact .inside reaches nonempty enters ((inductionHypothesis _ _ _ _).mp panics)
      · intro strands
        cases strands with
        | here reaches empty => exact ⟨_, _, reaches, .inl empty⟩
        | inside reaches nonempty enters strands =>
            exact ⟨_, _, reaches, .inr ⟨nonempty, _, _, _, enters, rfl,
              (inductionHypothesis _ _ _ _).mpr strands⟩⟩

/-- `compile_with_reusables` returns `Ok` or `Err` exactly if linking does not arrive at
a calling job without a combination. -/
theorem compileWithReusables_returns_iff (workflow : Workflow) (path : String)
    (reusableWorkflows : BTreeMap Workflow) :
    (∀ message, compileWithReusables workflow path reusableWorkflows ≠
      .error (.panicked message)) ↔
    ¬ Strands reusableWorkflows (maxReusableWorkflowLevels - 1) workflow path [] ∅ := by
  rw [← compileLinkedWorkflow_panics]
  unfold compileWithReusables
  constructor
  · rintro returns ⟨message, failed⟩
    exact returns message (bind_eq_error.mpr (.inl failed))
  · intro calm message failed
    rcases bind_eq_error.mp failed with early | ⟨_, _, late⟩
    · exact calm ⟨message, early⟩
    · cases late

/-- No matrix of a call is empty, so there is nothing to arrive at. -/
theorem not_strands_of_combinations {levels : Nat} {workflow : Workflow} {path : String}
    {callStack : List String} {calledWorkflows : Finset String}
    (own : ∀ entry ∈ (callsOf workflow).toList, ¬ EmptyMatrix workflow path entry)
    (called : ∀ (calleePath : String) callee, reusableWorkflows[calleePath]? = some callee →
      ∀ entry ∈ (callsOf callee).toList, ¬ EmptyMatrix callee calleePath entry) :
    ¬ Strands reusableWorkflows levels workflow path callStack calledWorkflows := by
  intro strands
  induction strands with
  | here reaches empty =>
      obtain ⟨_, _, before, after, _, _, listed, _⟩ := reaches
      exact own _ (by simp [listed]) empty
  | inside _ _ enters _ inductionHypothesis =>
      obtain ⟨_, _, _, found⟩ := enters.resolves
      exact inductionHypothesis (called _ _ found)

end Linker

/-! ### An excluded combination -/

namespace Sample

/-- The exclude entry matches the only combination. -/
def excludedCaller : Workflow where
  name := "caller"
  jobs := [("call", {
    uses := some "./.github/workflows/callee.yml"
    strategy := some (.mapping [(.string "matrix", .mapping [
      (.string "system", .sequence [.string "macos"]),
      (.string "exclude", .sequence [.mapping [(.string "system", .string "macos")]])])]) })]
  distinct := by decide

def panicOf : Outcome ExecutionPlan → Option String
  | .error (.panicked message) => some message
  | _ => none

/-- No combination is left, and the linker takes the first one. -/
theorem excluded_call_panics :
    ¬ ∀ message, compileWithReusables excludedCaller ".github/workflows/ci.yml"
      (reusables "build") ≠ .error (.panicked message) := by
  have computed : panicOf (compileWithReusables excludedCaller ".github/workflows/ci.yml"
      (reusables "build")) = some "compiled call placeholder" := by
    decide
  intro returns
  unfold panicOf at computed
  split at computed
  · next message failed => exact returns message failed
  · cases computed

end Sample

end GitZero.Workflows
