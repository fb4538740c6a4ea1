/-
Module: GitZero.Workflow.Links
Purpose: Linking as a relation between a workflow and its plan: one part for each job
  of the workflow, and a linked plan behind each call.
Trusted boundary: none
Main exports: IsInstance, Part, Links, compile_ok, compileLinkedWorkflow_links,
  compileWithReusables_links
-/
import GitZero.Lib.OrderedMaps
import GitZero.Lib.Outcomes
import GitZero.Workflow.Linker

namespace GitZero.Workflows

open Outcomes

variable [Serde] [Templates]

/-! ### One compiled job -/

/-- What `compile` makes of one combination of a job. -/
structure IsInstance (context : CompileContext) (jobId : String) (job : Job) (plan : MatrixPlan)
    (matrixIndex : Nat) (matrix : BTreeMap Json) (planned : PlannedJob) : Prop where
  id : ∃ hasMatrix, planned.id = instanceId jobId hasMatrix matrixIndex ∧
    (plan.combinations.length > 1 → hasMatrix = true)
  baseId : planned.baseId = jobId
  needs : planned.needs = job.needs
  needAliases : planned.needAliases = .ofList (job.needs.map fun need => (need, need))
  inputScopes : planned.reusableInputScopes = []
  secretScopes : planned.reusableSecretScopes = []
  virtualJob : planned.virtualJob = none
  dynamicMatrix : planned.dynamicMatrix = plan.dynamic
  permissions : plannedPermissions context.workflowName s!"job '{jobId}'" job.permissions
    context.permissions = .ok planned.permissions
  scopeIds : planned.concurrencyScopeIds = []
  acquire : planned.concurrencyAcquire = []
  release : planned.concurrencyRelease = []

theorem compileInstance_ok {context : CompileContext} {workflow : Workflow} {jobId : String}
    {job : Job} {plan : MatrixPlan} {matrixIndex : Nat} {matrix : BTreeMap Json}
    {planned : PlannedJob}
    (compiled : compileInstance context workflow jobId job plan matrixIndex matrix = .ok planned) :
    IsInstance context jobId job plan matrixIndex matrix planned := by
  unfold compileInstance at compiled
  obtain ⟨steps, _, compiled⟩ := bind_eq_ok.mp compiled
  obtain ⟨runsOn, _, compiled⟩ := bind_eq_ok.mp compiled
  obtain ⟨permissions, declared, compiled⟩ := bind_eq_ok.mp compiled
  obtain ⟨concurrency, _, compiled⟩ := bind_eq_ok.mp compiled
  obtain ⟨environment, _, compiled⟩ := bind_eq_ok.mp compiled
  cases pure_eq_ok.mp compiled
  exact {
    id := ⟨_, rfl, fun many => by simp [many]⟩
    baseId := rfl, needs := rfl, needAliases := rfl, inputScopes := rfl, secretScopes := rfl
    virtualJob := rfl, dynamicMatrix := rfl, permissions := declared
    scopeIds := rfl, acquire := rfl, release := rfl }

/-- The instances of a job, one for each combination of its matrix. -/
structure AreInstances (context : CompileContext) (jobId : String) (job : Job)
    (plan : MatrixPlan) (instances : List PlannedJob) : Prop where
  expanded : expandMatrix context.workflowName jobId job.strategy = .ok plan
  each : List.Forall₂ (fun combination planned =>
    IsInstance context jobId job plan combination.2 combination.1 planned)
    plan.combinations.zipIdx instances

theorem compileJob_ok {context : CompileContext} {workflow : Workflow} {jobId : String}
    {job : Job} {instances : List PlannedJob}
    (compiled : compileJob context workflow (jobId, job) = .ok instances) :
    ∃ plan, AreInstances context jobId job plan instances := by
  unfold compileJob at compiled
  obtain ⟨_, _, compiled⟩ := bind_eq_ok.mp compiled
  obtain ⟨_, _, compiled⟩ := bind_eq_ok.mp compiled
  obtain ⟨plan, expanded, compiled⟩ := bind_eq_ok.mp compiled
  refine ⟨plan, expanded, ?_⟩
  exact (mapM_eq_ok.mp compiled).imp fun _ _ ran => compileInstance_ok ran

omit [Templates] in
theorem AreInstances.instance_of_mem {context : CompileContext} {jobId : String} {job : Job}
    {plan : MatrixPlan} {instances : List PlannedJob}
    (are : AreInstances context jobId job plan instances) {planned : PlannedJob}
    (member : planned ∈ instances) :
    ∃ matrixIndex matrix, IsInstance context jobId job plan matrixIndex matrix planned := by
  obtain ⟨index, bound, same⟩ := List.getElem_of_mem member
  have lengths := are.each.length_eq
  have found := are.each.get (by omega) bound
  exact ⟨_, _, by simpa [same] using found⟩

/-! ### One compiled workflow -/

/-- What `compile` computes before it looks at the jobs. -/
structure IsContext (workflow : Workflow) (path : String) (context : CompileContext) : Prop where
  workflowPath : context.workflowPath = forwardSlashes path
  workflowName : context.workflowName = workflowNameAt workflow (forwardSlashes path)
  permissions : plannedPermissions context.workflowName "workflow" workflow.permissions
    PlannedPermissions.default = .ok context.permissions

/-- What a compiled plan consists of. -/
theorem compile_ok {workflow : Workflow} {path : String} {plan : ExecutionPlan}
    (compiled : compile workflow path = .ok plan) :
    ∃ context groups, IsContext workflow path context ∧
      plan.workflowName = context.workflowName ∧
      List.Forall₂ (fun entry group => compileJob context workflow entry = .ok group)
        workflow.jobs groups ∧
      plan.jobs = groups.flatten ∧
      validateDependencies plan.workflowName plan.jobs = .ok () := by
  unfold compile at compiled
  dsimp only at compiled
  split at compiled
  · cases compiled
  · obtain ⟨_, _, compiled⟩ := bind_eq_ok.mp compiled
    obtain ⟨permissions, declared, compiled⟩ := bind_eq_ok.mp compiled
    obtain ⟨concurrency, _, compiled⟩ := bind_eq_ok.mp compiled
    obtain ⟨groups, ran, compiled⟩ := bind_eq_ok.mp compiled
    obtain ⟨_, valid, compiled⟩ := bind_eq_ok.mp compiled
    cases pure_eq_ok.mp compiled
    exact ⟨_, groups, ⟨rfl, rfl, declared⟩, rfl, mapM_eq_ok.mp ran, rfl, valid⟩

/-! ### Linked workflows -/

/-- What a calling job refers to: a workflow at its path, and its linked plan. -/
structure Called where
  workflow : Workflow
  path : String
  call : PlannedDynamicReusableCall

/-- A job of a workflow in its linked plan: the instances that `compile` makes of it (of
its placeholder, for a call), and the segment of the plan that stands for it. -/
structure Part where
  id : String
  job : Job
  instances : List PlannedJob
  segment : List PlannedJob
  call : Option Called

def Part.entry (part : Part) : String × Job := (part.id, part.job)

/-- The workflow that a calling job names. -/
def Resolves (reusableWorkflows : BTreeMap Workflow) (workflow : Workflow) (jobId : String)
    (job : Job) (callee : Workflow) (path : String) : Prop :=
  ∃ uses, job.uses = some uses ∧
    reusablePath workflow.name jobId uses reusableWorkflows = .ok path ∧
    reusableWorkflows[path]? = some callee

/-- What a job with `uses` becomes: a gate, the called plan for each instance, and a result. -/
structure IsCall (reusableWorkflows : BTreeMap Workflow) (workflow : Workflow) (part : Part)
    (called : Called) : Prop where
  resolves : Resolves reusableWorkflows workflow part.id part.job called.workflow called.path
  instances : part.instances ≠ []
  calledJobs : called.call.calledPlan.jobs ≠ []
  expanded : expandCall workflow.name part.id part.instances called.call = .ok part.segment

/-- The plan is the one of the workflow at the path, with all its calls linked in. -/
inductive Links (reusableWorkflows : BTreeMap Workflow) :
    Workflow → String → ExecutionPlan → Prop where
  | intro {workflow : Workflow} {plan : ExecutionPlan} {path : String}
      {context : CompileContext} {parts : List Part}
      (isContext : IsContext (rootOf workflow) path context)
      (entries : workflow.jobs = parts.map Part.entry)
      (jobs : plan.jobs = parts.flatMap Part.segment)
      (base : validateDependencies context.workflowName (parts.flatMap Part.instances) = .ok ())
      (valid : validateDependencies context.workflowName plan.jobs = .ok ())
      (compiled : ∀ part ∈ parts,
        compileJob context (rootOf workflow) (part.id, placeholderOf part.job) =
          .ok part.instances)
      (own : ∀ part ∈ parts, part.call = none →
        part.job.uses = none ∧ part.segment = part.instances)
      (called : ∀ part ∈ parts, ∀ called, part.call = some called →
        IsCall reusableWorkflows workflow part called)
      (linked : ∀ part ∈ parts, ∀ called, part.call = some called →
        Links reusableWorkflows called.workflow called.path called.call.calledPlan) :
      Links reusableWorkflows workflow path plan

/-! ### The loops of the linker -/

section Loops

variable {parts : List Part}

omit [Serde] [Templates] in
theorem mem_callsOf {workflow : Workflow} {jobId : String} {job : Job} :
    (callsOf workflow)[jobId]? = some job ↔ (jobId, job) ∈ workflow.jobs ∧ job.uses.isSome := by
  have distinct : ((workflow.jobs.filter fun entry => entry.2.uses.isSome).map Prod.fst).Nodup :=
    workflow.distinct.sublist (List.filter_sublist.map _)
  rw [callsOf, OrderedMaps.getElem?_ofList_of_nodup distinct, List.mem_filter]

omit [Serde] [Templates] in
theorem entry_unique {workflow : Workflow} {jobId : String} {one two : Job}
    (first : (jobId, one) ∈ workflow.jobs) (second : (jobId, two) ∈ workflow.jobs) : one = two :=
  congrArg Prod.snd (List.inj_on_of_nodup_map workflow.distinct first second rfl)

omit [Serde] [Templates] in
theorem mem_calls_iff {workflow : Workflow} {jobId : String} {job : Job}
    (entry : (jobId, job) ∈ workflow.jobs) : jobId ∈ callsOf workflow ↔ job.uses.isSome := by
  rw [← Std.ExtTreeMap.isSome_getElem?_iff_mem, Option.isSome_iff_exists]
  constructor
  · rintro ⟨other, found⟩
    obtain ⟨listed, isCall⟩ := mem_callsOf.mp found
    rwa [entry_unique entry listed]
  · intro isCall
    exact ⟨job, mem_callsOf.mpr ⟨entry, isCall⟩⟩

/-- Every instance of a part carries the part's id, and the ids are distinct. -/
structure Keyed (parts : List Part) : Prop where
  nodup : (parts.map Part.id).Nodup
  based : ∀ part ∈ parts, ∀ job ∈ part.instances, job.baseId = part.id

omit [Templates] in
theorem Keyed.tail {part : Part} (keyed : Keyed (part :: parts)) : Keyed parts :=
  ⟨(List.nodup_cons.mp keyed.nodup).2,
    fun other member => keyed.based other (List.mem_cons_of_mem _ member)⟩

omit [Templates] in
/-- The instances of one part among those of all parts. -/
theorem Keyed.filter_instances (keyed : Keyed parts) {part : Part} (member : part ∈ parts) :
    (parts.flatMap Part.instances).filter (fun job => job.baseId = part.id) = part.instances := by
  induction parts with
  | nil => cases member
  | cons head tail inductionHypothesis =>
      rw [List.flatMap_cons, List.filter_append]
      have others : ∀ other ∈ tail, other.id ≠ head.id := by
        intro other inside same
        exact (List.nodup_cons.mp keyed.nodup).1 (same ▸ List.mem_map_of_mem inside)
      by_cases same : part = head
      · subst same
        have all : part.instances.filter (fun job => job.baseId = part.id) = part.instances := by
          rw [List.filter_eq_self]
          intro job inside
          simpa using keyed.based part List.mem_cons_self job inside
        have none : (tail.flatMap Part.instances).filter (fun job => job.baseId = part.id) =
          [] := by
          rw [List.filter_eq_nil_iff]
          intro job inside
          obtain ⟨other, listed, inside⟩ := List.mem_flatMap.mp inside
          rw [keyed.based other (List.mem_cons_of_mem _ listed) job inside]
          simpa using others other listed
        rw [all, none, List.append_nil]
      · have listed : part ∈ tail := (List.mem_cons.mp member).resolve_left same
        have none : head.instances.filter (fun job => job.baseId = part.id) = [] := by
          rw [List.filter_eq_nil_iff]
          intro job inside
          rw [keyed.based head List.mem_cons_self job inside]
          simpa using (others part listed).symm
        rw [none, List.nil_append, inductionHypothesis keyed.tail listed]

omit [Templates] in
theorem groupPlaceholders_part (keyed : Keyed parts) {calls : BTreeMap Job} {part : Part}
    (member : part ∈ parts) (isCall : part.id ∈ calls) :
    (groupPlaceholders calls (parts.flatMap Part.instances))[part.id]? =
      if part.instances = [] then none else some part.instances := by
  unfold groupPlaceholders
  rw [OrderedMaps.getElem?_foldl_group, List.filter_filter]
  have same : (parts.flatMap Part.instances).filter
      (fun job => decide (job.baseId = part.id) && decide (job.baseId ∈ calls)) =
        part.instances := by
    rw [← keyed.filter_instances member]
    apply List.filter_congr
    intro job _
    by_cases based : job.baseId = part.id
    · simp [based, isCall]
    · simp [based]
  rw [same]
  simp

/-! The loop over the compiled jobs replaces the first instance of a call by its
expansion and drops the others. -/

omit [Templates] in
theorem linkJob_own {calls : BTreeMap Job} {jobs : List PlannedJob}
    (outside : ∀ job ∈ jobs, job.baseId ∉ calls) (state : LinkState) :
    jobs.foldlM (linkJob calls) state = .ok { state with linked := state.linked ++ jobs } := by
  induction jobs generalizing state with
  | nil => simp [pure, Except.pure]
  | cons head tail inductionHypothesis =>
      have step : linkJob calls state head =
          .ok { state with linked := state.linked ++ [head] } := by
        rw [linkJob, if_neg (outside head List.mem_cons_self)]
      rw [List.foldlM_cons, step]
      simp only [bind, Except.bind]
      rw [inductionHypothesis fun job member => outside job (List.mem_cons_of_mem _ member)]
      simp

omit [Templates] in
theorem linkJob_replaced {calls : BTreeMap Job} {jobs : List PlannedJob} {jobId : String}
    (isCall : jobId ∈ calls) (based : ∀ job ∈ jobs, job.baseId = jobId) {state : LinkState}
    (replaced : jobId ∈ state.replaced) :
    jobs.foldlM (linkJob calls) state = .ok state := by
  induction jobs with
  | nil => rfl
  | cons head tail inductionHypothesis =>
      have step : linkJob calls state head = .ok state := by
        rw [linkJob, based head List.mem_cons_self, if_pos isCall, if_pos replaced]
      rw [List.foldlM_cons, step]
      exact inductionHypothesis fun job member => based job (List.mem_cons_of_mem _ member)

omit [Templates] in
theorem linkJob_call {calls : BTreeMap Job} {jobs : List PlannedJob} {jobId : String}
    (isCall : jobId ∈ calls) (based : ∀ job ∈ jobs, job.baseId = jobId) (present : jobs ≠ [])
    {state : LinkState} (fresh : jobId ∉ state.replaced) {segment : List PlannedJob}
    (expansion : state.expansions[jobId]? = some segment) :
    jobs.foldlM (linkJob calls) state = .ok {
      linked := state.linked ++ segment
      replaced := insert jobId state.replaced
      expansions := state.expansions.erase jobId } := by
  cases jobs with
  | nil => exact absurd rfl present
  | cons head tail =>
      have step : linkJob calls state head = .ok {
          linked := state.linked ++ segment
          replaced := insert jobId state.replaced
          expansions := state.expansions.erase jobId } := by
        rw [linkJob, based head List.mem_cons_self, if_pos isCall, if_neg fresh, expansion]
        rfl
      rw [List.foldlM_cons, step]
      exact linkJob_replaced isCall (fun job member => based job (List.mem_cons_of_mem _ member))
        (Finset.mem_insert_self _ _)

/-- The parts of a workflow before the loop over its compiled jobs. -/
structure Prepared (calls : BTreeMap Job) (parts : List Part) (state : LinkState) : Prop where
  keyed : Keyed parts
  own : ∀ part ∈ parts, part.call = none → part.id ∉ calls ∧ part.segment = part.instances
  called : ∀ part ∈ parts, part.call.isSome → part.id ∈ calls ∧ part.instances ≠ [] ∧
    part.id ∉ state.replaced ∧ state.expansions[part.id]? = some part.segment

omit [Templates] in
theorem linkJob_parts {calls : BTreeMap Job} {state : LinkState}
    (prepared : Prepared calls parts state) :
    ∃ stop, (parts.flatMap Part.instances).foldlM (linkJob calls) state = .ok stop ∧
      stop.linked = state.linked ++ parts.flatMap Part.segment := by
  induction parts generalizing state with
  | nil => exact ⟨state, rfl, by simp⟩
  | cons part rest inductionHypothesis =>
      have based := prepared.keyed.based part List.mem_cons_self
      have later : ∀ other ∈ rest, other ∈ part :: rest := fun _ => List.mem_cons_of_mem _
      cases call : part.call with
      | none =>
          obtain ⟨outside, same⟩ := prepared.own part List.mem_cons_self call
          have first := linkJob_own (fun job member => based job member ▸ outside) state
          have remaining : Prepared calls rest
              { state with linked := state.linked ++ part.instances } := {
            keyed := prepared.keyed.tail
            own := fun other member => prepared.own other (later other member)
            called := fun other member => prepared.called other (later other member) }
          obtain ⟨stop, ran, linked⟩ := inductionHypothesis remaining
          refine ⟨stop, ?_, by simp [linked, same]⟩
          rw [List.flatMap_cons, foldlM_append_eq_ok]
          exact ⟨_, first, ran⟩
      | some called =>
          obtain ⟨isCall, present, fresh, expansion⟩ :=
            prepared.called part List.mem_cons_self (by simp [call])
          have first := linkJob_call isCall based present fresh expansion
          have differ : ∀ other ∈ rest, part.id ≠ other.id := by
            intro other member same
            exact (List.nodup_cons.mp prepared.keyed.nodup).1 (same ▸ List.mem_map_of_mem member)
          have remaining : Prepared calls rest {
              linked := state.linked ++ part.segment
              replaced := insert part.id state.replaced
              expansions := state.expansions.erase part.id } := {
            keyed := prepared.keyed.tail
            own := fun other member => prepared.own other (later other member)
            called := by
              intro other member isSome
              obtain ⟨isCall, present, fresh, expansion⟩ :=
                prepared.called other (later other member) isSome
              refine ⟨isCall, present, ?_, ?_⟩
              · simpa [fresh] using (differ other member).symm
              · rw [Std.ExtTreeMap.getElem?_erase, if_neg, expansion]
                simpa using differ other member }
          obtain ⟨stop, ran, linked⟩ := inductionHypothesis remaining
          refine ⟨stop, ?_, by simp [linked]⟩
          rw [List.flatMap_cons, foldlM_append_eq_ok]
          exact ⟨_, first, ran⟩

/-! The loop over the calls. -/

/-- What a successful round for one call has computed. -/
structure CallFacts (reusableWorkflows : BTreeMap Workflow) (workflow : Workflow)
    (placeholders : BTreeMap (List PlannedJob)) (jobId : String) (job : Job)
    (segment : List PlannedJob) (called : Called) : Prop where
  resolves : Resolves reusableWorkflows workflow jobId job called.workflow called.path
  calledJobs : called.call.calledPlan.jobs ≠ []
  linked : Links reusableWorkflows called.workflow called.path called.call.calledPlan
  expanded : ∃ instances, placeholders[jobId]? = some instances ∧
    expandCall workflow.name jobId instances called.call = .ok segment

omit [Serde] [Templates] in
theorem expect_eq_ok {α : Type} {message : String} {value : Option α} {found : α} :
    expect message value = .ok found ↔ value = some found := by
  cases value <;> simp [expect]

omit [Templates] in
theorem checkLimits_ok {workflow jobId path : String} {callStack : List String}
    {calledWorkflows : Finset String} {below : Option Descend} {descend : Descend}
    (passed : checkLimits workflow jobId path callStack calledWorkflows below = .ok descend) :
    below = some descend := by
  unfold checkLimits at passed
  split at passed
  · cases passed
  · cases below with
    | none => cases passed
    | some found =>
        dsimp only at passed
        split at passed
        · cases passed
        · cases passed
          rfl

/-- A way down that only returns linked plans. -/
def LinksBelow (reusableWorkflows : BTreeMap Workflow) (descend : Descend) : Prop :=
  ∀ workflow path callStack calledWorkflows plan calledAfter,
    descend workflow path callStack calledWorkflows = .ok (plan, calledAfter) →
      Links reusableWorkflows workflow path plan

theorem linkCall_ok {reusableWorkflows : BTreeMap Workflow} {below : Option Descend}
    (links : ∀ descend, below = some descend → LinksBelow reusableWorkflows descend)
    {workflow : Workflow} {placeholders : BTreeMap (List PlannedJob)} {callStack : List String}
    {state stop : Finset String × BTreeMap (List PlannedJob)} {jobId : String} {job : Job}
    (ran : linkCall reusableWorkflows below workflow placeholders callStack state (jobId, job) =
      .ok stop) :
    ∃ segment called, stop.2 = state.2.insert jobId segment ∧
      CallFacts reusableWorkflows workflow placeholders jobId job segment called := by
  unfold linkCall at ran
  obtain ⟨instances, grouped, ran⟩ := bind_eq_ok.mp ran
  obtain ⟨uses, named, ran⟩ := bind_eq_ok.mp ran
  obtain ⟨path, resolved, ran⟩ := bind_eq_ok.mp ran
  obtain ⟨descend, allowed, ran⟩ := bind_eq_ok.mp ran
  split at ran
  · cases ran
  · next callee found =>
      obtain ⟨contract, _, ran⟩ := bind_eq_ok.mp ran
      obtain ⟨inputs, _, ran⟩ := bind_eq_ok.mp ran
      obtain ⟨secrets, _, ran⟩ := bind_eq_ok.mp ran
      obtain ⟨⟨calledPlan, calledAfter⟩, descended, ran⟩ := bind_eq_ok.mp ran
      dsimp only at ran
      split at ran
      · cases ran
      · next present =>
          obtain ⟨segment, expanded, ran⟩ := bind_eq_ok.mp ran
          cases pure_eq_ok.mp ran
          refine ⟨segment,
            ⟨callee, path, calledPlan, inputs, secrets, contract.outputs⟩, rfl, ?_⟩
          exact {
            resolves := ⟨uses, expect_eq_ok.mp named, resolved, found⟩
            calledJobs := by simpa using present
            linked := links descend (checkLimits_ok allowed) _ _ _ _ _ _ descended
            expanded := ⟨instances, expect_eq_ok.mp grouped, expanded⟩ }

theorem linkCalls_ok {reusableWorkflows : BTreeMap Workflow} {below : Option Descend}
    (links : ∀ descend, below = some descend → LinksBelow reusableWorkflows descend)
    {workflow : Workflow} {placeholders : BTreeMap (List PlannedJob)} {callStack : List String}
    {entries : List (String × Job)} (distinct : (entries.map Prod.fst).Nodup)
    {state stop : Finset String × BTreeMap (List PlannedJob)}
    (ran : entries.foldlM
      (linkCall reusableWorkflows below workflow placeholders callStack) state = .ok stop) :
    (∀ jobId, jobId ∉ entries.map Prod.fst → stop.2[jobId]? = state.2[jobId]?) ∧
    ∀ jobId job, (jobId, job) ∈ entries → ∃ segment called,
      stop.2[jobId]? = some segment ∧
      CallFacts reusableWorkflows workflow placeholders jobId job segment called := by
  induction entries generalizing state with
  | nil =>
      cases pure_eq_ok.mp ran
      exact ⟨fun _ _ => rfl, by simp⟩
  | cons head tail inductionHypothesis =>
      obtain ⟨middle, first, rest⟩ := foldlM_cons_eq_ok.mp ran
      obtain ⟨jobId, job⟩ := head
      obtain ⟨fresh, distinctTail⟩ := List.nodup_cons.mp distinct
      obtain ⟨segment, called, inserted, facts⟩ := linkCall_ok links first
      obtain ⟨kept, each⟩ := inductionHypothesis distinctTail rest
      constructor
      · intro other outside
        simp only [List.map_cons, List.mem_cons, not_or] at outside
        rw [kept other outside.2, inserted, Std.ExtTreeMap.getElem?_insert, if_neg]
        simpa using fun same : jobId = other => outside.1 same.symm
      · intro other otherJob member
        rcases List.mem_cons.mp member with same | later
        · cases same
          refine ⟨segment, called, ?_, facts⟩
          rw [kept _ fresh, inserted]
          exact Std.ExtTreeMap.getElem?_insert_self
        · exact each other otherJob later

end Loops

/-! ### The linker refines the relation -/

omit [Serde] [Templates] in
theorem exists_forall₂ {α β : Type} {related : α → β → Prop} {list : List α}
    (each : ∀ item ∈ list, ∃ other, related item other) :
    ∃ others, List.Forall₂ related list others := by
  induction list with
  | nil => exact ⟨[], .nil⟩
  | cons head tail inductionHypothesis =>
      obtain ⟨other, first⟩ := each head List.mem_cons_self
      obtain ⟨others, rest⟩ :=
        inductionHypothesis fun item member => each item (List.mem_cons_of_mem _ member)
      exact ⟨other :: others, .cons first rest⟩

/-- The same job of the workflow with the same compiled instances. -/
structure Part.Agrees (one two : Part) : Prop where
  entry : two.entry = one.entry
  instances : two.instances = one.instances

omit [Templates] in
theorem Part.Agrees.id {one two : Part} (agrees : one.Agrees two) : two.id = one.id :=
  congrArg Prod.fst agrees.entry

omit [Templates] in
theorem Part.Agrees.job {one two : Part} (agrees : one.Agrees two) : two.job = one.job :=
  congrArg Prod.snd agrees.entry

omit [Serde] [Templates] in
theorem rootOf_jobs (workflow : Workflow) :
    (rootOf workflow).jobs = workflow.jobs.map fun entry => (entry.1, placeholderOf entry.2) :=
  rfl

/-- The parts of a workflow after `compile`, with nothing linked yet. -/
structure CompiledParts (workflow : Workflow) (context : CompileContext) (jobs : List PlannedJob)
    (parts : List Part) : Prop where
  entries : workflow.jobs = parts.map Part.entry
  compiled : ∀ part ∈ parts,
    compileJob context (rootOf workflow) (part.id, placeholderOf part.job) = .ok part.instances
  jobs : jobs = parts.flatMap Part.instances

theorem CompiledParts.exists {workflow : Workflow} {context : CompileContext}
    {groups : List (List PlannedJob)}
    (grouped : List.Forall₂
      (fun entry group => compileJob context (rootOf workflow) entry = .ok group)
      (rootOf workflow).jobs groups) :
    ∃ parts, CompiledParts workflow context groups.flatten parts := by
  rw [rootOf_jobs, List.forall₂_map_left_iff] at grouped
  suffices found : ∃ parts : List Part, workflow.jobs = parts.map Part.entry ∧
      (∀ part ∈ parts, compileJob context (rootOf workflow) (part.id, placeholderOf part.job) =
        .ok part.instances) ∧ groups.flatten = parts.flatMap Part.instances by
    obtain ⟨parts, entries, compiled, jobs⟩ := found
    exact ⟨parts, entries, compiled, jobs⟩
  generalize workflow.jobs = entries at grouped ⊢
  induction grouped with
  | nil => exact ⟨[], rfl, by simp, by simp⟩
  | @cons entry group _ _ first _ inductionHypothesis =>
      obtain ⟨parts, entries, compiled, jobs⟩ := inductionHypothesis
      refine ⟨⟨entry.1, entry.2, group, [], none⟩ :: parts, ?_, ?_, ?_⟩
      · simp [entries, Part.entry]
      · intro part member
        rcases List.mem_cons.mp member with same | later
        · cases same
          exact first
        · exact compiled part later
      · simp [jobs]

theorem CompiledParts.keyed {workflow : Workflow} {context : CompileContext}
    {jobs : List PlannedJob} {parts : List Part}
    (compiledParts : CompiledParts workflow context jobs parts) : Keyed parts := by
  constructor
  · have distinct := workflow.distinct
    rwa [compiledParts.entries, List.map_map] at distinct
  · intro part member job inside
    obtain ⟨plan, instances⟩ := compileJob_ok (compiledParts.compiled part member)
    obtain ⟨_, _, found⟩ := instances.instance_of_mem inside
    exact found.baseId

/-- A final part for a compiled one. -/
structure PartOf (reusableWorkflows : BTreeMap Workflow) (workflow : Workflow)
    (expansions : BTreeMap (List PlannedJob)) (compiled part : Part) : Prop where
  agrees : compiled.Agrees part
  own : part.call = none → part.job.uses = none ∧ part.segment = part.instances
  called : ∀ called, part.call = some called →
    expansions[part.id]? = some part.segment ∧
    Links reusableWorkflows called.workflow called.path called.call.calledPlan ∧
    IsCall reusableWorkflows workflow part called

omit [Templates] in
/-- The final parts list the same jobs and the same instances. -/
theorem agrees_lists {compiled parts : List Part} (all : List.Forall₂ Part.Agrees compiled parts) :
    parts.map Part.entry = compiled.map Part.entry ∧
      parts.flatMap Part.instances = compiled.flatMap Part.instances := by
  induction all with
  | nil => exact ⟨rfl, rfl⟩
  | cons first _ inductionHypothesis =>
      simp [first.entry, first.instances, inductionHypothesis.1, inductionHypothesis.2]

/-- Final parts make a linked plan. -/
theorem links_of_parts {reusableWorkflows : BTreeMap Workflow} {workflow : Workflow}
    {path : String} {context : CompileContext} {expansions : BTreeMap (List PlannedJob)}
    {baseJobs : List PlannedJob} {compiled parts : List Part} {plan : ExecutionPlan}
    (isContext : IsContext (rootOf workflow) path context)
    (compiledParts : CompiledParts workflow context baseJobs compiled)
    (all : List.Forall₂ (PartOf reusableWorkflows workflow expansions) compiled parts)
    (base : validateDependencies context.workflowName baseJobs = .ok ())
    (jobs : plan.jobs = parts.flatMap Part.segment)
    (valid : validateDependencies context.workflowName plan.jobs = .ok ()) :
    Links reusableWorkflows workflow path plan := by
  obtain ⟨entries, instances⟩ := agrees_lists (all.imp fun _ _ partOf => partOf.agrees)
  refine .intro isContext (compiledParts.entries.trans entries.symm) jobs ?_ valid ?_ ?_ ?_ ?_
  · rwa [instances, ← compiledParts.jobs]
  · intro part member
    obtain ⟨early, inside, partOf⟩ := forall₂_mem_right all member
    rw [partOf.agrees.id, partOf.agrees.job, partOf.agrees.instances]
    exact compiledParts.compiled early inside
  · intro part member
    obtain ⟨_, _, partOf⟩ := forall₂_mem_right all member
    exact partOf.own
  · intro part member called isCall
    obtain ⟨_, _, partOf⟩ := forall₂_mem_right all member
    exact (partOf.called called isCall).2.2
  · intro part member called isCall
    obtain ⟨_, _, partOf⟩ := forall₂_mem_right all member
    exact (partOf.called called isCall).2.1

omit [Serde] [Templates] in
/-- Without calls there is nothing to replace. -/
theorem rootOf_eq_self {workflow : Workflow}
    (noCalls : ∀ entry ∈ workflow.jobs, entry.2.uses = none) : rootOf workflow = workflow := by
  have same : (workflow.jobs.map fun entry => (entry.1, placeholderOf entry.2)) =
      workflow.jobs := by
    rw [List.map_congr_left (g := id)]
    · simp
    · intro entry member
      simp [placeholderOf, noCalls entry member]
  cases workflow
  simp only [rootOf]
  congr

/-- A part without a call is final as it is compiled. -/
theorem PartOf.of_own {reusableWorkflows : BTreeMap Workflow} {workflow : Workflow}
    {expansions : BTreeMap (List PlannedJob)} {compiled : Part}
    (isOwn : compiled.job.uses = none) :
    PartOf reusableWorkflows workflow expansions compiled
      { compiled with segment := compiled.instances, call := none } where
  agrees := ⟨rfl, rfl⟩
  own := fun _ => ⟨isOwn, rfl⟩
  called := by
    intro called impossible
    cases impossible

theorem linkWorkflow_links_of_no_calls {reusableWorkflows : BTreeMap Workflow}
    {workflow : Workflow} {path : String} {plan : ExecutionPlan}
    (noCalls : ∀ entry ∈ workflow.jobs, entry.2.uses = none)
    (compiled : compile workflow path = .ok plan) :
    Links reusableWorkflows workflow path plan := by
  obtain ⟨context, groups, isContext, name, grouped, flat, valid⟩ := compile_ok compiled
  rw [← rootOf_eq_self noCalls] at isContext grouped
  obtain ⟨compiledParts, found⟩ := CompiledParts.exists grouped
  have isOwn : ∀ part ∈ compiledParts, part.job.uses = none := by
    intro part member
    exact noCalls part.entry (found.entries ▸ List.mem_map_of_mem member)
  have all : List.Forall₂ (PartOf reusableWorkflows workflow ∅) compiledParts
      (compiledParts.map fun part => { part with segment := part.instances, call := none }) := by
    rw [List.forall₂_map_right_iff, List.forall₂_same]
    exact fun part member => PartOf.of_own (isOwn part member)
  rw [name, flat] at valid
  refine links_of_parts isContext found all valid ?_ (flat ▸ valid)
  rw [flat, found.jobs, List.flatMap_map]

/-- The final part of a calling job, from the round of the loop for its call. -/
theorem PartOf.exists_of_call {reusableWorkflows : BTreeMap Workflow} {workflow : Workflow}
    {calls : BTreeMap Job} {compiledParts : List Part} (keyed : Keyed compiledParts)
    {expansions : BTreeMap (List PlannedJob)} {compiled : Part} (member : compiled ∈ compiledParts)
    (isCall : compiled.id ∈ calls) {segment : List PlannedJob} {called : Called}
    (stored : expansions[compiled.id]? = some segment)
    (facts : CallFacts reusableWorkflows workflow
      (groupPlaceholders calls (compiledParts.flatMap Part.instances)) compiled.id compiled.job
      segment called) :
    PartOf reusableWorkflows workflow expansions compiled
      { compiled with segment, call := some called } := by
  obtain ⟨instances, grouped, expanded⟩ := facts.expanded
  rw [groupPlaceholders_part keyed member isCall] at grouped
  split at grouped
  · cases grouped
  · next present =>
      cases grouped
      refine ⟨⟨rfl, rfl⟩, (fun impossible => by cases impossible), ?_⟩
      intro other same
      cases same
      exact ⟨stored, facts.linked, {
        resolves := facts.resolves, instances := present, calledJobs := facts.calledJobs
        expanded }⟩

/-- Once the calls are linked, the loop over the compiled jobs puts the parts together. -/
theorem linkJobs_ok {reusableWorkflows : BTreeMap Workflow} {below : Option Descend}
    (links : ∀ descend, below = some descend → LinksBelow reusableWorkflows descend)
    {workflow : Workflow} {context : CompileContext} {baseJobs : List PlannedJob}
    {compiledParts : List Part} (found : CompiledParts workflow context baseJobs compiledParts)
    {callStack : List String} {calledWorkflows calledNow : Finset String}
    {expansions : BTreeMap (List PlannedJob)}
    (calls : (callsOf workflow).toList.foldlM
      (linkCall reusableWorkflows below workflow
        (groupPlaceholders (callsOf workflow) baseJobs) callStack) (calledWorkflows, ∅) =
      .ok (calledNow, expansions)) :
    ∃ parts stop, List.Forall₂ (PartOf reusableWorkflows workflow expansions) compiledParts parts ∧
      baseJobs.foldlM (linkJob (callsOf workflow)) { expansions } = .ok stop ∧
      stop.linked = parts.flatMap Part.segment := by
  have keyed := found.keyed
  have listed : ∀ part ∈ compiledParts, (part.id, part.job) ∈ workflow.jobs :=
    fun part member => found.entries ▸ List.mem_map_of_mem member
  have distinct : ((callsOf workflow).toList.map Prod.fst).Nodup := by
    rw [Std.ExtTreeMap.map_fst_toList_eq_keys]
    exact Std.ExtTreeMap.nodup_keys
  obtain ⟨_, each⟩ := linkCalls_ok links distinct calls
  rw [found.jobs] at each
  have exists_part : ∀ part ∈ compiledParts, ∃ final,
      PartOf reusableWorkflows workflow expansions part final := by
    intro part member
    cases uses : part.job.uses with
    | none => exact ⟨_, PartOf.of_own uses⟩
    | some _ =>
        have isSome : part.job.uses.isSome := by simp [uses]
        have entry : (part.id, part.job) ∈ (callsOf workflow).toList := by
          rw [Std.ExtTreeMap.mem_toList_iff_getElem?_eq_some, mem_callsOf]
          exact ⟨listed part member, isSome⟩
        obtain ⟨segment, called, stored, facts⟩ := each _ _ entry
        exact ⟨_, PartOf.exists_of_call keyed member
          ((mem_calls_iff (listed part member)).mpr isSome) stored facts⟩
  obtain ⟨parts, all⟩ := exists_forall₂ exists_part
  obtain ⟨entries, instances⟩ := agrees_lists (all.imp fun _ _ partOf => partOf.agrees)
  have finalKeyed : Keyed parts := by
    constructor
    · have ids := congrArg (List.map Prod.fst) entries
      rw [List.map_map, List.map_map] at ids
      exact ids ▸ keyed.nodup
    · intro part member job inside
      obtain ⟨early, insideEarly, partOf⟩ := forall₂_mem_right all member
      rw [partOf.agrees.instances] at inside
      rw [partOf.agrees.id]
      exact keyed.based early insideEarly job inside
  have finalListed : ∀ part ∈ parts, (part.id, part.job) ∈ workflow.jobs := by
    intro part member
    rw [found.entries, ← entries]
    exact List.mem_map_of_mem member
  have prepared : Prepared (callsOf workflow) parts { expansions } := by
    refine ⟨finalKeyed, ?_, ?_⟩
    · intro part member isOwn
      obtain ⟨_, _, partOf⟩ := forall₂_mem_right all member
      obtain ⟨uses, segment⟩ := partOf.own isOwn
      rw [mem_calls_iff (finalListed part member)]
      exact ⟨by simp [uses], segment⟩
    · intro part member isSome
      obtain ⟨_, _, partOf⟩ := forall₂_mem_right all member
      obtain ⟨called, same⟩ := Option.isSome_iff_exists.mp isSome
      obtain ⟨stored, _, isCall⟩ := partOf.called called same
      obtain ⟨uses, named, _⟩ := isCall.resolves
      rw [mem_calls_iff (finalListed part member)]
      exact ⟨by simp [named], isCall.instances, by simp, stored⟩
  obtain ⟨stop, ranAll, result⟩ := linkJob_parts prepared
  rw [instances, ← found.jobs] at ranAll
  exact ⟨parts, stop, all, ranAll, by simpa using result⟩

omit [Serde] [Templates] in
/-- Without calls, no job of the workflow names another workflow. -/
theorem no_uses_of_isEmpty {workflow : Workflow} (empty : (callsOf workflow).isEmpty) :
    ∀ entry ∈ workflow.jobs, entry.2.uses = none := by
  intro entry member
  by_contra isCall
  have inside := (mem_calls_iff member).mpr (Option.isSome_iff_ne_none.mpr isCall)
  rw [Std.ExtTreeMap.isEmpty_iff] at empty
  simp [empty] at inside

theorem linkWorkflow_links {reusableWorkflows : BTreeMap Workflow} {below : Option Descend}
    (links : ∀ descend, below = some descend → LinksBelow reusableWorkflows descend) :
    LinksBelow reusableWorkflows (linkWorkflow reusableWorkflows below) := by
  intro workflow path callStack calledWorkflows plan calledAfter ran
  unfold linkWorkflow at ran
  dsimp only at ran
  split at ran
  · next empty =>
      obtain ⟨compiledPlan, compiled, ran⟩ := bind_eq_ok.mp ran
      cases pure_eq_ok.mp ran
      exact linkWorkflow_links_of_no_calls (no_uses_of_isEmpty empty) compiled
  · obtain ⟨_, _, ran⟩ := bind_eq_ok.mp ran
    obtain ⟨basePlan, compiled, ran⟩ := bind_eq_ok.mp ran
    obtain ⟨⟨calledNow, expansions⟩, calls, ran⟩ := bind_eq_ok.mp ran
    obtain ⟨state, linked, ran⟩ := bind_eq_ok.mp ran
    obtain ⟨_, valid, ran⟩ := bind_eq_ok.mp ran
    cases pure_eq_ok.mp ran
    obtain ⟨context, groups, isContext, name, grouped, flat, baseValid⟩ := compile_ok compiled
    obtain ⟨compiledParts, found⟩ := CompiledParts.exists grouped
    rw [← flat] at found
    obtain ⟨parts, stop, all, ranAll, result⟩ := linkJobs_ok links found calls
    rw [ranAll] at linked
    cases linked
    rw [name] at baseValid valid
    exact links_of_parts isContext found all baseValid result valid

/-- Every linked plan of the linker is a linked plan of the relation. -/
theorem compileLinkedWorkflow_links (reusableWorkflows : BTreeMap Workflow) (levels : Nat) :
    LinksBelow reusableWorkflows (compileLinkedWorkflow reusableWorkflows levels) := by
  induction levels with
  | zero =>
      apply linkWorkflow_links
      intro descend impossible
      cases impossible
  | succ levels inductionHypothesis =>
      apply linkWorkflow_links
      intro descend same
      cases same
      exact inductionHypothesis

/-- The compiler builds linked plans. -/
theorem compileWithReusables_links {workflow : Workflow} {path : String}
    {reusableWorkflows : BTreeMap Workflow} {plan : ExecutionPlan}
    (compiled : compileWithReusables workflow path reusableWorkflows = .ok plan) :
    Links reusableWorkflows workflow path plan := by
  unfold compileWithReusables at compiled
  obtain ⟨⟨linked, calledWorkflows⟩, ran, same⟩ := bind_eq_ok.mp compiled
  cases pure_eq_ok.mp same
  exact compileLinkedWorkflow_links reusableWorkflows _ _ _ _ _ _ _ ran

end GitZero.Workflows
