/-
Module: GitZero.Proofs.DynamicCalls
Purpose: The two expansions of a matrix of calls, at link time and while a plan runs:
  they agree exactly for a calling job of the root workflow.
Trusted boundary: none
Main exports: replaceMatrix, LinkedParts, Placed, Counterpart, dynamic_expansion_agrees_iff
-/
import GitZero.Proofs.PlanIdentity

namespace GitZero.Workflows

open Outcomes

/-! ### The same strategy with another matrix -/

def withMatrix (matrix : Value) : Value × Value → Value × Value
  | (.string name, value) => (.string name, if name = "matrix" then matrix else value)
  | entry => entry

/-- The strategy with another matrix. -/
def replaceMatrix (matrix : Value) (strategy : List (Value × Value)) : List (Value × Value) :=
  strategy.map (withMatrix matrix)

theorem getKey_replaceMatrix {key : String} (other : key ≠ "matrix") (matrix : Value)
    (strategy : List (Value × Value)) :
    getKey key (replaceMatrix matrix strategy) = getKey key strategy := by
  induction strategy with
  | nil => rfl
  | cons entry rest inductionHypothesis =>
      obtain ⟨name, value⟩ := entry
      cases name with
      | string text =>
          by_cases same : text = key
          · subst same
            simp [replaceMatrix, withMatrix, getKey, other]
          · simpa [replaceMatrix, withMatrix, getKey, same] using inductionHypothesis
      | _ => exact inductionHypothesis

/-- A calling job with an expression in the place of its matrix. -/
def Job.withDynamicMatrix (job : Job) (strategy : List (Value × Value)) (expression : Value) :
    Job :=
  { job with strategy := some (.mapping (replaceMatrix expression strategy)) }

section Dynamic

variable [Serde]

/-! ### Instances -/

/-- What differs between the instances of one job: the fields that a combination sets. -/
def instanceOf (planned : PlannedJob) (combinations : List (BTreeMap Json)) (index : Nat)
    (matrix : BTreeMap Json) : PlannedJob :=
  { planned with
    id := s!"{planned.baseId}[{index + 1}]"
    matrix
    dynamicMatrix := none
    strategyJobIndex := some index
    strategyJobTotal := some combinations.length }

theorem dynamicInstances_eq (template : PlannedJob) (combinations : List (BTreeMap Json)) :
    dynamicInstances template combinations =
      combinations.mapIdx (instanceOf template combinations) := rfl

variable [Templates] {context : CompileContext} {static dynamic : Workflow} {jobId : String}
  {job : Job} {strategy : List (Value × Value)} {expression : Value}
  {plan dynamicPlan : MatrixPlan}

/-- The compiler makes the same job of both strategies, up to the combination. -/
theorem compileInstance_counterpart (defaults : dynamic.defaults = static.defaults)
    (env : dynamic.env = static.env) (isStrategy : job.strategy = some (.mapping strategy))
    (isStatic : plan.dynamic = none) (many : 2 ≤ plan.combinations.length)
    {index : Nat} {matrix : BTreeMap Json} {planned template : PlannedJob}
    (ran : compileInstance context static jobId job plan index matrix = .ok planned)
    (dynamicRan : compileInstance context dynamic jobId (job.withDynamicMatrix strategy expression)
      dynamicPlan 0 ∅ = .ok template) :
    planned = instanceOf template plan.combinations index matrix := by
  unfold compileInstance at ran dynamicRan
  obtain ⟨steps, ranSteps, ran⟩ := bind_eq_ok.mp ran
  obtain ⟨runsOn, ranRunsOn, ran⟩ := bind_eq_ok.mp ran
  obtain ⟨permissions, ranPermissions, ran⟩ := bind_eq_ok.mp ran
  obtain ⟨concurrency, ranConcurrency, ran⟩ := bind_eq_ok.mp ran
  obtain ⟨environment, ranEnvironment, ran⟩ := bind_eq_ok.mp ran
  obtain ⟨steps', ranSteps', dynamicRan⟩ := bind_eq_ok.mp dynamicRan
  obtain ⟨runsOn', ranRunsOn', dynamicRan⟩ := bind_eq_ok.mp dynamicRan
  obtain ⟨permissions', ranPermissions', dynamicRan⟩ := bind_eq_ok.mp dynamicRan
  obtain ⟨concurrency', ranConcurrency', dynamicRan⟩ := bind_eq_ok.mp dynamicRan
  obtain ⟨environment', ranEnvironment', dynamicRan⟩ := bind_eq_ok.mp dynamicRan
  rw [defaults] at ranSteps'
  cases ranSteps.symm.trans ranSteps'
  cases ranRunsOn.symm.trans ranRunsOn'
  cases ranPermissions.symm.trans ranPermissions'
  cases ranConcurrency.symm.trans ranConcurrency'
  cases ranEnvironment.symm.trans ranEnvironment'
  have failFast : strategyFailFast (job.withDynamicMatrix strategy expression).strategy =
      strategyFailFast job.strategy := by
    rw [isStrategy]
    simp [strategyFailFast, strategyEntry, Job.withDynamicMatrix, Value.asMapping, Value.untag,
      getKey_replaceMatrix]
  have maxParallel : strategyMaxParallel (job.withDynamicMatrix strategy expression).strategy =
      strategyMaxParallel job.strategy := by
    rw [isStrategy]
    simp [strategyMaxParallel, strategyEntry, Job.withDynamicMatrix, Value.asMapping, Value.untag,
      getKey_replaceMatrix]
  have hasMatrix : (plan.dynamic.isSome || decide (plan.combinations.length > 1) ||
      plan.combinations.any (!·.isEmpty)) = true := by
    have more : plan.combinations.length > 1 := many
    simp [more]
  cases pure_eq_ok.mp ran
  cases pure_eq_ok.mp dynamicRan
  rw [hasMatrix, failFast, maxParallel, env, isStatic, isStrategy]
  rfl

theorem compileJob_instances {workflow : Workflow} {instances : List PlannedJob}
    (ran : compileJob context workflow (jobId, job) = .ok instances) :
    ∃ plan, expandMatrix context.workflowName jobId job.strategy = .ok plan ∧
      List.Forall₂ (fun combination planned =>
        compileInstance context workflow jobId job plan combination.2 combination.1 = .ok planned)
        plan.combinations.zipIdx instances := by
  unfold compileJob at ran
  obtain ⟨_, _, ran⟩ := bind_eq_ok.mp ran
  obtain ⟨_, _, ran⟩ := bind_eq_ok.mp ran
  obtain ⟨plan, expanded, ran⟩ := bind_eq_ok.mp ran
  exact ⟨plan, expanded, mapM_eq_ok.mp ran⟩

omit [Templates] in
/-- The matrix of a strategy, as the compiler reads it. -/
theorem expandMatrix_matrix {workflow : String} {matrix : Value}
    (isMatrix : getKey "matrix" strategy = some matrix)
    (ran : expandMatrix workflow jobId (some (.mapping strategy)) = .ok plan) :
    if containsExpression matrix then plan = { combinations := [∅], dynamic := some matrix }
    else expandMatrixDefinition workflow jobId matrix = .ok plan.combinations ∧
      plan.dynamic = none := by
  unfold expandMatrix at ran
  obtain ⟨_, _, ran⟩ := bind_eq_ok.mp ran
  rw [isMatrix] at ran
  dsimp only at ran
  split at ran
  · next isExpression =>
      rw [if_pos isExpression]
      exact (pure_eq_ok.mp ran).symm
  · next isStatic =>
      obtain ⟨combinations, expanded, ran⟩ := bind_eq_ok.mp ran
      cases pure_eq_ok.mp ran
      rw [if_neg isStatic]
      exact ⟨expanded, rfl⟩

omit [Serde] [Templates] in
theorem getKey_matrix_replaced {matrix : Value}
    (isMatrix : getKey "matrix" strategy = some matrix) :
    getKey "matrix" (replaceMatrix expression strategy) = some expression := by
  induction strategy with
  | nil => cases isMatrix
  | cons entry rest inductionHypothesis =>
      obtain ⟨name, value⟩ := entry
      cases name with
      | string text =>
          by_cases same : text = "matrix"
          · simp [replaceMatrix, withMatrix, getKey, same]
          · rw [getKey, if_neg same] at isMatrix
            simpa [replaceMatrix, withMatrix, getKey, same] using inductionHypothesis isMatrix
      | _ => exact inductionHypothesis isMatrix

omit [Serde] [Templates] in
theorem placeholderOf_withDynamicMatrix :
    placeholderOf (job.withDynamicMatrix strategy expression) =
      (placeholderOf job).withDynamicMatrix strategy expression := by
  unfold placeholderOf Job.withDynamicMatrix
  split <;> rfl

/-- The instances of the static matrix are those of the template of the dynamic one. -/
theorem compileJob_counterpart (defaults : dynamic.defaults = static.defaults)
    (env : dynamic.env = static.env) (isStrategy : job.strategy = some (.mapping strategy))
    {matrix : Value} (isMatrix : getKey "matrix" strategy = some matrix)
    (isStatic : containsExpression matrix = false)
    (isExpression : containsExpression expression = true)
    {combinations : List (BTreeMap Json)}
    (evaluated : expandMatrixDefinition context.workflowName jobId matrix = .ok combinations)
    (many : 2 ≤ combinations.length) {instances templates : List PlannedJob}
    (ran : compileJob context static (jobId, job) = .ok instances)
    (dynamicRan : compileJob context dynamic (jobId, job.withDynamicMatrix strategy expression) =
      .ok templates) :
    ∃ template, templates = [template] ∧ template.dynamicMatrix = some expression ∧
      template.baseId = jobId ∧
      instances = combinations.mapIdx (instanceOf template combinations) := by
  obtain ⟨plan, expanded, each⟩ := compileJob_instances ran
  obtain ⟨dynamicPlan, dynamicExpanded, dynamicEach⟩ := compileJob_instances dynamicRan
  obtain ⟨_, are⟩ := compileJob_ok dynamicRan
  rw [isStrategy] at expanded
  have planIs := expandMatrix_matrix isMatrix expanded
  rw [if_neg (by simp [isStatic])] at planIs
  obtain ⟨again, noDynamic⟩ := planIs
  cases evaluated.symm.trans again
  have dynamicIs := expandMatrix_matrix (getKey_matrix_replaced isMatrix) dynamicExpanded
  rw [if_pos isExpression] at dynamicIs
  subst dynamicIs
  cases dynamicEach with
  | @cons _ template _ others first rest =>
      cases rest
      have is := compileInstance_ok first
      refine ⟨template, rfl, is.dynamicMatrix, is.baseId, ?_⟩
      rw [List.mapIdx_eq_zipIdx_map]
      have counterparts := each.imp fun combination planned compiled =>
        compileInstance_counterpart defaults env isStrategy noDynamic many compiled first
      clear each ran
      generalize plan.combinations.zipIdx = entries at counterparts
      induction counterparts with
      | nil => rfl
      | cons same _ inductionHypothesis =>
          rw [List.map_cons, ← inductionHypothesis]
          exact congrArg (· :: _) same

/-! ### Expansions -/

omit [Templates] in
/-- An expansion does not read the virtual job of its placeholder. -/
theorem expandInvocations_virtual (instances : List PlannedJob)
    (call : PlannedDynamicReusableCall) (virtual : Option PlannedVirtualJob) :
    expandInvocations jobId (instances.map fun planned => { planned with virtualJob := virtual })
      call = expandInvocations jobId instances call := by
  unfold expandInvocations
  rw [List.zipIdx_map, List.mapM_map]
  rfl

omit [Templates] in
theorem dynamicInstances_virtual (template : PlannedJob) (virtual : Option PlannedVirtualJob)
    (combinations : List (BTreeMap Json)) :
    dynamicInstances { template with virtualJob := virtual } combinations =
      (combinations.mapIdx (instanceOf template combinations)).map fun planned =>
        { planned with virtualJob := virtual } := by
  rw [dynamicInstances_eq, List.mapIdx_eq_zipIdx_map, List.mapIdx_eq_zipIdx_map, List.map_map]
  rfl

omit [Templates] in
/-- The expansions of a calling job that no call encloses. -/
theorem expandDynamic_of_static {workflow : String} {template : PlannedJob}
    (baseId : template.baseId = jobId) {combinations : List (BTreeMap Json)}
    (many : 2 ≤ combinations.length) {call : PlannedDynamicReusableCall}
    {segment : List PlannedJob}
    (ran : expandCall workflow jobId (combinations.mapIdx (instanceOf template combinations)) call =
      .ok segment) (virtual : Option PlannedVirtualJob) :
    expandDynamicReusableCall { template with virtualJob := virtual }
      (dynamicInstances { template with virtualJob := virtual } combinations) call =
        .ok segment := by
  match combinations, many with
  | first :: second :: rest, _ =>
      unfold expandCall at ran
      rw [if_neg (by simp [List.mapIdx_cons, instanceOf])] at ran
      rw [List.mapIdx_cons, List.mapIdx_cons] at ran
      dsimp only at ran
      obtain ⟨expanded, all, ran⟩ := bind_eq_ok.mp ran
      obtain ⟨head, isHead, ran⟩ := bind_eq_ok.mp ran
      cases isHead
      cases pure_eq_ok.mp ran
      unfold expandDynamicReusableCall
      rw [dynamicInstances_virtual, expandInvocations_virtual, List.mapIdx_cons, List.mapIdx_cons]
      subst baseId
      have ids : invocationIds template.baseId
          ((instanceOf template (first :: second :: rest) 0 first ::
            instanceOf template (first :: second :: rest) 1 second ::
            rest.mapIdx fun index => instanceOf template (first :: second :: rest)
              (index + 1 + 1)).map
            fun planned => { planned with virtualJob := virtual }) =
          invocationIds template.baseId
            (instanceOf template (first :: second :: rest) 0 first ::
              instanceOf template (first :: second :: rest) 1 second ::
              rest.mapIdx fun index =>
                instanceOf template (first :: second :: rest) (index + 1 + 1)) := by
        simp [invocationIds]
      refine bind_eq_ok.mpr ⟨expanded, all, ?_⟩
      refine pure_eq_ok.mpr ?_
      rw [ids]
      rfl

/-! ### A calling job in a linked plan -/

/-- The parts of a linked plan. -/
structure LinkedParts (reusableWorkflows : BTreeMap Workflow) (workflow : Workflow)
    (path : String) (plan : ExecutionPlan) (context : CompileContext) (parts : List Part) :
    Prop where
  isContext : IsContext (rootOf workflow) path context
  entries : workflow.jobs = parts.map Part.entry
  jobs : plan.jobs = parts.flatMap Part.segment
  compiled : ∀ part ∈ parts,
    compileJob context (rootOf workflow) (part.id, placeholderOf part.job) = .ok part.instances
  own : ∀ part ∈ parts, part.call = none → part.job.uses = none ∧ part.segment = part.instances
  called : ∀ part ∈ parts, ∀ called, part.call = some called →
    IsCall reusableWorkflows workflow part called
  linked : ∀ part ∈ parts, ∀ called, part.call = some called →
    Links reusableWorkflows called.workflow called.path called.call.calledPlan

theorem Links.exists_parts {reusableWorkflows : BTreeMap Workflow} {workflow : Workflow}
    {path : String} {plan : ExecutionPlan} (links : Links reusableWorkflows workflow path plan) :
    ∃ context parts, LinkedParts reusableWorkflows workflow path plan context parts := by
  obtain ⟨isContext, entries, jobs, _, _, compiled, own, called, linked⟩ := links
  exact ⟨_, _, isContext, entries, jobs, compiled, own, called, linked⟩

/-- A calling job and the workflow file that holds it. -/
structure Calling where
  workflow : Workflow
  path : String
  context : CompileContext
  part : Part
  called : Called

/-- The sites at which a static call expands its called workflow. -/
inductive IsSite (part : Part) (called : Called) : CallSite → Prop where
  | single {placeholder : PlannedJob} (alone : part.instances = [placeholder])
      (static : placeholder.dynamicMatrix = none) :
      IsSite part called (siteFor part.id called.call placeholder)
  | matrix {placeholder : PlannedJob} {index : Nat} (many : 2 ≤ part.instances.length)
      (static : ∀ job ∈ part.instances, job.dynamicMatrix = none)
      (member : (placeholder, index) ∈ part.instances.zipIdx) :
      IsSite part called (siteFor (invocationId part.id index) called.call placeholder)

/-- The jobs of a linked plan that stand for a calling job: its segment in the plan of its
own workflow, taken through the sites of the calls that enclose it, outermost first. -/
inductive Placed (reusableWorkflows : BTreeMap Workflow) :
    Workflow → String → ExecutionPlan → List CallSite → Calling → List PlannedJob → Prop where
  | here {workflow : Workflow} {path : String} {plan : ExecutionPlan} {context : CompileContext}
      {parts : List Part} {part : Part} {called : Called}
      (linked : LinkedParts reusableWorkflows workflow path plan context parts)
      (member : part ∈ parts) (isCall : part.call = some called) :
      Placed reusableWorkflows workflow path plan [] ⟨workflow, path, context, part, called⟩
        part.segment
  | inside {workflow : Workflow} {path : String} {plan : ExecutionPlan}
      {context : CompileContext} {parts : List Part} {part : Part} {called : Called}
      {site : CallSite} {sites : List CallSite} {calling : Calling}
      {jobs images : List PlannedJob}
      (linked : LinkedParts reusableWorkflows workflow path plan context parts)
      (member : part ∈ parts) (isCall : part.call = some called)
      (isSite : IsSite part called site)
      (inner : Placed reusableWorkflows called.workflow called.path called.call.calledPlan sites
        calling jobs)
      (ran : jobs.mapM site.calledJob = .ok images) :
      Placed reusableWorkflows workflow path plan (site :: sites) calling images

variable {reusableWorkflows : BTreeMap Workflow} {root : Workflow} {path : String}
  {linkedPlan : ExecutionPlan} {sites : List CallSite} {calling : Calling}
  {jobs : List PlannedJob}

/-- The calling job as its own workflow is compiled and linked. -/
structure IsCalling (reusableWorkflows : BTreeMap Workflow) (calling : Calling) : Prop where
  isContext : IsContext (rootOf calling.workflow) calling.path calling.context
  compiled : compileJob calling.context (rootOf calling.workflow)
    (calling.part.id, placeholderOf calling.part.job) = .ok calling.part.instances
  called : IsCall reusableWorkflows calling.workflow calling.part calling.called

theorem Placed.isCalling
    (placed : Placed reusableWorkflows root path linkedPlan sites calling jobs) :
    IsCalling reusableWorkflows calling := by
  induction placed with
  | here linked member isCall =>
      exact ⟨linked.isContext, linked.compiled _ member, linked.called _ member _ isCall⟩
  | inside _ _ _ _ _ _ inductionHypothesis => exact inductionHypothesis

omit [Serde] [Templates] in
theorem forall₂_getLast? {α β : Type} {related : α → β → Prop} {list : List α} {others : List β}
    (all : List.Forall₂ related list others) {last : α} (isLast : list.getLast? = some last) :
    ∃ other, others.getLast? = some other ∧ related last other := by
  induction all with
  | nil => cases isLast
  | @cons one two _ _ first rest inductionHypothesis =>
      cases rest with
      | nil =>
          cases isLast
          exact ⟨two, rfl, first⟩
      | cons => exact inductionHypothesis isLast

theorem Placed.jobs_of_nil
    (placed : Placed reusableWorkflows root path linkedPlan [] calling jobs) :
    jobs = calling.part.segment := by
  cases placed
  rfl

/-- Every enclosing call adds its gate to the needs of the last job. -/
theorem Placed.exists_last
    (placed : Placed reusableWorkflows root path linkedPlan sites calling jobs)
    {last : PlannedJob} (isLast : calling.part.segment.getLast? = some last) :
    ∃ image, jobs.getLast? = some image ∧
      image.needs.length = last.needs.length + sites.length := by
  induction placed with
  | here => exact ⟨last, isLast, rfl⟩
  | inside _ _ _ _ _ ran inductionHypothesis =>
      obtain ⟨early, isEarly, length⟩ := inductionHypothesis isLast
      obtain ⟨image, isImage, computed⟩ := forall₂_getLast? (mapM_eq_ok.mp ran) isEarly
      refine ⟨image, isImage, ?_⟩
      rw [(calledJob_ok computed).needs, List.length_append, List.length_map, length]
      simp only [List.length_cons, List.length_nil]
      omega

/-- A template stays one template under the calls that enclose it. -/
theorem Placed.exists_template
    (placed : Placed reusableWorkflows root path linkedPlan sites calling jobs)
    {template : PlannedJob} {call : PlannedDynamicReusableCall}
    (single : calling.part.segment = [template])
    (isCall : template.virtualJob = some (.reusableDynamicCall call)) :
    ∃ image, jobs = [image] ∧ image.virtualJob = some (.reusableDynamicCall call) := by
  induction placed with
  | here => exact ⟨template, single, isCall⟩
  | inside _ _ _ _ _ ran inductionHypothesis =>
      obtain ⟨early, isEarly, isVirtual⟩ := inductionHypothesis single
      rw [isEarly] at ran
      cases mapM_eq_ok.mp ran with
      | @cons _ image _ _ computed rest =>
          cases rest
          refine ⟨image, rfl, ?_⟩
          have kind := (calledJob_ok computed).kind
          rw [isVirtual] at kind
          generalize image.virtualJob = virtual at kind
          cases kind
          rfl

omit [Templates] in
theorem expandCall_single {workflow : String} {placeholder : PlannedJob}
    (static : placeholder.dynamicMatrix = none) (call : PlannedDynamicReusableCall) :
    expandCall workflow jobId [placeholder] call =
      expandReusableCall (siteFor jobId call placeholder) := by
  unfold expandCall
  rw [if_neg (by simp [static])]
  rfl

omit [Templates] in
theorem expandCall_many {workflow : String} {instances segment : List PlannedJob}
    {call : PlannedDynamicReusableCall} (many : 2 ≤ instances.length)
    (static : ∀ job ∈ instances, job.dynamicMatrix = none)
    (ran : expandCall workflow jobId instances call = .ok segment) :
    ∃ first, IsMatrix jobId call first instances segment := by
  match instances, many with
  | first :: second :: rest, _ =>
      cases expandCall_expands ran with
      | matrix _ isMatrix => exact ⟨first, isMatrix⟩

omit [Templates] in
/-- At a site of a call, its segment holds the called jobs under the site. -/
theorem IsSite.infix {part : Part} {called : Called} {site : CallSite} {workflow : Workflow}
    (isSite : IsSite part called site) (isCall : IsCall reusableWorkflows workflow part called) :
    ∃ images, List.Forall₂ (fun early job => site.calledJob early = .ok job)
      called.call.calledPlan.jobs images ∧ images <:+: part.segment := by
  have ran := isCall.expanded
  cases isSite with
  | single alone static =>
      rw [alone, expandCall_single static] at ran
      obtain ⟨images, expansion⟩ := expandReusableCall_ok ran
      refine ⟨images, expansion.computed, ?_⟩
      rw [expansion.jobs]
      exact ⟨[_], [_], rfl⟩
  | @matrix placeholder index many static member =>
      obtain ⟨first, isMatrix⟩ := expandCall_many many static ran
      obtain ⟨expanded, all, same⟩ := isMatrix.expansions
      obtain ⟨expansion, listed, images, isExpansion⟩ := forall₂_mem_right all.flip member
      refine ⟨images, isExpansion.computed, ?_⟩
      have inExpansion : images <:+: expansion := by
        rw [isExpansion.jobs]
        exact ⟨[_], [_], rfl⟩
      rw [same]
      exact (inExpansion.trans (List.infix_of_mem_flatten listed)).trans
        (List.prefix_append _ _).isInfix

/-- Those are jobs of the plan, one after the other. -/
theorem Placed.infix
    (placed : Placed reusableWorkflows root path linkedPlan sites calling jobs) :
    jobs <:+: linkedPlan.jobs := by
  have segments : ∀ {parts : List Part} {part : Part}, part ∈ parts →
      part.segment <:+: parts.flatMap Part.segment := by
    intro parts part member
    rw [List.flatMap_def]
    exact List.infix_of_mem_flatten (List.mem_map_of_mem member)
  induction placed with
  | here linked member _ =>
      rw [linked.jobs]
      exact segments member
  | @inside workflow path plan context parts part called site sites calling jobs images linked
      member isCall isSite _ ran inductionHypothesis =>
      obtain ⟨all, computed, within⟩ := isSite.infix (linked.called _ member _ isCall)
      obtain ⟨before, after, split⟩ := inductionHypothesis
      rw [linked.jobs]
      refine List.IsInfix.trans ?_ (within.trans (segments member))
      rw [← mapM_eq_ok, ← split, List.mapM_append, List.mapM_append] at computed
      obtain ⟨front, first, computed⟩ := bind_eq_ok.mp computed
      obtain ⟨beforeImages, _, first⟩ := bind_eq_ok.mp first
      obtain ⟨found, again, first⟩ := bind_eq_ok.mp first
      obtain ⟨afterImages, _, computed⟩ := bind_eq_ok.mp computed
      cases ran.symm.trans again
      cases pure_eq_ok.mp first
      exact ⟨beforeImages, afterImages, pure_eq_ok.mp computed⟩

/-! ### Static and dynamic matrices -/

/-- The same enclosing call in two sets of workflows. -/
structure SameSite (static dynamic : CallSite) : Prop where
  jobId : dynamic.jobId = static.jobId
  placeholder : dynamic.placeholder = static.placeholder
  inputs : dynamic.inputs = static.inputs
  secrets : dynamic.secrets = static.secrets
  outputs : dynamic.outputs = static.outputs

/-- The same calling job in two sets of workflows: one has a static matrix, the other an
expression that evaluates to it.  The rest of the workflow file and the linked plan behind
the call are the same. -/
structure Counterpart (strategy : List (Value × Value)) (matrix expression : Value)
    (combinations : List (BTreeMap Json)) (static dynamic : Calling) : Prop where
  path : dynamic.path = static.path
  name : dynamic.workflow.name = static.workflow.name
  env : dynamic.workflow.env = static.workflow.env
  defaults : dynamic.workflow.defaults = static.workflow.defaults
  permissions : dynamic.workflow.permissions = static.workflow.permissions
  id : dynamic.part.id = static.part.id
  isStrategy : static.part.job.strategy = some (.mapping strategy)
  job : dynamic.part.job = static.part.job.withDynamicMatrix strategy expression
  isMatrix : getKey "matrix" strategy = some matrix
  isStatic : containsExpression matrix = false
  isExpression : containsExpression expression = true
  evaluated : expandMatrixDefinition
    (workflowNameAt static.workflow (forwardSlashes static.path)) static.part.id matrix =
      .ok combinations
  many : 2 ≤ combinations.length
  call : dynamic.called.call = static.called.call

omit [Serde] [Templates] in
/-- The context of a workflow file is determined by its name, path and permissions. -/
theorem IsContext.eq_of_same {one two : Workflow} {onePath twoPath : String}
    {first second : CompileContext} (path : twoPath = onePath) (name : two.name = one.name)
    (permissions : two.permissions = one.permissions)
    (isFirst : IsContext (rootOf one) onePath first)
    (isSecond : IsContext (rootOf two) twoPath second) : second = first := by
  have sameName : second.workflowName = first.workflowName := by
    rw [isFirst.name_root, isSecond.name_root, workflowNameAt, workflowNameAt, name, path]
  have samePath : second.workflowPath = first.workflowPath := by
    rw [isFirst.workflowPath, isSecond.workflowPath, path]
  have declared : plannedPermissions second.workflowName "workflow" two.permissions
      PlannedPermissions.default = .ok second.permissions := isSecond.permissions
  rw [sameName, permissions] at declared
  have samePermissions := Except.ok.inj (declared.symm.trans isFirst.permissions)
  cases first
  cases second
  cases sameName
  cases samePath
  cases samePermissions
  rfl

variable {strategy : List (Value × Value)} {matrix expression : Value}
  {combinations : List (BTreeMap Json)} {dynamicCalling : Calling}

/-- How the two calling jobs are compiled and linked in their own workflow. -/
theorem Counterpart.segments {dynamicWorkflows : BTreeMap Workflow}
    (counterpart : Counterpart strategy matrix expression combinations calling dynamicCalling)
    (static : IsCalling reusableWorkflows calling)
    (dynamic : IsCalling dynamicWorkflows dynamicCalling) :
    ∃ template, template.baseId = calling.part.id ∧
      calling.part.instances = combinations.mapIdx (instanceOf template combinations) ∧
      dynamicCalling.part.segment =
        [{ template with virtualJob := some (.reusableDynamicCall calling.called.call) }] := by
  have sameContext := IsContext.eq_of_same counterpart.path counterpart.name
    counterpart.permissions static.isContext dynamic.isContext
  have compiled := dynamic.compiled
  rw [sameContext, counterpart.id, counterpart.job, placeholderOf_withDynamicMatrix] at compiled
  have isStrategy := counterpart.isStrategy
  rw [← placeholderOf_strategy] at isStrategy
  have evaluated := counterpart.evaluated
  rw [← static.isContext.name_root] at evaluated
  have defaults : (rootOf dynamicCalling.workflow).defaults =
      (rootOf calling.workflow).defaults := counterpart.defaults
  have env : (rootOf dynamicCalling.workflow).env = (rootOf calling.workflow).env :=
    counterpart.env
  obtain ⟨template, single, isDynamic, baseId, instances⟩ := compileJob_counterpart defaults env
    isStrategy counterpart.isMatrix counterpart.isStatic counterpart.isExpression evaluated
    counterpart.many static.compiled compiled
  refine ⟨template, baseId, instances, ?_⟩
  have expanded := dynamic.called.expanded
  rw [single, counterpart.call] at expanded
  unfold expandCall at expanded
  rw [if_pos (by simp [isDynamic])] at expanded
  exact (Except.ok.inj expanded).symm

/-- The expansion of a template and the static expansion of its matrix yield the same
jobs exactly if no call encloses the calling job. -/
theorem dynamic_expansion_agrees_iff (staticWorkflows dynamicWorkflows : BTreeMap Workflow)
    (staticRoot dynamicRoot : Workflow) (staticPath dynamicPath : String)
    (staticPlan dynamicPlan : ExecutionPlan) (staticSites dynamicSites : List CallSite)
    (staticCalling dynamicCalling : Calling) (staticJobs dynamicJobs : List PlannedJob)
    (strategy : List (Value × Value)) (matrix expression : Value)
    (combinations : List (BTreeMap Json))
    (static : Placed staticWorkflows staticRoot staticPath staticPlan staticSites staticCalling
      staticJobs)
    (dynamic : Placed dynamicWorkflows dynamicRoot dynamicPath dynamicPlan dynamicSites
      dynamicCalling dynamicJobs)
    (enclosing : List.Forall₂ SameSite staticSites dynamicSites)
    (counterpart : Counterpart strategy matrix expression combinations staticCalling
      dynamicCalling) :
    ∃ template call, dynamicJobs = [template] ∧
      template.virtualJob = some (.reusableDynamicCall call) ∧
      (expandDynamicReusableCall template (dynamicInstances template combinations) call =
        .ok staticJobs ↔ staticSites = []) := by
  obtain ⟨template, baseId, instances, segment⟩ :=
    counterpart.segments static.isCalling dynamic.isCalling
  obtain ⟨image, single, isCall⟩ := dynamic.exists_template segment rfl
  refine ⟨image, staticCalling.called.call, single, isCall, ?_, ?_⟩
  · intro ran
    have expanded := static.isCalling.called.expanded
    have statics : ∀ job ∈ staticCalling.part.instances, job.dynamicMatrix = none := by
      intro job member
      rw [instances] at member
      obtain ⟨index, _, same⟩ := List.mem_mapIdx.mp member
      rw [← same]
      rfl
    have count : staticCalling.part.instances.length = combinations.length := by
      rw [instances, List.length_mapIdx]
    obtain ⟨first, isMatrix⟩ :=
      expandCall_many (count ▸ counterpart.many) statics expanded
    -- the matrix result is the last job of both expansions
    obtain ⟨_, _, staticLast⟩ := isMatrix.expansions
    obtain ⟨_, _, dynamicLast⟩ := (expandDynamicReusableCall_isMatrix ran).expansions
    obtain ⟨last, isLast, length⟩ := static.exists_last
      (by rw [staticLast, List.getLast?_append, List.getLast?_singleton, Option.some_or])
    rw [dynamicLast, List.getLast?_append, List.getLast?_singleton, Option.some_or] at isLast
    cases isLast
    simp only [reusableMatrixResult, invocationIds, List.length_map, List.length_range, count,
      dynamicInstances_eq, List.length_mapIdx] at length
    exact List.length_eq_zero_iff.mp (by omega)
  · intro none
    subst none
    cases enclosing
    rw [static.jobs_of_nil]
    have isSegment := dynamic.jobs_of_nil
    rw [single, segment] at isSegment
    cases isSegment
    have expanded := static.isCalling.called.expanded
    rw [instances] at expanded
    exact expandDynamic_of_static baseId counterpart.many expanded _

end Dynamic

/-! ### A matrix of two calls -/

namespace Sample

def systems : Value :=
  .mapping [(.string "system", .sequence [.string "macos", .string "ventura"])]

def systemStrategy : List (Value × Value) := [(.string "matrix", systems)]

def systemsExpression : Value := .string "$\x7b\x7b fromJSON(inputs.systems) \x7d\x7d"

def matrixCall : Job where
  uses := some "./.github/workflows/callee.yml"
  strategy := some (.mapping systemStrategy)

def matrixCaller : Workflow where
  name := "caller"
  trigger := .string "workflow_call"
  jobs := [("call", matrixCall)]
  distinct := by decide

def dynamicCaller : Workflow where
  name := "caller"
  trigger := .string "workflow_call"
  jobs := [("call", matrixCall.withDynamicMatrix systemStrategy systemsExpression)]
  distinct := by decide

def systemCombinations : Option (List (BTreeMap Json)) :=
  (expandMatrixDefinition "caller" "call" systems).toOption

/-- The expansion of the first template of a plan. -/
def expandFirst (plan : ExecutionPlan) : Option (List PlannedJob) :=
  plan.jobs.findSome? fun job =>
    match job.virtualJob with
    | some (.reusableDynamicCall call) => do
        let combinations ← systemCombinations
        (expandDynamicReusableCall job (dynamicInstances job combinations) call).toOption
    | _ => none

def outerPath : String := ".github/workflows/outer.yml"

/-- A workflow that calls the caller. -/
def outer : Workflow where
  name := "outer"
  jobs := [("outer", { uses := some "./.github/workflows/caller.yml" })]
  distinct := by decide

def nested (caller : Workflow) : BTreeMap Workflow :=
  (reusables "build").insert ".github/workflows/caller.yml" caller

def needsIn (jobs : List PlannedJob) : List (List String) := jobs.map (·.needs)

def nestedStatic : Outcome ExecutionPlan :=
  compileWithReusables outer outerPath (nested matrixCaller)

def nestedDynamic : Outcome ExecutionPlan :=
  compileWithReusables outer outerPath (nested dynamicCaller)

/-- Under another call, the expanded template is no part of the static plan: its jobs do
not need the outer gate. -/
theorem nested_call_differs :
    ∃ static dynamic expanded, nestedStatic = .ok static ∧ nestedDynamic = .ok dynamic ∧
      expandFirst dynamic = some expanded ∧ ¬ expanded <:+: static.jobs := by
  have staticNeeds : nestedStatic.toOption.map (needsIn ·.jobs) = some [[], ["outer::gate"],
      ["outer::call::matrix-1::gate", "outer::gate"],
      ["outer::call::matrix-1::build", "outer::gate"], ["outer::gate"],
      ["outer::call::matrix-2::gate", "outer::gate"],
      ["outer::call::matrix-2::build", "outer::gate"],
      ["outer::call::matrix-1", "outer::call::matrix-2", "outer::gate"], ["outer::call"]] := by
    decide +kernel
  have dynamicNeeds : (nestedDynamic.toOption.bind expandFirst).map needsIn = some
      [["outer::gate"], ["outer::call::matrix-1::gate"], ["outer::call::matrix-1::build"],
      ["outer::gate"], ["outer::call::matrix-2::gate"], ["outer::call::matrix-2::build"],
      ["outer::call::matrix-1", "outer::call::matrix-2"]] := by
    decide +kernel
  cases isStatic : nestedStatic with
  | error failure =>
      rw [isStatic] at staticNeeds
      cases staticNeeds
  | ok static =>
      cases isDynamic : nestedDynamic with
      | error failure =>
          rw [isDynamic] at dynamicNeeds
          cases dynamicNeeds
      | ok dynamic =>
          rw [isStatic] at staticNeeds
          rw [isDynamic] at dynamicNeeds
          obtain ⟨expanded, isExpanded, needs⟩ := Option.map_eq_some_iff.mp dynamicNeeds
          refine ⟨static, dynamic, expanded, rfl, rfl, isExpanded, fun inside => ?_⟩
          have all : needsIn static.jobs = _ := Option.some.inj staticNeeds
          have mapped := inside.map (·.needs)
          rw [← needsIn, ← needsIn, needs, all] at mapped
          revert mapped
          decide

def matrixPlan : Outcome ExecutionPlan :=
  compileWithReusables matrixCaller ".github/workflows/ci.yml" (reusables "build")

def callerContext : CompileContext where
  workflowName := "caller"
  workflowPath := ".github/workflows/ci.yml"
  permissions := PlannedPermissions.default

theorem callerContext_eq {context : CompileContext}
    (isContext : IsContext (rootOf matrixCaller) ".github/workflows/ci.yml" context) :
    context = callerContext := by
  obtain ⟨name, path, permissions⟩ := context
  obtain ⟨samePath, sameName, declared⟩ := isContext
  have isPath : path = ".github/workflows/ci.yml" := samePath.trans (by decide)
  have isName : name = "caller" := sameName.trans (by decide)
  cases isPath
  cases isName
  cases declared
  rfl

theorem exists_of_dynamics (outcome : Outcome (List PlannedJob))
    (same : outcome.toOption.map (·.map (·.dynamicMatrix.isSome)) = some [true]) :
    ∃ template : PlannedJob, template.dynamicMatrix.isSome ∧ outcome = .ok [template] := by
  cases outcome with
  | error failure => cases same
  | ok templates =>
      obtain ⟨template, single, isDynamic⟩ :=
        List.map_eq_singleton_iff.mp (Option.some.inj same)
      exact ⟨template, isDynamic, congrArg Except.ok single⟩

theorem ok_of_toOption {α : Type} {outcome : Outcome α} {value : α}
    (same : outcome.toOption = some value) : outcome = .ok value := by
  cases outcome with
  | error failure => cases same
  | ok found => exact congrArg Except.ok (Option.some.inj same)

theorem exists_template :
    ∃ template : PlannedJob, template.dynamicMatrix.isSome ∧
      compileJob callerContext (rootOf dynamicCaller)
        ("call", placeholderOf (matrixCall.withDynamicMatrix systemStrategy systemsExpression)) =
          .ok [template] :=
  exists_of_dynamics _ (by decide)

/-- The linked parts of the dynamic caller, behind the call of the static one. -/
theorem exists_dynamic_parts {plan : ExecutionPlan} {part : Part} {called : Called}
    (linked : LinkedParts (reusables "build") matrixCaller ".github/workflows/ci.yml" plan
      callerContext [part]) (isCall : part.call = some called) :
    ∃ dynamicPart : Part, dynamicPart.id = "call" ∧
      dynamicPart.job = matrixCall.withDynamicMatrix systemStrategy systemsExpression ∧
      dynamicPart.call = some called ∧
      LinkedParts (reusables "build") dynamicCaller ".github/workflows/ci.yml"
        { plan with jobs := dynamicPart.segment } callerContext [dynamicPart] := by
  obtain ⟨template, isDynamic, compiled⟩ := exists_template
  have call := linked.called part List.mem_cons_self called isCall
  obtain ⟨_, single, entry⟩ := List.map_eq_singleton_iff.mp linked.entries.symm
  cases single
  have id : part.id = "call" := congrArg Prod.fst entry
  have job : part.job = matrixCall := congrArg Prod.snd entry
  have resolves := call.resolves
  rw [id, job] at resolves
  let dynamicPart : Part := {
    id := "call"
    job := matrixCall.withDynamicMatrix systemStrategy systemsExpression
    instances := [template]
    segment := [{ template with virtualJob := some (.reusableDynamicCall called.call) }]
    call := some called }
  have expanded : expandCall dynamicCaller.name "call" [template] called.call =
      .ok dynamicPart.segment := by
    unfold expandCall
    rw [if_pos (by simpa using isDynamic)]
  refine ⟨dynamicPart, rfl, rfl, rfl, ⟨⟨by decide +kernel, by decide +kernel, rfl⟩, rfl, by simp,
    ?_, ?_, ?_, ?_⟩⟩
  · intro other member
    cases List.mem_singleton.mp member
    exact compiled
  · intro other member none
    cases List.mem_singleton.mp member
    cases none
  · intro other member found isFound
    cases List.mem_singleton.mp member
    cases isFound
    exact ⟨resolves, by simp [dynamicPart], call.calledJobs, expanded⟩
  · intro other member found isFound
    cases List.mem_singleton.mp member
    cases isFound
    exact linked.linked part List.mem_cons_self called isCall

/-- A call over a matrix of two systems, known in advance or evaluated later. -/
theorem matrix_call_agrees :
    ∃ plan combinations template call, matrixPlan = .ok plan ∧
      systemCombinations = some combinations ∧ combinations.length = 2 ∧
      template.virtualJob = some (.reusableDynamicCall call) ∧
      expandDynamicReusableCall template (dynamicInstances template combinations) call =
        .ok plan.jobs := by
  obtain ⟨plan, ran, _⟩ := exists_of_idsOf matrixPlan ["call::matrix-1::gate",
    "call::matrix-1::build", "call::matrix-1", "call::matrix-2::gate", "call::matrix-2::build",
    "call::matrix-2", "call"] (by decide +kernel)
  have count : systemCombinations.map List.length = some 2 := by decide
  obtain ⟨combinations, isCombinations, two⟩ := Option.map_eq_some_iff.mp count
  obtain ⟨context, parts, linked⟩ := (compileWithReusables_links ran).exists_parts
  cases callerContext_eq linked.isContext
  have evaluated : expandMatrixDefinition "caller" "call" systems = .ok combinations :=
    ok_of_toOption isCombinations
  have fileName : workflowNameAt matrixCaller (forwardSlashes ".github/workflows/ci.yml") =
      "caller" := by decide +kernel
  obtain ⟨part, single, entry⟩ := List.map_eq_singleton_iff.mp linked.entries.symm
  subst single
  have job : part.job = matrixCall := congrArg Prod.snd entry
  cases isCall : part.call with
  | none =>
      have uses := (linked.own part List.mem_cons_self isCall).1
      rw [job] at uses
      cases uses
  | some called =>
      obtain ⟨dynamicPart, dynamicId, dynamicJob, dynamicCall, dynamicLinked⟩ :=
        exists_dynamic_parts linked isCall
      have static := Placed.here linked List.mem_cons_self isCall
      have dynamic := Placed.here dynamicLinked List.mem_cons_self dynamicCall
      obtain ⟨template, call, _, isTemplate, agrees⟩ := dynamic_expansion_agrees_iff
        _ _ _ _ _ _ _ _ [] [] _ _ _ _ systemStrategy systems systemsExpression combinations
        static dynamic .nil {
          path := rfl, name := rfl, env := rfl, defaults := rfl, permissions := rfl
          id := dynamicId.trans (congrArg Prod.fst entry).symm
          isStrategy := by rw [job]; rfl
          job := by rw [dynamicJob, job]
          isMatrix := by simp [systemStrategy, getKey]
          isStatic := by decide +kernel
          isExpression := by decide +kernel
          evaluated := by
            rw [fileName, show part.id = "call" from congrArg Prod.fst entry]
            exact evaluated
          many := two.ge
          call := rfl }
      refine ⟨plan, combinations, template, call, ran, isCombinations, two, isTemplate, ?_⟩
      have jobs : plan.jobs = part.segment := by
        rw [linked.jobs]
        simp
      rw [jobs]
      exact agrees.mpr rfl

end Sample

end GitZero.Workflows
