/-
Module: GitZero.Proofs.CallPermissions
Purpose: The permissions of a planned job: the least level that its defining job and the
  calling jobs of its chain declare, in the linked plan and after every expansion of its
  dynamic calls.
Trusted boundary: none
Main exports: Level, Declaration, Stems, IsCallChain, PermissionsKept,
  linked_plan_permissions_iff
-/
import Mathlib.Data.List.Chain
import Mathlib.Order.Bounds.Basic
import GitZero.Proofs.PlanIdentity

namespace GitZero.Workflows

open Outcomes Relation

/-! ### Levels -/

/-- The access that a permission grants, from none to write. -/
inductive Level where
  | none | read | write
deriving Repr, DecidableEq

namespace Level

def rank : Level → Nat
  | none => 0
  | read => 1
  | write => 2

theorem rank_injective : Function.Injective rank := by
  intro one two same
  cases one <;> cases two <;> first | rfl | cases same

instance : LinearOrder Level := LinearOrder.lift' rank rank_injective

end Level

namespace PlannedPermissions

/-- A permission in both sets is a write permission. -/
def level (permissions : PlannedPermissions) (name : String) : Level :=
  if name ∈ permissions.write then .write
  else if name ∈ permissions.read then .read
  else .none

theorem level_intersect (permissions maximum : PlannedPermissions) (name : String) :
    (permissions.intersect maximum).level name =
      min (permissions.level name) (maximum.level name) := by
  unfold level intersect
  by_cases ownWrite : name ∈ permissions.write <;> by_cases ownRead : name ∈ permissions.read <;>
    by_cases maximumWrite : name ∈ maximum.write <;>
    by_cases maximumRead : name ∈ maximum.read <;>
    simp [ownWrite, ownRead, maximumWrite, maximumRead] <;> decide

theorem intersect_disjoint (permissions maximum : PlannedPermissions) :
    Disjoint (permissions.intersect maximum).read (permissions.intersect maximum).write :=
  Finset.sdiff_disjoint

end PlannedPermissions

/-! ### What a job declares -/

/-- An entry of a permission mapping; the names and the accesses are read through tags. -/
def Lists (entries : List (Value × Value)) (name access : String) : Prop :=
  ∃ entry ∈ entries, entry.1.asStr = some name ∧ entry.2.asStr = some access

instance (entries : List (Value × Value)) (name access : String) :
    Decidable (Lists entries name access) :=
  inferInstanceAs (Decidable (∃ entry ∈ entries, _ ∧ _))

/-- The level that a value of the key `permissions` declares, or the default without one. -/
def declaredLevel (value : Option Value) (name : String) : Level :=
  match value with
  | none => PlannedPermissions.default.level name
  | some (.string "read-all") =>
      if name ∈ readWriteTokenPermissions ++ readOnlyTokenPermissions then .read else .none
  | some (.mapping entries) =>
      if Lists entries name "write" then .write
      else if Lists entries name "read" then .read
      else .none
  | some _ => .none

/-- A mapping that lists one name with both accesses: the keys of a mapping are distinct,
but a tagged key is another key with the same name. -/
def Doubled (value : Option Value) : Prop :=
  ∃ entries, value = some (.mapping entries) ∧
    ∃ name, Lists entries name "read" ∧ Lists entries name "write"

theorem permissionEntry_ok {workflow location : String} {permissions planned : PlannedPermissions}
    {entry : Value × Value}
    (ran : permissionEntry workflow location permissions entry = .ok planned) (name : String) :
    (name ∈ planned.read ↔ name ∈ permissions.read ∨
      (entry.1.asStr = some name ∧ entry.2.asStr = some "read")) ∧
    (name ∈ planned.write ↔ name ∈ permissions.write ∨
      (entry.1.asStr = some name ∧ entry.2.asStr = some "write")) := by
  obtain ⟨key, access⟩ := entry
  unfold permissionEntry at ran
  cases isName : key.asStr with
  | none => simp [isName, unsupportedWorkflow] at ran
  | some listed =>
      simp only [isName] at ran
      split at ran
      · cases ran
      · split at ran
        · next isAccess =>
            cases ran
            simp [isAccess]
        · next isAccess =>
            split at ran
            · cases ran
              simp [isAccess, eq_comm, or_comm]
            · cases ran
        · next isAccess =>
            split at ran
            · cases ran
            · split at ran
              · cases ran
              · cases ran
                simp [isAccess, eq_comm, or_comm]
        · cases ran

theorem permissionEntries_ok {workflow location : String} {entries : List (Value × Value)}
    {permissions planned : PlannedPermissions}
    (ran : entries.foldlM (permissionEntry workflow location) permissions = .ok planned)
    (name : String) :
    (name ∈ planned.read ↔ name ∈ permissions.read ∨ Lists entries name "read") ∧
    (name ∈ planned.write ↔ name ∈ permissions.write ∨ Lists entries name "write") := by
  induction entries generalizing permissions with
  | nil =>
      cases pure_eq_ok.mp ran
      simp [Lists]
  | cons entry rest inductionHypothesis =>
      obtain ⟨next, first, ran⟩ := foldlM_cons_eq_ok.mp ran
      obtain ⟨read, write⟩ := permissionEntry_ok first name
      obtain ⟨restRead, restWrite⟩ := inductionHypothesis ran
      rw [restRead, restWrite, read, write]
      simp [Lists, or_assoc]

/-- Permissions with the levels of a declaration, and its flaw if it has one. -/
structure Follows (permissions : PlannedPermissions) (value : Option Value) : Prop where
  levels : ∀ name, permissions.level name = declaredLevel value name
  apart : Disjoint permissions.read permissions.write ↔ ¬ Doubled value

theorem default_follows : Follows PlannedPermissions.default none where
  levels _ := rfl
  apart := by simp [PlannedPermissions.default, Doubled]

theorem permissionEntries_follow {workflow location : String} {entries : List (Value × Value)}
    {planned : PlannedPermissions}
    (ran : entries.foldlM (permissionEntry workflow location) { read := ∅, write := ∅ } =
      .ok planned) : Follows planned (some (.mapping entries)) := by
  have listed : ∀ name, (name ∈ planned.read ↔ Lists entries name "read") ∧
      (name ∈ planned.write ↔ Lists entries name "write") := by
    intro name
    simpa using permissionEntries_ok ran name
  constructor
  · intro name
    obtain ⟨read, write⟩ := listed name
    simp [PlannedPermissions.level, declaredLevel, read, write]
  · rw [Finset.disjoint_left]
    constructor
    · intro apart doubled
      obtain ⟨_, same, name, read, write⟩ := doubled
      cases same
      exact apart ((listed name).1.mpr read) ((listed name).2.mpr write)
    · intro single name read write
      apply single
      exact ⟨entries, rfl, name, (listed name).1.mp read, (listed name).2.mp write⟩

/-- A key `permissions` replaces what the permissions follow; without one they stay. -/
theorem plannedPermissions_follows {workflow location : String} {value outer : Option Value}
    {inherited planned : PlannedPermissions} (follows : Follows inherited outer)
    (ran : plannedPermissions workflow location value inherited = .ok planned) :
    Follows planned (value.or outer) := by
  unfold plannedPermissions at ran
  split at ran
  · cases ran
    exact follows
  · cases ran
    constructor
    · intro name
      simp [PlannedPermissions.level, declaredLevel]
    · simp [Doubled]
  · cases ran
  · exact permissionEntries_follow ran
  · cases ran

/-! ### The chain of a planned job -/

/-- A job where it is written. -/
structure Declaration where
  workflow : Workflow
  jobId : String
  job : Job

namespace Declaration

variable (declaration : Declaration)

/-- A job without permissions of its own takes those of its workflow. -/
def permissions : Option Value :=
  declaration.job.permissions.or declaration.workflow.permissions

def level (name : String) : Level := declaredLevel declaration.permissions name

end Declaration

/-- The levels of a chain at one permission. -/
def levelsOf (chain : List Declaration) (name : String) : Set Level :=
  { level | ∃ declaration ∈ chain, declaration.level name = level }

theorem levelsOf_append (inner outer : List Declaration) (name : String) :
    levelsOf (inner ++ outer) name = levelsOf inner name ∪ levelsOf outer name := by
  ext level
  simp [levelsOf, or_and_right, exists_or]

section Chains

variable [Serde]

/-- From the defining job to a job of the root workflow, each called by the next. -/
structure IsCallChain (reusableWorkflows : BTreeMap Workflow) (root : Workflow)
    (chain : List Declaration) : Prop where
  written : ∀ declaration ∈ chain, (declaration.jobId, declaration.job) ∈ declaration.workflow.jobs
  calls : chain.IsChain fun inner outer => ∃ path,
    Resolves reusableWorkflows outer.workflow outer.jobId outer.job inner.workflow path
  rooted : ∃ last, chain.getLast? = some last ∧ last.workflow = root

variable [Templates]

/-- The declarations behind a job of a plan of the workflow: the compiler makes a job of
its own declaration, and the linker makes jobs of a placeholder and of called jobs. -/
inductive Stems (reusableWorkflows : BTreeMap Workflow) :
    Workflow → String → PlannedJob → List Declaration → Prop where
  | compiled {workflow : Workflow} {path jobId : String} {job : Job} {context : CompileContext}
      {instances : List PlannedJob} {planned : PlannedJob}
      (isContext : IsContext (rootOf workflow) path context)
      (written : (jobId, job) ∈ workflow.jobs)
      (ran : compileJob context (rootOf workflow) (jobId, placeholderOf job) = .ok instances)
      (member : planned ∈ instances) :
      Stems reusableWorkflows workflow path planned [⟨workflow, jobId, job⟩]
  | template {workflow : Workflow} {path : String} {placeholder : PlannedJob}
    {chain : List Declaration}
      (stems : Stems reusableWorkflows workflow path placeholder chain)
      (call : PlannedDynamicReusableCall) :
      Stems reusableWorkflows workflow path
        { placeholder with virtualJob := some (.reusableDynamicCall call) } chain
  | combination {workflow : Workflow} {path : String} {template planned : PlannedJob}
    {chain : List Declaration}
      {combinations : List (BTreeMap Json)} {condition : Option String}
      (stems : Stems reusableWorkflows workflow path template chain)
      (member : planned ∈ dynamicInstances template combinations) :
      Stems reusableWorkflows workflow path { planned with condition } chain
  | gate {workflow : Workflow} {path : String} {site : CallSite} {chain : List Declaration}
      (stems : Stems reusableWorkflows workflow path site.placeholder chain) :
      Stems reusableWorkflows workflow path site.gate chain
  | result {workflow : Workflow} {path : String} {site : CallSite} {chain : List Declaration}
      (stems : Stems reusableWorkflows workflow path site.placeholder chain) :
      Stems reusableWorkflows workflow path site.result chain
  | matrixResult {workflow : Workflow} {path : String} {template : PlannedJob}
    {chain : List Declaration}
      (stems : Stems reusableWorkflows workflow path template chain)
      (jobId : String) (invocations : List String) :
      Stems reusableWorkflows workflow path (reusableMatrixResult jobId template invocations) chain
  | called {workflow callee : Workflow} {path calleePath : String} {site : CallSite}
      {job planned : PlannedJob} {caller : Declaration} {callers chain : List Declaration}
      (calling : Stems reusableWorkflows workflow path site.placeholder (caller :: callers))
      (resolves : Resolves reusableWorkflows caller.workflow caller.jobId caller.job callee
        calleePath)
      (stems : Stems reusableWorkflows callee calleePath job chain)
      (ran : site.calledJob job = .ok planned) :
      Stems reusableWorkflows workflow path planned (chain ++ caller :: callers)

variable {reusableWorkflows : BTreeMap Workflow} {workflow : Workflow} {path : String}
  {planned : PlannedJob} {chain : List Declaration}

omit [Serde] [Templates] in
theorem placeholderOf_permissions (job : Job) :
    (placeholderOf job).permissions = job.permissions := by
  unfold placeholderOf
  split <;> rfl

/-- The compiler gives a job the permissions of its declaration. -/
theorem compiled_follows {jobId : String} {job : Job} {context : CompileContext}
    {instances : List PlannedJob} (isContext : IsContext (rootOf workflow) path context)
    (ran : compileJob context (rootOf workflow) (jobId, placeholderOf job) = .ok instances)
    (member : planned ∈ instances) :
    Follows planned.permissions (Declaration.permissions ⟨workflow, jobId, job⟩) := by
  obtain ⟨plan, are⟩ := compileJob_ok ran
  obtain ⟨matrixIndex, matrix, is⟩ := are.instance_of_mem member
  have own := is.permissions
  rw [placeholderOf_permissions] at own
  have inherited : Follows context.permissions (workflow.permissions.or none) :=
    plannedPermissions_follows default_follows isContext.permissions
  rw [Option.or_none] at inherited
  exact plannedPermissions_follows inherited own

theorem Stems.chain_ne_nil (stems : Stems reusableWorkflows workflow path planned chain) :
    chain ≠ [] := by
  induction stems with
  | compiled => simp
  | called => simp
  | template _ _ inductionHypothesis => exact inductionHypothesis
  | combination _ _ inductionHypothesis => exact inductionHypothesis
  | gate _ inductionHypothesis => exact inductionHypothesis
  | result _ inductionHypothesis => exact inductionHypothesis
  | matrixResult _ _ _ inductionHypothesis => exact inductionHypothesis

omit [Templates] in
/-- An instance of a template keeps its permissions. -/
theorem dynamicInstances_permissions {template : PlannedJob}
    {combinations : List (BTreeMap Json)}
    (member : planned ∈ dynamicInstances template combinations) :
    planned.permissions = template.permissions := by
  obtain ⟨index, _, same⟩ := List.mem_mapIdx.mp member
  rw [← same]

/-- The level of a job is the least level of its chain. -/
theorem Stems.isLeast (stems : Stems reusableWorkflows workflow path planned chain)
    (name : String) :
    IsLeast (levelsOf chain name) (planned.permissions.level name) := by
  induction stems with
  | @compiled workflow _ jobId job _ _ _ isContext _ ran member =>
      rw [(compiled_follows isContext ran member).levels name]
      have single : levelsOf [⟨workflow, jobId, job⟩] name =
          {Declaration.level ⟨workflow, jobId, job⟩ name} := by
        ext level
        simp [levelsOf, eq_comm]
      rw [single]
      exact isLeast_singleton
  | template _ _ inductionHypothesis => exact inductionHypothesis
  | combination _ member inductionHypothesis =>
      rwa [dynamicInstances_permissions member]
  | gate _ inductionHypothesis => exact inductionHypothesis
  | result _ inductionHypothesis => exact inductionHypothesis
  | matrixResult _ _ _ inductionHypothesis => exact inductionHypothesis
  | called _ _ _ ran calling inner =>
      rw [(calledJob_ok ran).permissions, PlannedPermissions.level_intersect, levelsOf_append]
      exact inner.union calling

/-- Only a job that no call encloses can hold one permission in both sets. -/
theorem Stems.disjoint_iff (stems : Stems reusableWorkflows workflow path planned chain) :
    Disjoint planned.permissions.read planned.permissions.write ↔
      ∀ declaration, chain = [declaration] → ¬ Doubled declaration.permissions := by
  induction stems with
  | compiled isContext _ ran member =>
      rw [(compiled_follows isContext ran member).apart]
      simp
  | template _ _ inductionHypothesis => exact inductionHypothesis
  | combination _ member inductionHypothesis =>
      rwa [dynamicInstances_permissions member]
  | gate _ inductionHypothesis => exact inductionHypothesis
  | result _ inductionHypothesis => exact inductionHypothesis
  | matrixResult _ _ _ inductionHypothesis => exact inductionHypothesis
  | @called _ _ _ _ _ _ _ caller callers chain _ _ stems ran _ _ =>
      have apart : Disjoint _ _ := (calledJob_ok ran).permissions ▸
        PlannedPermissions.intersect_disjoint _ _
      have long : ∀ declaration, chain ++ caller :: callers ≠ [declaration] := by
        intro declaration same
        obtain ⟨first, rest, isCons⟩ := List.exists_cons_of_ne_nil stems.chain_ne_nil
        simp [isCons] at same
      exact iff_of_true apart fun declaration same => absurd same (long declaration)

theorem Stems.isCallChain (stems : Stems reusableWorkflows workflow path planned chain) :
    IsCallChain reusableWorkflows workflow chain := by
  induction stems with
  | compiled isContext written ran member =>
      exact ⟨by simpa using written, .singleton _, _, rfl, rfl⟩
  | template _ _ inductionHypothesis => exact inductionHypothesis
  | combination _ _ inductionHypothesis => exact inductionHypothesis
  | gate _ inductionHypothesis => exact inductionHypothesis
  | result _ inductionHypothesis => exact inductionHypothesis
  | matrixResult _ _ _ inductionHypothesis => exact inductionHypothesis
  | called _ resolves _ _ calling inner =>
      constructor
      · intro declaration member
        rcases List.mem_append.mp member with inside | outside
        · exact inner.written declaration inside
        · exact calling.written declaration outside
      · rw [List.isChain_append]
        refine ⟨inner.calls, calling.calls, ?_⟩
        intro last isLast first isFirst
        obtain ⟨found, same, isCallee⟩ := inner.rooted
        rw [Option.mem_def, same] at isLast
        cases isLast
        cases isFirst
        exact ⟨_, isCallee ▸ resolves⟩
      · obtain ⟨last, same, isRoot⟩ := calling.rooted
        exact ⟨last, by rw [List.getLast?_append, same, Option.some_or], isRoot⟩

/-- A job of the workflow that its matrix leaves at least one combination. -/
def Planned (workflow : Workflow) (path : String) (entry : String × Job) : Prop :=
  entry ∈ workflow.jobs ∧ ∃ matrix, matrix.combinations ≠ [] ∧
    expandMatrix (workflowNameAt workflow (forwardSlashes path)) entry.1 entry.2.strategy =
      .ok matrix

/-- A chain of one declaration is that of a planned job of the root workflow. -/
theorem Stems.isPlanned {declaration : Declaration}
    (stems : Stems reusableWorkflows workflow path planned chain)
    (single : chain = [declaration]) :
    declaration.workflow = workflow ∧
      Planned workflow path (declaration.jobId, declaration.job) := by
  induction stems with
  | @compiled workflow path jobId job context instances planned isContext written ran member =>
      cases single
      obtain ⟨matrix, are⟩ := compileJob_ok ran
      have expanded := are.expanded
      rw [placeholderOf_strategy, isContext.workflowName] at expanded
      refine ⟨rfl, written, matrix, ?_, expanded⟩
      intro none
      have empty : instances = [] := by simpa [none] using are.each
      rw [empty] at member
      cases member
  | template _ _ inductionHypothesis => exact inductionHypothesis single
  | combination _ _ inductionHypothesis => exact inductionHypothesis single
  | gate _ inductionHypothesis => exact inductionHypothesis single
  | result _ inductionHypothesis => exact inductionHypothesis single
  | matrixResult _ _ _ inductionHypothesis => exact inductionHypothesis single
  | called _ _ stems _ _ _ =>
      obtain ⟨first, rest, isCons⟩ := List.exists_cons_of_ne_nil stems.chain_ne_nil
      simp [isCons] at single

/-! ### The jobs of a linked plan -/

/-- A job with its chain; behind a template stands a linked plan of the workflow that the
first job of the chain calls. -/
def Accounted (reusableWorkflows : BTreeMap Workflow) (workflow : Workflow) (path : String)
    (planned : PlannedJob) : Prop :=
  ∃ declaration callers,
    Stems reusableWorkflows workflow path planned (declaration :: callers) ∧
    ∀ call, planned.virtualJob = some (.reusableDynamicCall call) →
      ∃ callee calleePath, Resolves reusableWorkflows declaration.workflow declaration.jobId
          declaration.job callee calleePath ∧
        Links reusableWorkflows callee calleePath call.calledPlan

section Calls

variable {callee : Workflow} {calleePath : String} {declaration : Declaration}
  {callers : List Declaration}

theorem IsExpansion.accounted {site : CallSite} {called segment : List PlannedJob}
    (expansion : IsExpansion site called segment)
    (calling : Stems reusableWorkflows workflow path site.placeholder (declaration :: callers))
    (resolves : Resolves reusableWorkflows declaration.workflow declaration.jobId
      declaration.job callee calleePath)
    (inner : ∀ job ∈ site.calledPlan.jobs, Accounted reusableWorkflows callee calleePath job) :
    ∀ job ∈ segment, Accounted reusableWorkflows workflow path job := by
  intro job member
  rw [expansion.jobs, List.mem_append, List.mem_cons, List.mem_singleton] at member
  rcases member with (isGate | inside) | isResult
  · subst isGate
    refine ⟨declaration, callers, calling.gate, ?_⟩
    intro call isCall
    cases isCall
  · obtain ⟨early, listed, ran⟩ := forall₂_mem_right expansion.computed inside
    obtain ⟨own, between, stems, linked⟩ := inner early listed
    refine ⟨own, between ++ declaration :: callers, calling.called resolves stems ran, ?_⟩
    intro call isCall
    have kind := (calledJob_ok ran).kind
    rw [isCall] at kind
    generalize early.virtualJob = virtual at kind linked
    cases kind
    exact linked call rfl
  · subst isResult
    refine ⟨declaration, callers, calling.result, ?_⟩
    intro call isCall
    cases isCall

theorem IsMatrix.accounted {jobId : String} {call : PlannedDynamicReusableCall}
    {template : PlannedJob} {instances segment : List PlannedJob}
    (isMatrix : IsMatrix jobId call template instances segment)
    (stems : Stems reusableWorkflows workflow path template (declaration :: callers))
    (calling : ∀ placeholder ∈ instances,
      Stems reusableWorkflows workflow path placeholder (declaration :: callers))
    (resolves : Resolves reusableWorkflows declaration.workflow declaration.jobId
      declaration.job callee calleePath)
    (inner : ∀ job ∈ call.calledPlan.jobs, Accounted reusableWorkflows callee calleePath job) :
    ∀ job ∈ segment, Accounted reusableWorkflows workflow path job := by
  intro job member
  obtain ⟨groups, _, each, same⟩ := isMatrix.exists_groups
  rw [same] at member
  rcases List.mem_append.mp member with inside | last
  · obtain ⟨group, listed, inside⟩ := List.mem_flatMap.mp inside
    obtain ⟨placeholder, isInstance, called, expansion⟩ := each group listed
    exact expansion.accounted (calling placeholder isInstance) resolves inner job inside
  · cases List.mem_singleton.mp last
    refine ⟨declaration, callers, stems.matrixResult _ _, ?_⟩
    intro call isCall
    cases isCall

theorem Expands.accounted {jobId : String} {call : PlannedDynamicReusableCall}
    {instances segment : List PlannedJob} (expands : Expands jobId call instances segment)
    (calling : ∀ placeholder ∈ instances,
      Stems reusableWorkflows workflow path placeholder (declaration :: callers))
    (resolves : Resolves reusableWorkflows declaration.workflow declaration.jobId
      declaration.job callee calleePath)
    (linked : Links reusableWorkflows callee calleePath call.calledPlan)
    (inner : ∀ job ∈ call.calledPlan.jobs, Accounted reusableWorkflows callee calleePath job) :
    ∀ job ∈ segment, Accounted reusableWorkflows workflow path job := by
  cases expands with
  | template dynamic =>
      intro job member
      cases List.mem_singleton.mp member
      refine ⟨declaration, callers, (calling _ List.mem_cons_self).template call, ?_⟩
      intro other isCall
      cases isCall
      exact ⟨callee, calleePath, resolves, linked⟩
  | single static expansion =>
      exact expansion.accounted (calling _ List.mem_cons_self) resolves inner
  | matrix static isMatrix =>
      exact isMatrix.accounted (calling _ List.mem_cons_self) calling resolves inner

end Calls

theorem Links.accounted {plan : ExecutionPlan}
    (links : Links reusableWorkflows workflow path plan) :
    ∀ job ∈ plan.jobs, Accounted reusableWorkflows workflow path job := by
  induction links with
  | @intro workflow plan path context parts isContext entries jobs base valid compiled own called
      linked inductionHypothesis =>
      intro job member
      rw [jobs] at member
      obtain ⟨part, listed, inside⟩ := List.mem_flatMap.mp member
      have written : (part.id, part.job) ∈ workflow.jobs := by
        rw [entries]
        exact List.mem_map_of_mem listed
      have stems : ∀ placeholder ∈ part.instances,
          Stems reusableWorkflows workflow path placeholder [⟨workflow, part.id, part.job⟩] :=
        fun _ isInstance => .compiled isContext written (compiled part listed) isInstance
      cases isCall : part.call with
      | none =>
          rw [(own part listed isCall).2] at inside
          refine ⟨_, [], stems job inside, ?_⟩
          intro call isTemplate
          obtain ⟨_, are⟩ := compileJob_ok (compiled part listed)
          obtain ⟨_, _, is⟩ := are.instance_of_mem inside
          rw [is.virtualJob] at isTemplate
          cases isTemplate
      | some target =>
          have call := called part listed target isCall
          exact (expandCall_expands call.expanded).accounted stems call.resolves
            (linked part listed target isCall) (inductionHypothesis part listed target isCall)
            job inside

/-! ### Expanding templates -/

/-- A step of a run that expands one template of its jobs. -/
inductive ExpandsTemplate (jobs : List PlannedJob) : List PlannedJob → Prop where
  | intro {template : PlannedJob} {call : PlannedDynamicReusableCall}
      {combinations : List (BTreeMap Json)} {expanded : List PlannedJob}
      (member : template ∈ jobs)
      (isCall : template.virtualJob = some (.reusableDynamicCall call))
      (ran : expandTemplate template combinations call = .ok expanded) :
      ExpandsTemplate jobs (replaceTemplate jobs template expanded)

theorem ExpandsTemplate.accounted {jobs next : List PlannedJob}
    (step : ExpandsTemplate jobs next)
    (before : ∀ job ∈ jobs, Accounted reusableWorkflows workflow path job) :
    ∀ job ∈ next, Accounted reusableWorkflows workflow path job := by
  obtain ⟨member, isCall, ran⟩ := step
  rename_i template call combinations expanded
  obtain ⟨declaration, callers, stems, linked⟩ := before template member
  obtain ⟨callee, calleePath, resolves, links⟩ := linked call isCall
  intro job inside
  rcases List.mem_append.mp inside with kept | new
  · exact before job (List.mem_of_mem_filter kept)
  · have isMatrix : IsMatrix template.baseId call template _ expanded :=
      ⟨(expandDynamicReusableCall_isMatrix ran).expansions⟩
    refine isMatrix.accounted stems ?_ resolves links.accounted job new
    intro placeholder isInstance
    obtain ⟨early, listed, same⟩ := List.mem_map.mp isInstance
    rw [← same]
    exact stems.combination listed

theorem linked_runs_accounted {plan : ExecutionPlan} {jobs : List PlannedJob}
    (links : Links reusableWorkflows workflow path plan)
    (run : ReflTransGen ExpandsTemplate plan.jobs jobs) :
    ∀ job ∈ jobs, Accounted reusableWorkflows workflow path job := by
  induction run with
  | refl => exact links.accounted
  | tail _ step inductionHypothesis => exact step.accounted inductionHypothesis

/-! ### The permissions of a linked plan -/

/-- Every job has its chain, holds the least level of it at every permission, and holds
none for reading and writing at once. -/
structure PermissionsKept (reusableWorkflows : BTreeMap Workflow) (workflow : Workflow)
    (path : String) (jobs : List PlannedJob) : Prop where
  traced : ∀ job ∈ jobs, ∃ chain, Stems reusableWorkflows workflow path job chain
  least : ∀ job ∈ jobs, ∀ chain, Stems reusableWorkflows workflow path job chain →
    IsCallChain reusableWorkflows workflow chain ∧
    ∀ name, IsLeast (levelsOf chain name) (job.permissions.level name)
  disjoint : ∀ job ∈ jobs, Disjoint job.permissions.read job.permissions.write

/-- A job of the root workflow stands in the plan with a chain of its own. -/
theorem Links.exists_own {plan : ExecutionPlan}
    (links : Links reusableWorkflows workflow path plan) {entry : String × Job}
    (present : Planned workflow path entry) :
    ∃ job ∈ plan.jobs,
      Stems reusableWorkflows workflow path job [⟨workflow, entry.1, entry.2⟩] := by
  obtain ⟨isContext, entries, jobs, base, valid, compiled, own, called, linked⟩ := links
  rename_i context parts
  obtain ⟨written, matrix, nonempty, expanded⟩ := present
  obtain ⟨part, listed, rfl⟩ := List.mem_map.mp (entries ▸ written)
  obtain ⟨found, are⟩ := compileJob_ok (compiled part listed)
  have sameMatrix : found = matrix := by
    have again := are.expanded
    rw [placeholderOf_strategy, isContext.workflowName] at again
    exact Except.ok.inj (again.symm.trans expanded)
  subst sameMatrix
  have lengths : found.combinations.length = part.instances.length := by
    simpa using are.each.length_eq
  have present : part.instances ≠ [] := by
    rw [← List.length_pos_iff, ← lengths, List.length_pos_iff]
    exact nonempty
  have stems : ∀ placeholder ∈ part.instances,
      Stems reusableWorkflows workflow path placeholder [⟨workflow, part.id, part.job⟩] :=
    fun _ isInstance => .compiled isContext written (compiled part listed) isInstance
  have inPlan : ∀ job ∈ part.segment, job ∈ plan.jobs := by
    intro job inside
    rw [jobs]
    exact List.mem_flatMap.mpr ⟨part, listed, inside⟩
  cases isCall : part.call with
  | none =>
      obtain ⟨first, inside⟩ := List.exists_mem_of_ne_nil _ present
      exact ⟨first, inPlan first ((own part listed isCall).2 ▸ inside), stems first inside⟩
  | some target =>
      have expands := expandCall_expands (called part listed target isCall).expanded
      generalize part.instances = instances at expands stems
      generalize part.segment = segment at expands inPlan
      cases expands with
      | template dynamic =>
          exact ⟨_, inPlan _ List.mem_cons_self, (stems _ List.mem_cons_self).template _⟩
      | @single placeholder _ _ static expansion =>
          refine ⟨_, inPlan (siteFor part.id target.call placeholder).gate ?_,
            (stems _ List.mem_cons_self).gate⟩
          rw [expansion.jobs]
          simp
      | @matrix first rest _ static isMatrix =>
          obtain ⟨expansions, _, same⟩ := isMatrix.expansions
          refine ⟨_, inPlan _ ?_, (stems first List.mem_cons_self).matrixResult part.id
            (invocationIds part.id (first :: rest))⟩
          rw [same]
          exact List.mem_append_right _ (List.mem_singleton.mpr rfl)

/-- The permissions of a linked plan, and of every run of it, follow the call chains; the
sets are disjoint exactly if no job of the root workflow takes its permissions from a
mapping that lists one name for reading and for writing. -/
theorem linked_plan_permissions_iff (workflow : Workflow) (path : String)
    (reusableWorkflows : BTreeMap Workflow) (plan : ExecutionPlan)
    (compiled : compileWithReusables workflow path reusableWorkflows = .ok plan) :
    (∀ jobs, ReflTransGen ExpandsTemplate plan.jobs jobs →
      PermissionsKept reusableWorkflows workflow path jobs) ↔
    ∀ entry, Planned workflow path entry →
      ¬ Doubled (Declaration.permissions ⟨workflow, entry.1, entry.2⟩) := by
  have links := compileWithReusables_links compiled
  constructor
  · intro kept entry present
    obtain ⟨job, member, stems⟩ := links.exists_own present
    exact stems.disjoint_iff.mp ((kept plan.jobs .refl).disjoint job member) _ rfl
  · intro single jobs run
    have accounted := linked_runs_accounted links run
    refine ⟨?_, ?_, ?_⟩
    · intro job member
      obtain ⟨_, _, stems, _⟩ := accounted job member
      exact ⟨_, stems⟩
    · intro job member chain stems
      exact ⟨stems.isCallChain, stems.isLeast⟩
    · intro job member
      obtain ⟨declaration, callers, stems, _⟩ := accounted job member
      apply stems.disjoint_iff.mpr
      intro other same
      obtain ⟨isRoot, present⟩ := stems.isPlanned same
      rw [← isRoot] at present single
      exact single _ present

end Chains

/-! ### A name with and without a tag -/

namespace Sample

/-- `contents: read` and `!also contents: write` -/
def taggedTwice : Value :=
  .mapping [(.string "contents", .string "read"),
    (.tagged "!also" (.string "contents"), .string "write")]

def taggedWorkflow : Workflow where
  name := "tagged"
  jobs := [("build", { runner with permissions := some taggedTwice })]
  distinct := by decide

def permissionsOf : Outcome ExecutionPlan → Option (List PlannedPermissions)
  | .ok plan => some (plan.jobs.map (·.permissions))
  | .error _ => none

theorem exists_of_permissionsOf (outcome : Outcome ExecutionPlan)
    (permissions : List PlannedPermissions) (same : permissionsOf outcome = some permissions) :
    ∃ plan, outcome = .ok plan ∧ plan.jobs.map (·.permissions) = permissions := by
  cases outcome with
  | error failure => cases same
  | ok plan => exact ⟨plan, rfl, Option.some.inj same⟩

/-- The planned job holds `contents` for reading and for writing. -/
theorem tagged_build_breaks_plan :
    ∃ plan, compileWithReusables taggedWorkflow ".github/workflows/ci.yml" ∅ = .ok plan ∧
      ¬ PermissionsKept ∅ taggedWorkflow ".github/workflows/ci.yml" plan.jobs := by
  obtain ⟨plan, ran, permissions⟩ := exists_of_permissionsOf
    (compileWithReusables taggedWorkflow ".github/workflows/ci.yml" ∅)
    [{ read := {"contents"}, write := {"contents"} }] (by decide)
  refine ⟨plan, ran, fun kept => ?_⟩
  have listed : (⟨{"contents"}, {"contents"}⟩ : PlannedPermissions) ∈
      plan.jobs.map (·.permissions) := by
    rw [permissions]
    exact List.mem_singleton.mpr rfl
  obtain ⟨job, member, same⟩ := List.mem_map.mp listed
  have apart := kept.disjoint job member
  rw [same] at apart
  simp at apart

def readingCaller : Workflow where
  name := "caller"
  jobs := [("call", {
    uses := some "./.github/workflows/callee.yml"
    permissions := some (.mapping [(.string "contents", .string "read")]) })]
  distinct := by decide

/-- The called job reads the pull requests by default, and its caller does not. -/
theorem reading_call_permissions :
    ∃ plan, compileWithReusables readingCaller ".github/workflows/ci.yml" (reusables "build") =
        .ok plan ∧
      plan.jobs.map (·.permissions) = List.replicate 3 { read := {"contents"}, write := ∅ } ∧
      ∀ jobs, ReflTransGen ExpandsTemplate plan.jobs jobs →
        PermissionsKept (reusables "build") readingCaller ".github/workflows/ci.yml" jobs := by
  obtain ⟨plan, ran, permissions⟩ := exists_of_permissionsOf
    (compileWithReusables readingCaller ".github/workflows/ci.yml" (reusables "build"))
    (List.replicate 3 { read := {"contents"}, write := ∅ }) (by decide +kernel)
  refine ⟨plan, ran, permissions, ?_⟩
  apply (linked_plan_permissions_iff readingCaller _ (reusables "build") plan ran).mpr
  intro entry present doubled
  cases List.mem_singleton.mp present.1
  obtain ⟨entries, same, name, _, entry, member, _, access⟩ := doubled
  cases same
  cases List.mem_singleton.mp member
  exact absurd access (by decide)

end Sample

end GitZero.Workflows
