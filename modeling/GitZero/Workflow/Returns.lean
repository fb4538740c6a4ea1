/-
Module: GitZero.Workflow.Returns
Purpose: The compiler of one workflow returns: none of its `expect` and index operations
  fails.
Trusted boundary: none
Main exports: Returns, returns_expandMatrix, returns_compileSteps, returns_compile,
  returns_validateDependencies, returns_reusableContract
-/
import GitZero.Lib.Outcomes
import GitZero.Workflow.Contract
import GitZero.Workflow.Dependencies

namespace GitZero.Workflows

open Outcomes

def Failure.IsPanic : Failure → Prop
  | .error _ => False
  | .panicked _ => True

/-- The call ends with `Ok` or `Err`. -/
abbrev Returns {α : Type} (outcome : Outcome α) : Prop := Avoids Failure.IsPanic outcome

@[simp] theorem returns_ok {α : Type} (value : α) : Returns (.ok value) := avoids_ok value

@[simp] theorem returns_pure {α : Type} (value : α) : Returns (pure value : Outcome α) :=
  avoids_ok value

@[simp] theorem returns_incompatible {α : Type} (workflow job reason : String) :
    Returns (incompatible workflow job reason : Outcome α) := by
  intro failure same
  cases same
  exact not_false

@[simp] theorem returns_unsupportedWorkflow {α : Type} (workflow reason : String) :
    Returns (unsupportedWorkflow workflow reason : Outcome α) := by
  intro failure same
  cases same
  exact not_false

theorem returns_expect {α : Type} {message : String} {value : Option α}
    (present : value.isSome) : Returns (expect message value) := by
  obtain ⟨found, same⟩ := Option.isSome_iff_exists.mp present
  rw [same]
  exact returns_ok found

/-- A loop whose body always returns. -/
theorem returns_foldlM {α β : Type} {run : β → α → Outcome β} {list : List α} {start : β}
    (each : ∀ state, ∀ item ∈ list, Returns (run state item)) :
    Returns (list.foldlM run start) :=
  avoids_foldlM (fun _ => True) trivial fun state _ item member =>
    ⟨each state item member, fun _ _ => trivial⟩

/-! ### Matrices -/

section Matrix

variable [Serde] (workflow jobId : String)

theorem returns_yamlToJson (value : Value) : Returns (yamlToJson workflow jobId value) := by
  unfold yamlToJson
  split <;> simp

theorem returns_matrixEntry (name : String) (entry : Value × Value) :
    Returns (matrixEntry workflow jobId name entry) := by
  obtain ⟨key, value⟩ := entry
  unfold matrixEntry
  dsimp only
  split
  · simp
  · apply avoids_bind (returns_yamlToJson workflow jobId value)
    simp

theorem returns_matrixObject (name : String) (value : Value) :
    Returns (matrixObject workflow jobId name value) := by
  unfold matrixObject
  split
  · apply avoids_bind (avoids_mapM fun entry _ => returns_matrixEntry workflow jobId name entry)
    simp
  · simp

theorem returns_matrixObjects (name : String) (value : Value) :
    Returns (matrixObjects workflow jobId name value) := by
  unfold matrixObjects
  split
  · exact avoids_mapM fun entry _ => returns_matrixObject workflow jobId name entry
  · simp

theorem returns_matrixDimension (dimension : String) (value : Value) :
    Returns (matrixDimension workflow jobId dimension value) := by
  unfold matrixDimension
  split
  · split
    · simp
    · exact avoids_mapM fun entry _ => returns_yamlToJson workflow jobId entry
  · simp

theorem returns_readMatrixKey (definition : MatrixDefinition) (entry : Value × Value) :
    Returns (readMatrixKey workflow jobId definition entry) := by
  obtain ⟨key, value⟩ := entry
  unfold readMatrixKey
  dsimp only
  split
  · simp
  · apply avoids_bind (returns_matrixObjects workflow jobId _ value)
    simp
  · apply avoids_bind (returns_matrixObjects workflow jobId _ value)
    simp
  · apply avoids_bind (returns_matrixDimension workflow jobId _ value)
    simp

omit [Serde] in
theorem returns_matrixLimit {α : Type} (combinations : List α) :
    Returns (matrixLimit workflow jobId combinations) := by
  unfold matrixLimit
  split <;> simp

omit [Serde] in
theorem matrixLimit_ok {α : Type} {combinations limited : List α}
    (ran : matrixLimit workflow jobId combinations = .ok limited) : limited = combinations := by
  unfold matrixLimit at ran
  split at ran
  · cases ran
  · cases ran
    rfl

/-- The includes find every original combination among the current ones. -/
theorem returns_applyInclude {original combinations : List (BTreeMap Json)}
    (bound : original.length ≤ combinations.length) (include_ : BTreeMap Json) :
    Returns (applyInclude workflow jobId original combinations include_) ∧
      ∀ next, applyInclude workflow jobId original combinations include_ = .ok next →
        original.length ≤ next.length := by
  have loop : ∀ (flags : List (Bool × Nat)), (∀ entry ∈ flags, entry.2 < original.length) →
      ∀ current : List (BTreeMap Json), original.length ≤ current.length →
        ∃ augmented, flags.foldlM
          (fun combinations entry =>
            if entry.1 then do
              let combination ← expect "index out of bounds" combinations[entry.2]?
              return combinations.set entry.2 (extend combination include_)
            else return combinations) current = (.ok augmented : Outcome _) ∧
          augmented.length = current.length := by
    intro flags inside
    induction flags with
    | nil => exact fun current _ => ⟨current, rfl, rfl⟩
    | cons entry rest inductionHypothesis =>
        intro current enough
        obtain ⟨applies, index⟩ := entry
        have later := inductionHypothesis fun entry member =>
          inside entry (List.mem_cons_of_mem _ member)
        have below : index < current.length :=
          lt_of_lt_of_le (inside (applies, index) List.mem_cons_self) enough
        cases applies with
        | false => exact later current enough
        | true =>
            obtain ⟨augmented, ran, length⟩ :=
              later (current.set index (extend current[index] include_)) (by simpa using enough)
            refine ⟨augmented, ?_, by simpa using length⟩
            rw [foldlM_cons_eq_ok]
            refine ⟨_, ?_, ran⟩
            simp [List.getElem?_eq_getElem below, expect, bind, Except.bind, pure, Except.pure]
  have flags : ∀ entry ∈ (original.map fun combination =>
      includeCompatible combination include_).zipIdx, entry.2 < original.length := by
    intro entry member
    simpa using List.snd_lt_of_mem_zipIdx member
  obtain ⟨augmented, ran, length⟩ := loop _ flags combinations bound
  unfold applyInclude
  dsimp only
  erw [ran]
  constructor
  · exact returns_matrixLimit workflow jobId _
  · intro next limited
    have same := matrixLimit_ok workflow jobId limited
    rw [same]
    split
    · rwa [length]
    · rw [List.length_append]
      omega

theorem returns_expandMatrixDefinition (value : Value) :
    Returns (expandMatrixDefinition workflow jobId value) := by
  unfold expandMatrixDefinition
  split
  · apply avoids_bind (returns_foldlM fun definition entry _ =>
      returns_readMatrixKey workflow jobId definition entry)
    intro definition _
    apply avoids_bind (returns_foldlM fun combinations dimension _ =>
      returns_matrixLimit workflow jobId _)
    intro product _
    let original := product.filter fun combination =>
      !definition.excludes.any (matrixObjectMatches combination)
    exact avoids_foldlM (fun combinations => original.length ≤ combinations.length) le_rfl
      fun combinations bound include_ _ =>
        returns_applyInclude workflow jobId bound include_
  · simp

omit [Serde] in
theorem returns_validateStrategyKey (entry : Value × Value) :
    Returns (validateStrategyKey workflow jobId entry) := by
  obtain ⟨key, value⟩ := entry
  unfold validateStrategyKey
  dsimp only
  split
  · simp
  · simp
  · split <;> simp
  · split <;> simp
  · simp

/-- It never panics. -/
theorem returns_expandMatrix (strategy : Option Value) :
    Returns (expandMatrix workflow jobId strategy) := by
  unfold expandMatrix
  split
  · simp
  · apply avoids_bind (avoids_forM fun entry _ => returns_validateStrategyKey workflow jobId entry)
    intro _ _
    split
    · simp
    · split
      · simp
      · apply avoids_bind (returns_expandMatrixDefinition workflow jobId _)
        simp
  · simp

end Matrix

/-! ### Steps -/

section Steps

variable (workflow jobId : String)

theorem returns_registerStepId (stepId : String) (soFar : StepsSoFar) :
    Returns (registerStepId workflow jobId stepId soFar) := by
  unfold registerStepId
  split <;> simp

theorem returns_resolveBackgroundIds (control : String) (ids : List String)
    (backgroundIds : BTreeMap String) :
    Returns (resolveBackgroundIds workflow jobId control ids backgroundIds) := by
  apply avoids_mapM
  intro id _
  split <;> simp

/-- A control step with one control field that is neither `wait` nor `wait-all` has the
field `cancel`. -/
theorem returns_controlKind {step : Step} (soFar : StepsSoFar)
    (single : step.wait.isSome.toNat + (step.extra.contains "wait-all").toNat +
      step.cancel.isSome.toNat = 1) :
    Returns (controlKind workflow jobId step soFar) := by
  unfold controlKind
  split
  · apply avoids_bind (returns_resolveBackgroundIds workflow jobId _ _ _)
    simp
  · next noWait =>
      split
      · simp
      · next noWaitAll =>
          have isCancel : step.cancel.isSome := by
            have absent : step.extra.contains "wait-all" = false :=
              Bool.eq_false_iff.mpr fun present =>
                noWaitAll (Std.ExtTreeMap.mem_iff_contains.mpr present)
            rw [noWait, absent] at single
            simpa using single
          apply avoids_bind (returns_expect isCancel)
          intro id _
          apply avoids_bind (returns_resolveBackgroundIds workflow jobId _ _ _)
          intro ids resolved
          have one : ids.length = 1 := (mapM_eq_ok.mp resolved).length_eq.symm
          apply avoids_bind
          · apply returns_expect
            cases ids with
            | nil => cases one
            | cons first rest => rfl
          · simp

theorem returns_compileControlStep {step : Step} {controlFields : Nat}
    (count : controlFields = step.wait.isSome.toNat + (step.extra.contains "wait-all").toNat +
      step.cancel.isSome.toNat) (parallelBackground : Bool) (soFar : StepsSoFar) :
    Returns (compileControlStep workflow jobId step controlFields parallelBackground soFar) := by
  unfold compileControlStep
  split
  · simp
  · next standalone =>
      have single : controlFields = 1 := by
        by_contra many
        simp [many] at standalone
      apply avoids_bind (returns_controlKind workflow jobId soFar (count ▸ single))
      intro kind _
      apply avoids_bind (returns_registerStepId workflow jobId _ _)
      simp

theorem returns_ordinaryKind (step : Step) (stepName : String) (defaultShell : Option String) :
    Returns (ordinaryKind workflow jobId step stepName defaultShell) := by
  unfold ordinaryKind
  split
  · split <;> simp
  · split <;> simp
  · simp

theorem returns_compileOrdinaryStep (step : Step) (parallelBackground : Bool)
    (defaultShell defaultWorkingDirectory : Option String) (soFar : StepsSoFar) :
    Returns (compileOrdinaryStep workflow jobId step parallelBackground defaultShell
      defaultWorkingDirectory soFar) := by
  unfold compileOrdinaryStep
  apply avoids_bind (returns_registerStepId workflow jobId _ _)
  intro soFar _
  split
  · simp
  · apply avoids_bind (returns_ordinaryKind workflow jobId _ _ _)
    simp

theorem returns_checkStepKeys (step : Step) : Returns (checkStepKeys workflow jobId step) := by
  unfold checkStepKeys
  split
  · simp
  · split
    · split <;> simp
    · simp

theorem returns_compileSingleStep (step : Step) (parallelBackground : Bool)
    (defaultShell defaultWorkingDirectory : Option String) (soFar : StepsSoFar) :
    Returns (compileSingleStep workflow jobId step parallelBackground defaultShell
      defaultWorkingDirectory soFar) := by
  unfold compileSingleStep
  dsimp only
  split
  · exact returns_compileControlStep workflow jobId rfl _ _
  · exact returns_compileOrdinaryStep workflow jobId _ _ _ _ _

theorem returns_compileParallelEntry (defaultShell defaultWorkingDirectory : Option String)
    (state : List String × StepsSoFar) (child : Step) :
    Returns (compileParallelEntry workflow jobId defaultShell defaultWorkingDirectory state
      child) := by
  unfold compileParallelEntry
  split
  · simp
  · apply avoids_bind (returns_checkStepKeys workflow jobId child)
    intro _ _
    apply avoids_bind (returns_compileSingleStep workflow jobId _ _ _ _ _)
    simp

theorem returns_compileParallelGroup (step : Step) (parallel : List Step)
    (defaultShell defaultWorkingDirectory : Option String) (soFar : StepsSoFar) :
    Returns (compileParallelGroup workflow jobId step parallel defaultShell
      defaultWorkingDirectory soFar) := by
  unfold compileParallelGroup
  split
  · simp
  · split
    · simp
    · apply avoids_bind (returns_foldlM fun state child _ =>
        returns_compileParallelEntry workflow jobId _ _ state child)
      intro entries _
      apply avoids_bind (returns_registerStepId workflow jobId _ _)
      simp

theorem returns_compileStep (defaultShell defaultWorkingDirectory : Option String)
    (soFar : StepsSoFar) (step : Step) :
    Returns (compileStep workflow jobId defaultShell defaultWorkingDirectory soFar step) := by
  unfold compileStep
  apply avoids_bind (returns_checkStepKeys workflow jobId step)
  intro _ _
  split
  · apply avoids_bind (returns_compileParallelGroup workflow jobId _ _ _ _ _)
    simp
  · apply avoids_bind (returns_compileSingleStep workflow jobId _ _ _ _ _)
    simp

/-- It never panics. -/
theorem returns_compileSteps (steps : List Step)
    (defaultShell defaultWorkingDirectory : Option String) :
    Returns (compileSteps workflow jobId steps defaultShell defaultWorkingDirectory) := by
  unfold compileSteps
  apply avoids_bind (returns_foldlM fun soFar step _ =>
    returns_compileStep workflow jobId _ _ soFar step)
  simp

end Steps

/-! ### Jobs and workflows -/

section Compile

variable (workflow : String)

theorem returns_permissionEntry (location : String) (permissions : PlannedPermissions)
    (entry : Value × Value) : Returns (permissionEntry workflow location permissions entry) := by
  obtain ⟨name, access⟩ := entry
  unfold permissionEntry
  dsimp only
  split
  · simp
  · split
    · simp
    · split
      · simp
      · split <;> simp
      · split
        · simp
        · split <;> simp
      · simp

theorem returns_plannedPermissions (location : String) (value : Option Value)
    (inherited : PlannedPermissions) :
    Returns (plannedPermissions workflow location value inherited) := by
  unfold plannedPermissions
  split
  · simp
  · simp
  · simp
  · exact returns_foldlM fun permissions entry _ =>
      returns_permissionEntry workflow location permissions entry
  · simp

theorem returns_concurrencySettings (location : String) (concurrency : Concurrency) :
    Returns (concurrencySettings workflow location concurrency) := by
  unfold concurrencySettings
  split
  · simp
  · split
    · simp
    · dsimp only
      split
      · exact returns_pure _
      · exact returns_pure _
      · exact avoids_bind (returns_unsupportedWorkflow _ _) (by simp)

section Concurrency

variable [Templates]

theorem returns_checkConcurrencyField (location : String) (allowedContexts : List String)
    (entry : String × String) :
    Returns (checkConcurrencyField workflow location allowedContexts entry) := by
  obtain ⟨field, value⟩ := entry
  unfold checkConcurrencyField
  dsimp only
  split
  · simp
  · split <;> simp

theorem returns_plannedConcurrency (location : String) (concurrency : Option Concurrency)
    (allowedContexts : List String) :
    Returns (plannedConcurrency workflow location concurrency allowedContexts) := by
  unfold plannedConcurrency
  split
  · simp
  · apply avoids_bind (returns_concurrencySettings workflow location _)
    intro planned _
    split
    · simp
    · apply avoids_bind (returns_checkConcurrencyField workflow location _ _)
      intro _ _
      apply avoids_bind (returns_checkConcurrencyField workflow location _ _)
      intro _ _
      split
      · simp
      · split <;> simp

end Concurrency

theorem returns_plannedEnvironment (jobId : String) (environment : Option JobEnvironment) :
    Returns (plannedEnvironment workflow jobId environment) := by
  have named : ∀ planned : PlannedEnvironment, Returns
      (if (Expression.trim planned.name.toList).isEmpty then
        incompatible workflow jobId "environment name must not be empty"
      else pure (some planned)) := by
    intro planned
    split <;> simp
  unfold plannedEnvironment
  split
  · simp
  · dsimp only
    split
    · exact avoids_bind (returns_pure _) fun planned _ => named planned
    · split
      · exact avoids_bind (returns_incompatible _ _ _) fun planned _ => named planned
      · exact avoids_bind (returns_pure _) fun planned _ => named planned

theorem returns_validateDefaults (location : String) (defaults : Defaults) :
    Returns (validateDefaults workflow location defaults) := by
  unfold validateDefaults
  split
  · simp
  · split
    · simp
    · split <;> simp

theorem validateJob_ok {jobId : String} {job : Job}
    (valid : validateJob workflow jobId job = .ok ()) : job.runsOn.isSome := by
  unfold validateJob at valid
  split at valid
  · cases valid
  · split at valid
    · cases valid
    · next runnable => exact Option.isSome_iff_ne_none.mpr (by simpa using runnable)

theorem returns_validateJob (jobId : String) (job : Job) :
    Returns (validateJob workflow jobId job) := by
  unfold validateJob
  repeat' split
  all_goals simp

variable [Serde]

/-- The dependencies are known when the search starts, so it can only find a cycle. -/
theorem returns_validateDependencies (jobs : List PlannedJob) :
    Returns (validateDependencies workflow jobs) := by
  unfold validateDependencies
  dsimp only
  apply avoids_bind
  · apply avoids_forM
    intro entry _
    apply avoids_forM
    intro dependency _
    unfold checkDependency
    split
    · simp
    · split <;> simp
  · intro _ checked
    split
    · simp
    · next obstacle stopped =>
        have closed : ∀ node ∈ (dependencyGraph jobs).keys, ∃ dependencies,
            (dependencyGraph jobs)[node]? = some dependencies ∧
            ∀ dependency ∈ dependencies, dependency ∈ (dependencyGraph jobs).keys := by
          intro node member
          have present : ((dependencyGraph jobs)[node]?).isSome :=
            Std.ExtTreeMap.isSome_getElem?_iff_mem.mpr (Std.ExtTreeMap.mem_keys.mp member)
          obtain ⟨dependencies, same⟩ := Option.isSome_iff_exists.mp present
          refine ⟨dependencies, same, fun dependency inside => ?_⟩
          exact Std.ExtTreeMap.mem_keys.mpr (checkDependencies_ok checked same inside).1
        obtain ⟨node, same⟩ := DepthFirst.visitAll_obstacle closed stopped
        rw [same]
        exact returns_incompatible _ _ _

variable [Templates]

theorem returns_compileInstance (context : CompileContext) (source : Workflow) (jobId : String)
    {job : Job} (runnable : job.runsOn.isSome) (plan : MatrixPlan) (matrixIndex : Nat)
    (matrix : BTreeMap Json) :
    Returns (compileInstance context source jobId job plan matrixIndex matrix) := by
  unfold compileInstance
  apply avoids_bind (returns_compileSteps _ _ _ _ _)
  intro _ _
  apply avoids_bind (returns_expect runnable)
  intro _ _
  apply avoids_bind (returns_plannedPermissions _ _ _ _)
  intro _ _
  apply avoids_bind (returns_plannedConcurrency _ _ _ _)
  intro _ _
  apply avoids_bind (returns_plannedEnvironment _ _ _)
  simp

theorem returns_compileJob (context : CompileContext) (source : Workflow) (entry : String × Job) :
    Returns (compileJob context source entry) := by
  unfold compileJob
  apply avoids_bind (returns_validateJob _ _ _)
  intro _ valid
  apply avoids_bind (returns_validateDefaults _ _ _)
  intro _ _
  apply avoids_bind (returns_expandMatrix _ _ _)
  intro plan _
  apply avoids_mapM
  intro combination _
  exact returns_compileInstance context source _ (validateJob_ok _ valid) _ _ _

/-- It never panics. -/
theorem returns_compile (source : Workflow) (path : String) : Returns (compile source path) := by
  unfold compile
  dsimp only
  split
  · simp
  · apply avoids_bind (returns_validateDefaults _ _ _)
    intro _ _
    apply avoids_bind (returns_plannedPermissions _ _ _ _)
    intro _ _
    apply avoids_bind (returns_plannedConcurrency _ _ _ _)
    intro _ _
    apply avoids_bind (avoids_mapM fun entry _ => returns_compileJob _ source entry)
    intro _ _
    apply avoids_bind (returns_validateDependencies _ _)
    simp

end Compile

/-! ### Calls -/

section Calls

variable (workflow jobId : String)

theorem returns_validateReusableCallJob (job : Job) :
    Returns (validateReusableCallJob workflow jobId job) := by
  have extra : Returns (validateReusableCallJob.checkExtra workflow jobId job) := by
    unfold validateReusableCallJob.checkExtra
    split <;> simp
  unfold validateReusableCallJob
  split
  · simp
  · split
    · exact extra
    · exact extra
    · exact extra
    · simp

theorem returns_reusablePath (uses : String) (reusableWorkflows : BTreeMap Workflow) :
    Returns (reusablePath workflow jobId uses reusableWorkflows) := by
  have named : ∀ path, Returns (localReusablePath workflow jobId uses path) := by
    intro path
    unfold localReusablePath
    split <;> simp
  unfold reusablePath
  split
  · exact named _
  · exact named _
  · split <;> simp

theorem returns_definitionEntries (kind name : String) (known : List String)
    (definition : Value) :
    Returns (definitionEntries workflow jobId kind name known definition) := by
  unfold definitionEntries
  split
  · simp
  · split <;> simp

theorem returns_requiredFlag (kind name : String) (entries : List (Value × Value)) :
    Returns (requiredFlag workflow jobId kind name entries) := by
  unfold requiredFlag
  split
  · simp
  · split <;> simp

theorem returns_readSecret (secrets : BTreeMap ReusableSecretDefinition) (entry : Value × Value) :
    Returns (readSecret workflow jobId secrets entry) := by
  obtain ⟨name, definition⟩ := entry
  unfold readSecret
  dsimp only
  split
  · simp
  · split
    · simp
    · apply avoids_bind (returns_definitionEntries _ _ _ _ _ _)
      intro _ _
      apply avoids_bind (returns_requiredFlag _ _ _ _ _)
      simp

theorem returns_readInputType (name : String) (entries : List (Value × Value)) :
    Returns (readInputType workflow jobId name entries) := by
  unfold readInputType
  split <;> simp

theorem returns_readInput (inputs : BTreeMap ReusableInputDefinition) (entry : Value × Value) :
    Returns (readInput workflow jobId inputs entry) := by
  obtain ⟨name, definition⟩ := entry
  unfold readInput
  dsimp only
  split
  · simp
  · apply avoids_bind (returns_definitionEntries _ _ _ _ _ _)
    intro _ _
    apply avoids_bind (returns_readInputType _ _ _ _)
    intro _ _
    apply avoids_bind (returns_requiredFlag _ _ _ _ _)
    intro _ _
    split <;> simp

theorem returns_readOutput (outputs : BTreeMap String) (entry : Value × Value) :
    Returns (readOutput workflow jobId outputs entry) := by
  obtain ⟨name, definition⟩ := entry
  unfold readOutput
  dsimp only
  split
  · simp
  · apply avoids_bind (returns_definitionEntries _ _ _ _ _ _)
    intro _ _
    split <;> simp

theorem returns_contractSection (key : String) (configuration : List (Value × Value)) :
    Returns (contractSection workflow jobId key configuration) := by
  unfold contractSection
  split
  · simp
  · split <;> simp

theorem returns_checkConfigurationKey (called : Workflow) (entry : Value × Value) :
    Returns (checkConfigurationKey workflow jobId called entry) := by
  obtain ⟨key, value⟩ := entry
  unfold checkConfigurationKey
  dsimp only
  split <;> simp

/-- It never panics. -/
theorem returns_reusableContract (called : Workflow) :
    Returns (reusableContract workflow jobId called) := by
  unfold reusableContract
  dsimp only
  split
  · simp
  · simp
  · simp
  · apply avoids_bind (avoids_forM fun entry _ => returns_checkConfigurationKey _ _ called entry)
    intro _ _
    apply avoids_bind (returns_contractSection _ _ _ _)
    intro _ _
    apply avoids_bind (returns_foldlM fun secrets entry _ => returns_readSecret _ _ secrets entry)
    intro _ _
    apply avoids_bind (returns_contractSection _ _ _ _)
    intro _ _
    apply avoids_bind (returns_foldlM fun inputs entry _ => returns_readInput _ _ inputs entry)
    intro _ _
    apply avoids_bind (returns_contractSection _ _ _ _)
    intro _ _
    apply avoids_bind (returns_foldlM fun outputs entry _ => returns_readOutput _ _ outputs entry)
    simp

theorem returns_bindInput (call : Job) (entry : String × ReusableInputDefinition) :
    Returns (bindInput workflow jobId call entry) := by
  obtain ⟨name, definition⟩ := entry
  have bound : ∀ value : Value, Returns
      (if !valueContainsExpression value && !reusableInputMatches value definition.inputType then
        incompatible workflow jobId s!"reusable workflow input '{name}' has the wrong type"
      else pure (name, { value, inputType := definition.inputType }) :
        Outcome (String × PlannedReusableInput)) := by
    intro value
    split <;> simp
  unfold bindInput
  dsimp only
  split
  · exact avoids_bind (returns_pure _) fun value _ => bound value
  · split
    · exact avoids_bind (returns_incompatible _ _ _) fun value _ => bound value
    · exact avoids_bind (returns_pure _) fun value _ => bound value

theorem returns_bindReusableInputs (call : Job) (contract : ReusableContract) :
    Returns (bindReusableInputs workflow jobId call contract) := by
  unfold bindReusableInputs
  split
  · simp
  · apply avoids_bind (avoids_mapM fun entry _ => returns_bindInput _ _ call entry)
    simp

theorem returns_bindSecret (contract : ReusableContract) (mappings : BTreeMap String)
    (entry : Value × Value) : Returns (bindSecret workflow jobId contract mappings entry) := by
  obtain ⟨target, source⟩ := entry
  unfold bindSecret
  dsimp only
  split
  · simp
  · split
    · simp
    · split <;> simp

theorem returns_bindReusableSecrets (call : Job) (contract : ReusableContract) :
    Returns (bindReusableSecrets workflow jobId call contract) := by
  have scope : Returns (secretScope workflow jobId call contract) := by
    unfold secretScope
    split
    · simp
    · simp
    · apply avoids_bind (returns_foldlM fun mappings entry _ =>
        returns_bindSecret _ _ contract mappings entry)
      simp
    · simp
  unfold bindReusableSecrets
  apply avoids_bind scope
  intro _ _
  split
  · split <;> simp
  · simp

end Calls

end GitZero.Workflows
