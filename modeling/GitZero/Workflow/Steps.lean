/-
Module: GitZero.Workflow.Steps
Purpose: The steps of a job: `compile_steps` and the ids it hands out.
Trusted boundary: none
Main exports: StepsSoFar, compileStep, compileSteps
-/
import GitZero.Expression.Evaluation
import GitZero.Workflow.Plan

namespace GitZero.Workflows

def toAsciiLowercase (text : String) : String :=
  String.ofList (Expression.toAsciiLowercase text.toList)

/-- The accumulators of the loop over the steps of a job. -/
structure StepsSoFar where
  steps : List PlannedStep := []
  actionOccurrences : BTreeMap Nat := ∅
  stepIds : Finset String := ∅
  backgroundIds : BTreeMap String := ∅
  nextStepNumber : Nat := 1
  nextParallelGroup : Nat := 1

section Steps

variable (workflow jobId : String)

def registerStepId (stepId : String) (soFar : StepsSoFar) : Outcome StepsSoFar :=
  if toAsciiLowercase stepId ∈ soFar.stepIds then
    incompatible workflow jobId s!"step id '{stepId}' is duplicated"
  else .ok { soFar with stepIds := insert (toAsciiLowercase stepId) soFar.stepIds }

def resolveBackgroundIds (control : String) (ids : List String)
    (backgroundIds : BTreeMap String) : Outcome (List String) :=
  ids.mapM fun id =>
    match backgroundIds[toAsciiLowercase id]? with
    | some found => .ok found
    | none => incompatible workflow jobId
        s!"{control} references unknown prior background step '{id}'"

def generatedId (soFar : StepsSoFar) : String := s!"step-{soFar.nextStepNumber}"

def StepsSoFar.numbered (soFar : StepsSoFar) : StepsSoFar :=
  { soFar with nextStepNumber := soFar.nextStepNumber + 1 }

def StepsSoFar.push (soFar : StepsSoFar) (step : PlannedStep) : StepsSoFar :=
  { soFar with steps := soFar.steps ++ [step] }

/-- `wait`, `wait-all` and `cancel`: the kind of the step, its default name and its
default action. -/
def controlKind (step : Step) (soFar : StepsSoFar) : Outcome (StepKind × String × String) :=
  match step.wait with
  | some wait => do
      let ids ← resolveBackgroundIds workflow jobId "wait" wait soFar.backgroundIds
      return (.wait ids, "Wait for background steps", "__wait")
  | none =>
      if "wait-all" ∈ step.extra then
        return (.waitAll, "Wait for all background steps", "__wait_all")
      else do
        let id ← expect "control field count requires cancel" step.cancel
        let ids ← resolveBackgroundIds workflow jobId "cancel" [id] soFar.backgroundIds
        let first ← expect "index out of bounds" ids.head?
        return (.cancel first, "Cancel background step", "__cancel")

def compileControlStep (step : Step) (controlFields : Nat) (parallelBackground : Bool)
    (soFar : StepsSoFar) : Outcome (String × StepsSoFar) := do
  if controlFields ≠ 1 || parallelBackground || step.run.isSome || step.uses.isSome ||
      step.shell.isSome || step.workingDirectory.isSome || !step.env.isEmpty ||
      !step.inputs.isEmpty || step.condition.isSome || step.timeoutMinutes.isSome ||
      step.background.isSome then
    incompatible workflow jobId
      "wait, wait-all, and cancel must be standalone control steps without if"
  else
    let (kind, name, action) ← controlKind workflow jobId step soFar
    let id := step.id.getD (generatedId soFar)
    let soFar ← registerStepId workflow jobId id soFar.numbered
    return (id, soFar.push {
      id, kind
      name := step.name.getD name
      githubAction := step.id.getD action
      continueOnError := step.continueOnError })

/-- `action.split_once('@')` -/
def splitAt (action : String) : Option (String × String) :=
  if '@' ∈ action.toList then
    some (String.ofList (action.toList.takeWhile (· ≠ '@')),
      String.ofList (action.toList.dropWhile (· ≠ '@')).tail)
  else none

def isCheckoutAction (action : String) : Bool :=
  match splitAt action with
  | some (name, version) => name = "actions/checkout" && version ≠ ""
  | none => false

def ordinaryKind (step : Step) (stepName : String) (defaultShell : Option String) :
    Outcome StepKind :=
  match step.run, step.uses with
  | some script, none =>
      if step.inputs.isEmpty then
        .ok (.run ((step.shell.or defaultShell).getD "bash -e \x7b0\x7d") script)
      else incompatible workflow jobId s!"step '{stepName}' supplies with inputs to a run step"
  | none, some action =>
      if isCheckoutAction action then .ok (.checkout step.inputs)
      else .ok (.uses action step.inputs)
  | _, _ => incompatible workflow jobId
      s!"step '{stepName}' must define exactly one of run or uses"

def isAsciiAlphanumeric (char : Char) : Bool :=
  ('a' ≤ char && char ≤ 'z') || ('A' ≤ char && char ≤ 'Z') || ('0' ≤ char && char ≤ '9')

/-- The action name of a step without an id; an ordinary step is no control step. -/
def actionBase : StepKind → String
  | .run _ _ => "__run"
  | .checkout _ => "actionscheckout"
  | .uses action _ =>
      String.ofList ((action.toList.takeWhile (· ≠ '@')).filter isAsciiAlphanumeric)
  | .wait _ => ""
  | .waitAll => ""
  | .cancel _ => ""

def StepKind.isRun : StepKind → Bool
  | .run _ _ => true
  | _ => false

def compileOrdinaryStep (step : Step) (parallelBackground : Bool)
    (defaultShell defaultWorkingDirectory : Option String) (soFar : StepsSoFar) :
    Outcome (String × StepsSoFar) := do
  let stepId := step.id.getD (generatedId soFar)
  let soFar ← registerStepId workflow jobId stepId soFar.numbered
  let stepName := step.name.getD <|
    (step.uses.or (step.run.map fun _ => "Run")).getD stepId
  if step.uses.isSome && (step.shell.isSome || step.workingDirectory.isSome) then
    incompatible workflow jobId
      s!"step '{stepName}' assigns run-only shell or working-directory fields"
  else
    let kind ← ordinaryKind workflow jobId step stepName defaultShell
    let base := step.id.getD (actionBase kind)
    let occurrence := (soFar.actionOccurrences[base]?).getD 0 + 1
    let githubAction :=
      if occurrence = 1 then base
      else if kind.isRun then s!"{base}_{occurrence}" else s!"{base}{occurrence}"
    let background := if parallelBackground then some "true" else step.background
    let backgroundIds :=
      if step.id.isSome && background ≠ some "false" && background.isSome then
        soFar.backgroundIds.insert (toAsciiLowercase stepId) stepId
      else soFar.backgroundIds
    let soFar := { soFar with
      actionOccurrences := soFar.actionOccurrences.insert base occurrence, backgroundIds }
    return (stepId, soFar.push {
      id := stepId, githubAction, name := stepName, environment := step.env, background, kind
      workingDirectory :=
        if kind.isRun then step.workingDirectory.or defaultWorkingDirectory else none
      condition := step.condition
      continueOnError := step.continueOnError
      timeoutMinutes := step.timeoutMinutes })

def checkStepKeys (step : Step) : Outcome Unit :=
  match step.extra.keys.find? (· ≠ "wait-all") with
  | some feature => incompatible workflow jobId s!"step uses unsupported key '{feature}'"
  | none =>
      match step.extra["wait-all"]? with
      | some value =>
          if value.isNull then .ok ()
          else incompatible workflow jobId "wait-all does not accept a value"
      | none => .ok ()

/-- `compile_step` on a step that is no parallel group. -/
def compileSingleStep (step : Step) (parallelBackground : Bool)
    (defaultShell defaultWorkingDirectory : Option String) (soFar : StepsSoFar) :
    Outcome (String × StepsSoFar) :=
  let controlFields := step.wait.isSome.toNat + (step.extra.contains "wait-all").toNat +
    step.cancel.isSome.toNat
  if controlFields > 0 then
    compileControlStep workflow jobId step controlFields parallelBackground soFar
  else
    compileOrdinaryStep workflow jobId step parallelBackground defaultShell
      defaultWorkingDirectory soFar

/-- An entry of a parallel group.  Groups are not nested: the entry is checked before
`compile_step` is called on it. -/
def compileParallelEntry (defaultShell defaultWorkingDirectory : Option String)
    (state : List String × StepsSoFar) (child : Step) :
    Outcome (List String × StepsSoFar) := do
  if child.background.isSome || child.wait.isSome || child.cancel.isSome ||
      child.parallel.isSome || child.extra.contains "wait-all" then
    incompatible workflow jobId "parallel entries must be ordinary run or uses steps"
  else
    checkStepKeys workflow jobId child
    let (id, soFar) ← compileSingleStep workflow jobId child true defaultShell
      defaultWorkingDirectory state.2
    return (state.1 ++ [id], soFar)

def compileParallelGroup (step : Step) (parallel : List Step)
    (defaultShell defaultWorkingDirectory : Option String) (soFar : StepsSoFar) :
    Outcome (String × StepsSoFar) := do
  if parallel.isEmpty then
    incompatible workflow jobId "parallel must contain at least one step"
  else if step.id.isSome || step.name.isSome || step.run.isSome || step.uses.isSome ||
      step.shell.isSome || step.workingDirectory.isSome || !step.env.isEmpty ||
      !step.inputs.isEmpty || step.condition.isSome || step.continueOnError.isSome ||
      step.timeoutMinutes.isSome || step.background.isSome || step.wait.isSome ||
      step.cancel.isSome || step.extra.contains "wait-all" then
    incompatible workflow jobId "parallel cannot be combined with other step fields"
  else
    let group := soFar.nextParallelGroup
    let (groupIds, soFar) ← parallel.foldlM
      (compileParallelEntry workflow jobId defaultShell defaultWorkingDirectory)
      ([], { soFar with nextParallelGroup := group + 1 })
    let id := s!"__parallel_{group}_wait"
    let soFar ← registerStepId workflow jobId id soFar
    let soFar := soFar.push {
      id, githubAction := id, name := "Wait for parallel steps", kind := .wait groupIds }
    return (id, soFar.numbered)

/-- One step, or the steps of a parallel group. -/
def compileStep (defaultShell defaultWorkingDirectory : Option String) (soFar : StepsSoFar)
    (step : Step) : Outcome StepsSoFar := do
  checkStepKeys workflow jobId step
  match step.parallel with
  | some parallel =>
      return (← compileParallelGroup workflow jobId step parallel defaultShell
        defaultWorkingDirectory soFar).2
  | none =>
      return (← compileSingleStep workflow jobId step false defaultShell
        defaultWorkingDirectory soFar).2

/-- The steps of a job. -/
def compileSteps (sourceSteps : List Step) (defaultShell defaultWorkingDirectory : Option String) :
    Outcome (List PlannedStep) := do
  let soFar ← sourceSteps.foldlM
    (compileStep workflow jobId defaultShell defaultWorkingDirectory) {}
  return soFar.steps

end Steps

end GitZero.Workflows
