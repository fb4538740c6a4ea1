/-
Module: GitZero.Agent.Processes
Purpose: The workspaces and command files of a run: the directory of a job instance, the files
  of a process, and which processes of one job run at the same time.
Trusted boundary: `shell_words::split` and `Uuid::new_v4`, parameters; the names of files are
  compared as texts, as on a case-sensitive volume
Main exports: sanitizeId, workspaceDirectory, RunPlan, Uuids, commandFiles, Floor, move,
  Floor.Reachable
-/
import GitZero.Workflow.Names

namespace GitZero.Agent

open Workflows

/-- An id as a name of a directory. -/
def sanitizeId (value : String) : String :=
  String.ofList (value.toList.map fun character =>
    if isAsciiAlphanumeric character || character = '-' || character = '_' then character else '-')

theorem dot_notMem_sanitizeId (value : String) : '.' ∉ (sanitizeId value).toList := by
  rw [sanitizeId, String.toList_ofList, List.mem_map]
  rintro ⟨character, -, same⟩
  split at same
  · next plain =>
      subst same
      revert plain
      decide
  · exact absurd same (by decide)

/-! ### Job instances -/

section Jobs

variable [Serde]

/-- The jobs of a plan while it runs: each template of a dynamic call gives way to its
expansion, whatever matrix its expression evaluates to. -/
inductive Expanded (planned : List PlannedJob) : List PlannedJob → Prop where
  | planned : Expanded planned planned
  | expand {jobs expanded : List PlannedJob} {template : PlannedJob}
      {call : PlannedDynamicReusableCall} (combinations : List (BTreeMap Json)) :
      Expanded planned jobs → template ∈ jobs →
      template.virtualJob = some (.reusableDynamicCall call) →
      expandTemplate template combinations call = .ok expanded →
      Expanded planned (replaceTemplate jobs template expanded)

/-- One plan of a run: its jobs, and the combinations of each dynamic matrix. -/
structure RunPlan where
  plan : ExecutionPlan
  jobs : List PlannedJob
  expanded : Expanded plan.jobs jobs
  combinations : PlannedJob → List (BTreeMap Json)

/-- The instances that `execute_base_group` starts: a virtual job has none. -/
def RunPlan.instances (running : RunPlan) : List PlannedJob :=
  (running.jobs.filter (·.virtualJob.isNone)).flatMap fun job =>
    if job.dynamicMatrix.isSome then dynamicInstances job (running.combinations job) else [job]

/-- The workspace of an instance, below the `jobs` directory of its run. -/
def workspaceDirectory (planIndex : Nat) (job : PlannedJob) : String :=
  s!"{planIndex}-{sanitizeId job.id}"

def eventJobId (planIndex : Nat) (job : PlannedJob) : String := s!"{planIndex}/{job.id}"

/-- The directories of all instances of a run. -/
def workspaceDirectories (plans : List RunPlan) : List String :=
  (plans.mapIdx fun planIndex running =>
    running.instances.map (workspaceDirectory planIndex)).flatten

end Jobs

/-! ### Command files -/

/-- The crate `shell-words`, which divides a custom shell. -/
class ShellWords where
  split : String → Except String (List String)

/-- `Path::file_name` of a path with `/` separators. -/
def fileName (path : String) : Option String :=
  let components := (path.toList.splitOn '/').filter fun part => part ≠ [] && part ≠ ['.']
  match components.getLast? with
  | some part => if part = ['.', '.'] then none else some (String.ofList part)
  | none => none

def shellScriptExtension [ShellWords] (shell : String) : Except String String :=
  match ShellWords.split shell with
  | .error _ => .error "parse shell command"
  | .ok [] => .error "shell cannot be empty"
  | .ok (program :: _) =>
      match fileName program with
      | none => .error "shell program must be valid UTF-8"
      | some name =>
          if name = "pwsh" || name = "powershell" then .ok "ps1"
          else if name = "python" || name = "python3" then .ok "py"
          else if name = "cmd" then .ok "cmd"
          else .ok "sh"

/-- The files of a `run` step. -/
inductive CommandFile where
  | env | output | path | summary | script
deriving Repr, DecidableEq

def CommandFile.all : List CommandFile := [.env, .output, .path, .summary, .script]

def CommandFile.label : CommandFile → String
  | .env => "env"
  | .output => "output"
  | .path => "path"
  | .summary => "summary"
  | .script => "script"

def CommandFile.extension (scriptExtension : String) : CommandFile → String
  | .env => "txt"
  | .output => "txt"
  | .path => "txt"
  | .summary => "md"
  | .script => scriptExtension

def commandFile (stepId scriptExtension : String) (file : CommandFile) : String :=
  s!"{file.label}-{sanitizeId stepId}.{file.extension scriptExtension}"

/-- An entry point of a JavaScript action. -/
inductive Phase where
  | pre | main | post
deriving Repr, DecidableEq

def Phase.name : Phase → String
  | .pre => "pre"
  | .main => "main"
  | .post => "post"

/-- The ends of the names of an entry point's files. -/
def phaseFileEnds : List String :=
  ["env.txt", "output.txt", "path.txt", "state.txt", "summary.md"]

def phaseFile (phase : Phase) (nonce fileEnd : String) : String :=
  s!"action-{phase.name}-{nonce}-{fileEnd}"

/-- The texts that `Uuid::new_v4` draws, one after the other: no two of the first `drawn` are
the same.  Nothing else is said of them, so that each finite number of draws is possible. -/
structure Uuids (drawn : Nat) where
  text : Nat → String
  distinct : ∀ one < drawn, ∀ two < drawn, text one = text two → one = two

instance (drawn : Nat) : Inhabited (Uuids drawn) :=
  ⟨{ text := toString, distinct := fun _ _ _ _ same => Nat.repr_injective same }⟩

/-- A process of a step: the script of a `run` step, or an entry point of an action. -/
inductive Process where
  | script (stepId scriptExtension : String)
  | phase (phase : Phase)
deriving Repr, DecidableEq

/-- The names of the files of a process, below the temporary directory of its job. -/
def commandFiles {drawn : Nat} (uuids : Uuids drawn) : Process × Nat → List String
  | (.script stepId scriptExtension, _) =>
      CommandFile.all.map (commandFile stepId scriptExtension)
  | (.phase phase, draw) => phaseFileEnds.map (phaseFile phase (uuids.text draw))

/-! ### The processes of a step -/

mutual

/-- What the `uses` of a step resolves to while the job runs. -/
inductive Action where
  | javascript (phases : List Phase)
  | composite (steps : Nested)

/-- The steps of a composite action: those that run, with the shell as rendered. -/
inductive Nested where
  | done
  | run (id : Option String) (shell : String) (rest : Nested)
  | uses (id : Option String) (action : Action) (rest : Nested)
  | idle (rest : Nested)

end

/-- `plan_composite_step` names a step by its position if it has no id. -/
def compositeStepId (id : Option String) (index : Nat) : String :=
  id.getD s!"composite-step-{index + 1}"

section Steps

variable [ShellWords]

/-- A shell that cannot be read ends the step before a file is named. -/
def scriptProcess (stepId shell : String) : List Process :=
  match shellScriptExtension shell with
  | .ok scriptExtension => [.script stepId scriptExtension]
  | .error _ => []

mutual

def Action.processes (stepId : String) : Action → List Process
  | .javascript phases => phases.map Process.phase
  | .composite steps => steps.processes stepId 0

def Nested.processes (parentStepId : String) (index : Nat) : Nested → List Process
  | .done => []
  | .run id shell rest =>
      scriptProcess s!"{parentStepId}/{compositeStepId id index}" shell ++
        rest.processes parentStepId (index + 1)
  | .uses id action rest =>
      action.processes s!"{parentStepId}/{compositeStepId id index}" ++
        rest.processes parentStepId (index + 1)
  | .idle rest => rest.processes parentStepId (index + 1)

end

/-- A step of a job in one execution: what its expressions evaluate to and its action
resolves to.  A step without a `background` expression runs in the foreground. -/
structure StepRun where
  step : PlannedStep
  background : Bool := false
  declared : background = true → step.background.isSome = true := by simp
  skipped : Bool := false
  shell : String := ""
  action : Action := .javascript []

def StepRun.processes (workflowJobId : String) (run : StepRun) : List Process :=
  let stepId := s!"{workflowJobId}/{run.step.id}"
  if run.skipped then []
  else
    match run.step.kind with
    | .run _ _ => scriptProcess stepId run.shell
    | .uses _ _ => run.action.processes stepId
    | _ => []

/-! ### The steps of a job at work -/

/-- A step that was started and has not ended. -/
structure Lane where
  stepId : String
  background : Bool
  permit : Bool := false
  rest : List Process
  running : Option (Process × Nat) := none

/-- The step loop of `execute_job`: the steps that it has not reached, and those at work. -/
structure Floor where
  next : List StepRun
  lanes : List Lane := []
  drawn : Nat := 0

def maxBackgroundSteps : Nat := 10

/-- The background steps that a control step joins. -/
def joins (lanes : List Lane) : StepKind → Option (List String)
  | .wait stepIds => some stepIds
  | .waitAll => some (lanes.map (·.stepId))
  | .cancel stepId => some [stepId]
  | _ => none

/-- One turn of the interleaving of a job with its background steps. -/
inductive Move where
  /-- The loop comes to its next step. -/
  | reach
  /-- A step starts its next process. -/
  | begin (lane : Nat)
  | finish (lane : Nat)
  /-- A step ends; a cancelled or failed one leaves processes out. -/
  | leave (lane : Nat)
deriving Repr, DecidableEq

def laneOf (workflowJobId : String) (run : StepRun) : Lane where
  stepId := run.step.id
  background := run.background
  rest := run.processes workflowJobId

/-- A background step waits for one of the slots before its first process. -/
def hasSlot (lanes : List Lane) (lane : Lane) : Bool :=
  !lane.background || lane.permit || (lanes.countP (·.permit)) < maxBackgroundSteps

def reach (workflowJobId : String) (floor : Floor) : Option Floor :=
  -- a foreground step holds up the loop until it ends
  if floor.lanes.any (!·.background) then none
  else
    match floor.next with
    | [] => none
    | run :: next =>
        match joins floor.lanes run.step.kind with
        | some stepIds =>
            if floor.lanes.any (stepIds.contains ·.stepId) then none
            else some { floor with next }
        | none => some { floor with next, lanes := floor.lanes ++ [laneOf workflowJobId run] }

/-- `none` where the job cannot make the move. -/
def move (workflowJobId : String) (floor : Floor) : Move → Option Floor
  | .reach => reach workflowJobId floor
  | .begin index =>
      match floor.lanes[index]? with
      | some { stepId, background, permit, rest := process :: rest, running := none } =>
          if hasSlot floor.lanes { stepId, background, permit, rest } then
            some { floor with
              lanes := floor.lanes.set index {
                stepId, background, rest
                permit := background
                running := some (process, floor.drawn) }
              drawn := floor.drawn + 1 }
          else none
      | _ => none
  | .finish index =>
      match floor.lanes[index]? with
      | some lane =>
          some { floor with lanes := floor.lanes.set index { lane with running := none } }
      | none => none
  | .leave index =>
      match floor.lanes[index]? with
      | some lane =>
          if lane.running.isSome then none
          else some { floor with lanes := floor.lanes.eraseIdx index }
      | none => none

/-- The floors of an execution of a job. -/
inductive Floor.Reachable (workflowJobId : String) (runs : List StepRun) : Floor → Prop where
  | start : Reachable workflowJobId runs { next := runs }
  | move {floor after : Floor} (made : Move) :
      Reachable workflowJobId runs floor → Agent.move workflowJobId floor made = some after →
      Reachable workflowJobId runs after

/-- Two processes of different steps run at the same time. -/
def Floor.Together (floor : Floor) (one two : Process × Nat) : Prop :=
  ∃ (left right : Nat) (first second : Lane), left ≠ right ∧
    floor.lanes[left]? = some first ∧ floor.lanes[right]? = some second ∧
    first.running = some one ∧ second.running = some two

end Steps

end GitZero.Agent
