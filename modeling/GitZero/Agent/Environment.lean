/-
Module: GitZero.Agent.Environment
Purpose: The environment of the foreground steps of a job: what their processes receive and
  what the command files of these processes change.
Trusted boundary: what expressions evaluate to, what a process writes and how it ends, and the
  moments of a cancellation or a timeout are data of the course of a job
Main exports: parseCommandSource, applyEnvironmentFile, applyPathFile, restoreDefaultEnvironment,
  configureCheckoutCredentials, StepTree, Course, JobLog, executeStep, executeStepTrees,
  runActionPosts, jobEnvironment, executeForeground
-/
import GitZero.Agent.JobSteps
import GitZero.Agent.Secrets
import GitZero.Lib.Recording
import GitZero.Lib.Splits

namespace GitZero.Agent

open Workflows
open GitZero.Splits (splitOnce)
open Expression (ExecutionStatus)

/-- The variables of a process, in the order of their names. -/
abbrev Environment := BTreeMap String

/-! ### Names -/

def startsWith (start name : String) : Bool := start.toList.isPrefixOf name.toList

def isDefaultEnvironmentName (name : String) : Bool :=
  startsWith "GITHUB_" name || startsWith "RUNNER_" name

def actionInputEnvironmentName (name : String) : String :=
  "INPUT_" ++ String.ofList (name.toList.map fun char =>
    if char = ' ' then '_' else char.toUpper)

/-! ### Command files -/

/-- `str::lines` -/
def sourceLines (source : String) : List (List Char) :=
  let pieces := source.toList.splitOn '\n'
  let ended := pieces.dropLast.map fun piece =>
    if piece.getLast? = some '\r' then piece.dropLast else piece
  ended ++ (pieces.getLast?.toList.filter fun piece => !piece.isEmpty)

/-- `trim_end_matches('\r')` -/
def trimCarriageReturns (line : List Char) : List Char :=
  line.reverse.dropWhile (· = '\r') |>.reverse

/-- A line of an environment file that is not empty. -/
inductive CommandLine where
  | heredoc (key delimiter : List Char)
  | assignment (key value : List Char)
  | invalid

/-- Whichever of `<<` and `=` comes first decides. -/
def readCommandLine (line : List Char) : CommandLine :=
  match splitOnce ['<', '<'] line, splitOnce ['='] line with
  | some (key, delimiter), none => .heredoc key delimiter
  | some (key, delimiter), some (name, value) =>
      if key.length < name.length then .heredoc key delimiter else .assignment name value
  | none, some (name, value) => .assignment name value
  | none, none => .invalid

def validCommandKey (key : List Char) : Bool :=
  !key.isEmpty && key.all fun char => !(['\x00', '\n', '\r', '='].contains char)

def insertCommand (key value : List Char) (values : Environment) : Option Environment :=
  if validCommandKey key then some (values.insert (String.ofList key) (String.ofList value))
  else none

/-- A multiline entry that is still open: its key, its delimiter and the lines read. -/
structure OpenEntry where
  key : List Char
  delimiter : List Char
  lines : List (List Char) := []

def parseCommandLines (values : Environment) (entry : Option OpenEntry) :
    List (List Char) → Option Environment
  | [] => if entry.isNone then some values else none
  | line :: rest =>
      let line := trimCarriageReturns line
      match entry with
      | some entry =>
          if line = entry.delimiter then
            match insertCommand entry.key (List.intercalate ['\n'] entry.lines) values with
            | some values => parseCommandLines values none rest
            | none => none
          else
            parseCommandLines values (some { entry with lines := entry.lines ++ [line] }) rest
      | none =>
          if line.isEmpty then parseCommandLines values none rest
          else
            match readCommandLine line with
            | .heredoc key delimiter =>
                if delimiter.isEmpty then none
                else parseCommandLines values (some { key, delimiter }) rest
            | .assignment key value =>
                match insertCommand key value values with
                | some values => parseCommandLines values none rest
                | none => none
            | .invalid => none

/-- The entries of a command file; `none` if a line is malformed or a heredoc is left open. -/
def parseCommandSource (source : String) : Option Environment :=
  parseCommandLines ∅ none (sourceLines source)

/-- The entries of an environment file that are applied. -/
def acceptedName (name : String) : Bool :=
  !isDefaultEnvironmentName name && !eqIgnoreAsciiCase name "NODE_OPTIONS"

/-- The environment with the entries of the file, except for names that steps may not set. -/
def applyEnvironmentFile (environment : Environment) (source : String) : Option Environment :=
  (parseCommandSource source).map fun values =>
    values.toList.foldl (fun environment (name, value) =>
      if acceptedName name then environment.insert name value else environment) environment

/-- `agent` is the environment of the agent itself. -/
def applyPathFile (agent environment : Environment) (source : String) : Environment :=
  let existing := ((environment["PATH"]?).or agent["PATH"]?).getD ""
  let additions := ((sourceLines source).filter fun line => !line.isEmpty).map String.ofList
  if additions.isEmpty then environment
  else
    let entries := additions.foldl (fun entries addition =>
      addition :: entries.filter (· ≠ addition)) (splitPath existing)
    environment.insert "PATH" (":".intercalate entries)

/-! ### Default names -/

/-- Default variables have their values again, whatever was exported. -/
def restoreDefaultEnvironment (environment defaults : Environment) : Environment :=
  environment.insertMany (defaults.toList.filter fun entry => isDefaultEnvironmentName entry.1)

/-- The environment of a job before its first step. -/
def jobEnvironment (defaults environment : Environment) (jobId workspace temp : String) :
    Environment :=
  (((restoreDefaultEnvironment (defaults.insertMany environment.toList) defaults).insert
    "GITHUB_JOB" jobId).insert "GITHUB_WORKSPACE" workspace).insert "RUNNER_TEMP" temp

/-! ### Checkout -/

def maxInlineGitConfigParameters : Nat := 256

def checkoutHttpExtraheader : String := "http.https://github.com/.extraheader"

def checkoutSshInsteadOf : String := "url.https://github.com/.insteadOf"

def gitConfigKey (index : Nat) : String := "GIT_CONFIG_KEY_" ++ toString index

def gitConfigValue (index : Nat) : String := "GIT_CONFIG_VALUE_" ++ toString index

/-- The inline configuration of Git but for what a checkout manages. -/
def unmanagedGitConfig (environment : Environment) (count : Nat) :
    Option (List (String × String)) := do
  let entries ← (List.range count).mapM fun index => do
    let key ← environment[gitConfigKey index]?
    let value ← environment[gitConfigValue index]?
    return (key, value)
  return entries.filter fun entry =>
    !eqIgnoreAsciiCase entry.1 checkoutHttpExtraheader &&
      !eqIgnoreAsciiCase entry.1 checkoutSshInsteadOf

def removeGitConfig (environment : Environment) (count : Nat) : Environment :=
  (List.range (max count 2)).foldl (fun environment index =>
    (environment.erase (gitConfigKey index)).erase (gitConfigValue index))
    (environment.erase "GIT_CONFIG_COUNT")

def insertGitConfig (environment : Environment) (entries : List (String × String)) : Environment :=
  let filled := entries.zipIdx.foldl (fun environment (entry, index) =>
    (environment.insert (gitConfigKey index) entry.1).insert (gitConfigValue index) entry.2)
    environment
  if entries.isEmpty then filled
  else filled.insert "GIT_CONFIG_COUNT" (toString entries.length)

/-- The number of entries of the inline configuration of Git. -/
def gitConfigCount (environment : Environment) : Option Nat :=
  match environment["GIT_CONFIG_COUNT"]? with
  | some value => Expression.parseUsize value.toList
  | none => some 0

/-- `credential` is the value of the header that carries a nonempty token. -/
def configureCheckoutCredentials (environment : Environment) (credential : Option String)
    (rewriteSshSubmoduleUrls : Bool) : Option Environment := do
  let count ← gitConfigCount environment
  if count > maxInlineGitConfigParameters + 2 then none
  else
    let entries ← unmanagedGitConfig environment count
    let managed := credential.toList.map (fun value => (checkoutHttpExtraheader, value)) ++
      if rewriteSshSubmoduleUrls then [(checkoutSshInsteadOf, "git@github.com:")] else []
    if (entries ++ managed).length > maxInlineGitConfigParameters + 2 then none
    else return insertGitConfig (removeGitConfig environment count) (entries ++ managed)

def configureCheckoutSsh (environment : Environment) (command : Option String) : Environment :=
  let removed := environment.erase "GIT_SSH_COMMAND"
  match command with
  | some command => removed.insert "GIT_SSH_COMMAND" command
  | none => removed

/-- What a checkout was told and how it went.  `ready` says that it came as far as the
configuration of Git. -/
structure CheckoutCourse where
  ready : Bool := true
  /-- The temporary home and its configuration file. -/
  safeDirectory : Option (String × String) := none
  credential : Option String := none
  rewriteSshSubmoduleUrls : Bool := false
  sshCommand : Option String := none
  lfs : Bool := false
  persistCredentials : Bool := true
  /-- `none` for an error that ends the job. -/
  conclusion : Option JobConclusion := some .success

/-- The environment of the Git commands of a checkout. -/
def checkoutEnvironment (checkout : CheckoutCourse) (environment : Environment) :
    Option Environment := do
  let homed := match checkout.safeDirectory with
    | some (home, config) => (environment.insert "HOME" home).insert "GIT_CONFIG_GLOBAL" config
    | none => environment
  let configured ←
    configureCheckoutCredentials homed checkout.credential checkout.rewriteSshSubmoduleUrls
  let connected := configureCheckoutSsh configured checkout.sshCommand
  return if checkout.lfs then connected.erase "GIT_LFS_SKIP_SMUDGE"
    else connected.insert "GIT_LFS_SKIP_SMUDGE" "1"

/-- The environment that a checkout leaves to the job. -/
def persistCheckout (checkout : CheckoutCourse) (environment : Environment) :
    Option Environment := do
  let persisted := checkout.persistCredentials
  let configured ← configureCheckoutCredentials environment
    (if persisted then checkout.credential else none)
    (persisted && checkout.rewriteSshSubmoduleUrls)
  return configureCheckoutSsh configured (if persisted then checkout.sshCommand else none)

/-! ### Steps and their processes -/

/-- What the environment of a step takes from its plan. -/
structure StepHeader where
  githubAction : String
  environment : BTreeMap String := ∅

/-- Where an action is, and which source its processes are shown. -/
structure ActionUse where
  directory : String
  /-- The repository and the ref of an action that is not local. -/
  exposedSource : Option (String × String) := none

/-- A step with the action that it uses, as the definitions in its repository have it. -/
inductive StepTree where
  | run (header : StepHeader)
  | checkout (header : StepHeader)
  | javascript (header : StepHeader) (action : ActionUse) (pre post : Bool)
  | composite (header : StepHeader) (action : ActionUse) (steps : List StepTree)

/-- The command files of a process when it has ended; `state` is `none` if its outputs or its
state cannot be read back. -/
structure ProcessEnd where
  environmentFile : String := ""
  pathFile : String := ""
  state : Option Environment := some ∅
  conclusion : JobConclusion := .success

/-- One course of a job, by moments that the log counts. -/
structure Course where
  /-- The environment of the agent, which every process inherits. -/
  agent : Environment := ∅
  cacheMode : String := "read-write"
  /-- The value of a template; `none` if it does not evaluate. -/
  render : Nat → String → Option String
  condition : Nat → Option Bool
  /-- The inputs of an action, by their lowercase names. -/
  inputs : Nat → Option Environment
  process : Nat → ProcessEnd
  checkout : Nat → CheckoutCourse
  /-- The path of a command file. -/
  commandFile : Nat → String → String
  /-- The conclusion that a timeout of an action or of the job forces. -/
  deadline : Nat → Option JobConclusion
  /-- The job is cancelled or timed out. -/
  stops : Nat → Bool

/-- A process that has started.  `environment` is the map that the step works on, `captured`
the environment of an action that is laid over it. -/
structure Reception where
  finished : List ProcessEnd
  enclosing : List Environment
  environment : Environment
  captured : Option Environment
  received : Environment
  git : Bool

/-- A composite action that has ended: the environment outside it, the one that its steps
started with, the step-level `env` of its own step, and the processes inside. -/
structure Closure where
  outer : Environment
  initial : Environment
  own : Environment
  inside : List ProcessEnd

/-- The post phase that an action leaves: the environment and the state it will get, and the
environments of the actions around it. -/
structure ActionPost where
  environment : Environment
  state : Environment
  enclosing : List Environment

/-- `seen` and `closed` are no variables of the source, they record what it does. -/
structure JobRecord where
  finished : List ProcessEnd := []
  posts : List ActionPost := []
  seen : List Reception := []
  closed : List Closure := []

/-- `moment` counts what was asked of the course. -/
structure JobLog extends JobRecord where
  moment : Nat := 0

/-- A computation of the job that records what its processes receive. -/
abbrev JobM := Recording JobLog

/-- The current moment; the next question is asked at the next one. -/
def tick : JobM Nat := do
  let log ← Recording.read
  Recording.update fun log => { log with moment := log.moment + 1 }
  return log.moment

def ask {α : Type} (question : Nat → Option α) : JobM α := do
  let moment ← tick
  Recording.ofOption (question moment)

section Execution

variable (course : Course)

def applyFiles (environment : Environment) (ended : ProcessEnd) : Option Environment :=
  (applyEnvironmentFile environment ended.environmentFile).map fun environment =>
    applyPathFile course.agent environment ended.pathFile

/-- What a phase of an action hands to the next one. -/
structure PhaseEnd where
  environment : Environment
  state : Environment := ∅
  conclusion : JobConclusion := .success

/-- A workflow process, from its start until its command files are read. -/
def runWorkflowProcess (enclosing : List Environment) (captured : Option Environment)
    (environment : Environment) (received : Nat → Environment) : JobM PhaseEnd := do
  let moment ← tick
  let ended := course.process moment
  Recording.update fun log => { log with
    seen := log.seen ++ [{
      finished := log.finished
      enclosing
      environment
      captured
      received := received moment
      git := false }]
    finished := log.finished ++ [ended] }
  let changed ← Recording.ofOption (applyFiles course environment ended)
  let state ← Recording.ofOption ended.state
  return { environment := changed, state, conclusion := ended.conclusion }

def withCommandFiles (names : List String) (environment : Environment) (moment : Nat) :
    Environment :=
  names.foldl (fun environment name =>
    environment.insert name (course.commandFile moment name)) environment

def runFiles : List String :=
  ["GITHUB_ENV", "GITHUB_OUTPUT", "GITHUB_PATH", "GITHUB_STEP_SUMMARY", "GITHUB_ARTIFACTS",
    "GITHUB_ARTIFACTS_LIST"]

def phaseFiles : List String :=
  ["GITHUB_ENV", "GITHUB_OUTPUT", "GITHUB_PATH", "GITHUB_STATE", "GITHUB_STEP_SUMMARY",
    "GITHUB_ARTIFACTS", "GITHUB_ARTIFACTS_LIST"]

def renderEnvironment (templates : BTreeMap String) (moment : Nat) : Option Environment := do
  let entries ← templates.toList.mapM fun (name, template) => do
    let value ← course.render moment template
    return (name, value)
  return Std.ExtTreeMap.ofList entries compare

def visibleEnvironment (header : StepHeader) (environment own : Environment) : Environment :=
  (restoreDefaultEnvironment (environment.insertMany own.toList) environment).insert
    "GITHUB_ACTION" header.githubAction

def actionEnvironment (action : ActionUse) (visible inputs : Environment) : Environment :=
  let given := inputs.toList.foldl (fun environment (name, value) =>
    environment.insert (actionInputEnvironmentName name) value) visible
  let placed := given.insert "GITHUB_ACTION_PATH" action.directory
  match action.exposedSource with
  | some (repository, gitRef) =>
      (placed.insert "GITHUB_ACTION_REPOSITORY" repository).insert "GITHUB_ACTION_REF" gitRef
  | none => placed

/-- The variables of a phase: the current environment, then that of the action, then the
state of its earlier phases. -/
def phaseEnvironment (environment action state : Environment) : Environment :=
  let saved := state.toList.foldl (fun environment (name, value) =>
    environment.insert ("STATE_" ++ name) value) (environment.insertMany action.toList)
  saved.insert "ACTIONS_CACHE_MODE" course.cacheMode

def executeNodeActionPhase (enclosing : List Environment) (environment action state : Environment) :
    JobM PhaseEnd :=
  runWorkflowProcess course enclosing (some action) environment
    (withCommandFiles course phaseFiles (phaseEnvironment course environment action state))

def executePre (enclosing : List Environment) (environment action : Environment) (pre : Bool) :
    JobM PhaseEnd := do
  if pre then
    let allowed ← ask course.condition
    if allowed then executeNodeActionPhase course enclosing environment action ∅
    else return { environment }
  else return { environment }

def executeMain (enclosing : List Environment) (action : Environment) (before : PhaseEnd) :
    JobM PhaseEnd := do
  if before.conclusion = .success then
    let main ← executeNodeActionPhase course enclosing before.environment action before.state
    return { main with state := before.state.insertMany main.state.toList }
  else return before

/-- The environment after a step, and how the step ended. -/
structure StepEnd where
  environment : Environment
  conclusion : JobConclusion

def forced (conclusion : JobConclusion) : JobM JobConclusion := do
  let moment ← tick
  return (course.deadline moment).getD conclusion

def executeJavascript (enclosing : List Environment) (environment action : Environment)
    (pre post : Bool) : JobM StepEnd := do
  let before ← executePre course enclosing environment action pre
  let main ← executeMain course enclosing action before
  Recording.update fun log => { log with
    posts := log.posts ++ if post then [{ environment := action, state := main.state, enclosing }]
      else [] }
  let conclusion ← forced course main.conclusion
  return { environment := main.environment, conclusion }

def executeCheckout (enclosing : List Environment) (environment : Environment) :
    JobM StepEnd := do
  let moment ← tick
  let checkout := course.checkout moment
  if checkout.ready then
    let received ← Recording.ofOption (checkoutEnvironment checkout environment)
    let changed ← Recording.ofOption (persistCheckout checkout environment)
    Recording.update fun log => { log with
      seen := log.seen ++ [{
        finished := log.finished
        enclosing
        environment
        captured := none
        received
        git := true }] }
    let conclusion ← Recording.ofOption checkout.conclusion
    return { environment := changed, conclusion }
  else
    let conclusion ← Recording.ofOption checkout.conclusion
    return { environment, conclusion }

/-- The names that a composite action has changed go to the environment outside it. -/
def propagate (outer initial final : Environment) : Environment :=
  final.toList.foldl (fun environment (name, value) =>
    if initial[name]? ≠ some value then environment.insert name value else environment) outer

def compositeConclusion : ExecutionStatus → JobConclusion
  | .success => .success
  | .failure => .failure
  | .cancelled => .cancelled
  | .skipped => .skipped

/-- What a step that runs sees: its own rendered `env`; `none` if its condition is false. -/
def beginStep (header : StepHeader) : JobM (Option Environment) := do
  let own ← ask (renderEnvironment course header.environment)
  let allowed ← ask course.condition
  return if allowed then some own else none

mutual

/-- A step with all phases of its action; inside a composite action `enclosing` holds the
environments of the steps around it. -/
def executeStep (enclosing : List Environment) (step : StepTree) (environment : Environment) :
    JobM StepEnd :=
  match step with
  | .run header => do
      match ← beginStep course header with
      | none => return { environment, conclusion := .skipped }
      | some own =>
          let ended ← runWorkflowProcess course (own :: enclosing) none environment
            (withCommandFiles course runFiles (visibleEnvironment header environment own))
          return { environment := ended.environment, conclusion := ended.conclusion }
  | .checkout header => do
      match ← beginStep course header with
      | none => return { environment, conclusion := .skipped }
      | some own => executeCheckout course (own :: enclosing) environment
  | .javascript header action pre post => do
      match ← beginStep course header with
      | none => return { environment, conclusion := .skipped }
      | some own =>
          let inputs ← ask course.inputs
          executeJavascript course (own :: enclosing) environment
            (actionEnvironment action (visibleEnvironment header environment own) inputs) pre post
  | .composite header action steps => do
      match ← beginStep course header with
      | none => return { environment, conclusion := .skipped }
      | some own =>
          let inputs ← ask course.inputs
          let initial :=
            actionEnvironment action (visibleEnvironment header environment own) inputs
          let before ← Recording.read
          let (final, status) ←
            executeStepTrees (own :: enclosing) (fun _ => false) steps initial .success
          Recording.update fun log => { log with
            closed := log.closed ++ [{
              outer := environment
              initial
              own
              inside := log.finished.drop before.finished.length }] }
          let conclusion ← forced course (compositeConclusion status)
          return { environment := propagate environment initial final, conclusion }

/-- The loop over the steps of a composite action, and over those of a job, which also ends
when `stops` says so. -/
def executeStepTrees (enclosing : List Environment) (stops : Nat → Bool) (steps : List StepTree)
    (environment : Environment) (status : ExecutionStatus) :
    JobM (Environment × ExecutionStatus) :=
  match steps with
  | [] => return (environment, status)
  | step :: rest => do
      let moment ← tick
      if stops moment then return (environment, .cancelled)
      else
        let ended ← executeStep enclosing step environment
        let status := statusAfter ended.conclusion status
        if status = .cancelled then return (ended.environment, status)
        else executeStepTrees enclosing stops rest ended.environment status

end

/-- The entry points in the order in which they run, last registered first. -/
def runActionPosts : List ActionPost → Environment → JobM Unit
  | [], _ => return ()
  | post :: rest, environment => do
      let moment ← tick
      if course.stops moment then return ()
      else
        let allowed ← ask course.condition
        if allowed then
          let ended ← executeNodeActionPhase course post.enclosing environment post.environment
            post.state
          runActionPosts rest ended.environment
        else runActionPosts rest environment

/-- The foreground steps of a job and its post entry points. -/
def executeForeground (steps : List StepTree) (environment : Environment) : JobM Unit := do
  let (environment, status) ← executeStepTrees course [] course.stops steps environment .success
  if status = .cancelled then return ()
  else
    let log ← Recording.read
    runActionPosts course log.posts.reverse environment

end Execution

end GitZero.Agent
