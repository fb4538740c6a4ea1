/-
Module: GitZero.ControlPlane.Schema
Purpose: Rows, messages and constants of the Workspace Durable Object, and the
  pure functions on them that the handlers call.
Trusted boundary: none
Main exports: QueuedJob, JobRow, ConcurrencyRow, DeploymentRow, AgentMessage,
  ServerMessage, runSpec?, agentSatisfiesRequirements, normalizeRunnerRequirements
-/
import GitZero.Lib.Table
import Mathlib.Algebra.Ring.Nat
import Mathlib.Data.List.Infix
import Mathlib.Data.List.Sort

namespace GitZero.ControlPlane

/-!
The data model follows `apps/control-plane/src/protocol.ts` and the row
interfaces of `workspace.ts`.  UUIDs and WebSocket identities are numbers, a
`Date.now()` reading is a number of milliseconds.  SQL `NULL` is `none`.  A job's
JSON column holds the parsed job.  Observer sockets and the events broadcast to
them are not part of the state: no handler reads them.  `workspace_id` names the
Durable Object itself, so all jobs of a state have the same one and it is no
field here.
-/

abbrev JobId := Nat
abbrev AgentId := String
abbrev SocketId := Nat
abbrev RequestId := Nat
abbrev MessageId := Nat
abbrev Millis := Nat

def protocolVersion : Nat := 14
def leaseMilliseconds : Millis := 60000
def checkRetryMilliseconds : Millis := 30000
def queueTimeoutMilliseconds : Millis := 24 * 60 * 60 * 1000
def retentionMilliseconds : Millis := 30 * 24 * 60 * 60 * 1000
def maxAssignmentAttempts : Nat := 3
def maxInitializationAttempts : Nat := 8
def initializationLeaseMilliseconds : Millis := 2 * 60 * 1000
def initializationRetryBaseMilliseconds : Millis := 1000
def initializationRetryMaxMilliseconds : Millis := 5 * 60 * 1000
def deploymentSyncLeaseMilliseconds : Millis := 2 * 60 * 1000
def deploymentRetryBaseMilliseconds : Millis := 1000
def deploymentRetryMaxMilliseconds : Millis := 5 * 60 * 1000

/-- The JavaScript text functions the handlers call.  Nothing below depends on
how they treat non-ASCII text, so they stay parameters. -/
class JsText where
  toLowerCase : String → String
  trim : String → String
  /-- `left.localeCompare(right) < 0` -/
  localeBefore : String → String → Bool
  /-- `value.startsWith("macos-")` -/
  startsWithMacos : String → Bool
  /-- `JSON.stringify` of a string -/
  jsonString : String → String
  /-- `value.length`, in UTF-16 code units -/
  utf16Length : String → Nat
  /-- `value.slice(0, count)` -/
  sliceTo : String → Nat → String
  /-- `new URL(value).hostname` of a value that `z.url()` accepts -/
  urlHostname : String → Option String

export JsText (toLowerCase trim localeBefore startsWithMacos jsonString utf16Length sliceTo
  urlHostname)

namespace Ascii

/-- Blanks off the front. -/
def dropBlanks (text : List Char) : List Char := text.dropWhile (·.isWhitespace)

/-- The same functions on ASCII text without quotes or backslashes, for concrete
runs. -/
scoped instance text : JsText where
  toLowerCase value := String.ofList (value.toList.map Char.toLower)
  trim value := String.ofList (dropBlanks (dropBlanks value.toList).reverse).reverse
  localeBefore left right := left < right
  startsWithMacos value := "macos-".toList.isPrefixOf value.toList
  jsonString value := "\"" ++ value ++ "\""
  utf16Length value := value.toList.length
  sliceTo value count := String.ofList (value.toList.take count)
  urlHostname value :=
    if "https://".toList.isPrefixOf value.toList then
      some (String.ofList ((value.toList.drop 8).takeWhile (· ≠ '/')))
    else none

end Ascii

/-- The column `status` of `jobs`. -/
inductive JobStatus where
  | queued
  | assigned
  | running
  | completed
deriving Repr, DecidableEq, Inhabited

/-- The column `conclusion` of `jobs`. -/
inductive Conclusion where
  | success
  | failure
  | cancelled
  | timedOut
  | neutral
deriving Repr, DecidableEq, Inhabited

/-- The column `initialization_needed`: 0, 1 and 2, named as
`initializationStatus` names them. -/
inductive Initialization where
  | ready
  | pending
  | running
deriving Repr, DecidableEq, Inhabited

/-- The column `sync_needed` of a deployment: 0, 1 and 2. -/
inductive SyncNeeded where
  | synced
  | pending
  | running
deriving Repr, DecidableEq, Inhabited

/-- The column `status` of `concurrency_leases`. -/
inductive ConcurrencyStatus where
  | waiting
  | active
  | cancelling
deriving Repr, DecidableEq, Inhabited

/-- The column `queue_mode`: whether a group keeps one waiting request or all. -/
inductive QueueMode where
  | single
  | max
deriving Repr, DecidableEq, Inhabited

/-- The states that the agent reports for an environment. -/
inductive DeploymentState where
  | inProgress
  | success
  | failure
  | error
deriving Repr, DecidableEq, Inhabited

/-- The repository of a job. -/
structure Repository where
  owner : String
  name : String
  cloneUrl : String
deriving Repr, DecidableEq, Inhabited

/-- The pull request of a job; `mergeSha` and `executionRef` are filled in by its initialization. -/
structure PullRequest where
  number : Nat
  action : String
  headSha : String
  baseSha : String
  mergeSha : Option String := none
  executionRef : Option String := none
  headRef : String
  baseRef : String
deriving Repr, DecidableEq, Inhabited

/-- The paths of a webhook event that the handlers read (`eventString`,
`eventRepositoryOwnerType`); an absent or non-string value reads as `""`. -/
structure EventPayload where
  repositoryFullName : String := ""
  repositoryOwnerType : String := ""
  headRepositoryFullName : String := ""
  pullRequestAuthor : String := ""
deriving Repr, DecidableEq, Inhabited

/-- A job as it is stored, in `job_json`. -/
structure QueuedJob where
  id : JobId
  installationId : Nat
  runNumber : Nat := 0
  repository : Repository
  pullRequest : PullRequest
  checkRunId : Option Nat := none
  event : EventPayload := {}
  environment : List (String × String) := []
  actionsVariables : List (String × String) := []
  requiresGithubToken : Bool := true
  reportToGithub : Bool := true
deriving Repr, DecidableEq, Inhabited

/-- A token of the App's installation, and when it expires. -/
structure InstallationAccessToken where
  token : String
  expiresAtEpochSeconds : Nat
deriving Repr, DecidableEq, Inhabited

/-- What an agent is sent of a job. -/
structure RunSpec where
  id : JobId
  installationId : Nat
  runNumber : Nat
  repository : Repository
  pullRequest : PullRequest
  checkRunId : Option Nat
  event : EventPayload
  checkoutToken : String
  checkoutTokenExpiresAtEpochSeconds : Option Nat
  githubApiVersion : String
  managedSecrets : Bool
  environment : List (String × String)
  actionsVariables : List (String × String)
deriving Repr, DecidableEq, Inhabited

/-- The labels, or the group, that one job of the workflow asks of its runner. -/
structure RunnerRequirement where
  labels : List String
  runnerGroup : Option String
deriving Repr, DecidableEq, Inhabited

/-- The first message of an agent on its socket. -/
structure AgentHello where
  protocolVersion : Nat
  agentId : AgentId
  labels : List String
  runnerGroup : Option String
  maxParallelism : Nat
deriving Repr, DecidableEq, Inhabited

/-- A row of `jobs`. -/
structure JobRow where
  id : JobId
  job : QueuedJob
  status : JobStatus
  agentId : Option AgentId
  leaseExpiresAt : Option Millis
  createdAt : Millis
  startedAt : Option Millis
  completedAt : Option Millis
  conclusion : Option Conclusion
  summary : Option String
  checkSyncNeeded : Bool
  attemptCount : Nat
  queueExpiresAt : Millis
  lastError : Option String
  initializationNeeded : Initialization
  initializationAttemptCount : Nat
  initializationRetryAt : Option Millis
  runnerRequirements : List RunnerRequirement
deriving Repr, DecidableEq, Inhabited

/-- `status IN ('assigned', 'running')` -/
def JobRow.active (row : JobRow) : Bool :=
  row.status = .assigned || row.status = .running

/-- A row of `concurrency_leases`. -/
structure ConcurrencyRow where
  sequence : Nat
  requestId : RequestId
  runId : JobId
  agentId : AgentId
  repositoryKey : String
  groupKey : String
  groupName : String
  unitId : String
  queueMode : QueueMode
  status : ConcurrencyStatus
  createdAt : Millis
deriving Repr, DecidableEq, Inhabited

/-- `repository_key = ? AND group_key = ?` -/
def ConcurrencyRow.inGroup (row : ConcurrencyRow) (repositoryKey groupKey : String) : Bool :=
  row.repositoryKey = repositoryKey && row.groupKey = groupKey

/-- `status IN ('active', 'cancelling')` -/
def ConcurrencyRow.holds (row : ConcurrencyRow) : Bool :=
  row.status = .active || row.status = .cancelling

/-- A row of `deployments`: the state that the agent wants, and the one that GitHub was told. -/
structure DeploymentRow where
  jobId : JobId
  unitId : String
  environment : String
  desiredState : DeploymentState
  environmentUrl : Option String
  githubDeploymentId : Option Nat
  syncedState : Option DeploymentState
  syncedEnvironmentUrl : Option String
  syncNeeded : SyncNeeded
  syncAttemptCount : Nat
  syncRetryAt : Option Millis
  lastError : Option String
  createdAt : Millis
  updatedAt : Millis
deriving Repr, DecidableEq, Inhabited

/-- What a repository token is asked for. -/
inductive RepositoryTokenPurpose where
  | source
  | environment
  | sharedSource
  | checkout
deriving Repr, DecidableEq, Inhabited

/-- `repository_token_request`, `workflow_token_request` and `secret_request`. -/
inductive CredentialKind where
  | repositoryToken (purpose : RepositoryTokenPurpose)
  | workflowToken
  | secret
deriving Repr, DecidableEq, Inhabited

/-- Messages after validation by `agentMessageSchema`.  Message texts that no
handler reads (step names, log data, annotations) are left out. -/
inductive AgentMessage where
  | hello (hello : AgentHello)
  | heartbeat (messageId : MessageId) (runningJobIds : List JobId)
  | jobStarted (messageId : MessageId) (jobId : JobId)
  | jobRejected (messageId : MessageId) (jobId : JobId)
      (requirements : List RunnerRequirement) (reason : String)
  | concurrencyAcquire (messageId : MessageId) (jobId : JobId) (requestId : RequestId)
      (unitId group : String) (cancelInProgress : Bool) (queue : QueueMode)
  | concurrencyRelease (messageId : MessageId) (jobId : JobId) (requestId : RequestId)
  | credentialRequest (messageId : MessageId) (kind : CredentialKind) (jobId : JobId)
      (requestId : RequestId)
  | deploymentStarted (messageId : MessageId) (jobId : JobId) (unitId environment : String)
  | deploymentFinished (messageId : MessageId) (jobId : JobId) (unitId : String)
      (conclusion : Conclusion) (environmentUrl : Option String)
  | progress (messageId : MessageId) (jobId : JobId)
  | jobFinished (messageId : MessageId) (jobId : JobId) (conclusion : Conclusion)
      (summary : String)
deriving Repr, DecidableEq, Inhabited

/-- Messages to an agent.  `assignment` of `runJob` is a history variable (the
position of the assignment in `State.assignments`): it is not on the wire and no
modelled function reads it. -/
inductive ServerMessage where
  | welcome (protocolVersion heartbeatIntervalSeconds : Nat)
  | runJob (job : RunSpec) (assignment : Nat)
  | cancelJob (jobId : JobId) (reason : String)
  | concurrencyGranted (requestId : RequestId)
  | concurrencyCancelled (requestId : RequestId) (reason : String)
  | credentialGranted (kind : CredentialKind) (requestId : RequestId) (credential : String)
  | credentialDenied (kind : CredentialKind) (requestId : RequestId) (reason : String)
  | ack (messageId : MessageId)
  | error (code message : String)
deriving Repr, DecidableEq, Inhabited

/-! ### Pure functions of the module -/

/-- `min(base * 2 ** max(0, attempt - 1), maximum)` -/
def retryDelay (base maximum : Millis) (attempt : Nat) : Millis :=
  min (base * 2 ^ (attempt - 1)) maximum

def initializationRetryDelay : Nat → Millis :=
  retryDelay initializationRetryBaseMilliseconds initializationRetryMaxMilliseconds

def deploymentRetryDelay : Nat → Millis :=
  retryDelay deploymentRetryBaseMilliseconds deploymentRetryMaxMilliseconds

/-- The schema admits only the four terminal conclusions; `neutral` never
reaches this function. -/
def deploymentState : Conclusion → DeploymentState
  | .success => .success
  | .failure => .failure
  | .cancelled | .timedOut | .neutral => .error

/-! ### Schemas -/

/-- The largest number that `z.number().int()` accepts. -/
def maxSafeInteger : Nat := 9007199254740991

/-- `GITHUB_API_VERSION` of the worker's configuration. -/
def githubApiVersion : String := "2026-03-10"

def isHexDigit (character : Char) : Bool :=
  ('0' ≤ character && character ≤ '9') || ('a' ≤ character && character ≤ 'f') ||
    ('A' ≤ character && character ≤ 'F')

/-- `^(?:[0-9a-fA-F]{40}|[0-9a-fA-F]{64})$` -/
def fullGitObjectIdSchema (value : String) : Bool :=
  (value.toList.length = 40 || value.toList.length = 64) && value.toList.all isHexDigit

/-- `new TextEncoder().encode(value).byteLength` -/
def byteLength (characters : List Char) : Nat := (characters.map Char.utf8Size).sum

def gitExecutionRef (value : String) : Bool :=
  let characters := value.toList
  characters ≠ [] &&
    "refs/".toList.isPrefixOf characters &&
    byteLength characters ≤ 4096 &&
    characters.all (fun character =>
      !(character ≤ ' ' || character = '\x7f' || "~^:?*[\\".toList.contains character)) &&
    !decide ("..".toList <:+: characters) &&
    !decide ("@\x7b".toList <:+: characters) &&
    !decide ("//".toList <:+: characters) &&
    !".".toList.isSuffixOf characters &&
    !"/".toList.isSuffixOf characters &&
    (characters.splitOn '/').all fun component =>
      component ≠ [] && !".".toList.isPrefixOf component && !".lock".toList.isSuffixOf component

/-- `^\d{4}-\d{2}-\d{2}$` -/
def apiVersionSchema (value : String) : Bool :=
  match value.toList with
  | [y1, y2, y3, y4, '-', m1, m2, '-', d1, d2] =>
      [y1, y2, y3, y4, m1, m2, d1, d2].all fun digit => '0' ≤ digit && digit ≤ '9'
  | _ => false

/-- `z.number().int().positive()` -/
def positiveInteger (value : Nat) : Bool := 0 < value && value ≤ maxSafeInteger

/-- The members of `pullRequestShape`; those of the run add that two of them are there. -/
def pullRequestShape (snapshot : PullRequest) : Bool :=
  positiveInteger snapshot.number &&
    snapshot.action ≠ "" &&
    fullGitObjectIdSchema snapshot.headSha &&
    fullGitObjectIdSchema snapshot.baseSha &&
    snapshot.mergeSha.all fullGitObjectIdSchema &&
    snapshot.executionRef.all gitExecutionRef &&
    snapshot.headRef ≠ "" &&
    snapshot.baseRef ≠ ""

section Text

variable [JsText]

def objectIdsUseOneFormat (snapshot : PullRequest) : Bool :=
  utf16Length snapshot.baseSha = utf16Length snapshot.headSha &&
    snapshot.mergeSha.all fun mergeSha => utf16Length mergeSha = utf16Length snapshot.headSha

def repositorySchema (repository : Repository) : Bool :=
  repository.owner ≠ "" && repository.name ≠ "" &&
    urlHostname repository.cloneUrl = some "github.com"

/-- `run_number` counts the runs of a Workspace and is not compared with the largest integer. -/
def queuedJobSchema (job : QueuedJob) : Bool :=
  job.installationId ≤ maxSafeInteger &&
    repositorySchema job.repository &&
    pullRequestShape job.pullRequest && objectIdsUseOneFormat job.pullRequest &&
    job.checkRunId.all positiveInteger

/-- The members that a run shares with a queued job, a merge snapshot that is resolved, and a token
that comes with its expiry. -/
def runSpecSchema (run : RunSpec) : Bool :=
  run.installationId ≤ maxSafeInteger &&
    repositorySchema run.repository &&
    pullRequestShape run.pullRequest &&
    run.pullRequest.mergeSha.isSome && run.pullRequest.executionRef.isSome &&
    objectIdsUseOneFormat run.pullRequest &&
    run.checkRunId.all positiveInteger &&
    run.checkoutTokenExpiresAtEpochSeconds.all positiveInteger &&
    apiVersionSchema run.githubApiVersion &&
    decide (run.checkoutToken = "" ↔ run.checkoutTokenExpiresAtEpochSeconds = none)

def repositoryKeyOf (repository : Repository) : String :=
  toLowerCase (repository.owner ++ "/" ++ repository.name)

def trustedPullRequest (job : QueuedJob) (event : EventPayload) : Bool :=
  let repository := repositoryKeyOf job.repository
  toLowerCase event.repositoryFullName = repository &&
    toLowerCase event.headRepositoryFullName = repository &&
    utf16Length event.pullRequestAuthor > 0 &&
    toLowerCase event.pullRequestAuthor ≠ "dependabot[bot]"

def managedSecretsAllowed (job : QueuedJob) (event : EventPayload) : Bool :=
  job.requiresGithubToken && job.reportToGithub && trustedPullRequest job event

/-- The object built in `tryDispatch`, or `none` where `runSpecSchema.parse` throws. -/
def runSpec? (job : QueuedJob) (event : EventPayload) (checkoutToken : String)
    (expiry : Option Nat) : Option RunSpec :=
  let spec : RunSpec :=
    { id := job.id
      installationId := job.installationId
      runNumber := job.runNumber
      repository := job.repository
      pullRequest := job.pullRequest
      checkRunId := job.checkRunId
      event := event
      checkoutToken := checkoutToken
      checkoutTokenExpiresAtEpochSeconds := expiry
      githubApiVersion := githubApiVersion
      managedSecrets := managedSecretsAllowed job event
      environment := job.environment
      actionsVariables := job.actionsVariables }
  if runSpecSchema spec then some spec else none

def truncateDiagnostic (value : String) : String :=
  if utf16Length value ≤ 4096 then value else sliceTo value 4095 ++ "…"

def supportsMacos (hello : AgentHello) : Bool :=
  hello.labels.any fun label => toLowerCase label = "macos"

def isHostedMacosLabel (label : String) : Bool :=
  let normalized := toLowerCase label
  normalized = "macos-latest" || startsWithMacos normalized

/-- The Workspace's side of the comparison. -/
def agentSatisfiesRequirements (hello : AgentHello) (requirements : List RunnerRequirement) :
    Bool :=
  let labels := hello.labels.map toLowerCase
  requirements.all fun requirement =>
    let requiredGroup := requirement.runnerGroup.map toLowerCase
    if requiredGroup ≠ none ∧ hello.runnerGroup.map toLowerCase ≠ requiredGroup then false
    else if requiredGroup = none ∧ requirement.labels.length = 1 ∧
        isHostedMacosLabel (requirement.labels.headD "") then true
    else requirement.labels.all fun label => labels.contains (toLowerCase label)

/-- One requirement of `normalizeRunnerRequirements`: trimmed, lower-cased,
without repetition, sorted by code points; the code's `sort` compares UTF-16 units. -/
def normalizeRunnerRequirement (requirement : RunnerRequirement) : RunnerRequirement :=
  { labels := ((requirement.labels.map fun label =>
    toLowerCase (trim label)).eraseDups).insertionSort
      fun left right => left ≤ right
    runnerGroup := requirement.runnerGroup.map fun group => toLowerCase (trim group) }

/-- `JSON.stringify` of a requirement. -/
def requirementJson (requirement : RunnerRequirement) : String :=
  "\x7b\"labels\":[" ++ ",".intercalate (requirement.labels.map jsonString) ++
    "],\"runner_group\":" ++ (requirement.runnerGroup.elim "null" jsonString) ++ "\x7d"

/-- The requirements as they are stored. -/
def normalizeRunnerRequirements (requirements : List RunnerRequirement) :
    List RunnerRequirement :=
  ((requirements.map normalizeRunnerRequirement).eraseDups).insertionSort
    fun left right => !localeBefore (requirementJson right) (requirementJson left)

end Text

namespace Ascii

/-- A plain agent. -/
def hello (agentId : AgentId) (maxParallelism : Nat) : AgentHello :=
  { protocolVersion := protocolVersion
    agentId := agentId
    labels := ["macOS"]
    runnerGroup := none
    maxParallelism := maxParallelism }

/-- A job whose merge snapshot is already known. -/
def job (id : JobId) : QueuedJob :=
  { id := id
    installationId := 1
    repository :=
      { owner := "owner", name := "name", cloneUrl := "https://github.com/owner/name.git" }
    pullRequest :=
      { number := 1
        action := "opened"
        headSha := "1111111111111111111111111111111111111111"
        baseSha := "2222222222222222222222222222222222222222"
        mergeSha := some "3333333333333333333333333333333333333333"
        executionRef := some "refs/pull/1/merge"
        headRef := "feature"
        baseRef := "main" }
    reportToGithub := false }

end Ascii

end GitZero.ControlPlane
