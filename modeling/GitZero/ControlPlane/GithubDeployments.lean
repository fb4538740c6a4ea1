/-
Module: GitZero.ControlPlane.GithubDeployments
Purpose: The deployments of a repository on GitHub and the update of one of them, with
  requests that fail before or after they take effect.
Trusted boundary: GitHub lists deployments and statuses completely and newest first, and
  returns them as it received them
Main exports: Github, DeploymentCall, Replies, syncGitHubDeployment, runRow
-/
import GitZero.ControlPlane.Schema
import GitZero.Lib.Table

namespace GitZero.ControlPlane

/-! ### GitHub -/

/-- The states of a deployment status on GitHub. -/
inductive GithubStatusState where
  | error
  | failure
  | inactive
  | inProgress
  | queued
  | pending
  | success
deriving Repr, DecidableEq

def DeploymentState.onGithub : DeploymentState → GithubStatusState
  | .inProgress => .inProgress
  | .success => .success
  | .failure => .failure
  | .error => .error

/-- A status of a deployment, as far as it is compared and set. -/
structure GithubStatus where
  state : GithubStatusState
  description : Option String
  environment : String
  environmentUrl : Option String
deriving Repr, DecidableEq

/-- `payload` is the pair `job_id`, `unit_id` of a payload that has them; the statuses stand
newest first. -/
structure GithubDeployment where
  id : Nat
  sha : String
  task : String
  environment : String
  payload : Option (JobId × String)
  statuses : List GithubStatus
deriving Repr, DecidableEq

/-- The deployments of a repository, newest first. -/
structure Github where
  deployments : List GithubDeployment
  nextId : Nat
  distinct : (deployments.map GithubDeployment.id).Nodup
  fresh : ∀ deployment ∈ deployments, deployment.id < nextId

def Github.deployment? (github : Github) (id : Nat) : Option GithubDeployment :=
  Table.row GithubDeployment.id github.deployments id

def Github.newDeployment (github : Github) (sha environment : String)
    (payload : JobId × String) : GithubDeployment where
  id := github.nextId
  sha := sha
  task := "deploy"
  environment := environment
  payload := some payload
  statuses := []

def Github.createDeployment (github : Github) (sha environment : String)
    (payload : JobId × String) : Github where
  deployments := github.newDeployment sha environment payload :: github.deployments
  nextId := github.nextId + 1
  distinct := by
    rw [List.map_cons, List.nodup_cons]
    refine ⟨fun old => ?_, github.distinct⟩
    obtain ⟨deployment, member, same⟩ := List.mem_map.mp old
    have smaller := github.fresh deployment member
    rw [same] at smaller
    exact Nat.lt_irrefl _ smaller
  fresh deployment member := by
    rcases List.mem_cons.mp member with rfl | old
    · exact Nat.lt_succ_self _
    · exact (github.fresh deployment old).trans (Nat.lt_succ_self _)

def GithubDeployment.withStatus (deployment : GithubDeployment) (status : GithubStatus) :
    GithubDeployment :=
  { deployment with statuses := status :: deployment.statuses }

def Github.createStatus (github : Github) (id : Nat) (status : GithubStatus) : Github where
  deployments := Table.update github.deployments (·.id = id) (·.withStatus status)
  nextId := github.nextId
  distinct := Table.nodup_key_update (fun _ _ _ => rfl) github.distinct
  fresh := Table.forall_update github.fresh fun _ _ _ old => old

/-! ### One call -/

/-- How a request that writes ends. -/
inductive Delivery where
  | lost
  | ambiguous
  | acknowledged
deriving Repr, DecidableEq

/-- How the requests of one call end. -/
structure Replies where
  token : Bool
  listDeployments : Bool
  createDeployment : Delivery
  listStatuses : Bool
  createStatus : Delivery

/-- The arguments of `syncGitHubDeployment`. -/
structure DeploymentCall where
  mergeSha : Option String
  jobId : JobId
  unitId : String
  environment : String
  state : DeploymentState
  environmentUrl : Option String
  deploymentId : Option Nat
  recoverAmbiguousWrite : Bool

def deploymentStatusDescription : DeploymentState → String
  | .inProgress => "GitZero deployment is running."
  | .success => "GitZero deployment completed successfully."
  | .failure => "GitZero deployment failed."
  | .error => "GitZero deployment was cancelled or timed out."

section Call

variable (github : Github) (call : DeploymentCall) (replies : Replies)

def DeploymentCall.payload : JobId × String := (call.jobId, call.unitId)

/-- The query of the list and the check of the payload. -/
def DeploymentCall.finds (sha : String) (deployment : GithubDeployment) : Bool :=
  deployment.sha = sha && deployment.environment = call.environment &&
    deployment.task = "deploy" && deployment.payload = some call.payload

/-- The deployment of the job and unit that the list of deployments gives. -/
def recoveredDeployment (sha : String) : Option GithubDeployment :=
  github.deployments.find? (call.finds sha)

/-- The deployment before the call: its id, or `none` where one has to be created; no value
where the function throws. -/
def resolveDeployment : Option (Option Nat) :=
  match call.deploymentId with
  | some id => some (some id)
  | none =>
      if call.recoverAmbiguousWrite then
        match call.mergeSha with
        | none => none
        | some sha =>
            if replies.listDeployments then
              some ((recoveredDeployment github call sha).map (·.id))
            else none
      else some none

def ensureDeployment : Option Nat → Github × Option Nat
  | some id => (github, some id)
  | none =>
      match call.mergeSha with
      | none => (github, none)
      | some sha =>
          let created := github.createDeployment sha call.environment call.payload
          match replies.createDeployment with
          | .lost => (github, none)
          | .ambiguous => (created, none)
          | .acknowledged => (created, some github.nextId)

/-- The status that the call publishes. -/
def DeploymentCall.status : GithubStatus where
  state := call.state.onGithub
  description := some (deploymentStatusDescription call.state)
  environment := call.environment
  environmentUrl := call.environmentUrl

def DeploymentCall.matched (status : GithubStatus) : Bool :=
  status.state = call.state.onGithub && status.environment = call.environment &&
    status.environmentUrl = call.environmentUrl &&
    status.description.getD "" = deploymentStatusDescription call.state

/-- A request for a deployment that is not there fails. -/
def postStatus (id : Nat) : Github × Option Nat :=
  match github.deployment? id with
  | none => (github, none)
  | some _ =>
      match replies.createStatus with
      | .lost => (github, none)
      | .ambiguous => (github.createStatus id call.status, none)
      | .acknowledged => (github.createStatus id call.status, some id)

def publishStatus (id : Nat) : Github × Option Nat :=
  if call.recoverAmbiguousWrite then
    match github.deployment? id with
    | none => (github, none)
    | some deployment =>
        if !replies.listStatuses then (github, none)
        else if deployment.statuses.any call.matched then (github, some id)
        else postStatus github call replies id
  else postStatus github call replies id

/-- GitHub after the call and the returned id; `none` where the function throws. -/
def syncGitHubDeployment : Github × Option Nat :=
  if !replies.token then (github, none)
  else
    match resolveDeployment github call replies with
    | none => (github, none)
    | some resolved =>
        match ensureDeployment github call replies resolved with
        | (github, none) => (github, none)
        | (github, some id) => publishStatus github call replies id

end Call

/-! ### The calls of one row -/

/-- One attempt: what the row wants at that time, whether the write is recovered and how the
requests end. -/
structure RowAttempt where
  state : DeploymentState
  environmentUrl : Option String
  recoverAmbiguousWrite : Bool
  replies : Replies

def RowAttempt.call (row : DeploymentCall) (stored : Option Nat) (attempt : RowAttempt) :
    DeploymentCall :=
  { row with
    state := attempt.state
    environmentUrl := attempt.environmentUrl
    deploymentId := stored
    recoverAmbiguousWrite := attempt.recoverAmbiguousWrite }

/-- The id is stored `WHERE github_deployment_id IS NULL`. -/
def attemptRow (row : DeploymentCall) (before : Github × Option Nat) (attempt : RowAttempt) :
    Github × Option Nat :=
  let after := syncGitHubDeployment before.1 (attempt.call row before.2) attempt.replies
  (after.1, before.2.or after.2)

/-- The attempts of a row that has no deployment yet. -/
def runRow (row : DeploymentCall) (github : Github) (attempts : List RowAttempt) : Github :=
  (attempts.foldl (attemptRow row) (github, none)).1

end GitZero.ControlPlane
