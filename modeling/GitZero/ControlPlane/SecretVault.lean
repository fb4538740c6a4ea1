/-
Module: GitZero.ControlPlane.SecretVault
Purpose: What the managed secrets of a Workspace are for, without tables and without
  encryption: a value for each identity, and for each queued job the values that it was given.
Trusted boundary: the texts of JavaScript, as `JsText`
Main exports: Vault, vaultStep, Vault.delivers, JsString.delivered
-/
import GitZero.ControlPlane.SecretStore
import Mathlib.Data.Set.Card
import Mathlib.Data.String.Basic

namespace GitZero.ControlPlane

open Classical

/-- A secret without its encryption. -/
structure PlainSecret where
  visibility : SecretVisibility
  selectedRepositories : List String
  value : JsString

/-- The secrets of one Workspace as functions: what is stored under each identity, and what each
queued job was given. -/
structure Vault where
  workspaceId : Option String
  secrets : SecretIdentity → Option PlainSecret
  queued : Set JobId
  given : JobId → SecretIdentity → Option JsString

namespace Vault

def empty : Vault where
  workspaceId := none
  secrets _ := none
  queued := ∅
  given _ _ := none

variable (vault : Vault)

/-- The first Workspace that the vault is used for is its own. -/
noncomputable def enter (workspaceId : String) : Option Vault :=
  if vault.workspaceId = none ∨ vault.workspaceId = some workspaceId then
    some { vault with workspaceId := some workspaceId }
  else none

def HasRoom (identity : SecretIdentity) : Prop :=
  {other | (vault.secrets other).isSome ∧ other.inScopeOf identity = true}.ncard <
    secretLimit identity.scope

noncomputable def hold (identity : SecretIdentity) (secret : PlainSecret) : Vault :=
  if (vault.secrets identity).isSome ∨ vault.HasRoom identity then
    { vault with secrets := Function.update vault.secrets identity (some secret) }
  else vault

noncomputable def forget (identity : SecretIdentity) : Vault :=
  { vault with secrets := Function.update vault.secrets identity none }

theorem secrets_forget (identity other : SecretIdentity) :
    (vault.forget identity).secrets other =
      if other = identity then none else vault.secrets other :=
  Function.update_apply ..

section Jobs

variable [JsText] (job : QueuedJob)

/-- The secret is one of the organization of the job and admits its repository. -/
def IsVisible (privateRepository : Bool) (identity : SecretIdentity) : Prop :=
  identity.scope = .organization ∧ identity.owner = toLowerCase job.repository.owner ∧
    ∃ secret, vault.secrets identity = some secret ∧
      secret.visibility.admits secret.selectedRepositories
        (toLowerCase job.repository.owner ++ "/" ++ toLowerCase job.repository.name)
        privateRepository = true

/-- A trusted job gets the first hundred visible secrets of its organization, by name, and all
secrets of its repository. -/
def Gives (event : EventPayload) (privateRepository : Bool) (identity : SecretIdentity) : Prop :=
  managedSecretsAllowed job event = true ∧
    (vault.IsVisible job privateRepository identity ∧
        {other | vault.IsVisible job privateRepository other ∧ other.name < identity.name}.ncard <
          maxJobOrganizationSecrets ∨
      identity.scope = .repository ∧ identity.owner = toLowerCase job.repository.owner ∧
        identity.repository = toLowerCase job.repository.name)

noncomputable def gift (event : EventPayload) (privateRepository : Bool)
    (identity : SecretIdentity) : Option JsString :=
  if vault.Gives job event privateRepository identity then
    (vault.secrets identity).map PlainSecret.value
  else none

noncomputable def queue (event : EventPayload) (privateRepository : Bool) : Vault :=
  if job.id ∈ vault.queued then vault
  else
    { vault with
      queued := insert job.id vault.queued
      given := Function.update vault.given job.id (vault.gift job event privateRepository) }

theorem given_queue (event : EventPayload) (privateRepository : Bool)
    (fresh : job.id ∉ vault.queued) (jobId : JobId) (identity : SecretIdentity) :
    (vault.queue job event privateRepository).given jobId identity =
      if jobId = job.id then vault.gift job event privateRepository identity
      else vault.given jobId identity := by
  rw [queue, if_neg fresh]
  dsimp only
  rw [Function.update_apply]
  split <;> rfl

/-- What a name means to a job: a secret of the environment as it is now, or else what the job
was given, of the repository before the organization. -/
def delivers (environment : Option String) (name : String) : Option JsString :=
  let owner := toLowerCase job.repository.owner
  let repository := toLowerCase job.repository.name
  (environment.bind fun environment =>
      (vault.secrets ⟨.environment, owner, repository, toLowerCase environment, name⟩).map
        PlainSecret.value) <|>
    vault.given job.id ⟨.repository, owner, repository, "", name⟩ <|>
    vault.given job.id ⟨.organization, owner, "", "", name⟩

end Jobs

noncomputable def drop (completed : List JobId) : Vault :=
  { vault with
    queued := {jobId | jobId ∈ vault.queued ∧ jobId ∉ completed}
    given := fun jobId => if jobId ∈ completed then fun _ => none else vault.given jobId }

theorem given_drop (completed : List JobId) (jobId : JobId) (identity : SecretIdentity) :
    (vault.drop completed).given jobId identity =
      if jobId ∈ completed then none else vault.given jobId identity := by
  rw [drop]
  dsimp only
  split <;> rfl

end Vault

/-- What each request does to the vault; a request that the Workspace refuses changes nothing. -/
noncomputable def vaultStep [JsText] (vault : Vault) : SecretEvent → Vault
  | .put workspaceId untrustedInput _ =>
      match vault.enter workspaceId, managedSecretInputSchema untrustedInput with
      | some entered, some input =>
          if input.visibility = .selected ∧ input.selectedRepositories = [] then entered
          else entered.hold (normalizedSecretIdentity input.identity)
            ⟨input.visibility, input.selectedRepositories, input.value⟩
      | some entered, none => entered
      | none, _ => vault
  | .delete workspaceId untrustedIdentity =>
      match vault.enter workspaceId, managedSecretIdentitySchema untrustedIdentity with
      | some entered, some identity => entered.forget (normalizedSecretIdentity identity)
      | some entered, none => entered
      | none, _ => vault
  | .enqueue workspaceId job event privateRepository =>
      match vault.enter workspaceId with
      | some entered => entered.queue job event privateRepository
      | none => vault
  | .prune completed => vault.drop completed

/-- What is left of a value: no unpaired surrogates and no byte order mark in front. -/
def JsString.delivered (value : JsString) : JsString :=
  .ofScalars (stripByteOrderMark (value.chars.map JsChar.scalarValue))

end GitZero.ControlPlane
