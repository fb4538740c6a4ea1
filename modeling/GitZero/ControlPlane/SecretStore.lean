/-
Module: GitZero.ControlPlane.SecretStore
Purpose: The managed secrets of a Workspace: what is stored of them, which of them a job is
  given when it is queued, and what the agent that executes the job is told.
Trusted boundary: AES-GCM, as `Aead`, under one key that is fixed for the run; the texts of
  JavaScript, as `JsText`.  Environment names are strings of scalar values: JavaScript admits
  unpaired surrogates in them, which are outside the model.
Main exports: managedSecretInputSchema, SecretStore, putManagedSecret, deleteManagedSecret,
  snapshotManagedSecrets, managedSecretsForJob, secretStep, Agent.managedSecrets
-/
import GitZero.ControlPlane.ManagedSecrets
import GitZero.ControlPlane.Schema
import GitZero.Lib.Table
import GitZero.Lib.Machine

namespace GitZero.ControlPlane

def maxOrganizationSecrets : Nat := 1000
def maxRepositorySecrets : Nat := 100
def maxEnvironmentSecrets : Nat := 100
def maxJobOrganizationSecrets : Nat := 100

/-! ### Requests -/

/-- The name of a secret in the scope it belongs to, as an administrator writes it. -/
inductive ManagedSecretIdentity where
  | organization (owner name : String)
  | repository (owner repository name : String)
  | environment (owner repository environment name : String)
deriving DecidableEq

/-- The column `visibility`. -/
inductive SecretVisibility where
  | all
  | onlyPrivate
  | selected
deriving DecidableEq

/-- A request to store a secret: its identity, its value and, in an organization, who may use it. -/
inductive ManagedSecretInput where
  | organization (owner name : String) (value : JsString) (visibility : SecretVisibility)
      (selectedRepositories : List String)
  | repository (owner repository name : String) (value : JsString)
  | environment (owner repository environment name : String) (value : JsString)

namespace ManagedSecretInput

def identity : ManagedSecretInput → ManagedSecretIdentity
  | organization owner name _ _ _ => .organization owner name
  | repository owner repo name _ => .repository owner repo name
  | environment owner repo target name _ => .environment owner repo target name

def value : ManagedSecretInput → JsString
  | organization _ _ value _ _ => value
  | repository _ _ _ value => value
  | environment _ _ _ _ value => value

def visibility : ManagedSecretInput → SecretVisibility
  | organization _ _ _ visibility _ => visibility
  | _ => .all

def selectedRepositories : ManagedSecretInput → List String
  | organization _ _ _ .selected repositories => repositories
  | _ => []

end ManagedSecretInput

/-- The five columns of the primary key of `managed_secrets`. -/
structure SecretIdentity where
  scope : ManagedSecretScope
  owner : String
  repository : String
  environment : String
  name : String
deriving DecidableEq

/-- What the limits count together. -/
def SecretIdentity.inScopeOf (identity other : SecretIdentity) : Bool :=
  identity.scope = other.scope && identity.owner = other.owner &&
    identity.repository = other.repository && identity.environment = other.environment

def SecretIdentity.binding (identity : SecretIdentity) (workspaceId : String) : SecretBinding where
  workspaceId := .ofScalars workspaceId.toList
  scope := identity.scope
  owner := .ofScalars identity.owner.toList
  repository := .ofScalars identity.repository.toList
  environment := .ofScalars identity.environment.toList
  name := .ofScalars identity.name.toList

def isNameStart (char : Char) : Bool := char.isAlpha || char = '_'

def isNameChar (char : Char) : Bool := char.isAlphanum || char = '_'

def reservedPrefix : List Char := "GITHUB_".toList

/-- `name.toUpperCase()`; a name that gets here is ASCII. -/
def upperName (name : List Char) : List Char := name.map Char.toUpper

def secretName (name : String) : Option String :=
  match name.toList with
  | [] => none
  | first :: rest =>
      if isNameStart first && rest.all isNameChar && rest.length < 255 &&
          !reservedPrefix.isPrefixOf (upperName (first :: rest)) then
        some (String.ofList (upperName (first :: rest)))
      else none

def isOwnerChar (char : Char) : Bool :=
  char.isAlphanum || char = '.' || char = '_' || char = '-'

section Texts

variable [JsText]

/-- The schemas `owner` and `repository`. -/
def ownerName (name : String) : Option String :=
  let trimmed := (trim name).toList
  if trimmed ≠ [] ∧ trimmed.length ≤ 100 ∧ trimmed.all isOwnerChar then some (trim name) else none

def environmentName (name : String) : Option String :=
  let length := utf16Length (trim name)
  if 1 ≤ length ∧ length ≤ 255 ∧
      (trim name).toList.all fun char => char ≠ '\x00' && char ≠ '\r' && char ≠ '\n' then
    some (trim name)
  else none

def selectedRepository (entry : String) : Option String :=
  let (owner, rest) := (trim entry).toList.span (· ≠ '/')
  if (trim entry).toList.length ≤ 201 ∧ owner ≠ [] ∧ owner.all isOwnerChar ∧
      rest.tail ≠ [] ∧ rest.tail.all isOwnerChar then
    some (toLowerCase (trim entry))
  else none

def managedSecretIdentitySchema : ManagedSecretIdentity → Option ManagedSecretIdentity
  | .organization owner name => do return .organization (← ownerName owner) (← secretName name)
  | .repository owner repository name => do
      return .repository (← ownerName owner) (← ownerName repository) (← secretName name)
  | .environment owner repository environment name => do
      return .environment (← ownerName owner) (← ownerName repository)
        (← environmentName environment) (← secretName name)

/-- The checks of a request, and the identity as it is read. -/
def managedSecretInputSchema (input : ManagedSecretInput) : Option ManagedSecretInput := do
  let identity ← managedSecretIdentitySchema input.identity
  guard (acceptsSecretValue input.value)
  match input, identity with
  | .organization _ _ value visibility repositories, .organization owner name => do
      guard (repositories.length ≤ 1000)
      let selected ← repositories.mapM selectedRepository
      return .organization owner name value visibility (selected.eraseDups.mergeSort (· ≤ ·))
  | .repository _ _ _ value, .repository owner repository name =>
      return .repository owner repository name value
  | .environment _ _ _ _ value, .environment owner repository environment name =>
      return .environment owner repository environment name value
  | _, _ => none

def normalizedSecretIdentity : ManagedSecretIdentity → SecretIdentity
  | .organization owner name =>
      ⟨.organization, toLowerCase owner, "", "", String.ofList (upperName name.toList)⟩
  | .repository owner repository name =>
      ⟨.repository, toLowerCase owner, toLowerCase repository, "",
        String.ofList (upperName name.toList)⟩
  | .environment owner repository environment name =>
      ⟨.environment, toLowerCase owner, toLowerCase repository, toLowerCase environment,
        String.ofList (upperName name.toList)⟩

/-! ### Tables -/

/-- A row of `managed_secrets`. -/
structure ManagedSecretRow where
  identity : SecretIdentity
  visibility : SecretVisibility
  selectedRepositories : List String
  encrypted : EncryptedSecret

/-- A row of `job_secrets`. -/
structure JobSecretRow where
  jobId : JobId
  identity : SecretIdentity
  encrypted : EncryptedSecret

/-- The primary key of `job_secrets`. -/
def JobSecretRow.key (row : JobSecretRow) : JobId × ManagedSecretScope × String :=
  (row.jobId, row.identity.scope, row.identity.name)

/-- A row of `jobs`, as far as secrets are concerned. -/
structure SecretJob where
  workspaceId : String
  job : QueuedJob

/-- The tables of a Workspace that the secrets are in: those of its repositories, and for each
queued job the copies that it was given. -/
structure SecretStore where
  workspaceId : Option String := none
  managedSecrets : List ManagedSecretRow := []
  jobs : List SecretJob := []
  jobSecrets : List JobSecretRow := []

namespace SecretStore

variable (store : SecretStore)

def ensureWorkspaceId (workspaceId : String) : Except String SecretStore :=
  match store.workspaceId with
  | none => .ok { store with workspaceId := some workspaceId }
  | some stored =>
      if stored = workspaceId then .ok store
      else .error "workspace ID does not match Durable Object identity"

end SecretStore

def secretLimit : ManagedSecretScope → Nat
  | .organization => maxOrganizationSecrets
  | .repository => maxRepositorySecrets
  | .environment => maxEnvironmentSecrets

def ensureManagedSecretCapacity (rows : List ManagedSecretRow) (identity : SecretIdentity) :
    Except String Unit :=
  let count := rows.countP fun row => row.identity.inScopeOf identity
  if secretLimit identity.scope ≤ count then
    .error s!"{identity.scope.text} secret scope already contains its {
      secretLimit identity.scope}-secret limit"
  else .ok ()

/-- The transaction of `putManagedSecret`; the flag is `created`. -/
def insertSecret (rows : List ManagedSecretRow) (row : ManagedSecretRow) :
    Except String (List ManagedSecretRow × Bool) := do
  if rows.any fun old => old.identity = row.identity then
    return (Table.update rows (fun old => old.identity = row.identity) fun _ => row, false)
  else
    ensureManagedSecretCapacity rows row.identity
    return (rows ++ [row], true)

section Cipher

variable (aes : Aead) (key : aes.Key)

def sealedRow (workspaceId : String) (input : ManagedSecretInput) (nonce : Bytes) :
    ManagedSecretRow :=
  let identity := normalizedSecretIdentity input.identity
  { identity
    visibility := input.visibility
    selectedRepositories := input.selectedRepositories
    encrypted := encryptManagedSecret aes key (identity.binding workspaceId) nonce input.value }

/-- Stores a secret; whether it is a new one. -/
def putManagedSecret (store : SecretStore) (workspaceId : String)
    (untrustedInput : ManagedSecretInput) (nonce : Bytes) : SecretStore × Except String Bool :=
  match store.ensureWorkspaceId workspaceId with
  | .error reason => (store, .error reason)
  | .ok store =>
      match managedSecretInputSchema untrustedInput with
      | none => (store, .error "invalid input")
      | some input =>
          if input.visibility = .selected ∧ input.selectedRepositories = [] then
            (store, .error "selected organization secrets require at least one repository")
          else
            match insertSecret store.managedSecrets (sealedRow aes key workspaceId input nonce) with
            | .error reason => (store, .error reason)
            | .ok (rows, created) => ({ store with managedSecrets := rows }, .ok created)

/-- Removes a secret; whether there was one. -/
def deleteManagedSecret (store : SecretStore) (workspaceId : String)
    (untrustedIdentity : ManagedSecretIdentity) : SecretStore × Except String Bool :=
  match store.ensureWorkspaceId workspaceId with
  | .error reason => (store, .error reason)
  | .ok store =>
      match managedSecretIdentitySchema untrustedIdentity with
      | none => (store, .error "invalid input")
      | some identity =>
          let identity := normalizedSecretIdentity identity
          let deleted := store.managedSecrets.countP fun row => row.identity = identity
          let rows := Table.delete store.managedSecrets fun row => row.identity = identity
          ({ store with managedSecrets := rows }, .ok (deleted = 1))

/-- `ORDER BY name`; names are ASCII. -/
def byName (rows : List ManagedSecretRow) : List ManagedSecretRow :=
  rows.mergeSort fun left right => left.identity.name ≤ right.identity.name

def SecretVisibility.admits (selectedRepositories : List String) (repositoryKey : String)
    (privateRepository : Bool) : SecretVisibility → Bool
  | all => true
  | onlyPrivate => privateRepository
  | selected => selectedRepositories.contains repositoryKey

def ManagedSecretRow.visibleTo (row : ManagedSecretRow) (repositoryKey : String)
    (privateRepository : Bool) : Bool :=
  row.visibility.admits row.selectedRepositories repositoryKey privateRepository

def visibleOrganizationSecrets (rows : List ManagedSecretRow) (owner repositoryKey : String)
    (privateRepository : Bool) : List ManagedSecretRow :=
  (byName (rows.filter fun row =>
    row.identity.scope = .organization && row.identity.owner = owner)).filter fun row =>
      row.visibleTo repositoryKey privateRepository

def organizationSecrets (rows : List ManagedSecretRow) (owner repositoryKey : String)
    (privateRepository : Bool) : List ManagedSecretRow :=
  (visibleOrganizationSecrets rows owner repositoryKey privateRepository).take
    maxJobOrganizationSecrets

def repositorySecrets (rows : List ManagedSecretRow) (owner repository : String) :
    List ManagedSecretRow :=
  byName (rows.filter fun row =>
    row.identity.scope = .repository && row.identity.owner = owner &&
      row.identity.repository = repository)

def environmentSecrets (rows : List ManagedSecretRow) (owner repository environment : String) :
    List ManagedSecretRow :=
  byName (rows.filter fun row =>
    row.identity.scope = .environment && row.identity.owner = owner &&
      row.identity.repository = repository && row.identity.environment = environment)

/-- The rows that `snapshotManagedSecrets` inserts; `privateRepository` is read off the event. -/
def snapshotManagedSecrets (rows : List ManagedSecretRow) (job : QueuedJob)
    (event : EventPayload) (privateRepository : Bool) : List JobSecretRow :=
  if managedSecretsAllowed job event then
    let owner := toLowerCase job.repository.owner
    let repository := toLowerCase job.repository.name
    (organizationSecrets rows owner (owner ++ "/" ++ repository) privateRepository ++
      repositorySecrets rows owner repository).map fun row => ⟨job.id, row.identity, row.encrypted⟩
  else []

/-- `INSERT OR REPLACE INTO job_secrets` -/
def insertOrReplace (rows : List JobSecretRow) (row : JobSecretRow) : List JobSecretRow :=
  Table.delete rows (fun old => old.key = row.key) ++ [row]

/-- The part of `enqueue` that concerns secrets; `false` where it throws. -/
def enqueueSecrets (store : SecretStore) (workspaceId : String) (job : QueuedJob)
    (event : EventPayload) (privateRepository : Bool) : SecretStore × Bool :=
  match store.ensureWorkspaceId workspaceId with
  | .error _ => (store, false)
  | .ok store =>
      -- The insert violates the primary key of `jobs` when the id is taken.
      if store.jobs.any fun row => row.job.id = job.id then (store, false)
      else
        let snapshot := snapshotManagedSecrets store.managedSecrets job event privateRepository
        ({ store with
            jobs := store.jobs ++ [⟨workspaceId, job⟩]
            jobSecrets := snapshot.foldl insertOrReplace store.jobSecrets }, true)

/-- The jobs `completed` are old enough for `prune`. -/
def pruneSecrets (store : SecretStore) (completed : List JobId) : SecretStore :=
  { store with
    jobs := Table.delete store.jobs fun row => completed.contains row.job.id
    jobSecrets := Table.delete store.jobSecrets fun row => completed.contains row.jobId }

def ManagedSecretRow.ofJob (row : JobSecretRow) : ManagedSecretRow :=
  ⟨row.identity, .all, [], row.encrypted⟩

/-- The rows that `managedSecretsForJob` reads, in the order in which they override each other. -/
def secretRowsForJob (store : SecretStore) (job : QueuedJob) (environment : Option String) :
    List ManagedSecretRow :=
  let rows := (store.jobSecrets.filter fun row => row.jobId = job.id).map ManagedSecretRow.ofJob
  byName (rows.filter fun row => row.identity.scope = .organization) ++
    byName (rows.filter fun row => row.identity.scope ≠ .organization) ++
    match environment with
    | none => []
    | some environment =>
        environmentSecrets store.managedSecrets (toLowerCase job.repository.owner)
          (toLowerCase job.repository.name) (toLowerCase environment)

/-- `secrets[name] = value` -/
def assignSecret (secrets : List (String × JsString)) (name : String) (value : JsString) :
    List (String × JsString) :=
  if secrets.any fun entry => entry.1 = name then
    secrets.map fun entry => if entry.1 = name then (name, value) else entry
  else secrets ++ [(name, value)]

/-- `none` where a secret cannot be decrypted. -/
def managedSecretsForJob (store : SecretStore) (row : SecretJob) (environment : Option String) :
    Option (List (String × JsString)) :=
  (secretRowsForJob store row.job environment).foldlM (fun secrets secret => do
    let value ← decryptManagedSecret aes key (secret.identity.binding row.workspaceId)
      secret.encrypted
    return assignSecret secrets secret.identity.name value) []

/-! ### Runs -/

/-- A request of an administrator, the queueing of a job, or the removal of completed jobs. -/
inductive SecretEvent where
  | put (workspaceId : String) (input : ManagedSecretInput) (nonce : Bytes)
  | delete (workspaceId : String) (identity : ManagedSecretIdentity)
  | enqueue (workspaceId : String) (job : QueuedJob) (event : EventPayload)
      (privateRepository : Bool)
  | prune (completed : List JobId)

/-- The tables after one request. -/
def secretStep (store : SecretStore) : SecretEvent → SecretStore
  | .put workspaceId input nonce => (putManagedSecret aes key store workspaceId input nonce).1
  | .delete workspaceId identity => (deleteManagedSecret store workspaceId identity).1
  | .enqueue workspaceId job event privateRepository =>
      (enqueueSecrets store workspaceId job event privateRepository).1
  | .prune completed => pruneSecrets store completed

end Cipher

end Texts

end GitZero.ControlPlane

/-! ### The agent -/

namespace GitZero.Agent

open ControlPlane

def maxManagedSecretsPerJob : Nat := 300

def validManagedSecretName (name : String) : Bool :=
  match name.toList with
  | [] => false
  | first :: rest =>
      (first.isUpper || first = '_') &&
        rest.all (fun char => char.isUpper || char.isDigit || char = '_') &&
        !reservedPrefix.isPrefixOf name.toList

/-- A granted value as the agent receives it. -/
def receivedSecret (value : JsString) : String := String.ofList (value.chars.map JsChar.scalarValue)

/-- `managed_secrets` on what the control plane has granted. -/
def managedSecrets (granted : List (String × JsString)) : Except String (List (String × String)) :=
  let secrets := granted.map fun entry => (entry.1, receivedSecret entry.2)
  if maxManagedSecretsPerJob < secrets.length then
    .error s!"control plane returned more than {maxManagedSecretsPerJob} managed secrets"
  else if secrets.all fun entry =>
      validManagedSecretName entry.1 && entry.2.utf8ByteSize ≤ maxManagedSecretBytes then
    .ok secrets
  else .error "control plane returned an invalid managed secret"

end GitZero.Agent
