/-
Module: GitZero.Proofs.SecretDelivery
Purpose: The encrypted tables of the managed secrets behave like the vault, in every run, and
  a job is told what the vault says.
Trusted boundary: AES-GCM, as `Aead` describes it
Main exports: Represents, secretStep_represents, secrets_delivered
-/
import GitZero.ControlPlane.SecretVault
import GitZero.Proofs.SecretBounds

namespace GitZero.ControlPlane

/-! ### Assignments -/

theorem lookup_cons_pair {Value : Type} (first : String) (held : Value)
    (secrets : List (String × Value)) (wanted : String) :
    ((first, held) :: secrets).lookup wanted =
      if wanted = first then some held else secrets.lookup wanted := by
  rw [List.lookup_cons]
  by_cases same : wanted = first
  · simp [same]
  · simp [same, beq_eq_false_iff_ne.mpr same]

theorem lookup_replaced (name : String) (value : JsString) (wanted : String)
    (secrets : List (String × JsString)) :
    (secrets.map fun entry => if entry.1 = name then (name, value) else entry).lookup wanted =
      if wanted = name then (secrets.lookup name).map fun _ => value
      else secrets.lookup wanted := by
  induction secrets with
  | nil => simp
  | cons entry secrets inductionHypothesis =>
      obtain ⟨first, held⟩ := entry
      rw [List.map_cons, lookup_cons_pair, lookup_cons_pair]
      by_cases isName : first = name
      · subst isName
        rw [if_pos rfl, lookup_cons_pair, inductionHypothesis]
        by_cases same : wanted = first <;> simp [same]
      · rw [if_neg isName, lookup_cons_pair, inductionHypothesis]
        by_cases same : wanted = name
        · subst same
          simp [Ne.symm isName]
        · simp [same]

theorem lookup_isSome_iff_any (secrets : List (String × JsString)) (name : String) :
    (secrets.lookup name).isSome ↔ (secrets.any fun entry => entry.1 = name) = true := by
  rw [List.lookup_isSome_iff, List.any_eq_true]
  refine exists_congr fun entry => and_congr_right fun _ => ?_
  rw [beq_iff_eq, decide_eq_true_eq]
  exact eq_comm

theorem lookup_assignSecret (secrets : List (String × JsString)) (name : String) (value : JsString)
    (wanted : String) :
    (assignSecret secrets name value).lookup wanted =
      if wanted = name then some value else secrets.lookup wanted := by
  rw [assignSecret]
  split
  · next present =>
      obtain ⟨old, isOld⟩ := Option.isSome_iff_exists.mp
        ((lookup_isSome_iff_any secrets name).mpr present)
      rw [lookup_replaced, isOld]
      rfl
  · next absent =>
      have none : secrets.lookup name = none := by
        rw [← Option.not_isSome_iff_eq_none, lookup_isSome_iff_any]
        exact absent
      rw [List.lookup_append, lookup_cons_pair, List.lookup_nil]
      by_cases same : wanted = name
      · rw [same, none, if_pos rfl]
        rfl
      · rw [if_neg same, if_neg same, Option.or_none]

theorem assignSecret_names {secrets : List (String × JsString)}
    (distinct : (secrets.map Prod.fst).Nodup) (name : String) (value : JsString) :
    ((assignSecret secrets name value).map Prod.fst).Nodup := by
  rw [assignSecret]
  split
  · rw [List.map_map]
    refine (congrArg List.Nodup (List.map_congr_left fun entry _ => ?_)).mpr distinct
    simp only [Function.comp_apply]
    split
    · next same => exact same.symm
    · rfl
  · next absent =>
      rw [List.map_append, List.nodup_append]
      refine ⟨distinct, List.nodup_singleton _, ?_⟩
      rintro _ present _ new rfl
      obtain ⟨entry, member, same⟩ := List.mem_map.mp present
      refine absent (List.any_eq_true.mpr ⟨entry, member, decide_eq_true ?_⟩)
      exact same.trans (List.mem_singleton.mp new)

theorem assignSecret_length (secrets : List (String × JsString)) (name : String)
    (value : JsString) : (assignSecret secrets name value).length ≤ secrets.length + 1 := by
  rw [assignSecret]
  split <;> simp

section Cipher

variable (aes : Aead) (key : aes.Key)

/-- The value was encrypted for the identity in this Workspace. -/
def Sealed (workspaceId : Option String) (identity : SecretIdentity) (value : JsString)
    (encrypted : EncryptedSecret) : Prop :=
  ∃ workspace nonce, workspaceId = some workspace ∧
    encrypted = encryptManagedSecret aes key (identity.binding workspace) nonce value

/-- The row holds the secret. -/
structure HoldsSecret (workspaceId : Option String) (row : ManagedSecretRow)
    (secret : PlainSecret) :
    Prop where
  visibility : row.visibility = secret.visibility
  selectedRepositories : row.selectedRepositories = secret.selectedRepositories
  encrypted : Sealed aes key workspaceId row.identity secret.value row.encrypted

/-- The tables say what the vault says. -/
structure Represents (store : SecretStore) (vault : Vault) : Prop where
  workspace : store.workspaceId = vault.workspaceId
  sound : ∀ row ∈ store.managedSecrets, ∃ secret, vault.secrets row.identity = some secret ∧
    HoldsSecret aes key store.workspaceId row secret
  complete : ∀ identity, (vault.secrets identity).isSome →
    ∃ row ∈ store.managedSecrets, row.identity = identity
  queued : ∀ jobId, jobId ∈ vault.queued ↔ ∃ row ∈ store.jobs, row.job.id = jobId
  workspaces : ∀ row ∈ store.jobs, store.workspaceId = some row.workspaceId
  givenSound : ∀ secret ∈ store.jobSecrets, ∃ value,
    vault.given secret.jobId secret.identity = some value ∧
      Sealed aes key store.workspaceId secret.identity value secret.encrypted
  givenComplete : ∀ jobId identity, (vault.given jobId identity).isSome →
    ∃ secret ∈ store.jobSecrets, secret.jobId = jobId ∧ secret.identity = identity

theorem Represents.empty : Represents aes key {} .empty where
  workspace := rfl
  sound _ member := nomatch member
  complete _ present := nomatch present
  queued jobId := by simp [Vault.empty]
  workspaces _ member := nomatch member
  givenSound _ member := nomatch member
  givenComplete _ _ present := nomatch present

variable {aes key}

theorem Represents.present_iff {store : SecretStore} {vault : Vault}
    (represents : Represents aes key store vault) (identity : SecretIdentity) :
    (vault.secrets identity).isSome ↔ ∃ row ∈ store.managedSecrets, row.identity = identity := by
  refine ⟨represents.complete identity, ?_⟩
  rintro ⟨row, member, rfl⟩
  obtain ⟨secret, isSecret, _⟩ := represents.sound row member
  rw [isSecret]
  rfl

theorem Represents.hasRoom_iff {store : SecretStore} {vault : Vault}
    (represents : Represents aes key store vault)
    (distinct : (store.managedSecrets.map ManagedSecretRow.identity).Nodup)
    (identity : SecretIdentity) :
    vault.HasRoom identity ↔
      scopeCount store.managedSecrets identity < secretLimit identity.scope := by
  rw [Vault.HasRoom, scopeCount, RankedPrefixes.ncard_eq_countP distinct]
  intro wanted
  simp only [Set.mem_ofPred_eq, represents.present_iff]
  constructor
  · rintro ⟨⟨row, member, rfl⟩, inScope⟩
    exact ⟨row, member, rfl, inScope⟩
  · rintro ⟨row, member, rfl, inScope⟩
    exact ⟨⟨row, member, rfl⟩, inScope⟩

/-! ### What a job is told -/

theorem Sealed.decrypt {workspaceId : String} {identity : SecretIdentity} {value : JsString}
    {encrypted : EncryptedSecret}
    (sealedValue : Sealed aes key (some workspaceId) identity value encrypted) :
    decryptManagedSecret aes key (identity.binding workspaceId) encrypted =
      some value.delivered := by
  obtain ⟨workspace, nonce, same, rfl⟩ := sealedValue
  cases same
  rw [decrypt_encrypt_self, decodeUtf8_encode]
  rfl

/-- The rows of one scope that a job reads, and what their names mean. -/
structure Part (aes : Aead) (key : aes.Key) (workspaceId : String) (rows : List ManagedSecretRow)
    (meaning : String → Option JsString) : Prop where
  names : (rows.map fun row => row.identity.name).Nodup
  sound : ∀ row ∈ rows, ∃ value, meaning row.identity.name = some value ∧
    Sealed aes key (some workspaceId) row.identity value row.encrypted
  complete : ∀ name, (meaning name).isSome → ∃ row ∈ rows, row.identity.name = name

/-- The loop of `managedSecretsForJob` from some secrets on. -/
def assignAll (aes : Aead) (key : aes.Key) (workspaceId : String) (rows : List ManagedSecretRow)
    (secrets : List (String × JsString)) : Option (List (String × JsString)) :=
  rows.foldlM (fun secrets secret => do
    let value ← decryptManagedSecret aes key (secret.identity.binding workspaceId) secret.encrypted
    return assignSecret secrets secret.identity.name value) secrets

/-- What the loop makes of secrets with distinct names. -/
structure Assigned (rows : List ManagedSecretRow) (meaning : String → Option JsString)
    (before after : List (String × JsString)) : Prop where
  names : (after.map Prod.fst).Nodup
  few : after.length ≤ before.length + rows.length
  lookup : ∀ name, after.lookup name =
    ((meaning name).map JsString.delivered <|> before.lookup name)

theorem Part.assigned {workspaceId : String} {rows : List ManagedSecretRow}
    {meaning : String → Option JsString} (part : Part aes key workspaceId rows meaning)
    {before : List (String × JsString)} (distinct : (before.map Prod.fst).Nodup) :
    ∃ after, assignAll aes key workspaceId rows before = some after ∧
      Assigned rows meaning before after := by
  induction rows generalizing before meaning with
  | nil =>
      refine ⟨before, rfl, distinct, Nat.le_refl _, fun name => ?_⟩
      have none : meaning name = none := by
        rw [← Option.not_isSome_iff_eq_none]
        intro present
        obtain ⟨row, member, _⟩ := part.complete name present
        nomatch member
      rw [none]
      rfl
  | cons row rows inductionHypothesis =>
      obtain ⟨first, names⟩ := List.nodup_cons.mp part.names
      obtain ⟨value, means, sealedValue⟩ := part.sound row List.mem_cons_self
      -- The other rows mean what the names other than the first one mean.
      have others : Part aes key workspaceId rows
          (fun name => if name = row.identity.name then none else meaning name) := by
        refine ⟨names, fun other member => ?_, fun name present => ?_⟩
        · obtain ⟨held, isHeld, sealedHeld⟩ := part.sound other (List.mem_cons_of_mem _ member)
          refine ⟨held, ?_, sealedHeld⟩
          rw [if_neg]
          · exact isHeld
          · intro same
            exact first (List.mem_map.mpr ⟨other, member, same⟩)
        · split at present
          · cases present
          · next differs =>
              obtain ⟨other, member, rfl⟩ := part.complete name present
              rcases List.mem_cons.mp member with rfl | member
              · exact absurd rfl differs
              · exact ⟨other, member, rfl⟩
      obtain ⟨after, isAfter, assigned⟩ :=
        inductionHypothesis others (assignSecret_names distinct row.identity.name value.delivered)
      refine ⟨after, ?_, assigned.names, ?_, fun name => ?_⟩
      · rw [assignAll, List.foldlM_cons, sealedValue.decrypt]
        exact isAfter
      · have step := assignSecret_length before row.identity.name value.delivered
        have rest := assigned.few
        rw [List.length_cons]
        omega
      · rw [assigned.lookup, lookup_assignSecret]
        split
        · next same => rw [same, means]; rfl
        · rfl

/-! ### Entering, putting and deleting -/

theorem Represents.enter {store entered : SecretStore} {vault : Vault} {workspaceId : String}
    (represents : Represents aes key store vault)
    (ensured : store.ensureWorkspaceId workspaceId = .ok entered) :
    ∃ inside, vault.enter workspaceId = some inside ∧ Represents aes key entered inside := by
  obtain ⟨free, rfl⟩ := ensureWorkspaceId_cases ensured
  refine ⟨_, if_pos (represents.workspace ▸ free), ?_⟩
  have kept : ∀ {identity value encrypted},
      Sealed aes key store.workspaceId identity value encrypted →
        Sealed aes key (some workspaceId) identity value encrypted := by
    rintro identity value encrypted ⟨workspace, nonce, isWorkspace, isEncrypted⟩
    rcases free with none | same
    · rw [none] at isWorkspace
      cases isWorkspace
    · exact ⟨workspace, nonce, same ▸ isWorkspace, isEncrypted⟩
  exact {
    workspace := rfl
    sound := fun row member => by
      obtain ⟨secret, isSecret, holds⟩ := represents.sound row member
      exact ⟨secret, isSecret, { holds with encrypted := kept holds.encrypted }⟩
    complete := represents.complete
    queued := represents.queued
    workspaces := fun row member => by
      have isWorkspace := represents.workspaces row member
      rcases free with none | same
      · rw [none] at isWorkspace
        cases isWorkspace
      · exact same ▸ isWorkspace
    givenSound := fun secret member => by
      obtain ⟨value, isValue, sealedValue⟩ := represents.givenSound secret member
      exact ⟨value, isValue, kept sealedValue⟩
    givenComplete := represents.givenComplete }

theorem Represents.refused {store : SecretStore} {vault : Vault} {workspaceId : String}
    {reason : String} (represents : Represents aes key store vault)
    (ensured : store.ensureWorkspaceId workspaceId = .error reason) :
    vault.enter workspaceId = none := by
  rw [Vault.enter, ← represents.workspace, if_neg]
  rintro (none | same) <;> simp_all [SecretStore.ensureWorkspaceId]

theorem insertSecret_error {rows : List ManagedSecretRow} {row : ManagedSecretRow}
    {reason : String} (failed : insertSecret rows row = .error reason) :
    (∀ old ∈ rows, old.identity ≠ row.identity) ∧
      secretLimit row.identity.scope ≤ scopeCount rows row.identity := by
  rw [insertSecret] at failed
  split at failed
  · cases failed
  · next absent =>
      refine ⟨by simpa using absent, ?_⟩
      rw [ensureManagedSecretCapacity] at failed
      split at failed
      · next full => exact full
      · cases failed

theorem mem_insertSecret {rows : List ManagedSecretRow} {row : ManagedSecretRow}
    {result : List ManagedSecretRow × Bool} (inserted : insertSecret rows row = .ok result)
    (new : ManagedSecretRow) :
    new ∈ result.1 ↔ new = row ∨ new ∈ rows ∧ new.identity ≠ row.identity := by
  rcases insertSecret_cases inserted with ⟨⟨old, member, same⟩, rfl⟩ | ⟨fresh, _, rfl⟩
  · rw [Table.mem_update]
    constructor
    · rintro ⟨before, present, rfl⟩
      split
      · exact .inl rfl
      · next differs => exact .inr ⟨present, by simpa using differs⟩
    · rintro (rfl | ⟨present, differs⟩)
      · exact ⟨old, member, if_pos (decide_eq_true same)⟩
      · exact ⟨new, present, if_neg (by simpa using differs)⟩
  · rw [List.mem_append, List.mem_singleton, or_comm]
    refine or_congr_right ⟨fun present => ⟨present, fresh new present⟩, And.left⟩

theorem Represents.hold {store : SecretStore} {vault : Vault} {row : ManagedSecretRow}
    {secret : PlainSecret} {result : List ManagedSecretRow × Bool}
    (represents : Represents aes key store vault)
    (distinct : (store.managedSecrets.map ManagedSecretRow.identity).Nodup)
    (holds : HoldsSecret aes key store.workspaceId row secret)
    (inserted : insertSecret store.managedSecrets row = .ok result) :
    Represents aes key { store with managedSecrets := result.1 }
      (vault.hold row.identity secret) := by
  have room : (vault.secrets row.identity).isSome ∨ vault.HasRoom row.identity := by
    rw [represents.present_iff, represents.hasRoom_iff distinct]
    rcases insertSecret_cases inserted with ⟨present, _⟩ | ⟨_, room, _⟩
    · exact .inl present
    · exact .inr room
  rw [Vault.hold, if_pos room]
  refine { represents with sound := fun new member => ?_, complete := fun identity present => ?_ }
  · rcases (mem_insertSecret inserted new).mp member with rfl | ⟨old, differs⟩
    · exact ⟨secret, Function.update_self .., holds⟩
    · obtain ⟨before, isBefore, holdsBefore⟩ := represents.sound new old
      exact ⟨before, (Function.update_of_ne differs ..).trans isBefore, holdsBefore⟩
  · by_cases same : identity = row.identity
    · exact ⟨row, (mem_insertSecret inserted row).mpr (.inl rfl), same.symm⟩
    · dsimp only at present
      rw [Function.update_of_ne same] at present
      obtain ⟨old, member, rfl⟩ := represents.complete identity present
      exact ⟨old, (mem_insertSecret inserted old).mpr (.inr ⟨member, same⟩), rfl⟩

theorem Represents.full {store : SecretStore} {vault : Vault} {row : ManagedSecretRow}
    {reason : String} (represents : Represents aes key store vault)
    (distinct : (store.managedSecrets.map ManagedSecretRow.identity).Nodup)
    (failed : insertSecret store.managedSecrets row = .error reason) (secret : PlainSecret) :
    vault.hold row.identity secret = vault := by
  obtain ⟨fresh, full⟩ := insertSecret_error failed
  rw [Vault.hold, if_neg]
  rw [represents.present_iff, represents.hasRoom_iff distinct]
  rintro (⟨old, member, same⟩ | room)
  · exact fresh old member same
  · exact absurd room (Nat.not_lt.mpr full)

theorem Represents.forget {store : SecretStore} {vault : Vault}
    (represents : Represents aes key store vault) (identity : SecretIdentity) :
    Represents aes key
      { store with
        managedSecrets := Table.delete store.managedSecrets fun row => row.identity = identity }
      (vault.forget identity) := by
  refine { represents with sound := fun row member => ?_, complete := fun other present => ?_ }
  · obtain ⟨stored, kept⟩ := Table.mem_delete.mp member
    obtain ⟨secret, isSecret, holds⟩ := represents.sound row stored
    refine ⟨secret, ?_, holds⟩
    rw [Vault.secrets_forget, if_neg (by simpa using kept)]
    exact isSecret
  · rw [Vault.secrets_forget] at present
    split at present
    · cases present
    · next differs =>
        obtain ⟨row, member, rfl⟩ := represents.complete other present
        exact ⟨row, Table.mem_delete.mpr ⟨member, by simpa using differs⟩, rfl⟩

theorem Represents.drop {store : SecretStore} {vault : Vault}
    (represents : Represents aes key store vault) (completed : List JobId) :
    Represents aes key (pruneSecrets store completed) (vault.drop completed) where
  workspace := represents.workspace
  sound := represents.sound
  complete := represents.complete
  queued jobId := by
    rw [Vault.drop, Set.mem_ofPred_eq, represents.queued]
    constructor
    · rintro ⟨⟨row, member, rfl⟩, kept⟩
      exact ⟨row, Table.mem_delete.mpr ⟨member, by simpa using kept⟩, rfl⟩
    · rintro ⟨row, member, rfl⟩
      obtain ⟨stored, kept⟩ := Table.mem_delete.mp member
      exact ⟨⟨row, stored, rfl⟩, by simpa using kept⟩
  workspaces row member := represents.workspaces row (Table.mem_delete.mp member).1
  givenSound secret member := by
    obtain ⟨stored, kept⟩ := Table.mem_delete.mp member
    obtain ⟨value, isValue, sealedValue⟩ := represents.givenSound secret stored
    refine ⟨value, ?_, sealedValue⟩
    rw [Vault.given_drop, if_neg (by simpa using kept)]
    exact isValue
  givenComplete jobId identity present := by
    rw [Vault.given_drop] at present
    split at present
    · cases present
    · next kept =>
        obtain ⟨secret, member, rfl, isIdentity⟩ := represents.givenComplete jobId identity present
        exact ⟨secret, Table.mem_delete.mpr ⟨member, by simpa using kept⟩, rfl, isIdentity⟩

/-! ### Sorting -/

theorem mem_byName {rows : List ManagedSecretRow} {row : ManagedSecretRow} :
    row ∈ byName rows ↔ row ∈ rows := List.mem_mergeSort

theorem map_name_byName {rows : List ManagedSecretRow}
    (distinct : (rows.map fun row => row.identity.name).Nodup) :
    ((byName rows).map fun row => row.identity.name).Nodup :=
  ((List.mergeSort_perm rows _).map _).nodup_iff.mpr distinct

/-- How many rows a job reads of one kind of scope. -/
theorem length_jobRows (secrets : List JobSecretRow) (jobId : JobId)
    (kind : ManagedSecretScope → Bool) :
    (byName (((secrets.filter fun secret => secret.jobId = jobId).map
        ManagedSecretRow.ofJob).filter fun secret => kind secret.identity.scope)).length =
      secrets.countP fun secret => secret.jobId = jobId ∧ kind secret.identity.scope := by
  rw [byName, List.length_mergeSort, ← List.countP_eq_length_filter, List.countP_map,
    List.countP_filter]
  refine List.countP_congr fun secret _ => ?_
  simp [ManagedSecretRow.ofJob, and_comm]

section Jobs

variable [JsText]

theorem Represents.isVisible_iff {store : SecretStore} {vault : Vault}
    (represents : Represents aes key store vault) (job : QueuedJob) (privateRepository : Bool)
    (identity : SecretIdentity) :
    vault.IsVisible job privateRepository identity ↔
      ∃ row ∈ store.managedSecrets, row.identity = identity ∧
        identity.scope = .organization ∧ identity.owner = toLowerCase job.repository.owner ∧
        row.visibleTo
          (toLowerCase job.repository.owner ++ "/" ++ toLowerCase job.repository.name)
          privateRepository = true := by
  constructor
  · rintro ⟨scope, owner, secret, isSecret, admits⟩
    obtain ⟨row, member, rfl⟩ := represents.complete identity (isSecret ▸ rfl)
    obtain ⟨held, isHeld, holds⟩ := represents.sound row member
    cases isHeld.symm.trans isSecret
    refine ⟨row, member, rfl, scope, owner, ?_⟩
    rw [ManagedSecretRow.visibleTo, holds.visibility, holds.selectedRepositories]
    exact admits
  · rintro ⟨row, member, rfl, scope, owner, admits⟩
    obtain ⟨held, isHeld, holds⟩ := represents.sound row member
    rw [ManagedSecretRow.visibleTo, holds.visibility, holds.selectedRepositories] at admits
    exact ⟨scope, owner, held, isHeld, admits⟩

/-- The visible secrets of an organization are sorted by name, and no name occurs twice. -/
theorem SecretsBounded.visible_sorted {store : SecretStore} (bounded : SecretsBounded store)
    (owner repositoryKey : String) (privateRepository : Bool) :
    (visibleOrganizationSecrets store.managedSecrets owner repositoryKey
      privateRepository).Pairwise fun left right => left.identity.name < right.identity.name := by
  refine (RankedPrefixes.pairwise_mergeSort_rank ?_).filter _
  have identities : ((store.managedSecrets.filter fun row =>
      row.identity.scope = .organization && row.identity.owner = owner).map
        ManagedSecretRow.identity).Nodup :=
    bounded.distinct.sublist (List.filter_sublist.map _)
  refine List.Nodup.map_on (fun left leftMember right rightMember sameName => ?_) identities.of_map
  refine List.inj_on_of_nodup_map identities leftMember rightMember ?_
  obtain ⟨leftStored, leftKind⟩ := List.mem_filter.mp leftMember
  obtain ⟨rightStored, rightKind⟩ := List.mem_filter.mp rightMember
  simp only [Bool.and_eq_true, decide_eq_true_eq] at leftKind rightKind
  exact identity_eq_of_key owner "" (bounded.shaped left leftStored)
    (bounded.shaped right rightStored) leftKind.2 rightKind.2 (.inl leftKind.1) (.inl rightKind.1)
    (leftKind.1.trans rightKind.1.symm) sameName

theorem Represents.mem_visible {store : SecretStore} {vault : Vault}
    (represents : Represents aes key store vault) (bounded : SecretsBounded store)
    (job : QueuedJob) (privateRepository : Bool) (row : ManagedSecretRow) :
    row ∈ visibleOrganizationSecrets store.managedSecrets (toLowerCase job.repository.owner)
        (toLowerCase job.repository.owner ++ "/" ++ toLowerCase job.repository.name)
        privateRepository ↔
      row ∈ store.managedSecrets ∧ vault.IsVisible job privateRepository row.identity := by
  rw [mem_visibleOrganizationSecrets, represents.isVisible_iff]
  constructor
  · rintro ⟨member, scope, owner, admits⟩
    exact ⟨member, row, member, rfl, scope, owner, admits⟩
  · rintro ⟨member, other, stored, same, scope, owner, admits⟩
    cases List.inj_on_of_nodup_map bounded.distinct stored member same
    exact ⟨member, scope, owner, admits⟩

theorem Represents.mem_organizationSecrets {store : SecretStore} {vault : Vault}
    (represents : Represents aes key store vault) (bounded : SecretsBounded store)
    (job : QueuedJob) (privateRepository : Bool) (row : ManagedSecretRow) :
    row ∈ organizationSecrets store.managedSecrets (toLowerCase job.repository.owner)
        (toLowerCase job.repository.owner ++ "/" ++ toLowerCase job.repository.name)
        privateRepository ↔
      row ∈ store.managedSecrets ∧ vault.IsVisible job privateRepository row.identity ∧
        {other | vault.IsVisible job privateRepository other ∧
          other.name < row.identity.name}.ncard < maxJobOrganizationSecrets := by
  rw [organizationSecrets, RankedPrefixes.mem_take_iff (bounded.visible_sorted _ _ _),
    represents.mem_visible bounded, and_assoc]
  refine and_congr_right fun _ => and_congr_right fun _ => ?_
  rw [← RankedPrefixes.ncard_eq_countP (visibleOrganizationSecrets_distinct _ _ _ bounded.distinct)]
  intro wanted
  simp only [Set.mem_ofPred_eq, decide_eq_true_eq]
  constructor
  · rintro ⟨visible, below⟩
    obtain ⟨other, stored, rfl, _⟩ := (represents.isVisible_iff _ _ _).mp visible
    exact ⟨other, (represents.mem_visible bounded job _ other).mpr ⟨stored, visible⟩, rfl, below⟩
  · rintro ⟨other, member, rfl, below⟩
    exact ⟨((represents.mem_visible bounded job _ other).mp member).2, below⟩

/-- The snapshot of a job: the rows of what the vault gives. -/
theorem Represents.mem_snapshot {store : SecretStore} {vault : Vault}
    (represents : Represents aes key store vault) (bounded : SecretsBounded store)
    (job : QueuedJob) (event : EventPayload) (privateRepository : Bool) (secret : JobSecretRow) :
    secret ∈ snapshotManagedSecrets store.managedSecrets job event privateRepository ↔
      ∃ row ∈ store.managedSecrets, secret = ⟨job.id, row.identity, row.encrypted⟩ ∧
        vault.Gives job event privateRepository row.identity := by
  rw [snapshotManagedSecrets]
  split
  · next allowed =>
      simp only [List.mem_map, List.mem_append, represents.mem_organizationSecrets bounded,
        mem_repositorySecrets, Vault.Gives, allowed, true_and, ← and_or_left]
      refine exists_congr fun row => ?_
      constructor
      · rintro ⟨⟨stored, gives⟩, same⟩
        exact ⟨stored, same.symm, gives⟩
      · rintro ⟨stored, same, gives⟩
        exact ⟨⟨stored, gives⟩, same.symm⟩
  · next refused => simp [Vault.Gives, refused]

theorem Represents.queue {store : SecretStore} {vault : Vault} {workspaceId : String}
    (represents : Represents aes key store vault) (bounded : SecretsBounded store)
    (isWorkspace : store.workspaceId = some workspaceId) (job : QueuedJob) (event : EventPayload)
    (privateRepository : Bool) (fresh : ∀ row ∈ store.jobs, row.job.id ≠ job.id) :
    Represents aes key (queuedStore store workspaceId job event privateRepository)
      (vault.queue job event privateRepository) := by
  have free : job.id ∉ vault.queued := fun queued => by
    obtain ⟨row, member, same⟩ := (represents.queued job.id).mp queued
    exact fresh row member same
  have others := bounded.unqueued fresh
  have given := vault.given_queue job event privateRepository free
  have rest : (vault.queue job event privateRepository).workspaceId = vault.workspaceId ∧
      (vault.queue job event privateRepository).secrets = vault.secrets ∧
      (vault.queue job event privateRepository).queued = insert job.id vault.queued := by
    rw [Vault.queue, if_neg free]
    exact ⟨rfl, rfl, rfl⟩
  obtain ⟨workspace, secrets, queued⟩ := rest
  exact {
    workspace := represents.workspace.trans workspace.symm
    sound := secrets ▸ represents.sound
    complete := secrets ▸ represents.complete
    queued := fun jobId => by
      rw [queued, Set.mem_insert_iff, represents.queued]
      simp only [queuedStore, List.mem_append, List.mem_singleton, or_and_right, exists_or,
        exists_eq_left]
      rw [or_comm, eq_comm]
    workspaces := fun row member => by
      rcases List.mem_append.mp member with present | isNew
      · exact represents.workspaces row present
      · rw [List.mem_singleton.mp isNew]
        exact isWorkspace
    givenSound := fun secret member => by
      rcases List.mem_append.mp member with present | added
      · obtain ⟨value, isValue, sealedValue⟩ := represents.givenSound secret present
        refine ⟨value, ?_, sealedValue⟩
        rw [given, if_neg (others secret present)]
        exact isValue
      · obtain ⟨row, stored, rfl, gives⟩ :=
          (represents.mem_snapshot bounded job event privateRepository secret).mp added
        obtain ⟨held, isHeld, holds⟩ := represents.sound row stored
        refine ⟨held.value, ?_, holds.encrypted⟩
        rw [given, if_pos rfl, Vault.gift, if_pos gives, isHeld]
        rfl
    givenComplete := fun jobId identity present => by
      rw [given] at present
      split at present
      · next isJob =>
          rw [Vault.gift] at present
          split at present
          · next gives =>
              rw [Option.isSome_map] at present
              obtain ⟨row, stored, rfl⟩ := represents.complete identity present
              have added := (represents.mem_snapshot bounded job event privateRepository _).mpr
                ⟨row, stored, rfl, gives⟩
              exact ⟨_, List.mem_append_right _ added, isJob.symm, rfl⟩
          · cases present
      · obtain ⟨secret, member, rest⟩ := represents.givenComplete jobId identity present
        exact ⟨secret, List.mem_append_left _ member, rest⟩ }

/-! ### Runs -/

/-- Tables and vault take each request in step. -/
theorem secretStep_represents {store : SecretStore} {vault : Vault}
    (represents : Represents aes key store vault) (bounded : SecretsBounded store)
    (event : SecretEvent) :
    Represents aes key (secretStep aes key store event) (vaultStep vault event) := by
  cases event with
  | put workspaceId untrustedInput nonce =>
      rw [secretStep, putManagedSecret, vaultStep]
      split
      · next ensured => rw [represents.refused ensured]; exact represents
      · next ensured =>
          obtain ⟨inside, isInside, entered⟩ := represents.enter ensured
          have distinct := (bounded.enter ensured).distinct
          have isWorkspace := (ensureWorkspaceId_cases ensured).2
          rw [isInside]
          split
          · next invalid => rw [invalid]; exact entered
          · next input valid =>
              rw [valid]
              dsimp only
              split
              · exact entered
              · have holds : HoldsSecret aes key (some workspaceId)
                    (sealedRow aes key workspaceId input nonce)
                    ⟨input.visibility, input.selectedRepositories, input.value⟩ :=
                  ⟨rfl, rfl, workspaceId, nonce, rfl, rfl⟩
                split
                · next failed => exact (entered.full distinct failed _).symm ▸ entered
                · next inserted =>
                    refine entered.hold distinct ?_ inserted
                    rw [isWorkspace]
                    exact holds
  | delete workspaceId untrustedIdentity =>
      rw [secretStep, deleteManagedSecret, vaultStep]
      split
      · next ensured => rw [represents.refused ensured]; exact represents
      · next ensured =>
          obtain ⟨inside, isInside, entered⟩ := represents.enter ensured
          rw [isInside]
          split
          · next invalid => rw [invalid]; exact entered
          · next identity valid =>
              rw [valid]
              exact entered.forget _
  | enqueue workspaceId job event privateRepository =>
      rw [secretStep, enqueueSecrets, vaultStep]
      split
      · next ensured => rw [represents.refused ensured]; exact represents
      · next ensured =>
          obtain ⟨inside, isInside, entered⟩ := represents.enter ensured
          have inner := bounded.enter ensured
          have isWorkspace := (ensureWorkspaceId_cases ensured).2
          rw [isInside]
          split
          · next taken =>
              obtain ⟨row, member, same⟩ := List.any_eq_true.mp taken
              have queued := (entered.queued job.id).mpr ⟨row, member, of_decide_eq_true same⟩
              dsimp only
              rw [Vault.queue, if_pos queued]
              exact entered
          · next free =>
              have fresh := by simpa using free
              dsimp only
              rw [inner.enqueueSecrets_eq workspaceId job event privateRepository fresh]
              exact entered.queue inner (by rw [isWorkspace]) job event privateRepository fresh
  | prune completed => exact represents.drop completed

/-- The encrypted tables refine the vault. -/
theorem secretRun_represents (events : List SecretEvent) :
    Represents aes key (Machine.run (secretStep aes key) {} events)
      (Machine.run vaultStep .empty events) := by
  have both : ∀ (events : List SecretEvent) (store : SecretStore) (vault : Vault),
      Represents aes key store vault → SecretsBounded store →
        Represents aes key (Machine.run (secretStep aes key) store events)
          (Machine.run vaultStep vault events) := by
    intro events
    induction events with
    | nil => exact fun _ _ represents _ => represents
    | cons event events inductionHypothesis =>
        intro store vault represents bounded
        exact inductionHypothesis _ _ (secretStep_represents represents bounded event)
          (secretStep_bounded aes key bounded event)
  exact both events {} .empty (.empty aes key) .empty

/-! ### Delivery -/

/-- What a queued job was given has one of two identities for each name. -/
theorem SecretsBounded.job_identity {store : SecretStore} (bounded : SecretsBounded store)
    {row : SecretJob} (queued : row ∈ store.jobs) {secret : JobSecretRow}
    (member : secret ∈ store.jobSecrets) (isJob : secret.jobId = row.job.id) :
    secret.identity =
        ⟨.organization, toLowerCase row.job.repository.owner, "", "", secret.identity.name⟩ ∨
      secret.identity = ⟨.repository, toLowerCase row.job.repository.owner,
        toLowerCase row.job.repository.name, "", secret.identity.name⟩ := by
  obtain ⟨other, stored, isOther, shaped, owner, scope⟩ := bounded.live secret member
  cases List.inj_on_of_nodup_map bounded.jobs stored queued (isOther.trans isJob)
  rcases scope with organization | ⟨isRepository, isName⟩
  · left
    exact SecretIdentity.ext_inScopeOf (SecretIdentity.inScopeOf_iff.mpr ⟨organization, owner,
      shaped.1 organization, shaped.2 (by rw [organization]; decide)⟩) rfl
  · right
    exact SecretIdentity.ext_inScopeOf (SecretIdentity.inScopeOf_iff.mpr ⟨isRepository, owner,
      isName, shaped.2 (by rw [isRepository]; decide)⟩) rfl

/-- What a job was given of one kind of scope. -/
theorem Represents.jobPart {store : SecretStore} {vault : Vault}
    (represents : Represents aes key store vault) (bounded : SecretsBounded store)
    {row : SecretJob} (queued : row ∈ store.jobs) (kind : ManagedSecretScope → Bool)
    (identity : String → SecretIdentity) (named : ∀ name, (identity name).name = name)
    (kinds : ∀ name, kind (identity name).scope = true)
    (only : ∀ secret ∈ store.jobSecrets, secret.jobId = row.job.id →
      kind secret.identity.scope = true → secret.identity = identity secret.identity.name) :
    Part aes key row.workspaceId
      (byName (((store.jobSecrets.filter fun secret => secret.jobId = row.job.id).map
        ManagedSecretRow.ofJob).filter fun secret => kind secret.identity.scope))
      (fun name => vault.given row.job.id (identity name)) := by
  have workspace := represents.workspaces row queued
  refine ⟨map_name_byName ?_, fun secret member => ?_, fun name present => ?_⟩
  · rw [List.filter_map, List.map_map]
    refine List.Nodup.map_on (fun left leftMember right rightMember sameName => ?_)
      ((bounded.keys.of_map.filter _).filter _)
    simp only [List.mem_filter, decide_eq_true_eq, Function.comp_apply] at leftMember rightMember
    obtain ⟨⟨leftStored, leftJob⟩, leftKind⟩ := leftMember
    obtain ⟨⟨rightStored, rightJob⟩, rightKind⟩ := rightMember
    refine List.inj_on_of_nodup_map bounded.keys leftStored rightStored ?_
    have leftIdentity := only left leftStored leftJob leftKind
    have rightIdentity := only right rightStored rightJob rightKind
    have same : left.identity = right.identity := by
      rw [leftIdentity, rightIdentity]
      exact congrArg identity sameName
    simp only [JobSecretRow.key, leftJob, rightJob, same]
  · rw [mem_byName, List.mem_filter, List.mem_map] at member
    obtain ⟨⟨given, listed, rfl⟩, isKind⟩ := member
    obtain ⟨stored, isJob⟩ := List.mem_filter.mp listed
    obtain ⟨value, isValue, sealedValue⟩ := represents.givenSound given stored
    rw [workspace] at sealedValue
    refine ⟨value, ?_, sealedValue⟩
    have isIdentity := only given stored (of_decide_eq_true isJob) isKind
    rw [← of_decide_eq_true isJob]
    exact (congrArg (vault.given given.jobId) isIdentity.symm).trans isValue
  · obtain ⟨given, stored, isJob, isIdentity⟩ := represents.givenComplete _ _ present
    refine ⟨ManagedSecretRow.ofJob given, ?_, ?_⟩
    · rw [mem_byName, List.mem_filter, List.mem_map]
      refine ⟨⟨given, List.mem_filter.mpr ⟨stored, decide_eq_true isJob⟩, rfl⟩, ?_⟩
      change kind given.identity.scope = true
      rw [isIdentity]
      exact kinds name
    · change given.identity.name = name
      rw [isIdentity, named]

theorem Represents.environmentPart {store : SecretStore} {vault : Vault}
    (represents : Represents aes key store vault) (bounded : SecretsBounded store)
    {row : SecretJob} (queued : row ∈ store.jobs) (owner repository environment : String) :
    Part aes key row.workspaceId
      (environmentSecrets store.managedSecrets owner repository environment)
      (fun name => (vault.secrets ⟨.environment, owner, repository, environment, name⟩).map
        PlainSecret.value) := by
  have workspace := represents.workspaces row queued
  refine ⟨map_name_byName ?_, fun secret member => ?_, fun name present => ?_⟩
  · refine List.Nodup.map_on (fun left leftMember right rightMember sameName => ?_)
      (bounded.distinct.of_map.filter _)
    simp only [List.mem_filter, Bool.and_eq_true, decide_eq_true_eq] at leftMember rightMember
    obtain ⟨leftStored, ⟨⟨leftScope, leftOwner⟩, leftRepository⟩, leftEnvironment⟩ := leftMember
    obtain ⟨rightStored, ⟨⟨rightScope, rightOwner⟩, rightRepository⟩, rightEnvironment⟩ :=
      rightMember
    refine List.inj_on_of_nodup_map bounded.distinct leftStored rightStored
      (SecretIdentity.ext_inScopeOf (SecretIdentity.inScopeOf_iff.mpr ⟨?_, ?_, ?_, ?_⟩) sameName)
    · rw [leftScope, rightScope]
    · rw [leftOwner, rightOwner]
    · rw [leftRepository, rightRepository]
    · rw [leftEnvironment, rightEnvironment]
  · obtain ⟨stored, scope, isOwner, isRepository, isEnvironment⟩ :=
      mem_environmentSecrets.mp member
    obtain ⟨held, isHeld, holds⟩ := represents.sound secret stored
    have sealedValue := holds.encrypted
    rw [workspace] at sealedValue
    refine ⟨held.value, ?_, sealedValue⟩
    rw [← scope, ← isOwner, ← isRepository, ← isEnvironment]
    exact congrArg (Option.map PlainSecret.value) isHeld
  · rw [Option.isSome_map] at present
    obtain ⟨secret, stored, isIdentity⟩ := represents.complete _ present
    refine ⟨secret, mem_environmentSecrets.mpr ⟨stored, ?_⟩, ?_⟩ <;> simp [isIdentity]

/-- What a job is told, whatever happened before: nothing fails, and every name means what the
vault says it means to the job. -/
structure Told (aes : Aead) (key : aes.Key) (store : SecretStore) (vault : Vault)
    (row : SecretJob) (environment : Option String) (secrets : List (String × JsString)) :
    Prop where
  granted : managedSecretsForJob aes key store row environment = some secrets
  names : (secrets.map Prod.fst).Nodup
  few : secrets.length ≤
    maxJobOrganizationSecrets + maxRepositorySecrets + maxEnvironmentSecrets
  lookup : ∀ name, secrets.lookup name =
    (vault.delivers row.job environment name).map JsString.delivered

theorem Represents.told {store : SecretStore} {vault : Vault}
    (represents : Represents aes key store vault) (bounded : SecretsBounded store)
    {row : SecretJob} (queued : row ∈ store.jobs) (environment : Option String) :
    ∃ secrets, Told aes key store vault row environment secrets := by
  have organization := represents.jobPart bounded queued (fun scope => scope = .organization)
    (fun name => ⟨.organization, toLowerCase row.job.repository.owner, "", "", name⟩)
    (fun _ => rfl) (fun _ => rfl) (fun secret member isJob isKind => by
      rcases bounded.job_identity queued member isJob with same | same
      · exact same
      · rw [same] at isKind
        cases isKind)
  have repository := represents.jobPart bounded queued (fun scope => scope ≠ .organization)
    (fun name => ⟨.repository, toLowerCase row.job.repository.owner,
      toLowerCase row.job.repository.name, "", name⟩)
    (fun _ => rfl) (fun _ => rfl) (fun secret member isJob isKind => by
      rcases bounded.job_identity queued member isJob with same | same
      · rw [same] at isKind
        cases isKind
      · exact same)
  have nothing : (([] : List (String × JsString)).map Prod.fst).Nodup := List.nodup_nil
  obtain ⟨first, isFirst, assignedFirst⟩ := organization.assigned nothing
  obtain ⟨second, isSecond, assignedSecond⟩ := repository.assigned assignedFirst.names
  have environmentRows : ∃ rows meaning, secretRowsForJob store row.job environment =
      byName (((store.jobSecrets.filter fun secret => secret.jobId = row.job.id).map
          ManagedSecretRow.ofJob).filter fun secret =>
            decide (secret.identity.scope = .organization)) ++
        byName (((store.jobSecrets.filter fun secret => secret.jobId = row.job.id).map
          ManagedSecretRow.ofJob).filter fun secret =>
            decide (secret.identity.scope ≠ .organization)) ++ rows ∧
      (∀ name, meaning name = environment.bind fun environment =>
        (vault.secrets ⟨.environment, toLowerCase row.job.repository.owner,
          toLowerCase row.job.repository.name, toLowerCase environment, name⟩).map
            PlainSecret.value) ∧
      rows.length ≤ maxEnvironmentSecrets ∧ Part aes key row.workspaceId rows meaning := by
    cases environment with
    | none =>
        refine ⟨[], fun _ => none, rfl, fun _ => rfl, Nat.zero_le _, List.nodup_nil, ?_, ?_⟩
        · exact fun _ member => nomatch member
        · exact fun _ present => nomatch present
    | some environment =>
        exact ⟨_, _, rfl, fun _ => rfl, bounded.environmentSecrets_length _ _ _,
          represents.environmentPart bounded queued _ _ _⟩
  obtain ⟨rows, meaning, isRows, means, few, part⟩ := environmentRows
  obtain ⟨third, isThird, assignedThird⟩ := part.assigned assignedSecond.names
  refine ⟨third, ?_, assignedThird.names, ?_, fun name => ?_⟩
  · rw [managedSecretsForJob, isRows, List.foldlM_append, List.foldlM_append]
    change (assignAll aes key row.workspaceId _ [] >>= fun secrets =>
      assignAll aes key row.workspaceId _ secrets) >>= (fun secrets =>
        assignAll aes key row.workspaceId rows secrets) = some third
    rw [isFirst, Option.bind_eq_bind, Option.bind_some, isSecond]
    exact isThird
  · have firstRows := length_jobRows store.jobSecrets row.job.id fun scope =>
      scope = .organization
    have secondRows := length_jobRows store.jobSecrets row.job.id fun scope =>
      scope ≠ .organization
    simp only [decide_eq_true_eq] at firstRows secondRows
    have organizations := firstRows.trans_le (bounded.organizations row.job.id)
    have repositories := secondRows.trans_le (bounded.repositories row.job.id)
    have firstFew := assignedFirst.few.trans (Nat.add_le_add_left organizations _)
    have secondFew := assignedSecond.few.trans (Nat.add_le_add_left repositories _)
    have thirdFew := assignedThird.few.trans (Nat.add_le_add_left few _)
    rw [List.length_nil] at firstFew
    omega
  · rw [assignedThird.lookup, assignedSecond.lookup, assignedFirst.lookup, means, Vault.delivers]
    generalize (environment.bind _) = ofEnvironment
    generalize vault.given row.job.id ⟨.repository, _, _, _, _⟩ = ofRepository
    generalize vault.given row.job.id ⟨.organization, _, _, _, _⟩ = ofOrganization
    cases ofEnvironment <;> cases ofRepository <;> cases ofOrganization <;> rfl

/-- Whatever secrets are put, replaced and deleted, and whatever jobs are queued and pruned: a
job that is still there is told what the vault says. -/
theorem secrets_delivered (events : List SecretEvent) :
    let store := Machine.run (secretStep aes key) {} events
    ∀ row ∈ store.jobs, ∀ environment, ∃ secrets,
      Told aes key store (Machine.run vaultStep .empty events) row environment secrets :=
  fun _ queued environment =>
    (secretRun_represents events).told (secretRun_bounded aes key events) queued environment

end Jobs

end Cipher

namespace Sample

open Ascii

/-- A secret of the repository is replaced after job 1 was queued. -/
def replacedSecret : List SecretEvent :=
  [.put "w" (.repository "Owner" "name" "token" (.ofScalars ['o', 'l', 'd'])) [],
    .put "w" (.environment "owner" "name" "prod" "TOKEN" (.ofScalars ['p'])) [],
    .enqueue "w" { Ascii.job 1 with reportToGithub := true }
      { repositoryFullName := "owner/name", headRepositoryFullName := "owner/name",
        pullRequestAuthor := "author" } false,
    .put "w" (.repository "owner" "name" "TOKEN" (.ofScalars ['n', 'e', 'w'])) []]

def replacedSecretJob : SecretJob := ⟨"w", { Ascii.job 1 with reportToGithub := true }⟩

theorem replacedSecret_queued : replacedSecretJob ∈
    (Machine.run (secretStep framed ()) {} replacedSecret).jobs :=
  List.mem_singleton_self _

theorem replacedSecret_told : ∃ secrets,
    Told framed () (Machine.run (secretStep framed ()) {} replacedSecret)
      (Machine.run vaultStep .empty replacedSecret) replacedSecretJob (some "Prod") secrets :=
  secrets_delivered replacedSecret _ replacedSecret_queued _

end Sample

end GitZero.ControlPlane
