/-
Module: GitZero.Proofs.SecretBounds
Purpose: What every run keeps of the tables of the managed secrets, and that the agent accepts
  whatever they grant.
Trusted boundary: AES-GCM, as `Aead` describes it
Main exports: SecretsBounded, secretStep_bounded, secretRun_bounded
-/
import GitZero.ControlPlane.SecretStore
import GitZero.Proofs.SecretEncryption
import GitZero.Lib.RankedPrefixes

namespace GitZero.ControlPlane

/-! ### Rows -/

/-- A normalized identity leaves empty what its scope does not have. -/
def SecretIdentity.Shaped (identity : SecretIdentity) : Prop :=
  (identity.scope = .organization → identity.repository = "") ∧
    (identity.scope ≠ .environment → identity.environment = "")

theorem SecretIdentity.inScopeOf_iff {identity other : SecretIdentity} :
    identity.inScopeOf other = true ↔ identity.scope = other.scope ∧
      identity.owner = other.owner ∧ identity.repository = other.repository ∧
      identity.environment = other.environment := by
  simp [inScopeOf, and_assoc]

theorem SecretIdentity.ext_inScopeOf {identity other : SecretIdentity}
    (together : identity.inScopeOf other = true) (sameName : identity.name = other.name) :
    identity = other := by
  obtain ⟨scope, owner, repository, environment⟩ := inScopeOf_iff.mp together
  cases identity
  cases other
  simp_all

/-- How many secrets the scope of `identity` holds. -/
def scopeCount (rows : List ManagedSecretRow) (identity : SecretIdentity) : Nat :=
  rows.countP fun row => row.identity.inScopeOf identity

theorem scopeCount_congr {rows : List ManagedSecretRow} {identity other : SecretIdentity}
    (together : identity.inScopeOf other = true) :
    scopeCount rows identity = scopeCount rows other := by
  obtain ⟨scope, owner, repository, environment⟩ := SecretIdentity.inScopeOf_iff.mp together
  simp only [scopeCount, SecretIdentity.inScopeOf, scope, owner, repository, environment]

/-- What a transaction that succeeds does to the table. -/
theorem insertSecret_cases {rows : List ManagedSecretRow} {row : ManagedSecretRow}
    {result : List ManagedSecretRow × Bool} (inserted : insertSecret rows row = .ok result) :
    ((∃ old ∈ rows, old.identity = row.identity) ∧ result =
        (Table.update rows (fun old => old.identity = row.identity) fun _ => row, false)) ∨
      ((∀ old ∈ rows, old.identity ≠ row.identity) ∧
        scopeCount rows row.identity < secretLimit row.identity.scope ∧
        result = (rows ++ [row], true)) := by
  rw [insertSecret] at inserted
  split at inserted
  · next present =>
      refine .inl ⟨?_, (Except.ok.inj inserted).symm⟩
      simpa using present
  · next absent =>
      refine .inr ⟨by simpa using absent, ?_⟩
      rw [ensureManagedSecretCapacity] at inserted
      split at inserted
      · cases inserted
      · next room => exact ⟨Nat.lt_of_not_le room, (Except.ok.inj inserted).symm⟩

theorem scopeCount_update (rows : List ManagedSecretRow) (row : ManagedSecretRow)
    (identity : SecretIdentity) :
    scopeCount (Table.update rows (fun old => old.identity = row.identity) fun _ => row) identity =
      scopeCount rows identity := by
  rw [scopeCount, Table.update, List.countP_map]
  refine List.countP_congr fun old _ => ?_
  simp only [Function.comp_apply, decide_eq_true_eq]
  split
  · next same => rw [same]
  · rfl

theorem ensureWorkspaceId_cases {store entered : SecretStore} {workspaceId : String}
    (ensured : store.ensureWorkspaceId workspaceId = .ok entered) :
    (store.workspaceId = none ∨ store.workspaceId = some workspaceId) ∧
      entered = { store with workspaceId := some workspaceId } := by
  rw [SecretStore.ensureWorkspaceId] at ensured
  split at ensured
  · next absent => exact ⟨.inl absent, (Except.ok.inj ensured).symm⟩
  · next stored isStored =>
      split at ensured
      · next same =>
          cases store
          cases ensured
          simp_all
      · cases ensured

/-! ### The secrets of a job -/

theorem mem_visibleOrganizationSecrets {rows : List ManagedSecretRow}
    {owner repositoryKey : String} {privateRepository : Bool} {row : ManagedSecretRow} :
    row ∈ visibleOrganizationSecrets rows owner repositoryKey privateRepository ↔ row ∈ rows ∧
      row.identity.scope = .organization ∧ row.identity.owner = owner ∧
      row.visibleTo repositoryKey privateRepository = true := by
  rw [visibleOrganizationSecrets, List.mem_filter, byName, List.mem_mergeSort, List.mem_filter]
  simp [and_assoc]

theorem mem_organizationSecrets {rows : List ManagedSecretRow} {owner repositoryKey : String}
    {privateRepository : Bool} {row : ManagedSecretRow}
    (member : row ∈ organizationSecrets rows owner repositoryKey privateRepository) :
    row ∈ rows ∧ row.identity.scope = .organization ∧ row.identity.owner = owner := by
  obtain ⟨stored, scope, isOwner, _⟩ :=
    mem_visibleOrganizationSecrets.mp (List.mem_of_mem_take member)
  exact ⟨stored, scope, isOwner⟩

theorem mem_repositorySecrets {rows : List ManagedSecretRow} {owner repository : String}
    {row : ManagedSecretRow} :
    row ∈ repositorySecrets rows owner repository ↔ row ∈ rows ∧
      row.identity.scope = .repository ∧ row.identity.owner = owner ∧
      row.identity.repository = repository := by
  rw [repositorySecrets, byName, List.mem_mergeSort, List.mem_filter]
  simp [and_assoc]

theorem mem_environmentSecrets {rows : List ManagedSecretRow}
    {owner repository environment : String} {row : ManagedSecretRow} :
    row ∈ environmentSecrets rows owner repository environment ↔ row ∈ rows ∧
      row.identity.scope = .environment ∧ row.identity.owner = owner ∧
      row.identity.repository = repository ∧ row.identity.environment = environment := by
  rw [environmentSecrets, byName, List.mem_mergeSort, List.mem_filter]
  simp [and_assoc]

theorem organizationSecrets_length (rows : List ManagedSecretRow) (owner repositoryKey : String)
    (privateRepository : Bool) :
    (organizationSecrets rows owner repositoryKey privateRepository).length ≤
      maxJobOrganizationSecrets := by
  rw [organizationSecrets, List.length_take]
  exact Nat.min_le_left _ _

theorem map_identity_byName {rows : List ManagedSecretRow}
    (distinct : (rows.map ManagedSecretRow.identity).Nodup) :
    ((byName rows).map ManagedSecretRow.identity).Nodup :=
  ((List.mergeSort_perm rows _).map _).nodup_iff.mpr distinct

/-- Secrets of one job differ in scope or name. -/
theorem identity_eq_of_key (owner repository : String) {left right : SecretIdentity}
    (leftShaped : left.Shaped) (rightShaped : right.Shaped) (leftOwner : left.owner = owner)
    (rightOwner : right.owner = owner)
    (leftScope : left.scope = .organization ∨
      left.scope = .repository ∧ left.repository = repository)
    (rightScope : right.scope = .organization ∨
      right.scope = .repository ∧ right.repository = repository)
    (sameScope : left.scope = right.scope) (sameName : left.name = right.name) :
    left = right := by
  refine SecretIdentity.ext_inScopeOf (SecretIdentity.inScopeOf_iff.mpr
    ⟨sameScope, leftOwner.trans rightOwner.symm, ?_, ?_⟩) sameName
  · rcases leftScope with organization | ⟨isRepository, leftRepository⟩
    · rw [leftShaped.1 organization, rightShaped.1 (sameScope ▸ organization)]
    · rcases rightScope with organization | ⟨_, rightRepository⟩
      · exact absurd (isRepository.symm.trans (sameScope.trans organization)) (by decide)
      · rw [leftRepository, rightRepository]
  · have leftInside : left.scope ≠ .environment := by
      rcases leftScope with scope | ⟨scope, _⟩ <;> rw [scope] <;> decide
    rw [leftShaped.2 leftInside, rightShaped.2 (sameScope ▸ leftInside)]

theorem visibleOrganizationSecrets_distinct {rows : List ManagedSecretRow}
    (owner repositoryKey : String) (privateRepository : Bool)
    (distinct : (rows.map ManagedSecretRow.identity).Nodup) :
    ((visibleOrganizationSecrets rows owner repositoryKey privateRepository).map
      ManagedSecretRow.identity).Nodup :=
  (map_identity_byName (distinct.sublist (List.filter_sublist.map _))).sublist
    (List.filter_sublist.map _)

theorem foldl_insertOrReplace {rows added : List JobSecretRow}
    (distinct : (added.map JobSecretRow.key).Nodup)
    (fresh : ∀ row ∈ added, ∀ old ∈ rows, old.key ≠ row.key) :
    added.foldl insertOrReplace rows = rows ++ added := by
  induction added generalizing rows with
  | nil => simp
  | cons row added inductionHypothesis =>
      obtain ⟨first, rest⟩ := List.nodup_cons.mp distinct
      have kept : insertOrReplace rows row = rows ++ [row] := by
        rw [insertOrReplace, Table.delete, List.filter_eq_self.mpr]
        intro old member
        simpa using fresh row List.mem_cons_self old member
      rw [List.foldl_cons, kept, inductionHypothesis rest, List.append_assoc, List.singleton_append]
      intro new newMember old oldMember
      rcases List.mem_append.mp oldMember with present | isRow
      · exact fresh new (List.mem_cons_of_mem _ newMember) old present
      · rw [List.mem_singleton.mp isRow]
        exact fun same => first (same ▸ List.mem_map_of_mem newMember)

section Texts

variable [JsText]

theorem normalizedSecretIdentity_shaped (identity : ManagedSecretIdentity) :
    (normalizedSecretIdentity identity).Shaped := by
  cases identity <;> simp [normalizedSecretIdentity, SecretIdentity.Shaped]

/-- What holds of the tables between any two events. -/
structure SecretsBounded (store : SecretStore) : Prop where
  distinct : (store.managedSecrets.map ManagedSecretRow.identity).Nodup
  shaped : ∀ row ∈ store.managedSecrets, row.identity.Shaped
  limits : ∀ identity, scopeCount store.managedSecrets identity ≤ secretLimit identity.scope
  jobs : (store.jobs.map fun row => row.job.id).Nodup
  keys : (store.jobSecrets.map JobSecretRow.key).Nodup
  /-- A job is given secrets of its owner and its repository only. -/
  live : ∀ secret ∈ store.jobSecrets, ∃ row ∈ store.jobs, row.job.id = secret.jobId ∧
    secret.identity.Shaped ∧ secret.identity.owner = toLowerCase row.job.repository.owner ∧
    (secret.identity.scope = .organization ∨ secret.identity.scope = .repository ∧
      secret.identity.repository = toLowerCase row.job.repository.name)
  organizations : ∀ jobId, store.jobSecrets.countP (fun secret =>
    secret.jobId = jobId ∧ secret.identity.scope = .organization) ≤ maxJobOrganizationSecrets
  repositories : ∀ jobId, store.jobSecrets.countP (fun secret =>
    secret.jobId = jobId ∧ secret.identity.scope ≠ .organization) ≤ maxRepositorySecrets

theorem SecretsBounded.empty : SecretsBounded {} where
  distinct := List.nodup_nil
  shaped _ member := nomatch member
  limits _ := Nat.zero_le _
  jobs := List.nodup_nil
  keys := List.nodup_nil
  live _ member := nomatch member
  organizations _ := Nat.zero_le _
  repositories _ := Nat.zero_le _

/-! ### Putting and deleting -/

theorem SecretsBounded.insert {store : SecretStore} {row : ManagedSecretRow}
    {result : List ManagedSecretRow × Bool} (bounded : SecretsBounded store)
    (rowShaped : row.identity.Shaped)
    (inserted : insertSecret store.managedSecrets row = .ok result) :
    SecretsBounded { store with managedSecrets := result.1 } := by
  rcases insertSecret_cases inserted with ⟨_, rfl⟩ | ⟨fresh, room, rfl⟩
  · refine { bounded with distinct := ?_, shaped := ?_, limits := fun identity => ?_ }
    · exact Table.nodup_key_update (fun old _ same => (of_decide_eq_true same).symm)
        bounded.distinct
    · exact Table.forall_update bounded.shaped fun _ _ _ _ => rowShaped
    · rw [scopeCount_update]
      exact bounded.limits identity
  · refine { bounded with distinct := ?_, shaped := ?_, limits := fun identity => ?_ }
    · rw [List.map_append, List.nodup_append]
      refine ⟨bounded.distinct, List.nodup_singleton _, ?_⟩
      rintro _ present _ new rfl
      obtain ⟨old, member, same⟩ := List.mem_map.mp present
      exact fresh old member (same.trans (List.mem_singleton.mp new))
    · intro old member
      rcases List.mem_append.mp member with present | new
      · exact bounded.shaped old present
      · rw [List.mem_singleton.mp new]
        exact rowShaped
    · rw [scopeCount, List.countP_append, List.countP_singleton]
      by_cases together : row.identity.inScopeOf identity = true
      · -- The row counts here, and the check was about the same scope.
        rw [if_pos together, ← scopeCount, ← scopeCount_congr together,
          ← (SecretIdentity.inScopeOf_iff.mp together).1]
        exact room
      · rw [if_neg together, Nat.add_zero]
        exact bounded.limits identity

theorem SecretsBounded.delete {store : SecretStore} (bounded : SecretsBounded store)
    (gone : ManagedSecretRow → Bool) :
    SecretsBounded { store with managedSecrets := Table.delete store.managedSecrets gone } where
  distinct := bounded.distinct.sublist (List.filter_sublist.map _)
  shaped := Table.forall_delete bounded.shaped
  limits identity := (List.filter_sublist.countP_le).trans (bounded.limits identity)
  jobs := bounded.jobs
  keys := bounded.keys
  live := bounded.live
  organizations := bounded.organizations
  repositories := bounded.repositories

/-! ### Queueing a job -/

/-- What the snapshot of a job holds, and of which rows. -/
theorem mem_snapshot {rows : List ManagedSecretRow} {job : QueuedJob} {event : EventPayload}
    {privateRepository : Bool} {secret : JobSecretRow}
    (member : secret ∈ snapshotManagedSecrets rows job event privateRepository) :
    ∃ row ∈ rows, secret = ⟨job.id, row.identity, row.encrypted⟩ ∧
      row.identity.owner = toLowerCase job.repository.owner ∧
      (row.identity.scope = .organization ∨ row.identity.scope = .repository ∧
        row.identity.repository = toLowerCase job.repository.name) := by
  rw [snapshotManagedSecrets] at member
  split at member
  · obtain ⟨row, listed, rfl⟩ := List.mem_map.mp member
    rcases List.mem_append.mp listed with organization | repository
    · obtain ⟨present, scope, owner⟩ := mem_organizationSecrets organization
      exact ⟨row, present, rfl, owner, .inl scope⟩
    · obtain ⟨present, scope, owner, name⟩ := mem_repositorySecrets.mp repository
      exact ⟨row, present, rfl, owner, .inr ⟨scope, name⟩⟩
  · nomatch member

theorem snapshot_keys {rows : List ManagedSecretRow} (job : QueuedJob) (event : EventPayload)
    (privateRepository : Bool) (distinct : (rows.map ManagedSecretRow.identity).Nodup)
    (shaped : ∀ row ∈ rows, row.identity.Shaped) :
    ((snapshotManagedSecrets rows job event privateRepository).map JobSecretRow.key).Nodup := by
  have identities : ((snapshotManagedSecrets rows job event privateRepository).map
      JobSecretRow.identity).Nodup := by
    rw [snapshotManagedSecrets]
    split
    · rw [List.map_map, List.map_append, List.nodup_append]
      refine ⟨?_, ?_, ?_⟩
      · exact (visibleOrganizationSecrets_distinct _ _ _ distinct).sublist
          ((List.take_sublist _ _).map _)
      · exact map_identity_byName (distinct.sublist (List.filter_sublist.map _))
      · intro left leftMember right rightMember same
        obtain ⟨organization, listed, rfl⟩ := List.mem_map.mp leftMember
        obtain ⟨repository, present, rfl⟩ := List.mem_map.mp rightMember
        have first := (mem_organizationSecrets listed).2.1
        have second := (mem_repositorySecrets.mp present).2.1
        have scopes : organization.identity.scope = repository.identity.scope :=
          congrArg SecretIdentity.scope same
        rw [first, second] at scopes
        cases scopes
    · exact List.nodup_nil
  refine List.Nodup.map_on (fun left leftMember right rightMember same => ?_) identities.of_map
  refine List.inj_on_of_nodup_map identities leftMember rightMember ?_
  obtain ⟨leftRow, leftPresent, rfl, leftOwner, leftScope⟩ := mem_snapshot leftMember
  obtain ⟨rightRow, rightPresent, rfl, rightOwner, rightScope⟩ := mem_snapshot rightMember
  simp only [JobSecretRow.key, Prod.mk.injEq, true_and] at same
  exact identity_eq_of_key _ _ (shaped leftRow leftPresent) (shaped rightRow rightPresent)
    leftOwner rightOwner leftScope rightScope same.1 same.2

theorem SecretsBounded.repositorySecrets_length {store : SecretStore}
    (bounded : SecretsBounded store) (owner repository : String) :
    (repositorySecrets store.managedSecrets owner repository).length ≤ maxRepositorySecrets := by
  rw [repositorySecrets, byName, List.length_mergeSort, ← List.countP_eq_length_filter]
  refine (List.countP_mono_left fun row member selected => ?_).trans
    (bounded.limits ⟨.repository, owner, repository, "", ""⟩)
  simp only [Bool.and_eq_true, decide_eq_true_eq] at selected
  obtain ⟨⟨scope, isOwner⟩, isRepository⟩ := selected
  have inside := (bounded.shaped row member).2 (by rw [scope]; decide)
  exact SecretIdentity.inScopeOf_iff.mpr ⟨scope, isOwner, isRepository, inside⟩

theorem SecretsBounded.environmentSecrets_length {store : SecretStore}
    (bounded : SecretsBounded store) (owner repository environment : String) :
    (environmentSecrets store.managedSecrets owner repository environment).length ≤
      maxEnvironmentSecrets := by
  rw [environmentSecrets, byName, List.length_mergeSort, ← List.countP_eq_length_filter]
  refine (List.countP_mono_left fun row _ selected => ?_).trans
    (bounded.limits ⟨.environment, owner, repository, environment, ""⟩)
  simp only [Bool.and_eq_true, decide_eq_true_eq] at selected
  obtain ⟨⟨⟨scope, isOwner⟩, isRepository⟩, isEnvironment⟩ := selected
  exact SecretIdentity.inScopeOf_iff.mpr ⟨scope, isOwner, isRepository, isEnvironment⟩

/-- The two counts of a snapshot: at most what its two parts hold. -/
theorem SecretsBounded.snapshot_counts {store : SecretStore} (bounded : SecretsBounded store)
    (job : QueuedJob) (event : EventPayload) (privateRepository : Bool) (jobId : JobId) :
    let snapshot := snapshotManagedSecrets store.managedSecrets job event privateRepository
    snapshot.countP (fun secret => secret.jobId = jobId ∧ secret.identity.scope = .organization) ≤
        maxJobOrganizationSecrets ∧
      snapshot.countP (fun secret =>
        secret.jobId = jobId ∧ secret.identity.scope ≠ .organization) ≤ maxRepositorySecrets := by
  dsimp only
  rw [snapshotManagedSecrets]
  split
  · rw [List.countP_map, List.countP_map, List.countP_append, List.countP_append]
    constructor
    · rw [(List.countP_eq_zero (l := repositorySecrets _ _ _)).mpr fun row member => ?_]
      · exact List.countP_le_length.trans (organizationSecrets_length _ _ _ _)
      · simp [(mem_repositorySecrets.mp member).2.1]
    · rw [(List.countP_eq_zero (l := organizationSecrets _ _ _ _)).mpr fun row member => ?_,
        Nat.zero_add]
      · exact List.countP_le_length.trans (bounded.repositorySecrets_length _ _)
      · simp [(mem_organizationSecrets member).2.1]
  · exact ⟨Nat.zero_le _, Nat.zero_le _⟩

theorem SecretsBounded.unqueued {store : SecretStore} (bounded : SecretsBounded store)
    {jobId : JobId} (fresh : ∀ row ∈ store.jobs, row.job.id ≠ jobId) :
    ∀ secret ∈ store.jobSecrets, secret.jobId ≠ jobId := by
  intro secret member isJob
  obtain ⟨row, queued, isRow, _⟩ := bounded.live secret member
  exact fresh row queued (isRow.trans isJob)

/-- The tables once a job with a free id is queued. -/
def queuedStore (store : SecretStore) (workspaceId : String) (job : QueuedJob)
    (event : EventPayload) (privateRepository : Bool) : SecretStore :=
  { store with
    jobs := store.jobs ++ [⟨workspaceId, job⟩]
    jobSecrets := store.jobSecrets ++
      snapshotManagedSecrets store.managedSecrets job event privateRepository }

theorem SecretsBounded.enqueueSecrets_eq {store : SecretStore} (bounded : SecretsBounded store)
    (workspaceId : String) (job : QueuedJob) (event : EventPayload) (privateRepository : Bool)
    (fresh : ∀ row ∈ store.jobs, row.job.id ≠ job.id) :
    (snapshotManagedSecrets store.managedSecrets job event privateRepository).foldl
        insertOrReplace store.jobSecrets =
      (queuedStore store workspaceId job event privateRepository).jobSecrets := by
  refine foldl_insertOrReplace
    (snapshot_keys job event privateRepository bounded.distinct bounded.shaped) ?_
  intro secret added old present same
  obtain ⟨row, _, rfl, _⟩ := mem_snapshot added
  exact bounded.unqueued fresh old present (congrArg Prod.fst same)

theorem SecretsBounded.enqueue {store : SecretStore} (bounded : SecretsBounded store)
    (workspaceId : String) (job : QueuedJob) (event : EventPayload) (privateRepository : Bool)
    (fresh : ∀ row ∈ store.jobs, row.job.id ≠ job.id) :
    SecretsBounded (queuedStore store workspaceId job event privateRepository) := by
  have counts := bounded.snapshot_counts job event privateRepository
  have others := bounded.unqueued fresh
  -- A job that is not the new one has nothing in the snapshot, and the new one nothing before it.
  have count : ∀ (jobId : JobId) (kind : ManagedSecretScope → Prop) [DecidablePred kind]
      (limit : Nat),
      store.jobSecrets.countP (fun secret => secret.jobId = jobId ∧ kind secret.identity.scope) ≤
          limit →
        (snapshotManagedSecrets store.managedSecrets job event privateRepository).countP
            (fun secret => secret.jobId = jobId ∧ kind secret.identity.scope) ≤ limit →
          (queuedStore store workspaceId job event privateRepository).jobSecrets.countP
            (fun secret => secret.jobId = jobId ∧ kind secret.identity.scope) ≤ limit := by
    intro jobId kind _ limit before added
    rw [queuedStore, List.countP_append]
    by_cases isJob : jobId = job.id
    · rw [List.countP_eq_zero.mpr fun secret member => ?_, Nat.zero_add]
      · exact added
      · simp [isJob, others secret member]
    · rw [(List.countP_eq_zero (l := snapshotManagedSecrets _ _ _ _)).mpr fun secret member => ?_,
        Nat.add_zero]
      · exact before
      · obtain ⟨row, _, rfl, _⟩ := mem_snapshot member
        simp [Ne.symm isJob]
  exact {
    distinct := bounded.distinct
    shaped := bounded.shaped
    limits := bounded.limits
    jobs := by
      rw [queuedStore, List.map_append, List.nodup_append]
      refine ⟨bounded.jobs, List.nodup_singleton _, ?_⟩
      rintro _ present _ new rfl
      obtain ⟨row, member, same⟩ := List.mem_map.mp present
      exact fresh row member (same.trans (List.mem_singleton.mp new))
    keys := by
      rw [queuedStore, List.map_append, List.nodup_append]
      refine ⟨bounded.keys, snapshot_keys job event privateRepository bounded.distinct
        bounded.shaped, ?_⟩
      rintro _ present _ new rfl
      obtain ⟨old, member, isOld⟩ := List.mem_map.mp present
      obtain ⟨secret, added, isNew⟩ := List.mem_map.mp new
      obtain ⟨row, _, rfl, _⟩ := mem_snapshot added
      exact others old member (congrArg Prod.fst (isOld.trans isNew.symm))
    live := by
      intro secret member
      rcases List.mem_append.mp member with present | added
      · obtain ⟨row, queued, rest⟩ := bounded.live secret present
        exact ⟨row, List.mem_append_left _ queued, rest⟩
      · obtain ⟨row, stored, rfl, owner, scope⟩ := mem_snapshot added
        exact ⟨⟨workspaceId, job⟩, List.mem_append_right _ (List.mem_singleton_self _), rfl,
          bounded.shaped row stored, owner, scope⟩
    organizations := fun jobId =>
      count jobId (· = .organization) _ (bounded.organizations jobId) (counts jobId).1
    repositories := fun jobId =>
      count jobId (· ≠ .organization) _ (bounded.repositories jobId) (counts jobId).2 }

theorem SecretsBounded.prune {store : SecretStore} (bounded : SecretsBounded store)
    (completed : List JobId) : SecretsBounded (pruneSecrets store completed) where
  distinct := bounded.distinct
  shaped := bounded.shaped
  limits := bounded.limits
  jobs := bounded.jobs.sublist (List.filter_sublist.map _)
  keys := bounded.keys.sublist (List.filter_sublist.map _)
  live secret member := by
    obtain ⟨present, kept⟩ := Table.mem_delete.mp member
    obtain ⟨row, queued, isJob, rest⟩ := bounded.live secret present
    exact ⟨row, Table.mem_delete.mpr ⟨queued, by rw [isJob, kept]⟩, isJob, rest⟩
  organizations jobId := List.filter_sublist.countP_le.trans (bounded.organizations jobId)
  repositories jobId := List.filter_sublist.countP_le.trans (bounded.repositories jobId)

/-! ### Runs -/

theorem SecretsBounded.enter {store entered : SecretStore} {workspaceId : String}
    (bounded : SecretsBounded store)
    (ensured : store.ensureWorkspaceId workspaceId = .ok entered) : SecretsBounded entered := by
  rw [(ensureWorkspaceId_cases ensured).2]
  exact { bounded with }

section Cipher

variable (aes : Aead) (key : aes.Key)

/-- Every request keeps the limits. -/
theorem secretStep_bounded {store : SecretStore} (bounded : SecretsBounded store)
    (event : SecretEvent) : SecretsBounded (secretStep aes key store event) := by
  cases event with
  | put workspaceId input nonce =>
      rw [secretStep, putManagedSecret]
      split
      · exact bounded
      · next ensured =>
          have entered := bounded.enter ensured
          split
          · exact entered
          · split
            · exact entered
            · split
              · exact entered
              · next inserted =>
                  exact entered.insert (normalizedSecretIdentity_shaped _) inserted
  | delete workspaceId identity =>
      rw [secretStep, deleteManagedSecret]
      split
      · exact bounded
      · next ensured =>
          have entered := bounded.enter ensured
          split
          · exact entered
          · exact entered.delete _
  | enqueue workspaceId job event privateRepository =>
      rw [secretStep, enqueueSecrets]
      split
      · exact bounded
      · next ensured =>
          have entered := bounded.enter ensured
          split
          · exact entered
          · next fresh =>
              have free := by simpa using fresh
              dsimp only
              rw [entered.enqueueSecrets_eq workspaceId job event privateRepository free]
              exact entered.enqueue workspaceId job event privateRepository free
  | prune completed => exact bounded.prune completed

/-- Whatever is requested in whatever order, the tables stay within the limits. -/
theorem secretRun_bounded (events : List SecretEvent) :
    SecretsBounded (Machine.run (secretStep aes key) {} events) :=
  have keeps : ∀ store event, SecretsBounded store →
      SecretsBounded (secretStep aes key store event) :=
    fun _ event bounded => secretStep_bounded aes key bounded event
  Machine.run_invariant keeps .empty events

end Cipher

end Texts

end GitZero.ControlPlane
