/-
Module: GitZero.Proofs.DeploymentStatuses
Purpose: When a deployment shows the wanted status after a successful update, and that the
  attempts of one row create one deployment.
Trusted boundary: none
Main exports: Shows, LatestIsWanted, DeploymentLaw, deployment_law_iff
-/
import GitZero.ControlPlane.GithubDeployments

namespace GitZero.ControlPlane

/-! ### What GitHub shows -/

def Github.newestStatus (github : Github) (id : Nat) : Option GithubStatus :=
  (github.deployment? id).bind (·.statuses.head?)

/-- The status has the state, the environment and the URL of the call. -/
def Shows (call : DeploymentCall) (status : GithubStatus) : Prop :=
  status.state = call.state.onGithub ∧ status.environment = call.environment ∧
    status.environmentUrl = call.environmentUrl

theorem deployment?_of_mem {github : Github} {deployment : GithubDeployment}
    (member : deployment ∈ github.deployments) :
    github.deployment? deployment.id = some deployment :=
  Table.row_of_mem github.distinct member

theorem deployment?_createStatus (github : Github) (id : Nat) (status : GithubStatus) :
    (github.createStatus id status).deployment? id =
      (github.deployment? id).map (·.withStatus status) := by
  have keeps : ∀ deployment : GithubDeployment,
      (deployment.withStatus status).id = deployment.id := fun _ => rfl
  change Table.row GithubDeployment.id (Table.update github.deployments _ _) id = _
  rw [Table.row_update keeps]
  refine Option.map_congr fun deployment found => ?_
  rw [if_pos (by simpa using Table.row_key found)]

theorem newestStatus_createStatus {github : Github} {id : Nat} {deployment : GithubDeployment}
    (known : github.deployment? id = some deployment) (status : GithubStatus) :
    (github.createStatus id status).newestStatus id = some status := by
  rw [Github.newestStatus, deployment?_createStatus, known]
  rfl

/-! ### The status after a call -/

section Call

variable {github after : Github} {call : DeploymentCall} {replies : Replies} {id result : Nat}

/-- Where a status of the deployment is taken for the wanted one, the newest one is. -/
def LatestIsWanted (call : DeploymentCall) (deployment : GithubDeployment) : Prop :=
  deployment.statuses.any call.matched = true →
    ∃ status, deployment.statuses.head? = some status ∧ Shows call status

theorem shows_status (call : DeploymentCall) : Shows call call.status := ⟨rfl, rfl, rfl⟩

theorem postStatus_shows (returned : postStatus github call replies id = (after, some result)) :
    ∃ status, after.newestStatus result = some status ∧ Shows call status := by
  unfold postStatus at returned
  split at returned
  · cases returned
  · next deployment known =>
      split at returned
      · cases returned
      · cases returned
      · cases returned
        exact ⟨call.status, newestStatus_createStatus known _, shows_status call⟩

theorem publishStatus_shows
    (wanted : call.recoverAmbiguousWrite = true → ∀ deployment,
      github.deployment? id = some deployment → LatestIsWanted call deployment)
    (returned : publishStatus github call replies id = (after, some result)) :
    ∃ status, after.newestStatus result = some status ∧ Shows call status := by
  unfold publishStatus at returned
  split at returned
  · next recover =>
      split at returned
      · cases returned
      · next deployment known =>
          split at returned
          · cases returned
          · split at returned
            · next found =>
                cases returned
                obtain ⟨status, newest, shows⟩ := wanted recover deployment known found
                refine ⟨status, ?_, shows⟩
                rw [Github.newestStatus, known]
                exact newest
            · exact postStatus_shows returned
  · exact postStatus_shows returned

variable (github call) in
/-- The deployment that the call is about, as GitHub has it before the call. -/
def presentDeployment : Option GithubDeployment :=
  match call.deploymentId with
  | some id => github.deployment? id
  | none => call.mergeSha.bind (recoveredDeployment github call)

theorem statuses_createDeployment {sha environment : String} {payload : JobId × String}
    {deployment : GithubDeployment}
    (known : (github.createDeployment sha environment payload).deployment? github.nextId =
      some deployment) : deployment.statuses = [] := by
  have created := @deployment?_of_mem (github.createDeployment sha environment payload)
    (github.newDeployment sha environment payload) List.mem_cons_self
  cases known.symm.trans created
  rfl

theorem recovered_mem {sha : String} {deployment : GithubDeployment}
    (found : recoveredDeployment github call sha = some deployment) :
    deployment ∈ github.deployments ∧ call.finds sha deployment = true :=
  ⟨List.mem_of_find?_eq_some found, List.find?_some found⟩

/-- What the call resolves to is the present deployment, or there is none. -/
theorem resolveDeployment_some
    (resolved : resolveDeployment github call replies = some (some id)) :
    github.deployment? id = presentDeployment github call := by
  unfold resolveDeployment at resolved
  unfold presentDeployment
  cases given : call.deploymentId with
  | some known =>
      rw [given] at resolved
      cases resolved
      rfl
  | none =>
      rw [given] at resolved
      dsimp only at resolved ⊢
      cases isSha : call.mergeSha with
      | none =>
          rw [isSha] at resolved
          split at resolved <;> cases resolved
      | some sha =>
          rw [isSha] at resolved
          dsimp only at resolved
          split at resolved
          · split at resolved
            · obtain ⟨deployment, found, rfl⟩ := Option.map_eq_some_iff.mp
                (Option.some.inj resolved)
              rw [Option.bind_some, found, deployment?_of_mem (recovered_mem found).1]
            · cases resolved
          · cases resolved

theorem statuses_ensureDeployment
    (created : ensureDeployment github call replies none = (after, some id))
    {deployment : GithubDeployment} (known : after.deployment? id = some deployment) :
    deployment.statuses = [] := by
  unfold ensureDeployment at created
  dsimp only at created
  split at created
  · cases created
  · split at created
    · cases created
    · cases created
    · cases created
      exact statuses_createDeployment known

theorem sync_shows
    (wanted : call.recoverAmbiguousWrite = true → ∀ deployment,
      presentDeployment github call = some deployment → LatestIsWanted call deployment)
    (returned : syncGitHubDeployment github call replies = (after, some result)) :
    ∃ status, after.newestStatus result = some status ∧ Shows call status := by
  unfold syncGitHubDeployment at returned
  split at returned
  · cases returned
  · split at returned
    · cases returned
    · next resolved isResolved =>
        cases resolved with
        | some id =>
            refine publishStatus_shows (fun recover deployment known => ?_) returned
            rw [resolveDeployment_some isResolved] at known
            exact wanted recover deployment known
        | none =>
            split at returned
            · cases returned
            · next created id isCreated =>
                refine publishStatus_shows (fun _ deployment known found => ?_) returned
                rw [statuses_ensureDeployment isCreated known] at found
                cases found

def Replies.allAcknowledged : Replies where
  token := true
  listDeployments := true
  createDeployment := .acknowledged
  listStatuses := true
  createStatus := .acknowledged

/-- A recovered call that finds its status writes nothing. -/
theorem sync_unchanged {deployment : GithubDeployment}
    (recover : call.recoverAmbiguousWrite = true)
    (present : presentDeployment github call = some deployment)
    (found : deployment.statuses.any call.matched = true) :
    syncGitHubDeployment github call .allAcknowledged = (github, some deployment.id) ∧
      github.deployment? deployment.id = some deployment := by
  have known : github.deployment? deployment.id = some deployment := by
    unfold presentDeployment at present
    split at present
    · rw [Table.row_key present]
      exact present
    · obtain ⟨sha, _, recovered⟩ := Option.bind_eq_some_iff.mp present
      exact deployment?_of_mem (recovered_mem recovered).1
  have resolved : resolveDeployment github call .allAcknowledged = some (some deployment.id) := by
    unfold presentDeployment at present
    unfold resolveDeployment
    cases given : call.deploymentId with
    | some id =>
        rw [given] at present
        rw [Table.row_key present]
    | none =>
        rw [given] at present
        obtain ⟨sha, isSha, recovered⟩ := Option.bind_eq_some_iff.mp present
        dsimp only
        rw [isSha, if_pos recover]
        dsimp only
        rw [recovered]
        rfl
  refine ⟨?_, known⟩
  unfold syncGitHubDeployment
  rw [resolved]
  change publishStatus github call .allAcknowledged deployment.id = _
  unfold publishStatus
  rw [if_pos recover, known]
  dsimp only
  rw [found]
  rfl

end Call

/-! ### The deployments of one row -/

section Row

variable {row call : DeploymentCall} {github : Github} {replies : Replies}

/-- How many deployments have the payload of the row. -/
def ownDeployments (row : DeploymentCall) (github : Github) : Nat :=
  github.deployments.countP fun deployment => deployment.payload = some row.payload

/-- A later attempt finds a deployment of the row. -/
def Findable (row : DeploymentCall) (github : Github) : Prop :=
  ∃ sha, row.mergeSha = some sha ∧
    ∃ deployment ∈ github.deployments, row.finds sha deployment = true

theorem ownDeployments_createStatus (row : DeploymentCall) (github : Github) (id : Nat)
    (status : GithubStatus) :
    ownDeployments row (github.createStatus id status) = ownDeployments row github := by
  change (github.deployments.map _).countP _ = _
  rw [List.countP_map]
  refine List.countP_congr fun deployment _ => ?_
  dsimp only [Function.comp]
  split <;> rfl

theorem Findable.createStatus (findable : Findable row github) (id : Nat) (status : GithubStatus) :
    Findable row (github.createStatus id status) := by
  obtain ⟨sha, isSha, deployment, member, finds⟩ := findable
  refine ⟨sha, isSha, _, List.mem_map_of_mem member, ?_⟩
  split
  · exact finds
  · exact finds

/-- Publishing a status leaves GitHub as it is or adds the status. -/
theorem publishStatus_cases (github : Github) (call : DeploymentCall) (replies : Replies)
    (id : Nat) :
    (publishStatus github call replies id).1 = github ∨
      (publishStatus github call replies id).1 = github.createStatus id call.status := by
  have posted : (postStatus github call replies id).1 = github ∨
      (postStatus github call replies id).1 = github.createStatus id call.status := by
    unfold postStatus
    split
    · exact .inl rfl
    · split
      · exact .inl rfl
      · exact .inr rfl
      · exact .inr rfl
  unfold publishStatus
  split
  · split
    · exact .inl rfl
    · split
      · exact .inl rfl
      · split
        · exact .inl rfl
        · exact posted
  · exact posted

theorem publishStatus_keeps (row : DeploymentCall) (github : Github) (call : DeploymentCall)
    (replies : Replies) (id : Nat) :
    ownDeployments row (publishStatus github call replies id).1 = ownDeployments row github ∧
      (Findable row github → Findable row (publishStatus github call replies id).1) := by
  rcases publishStatus_cases github call replies id with same | added
  · rw [same]
    exact ⟨rfl, fun findable => findable⟩
  · rw [added]
    exact ⟨ownDeployments_createStatus row github id _, fun findable => findable.createStatus id _⟩

/-- The two calls are about one job, unit and environment. -/
def SameRow (row call : DeploymentCall) : Prop :=
  call.mergeSha = row.mergeSha ∧ call.payload = row.payload ∧ call.environment = row.environment

/-- A call creates no deployment, or one that later attempts find. -/
def CreatesOnce (row : DeploymentCall) (before after : Github) : Prop :=
  (ownDeployments row after = ownDeployments row before ∧
    (Findable row before → Findable row after)) ∨
  (ownDeployments row after = ownDeployments row before + 1 ∧ Findable row after)

theorem ensureDeployment_creates (same : SameRow row call) (resolved : Option Nat) :
    CreatesOnce row github (ensureDeployment github call replies resolved).1 := by
  obtain ⟨sameSha, samePayload, sameEnvironment⟩ := same
  have created : ∀ sha, call.mergeSha = some sha → CreatesOnce row github
      (github.createDeployment sha call.environment call.payload) := by
    intro sha isSha
    refine .inr ⟨?_, sha, sameSha ▸ isSha, _, List.mem_cons_self, ?_⟩
    · change List.countP _ (_ :: _) = _
      rw [List.countP_cons_of_pos (by simp [Github.newDeployment, samePayload])]
      rfl
    · simp [DeploymentCall.finds, Github.newDeployment, samePayload, sameEnvironment]
  unfold ensureDeployment
  split
  · exact .inl ⟨rfl, fun findable => findable⟩
  · split
    · exact .inl ⟨rfl, fun findable => findable⟩
    · next sha isSha =>
        dsimp only
        split
        · exact .inl ⟨rfl, fun findable => findable⟩
        · exact created sha isSha
        · exact created sha isSha

theorem sync_creates (same : SameRow row call) (github : Github) (replies : Replies) :
    CreatesOnce row github (syncGitHubDeployment github call replies).1 := by
  unfold syncGitHubDeployment
  split
  · exact .inl ⟨rfl, fun findable => findable⟩
  · split
    · exact .inl ⟨rfl, fun findable => findable⟩
    · next resolved isResolved =>
        have ensured : CreatesOnce row github (ensureDeployment github call replies resolved).1 :=
          ensureDeployment_creates same resolved
        split
        · next created isCreated =>
            rw [isCreated] at ensured
            exact ensured
        · next created id isCreated =>
            rw [isCreated] at ensured
            obtain ⟨count, keeps⟩ := publishStatus_keeps row created call replies id
            rcases ensured with ⟨equal, findable⟩ | ⟨more, findable⟩
            · exact .inl ⟨count.trans equal, fun before => keeps (findable before)⟩
            · exact .inr ⟨count.trans more, keeps findable⟩

/-- The attempt finds what an earlier one has created. -/
theorem resolveDeployment_ne_none (same : SameRow row call)
    (recover : call.recoverAmbiguousWrite = true) (findable : Findable row github) :
    resolveDeployment github call replies ≠ some none := by
  obtain ⟨sameSha, samePayload, sameEnvironment⟩ := same
  obtain ⟨sha, isSha, deployment, member, finds⟩ := findable
  intro absent
  unfold resolveDeployment at absent
  split at absent
  · cases absent
  · rw [if_pos recover, sameSha, isSha] at absent
    dsimp only at absent
    split at absent
    · have missing := Option.map_eq_none_iff.mp (Option.some.inj absent)
      have unfound := List.find?_eq_none.mp missing deployment member
      simp only [DeploymentCall.finds, samePayload, sameEnvironment] at unfound finds
      exact unfound finds
    · cases absent

theorem sync_recovers (same : SameRow row call) (recover : call.recoverAmbiguousWrite = true)
    (findable : Findable row github) (replies : Replies) :
    ownDeployments row (syncGitHubDeployment github call replies).1 = ownDeployments row github ∧
      Findable row (syncGitHubDeployment github call replies).1 := by
  unfold syncGitHubDeployment
  split
  · exact ⟨rfl, findable⟩
  · split
    · exact ⟨rfl, findable⟩
    · next resolved isResolved =>
        cases resolved with
        | none => exact absurd isResolved (resolveDeployment_ne_none same recover findable)
        | some id =>
            obtain ⟨count, keeps⟩ := publishStatus_keeps row github call replies id
            exact ⟨count, keeps findable⟩

/-- No deployment of the row so far, or one that the next attempt finds. -/
def CreatedAtMostOne (row : DeploymentCall) (start github : Github) : Prop :=
  ownDeployments row github = ownDeployments row start ∨
    (ownDeployments row github = ownDeployments row start + 1 ∧ Findable row github)

theorem createdAtMostOne_run (row : DeploymentCall) {start : Github}
    {attempts : List RowAttempt}
    (recovering : ∀ attempt ∈ attempts, attempt.recoverAmbiguousWrite = true)
    {before : Github × Option Nat} (created : CreatedAtMostOne row start before.1) :
    CreatedAtMostOne row start (attempts.foldl (attemptRow row) before).1 := by
  induction attempts generalizing before with
  | nil => exact created
  | cons attempt attempts inductionHypothesis =>
      refine inductionHypothesis
        (fun later member => recovering later (List.mem_cons_of_mem _ member)) ?_
      have same : SameRow row (attempt.call row before.2) := ⟨rfl, rfl, rfl⟩
      rcases created with none | ⟨one, findable⟩
      · rcases sync_creates same before.1 attempt.replies with ⟨equal, _⟩ | ⟨more, findable⟩
        · exact .inl (equal.trans none)
        · exact .inr ⟨more.trans (by rw [none]), findable⟩
      · obtain ⟨equal, still⟩ := sync_recovers same (recovering attempt List.mem_cons_self)
          findable attempt.replies
        exact .inr ⟨equal.trans one, still⟩

theorem runRow_creates (row : DeploymentCall) (github : Github) {attempts : List RowAttempt}
    (recovering : ∀ attempt ∈ attempts.tail, attempt.recoverAmbiguousWrite = true) :
    ownDeployments row (runRow row github attempts) ≤ ownDeployments row github + 1 := by
  cases attempts with
  | nil => exact Nat.le_succ _
  | cons first rest =>
      have same : SameRow row (first.call row none) := ⟨rfl, rfl, rfl⟩
      have started : CreatedAtMostOne row github (attemptRow row (github, none) first).1 := by
        rcases sync_creates same github first.replies with ⟨equal, _⟩ | more
        · exact .inl equal
        · exact .inr more
      rcases createdAtMostOne_run row recovering started with equal | ⟨one, _⟩
      · exact equal.le.trans (Nat.le_succ _)
      · exact one.le

end Row

/-! ### Both together -/

/-- A call that returns leaves the wanted status as the newest one, and the attempts of its row,
all but the first of which recover ambiguous writes, create at most one deployment. -/
structure DeploymentLaw (github : Github) (call : DeploymentCall) : Prop where
  exact : ∀ (replies : Replies) (after : Github) (id : Nat),
    syncGitHubDeployment github call replies = (after, some id) →
      ∃ status, after.newestStatus id = some status ∧ Shows call status
  once : ∀ attempts : List RowAttempt,
    (∀ attempt ∈ attempts.tail, attempt.recoverAmbiguousWrite = true) →
      ownDeployments call (runRow call github attempts) ≤ ownDeployments call github + 1

/-- Whenever a call returns the newest status is the wanted one, and repeated calls create one
deployment at most, exactly when a call that recovers an ambiguous write finds no wanted status
below a later one that differs. -/
theorem deployment_law_iff (github : Github) (call : DeploymentCall) :
    DeploymentLaw github call ↔
      (call.recoverAmbiguousWrite = true → ∀ deployment,
        presentDeployment github call = some deployment → LatestIsWanted call deployment) := by
  constructor
  · intro law recover deployment present found
    obtain ⟨unchanged, known⟩ := sync_unchanged recover present found
    obtain ⟨status, newest, shows⟩ := law.exact _ _ _ unchanged
    rw [Github.newestStatus, known] at newest
    exact ⟨status, newest, shows⟩
  · intro wanted
    exact ⟨fun replies after id returned => sync_shows wanted returned,
      fun attempts recovering => runRow_creates call github recovering⟩

namespace Sample

/-- A deployment that was started, failed and is to be started again. -/
def restarted : GithubDeployment where
  id := 1
  sha := "3333333333333333333333333333333333333333"
  task := "deploy"
  environment := "production"
  payload := some (1, "unit")
  statuses :=
    [{ state := .error
       description := some "GitZero deployment was cancelled or timed out."
       environment := "production"
       environmentUrl := none },
     { state := .inProgress
       description := some "GitZero deployment is running."
       environment := "production"
       environmentUrl := none }]

def oneDeployment : Github where
  deployments := [restarted]
  nextId := 2
  distinct := by decide
  fresh deployment member := by
    cases List.mem_singleton.mp member
    decide

def restart : DeploymentCall where
  mergeSha := some "3333333333333333333333333333333333333333"
  jobId := 1
  unitId := "unit"
  environment := "production"
  state := .inProgress
  environmentUrl := none
  deploymentId := some 1
  recoverAmbiguousWrite := true

/-- The status of the first start is taken for the wanted one and the deployment stays failed. -/
theorem old_status_hides_restart :
    ¬ ∀ (github : Github) (call : DeploymentCall), DeploymentLaw github call := by
  intro law
  have unchanged : syncGitHubDeployment oneDeployment restart .allAcknowledged =
      (oneDeployment, some 1) :=
    (sync_unchanged rfl (rfl : presentDeployment oneDeployment restart = some restarted)
      (by decide)).1
  obtain ⟨status, newest, shows, _⟩ := (law oneDeployment restart).exact _ _ _ unchanged
  cases newest
  cases shows

end Sample

end GitZero.ControlPlane
