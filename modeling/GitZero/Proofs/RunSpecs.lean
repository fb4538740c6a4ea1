/-
Module: GitZero.Proofs.RunSpecs
Purpose: Which stored jobs become a run that passes the run schema when they are
  dispatched.
Trusted boundary: GitHub's replies, `WellFormed`
Main exports: defaultExecutionRef_valid, WellFormed, dispatched_runSpec_iff
-/
import GitZero.ControlPlane.Upkeep
import GitZero.Proofs.DeploymentSync
import Mathlib.Data.List.Chain

namespace GitZero.ControlPlane

open Table

/-! ### The default execution ref -/

/-- The digits of a pull request number are neither separators nor marks. -/
theorem digit_plain {character : Char} (digit : character.isDigit = true) :
    '0' ≤ character ∧ character ≤ '9' := by
  simp only [Char.isDigit, Bool.and_eq_true, decide_eq_true_eq] at digit
  exact digit

theorem not_infix_of_not_mem {mark : Char} {rest characters : List Char}
    (absent : mark ∉ characters) : ¬ (mark :: rest) <:+: characters := by
  intro inside
  exact absent (inside.subset List.mem_cons_self)

/-- Characters of the default execution ref. -/
def executionRefCharacters (digits : List Char) : List Char :=
  ['/'].intercalate ["refs".toList, "pull".toList, digits, "merge".toList]

theorem executionRefCharacters_eq (digits : List Char) :
    executionRefCharacters digits =
      "refs/pull/".toList ++ digits ++ "/merge".toList := by
  simp [executionRefCharacters, List.intercalate, List.intersperse]

/-- No two separators stand side by side. -/
theorem not_double_slash {digits : List Char} (filled : digits ≠ [])
    (plain : ∀ character ∈ digits, character ≠ '/') :
    ¬ "//".toList <:+: executionRefCharacters digits := by
  have apart : (executionRefCharacters digits).IsChain
      fun left right => ¬ (left = '/' ∧ right = '/') := by
    have inner : digits.IsChain fun left right => ¬ (left = '/' ∧ right = '/') := by
      rw [List.isChain_iff_forall_rel_of_append_cons_cons]
      rintro left right before after rfl ⟨isSlash, _⟩
      exact plain left (by simp) isSlash
    rw [executionRefCharacters_eq, List.append_assoc, List.isChain_append, List.isChain_append]
    refine ⟨by decide, ⟨inner, by decide, ?_⟩, ?_⟩
    · intro left last right _ both
      exact plain left (List.mem_of_mem_getLast? last) both.1
    · intro left _ right first both
      obtain ⟨head, tail, rfl⟩ := List.exists_cons_of_ne_nil filled
      simp only [List.cons_append, List.head?_cons, Option.mem_def, Option.some.injEq] at first
      exact plain head List.mem_cons_self (first.trans both.2)
  rintro ⟨before, after, same⟩
  rw [List.isChain_iff_forall_rel_of_append_cons_cons] at apart
  have split : executionRefCharacters digits = before ++ '/' :: '/' :: after := by
    rw [← same, List.append_assoc]
    rfl
  exact apart split ⟨rfl, rfl⟩

theorem forall_executionRef {digits : List Char} {meets : Char → Prop}
    (front : ∀ character ∈ "refs/pull/".toList, meets character)
    (middle : ∀ character ∈ digits, meets character)
    (back : ∀ character ∈ "/merge".toList, meets character) :
    ∀ character ∈ executionRefCharacters digits, meets character := by
  intro character member
  rw [executionRefCharacters_eq, List.mem_append, List.mem_append] at member
  rcases member with (first | second) | third
  · exact front character first
  · exact middle character second
  · exact back character third

theorem byteLength_append (left right : List Char) :
    byteLength (left ++ right) = byteLength left + byteLength right := by
  simp [byteLength]

theorem byteLength_digits {digits : List Char}
    (plain : ∀ character ∈ digits, character.isDigit = true) :
    byteLength digits = digits.length := by
  induction digits with
  | nil => rfl
  | cons head tail inductionHypothesis =>
      have rest := inductionHypothesis fun character member =>
        plain character (List.mem_cons_of_mem _ member)
      have small := digit_plain (plain head List.mem_cons_self)
      have one : head.utf8Size = 1 := by
        rw [Char.utf8Size_eq_one_iff]
        exact Nat.le_trans small.2 (by decide)
      simp only [byteLength, List.map_cons, List.sum_cons, List.length_cons] at rest ⊢
      omega

/-- A character that is neither a digit nor part of the fixed text. -/
theorem not_mem_executionRef {digits : List Char} (mark : Char)
    (plain : ∀ character ∈ digits, character.isDigit = true)
    (front : mark ∉ "refs/pull/".toList) (back : mark ∉ "/merge".toList)
    (notDigit : mark.isDigit = false) : mark ∉ executionRefCharacters digits := by
  intro member
  refine @forall_executionRef digits (· ≠ mark) ?_ ?_ ?_ mark member rfl
  · rintro character inFront rfl
    exact front inFront
  · rintro character inDigits rfl
    rw [plain character inDigits] at notDigit
    cases notDigit
  · rintro character inBack rfl
    exact back inBack

theorem splitOn_executionRef {digits : List Char}
    (plain : ∀ character ∈ digits, character ≠ '/') :
    (executionRefCharacters digits).splitOn '/' =
      ["refs".toList, "pull".toList, digits, "merge".toList] := by
  refine List.splitOn_intercalate '/' ?_ (by simp)
  intro component member
  simp only [List.mem_cons, List.not_mem_nil, or_false] at member
  rcases member with rfl | rfl | rfl | rfl
  · decide
  · decide
  · exact fun slash => plain '/' slash rfl
  · decide

theorem allowed_digit {character : Char} (digit : character.isDigit = true) :
    (!(decide (character ≤ ' ') || decide (character = '\x7f') ||
      "~^:?*[\\".toList.contains character)) = true := by
  have control : ¬ character ≤ ' ' := fun low =>
    absurd (Char.le_trans (digit_plain digit).1 low) (by decide)
  have delete : character ≠ '\x7f' := by
    rintro rfl
    cases digit
  have marked : character ∉ "~^:?*[\\".toList := by
    intro member
    have marks : ∀ mark ∈ "~^:?*[\\".toList, (!mark.isDigit) = true :=
      List.all_eq_true.mp (by decide)
    have plain := marks character member
    rw [digit] at plain
    cases plain
  rw [Bool.not_eq_true', Bool.or_eq_false_iff, Bool.or_eq_false_iff]
  refine ⟨⟨decide_eq_false control, decide_eq_false delete⟩, ?_⟩
  rw [← Bool.not_eq_true, List.contains_iff_mem]
  exact marked

/-- The ref that an initialization attempt fills in is a valid one. -/
theorem defaultExecutionRef_valid {number : Nat} (small : number ≤ maxSafeInteger) :
    gitExecutionRef ("refs/pull/" ++ toString number ++ "/merge") = true := by
  have digits : ∀ character ∈ Nat.toDigits 10 number, character.isDigit = true :=
    fun character member => Nat.isDigit_of_mem_toDigits (by decide) (by decide) member
  have filled : Nat.toDigits 10 number ≠ [] := Nat.toDigits_ne_nil
  have short : (Nat.toDigits 10 number).length ≤ 16 :=
    (Nat.length_toDigits_le_iff (by decide) (by decide)).mpr
      (Nat.lt_of_le_of_lt small (by decide))
  have same : ("refs/pull/" ++ toString number ++ "/merge").toList =
      executionRefCharacters (Nat.toDigits 10 number) := by
    rw [executionRefCharacters_eq, String.toList_append, String.toList_append]
    exact congrArg (fun middle => "refs/pull/".toList ++ middle ++ "/merge".toList) Nat.toList_repr
  generalize Nat.toDigits 10 number = digitList at digits filled short same
  have plain : ∀ character ∈ digitList, character ≠ '/' := by
    rintro character member rfl
    cases digits _ member
  have noDot := not_mem_executionRef '.' digits (by decide) (by decide) rfl
  have noAt := not_mem_executionRef '@' digits (by decide) (by decide) rfl
  have bytes : byteLength (executionRefCharacters digitList) ≤ 4096 := by
    rw [executionRefCharacters_eq, byteLength_append, byteLength_append, byteLength_digits digits]
    have front : byteLength "refs/pull/".toList = 10 := by decide
    have back : byteLength "/merge".toList = 6 := by decide
    omega
  have filledRef : executionRefCharacters digitList ≠ [] := by
    rw [executionRefCharacters_eq]
    exact nofun
  have begins : "refs/".toList.isPrefixOf (executionRefCharacters digitList) = true := by
    rw [executionRefCharacters_eq]
    rfl
  have ends : "/".toList.isSuffixOf (executionRefCharacters digitList) = false := by
    rw [executionRefCharacters_eq, List.isSuffixOf, List.reverse_append]
    rfl
  have undotted : ".".toList.isSuffixOf (executionRefCharacters digitList) = false := by
    rw [← Bool.not_eq_true, List.isSuffixOf_iff_suffix]
    exact fun dotted => noDot (dotted.subset List.mem_cons_self)
  unfold gitExecutionRef
  rw [same]
  simp only [Bool.and_eq_true, Bool.not_eq_true', decide_eq_true_eq, decide_eq_false_iff_not,
    List.all_eq_true]
  refine ⟨⟨⟨⟨⟨⟨⟨⟨⟨filledRef, begins⟩, bytes⟩, ?_⟩, not_infix_of_not_mem noDot⟩,
    not_infix_of_not_mem noAt⟩, not_double_slash filled plain⟩, undotted⟩, ends⟩, ?_⟩
  · have allowed := @forall_executionRef digitList _ (List.all_eq_true.mp (by decide))
      (fun character member => allowed_digit (digits character member))
      (List.all_eq_true.mp (by decide))
    simpa using allowed
  · rw [splitOn_executionRef plain]
    intro component member
    simp only [List.mem_cons, List.not_mem_nil, or_false] at member
    rcases member with rfl | rfl | rfl | rfl
    · decide
    · decide
    · have dotless : '.' ∉ component := fun dot => nomatch digits _ dot
      refine ⟨⟨filled, ?_⟩, ?_⟩
      · rw [← Bool.not_eq_true, List.isPrefixOf_iff_prefix]
        exact fun dotted => dotless (dotted.subset List.mem_cons_self)
      · rw [← Bool.not_eq_true, List.isSuffixOf_iff_suffix]
        exact fun locked => dotless (locked.subset List.mem_cons_self)
    · decide

section Text

variable [JsText]

/-! ### What the schemas agree on -/

/-- The run of a job that passes the job schema passes the run schema when its merge snapshot is
resolved and the token comes with its expiry. -/
theorem runSpec?_isSome {job : QueuedJob} (accepted : queuedJobSchema job = true)
    {event : EventPayload} {token : String} {expiry : Option Nat}
    (positive : expiry.all positiveInteger = true) (paired : token = "" ↔ expiry = none) :
    (runSpec? job event token expiry).isSome = true ↔
      job.pullRequest.mergeSha.isSome = true ∧ job.pullRequest.executionRef.isSome = true := by
  simp only [queuedJobSchema, Bool.and_eq_true, decide_eq_true_eq] at accepted
  obtain ⟨⟨⟨⟨installation, repository⟩, shape⟩, format⟩, checkRun⟩ := accepted
  have version : apiVersionSchema githubApiVersion = true := by decide
  unfold runSpec?
  dsimp only
  by_cases resolved :
      job.pullRequest.mergeSha.isSome = true ∧ job.pullRequest.executionRef.isSome = true
  · rw [if_pos]
    · simp [resolved]
    · simp [runSpecSchema, installation, repository, shape, format, checkRun, version, positive,
        resolved.1, resolved.2, paired]
  · rw [if_neg]
    · simpa using resolved
    · intro passes
      simp only [runSpecSchema, Bool.and_eq_true] at passes
      obtain ⟨⟨⟨⟨⟨⟨⟨_, merged⟩, referenced⟩, _⟩, _⟩, _⟩, _⟩, _⟩ := passes
      exact resolved ⟨merged, referenced⟩

/-! ### Initialization -/

theorem withExecutionRef_accepted {job : QueuedJob} (accepted : queuedJobSchema job = true) :
    queuedJobSchema (withExecutionRef job) = true := by
  unfold withExecutionRef
  split
  · simp only [queuedJobSchema, pullRequestShape, positiveInteger, Bool.and_eq_true,
      decide_eq_true_eq] at accepted
    have valid := defaultExecutionRef_valid accepted.1.1.2.1.1.1.1.1.1.1.2
    simp [queuedJobSchema, pullRequestShape, positiveInteger, objectIdsUseOneFormat] at accepted ⊢
    simp_all
  · exact accepted

theorem withMergeSha_accepted {job : QueuedJob} {mergeSha : String}
    (accepted : queuedJobSchema job = true) (valid : fullGitObjectIdSchema mergeSha = true)
    (format : utf16Length mergeSha = utf16Length job.pullRequest.headSha) :
    queuedJobSchema (withMergeSha job mergeSha) = true := by
  simp only [queuedJobSchema, pullRequestShape, objectIdsUseOneFormat, withMergeSha,
    Bool.and_eq_true, Option.all_some] at accepted ⊢
  obtain ⟨⟨⟨first, ⟨⟨⟨shape, _⟩, ref⟩, headRef⟩, baseRef⟩, ⟨one, _⟩⟩, last⟩ := accepted
  exact ⟨⟨⟨first, ⟨⟨⟨shape, valid⟩, ref⟩, headRef⟩, baseRef⟩, ⟨one, decide_eq_true format⟩⟩, last⟩

/-- What `enqueue` calls `needsInitialization`. -/
def needsInitialization (job : QueuedJob) : Bool := job.requiresGithubToken || job.reportToGithub

/-- A well-formed answer to an initialization attempt: GitHub names the merge commit by a full
object id in the format that the repository's other commits use, and numbers its checks from one. -/
def WellAnswered (job : QueuedJob) : Reply → Prop
  | .mergeSnapshot (.ready mergeSha) =>
      fullGitObjectIdSchema mergeSha = true ∧
        utf16Length mergeSha = utf16Length job.pullRequest.headSha
  | .checkRun id => positiveInteger id = true
  | _ => True

theorem Prepared.accepted {original job : QueuedJob} (prepared : Prepared WellAnswered original job)
    (accepted : queuedJobSchema original = true) : queuedJobSchema job = true := by
  have referenced := withExecutionRef_accepted accepted
  induction prepared with
  | merged => exact referenced
  | head =>
      refine withMergeSha_accepted referenced ?_ rfl
      simp only [queuedJobSchema, pullRequestShape, Bool.and_eq_true] at referenced
      exact referenced.1.1.2.1.1.1.1.1.2
  | snapshot mergeSha answered => exact withMergeSha_accepted referenced answered.1 answered.2
  | actionsVariables values _ _ inductionHypothesis => exact inductionHypothesis
  | checkRun id _ answered inductionHypothesis =>
      simp only [queuedJobSchema, Bool.and_eq_true, Option.all_some] at inductionHypothesis ⊢
      exact ⟨inductionHypothesis.1, answered⟩

omit [JsText] in
/-- An initialization attempt resolves the merge snapshot. -/
theorem Prepared.resolved {Answers : QueuedJob → Reply → Prop} {original job : QueuedJob}
    (prepared : Prepared Answers original job) :
    job.pullRequest.mergeSha.isSome = true ∧ job.pullRequest.executionRef.isSome = true := by
  have referenced : (withExecutionRef original).pullRequest.executionRef.isSome = true := by
    unfold withExecutionRef
    split
    · rfl
    · next present => exact Option.isSome_iff_ne_none.mpr (by simpa using present)
  induction prepared with
  | merged known =>
      refine ⟨?_, referenced⟩
      rw [(Upkeep.withExecutionRef_flags original).2]
      exact Option.isSome_iff_ne_none.mpr known
  | head => exact ⟨rfl, referenced⟩
  | snapshot => exact ⟨rfl, referenced⟩
  | actionsVariables values _ _ inductionHypothesis => exact inductionHypothesis
  | checkRun id _ _ inductionHypothesis => exact inductionHypothesis

omit [JsText] in
theorem Prepared.flags {Answers : QueuedJob → Reply → Prop} {original job : QueuedJob}
    (prepared : Prepared Answers original job) :
    job.requiresGithubToken = original.requiresGithubToken ∧
      job.reportToGithub = original.reportToGithub := by
  have kept : (withExecutionRef original).requiresGithubToken = original.requiresGithubToken ∧
      (withExecutionRef original).reportToGithub = original.reportToGithub := by
    unfold withExecutionRef
    split <;> exact ⟨rfl, rfl⟩
  induction prepared with
  | merged => exact kept
  | head => exact kept
  | snapshot => exact kept
  | actionsVariables values _ _ inductionHypothesis => exact inductionHypothesis
  | checkRun id _ _ inductionHypothesis => exact inductionHypothesis

/-! ### The invariant -/

/-- The job comes from an enqueued one; without initialization it still has the pull request that
was enqueued. -/
def Derived (events : List Event) (job : QueuedJob) : Prop :=
  ∃ original deliveryId now, Event.enqueue original deliveryId now ∈ events ∧
    job.id = original.id ∧ job.requiresGithubToken = original.requiresGithubToken ∧
    job.reportToGithub = original.reportToGithub ∧
    (needsInitialization original = false → job.pullRequest = original.pullRequest)

/-- The job of a row is one that was enqueued, as far as its initialization has prepared it. -/
structure RowPrepared (events : List Event) (row : JobRow) : Prop where
  accepted : queuedJobSchema row.job = true
  derived : Derived events row.job
  waiting : row.initializationNeeded ≠ .ready → needsInitialization row.job = true
  resolved : row.status ≠ .completed → row.initializationNeeded = .ready →
    needsInitialization row.job = true →
      row.job.pullRequest.mergeSha.isSome = true ∧ row.job.pullRequest.executionRef.isSome = true

/-- The invariant: every row is prepared. -/
structure RowsPrepared (events : List Event) (state : State) : Prop where
  tidy : Tidy state
  rows : ∀ row ∈ state.jobs, RowPrepared events row

theorem RowPrepared.ordinary {events : List Event} {old new : JobRow}
    (prepared : RowPrepared events old) (change : Ordinary old new) : RowPrepared events new := by
  refine ⟨?_, ?_, ?_, ?_⟩
  · rw [change.job]
    exact prepared.accepted
  · rw [change.job]
    exact prepared.derived
  · intro waits
    rw [change.job]
    exact prepared.waiting fun ready => waits (change.stays ready)
  · intro unfinished ready needs
    rw [change.job] at needs ⊢
    exact prepared.resolved (fun completed => unfinished (change.closed completed))
      (change.initialized unfinished ready) needs

/-- A completed row has nothing left to show about its merge snapshot. -/
theorem RowPrepared.completed {events : List Event} {old new : JobRow}
    (prepared : RowPrepared events old) (job : new.job = old.job)
    (completed : new.status = .completed)
    (ready : new.initializationNeeded ≠ .ready → old.initializationNeeded ≠ .ready) :
    RowPrepared events new := by
  refine ⟨?_, ?_, ?_, fun unfinished => absurd completed unfinished⟩
  · rw [job]
    exact prepared.accepted
  · rw [job]
    exact prepared.derived
  · intro waits
    rw [job]
    exact prepared.waiting (ready waits)

theorem RowsPrepared.updateJobs {events : List Event} {state : State}
    (prepared : RowsPrepared events state) {selected : JobRow → Bool} {set : JobRow → JobRow}
    (rows : ∀ row ∈ state.jobs, selected row = true →
      (set row).id = row.id ∧ (set row).job.id = row.id ∧ RowPrepared events (set row)) :
    RowsPrepared events (state.updateJobs selected set) := by
  refine ⟨prepared.tidy.updateJobs fun row member picked => ?_,
    forall_update prepared.rows fun row member picked _ => (rows row member picked).2.2⟩
  obtain ⟨sameId, sameJob, _⟩ := rows row member picked
  exact ⟨sameId, sameJob⟩

theorem RowsPrepared.completed {events : List Event} {state : State}
    (prepared : RowsPrepared events state) {selected : JobRow → Bool} {set : JobRow → JobRow}
    (same : ∀ row, (set row).id = row.id ∧ (set row).job = row.job)
    (completes : ∀ row, (set row).status = .completed)
    (ready : ∀ row, (set row).initializationNeeded ≠ .ready → row.initializationNeeded ≠ .ready)
    (jobId : JobId) (now : Millis) :
    RowsPrepared events
      ((state.updateJobs selected set).finishOutstandingDeployments jobId now) := by
  have keeps : Tidy (state.updateJobs selected set) := by
    refine prepared.tidy.updateJobs fun row member _ => ⟨(same row).1, ?_⟩
    rw [(same row).2, prepared.tidy.named row member]
  exact ⟨⟨keeps.distinct, keeps.named⟩, forall_update prepared.rows fun row _ _ before =>
    before.completed (same row).2 (completes row) (ready row)⟩

theorem RowsPrepared.complete {events : List Event} {state : State}
    (prepared : RowsPrepared events state) (row : JobRow) (conclusion : Conclusion)
    (summary : String) (now : Millis) :
    RowsPrepared events (state.completeInfrastructureJob row conclusion summary now) := by
  refine prepared.completed ?_ ?_ ?_ row.id now
  · exact fun _ => ⟨rfl, rfl⟩
  · exact fun _ => rfl
  · exact fun _ wrong => absurd rfl wrong

/-- The last attempt of an initialization marks its row as ready and completes it at once. -/
theorem RowsPrepared.exhaust {events : List Event} {state : State}
    (prepared : RowsPrepared events state) {jobId : JobId} {detail : String} {terminal : JobRow}
    (conclusion : Conclusion) (summary : String) (now : Millis)
    (found : (state.updateJobs (initializing jobId) fun job =>
      { job with
        initializationNeeded := .ready
        initializationRetryAt := none
        lastError := some detail }).jobRow? jobId = some terminal) :
    RowsPrepared events
      ((state.updateJobs (initializing jobId) fun job =>
        { job with
          initializationNeeded := .ready
          initializationRetryAt := none
          lastError := some detail }).completeInfrastructureJob terminal conclusion
            summary now) := by
  have terminalId := jobRow?_id found
  have marked : Tidy (state.updateJobs (initializing jobId) fun job =>
      { job with
        initializationNeeded := .ready
        initializationRetryAt := none
        lastError := some detail }) :=
    prepared.tidy.updateJobs fun row member _ => ⟨rfl, prepared.tidy.named row member⟩
  have completed : Tidy ((state.updateJobs (initializing jobId) fun job =>
      { job with
        initializationNeeded := .ready
        initializationRetryAt := none
        lastError := some detail }).completeInfrastructureJob terminal conclusion summary now) := by
    refine ⟨nodup_key_update (fun _ _ _ => rfl) marked.distinct, ?_⟩
    exact forall_update marked.named fun _ _ _ named => named
  refine ⟨completed, fun row member => ?_⟩
  obtain ⟨middle, between, rfl⟩ := mem_update.mp member
  obtain ⟨old, present, rfl⟩ := mem_update.mp between
  have before := prepared.rows old present
  by_cases attempt : initializing jobId old = true
  · rw [if_pos attempt]
    simp only [initializing, Bool.and_eq_true, decide_eq_true_eq] at attempt
    rw [if_pos (by simp [attempt.1.1, attempt.1.2, terminalId])]
    exact before.completed rfl rfl fun wrong => absurd rfl wrong
  · rw [if_neg attempt]
    split
    · exact before.completed rfl rfl fun wrong => absurd rfl wrong
    · exact before

theorem RowsPrepared.insert {events : List Event} {state : State} {job : QueuedJob}
    (prepared : RowsPrepared events state) (now : Millis) (runNumber : Nat)
    (accepted : queuedJobSchema job = true)
    (enqueued : ∃ deliveryId now, Event.enqueue job deliveryId now ∈ events)
    (fresh : ∀ row ∈ state.jobs, row.id ≠ job.id) :
    RowsPrepared events { state with jobs := state.jobs ++ [queuedRow now runNumber job] } := by
  obtain ⟨deliveryId, at_, listed⟩ := enqueued
  refine ⟨(Acts.insert now runNumber job fresh).tidy prepared.tidy, ?_⟩
  intro row member
  rcases List.mem_append.mp member with old | new
  · exact prepared.rows row old
  · rw [List.mem_singleton.mp new]
    refine ⟨accepted, ⟨job, deliveryId, at_, listed, rfl, rfl, rfl, fun _ => rfl⟩, ?_, ?_⟩
    · intro waits
      by_contra unneeded
      simp only [needsInitialization, queuedRow] at unneeded waits
      simp [unneeded] at waits
    · intro _ ready needs
      simp only [needsInitialization, queuedRow] at needs ready
      simp [needs] at ready

/-! ### Every run -/

theorem RowPrepared.stored {events : List Event} {row : JobRow} {original job : QueuedJob}
    (accepted : queuedJobSchema original = true) (derived : Derived events original)
    (needs : needsInitialization original = true) (prepared : Prepared WellAnswered original job) :
    RowPrepared events
      { row with
        job := job
        initializationNeeded := .ready
        initializationRetryAt := none
        lastError := none } := by
  obtain ⟨token, report⟩ := prepared.flags
  obtain ⟨enqueued, deliveryId, now, listed, sameId, sameToken, sameReport, _⟩ := derived
  refine ⟨prepared.accepted accepted, ⟨enqueued, deliveryId, now, listed,
    prepared.id_eq.trans sameId, token.trans sameToken, report.trans sameReport, ?_⟩,
    fun wrong => absurd rfl wrong, fun _ _ _ => prepared.resolved⟩
  intro unneeded
  rw [needsInitialization, sameToken, sameReport] at needs
  rw [needsInitialization, needs] at unneeded
  cases unneeded

def runSpecUpkeep (events : List Event) : Upkeep where
  Inv := RowsPrepared events
  Known job := queuedJobSchema job = true ∧ Derived events job ∧ needsInitialization job = true
  Accepts job := queuedJobSchema job = true ∧ ∃ deliveryId now, .enqueue job deliveryId now ∈ events
  Answers := WellAnswered
  tables jobs _ prepared := by
    obtain ⟨tidy, rows⟩ := prepared
    refine ⟨⟨?_, ?_⟩, ?_⟩
    · rw [jobs]
      exact tidy.distinct
    · rw [jobs]
      exact tidy.named
    · rw [jobs]
      exact rows
  tidy := RowsPrepared.tidy
  known prepared row member waits :=
    have before := prepared.rows row member
    ⟨before.accepted, before.derived, before.waiting waits⟩
  ordinary rows prepared := prepared.updateJobs fun row member picked =>
    have change := rows row member picked
    ⟨change.id, by rw [change.job, prepared.tidy.named row member],
      (prepared.rows row member).ordinary change⟩
  store known prepared before := before.updateJobs fun row _ picked => by
    simp only [initializing, Bool.and_eq_true, decide_eq_true_eq] at picked
    exact ⟨rfl, prepared.id_eq.trans picked.1.1.symm,
      RowPrepared.stored known.1 known.2.1 known.2.2 prepared⟩
  complete row conclusion summary now prepared := prepared.complete row conclusion summary now
  exhaust conclusion summary now prepared found := prepared.exhaust conclusion summary now found
  finish jobId agentId conclusion summary now prepared := by
    refine prepared.completed ?_ ?_ ?_ jobId now
    · exact fun _ => ⟨rfl, rfl⟩
    · exact fun _ => rfl
    · exact fun _ => id
  insert now runNumber accepts fresh prepared :=
    prepared.insert now runNumber accepts.1 accepts.2 fresh
  prune now prepared :=
    ⟨(Acts.prune now).tidy prepared.tidy, forall_delete prepared.rows⟩
  deploy _ prepared := ⟨⟨prepared.tidy.distinct, prepared.tidy.named⟩, prepared.rows⟩

/-- The enqueued jobs pass the job schema, and the replies to initialization attempts are
well-formed. -/
def WellFormed (state : State) : Event → Prop
  | .enqueue job _ _ => queuedJobSchema job = true
  | .resume task reply _ => ∀ claim job rest,
      state.tasks[task]? = some (.initMergeSnapshot claim job :: rest) ∨
        state.tasks[task]? = some (.initVariables claim job :: rest) ∨
          state.tasks[task]? = some (.initCheckRun claim job :: rest) → WellAnswered job reply
  | _ => True

theorem rowsPrepared_run {events : List Event}
    (wellFormed : Machine.Along step WellFormed initial events) :
    RowsPrepared events (Machine.run step initial events) := by
  have admits : Machine.Along step (runSpecUpkeep events).Admits initial events := by
    refine Machine.Along.mono ?_ wellFormed.with_mem
    rintro state event ⟨good, listed⟩
    cases event with
    | enqueue job deliveryId now => exact ⟨good, deliveryId, now, listed⟩
    | resume task reply now =>
        intro frame rest waiting
        cases frame with
        | initMergeSnapshot claim job => exact good claim job rest (.inl waiting)
        | initVariables claim job => exact good claim job rest (.inr (.inl waiting))
        | initCheckRun claim job => exact good claim job rest (.inr (.inr waiting))
        | _ => trivial
    | _ => trivial
  have start : RowsPrepared events initial :=
    ⟨⟨List.nodup_nil, (fun _ member => nomatch member)⟩, fun _ member => nomatch member⟩
  exact ((runSpecUpkeep events).run start admits).inv

/-- The token with which `tryDispatch` goes on: a real one if the job requires it, or none. -/
def CredentialFor (job : QueuedJob) (credential : Option InstallationAccessToken) : Prop :=
  if job.requiresGithubToken then
    ∃ token, credential = some token ∧ token.token ≠ "" ∧
      positiveInteger token.expiresAtEpochSeconds = true
  else credential = none

/-- Whatever the token, the run that `tryDispatch` builds of the row passes the run schema. -/
def PassesRunSchema (state : State) (row : JobRow) : Prop :=
  ∀ credential, CredentialFor row.job credential →
    (dispatchSpec? state row.job credential).isSome = true

theorem passesRunSchema_iff {state : State} {row : JobRow}
    (accepted : queuedJobSchema row.job = true) :
    PassesRunSchema state row ↔ row.job.pullRequest.mergeSha.isSome = true ∧
      row.job.pullRequest.executionRef.isSome = true := by
  have each : ∀ credential, CredentialFor row.job credential →
      ((dispatchSpec? state row.job credential).isSome = true ↔
        row.job.pullRequest.mergeSha.isSome = true ∧
          row.job.pullRequest.executionRef.isSome = true) := by
    intro credential real
    unfold CredentialFor at real
    split at real
    · obtain ⟨token, rfl, filled, positive⟩ := real
      exact runSpec?_isSome accepted positive (by simp [filled])
    · subst real
      exact runSpec?_isSome accepted rfl (by simp)
  constructor
  · intro passes
    by_cases token : row.job.requiresGithubToken = true
    · have real : CredentialFor row.job (some ⟨"token", 1⟩) := by
        unfold CredentialFor
        rw [if_pos token]
        exact ⟨_, rfl, by decide, by decide⟩
      exact (each _ real).mp (passes _ real)
    · have real : CredentialFor row.job none := by
        unfold CredentialFor
        rw [if_neg token]
      exact (each _ real).mp (passes _ real)
  · intro resolved credential real
    exact (each credential real).mpr resolved

/-- `tryDispatch` selects rows that are ready and queued, and they stay ready until they are
completed. -/
theorem dispatched_runSpec_iff (events : List Event)
    (wellFormed : Machine.Along step WellFormed initial events) (row : JobRow)
    (member : row ∈ (Machine.run step initial events).jobs) (unfinished : row.status ≠ .completed)
    (ready : row.initializationNeeded = .ready) :
    ∃ job deliveryId now, Event.enqueue job deliveryId now ∈ events ∧ job.id = row.id ∧
      (PassesRunSchema (Machine.run step initial events) row ↔
        job.requiresGithubToken = true ∨ job.reportToGithub = true ∨
          job.pullRequest.mergeSha.isSome = true ∧ job.pullRequest.executionRef.isSome = true) := by
  have prepared := rowsPrepared_run wellFormed
  have before := prepared.rows row member
  obtain ⟨job, deliveryId, now, listed, sameId, token, report, unchanged⟩ := before.derived
  refine ⟨job, deliveryId, now, listed,
    sameId.symm.trans (prepared.tidy.named row member), ?_⟩
  rw [passesRunSchema_iff before.accepted]
  by_cases needs : needsInitialization row.job = true
  · have flags : job.requiresGithubToken = true ∨ job.reportToGithub = true := by
      rw [needsInitialization, token, report] at needs
      simpa using needs
    exact iff_of_true (before.resolved unfinished ready needs) (by tauto)
  · rw [needsInitialization, token, report] at needs
    rw [unchanged (by simpa [needsInitialization] using needs)]
    simp only [Bool.or_eq_true, not_or] at needs
    tauto

end Text

namespace Sample

open Ascii

/-- A job that waits for its Actions variables, which then arrive. -/
def initializedRun : List Event :=
  [.enqueue (Ascii.job 1) "d" 0, .resume 0 (.actionsVariables []) 1]

/-- What is sent of the job passes the schema of the agent. -/
theorem initialized_run_passes :
    ∃ row ∈ (Machine.run step initial initializedRun).jobs, row.status = .queued ∧
      row.initializationNeeded = .ready ∧
        PassesRunSchema (Machine.run step initial initializedRun) row := by
  have wellFormed : Machine.Along step WellFormed initial initializedRun := by
    refine ⟨?_, ?_, trivial⟩
    · show queuedJobSchema (Ascii.job 1) = true
      decide
    · intro claim job rest _
      trivial
  have selected : ∃ row ∈ (Machine.run step initial initializedRun).jobs, row.status = .queued ∧
      row.initializationNeeded = .ready := by decide
  obtain ⟨row, member, queued, ready⟩ := selected
  obtain ⟨job, deliveryId, now, listed, _, passes⟩ := dispatched_runSpec_iff initializedRun
    wellFormed row member (by rw [queued]; exact nofun) ready
  refine ⟨row, member, queued, ready, passes.mpr (.inl ?_)⟩
  simp only [initializedRun, List.mem_cons, List.not_mem_nil, or_false, reduceCtorEq,
    Event.enqueue.injEq] at listed
  rw [listed.1]
  rfl

/-- A manual job with the default flags and without a merge snapshot. -/
def manualJob : QueuedJob :=
  { id := 1
    installationId := 0
    repository :=
      { owner := "owner", name := "name", cloneUrl := "https://github.com/owner/name.git" }
    pullRequest :=
      { number := 1
        action := "opened"
        headSha := "1111111111111111111111111111111111111111"
        baseSha := "2222222222222222222222222222222222222222"
        headRef := "feature"
        baseRef := "main" }
    requiresGithubToken := false
    reportToGithub := false }

def manualRun : List Event :=
  [.connect "a" 0, .message 0 (.hello (Ascii.hello "a" 1)) 0, .enqueue manualJob "manual:1" 0]

/-- The job is selected, its run does not pass the schema, and the job goes back to the queue. -/
theorem manual_job_fails_run_schema :
    queuedJobSchema manualJob = true ∧
      (Machine.run step initial manualRun).jobs.map
        (fun row => (row.id, row.status, row.initializationNeeded, row.attemptCount,
          row.lastError)) =
        [(1, .queued, .ready, 1, some "assignment could not be delivered")] ∧
      ¬ ∀ row ∈ (Machine.run step initial manualRun).jobs, row.status ≠ .completed →
        row.initializationNeeded = .ready →
          PassesRunSchema (Machine.run step initial manualRun) row := by
  refine ⟨by decide, by decide, fun claim => ?_⟩
  have selected : ∃ row ∈ (Machine.run step initial manualRun).jobs, row.status ≠ .completed ∧
      row.initializationNeeded = .ready ∧ row.job.requiresGithubToken = false ∧
        dispatchSpec? (Machine.run step initial manualRun) row.job none = none := by decide
  obtain ⟨row, member, unfinished, ready, anonymous, refused⟩ := selected
  have passes := claim row member unfinished ready none (by simp [CredentialFor, anonymous])
  rw [refused] at passes
  cases passes

end Sample

end GitZero.ControlPlane
