/-
Module: GitZero.Proofs.CheckoutAuthorization
Purpose: Which credential a successful materialization has relied on, over every sequence
  of materializations of a run.
Trusted boundary: none; paths are compared as texts, as on a case-sensitive volume
Main exports: Separate, own_credential_decides, crossRepositoryCheckout_consists,
  cached_resolution_serves_other_token
-/
import GitZero.Agent.RemoteRepositories
import GitZero.Lib.Machine

namespace GitZero.Agent.RemoteRepositories

open Machine

variable {readable : Credential → Bool}

/-! ### One materialization -/

/-- The call has shown that its own credential can read the remote, or it has used a
resolution that was there. -/
def Admits (readable : Credential → Bool) (files : Files) (call : Materialization) : Prop :=
  readable call.credential = true ∨
    (call.unprobed = true ∧ (files.resolutions call.resolutionPath).isSome = true)

/-- What a materialization leaves of the run's own files. -/
structure Leaves (readable : Credential → Bool) (call : Materialization) (before after : Files) :
    Prop where
  checkouts : ∀ path ∈ after.checkouts, path ∈ before.checkouts ∨
    (path = call.checkoutPath ∧ Admits readable before call)
  resolutions : ∀ path, (after.resolutions path).isSome = true →
    (before.resolutions path).isSome = true ∨
      (path = call.resolutionPath ∧ readable call.credential = true)

section One

variable {call : Materialization} {outcomes : Outcomes} {files after : Files}

theorem ensureRemoteRepositoryCache_frame :
    (ensureRemoteRepositoryCache readable call outcomes files).1.checkouts = files.checkouts ∧
      (ensureRemoteRepositoryCache readable call outcomes files).1.resolutions =
        files.resolutions := by
  unfold ensureRemoteRepositoryCache
  split
  · exact ⟨rfl, rfl⟩
  · split
    · exact ⟨rfl, rfl⟩
    · split
      · exact ⟨rfl, rfl⟩
      · exact ⟨rfl, rfl⟩

theorem fetchRemoteRepository_leaves :
    (fetchRemoteRepository readable call outcomes files).1.checkouts = files.checkouts ∧
      (∀ path, ((fetchRemoteRepository readable call outcomes files).1.resolutions path).isSome =
          true → (files.resolutions path).isSome = true ∨
        (path = call.resolutionPath ∧ readable call.credential = true)) ∧
      ((fetchRemoteRepository readable call outcomes files).2 = .ok () →
        readable call.credential = true) := by
  unfold fetchRemoteRepository
  split
  · exact ⟨rfl, fun _ there => .inl there, fun ended => by cases ended⟩
  · rename_i access
    have allowed : readable call.credential = true := by simpa using access
    obtain ⟨checkouts, resolutions⟩ := files.changeCache_frame call fun cache =>
      { cache with commits := outcomes.fetched :: cache.commits }
    dsimp only
    split
    · exact ⟨checkouts, fun path there => .inl (resolutions ▸ there), fun _ => allowed⟩
    · split
      · exact ⟨checkouts, fun path there => .inl (resolutions ▸ there), fun _ => allowed⟩
      · exact ⟨checkouts, fun path there => .inl (resolutions ▸ there), fun _ => allowed⟩
      · refine ⟨checkouts, fun path there => ?_, fun _ => allowed⟩
        by_cases mine : path = call.resolutionPath
        · exact .inr ⟨mine, allowed⟩
        · dsimp only at there
          rw [Function.update_of_ne mine, resolutions] at there
          exact .inl there

theorem publishCheckout_leaves :
    (∀ path ∈ (publishCheckout call outcomes files).1.checkouts, path ∈ files.checkouts ∨
      path = call.checkoutPath) ∧
      (publishCheckout call outcomes files).1.resolutions = files.resolutions := by
  unfold publishCheckout
  split
  · exact ⟨fun _ there => .inl there, rfl⟩
  · obtain ⟨checkouts, resolutions⟩ := files.changeCache_frame call fun cache =>
      { cache with hasRefs := true }
    dsimp only
    split
    · exact ⟨fun _ there => .inl (checkouts ▸ there), resolutions⟩
    · refine ⟨fun path there => ?_, resolutions⟩
      rcases List.mem_cons.mp there with mine | old
      · exact .inr mine
      · exact .inl (checkouts ▸ old)

/-- Of a materialization that returns a checkout: the checkout was there, or the call was
admitted. -/
theorem materialize_leaves :
    Leaves readable call files
        (materializeRemoteRepositoryWithFetch readable call outcomes files).1 ∧
      ∀ path, (materializeRemoteRepositoryWithFetch readable call outcomes files).2 = .ok path →
        call.checkoutPath ∈ files.checkouts ∨ Admits readable files call := by
  have kept : Leaves readable call files files :=
    ⟨fun _ there => .inl there, fun _ there => .inl there⟩
  unfold materializeRemoteRepositoryWithFetch
  split
  · rename_i present
    exact ⟨kept, fun _ _ => .inl (by simpa using present)⟩
  · obtain ⟨checkouts, resolutions⟩ :=
      @ensureRemoteRepositoryCache_frame readable call outcomes files
    cases ensured : ensureRemoteRepositoryCache readable call outcomes files with
    | mk current result =>
        rw [ensured] at checkouts resolutions
        dsimp only at checkouts resolutions
        have unchanged : Leaves readable call files current :=
          ⟨fun _ there => .inl (checkouts ▸ there), fun _ there => .inl (resolutions ▸ there)⟩
        cases result with
        | error error => exact ⟨unchanged, fun _ ended => by cases ended⟩
        | ok =>
            dsimp only
            split
            · rename_i commit cached
              split
              · exact ⟨unchanged, fun _ ended => by cases ended⟩
              · rename_i passed
                -- The probe has succeeded, or there was none.
                have admitted : Admits readable files call := by
                  by_cases unprobed : call.unprobed = true
                  · refine .inr ⟨unprobed, ?_⟩
                    rw [← resolutions]
                    unfold readCachedRemoteResolution at cached
                    split at cached
                    · cases cached
                    · rename_i stored
                      rw [stored]
                      rfl
                  · left
                    simpa [unprobed] using passed
                obtain ⟨published, same⟩ := @publishCheckout_leaves call outcomes current
                refine ⟨⟨fun path there => ?_, fun path there => ?_⟩, fun _ _ => .inr admitted⟩
                · rcases published path there with old | mine
                  · exact .inl (checkouts ▸ old)
                  · exact .inr ⟨mine, admitted⟩
                · rw [same, resolutions] at there
                  exact .inl there
            · obtain ⟨fetchedCheckouts, fetchedResolutions, allowed⟩ :=
                @fetchRemoteRepository_leaves readable call outcomes current
              cases ran : fetchRemoteRepository readable call outcomes current with
              | mk fetched outcome =>
                  rw [ran] at fetchedCheckouts fetchedResolutions allowed
                  dsimp only at fetchedCheckouts fetchedResolutions allowed
                  rw [checkouts] at fetchedCheckouts
                  rw [resolutions] at fetchedResolutions
                  cases outcome with
                  | error error =>
                      refine ⟨⟨fun _ there => ?_, fetchedResolutions⟩,
                        fun _ ended => by cases ended⟩
                      exact .inl (fetchedCheckouts ▸ there)
                  | ok =>
                      have admitted : Admits readable files call := .inl (allowed rfl)
                      obtain ⟨published, same⟩ := @publishCheckout_leaves call outcomes fetched
                      refine ⟨⟨fun path there => ?_, fun path there => ?_⟩,
                        fun _ _ => .inr admitted⟩
                      · rcases published path there with old | mine
                        · exact .inl (fetchedCheckouts ▸ old)
                        · exact .inr ⟨mine, admitted⟩
                      · dsimp only at there
                        rw [same] at there
                        exact fetchedResolutions path there

/-- The commands that do not ask the remote for access succeed. -/
structure Outcomes.Fair (outcomes : Outcomes) : Prop where
  initialized : outcomes.initialized = none
  advertised : (outcomes.advertised.bind GitObjectFormat.fromObjectId).isSome = true
  fetched : (GitObjectFormat.fromObjectId outcomes.fetched).isSome = true
  canonicalRef : outcomes.canonicalRef = none
  write : outcomes.write = none
  retain : outcomes.retain = none
  publish : outcomes.publish = none

theorem ensureRemoteRepositoryCache_fair (fair : outcomes.Fair)
    (allowed : readable call.credential = true) :
    (ensureRemoteRepositoryCache readable call outcomes files).2 = .ok () := by
  unfold ensureRemoteRepositoryCache
  split
  · rfl
  · have format : ∃ found, remoteRepositoryObjectFormat readable call outcomes = .ok found := by
      unfold remoteRepositoryObjectFormat
      split
      · exact ⟨_, rfl⟩
      · obtain ⟨found, isFound⟩ := Option.isSome_iff_exists.mp fair.advertised
        obtain ⟨objectId, isId, parsed⟩ := Option.bind_eq_some_iff.mp isFound
        rw [if_neg (by simp [allowed]), isId]
        dsimp only
        rw [parsed]
        exact ⟨found, rfl⟩
    obtain ⟨found, isFormat⟩ := format
    rw [isFormat, fair.initialized]

theorem fetchRemoteRepository_fair (fair : outcomes.Fair)
    (allowed : readable call.credential = true) :
    (fetchRemoteRepository readable call outcomes files).2 = .ok () := by
  unfold fetchRemoteRepository
  have valid : (GitObjectFormat.fromObjectId outcomes.fetched).isNone = false := by
    rw [Option.isNone_eq_false_iff]
    exact fair.fetched
  rw [if_neg (by simp [allowed])]
  dsimp only
  rw [valid, if_neg Bool.false_ne_true, fair.canonicalRef, fair.write]

theorem publishCheckout_fair (fair : outcomes.Fair) :
    (publishCheckout call outcomes files).2 = .ok call.checkoutPath := by
  unfold publishCheckout
  rw [fair.retain]
  dsimp only
  rw [fair.publish]

/-- A credential that can read the remote is enough. -/
theorem materialize_fair (fair : outcomes.Fair) (allowed : readable call.credential = true) :
    (materializeRemoteRepositoryWithFetch readable call outcomes files).2 =
      .ok call.checkoutPath := by
  unfold materializeRemoteRepositoryWithFetch
  split
  · rfl
  · cases ensured : ensureRemoteRepositoryCache readable call outcomes files with
    | mk current result =>
        have ok := @ensureRemoteRepositoryCache_fair readable call outcomes files fair allowed
        rw [ensured] at ok
        cases ok
        dsimp only
        split
        · rw [if_neg (by simp [allowed])]
          exact publishCheckout_fair fair
        · cases ran : fetchRemoteRepository readable call outcomes current with
          | mk fetched outcome =>
              have done := @fetchRemoteRepository_fair readable call outcomes current fair allowed
              rw [ran] at done
              cases done
              exact publishCheckout_fair fair

end One

/-! ### Sequences of materializations -/

/-- A materialization of the run, or a change that other runs make to a shared cache. -/
inductive Event where
  | materialize (call : Materialization) (outcomes : Outcomes)
  | cacheChanged (owner repository : String) (cache : Option RepositoryCache)

def step (readable : Credential → Bool) (files : Files) : Event → Files
  | .materialize call outcomes =>
      (materializeRemoteRepositoryWithFetch readable call outcomes files).1
  | .cacheChanged owner repository cache =>
      { files with caches := Function.update files.caches (owner, repository) cache }

def callsOf (events : List Event) : List Materialization :=
  events.filterMap fun
    | .materialize call _ => some call
    | .cacheChanged _ _ _ => none

/-- The later call may use what the earlier one left: its checkout, or its resolution
without a probe. -/
def Shares (earlier later : Materialization) : Prop :=
  earlier.checkoutPath = later.checkoutPath ∨
    (later.unprobed = true ∧ earlier.resolutionPath = later.resolutionPath)

instance (earlier later : Materialization) : Decidable (Shares earlier later) :=
  inferInstanceAs (Decidable (_ ∨ _))

/-- No call may use what another credential left that can read the remote. -/
def Separate (readable : Credential → Bool) (calls : List Materialization) : Prop :=
  calls.Pairwise fun earlier later =>
    readable earlier.credential = true → Shares earlier later →
      earlier.credential = later.credential

instance (readable : Credential → Bool) (calls : List Materialization) :
    Decidable (Separate readable calls) :=
  inferInstanceAs (Decidable (List.Pairwise _ _))

/-- Every checkout and every resolution comes from a call whose own credential can read. -/
structure Traced (readable : Credential → Bool) (calls : List Materialization) (files : Files) :
    Prop where
  checkouts : ∀ path ∈ files.checkouts, ∃ call ∈ calls, call.checkoutPath = path ∧
    readable call.credential = true
  resolutions : ∀ path, (files.resolutions path).isSome = true → ∃ call ∈ calls,
    call.resolutionPath = path ∧ readable call.credential = true

section Runs

variable {calls : List Materialization} {files : Files} {call : Materialization}

theorem Traced.mono (traced : Traced readable calls files) (more : List Materialization) :
    Traced readable (calls ++ more) files := by
  constructor
  · intro path there
    obtain ⟨origin, member, found⟩ := traced.checkouts path there
    exact ⟨origin, List.mem_append_left _ member, found⟩
  · intro path there
    obtain ⟨origin, member, found⟩ := traced.resolutions path there
    exact ⟨origin, List.mem_append_left _ member, found⟩

theorem Traced.readable_of_shares (separate : Separate readable (calls ++ [call]))
    {origin : Materialization} (member : origin ∈ calls) (shares : Shares origin call)
    (allowed : readable origin.credential = true) : readable call.credential = true := by
  have apart := (List.pairwise_append.mp separate).2.2 origin member call List.mem_cons_self
  rw [← apart allowed shares]
  exact allowed

/-- An admitted call of a separate sequence has access of its own. -/
theorem Traced.readable_of_admits (traced : Traced readable calls files)
    (separate : Separate readable (calls ++ [call])) (admits : Admits readable files call) :
    readable call.credential = true := by
  rcases admits with allowed | ⟨unprobed, there⟩
  · exact allowed
  · obtain ⟨origin, member, same, allowed⟩ := traced.resolutions _ there
    exact readable_of_shares separate member (.inr ⟨unprobed, same⟩) allowed

theorem Traced.materialize (traced : Traced readable calls files)
    (separate : Separate readable (calls ++ [call])) (outcomes : Outcomes) :
    Traced readable (calls ++ [call])
      (materializeRemoteRepositoryWithFetch readable call outcomes files).1 := by
  obtain ⟨leaves, -⟩ := @materialize_leaves readable call outcomes files
  have old := traced.mono [call]
  have mine : call ∈ calls ++ [call] := List.mem_append_right _ List.mem_cons_self
  constructor
  · intro path there
    rcases leaves.checkouts path there with earlier | ⟨rfl, admits⟩
    · exact old.checkouts path earlier
    · exact ⟨call, mine, rfl, traced.readable_of_admits separate admits⟩
  · intro path there
    rcases leaves.resolutions path there with earlier | ⟨rfl, allowed⟩
    · exact old.resolutions path earlier
    · exact ⟨call, mine, rfl, allowed⟩

theorem callsOf_append (front back : List Event) :
    callsOf (front ++ back) = callsOf front ++ callsOf back :=
  List.filterMap_append

theorem Separate.front {more : List Materialization}
    (separate : Separate readable (calls ++ more)) : Separate readable calls :=
  (List.pairwise_append.mp separate).1

theorem traced_run (caches : String × String → Option RepositoryCache) (events : List Event)
    (separate : Separate readable (callsOf events)) :
    Traced readable (callsOf events) (run (step readable) { caches := caches } events) := by
  induction events using List.reverseRecOn with
  | nil =>
      constructor
      · exact fun _ there => by cases there
      · exact fun _ there => by cases there
  | append_singleton events event inductionHypothesis =>
      rw [callsOf_append] at separate ⊢
      rw [run_append]
      have earlier := inductionHypothesis separate.front
      cases event with
      | materialize call outcomes => exact earlier.materialize separate outcomes
      | cacheChanged owner repository cache =>
          have same : callsOf [Event.cacheChanged owner repository cache] = [] := rfl
          rw [same, List.append_nil]
          exact ⟨earlier.checkouts, earlier.resolutions⟩

end Runs

/-- In every sequence whose calls do not share what other credentials left, a
materialization returns a checkout only if its own credential can read the remote, and
then it does return one if its local commands succeed. -/
theorem own_credential_decides (readable : Credential → Bool)
    (caches : String × String → Option RepositoryCache) (front back : List Event)
    (call : Materialization) (outcomes : Outcomes)
    (separate : Separate readable (callsOf (front ++ .materialize call outcomes :: back))) :
    let files := run (step readable) { caches := caches } front
    let result := (materializeRemoteRepositoryWithFetch readable call outcomes files).2
    ((∃ path, result = .ok path) → readable call.credential = true) ∧
      (outcomes.Fair → readable call.credential = true → ∃ path, result = .ok path) := by
  intro files result
  have upTo : Separate readable (callsOf front ++ [call]) := by
    have split : front ++ Event.materialize call outcomes :: back =
        (front ++ [.materialize call outcomes]) ++ back := by simp
    rw [split, callsOf_append, callsOf_append] at separate
    exact separate.front
  have traced := traced_run caches front upTo.front
  constructor
  · rintro ⟨path, returned⟩
    rcases (@materialize_leaves readable call outcomes files).2 path returned with there | admits
    · obtain ⟨origin, member, same, allowed⟩ := traced.checkouts _ there
      exact Traced.readable_of_shares upTo member (.inl same) allowed
    · exact traced.readable_of_admits upTo admits
  · intro fair allowed
    exact ⟨call.checkoutPath, materialize_fair fair allowed⟩

/-- The sequence ends with the materialization, under the token, of what is returned. -/
def EndsWith (readable : Credential → Bool) (files : Files) (events : List Event)
    (result : Except String (CheckoutPath × Option String)) : Prop :=
  ∀ snapshot token, result = .ok (snapshot, token) →
    ∃ front call outcomes, events = front ++ [.materialize call outcomes] ∧
      call.checkoutToken = token ∧ (materializeRemoteRepositoryWithFetch readable call outcomes
        (run (step readable) files front)).2 = .ok snapshot

/-- The sequence leads to the files and ends with what is returned. -/
def Consists (readable : Credential → Bool) (files : Files)
    (result : Files × Except String (CheckoutPath × Option String)) : Prop :=
  ∃ events, result.1 = run (step readable) files events ∧
    EndsWith readable files events result.2

section Cross

variable {checkout : CrossCheckout} {outcomes : Outcomes} {files : Files}

theorem endsWith_last {call : Materialization} {token : Option String}
    (same : call.checkoutToken = token) (front : List Event) :
    EndsWith readable files (front ++ [.materialize call outcomes])
      ((materializeRemoteRepositoryWithFetch readable call outcomes
        (run (step readable) files front)).2.map fun snapshot => (snapshot, token)) := by
  intro snapshot other ended
  cases result : (materializeRemoteRepositoryWithFetch readable call outcomes
      (run (step readable) files front)).2 with
  | error error =>
      rw [result] at ended
      cases ended
  | ok found =>
      rw [result] at ended
      cases ended
      exact ⟨front, call, outcomes, rfl, same, result⟩

theorem endsWith_error (events : List Event) (error : String) :
    EndsWith readable files events (.error error) :=
  fun _ _ ended => by cases ended

theorem withToken_events (token : String) (front : List Event) :
    (checkout.withToken readable token outcomes (run (step readable) files front)).1 =
        run (step readable) files
          (front ++ [.materialize (checkout.call .checkoutManaged (some token)) outcomes]) ∧
      EndsWith readable files
        (front ++ [.materialize (checkout.call .checkoutManaged (some token)) outcomes])
        (checkout.withToken readable token outcomes (run (step readable) files front)).2 := by
  constructor
  · rw [run_append]
    rfl
  · exact endsWith_last rfl front

theorem withRequestedToken_consists (front : List Event) :
    Consists readable files
      (checkout.withRequestedToken readable outcomes (run (step readable) files front)) := by
  unfold CrossCheckout.withRequestedToken
  split
  · exact ⟨front, rfl, endsWith_error _ _⟩
  · exact ⟨_, withToken_events _ front⟩

end Cross

/-- A checkout of another repository is a sequence of materializations, and the last of
them has made what it returns. -/
theorem crossRepositoryCheckout_consists (readable : Credential → Bool) (checkout : CrossCheckout)
    (first second third : Outcomes) (files : Files) :
    Consists readable files (materializeCrossRepositoryCheckoutSnapshot readable checkout first
      second third files) := by
  unfold materializeCrossRepositoryCheckoutSnapshot
  split
  · exact ⟨_, withToken_events _ []⟩
  · let anonymous : Event := .materialize (checkout.call .checkoutAnonymous none) first
    cases attempt : materializeRemoteRepositoryWithFetch readable
        (checkout.call .checkoutAnonymous none) first files with
    | mk tried result =>
        have reached : run (step readable) files [anonymous] = tried := congrArg Prod.fst attempt
        cases result with
        | ok snapshot =>
            refine ⟨[anonymous], reached.symm, ?_⟩
            have last := @endsWith_last readable first files (checkout.call .checkoutAnonymous none)
              none rfl []
            rw [run_nil, attempt] at last
            exact last
        | error error =>
            dsimp only
            split
            · exact ⟨[anonymous], reached.symm, endsWith_error _ _⟩
            · rw [← reached]
              split
              · exact withRequestedToken_consists [anonymous]
              · rename_i token _
                have cached := @withToken_events readable checkout second files token [anonymous]
                split
                · rename_i current snapshot again
                  rw [again] at cached
                  exact ⟨_, cached⟩
                · rename_i current error again
                  rw [again] at cached
                  rw [show current = _ from cached.1]
                  exact withRequestedToken_consists _

namespace Sample

def commit : String := "1111111111111111111111111111111111111111"

def fair : Outcomes :=
  { initialized := none
    advertised := some commit
    fetched := commit
    canonicalRef := none
    write := none
    retain := none
    publish := none }

/-- Only the token of the GitHub App can read the repository. -/
def appOnly (credential : Credential) : Bool := credential.token = some "app"

def privateCheckout (job : String) (access : CrossRepositoryCheckoutAccess) : CrossCheckout :=
  { stepId := job ++ "/checkout"
    owner := "acme"
    name := "private"
    cloneUrl := "https://github.com/acme/private.git"
    gitRef := "main"
    sameOwner := true
    access := access
    cachedToken := none
    requestedToken := .ok "app" }

def managed (job token : String) : Materialization :=
  (privateCheckout job (.explicitManagedToken token)).call .checkoutManaged (some token)

def anonymous (job : String) : Materialization :=
  (privateCheckout job .managedFallback).call .checkoutAnonymous none

/-- The job `build` has tried without a token and then succeeded with that of the App. -/
def appTokenFirst : List Event :=
  [.materialize (anonymous "build") fair, .materialize (managed "build" "app") fair]

/-- What the App's token has left does not serve an attempt without a token, of the same ref in
another job; with the App's token that job does get its checkout. -/
theorem app_token_decides :
    let files := run (step appOnly) { caches := fun _ => none } appTokenFirst
    (¬ ∃ path, (materializeRemoteRepositoryWithFetch appOnly (anonymous "deploy") fair files).2 =
      .ok path) ∧
      ∃ path, (materializeRemoteRepositoryWithFetch appOnly (managed "deploy" "app") fair files).2 =
        .ok path := by
  intro files
  have isFair : fair.Fair := by constructor <;> decide
  have separate : Separate appOnly (callsOf (appTokenFirst ++
      .materialize (anonymous "deploy") fair :: [.materialize (managed "deploy" "app") fair])) := by
    decide
  have separateManaged : Separate appOnly (callsOf (appTokenFirst ++
      .materialize (managed "deploy" "app") fair :: [])) := by
    decide
  obtain ⟨only, -⟩ := own_credential_decides appOnly (fun _ => none) appTokenFirst
    [.materialize (managed "deploy" "app") fair] (anonymous "deploy") fair separate
  obtain ⟨-, enough⟩ := own_credential_decides appOnly (fun _ => none) appTokenFirst []
    (managed "deploy" "app") fair separateManaged
  refine ⟨fun returned => ?_, enough isFair (by decide)⟩
  exact absurd (only returned) (by decide)

/-- The attempt without a token finds a resolution of its ref, with the commit in the cache. -/
example : readCachedRemoteResolution (anonymous "deploy")
    (run (step appOnly) { caches := fun _ => none } appTokenFirst) = some commit := by
  decide

/-- One job checks the repository out with the managed token; another job of the run then
gets a checkout with a secret that cannot read it, and gets none without the first. -/
theorem cached_resolution_serves_other_token :
    let before := (materializeCrossRepositoryCheckoutSnapshot appOnly
      (privateCheckout "build" .managedFallback) fair fair fair {}).1
    let explicit := privateCheckout "deploy" (.explicitManagedToken "pat")
    ((materializeCrossRepositoryCheckoutSnapshot appOnly explicit fair fair fair
      before).2.toOption.map
        (·.2) = some (some "pat")) ∧
      appOnly (managed "deploy" "pat").credential = false ∧
      (materializeCrossRepositoryCheckoutSnapshot appOnly explicit fair fair fair
        {}).2.toOption.isNone
        = true := by
  decide

end Sample

end GitZero.Agent.RemoteRepositories
