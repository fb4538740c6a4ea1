/-
Module: GitZero.Agent.RemoteRepositories
Purpose: Materialization of remote repositories: the checkouts and ref resolutions of a
  run, the object caches that all runs share, and which Git commands a call runs under
  its own credential.
Trusted boundary: whether a Git command that talks to the remote succeeds is decided by
  the parameter `readable`; what the other commands and the file system do is data.  Paths are
  compared as texts, as on a case-sensitive volume.
Main exports: Materialization, materializeRemoteRepositoryWithFetch,
  materializeCrossRepositoryCheckoutSnapshot
-/
import GitZero.Agent.Processes
import Mathlib.Logic.Function.Basic

namespace GitZero.Agent.RemoteRepositories

/-! ### Calls -/

/-- For whom a repository is checked out, which decides on the credential and on the directory. -/
inductive RemoteRepositoryMaterializationScope where
  | sharedSource
  | checkoutAnonymous
  | checkoutManaged
  | checkoutSsh
deriving Repr, DecidableEq

def RemoteRepositoryMaterializationScope.directoryName :
    RemoteRepositoryMaterializationScope → String
  | .sharedSource => "shared-source"
  | .checkoutAnonymous => "checkout-anonymous"
  | .checkoutManaged => "checkout-managed"
  | .checkoutSsh => "checkout-ssh"

/-- What a Git process gets to reach a remote: the environment and the token of
`configure_remote_repository_access`, and the URL. -/
structure Credential where
  token : Option String
  environment : Option (List (String × String))
  remote : String
deriving Repr, DecidableEq

/-- A call of `materialize_remote_repository`, with the credential it runs Git under. -/
structure Materialization where
  stepId : String
  owner : String
  repository : String
  gitRef : String
  cacheRemote : String
  fetchRemote : String
  scope : RemoteRepositoryMaterializationScope
  checkoutToken : Option String
  checkoutEnvironment : Option (List (String × String))
deriving Repr, DecidableEq

/-- The directory of a checkout under the run directory.  The last component of the path
is the ref in URL-safe Base64, which stands for the ref itself. -/
structure CheckoutPath where
  job : String
  scope : String
  owner : String
  repository : String
  gitRef : String
deriving Repr, DecidableEq

/-- The file with the commit of a ref, under the run directory. -/
structure ResolutionPath where
  owner : String
  repository : String
  gitRef : String
deriving Repr, DecidableEq

/-- `text.rsplit_once(mark)` -/
def rsplitOnce (mark : Char) (text : String) : Option (String × String) :=
  let reversed := text.toList.reverse
  if text.toList.contains mark then
    some (String.ofList ((reversed.dropWhile (· ≠ mark)).drop 1).reverse,
      String.ofList (reversed.takeWhile (· ≠ mark)).reverse)
  else none

namespace Materialization

def job (call : Materialization) : String :=
  ((rsplitOnce '/' call.stepId).map (·.1)).getD "job"

def checkoutPath (call : Materialization) : CheckoutPath :=
  { job := sanitizeId call.job
    scope := call.scope.directoryName
    owner := call.owner
    repository := call.repository
    gitRef := call.gitRef }

def resolutionPath (call : Materialization) : ResolutionPath :=
  { owner := call.owner
    repository := call.repository
    gitRef := call.gitRef }

/-- The remote `origin` of a cache is the call's own `cacheRemote`. -/
def remote (call : Materialization) : String :=
  if call.fetchRemote = "origin" then call.cacheRemote else call.fetchRemote

def credential (call : Materialization) : Credential :=
  { token := call.checkoutToken
    environment := call.checkoutEnvironment
    remote := call.remote }

end Materialization

/-! ### Files -/

/-- An object cache under the work root: whether it is a bare repository, its remote, and the
commits that it has. -/
structure RepositoryCache where
  bare : Bool
  origin : Option String
  hasRefs : Bool
  commits : List String
deriving Repr, DecidableEq

/-- The files that materializations read and write: those of the run, and the caches
under the work root. -/
structure Files where
  checkouts : List CheckoutPath := []
  resolutions : ResolutionPath → Option String := fun _ => none
  caches : String × String → Option RepositoryCache := fun _ => none

/-- The hash function of a repository. -/
inductive GitObjectFormat where
  | sha1
  | sha256
deriving Repr, DecidableEq

def isHexDigit (char : Char) : Bool :=
  char.isDigit || ('a' ≤ char && char ≤ 'f') || ('A' ≤ char && char ≤ 'F')

def GitObjectFormat.fromObjectId (objectId : String) : Option GitObjectFormat :=
  if objectId.toList.all isHexDigit then
    if objectId.length = 40 then some .sha1
    else if objectId.length = 64 then some .sha256
    else none
  else none

/-- How the commands that do not ask the remote for access end: the text of the error for
those that fail, and what the others print. -/
structure Outcomes where
  /-- `git init` of a cache and its `origin` -/
  initialized : Option String
  /-- the object id that the remote advertises for `HEAD` or the ref -/
  advertised : Option String
  /-- `rev-parse FETCH_HEAD^{commit}` -/
  fetched : String
  canonicalRef : Option String
  /-- the resolution files -/
  write : Option String
  /-- `update-ref` -/
  retain : Option String
  /-- `git clone`, `git checkout` and the rename -/
  publish : Option String

section Materialize

variable (readable : Credential → Bool)

def remoteRepositoryObjectFormat (call : Materialization) (outcomes : Outcomes) :
    Except String GitObjectFormat :=
  match GitObjectFormat.fromObjectId call.gitRef with
  | some format => .ok format
  | none =>
      if !readable call.credential then
        .error ("detect Git object format for remote ref " ++ call.gitRef)
      else
        match outcomes.advertised with
        | none => .error "remote did not advertise HEAD or the selected ref"
        | some objectId =>
            match GitObjectFormat.fromObjectId objectId with
            | none => .error "remote advertised an unsupported Git object format"
            | some format => .ok format

def remoteRepositoryCacheIsValid (cache : Option RepositoryCache) (remote : String) : Bool :=
  cache.any fun cache => cache.bare && cache.origin = some remote && cache.hasRefs

def Files.setCache (files : Files) (call : Materialization) (cache : RepositoryCache) : Files :=
  { files with
    caches := Function.update files.caches (call.owner, call.repository) (some cache) }

/-- A command changes the cache of the call's repository. -/
def Files.changeCache (files : Files) (call : Materialization)
    (change : RepositoryCache → RepositoryCache) : Files :=
  match files.caches (call.owner, call.repository) with
  | none => files
  | some cache => files.setCache call (change cache)

theorem Files.changeCache_frame (files : Files) (call : Materialization)
    (change : RepositoryCache → RepositoryCache) :
    (files.changeCache call change).checkouts = files.checkouts ∧
      (files.changeCache call change).resolutions = files.resolutions := by
  unfold changeCache
  split <;> exact ⟨rfl, rfl⟩

def ensureRemoteRepositoryCache (call : Materialization) (outcomes : Outcomes) (files : Files) :
    Files × Except String Unit :=
  if remoteRepositoryCacheIsValid (files.caches (call.owner, call.repository)) call.cacheRemote then
    (files, .ok ())
  else
    match remoteRepositoryObjectFormat readable call outcomes with
    | .error error => (files, .error error)
    | .ok _ =>
        match outcomes.initialized with
        | some error => (files, .error error)
        | none =>
            (files.setCache call
              { bare := true, origin := some call.cacheRemote, hasRefs := false, commits := [] },
              .ok ())

def readCachedRemoteResolution (call : Materialization) (files : Files) : Option String :=
  match files.resolutions call.resolutionPath with
  | none => none
  | some commit =>
      if (GitObjectFormat.fromObjectId commit).isSome &&
          (files.caches (call.owner, call.repository)).any (·.commits.contains commit) then
        some commit
      else none

/-- A cached resolution is used without asking the remote. -/
def Materialization.unprobed (call : Materialization) : Bool :=
  !(call.checkoutToken.isNone || call.checkoutEnvironment.isSome)

/-- The end of a materialization: the commit is retained and checked out. -/
def publishCheckout (call : Materialization) (outcomes : Outcomes) (files : Files) :
    Files × Except String CheckoutPath :=
  match outcomes.retain with
  | some error => (files, .error error)
  | none =>
      let retained := files.changeCache call fun cache => { cache with hasRefs := true }
      match outcomes.publish with
      | some error => (retained, .error error)
      | none =>
          ({ retained with checkouts := call.checkoutPath :: retained.checkouts },
            .ok call.checkoutPath)

/-- The fetch of a ref without a cached resolution. -/
def fetchRemoteRepository (call : Materialization) (outcomes : Outcomes) (files : Files) :
    Files × Except String Unit :=
  if !readable call.credential then
    (files, .error ("fetch remote repository " ++ call.owner ++ "/" ++ call.repository ++ "@" ++
      call.gitRef))
  else
    let fetched := files.changeCache call fun cache =>
      { cache with commits := outcomes.fetched :: cache.commits }
    if (GitObjectFormat.fromObjectId outcomes.fetched).isNone then
      (fetched, .error "Git object ID must contain exactly 40 or 64 hexadecimal characters")
    else
      match outcomes.canonicalRef, outcomes.write with
      | some error, _ | none, some error => (fetched, .error error)
      | none, none =>
          ({ fetched with
              resolutions := Function.update fetched.resolutions call.resolutionPath
                (some outcomes.fetched) }, .ok ())

/-- All of it runs under the lock of the cache, except for a first look at the checkout. -/
def materializeRemoteRepositoryWithFetch (call : Materialization) (outcomes : Outcomes)
    (files : Files) : Files × Except String CheckoutPath :=
  if files.checkouts.contains call.checkoutPath then (files, .ok call.checkoutPath)
  else
    match ensureRemoteRepositoryCache readable call outcomes files with
    | (ensured, .error error) => (ensured, .error error)
    | (ensured, .ok ()) =>
        match readCachedRemoteResolution call ensured with
        | some _ =>
            if !call.unprobed && !readable call.credential then
              (ensured, .error ("verify selected access to " ++ call.owner ++ "/" ++
                call.repository))
            else publishCheckout call outcomes ensured
        | none =>
            match fetchRemoteRepository readable call outcomes ensured with
            | (fetched, .error error) => (fetched, .error error)
            | (fetched, .ok ()) => publishCheckout call outcomes fetched

/-! ### Checkouts of other repositories -/

/-- Which credentials a checkout of another repository may use. -/
inductive CrossRepositoryCheckoutAccess where
  | anonymousOnly
  | managedFallback
  | explicitManagedToken (token : String)
deriving Repr, DecidableEq

def selectCrossRepositoryCheckoutAccess (input : Option String) (builtin : String)
    (managedSecretValues : List String) : Except String CrossRepositoryCheckoutAccess :=
  match input with
  | none => .ok .managedFallback
  | some token =>
      if token = "" then .ok .anonymousOnly
      else if token = builtin then .ok .managedFallback
      else if managedSecretValues.contains token then .ok (.explicitManagedToken token)
      else .error ("actions/checkout token for another repository must be the built-in token, " ++
        "empty, or an exact managed secret value")

example : selectCrossRepositoryCheckoutAccess (some "pat") "builtin" ["pat"] =
    .ok (.explicitManagedToken "pat") := rfl

/-- A checkout of another repository, with the answers of the run's repository access. -/
structure CrossCheckout where
  stepId : String
  owner : String
  name : String
  cloneUrl : String
  gitRef : String
  /-- whether the owner is that of the run's repository, up to ASCII case -/
  sameOwner : Bool
  access : CrossRepositoryCheckoutAccess
  cachedToken : Option String
  requestedToken : Except String String

def CrossCheckout.call (checkout : CrossCheckout) (scope : RemoteRepositoryMaterializationScope)
    (token : Option String) : Materialization :=
  { stepId := checkout.stepId
    owner := checkout.owner
    repository := checkout.name
    gitRef := checkout.gitRef
    cacheRemote := checkout.cloneUrl
    fetchRemote := "origin"
    scope := scope
    checkoutToken := token
    checkoutEnvironment := none }

/-- A materialization with a managed token, which is returned with the snapshot. -/
def CrossCheckout.withToken (checkout : CrossCheckout) (token : String) (outcomes : Outcomes)
    (files : Files) : Files × Except String (CheckoutPath × Option String) :=
  let result := materializeRemoteRepositoryWithFetch readable
    (checkout.call .checkoutManaged (some token)) outcomes files
  (result.1, result.2.map fun snapshot => (snapshot, some token))

/-- The last attempt: the token is requested from the control plane. -/
def CrossCheckout.withRequestedToken (checkout : CrossCheckout) (outcomes : Outcomes)
    (files : Files) : Files × Except String (CheckoutPath × Option String) :=
  match checkout.requestedToken with
  | .error error => (files, .error error)
  | .ok token => checkout.withToken readable token outcomes files

/-- The attempts of `materialize_cross_repository_checkout_snapshot`, each with its own
outcomes: anonymous, with the cached token, with a requested one.  The result is the
snapshot and the token it was made with. -/
def materializeCrossRepositoryCheckoutSnapshot (checkout : CrossCheckout)
    (first second third : Outcomes) (files : Files) :
    Files × Except String (CheckoutPath × Option String) :=
  match checkout.access with
  | .explicitManagedToken token => checkout.withToken readable token first files
  | access =>
      match materializeRemoteRepositoryWithFetch readable
          (checkout.call .checkoutAnonymous none) first files with
      | (files, .ok snapshot) => (files, .ok (snapshot, none))
      | (files, .error error) =>
          if access = .anonymousOnly || !checkout.sameOwner then (files, .error error)
          else
            match checkout.cachedToken with
            | none => checkout.withRequestedToken readable third files
            | some token =>
                match checkout.withToken readable token second files with
                | (files, .ok snapshot) => (files, .ok snapshot)
                | (files, .error _) => checkout.withRequestedToken readable third files

end Materialize

end GitZero.Agent.RemoteRepositories
