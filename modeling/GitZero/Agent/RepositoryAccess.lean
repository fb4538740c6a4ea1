/-
Module: GitZero.Agent.RepositoryAccess
Purpose: The access tokens of a run: a machine in which its tasks look tokens up, request them from
  the control plane and are answered, in any order.
Trusted boundary: the tokio channels and locks; which task runs, what the clock reads and what the
  control plane answers is data of the events
Main exports: Scope, ExpiringToken, Ask, Exchange, RunAccess, Event, step
-/
import GitZero.Workflow.Steps

namespace GitZero.Agent.RepositoryAccess

open Workflows (PlannedPermissions toAsciiLowercase)

/-- Request ids are drawn once; equality is all that is used of them. -/
abbrev Uuid := Nat

/-- Seconds since the epoch, as in `expires_at_epoch_seconds`. -/
abbrev EpochSeconds := Nat

def tokenRefreshSafetySeconds : Nat := 5 * 60

def maxRepositoryTokensPerRun : Nat := 256

def maxWorkflowTokenScopesPerRun : Nat := 256

/-- A token, and when it expires. -/
structure ExpiringToken where
  token : String
  expiresAtEpochSeconds : EpochSeconds
deriving DecidableEq

/-- `saturating_add` on the clock. -/
def ExpiringToken.isUsable (token : ExpiringToken) (now : EpochSeconds) : Bool :=
  token.expiresAtEpochSeconds > min (now + tokenRefreshSafetySeconds) (2 ^ 64 - 1)

/-- What a token is asked for. -/
inductive RepositoryTokenPurpose where
  | source
  | environment
  | sharedSource
  | checkout
deriving DecidableEq

/-- A key of one of the two maps: `tokens` and `workflow_tokens`. -/
inductive Scope where
  | repository (purpose : RepositoryTokenPurpose) (key : String)
  | workflow (permissions : PlannedPermissions)
deriving DecidableEq

/-- The map, and the lock, that a scope belongs to. -/
inductive Family where
  | tokens
  | workflowTokens
deriving DecidableEq

def Scope.family : Scope → Family
  | .repository _ _ => .tokens
  | .workflow _ => .workflowTokens

def repositoryAccessKey (owner repository : String) : String :=
  toAsciiLowercase (owner ++ "/" ++ repository)

/-- The operation that the errors of a request name. -/
def Scope.operation : Scope → String
  | .repository .source _ => "source repository access"
  | .repository .environment _ => "environment metadata access"
  | .repository .sharedSource _ => "private shared repository access"
  | .repository .checkout _ => "private checkout repository access"
  | .workflow _ => "scoped workflow token access"

def Family.limit : Family → Nat
  | .tokens => maxRepositoryTokensPerRun
  | .workflowTokens => maxWorkflowTokenScopesPerRun

def Family.limitError : Family → String
  | .tokens => "workflow requests more than 256 private repository tokens"
  | .workflowTokens => "workflow uses more than 256 distinct token permission sets"

/-- What the functions read of the run. -/
structure RunSpec where
  owner : String
  name : String
  installationId : Nat
  checkoutToken : String
  checkoutTokenExpiresAtEpochSeconds : Option EpochSeconds

/-- The token that comes with the run. -/
def RunSpec.initial (run : RunSpec) : ExpiringToken where
  token := run.checkoutToken
  expiresAtEpochSeconds := run.checkoutTokenExpiresAtEpochSeconds.getD 0

def RunSpec.sourceScope (run : RunSpec) : Scope :=
  .repository .source (repositoryAccessKey run.owner run.name)

/-! ### Calls -/

/-- A call of a task. -/
inductive Ask where
  | cachedToken (purpose : RepositoryTokenPurpose) (owner repository : String)
  | requestToken (purpose : RepositoryTokenPurpose) (owner repository : String) (refresh : Bool)
  | sourceToken (refresh : Bool)
  | workflowToken (permissions : PlannedPermissions)

/-- `workflow_token` with the default permissions is `source_token`. -/
def Ask.scope (run : RunSpec) : Ask → Scope
  | .cachedToken purpose owner repository =>
      .repository purpose (repositoryAccessKey owner repository)
  | .requestToken purpose owner repository _ =>
      .repository purpose (repositoryAccessKey owner repository)
  | .sourceToken _ => run.sourceScope
  | .workflowToken permissions =>
      if permissions = .default then run.sourceScope else .workflow permissions

def Ask.refresh : Ask → Bool
  | .requestToken _ _ _ refresh => refresh
  | .sourceToken refresh => refresh
  | _ => false

/-- The messages of a request, less their own ids and the id of the run. -/
inductive AgentMessage where
  | repositoryTokenRequest (requestId : Uuid) (purpose : RepositoryTokenPurpose)
      (owner repository : String)
  | workflowTokenRequest (requestId : Uuid) (permissions : PlannedPermissions)
deriving DecidableEq

def Ask.message (run : RunSpec) (requestId : Uuid) : Ask → AgentMessage
  | .cachedToken purpose owner repository =>
      .repositoryTokenRequest requestId purpose owner repository
  | .requestToken purpose owner repository _ =>
      .repositoryTokenRequest requestId purpose owner repository
  | .sourceToken _ => .repositoryTokenRequest requestId .source run.owner run.name
  | .workflowToken permissions =>
      if permissions = .default then
        .repositoryTokenRequest requestId .source run.owner run.name
      else .workflowTokenRequest requestId permissions

/-- How a call ends: with a token or without, with an error, or because its task was dropped. -/
inductive Ending where
  | returned (token : Option String) (now : EpochSeconds)
  | failed (error : String)
  | dropped

/-- Where a call is suspended. -/
inductive Phase where
  /-- `cached_token` waits for the lock. -/
  | looking
  /-- `request_token` or `workflow_token` waits for the lock. -/
  | requesting
  /-- The call holds the lock, and its message waits for room in the channel. -/
  | sending
  /-- The call holds the lock and waits for a decision or for the cancellation. -/
  | selecting
  /-- The same, when the sender of the cancellation is gone. -/
  | awaiting
  | ended (ending : Ending)

def Phase.holdsLock : Phase → Bool
  | .sending | .selecting | .awaiting => true
  | _ => false

/-- All that belongs to one call; the id is the one that its request draws. -/
structure Exchange where
  ask : Ask
  phase : Phase
  /-- The id is in the table of requests. -/
  pending : Bool := false
  /-- The value of the oneshot channel. -/
  decision : Option (Except String ExpiringToken) := none

/-- The phase in which a call waits first. -/
def Ask.begin (run : RunSpec) (now : EpochSeconds) : Ask → Phase
  | .cachedToken _ _ _ => .looking
  | .requestToken _ _ _ _ => .requesting
  | .sourceToken refresh =>
      if !refresh then .looking
      else if run.installationId = 0 then .ended (.returned none now)
      else .requesting
  | .workflowToken permissions =>
      if permissions.read = ∅ ∧ permissions.write = ∅ then .ended (.returned none now)
      else if permissions = .default then .looking
      else if run.installationId = 0 then .ended (.returned none now)
      else .requesting

/-! ### The tokens of a run -/

/-- What all calls of a run share: the exchanges that wait for the control plane, the tokens that
are kept, and the locks. -/
structure RunAccess where
  exchanges : Uuid → Option Exchange := fun _ => none
  tokens : List (Scope × ExpiringToken) := []
  /-- The call that holds a lock across its request. -/
  locks : Family → Option Uuid := fun _ => none
  /-- The tokens that `register_repository_token_masks` has been given. -/
  masks : List String := []
  /-- The grants that have arrived, as history. -/
  grants : List (Uuid × ExpiringToken) := []
  outbound : List AgentMessage := []
  closed : Bool := false

namespace RunAccess

def find (access : RunAccess) (scope : Scope) : Option ExpiringToken :=
  (access.tokens.find? fun entry => entry.1 = scope).map Prod.snd

def evict (access : RunAccess) (scope : Scope) : RunAccess :=
  { access with tokens := access.tokens.filter fun entry => entry.1 ≠ scope }

def ofFamily (access : RunAccess) (family : Family) : List (Scope × ExpiringToken) :=
  access.tokens.filter fun entry => entry.1.family = family

def put (access : RunAccess) (requestId : Uuid) (exchange : Exchange) : RunAccess :=
  { access with exchanges := Function.update access.exchanges requestId (some exchange) }

/-- The call is over, and the guard of its lock is dropped. -/
def finish (access : RunAccess) (requestId : Uuid) (exchange : Exchange) (ending : Ending) :
    RunAccess :=
  { access.put requestId { exchange with phase := .ended ending } with
    locks := fun family =>
      if access.locks family = some requestId then none else access.locks family }

end RunAccess

/-- What a task meets when it runs. -/
structure Surroundings where
  now : EpochSeconds
  /-- The outbound channel has room. -/
  room : Bool := true
  /-- The task sees that the run has been cancelled. -/
  cancelled : Bool := false
  /-- The task sees that the sender of the cancellation is gone. -/
  orphaned : Bool := false

namespace RunAccess

variable (run : RunSpec) (access : RunAccess) (requestId : Uuid) (exchange : Exchange)

/-- Behind `cached_token`, when it has found nothing. -/
def missed (now : EpochSeconds) : RunAccess :=
  match exchange.ask with
  | .cachedToken _ _ _ => access.finish requestId exchange (.returned none now)
  | _ =>
      if run.checkoutToken ≠ "" && run.initial.isUsable now then
        access.finish requestId exchange (.returned (some run.checkoutToken) now)
      else if run.installationId = 0 then
        access.finish requestId exchange (.returned none now)
      else access.put requestId { exchange with phase := .requesting }

/-- `cached_token` -/
def look (now : EpochSeconds) : RunAccess :=
  match access.find (exchange.ask.scope run) with
  | some token =>
      if token.isUsable now then
        access.finish requestId exchange (.returned (some token.token) now)
      else (access.evict (exchange.ask.scope run)).missed run requestId exchange now
  | none => access.missed run requestId exchange now

/-- A token that is missing, used up or to be refreshed is requested, unless there are too many. -/
def demand : RunAccess :=
  let evicted := access.evict (exchange.ask.scope run)
  let family := (exchange.ask.scope run).family
  if (evicted.ofFamily family).length ≥ family.limit then
    evicted.finish requestId exchange (.failed family.limitError)
  else
    { evicted.put requestId { exchange with phase := .sending, pending := true } with
      locks := fun other => if other = family then some requestId else evicted.locks other }

/-- `request_token` and `workflow_token` from their lock on. -/
def request (now : EpochSeconds) : RunAccess :=
  match access.find (exchange.ask.scope run) with
  | some token =>
      if !exchange.ask.refresh && token.isUsable now then
        access.finish requestId exchange (.returned (some token.token) now)
      else access.demand run requestId exchange
  | none => access.demand run requestId exchange

/-- The token is masked and kept before the call returns it. -/
def accept (token : ExpiringToken) (now : EpochSeconds) : RunAccess :=
  { access.finish requestId exchange (.returned (some token.token) now) with
    tokens := access.tokens ++ [(exchange.ask.scope run, token)]
    masks := access.masks ++ [token.token] }

/-- Behind `decision_rx`. -/
def receive (now : EpochSeconds) : RunAccess :=
  match exchange.decision with
  | none => access
  | some (.error reason) => access.finish requestId exchange (.failed reason)
  | some (.ok token) =>
      let operation := (exchange.ask.scope run).operation
      if token.token = "" then
        access.finish requestId exchange
          (.failed s!"control plane returned an empty token for {operation}")
      else if !token.isUsable now then
        access.finish requestId exchange
          (.failed s!"control plane returned a token that expires too soon for {operation}")
      else access.accept run requestId exchange token now

/-- The request leaves the table, and the call fails. -/
def withdraw (error : String) : RunAccess :=
  access.finish requestId { exchange with pending := false } (.failed error)

def send (surroundings : Surroundings) : RunAccess :=
  let operation := (exchange.ask.scope run).operation
  if access.closed then
    access.withdraw requestId exchange
      s!"control plane event channel closed while requesting {operation}"
  else if surroundings.room then
    { access.put requestId { exchange with phase := .selecting } with
      outbound := access.outbound ++ [exchange.ask.message run requestId] }
  else access

def select (surroundings : Surroundings) : RunAccess :=
  let operation := (exchange.ask.scope run).operation
  if surroundings.cancelled then
    access.withdraw requestId exchange s!"run cancelled while requesting {operation}"
  else if surroundings.orphaned then access.put requestId { exchange with phase := .awaiting }
  else access.receive run requestId exchange surroundings.now

/-- The lock that a call waits for is taken. -/
def locked : Bool := (access.locks (exchange.ask.scope run).family).isSome

/-- The task of a call runs until it is suspended again. -/
def proceed (surroundings : Surroundings) : RunAccess :=
  match exchange.phase with
  | .looking =>
      if access.locked run exchange then access
      else access.look run requestId exchange surroundings.now
  | .requesting =>
      if access.locked run exchange then access
      else access.request run requestId exchange surroundings.now
  | .sending => access.send run requestId exchange surroundings
  | .selecting => access.select run requestId exchange surroundings
  | .awaiting => access.receive run requestId exchange surroundings.now
  | .ended _ => access

/-- A decision goes to the call whose request is in the table. -/
def decide (decision : Except String ExpiringToken) : RunAccess :=
  if exchange.pending then
    access.put requestId { exchange with pending := false, decision := some decision }
  else access

end RunAccess

/-! ### Events -/

/-- A call, one of its steps, or an answer of the control plane. -/
inductive Event where
  | call (requestId : Uuid) (ask : Ask) (now : EpochSeconds)
  | proceed (requestId : Uuid) (surroundings : Surroundings)
  | granted (requestId : Uuid) (token : ExpiringToken)
  | denied (requestId : Uuid) (reason : String)
  /-- The task of a call is aborted. -/
  | drop (requestId : Uuid)
  /-- `clear`, one of its two maps. -/
  | clear (family : Family)
  /-- The connection is over: `cancel_all`. -/
  | disconnect

/-- What `cancel_all` does to a request. -/
def Exchange.drain (exchange : Exchange) : Exchange :=
  if exchange.pending then
    { exchange with
      pending := false
      decision := some (.error "Control plane connection closed.") }
  else exchange

/-- A call, a step of one, or an answer; what is not waited for changes nothing. -/
def step (run : RunSpec) (access : RunAccess) : Event → RunAccess
  | .call requestId ask now =>
      match access.exchanges requestId with
      | some _ => access
      | none => access.put requestId { ask, phase := ask.begin run now }
  | .proceed requestId surroundings =>
      match access.exchanges requestId with
      | some exchange => access.proceed run requestId exchange surroundings
      | none => access
  | .granted requestId token =>
      let heard := { access with grants := access.grants ++ [(requestId, token)] }
      match access.exchanges requestId with
      | some exchange => heard.decide requestId exchange (.ok token)
      | none => heard
  | .denied requestId reason =>
      match access.exchanges requestId with
      | some exchange => access.decide requestId exchange (.error reason)
      | none => access
  | .drop requestId =>
      match access.exchanges requestId with
      | some exchange =>
          match exchange.phase with
          | .ended _ => access
          | _ => access.finish requestId exchange .dropped
      | none => access
  | .clear family =>
      if (access.locks family).isSome then access
      else { access with tokens := access.tokens.filter fun entry => entry.1.family ≠ family }
  | .disconnect =>
      { access with
        closed := true
        exchanges := fun requestId => (access.exchanges requestId).map Exchange.drain }

end GitZero.Agent.RepositoryAccess
