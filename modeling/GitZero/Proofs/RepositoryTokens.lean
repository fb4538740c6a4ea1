/-
Module: GitZero.Proofs.RepositoryTokens
Purpose: A token that a run hands to one of its tasks was granted for what the task asked for, is
  masked by then and does not expire soon, in whatever order calls, decisions and aborts come.
Trusted boundary: none
Main exports: Granted, Handed, Fenced, tokens_fenced
-/
import GitZero.Agent.RepositoryAccess
import GitZero.Lib.Machine
import Mathlib.Logic.Function.Basic

namespace GitZero.Agent.RepositoryAccess

section RepositoryTokens

variable {run : RunSpec} {access : RunAccess} {requestId : Uuid} {exchange : Exchange}

/-! ### The invariant -/

/-- A grant of the token has answered a call for the scope. -/
def Granted (run : RunSpec) (access : RunAccess) (scope : Scope) (token : ExpiringToken) : Prop :=
  ∃ requestId exchange, access.exchanges requestId = some exchange ∧
    exchange.ask.scope run = scope ∧ (requestId, token) ∈ access.grants ∧ token.token ≠ ""

/-- The value may be used for the scope: it was granted for it, or came with the run. -/
def Handed (run : RunSpec) (access : RunAccess) (scope : Scope) (value : String)
    (now : EpochSeconds) : Prop :=
  (∃ token, Granted run access scope token ∧ token.token = value ∧ token.isUsable now = true ∧
    value ∈ access.masks) ∨
  (scope = run.sourceScope ∧ value = run.checkoutToken ∧ run.initial.isUsable now = true)

/-- What a call that holds a lock has found: there is room for its token, and none is there. -/
structure Awaits (run : RunSpec) (access : RunAccess) (requestId : Uuid)
    (scope : Scope) : Prop where
  lock : access.locks scope.family = some requestId
  room : (access.ofFamily scope.family).length < scope.family.limit
  absent : scope ∉ access.tokens.map Prod.fst

/-- What is right about a call. -/
structure CallFenced (run : RunSpec) (access : RunAccess) (requestId : Uuid) (exchange : Exchange) :
    Prop where
  decided : ∀ token, exchange.decision = some (.ok token) → (requestId, token) ∈ access.grants
  awaits : exchange.phase.holdsLock = true →
    Awaits run access requestId (exchange.ask.scope run)
  looks : exchange.phase = .looking → (∃ purpose owner repository,
    exchange.ask = .cachedToken purpose owner repository) ∨ exchange.ask.scope run = run.sourceScope
  returned : ∀ value now, exchange.phase = .ended (.returned (some value) now) →
    Handed run access (exchange.ask.scope run) value now

/-- The tokens that are kept: granted for their scope, masked, one for each scope, and not too many
of each kind. -/
structure Fenced (run : RunSpec) (access : RunAccess) : Prop where
  cached : ∀ entry ∈ access.tokens,
    Granted run access entry.1 entry.2 ∧ entry.2.token ∈ access.masks
  keys : (access.tokens.map Prod.fst).Nodup
  bounded : ∀ family, (access.ofFamily family).length ≤ family.limit
  calls : ∀ requestId exchange, access.exchanges requestId = some exchange →
    CallFenced run access requestId exchange

/-! ### What stays -/

/-- Calls, grants and masks are not forgotten. -/
structure Grown (before after : RunAccess) : Prop where
  exchanges : ∀ requestId exchange, before.exchanges requestId = some exchange →
    ∃ later, after.exchanges requestId = some later ∧ later.ask = exchange.ask
  grants : before.grants ⊆ after.grants
  masks : before.masks ⊆ after.masks

variable {after : RunAccess} {scope : Scope} {value : String} {now : EpochSeconds}

theorem Granted.mono {token : ExpiringToken} (granted : Granted run access scope token)
    (grown : Grown access after) : Granted run after scope token := by
  obtain ⟨requestId, exchange, known, same, inside, filled⟩ := granted
  obtain ⟨later, stillKnown, ask⟩ := grown.exchanges requestId exchange known
  exact ⟨requestId, later, stillKnown, by rw [ask, same], grown.grants inside, filled⟩

theorem Handed.mono (handed : Handed run access scope value now) (grown : Grown access after) :
    Handed run after scope value now := by
  rcases handed with ⟨token, granted, same, usable, masked⟩ | initial
  · exact .inl ⟨token, granted.mono grown, same, usable, grown.masks masked⟩
  · exact .inr initial

theorem grown_put (ask : ∀ old, access.exchanges requestId = some old → exchange.ask = old.ask) :
    Grown access (access.put requestId exchange) := by
  refine ⟨fun other old known => ?_, fun _ inside => inside, fun _ inside => inside⟩
  by_cases same : other = requestId
  · subst same
    exact ⟨exchange, Function.update_self .., ask old known⟩
  · exact ⟨old, (Function.update_of_ne same ..).trans known, rfl⟩

/-! ### Steps -/

/-- One call goes on. -/
theorem Fenced.put (fenced : Fenced run access)
    (ask : ∀ old, access.exchanges requestId = some old → exchange.ask = old.ask)
    (call : CallFenced run access requestId exchange) :
    Fenced run (access.put requestId exchange) := by
  have grown := grown_put ask
  constructor
  · intro entry member
    obtain ⟨granted, masked⟩ := fenced.cached entry member
    exact ⟨granted.mono grown, masked⟩
  · exact fenced.keys
  · exact fenced.bounded
  · intro other found known
    have right : CallFenced run access other found := by
      by_cases same : other = requestId
      · subst same
        obtain rfl :=
          Option.some.inj ((Function.update_self other _ access.exchanges).symm.trans known)
        exact call
      · exact fenced.calls other found ((Function.update_of_ne same ..).symm.trans known)
    exact ⟨right.decided,
      fun holds => ⟨(right.awaits holds).lock, (right.awaits holds).room,
        (right.awaits holds).absent⟩,
      right.looks, fun value now ended => (right.returned value now ended).mono grown⟩

/-- The guard of a lock is dropped by a call that no longer holds it. -/
theorem Fenced.unlock (fenced : Fenced run access)
    (idle : ∀ found, access.exchanges requestId = some found → found.phase.holdsLock = false) :
    Fenced run { access with
      locks := fun family =>
        if access.locks family = some requestId then none else access.locks family } := by
  refine ⟨fenced.cached, fenced.keys, fenced.bounded, fun other found known => ?_⟩
  have right := fenced.calls other found known
  refine ⟨right.decided, fun holds => ?_, right.looks, right.returned⟩
  have awaits := right.awaits holds
  refine ⟨?_, awaits.room, awaits.absent⟩
  dsimp only
  rw [if_neg, awaits.lock]
  intro same
  obtain rfl := Option.some.inj (awaits.lock.symm.trans same)
  exact Bool.false_ne_true ((idle found known).symm.trans holds)

theorem Fenced.finish {ending : Ending} (fenced : Fenced run access)
    (known : ∃ old, access.exchanges requestId = some old ∧ exchange.ask = old.ask)
    (decided : ∀ token, exchange.decision = some (.ok token) → (requestId, token) ∈ access.grants)
    (returned : ∀ value now, ending = .returned (some value) now →
      Handed run access (exchange.ask.scope run) value now) :
    Fenced run (access.finish requestId exchange ending) := by
  obtain ⟨old, isOld, ask⟩ := known
  have call : CallFenced run access requestId { exchange with phase := .ended ending } :=
    ⟨decided, nofun, nofun, fun value now same => by cases same; exact returned value now rfl⟩
  have ended := fenced.put
    (fun other isOther => by cases isOld.symm.trans isOther; exact ask) call
  refine ended.unlock fun found isFound => ?_
  obtain rfl :=
    Option.some.inj ((Function.update_self requestId _ access.exchanges).symm.trans isFound)
  rfl

theorem Fenced.evict (fenced : Fenced run access) (gone : Scope × ExpiringToken → Bool) :
    Fenced run { access with tokens := access.tokens.filter gone } := by
  have fewer : ∀ family, (RunAccess.ofFamily
      { access with tokens := access.tokens.filter gone } family).Sublist
        (access.ofFamily family) :=
    fun family => List.filter_sublist.filter _
  refine ⟨fun entry member => fenced.cached entry (List.mem_of_mem_filter member),
    fenced.keys.sublist (List.filter_sublist.map _),
    fun family => le_trans (fewer family).length_le (fenced.bounded family),
    fun other found known => ?_⟩
  have right := fenced.calls other found known
  refine ⟨right.decided, fun holds => ?_, right.looks, right.returned⟩
  have awaits := right.awaits holds
  exact ⟨awaits.lock, lt_of_le_of_lt (fewer _).length_le awaits.room,
    fun inside => awaits.absent ((List.filter_sublist.map _).subset inside)⟩

/-- A token is kept for a scope, by the call that holds the lock. -/
theorem Fenced.keep {token : ExpiringToken} (fenced : Fenced run access)
    (granted : Granted run access scope token) (masked : token.token ∈ access.masks)
    (room : (access.ofFamily scope.family).length < scope.family.limit)
    (absent : scope ∉ access.tokens.map Prod.fst) (free : access.locks scope.family = none) :
    Fenced run { access with tokens := access.tokens ++ [(scope, token)] } := by
  have sizes : ∀ family, RunAccess.ofFamily
      { access with tokens := access.tokens ++ [(scope, token)] } family =
        access.ofFamily family ++ if scope.family = family then [(scope, token)] else [] := by
    intro family
    unfold RunAccess.ofFamily
    rw [List.filter_append]
    split <;> simp [*]
  constructor
  · intro entry member
    rcases List.mem_append.mp member with older | newest
    · exact fenced.cached entry older
    · rw [List.mem_singleton.mp newest]
      exact ⟨granted, masked⟩
  · rw [List.map_append, List.nodup_append]
    refine ⟨fenced.keys, List.nodup_singleton _, fun one oneIn two twoIn => ?_⟩
    rw [List.map_singleton, List.mem_singleton] at twoIn
    rw [twoIn]
    rintro rfl
    exact absent oneIn
  · intro family
    rw [sizes]
    split
    · next same =>
        rw [← same, List.length_append, List.length_singleton]
        exact room
    · rw [List.append_nil]
      exact fenced.bounded family
  · intro other found known
    have right := fenced.calls other found known
    refine ⟨right.decided, fun holds => ?_, right.looks, right.returned⟩
    have awaits := right.awaits holds
    have differ : scope.family ≠ (found.ask.scope run).family := fun same =>
      nomatch (same ▸ free).symm.trans awaits.lock
    refine ⟨awaits.lock, ?_, ?_⟩
    · rw [sizes, if_neg differ, List.append_nil]
      exact awaits.room
    · rw [List.map_append, List.mem_append, not_or]
      refine ⟨awaits.absent, fun inside => ?_⟩
      rw [List.map_singleton, List.mem_singleton] at inside
      exact differ (by rw [inside])

theorem Fenced.mask (fenced : Fenced run access) (masks : List String) :
    Fenced run { access with masks := access.masks ++ masks } := by
  have grown : Grown access { access with masks := access.masks ++ masks } :=
    ⟨fun _ exchange known => ⟨exchange, known, rfl⟩, fun _ inside => inside,
      List.subset_append_left _ _⟩
  refine ⟨fun entry member => ?_, fenced.keys, fenced.bounded, fun other found known => ?_⟩
  · obtain ⟨granted, masked⟩ := fenced.cached entry member
    exact ⟨granted.mono grown, grown.masks masked⟩
  · have right := fenced.calls other found known
    refine ⟨right.decided, fun holds => ?_, right.looks,
      fun value now ended => (right.returned value now ended).mono grown⟩
    have awaits := right.awaits holds
    exact ⟨awaits.lock, awaits.room, awaits.absent⟩

/-! ### The task of a call -/

/-- What a task of a call that has not ended relies on. -/
structure Runs (run : RunSpec) (access : RunAccess) (requestId : Uuid) (exchange : Exchange) :
    Prop where
  fenced : Fenced run access
  known : access.exchanges requestId = some exchange

theorem Runs.call (runs : Runs run access requestId exchange) :
    CallFenced run access requestId exchange := runs.fenced.calls requestId exchange runs.known

theorem Runs.finish {ending : Ending} (runs : Runs run access requestId exchange)
    (returned : ∀ value now, ending = .returned (some value) now →
      Handed run access (exchange.ask.scope run) value now) :
    Fenced run (access.finish requestId exchange ending) :=
  runs.fenced.finish ⟨exchange, runs.known, rfl⟩ runs.call.decided returned

theorem Runs.withdraw (runs : Runs run access requestId exchange) (error : String) :
    Fenced run (access.withdraw requestId exchange error) :=
  runs.fenced.finish ⟨exchange, runs.known, rfl⟩ runs.call.decided nofun

/-- The call goes to another phase in which it does not return a token. -/
theorem Runs.move {phase : Phase} (runs : Runs run access requestId exchange)
    (awaits : phase.holdsLock = true → Awaits run access requestId (exchange.ask.scope run))
    (looks : phase ≠ .looking) (waits : ∀ ending, phase ≠ .ended ending) :
    Fenced run (access.put requestId { exchange with phase }) :=
  runs.fenced.put (fun old isOld => by cases runs.known.symm.trans isOld; rfl)
    ⟨runs.call.decided, awaits, fun same => absurd same looks,
      fun value now same => absurd same (waits _)⟩

theorem find_mem {token : ExpiringToken} (found : access.find scope = some token) :
    (scope, token) ∈ access.tokens := by
  obtain ⟨entry, first, rfl⟩ := Option.map_eq_some_iff.mp found
  have same := List.find?_some first
  rw [decide_eq_true_iff] at same
  exact same ▸ List.mem_of_find?_eq_some first

/-- A usable token of the cache may be handed out. -/
theorem Fenced.handed {token : ExpiringToken} (fenced : Fenced run access)
    (found : access.find scope = some token) (usable : token.isUsable now = true) :
    Handed run access scope token.token now := by
  obtain ⟨granted, masked⟩ := fenced.cached _ (find_mem found)
  exact .inl ⟨token, granted, rfl, usable, masked⟩

theorem Runs.evict (runs : Runs run access requestId exchange) (scope : Scope) :
    Runs run (access.evict scope) requestId exchange :=
  ⟨runs.fenced.evict _, runs.known⟩

theorem Runs.missed (runs : Runs run access requestId exchange)
    (looking : exchange.phase = .looking)
    (now : EpochSeconds) : Fenced run (access.missed run requestId exchange now) := by
  have looks := runs.call.looks looking
  unfold RunAccess.missed
  split
  · exact runs.finish nofun
  · next source =>
      have isSource : exchange.ask.scope run = run.sourceScope :=
        looks.resolve_left fun ⟨purpose, owner, repository, same⟩ =>
          source purpose owner repository same
      split
      · next usable =>
          rw [Bool.and_eq_true] at usable
          refine runs.finish fun value now same => ?_
          cases same
          exact .inr ⟨isSource, rfl, usable.2⟩
      · split
        · exact runs.finish nofun
        · exact runs.move nofun nofun nofun

theorem Runs.look (runs : Runs run access requestId exchange) (looking : exchange.phase = .looking)
    (now : EpochSeconds) : Fenced run (access.look run requestId exchange now) := by
  unfold RunAccess.look
  split
  · next token found =>
      split
      · next usable =>
          refine runs.finish fun value now same => ?_
          cases same
          exact runs.fenced.handed found usable
      · exact (runs.evict _).missed looking now
  · exact runs.missed looking now

/-- A request takes the lock, which is free. -/
theorem Runs.demand (runs : Runs run access requestId exchange)
    (free : access.locked run exchange = false) :
    Fenced run (access.demand run requestId exchange) := by
  have evicted := runs.evict (exchange.ask.scope run)
  unfold RunAccess.demand
  dsimp only
  split
  · exact evicted.finish nofun
  · next few =>
      have unlocked : access.locks (exchange.ask.scope run).family = none := by
        simpa [RunAccess.locked] using free
      generalize isScope : exchange.ask.scope run = scope at *
      have taken : Fenced run { access.evict scope with
          locks := fun other => if other = scope.family then some requestId
            else (access.evict scope).locks other } := by
        refine ⟨evicted.fenced.cached, evicted.fenced.keys, evicted.fenced.bounded,
          fun other found known => ?_⟩
        have right := evicted.fenced.calls other found known
        refine ⟨right.decided, fun holds => ?_, right.looks, right.returned⟩
        have awaits := right.awaits holds
        refine ⟨?_, awaits.room, awaits.absent⟩
        dsimp only
        rw [if_neg]
        · exact awaits.lock
        · intro same
          exact nomatch (same ▸ unlocked).symm.trans awaits.lock
      refine taken.put (fun old isOld => by cases runs.known.symm.trans isOld; rfl) ⟨
        evicted.call.decided, fun _ => ⟨?_, ?_, ?_⟩, nofun, nofun⟩
      · rw [isScope]
        exact if_pos rfl
      · rw [isScope]
        exact Nat.lt_of_not_le few
      · rw [isScope]
        intro inside
        obtain ⟨entry, member, same⟩ := List.mem_map.mp inside
        have differ := (List.mem_filter.mp member).2
        rw [decide_eq_true_iff] at differ
        exact differ same

theorem Runs.request (runs : Runs run access requestId exchange)
    (free : access.locked run exchange = false) (now : EpochSeconds) :
    Fenced run (access.request run requestId exchange now) := by
  unfold RunAccess.request
  split
  · next token found =>
      split
      · next usable =>
          rw [Bool.and_eq_true] at usable
          refine runs.finish fun value now same => ?_
          cases same
          exact runs.fenced.handed found usable.2
      · exact runs.demand free
  · exact runs.demand free

/-- A token that is accepted has been granted to the call, which holds the lock of its scope. -/
theorem Runs.accept {token : ExpiringToken} (runs : Runs run access requestId exchange)
    (holds : exchange.phase.holdsLock = true) (decision : exchange.decision = some (.ok token))
    (filled : token.token ≠ "") (usable : token.isUsable now = true) :
    Fenced run (access.accept run requestId exchange token now) := by
  have awaits := runs.call.awaits holds
  generalize isScope : exchange.ask.scope run = scope at awaits
  let masked : RunAccess := { access with masks := access.masks ++ [token.token] }
  have inside : token.token ∈ masked.masks := List.mem_append_right _ List.mem_cons_self
  have granted : Granted run masked scope token :=
    ⟨requestId, exchange, runs.known, isScope, runs.call.decided token decision, filled⟩
  have onMasked : Runs run masked requestId exchange := ⟨runs.fenced.mask _, runs.known⟩
  have finished : Fenced run
      (masked.finish requestId exchange (.returned (some token.token) now)) := by
    refine onMasked.finish fun value now same => ?_
    cases same
    exact .inl ⟨token, isScope ▸ granted, rfl, usable, inside⟩
  have grown : Grown masked (masked.finish requestId exchange
    (.returned (some token.token) now)) := by
    have put : Grown masked (masked.put requestId { exchange with
        phase := .ended (.returned (some token.token) now) }) :=
      grown_put fun old isOld => by cases runs.known.symm.trans isOld; rfl
    exact ⟨put.exchanges, put.grants, put.masks⟩
  have kept := finished.keep (granted.mono grown) inside awaits.room awaits.absent
    (if_pos awaits.lock)
  rw [← isScope] at kept
  exact kept

theorem Runs.receive (runs : Runs run access requestId exchange)
    (holds : exchange.phase.holdsLock = true) (now : EpochSeconds) :
    Fenced run (access.receive run requestId exchange now) := by
  unfold RunAccess.receive
  split
  · exact runs.fenced
  · exact runs.finish nofun
  · next token decision =>
      dsimp only
      split
      · exact runs.finish nofun
      · next filled =>
          split
          · exact runs.finish nofun
          · next usable => exact runs.accept holds decision filled (by simpa using usable)

theorem Runs.send (runs : Runs run access requestId exchange)
    (holds : exchange.phase.holdsLock = true) (surroundings : Surroundings) :
    Fenced run (access.send run requestId exchange surroundings) := by
  unfold RunAccess.send
  dsimp only
  split
  · exact runs.withdraw _
  · split
    · have moved : Fenced run (access.put requestId { exchange with phase := .selecting }) :=
        runs.move (fun _ => runs.call.awaits holds) nofun nofun
      refine ⟨moved.cached, moved.keys, moved.bounded, fun other found known => ?_⟩
      have right := moved.calls other found known
      refine ⟨right.decided, fun holds => ?_, right.looks, right.returned⟩
      have awaits := right.awaits holds
      exact ⟨awaits.lock, awaits.room, awaits.absent⟩
    · exact runs.fenced

theorem Runs.select (runs : Runs run access requestId exchange)
    (holds : exchange.phase.holdsLock = true) (surroundings : Surroundings) :
    Fenced run (access.select run requestId exchange surroundings) := by
  unfold RunAccess.select
  dsimp only
  split
  · exact runs.withdraw _
  · split
    · exact runs.move (fun _ => runs.call.awaits holds) nofun nofun
    · exact runs.receive holds _

theorem Runs.proceed (runs : Runs run access requestId exchange) (surroundings : Surroundings) :
    Fenced run (access.proceed run requestId exchange surroundings) := by
  unfold RunAccess.proceed
  split
  · next looking =>
      split
      · exact runs.fenced
      · exact runs.look looking _
  · split
    · exact runs.fenced
    · next free => exact runs.request (Bool.eq_false_of_not_eq_true free) _
  · next phase => exact runs.send (by rw [phase]; rfl) surroundings
  · next phase => exact runs.select (by rw [phase]; rfl) surroundings
  · next phase => exact runs.receive (by rw [phase]; rfl) _
  · exact runs.fenced

/-! ### Events -/

theorem Runs.decide {decision : Except String ExpiringToken}
    (runs : Runs run access requestId exchange)
    (heard : ∀ token, decision = .ok token → (requestId, token) ∈ access.grants) :
    Fenced run (access.decide requestId exchange decision) := by
  have call := runs.call
  unfold RunAccess.decide
  split
  · refine runs.fenced.put (fun old isOld => by cases runs.known.symm.trans isOld; rfl)
      ⟨fun token same => heard token (Option.some.inj same), call.awaits, call.looks, call.returned⟩
  · exact runs.fenced

theorem Fenced.hear (fenced : Fenced run access) (grant : Uuid × ExpiringToken) :
    Fenced run { access with grants := access.grants ++ [grant] } := by
  have grown : Grown access { access with grants := access.grants ++ [grant] } :=
    ⟨fun _ exchange known => ⟨exchange, known, rfl⟩, List.subset_append_left _ _,
      fun _ inside => inside⟩
  refine ⟨fun entry member => ?_, fenced.keys, fenced.bounded, fun other found known => ?_⟩
  · obtain ⟨granted, masked⟩ := fenced.cached entry member
    exact ⟨granted.mono grown, masked⟩
  · have right := fenced.calls other found known
    refine ⟨fun token same => grown.grants (right.decided token same), fun holds => ?_, right.looks,
      fun value now ended => (right.returned value now ended).mono grown⟩
    have awaits := right.awaits holds
    exact ⟨awaits.lock, awaits.room, awaits.absent⟩

theorem Fenced.disconnect (fenced : Fenced run access) :
    Fenced run (step run access .disconnect) := by
  have drained : ∀ exchange : Exchange, exchange.drain.ask = exchange.ask ∧
      exchange.drain.phase = exchange.phase ∧
      ∀ token, exchange.drain.decision = some (.ok token) →
        exchange.decision = some (.ok token) := by
    intro exchange
    unfold Exchange.drain
    split
    · exact ⟨rfl, rfl, fun token impossible => nomatch impossible⟩
    · exact ⟨rfl, rfl, fun token same => same⟩
  have grown : Grown access (step run access .disconnect) := by
    refine ⟨fun other exchange known => ⟨exchange.drain, ?_, (drained exchange).1⟩,
      fun _ inside => inside, fun _ inside => inside⟩
    change (access.exchanges other).map Exchange.drain = _
    rw [known]
    rfl
  refine ⟨fun entry member => ?_, fenced.keys, fenced.bounded, fun other found known => ?_⟩
  · obtain ⟨granted, masked⟩ := fenced.cached entry member
    exact ⟨granted.mono grown, masked⟩
  · obtain ⟨exchange, isOld, rfl⟩ := Option.map_eq_some_iff.mp known
    have right := fenced.calls other exchange isOld
    obtain ⟨ask, phase, decision⟩ := drained exchange
    refine ⟨fun token same => right.decided token (decision token same), ?_, ?_, ?_⟩
    · rw [phase, ask]
      intro holds
      have awaits := right.awaits holds
      exact ⟨awaits.lock, awaits.room, awaits.absent⟩
    · rw [phase, ask]
      exact right.looks
    · rw [phase, ask]
      exact fun value now ended => (right.returned value now ended).mono grown

/-- A call waits for a lock first, or returns nothing. -/
theorem begin_cases (run : RunSpec) (now : EpochSeconds) (ask : Ask) :
    ask.begin run now = .requesting ∨ ask.begin run now = .ended (.returned none now) ∨
      (ask.begin run now = .looking ∧ ((∃ purpose owner repository,
        ask = .cachedToken purpose owner repository) ∨ ask.scope run = run.sourceScope)) := by
  cases ask with
  | cachedToken purpose owner repository =>
      exact .inr (.inr ⟨rfl, .inl ⟨purpose, owner, repository, rfl⟩⟩)
  | requestToken purpose owner repository refresh => exact .inl rfl
  | sourceToken refresh =>
      dsimp only [Ask.begin]
      split
      · exact .inr (.inr ⟨rfl, .inr rfl⟩)
      · split
        · exact .inr (.inl rfl)
        · exact .inl rfl
  | workflowToken permissions =>
      dsimp only [Ask.begin]
      split
      · exact .inr (.inl rfl)
      · split
        · next default => exact .inr (.inr ⟨rfl, .inr (if_pos default)⟩)
        · split
          · exact .inr (.inl rfl)
          · exact .inl rfl

theorem callFenced_begin (access : RunAccess) (requestId : Uuid) (ask : Ask) (now : EpochSeconds) :
    CallFenced run access requestId { ask, phase := ask.begin run now } := by
  rcases begin_cases run now ask with same | same | ⟨same, looks⟩
  · rw [same]
    exact ⟨nofun, nofun, nofun, nofun⟩
  · rw [same]
    exact ⟨nofun, nofun, nofun, nofun⟩
  · rw [same]
    exact ⟨nofun, nofun, fun _ => looks, nofun⟩

theorem Fenced.step (fenced : Fenced run access) (event : Event) :
    Fenced run (step run access event) := by
  cases event with
  | call requestId ask now =>
      dsimp only [RepositoryAccess.step]
      split
      · exact fenced
      · next fresh =>
          exact fenced.put (fun old isOld => nomatch fresh.symm.trans isOld)
            (callFenced_begin access requestId ask now)
  | proceed requestId surroundings =>
      dsimp only [RepositoryAccess.step]
      split
      · next known => exact Runs.proceed ⟨fenced, known⟩ surroundings
      · exact fenced
  | granted requestId token =>
      dsimp only [RepositoryAccess.step]
      split
      · next known =>
          refine Runs.decide ⟨fenced.hear _, known⟩ fun other same => ?_
          cases same
          exact List.mem_append_right _ List.mem_cons_self
      · exact fenced.hear _
  | denied requestId reason =>
      dsimp only [RepositoryAccess.step]
      split
      · next known => exact Runs.decide ⟨fenced, known⟩ fun other impossible => nomatch impossible
      · exact fenced
  | drop requestId =>
      dsimp only [RepositoryAccess.step]
      split
      · next known =>
          split
          · exact fenced
          · exact Runs.finish ⟨fenced, known⟩ nofun
      · exact fenced
  | clear family =>
      dsimp only [RepositoryAccess.step]
      split
      · exact fenced
      · exact fenced.evict _
  | disconnect => exact fenced.disconnect

theorem fenced_start : Fenced run {} where
  cached := nofun
  keys := List.nodup_nil
  bounded _ := Nat.zero_le _
  calls := nofun

/-- In every order of calls, decisions, aborts, clearings and disconnects of a run: a token that a
call returns was granted in answer to a request for the scope of the call (the purpose and the
repository, or the permissions), or came with the run for its own source; it was usable when it was
returned; and a granted one had been masked. No more tokens are kept than the two limits allow, and
one for each scope. -/
theorem tokens_fenced (run : RunSpec) (events : List Event) :
    Fenced run (Machine.run (step run) {} events) :=
  Machine.run_invariant (fun _ event fenced => fenced.step event) fenced_start events

end RepositoryTokens

end GitZero.Agent.RepositoryAccess
