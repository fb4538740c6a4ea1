/-
Module: GitZero.Proofs.ConcurrencyReleases
Purpose: Each concurrency request is released once, unless one of three drops loses the release.
Trusted boundary: none
Main exports: Settled, OneRelease, Kept, Sound, one_release_iff, dropped_acquire_is_not_released
-/
import GitZero.Agent.ConcurrencyRequests
import GitZero.Lib.Machine

namespace GitZero.Agent.ConcurrencyRequests

open Machine

/-- The request left no entry, and its acquire message was followed by one release message, or
by none where the control plane cancelled the request before granting it. -/
def Settled (exchange : Exchange) : Prop :=
  exchange.entry = none ∧
    (exchange.outbound = [exchange.call.acquireMessage, exchange.call.releaseMessage] ∨
      exchange.decided = some .cancelled ∧ exchange.outbound = [exchange.call.acquireMessage])

/-- While the connection is open, each request that was sent and has ended is settled. -/
def OneRelease (client : ConcurrencyClient) : Prop :=
  client.closed = false → ∀ requestId exchange, client.exchanges requestId = some exchange →
    ∀ ending, exchange.phase = .ended ending →
      exchange.call.acquireMessage ∈ exchange.outbound → Settled exchange

/-! ### The condition on the steps -/

/-- The action loses no release: a lease is dropped while the lock is free and the channel has
room, no `acquire` is dropped after its message was sent, unless the control plane has cancelled
the request, and no `release` is dropped. -/
def Kept (exchange : Exchange) : Action → Prop
  | .dropLease surroundings =>
      exchange.phase = .held → surroundings.locked = false ∧ surroundings.room = true
  | .dropAcquire =>
      exchange.phase.isAcquiring = true → exchange.call.acquireMessage ∈ exchange.outbound →
        exchange.decided = some .cancelled
  | .dropRelease => exchange.phase.isReleasing = false
  | _ => True

def StepKept (client : ConcurrencyClient) : Event → Prop
  | .act requestId action => client.closed = false → ∀ exchange,
      client.exchanges requestId = some exchange → Kept exchange action
  | _ => True

/-! ### The invariant -/

/-- A request that was sent and waits: without a decision, granted, or cancelled. -/
def Waits (exchange : Exchange) : Prop :=
  (exchange.entry = some {} ∧ exchange.grant = none ∧ exchange.decided = none) ∨
    (exchange.entry = some { granted := true, grant := false } ∧
      exchange.grant = some (.ok ()) ∧ exchange.decided = some .granted) ∨
    (exchange.entry = none ∧ (∃ reason, exchange.grant = some (.error reason)) ∧
      exchange.decided = some .cancelled)

/-- What holds of a request in each phase. -/
def Sound (exchange : Exchange) : Prop :=
  match exchange.phase with
  | .inserting => exchange.entry = none ∧ exchange.grant = none ∧ exchange.decided = none ∧
      exchange.outbound = []
  | .sendingAcquire => exchange.entry = some {} ∧ exchange.grant = none ∧
      exchange.decided = none ∧ exchange.outbound = []
  | .selecting | .awaiting | .abandoning =>
      Waits exchange ∧ exchange.outbound = [exchange.call.acquireMessage]
  | .failing _ => False
  | .sendingAbandon =>
      exchange.entry = none ∧ exchange.outbound = [exchange.call.acquireMessage]
  | .held | .releasing => exchange.entry = some { granted := true, grant := false } ∧
      exchange.decided = some .granted ∧ exchange.outbound = [exchange.call.acquireMessage]
  | .sendingRelease => exchange.entry = none ∧ exchange.decided = some .granted ∧
      exchange.outbound = [exchange.call.acquireMessage]
  | .ended _ => exchange.outbound = [] ∨ Settled exchange

def AllSound (client : ConcurrencyClient) : Prop :=
  client.closed = false → ∀ requestId exchange, client.exchanges requestId = some exchange →
    Sound exchange

section Steps

variable {exchange : Exchange}

theorem Sound.settled (sound : Sound exchange) {ending : Ending}
    (ended : exchange.phase = .ended ending)
    (sent : exchange.call.acquireMessage ∈ exchange.outbound) : Settled exchange := by
  rw [Sound, ended] at sound
  rcases sound with unsent | settled
  · rw [unsent] at sent
    cases sent
  · exact settled

theorem receive_sound (waits : Waits exchange)
    (sent : exchange.outbound = [exchange.call.acquireMessage])
    (phase : exchange.phase = .selecting ∨ exchange.phase = .awaiting) :
    Sound exchange.receive := by
  rw [Exchange.receive]
  rcases waits with ⟨entry, grant, decided⟩ | ⟨entry, grant, decided⟩ |
    ⟨entry, ⟨reason, grant⟩, decided⟩
  · rw [grant, entry]
    rcases phase with phase | phase
    · simp [Sound, phase, Waits, entry, grant, decided, sent]
    · simp [Sound, phase, Waits, entry, grant, decided, sent]
  · rw [grant]
    exact ⟨entry, decided, sent⟩
  · rw [grant]
    exact .inr ⟨entry, .inr ⟨decided, sent⟩⟩

/-- A message that finds room is sent, and one that does not waits. -/
theorem send_cases (exchange : Exchange) (surroundings : Surroundings) (message : AgentMessage)
    (sent failed : Phase) :
    exchange.send false surroundings message sent failed = exchange ∨
      exchange.send false surroundings message sent failed =
        { exchange with phase := sent, outbound := exchange.outbound ++ [message] } := by
  rw [Exchange.send, if_neg Bool.false_ne_true]
  cases surroundings.room with
  | true => exact .inr (if_pos rfl)
  | false => exact .inl (if_neg Bool.false_ne_true)

theorem remove_cases (exchange : Exchange) (surroundings : Surroundings) (next : Phase) :
    exchange.remove surroundings next = exchange ∨
      exchange.remove surroundings next = { exchange with entry := none, phase := next } := by
  rw [Exchange.remove]
  cases surroundings.locked with
  | true => exact .inl (if_pos rfl)
  | false => exact .inr (if_neg Bool.false_ne_true)

theorem proceed_sound (sound : Sound exchange) (surroundings : Surroundings) (branch : Branch) :
    Sound (exchange.proceed false surroundings branch) := by
  have before := sound
  cases phase : exchange.phase with
  | inserting =>
      rw [Sound, phase] at before
      obtain ⟨-, grant, decided, unsent⟩ := before
      simp only [Exchange.proceed, phase]
      split
      · exact sound
      · exact ⟨rfl, grant, decided, unsent⟩
  | sendingAcquire =>
      rw [Sound, phase] at before
      obtain ⟨entry, grant, decided, unsent⟩ := before
      simp only [Exchange.proceed, phase]
      rcases send_cases exchange surroundings exchange.call.acquireMessage exchange.loopHead
        (.failing "control plane event channel closed while acquiring concurrency")
        with waits | isSent
      · rw [waits]
        exact sound
      · rw [isSent, unsent]
        -- The head of the loop sees the outer cancellation, or waits for the grant.
        cases cancelled : exchange.outerCancelled with
        | true => simp [Sound, Exchange.loopHead, cancelled, Waits, entry, grant, decided]
        | false => simp [Sound, Exchange.loopHead, cancelled, Waits, entry, grant, decided]
  | selecting =>
      rw [Sound, phase] at before
      obtain ⟨waits, sent⟩ := before
      simp only [Exchange.proceed, phase]
      cases branch with
      | grant => exact receive_sound waits sent (.inl phase)
      | outer =>
          dsimp only
          split
          · exact ⟨waits, sent⟩
          · split
            · exact ⟨waits, sent⟩
            · exact sound
  | awaiting =>
      rw [Sound, phase] at before
      simp only [Exchange.proceed, phase]
      exact receive_sound before.1 before.2 (.inr phase)
  | failing error =>
      rw [Sound, phase] at before
      exact before.elim
  | abandoning =>
      rw [Sound, phase] at before
      simp only [Exchange.proceed, phase]
      rcases remove_cases exchange surroundings .sendingAbandon with waits | removed
      · rw [waits]
        exact sound
      · rw [removed]
        exact ⟨rfl, before.2⟩
  | sendingAbandon =>
      rw [Sound, phase] at before
      simp only [Exchange.proceed, phase]
      rcases send_cases exchange surroundings exchange.call.releaseMessage
        (.ended (.cancelled "The parent run was cancelled while waiting for concurrency."))
        (.ended (.cancelled "The parent run was cancelled while waiting for concurrency."))
        with waits | isSent
      · rw [waits]
        exact sound
      · rw [isSent, before.2]
        exact .inr ⟨before.1, .inl rfl⟩
  | held =>
      simp only [Exchange.proceed, phase]
      exact sound
  | releasing =>
      rw [Sound, phase] at before
      simp only [Exchange.proceed, phase]
      rcases remove_cases exchange surroundings .sendingRelease with waits | removed
      · rw [waits]
        exact sound
      · rw [removed]
        exact ⟨rfl, before.2⟩
  | sendingRelease =>
      rw [Sound, phase] at before
      obtain ⟨entry, -, sent⟩ := before
      simp only [Exchange.proceed, phase]
      rcases send_cases exchange surroundings exchange.call.releaseMessage
        (.ended (.released (.ok ()))) (.ended (.released (.error
          "control plane event channel closed while releasing concurrency"))) with waits | isSent
      · rw [waits]
        exact sound
      · rw [isSent, sent]
        exact .inr ⟨entry, .inl rfl⟩
  | ended ending =>
      simp only [Exchange.proceed, phase]
      exact sound

/-! ### Decisions -/

/-- What a decision leaves as it is: where the request is, its messages, an earlier decision, a
granted entry and an absent one. -/
structure Decides (exchange decided : Exchange) : Prop where
  call : decided.call = exchange.call
  phase : decided.phase = exchange.phase
  outbound : decided.outbound = exchange.outbound
  first : ∀ decision, exchange.decided = some decision → decided.decided = some decision
  absent : exchange.entry = none → decided.entry = none
  held : exchange.entry = some { granted := true, grant := false } →
    decided.entry = some { granted := true, grant := false }
  waits : Waits exchange → Waits decided

theorem Decides.settled {decided : Exchange} (decides : Decides exchange decided)
    (settled : Settled exchange) : Settled decided := by
  refine ⟨decides.absent settled.1, ?_⟩
  rw [decides.outbound, decides.call]
  exact settled.2.imp id fun refused => ⟨decides.first _ refused.1, refused.2⟩

theorem Decides.sound {decided : Exchange} (decides : Decides exchange decided)
    (sent : exchange.outbound ≠ []) (sound : Sound exchange) : Sound decided := by
  rw [Sound, decides.phase]
  rw [Sound] at sound
  cases phase : exchange.phase with
  | inserting =>
      rw [phase] at sound
      exact absurd sound.2.2.2 sent
  | sendingAcquire =>
      rw [phase] at sound
      exact absurd sound.2.2.2 sent
  | selecting | awaiting | abandoning =>
      rw [phase] at sound
      exact ⟨decides.waits sound.1, by rw [decides.outbound, decides.call, sound.2]⟩
  | failing error =>
      rw [phase] at sound
      exact sound
  | sendingAbandon =>
      rw [phase] at sound
      exact ⟨decides.absent sound.1, by rw [decides.outbound, decides.call, sound.2]⟩
  | held | releasing =>
      rw [phase] at sound
      obtain ⟨entry, granted, isSent⟩ := sound
      exact ⟨decides.held entry, decides.first _ granted,
        by rw [decides.outbound, decides.call, isSent]⟩
  | sendingRelease =>
      rw [phase] at sound
      obtain ⟨entry, granted, isSent⟩ := sound
      exact ⟨decides.absent entry, decides.first _ granted,
        by rw [decides.outbound, decides.call, isSent]⟩
  | ended ending =>
      rw [phase] at sound
      exact .inr (decides.settled (sound.resolve_left sent))

theorem answer_eq (exchange : Exchange) (request : RequestState) (value : Except String Unit) :
    exchange.answer request value =
      { exchange with grant := if request.grant then some value else exchange.grant } := by
  rw [Exchange.answer]
  split <;> rfl

theorem decided_first {decision : Decision} (found : exchange.decided = some decision)
    (later : Decision) : exchange.decided.or (some later) = some decision := by
  rw [found, Option.some_or]

/-- Without an entry a decision is only recorded. -/
theorem Decides.of_absent (absent : exchange.entry = none) (decision : Decision) :
    Decides exchange (exchange.decide decision) where
  call := rfl
  phase := rfl
  outbound := rfl
  first _ found := decided_first found decision
  absent := id
  held held := nomatch (absent.symm.trans held)
  waits waits := by
    rcases waits with ⟨pending, -⟩ | ⟨pending, -⟩ | ⟨-, refused, decided⟩
    · exact nomatch (absent.symm.trans pending)
    · exact nomatch (absent.symm.trans pending)
    · exact .inr (.inr ⟨absent, refused, decided_first decided decision⟩)

/-- A grant answers an undecided request. -/
theorem granted_decides (exchange : Exchange) :
    Decides exchange (exchange.decide .granted).handleGranted := by
  cases entry : exchange.entry with
  | none =>
      have handled : (exchange.decide .granted).handleGranted = exchange.decide .granted := by
        simp only [Exchange.handleGranted, Exchange.decide, entry]
      rw [handled]
      exact .of_absent entry .granted
  | some request =>
      have handled : (exchange.decide .granted).handleGranted = { exchange with
          decided := exchange.decided.or (some .granted)
          grant := if request.grant then some (.ok ()) else exchange.grant
          entry := some { granted := true, grant := false } } := by
        simp only [Exchange.handleGranted, Exchange.decide, entry, answer_eq]
      rw [handled]
      refine ⟨rfl, rfl, rfl, fun _ found => decided_first found _,
        fun absent => absurd (entry.symm.trans absent) (Option.some_ne_none _), fun _ =>
          rfl, fun waits => ?_⟩
      rcases waits with ⟨pending, grant, decided⟩ | ⟨granted, grant, decided⟩ | ⟨absent, -⟩
      · cases entry.symm.trans pending
        exact .inr (.inl ⟨rfl, rfl, by rw [decided, Option.none_or]⟩)
      · cases entry.symm.trans granted
        exact .inr (.inl ⟨rfl, grant, decided_first decided _⟩)
      · exact nomatch (entry.symm.trans absent)

/-- A cancellation refuses an undecided request, and cancels the lease of a granted one. -/
theorem cancelled_decides (exchange : Exchange) (reason : String) :
    Decides exchange ((exchange.decide .cancelled).handleCancelled reason) := by
  cases entry : exchange.entry with
  | none =>
      have handled : (exchange.decide .cancelled).handleCancelled reason =
          exchange.decide .cancelled := by
        simp only [Exchange.handleCancelled, Exchange.decide, entry]
      rw [handled]
      exact .of_absent entry .cancelled
  | some request =>
      cases granted : request.granted with
      | true =>
          have handled : (exchange.decide .cancelled).handleCancelled reason = { exchange with
              decided := exchange.decided.or (some .cancelled)
              cancel := true } := by
            simp only [Exchange.handleCancelled, Exchange.decide, entry, granted, if_true]
          rw [handled]
          refine ⟨rfl, rfl, rfl, fun _ found => decided_first found _, id, id, fun waits => ?_⟩
          rcases waits with ⟨pending, -⟩ | ⟨held, grant, decided⟩ | ⟨absent, -⟩
          · cases entry.symm.trans pending
            cases granted
          · exact .inr (.inl ⟨held, grant, decided_first decided _⟩)
          · exact nomatch (entry.symm.trans absent)
      | false =>
          have handled : (exchange.decide .cancelled).handleCancelled reason = { exchange with
              decided := exchange.decided.or (some .cancelled)
              grant := if request.grant then some (.error reason) else exchange.grant
              entry := none } := by
            simp only [Exchange.handleCancelled, Exchange.decide, entry, granted,
              Bool.false_eq_true, if_false, answer_eq]
          rw [handled]
          refine ⟨rfl, rfl, rfl, fun _ found => decided_first found _, fun _ => rfl,
            fun held => ?_, fun waits => ?_⟩
          · cases entry.symm.trans held
            cases granted
          · rcases waits with ⟨pending, grant, decided⟩ | ⟨held, -⟩ | ⟨absent, -⟩
            · cases entry.symm.trans pending
              exact .inr (.inr ⟨rfl, ⟨reason, rfl⟩, by rw [decided, Option.none_or]⟩)
            · cases entry.symm.trans held
              cases granted
            · exact nomatch (entry.symm.trans absent)

/-! ### Actions -/

theorem drop_of_cancelled (sound : Sound exchange) (acquiring : exchange.phase.isAcquiring = true)
    (kept : exchange.call.acquireMessage ∈ exchange.outbound →
      exchange.decided = some .cancelled) :
    exchange.outbound = [] ∨ Settled exchange := by
  rw [Sound] at sound
  cases phase : exchange.phase with
  | inserting =>
      rw [phase] at sound
      exact .inl sound.2.2.2
  | sendingAcquire =>
      rw [phase] at sound
      exact .inl sound.2.2.2
  | selecting | awaiting | abandoning =>
      rw [phase] at sound
      obtain ⟨waits, sent⟩ := sound
      have cancelled := kept (sent ▸ List.mem_singleton_self _)
      rcases waits with ⟨-, -, decided⟩ | ⟨-, -, decided⟩ | ⟨absent, -, -⟩
      · cases decided.symm.trans cancelled
      · cases decided.symm.trans cancelled
      · exact .inr ⟨absent, .inr ⟨cancelled, sent⟩⟩
  | sendingAbandon =>
      rw [phase] at sound
      have cancelled := kept (sound.2 ▸ List.mem_singleton_self _)
      exact .inr ⟨sound.1, .inr ⟨cancelled, sound.2⟩⟩
  | failing error =>
      rw [phase] at sound
      exact sound.elim
  | held | releasing | sendingRelease =>
      rw [phase] at acquiring
      cases acquiring
  | ended ending =>
      rw [phase] at acquiring
      cases acquiring

/-- An action that loses no release keeps the invariant. -/
theorem react_sound (sound : Sound exchange) (action : Action) (kept : Kept exchange action) :
    Sound (react false exchange action) := by
  cases action with
  | proceed surroundings branch => exact proceed_sound sound surroundings branch
  | granted surroundings =>
      rw [react]
      split
      · exact sound
      · next ready =>
          have sent : exchange.outbound ≠ [] := fun unsent => ready (by simp [unsent])
          exact (granted_decides exchange).sound sent sound
  | cancelled surroundings reason =>
      rw [react]
      split
      · exact sound
      · next ready =>
          have sent : exchange.outbound ≠ [] := fun unsent => ready (by simp [unsent])
          exact (cancelled_decides exchange reason).sound sent sound
  | cancelOuter => exact sound
  | closeOuter => exact sound
  | release =>
      rw [react]
      split
      · next held =>
          rw [Sound, held] at sound
          exact sound
      · exact sound
  | dropLease surroundings =>
      rw [react]
      split
      · next held =>
          obtain ⟨unlocked, room⟩ := kept held
          rw [Sound, held] at sound
          refine .inr ⟨?_, .inl ?_⟩
          · simp [Exchange.dropLease, unlocked]
          · simp [Exchange.dropLease, room, sound.2.2]
      · exact sound
  | dropAcquire =>
      rw [react]
      split
      · next acquiring =>
          have dropped := drop_of_cancelled sound acquiring (kept acquiring)
          exact dropped
      · exact sound
  | dropRelease =>
      rw [react, if_neg (by rw [kept]; exact Bool.false_ne_true)]
      exact sound

/-- Before the release message is sent, at most the acquire message was. -/
theorem unreleased (sound : Sound exchange)
    (running : exchange.phase.isAcquiring = true ∨ exchange.phase.isReleasing = true) :
    exchange.outbound ≠ [exchange.call.acquireMessage, exchange.call.releaseMessage] := by
  intro released
  rw [Sound] at sound
  cases phase : exchange.phase with
  | inserting | sendingAcquire =>
      rw [phase] at sound
      cases released.symm.trans sound.2.2.2
  | selecting | awaiting | abandoning | sendingAbandon =>
      rw [phase] at sound
      cases released.symm.trans sound.2
  | failing error =>
      rw [phase] at sound
      exact sound
  | held | releasing | sendingRelease =>
      rw [phase] at sound
      cases released.symm.trans sound.2.2
  | ended ending =>
      rw [phase] at running
      rcases running with acquiring | releasing
      · cases acquiring
      · cases releasing

/-- A lease, held or in its release, was granted, and its acquire message was sent. -/
theorem granted_of_lease (sound : Sound exchange)
    (leased : exchange.phase = .held ∨ exchange.phase.isReleasing = true) :
    exchange.decided = some .granted ∧ exchange.outbound = [exchange.call.acquireMessage] := by
  rw [Sound] at sound
  cases phase : exchange.phase with
  | held | releasing | sendingRelease =>
      rw [phase] at sound
      exact sound.2
  | inserting | sendingAcquire | selecting | awaiting | abandoning | sendingAbandon | failing _
  | ended _ =>
      rw [phase] at leased
      rcases leased with held | releasing
      · cases held
      · cases releasing

/-- Any other action ends the request unsettled. -/
theorem react_lost (sound : Sound exchange) (action : Action) (lost : ¬ Kept exchange action) :
    ∃ ending, (react false exchange action).phase = .ended ending ∧
      (react false exchange action).call.acquireMessage ∈ (react false exchange action).outbound ∧
      ¬ Settled (react false exchange action) := by
  cases action with
  | dropLease surroundings =>
      obtain ⟨held, lost⟩ := Classical.not_imp.mp lost
      obtain ⟨granted, sent⟩ := granted_of_lease sound (.inl held)
      rw [Sound, held] at sound
      rw [react, if_pos held, Exchange.dropLease]
      refine ⟨.dropped, rfl, ?_, fun ⟨entry, settled⟩ => ?_⟩
      · cases surroundings.room with
        | true => simp [sent]
        | false => simp [sent]
      · dsimp only at entry settled
        rcases settled with released | ⟨cancelled, -⟩
        · refine lost ⟨?_, ?_⟩
          · cases locked : surroundings.locked with
            | false => rfl
            | true =>
                rw [locked, if_pos rfl, sound.1] at entry
                cases entry
          · cases room : surroundings.room with
            | true => rfl
            | false => simp [room, sent] at released
        · cases granted.symm.trans cancelled
  | dropAcquire =>
      obtain ⟨acquiring, lost⟩ := Classical.not_imp.mp lost
      obtain ⟨sent, uncancelled⟩ := Classical.not_imp.mp lost
      rw [react, if_pos acquiring]
      refine ⟨.dropped, rfl, sent, fun ⟨_, settled⟩ => ?_⟩
      rcases settled with released | ⟨cancelled, -⟩
      · exact unreleased sound (.inl acquiring) released
      · exact uncancelled cancelled
  | dropRelease =>
      have releasing : exchange.phase.isReleasing = true := (Bool.not_eq_false _).mp lost
      obtain ⟨granted, sent⟩ := granted_of_lease sound (.inr releasing)
      rw [react, if_pos releasing]
      refine ⟨.dropped, rfl, sent ▸ List.mem_singleton_self _, fun ⟨_, settled⟩ => ?_⟩
      rcases settled with released | ⟨cancelled, -⟩
      · exact unreleased sound (.inr releasing) released
      · cases granted.symm.trans cancelled
  | proceed _ _ | granted _ | cancelled _ _ | cancelOuter | closeOuter | release =>
      exact absurd trivial lost

end Steps

/-! ### Runs -/

section Runs

variable {client : ConcurrencyClient}

theorem exchanges_act {requestId other : Uuid} {action : Action} {exchange : Exchange}
    (found : (step client (.act requestId action)).exchanges other = some exchange) :
    (other = requestId ∧ ∃ before, client.exchanges requestId = some before ∧
        exchange = react client.closed before action) ∨
      other ≠ requestId ∧ client.exchanges other = some exchange := by
  rw [step] at found
  dsimp only at found
  by_cases same : other = requestId
  · subst same
    rw [Function.update_self, Option.map_eq_some_iff] at found
    obtain ⟨before, isBefore, reacted⟩ := found
    exact .inl ⟨rfl, before, isBefore, reacted.symm⟩
  · rw [Function.update_of_ne same] at found
    exact .inr ⟨same, found⟩

theorem step_sound (event : Event) (sound : AllSound client) (kept : StepKept client event) :
    AllSound (step client event) := by
  cases event with
  | acquire call outerCancelled =>
      rw [step]
      split
      · exact sound
      · intro isOpen other exchange found
        dsimp only at found
        by_cases same : other = call.requestId
        · rw [same, Function.update_self] at found
          cases found
          exact ⟨rfl, rfl, rfl, rfl⟩
        · rw [Function.update_of_ne same] at found
          exact sound isOpen other exchange found
  | act requestId action =>
      intro isOpen other exchange found
      rcases exchanges_act found with ⟨-, before, isBefore, reacted⟩ | ⟨-, unchanged⟩
      · have stillOpen : client.closed = false := isOpen
        rw [reacted, stillOpen]
        exact react_sound (sound isOpen requestId before isBefore) action
          (kept isOpen before isBefore)
      · exact sound isOpen other exchange unchanged
  | disconnect => exact fun isOpen => nomatch isOpen

theorem AllSound.oneRelease (sound : AllSound client) : OneRelease client :=
  fun isOpen requestId exchange found _ ended sent =>
    (sound isOpen requestId exchange found).settled ended sent

theorem kept_iff_oneRelease (event : Event) (sound : AllSound client) :
    StepKept client event ↔ OneRelease (step client event) := by
  constructor
  · exact fun kept => (step_sound event sound kept).oneRelease
  · intro oneRelease
    cases event with
    | act requestId action =>
        intro isOpen exchange found
        by_contra lost
        obtain ⟨ending, ended, sent, unsettled⟩ :=
          react_lost (sound isOpen requestId exchange found) action lost
        refine unsettled (oneRelease isOpen requestId _ ?_ ending ended sent)
        rw [step]
        dsimp only
        rw [Function.update_self, found, isOpen, Option.map_some]
    | acquire _ _ => trivial
    | disconnect => trivial

/-- For every order of the events, each request that was sent is released once, or refused,
exactly where no step loses a release. -/
theorem one_release_iff (events : List Event) :
    Along step StepKept {} events ↔
      Along step (fun client event => OneRelease (step client event)) {} events := by
  have empty : AllSound {} := by
    intro _ _ _ found
    cases found
  exact Along.congr (fun _ event sound kept => step_sound event sound kept)
    (fun _ event sound => kept_iff_oneRelease event sound) empty events

end Runs

namespace RequestSample

def call : Call :=
  { runId := 1, requestId := 7, unitId := ['j', 'o', 'b'], group := ['g'], cancelInProgress := false
    queue := .single }

def free : Surroundings := { locked := false, room := true }

/-- An `acquire` that is dropped while it waits for its grant. -/
def dropped : List Event :=
  [.acquire call false, .act 7 (.proceed free .grant), .act 7 (.proceed free .grant),
    .act 7 .dropAcquire]

/-- The acquire message was sent, no release follows it, and the entry stays, also when the grant
arrives. -/
theorem dropped_acquire_is_not_released :
    (∃ exchange, (run step {} dropped).exchanges 7 = some exchange ∧
      exchange.phase = .ended .dropped ∧ exchange.outbound = [call.acquireMessage] ∧
      exchange.decided = none) ∧
    ((run step {} (dropped ++ [.act 7 (.granted free)])).requests 7).isSome ∧
    ¬ OneRelease (run step {} dropped) := by
  refine ⟨⟨_, rfl, rfl, rfl, rfl⟩, rfl, fun oneRelease => ?_⟩
  have settled := oneRelease rfl 7 _ rfl .dropped rfl (List.mem_singleton_self _)
  cases settled.1

end RequestSample

end GitZero.Agent.ConcurrencyRequests
