/-
Module: GitZero.Proofs.EventMasking
Purpose: What the relay forwards holds no value that is masked, where every text field
  passes the masks and no chunk ends within a masked value.
Trusted boundary: none
Main exports: MasksStep, Masks, Covered, Advances, TextsWithheld, LogsWithheld,
  masked_events_of_covered, secrets_leave
-/
import Mathlib.Data.List.Destutter
import GitZero.Proofs.MaskGrowth

namespace GitZero.Agent.MaskedEvents

open Expression (Text)
open Commands
open CommandProcessor
open Machine (Along run)
open ProblemMatchers (Regexes Files truncateUtf8 truncateBy)

/-! ### Texts behind the masks -/

section Texts

variable {value : Text}

theorem stars_ne_nil : stars ≠ [] := by decide

theorem disjoint_stars (plain : '*' ∉ value) : value.Disjoint stars := by
  intro char inValue inStars
  have isStar : char = '*' := by
    revert inStars
    simp [stars]
  rw [isStar] at inValue
  exact plain inValue

/-- A property that no redaction takes away holds behind the masks. -/
theorem maskText_keeps {Holds : Text → Prop}
    (keeps : ∀ text redacted, Redaction.Redacts stars text redacted → Holds text → Holds redacted)
    (secrets : List Text) {text : Text} (holds : Holds text) : Holds (maskText text secrets) := by
  induction secrets generalizing text with
  | nil => exact holds
  | cons secret secrets inductionHypothesis =>
      rw [maskText, List.foldl_cons]
      apply inductionHypothesis
      split
      · exact keeps _ _ (Redaction.redacts_replace secret stars text) holds
      · exact holds

theorem not_infix_keeps (plain : '*' ∉ value) (text redacted : Text)
    (redacts : Redaction.Redacts stars text redacted) (free : ¬ value <:+: text) :
    ¬ value <:+: redacted :=
  fun occurs => free (redacts.occurs (disjoint_stars plain) stars_ne_nil occurs)

theorem seamless_keeps (plain : '*' ∉ value) (text redacted : Text)
    (redacts : Redaction.Redacts stars text redacted) (clear : Redaction.Seamless value text) :
    Redaction.Seamless value redacted :=
  redacts.seamless (disjoint_stars plain) stars_ne_nil clear

/-- No mask is left in what it masks. -/
theorem not_infix_maskText (isSome : value ≠ []) (plain : '*' ∉ value) {secrets : List Text}
    (member : value ∈ secrets) (text : Text) : ¬ value <:+: maskText text secrets := by
  induction secrets generalizing text with
  | nil => cases member
  | cons secret secrets inductionHypothesis =>
      rw [maskText, List.foldl_cons]
      rcases List.mem_cons.mp member with rfl | behind
      · apply maskText_keeps (not_infix_keeps plain)
        split
        · exact Redaction.not_infix_replace isSome (disjoint_stars plain) stars_ne_nil text
        · assumption
      · exact inductionHypothesis behind _

theorem truncateBy_isPrefix (size : Char → Nat) (maximum : Nat) (text : Text) :
    truncateBy size maximum text <+: text := by
  induction text generalizing maximum with
  | nil => exact List.nil_prefix
  | cons char text inductionHypothesis =>
      rw [truncateBy]
      split
      · exact (List.prefix_cons_inj char).mpr (inductionHypothesis _)
      · exact List.nil_prefix

theorem not_infix_truncateUtf8 {text : Text} (free : ¬ value <:+: text) (maximum : Nat) :
    ¬ value <:+: truncateUtf8 text maximum :=
  fun occurs => free (occurs.trans (truncateBy_isPrefix _ _ _).isInfix)

end Texts

/-! ### What is masked for a message -/

section Masking

variable [Regexes]

/-- The texts of a message that a process or a file of the repository can choose. -/
def AgentMessage.texts : AgentMessage → List Text
  | .request _ => []
  | .jobRejected _ reason => [reason]
  | .deploymentStarted _ environment => [environment]
  | .deploymentFinished _ _ environmentUrl => environmentUrl.toList
  | .stepStarted _ name => [name]
  | .logChunk _ _ _ data => [data]
  | .stepFinished _ _ _ => []
  | .jobFinished _ summary annotations =>
      summary :: annotations.flatMap fun note =>
        note.path :: note.message :: note.title.toList

def AgentMessage.stepId? : AgentMessage → Option String
  | .stepStarted stepId _ => some stepId
  | .logChunk stepId _ _ _ => some stepId
  | .stepFinished stepId _ _ => some stepId
  | _ => none

/-- The data of a log of that step and stream. -/
def AgentMessage.log? (stepId : String) (stream : LogStream) : AgentMessage → Option Text
  | .logChunk step _ other data => if step = stepId ∧ other = stream then some data else none
  | _ => none

namespace EventRelay

/-- A mask for the steps of a job. -/
def MasksStep (relay : EventRelay) (value : Text) (stepId : String) : Prop :=
  value ∈ relay.secrets ∨ value ∈ relay.globalMasks ∨
    value ∈ (relay.commands.scope (workflowCommandScope stepId)).masks

/-- A mask for the run: the masks of every job count. -/
def MasksRun (relay : EventRelay) (value : Text) : Prop :=
  value ∈ relay.secrets ∨ value ∈ relay.globalMasks ∨
    ∃ scopeId, value ∈ (relay.commands.scope scopeId).masks

/-- A mask for a message: for its step, or for the run if it has none. -/
def Masks (relay : EventRelay) (value : Text) (message : AgentMessage) : Prop :=
  match message.stepId? with
  | some stepId => relay.MasksStep value stepId
  | none => relay.MasksRun value

/-- The masks of the one are masks of the other. -/
structure Within (one two : EventRelay) : Prop where
  secrets : two.secrets = one.secrets
  globalMasks : one.globalMasks ⊆ two.globalMasks
  commands : Grows one.commands two.commands

variable {one two three relay : EventRelay} {value : Text}

theorem Within.refl (relay : EventRelay) : Within relay relay :=
  ⟨rfl, List.Subset.refl _, .refl _⟩

theorem Within.trans (first : Within one two) (second : Within two three) : Within one three :=
  ⟨second.secrets.trans first.secrets, List.Subset.trans first.globalMasks second.globalMasks,
    first.commands.trans second.commands⟩

theorem Within.masksStep (within : Within one two) {stepId : String}
    (masks : one.MasksStep value stepId) : two.MasksStep value stepId := by
  rcases masks with static | isGlobal | dynamic
  · exact .inl (within.secrets ▸ static)
  · exact .inr (.inl (within.globalMasks isGlobal))
  · exact .inr (.inr (within.commands _ dynamic))

theorem Within.masksRun (within : Within one two) (masks : one.MasksRun value) :
    two.MasksRun value := by
  rcases masks with static | isGlobal | ⟨scopeId, dynamic⟩
  · exact .inl (within.secrets ▸ static)
  · exact .inr (.inl (within.globalMasks isGlobal))
  · exact .inr (.inr ⟨scopeId, within.commands _ dynamic⟩)

theorem Within.masks (within : Within one two) {message : AgentMessage}
    (masks : one.Masks value message) : two.Masks value message := by
  unfold Masks at masks ⊢
  split at masks
  · exact within.masksStep masks
  · exact within.masksRun masks

/-! ### Texts behind the masks of a relay -/

theorem maskForStep_keeps {Holds : Text → Prop}
    (keeps : ∀ text redacted, Redaction.Redacts stars text redacted → Holds text → Holds redacted)
    (stepId : String) {text : Text} (holds : Holds text) :
    Holds (relay.maskForStep stepId text) :=
  maskText_keeps keeps _ (maskText_keeps keeps _ holds)

theorem maskOfStep_keeps {Holds : Text → Prop}
    (keeps : ∀ text redacted, Redaction.Redacts stars text redacted → Holds text → Holds redacted)
    (stepId : String) {text : Text} (holds : Holds text) : Holds (relay.maskOfStep stepId text) :=
  maskForStep_keeps keeps stepId (maskText_keeps keeps _ holds)

theorem not_infix_maskOfStep (isSome : value ≠ []) (plain : '*' ∉ value) {stepId : String}
    (masks : relay.MasksStep value stepId) (text : Text) :
    ¬ value <:+: relay.maskOfStep stepId text := by
  have keeps := not_infix_keeps plain
  rcases masks with static | isGlobal | dynamic
  · exact maskForStep_keeps keeps stepId (not_infix_maskText isSome plain static text)
  · exact maskText_keeps keeps _ (not_infix_maskText isSome plain isGlobal _)
  · exact not_infix_maskText isSome plain dynamic _

omit [Regexes] in
theorem maskScopes_keeps {Holds : Text → Prop}
    (keeps : ∀ text redacted, Redaction.Redacts stars text redacted → Holds text → Holds redacted)
    (scopes : List (String × WorkflowCommandScope)) {text : Text} (holds : Holds text) :
    Holds (scopes.foldl (fun value scope => maskText value scope.2.masks) text) := by
  induction scopes generalizing text with
  | nil => exact holds
  | cons scope scopes inductionHypothesis =>
      exact inductionHypothesis (maskText_keeps keeps _ holds)

omit [Regexes] in
theorem not_infix_maskScopes (isSome : value ≠ []) (plain : '*' ∉ value)
    {scopes : List (String × WorkflowCommandScope)} {entry : String × WorkflowCommandScope}
    (member : entry ∈ scopes) (masks : value ∈ entry.2.masks) (text : Text) :
    ¬ value <:+: scopes.foldl (fun value scope => maskText value scope.2.masks) text := by
  induction scopes generalizing text with
  | nil => cases member
  | cons scope scopes inductionHypothesis =>
      rcases List.mem_cons.mp member with rfl | behind
      · exact maskScopes_keeps (not_infix_keeps plain) scopes
          (not_infix_maskText isSome plain masks text)
      · exact inductionHypothesis behind _

theorem not_infix_maskOfJob (isSome : value ≠ []) (plain : '*' ∉ value)
    (masks : relay.MasksRun value) (text : Text) : ¬ value <:+: relay.maskOfJob text := by
  have keeps := not_infix_keeps plain
  rcases masks with static | isGlobal | ⟨scopeId, dynamic⟩
  · exact maskScopes_keeps keeps _
      (maskText_keeps keeps _ (not_infix_maskText isSome plain static text))
  · exact maskScopes_keeps keeps _ (not_infix_maskText isSome plain isGlobal _)
  · unfold WorkflowCommandProcessor.scope at dynamic
    cases found : relay.commands.scopes[scopeId]? with
    | none =>
        rw [found, Option.getD_none] at dynamic
        cases dynamic
    | some scope =>
        rw [found, Option.getD_some] at dynamic
        exact not_infix_maskScopes isSome plain
          (Std.ExtTreeMap.mem_toList_iff_getElem?_eq_some.mpr found) dynamic _

end EventRelay

end Masking

/-! ### One message -/

section Relaying

variable [Regexes] [Files] [MatcherFiles] {relay next : EventRelay} {value : Text}
  {preprocessed : Bool} {message out : AgentMessage}

namespace EventRelay

omit [Files] [MatcherFiles] in
/-- What the relay forwards as it is has nothing of the value: the fields of a deployment, and
the path that stands for a path that is too long behind the masks. -/
def Bare (relay : EventRelay) (value : Text) : AgentMessage → Prop
  | .deploymentStarted _ environment => ¬ value <:+: environment
  | .deploymentFinished _ _ environmentUrl => ∀ url ∈ environmentUrl, ¬ value <:+: url
  | .jobFinished _ _ _ =>
      ∀ note ∈ relay.commands.annotations,
        byteLength (relay.maskOfJob note.path) ≤ maxCheckAnnotationPathBytes ∨
          ¬ value <:+: ".github".toList
  | _ => True

/-- The same masks or more, and the same messages on both sides. -/
structure Beside (one two : EventRelay) : Prop where
  within : Within one two
  incoming : two.incoming = one.incoming
  forwarded : two.forwarded = one.forwarded

theorem processed_grows (relay : EventRelay) (preprocessed : Bool) (stepId : String)
    (stream : LogStream) (data : Text) :
    Grows relay.commands (relay.processed preprocessed stepId stream data).1 := by
  unfold processed
  split
  · exact processLog_grows relay.commands stepId stream data
  · exact .refl _

omit [Files] [MatcherFiles] in
theorem beside_commands {commands : WorkflowCommandProcessor}
    (grown : Grows relay.commands commands) : Beside relay { relay with commands } :=
  ⟨⟨rfl, List.Subset.refl _, grown⟩, rfl, rfl⟩

theorem relayMessage_beside (relay : EventRelay) (preprocessed : Bool) (message : AgentMessage) :
    Beside relay (relay.relayMessage preprocessed message).1 := by
  have unchanged : Beside relay relay := ⟨.refl relay, rfl, rfl⟩
  cases message with
  | logChunk stepId sequence stream data =>
      have grown := processed_grows relay preprocessed stepId stream data
      unfold relayMessage
      dsimp only
      split
      · rename_i processed
        rw [processed] at grown
        exact beside_commands grown
      · rename_i processed
        rw [processed] at grown
        split
        · exact beside_commands grown
        · exact beside_commands grown
  | stepFinished stepId conclusion exitCode =>
      exact beside_commands (finishStep_grows relay.commands stepId)
  | jobFinished conclusion summary annotations => exact beside_commands (grows_of_scopes rfl)
  | request request => exact unchanged
  | jobRejected requirements reason => exact unchanged
  | deploymentStarted unitId environment => exact unchanged
  | deploymentFinished unitId conclusion environmentUrl => exact unchanged
  | stepStarted stepId name => exact unchanged

/-- A log that is forwarded has passed the commands and the masks. -/
theorem relayMessage_logChunk {stepId : String} {sequence : Nat} {stream : LogStream} {raw : Text}
    (relayed : relay.relayMessage preprocessed (.logChunk stepId sequence stream raw) =
      (next, .ok (some out))) :
    ∃ visible, (relay.processed preprocessed stepId stream raw).2 = .ok visible ∧
      out = .logChunk stepId sequence stream (next.maskOfStep stepId visible) := by
  unfold relayMessage at relayed
  dsimp only at relayed
  split at relayed
  · cases relayed
  · rename_i visible processed
    split at relayed
    · cases relayed
    · cases relayed
      exact ⟨visible, by rw [processed], rfl⟩

omit [Files] [MatcherFiles] in
theorem boundMaskedAnnotation_free (isSome : value ≠ []) (plain : '*' ∉ value)
    (masks : relay.MasksRun value) {note : CheckAnnotation}
    (fits : byteLength (relay.maskOfJob note.path) ≤ maxCheckAnnotationPathBytes ∨
      ¬ value <:+: ".github".toList) :
    let bounded := boundMaskedAnnotation <| relay.maskAnnotation note
    ∀ text ∈ bounded.path :: bounded.message :: bounded.title.toList, ¬ value <:+: text := by
  have free := not_infix_maskOfJob isSome plain masks
  intro bounded text member
  simp only [List.mem_cons, Option.mem_toList] at member
  rcases member with rfl | rfl | isTitle
  · change ¬ value <:+:
      if byteLength (relay.maskOfJob note.path) > maxCheckAnnotationPathBytes then
        ".github".toList else relay.maskOfJob note.path
    split
    · rename_i long
      exact fits.resolve_left (Nat.not_le.mpr long)
    · exact free _
  · exact not_infix_truncateUtf8 (free _) _
  · change (note.title.map relay.maskOfJob).map
      (fun title => truncateUtf8 title maxCheckAnnotationTitleBytes) = some text at isTitle
    rw [Option.map_map] at isTitle
    obtain ⟨title, -, rfl⟩ := Option.map_eq_some_iff.mp isTitle
    exact not_infix_truncateUtf8 (free _) _

/-- A message that is forwarded has no value that is masked for it. -/
theorem relayMessage_free (isSome : value ≠ []) (plain : '*' ∉ value)
    (relayed : relay.relayMessage preprocessed message = (next, .ok (some out)))
    (bare : relay.Bare value message) (masks : relay.Masks value out) :
    ∀ text ∈ out.texts, ¬ value <:+: text := by
  have beside := relayMessage_beside relay preprocessed message
  rw [relayed] at beside
  cases message with
  | request request =>
      cases relayed
      exact List.forall_mem_nil _
  | jobRejected requirements reason =>
      cases relayed
      exact List.forall_mem_singleton.mpr (not_infix_maskOfJob isSome plain masks reason)
  | deploymentStarted unitId environment =>
      cases relayed
      exact List.forall_mem_singleton.mpr bare
  | deploymentFinished unitId conclusion environmentUrl =>
      cases relayed
      intro text member
      exact bare text (Option.mem_toList.mp member)
  | stepStarted stepId name =>
      cases relayed
      exact List.forall_mem_singleton.mpr (not_infix_maskOfStep isSome plain masks name)
  | logChunk stepId sequence stream raw =>
      obtain ⟨visible, -, rfl⟩ := relayMessage_logChunk relayed
      exact List.forall_mem_singleton.mpr
        (not_infix_maskOfStep isSome plain (beside.within.masksStep masks) visible)
  | stepFinished stepId conclusion exitCode =>
      cases finished : (finishStep relay.commands stepId).2 with
      | error error =>
          have failed := congrArg Prod.snd relayed
          change (finishStep relay.commands stepId).2.map _ = _ at failed
          rw [finished] at failed
          cases failed
      | ok done =>
          have sent := congrArg Prod.snd relayed
          change (finishStep relay.commands stepId).2.map _ = _ at sent
          rw [finished] at sent
          cases sent
          exact List.forall_mem_nil _
  | jobFinished conclusion summary annotations =>
      cases relayed
      intro text member
      rcases List.mem_cons.mp member with rfl | inAnnotations
      · exact not_infix_maskOfJob isSome plain masks summary
      · obtain ⟨bounded, isBounded, inBounded⟩ := List.mem_flatMap.mp inAnnotations
        obtain ⟨note, recorded, rfl⟩ := List.mem_map.mp isBounded
        exact boundMaskedAnnotation_free isSome plain masks (bare _ recorded) text inBounded

end EventRelay

end Relaying

/-! ### Runs -/

section Runs

variable [Regexes] [Files] [MatcherFiles] {relay registered next : EventRelay}
  {value part : Text} {stepId : String} {stream : LogStream} {occurrence : Occurrence}

/-- The condition on a step: what is forwarded as it is has nothing of the value, and what the
commands leave of a chunk does not end with a proper beginning of the part. -/
structure Covered (value part : Text) (stepId : String) (stream : LogStream) (relay : EventRelay)
    (occurrence : Occurrence) : Prop where
  bare : occurrence = .relay → ∀ message preprocessed incoming,
    relay.incoming = (message, preprocessed) :: incoming → relay.Bare value message
  output : ∀ sequence bytes visible, occurrence = .output stepId stream sequence bytes →
    (relay.commands.processLog stepId stream (fromUtf8Lossy bytes)).2 = .ok visible →
      Redaction.Seamless part visible
  sent : occurrence = .relay → ∀ sequence raw incoming visible,
    relay.incoming = (.logChunk stepId sequence stream raw, false) :: incoming →
      (relay.processed false stepId stream raw).2 = .ok visible → Redaction.Seamless part visible

namespace EventRelay

omit [Files] [MatcherFiles] in
/-- No preprocessed log of the stream ends with a proper beginning of the part. -/
def Queue (part : Text) (stepId : String) (stream : LogStream) (relay : EventRelay) : Prop :=
  ∀ sequence data, (.logChunk stepId sequence stream data, true) ∈ relay.incoming →
    Redaction.Seamless part data

omit [Files] [MatcherFiles] in
/-- What is to hold of a message that is forwarded after the value has been registered. -/
structure Shielded (registered : EventRelay) (value part : Text) (stepId : String)
    (stream : LogStream) (message : AgentMessage) : Prop where
  texts : registered.Masks value message → ∀ text ∈ message.texts, ¬ value <:+: text
  log : ∀ data, message.log? stepId stream = some data →
    Redaction.Seamless part data ∧ (registered.MasksStep part stepId → ¬ part <:+: data)

/-- What a step does to masks and messages. -/
inductive Advances (relay : EventRelay) : Occurrence → EventRelay → Prop
  | quiet {occurrence : Occurrence} {next : EventRelay} (within : Within relay next)
      (incoming : next.incoming ⊆ relay.incoming) (forwarded : next.forwarded = relay.forwarded) :
      Advances relay occurrence next
  | sends (message : AgentMessage) :
      Advances relay (.send message)
        { relay with incoming := relay.incoming ++ [(message, false)] }
  | outputs {stepId : String} {stream : LogStream} {sequence : Nat} {bytes : Bytes}
      {commands : WorkflowCommandProcessor} {visible : Text}
      (processed : relay.commands.processLog stepId stream (fromUtf8Lossy bytes) =
        (commands, .ok visible)) :
      Advances relay (.output stepId stream sequence bytes)
        { relay with
          commands
          incoming := relay.incoming ++
            [(.logChunk stepId sequence stream
              (maskForStep { relay with commands } stepId visible), true)] }
  | forwards {message : AgentMessage} {preprocessed : Bool}
      {incoming : List (AgentMessage × Bool)} {next : EventRelay} {out : AgentMessage}
      (queued : relay.incoming = (message, preprocessed) :: incoming)
      (relayed : relayMessage { relay with incoming } preprocessed message =
        (next, .ok (some out))) :
      Advances relay .relay { next with forwarded := relay.forwarded ++ [out] }

theorem Advances.of_within {next : EventRelay} (within : Within relay next)
    (incoming : next.incoming = relay.incoming) (forwarded : next.forwarded = relay.forwarded) :
    Advances relay occurrence next :=
  .quiet within (incoming ▸ List.Subset.refl _) forwarded

theorem relayNext_advances (relay : EventRelay) : Advances relay .relay relay.relayNext := by
  unfold relayNext
  split
  · rename_i message preprocessed incoming _ queued
    have popped : incoming ⊆ relay.incoming := by
      rw [queued]
      exact List.subset_cons_self _ _
    have beside := relayMessage_beside { relay with incoming } preprocessed message
    split
    · exact .quiet ⟨rfl, List.Subset.refl _, .refl _⟩ popped rfl
    · split
      · rename_i relayed
        rw [relayed] at beside
        exact .quiet ⟨beside.within.secrets, beside.within.globalMasks, beside.within.commands⟩
          (beside.incoming ▸ popped) beside.forwarded
      · rename_i relayed
        rw [relayed] at beside
        exact .quiet ⟨beside.within.secrets, beside.within.globalMasks, beside.within.commands⟩
          (beside.incoming ▸ popped) beside.forwarded
      · rename_i next out relayed
        rw [relayed] at beside
        rw [beside.forwarded]
        exact .forwards queued relayed
  · exact .of_within (.refl relay) rfl rfl

omit [Files] [MatcherFiles] in
theorem registerGlobalMask_beside (relay : EventRelay) (mask : Text) :
    Beside relay (relay.registerGlobalMask mask) := by
  unfold registerGlobalMask
  split
  · exact ⟨.refl relay, rfl, rfl⟩
  · refine ⟨⟨rfl, ?_, .refl _⟩, rfl, rfl⟩
    intro other member
    exact List.mem_mergeSort.mpr (List.mem_append_left _ member)

omit [Files] [MatcherFiles] in
theorem Beside.trans {one two three : EventRelay} (first : Beside one two)
    (second : Beside two three) : Beside one three :=
  ⟨first.within.trans second.within, second.incoming.trans first.incoming,
    second.forwarded.trans first.forwarded⟩

omit [Files] [MatcherFiles] in
theorem registerRepositoryTokenMasks_beside (relay : EventRelay) (token : String) :
    Beside relay (relay.registerRepositoryTokenMasks token) := by
  unfold registerRepositoryTokenMasks
  exact ((registerGlobalMask_beside relay _).trans (registerGlobalMask_beside _ _)).trans
    (registerGlobalMask_beside _ _)

omit [Files] [MatcherFiles] in
theorem registerManagedSecretMasks_beside (relay : EventRelay) (secrets : Workflows.BTreeMap Text) :
    Beside relay (relay.registerManagedSecretMasks secrets) := by
  unfold registerManagedSecretMasks
  induction secrets.toList.filter (fun secret => secret.2 ≠ []) generalizing relay with
  | nil => exact ⟨.refl relay, rfl, rfl⟩
  | cons secret rest inductionHypothesis =>
      exact (registerGlobalMask_beside relay secret.2).trans (inductionHypothesis _)

theorem advance_advances (relay : EventRelay) (occurrence : Occurrence) :
    Advances relay occurrence (advance relay occurrence) := by
  cases occurrence with
  | registerRepositoryToken token =>
      have beside := registerRepositoryTokenMasks_beside relay token
      exact .of_within beside.within beside.incoming beside.forwarded
  | registerManagedSecrets secrets =>
      have beside := registerManagedSecretMasks_beside relay secrets
      exact .of_within beside.within beside.incoming beside.forwarded
  | registerWorkspace scope workspace =>
      exact .of_within ⟨rfl, List.Subset.refl _, grows_of_scopes rfl⟩ rfl rfl
  | finishStream stepId stream =>
      have grown := finishStream_grows relay.commands stepId stream
      exact .of_within ⟨rfl, List.Subset.refl _, grown⟩ rfl rfl
  | send message => exact .sends message
  | relay => exact relayNext_advances relay
  | output stepId stream sequence bytes =>
      have grown := processLog_grows relay.commands stepId stream (fromUtf8Lossy bytes)
      rw [advance, chunk]
      split
      · rename_i processed
        rw [processed] at grown
        exact .of_within ⟨rfl, List.Subset.refl _, grown.trans (grows_of_scopes rfl)⟩ rfl rfl
      · rename_i processed
        rw [processed] at grown
        dsimp only
        split
        · exact .of_within ⟨rfl, List.Subset.refl _, grown⟩ rfl rfl
        · exact .outputs processed

theorem Advances.within (advances : Advances relay occurrence next) : Within relay next := by
  cases advances with
  | quiet within _ _ => exact within
  | sends message => exact ⟨rfl, List.Subset.refl _, .refl _⟩
  | @outputs stepId stream _ bytes _ _ processed =>
      have grown := processLog_grows relay.commands stepId stream (fromUtf8Lossy bytes)
      rw [processed] at grown
      exact ⟨rfl, List.Subset.refl _, grown⟩
  | @forwards message preprocessed incoming _ _ queued relayed =>
      have beside := relayMessage_beside { relay with incoming } preprocessed message
      rw [relayed] at beside
      exact ⟨beside.within.secrets, beside.within.globalMasks, beside.within.commands⟩

/-- A log that is queued as preprocessed has lost no seam to the masks. -/
theorem Advances.queue (advances : Advances relay occurrence next) (plain : '*' ∉ part)
    (covered : Covered value part stepId stream relay occurrence)
    (queue : relay.Queue part stepId stream) : next.Queue part stepId stream := by
  intro sequence data member
  cases advances with
  | quiet _ incoming _ => exact queue sequence data (incoming member)
  | sends message =>
      rcases List.mem_append.mp member with before | isNew
      · exact queue sequence data before
      · cases List.mem_singleton.mp isNew
  | @outputs _ _ _ bytes commands visible processed =>
      rcases List.mem_append.mp member with before | isNew
      · exact queue sequence data before
      · cases List.mem_singleton.mp isNew
        have clear := covered.output sequence bytes visible rfl (by rw [processed])
        exact maskForStep_keeps (seamless_keeps plain) stepId clear
  | @forwards message preprocessed incoming _ _ queued relayed =>
      have beside := relayMessage_beside { relay with incoming } preprocessed message
      rw [relayed] at beside
      have before : (.logChunk stepId sequence stream data, true) ∈ incoming := by
        have same := beside.incoming
        dsimp only at same
        rw [← same]
        exact member
      exact queue sequence data (queued ▸ List.mem_cons_of_mem _ before)

omit [Regexes] [Files] [MatcherFiles] in
theorem log?_eq_some {message : AgentMessage} {data : Text}
    (log : message.log? stepId stream = some data) :
    ∃ sequence, message = .logChunk stepId sequence stream data := by
  cases message with
  | logChunk step sequence other text =>
      obtain ⟨⟨rfl, rfl⟩, isData⟩ := Option.ite_none_right_eq_some.mp log
      cases isData
      exact ⟨sequence, rfl⟩
  | request _ => cases log
  | jobRejected _ _ => cases log
  | deploymentStarted _ _ => cases log
  | deploymentFinished _ _ _ => cases log
  | stepStarted _ _ => cases log
  | stepFinished _ _ _ => cases log
  | jobFinished _ _ _ => cases log

/-- Only the turn of a log forwards one. -/
theorem relayMessage_log {message : AgentMessage} {preprocessed : Bool} {sequence : Nat}
    {data : Text} (relayed : relay.relayMessage preprocessed message =
      (next, .ok (some (.logChunk stepId sequence stream data)))) :
    ∃ raw visible, message = .logChunk stepId sequence stream raw ∧
      (relay.processed preprocessed stepId stream raw).2 = .ok visible ∧
      data = next.maskOfStep stepId visible := by
  cases message with
  | logChunk step _ other raw =>
      obtain ⟨visible, processed, same⟩ := relayMessage_logChunk relayed
      cases same
      exact ⟨raw, visible, rfl, processed, rfl⟩
  | request _ => cases relayed
  | jobRejected _ _ => cases relayed
  | deploymentStarted _ _ => cases relayed
  | deploymentFinished _ _ _ => cases relayed
  | stepStarted _ _ => cases relayed
  | jobFinished _ _ _ => cases relayed
  | stepFinished step conclusion exitCode =>
      have sent := congrArg Prod.snd relayed
      change (finishStep relay.commands step).2.map _ = _ at sent
      cases finished : (finishStep relay.commands step).2 with
      | error error =>
          rw [finished] at sent
          cases sent
      | ok done =>
          rw [finished] at sent
          cases sent

/-- What is forwarded once a value has been registered is shielded. -/
theorem Advances.shielded (advances : Advances relay occurrence next) (isSome : value ≠ [])
    (plain : '*' ∉ value) (partSome : part ≠ []) (inside : part <:+: value)
    (covered : Covered value part stepId stream relay occurrence)
    (queue : relay.Queue part stepId stream) (within : Within registered relay) :
    ∃ relayed, next.forwarded = relay.forwarded ++ relayed ∧
      ∀ message ∈ relayed, Shielded registered value part stepId stream message := by
  have nothing : ∀ message ∈ ([] : List AgentMessage),
      Shielded registered value part stepId stream message := List.forall_mem_nil _
  cases advances with
  | quiet _ _ forwarded => exact ⟨[], by rw [forwarded, List.append_nil], nothing⟩
  | sends message => exact ⟨[], (List.append_nil _).symm, nothing⟩
  | outputs processed => exact ⟨[], (List.append_nil _).symm, nothing⟩
  | @forwards message preprocessed incoming next out queued relayed =>
      refine ⟨[out], rfl, List.forall_mem_singleton.mpr ⟨?_, ?_⟩⟩
      · intro masks
        have bare := covered.bare rfl message preprocessed incoming queued
        have masked : Masks { relay with incoming } value out := within.masks masks
        exact relayMessage_free isSome plain relayed bare masked
      · intro data log
        obtain ⟨sequence, rfl⟩ := log?_eq_some log
        have partPlain : '*' ∉ part := fun member => plain (inside.subset member)
        obtain ⟨raw, visible, rfl, processed, rfl⟩ := relayMessage_log relayed
        constructor
        · apply maskOfStep_keeps (seamless_keeps partPlain)
          cases preprocessed with
          | false => exact covered.sent rfl sequence raw incoming visible queued processed
          | true =>
              cases processed
              exact queue sequence raw (queued ▸ List.mem_cons_self)
        · intro masks
          have beside := relayMessage_beside { relay with incoming } preprocessed
            (.logChunk stepId sequence stream raw)
          rw [relayed] at beside
          apply not_infix_maskOfStep partSome partPlain
          exact beside.within.masksStep (within.masksStep masks)

end EventRelay

open EventRelay

/-- What is forwarded behind a state. -/
def forwardedAfter (registered : EventRelay) (after : List Occurrence) : List AgentMessage :=
  (run advance registered after).forwarded.drop registered.forwarded.length

/-- No message that is forwarded behind the state has a value that is masked for it. -/
def TextsWithheld (registered : EventRelay) (value : Text) (after : List Occurrence) : Prop :=
  ∀ message ∈ forwardedAfter registered after, registered.Masks value message →
    ∀ text ∈ message.texts, ¬ value <:+: text

/-- The logs of a stream that are forwarded behind the state have no value that is masked for
the step, also not across two of them. -/
def LogsWithheld (registered : EventRelay) (value : Text) (stepId : String) (stream : LogStream)
    (after : List Occurrence) : Prop :=
  registered.MasksStep value stepId →
    ¬ value <:+: ((forwardedAfter registered after).filterMap (·.log? stepId stream)).flatten

/-- What is forwarded behind a state in covered steps is shielded. -/
theorem forwardedAfter_shielded (isSome : value ≠ []) (plain : '*' ∉ value) (partSome : part ≠ [])
    (inside : part <:+: value) (queue : registered.Queue part stepId stream)
    {after : List Occurrence}
    (covered : Along advance (Covered value part stepId stream) registered after) :
    ∀ message ∈ forwardedAfter registered after,
      Shielded registered value part stepId stream message := by
  have partPlain : '*' ∉ part := fun member => plain (inside.subset member)
  let Shields (relay : EventRelay) : Prop :=
    relay.Queue part stepId stream ∧ Within registered relay ∧
      ∃ relayed, relay.forwarded = registered.forwarded ++ relayed ∧
        ∀ message ∈ relayed, Shielded registered value part stepId stream message
  have shields : Shields (run advance registered after) := by
    refine covered.invariant ?_
      ⟨queue, .refl registered, [], (List.append_nil _).symm, List.forall_mem_nil _⟩
    rintro relay occurrence ⟨queue, within, relayed, forwarded, shielded⟩ good
    have advances := advance_advances relay occurrence
    obtain ⟨more, isMore, moreShielded⟩ :=
      advances.shielded isSome plain partSome inside good queue within
    refine ⟨advances.queue partPlain good queue, within.trans advances.within, relayed ++ more, ?_,
      List.forall_mem_append.mpr ⟨shielded, moreShielded⟩⟩
    rw [isMore, forwarded, List.append_assoc]
  obtain ⟨-, -, relayed, forwarded, shielded⟩ := shields
  rw [forwardedAfter, forwarded, List.drop_left]
  exact shielded

theorem withheld_of_shielded (partSome : part ≠ []) (inside : part <:+: value)
    {after : List Occurrence}
    (shielded : ∀ message ∈ forwardedAfter registered after,
      Shielded registered value part stepId stream message)
    (masked : registered.MasksStep value stepId → registered.MasksStep part stepId) :
    TextsWithheld registered value after ∧ LogsWithheld registered value stepId stream after := by
  constructor
  · exact fun message member => (shielded message member).texts
  · intro masks occurs
    have log : ∀ data ∈ (forwardedAfter registered after).filterMap (·.log? stepId stream),
        Redaction.Seamless part data ∧ ¬ part <:+: data := by
      intro data member
      obtain ⟨message, isForwarded, isLog⟩ := List.mem_filterMap.mp member
      obtain ⟨seamless, free⟩ := (shielded message isForwarded).log data isLog
      exact ⟨seamless, free (masked masks)⟩
    exact Redaction.not_infix_flatten partSome (fun data member => (log data member).2)
      (fun data member => (log data member).1) (inside.trans occurs)

/-- In every run in which no chunk ends within the part, and nothing that has the value is
forwarded as it is, the value stays within the agent once it is registered. -/
theorem masked_events_of_covered (isSome : value ≠ []) (plain : '*' ∉ value) (partSome : part ≠ [])
    (inside : part <:+: value) (secrets : List Text) (repositoryDir runDir : Text)
    (before after : List Occurrence)
    (covered : Along advance (Covered value part stepId stream)
      (.start secrets repositoryDir runDir) (before ++ after))
    (masked : MasksStep (run advance (.start secrets repositoryDir runDir) before) value stepId →
      MasksStep (run advance (.start secrets repositoryDir runDir) before) part stepId) :
    TextsWithheld (run advance (.start secrets repositoryDir runDir) before) value after ∧
      LogsWithheld (run advance (.start secrets repositoryDir runDir) before) value stepId stream
        after := by
  have partPlain : '*' ∉ part := fun member => plain (inside.subset member)
  obtain ⟨coveredBefore, coveredAfter⟩ := Along.append.mp covered
  have queue : Queue part stepId stream
      (run advance (.start secrets repositoryDir runDir) before) := by
    apply coveredBefore.invariant
    · intro relay occurrence queue good
      exact (advance_advances relay occurrence).queue partPlain good queue
    · intro sequence data member
      cases member
  exact withheld_of_shielded partSome inside
    (forwardedAfter_shielded isSome plain partSome inside queue coveredAfter) masked

/-- Where the part has a line feed at most at its end, chunks that end their lines are covered. -/
theorem covered_output_line (unbroken : '\n' ∉ part.dropLast) (stepId' : String)
    (stream' : LogStream) (sequence : Nat) {bytes : Bytes}
    (ends : endsWithLineFeed (fromUtf8Lossy bytes) = true) :
    Covered value part stepId stream relay (.output stepId' stream' sequence bytes) where
  bare isRelay := by cases isRelay
  sent isRelay := by cases isRelay
  output _ _ visible isOutput processed := by
    cases isOutput
    exact seamless_of_wholeLines unbroken (processLog_wholeLines ends processed)

/-- The turn of a preprocessed log is covered. -/
theorem covered_relay_preprocessed
    (logs : ∀ entry ∈ relay.incoming, ∃ step sequence other data,
      entry = (.logChunk step sequence other data, true)) :
    Covered value part stepId stream relay .relay where
  bare _ message preprocessed incoming queued := by
    obtain ⟨_, _, _, _, same⟩ := logs (message, preprocessed) (queued ▸ List.mem_cons_self)
    cases same
    trivial
  sent _ sequence raw incoming _ queued := by
    obtain ⟨_, _, _, _, same⟩ := logs _ (queued ▸ List.mem_cons_self)
    cases same
  output _ _ _ isOutput := by cases isOutput

theorem incoming_output (none : relay.incoming = []) (step : String) (other : LogStream)
    (sequence : Nat) (bytes : Bytes) :
    ∀ entry ∈ (advance relay (.output step other sequence bytes)).incoming,
      ∃ step sequence other data, entry = (.logChunk step sequence other data, true) := by
  intro entry member
  have advances := advance_advances relay (.output step other sequence bytes)
  generalize advance relay (.output step other sequence bytes) = next at advances member
  cases advances with
  | quiet _ incoming _ =>
      have before := incoming member
      rw [none] at before
      cases before
  | outputs processed =>
      dsimp only at member
      rw [none, List.nil_append, List.mem_singleton] at member
      exact ⟨_, _, _, _, member⟩

end Runs

/-! ### Samples -/

open EventRelay

theorem maskText_eq_self {secrets : List Text} {text : Text}
    (absent : ∀ secret ∈ secrets, ¬ secret <:+: text) : maskText text secrets = text := by
  induction secrets with
  | nil => rfl
  | cons secret secrets inductionHypothesis =>
      rw [List.forall_mem_cons] at absent
      rw [maskText, List.foldl_cons, if_neg absent.1]
      exact inductionHypothesis absent.2

section Forwarding

variable [Regexes] [Files] [MatcherFiles]

theorem relayNext_forwards (relay : EventRelay) {next : EventRelay} {message out : AgentMessage}
    {preprocessed : Bool} {incoming : List (AgentMessage × Bool)} (goesOn : relay.failure = none)
    (healthy : relay.commands.fatalError = none)
    (queued : relay.incoming = (message, preprocessed) :: incoming)
    (relayed : relayMessage { relay with incoming } preprocessed message =
      (next, .ok (some out))) :
    relay.relayNext = { next with forwarded := next.forwarded ++ [out] } := by
  obtain ⟨secrets, globalMasks, commands, queue, forwarded, failure⟩ := relay
  cases goesOn
  cases queued
  rw [relayNext]
  dsimp only at healthy ⊢
  rw [healthy]
  dsimp only
  rw [relayed]

end Forwarding

namespace MaskingSample

open scoped OutputSample

def privateKey : Text := "line one\nline two".toList

def deployToken : Text := "deploy-token-1".toList

def runtimeToken : Text := "runtime-token".toList

def sampleSecrets : List Text := [privateKey, deployToken, runtimeToken]

/-- The relay of a run with those secrets, with messages on both of its sides. -/
def relayWith (incoming : List (AgentMessage × Bool)) (forwarded : List AgentMessage) :
    EventRelay :=
  { EventRelay.start sampleSecrets "/work/repository".toList "/work".toList with
    incoming, forwarded }

/-- The secrets occur in no line of the output. -/
abbrev Unmasked (text : Text) : Prop := ∀ secret ∈ sampleSecrets, ¬ secret <:+: text

variable {incoming : List (AgentMessage × Bool)} {forwarded : List AgentMessage} {line : Text}
  {sequence : Nat}

theorem maskForStep_unmasked (unmasked : Unmasked line) :
    (relayWith incoming forwarded).maskForStep "plan/job/step" line = line := by
  have globals : ∀ secret ∈ (relayWith incoming forwarded).globalMasks, ¬ secret <:+: line := by
    intro secret member
    have sorted := (List.destutter_sublist (· ≠ ·) _).subset member
    exact unmasked secret (List.mem_mergeSort.mp sorted)
  rw [maskForStep, maskText_eq_self globals]
  rfl

theorem output_unmasked (isLine : IsLine line) (unmasked : Unmasked line)
    (plain : (relayWith [] []).commands.isSuppressibleCommand "plan/job/step"
      (trimLineBreaks line) = false) :
    advance (relayWith incoming forwarded)
        (.output "plan/job/step" .stdout sequence (encode line)) =
      relayWith (incoming ++ [(.logChunk "plan/job/step" sequence .stdout line, true)])
        forwarded := by
  have inert : (relayWith incoming forwarded).commands.Inert "plan/job/step"
      (trimLineBreaks line) := ⟨plain, fun _ => rfl⟩
  have same : { relayWith incoming forwarded with
      commands := (relayWith incoming forwarded).commands } = relayWith incoming forwarded := rfl
  rw [advance, chunk, fromUtf8Lossy_encode, processLog_inert rfl isLine inert]
  dsimp only
  rw [same, maskForStep_unmasked unmasked, if_neg isLine.1]
  rfl

theorem relay_unmasked (isSome : line ≠ []) (unmasked : Unmasked line) :
    advance (relayWith ((.logChunk "plan/job/step" sequence .stdout line, true) :: incoming)
        forwarded) .relay =
      relayWith incoming (forwarded ++ [.logChunk "plan/job/step" sequence .stdout line]) := by
  have masked : (relayWith incoming forwarded).maskOfStep "plan/job/step" line = line := by
    have static : (relayWith incoming forwarded).secrets = sampleSecrets := rfl
    rw [maskOfStep, static, maskText_eq_self unmasked, maskForStep_unmasked unmasked]
  have relayed : (relayWith incoming forwarded).relayMessage true
      (.logChunk "plan/job/step" sequence .stdout line) =
        (relayWith incoming forwarded,
          .ok (some (.logChunk "plan/job/step" sequence .stdout line))) := by
    change (if line = [] then _ else _) = _
    rw [if_neg isSome]
    change (_, Except.ok (some (AgentMessage.logChunk _ _ _
      ((relayWith incoming forwarded).maskOfStep "plan/job/step" line)))) = _
    rw [masked]
  exact relayNext_forwards
    (relayWith ((.logChunk "plan/job/step" sequence .stdout line, true) :: incoming) forwarded)
    rfl rfl rfl relayed

def lineOne : Text := "line one\n".toList

def lineTwo : Text := "line two\n".toList

def deployment : AgentMessage :=
  .deploymentFinished "job" .success (some "https://deploy.test/?token=deploy-token-1".toList)

/-- A process puts out the private key, and a job has deployed to a URL with the token. -/
def leaks : List Occurrence :=
  [.output "plan/job/step" .stdout 0 (encode lineOne), .relay,
    .output "plan/job/step" .stdout 1 (encode lineTwo), .relay,
    .send deployment, .relay]

/-- The token leaves the agent in the URL, and the private key in two logs. -/
theorem secrets_leave :
    ¬ TextsWithheld (relayWith [] []) deployToken leaks ∧
      ¬ LogsWithheld (relayWith [] []) privateKey "plan/job/step" .stdout leaks := by
  have last : advance (relayWith [(deployment, false)]
      [.logChunk "plan/job/step" 0 .stdout lineOne, .logChunk "plan/job/step" 1 .stdout lineTwo])
        .relay =
      relayWith [] [.logChunk "plan/job/step" 0 .stdout lineOne,
        .logChunk "plan/job/step" 1 .stdout lineTwo, deployment] := rfl
  have final : run advance (relayWith [] []) leaks =
      relayWith [] [.logChunk "plan/job/step" 0 .stdout lineOne,
        .logChunk "plan/job/step" 1 .stdout lineTwo, deployment] := by
    have unmaskedOne : Unmasked lineOne := by decide
    have unmaskedTwo : Unmasked lineTwo := by decide
    rw [leaks, Machine.run_cons,
      output_unmasked ⟨by decide, by decide⟩ unmaskedOne (by decide), Machine.run_cons,
      List.nil_append, relay_unmasked (by decide) unmaskedOne, Machine.run_cons,
      output_unmasked ⟨by decide, by decide⟩ unmaskedTwo (by decide), Machine.run_cons,
      List.nil_append, relay_unmasked (by decide) unmaskedTwo, Machine.run_cons]
    exact last
  have forwarded : forwardedAfter (relayWith [] []) leaks =
      [.logChunk "plan/job/step" 0 .stdout lineOne, .logChunk "plan/job/step" 1 .stdout lineTwo,
        deployment] := by
    rw [forwardedAfter, final]
    rfl
  have static : ∀ secret ∈ sampleSecrets, secret ∈ (relayWith [] []).secrets :=
    fun _ member => member
  constructor
  · intro withheld
    refine withheld deployment ?_ (.inl (static _ (by decide))) _ List.mem_cons_self (by decide)
    rw [forwarded]
    decide
  · intro withheld
    apply withheld (.inl (static _ (by decide)))
    rw [forwarded]
    decide

/-- A process puts out the token of the run, in one line. -/
def tokenLine : List Occurrence :=
  [.output "plan/job/step" .stdout 0 (encode "token: runtime-token\n".toList), .relay]

theorem tokenLine_covered :
    Along advance (Covered runtimeToken runtimeToken "plan/job/step" .stdout) (relayWith [] [])
      tokenLine := by
  have ends : endsWithLineFeed (fromUtf8Lossy (encode "token: runtime-token\n".toList)) = true := by
    rw [fromUtf8Lossy_encode]
    decide
  exact ⟨covered_output_line (by decide) _ _ _ ends,
    covered_relay_preprocessed (incoming_output rfl _ _ _ _), trivial⟩

/-- The token stays within the agent. -/
theorem tokenLine_withheld :
    TextsWithheld (relayWith [] []) runtimeToken tokenLine ∧
      LogsWithheld (relayWith [] []) runtimeToken "plan/job/step" .stdout tokenLine :=
  masked_events_of_covered (by decide) (by decide) (by decide) List.infix_rfl sampleSecrets
    "/work/repository".toList "/work".toList [] tokenLine tokenLine_covered id

end MaskingSample

end GitZero.Agent.MaskedEvents
