/-
Module: GitZero.Agent.MaskedEvents
Purpose: The relay that masks the events of a run before they leave the agent, together
  with everything that adds masks and everything that sends events to it.
Trusted boundary: the channels, which do not fail
Main exports: maskText, AgentMessage, EventRelay, registerGlobalMask, maskForStep, maskAll,
  boundMaskedAnnotation, finishStep, relayMessage, relayNext, Occurrence, advance
-/
import GitZero.Lib.Base64
import GitZero.Lib.Redaction
import GitZero.Agent.CommandProcessor
import GitZero.ControlPlane.Schema

namespace GitZero.Agent.MaskedEvents

open Expression (Text)
open Commands
open CommandProcessor
open ControlPlane (Conclusion RunnerRequirement)
open ProblemMatchers (Regexes Files truncateUtf8)
open Workflows (BTreeMap)

/-! ### Masks -/

def stars : Text := "***".toList

/-- Every secret replaced by stars, the first one of the list first. -/
def maskText (value : Text) (secrets : List Text) : Text :=
  secrets.foldl
    (fun value secret =>
      if secret <:+: value then Redaction.replace secret stars value else value) value

/-- The longer ones first. -/
def sortMasks (masks : List Text) : List Text :=
  masks.mergeSort fun left right =>
    byteLength right < byteLength left ||
      (byteLength left = byteLength right && String.ofList left ≤ String.ofList right)

/-! ### Messages -/

/-- The messages in which the relay reads nothing. -/
inductive AgentRequest where
  | hello
  | heartbeat
  | jobStarted
  | concurrencyAcquire
  | concurrencyRelease
  | repositoryTokenRequest
  | workflowTokenRequest
  | secretRequest
deriving Repr, DecidableEq

/-- The messages of an agent, without the ids that they carry. -/
inductive AgentMessage where
  | request (request : AgentRequest)
  | jobRejected (requirements : List RunnerRequirement) (reason : Text)
  | deploymentStarted (unitId : String) (environment : Text)
  | deploymentFinished (unitId : String) (conclusion : Conclusion) (environmentUrl : Option Text)
  | stepStarted (stepId : String) (name : Text)
  | logChunk (stepId : String) (sequence : Nat) (stream : LogStream) (data : Text)
  | stepFinished (stepId : String) (conclusion : Conclusion) (exitCode : Option Int)
  | jobFinished (conclusion : Conclusion) (summary : Text) (annotations : List CheckAnnotation)
deriving Repr, DecidableEq

/-- An annotation cut to the limits after its masking. -/
def boundMaskedAnnotation (note : CheckAnnotation) : CheckAnnotation :=
  {note with
    path :=
      if byteLength note.path > maxCheckAnnotationPathBytes then ".github".toList
      else note.path
    message := truncateUtf8 note.message maxCheckAnnotationMessageBytes
    title := note.title.map fun title => truncateUtf8 title maxCheckAnnotationTitleBytes }

/-! ### The relay -/

section Relay

variable [Regexes]

/-- The relay of a run, the masks and the command state that it shares with the run, and the
messages on both of its sides. A message id is used once, so a log that is marked as
preprocessed is marked beside its message. -/
structure EventRelay where
  secrets : List Text
  globalMasks : List Text
  commands : WorkflowCommandProcessor := {}
  incoming : List (AgentMessage × Bool) := []
  forwarded : List AgentMessage := []
  /-- The error with which the relay has ended. -/
  failure : Option String := none

namespace EventRelay

/-- `with_global_masks` and the start of the relay, with the same secrets. -/
def start (secrets : List Text) (repositoryDir runDir : Text) : EventRelay where
  secrets
  globalMasks := (sortMasks secrets).destutter (· ≠ ·)
  commands := { problemMatchers := .new repositoryDir runDir }

variable (relay : EventRelay)

/-- A mask for all jobs of the run. -/
def registerGlobalMask (value : Text) : EventRelay :=
  if value = [] || relay.globalMasks.contains value then relay
  else { relay with globalMasks := sortMasks (relay.globalMasks ++ [value]) }

def registerRepositoryTokenMasks (token : String) : EventRelay :=
  let credential := Base64.btoa ("x-access-token:" ++ token).toUTF8.toList
  ((relay.registerGlobalMask ("AUTHORIZATION: basic ".toList ++ credential)).registerGlobalMask
    credential).registerGlobalMask token.toList

def registerManagedSecretMasks (secrets : BTreeMap Text) : EventRelay :=
  (secrets.toList.filter fun secret => secret.2 ≠ []).foldl
    (fun relay secret => relay.registerGlobalMask secret.2) relay

/-- The global masks, and those of the step's job. -/
def maskForStep (stepId : String) (value : Text) : Text :=
  maskText (maskText value relay.globalMasks)
    (relay.commands.scope (workflowCommandScope stepId)).masks

/-- The global masks, and those of every job. -/
def maskAll (value : Text) : Text :=
  relay.commands.scopes.toList.foldl (fun value scope => maskText value scope.2.masks)
    (maskText value relay.globalMasks)

/-- What the relay makes of a text of the job: the static secrets come first. -/
def maskOfJob (value : Text) : Text := relay.maskAll (maskText value relay.secrets)

def maskOfStep (stepId : String) (value : Text) : Text :=
  relay.maskForStep stepId (maskText value relay.secrets)

def maskAnnotation (note : CheckAnnotation) : CheckAnnotation :=
  {note with
    path := relay.maskOfJob note.path
    message := relay.maskOfJob note.message
    title := note.title.map relay.maskOfJob }

end EventRelay

/-! ### The end of a step -/

/-- The loop of `finish_step` over the commands that the step has sent in part. -/
def finishPartials [Files] [MatcherFiles] (stepId : String) :
    List LogStream → WorkflowCommandProcessor → WorkflowCommandProcessor × Except String Unit
  | [], processor => (processor, .ok ())
  | stream :: rest, processor =>
      match processor.partialCommands stepId stream with
      | none => finishPartials stepId rest processor
      | some complete =>
          match (processor.setPartial stepId stream none).processCompleteLog stepId complete with
          | (processor, .error error) => (processor, .error error)
          | (processor, .ok _) => finishPartials stepId rest processor

/-- `stop_token = None`, in a scope that exists. -/
def resumeScope (processor : WorkflowCommandProcessor) (scopeId : String) :
    WorkflowCommandProcessor :=
  match processor.scopes[scopeId]? with
  | some scope => processor.setScope scopeId { scope with stopToken := none }
  | none => processor

/-- What was held back of the outputs of a step is processed when it ends. -/
def finishStep [Files] [MatcherFiles] (processor : WorkflowCommandProcessor) (stepId : String) :
    WorkflowCommandProcessor × Except String Unit :=
  match finishPartials stepId [.stdout, .stderr, .system] processor with
  | (processor, .error error) => (processor, .error error)
  | (processor, .ok ()) =>
      let processor := resumeScope processor (workflowCommandScope stepId)
      ({ processor with
          problemMatchers := processor.problemMatchers.resetScope (workflowCommandScope stepId)
          legacyValues := processor.legacyValues.erase stepId },
        .ok ())

/-! ### Messages on their way -/

section Messages

variable [Files] [MatcherFiles]

namespace EventRelay

variable (relay : EventRelay)

/-- What the commands leave of a log. Only the output of a process can have commands, and
none that is preprocessed has any left. -/
def processed (preprocessed : Bool) (stepId : String) (stream : LogStream) (data : Text) :
    WorkflowCommandProcessor × Except String Text :=
  if !preprocessed && stream ≠ .system then relay.commands.processLog stepId stream data
  else (relay.commands, .ok data)

/-- A message behind the masks, if anything is left of it. -/
def relayMessage (preprocessed : Bool) :
    AgentMessage → EventRelay × Except String (Option AgentMessage)
  | .stepStarted stepId name =>
      (relay, .ok (some (.stepStarted stepId (relay.maskOfStep stepId name))))
  | .logChunk stepId sequence stream data =>
      match relay.processed preprocessed stepId stream data with
      | (commands, .error error) => ({ relay with commands }, .error error)
      | (commands, .ok data) =>
          let relay := { relay with commands }
          if data = [] then (relay, .ok none)
          else
            (relay, .ok (some (.logChunk stepId sequence stream (relay.maskOfStep stepId data))))
  | .stepFinished stepId conclusion exitCode =>
      let (commands, finished) := finishStep relay.commands stepId
      ({ relay with commands },
        finished.map fun () => some (.stepFinished stepId conclusion exitCode))
  | .jobFinished conclusion summary _ =>
      ({ relay with commands := { relay.commands with annotations := [] } },
        .ok (some (.jobFinished conclusion (relay.maskOfJob summary)
          (relay.commands.annotations.map fun note =>
            boundMaskedAnnotation <| relay.maskAnnotation note))))
  | .jobRejected requirements reason =>
      (relay, .ok (some (.jobRejected requirements (relay.maskOfJob reason))))
  | .request request => (relay, .ok (some (.request request)))
  | .deploymentStarted unitId environment =>
      (relay, .ok (some (.deploymentStarted unitId environment)))
  | .deploymentFinished unitId conclusion environmentUrl =>
      (relay, .ok (some (.deploymentFinished unitId conclusion environmentUrl)))

/-- One turn of the loop of `relay_masked_events`. -/
def relayNext : EventRelay :=
  match relay.failure, relay.incoming with
  | none, (message, preprocessed) :: incoming =>
      match relay.commands.fatalError with
      | some error =>
          { relay with incoming, failure := some s!"workflow command processing failed: {error}" }
      | none =>
          match relayMessage { relay with incoming } preprocessed message with
          | (relay, .error error) => { relay with failure := some error }
          | (relay, .ok none) => relay
          | (relay, .ok (some message)) =>
              { relay with forwarded := relay.forwarded ++ [message] }
  | _, _ => relay

/-- A chunk that `forward_output` has cut: `prepare_workflow_log`, and the message with what is
left of it. -/
def chunk (stepId : String) (stream : LogStream) (sequence : Nat) (bytes : Bytes) : EventRelay :=
  match relay.commands.processLog stepId stream (fromUtf8Lossy bytes) with
  | (commands, .error error) => { relay with commands := commands.fail error }
  | (commands, .ok data) =>
      let relay := { relay with commands }
      let data := relay.maskForStep stepId data
      if data = [] then relay
      else
        { relay with
          incoming := relay.incoming ++ [(.logChunk stepId sequence stream data, true)] }

end EventRelay

/-- What happens while a run is executed: the run receives a token or secrets, registers the
workspace of a job or sends an event, a process has put out a chunk or has ended, and the relay
goes on. Everything else that the run does leaves masks, commands and events alone. -/
inductive Occurrence where
  | registerRepositoryToken (token : String)
  | registerManagedSecrets (secrets : BTreeMap Text)
  | registerWorkspace (scope : String) (workspace : Text)
  | output (stepId : String) (stream : LogStream) (sequence : Nat) (bytes : Bytes)
  | finishStream (stepId : String) (stream : LogStream)
  | send (message : AgentMessage)
  | relay

/-- The relay after one occurrence, with what it sends. -/
def advance (relay : EventRelay) : Occurrence → EventRelay
  | .registerRepositoryToken token => relay.registerRepositoryTokenMasks token
  | .registerManagedSecrets secrets => relay.registerManagedSecretMasks secrets
  | .registerWorkspace scope workspace =>
      { relay with
        commands :=
          { relay.commands with
            problemMatchers := relay.commands.problemMatchers.registerWorkspace scope workspace } }
  | .output stepId stream sequence bytes => relay.chunk stepId stream sequence bytes
  | .finishStream stepId stream =>
      { relay with commands := relay.commands.finishStream stepId stream }
  | .send message => { relay with incoming := relay.incoming ++ [(message, false)] }
  | .relay => relay.relayNext

end Messages

end Relay

end GitZero.Agent.MaskedEvents
