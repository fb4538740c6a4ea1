/-
Module: GitZero.Agent.CommandProcessor
Purpose: How the output of a process is cut into chunks, and what the command processor
  does with them: masks, stop tokens, matchers, annotations, outputs and state.
Trusted boundary: the regex crate and the file system, as `Regexes`, `Files` and
  `MatcherFiles`; the reader and the channel, which do not fail
Main exports: WorkflowCommandProcessor, processLine, processCompleteLog, processLog,
  finishStream, fromUtf8Lossy, forwardOutput
-/
import GitZero.Agent.ProblemMatchers

namespace GitZero.Agent.CommandProcessor

open Expression (Text isWhitespace)
open Commands
open ProblemMatchers (Regexes Files ProblemMatcherRegistry ProblemMatcherConfig)
open Workflows (BTreeMap)

def maxLogChunkBytes : Nat := 32 * 1024

def maxDynamicMasksPerJob : Nat := 1024

def maxDynamicMaskBytesPerJob : Nat := 1024 * 1024

def maxLegacyCommandValuesPerStep : Nat := 1024

def maxLegacyCommandBytesPerStep : Nat := 1024 * 1024

def maxErrorAnnotationsPerStep : Nat := 10

def maxWarningAnnotationsPerStep : Nat := 10

def maxNoticeAnnotationsPerStep : Nat := 10

def maxCheckAnnotations : Nat := 50

/-- What a read of a matcher file answers, by the workspace, the matcher root and the path. -/
class MatcherFiles where
  read : Option Text → Option Text → Text → Except String (List ProblemMatcherConfig)

/-- The stream that a chunk of output comes from. -/
inductive LogStream where
  | stdout
  | stderr
  | system
deriving Repr, DecidableEq

/-- What becomes of a line: it is shown, kept back, or another text is shown for it. -/
inductive WorkflowLineDisposition where
  | original
  | suppress
  | replace (replacement : Text)

/-- What the commands of one job have left behind: its masks, and the token that ends a
suspension. -/
structure WorkflowCommandScope where
  masks : List Text := []
  maskBytes : Nat := 0
  stopToken : Option Text := none

/-- The outputs and the state that a step has set by commands, with what the limits count. -/
structure LegacyCommandValues where
  outputs : BTreeMap Text := ∅
  state : BTreeMap Text := ∅
  commandCount : Nat := 0
  commandBytes : Nat := 0

/-! ### Text -/

/-- `split_whitespace` -/
def splitWhitespace (text : Text) : List Text := (text.splitOnP isWhitespace).filter (· ≠ [])

/-- `split_inclusive('\n')` -/
def splitInclusive : Text → List Text
  | [] => []
  | char :: rest =>
      if char = '\n' then [char] :: splitInclusive rest
      else
        match splitInclusive rest with
        | [] => [[char]]
        | first :: others => (char :: first) :: others

def isLineBreak (char : Char) : Bool := char = '\r' || char = '\n'

/-- `trim_end_matches(['\r', '\n'])` -/
def trimLineBreaks (text : Text) : Text := (text.reverse.dropWhile isLineBreak).reverse

def endsWithLineFeed (text : Text) : Bool := text.getLast? = some '\n'

/-- The plan and the job of a step id. -/
def workflowCommandScope (stepId : String) : String :=
  match stepId.toList.splitOn '/' with
  | plan :: job :: _ => String.ofList (plan ++ '/' :: job)
  | _ => stepId

/-- `::{token}::` -/
def resumeLine (token : Text) : Text := "::".toList ++ token ++ "::".toList

/-- The loop of `register_mask`. -/
def WorkflowCommandScope.registerMasks (scope : WorkflowCommandScope) :
    List Text → WorkflowCommandScope × Except String Unit
  | [] =>
      ({ scope with masks := scope.masks.mergeSort fun one two => byteLength two ≤ byteLength one },
        .ok ())
  | candidate :: rest =>
      if candidate = [] || candidate ∈ scope.masks then scope.registerMasks rest
      else if scope.masks.length ≥ maxDynamicMasksPerJob ||
          scope.maskBytes + byteLength candidate > maxDynamicMaskBytesPerJob then
        (scope, .error "workflow added too many dynamic masks")
      else
        { scope with
          masks := scope.masks ++ [candidate]
          maskBytes := scope.maskBytes + byteLength candidate }.registerMasks rest

def WorkflowCommandScope.registerMask (scope : WorkflowCommandScope) (value : Text) :
    WorkflowCommandScope × Except String Unit :=
  scope.registerMasks (value :: splitWhitespace value)

section Processor

variable [Regexes]

/-- The command state, with the commands that a stream of a step has sent in part. -/
structure WorkflowCommandProcessor where
  scopes : BTreeMap WorkflowCommandScope := ∅
  legacyValues : BTreeMap LegacyCommandValues := ∅
  problemMatchers : ProblemMatcherRegistry := {}
  annotations : List CheckAnnotation := []
  annotationCounts : String → CheckAnnotationLevel → Nat := fun _ _ => 0
  partialCommands : String → LogStream → Option Text := fun _ _ => none
  fatalError : Option String := none

namespace WorkflowCommandProcessor

variable (processor : WorkflowCommandProcessor)

def scope (scopeId : String) : WorkflowCommandScope := (processor.scopes[scopeId]?).getD {}

def setScope (scopeId : String) (scope : WorkflowCommandScope) : WorkflowCommandProcessor :=
  { processor with scopes := processor.scopes.insert scopeId scope }

def fail (error : String) : WorkflowCommandProcessor :=
  { processor with fatalError := processor.fatalError.or (some error) }

def perStepLimit : CheckAnnotationLevel → Nat
  | .failure => maxErrorAnnotationsPerStep
  | .warning => maxWarningAnnotationsPerStep
  | .notice => maxNoticeAnnotationsPerStep

def recordAnnotation (stepId : String) (note : CheckAnnotation) :
    WorkflowCommandProcessor :=
  let level := note.annotationLevel
  let count := processor.annotationCounts stepId level
  if count ≥ perStepLimit level then processor
  else
    { processor with
      annotationCounts := Function.update processor.annotationCounts stepId
        (Function.update (processor.annotationCounts stepId) level (count + 1))
      annotations :=
        if processor.annotations.length < maxCheckAnnotations then
          processor.annotations ++ [note]
        else processor.annotations }

def recordLegacyValue (stepId : String) (name value : Text) (state : Bool) :
    WorkflowCommandProcessor × Except String Unit :=
  if name = [] || byteLength name > 1024 ||
      (name.any fun char => char = '\x00' || char = '\n' || char = '\r' || char = '=') ||
      value.contains '\x00' then
    (processor, .error "legacy workflow command contains an invalid name or value")
  else
    let values := (processor.legacyValues[stepId]?).getD {}
    let values := { values with
      commandCount := values.commandCount + 1
      commandBytes := values.commandBytes + byteLength name + byteLength value }
    if values.commandCount > maxLegacyCommandValuesPerStep ||
        values.commandBytes > maxLegacyCommandBytesPerStep then
      ({ processor with legacyValues := processor.legacyValues.insert stepId values },
        .error "legacy workflow commands exceeded the per-step safety limit")
    else
      let values :=
        if state then { values with state := values.state.insert (String.ofList name) value }
        else { values with outputs := values.outputs.insert (String.ofList name) value }
      ({ processor with legacyValues := processor.legacyValues.insert stepId values }, .ok ())

/-- `suppress` behind a step of a command. -/
def suppressed (result : WorkflowCommandProcessor × Except String Unit) :
    WorkflowCommandProcessor × Except String WorkflowLineDisposition :=
  (result.1, result.2.map fun _ => .suppress)

def changeMatchers (result : ProblemMatcherRegistry × Except String Unit) :
    WorkflowCommandProcessor × Except String WorkflowLineDisposition :=
  suppressed ({ processor with problemMatchers := result.1 }, result.2)

def addMask (scopeId : String) (value : Text) : WorkflowCommandProcessor × Except String Unit :=
  let (scope, registered) := (processor.scope scopeId).registerMask value
  (processor.setScope scopeId scope, registered)

variable [Files] [MatcherFiles]

/-- The file that a matcher command names. -/
def matcherFile (scopeId : String) (path : Text) : Except String (List ProblemMatcherConfig) :=
  MatcherFiles.read (processor.problemMatchers.workspace scopeId)
    processor.problemMatchers.matcherRoot path

/-- The commands behind those on masks and on the processing itself. -/
def processMatcherCommand (scopeId : String) (line : Text) :
    Option (WorkflowCommandProcessor × Except String WorkflowLineDisposition) :=
  match stripPrefixIgnoreAsciiCase line "::add-matcher::".toList with
  | some path =>
      let path := decodeWorkflowCommandData path
      some (processor.changeMatchers
        (processor.problemMatchers.addFromFile scopeId path (processor.matcherFile scopeId path)))
  | none =>
      match parseRemoveMatcherCommand line with
      | .error error => some (processor, .error error)
      | .ok (some (.owner owner)) =>
          some (processor.changeMatchers (processor.problemMatchers.removeOwner scopeId owner))
      | .ok (some (.file path)) =>
          some (processor.changeMatchers (processor.problemMatchers.removeFromFile scopeId path
            (processor.matcherFile scopeId path)))
      | .ok none => none

/-- The commands that leave a value: annotations, outputs and state. -/
def processValueCommand (stepId scopeId : String) (line : Text) :
    Option (WorkflowCommandProcessor × Except String WorkflowLineDisposition) :=
  match parseWorkflowAnnotation line (processor.problemMatchers.workspace scopeId) with
  | .error error => some (processor, .error error)
  | .ok (some note) =>
      some (
        processor.recordAnnotation stepId note,
        .ok (.replace (annotationLogLine note)))
  | .ok none =>
      match parseNamedWorkflowCommand line "set-output" with
      | .error error => some (processor, .error error)
      | .ok (some (name, value)) =>
          some (suppressed (processor.recordLegacyValue stepId name value false))
      | .ok none =>
          match parseNamedWorkflowCommand line "save-state" with
          | .error error => some (processor, .error error)
          | .ok (some (name, value)) =>
              some (suppressed (processor.recordLegacyValue stepId name value true))
          | .ok none => none

def scanLine (stepId scopeId : String) (line : Text) : WorkflowCommandProcessor :=
  let (note, matchers) := processor.problemMatchers.scan scopeId line
  let processor := { processor with problemMatchers := matchers }
  match note with
  | some note => processor.recordAnnotation stepId note
  | none => processor

/-- A line, as the commands and the matchers of its job leave it; while commands are stopped only
the resume line is read. -/
def processLine (stepId : String) (line : Text) :
    WorkflowCommandProcessor × Except String WorkflowLineDisposition :=
  let scopeId := workflowCommandScope stepId
  match (processor.scope scopeId).stopToken with
  | some token =>
      if line = resumeLine token then
        (processor.setScope scopeId { processor.scope scopeId with stopToken := none },
          .ok .suppress)
      else (processor, .ok .original)
  | none =>
      match stripPrefixIgnoreAsciiCase line "::add-mask::".toList with
      | some value => suppressed (processor.addMask scopeId (decodeWorkflowCommandData value))
      | none =>
          match stripPrefixIgnoreAsciiCase line "::stop-commands::".toList with
          | some token =>
              let token := decodeWorkflowCommandData token
              (if token = [] then processor
                else processor.setScope scopeId
                  { processor.scope scopeId with stopToken := some token },
                .ok .suppress)
          | none =>
              ((processor.processMatcherCommand scopeId line).or
                (processor.processValueCommand stepId scopeId line)).getD
                  (processor.scanLine stepId scopeId line, .ok .original)

/-- What is visible of a line. -/
def visibleOf (segment : Text) : WorkflowLineDisposition → Text
  | .original => segment
  | .suppress => []
  | .replace replacement => replacement ++ if endsWithLineFeed segment then ['\n'] else []

/-- The loop of `process_complete_log`, behind the lines whose visible text that is. -/
def processSegments (stepId : String) (visible : Text) :
    List Text → WorkflowCommandProcessor → WorkflowCommandProcessor × Except String Text
  | [], processor => (processor, .ok visible)
  | segment :: rest, processor =>
      match processor.processLine stepId (trimLineBreaks segment) with
      | (processor, .error error) => (processor, .error error)
      | (processor, .ok disposition) =>
          processSegments stepId (visible ++ visibleOf segment disposition) rest processor

/-- Lines, one after the other. -/
def processCompleteLog (stepId : String) (data : Text) :
    WorkflowCommandProcessor × Except String Text :=
  processSegments stepId [] (splitInclusive data) processor

omit [Files] [MatcherFiles] in
def isSuppressibleCommand (stepId : String) (line : Text) : Bool :=
  match (processor.scope (workflowCommandScope stepId)).stopToken with
  | some token => line = resumeLine token
  | none =>
      (stripPrefixIgnoreAsciiCase line "::add-mask::".toList).isSome ||
        (stripPrefixIgnoreAsciiCase line "::stop-commands::".toList).isSome ||
        (stripPrefixIgnoreAsciiCase line "::set-output ".toList).isSome ||
        (stripPrefixIgnoreAsciiCase line "::save-state ".toList).isSome ||
        isAnnotationWorkflowCommand line || isProblemMatcherWorkflowCommand line

omit [Files] [MatcherFiles] in
def setPartial (stepId : String) (stream : LogStream) (command : Option Text) :
    WorkflowCommandProcessor :=
  { processor with
    partialCommands := Function.update processor.partialCommands stepId
      (Function.update (processor.partialCommands stepId) stream command) }

/-- A chunk of output: one that begins a command and does not end its line is held back for the
rest. -/
def processLog (stepId : String) (stream : LogStream) (data : Text) :
    WorkflowCommandProcessor × Except String Text :=
  match processor.partialCommands stepId stream with
  | some started =>
      let complete := started ++ data
      if byteLength complete > maxDynamicMaskBytesPerJob then
        (processor.setPartial stepId stream (some complete),
          .error "workflow command exceeded the dynamic-mask safety limit")
      else if endsWithLineFeed data || byteLength data < maxLogChunkBytes then
        (processor.setPartial stepId stream none).processCompleteLog stepId complete
      else (processor.setPartial stepId stream (some complete), .ok [])
  | none =>
      if byteLength data ≥ maxLogChunkBytes && !endsWithLineFeed data &&
          processor.isSuppressibleCommand stepId (trimLineBreaks data) then
        (processor.setPartial stepId stream (some data), .ok [])
      else processor.processCompleteLog stepId data

/-- The visible text of the command that the end of the stream completes is dropped. -/
def finishStream (stepId : String) (stream : LogStream) : WorkflowCommandProcessor :=
  match processor.partialCommands stepId stream with
  | none => processor
  | some complete =>
      match (processor.setPartial stepId stream none).processCompleteLog stepId complete with
      | (processor, .ok _) => processor
      | (processor, .error error) => processor.fail error

end WorkflowCommandProcessor

end Processor

/-! ### Chunks -/

abbrev Bytes := List UInt8

def lineFeed : UInt8 := 10

/-- The loop over the available bytes: the chunks that become ready, and what is pending. -/
def fillChunks (pending available : Bytes) : List Bytes × Bytes :=
  if _empty : available = [] then ([], pending)
  else
    let newline := available.idxOf? lineFeed
    let throughNewline := (newline.map (· + 1)).getD available.length
    let take := min throughNewline (maxLogChunkBytes - pending.length)
    let filled := pending ++ available.take take
    -- The pending bytes never fill a chunk, so the loop always goes on.
    if _stuck : take = 0 then ([], pending)
    else if filled.length = maxLogChunkBytes || (newline.isSome && take = throughNewline) then
      let (ready, pending) := fillChunks [] (available.drop take)
      (filled :: ready, pending)
    else fillChunks filled (available.drop take)
termination_by available.length
decreasing_by
  all_goals
    rw [List.length_drop]
    exact Nat.sub_lt (List.length_pos_of_ne_nil _empty) (Nat.pos_of_ne_zero _stuck)

def encode (text : Text) : Bytes := text.flatMap String.utf8EncodeChar

def decodeFirst (bytes : Bytes) : Option Char := bytes.toByteArray.utf8DecodeChar? 0

/-- The bytes begin the encoding of a character that goes on behind them: the bytes behind
the second one may be any continuation, and the second one is at one of the ends of its range. -/
def beginsCharacter (bytes : Bytes) : Bool :=
  [1, 2, 3].any fun count => [0x80, 0xBF].any fun continuation =>
    (decodeFirst (bytes ++ List.replicate count continuation)).any fun char =>
      char.utf8Size = bytes.length + count

/-- How many bytes a replacement character stands for: as many as begin a character. -/
def invalidLength (bytes : Bytes) : Nat :=
  if 3 ≤ bytes.length && beginsCharacter (bytes.take 3) then 3
  else if 2 ≤ bytes.length && beginsCharacter (bytes.take 2) then 2
  else 1

theorem invalidLength_pos (bytes : Bytes) : 0 < invalidLength bytes := by
  unfold invalidLength
  split
  · decide
  · split
    · decide
    · decide

/-- `String::from_utf8_lossy` -/
def fromUtf8Lossy (bytes : Bytes) : Text :=
  if _empty : bytes = [] then []
  else
    match decodeFirst bytes with
    | some char => char :: fromUtf8Lossy (bytes.drop char.utf8Size)
    | none => '\uFFFD' :: fromUtf8Lossy (bytes.drop (invalidLength bytes))
termination_by bytes.length
decreasing_by
  · rw [List.length_drop]
    exact Nat.sub_lt (List.length_pos_of_ne_nil _empty) char.utf8Size_pos
  · rw [List.length_drop]
    exact Nat.sub_lt (List.length_pos_of_ne_nil _empty) (invalidLength_pos bytes)

/-! ### The output of a process -/

section Forwarding

variable [Regexes] [Files] [MatcherFiles]

/-- The command state, and the text that has been forwarded, before it is masked. -/
structure Forwarding where
  processor : WorkflowCommandProcessor
  visible : Text := []
  /-- A command has failed, and nothing more is read. -/
  stopped : Bool := false

/-- `prepare_workflow_log` on a chunk, and the message with what is left of it. -/
def Forwarding.chunk (stepId : String) (stream : LogStream) (state : Forwarding) (bytes : Bytes) :
    Forwarding :=
  if state.stopped then state
  else
    match state.processor.processLog stepId stream (fromUtf8Lossy bytes) with
    | (processor, .ok data) => { state with processor, visible := state.visible ++ data }
    | (processor, .error error) => { state with processor := processor.fail error, stopped := true }

/-- The end of the output. -/
def Forwarding.finish (stepId : String) (stream : LogStream) (state : Forwarding)
    (pending : Bytes) : Forwarding :=
  let state := if pending = [] then state else state.chunk stepId stream pending
  if state.stopped then state
  else { state with processor := state.processor.finishStream stepId stream }

/-- The loop of `forward_output` over the reads, each of which has bytes. -/
def Forwarding.reads (stepId : String) (stream : LogStream) (state : Forwarding)
    (pending : Bytes) : List Bytes → Forwarding
  | [] => state.finish stepId stream pending
  | available :: rest =>
      let (ready, pending) := fillChunks pending available
      Forwarding.reads stepId stream (ready.foldl (Forwarding.chunk stepId stream) state) pending
        rest

/-- An output from its first read to its end. -/
def forwardOutput (stepId : String) (stream : LogStream) (processor : WorkflowCommandProcessor)
    (reads : List Bytes) : Forwarding :=
  Forwarding.reads stepId stream { processor } [] reads

end Forwarding

end GitZero.Agent.CommandProcessor
