/-
Module: GitZero.Agent.Artifacts
Purpose: The workflow artifact service of the agent: its records, its files, and its
  requests as tasks that are suspended at every await point.
Trusted boundary: SHA-256 is a parameter.  Requests that fail authorization or cannot be
  parsed reach none of these functions and are left out.
Main exports: ArtifactRecord, Frame, Service, advance, step
-/
import GitZero.Lib.Table
import Mathlib.Algebra.Ring.Nat
import Mathlib.Logic.Function.Basic

namespace GitZero.Agent.Artifacts

open Table

abbrev Bytes := List UInt8

/-- `sha2::Sha256` -/
class Sha256 where
  digest : Bytes → Bytes

/-- `format!("{byte:02x}")` -/
def hexByte (byte : UInt8) : String :=
  String.ofList [Nat.digitChar (byte.toNat / 16), Nat.digitChar (byte.toNat % 16)]

def hexDigest [Sha256] (value : Bytes) : String :=
  String.join ((Sha256.digest value).map hexByte)

/-! ### Records -/

/-- A staged block: the name of its file and the size that was written. -/
structure Block where
  path : String
  size : Nat
deriving Repr, DecidableEq

/-- One artifact in memory: its staged blocks until a blob is committed, then the size of the
blob, and its digest once it is finalized. -/
structure ArtifactRecord where
  id : Nat
  name : String
  mimeType : String
  blocks : List (String × Block)
  blobCommitted : Bool
  finalized : Bool
  size : Nat
  digest : Option String
deriving Repr, DecidableEq

/-- The bytes that all artifacts of a run, and that each of them, may take. -/
structure ArtifactLimits where
  maximumBytes : Nat
  maximumEntryBytes : Nat

/-- What a service is started with. -/
structure Settings where
  workflowRunBackendId : String
  workflowJobRunBackendId : String
  limits : ArtifactLimits

def u64Max : Nat := 2 ^ 64 - 1

/-- `u64::saturating_add`; subtraction of `Nat` is `u64::saturating_sub`. -/
def saturatingAdd (left right : Nat) : Nat := min (left + right) u64Max

def artifactLogicalSize (artifact : ArtifactRecord) : Nat :=
  if artifact.blobCommitted then artifact.size
  else artifact.blocks.foldl (fun total block => saturatingAdd total block.2.size) 0

/-- The records are a `BTreeMap` by id.  Ids grow, so that a new record comes last. -/
def totalLogicalSize (artifacts : List ArtifactRecord) : Nat :=
  artifacts.foldl (fun total artifact => saturatingAdd total (artifactLogicalSize artifact)) 0

/-- The blob of an artifact, and the blocks in its directory `blocks`.  Temporary files
have names that are drawn once, so that only their task sees them: their content is in
the frame of the task. -/
inductive Path where
  | blob (id : Nat)
  | block (id : Nat) (name : String)
deriving Repr, DecidableEq

/-! ### Answers -/

/-- A failed answer: the HTTP status, the Twirp code and the message. -/
structure ArtifactHttpError where
  status : Nat
  code : String
  message : String
deriving Repr, DecidableEq

namespace ArtifactHttpError

def badRequest (message : String) : ArtifactHttpError := ⟨400, "invalid_argument", message⟩

def internal (message : String) : ArtifactHttpError := ⟨500, "internal", message⟩

def artifactNotFound : ArtifactHttpError := ⟨404, "not_found", "artifact was not found"⟩

def alreadyFinalized : ArtifactHttpError :=
  ⟨409, "failed_precondition", "artifact is already finalized"⟩

def storageLimit : ArtifactHttpError :=
  ⟨413, "resource_exhausted", "workflow artifact storage limit exceeded"⟩

/-- Opening a file that does not exist. -/
def noSuchFile : ArtifactHttpError := internal "No such file or directory (os error 2)"

end ArtifactHttpError

open ArtifactHttpError

/-- The successful answers of the service. -/
inductive Answer where
  | created (id : Nat)
  | stored
  | finalized (id : Nat)
  | deleted (id : Nat)
deriving Repr, DecidableEq

/-! ### Requests and tasks -/

/-- The requests of the artifact protocol that reach the service, with what they carry. -/
inductive Request where
  | createArtifact (runId jobId name : String) (mimeType : Option String) (version : Int)
  | stageBlock (id : Nat) (blockId : String) (contentLength : Option Nat) (body : Bytes)
  | commitBlockList (id : Nat) (order : List String)
  | uploadSingleBlob (id : Nat) (contentLength : Option Nat) (body : Bytes)
  | finalizeArtifact (runId jobId name : String) (size : Nat) (hash : Option String)
  | deleteArtifact (runId jobId name : String)
deriving Repr, DecidableEq

/-- Where a request is suspended, with the local variables it still needs. -/
inductive Frame where
  /-- before the first lock -/
  | requested (request : Request)
  /-- `stage_block` in `write_body` -/
  | stageWriting (id : Nat) (blockId : String) (body : Bytes)
  /-- `stage_block` before its second lock -/
  | stageWritten (id : Nat) (blockId : String) (content : Bytes)
  /-- `stage_block` in its rename, with the lock held -/
  | stageRenaming (id : Nat) (blockId : String) (content : Bytes)
  /-- `stage_block` after its rename, with the lock held -/
  | stageRenamed (id : Nat) (blockId : String) (size : Nat)
  /-- `commit_block_list` copying, and in its rename when no block remains -/
  | commitCopying (id : Nat) (remaining : List Block) (output : Bytes) (size : Nat)
  /-- `commit_block_list` after its rename, before its second lock -/
  | commitRenamed (id : Nat) (size : Nat)
  /-- `commit_block_list` in `remove_dir_all` -/
  | commitRemoving (id : Nat)
  /-- `upload_single_blob` in `write_body` -/
  | uploadWriting (id : Nat) (body : Bytes) (oldSize : Nat)
  /-- `upload_single_blob` before its second lock -/
  | uploadWritten (id : Nat) (content : Bytes) (oldSize : Nat)
  /-- `upload_single_blob` in its rename, with the lock held -/
  | uploadRenaming (id : Nat) (content : Bytes)
  /-- `upload_single_blob` after its rename, with the lock held -/
  | uploadRenamed (id : Nat) (size : Nat)
  /-- `finalize_artifact` before `hash_file` opens the blob -/
  | hashing (id : Nat) (expectedHash : Option String)
  /-- `finalize_artifact` with the blob open; a later rename does not reach the open file -/
  | hashed (id : Nat) (expectedHash : Option String) (content : Bytes)
  /-- `delete_artifact` in `remove_dir_all` -/
  | deleting (id : Nat)
  | done (answer : Except ArtifactHttpError Answer)

namespace Frame

/-- The task holds the lock on the records across its await. -/
def holdsLock : Frame → Bool
  | .stageRenaming .. | .stageRenamed .. | .uploadRenaming .. | .uploadRenamed .. => true
  | _ => false

/-- The next step of the task begins with taking the lock. -/
def takesLock : Frame → Bool
  | .requested _ | .stageWritten .. | .commitRenamed .. | .uploadWritten .. | .hashed .. => true
  | _ => false

end Frame

/-- The state that all requests share: the records behind the lock, the files, and one task for
every request so far. -/
structure Service where
  records : List ArtifactRecord := []
  nextId : Nat := 1
  disk : Path → Option Bytes := fun _ => none
  tasks : List Frame := []

namespace Service

def record? (service : Service) (id : Nat) : Option ArtifactRecord :=
  row (·.id) service.records id

/-- `artifacts.values().find(|artifact| artifact.name == name)` -/
def named? (service : Service) (name : String) : Option ArtifactRecord :=
  service.records.find? (·.name = name)

def locked (service : Service) : Bool := service.tasks.any (·.holdsLock)

def write (service : Service) (path : Path) (content : Bytes) : Service :=
  { service with disk := Function.update service.disk path (some content) }

def unlink (service : Service) (path : Path) : Service :=
  { service with disk := Function.update service.disk path none }

theorem write_disk_self (service : Service) (path : Path) (content : Bytes) :
    (service.write path content).disk path = some content := Function.update_self ..

theorem write_disk_of_ne (service : Service) {path other : Path} (content : Bytes)
    (differs : other ≠ path) : (service.write path content).disk other = service.disk other :=
  Function.update_of_ne differs _ _

theorem unlink_disk_of_ne (service : Service) {path other : Path} (differs : other ≠ path) :
    (service.unlink path).disk other = service.disk other :=
  Function.update_of_ne differs _ _

/-- What is left after a file is removed was there before. -/
theorem disk_of_unlink {service : Service} {path other : Path} {content : Bytes}
    (there : (service.unlink path).disk other = some content) :
    service.disk other = some content := by
  by_cases same : other = path
  · have gone : (service.unlink path).disk path = none := Function.update_self ..
    rw [same, gone] at there
    cases there
  · rwa [unlink_disk_of_ne service same] at there

def updateRecord (service : Service) (id : Nat) (set : ArtifactRecord → ArtifactRecord) :
    Service :=
  { service with records := update service.records (·.id = id) set }

end Service

section Requests

variable [Sha256] (settings : Settings)

def validateBackendIds (runId jobId : String) : Bool :=
  runId = settings.workflowRunBackendId && jobId = settings.workflowJobRunBackendId

def outsideRun : ArtifactHttpError :=
  ⟨403, "permission_denied", "artifact backend IDs are outside this run"⟩

/-- `char::is_control` -/
def isControl (char : Char) : Bool :=
  char.toNat < 32 || (127 ≤ char.toNat && char.toNat < 160)

def validateArtifactName (name : String) : Bool :=
  !(name.isEmpty || 255 < name.utf8ByteSize || name.toList.any isControl)

/-- `Content-Length` above the limit. -/
def rejectLargeContentLength (contentLength : Option Nat) : Bool :=
  contentLength.any (settings.limits.maximumEntryBytes < ·)

def tooLarge : ArtifactHttpError :=
  ⟨413, "resource_exhausted", "artifact upload exceeds the configured limit"⟩

/-- What `write_body` has written when it returns. -/
def writeBody (body : Bytes) (failure : Option String) : Except ArtifactHttpError Bytes :=
  match failure with
  | some text => .error (internal text)
  | none => if settings.limits.maximumEntryBytes < body.length then .error tooLarge else .ok body

/-- The lock is held while the directory is created, and nobody knows the id before, so
that the request is one step. -/
def createArtifact (service : Service) (runId jobId name : String) (mimeType : Option String)
    (version : Int) (failure : Option String) : Service × Frame :=
  if !validateBackendIds settings runId jobId then (service, .done (.error outsideRun))
  else if !validateArtifactName name then
    (service, .done (.error (badRequest
      "artifact name is empty, too large, or contains control characters")))
  else if version < 4 then
    (service, .done (.error (badRequest "artifact protocol version is not supported")))
  else if (service.named? name).isSome then
    (service, .done (.error ⟨409, "already_exists",
      "an artifact with this name already exists on the workflow run"⟩))
  else
    let id := service.nextId
    match failure with
    | some text => ({ service with nextId := id + 1 }, .done (.error (internal text)))
    | none =>
        ({ service with
            nextId := id + 1
            records := service.records ++
              [{ id := id
                 name := name
                 mimeType := (mimeType.filter (!·.isEmpty)).getD "application/zip"
                 blocks := []
                 blobCommitted := false
                 finalized := false
                 size := 0
                 digest := none }] },
          .done (.ok (.created id)))

def stageBlock (service : Service) (id : Nat) (blockId : String) (contentLength : Option Nat)
    (body : Bytes) : Frame :=
  if blockId.isEmpty || 256 < blockId.utf8ByteSize then
    .done (.error (badRequest "block ID is invalid"))
  else if rejectLargeContentLength settings contentLength then .done (.error tooLarge)
  else
    match service.record? id with
    | none => .done (.error artifactNotFound)
    | some artifact =>
        if artifact.finalized then .done (.error alreadyFinalized)
        else .stageWriting id blockId body

def blockPath (blockId : String) : String := hexDigest blockId.toUTF8.data.toList

/-- `stage_block` once it has the lock again: the limits, but not `finalized`. -/
def stageWithinLimits (service : Service) (id : Nat) (blockId : String) (content : Bytes) :
    Frame :=
  match service.record? id with
  | none => .done (.error artifactNotFound)
  | some artifact =>
      let oldSize := ((artifact.blocks.lookup blockId).map (·.size)).getD 0
      let projectedArtifact :=
        saturatingAdd (artifactLogicalSize artifact - oldSize) content.length
      let projectedTotal :=
        saturatingAdd (totalLogicalSize service.records - oldSize) content.length
      if settings.limits.maximumEntryBytes < projectedArtifact ||
          settings.limits.maximumBytes < projectedTotal then
        .done (.error storageLimit)
      else .stageRenaming id blockId content

/-- `artifact.blocks.insert(..)` -/
def insertBlock (blockId : String) (block : Block) (artifact : ArtifactRecord) :
    ArtifactRecord :=
  { artifact with
    blocks := artifact.blocks.filter (·.1 ≠ blockId) ++ [(blockId, block)] }

def commitBlockList (service : Service) (id : Nat) (order : List String) : Frame :=
  match service.record? id with
  | none => .done (.error artifactNotFound)
  | some artifact =>
      if artifact.finalized then .done (.error alreadyFinalized)
      else
        match order.mapM fun blockId => artifact.blocks.lookup blockId with
        | none => .done (.error (badRequest "block list refers to a missing block"))
        | some blocks =>
            let size := (blocks.map (·.size)).sum
            if u64Max < size then .done (.error (badRequest "artifact size overflow"))
            else if settings.limits.maximumEntryBytes < size then
              .done (.error ⟨413, "resource_exhausted",
                "artifact exceeds the configured per-entry limit"⟩)
            else .commitCopying id blocks [] size

/-- The record of a blob that has been renamed into place. -/
def recordBlob (size : Nat) (artifact : ArtifactRecord) : ArtifactRecord :=
  { artifact with blobCommitted := true, size := size, blocks := [] }

def uploadSingleBlob (service : Service) (id : Nat) (contentLength : Option Nat)
    (body : Bytes) : Frame :=
  if rejectLargeContentLength settings contentLength then .done (.error tooLarge)
  else
    match service.record? id with
    | none => .done (.error artifactNotFound)
    | some artifact =>
        if artifact.finalized then .done (.error alreadyFinalized)
        else .uploadWriting id body (artifactLogicalSize artifact)

/-- `upload_single_blob` once it has the lock again. -/
def uploadWithinLimits (service : Service) (id : Nat) (content : Bytes) (oldSize : Nat) :
    Frame :=
  if settings.limits.maximumBytes <
      saturatingAdd (totalLogicalSize service.records - oldSize) content.length then
    .done (.error storageLimit)
  else .uploadRenaming id content

def finalizeArtifact (service : Service) (runId jobId name : String) (expectedSize : Nat)
    (expectedHash : Option String) : Frame :=
  if !validateBackendIds settings runId jobId then .done (.error outsideRun)
  else
    match service.named? name with
    | none => .done (.error artifactNotFound)
    | some artifact =>
        if artifact.finalized then
          if expectedSize = artifact.size && expectedHash.all (some · = artifact.digest) then
            .done (.ok (.finalized artifact.id))
          else .done (.error ⟨409, "already_exists", "artifact is already finalized"⟩)
        else if !artifact.blobCommitted || expectedSize ≠ artifact.size then
          .done (.error (badRequest "final artifact size does not match the committed blob"))
        else .hashing artifact.id expectedHash

def blobDigest (content : Bytes) : String := "sha256:" ++ hexDigest content

/-- The end of `finalize_artifact`. -/
def markFinalized (content : Bytes) (artifact : ArtifactRecord) : ArtifactRecord :=
  { artifact with finalized := true, digest := some (blobDigest content) }

/-- The artifact that `delete_artifact` removes: of all with the name, that of the
greatest id. -/
def deleted? (service : Service) (name : String) : Option Nat :=
  ((service.records.filter (·.name = name)).map (·.id)).max?

def deleteArtifact (service : Service) (runId jobId name : String) : Service × Frame :=
  if !validateBackendIds settings runId jobId then (service, .done (.error outsideRun))
  else
    match deleted? service name with
    | none => (service, .done (.error artifactNotFound))
    | some id =>
        ({ service with records := delete service.records (·.id = id) }, .deleting id)

/-- The first step of a request: its checks, and its first look at the records. -/
def begin (service : Service) (failure : Option String) : Request → Service × Frame
  | .createArtifact runId jobId name mimeType version =>
      createArtifact settings service runId jobId name mimeType version failure
  | .stageBlock id blockId contentLength body =>
      (service, stageBlock settings service id blockId contentLength body)
  | .commitBlockList id order => (service, commitBlockList settings service id order)
  | .uploadSingleBlob id contentLength body =>
      (service, uploadSingleBlob settings service id contentLength body)
  | .finalizeArtifact runId jobId name size hash =>
      (service, finalizeArtifact settings service runId jobId name size hash)
  | .deleteArtifact runId jobId name => deleteArtifact settings service runId jobId name

/-- From one await point to the next.  `failure` is the text of the I/O error with which
the awaited operation ends, if it fails. -/
def advance (service : Service) (failure : Option String) : Frame → Service × Frame
  | .requested request => begin settings service failure request
  | .stageWriting id blockId body =>
      match writeBody settings body failure with
      | .error error => (service, .done (.error error))
      | .ok content => (service, .stageWritten id blockId content)
  | .stageWritten id blockId content =>
      (service, stageWithinLimits settings service id blockId content)
  | .stageRenaming id blockId content =>
      match failure with
      | some text => (service, .done (.error (internal text)))
      | none =>
          (service.write (.block id (blockPath blockId)) content,
            .stageRenamed id blockId content.length)
  | .stageRenamed id blockId size =>
      match service.record? id with
      | none => (service, .done (.error artifactNotFound))
      | some _ =>
          (service.updateRecord id (insertBlock blockId ⟨blockPath blockId, size⟩),
            .done (.ok .stored))
  | .commitCopying id (block :: remaining) output size =>
      match failure, service.disk (.block id block.path) with
      | some text, _ => (service, .done (.error (internal text)))
      | none, none => (service, .done (.error noSuchFile))
      | none, some content => (service, .commitCopying id remaining (output ++ content) size)
  | .commitCopying id [] output size =>
      match failure with
      | some text => (service, .done (.error (internal text)))
      | none => (service.write (.blob id) output, .commitRenamed id size)
  | .commitRenamed id size =>
      match service.record? id with
      | none => (service, .done (.error artifactNotFound))
      | some _ => (service.updateRecord id (recordBlob size), .commitRemoving id)
  | .commitRemoving _ => (service, .done (.ok .stored))
  | .uploadWriting id body oldSize =>
      match writeBody settings body failure with
      | .error error => (service, .done (.error error))
      | .ok content => (service, .uploadWritten id content oldSize)
  | .uploadWritten id content oldSize =>
      (service, uploadWithinLimits settings service id content oldSize)
  | .uploadRenaming id content =>
      match failure with
      | some text => (service, .done (.error (internal text)))
      | none => (service.write (.blob id) content, .uploadRenamed id content.length)
  | .uploadRenamed id size =>
      match service.record? id with
      | none => (service, .done (.error artifactNotFound))
      | some _ => (service.updateRecord id (recordBlob size), .done (.ok .stored))
  | .hashing id expectedHash =>
      match failure, service.disk (.blob id) with
      | some text, _ => (service, .done (.error (internal text)))
      | none, none => (service, .done (.error noSuchFile))
      | none, some content => (service, .hashed id expectedHash content)
  | .hashed id expectedHash content =>
      match failure with
      | some text => (service, .done (.error (internal text)))
      | none =>
          if expectedHash.any (· ≠ blobDigest content) then
            (service, .done (.error (badRequest
              "final artifact digest does not match the committed blob")))
          else
            match service.record? id with
            | none => (service, .done (.error artifactNotFound))
            | some _ =>
                (service.updateRecord id (markFinalized content), .done (.ok (.finalized id)))
  | .deleting id =>
      match failure with
      | some text => (service, .done (.error (internal text)))
      | none => (service, .done (.ok (.deleted id)))
  | .done answer => (service, .done answer)

/-- A request arrives; a task runs to its next await; `remove_dir_all` of a task removes
one more file. -/
inductive Event where
  | request (request : Request)
  | proceed (task : Nat) (failure : Option String)
  | remove (task : Nat) (path : Path)
deriving Repr, DecidableEq

/-- The files that the `remove_dir_all` of the task removes. -/
def Frame.removes : Frame → Path → Bool
  | .commitRemoving id, .block owner _ => id = owner
  | .deleting id, .block owner _ | .deleting id, .blob owner => id = owner
  | _, _ => false

/-- A task that needs the lock waits while another one holds it. -/
def step (service : Service) : Event → Service
  | .request request => { service with tasks := service.tasks ++ [.requested request] }
  | .proceed task failure =>
      match service.tasks[task]? with
      | none => service
      | some frame =>
          if frame.takesLock && service.locked then service
          else
            let next := advance settings service failure frame
            { next.1 with tasks := service.tasks.set task next.2 }
  | .remove task path =>
      match service.tasks[task]? with
      | none => service
      | some frame => if frame.removes path then service.unlink path else service

def initial : Service := {}

end Requests

end GitZero.Agent.Artifacts
