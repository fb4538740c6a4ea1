/-
Module: GitZero.Agent.CacheStore
Purpose: The workflow cache services of an agent that share one root: their reservations
  and uploads, the directories of the root, and each request as the list of file operations
  that it makes under the root lock.
Trusted boundary: SHA-256 is a parameter.  Requests that fail authorization or cannot be
  decoded reach none of these functions and are left out.
Main exports: StoredCache, Directory, CacheService, FileOp, Ending, Request, Cache, step
-/
import GitZero.Agent.Artifacts
import GitZero.Agent.Commands
import GitZero.Lib.Patches

namespace GitZero.Agent.CacheStore

open Table
open Artifacts (Bytes Sha256 hexDigest u64Max saturatingAdd)
open Commands (byteLength stripPrefix?)
open GitZero.Splits (splitOnce)
open Expression (parseUsize)

/-! ### The root -/

/-- The metadata file of a cache entry. -/
structure StoredCache where
  cacheKey : String
  cacheVersion : String
  scope : String
  creationTime : Nat
  lastAccessedTime : Nat
  size : Nat
deriving Repr, DecidableEq

/-- `metadata.json`.  Written in part it is a proper prefix of a JSON object, and
`serde_json` refuses it with some text. -/
inductive MetadataFile where
  | written (metadata : StoredCache)
  | torn (error : String)
deriving Repr, DecidableEq

/-- A directory in the directory of a scope.  The temporary files of
`write_metadata_atomic` have names that are drawn once and are read by nothing but their
rename; they are left out. -/
structure Directory where
  scopeRoot : String
  name : String
  metadata : Option MetadataFile := none
  archive : Option Bytes := none
deriving Repr, DecidableEq

/-- An entry that can be read, as `load_scope_entries` finds it in its scope root. -/
structure CacheEntry where
  scopeRoot : String
  name : String
  metadata : StoredCache
deriving Repr, DecidableEq

namespace Directory

def isAt (scopeRoot name : String) (directory : Directory) : Bool :=
  directory.scopeRoot = scopeRoot && directory.name = name

/-- `starts_with('.')` -/
def hidden (directory : Directory) : Bool := directory.name.toList.head? = some '.'

/-- The directory has an archive and metadata that can be read. -/
def entry? (directory : Directory) : Option CacheEntry :=
  match directory.metadata, directory.archive with
  | some (.written metadata), some _ => some ⟨directory.scopeRoot, directory.name, metadata⟩
  | _, _ => none

end Directory

def loadScopeEntries (root : List Directory) (scopeRoot : String) : List CacheEntry :=
  (root.filter fun directory => directory.scopeRoot = scopeRoot && !directory.hidden).filterMap
    Directory.entry?

/-- Every `metadata.json` below the root, whatever directory it is in; the first that
cannot be read ends the scan. -/
def scanCacheEntries : List Directory → Except String (List CacheEntry)
  | [] => .ok []
  | directory :: root =>
      match directory.metadata with
      | some (.torn error) => .error error
      | _ => (scanCacheEntries root).map (directory.entry?.toList ++ ·)

/-! ### File operations -/

/-- The operations on the file system that a request is made of, in the order of the code. -/
inductive FileOp where
  /-- `remove_dir_all` -/
  | removeDirectory (scopeRoot name : String)
  /-- the rename at the end of `write_metadata_atomic` -/
  | replaceMetadata (scopeRoot name : String) (metadata : StoredCache)
  | createDirectory (scopeRoot name : String)
  /-- the rename of the upload to `archive` -/
  | moveArchive (scopeRoot name : String) (content : Bytes)
  /-- `fs::write` of `metadata.json` -/
  | writeMetadata (scopeRoot name : String) (metadata : StoredCache)
  /-- the rename of the temporary directory -/
  | renameDirectory (scopeRoot name final : String)
deriving Repr, DecidableEq

/-- What an operation that has not come to its end leaves: files of the directory that
`remove_dir_all` has not removed yet, or metadata written in part. -/
structure Cut where
  metadata : Bool := true
  archive : Bool := true
  error : String := ""
deriving Repr, DecidableEq

namespace FileOp

def apply (root : List Directory) : FileOp → List Directory
  | .removeDirectory scopeRoot name => delete root (·.isAt scopeRoot name)
  | .replaceMetadata scopeRoot name metadata =>
      update root (·.isAt scopeRoot name) fun directory =>
        { directory with metadata := some (.written metadata) }
  | .createDirectory scopeRoot name => root ++ [{ scopeRoot := scopeRoot, name := name }]
  | .moveArchive scopeRoot name content =>
      update root (·.isAt scopeRoot name) fun directory =>
        { directory with archive := some content }
  | .writeMetadata scopeRoot name metadata =>
      update root (·.isAt scopeRoot name) fun directory =>
        { directory with metadata := some (.written metadata) }
  | .renameDirectory scopeRoot name final =>
      update root (·.isAt scopeRoot name) fun directory => { directory with name := final }

/-- Renames and `mkdir` are done or not. -/
def interrupt (cut : Cut) (root : List Directory) : FileOp → List Directory
  | .removeDirectory scopeRoot name =>
      update root (·.isAt scopeRoot name) fun directory =>
        { directory with
          metadata := if cut.metadata then directory.metadata else none
          archive := if cut.archive then directory.archive else none }
  | .writeMetadata scopeRoot name _ =>
      update root (·.isAt scopeRoot name) fun directory =>
        { directory with metadata := some (.torn cut.error) }
  | _ => root

/-- What `commit_cache` removes when its publication fails. -/
def cleanup : FileOp → Option FileOp
  | .createDirectory scopeRoot name => some (.removeDirectory scopeRoot name)
  | _ => none

def isMoveArchive : FileOp → Bool
  | .moveArchive .. => true
  | _ => false

end FileOp

def applyAll (root : List Directory) (ops : List FileOp) : List Directory :=
  ops.foldl FileOp.apply root

/-- `remove_dir_all` of each. -/
def removals (entries : List CacheEntry) : List FileOp :=
  entries.map fun entry => .removeDirectory entry.scopeRoot entry.name

/-! ### Answers -/

/-- A failed answer: the HTTP status and the message. -/
structure CacheHttpError where
  status : Nat
  message : String
deriving Repr, DecidableEq

namespace CacheHttpError

def internal (message : String) : CacheHttpError := ⟨500, message⟩

def reservationNotFound : CacheHttpError := ⟨404, "cache reservation not found"⟩

def alreadyExists : CacheHttpError :=
  ⟨409, "an immutable cache entry already exists for this key and version"⟩

def invalidRange : CacheHttpError := ⟨400, "Content-Range is invalid"⟩

end CacheHttpError

open CacheHttpError

/-- The answers of the cache service. -/
inductive Answer where
  | noContent
  | found (metadata : StoredCache) (digest : String)
  | listed (entries : List StoredCache)
  | created (id : Nat)
  | failed (error : CacheHttpError)
deriving Repr, DecidableEq

/-- The file operations of a request, and its answer when none of them fails. -/
structure Plan where
  ops : List FileOp
  answer : Answer
deriving Repr, DecidableEq

/-- A request runs to its end; or one of its file operations, after so many that succeed,
fails with a text; or the process stops there, or in the cleanup behind a failure. -/
inductive Ending where
  | complete
  | fails (after : Nat) (cut : Option Cut) (text : String)
  | stops (after : Nat) (cut : Option Cut)
  | abandons (after : Nat) (cut : Option Cut) (left : Cut)
deriving Repr, DecidableEq

namespace Ending

/-- The process is gone. -/
def isStop : Ending → Bool
  | .stops .. | .abandons .. => true
  | _ => false

/-- The operations that succeed. -/
def succeeding (ops : List FileOp) : Ending → List FileOp
  | .complete => ops
  | .fails after _ _ | .stops after _ | .abandons after _ _ => ops.take after

/-- The root when the operation after the succeeding ones is not, or in part, done. -/
def interrupted (root : List Directory) (ops : List FileOp) (after : Nat) :
    Option Cut → List Directory
  | none => applyAll root (ops.take after)
  | some cut => (ops[after]?).elim (applyAll root (ops.take after))
      (FileOp.interrupt cut (applyAll root (ops.take after)))

def rootAfter (root : List Directory) (ops : List FileOp) : Ending → List Directory
  | .complete => applyAll root ops
  | .fails after cut _ =>
      if after < ops.length then
        applyAll (interrupted root ops after cut) ((ops.take after).filterMap FileOp.cleanup)
      else applyAll root ops
  | .stops after cut => interrupted root ops after cut
  | .abandons after cut left =>
      if after < ops.length then
        ((ops.take after).filterMap FileOp.cleanup).foldl (FileOp.interrupt left)
          (interrupted root ops after cut)
      else applyAll root ops

/-- The answer, if there is one; an operation that is not in the list cannot fail. -/
def answerOf (plan : Plan) : Ending → Option Answer
  | .complete => some plan.answer
  | .fails after _ text =>
      if after < plan.ops.length then some (.failed (internal text)) else some plan.answer
  | .stops .. | .abandons .. => none

end Ending

/-! ### Services -/

/-- Whether the job of a service may read and write caches. -/
inductive CacheMode where
  | none
  | read
  | write
  | writeOnly
deriving Repr, DecidableEq

namespace CacheMode

def asStr : CacheMode → String
  | .none => "none"
  | .read => "read"
  | .write => "write"
  | .writeOnly => "write-only"

def allowsRead (mode : CacheMode) : Bool := mode = .read || mode = .write

def allowsWrite (mode : CacheMode) : Bool := mode = .write || mode = .writeOnly

end CacheMode

/-- The bytes that all entries of a scope root, and that each of them, may take. -/
structure CacheLimits where
  maximumBytes : Nat
  maximumEntryBytes : Nat
deriving Repr, DecidableEq

/-- The upload is the file at `upload_path`, if it is there. -/
structure Reservation where
  key : String
  version : String
  upload : Option Bytes
  ranges : List (Nat × Nat)
  committed : Bool
deriving Repr, DecidableEq

/-- The service of one job: what it was started with, and its reservations by id. -/
structure CacheService where
  scopeRoot : String
  scope : String
  mode : CacheMode
  limits : CacheLimits
  nextReservation : Nat := 1
  reservations : List (Nat × Reservation) := []
deriving Repr, DecidableEq

/-- What a request reads besides: `now_millis` at its calls, and `Uuid::new_v4`. -/
structure Readings where
  discard : Nat
  access : Nat
  evict : Nat
  store : Nat
  uuid : String
deriving Repr, DecidableEq

/-- The milliseconds of seven days. -/
def cacheRetention : Nat := 7 * 24 * 60 * 60 * 1000

def cutoff (now : Nat) : Nat := now - cacheRetention

/-- `last_accessed_time < cutoff` -/
def CacheEntry.expired (now : Nat) (entry : CacheEntry) : Bool :=
  entry.metadata.lastAccessedTime < cutoff now

/-! ### Requests that read -/

def requireCacheRead (service : CacheService) : Option CacheHttpError :=
  if service.mode.allowsRead then none
  else some ⟨403, "cache read denied: effective cache mode '" ++ service.mode.asStr ++
    "' does not permit reads"⟩

def requireCacheWrite (service : CacheService) : Option CacheHttpError :=
  if service.mode.allowsWrite then none
  else some ⟨403, "cache write denied: effective cache mode '" ++ service.mode.asStr ++
    "' does not permit writes"⟩

def validateKey (key : String) : Option CacheHttpError :=
  if key.isEmpty || 512 < byteLength key.toList || key.toList.contains ',' then
    some ⟨400, "cache key is empty, too large, or contains a comma"⟩
  else none

def validateVersion (version : String) : Option CacheHttpError :=
  if version.isEmpty || 128 < byteLength version.toList then
    some ⟨400, "cache version is empty or too large"⟩
  else none

/-- `str::starts_with` -/
def startsWith (start text : String) : Bool := start.toList.isPrefixOf text.toList

/-- The newest of the entries; of several as new, the first. -/
def newest (entries : List CacheEntry) : Option CacheEntry :=
  (entries.mergeSort fun left right =>
    right.metadata.creationTime ≤ left.metadata.creationTime).head?

def matchCache (entries : List CacheEntry) (version : String) : List String → Option CacheEntry
  | [] => none
  | key :: keys =>
      match newest (entries.filter fun entry =>
          entry.metadata.cacheVersion = version && entry.metadata.cacheKey = key) with
      | some entry => some entry
      | none =>
          match newest (entries.filter fun entry =>
              entry.metadata.cacheVersion = version &&
                startsWith key entry.metadata.cacheKey) with
          | some entry => some entry
          | none => matchCache entries version keys

section Plans

variable (service : CacheService) (root : List Directory) (readings : Readings)

/-- The entries of the scope, those first that `discard_expired_entries` removes. -/
def discarded : List CacheEntry :=
  (loadScopeEntries root service.scopeRoot).filter (·.expired readings.discard)

def retained : List CacheEntry :=
  (loadScopeEntries root service.scopeRoot).filter (!·.expired readings.discard)

def fail (error : CacheHttpError) : Plan := ⟨[], .failed error⟩

def lookupCache (keys : List String) (version : String) : Plan :=
  match requireCacheRead service <|> validateVersion version with
  | some error => fail error
  | none =>
      if keys.isEmpty || 10 < keys.length then
        fail ⟨400, "cache lookup must contain between one and ten keys"⟩
      else
        match keys.findSome? validateKey with
        | some error => fail error
        | none =>
            match matchCache (retained service root readings) version keys with
            | none => ⟨removals (discarded service root readings), .noContent⟩
            | some entry =>
                let metadata := { entry.metadata with lastAccessedTime := readings.access }
                ⟨removals (discarded service root readings) ++
                  [.replaceMetadata entry.scopeRoot entry.name metadata],
                  .found metadata entry.name⟩

def listCaches (key : Option String) : Plan :=
  match requireCacheRead service with
  | some error => fail error
  | none =>
      ⟨removals (discarded service root readings),
        .listed (((retained service root readings).map (·.metadata)).filter fun metadata =>
          key.all (startsWith · metadata.cacheKey))⟩

/-- Whether the entry is for the key and the version. -/
def CacheEntry.isFor (key version : String) (entry : CacheEntry) : Bool :=
  entry.metadata.cacheKey = key && entry.metadata.cacheVersion = version

/-- The answer is the id under which the reservation is kept. -/
def reserveCache (key : String) (version : Option String) (cacheSize : Option Nat) : Plan :=
  match requireCacheWrite service <|> validateKey key <|> validateVersion (version.getD "") with
  | some error => fail error
  | none =>
      if cacheSize.any (service.limits.maximumEntryBytes < ·) then
        fail ⟨413, "cache entry exceeds the configured per-entry limit"⟩
      else if (retained service root readings).any (·.isFor key (version.getD "")) then
        ⟨removals (discarded service root readings), .failed alreadyExists⟩
      else ⟨removals (discarded service root readings), .created service.nextReservation⟩

end Plans

/-! ### Uploads -/

/-- `write_all` at an offset; what lies between the end of the file and the offset reads
as zeros. -/
def writeAt (content : Bytes) (offset : Nat) (bytes : Bytes) : Bytes :=
  Patches.patch 0 content offset bytes

/-- A request body: its chunks, and the error with which the stream ends, if it does not
end well. -/
structure Body where
  chunks : List Bytes
  aborted : Option String
deriving Repr, DecidableEq

/-- The loop of `upload_chunk`: the file, and how much was received. -/
def receive (start expected : Nat) (aborted : Option String) :
    Nat → Bytes → List Bytes → Bytes × Except CacheHttpError Nat
  | received, content, [] => (content, (aborted.map fun text => .error (internal text)).getD
      (.ok received))
  | received, content, chunk :: chunks =>
      if u64Max < received + chunk.length then
        (content, .error ⟨400, "cache chunk is too large"⟩)
      else if expected < received + chunk.length then
        (content, .error ⟨400, "cache chunk body exceeds Content-Range"⟩)
      else receive start expected aborted (received + chunk.length)
        (writeAt content (start + received) chunk) chunks

/-- `parse_content_range`; the value of the header, if it is text. -/
def parseContentRange (value : Option String) : Except CacheHttpError (Nat × Nat) :=
  match value with
  | none => .error ⟨400, "Content-Range is required"⟩
  | some value =>
      match ((stripPrefix? value.toList "bytes ".toList).bind (splitOnce ['/'])).bind
          fun parts => splitOnce ['-'] parts.1 with
      | none => .error invalidRange
      | some range =>
          match parseUsize range.1, parseUsize range.2 with
          | some start, some last =>
              if last < start then .error invalidRange else .ok (start, last)
          | _, _ => .error invalidRange

/-- `upload_chunk` once the reservation is locked: `open` creates the file. -/
def uploadRange (reservation : Reservation) (start last : Nat) (body : Body) :
    Reservation × Answer :=
  if reservation.committed then
    (reservation, .failed ⟨409, "cache reservation is already committed"⟩)
  else
    let received := receive start (last - start + 1) body.aborted 0
      (reservation.upload.getD []) body.chunks
    let written := { reservation with upload := some received.1 }
    match received.2 with
    | .error error => (written, .failed error)
    | .ok count =>
        if count ≠ last - start + 1 then
          (written, .failed ⟨400, "cache chunk body does not match Content-Range"⟩)
        else ({ written with ranges := reservation.ranges ++ [(start, last)] }, .noContent)

def CacheService.reservation? (service : CacheService) (id : Nat) : Option Reservation :=
  service.reservations.lookup id

def CacheService.setReservation (service : CacheService) (id : Nat) (reservation : Reservation) :
    CacheService :=
  { service with reservations := update service.reservations (·.1 = id) fun _ =>
      (id, reservation) }

def uploadChunk (service : CacheService) (id : Nat) (contentRange : Option String) (body : Body) :
    CacheService × Answer :=
  match requireCacheWrite service with
  | some error => (service, .failed error)
  | none =>
      match parseContentRange contentRange with
      | .error error => (service, .failed error)
      | .ok (start, last) =>
          if service.limits.maximumEntryBytes ≤ last then
            (service, .failed ⟨413, "cache upload exceeds the configured per-entry limit"⟩)
          else
            match service.reservation? id with
            | none => (service, .failed reservationNotFound)
            | some reservation =>
                let uploaded := uploadRange reservation start last body
                (service.setReservation id uploaded.1, uploaded.2)

/-! ### Commits -/

/-- The loop of `ranges_cover` over the sorted ranges. -/
def sweep (size : Nat) : Nat → List (Nat × Nat) → Bool
  | _, [] => false
  | covered, (start, last) :: ranges =>
      if covered < start then false
      else if size ≤ max covered (saturatingAdd last 1) then true
      else sweep size (max covered (saturatingAdd last 1)) ranges

def rangesCover (ranges : List (Nat × Nat)) (size : Nat) : Bool :=
  sweep size 0 (ranges.mergeSort fun left right =>
    left.1 < right.1 || left.1 = right.1 && left.2 ≤ right.2)

/-- The order of `evict_for_space`. -/
def CacheEntry.before (left right : CacheEntry) : Bool :=
  left.metadata.lastAccessedTime < right.metadata.lastAccessedTime ||
    left.metadata.lastAccessedTime = right.metadata.lastAccessedTime &&
      left.metadata.creationTime ≤ right.metadata.creationTime

def totalSize (entries : List CacheEntry) : Nat :=
  entries.foldl (fun total entry => saturatingAdd total entry.metadata.size) 0

/-- The loop of `evict_for_space`: what is removed, and the total that is left. -/
def evict (now maximumBytes requiredBytes : Nat) : Nat → List CacheEntry → List CacheEntry × Nat
  | total, [] => ([], total)
  | total, entry :: entries =>
      if entry.expired now || maximumBytes < saturatingAdd total requiredBytes then
        let rest := evict now maximumBytes requiredBytes (total - entry.metadata.size) entries
        (entry :: rest.1, rest.2)
      else evict now maximumBytes requiredBytes total entries

/-- `evict_for_space` up to its last check. -/
def evictForSpace (now maximumBytes requiredBytes : Nat) (entries : List CacheEntry) :
    List CacheEntry × Nat :=
  evict now maximumBytes requiredBytes (totalSize entries)
    (entries.mergeSort CacheEntry.before)

def entryDigest [Sha256] (key version : String) : String :=
  hexDigest (key ++ "\x00" ++ version).toUTF8.data.toList

def temporaryName (digest uuid : String) : String := "." ++ digest ++ ".tmp-" ++ uuid

/-- The publication: into a temporary directory, which is then renamed. -/
def publication (scopeRoot temporary final : String) (content : Bytes) (metadata : StoredCache) :
    List FileOp :=
  [.createDirectory scopeRoot temporary, .moveArchive scopeRoot temporary content,
    .writeMetadata scopeRoot temporary metadata, .renameDirectory scopeRoot temporary final]

/-- `commit_cache` from `evict_for_space` on; the expired entries of the scope have been
removed. -/
def publish [Sha256] (service : CacheService) (root : List Directory) (readings : Readings)
    (reservation : Reservation) (content : Bytes) (size : Nat) : Plan :=
  match scanCacheEntries root with
  | .error error => fail (internal error)
  | .ok entries =>
      let evicted := evictForSpace readings.evict service.limits.maximumBytes size entries
      let evictions := removals evicted.1
      if service.limits.maximumBytes < saturatingAdd evicted.2 size then
        ⟨evictions, .failed (internal "workflow cache does not have enough space after eviction")⟩
      else
        let digest := entryDigest reservation.key reservation.version
        let temporary := temporaryName digest readings.uuid
        let cleared := applyAll root evictions
        if cleared.any (·.isAt service.scopeRoot digest) then
          ⟨evictions, .failed ⟨409, "cache entry storage already exists"⟩⟩
        else if cleared.any (·.isAt service.scopeRoot temporary) then
          ⟨evictions, .failed (internal "File exists (os error 17)")⟩
        else
          ⟨evictions ++ publication service.scopeRoot temporary digest content
            { cacheKey := reservation.key
              cacheVersion := reservation.version
              scope := service.scope
              creationTime := readings.store
              lastAccessedTime := readings.store
              size := size }, .noContent⟩

/-- `commit_cache` once the reservation is locked. -/
def commitReservation [Sha256] (service : CacheService) (root : List Directory)
    (readings : Readings) (reservation : Reservation) (size : Nat) : Plan :=
  if reservation.committed then ⟨[], .noContent⟩
  else if !rangesCover reservation.ranges size then fail ⟨400, "cache upload is incomplete"⟩
  else
    match reservation.upload with
    | none => fail (internal "No such file or directory (os error 2)")
    | some content =>
        if content.length ≠ size then
          fail ⟨400, "committed cache size does not match the upload"⟩
        else
          let discards := removals (discarded service root readings)
          if (retained service root readings).any
              (·.isFor reservation.key reservation.version) then
            ⟨discards, .failed alreadyExists⟩
          else
            let plan := publish service (applyAll root discards) readings reservation content size
            ⟨discards ++ plan.ops, plan.answer⟩

/-- The reservation of a commit that has come so far. -/
def settle (reservation : Reservation) (done : List FileOp) (answer : Option Answer) :
    Reservation :=
  { reservation with
    upload := if done.any (·.isMoveArchive) then none else reservation.upload
    committed := reservation.committed || answer = some .noContent }

def commitCache [Sha256] (service : CacheService) (root : List Directory) (readings : Readings)
    (id size : Nat) : Plan :=
  match requireCacheWrite service with
  | some error => fail error
  | none =>
      if size = 0 || service.limits.maximumEntryBytes < size then
        fail ⟨413, "cache entry size is outside the configured limit"⟩
      else
        match service.reservation? id with
        | none => fail reservationNotFound
        | some reservation => commitReservation service root readings reservation size

/-- The archive that `download_cache` serves: of a digest, so of no hidden directory. -/
def downloadCache (service : CacheService) (root : List Directory) (digest : String) :
    Option Bytes :=
  if service.mode.allowsRead && digest.toList.length = 64 &&
      digest.toList.all fun char => char.isDigit || ('a' ≤ char && char ≤ 'f') ||
        ('A' ≤ char && char ≤ 'F') then
    (root.find? (·.isAt service.scopeRoot digest)).bind (·.archive)
  else none

/-! ### Steps -/

/-- The keys of a lookup come split at their commas. -/
inductive Request where
  | lookup (keys : List String) (version : String)
  | list (key : Option String)
  | reserve (key : String) (version : Option String) (cacheSize : Option Nat)
  | upload (id : Nat) (contentRange : Option String) (body : Body)
  | commit (id size : Nat)
deriving Repr, DecidableEq

/-- The services of the process, and the root that it shares with those before it. -/
structure Cache where
  root : List Directory := []
  services : List CacheService := []
deriving Repr, DecidableEq

/-- `CacheService::start`, and a request to one of the services. -/
inductive Event where
  | start (scopeRoot scope : String) (mode : CacheMode) (limits : CacheLimits)
  | request (service : Nat) (request : Request) (readings : Readings) (ending : Ending)
deriving Repr, DecidableEq

section Steps

variable [Sha256]

/-- The root lock is held from the first look at the root on, so that a request finds the
root as the one before it left it.  `upload_chunk` makes no operation in the root. -/
def plan (service : CacheService) (root : List Directory) (readings : Readings) :
    Request → Plan
  | .lookup keys version => lookupCache service root readings keys version
  | .list key => listCaches service root readings key
  | .reserve key version cacheSize => reserveCache service root readings key version cacheSize
  | .upload id contentRange body => ⟨[], (uploadChunk service id contentRange body).2⟩
  | .commit id size => commitCache service root readings id size

/-- The service once the request has come so far, and its answer. -/
def serviceAfter (service : CacheService) (request : Request) (done : List FileOp)
    (answer : Option Answer) : CacheService :=
  match request with
  | .reserve key version _ =>
      if answer = some (.created service.nextReservation) then
        { service with
          nextReservation := service.nextReservation + 1
          reservations := service.reservations ++ [(service.nextReservation,
            { key := key, version := version.getD "", upload := none, ranges := []
              committed := false })] }
      else service
  | .upload id contentRange body => (uploadChunk service id contentRange body).1
  | .commit id _ =>
      match service.reservation? id with
      | none => service
      | some reservation => service.setReservation id (settle reservation done answer)
  | .lookup .. | .list .. => service

def answer (cache : Cache) : Event → Option Answer
  | .start .. => none
  | .request index request readings ending =>
      (cache.services[index]?).bind fun service =>
        ending.answerOf (plan service cache.root readings request)

/-- A process that stops leaves the root. -/
def step (cache : Cache) : Event → Cache
  | .start scopeRoot scope mode limits =>
      if limits.maximumEntryBytes = 0 || limits.maximumBytes < limits.maximumEntryBytes then cache
      else { cache with services := cache.services ++
        [{ scopeRoot := scopeRoot, scope := scope, mode := mode, limits := limits }] }
  | .request index request readings ending =>
      match cache.services[index]? with
      | none => cache
      | some service =>
          let planned := plan service cache.root readings request
          { root := ending.rootAfter cache.root planned.ops
            services := if ending.isStop then [] else cache.services.set index
              (serviceAfter service request (ending.succeeding planned.ops)
                (ending.answerOf planned)) }

end Steps

end GitZero.Agent.CacheStore
