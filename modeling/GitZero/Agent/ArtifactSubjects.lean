/-
Module: GitZero.Agent.ArtifactSubjects
Purpose: The artifact subjects that the steps of a job declare: how a declaration file is read,
  and how its subjects come into the aggregate that all steps of the job share.
Trusted boundary: SHA-256 and the file system, as it is while one file is read, are parameters
Main exports: ArtifactSubject, parseLine, readDeclarations, insertSubjects, declare, process,
  captureStep
-/
import GitZero.Agent.Artifacts
import GitZero.Agent.CommandProcessor

namespace GitZero.Agent.ArtifactSubjects

open Artifacts (Bytes Sha256 hexDigest)
open Commands
open CommandProcessor (fromUtf8Lossy)
open Expression (Text trim toAsciiLowercase)
open GitZero.Splits (splitOnce)
open Workflows (BTreeMap)

def maxArtifactsFileBytes : Nat := 1024 * 1024

def maxArtifactSubjects : Nat := 500

/-- Whether a subject was declared as a file or as an image of a registry. -/
inductive ArtifactSubjectKind where
  | file
  | oci
deriving Repr, DecidableEq

/-- What a step declares: a name and the digest that goes with it. -/
structure ArtifactSubject where
  name : String
  digest : String
  kind : ArtifactSubjectKind
deriving Repr, DecidableEq

/-- How many subjects one declaration file has added, and how many there are. -/
structure ArtifactCapture where
  added : Nat
  total : Nat
deriving Repr, DecidableEq

/-! ### Files -/

/-- What `Metadata::is_file` and `Metadata::is_dir` tell apart. -/
inductive FileKind where
  | file
  | directory
  | other
deriving Repr, DecidableEq

/-- The parts of `std::fs::Metadata` that are looked at. -/
structure Metadata where
  kind : FileKind
  length : Nat

/-- `std::io::Error`, of the kind `NotFound` or not. -/
structure FileError where
  notFound : Bool
  message : String

/-- What the file system answers while a declaration file is read. -/
structure FileSystem where
  metadata : Text → Except FileError Metadata
  /-- `File::open`, and how reading the file to its end goes. -/
  openFile : Text → Except FileError (Except FileError Bytes)

/-- `tokio::fs::read` -/
def FileSystem.read (files : FileSystem) (path : Text) : Except FileError Bytes :=
  (files.openFile path).bind id

/-- The components of `normalize_path`, pushed one after the other. -/
def normalizePath (normalized : List Component) : List Component → List Component
  | [] => normalized
  | .curDir :: rest => normalizePath normalized rest
  | .parentDir :: rest =>
      -- `pop` leaves the root.
      normalizePath (if normalized = [.rootDir] then normalized else normalized.dropLast) rest
  | component :: rest => normalizePath (normalized ++ [component]) rest

def componentText : Component → Text
  | .normal name => name
  | .parentDir => ['.', '.']
  | .curDir => ['.']
  | .rootDir => []

/-- The path as it is spelled. -/
def spellPath (normalized : List Component) : Text :=
  if normalized = [.rootDir] then ['/'] else ['/'].intercalate (normalized.map componentText)

/-- `join` with a relative path -/
def joinPath (workspace declared : Text) : Text :=
  if workspace = [] || workspace.getLast? = some '/' then workspace ++ declared
  else workspace ++ '/' :: declared

/-- `file_name` -/
def fileName (path : Text) : Option Text :=
  match (components path).getLast? with
  | some (.normal name) => some name
  | _ => none

/-- An error in its context, as `{error:#}` spells it. -/
def inContext {α : Type} (context : String) (result : Except String α) : Except String α :=
  result.mapError fun error => s!"{context}: {error}"

def ofFile {α : Type} (context : String) (result : Except FileError α) : Except String α :=
  inContext context (result.mapError FileError.message)

section Lines

variable [Sha256] (files : FileSystem) (workspace : Text)

def fileSubject (declaredPath : Text) : Except String ArtifactSubject := do
  let declared := String.ofList declaredPath
  let path :=
    if isAbsolute declaredPath then declaredPath
    else spellPath (normalizePath [] (components (joinPath workspace declaredPath)))
  match files.metadata path with
  | .error error =>
      if !error.notFound then .error s!"inspect '{String.ofList path}': {error.message}"
      else if isAbsolute declaredPath then .error s!"file '{declared}' does not exist"
      else .error (s!"file '{declared}' does not exist (relative paths are resolved against the " ++
        s!"workspace root '{String.ofList workspace}')")
  | .ok metadata =>
      match metadata.kind with
      | .directory => .error s!"'{declared}' is a directory, not a regular file"
      | .other => .error s!"'{declared}' is not a regular file"
      | .file =>
          match fileName path with
          | none => .error "artifact file path does not have a file name"
          | some name =>
              let file ← ofFile s!"open artifact file {String.ofList path}" (files.openFile path)
              let contents ← ofFile s!"hash artifact file {String.ofList path}" file
              return {
                name := String.ofList name
                digest := "sha256:" ++ hexDigest contents
                kind := .file }

def hasUriScheme (value : Text) : Bool :=
  match splitOnce "://".toList value with
  | some (first :: rest, _) =>
      first.isAlpha && rest.all fun char => char.isAlphanum || ['+', '.', '-'].contains char
  | _ => false

/-- `rsplit_once` at a character -/
def rsplitOnce (separator : Char) (text : Text) : Option (Text × Text) :=
  (splitOnce [separator] text.reverse).map fun (after, before) => (before.reverse, after.reverse)

def isAsciiHexDigit (char : Char) : Bool :=
  char.isDigit || ('a' ≤ char && char ≤ 'f') || ('A' ≤ char && char ≤ 'F')

def expectedHexLength (algorithm : Text) : Option Nat :=
  if algorithm = "sha256".toList then some 64
  else if algorithm = "sha384".toList then some 96
  else if algorithm = "sha512".toList then some 128
  else none

/-- The reference, the algorithm and the digits. -/
def parseOci (value : Text) : Option (Text × Text × Text) := do
  let (reference, digest) ← rsplitOnce '@' value
  let (algorithm, hex) ← splitOnce [':'] digest
  if reference = [] || (expectedHexLength algorithm).isNone || hex = [] ||
      !hex.all isAsciiHexDigit then none
  else return (reference, algorithm, hex)

def ociSubject (reference algorithm hex : Text) : Except String ArtifactSubject :=
  match expectedHexLength algorithm with
  | none => .error "unsupported OCI digest algorithm"
  | some expected =>
      if byteLength hex ≠ expected then
        .error (s!"digest '{String.ofList algorithm}' must be {expected} hex characters, " ++
          s!"got {byteLength hex}")
      else .ok {
        name := String.ofList reference
        digest := String.ofList (algorithm ++ ':' :: toAsciiLowercase hex)
        kind := .oci }

/-- One declared line: a file, with or without `file://`, or an image with its digest. -/
def parseLine (line : Text) : Except String ArtifactSubject :=
  if line.contains '=' then .error "entries containing '=' are reserved and not permitted"
  else
    match stripPrefixIgnoreAsciiCase line "file://".toList with
    | some path =>
        if trim path = [] then .error "file:// entries must include a path"
        else fileSubject files workspace path
    | none =>
        match stripPrefixIgnoreAsciiCase line "oci://".toList with
        | some value =>
            match parseOci value with
            | none => .error
                "oci:// entries must include an @sha\x7b256,384,512\x7d:<hex> digest"
            | some (reference, algorithm, hex) => ociSubject reference algorithm hex
        | none =>
            if hasUriScheme line then .error "unsupported URI scheme"
            else
              match parseOci line with
              | some (reference, algorithm, hex) =>
                  if expectedHexLength algorithm = some (byteLength hex) then
                    ociSubject reference algorithm hex
                  else fileSubject files workspace line
              | none => fileSubject files workspace line

/-- A declaration, with the number of its line. -/
abbrev Declaration := Nat × Text

def parseDeclaration (declaration : Declaration) : Except String (Nat × ArtifactSubject) :=
  (inContext s!"invalid $GITHUB_ARTIFACTS line {declaration.1}"
    (parseLine files workspace declaration.2)).map (declaration.1, ·)

/-- The loop over the lines, without the aggregate. -/
def parseDeclarations (declarations : List Declaration) :
    Except String (List (Nat × ArtifactSubject)) :=
  declarations.mapM (parseDeclaration files workspace)

end Lines

/-! ### Declaration files -/

/-- Lines end at `\n`, `\r` or both; `line` is the one that is read. -/
def runnerLines (line : Text) : Text → List Text
  | [] => if line = [] then [] else [line]
  | '\r' :: '\n' :: rest => line :: runnerLines [] rest
  | char :: rest =>
      if char = '\n' || char = '\r' then line :: runnerLines [] rest
      else runnerLines (line ++ [char]) rest

/-- The lines that are neither empty nor comments, with their numbers. -/
def declaredLines (contents : Text) : List Declaration :=
  ((runnerLines [] contents).zipIdx.map fun (raw, index) => (index + 1, trim raw)).filter
    fun declaration => declaration.2 ≠ [] && declaration.2.head? ≠ some '#'

def stripBom (contents : Bytes) : Bytes :=
  if [0xEF, 0xBB, 0xBF] <+: contents then contents.drop 3 else contents

/-- A file that is missing or empty declares nothing. -/
def readDeclarations (files : FileSystem) (path : Text) : Except String (List Declaration) :=
  match files.metadata path with
  | .error error =>
      if error.notFound then .ok []
      else .error s!"inspect {String.ofList path}: {error.message}"
  | .ok metadata =>
      if metadata.length = 0 then .ok []
      else if metadata.length > maxArtifactsFileBytes then
        .error (s!"$GITHUB_ARTIFACTS file exceeds the {maxArtifactsFileBytes / 1024} KiB limit " ++
          s!"({metadata.length / 1024} KiB)")
      else
        (ofFile s!"read {String.ofList path}" (files.read path)).map fun contents =>
          declaredLines (fromUtf8Lossy (stripBom contents))

/-! ### The aggregate -/

/-- The subjects of a job, by name. -/
abbrev Aggregate := BTreeMap ArtifactSubject

/-- The loop that holds the lock; `added` counts the subjects so far. -/
def insertSubjects (added : Nat) (aggregate : Aggregate) :
    List (Nat × ArtifactSubject) → Aggregate × Except String ArtifactCapture
  | [] => (aggregate, .ok { added, total := aggregate.size })
  | (line, subject) :: rest =>
      match aggregate[subject.name]? with
      | some existing =>
          if existing.digest = subject.digest then insertSubjects added aggregate rest
          else (aggregate, .error (s!"invalid $GITHUB_ARTIFACTS line {line}: subject " ++
            s!"'{subject.name}' conflicts with digest '{existing.digest}' already declared for " ++
            s!"that name (new digest '{subject.digest}')"))
      | none =>
          if aggregate.size ≥ maxArtifactSubjects then
            (aggregate, .error (s!"invalid $GITHUB_ARTIFACTS line {line}: a job may declare at " ++
              s!"most {maxArtifactSubjects} artifact subjects"))
          else insertSubjects (added + 1) (aggregate.insert subject.name subject) rest

section Declarations

variable [Sha256]

/-- The declarations of one file, from the parsing of their lines on. -/
def declare (files : FileSystem) (workspace : Text) (declarations : List Declaration)
    (aggregate : Aggregate) : Aggregate × Except String ArtifactCapture :=
  match parseDeclarations files workspace declarations with
  | .error error => (aggregate, .error error)
  | .ok parsed => insertSubjects 0 aggregate parsed

/-- A declaration file from its reading to the aggregate, where nothing comes between. -/
def process (enabled : Bool) (files : FileSystem) (workspace path : Text)
    (aggregate : Aggregate) : Aggregate × Except String ArtifactCapture :=
  if !enabled then (aggregate, .ok { added := 0, total := 0 })
  else
    match readDeclarations files path with
    | .error error => (aggregate, .error error)
    | .ok declarations => declare files workspace declarations aggregate

/-! ### Processes side by side -/

/-- A process that has read its lines and waits for the lock. -/
structure Waiting (workspace : Text) where
  id : Nat
  files : FileSystem
  declarations : List Declaration
  parsed : List (Nat × ArtifactSubject)
  isParsed : parseDeclarations files workspace declarations = .ok parsed

/-- The aggregate of a job, with the processes that read their lines and those that ended. -/
structure Job (workspace : Text) where
  aggregate : Aggregate := ∅
  waiting : List (Waiting workspace) := []
  results : List (Nat × Except String ArtifactCapture) := []

/-- A step reads and parses its declaration file, or inserts what it has read under the lock. -/
inductive CaptureEvent where
  | read (id : Nat) (files : FileSystem) (path : Text)
  | insert (id : Nat)

variable {workspace : Text}

def readStep (job : Job workspace) (id : Nat) (files : FileSystem) (path : Text) : Job workspace :=
  match readDeclarations files path with
  | .error error => { job with results := job.results ++ [(id, .error error)] }
  | .ok declarations =>
      match isParsed : parseDeclarations files workspace declarations with
      | .error error => { job with results := job.results ++ [(id, .error error)] }
      | .ok parsed =>
          { job with waiting := job.waiting ++ [{ id, files, declarations, parsed, isParsed }] }

/-- Files are read and parsed before the lock is taken; subjects are inserted under it. -/
def captureStep (job : Job workspace) : CaptureEvent → Job workspace
  | .read id files path => readStep job id files path
  | .insert id =>
      match job.waiting.find? (·.id = id) with
      | none => job
      | some waiting =>
          let inserted := insertSubjects 0 job.aggregate waiting.parsed
          { aggregate := inserted.1
            waiting := job.waiting.filter (·.id ≠ id)
            results := job.results ++ [(id, inserted.2)] }

end Declarations

end GitZero.Agent.ArtifactSubjects
