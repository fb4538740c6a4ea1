/-
Module: GitZero.ControlPlane.GithubChecks
Purpose: The annotations of a completed check run, and how an update that is repeated after a
  failure avoids to publish one twice.
Trusted boundary: GitHub keeps the annotations of a check run in order and returns them as it
  received them
Main exports: CheckAnnotation, checkAnnotationSchema, missingCheckAnnotations,
  fetchCheckAnnotations, Attempt, updateCheckRun
-/
import GitZero.ControlPlane.EventChunks
import GitZero.Lib.Multiplicity

namespace GitZero.ControlPlane

open Multiplicity

/-- `annotation_level` of the Checks API. -/
inductive AnnotationLevel where
  | notice
  | warning
  | failure
deriving Repr, DecidableEq

def AnnotationLevel.text : AnnotationLevel → String
  | .notice => "notice"
  | .warning => "warning"
  | .failure => "failure"

/-- An annotation as the agent has sent it. -/
@[ext]
structure CheckAnnotation where
  path : String
  startLine : Nat
  endLine : Nat
  startColumn : Option Nat
  endColumn : Option Nat
  annotationLevel : AnnotationLevel
  message : String
  title : Option String
deriving Repr, DecidableEq

/-! ### The schema -/

def annotationCoordinate (value : Nat) : Bool := 1 ≤ value && value ≤ 2147483647

def isSeparator (char : Char) : Bool := char = '\\' || char = '/'

/-- `/^[A-Za-z]:[\\/]/` -/
def startsWithDrive : List Char → Bool
  | letter :: colon :: separator :: _ => letter.isAlpha && colon = ':' && isSeparator separator
  | _ => false

def repositoryRelative (path : List Char) : Bool :=
  path.head? ≠ some '/' && !startsWithDrive path &&
    path.all (fun char => char ≠ '\x00' && char ≠ '\r' && char ≠ '\n') &&
    (path.splitOnP isSeparator).all fun component => component ≠ ['.', '.'] && component ≠ []

/-- The refinements of the whole annotation. -/
def coordinatesAgree (note : CheckAnnotation) : Bool :=
  !(note.endLine < note.startLine) &&
    note.startColumn.isNone = note.endColumn.isNone &&
    !(note.startLine ≠ note.endLine &&
      (note.startColumn.isSome || note.endColumn.isSome)) &&
    (match note.startColumn, note.endColumn with
      | some start, some stop => !(stop < start)
      | _, _ => true)

/-- The checks of an annotation that an agent sends. -/
def checkAnnotationSchema (note : CheckAnnotation) : Option CheckAnnotation :=
  if note.path ≠ "" && note.path.utf8ByteSize ≤ 4096 &&
      repositoryRelative note.path.toList && annotationCoordinate note.startLine &&
      annotationCoordinate note.endLine && note.startColumn.all annotationCoordinate &&
      note.endColumn.all annotationCoordinate && note.message ≠ "" &&
      note.message.utf8ByteSize ≤ 65536 &&
      note.title.all (fun title => title.utf8ByteSize ≤ 255) &&
      coordinatesAgree note then some note
  else none

/-- The annotations of a `job_finished` message: at most 50, each accepted by the schema. -/
structure JobAnnotations where
  annotations : List CheckAnnotation
  accepted : ∀ note ∈ annotations, checkAnnotationSchema note = some note
  atMost : annotations.length ≤ 50

/-! ### Which annotations are missing -/

def jsonText (text : String) : Json := .string (text.toList.map .scalar)

theorem toDigits_plain (value : Nat) :
    ∀ char ∈ Nat.toDigits 10 value, Utf16.astral char = false := by
  intro char member
  have digit := Nat.isDigit_of_mem_toDigits (by decide) (by decide) member
  simp only [Char.isDigit, Bool.and_eq_true, decide_eq_true_eq, UInt32.le_iff_toNat_le] at digit
  have small : char.toNat ≤ 57 := digit.2
  simp only [Utf16.astral, decide_eq_false_iff_not]
  omega

def jsonCount (value : Nat) : Json :=
  .number { text := Nat.toDigits 10 value, ascii := toDigits_plain value }

/-- `value ?? null` -/
def jsonNullable {α : Type} (print : α → Json) : Option α → Json
  | none => .null
  | some value => print value

def checkAnnotationKey (note : CheckAnnotation) : List Char :=
  (Json.array [jsonText note.path, jsonCount note.startLine,
    jsonCount note.endLine, jsonNullable jsonCount note.startColumn,
    jsonNullable jsonCount note.endColumn, jsonText note.annotationLevel.text,
    jsonText note.message, jsonNullable jsonText note.title]).stringify

/-- What is left of the wanted annotations when those that exist are taken off one by one. -/
def missingCheckAnnotations (desired existing : List CheckAnnotation) : List CheckAnnotation :=
  surplus checkAnnotationKey (tally checkAnnotationKey existing) desired

/-! ### The check run on GitHub -/

/-- An annotation as GitHub has it; a column or a title may be absent. -/
structure GithubAnnotation where
  path : String
  startLine : Nat
  endLine : Nat
  startColumn : Option Nat := none
  endColumn : Option Nat := none
  annotationLevel : AnnotationLevel
  message : String
  title : Option String := none
deriving Repr, DecidableEq

def githubCheckAnnotation (note : CheckAnnotation) : GithubAnnotation :=
  let object : GithubAnnotation :=
    { path := note.path
      startLine := note.startLine
      endLine := note.endLine
      annotationLevel := note.annotationLevel
      message := note.message }
  let object := match note.startColumn with
    | none => object
    | some start => { object with startColumn := some start, endColumn := note.endColumn }
  match note.title with
    | none => object
    | some title => { object with title := some title }

/-- What is absent is null. -/
def GithubAnnotation.nullable (note : GithubAnnotation) : CheckAnnotation where
  path := note.path
  startLine := note.startLine
  endLine := note.endLine
  startColumn := note.startColumn
  endColumn := note.endColumn
  annotationLevel := note.annotationLevel
  message := note.message
  title := note.title

/-- The first page of the annotations, parsed. -/
def fetchCheckAnnotations (published : List GithubAnnotation) : Option (List CheckAnnotation) :=
  (published.take 100).mapM fun note => checkAnnotationSchema note.nullable

/-- How the requests of one update end. -/
inductive Attempt where
  /-- A request before the `PATCH` fails. -/
  | unsent
  /-- The `PATCH` fails without effect. -/
  | lost
  /-- The `PATCH` takes effect and its response is lost. -/
  | ambiguous
  | acknowledged
deriving Repr, DecidableEq

def Attempt.applies : Attempt → Bool
  | .unsent => false
  | .lost => false
  | .ambiguous => true
  | .acknowledged => true

/-- The annotations of the `PATCH` of a completed check run; `none` where the function throws
before. -/
def annotationsToPublish (annotations : List CheckAnnotation)
    (published : List GithubAnnotation) : Option (List CheckAnnotation) :=
  if annotations.length > 0 then
    (fetchCheckAnnotations published).map (missingCheckAnnotations annotations)
  else some []

/-- A completed update: the annotations on GitHub after it and whether it returns. -/
def updateCheckRun (annotations : List CheckAnnotation) (published : List GithubAnnotation)
    (attempt : Attempt) : List GithubAnnotation × Bool :=
  match annotationsToPublish annotations published with
  | none => (published, false)
  | some missing =>
      if attempt.applies then
        (published ++ missing.map githubCheckAnnotation, attempt = .acknowledged)
      else (published, false)

/-- The annotations on GitHub after a sequence of updates of a new check run. -/
def updateCheckRuns (annotations : List CheckAnnotation) (attempts : List Attempt) :
    List GithubAnnotation :=
  attempts.foldl (fun published attempt => (updateCheckRun annotations published attempt).1) []

end GitZero.ControlPlane
