/-
Module: GitZero.Agent.ProblemMatchers
Purpose: `problem_matcher.rs`: the matchers that scopes have registered, and how they
  read lines.
Trusted boundary: the regex crate, as `Regexes`, and the files of the workspace, as `Files`
Main exports: ProblemMatcher, ProblemMatcher.compile, ProblemMatcher.matches,
  ProblemMatcherRegistry, addFromFile, removeOwner, removeFromFile, scan, resetScope
-/
import GitZero.Agent.Commands
import GitZero.Workflow.Plan

namespace GitZero.Agent.ProblemMatchers

open Expression (Text toAsciiLowercase trim)
open Commands
open Workflows (BTreeMap)

/-- The regex crate. -/
class Regexes where
  Regex : Type
  build : Text → Option Regex
  capturesLen : Regex → Nat
  /-- `captures`, then `get` on an index -/
  captures : Regex → Text → Option (Nat → Option Text)

export Regexes (Regex)

/-- The path of an existing file relative to the workspace, both canonical. -/
class Files where
  locate : (workspace candidate : Text) → Option Text

/-! ### Configurations -/

/-- One pattern of a matcher file: a regular expression and the groups that hold the parts of an
issue. -/
structure ProblemPatternConfig where
  regexp : Text := []
  file : Option Nat := none
  line : Option Nat := none
  column : Option Nat := none
  severity : Option Nat := none
  code : Option Nat := none
  message : Option Nat := none
  fromPath : Option Nat := none
  loop : Bool := false

/-- One matcher of a matcher file. -/
structure ProblemMatcherConfig where
  owner : Text
  severity : Text := []
  fromPath : Text := []
  pattern : List ProblemPatternConfig

def maxMatchersPerConfig : Nat := 32

def maxMatchersPerJob : Nat := 128

def maxPatternsPerMatcher : Nat := 10

def maxMatcherOwnerBytes : Nat := 256

def maxMatcherRegexBytes : Nat := 16 * 1024

def maxMatcherMessageUtf16Units : Nat := 4096

def maxMatcherTitleBytes : Nat := 255

def hasControl (text : Text) : Bool :=
  text.any fun char => char = '\x00' || char = '\r' || char = '\n'

def validateOwner (owner : Text) : Except String Unit :=
  if owner = [] || byteLength owner > maxMatcherOwnerBytes || hasControl owner then
    .error "problem matcher owner is invalid"
  else .ok ()

def validateSeverity (severity : Text) : Except String Unit :=
  if toAsciiLowercase severity ∈ [[], "error".toList, "warning".toList, "notice".toList] then
    .ok ()
  else .error "problem matcher default severity is unsupported"

section Regexes

variable [Regexes]

/-! ### Captures -/

/-- A pattern with its compiled expression. -/
structure ProblemPattern where
  regex : Regex
  file : Option Nat
  line : Option Nat
  column : Option Nat
  severity : Option Nat
  code : Option Nat
  message : Option Nat
  fromPath : Option Nat
  loop : Bool

/-- What the patterns of a matcher have captured so far. -/
structure CapturedIssue where
  file : Option Text := none
  line : Option Text := none
  column : Option Text := none
  severity : Option Text := none
  code : Option Text := none
  message : Option Text := none
  fromPath : Option Text := none
deriving Repr, DecidableEq

omit [Regexes] in
def capture (captures : Nat → Option Text) (index : Option Nat) : Option Text :=
  index.map fun index => (captures index).getD []

def CapturedIssue.fromCaptures (pattern : ProblemPattern) (captures : Nat → Option Text) :
    CapturedIssue where
  file := capture captures pattern.file
  line := capture captures pattern.line
  column := capture captures pattern.column
  severity := capture captures pattern.severity
  code := capture captures pattern.code
  message := capture captures pattern.message
  fromPath := capture captures pattern.fromPath

def CapturedIssue.merge (issue newer : CapturedIssue) : CapturedIssue where
  file := issue.file.or newer.file
  line := issue.line.or newer.line
  column := issue.column.or newer.column
  severity := issue.severity.or newer.severity
  code := issue.code.or newer.code
  message := issue.message.or newer.message
  fromPath := issue.fromPath.or newer.fromPath

/-- A complete issue, with the owner of the matcher that found it. -/
structure MatchedIssue where
  owner : Text
  captured : CapturedIssue
deriving Repr, DecidableEq

def CapturedIssue.finish (issue : CapturedIssue) (owner defaultSeverity defaultFromPath : Text) :
    MatchedIssue where
  owner := owner
  captured := { issue with
    severity :=
      if issue.severity.all (· = []) && defaultSeverity ≠ [] then some defaultSeverity
      else issue.severity
    fromPath :=
      if issue.fromPath.all (· = []) && defaultFromPath ≠ [] then some defaultFromPath
      else issue.fromPath }

/-! ### Matchers -/

/-- A registered matcher: its patterns, and for each what the lines before have matched. -/
structure ProblemMatcher where
  owner : Text
  defaultSeverity : Text
  defaultFromPath : Text
  patterns : List ProblemPattern
  state : List (Option CapturedIssue)

def ProblemMatcher.reset (matcher : ProblemMatcher) : ProblemMatcher :=
  { matcher with state := matcher.state.map fun _ => none }

/-- `from_captures` on the captures of a line. -/
def ProblemPattern.read (pattern : ProblemPattern) (line : Text) : Option CapturedIssue :=
  (Regexes.captures pattern.regex line).map (CapturedIssue.fromCaptures pattern)

def ProblemMatcher.finish (matcher : ProblemMatcher) (issue : CapturedIssue) : MatchedIssue :=
  issue.finish matcher.owner matcher.defaultSeverity matcher.defaultFromPath

/-- What the patterns before the one at the index have captured. -/
def ProblemMatcher.running (matcher : ProblemMatcher) : Nat → Option CapturedIssue
  | 0 => none
  | index + 1 => matcher.state[index]?.join

def ProblemMatcher.setState (matcher : ProblemMatcher) (index : Nat)
    (issue : Option CapturedIssue) : ProblemMatcher :=
  { matcher with state := matcher.state.set index issue }

/-- The loop of `matches` from the pattern below `count` down to the first one. -/
def ProblemMatcher.matchesFrom (line : Text) :
    (count : Nat) → ProblemMatcher → Option MatchedIssue × ProblemMatcher
  | 0, matcher => (none, matcher)
  | index + 1, matcher =>
      let running := matcher.running index
      if index ≠ 0 && running.isNone then matcher.matchesFrom line index
      else
        match matcher.patterns[index]? with
        -- The index is one of a pattern.
        | none => matcher.matchesFrom line index
        | some pattern =>
            let last := index + 1 = matcher.patterns.length
            match pattern.read line with
            | some captured =>
                let merged := (running.getD {}).merge captured
                if last then
                  (some (matcher.finish merged),
                    if pattern.loop then matcher.reset.setState (index - 1) running
                    else matcher.reset)
                else (matcher.setState index (some merged)).matchesFrom line index
            | none =>
                if last then (matcher.setState (index - 1) none).matchesFrom line index
                else (matcher.setState index none).matchesFrom line index

/-- The matcher reads a line: an issue if it completes one, and its state after the line. -/
def ProblemMatcher.matches (matcher : ProblemMatcher) (line : Text) :
    Option MatchedIssue × ProblemMatcher :=
  match matcher.patterns with
  | [pattern] =>
      ((pattern.read line).map matcher.finish, matcher)
  | patterns => matcher.matchesFrom line patterns.length

/-! ### Compilation -/

/-- The captures that a pattern assigns, under their names. -/
def ProblemPatternConfig.assigned (pattern : ProblemPatternConfig) : List (String × Nat) :=
  [("file", pattern.file), ("line", pattern.line), ("column", pattern.column),
    ("severity", pattern.severity), ("code", pattern.code), ("message", pattern.message),
    ("fromPath", pattern.fromPath)].filterMap fun entry => entry.2.map (entry.1, ·)

def assignCapture (regex : Regex) (assigned : List String) (entry : String × Nat) :
    Except String (List String) :=
  if entry.2 ≥ Regexes.capturesLen regex then
    .error s!"problem matcher capture index for {entry.1} is out of range"
  else if entry.1 ∈ assigned then .error s!"problem matcher assigns {entry.1} more than once"
  else .ok (entry.1 :: assigned)

/-- The loop over the patterns of a matcher; `patternCount` of them in all. -/
def compilePatterns (patternCount : Nat) :
    (index : Nat) → List String → List ProblemPatternConfig →
      Except String (List String × List ProblemPattern)
  | _, assigned, [] => .ok (assigned, [])
  | index, assigned, pattern :: rest =>
      if pattern.loop && (index = 0 || index + 1 ≠ patternCount) then
        .error "only the last pattern in a multiline matcher may loop"
      else if pattern.loop && pattern.message.isNone then
        .error "a looping problem matcher pattern must capture a message"
      else if byteLength pattern.regexp > maxMatcherRegexBytes ||
        pattern.regexp.contains '\x00' then
        .error "problem matcher regular expression is invalid or too large"
      else
        match Regexes.build pattern.regexp with
        | none => .error "compile problem matcher regular expression"
        | some regex => do
            let assigned ← pattern.assigned.foldlM (assignCapture regex) assigned
            let (assigned, patterns) ← compilePatterns patternCount (index + 1) assigned rest
            return (assigned, {
              regex
              file := pattern.file
              line := pattern.line
              column := pattern.column
              severity := pattern.severity
              code := pattern.code
              message := pattern.message
              fromPath := pattern.fromPath
              loop := pattern.loop } :: patterns)

/-- The checks of a matcher, and its patterns compiled. -/
def ProblemMatcher.compile (config : ProblemMatcherConfig) : Except String ProblemMatcher := do
  validateOwner config.owner
  validateSeverity config.severity
  if config.pattern = [] || config.pattern.length > maxPatternsPerMatcher then
    .error "problem matcher must contain a bounded non-empty pattern list"
  else if byteLength config.fromPath > 4096 || config.fromPath.contains '\x00' then
    .error "problem matcher default fromPath is invalid"
  else
    let (assigned, patterns) ← compilePatterns config.pattern.length 0 [] config.pattern
    if "message" ∉ assigned then .error "problem matcher must capture a message"
    else
      return {
        owner := config.owner
        defaultSeverity := config.severity
        defaultFromPath := config.fromPath
        patterns
        state := List.replicate (patterns.length - 1) none }

/-! ### Annotations -/

omit [Regexes] in
/-- The longest prefix whose characters have at most that size together. -/
def truncateBy (size : Char → Nat) : (maximum : Nat) → Text → Text
  | _, [] => []
  | maximum, char :: rest =>
      if size char ≤ maximum then char :: truncateBy size (maximum - size char) rest else []

omit [Regexes] in
def truncateUtf16 (value : Text) (maximumUnits : Nat) : Text :=
  truncateBy (fun char => if char.toNat < 2 ^ 16 then 1 else 2) maximumUnits value

omit [Regexes] in
def truncateUtf8 (value : Text) (maximumBytes : Nat) : Text :=
  truncateBy Char.utf8Size maximumBytes value

omit [Regexes] in
def coordinate (value : Option Text) : Option Nat :=
  (value.bind parseU32).filter fun number => 0 < number && number ≤ 2 ^ 31 - 1

omit [Regexes] in
def slashes (path : Text) : Text := path.map fun char => if char = '\\' then '/' else char

omit [Regexes] in
/-- The directory of a path, without the separator at its end. -/
def parentOf (path : Text) : Text :=
  ((path.reverse.dropWhile (· = '/')).dropWhile (· ≠ '/')).dropWhile (· = '/') |>.reverse

omit [Regexes] in
def joinPath (directory path : Text) : Text := directory ++ '/' :: path

def matcherPath [Files] (file fromPath workspace : Option Text) : Option Text := do
  let workspace ← workspace
  let file := trim (← file)
  if file = [] || hasControl file then none
  else
    let candidate := slashes file
    let candidate :=
      if isAbsolute candidate then candidate
      else
        let candidate :=
          match fromPath.filter fun fromPath => trim fromPath ≠ [] with
          | some fromPath =>
              if parentOf (slashes fromPath) = [] then candidate
              else joinPath (parentOf (slashes fromPath)) candidate
          | none => candidate
        if isAbsolute candidate then candidate else joinPath workspace candidate
    let path := slashes (← Files.locate workspace candidate)
    if path ≠ [] && byteLength path ≤ 4096 then some path else none

omit [Regexes] in
def severityLevel? (severity : Text) : Option CheckAnnotationLevel :=
  if toAsciiLowercase severity = "error".toList then some .failure
  else if toAsciiLowercase severity = "warning".toList then some .warning
  else if toAsciiLowercase severity = "notice".toList then some .notice
  else none

def MatchedIssue.intoAnnotation [Files] (issue : MatchedIssue) (workspace : Option Text) :
    Option CheckAnnotation := do
  let captured := issue.captured
  let annotationLevel ← severityLevel? (captured.severity.getD "error".toList)
  let message ← captured.message
  if trim message = [] then none
  else
    let code := (captured.code.map trim).filter (· ≠ [])
    let startLine := (coordinate captured.line).getD 1
    return {
      path := (matcherPath captured.file captured.fromPath workspace).getD ".github".toList
      startLine
      endLine := startLine
      startColumn := coordinate captured.column
      endColumn := coordinate captured.column
      annotationLevel
      message := truncateUtf16 message maxMatcherMessageUtf16Units
      title := some (truncateUtf8 (code.getD issue.owner) maxMatcherTitleBytes) }

/-! ### The registry -/

/-- The matchers of every scope, and the directories in which their files are looked up. -/
structure ProblemMatcherRegistry where
  fallbackWorkspace : Option Text := none
  workspaces : BTreeMap Text := ∅
  matcherRoot : Option Text := none
  scopes : BTreeMap (List ProblemMatcher) := ∅

namespace ProblemMatcherRegistry

variable (registry : ProblemMatcherRegistry)

def new (workspace matcherRoot : Text) : ProblemMatcherRegistry where
  fallbackWorkspace := some workspace
  matcherRoot := some matcherRoot

def registerWorkspace (scope : String) (workspace : Text) : ProblemMatcherRegistry :=
  { registry with workspaces := registry.workspaces.insert scope workspace }

def workspace (scope : String) : Option Text :=
  (registry.workspaces[scope]?).or registry.fallbackWorkspace

/-- `read_config`; `file` is what the file system and the JSON parser answer behind the
first checks. -/
def readConfig (scope : String) (path : Text)
    (file : Except String (List ProblemMatcherConfig)) :
    Except String (List ProblemMatcherConfig) :=
  if path = [] || byteLength path > 4096 || hasControl path then
    .error "problem matcher file path is invalid"
  else if (registry.workspace scope).isNone then
    .error "problem matcher workspace is unavailable"
  else if registry.matcherRoot.isNone then .error "problem matcher root is unavailable"
  else file

/-- The loop that compiles the matchers of a file, whose owners must differ. -/
def compileAll (owners : List Text) :
    List ProblemMatcherConfig → Except String (List ProblemMatcher)
  | [] => .ok []
  | config :: rest => do
      let compiled ← ProblemMatcher.compile config
      if toAsciiLowercase compiled.owner ∈ owners then
        .error "problem matcher file contains a duplicate owner"
      else return compiled :: (← compileAll (toAsciiLowercase compiled.owner :: owners) rest)

/-- What `add_from_file` does before it looks at the registered matchers. -/
def newMatchers (scope : String) (path : Text)
    (file : Except String (List ProblemMatcherConfig)) : Except String (List ProblemMatcher) := do
  let config ← registry.readConfig scope path file
  if config.length > maxMatchersPerConfig then
    .error "problem matcher file contains too many matchers"
  else compileAll [] config

def retained (matchers active : List ProblemMatcher) : List ProblemMatcher :=
  active.filter fun matcher =>
    toAsciiLowercase matcher.owner ∉ matchers.map (toAsciiLowercase ·.owner)

/-- The active matchers are drained before their number is checked. -/
def addFromFile (scope : String) (path : Text)
    (file : Except String (List ProblemMatcherConfig)) :
    ProblemMatcherRegistry × Except String Unit :=
  match registry.newMatchers scope path file with
  | .error error => (registry, .error error)
  | .ok [] => (registry, .ok ())
  | .ok matchers =>
      let kept := retained matchers ((registry.scopes[scope]?).getD [])
      if matchers.length + kept.length > maxMatchersPerJob then
        ({ registry with scopes := registry.scopes.insert scope [] },
          .error "job registered too many problem matchers")
      else ({ registry with scopes := registry.scopes.insert scope (matchers ++ kept) }, .ok ())

/-- A change of the matchers of a scope that has some. -/
def alter (scope : String) (change : List ProblemMatcher → List ProblemMatcher) :
    ProblemMatcherRegistry :=
  match registry.scopes[scope]? with
  | none => registry
  | some matchers => { registry with scopes := registry.scopes.insert scope (change matchers) }

/-- Takes the matchers of an owner out of a scope. -/
def removeOwner (scope : String) (owner : Text) : ProblemMatcherRegistry × Except String Unit :=
  match validateOwner owner with
  | .error error => (registry, .error error)
  | .ok () =>
      (registry.alter scope (·.filter fun matcher =>
        toAsciiLowercase matcher.owner ≠ toAsciiLowercase owner), .ok ())

def fileOwners (scope : String) (path : Text)
    (file : Except String (List ProblemMatcherConfig)) : Except String (List Text) := do
  let config ← registry.readConfig scope path file
  if config.length > maxMatchersPerConfig then
    .error "problem matcher file contains too many matchers"
  else
    config.mapM fun matcher => do
      validateOwner matcher.owner
      return toAsciiLowercase matcher.owner

/-- Takes the matchers of all owners of a file out of a scope. -/
def removeFromFile (scope : String) (path : Text)
    (file : Except String (List ProblemMatcherConfig)) :
    ProblemMatcherRegistry × Except String Unit :=
  match registry.fileOwners scope path file with
  | .error error => (registry, .error error)
  | .ok owners =>
      (registry.alter scope (·.filter fun matcher => toAsciiLowercase matcher.owner ∉ owners),
        .ok ())

/-- The matchers of a scope forget the lines before. -/
def resetScope (scope : String) : ProblemMatcherRegistry :=
  registry.alter scope (·.map ProblemMatcher.reset)

end ProblemMatcherRegistry

omit [Regexes] in
/-- `replace_all` of the colour codes by nothing; behind the introducer of one if `inCode`. -/
def stripAnsiColorFrom (inCode : Bool) : Text → Text
  | [] => []
  | '\x1b' :: '[' :: rest => stripAnsiColorFrom true rest
  | char :: rest =>
      if inCode && (char.isDigit || char = ';') then stripAnsiColorFrom true rest
      else if inCode && char = 'm' then stripAnsiColorFrom false rest
      else char :: stripAnsiColorFrom false rest

omit [Regexes] in
def stripAnsiColor (line : Text) : Text := stripAnsiColorFrom false line

section Scan

variable [Files]

/-- The loop of `scan`, behind the matchers that have read the line.  A match resets all
the others. -/
def scanMatchers (workspace : Option Text) (line : Text) (done : List ProblemMatcher) :
    List ProblemMatcher → Option CheckAnnotation × List ProblemMatcher
  | [] => (none, done)
  | matcher :: rest =>
      match matcher.matches line with
      | (none, matcher) => scanMatchers workspace line (done ++ [matcher]) rest
      | (some issue, matcher) =>
          let done := done.map ProblemMatcher.reset ++ [matcher]
          let rest := rest.map ProblemMatcher.reset
          match issue.intoAnnotation workspace with
          | some note => (some note, done ++ rest)
          | none => scanMatchers workspace line done rest
termination_by matchers => matchers.length

/-- A line against the matchers of its scope; the first issue is reported. -/
def ProblemMatcherRegistry.scan (registry : ProblemMatcherRegistry) (scope : String) (line : Text) :
    Option CheckAnnotation × ProblemMatcherRegistry :=
  match registry.scopes[scope]? with
  | none => (none, registry)
  | some matchers =>
      let (note, matchers) :=
        scanMatchers (registry.workspace scope) (stripAnsiColor line) [] matchers
      (note, { registry with scopes := registry.scopes.insert scope matchers })

end Scan

end Regexes

end GitZero.Agent.ProblemMatchers
