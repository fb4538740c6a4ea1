/-
Module: GitZero.Workflow.Triggers
Purpose: Which pull request events a workflow is started by: the filters of the
  trigger `pull_request`, and whether they need the list of the changed files.
Trusted boundary: the regex crate, as `RegexCrate`
Main exports: matchesPullRequestTrigger, matchesPullRequest,
  requiresPullRequestChangedPaths
-/
import GitZero.Workflow.Globs

namespace GitZero.Workflows

open Expression (Text)

def isDefaultAction (action : String) : Bool :=
  action = "opened" || action = "synchronize" || action = "reopened"

def valueContainsString (value : Value) (expected : String) : Bool :=
  match value with
  | .string value => value = expected
  | .sequence values => values.any fun value => value.asStr = some expected
  | _ => false

/-! ### Patterns -/

def stringEntry (workflow filter : String) (value : Value) : Outcome String :=
  match value.asStr with
  | some text => .ok text
  | none => unsupportedWorkflow workflow s!"pull_request {filter} entries must be strings"

def stringEntries (value : Value) (workflow filter : String) : Outcome (List String) :=
  match value with
  | .string value => .ok [value]
  | .sequence values => values.mapM (stringEntry workflow filter)
  | _ => unsupportedWorkflow workflow s!"pull_request {filter} must be a string or list"

def stringValues (value : Value) (workflow filter : String) : Outcome (List String) := do
  let values ← stringEntries value workflow filter
  if values.isEmpty then unsupportedWorkflow workflow s!"pull_request {filter} cannot be empty"
  else return values

/-- `starts_with('!')`, and what `strip_prefix('!')` leaves. -/
def negated (pattern : String) : Bool × String :=
  match pattern.toList with
  | '!' :: rest => (true, String.ofList rest)
  | _ => (false, pattern)

section Triggers

variable [RegexCrate]

def compileIgnoredPattern (workflow filter pattern : String) : Outcome Regex :=
  if (negated pattern).1 then
    unsupportedWorkflow workflow s!"pull_request {filter} does not accept negative patterns"
  else compileGlob pattern workflow filter

def compileIgnoredPatterns (value : Value) (workflow filter : String) : Outcome (List Regex) := do
  let patterns ← stringValues value workflow filter
  patterns.mapM (compileIgnoredPattern workflow filter)

def matchesIgnored (patterns : List Regex) (candidate : String) : Bool :=
  patterns.any fun pattern => RegexCrate.isMatch pattern candidate.toList

def matchesIgnoredPattern (value : Value) (candidate workflow filter : String) : Outcome Bool := do
  let patterns ← compileIgnoredPatterns value workflow filter
  return matchesIgnored patterns candidate

def compileOrderedPattern (workflow filter pattern : String) : Outcome (Bool × Regex) :=
  if (negated pattern).2 = "" then
    unsupportedWorkflow workflow s!"pull_request {filter} contains an empty pattern"
  else do
    let compiled ← compileGlob (negated pattern).2 workflow filter
    return ((negated pattern).1, compiled)

def compileOrderedPatterns (value : Value) (workflow filter : String) :
    Outcome (List (Bool × Regex)) := do
  let patterns ← stringValues value workflow filter
  if patterns.any fun pattern => !(negated pattern).1 then
    patterns.mapM (compileOrderedPattern workflow filter)
  else
    unsupportedWorkflow workflow s!"pull_request {filter} must contain a positive pattern"

/-- The last pattern that matches decides. -/
def matchesCompiledOrderedPatterns (patterns : List (Bool × Regex)) (candidate : String) : Bool :=
  patterns.foldl (fun included pattern =>
    if RegexCrate.isMatch pattern.2 candidate.toList then !pattern.1 else included) false

def matchesOrderedPatterns (value : Value) (candidate workflow filter : String) :
    Outcome Bool := do
  let patterns ← compileOrderedPatterns value workflow filter
  return matchesCompiledOrderedPatterns patterns candidate

def matchesAnyOrderedPath (value : Value) (changedPaths : List String)
    (workflow filter : String) : Outcome Bool := do
  let patterns ← compileOrderedPatterns value workflow filter
  return changedPaths.any (matchesCompiledOrderedPatterns patterns)

/-! ### Filters -/

/-- `if !first { return Ok(false) }` in front of the rest. -/
def andAlso (first second : Outcome Bool) : Outcome Bool := do
  if ← first then second else return false

def isPullRequestFilter (key : Value) : Bool :=
  match key.asStr with
  | some key => ["types", "branches", "branches-ignore", "paths", "paths-ignore"].contains key
  | none => false

def validateFilters (options : List (Value × Value)) (workflow : String) : Outcome Unit :=
  match options.find? fun entry => !isPullRequestFilter entry.1 with
  | some (key, _) =>
      let name := key.asStr.getD "non-string"
      unsupportedWorkflow workflow s!"pull_request filter '{name}' is not supported yet"
  | none =>
      if (getKey "branches" options).isSome && (getKey "branches-ignore" options).isSome then
        unsupportedWorkflow workflow "pull_request cannot define both branches and branches-ignore"
      else if (getKey "paths" options).isSome && (getKey "paths-ignore" options).isSome then
        unsupportedWorkflow workflow "pull_request cannot define both paths and paths-ignore"
      else .ok ()

def actionMatches (options : List (Value × Value)) (action : String) : Bool :=
  match getKey "types" options with
  | none => isDefaultAction action
  | some types => valueContainsString types action

def branchesMatch (options : List (Value × Value)) (baseRef workflow : String) : Outcome Bool :=
  match getKey "branches" options with
  | none => .ok true
  | some branches => matchesOrderedPatterns branches baseRef workflow "branches"

def branchesPass (options : List (Value × Value)) (baseRef workflow : String) : Outcome Bool :=
  match getKey "branches-ignore" options with
  | none => .ok true
  | some ignored => do
      let ignores ← matchesIgnoredPattern ignored baseRef workflow "branches-ignore"
      return !ignores

def pathsMatch (options : List (Value × Value)) (changedPaths : List String) (workflow : String) :
    Outcome Bool :=
  match getKey "paths" options with
  | none => .ok true
  | some paths => matchesAnyOrderedPath paths changedPaths workflow "paths"

def pathsPass (options : List (Value × Value)) (changedPaths : List String) (workflow : String) :
    Outcome Bool :=
  match getKey "paths-ignore" options with
  | none => .ok true
  | some ignored => do
      let patterns ← compileIgnoredPatterns ignored workflow "paths-ignore"
      return !changedPaths.all (matchesIgnored patterns)

def hasPathFilter (options : List (Value × Value)) : Bool :=
  (getKey "paths" options).isSome || (getKey "paths-ignore" options).isSome

def changedPathsPass (options : List (Value × Value)) (changedPaths : Option (List String))
    (workflow : String) : Outcome Bool :=
  if hasPathFilter options then
    match changedPaths with
    | none =>
        unsupportedWorkflow workflow "pull_request path filters require the changed-file list"
    | some [] => .ok false
    | some paths => andAlso (pathsMatch options paths workflow) (pathsPass options paths workflow)
  else .ok true

def matchesFilters (options : List (Value × Value)) (action baseRef : String)
    (changedPaths : Option (List String)) (workflow : String) : Outcome Bool := do
  validateFilters options workflow
  andAlso (.ok (actionMatches options action)) <|
    andAlso (branchesMatch options baseRef workflow) <|
      andAlso (branchesPass options baseRef workflow)
        (changedPathsPass options changedPaths workflow)

def matchesConfiguration (configuration : Value) (action baseRef : String)
    (changedPaths : Option (List String)) (workflow : String) : Outcome Bool :=
  match configuration with
  | .null => .ok (isDefaultAction action)
  | .mapping options => matchesFilters options action baseRef changedPaths workflow
  | _ =>
      unsupportedWorkflow workflow "pull_request trigger configuration must be a mapping"

/-! ### Triggers -/

mutual

/-- `on`, as a name, a list of names or a mapping. -/
def matchesPullRequestTrigger (action baseRef : String) (changedPaths : Option (List String))
    (workflow : String) : Value → Outcome Bool
  | .string value => .ok (value = "pull_request" && isDefaultAction action)
  | .sequence values => matchesAnyTrigger action baseRef changedPaths workflow values
  | .mapping values =>
      match getKey "pull_request" values with
      | none => .ok false
      | some configuration =>
          matchesConfiguration configuration action baseRef changedPaths workflow
  | .null => .ok false
  | .bool _ => .ok false
  | .number _ => .ok false
  | .tagged _ _ => .ok false

/-- The loop over the entries of a sequence. -/
def matchesAnyTrigger (action baseRef : String) (changedPaths : Option (List String))
    (workflow : String) : List Value → Outcome Bool
  | [] => .ok false
  | value :: rest => do
      if ← matchesPullRequestTrigger action baseRef changedPaths workflow value then return true
      else matchesAnyTrigger action baseRef changedPaths workflow rest

end

/-- Whether a pull request starts the workflow. -/
def matchesPullRequest (workflow : Workflow) (action baseRef : String)
    (changedPaths : Option (List String)) : Outcome Bool :=
  matchesPullRequestTrigger action baseRef changedPaths workflow.name workflow.trigger

end Triggers

mutual

def triggerHasPullRequestPathFilter : Value → Bool
  | .sequence values => anyTriggerHasPathFilter values
  | .mapping values =>
      match (getKey "pull_request" values).bind Value.asMapping with
      | some options => hasPathFilter options
      | none => false
  | .null => false
  | .bool _ => false
  | .number _ => false
  | .string _ => false
  | .tagged _ _ => false

def anyTriggerHasPathFilter : List Value → Bool
  | [] => false
  | value :: rest => triggerHasPullRequestPathFilter value || anyTriggerHasPathFilter rest

end

/-- Whether the decision needs the changed files. -/
def requiresPullRequestChangedPaths (workflow : Workflow) : Bool :=
  triggerHasPullRequestPathFilter workflow.trigger

end GitZero.Workflows
