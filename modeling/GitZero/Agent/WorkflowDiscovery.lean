/-
Module: GitZero.Agent.WorkflowDiscovery
Purpose: Which workflow files of a repository a run starts: the changed files of the pull
  request, page by page and only when a trigger needs them, and the workflows whose trigger
  matches.
Trusted boundary: the regex crate, as `RegexCrate`; the answers of the API, a parameter
Main exports: fetchPullRequestChangedPaths, validateChangedPaths, changedPathsFor,
  matchingWorkflows, discoverMatching
-/
import GitZero.Workflow.Triggers

namespace GitZero.Agent

open Workflows

def maxPullRequestFiles : Nat := 3000

def pullRequestFilesPerPage : Nat := 100

/-! ### The changed files -/

def invalidPath (path : String) : Bool :=
  path.isEmpty || path.toList.any fun char => char = '\x00' || char = '\n' || char = '\r'

/-- The loop over the pages, of which `remaining` may still be asked for; `page` is what the API
answers, or how the request fails. -/
def fetchPages (page : Nat → Except String (List String)) :
    Nat → Nat → List String → Except String (List String)
  | 0, _, paths => .ok paths
  | remaining + 1, number, paths => do
      let files ← page number
      if files.length > pullRequestFilesPerPage then
        .error s!"GitHub API returned too many pull request files on page {number}"
      else if files.any invalidPath then
        .error "GitHub API returned an invalid pull request file path"
      else if files.length < pullRequestFilesPerPage then return paths ++ files
      else fetchPages page remaining (number + 1) (paths ++ files)

/-- Pages are read up to the number of files that GitHub lists. -/
def fetchPullRequestChangedPaths (page : Nat → Except String (List String)) :
    Except String (List String) :=
  fetchPages page (maxPullRequestFiles / pullRequestFilesPerPage) 1 []

/-- The limits on the number of files and on each path. -/
def validateChangedPaths (paths : List String) : Except String Unit :=
  if paths.length > maxPullRequestFiles then
    .error "pull request changed-file list exceeds GitHub's 3000-file filter limit"
  else if paths.any invalidPath then
    .error "pull request changed-file list contains an invalid path"
  else .ok ()

/-! ### The workflows -/

/-- How the discovery fails: by itself, or with the error of a workflow. -/
inductive DiscoveryFailure where
  | agent (message : String)
  | workflow (failure : Failure)

/-- Workflows with the paths of their files, in the order of the paths. -/
abbrev WorkflowFiles := List (String × Workflow)

def needsChangedPaths (workflows : WorkflowFiles) : Bool :=
  workflows.any fun entry => requiresPullRequestChangedPaths entry.2

/-- The list that the filters are given: that of the run, or else a fetched one. -/
def changedPathsFor (workflows : WorkflowFiles) (given : Option (List String))
    (fetch : Except String (List String)) : Except String (Option (List String)) :=
  if needsChangedPaths workflows then do
    let paths ← given.elim fetch .ok
    validateChangedPaths paths
    return some paths
  else .ok none

section Discovery

variable [RegexCrate]

def decideWorkflow (action baseRef : String) (changedPaths : Option (List String))
    (entry : String × Workflow) : Outcome (String × Bool) := do
  let starts ← matchesPullRequest entry.2 action baseRef changedPaths
  return (entry.1, starts)

/-- The paths of the workflows that a pull request starts. -/
def matchingWorkflows (workflows : WorkflowFiles) (action baseRef : String)
    (changedPaths : Option (List String)) : Outcome (List String) := do
  let decided ← workflows.mapM (decideWorkflow action baseRef changedPaths)
  return (decided.filter Prod.snd).map Prod.fst

/-- `discover_workflows`, up to the workflows that match. -/
def discoverMatching (workflows : WorkflowFiles) (action baseRef : String)
    (given : Option (List String)) (fetch : Except String (List String)) :
    Except DiscoveryFailure (List String) := do
  let changedPaths ← (changedPathsFor workflows given fetch).mapError .agent
  (matchingWorkflows workflows action baseRef changedPaths).mapError .workflow

end Discovery

end GitZero.Agent
