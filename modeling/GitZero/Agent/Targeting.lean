/-
Module: GitZero.Agent.Targeting
Purpose: The runner requirements of a job, as the agent collects and checks them and as the
  control plane receives them.
Trusted boundary: none
Main exports: normalizeRunnerTargeting, RunnerTargeting, insertRunnerRequirement,
  runnerSatisfiesRequirements, RunnerSelector.ofRendered, runnerSelectorSchema,
  runnerRequirementsSchema, receivedHello
-/
import GitZero.Agent.Environment
import GitZero.Agent.RunsOn
import GitZero.ControlPlane.Handlers

namespace GitZero.Agent

open Workflows
open ControlPlane (RunnerRequirement AgentHello JsText)

/-! ### The runner of an agent -/

def maxRunnerLabels : Nat := 32

def maxRunnerRequirements : Nat := 512

def maxRunnerSelectorBytes : Nat := 256

/-- `str::trim` -/
def trimWhitespace (text : String) : String := String.ofList (Expression.trim text.toList)

def lineBreakFree (text : String) : Bool :=
  text.toList.all fun char => char ≠ '\x00' && char ≠ '\n' && char ≠ '\r'

/-- A label or a group that fits the protocol. -/
def runnerSelectorFits (text : String) : Bool :=
  byteLength text.toList ≤ maxRunnerSelectorBytes && lineBreakFree text

def defaultRunnerLabels (arch : String) : List String := ["self-hosted", "macOS", arch]

/-- One turn of the loop over the configured labels. -/
def insertRunnerLabel (labels : List String) (label : String) : Option (List String) :=
  let label := trimWhitespace label
  if label.isEmpty || !runnerSelectorFits label then none
  else if labels.any fun other => toAsciiLowercase other = toAsciiLowercase label then some labels
  else some (labels ++ [label])

/-- The labels and the group of the runner; `none` where the configuration is refused. -/
def normalizeRunnerTargeting (arch : String) (customLabels : List String)
    (runnerGroup : Option String) : Option (List String × Option String) := do
  let labels ← (defaultRunnerLabels arch ++ customLabels).foldlM insertRunnerLabel []
  let group := (runnerGroup.map trimWhitespace).filter fun group => !group.isEmpty
  if labels.length > maxRunnerLabels || !group.all runnerSelectorFits then none
  else return (labels, group)

/-- The labels and the group of the machine that an agent runs on. -/
structure RunnerTargeting where
  labels : List String
  group : Option String
deriving Repr, DecidableEq

/-- `with_runner_targeting` -/
def runnerTargeting (labels : List String) (runnerGroup : Option String) : RunnerTargeting where
  labels := labels.map toAsciiLowercase
  group := runnerGroup.map toAsciiLowercase

/-! ### Selectors and requirements -/

/-- The value of `runs-on`; `render_runner_selector` trims labels and group, refuses empty
labels and a selector without any. -/
structure RunnerSelector where
  labels : List String
  group : Option String
  labelsTrimmed : ∀ label ∈ labels, trimWhitespace label = label ∧ label ≠ ""
  groupTrimmed : ∀ text, group = some text → trimWhitespace text = text ∧ text ≠ ""
  selects : labels ≠ [] ∨ group ≠ none

/-- The selector that `render_runner_selector` returns for the value of a job. -/
def RunnerSelector.ofRendered [Expression.Externals] [Expression.JsonConversions]
    {context : Expression.EvaluationContext} {value : RunsOn.YamlValue}
    {rendered : RunsOn.RunnerSelector}
    (ran : RunsOn.renderRunnerSelector context value = .ok rendered) : RunnerSelector where
  labels := rendered.labels.map String.ofList
  group := rendered.group.map String.ofList
  labelsTrimmed := by
    intro label member
    obtain ⟨text, inside, rfl⟩ := List.mem_map.mp member
    obtain ⟨trimmed, filled⟩ := (RunsOn.renderRunnerSelector_checked context ran).labels text inside
    rw [trimWhitespace, String.toList_ofList, trimmed]
    exact ⟨rfl, by simpa using filled⟩
  groupTrimmed := by
    intro group isGroup
    obtain ⟨text, given, rfl⟩ := Option.map_eq_some_iff.mp isGroup
    obtain ⟨trimmed, filled⟩ := (RunsOn.renderRunnerSelector_checked context ran).group text given
    rw [trimWhitespace, String.toList_ofList, trimmed]
    exact ⟨rfl, by simpa using filled⟩
  selects := (RunsOn.renderRunnerSelector_checked context ran).selects.imp (by simp) (by simp)

def isGithubHostedMacosLabel (label : String) : Bool :=
  let label := toAsciiLowercase label
  label = "macos-latest" || startsWith "macos-" label

def isGithubHostedNonMacosLabel (label : String) : Bool :=
  let label := toAsciiLowercase label
  label = "ubuntu-latest" || startsWith "ubuntu-" label || label = "windows-latest" ||
    startsWith "windows-" label

/-- The requirement of a selector: its labels in lower case, sorted, each once. -/
def requirementOf (selector : RunnerSelector) : RunnerRequirement where
  labels := (selector.labels.map toAsciiLowercase).eraseDups.insertionSort fun left right =>
    left ≤ right
  runnerGroup := selector.group.map toAsciiLowercase

/-- The set of requirements is a list without repetition; nothing reads its order. -/
def insertRunnerRequirement (requirements : List RunnerRequirement) (selector : RunnerSelector) :
    Option (List RunnerRequirement) :=
  if selector.group.isNone && selector.labels.length = 1 &&
      selector.labels.all isGithubHostedNonMacosLabel then some requirements
  else if selector.labels.length > maxRunnerLabels then none
  else if !selector.labels.all runnerSelectorFits || !selector.group.all runnerSelectorFits then
    none
  else
    let inserted := if requirementOf selector ∈ requirements then requirements
      else requirements ++ [requirementOf selector]
    if inserted.length > maxRunnerRequirements then none else some inserted

def ensureRunnerEligible (requirement : RunnerRequirement) (runner : RunnerTargeting) : Bool :=
  (match requirement.runnerGroup with
    | some required => runner.group.any fun group => eqIgnoreAsciiCase group required
    | none => true) &&
  ((requirement.runnerGroup.isNone && requirement.labels.length = 1 &&
      requirement.labels.all isGithubHostedMacosLabel) ||
    requirement.labels.all fun label => runner.labels.contains (toAsciiLowercase label))

/-- The agent's side of the comparison. -/
def runnerSatisfiesRequirements (requirements : List RunnerRequirement)
    (runner : RunnerTargeting) : Bool :=
  requirements.all fun requirement => ensureRunnerEligible requirement runner

/-! ### On the wire -/

section Text

variable [JsText]

/-- `z.string().trim().min(1).max(256)` without NUL and line breaks -/
def runnerSelectorSchema (input : String) : Option String :=
  let value := ControlPlane.trim input
  if 1 ≤ ControlPlane.utf16Length value && ControlPlane.utf16Length value ≤ 256 &&
      lineBreakFree value then some value
  else none

def runnerGroupSchema : Option String → Option (Option String)
  | none => some none
  | some input => (runnerSelectorSchema input).map some

def runnerRequirementSchema (input : RunnerRequirement) : Option RunnerRequirement := do
  let labels ← input.labels.mapM runnerSelectorSchema
  let runnerGroup ← runnerGroupSchema input.runnerGroup
  if labels.length > 32 then none else return { labels, runnerGroup }

/-- The requirements of a job, as the control plane accepts them from the agent. -/
def runnerRequirementsSchema (inputs : List RunnerRequirement) :
    Option (List RunnerRequirement) := do
  let requirements ← inputs.mapM runnerRequirementSchema
  if requirements.length > 512 then none else return requirements

/-- The hello of an agent with these labels, as the control plane receives it. -/
def receivedHello (hello : AgentHello) (labels : List String) (runnerGroup : Option String) :
    Option AgentHello := do
  let labels ← labels.mapM runnerSelectorSchema
  let runnerGroup ← runnerGroupSchema runnerGroup
  if labels.length > 32 then none else return { hello with labels, runnerGroup }

end Text

end GitZero.Agent
