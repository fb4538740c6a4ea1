/-
Module: GitZero.Workflow.Contract
Purpose: What a reusable workflow declares under `workflow_call`, and how a calling job
  binds its inputs and secrets.
Trusted boundary: `std::path`, as documented
Main exports: ReusableContract, reusablePath, reusableContract, bindReusableInputs,
  bindReusableSecrets, validateReusableCallJob
-/
import GitZero.Workflow.Compile

namespace GitZero.Workflows

open Expression (stripSuffix trim)

section Calls

variable (workflow jobId : String)

/-- A job with `uses` has no steps of its own. -/
def validateReusableCallJob (job : Job) : Outcome Unit :=
  if job.runsOn.isSome || !job.steps.isEmpty || !job.env.isEmpty || !job.outputs.isEmpty ||
      job.continueOnError.isSome || job.timeoutMinutes.isSome || job.environment.isSome ||
      job.container.isSome || job.services.isSome || !job.defaults.extra.isEmpty ||
      !job.defaults.run.extra.isEmpty || job.defaults.run.shell.isSome ||
      job.defaults.run.workingDirectory.isSome then
    incompatible workflow jobId "reusable workflow call contains runner-only job fields"
  else
    match job.secrets with
    | none => checkExtra
    | some (.string "inherit") => checkExtra
    | some (.mapping _) => checkExtra
    | some _ => incompatible workflow jobId
        "reusable workflow secrets must be a named mapping or 'inherit'"
where
  checkExtra : Outcome Unit :=
    match firstKey job.extra with
    | some feature => incompatible workflow jobId
        s!"reusable workflow call key '{feature}' is not supported yet"
    | none => .ok ()

/-! ### Paths -/

/-- The components of a relative path: empty parts are dropped, and `.` unless it comes
first. -/
def pathComponents (path : List Char) : List (List Char) :=
  ((path.splitOn '/').zipIdx.filter fun (part, index) =>
    part ≠ [] ∧ (part ≠ ['.'] ∨ index = 0)).map Prod.fst

def hasYamlExtension (file : List Char) : Bool :=
  [".yml".toList, ".yaml".toList].any fun extension =>
    extension.isSuffixOf file && file ≠ extension

/-- A relative path whose parent is `.github/workflows` and that names a YAML file. -/
def namesWorkflowFile (path : List Char) : Bool :=
  path.head? ≠ some '/' &&
    match pathComponents path with
    | [first, second, file] =>
        first = ".github".toList && second = "workflows".toList && hasYamlExtension file
    | _ => false

def localReusablePath (uses : String) (path : List Char) : Outcome String :=
  if namesWorkflowFile path then .ok (forwardSlashes (String.ofList path))
  else incompatible workflow jobId
    s!"reusable workflow path '{uses}' must name a file in .github/workflows"

/-- The path that `uses` names, among the workflows that were loaded. -/
def reusablePath (uses : String) (reusableWorkflows : BTreeMap Workflow) : Outcome String :=
  match uses.toList with
  | '.' :: '/' :: path => localReusablePath workflow jobId uses path
  | '$' :: '/' :: path => localReusablePath workflow jobId uses (path.dropWhile (· = '/'))
  | _ =>
      if uses ∈ reusableWorkflows then .ok uses
      else incompatible workflow jobId
        s!"remote reusable workflow reference '{uses}' was not resolved"

end Calls

/-! ### The contract of a called workflow -/

/-- An input that a reusable workflow declares. -/
structure ReusableInputDefinition where
  inputType : ReusableInputType
  required : Bool
  default : Option Value

/-- A secret that a reusable workflow declares. -/
structure ReusableSecretDefinition where
  required : Bool

/-- What a reusable workflow declares under `workflow_call`. -/
structure ReusableContract where
  inputs : BTreeMap ReusableInputDefinition := ∅
  secrets : BTreeMap ReusableSecretDefinition := ∅
  outputs : BTreeMap String := ∅

def workflowCallConfiguration : Value → Except Unit (Option (Option (List (Value × Value))))
  | .string name => if name = "workflow_call" then .ok (some none) else .ok none
  | .sequence values =>
      if values.any (·.asStr = some "workflow_call") then .ok (some none) else .ok none
  | .mapping events =>
      match getKey "workflow_call" events with
      | none => .ok none
      | some .null => .ok (some none)
      | some (.mapping configuration) => .ok (some (some configuration))
      | some _ => .error ()
  | _ => .ok none

def isAsciiAlphabetic (char : Char) : Bool :=
  ('a' ≤ char && char ≤ 'z') || ('A' ≤ char && char ≤ 'Z')

def validSecretIdentifier (name : List Char) : Bool :=
  match name with
  | [] => false
  | first :: rest =>
      (isAsciiAlphabetic first || first = '_') &&
        rest.all fun char => isAsciiAlphanumeric char || char = '_'

def reusableInputMatches (value : Value) : ReusableInputType → Bool
  | .string => value.asStr.isSome
  | .boolean => value.asBool.isSome
  | .number => value.isNumber

section Contract

variable (workflow jobId : String)

/-- The entries of a definition's mapping, whose keys must be among the known ones. -/
def definitionEntries (kind name : String) (known : List String) (definition : Value) :
    Outcome (List (Value × Value)) :=
  match definition.asMapping with
  | none => incompatible workflow jobId s!"workflow_call {kind} '{name}' must be a mapping"
  | some entries =>
      if entries.all fun entry => entry.1.asStr.any (· ∈ known) then .ok entries
      else incompatible workflow jobId s!"workflow_call {kind} '{name}' key is not supported"

def requiredFlag (kind name : String) (entries : List (Value × Value)) : Outcome Bool :=
  match getKey "required" entries with
  | none => .ok false
  | some value =>
      match value.asBool with
      | some flag => .ok flag
      | none => incompatible workflow jobId
          s!"workflow_call {kind} '{name}' required must be boolean"

def readSecret (secrets : BTreeMap ReusableSecretDefinition) :
    Value × Value → Outcome (BTreeMap ReusableSecretDefinition)
  | (name, definition) =>
      match name.asStr with
      | none => incompatible workflow jobId "workflow_call secret names must be strings"
      | some name =>
          if !validSecretIdentifier name.toList then
            incompatible workflow jobId s!"workflow_call secret name '{name}' is invalid"
          else do
            let entries ← definitionEntries workflow jobId "secret" name
              ["description", "required"] definition
            let required ← requiredFlag workflow jobId "secret" name entries
            return secrets.insert name { required }

def readInputType (name : String) (entries : List (Value × Value)) : Outcome ReusableInputType :=
  match (getKey "type" entries).bind Value.asStr with
  | some "string" => .ok .string
  | some "boolean" => .ok .boolean
  | some "number" => .ok .number
  | _ => incompatible workflow jobId
      s!"workflow_call input '{name}' must declare string, boolean, or number type"

def readInput (inputs : BTreeMap ReusableInputDefinition) :
    Value × Value → Outcome (BTreeMap ReusableInputDefinition)
  | (name, definition) =>
      match name.asStr with
      | none => incompatible workflow jobId "workflow_call input names must be strings"
      | some name => do
          let entries ← definitionEntries workflow jobId "input" name
            ["description", "required", "type", "default"] definition
          let inputType ← readInputType workflow jobId name entries
          let required ← requiredFlag workflow jobId "input" name entries
          let default := getKey "default" entries
          if default.any fun value =>
              valueContainsExpression value || !reusableInputMatches value inputType then
            incompatible workflow jobId
              s!"workflow_call input '{name}' default has the wrong type"
          else return inputs.insert name { inputType, required, default }

def readOutput (outputs : BTreeMap String) : Value × Value → Outcome (BTreeMap String)
  | (name, definition) =>
      match name.asStr with
      | none => incompatible workflow jobId "workflow_call output names must be strings"
      | some name => do
          let entries ← definitionEntries workflow jobId "output" name
            ["description", "value"] definition
          match (getKey "value" entries).bind Value.asStr with
          | some output => return outputs.insert name output
          | none =>
              incompatible workflow jobId
                s!"workflow_call output '{name}' must define a scalar value"

/-- The entries under one key of the configuration; no entries without the key. -/
def contractSection (key : String) (configuration : List (Value × Value)) :
    Outcome (List (Value × Value)) :=
  match getKey key configuration with
  | none => .ok []
  | some value =>
      match value.asMapping with
      | some entries => .ok entries
      | none => incompatible workflow jobId s!"workflow_call {key} must be a mapping"

def checkConfigurationKey (called : Workflow) : Value × Value → Outcome Unit
  | (key, _) =>
      if key.asStr.any (· ∈ ["inputs", "outputs", "secrets"]) then .ok ()
      else
        let key := key.asStr.getD "non-string"
        let called := called.name
        incompatible workflow jobId
          s!"called workflow '{called}' uses unsupported workflow_call key '{key}'"

/-- What the called workflow declares. -/
def reusableContract (called : Workflow) : Outcome ReusableContract :=
  let name := called.name
  match workflowCallConfiguration called.trigger with
  | .error () => incompatible workflow jobId
      s!"called workflow '{name}' has an invalid workflow_call configuration"
  | .ok none => incompatible workflow jobId
      s!"called workflow '{name}' does not declare workflow_call"
  | .ok (some none) => .ok {}
  | .ok (some (some configuration)) => do
      configuration.forM (checkConfigurationKey workflow jobId called)
      let secrets ← (← contractSection workflow jobId "secrets" configuration).foldlM
        (readSecret workflow jobId) ∅
      let inputs ← (← contractSection workflow jobId "inputs" configuration).foldlM
        (readInput workflow jobId) ∅
      let outputs ← (← contractSection workflow jobId "outputs" configuration).foldlM
        (readOutput workflow jobId) ∅
      return { inputs, secrets, outputs }

/-! ### Binding a call -/

def defaultInput : ReusableInputType → Value
  | .string => .string ""
  | .boolean => .bool false
  | .number => .number (.integer 0)

def bindInput (call : Job) : String × ReusableInputDefinition →
    Outcome (String × PlannedReusableInput)
  | (name, definition) => do
      let value ← match call.inputs[name]?.or definition.default with
        | some value => pure value
        | none =>
            if definition.required then
              incompatible workflow jobId
                s!"required reusable workflow input '{name}' is missing"
            else pure (defaultInput definition.inputType)
      if !valueContainsExpression value && !reusableInputMatches value definition.inputType then
        incompatible workflow jobId s!"reusable workflow input '{name}' has the wrong type"
      else return (name, { value, inputType := definition.inputType })

/-- The inputs of a call against the declared ones. -/
def bindReusableInputs (call : Job) (contract : ReusableContract) :
    Outcome (BTreeMap PlannedReusableInput) :=
  match call.inputs.keys.find? (· ∉ contract.inputs) with
  | some input => incompatible workflow jobId
      s!"reusable workflow does not declare input '{input}'"
  | none => do
      let inputs ← contract.inputs.toList.mapM (bindInput workflow jobId call)
      return .ofList inputs

def stripPrefix? (start text : List Char) : Option (List Char) :=
  if start.isPrefixOf text then some (text.drop start.length) else none

def secretName (expression : List Char) : Option (List Char) :=
  (stripPrefix? "secrets.".toList expression).or <|
    (stripPrefix? "secrets['".toList expression).bind (stripSuffix · "']".toList)

def reusableSecretReference (value : Value) : Option String := do
  let text := trim (← value.asStr).toList
  let inner ← stripSuffix (← stripPrefix? expressionMarker.toList text) ['\x7d', '\x7d']
  let expression := trim inner
  if expression = "github.token".toList then return "GITHUB_TOKEN"
  else
    let name ← secretName expression
    if validSecretIdentifier name then return String.ofList name else none

def bindSecret (contract : ReusableContract) (mappings : BTreeMap String) :
    Value × Value → Outcome (BTreeMap String)
  | (target, source) =>
      match target.asStr with
      | none => incompatible workflow jobId "reusable workflow secret names must be strings"
      | some target =>
          if target ∉ contract.secrets then
            incompatible workflow jobId s!"reusable workflow does not declare secret '{target}'"
          else
            match reusableSecretReference source with
            | some source => .ok (mappings.insert target source)
            | none => incompatible workflow jobId
                (s!"reusable workflow secret '{target}' must reference an available secret " ++
                  "or github.token")

def requiredSecrets (contract : ReusableContract) : BTreeSet :=
  .ofList ((contract.secrets.toList.filter fun entry => entry.2.required).map Prod.fst)

def secretScope (call : Job) (contract : ReusableContract) :
    Outcome PlannedReusableSecretScope :=
  match call.secrets with
  | none => .ok { required := requiredSecrets contract }
  | some (.string "inherit") => .ok { inherit := true, required := requiredSecrets contract }
  | some (.mapping bindings) => do
      let mappings ← bindings.foldlM (bindSecret workflow jobId contract) ∅
      return { mappings, required := requiredSecrets contract }
  | some _ => incompatible workflow jobId
      "reusable workflow secrets must be a named mapping or 'inherit'"

/-- The secrets of a call against the declared ones. -/
def bindReusableSecrets (call : Job) (contract : ReusableContract) :
    Outcome PlannedReusableSecretScope := do
  let scope ← secretScope workflow jobId call contract
  match scope.required.toList.find? fun name =>
      toAsciiLowercase name ≠ "github_token" && name ∉ scope.mappings with
  | some missing =>
      if scope.inherit then return scope
      else
        incompatible workflow jobId
          s!"required reusable workflow secret '{missing}' is missing"
  | none => return scope

end Contract

end GitZero.Workflows
