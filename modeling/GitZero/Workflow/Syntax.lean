/-
Module: GitZero.Workflow.Syntax
Purpose: A parsed workflow file: the YAML values and the records that `parse` fills.
Trusted boundary: the YAML parser, whose results are the values of these types
Main exports: BTreeMap, Value, Step, Job, Workflow, WorkflowError, Failure, Outcome
-/
import Mathlib.Data.Finset.Basic
import Mathlib.Data.String.Basic
import Std.Data.ExtTreeMap.Lemmas

namespace GitZero.Workflows

/-- `BTreeMap<String, _>`: iterated in the order of its keys. -/
abbrev BTreeMap (α : Type) := Std.ExtTreeMap String α compare

/-! ### Failures -/

/-- Why a workflow is refused. -/
inductive WorkflowError where
  | incompatible (workflow job reason : String)
  | unsupportedWorkflow (workflow reason : String)
deriving Repr, DecidableEq

/-- How a call can end without a value: with an `Err`, or by a panic of `expect` or of
an index operation. -/
inductive Failure where
  | error (error : WorkflowError)
  | panicked (message : String)
deriving Repr, DecidableEq

/-- What the compiler returns. -/
abbrev Outcome (α : Type) := Except Failure α

def incompatible {α : Type} (workflow job reason : String) : Outcome α :=
  .error (.error (.incompatible workflow job reason))

def unsupportedWorkflow {α : Type} (workflow reason : String) : Outcome α :=
  .error (.error (.unsupportedWorkflow workflow reason))

/-- `Option::expect`, and an index operation with its message. -/
def expect {α : Type} (message : String) : Option α → Outcome α
  | some value => .ok value
  | none => .error (.panicked message)

/-! ### YAML -/

/-- A number of YAML; of a float only the text is kept. -/
inductive Number where
  | integer (value : Int)
  | float (text : String)
deriving Repr, DecidableEq

/-- A value of YAML, with the entries of a mapping in their order. -/
inductive Value where
  | null
  | bool (value : Bool)
  | number (value : Number)
  | string (value : String)
  | sequence (values : List Value)
  | mapping (entries : List (Value × Value))
  | tagged (tag : String) (value : Value)
deriving Inhabited

/-- The accessors of a value look through its tags. -/
def Value.untag : Value → Value
  | .tagged _ value => value.untag
  | value => value

def Value.asStr (value : Value) : Option String :=
  match value.untag with
  | .string text => some text
  | _ => none

def Value.asBool (value : Value) : Option Bool :=
  match value.untag with
  | .bool flag => some flag
  | _ => none

def Value.asU64 (value : Value) : Option Nat :=
  match value.untag with
  | .number (.integer whole) => if 0 ≤ whole then some whole.toNat else none
  | _ => none

def Value.asMapping (value : Value) : Option (List (Value × Value)) :=
  match value.untag with
  | .mapping entries => some entries
  | _ => none

def Value.isNumber (value : Value) : Bool :=
  match value.untag with
  | .number _ => true
  | _ => false

def Value.isNull (value : Value) : Bool :=
  match value with
  | .null => true
  | _ => false

/-- `mapping.get(Value::String(key))`; a tagged key is another key. -/
def getKey (key : String) : List (Value × Value) → Option Value
  | [] => none
  | (.string name, value) :: rest => if name = key then some value else getKey key rest
  | _ :: rest => getKey key rest

/-- `text.contains(needle)` -/
def containsText (text needle : String) : Bool :=
  text.toList.tails.any fun rest => needle.toList.isPrefixOf rest

def expressionMarker : String := "$\x7b\x7b"

mutual

def containsExpression : Value → Bool
  | .string text => containsText text expressionMarker
  | .sequence values => anyContainsExpression values
  | .mapping entries => entriesContainExpression entries
  | .tagged _ value => containsExpression value
  | .null => false
  | .bool _ => false
  | .number _ => false

def anyContainsExpression : List Value → Bool
  | [] => false
  | value :: rest => containsExpression value || anyContainsExpression rest

def entriesContainExpression : List (Value × Value) → Bool
  | [] => false
  | entry :: rest => entryContainsExpression entry || entriesContainExpression rest

def entryContainsExpression : Value × Value → Bool
  | (key, value) => containsExpression key || containsExpression value

end

/-- The source spells the same function twice. -/
def valueContainsExpression (value : Value) : Bool := containsExpression value

/-! ### Workflow files -/

/-- `defaults.run` -/
structure RunDefaults where
  shell : Option String := none
  workingDirectory : Option String := none
  extra : BTreeMap Value := ∅

/-- `defaults` -/
structure Defaults where
  run : RunDefaults := {}
  extra : BTreeMap Value := ∅

/-- `concurrency` as a mapping. -/
structure ConcurrencyConfiguration where
  group : String
  cancelInProgress : Option String := none
  queue : Option String := none
  extra : BTreeMap Value := ∅

/-- `concurrency`, as a string or as a mapping. -/
inductive Concurrency where
  | group (group : String)
  | configuration (configuration : ConcurrencyConfiguration)

/-- `environment` as a mapping. -/
structure JobEnvironmentConfiguration where
  name : String
  url : Option String := none
  deployment : Bool := true
  extra : BTreeMap Value := ∅

/-- `environment`, as a string or as a mapping. -/
inductive JobEnvironment where
  | name (name : String)
  | configuration (configuration : JobEnvironmentConfiguration)

/-- A step of a job, as it is written. -/
structure Step where
  id : Option String := none
  name : Option String := none
  run : Option String := none
  uses : Option String := none
  shell : Option String := none
  workingDirectory : Option String := none
  env : BTreeMap String := ∅
  inputs : BTreeMap String := ∅
  condition : Option String := none
  continueOnError : Option String := none
  timeoutMinutes : Option String := none
  background : Option String := none
  wait : Option (List String) := none
  cancel : Option String := none
  parallel : Option (List Step) := none
  extra : BTreeMap Value := ∅

/-- The field `with` of the source is `inputs` here and in `Step`. -/
structure Job where
  name : Option String := none
  runsOn : Option Value := none
  needs : List String := []
  env : BTreeMap String := ∅
  outputs : BTreeMap String := ∅
  defaults : Defaults := {}
  permissions : Option Value := none
  continueOnError : Option String := none
  timeoutMinutes : Option String := none
  concurrency : Option Concurrency := none
  environment : Option JobEnvironment := none
  steps : List Step := []
  strategy : Option Value := none
  inputs : BTreeMap Value := ∅
  secrets : Option Value := none
  condition : Option String := none
  container : Option Value := none
  services : Option Value := none
  uses : Option String := none
  extra : BTreeMap Value := ∅

def defaultWorkflowName : String := "GitZero workflow"

/-- The jobs are an `IndexMap`: in the order of the file, with distinct keys. -/
structure Workflow where
  name : String := defaultWorkflowName
  trigger : Value := .null
  env : BTreeMap String := ∅
  defaults : Defaults := {}
  permissions : Option Value := none
  concurrency : Option Concurrency := none
  jobs : List (String × Job)
  distinct : (jobs.map Prod.fst).Nodup
  extra : BTreeMap Value := ∅

/-- The first key of a record's unrecognised entries. -/
def firstKey {α : Type} (extra : BTreeMap α) : Option String := extra.keys.head?

end GitZero.Workflows
