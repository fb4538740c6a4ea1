/-
Module: GitZero.Agent.RunsOn
Purpose: The value of `runs-on` and what it selects in a context.
Trusted boundary: the conversion of a value to JSON, as `JsonConversions`
Main exports: YamlValue, SelectorError, isFullExpression, isExactExpression, collectLabels,
  renderRunnerSelector, Checked, renderRunnerSelector_checked
-/
import Mathlib.Data.List.DropRight
import GitZero.Expression.Evaluation

namespace GitZero.Agent.RunsOn

open Expression

/-! ### Expressions in a string -/

theorem trim_trim (text : Text) : trim (trim text) = trim text := by
  change ((text.dropWhile isWhitespace).rdropWhile isWhitespace
      |>.dropWhile isWhitespace).rdropWhile isWhitespace =
    (text.dropWhile isWhitespace).rdropWhile isWhitespace
  have front : ((text.dropWhile isWhitespace).rdropWhile isWhitespace).dropWhile isWhitespace =
      (text.dropWhile isWhitespace).rdropWhile isWhitespace := by
    refine List.dropWhile_eq_self_iff.mpr fun filled => ?_
    have begins := List.rdropWhile_prefix isWhitespace (text.dropWhile isWhitespace)
    have stops := List.dropWhile_get_zero_not isWhitespace text
      (filled.trans_le begins.length_le)
    rw [begins.getElem filled]
    exact stops
  rw [front, List.rdropWhile_idempotent]

def startsMarked (value : Text) : Bool := ['$', '\x7b', '\x7b'].isPrefixOf value

/-- The check by the two ends of the text. -/
def isFullExpression (value : Text) : Bool :=
  startsMarked (trim value) && ['\x7d', '\x7d'].isSuffixOf (trim value)

/-- The loop of `is_exact_expression`: what stands behind the first closing braces. -/
def behindBraces (quoted : Bool) : Text → Option Text
  | [] => none
  | ['\''] => none
  | '\'' :: next :: rest =>
      if quoted && next = '\'' then behindBraces quoted rest
      else behindBraces (!quoted) (next :: rest)
  | char :: rest =>
      match quoted, char, rest with
      | false, '\x7d', '\x7d' :: after => some after
      | _, _, _ => behindBraces quoted rest

/-- The check that the first expression is the whole text. -/
def isExactExpression (value : Text) : Bool :=
  startsMarked (trim value) &&
    (behindBraces false ((trim value).drop 3)).any fun after => (trim after).isEmpty

/-! ### Selectors -/

/-- A value of YAML; `other` is null, a truth value or a number. -/
inductive YamlValue where
  | string (value : Text)
  | sequence (values : List YamlValue)
  | tagged (value : YamlValue)
  | mapping (entries : List (YamlValue × YamlValue))
  | other

/-- What `runs-on` selects, in the texts of the expression evaluator. -/
structure RunnerSelector where
  labels : List Text
  group : Option Text

variable [Externals]

/-- The evaluation of an expression fails, or its value does not select a runner. -/
inductive SelectorError where
  | expression (error : ExpressionError)
  | bail (message : String)

variable [JsonConversions] (context : EvaluationContext)

def evaluateJson (source : Text) : Except SelectorError (Json JsonNumber) :=
  match context.evaluate source with
  | .error error => .error (.expression error)
  | .ok value =>
      match JsonConversions.toJson value with
      | some json => .ok json
      | none => .error (.expression .jsonConversion)

def renderText (value : Text) : Except SelectorError Text :=
  (context.render value).mapError .expression

/-- The labels of an evaluated array. -/
def arrayLabels : List (Json JsonNumber) → Except SelectorError (List Text)
  | [] => .ok []
  | .string value :: rest => (arrayLabels rest).map (value :: ·)
  | _ :: _ => .error (.bail "runs-on expression arrays must contain strings")

/-- The labels of an expression. -/
def expressionLabels (value : Text) : Except SelectorError (List Text) := do
  match ← evaluateJson context value with
  | .string label => return [label]
  | .array values => arrayLabels values
  | _ => .error (.bail "runs-on expression must resolve to a string or string array")

def templateLabels (value : Text) : Except SelectorError (List Text) :=
  (renderText context value).map ([·])

mutual

/-- The labels of a value, with its expressions evaluated. -/
def collectLabels : YamlValue → Except SelectorError (List Text)
  | .string value =>
      if isFullExpression value then expressionLabels context value
      else templateLabels context value
  | .sequence values => collectAll values
  | .tagged value => collectLabels value
  | _ => .error (.bail "runs-on must resolve to a string or string array")

def collectAll : List YamlValue → Except SelectorError (List Text)
  | [] => .ok []
  | value :: rest => do
      let labels ← collectLabels value
      let others ← collectAll rest
      return labels ++ others

end

def renderGroup : YamlValue → Except SelectorError Text
  | .string value =>
      if isFullExpression value then do
        match ← evaluateJson context value with
        | .string group => return group
        | _ => .error (.bail "runs-on group expression must resolve to a string")
      else renderText context value
  | .tagged value => renderGroup value
  | _ => .error (.bail "runs-on group must resolve to a string")

/-- `as_str`, which looks through tags. -/
def YamlValue.asStr : YamlValue → Option Text
  | .string value => some value
  | .tagged value => value.asStr
  | _ => none

/-- One key of a selector that is a mapping. -/
def selectorEntry (selector : RunnerSelector) (entry : YamlValue × YamlValue) :
    Except SelectorError RunnerSelector :=
  match entry.1.asStr with
  | none => .error (.bail "runs-on selector keys must be strings")
  | some key =>
      if key = "labels".toList then do
        let labels ← collectLabels context entry.2
        return { selector with labels := selector.labels ++ labels }
      else if key = "group".toList then do
        let group ← renderGroup context entry.2
        return { selector with group := some group }
      else .error (.bail ("runs-on selector key '" ++ String.ofList key ++ "' is not supported"))

def trimLabels : List Text → Except SelectorError (List Text)
  | [] => .ok []
  | label :: rest =>
      if (trim label).isEmpty then .error (.bail "runs-on labels must not be empty")
      else (trimLabels rest).map (trim label :: ·)

/-- The checks of the labels and of the group. -/
def checkSelector (selector : RunnerSelector) : Except SelectorError RunnerSelector := do
  let labels ← trimLabels selector.labels
  let group := (selector.group.map trim).filter fun group => !group.isEmpty
  if labels.isEmpty && group.isNone then
    .error (.bail "runs-on must select at least one label or runner group")
  else return { labels, group }

/-- The labels and the group as they are rendered. -/
def renderFields : YamlValue → Except SelectorError RunnerSelector
  | .mapping entries => entries.foldlM (selectorEntry context) { labels := [], group := none }
  | value => (collectLabels context value).map fun labels => { labels, group := none }

/-- `runs-on` in a context. -/
def renderRunnerSelector (value : YamlValue) : Except SelectorError RunnerSelector := do
  let selector ← renderFields context value
  checkSelector selector

/-! ### What a selector is -/

/-- Labels and group are trimmed and not empty, and something is selected. -/
structure Checked (selector : RunnerSelector) : Prop where
  labels : ∀ label ∈ selector.labels, trim label = label ∧ label ≠ []
  group : ∀ group, selector.group = some group → trim group = group ∧ group ≠ []
  selects : selector.labels ≠ [] ∨ selector.group ≠ none

omit [JsonConversions] in
theorem trimLabels_checked {labels trimmed : List Text} (ran : trimLabels labels = .ok trimmed) :
    ∀ label ∈ trimmed, trim label = label ∧ label ≠ [] := by
  induction labels generalizing trimmed with
  | nil =>
      cases ran
      exact fun _ member => nomatch member
  | cons label rest inductionHypothesis =>
      unfold trimLabels at ran
      split at ran
      · cases ran
      · next filled =>
          cases later : trimLabels rest with
          | error error =>
              rw [later] at ran
              cases ran
          | ok others =>
              rw [later] at ran
              cases ran
              exact List.forall_mem_cons.mpr
                ⟨⟨trim_trim label, by simpa using filled⟩, inductionHypothesis later⟩

omit [JsonConversions] in
theorem checkSelector_checked {selector checked : RunnerSelector}
    (ran : checkSelector selector = .ok checked) : Checked checked := by
  unfold checkSelector at ran
  cases trimmed : trimLabels selector.labels with
  | error error =>
      rw [trimmed] at ran
      cases ran
  | ok labels =>
      rw [trimmed] at ran
      change (if _ then _ else _) = Except.ok checked at ran
      split at ran
      · cases ran
      · next selects =>
          cases ran
          refine ⟨trimLabels_checked trimmed, fun group isGroup => ?_, ?_⟩
          · obtain ⟨isTrimmed, filled⟩ := Option.filter_eq_some_iff.mp isGroup
            obtain ⟨given, _, rfl⟩ := Option.map_eq_some_iff.mp isTrimmed
            exact ⟨trim_trim given, by simpa using filled⟩
          · rw [Bool.and_eq_true, not_and_or] at selects
            exact selects.imp (by simp) (mt Option.isNone_iff_eq_none.mpr)

/-- What is rendered has passed the checks. -/
theorem renderRunnerSelector_checked {value : YamlValue} {selector : RunnerSelector}
    (rendered : renderRunnerSelector context value = .ok selector) : Checked selector := by
  unfold renderRunnerSelector at rendered
  cases fields : renderFields context value with
  | error error =>
      rw [fields] at rendered
      cases rendered
  | ok given =>
      rw [fields] at rendered
      exact checkSelector_checked rendered

end GitZero.Agent.RunsOn
