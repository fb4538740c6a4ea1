/-
Module: GitZero.Proofs.SingleExpressions
Purpose: Which strings are a single expression, and what `runs-on` makes of the others.
Trusted boundary: none
Main exports: SingleExpression, isExactExpression_iff, foundExpression_iff, selectorOf,
  runs_on_labels_iff
-/
import Mathlib.Data.List.DropRight
import GitZero.Agent.RunsOn
import GitZero.Proofs.Templates

namespace GitZero.Agent.RunsOn

open Expression

/-- The trimmed string is one expression: the braces at its end are the first that close it. -/
def SingleExpression (value : Text) : Prop :=
  ∃ inner, trim value = openMarker ++ inner ++ closeMarker ∧ IsSource inner

/-- The scanner of templates finds one expression and nothing behind it. -/
def foundExpression (value : Text) : Bool :=
  startsMarked (trim value) &&
    (findExpressionEnd false ((trim value).drop 3)).any fun parts => parts.2.isEmpty

/-! ### The scanners -/

/-- Both scanners stop at the same braces. -/
theorem behindBraces_eq (quoted : Bool) (text : Text) :
    behindBraces quoted text = (findExpressionEnd quoted text).map Prod.snd := by
  fun_induction behindBraces quoted text with
  | case1 => rfl
  | case2 => rfl
  | case3 quoted next rest doubled inductionHypothesis =>
      rw [findExpressionEnd, if_pos doubled, inductionHypothesis, Option.map_map]
      rfl
  | case4 quoted next rest single inductionHypothesis =>
      rw [findExpressionEnd, if_neg single, inductionHypothesis, Option.map_map]
      rfl
  | case5 after => rfl
  | case6 quoted char rest notLast notQuote notClosing inductionHypothesis =>
      rw [findExpressionEnd.eq_5 quoted char rest notLast notQuote notClosing, inductionHypothesis,
        Option.map_map]
      rfl

theorem startsMarked_iff {text : Text} :
    startsMarked text = true ↔ ∃ rest, text = openMarker ++ rest := by
  rw [startsMarked, List.isPrefixOf_iff_prefix]
  exact exists_congr fun rest => eq_comm

theorem closes_at_end_iff {rest inner : Text} :
    findExpressionEnd false rest = some (inner, []) ↔
      rest = inner ++ closeMarker ∧ IsSource inner := by
  constructor
  · intro found
    rcases findExpressionEnd_spec false rest with ⟨none, -⟩ | ⟨first, after, isFound, closes, least⟩
    · rw [none] at found
      cases found
    · rw [isFound] at found
      cases found
      refine ⟨?_, IsSource.of_found closes least⟩
      have whole := closes.1
      rwa [List.append_nil] at whole
  · rintro ⟨whole, isSource⟩
    have found := findExpressionEnd_source isSource []
    rwa [List.append_nil, ← whole] at found

/-- So does the search for the end of the first expression. -/
theorem foundExpression_iff {value : Text} :
    foundExpression value = true ↔ SingleExpression value := by
  rw [foundExpression, Bool.and_eq_true, startsMarked_iff]
  constructor
  · rintro ⟨⟨rest, whole⟩, found⟩
    rw [whole] at found
    change ((findExpressionEnd false rest).any _) = true at found
    cases isFound : findExpressionEnd false rest with
    | none =>
        rw [isFound] at found
        cases found
    | some parts =>
        obtain ⟨inner, after⟩ := parts
        rw [isFound] at found
        obtain rfl := List.isEmpty_iff.mp found
        obtain ⟨same, isSource⟩ := closes_at_end_iff.mp isFound
        exact ⟨inner, by rw [whole, same, List.append_assoc], isSource⟩
  · rintro ⟨inner, whole, isSource⟩
    rw [List.append_assoc] at whole
    refine ⟨⟨inner ++ closeMarker, whole⟩, ?_⟩
    rw [whole]
    change ((findExpressionEnd false (inner ++ closeMarker)).any _) = true
    rw [closes_at_end_iff.mpr ⟨rfl, isSource⟩]
    rfl

/-- White space at the end of a trimmed text is no white space. -/
theorem trim_behind {value before after : Text} (whole : trim value = before ++ after) :
    (trim after).isEmpty = after.isEmpty := by
  by_cases empty : after = []
  · subst empty
    rfl
  · rw [Bool.eq_iff_iff, List.isEmpty_iff, List.isEmpty_iff, iff_false_right empty]
    intro blank
    have every : ∀ char ∈ after.dropWhile isWhitespace, isWhitespace char = true :=
      List.rdropWhile_eq_nil_iff.mp blank
    have none : after.dropWhile isWhitespace = [] := by
      cases dropped : after.dropWhile isWhitespace with
      | nil => rfl
      | cons first rest =>
          have stopped := List.head?_dropWhile_not isWhitespace after
          rw [dropped, List.head?_cons] at stopped
          dsimp only at stopped
          have isBlank := every first (dropped ▸ List.mem_cons_self)
          rw [isBlank] at stopped
          cases stopped
    have blanks := List.dropWhile_eq_nil_iff.mp none
    have nonempty : trim value ≠ [] := by
      rw [whole]
      exact List.append_ne_nil_of_right_ne_nil _ empty
    have last : isWhitespace ((trim value).getLast nonempty) = true := by
      have same : (trim value).getLast nonempty = after.getLast empty := by
        simp only [whole, List.getLast_append_of_ne_nil _ empty]
      rw [same]
      exact blanks _ (List.getLast_mem empty)
    exact List.rdropWhile_last_not isWhitespace (value.dropWhile isWhitespace) nonempty last

/-- The exact check accepts single expressions and nothing else. -/
theorem isExactExpression_iff {value : Text} :
    isExactExpression value = true ↔ SingleExpression value := by
  rw [← foundExpression_iff, isExactExpression, foundExpression]
  cases marked : startsMarked (trim value) with
  | false => simp
  | true =>
      obtain ⟨rest, whole⟩ := startsMarked_iff.mp marked
      have behind : (trim value).drop 3 = rest := by
        rw [whole]
        rfl
      rw [behind, behindBraces_eq]
      cases found : findExpressionEnd false rest with
      | none => rfl
      | some parts =>
          have closes : ∃ inner, rest = inner ++ closeMarker ++ parts.2 := by
            rcases findExpressionEnd_spec false rest with ⟨none, -⟩ |
              ⟨inner, after, isFound, closes, -⟩
            · rw [none] at found
              cases found
            · rw [isFound] at found
              cases found
              exact ⟨inner, closes.1⟩
          obtain ⟨inner, same⟩ := closes
          have ends := @trim_behind _ (openMarker ++ (inner ++ closeMarker)) parts.2
            (whole.trans (by rw [same, List.append_assoc, List.append_assoc,
              List.append_assoc]))
          rw [Option.map_some, Option.any_some, Option.any_some, ends]

/-- The marker and the braces do not overlap. -/
theorem isFullExpression_iff {value : Text} :
    isFullExpression value = true ↔ ∃ inner, trim value = openMarker ++ inner ++ closeMarker := by
  rw [isFullExpression, Bool.and_eq_true, startsMarked_iff]
  constructor
  · rintro ⟨⟨rest, whole⟩, ends⟩
    obtain ⟨before, same⟩ := List.isSuffixOf_iff_suffix.mp ends
    rw [whole] at same
    rcases List.append_eq_append_iff.mp same with ⟨middle, isOpen, isClose⟩ |
      ⟨middle, isBefore, isRest⟩
    · match middle, isOpen with
      | [], isOpen =>
          rw [List.nil_append] at isClose
          exact ⟨[], by rw [whole, ← isClose]; rfl⟩
      | last :: others, isOpen =>
          have isBrace : '\x7d' = last := (List.cons.inj isClose).1
          have member : '\x7d' ∈ openMarker := by
            rw [isOpen, isBrace]
            simp
          exact absurd member (by decide)
    · exact ⟨middle, by rw [whole, isRest, List.append_assoc]; rfl⟩
  · rintro ⟨inner, whole⟩
    refine ⟨⟨inner ++ closeMarker, by rw [whole, List.append_assoc]⟩, ?_⟩
    rw [whole]
    exact List.isSuffixOf_iff_suffix.mpr (List.suffix_append _ _)

/-! ### The labels -/

section Labels

variable [Externals] [JsonConversions]

/-- The selector with the labels that a string gives. -/
def selectorOf (labels : Except SelectorError (List Text)) : Except SelectorError RunnerSelector :=
  labels.bind fun labels => checkSelector { labels, group := none }

theorem renderRunnerSelector_string (context : EvaluationContext) (value : Text) :
    renderRunnerSelector context (.string value) =
      selectorOf (if isFullExpression value then expressionLabels context value
        else templateLabels context value) := by
  rw [renderRunnerSelector, renderFields, collectLabels]
  · generalize (if isFullExpression value then expressionLabels context value
      else templateLabels context value) = labels
    cases labels with
    | error error => rfl
    | ok labels => rfl
  · intro entries impossible
    cases impossible

/-- A string gives the labels of its expression if it is a single one, and otherwise itself as a
template, exactly when the braces that it may begin and end with belong together. -/
theorem runs_on_labels_iff (value : Text) :
    ((∀ context,
        (SingleExpression value → renderRunnerSelector context (.string value) =
          selectorOf (expressionLabels context value)) ∧
        (¬ SingleExpression value → renderRunnerSelector context (.string value) =
          selectorOf (templateLabels context value))) ∧
      (isFullExpression value = true ↔ foundExpression value = true) ∧
      (isExactExpression value = true ↔ foundExpression value = true)) ↔
    ∀ inner, trim value = openMarker ++ inner ++ closeMarker → IsSource inner := by
  have full_of_single (single : SingleExpression value) : isFullExpression value = true :=
    isFullExpression_iff.mpr ⟨single.choose, single.choose_spec.1⟩
  rw [foundExpression_iff, isExactExpression_iff]
  constructor
  · rintro ⟨_, same, _⟩ inner whole
    obtain ⟨other, again, isSource⟩ := same.mp (isFullExpression_iff.mpr ⟨inner, whole⟩)
    rw [whole] at again
    have isInner : inner = other :=
      List.append_cancel_left (List.append_cancel_right again)
    rwa [isInner]
  · intro sources
    have single_of_full (full : isFullExpression value = true) : SingleExpression value := by
      obtain ⟨inner, whole⟩ := isFullExpression_iff.mp full
      exact ⟨inner, whole, sources inner whole⟩
    refine ⟨fun context => ⟨fun single => ?_, fun several => ?_⟩,
      ⟨single_of_full, full_of_single⟩, Iff.rfl⟩
    · rw [renderRunnerSelector_string, if_pos (full_of_single single)]
    · rw [renderRunnerSelector_string, if_neg fun full => several (single_of_full full)]

end Labels

namespace Sample

open Expression.Sample (bare)
open scoped Expression.Sample

/-- Strings as JSON. -/
scoped instance conversions : JsonConversions where
  JsonNumber := Unit
  toJson value := match value with
    | .string text => some (.string text)
    | _ => none
  ofJson json := match json with
    | .string text => some (.string text)
    | _ => none

def twoParts : List (Text × Text) := [([], "github.sha".toList), (['-'], "github.sha".toList)]

/-- Two expressions with a dash between them. -/
def twoExpressions : Text := assemble twoParts []

theorem twoParts_wellFormed : WellFormed twoParts := by
  have isSource : IsSource "github.sha".toList :=
    ⟨by decide +kernel, unclosed_of_absent (by decide +kernel), by decide +kernel⟩
  have isEmpty : ¬ openMarker <:+: ([] : Text) := by decide
  have isDash : ¬ openMarker <:+: ['-'] := by decide
  intro part member
  simp only [twoParts, List.mem_cons, List.not_mem_nil, or_false] at member
  rcases member with same | same
  · cases same
    exact ⟨isEmpty, isSource⟩
  · cases same
    exact ⟨isDash, isSource⟩

/-- Two expressions are evaluated as one, which cannot be parsed. -/
theorem two_expressions_are_evaluated :
    isFullExpression twoExpressions = true ∧ isExactExpression twoExpressions = false ∧
      renderRunnerSelector bare (.string twoExpressions) = .error (.expression (.parse ())) ∧
      selectorOf (templateLabels bare twoExpressions) =
        .ok { labels := ["abc-abc".toList], group := none } := by
  have rendered : bare.render twoExpressions = .ok "abc-abc".toList := by
    unfold EvaluationContext.render
    have texts : twoParts.mapM bare.renderPart = .ok ["abc".toList, "-abc".toList] := rfl
    rw [twoExpressions, renderFrom_parts twoParts_wellFormed, texts]
    change bare.renderFrom "abc-abc".toList [] = _
    rw [renderFrom_eq]
    rfl
  refine ⟨by decide, by decide, ?_, ?_⟩
  · rw [renderRunnerSelector_string, if_pos (by decide)]
    rfl
  · rw [templateLabels, renderText, rendered]
    rfl

end Sample

end GitZero.Agent.RunsOn
