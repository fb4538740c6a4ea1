/-
Module: GitZero.Proofs.MaskGrowth
Purpose: What the commands do to masks and to line ends: no scope ever loses a mask, and
  a chunk that ends its line leaves whole lines.
Trusted boundary: none
Main exports: WholeLines, processLog_wholeLines, seamless_of_wholeLines, Grows,
  processLine_grows, processLog_grows, finishStep_grows
-/
import GitZero.Agent.MaskedEvents
import GitZero.Proofs.LogForwarding

namespace GitZero.Agent.MaskedEvents

open Expression (Text)
open Commands
open CommandProcessor
open ProblemMatchers (Regexes Files)

/-! ### Lines -/

/-- The text ends its last line, if it has one. -/
def WholeLines (text : Text) : Prop := text = [] ∨ endsWithLineFeed text = true

theorem wholeLines_append {one two : Text} (first : WholeLines one) (second : WholeLines two) :
    WholeLines (one ++ two) := by
  rcases second with rfl | ends
  · rw [List.append_nil]
    exact first
  · by_cases empty : two = []
    · rw [empty] at ends
      cases ends
    · exact .inr ((endsWithLineFeed_append empty).trans ends)

theorem splitInclusive_ends {text : Text} (whole : WholeLines text) :
    ∀ segment ∈ splitInclusive text, endsWithLineFeed segment = true := by
  induction text with
  | nil => exact List.forall_mem_nil _
  | cons char rest inductionHypothesis =>
      have ends := whole.resolve_left (List.cons_ne_nil _ _)
      have wholeRest : WholeLines rest := by
        by_cases empty : rest = []
        · exact .inl empty
        · exact .inr ((@endsWithLineFeed_append [char] rest empty).symm.trans ends)
      have behind := inductionHypothesis wholeRest
      rw [splitInclusive]
      split
      · rename_i isFeed
        rw [isFeed]
        exact List.forall_mem_cons.mpr ⟨rfl, behind⟩
      · rename_i other
        have flat := splitInclusive_flatten rest
        split
        · rename_i none
          rw [none, List.flatten_nil] at flat
          rw [← flat] at ends
          simp [endsWithLineFeed, other] at ends
        · rename_i first others some
          rw [some] at behind
          have isLines := isLines_splitInclusive rest
          rw [some] at isLines
          have first := (@endsWithLineFeed_append [char] first isLines.1.1).trans
            (behind _ List.mem_cons_self)
          exact List.forall_mem_cons.mpr
            ⟨first, fun segment member => behind segment (List.mem_cons_of_mem _ member)⟩

theorem wholeLines_visibleOf {segment : Text} (ends : endsWithLineFeed segment = true)
    (disposition : WorkflowLineDisposition) :
    WholeLines (WorkflowCommandProcessor.visibleOf segment disposition) := by
  cases disposition with
  | original => exact .inr ends
  | suppress => exact .inl rfl
  | replace replacement =>
      rw [WorkflowCommandProcessor.visibleOf, if_pos ends]
      exact .inr ((endsWithLineFeed_append (List.cons_ne_nil _ _)).trans rfl)

section WholeLines

variable [Regexes] [Files] [MatcherFiles] {processor : WorkflowCommandProcessor} {stepId : String}

theorem processSegments_wholeLines {visible data : Text} {segments : List Text}
    (whole : WholeLines visible) (ends : ∀ segment ∈ segments, endsWithLineFeed segment = true)
    (processed : (WorkflowCommandProcessor.processSegments stepId visible segments processor).2 =
      .ok data) : WholeLines data := by
  induction segments generalizing visible processor with
  | nil =>
      cases processed
      exact whole
  | cons segment segments inductionHypothesis =>
      rw [List.forall_mem_cons] at ends
      rw [WorkflowCommandProcessor.processSegments] at processed
      split at processed
      · cases processed
      · rename_i disposition _
        exact inductionHypothesis
          (wholeLines_append whole (wholeLines_visibleOf ends.1 disposition)) ends.2 processed

/-- A chunk that ends its line leaves whole lines. -/
theorem processLog_wholeLines {stream : LogStream} {raw data : Text}
    (ends : endsWithLineFeed raw = true)
    (processed : (processor.processLog stepId stream raw).2 = .ok data) : WholeLines data := by
  have isSome : raw ≠ [] := by
    rintro rfl
    cases ends
  unfold WorkflowCommandProcessor.processLog at processed
  split at processed
  · rename_i started _
    have endsAll : endsWithLineFeed (started ++ raw) = true :=
      (endsWithLineFeed_append isSome).trans ends
    dsimp only at processed
    split at processed
    · cases processed
    · rw [ends, Bool.true_or, if_pos rfl] at processed
      exact processSegments_wholeLines (.inl rfl) (splitInclusive_ends (.inr endsAll)) processed
  · rw [ends, Bool.not_true, Bool.and_false, Bool.false_and, if_neg Bool.false_ne_true] at processed
    exact processSegments_wholeLines (.inl rfl) (splitInclusive_ends (.inr ends)) processed

end WholeLines

/-- Whole lines do not end within a value that has a line feed at most at its end. -/
theorem seamless_of_wholeLines {value text : Text} (unbroken : '\n' ∉ value.dropLast)
    (whole : WholeLines text) : Redaction.Seamless value text := by
  intro front member isSome proper ends
  rcases whole with rfl | isFeed
  · exact isSome (List.suffix_nil.mp ends)
  · have last : front.getLast? = some '\n' := by
      obtain ⟨before, rfl⟩ := ends
      rw [endsWithLineFeed, decide_eq_true_iff, List.getLast?_append_of_ne_nil _ isSome] at isFeed
      exact isFeed
    obtain ⟨back, rfl⟩ := (List.mem_inits front value).mp member
    have goesOn : back ≠ [] := by
      rintro rfl
      exact proper (List.append_nil front).symm
    rw [List.dropLast_append_of_ne_nil goesOn] at unbroken
    exact unbroken (List.mem_append_left _ (List.mem_of_getLast? last))

/-! ### Masks stay registered -/

section Growth

variable [Regexes]

/-- No scope loses a mask. -/
def Grows (one two : WorkflowCommandProcessor) : Prop :=
  ∀ scopeId, (one.scope scopeId).masks ⊆ (two.scope scopeId).masks

variable {one two three processor : WorkflowCommandProcessor}

theorem Grows.refl (processor : WorkflowCommandProcessor) : Grows processor processor :=
  fun _ => List.Subset.refl _

theorem Grows.trans (first : Grows one two) (second : Grows two three) : Grows one three :=
  fun scopeId => List.Subset.trans (first scopeId) (second scopeId)

theorem grows_of_scopes (same : two.scopes = one.scopes) : Grows one two := by
  intro scopeId
  unfold WorkflowCommandProcessor.scope
  rw [same]
  exact List.Subset.refl _

theorem setScope_grows {scopeId : String} {scope : WorkflowCommandScope}
    (grown : (processor.scope scopeId).masks ⊆ scope.masks) :
    Grows processor (processor.setScope scopeId scope) := by
  intro other
  by_cases same : other = scopeId
  · rw [same, WorkflowCommandProcessor.scope_setScope]
    exact grown
  · rw [WorkflowCommandProcessor.scope_setScope_of_ne _ same]
    exact List.Subset.refl _

omit [Regexes] in
theorem registerMasks_grows (scope : WorkflowCommandScope) (values : List Text) :
    scope.masks ⊆ (scope.registerMasks values).1.masks := by
  induction values generalizing scope with
  | nil =>
      intro mask member
      exact List.mem_mergeSort.mpr member
  | cons candidate values inductionHypothesis =>
      have registered : scope.registerMasks (candidate :: values) =
          if candidate = [] || candidate ∈ scope.masks then scope.registerMasks values
          else if scope.masks.length ≥ maxDynamicMasksPerJob ||
              scope.maskBytes + byteLength candidate > maxDynamicMaskBytesPerJob then
            (scope, .error "workflow added too many dynamic masks")
          else
            ({ scope with
              masks := scope.masks ++ [candidate]
              maskBytes := scope.maskBytes + byteLength candidate }
                : WorkflowCommandScope).registerMasks values := rfl
      rw [registered]
      split
      · exact inductionHypothesis scope
      · split
        · exact List.Subset.refl _
        · exact List.Subset.trans (List.subset_append_left scope.masks [candidate])
            (inductionHypothesis ⟨scope.masks ++ [candidate], _, _⟩)

theorem addMask_grows (scopeId : String) (value : Text) :
    Grows processor (processor.addMask scopeId value).1 := by
  have registered : (processor.scope scopeId).masks ⊆
      ((processor.scope scopeId).registerMask value).1.masks := registerMasks_grows _ _
  exact setScope_grows registered

variable [Files] [MatcherFiles]

/-- A line takes no mask away. -/
theorem processLine_grows (processor : WorkflowCommandProcessor) (stepId : String) (line : Text) :
    Grows processor (processor.processLine stepId line).1 := by
  unfold WorkflowCommandProcessor.processLine
  dsimp only
  split
  · split
    · exact setScope_grows (List.Subset.refl _)
    · exact .refl processor
  · split
    · exact addMask_grows _ _
    · split
      · dsimp only
        split
        · exact .refl processor
        · exact setScope_grows (List.Subset.refl _)
      · cases matcher :
          processor.processMatcherCommand (workflowCommandScope stepId) line with
        | some result =>
            exact grows_of_scopes
              (WorkflowCommandProcessor.processMatcherCommand_same matcher).scopes
        | none =>
            cases valued : processor.processValueCommand stepId (workflowCommandScope stepId)
                line with
            | some result =>
                exact grows_of_scopes
                  (WorkflowCommandProcessor.processValueCommand_same valued).scopes
            | none => exact grows_of_scopes WorkflowCommandProcessor.scanLine_same.scopes

theorem processSegments_grows (processor : WorkflowCommandProcessor) (stepId : String)
    (visible : Text) (segments : List Text) :
    Grows processor
      (WorkflowCommandProcessor.processSegments stepId visible segments processor).1 := by
  induction segments generalizing processor visible with
  | nil => exact .refl processor
  | cons segment segments inductionHypothesis =>
      rw [WorkflowCommandProcessor.processSegments]
      have line := processLine_grows processor stepId (trimLineBreaks segment)
      split
      · rename_i processed
        rw [processed] at line
        exact line
      · rename_i processed
        rw [processed] at line
        exact line.trans (inductionHypothesis _ _)

theorem processCompleteLog_grows (processor : WorkflowCommandProcessor) (stepId : String)
    (data : Text) : Grows processor (processor.processCompleteLog stepId data).1 :=
  processSegments_grows processor stepId [] _

/-- Nor does a chunk. -/
theorem processLog_grows (processor : WorkflowCommandProcessor) (stepId : String)
    (stream : LogStream) (data : Text) :
    Grows processor (processor.processLog stepId stream data).1 := by
  have held (command : Option Text) :
      Grows processor (processor.setPartial stepId stream command) := grows_of_scopes rfl
  unfold WorkflowCommandProcessor.processLog
  split
  · dsimp only
    split
    · exact held _
    · split
      · exact (held none).trans (processCompleteLog_grows _ stepId _)
      · exact held _
  · split
    · exact held _
    · exact processCompleteLog_grows processor stepId data

theorem finishStream_grows (processor : WorkflowCommandProcessor) (stepId : String)
    (stream : LogStream) : Grows processor (processor.finishStream stepId stream) := by
  unfold WorkflowCommandProcessor.finishStream
  split
  · exact .refl processor
  · rename_i complete _
    have log := processCompleteLog_grows (processor.setPartial stepId stream none) stepId complete
    split
    · rename_i processed
      rw [processed] at log
      exact (grows_of_scopes rfl).trans log
    · rename_i processed
      rw [processed] at log
      exact (grows_of_scopes rfl).trans (log.trans (grows_of_scopes rfl))

theorem finishPartials_grows (processor : WorkflowCommandProcessor) (stepId : String)
    (streams : List LogStream) : Grows processor (finishPartials stepId streams processor).1 := by
  induction streams generalizing processor with
  | nil => exact .refl processor
  | cons stream streams inductionHypothesis =>
      rw [finishPartials]
      split
      · exact inductionHypothesis processor
      · rename_i complete _
        have log := processCompleteLog_grows (processor.setPartial stepId stream none) stepId
          complete
        split
        · rename_i processed
          rw [processed] at log
          exact (grows_of_scopes rfl).trans log
        · rename_i processed
          rw [processed] at log
          exact (grows_of_scopes rfl).trans (log.trans (inductionHypothesis _))

omit [Files] [MatcherFiles] in
theorem resumeScope_grows (scopeId : String) : Grows processor (resumeScope processor scopeId) := by
  unfold resumeScope
  split
  · rename_i scope found
    apply setScope_grows
    rw [WorkflowCommandProcessor.scope, found, Option.getD_some]
    exact List.Subset.refl _
  · exact .refl processor

/-- Nor does the end of a step. -/
theorem finishStep_grows (processor : WorkflowCommandProcessor) (stepId : String) :
    Grows processor (finishStep processor stepId).1 := by
  unfold finishStep
  have partials := finishPartials_grows processor stepId [.stdout, .stderr, .system]
  split
  · rename_i finished
    rw [finished] at partials
    exact partials
  · rename_i finished
    rw [finished] at partials
    exact partials.trans ((resumeScope_grows _).trans (grows_of_scopes rfl))

end Growth

end GitZero.Agent.MaskedEvents
