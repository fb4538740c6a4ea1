/-
Module: GitZero.Proofs.CommandLines
Purpose: What the command processor does with one line: a line that it would not hold back
  and that moves no matcher changes nothing, and no line touches the commands held back.
Trusted boundary: none
Main exports: Inert, processLine_inert, processLine_partial, setPartial_setPartial
-/
import GitZero.Agent.CommandProcessor

namespace GitZero.Agent

open Expression (Text toAsciiLowercase)

namespace Commands

variable {line start rest body : Text}

/-- A longer prefix, if its end follows the shorter one as it is. -/
theorem stripPrefixIgnoreAsciiCase_append
    (stripped : stripPrefixIgnoreAsciiCase line start = some body) (behind : rest <+: body) :
    (stripPrefixIgnoreAsciiCase line (start ++ rest)).isSome := by
  obtain ⟨same, isBody⟩ := Option.ite_none_right_eq_some.mp stripped
  cases isBody
  have begins : (line.drop start.length).take rest.length = rest :=
    (List.prefix_iff_eq_take.mp behind).symm
  have whole : toAsciiLowercase (line.take (start ++ rest).length) =
      toAsciiLowercase (start ++ rest) := by
    rw [List.length_append, List.take_add, begins]
    unfold toAsciiLowercase at *
    rw [List.map_append, List.map_append, same]
  rw [stripPrefixIgnoreAsciiCase, if_pos whole]
  rfl

/-- Only a line that is held back removes a matcher. -/
theorem parseRemoveMatcherCommand_none (other : isProblemMatcherWorkflowCommand line = false) :
    parseRemoveMatcherCommand line = .ok none := by
  rw [isProblemMatcherWorkflowCommand, Bool.or_eq_false_iff, Bool.or_eq_false_iff] at other
  unfold parseRemoveMatcherCommand
  cases stripped : stripPrefixIgnoreAsciiCase line "::remove-matcher".toList with
  | none => rfl
  | some body =>
      have notData : ¬ "::".toList <+: body := fun behind => by
        have held := stripPrefixIgnoreAsciiCase_append stripped behind
        rw [show "::remove-matcher".toList ++ "::".toList = "::remove-matcher::".toList by rfl,
          other.1.2] at held
        cases held
      have notSpace : ¬ " ".toList <+: body := fun behind => by
        have held := stripPrefixIgnoreAsciiCase_append stripped behind
        rw [show "::remove-matcher".toList ++ " ".toList = "::remove-matcher ".toList by rfl,
          other.2] at held
        cases held
      have parts : removeMatcherParts body = .ok none := by
        rw [removeMatcherParts, stripPrefix?, if_neg notData]
        dsimp only
        rw [stripPrefix?, if_neg notSpace]
      dsimp only
      rw [parts]
      rfl

theorem parseNamedWorkflowCommand_none {command : String}
    (spelled : s!"::{command} ".toList = start)
    (other : stripPrefixIgnoreAsciiCase line start = none) :
    parseNamedWorkflowCommand line command = .ok none := by
  unfold parseNamedWorkflowCommand
  rw [spelled, other]

end Commands

namespace CommandProcessor

open Commands
open ProblemMatchers (Regexes Files)

section Lines

variable [Regexes] [Files] [MatcherFiles] {processor : WorkflowCommandProcessor}
  {stepId scopeId : String} {line : Text}

namespace WorkflowCommandProcessor

/-! ### Commands that are held back -/

omit [Files] [MatcherFiles] in
/-- Holding a command back and giving it free leaves nothing behind. -/
theorem setPartial_setPartial (stream : LogStream) (command : Option Text)
    (none : processor.partialCommands stepId stream = none) :
    (processor.setPartial stepId stream command).setPartial stepId stream .none = processor := by
  have inner : Function.update (processor.partialCommands stepId) stream .none =
      processor.partialCommands stepId := by
    rw [← none]
    exact Function.update_eq_self stream _
  unfold setPartial
  simp only [Function.update_self, Function.update_idem, inner, Function.update_eq_self]

omit [Files] [MatcherFiles] in
theorem partialCommands_setPartial (stream : LogStream) (command : Option Text) :
    (processor.setPartial stepId stream command).partialCommands stepId stream = command := by
  unfold setPartial
  simp only [Function.update_self]

omit [Files] [MatcherFiles] in
theorem scope_setScope (scope : WorkflowCommandScope) :
    (processor.setScope scopeId scope).scope scopeId = scope := by
  unfold WorkflowCommandProcessor.scope setScope
  rw [Std.ExtTreeMap.getElem?_insert_self, Option.getD_some]

omit [Files] [MatcherFiles] in
theorem scope_setScope_of_ne {other : String} (scope : WorkflowCommandScope)
    (different : other ≠ scopeId) :
    (processor.setScope scopeId scope).scope other = processor.scope other := by
  unfold WorkflowCommandProcessor.scope setScope
  rw [Std.ExtTreeMap.getElem?_insert, if_neg]
  simpa using different.symm

/-- Neither the scopes nor the commands that are held back differ. -/
structure SameScopes (one two : WorkflowCommandProcessor) : Prop where
  scopes : two.scopes = one.scopes
  partialCommands : two.partialCommands = one.partialCommands

omit [Files] [MatcherFiles] in
theorem recordAnnotation_same (note : CheckAnnotation) :
    SameScopes processor <| processor.recordAnnotation stepId note := by
  unfold recordAnnotation
  dsimp only
  split
  · exact ⟨rfl, rfl⟩
  · exact ⟨rfl, rfl⟩

omit [Files] [MatcherFiles] in
theorem recordLegacyValue_same (name value : Text) (state : Bool) :
    SameScopes processor (processor.recordLegacyValue stepId name value state).1 := by
  unfold recordLegacyValue
  dsimp only
  split
  · exact ⟨rfl, rfl⟩
  · split
    · exact ⟨rfl, rfl⟩
    · exact ⟨rfl, rfl⟩

omit [Files] in
theorem processMatcherCommand_same
    {result : WorkflowCommandProcessor × Except String WorkflowLineDisposition}
    (processed : processor.processMatcherCommand scopeId line = some result) :
    SameScopes processor result.1 := by
  unfold processMatcherCommand at processed
  split at processed
  · cases processed
    exact ⟨rfl, rfl⟩
  · split at processed
    · cases processed
      exact ⟨rfl, rfl⟩
    · cases processed
      exact ⟨rfl, rfl⟩
    · cases processed
      exact ⟨rfl, rfl⟩
    · cases processed

omit [Files] [MatcherFiles] in
theorem processValueCommand_same
    {result : WorkflowCommandProcessor × Except String WorkflowLineDisposition}
    (processed : processor.processValueCommand stepId scopeId line = some result) :
    SameScopes processor result.1 := by
  unfold processValueCommand at processed
  split at processed
  · cases processed
    exact ⟨rfl, rfl⟩
  · cases processed
    exact recordAnnotation_same _
  · split at processed
    · cases processed
      exact ⟨rfl, rfl⟩
    · cases processed
      exact recordLegacyValue_same _ _ _
    · split at processed
      · cases processed
        exact ⟨rfl, rfl⟩
      · cases processed
        exact recordLegacyValue_same _ _ _
      · cases processed

omit [MatcherFiles] in
theorem scanLine_same : SameScopes processor (processor.scanLine stepId scopeId line) := by
  unfold scanLine
  dsimp only
  split
  · exact ⟨(recordAnnotation_same _).scopes, (recordAnnotation_same _).partialCommands⟩
  · exact ⟨rfl, rfl⟩

/-- No line touches the commands that are held back. -/
theorem processLine_partial :
    (processor.processLine stepId line).1.partialCommands = processor.partialCommands := by
  unfold processLine
  dsimp only
  split
  · split
    · rfl
    · rfl
  · split
    · rfl
    · split
      · dsimp only
        split
        · rfl
        · rfl
      · cases matcher : processor.processMatcherCommand (workflowCommandScope stepId) line with
        | some result => exact (processMatcherCommand_same matcher).partialCommands
        | none =>
            cases valued : processor.processValueCommand stepId (workflowCommandScope stepId)
                line with
            | some result => exact (processValueCommand_same valued).partialCommands
            | none => exact scanLine_same.partialCommands

/-! ### Lines without effect -/

/-- The line is no command, and no problem matcher moves at it. -/
structure Inert (processor : WorkflowCommandProcessor) (stepId : String) (line : Text) : Prop where
  plain : processor.isSuppressibleCommand stepId line = false
  still : (processor.scope (workflowCommandScope stepId)).stopToken = none →
    processor.problemMatchers.scan (workflowCommandScope stepId) line =
      (none, processor.problemMatchers)

omit [Files] in
theorem processMatcherCommand_none
    (added : stripPrefixIgnoreAsciiCase line "::add-matcher::".toList = none)
    (removed : parseRemoveMatcherCommand line = .ok none) :
    processor.processMatcherCommand scopeId line = none := by
  unfold processMatcherCommand
  rw [added, removed]

omit [Files] [MatcherFiles] in
theorem processValueCommand_none (annotated : isAnnotationWorkflowCommand line = false)
    (output : stripPrefixIgnoreAsciiCase line "::set-output ".toList = none)
    (state : stripPrefixIgnoreAsciiCase line "::save-state ".toList = none) :
    processor.processValueCommand stepId scopeId line = none := by
  have unannotated : parseWorkflowAnnotation line (processor.problemMatchers.workspace scopeId) =
      .ok none := by
    unfold parseWorkflowAnnotation
    rw [annotated]
    rfl
  have setsNone : parseNamedWorkflowCommand line "set-output" = .ok none :=
    parseNamedWorkflowCommand_none rfl output
  have savesNone : parseNamedWorkflowCommand line "save-state" = .ok none :=
    parseNamedWorkflowCommand_none rfl state
  unfold processValueCommand
  rw [unannotated]
  dsimp only
  rw [setsNone]
  dsimp only
  rw [savesNone]

/-- An inert line is shown as it is. -/
theorem processLine_inert (inert : processor.Inert stepId line) :
    processor.processLine stepId line = (processor, .ok .original) := by
  obtain ⟨plain, still⟩ := inert
  unfold isSuppressibleCommand at plain
  unfold processLine
  dsimp only
  cases token : (processor.scope (workflowCommandScope stepId)).stopToken with
  | some token =>
      rw [token] at plain
      dsimp only
      rw [if_neg (of_decide_eq_false plain)]
  | none =>
      rw [token] at plain
      simp only [Bool.or_eq_false_iff, Option.isSome_eq_false_iff, Option.isNone_iff_eq_none]
        at plain
      obtain ⟨⟨⟨⟨⟨mask, stop⟩, output⟩, state⟩, annotated⟩, matcher⟩ := plain
      have removed := parseRemoveMatcherCommand_none matcher
      simp only [isProblemMatcherWorkflowCommand, Bool.or_eq_false_iff,
        Option.isSome_eq_false_iff, Option.isNone_iff_eq_none] at matcher
      dsimp only
      rw [mask]
      dsimp only
      rw [stop]
      dsimp only
      rw [processMatcherCommand_none matcher.1.1 removed,
        processValueCommand_none annotated output state]
      unfold scanLine
      rw [still token]
      rfl

end WorkflowCommandProcessor

end Lines

end CommandProcessor

end GitZero.Agent
