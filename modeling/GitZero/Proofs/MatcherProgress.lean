/-
Module: GitZero.Proofs.MatcherProgress
Purpose: Which lines of its scope the reports of a problem matcher with several patterns
  rest on.
Trusted boundary: none
Main exports: Follows, Turn, Progress, Sound, Undisturbed, reports_sound,
  reports_sound_of_short, scan_turns, left_over_progress_is_reported
-/
import GitZero.Proofs.MatcherRegistration

namespace GitZero.Agent.ProblemMatchers

open Expression (Text)
open Outcomes

section Progress

variable [Regexes]

namespace ProblemMatcher

/-- More than one pattern, and an entry of progress through each but the last. -/
def Multiline (matcher : ProblemMatcher) : Prop :=
  2 ≤ matcher.patterns.length ∧ matcher.state.length + 1 = matcher.patterns.length

theorem running_setState (matcher : ProblemMatcher) (index : Nat) (issue : Option CapturedIssue)
    (position : Nat) :
    (matcher.setState index issue).running position =
      if position = index + 1 ∧ index < matcher.state.length then issue
      else matcher.running position := by
  cases position with
  | zero => rw [if_neg (by omega), running, running]
  | succ position =>
      rw [running, running, setState, List.getElem?_set]
      by_cases same : index = position
      · subst same
        by_cases inside : index < matcher.state.length
        · rw [if_pos rfl, if_pos inside, if_pos ⟨rfl, inside⟩, Option.join_some]
        · rw [if_pos rfl, if_neg inside, if_neg fun both => inside both.2,
            List.getElem?_eq_none (Nat.le_of_not_lt inside)]
      · rw [if_neg same, if_neg (by omega)]

theorem running_reset (matcher : ProblemMatcher) (position : Nat) :
    matcher.reset.running position = none := by
  cases position with
  | zero => rfl
  | succ position =>
      rw [running, reset, List.getElem?_map]
      cases matcher.state[position]? <;> rfl

theorem running_of_le {matcher : ProblemMatcher} {position : Nat}
    (outside : matcher.state.length < position) : matcher.running position = none := by
  cases position with
  | zero => rfl
  | succ position => rw [running, List.getElem?_eq_none (by omega), Option.join_none]

/-! ### What a line does to the progress -/

/-- The progress at a position after a line: that of the pattern before it, which was
reached and has read the line. -/
def Reads (matcher : ProblemMatcher) (line : Text) (index : Nat) (issue : CapturedIssue) : Prop :=
  ∃ pattern captured, matcher.patterns[index]? = some pattern ∧
    pattern.read line = some captured ∧
    issue = ((matcher.running index).getD {}).merge captured ∧
    (index = 0 ∨ matcher.running index ≠ none)

theorem reads_setState {matcher : ProblemMatcher} {line : Text} {current index : Nat}
    {entry : Option CapturedIssue} {issue : CapturedIssue} (before : index ≤ current)
    (read : (matcher.setState current entry).Reads line index issue) :
    matcher.Reads line index issue := by
  unfold Reads at read
  rw [running_setState, if_neg (by omega)] at read
  exact read

/-- The loop below the last pattern reports nothing, and leaves an entry only where it
passes it over. -/
theorem matchesFrom_sets (line : Text) {count : Nat} {matcher : ProblemMatcher}
    (below : count < matcher.patterns.length) :
    (matcher.matchesFrom line count).1 = none ∧
      ∀ index issue, (matcher.matchesFrom line count).2.running (index + 1) = some issue →
        ((count ≤ index ∨ (index ≠ 0 ∧ matcher.running index = none)) ∧
          matcher.running (index + 1) = some issue) ∨
        (index < count ∧ matcher.Reads line index issue) := by
  induction count generalizing matcher with
  | zero => exact ⟨rfl, fun index issue set => .inl ⟨.inl (Nat.zero_le index), set⟩⟩
  | succ current inductionHypothesis =>
      -- The entry of a pattern that is reached is what the pattern reads, or nothing.
      have visited : ∀ entry,
          (∀ issue, entry = some issue → matcher.Reads line current issue) →
          ((matcher.setState current entry).matchesFrom line current).1 = none ∧
          ∀ index issue, ((matcher.setState current entry).matchesFrom line current).2.running
              (index + 1) = some issue →
            ((current + 1 ≤ index ∨ (index ≠ 0 ∧ matcher.running index = none)) ∧
              matcher.running (index + 1) = some issue) ∨
            (index < current + 1 ∧ matcher.Reads line index issue) := by
        intro entry read
        obtain ⟨silent, sets⟩ := @inductionHypothesis (matcher.setState current entry)
          (Nat.lt_of_succ_lt below)
        refine ⟨silent, fun index issue set => ?_⟩
        rcases sets index issue set with ⟨passed, old⟩ | ⟨earlier, reads⟩
        · rw [running_setState] at old
          split at old
          · rename_i same
            have isCurrent : index = current := Nat.succ.inj same.1
            subst isCurrent
            exact .inr ⟨Nat.lt_succ_self index, read issue old⟩
          · rename_i other
            have distinct : index ≠ current := by
              intro same
              rw [running_of_le (by omega)] at old
              cases old
            rcases passed with late | ⟨positive, skipped⟩
            · exact .inl ⟨.inl (by omega), old⟩
            · rw [running_setState] at skipped
              split at skipped
              · rename_i next
                exact .inl ⟨.inl (by omega), old⟩
              · exact .inl ⟨.inr ⟨positive, skipped⟩, old⟩
        · exact .inr ⟨by omega, reads_setState (by omega) reads⟩
      rw [matchesFrom]
      dsimp only
      split
      · rename_i skips
        obtain ⟨positive, isNone⟩ : current ≠ 0 ∧ matcher.running current = none := by
          simpa using skips
        obtain ⟨silent, sets⟩ := @inductionHypothesis matcher (Nat.lt_of_succ_lt below)
        refine ⟨silent, fun index issue set => ?_⟩
        rcases sets index issue set with ⟨passed, old⟩ | ⟨earlier, reads⟩
        · by_cases same : index = current
          · subst same
            exact .inl ⟨.inr ⟨positive, isNone⟩, old⟩
          · rcases passed with late | skipped
            · exact .inl ⟨.inl (by omega), old⟩
            · exact .inl ⟨.inr skipped, old⟩
        · exact .inr ⟨by omega, reads⟩
      · rename_i reached
        have isReached : current = 0 ∨ matcher.running current ≠ none := by
          simpa [or_iff_not_imp_left] using reached
        rw [List.getElem?_eq_getElem (Nat.lt_of_succ_lt below)]
        dsimp only
        split
        · rename_i captured read
          rw [if_neg (by omega)]
          exact visited _ fun issue same => ⟨_, captured,
            List.getElem?_eq_getElem (Nat.lt_of_succ_lt below), read, by cases same; rfl,
            isReached⟩
        · rw [if_neg (by omega)]
          refine visited none fun issue impossible => ?_
          cases impossible

/-- Either the progress through all the patterns but the last is there and the last one
reads the line, or nothing is reported.  An entry of the progress is then one that the loop
passes over, or what its pattern has read. -/
theorem matches_cases (line : Text) {matcher : ProblemMatcher} (multiline : matcher.Multiline) :
    (∃ issue last captured, matcher.running (matcher.patterns.length - 1) = some issue ∧
      matcher.patterns[matcher.patterns.length - 1]? = some last ∧
      last.read line = some captured ∧
      matcher.matches line = (some (matcher.finish (issue.merge captured)),
        if last.loop then matcher.reset.setState (matcher.patterns.length - 2) (some issue)
        else matcher.reset)) ∨
    ((matcher.matches line).1 = none ∧
      ∀ index issue, (matcher.matches line).2.running (index + 1) = some issue →
        (index ≠ 0 ∧ index + 2 < matcher.patterns.length ∧ matcher.running index = none ∧
          matcher.running (index + 1) = some issue) ∨
        matcher.Reads line index issue) := by
  obtain ⟨several, length⟩ := multiline
  obtain ⟨count, isCount⟩ : ∃ count, matcher.patterns.length = count + 2 :=
    ⟨matcher.patterns.length - 2, by omega⟩
  have isMatches : matcher.matches line = matcher.matchesFrom line (count + 2) := by
    unfold ProblemMatcher.matches
    split
    · rename_i single
      rw [single, List.length_singleton] at isCount
      omega
    · rw [isCount]
  have inside : count + 1 < matcher.patterns.length := by omega
  -- Without progress for the last pattern, only the loop below it counts.
  have rest : ∀ current : ProblemMatcher, current.patterns = matcher.patterns →
      current.state.length = count + 1 → current.running (count + 1) = none →
      (∀ index, index ≤ count → current.running index = matcher.running index) →
      (current.matchesFrom line (count + 1)).1 = none ∧
      ∀ index issue, (current.matchesFrom line (count + 1)).2.running (index + 1) = some issue →
        (index ≠ 0 ∧ index + 2 < count + 2 ∧ matcher.running index = none ∧
          matcher.running (index + 1) = some issue) ∨
        matcher.Reads line index issue := by
    intro current patterns size isNone same
    obtain ⟨silent, sets⟩ := matchesFrom_sets line (patterns ▸ inside)
    refine ⟨silent, fun index issue set => ?_⟩
    rcases sets index issue set with ⟨passed, old⟩ | ⟨earlier, pattern, captured, reads⟩
    · have early : index < count := by
        by_contra late
        rcases Nat.lt_or_ge count index with beyond | atCount
        · rw [running_of_le (by omega)] at old
          cases old
        · rw [show index = count by omega, isNone] at old
          cases old
      rcases passed with late | ⟨positive, skipped⟩
      · omega
      · rw [same index (by omega)] at skipped
        rw [same (index + 1) (by omega)] at old
        exact .inl ⟨positive, by omega, skipped, old⟩
    · rw [patterns, same index (by omega)] at reads
      exact .inr ⟨pattern, captured, reads⟩
  rw [isMatches, isCount, Nat.add_sub_cancel, show count + 2 - 1 = count + 1 from rfl,
    matchesFrom]
  dsimp only
  cases isRunning : matcher.running (count + 1) with
  | none =>
      rw [if_pos (by simp)]
      exact .inr (rest matcher rfl (by omega) isRunning fun _ _ => rfl)
  | some issue =>
      rw [if_neg (by simp), List.getElem?_eq_getElem inside]
      dsimp only
      split
      · rename_i captured read
        rw [if_pos isCount.symm]
        exact .inl ⟨issue, _, captured, rfl, rfl, read, rfl⟩
      · rw [if_pos isCount.symm, Nat.add_sub_cancel]
        refine .inr (rest _ rfl (List.length_set.trans (by omega)) ?_ fun index early => ?_)
        · rw [running_setState, if_pos ⟨rfl, by omega⟩]
        · rw [running_setState, if_neg (by omega)]

end ProblemMatcher

/-! ### Lines that follow the patterns -/

/-- The lines match the first patterns, each its own, and that is the merge of what they
capture. -/
inductive Follows (patterns : List ProblemPattern) : List Text → CapturedIssue → Prop where
  | start : Follows patterns [] {}
  | next {lines : List Text} {issue captured : CapturedIssue} {line : Text}
      {pattern : ProblemPattern} (before : Follows patterns lines issue)
      (isNext : patterns[lines.length]? = some pattern)
      (read : pattern.read line = some captured) :
      Follows patterns (lines ++ [line]) (issue.merge captured)

theorem Follows.reads {patterns : List ProblemPattern} {lines : List Text} {issue : CapturedIssue}
    (follows : Follows patterns lines issue) (index : Nat) {line : Text}
    (isLine : lines[index]? = some line) :
    ∃ pattern, patterns[index]? = some pattern ∧ (pattern.read line).isSome := by
  induction follows with
  | start => cases isLine
  | @next lines issue captured last pattern before isNext read inductionHypothesis =>
      rw [List.getElem?_append] at isLine
      split at isLine
      · exact inductionHypothesis isLine
      · rw [List.getElem?_singleton] at isLine
        split at isLine
        · cases isLine
          have isLast : index = lines.length := by omega
          exact ⟨pattern, isLast ▸ isNext, Option.isSome_of_mem read⟩
        · cases isLine

/-- The lines end with some that follow the first patterns and, if these are all but the
last pattern and that loops, lines that it matches. -/
def Ends (patterns : List ProblemPattern) (lines : List Text) (count : Nat)
    (issue : CapturedIssue) : Prop :=
  ∃ before heads tail, lines = before ++ heads ++ tail ∧ heads.length = count ∧
    Follows patterns heads issue ∧
    (tail = [] ∨ ∃ last, count + 1 = patterns.length ∧ patterns[count]? = some last ∧
      last.loop = true ∧ ∀ line ∈ tail, (last.read line).isSome)

theorem Ends.next {patterns : List ProblemPattern} {lines : List Text} {count : Nat}
    {issue captured : CapturedIssue} {line : Text} {pattern : ProblemPattern}
    (ends : Ends patterns lines count issue) (isNext : patterns[count]? = some pattern)
    (notLast : count + 1 < patterns.length) (read : pattern.read line = some captured) :
    Ends patterns (lines ++ [line]) (count + 1) (issue.merge captured) := by
  obtain ⟨before, heads, tail, rfl, rfl, follows, noTail | ⟨_, isLast, -⟩⟩ := ends
  · subst noTail
    refine ⟨before, heads ++ [line], [], by simp, by simp, ?_, .inl rfl⟩
    exact .next follows isNext read
  · omega

theorem Ends.loop {patterns : List ProblemPattern} {lines : List Text} {count : Nat}
    {issue captured : CapturedIssue} {line : Text} {last : ProblemPattern}
    (ends : Ends patterns lines count issue) (isLast : count + 1 = patterns.length)
    (isNext : patterns[count]? = some last) (loops : last.loop = true)
    (read : last.read line = some captured) : Ends patterns (lines ++ [line]) count issue := by
  obtain ⟨before, heads, tail, rfl, length, follows, tails⟩ := ends
  refine ⟨before, heads, tail ++ [line], by simp, length, follows, .inr ⟨last, isLast, isNext,
    loops, ?_⟩⟩
  intro other member
  rcases List.mem_append.mp member with inTail | isLine
  · rcases tails with noTail | ⟨same, -, isSame, -, matched⟩
    · rw [noTail] at inTail
      cases inTail
    · cases isNext.symm.trans isSame
      exact matched other inTail
  · rw [List.mem_singleton.mp isLine, read]
    rfl

theorem Ends.first (patterns : List ProblemPattern) (lines : List Text) :
    Ends patterns lines 0 {} :=
  ⟨lines, [], [], by simp, rfl, .start, .inl rfl⟩

/-! ### The turns of a matcher -/

/-- What happens to a matcher.  Another matcher may match the same line before it, or after
it, or so that the matcher does not get to read it. -/
inductive Turn where
  | reads (resetBefore : Bool) (line : Text) (resetAfter : Bool)
  | passes (line : Text)
  | resets

def ProblemMatcher.resetIf (matcher : ProblemMatcher) (reset : Bool) : ProblemMatcher :=
  if reset then matcher.reset else matcher

def Turn.apply (matcher : ProblemMatcher) : Turn → ProblemMatcher
  | .reads resetBefore line resetAfter =>
      ((matcher.resetIf resetBefore).matches line).2.resetIf resetAfter
  | .passes _ => matcher.reset
  | .resets => matcher.reset

def Turn.report (matcher : ProblemMatcher) : Turn → Option MatchedIssue
  | .reads resetBefore line _ => ((matcher.resetIf resetBefore).matches line).1
  | .passes _ => none
  | .resets => none

def Turn.line : Turn → List Text
  | .reads _ line _ => [line]
  | .passes line => [line]
  | .resets => []

/-- A matcher with the lines of its scope so far, and with the entries of its progress that
the latest of them has left over. -/
structure Progress where
  matcher : ProblemMatcher
  lines : List Text
  leftOver : Nat → Bool

/-- A line leaves the progress through a pattern over if there was none through the pattern
before it, unless only the last pattern comes after it. -/
def Turn.leavesOver (matcher : ProblemMatcher) (turn : Turn) (index : Nat) : Bool :=
  index ≠ 0 && index + 2 < matcher.patterns.length && (matcher.running index).isNone &&
    (matcher.running (index + 1)).isSome && ((turn.apply matcher).running (index + 1)).isSome

def Progress.step (progress : Progress) (turn : Turn) : Progress where
  matcher := turn.apply progress.matcher
  lines := progress.lines ++ turn.line
  leftOver := turn.leavesOver progress.matcher

/-- The line matches no pattern whose predecessor has its progress left over. -/
def Undisturbed (progress : Progress) : Turn → Prop
  | .reads false line _ => ∀ index pattern, progress.leftOver index = true →
      progress.matcher.patterns[index + 1]? = some pattern → pattern.read line = none
  | _ => True

theorem undisturbed_reads_iff {progress : Progress} {line : Text} {resetAfter : Bool} :
    Undisturbed progress (.reads false line resetAfter) ↔
      ∀ index < progress.matcher.patterns.length, progress.leftOver index = true →
        ((progress.matcher.patterns[index + 1]?).bind (·.read line)).isNone := by
  constructor
  · intro undisturbed index _ leftOver
    cases isNext : progress.matcher.patterns[index + 1]? with
    | none => rfl
    | some pattern =>
        exact Option.isNone_iff_eq_none.mpr (undisturbed index pattern leftOver isNext)
  · intro unread index pattern leftOver isNext
    have inside := (List.getElem?_eq_some_iff.mp isNext).1
    have isNone := unread index (Nat.lt_of_succ_lt inside) leftOver
    rwa [isNext, Option.bind_some, Option.isNone_iff_eq_none] at isNone

instance Undisturbed.decidable (progress : Progress) :
    ∀ turn, Decidable (Undisturbed progress turn)
  | .reads false _ _ => decidable_of_iff _ undisturbed_reads_iff.symm
  | .reads true _ _ => isTrue trivial
  | .passes _ => isTrue trivial
  | .resets => isTrue trivial

/-- A report of the last pattern follows lines that have matched the others. -/
def Sound (progress : Progress) (turn : Turn) : Prop :=
  ∀ reported, turn.report progress.matcher = some reported →
    ∃ count issue last line captured, count + 1 = progress.matcher.patterns.length ∧
      Ends progress.matcher.patterns progress.lines count issue ∧
      progress.matcher.patterns[count]? = some last ∧ turn.line = [line] ∧
      last.read line = some captured ∧
      reported = progress.matcher.finish (issue.merge captured)

/-- Every entry of the progress belongs to the latest lines, or is left over. -/
def Progress.Traced (progress : Progress) : Prop :=
  progress.matcher.Multiline ∧
    ∀ index issue, progress.matcher.running (index + 1) = some issue →
      (progress.leftOver index = true ∧ index + 2 < progress.matcher.patterns.length) ∨
        Ends progress.matcher.patterns progress.lines (index + 1) issue

theorem Turn.apply_rules (matcher : ProblemMatcher) (turn : Turn) :
    ∃ state, state.length = matcher.state.length ∧
      turn.apply matcher = { matcher with state } := by
  have reset : ∀ (current : ProblemMatcher) (ifReset : Bool), ∃ state,
      state.length = current.state.length ∧ current.resetIf ifReset = { current with state } := by
    intro current ifReset
    cases ifReset with
    | false => exact ⟨current.state, rfl, rfl⟩
    | true => exact ⟨_, List.length_map _, rfl⟩
  cases turn with
  | reads resetBefore line resetAfter =>
      obtain ⟨first, firstLength, isFirst⟩ := reset matcher resetBefore
      obtain ⟨second, secondLength, isSecond⟩ := (matcher.resetIf resetBefore).matches_rules line
      obtain ⟨third, thirdLength, isThird⟩ :=
        reset ((matcher.resetIf resetBefore).matches line).2 resetAfter
      rw [Turn.apply, isThird, isSecond, isFirst]
      rw [isSecond] at thirdLength
      rw [isFirst] at secondLength
      exact ⟨third, thirdLength.trans (secondLength.trans firstLength), rfl⟩
  | passes line => exact reset matcher true
  | resets => exact reset matcher true

theorem Progress.Traced.multiline_step {progress : Progress} (traced : progress.Traced)
    (turn : Turn) : (progress.step turn).matcher.Multiline ∧
      (progress.step turn).matcher.patterns = progress.matcher.patterns := by
  obtain ⟨state, length, same⟩ := turn.apply_rules progress.matcher
  rw [Progress.step, same]
  exact ⟨⟨traced.1.1, length ▸ traced.1.2⟩, rfl⟩

/-- A matcher without progress is traced. -/
theorem Progress.traced_of_none {progress : Progress} (multiline : progress.matcher.Multiline)
    (none : ∀ index, progress.matcher.running index = none) : progress.Traced := by
  refine ⟨multiline, fun index issue set => ?_⟩
  rw [none] at set
  cases set

/-- A pattern that reads the line extends what its predecessor has traced. -/
theorem Ends.reads {matcher : ProblemMatcher} {lines : List Text} {line : Text} {index : Nat}
    {issue : CapturedIssue} (inside : index + 1 < matcher.patterns.length)
    (read : matcher.Reads line index issue)
    (ends : ∀ position earlier, index = position + 1 → matcher.running index = some earlier →
      Ends matcher.patterns lines index earlier) :
    Ends matcher.patterns (lines ++ [line]) (index + 1) issue := by
  obtain ⟨pattern, captured, isPattern, isRead, same, reached⟩ := read
  subst same
  apply Ends.next _ isPattern inside isRead
  cases isRunning : matcher.running index with
  | none =>
      rcases reached with first | impossible
      · subst first
        exact Ends.first _ lines
      · exact absurd isRunning impossible
  | some earlier =>
      cases index with
      | zero => cases isRunning
      | succ position => exact ends position earlier rfl isRunning

theorem ProblemMatcher.Multiline.resetIf {matcher : ProblemMatcher}
    (multiline : matcher.Multiline) (reset : Bool) : (matcher.resetIf reset).Multiline := by
  cases reset with
  | false => exact multiline
  | true => exact ⟨multiline.1, (congrArg (· + 1) (List.length_map _)).trans multiline.2⟩

theorem ProblemMatcher.resetIf_of_running {matcher : ProblemMatcher} {reset : Bool}
    {position : Nat} {issue : CapturedIssue}
    (isSome : (matcher.resetIf reset).running position = some issue) : reset = false := by
  cases reset with
  | false => rfl
  | true =>
      rw [ProblemMatcher.resetIf, if_pos rfl, running_reset] at isSome
      cases isSome

theorem ProblemMatcher.resetIf_false (matcher : ProblemMatcher) :
    matcher.resetIf false = matcher :=
  rfl

theorem ProblemMatcher.resetIf_patterns (matcher : ProblemMatcher) (reset : Bool) :
    (matcher.resetIf reset).patterns = matcher.patterns := by
  cases reset <;> rfl

/-- The progress that a matcher reads a line with is traced, unless the pattern that comes
next does not read it. -/
theorem Progress.Traced.ends {progress : Progress} (traced : progress.Traced)
    {resetBefore resetAfter : Bool} {line : Text}
    (undisturbed : Undisturbed progress (.reads resetBefore line resetAfter)) {index : Nat}
    {issue : CapturedIssue}
    (isSome : (progress.matcher.resetIf resetBefore).running (index + 1) = some issue)
    {pattern : ProblemPattern} {captured : CapturedIssue}
    (isNext : progress.matcher.patterns[index + 1]? = some pattern)
    (read : pattern.read line = some captured) :
    Ends progress.matcher.patterns progress.lines (index + 1) issue := by
  cases ProblemMatcher.resetIf_of_running isSome
  rcases traced.2 index issue isSome with ⟨leftOver, -⟩ | ends
  · rw [undisturbed index pattern leftOver isNext] at read
    cases read
  · exact ends

theorem Progress.Traced.step {progress : Progress} {turn : Turn} (traced : progress.Traced)
    (undisturbed : Undisturbed progress turn) : (progress.step turn).Traced := by
  obtain ⟨multiline, patterns⟩ := traced.multiline_step turn
  refine ⟨multiline, fun index issue set => ?_⟩
  rw [patterns]
  have inside : index + 1 < progress.matcher.patterns.length := by
    by_contra outside
    rw [ProblemMatcher.running_of_le (by have := multiline.2; rw [patterns] at this; omega)] at set
    cases set
  cases turn with
  | passes line =>
      rw [Progress.step, Turn.apply, ProblemMatcher.running_reset] at set
      cases set
  | resets =>
      rw [Progress.step, Turn.apply, ProblemMatcher.running_reset] at set
      cases set
  | reads resetBefore line resetAfter =>
      cases ProblemMatcher.resetIf_of_running set
      have several := traced.1.resetIf resetBefore
      have isPatterns := progress.matcher.resetIf_patterns resetBefore
      rcases ProblemMatcher.matches_cases line several with
        ⟨running, last, captured, isRunning, isLast, read, result⟩ | ⟨-, sets⟩
      · rw [isPatterns] at isRunning isLast result
        rw [Progress.step, Turn.apply, result, ProblemMatcher.resetIf_false] at set
        dsimp only at set
        split at set
        · rename_i loops
          rw [ProblemMatcher.running_setState, ProblemMatcher.running_reset] at set
          split at set
          · rename_i isEntry
            cases set
            have isCount : progress.matcher.patterns.length - 1 = index + 1 := by omega
            rw [isCount] at isRunning isLast
            exact .inr ((traced.ends undisturbed isRunning isLast read).loop (by omega) isLast
              loops read)
          · cases set
        · rw [ProblemMatcher.running_reset] at set
          cases set
      · rcases sets index issue set with ⟨positive, notLast, isNone, old⟩ | reads
        · cases ProblemMatcher.resetIf_of_running old
          rw [isPatterns] at notLast
          refine .inl ⟨?_, notLast⟩
          simp only [Progress.step, Turn.leavesOver, Bool.and_eq_true, decide_eq_true_eq]
          exact ⟨⟨⟨⟨positive, notLast⟩, Option.isNone_iff_eq_none.mpr isNone⟩,
            Option.isSome_of_mem old⟩, Option.isSome_of_mem set⟩
        · right
          rw [← isPatterns]
          refine Ends.reads (isPatterns ▸ inside) reads fun position earlier same isRunning => ?_
          subst same
          obtain ⟨pattern, captured, isNext, read, -⟩ := reads
          rw [isPatterns] at isNext ⊢
          exact traced.ends undisturbed isRunning isNext read

theorem Progress.Traced.sound {progress : Progress} {turn : Turn} (traced : progress.Traced)
    (undisturbed : Undisturbed progress turn) : Sound progress turn := by
  intro reported isReported
  cases turn with
  | passes line => cases isReported
  | resets => cases isReported
  | reads resetBefore line resetAfter =>
      have several := traced.1.resetIf resetBefore
      have isPatterns := progress.matcher.resetIf_patterns resetBefore
      rcases ProblemMatcher.matches_cases line several with
        ⟨running, last, captured, isRunning, isLast, read, result⟩ | ⟨silent, -⟩
      · rw [isPatterns] at isRunning isLast
        cases ProblemMatcher.resetIf_of_running isRunning
        rw [Turn.report, result] at isReported
        cases isReported
        obtain ⟨count, isCount⟩ : ∃ count, progress.matcher.patterns.length = count + 2 :=
          ⟨progress.matcher.patterns.length - 2, by have := traced.1.1; omega⟩
        rw [isCount] at isRunning isLast
        exact ⟨count + 1, running, last, line, captured, isCount.symm,
          traced.ends undisturbed isRunning isLast read, isLast, rfl, read, rfl⟩
      · rw [Turn.report, silent] at isReported
        cases isReported

/-! ### Runs -/

/-- A matcher as it is compiled, in a scope that has scanned some lines. -/
def Progress.start (matcher : ProblemMatcher) (lines : List Text) : Progress where
  matcher := matcher
  lines := lines
  leftOver := fun _ => false

/-- A compiled matcher has no progress, and an entry for each pattern but the last. -/
theorem ProblemMatcher.compile_state {config : ProblemMatcherConfig} {matcher : ProblemMatcher}
    (compiled : ProblemMatcher.compile config = .ok matcher) :
    matcher.state = List.replicate (matcher.patterns.length - 1) none := by
  unfold ProblemMatcher.compile at compiled
  obtain ⟨-, -, compiled⟩ := bind_eq_ok.mp compiled
  obtain ⟨-, -, compiled⟩ := bind_eq_ok.mp compiled
  split at compiled
  · cases compiled
  · split at compiled
    · cases compiled
    · obtain ⟨⟨assigned, patterns⟩, -, compiled⟩ := bind_eq_ok.mp compiled
      dsimp only at compiled
      split at compiled
      · cases compiled
      · cases compiled
        rfl

theorem Progress.traced_start {config : ProblemMatcherConfig} {matcher : ProblemMatcher}
    (compiled : ProblemMatcher.compile config = .ok matcher)
    (several : 2 ≤ matcher.patterns.length) (lines : List Text) :
    (Progress.start matcher lines).Traced := by
  have empty := ProblemMatcher.compile_state compiled
  apply Progress.traced_of_none
  · refine ⟨several, ?_⟩
    rw [Progress.start, empty, List.length_replicate]
    exact Nat.sub_add_cancel (Nat.le_of_succ_le several)
  · intro index
    cases index with
    | zero => rfl
    | succ index =>
        rw [Progress.start, ProblemMatcher.running, empty, List.getElem?_replicate]
        split <;> rfl

/-- In every run in which no line disturbs what is left over, the reports of a matcher follow
lines that have matched its patterns in order. -/
theorem reports_sound {config : ProblemMatcherConfig} {matcher : ProblemMatcher}
    (compiled : ProblemMatcher.compile config = .ok matcher)
    (several : 2 ≤ matcher.patterns.length) (lines : List Text) (turns : List Turn)
    (undisturbed : Machine.Along Progress.step Undisturbed (.start matcher lines) turns) :
    Machine.Along Progress.step Sound (.start matcher lines) turns :=
  undisturbed.safe (fun _ _ traced good => traced.step good)
    (fun _ _ traced good => traced.sound good) (Progress.traced_start compiled several lines)

/-- A matcher whose progress cannot be left over. -/
def Progress.Short (progress : Progress) : Prop :=
  progress.matcher.patterns.length ≤ 3 ∧ ∀ index, progress.leftOver index = false

theorem Progress.Short.step {progress : Progress} (short : progress.Short) (turn : Turn) :
    (progress.step turn).Short := by
  obtain ⟨state, -, same⟩ := turn.apply_rules progress.matcher
  refine ⟨?_, fun index => ?_⟩
  · rw [Progress.step, same]
    exact short.1
  · have few := short.1
    have none : ¬ (index ≠ 0 ∧ index + 2 < progress.matcher.patterns.length) := by omega
    simp only [Progress.step, Turn.leavesOver, Bool.and_eq_false_iff, decide_eq_false_iff_not]
    exact .inl (.inl (.inl (not_and_or.mp none)))

theorem Progress.Short.undisturbed {progress : Progress} (short : progress.Short) (turn : Turn) :
    Undisturbed progress turn := by
  unfold Undisturbed
  split
  · intro index pattern leftOver
    rw [short.2 index] at leftOver
    cases leftOver
  · trivial

/-- With up to three patterns nothing is ever left over. -/
theorem reports_sound_of_short {config : ProblemMatcherConfig} {matcher : ProblemMatcher}
    (compiled : ProblemMatcher.compile config = .ok matcher)
    (several : 2 ≤ matcher.patterns.length) (short : matcher.patterns.length ≤ 3)
    (lines : List Text) (turns : List Turn) :
    Machine.Along Progress.step Sound (.start matcher lines) turns := by
  have always : Machine.Along Progress.step (fun _ _ => True) (.start matcher lines) turns :=
    .of_forall (fun _ _ => trivial) _ _
  have isShort : (Progress.start matcher lines).Short := ⟨short, fun _ => rfl⟩
  exact reports_sound compiled several lines turns
    (always.safe (fun _ turn short _ => short.step turn)
      (fun _ turn short _ => short.undisturbed turn) isShort)

/-! ### The turns of a scan -/

/-- The turn of a matcher that has been reset. -/
def Turn.afterReset : Turn → Turn
  | .reads _ line resetAfter => .reads true line resetAfter
  | turn => turn

theorem ProblemMatcher.reset_reset (matcher : ProblemMatcher) :
    matcher.reset.reset = matcher.reset := by
  rw [ProblemMatcher.reset, ProblemMatcher.reset, List.map_map]
  rfl

theorem ProblemMatcher.resetIf_reset (matcher : ProblemMatcher) (reset : Bool) :
    matcher.reset.resetIf reset = matcher.reset := by
  cases reset with
  | false => rfl
  | true => exact matcher.reset_reset

theorem Turn.apply_reset (matcher : ProblemMatcher) (turn : Turn) :
    turn.apply matcher.reset = turn.afterReset.apply matcher := by
  cases turn with
  | reads resetBefore line resetAfter =>
      rw [Turn.apply, matcher.resetIf_reset]
      rfl
  | passes line => exact matcher.reset_reset
  | resets => exact matcher.reset_reset

theorem Turn.report_reset (matcher : ProblemMatcher) (turn : Turn) :
    turn.report matcher.reset = turn.afterReset.report matcher := by
  cases turn with
  | reads resetBefore line resetAfter =>
      rw [Turn.report, matcher.resetIf_reset]
      rfl
  | passes line => rfl
  | resets => rfl

omit [Regexes] in
theorem Turn.line_afterReset (turn : Turn) : turn.afterReset.line = turn.line := by
  cases turn <;> rfl

theorem zipWith_passes (line : Text) (matchers : List ProblemMatcher) :
    List.zipWith Turn.apply matchers (matchers.map fun _ => .passes line) =
      matchers.map ProblemMatcher.reset := by
  induction matchers with
  | nil => rfl
  | cons matcher matchers inductionHypothesis =>
      rw [List.map_cons, List.zipWith_cons_cons, inductionHypothesis, List.map_cons, Turn.apply]

theorem zipWith_reset {Result : Type} {use : ProblemMatcher → Turn → Result}
    (same : ∀ matcher turn, use matcher.reset turn = use matcher turn.afterReset)
    (matchers : List ProblemMatcher) (turns : List Turn) :
    List.zipWith use (matchers.map ProblemMatcher.reset) turns =
      List.zipWith use matchers (turns.map Turn.afterReset) := by
  rw [List.zipWith_map_left, List.zipWith_map_right]
  congr 1
  funext matcher turn
  exact same matcher turn

/-- A scan gives every matcher of its scope one turn with the line, and its annotation is the
report of one of these. -/
theorem scanMatchers_turns [Files] (workspace : Option Text) (line : Text)
    (done matchers : List ProblemMatcher) :
    ∃ (reset : Bool) (turns : List Turn), turns.length = matchers.length ∧
      (∀ turn ∈ turns, turn.line = [line]) ∧
      (scanMatchers workspace line done matchers).2 =
        done.map (·.resetIf reset) ++ List.zipWith Turn.apply matchers turns ∧
      ∀ note, (scanMatchers workspace line done matchers).1 = some note →
        ∃ reported, some reported ∈ List.zipWith Turn.report matchers turns ∧
          reported.intoAnnotation workspace = some note := by
  induction size : matchers.length generalizing done matchers with
  | zero =>
      cases List.length_eq_zero_iff.mp size
      refine ⟨false, [], rfl, by simp, ?_, ?_⟩
      · rw [scanMatchers]
        simp [ProblemMatcher.resetIf]
      · rw [scanMatchers]
        intro note impossible
        cases impossible
  | succ count inductionHypothesis =>
      cases matchers with
      | nil => cases size
      | cons matcher rest =>
          rw [scanMatchers]
          split
          · rename_i after missed
            obtain ⟨reset, turns, length, ofLine, result, reports⟩ :=
              inductionHypothesis (done ++ [after]) rest (Nat.succ.inj size)
            refine ⟨reset, .reads false line reset :: turns, ?_, ?_, ?_, ?_⟩
            · rw [List.length_cons, length]
            · exact List.forall_mem_cons.mpr ⟨rfl, ofLine⟩
            · rw [result, List.map_append, List.append_assoc, List.zipWith_cons_cons, Turn.apply,
                matcher.resetIf_false, missed]
              rfl
            · intro note isAnnotation
              obtain ⟨reported, member, same⟩ := reports note isAnnotation
              exact ⟨reported, List.mem_cons_of_mem _ member, same⟩
          · rename_i issue after matched
            dsimp only
            split
            · rename_i note isAnnotation
              refine ⟨true, .reads false line false :: rest.map fun _ => .passes line,
                ?_, ?_, ?_, ?_⟩
              · rw [List.length_cons, List.length_map, Nat.succ.inj size]
              · refine List.forall_mem_cons.mpr ⟨rfl, fun turn member => ?_⟩
                obtain ⟨_, -, rfl⟩ := List.mem_map.mp member
                rfl
              · rw [List.zipWith_cons_cons, zipWith_passes, Turn.apply, matcher.resetIf_false,
                  matched, List.append_assoc]
                rfl
              · intro other same
                cases same
                refine ⟨issue, ?_, isAnnotation⟩
                rw [List.zipWith_cons_cons, Turn.report, matcher.resetIf_false, matched]
                exact List.mem_cons_self
            · obtain ⟨reset, turns, length, ofLine, result, reports⟩ :=
                inductionHypothesis (done.map ProblemMatcher.reset ++ [after])
                  (rest.map ProblemMatcher.reset)
                  ((List.length_map _).trans (Nat.succ.inj size))
              refine ⟨true, .reads false line reset :: turns.map Turn.afterReset,
                ?_, ?_, ?_, ?_⟩
              · rw [List.length_cons, List.length_map, length]
              · refine List.forall_mem_cons.mpr ⟨rfl, fun turn member => ?_⟩
                obtain ⟨other, isOther, rfl⟩ := List.mem_map.mp member
                rw [other.line_afterReset]
                exact ofLine other isOther
              · have twice : (fun matcher : ProblemMatcher => matcher.reset.resetIf reset) =
                    fun matcher => matcher.resetIf true :=
                  funext fun matcher => matcher.resetIf_reset reset
                rw [result, zipWith_reset fun matcher turn => turn.apply_reset matcher,
                  List.map_append, List.map_map, List.append_assoc, List.zipWith_cons_cons,
                  Turn.apply, matcher.resetIf_false, matched]
                simp only [Function.comp_def, twice]
                rfl
              · intro note isAnnotation
                obtain ⟨reported, member, same⟩ := reports note isAnnotation
                rw [zipWith_reset fun matcher turn => turn.report_reset matcher] at member
                exact ⟨reported, List.mem_cons_of_mem _ member, same⟩

/-- A scan is a turn of each matcher of its scope with the line, without its colours. -/
theorem ProblemMatcherRegistry.scan_turns [Files] (registry : ProblemMatcherRegistry)
    (scope : String) (line : Text) :
    ∃ turns : List Turn, turns.length = (registry.matchersOf scope).length ∧
      (∀ turn ∈ turns, turn.line = [stripAnsiColor line]) ∧
      (registry.scan scope line).2.matchersOf scope =
        List.zipWith Turn.apply (registry.matchersOf scope) turns ∧
      ∀ note, (registry.scan scope line).1 = some note →
        ∃ reported, some reported ∈
            List.zipWith Turn.report (registry.matchersOf scope) turns ∧
          reported.intoAnnotation (registry.workspace scope) = some note := by
  unfold scan
  cases present : registry.scopes[scope]? with
  | none =>
      have none : registry.matchersOf scope = [] := by
        rw [matchersOf, present, Option.getD_none]
      refine ⟨[], by rw [none]; rfl, by simp, ?_, fun note impossible => ?_⟩
      · rw [none, List.zipWith_nil_left]
      · cases impossible
  | some matchers =>
      have isActive : registry.matchersOf scope = matchers := by
        rw [matchersOf, present, Option.getD_some]
      obtain ⟨reset, turns, length, ofLine, result, reports⟩ :=
        scanMatchers_turns (registry.workspace scope) (stripAnsiColor line) [] matchers
      rw [isActive]
      refine ⟨turns, length, ofLine, ?_, reports⟩
      dsimp only
      rw [matchersOf_insert, if_pos rfl, result, List.map_nil, List.nil_append]

/-- So is a reset of the scope, without a line. -/
theorem ProblemMatcherRegistry.resetScope_turns (registry : ProblemMatcherRegistry)
    (scope : String) :
    (registry.resetScope scope).matchersOf scope =
      (registry.matchersOf scope).map fun matcher => Turn.resets.apply matcher := by
  rw [resetScope, matchersOf_alter registry scope scope rfl, if_pos rfl]
  rfl

end Progress

namespace Sample

/-- A matcher whose patterns are words, the first of which is the message. -/
def wordsConfig (patterns : List String) : ProblemMatcherConfig where
  owner := "words".toList
  pattern := patterns.mapIdx fun index word =>
    { regexp := word.toList, message := if index = 0 then some 0 else none }

def wordsMatcher (patterns : List String) : ProblemMatcher where
  owner := "words".toList
  defaultSeverity := []
  defaultFromPath := []
  patterns := patterns.mapIdx fun index word =>
    { regex := word.toList, file := none, line := none, column := none, severity := none,
      code := none, message := if index = 0 then some 0 else none, fromPath := none, loop := false }
  state := List.replicate (patterns.length - 1) none

def reading (lines : List String) : List Turn :=
  lines.map fun line => .reads false line.toList false

/-- Four lines that match four patterns disturb nothing. -/
theorem four_patterns_sound :
    Machine.Along Progress.step Sound (.start (wordsMatcher ["one", "two", "three", "four"]) [])
      (reading ["one", "two", "three", "four"]) := by
  have compiled : ProblemMatcher.compile (wordsConfig ["one", "two", "three", "four"]) =
      .ok (wordsMatcher ["one", "two", "three", "four"]) := by rfl
  exact reports_sound compiled (by decide) [] _ (by decide)

/-- The fourth line matches what is left over from the second one. -/
theorem left_over_progress_is_reported :
    ¬ Machine.Along Progress.step Sound (.start (wordsMatcher ["one", "two", "three", "four"]) [])
      (reading ["one", "two", "three", "three", "four"]) := by
  intro sound
  obtain ⟨-, -, -, -, unsound, -⟩ := sound
  obtain ⟨count, issue, last, line, captured, isCount, ends, isLast, -⟩ := unsound _ rfl
  cases Nat.succ.inj isCount
  obtain ⟨before, heads, tail, lines, length, follows, noTail | ⟨other, -, isOther, loops, -⟩⟩ :=
    ends
  · subst noTail
    rw [List.append_nil] at lines
    -- Only the three latest lines count, and the first of them is the second line.
    have isHeads : ["two".toList, "three".toList, "three".toList] = heads :=
      (List.append_inj' (show ["one".toList] ++ _ = before ++ heads from lines)
        (length.symm ▸ rfl)).2
    subst isHeads
    obtain ⟨first, isFirst, read⟩ := follows.reads 0 rfl
    cases isFirst
    revert read
    decide
  · cases isOther
    cases loops

end Sample

end GitZero.Agent.ProblemMatchers
