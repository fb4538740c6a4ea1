/-
Module: GitZero.Agent.DeploymentPolicies
Purpose: `deployment_pattern_matches`: whether the pattern of a deployment branch policy matches
  a ref.
Trusted boundary: none
Main exports: characterClass, calls, matchRecursion, deploymentPatternMatches
-/
import GitZero.Agent.Commands
import GitZero.Lib.MemoizedRecursion

namespace GitZero.Agent.DeploymentPolicies

open Commands (byteLength)
open Expression (Text)
open MemoizedRecursion

def maxDeploymentBranchPatternBytes : Nat := 1024

section Pattern

variable (pattern : Text)

/-- The characters of a class from `index` on, with whether each is escaped, and the index of the
`]`, or the end of the pattern. -/
def collectValues (index : Nat) (values : List (Char × Bool)) :
    Option (Nat × List (Char × Bool)) :=
  match _here : pattern[index]? with
  | none => some (index, values)
  | some ']' => some (index, values)
  | some '\\' =>
      match pattern[index + 1]? with
      | none => none
      | some character => collectValues (index + 2) (values ++ [(character, true)])
  | some character => collectValues (index + 1) (values ++ [(character, false)])
termination_by pattern.length - index
decreasing_by
  · have inside := (List.getElem?_eq_some_iff.mp _here).1
    omega
  · have inside := (List.getElem?_eq_some_iff.mp _here).1
    omega

/-- The loop over the values: an unescaped `-` between two of them makes a range. -/
def anyValue (value : Char) : List (Char × Bool) → Bool
  | (first, _) :: ('-', false) :: (last, _) :: rest =>
      (first ≤ last && first ≤ value && value ≤ last) || anyValue value rest
  | (character, _) :: rest => character = value || anyValue value rest
  | [] => false

/-- The index behind the class that starts at `start`, and whether the class matches. -/
def characterClass (start : Nat) (value : Char) : Option (Nat × Bool) :=
  let negated := (pattern[start + 1]?).any fun character => character = '!' || character = '^'
  match collectValues pattern (if negated then start + 2 else start + 1) [] with
  | none => none
  | some (index, values) =>
      if index ≥ pattern.length || values = [] then none
      else some (index + 1, if negated then !anyValue value values else anyValue value values)

/-- `at_segment_start` of a candidate, and what makes stars of a pattern a globstar. -/
def atSegmentStart (text : Text) (index : Nat) : Bool :=
  index = 0 || text[index - 1]? = some '/'

/-- The index behind the stars from `index` on. -/
def afterStars (index : Nat) : Nat :=
  index + ((pattern.drop index).takeWhile (· = '*')).length

def globstarDirectory (patternIndex : Nat) : Bool :=
  afterStars pattern patternIndex ≥ patternIndex + 2 &&
    pattern[afterStars pattern patternIndex]? = some '/' && atSegmentStart pattern patternIndex

end Pattern

def callIf (condition : Bool) (patternIndex candidateIndex : Nat) : Calls (Nat × Nat) :=
  if condition then .one (patternIndex, candidateIndex) else .returns false

section Calls

variable (pattern candidate : Text)

/-- The stars at `pattern_index` match nothing more, or a directory or character more. -/
def starCalls (patternIndex candidateIndex : Nat) : Calls (Nat × Nat) :=
  let atStart := atSegmentStart candidate candidateIndex
  let behind := afterStars pattern patternIndex
  if globstarDirectory pattern patternIndex then
    match candidate[candidateIndex]? with
    | none => .one (behind + 1, candidateIndex)
    | some first =>
        if first = '.' && atStart then .one (behind + 1, candidateIndex)
        else
          match (candidate.drop candidateIndex).findIdx? (· = '/') with
          | none => .one (behind + 1, candidateIndex)
          | some relativeSlash =>
              .either (behind + 1, candidateIndex)
                (patternIndex, candidateIndex + relativeSlash + 1)
  else if atStart && candidate[candidateIndex]? = some '.' then .returns false
  else
    match candidate[candidateIndex]? with
    | none => .one (behind, candidateIndex)
    | some character =>
        if character = '/' then .one (behind, candidateIndex)
        else .either (behind, candidateIndex) (patternIndex, candidateIndex + 1)

/-- One call of `matches`: the calls that it makes. -/
def calls : Nat × Nat → Calls (Nat × Nat)
  | (patternIndex, candidateIndex) =>
      let visible (character : Char) : Bool :=
        character ≠ '/' && !(atSegmentStart candidate candidateIndex && character = '.')
      match pattern[patternIndex]? with
      | none => .returns (candidateIndex = candidate.length)
      | some '\\' =>
          match pattern[patternIndex + 1]? with
          | none => .returns false
          | some literal => callIf (candidate[candidateIndex]? = some literal)
              (patternIndex + 2) (candidateIndex + 1)
      | some '?' =>
          callIf ((candidate[candidateIndex]?).any visible) (patternIndex + 1) (candidateIndex + 1)
      | some '[' =>
          match candidate[candidateIndex]? with
          | none => .returns false
          | some character =>
              match characterClass pattern patternIndex character with
              | none => .returns false
              | some (nextPattern, classMatches) =>
                  callIf (visible character && classMatches) nextPattern (candidateIndex + 1)
      | some '*' => starCalls pattern candidate patternIndex candidateIndex
      | some literal => callIf (candidate[candidateIndex]? = some literal)
          (patternIndex + 1) (candidateIndex + 1)

/-! ### Termination -/

variable {pattern candidate}

theorem collectValues_le {index next : Nat} {values collected : List (Char × Bool)}
    (collects : collectValues pattern index values = some (next, collected)) : index ≤ next := by
  fun_induction collectValues pattern index values with
  | case1 =>
      cases collects
      exact le_rfl
  | case2 =>
      cases collects
      exact le_rfl
  | case3 => cases collects
  | case4 index values _ character _ inductionHypothesis =>
      have later := inductionHypothesis collects
      omega
  | case5 index values character _ _ _ inductionHypothesis =>
      have later := inductionHypothesis collects
      omega

theorem characterClass_lt {start next : Nat} {value : Char} {classMatches : Bool}
    (isClass : characterClass pattern start value = some (next, classMatches)) : start < next := by
  rw [characterClass] at isClass
  split at isClass
  · cases isClass
  · next index values collected =>
      split at isClass
      · cases isClass
      · cases isClass
        have later := collectValues_le collected
        split at later
        · omega
        · omega

theorem lt_afterStars {index : Nat} (star : pattern[index]? = some '*') :
    index < afterStars pattern index := by
  obtain ⟨inside, isStar⟩ := List.getElem?_eq_some_iff.mp star
  rw [afterStars, List.drop_eq_getElem_cons inside, isStar,
    List.takeWhile_cons_of_pos (by decide), List.length_cons]
  omega

theorem keys_callIf {condition : Bool} {patternIndex candidateIndex : Nat} {next : Nat × Nat}
    (member : next ∈ (callIf condition patternIndex candidateIndex).keys) :
    condition = true ∧ next = (patternIndex, candidateIndex) := by
  cases condition with
  | false => cases member
  | true => exact ⟨rfl, List.mem_singleton.mp member⟩

/-- The lexicographic order of what is left of the pattern and of the candidate. -/
def rank (pattern candidate : Text) (key : Nat × Nat) : Nat × Nat :=
  (pattern.length - key.1, candidate.length - key.2)

theorem rank_forward {patternIndex nextPattern candidateIndex nextCandidate : Nat}
    {character : Char} (here : pattern[patternIndex]? = some character)
    (later : patternIndex < nextPattern) :
    Prod.Lex (· < ·) (· < ·) (rank pattern candidate (nextPattern, nextCandidate))
      (rank pattern candidate (patternIndex, candidateIndex)) := by
  have inside := (List.getElem?_eq_some_iff.mp here).1
  refine Prod.Lex.left _ _ ?_
  change pattern.length - nextPattern < pattern.length - patternIndex
  omega

theorem rank_along {patternIndex candidateIndex nextCandidate : Nat} {character : Char}
    (here : candidate[candidateIndex]? = some character) (later : candidateIndex < nextCandidate) :
    Prod.Lex (· < ·) (· < ·) (rank pattern candidate (patternIndex, nextCandidate))
      (rank pattern candidate (patternIndex, candidateIndex)) := by
  have inside := (List.getElem?_eq_some_iff.mp here).1
  refine Prod.Lex.right _ ?_
  change candidate.length - nextCandidate < candidate.length - candidateIndex
  omega

theorem starCalls_decreasing {patternIndex candidateIndex : Nat} {next : Nat × Nat}
    (star : pattern[patternIndex]? = some '*')
    (member : next ∈ (starCalls pattern candidate patternIndex candidateIndex).keys) :
    Prod.Lex (· < ·) (· < ·) (rank pattern candidate next)
      (rank pattern candidate (patternIndex, candidateIndex)) := by
  have behind := lt_afterStars star
  have past : ∀ more nextCandidate, Prod.Lex (· < ·) (· < ·)
      (rank pattern candidate (afterStars pattern patternIndex + more, nextCandidate))
      (rank pattern candidate (patternIndex, candidateIndex)) :=
    fun more nextCandidate => rank_forward star (by omega)
  rw [starCalls] at member
  split at member
  · split at member
    · cases List.mem_singleton.mp member
      exact past 1 _
    · next first here =>
        split at member
        · cases List.mem_singleton.mp member
          exact past 1 _
        · split at member
          · cases List.mem_singleton.mp member
            exact past 1 _
          · rcases List.mem_pair.mp member with rfl | rfl
            · exact past 1 _
            · exact rank_along here (by omega)
  · split at member
    · cases member
    · split at member
      · cases List.mem_singleton.mp member
        exact past 0 _
      · next character here =>
          split at member
          · cases List.mem_singleton.mp member
            exact past 0 _
          · rcases List.mem_pair.mp member with rfl | rfl
            · exact past 0 _
            · exact rank_along here (by omega)

theorem calls_decreasing (key next : Nat × Nat)
    (member : next ∈ (calls pattern candidate key).keys) :
    Prod.Lex (· < ·) (· < ·) (rank pattern candidate next) (rank pattern candidate key) := by
  obtain ⟨patternIndex, candidateIndex⟩ := key
  rw [calls] at member
  dsimp only at member
  split at member
  · cases member
  · next here =>
      split at member
      · cases member
      · cases (keys_callIf member).2
        exact rank_forward here (by omega)
  · next here =>
      cases (keys_callIf member).2
      exact rank_forward here (by omega)
  · next here =>
      split at member
      · cases member
      · split at member
        · cases member
        · next nextPattern classMatches isClass =>
            cases (keys_callIf member).2
            exact rank_forward here (characterClass_lt isClass)
  · next here => exact starCalls_decreasing here member
  · next literal _ _ _ _ here =>
      cases (keys_callIf member).2
      exact rank_forward here (by omega)

/-- The recursion of `matches`. -/
def matchRecursion (pattern candidate : Text) : Recursion (Nat × Nat) where
  calls := calls pattern candidate
  rank := rank pattern candidate
  decreasing := calls_decreasing

/-- Whether a branch matches a pattern of a deployment policy. -/
def deploymentPatternMatches (pattern candidate : Text) : Bool :=
  if pattern = [] || byteLength pattern > maxDeploymentBranchPatternBytes ||
      pattern.any (fun character => ['\x00', '\n', '\r'].contains character) then false
  else ((matchRecursion pattern candidate).memoized (0, 0) []).1

end Calls

end GitZero.Agent.DeploymentPolicies
