/-
Module: GitZero.Proofs.DeploymentPatterns
Purpose: The pattern of a deployment branch policy matches the refs that its elements describe.
Trusted boundary: none
Main exports: Admissible, Spells, calls_equation, deployment_pattern_matches_iff
-/
import GitZero.Agent.DeploymentPolicies
import GitZero.Lib.PathPatterns

namespace GitZero.Agent.DeploymentPolicies

open Commands (byteLength)
open Expression (Text)
open MemoizedRecursion PathPatterns

/-! ### Positions -/

section Positions

variable {text : Text} {index : Nat} {char : Char}

theorem drop_of_getElem? (here : text[index]? = some char) :
    text.drop index = char :: text.drop (index + 1) := by
  obtain ⟨inside, isChar⟩ := List.getElem?_eq_some_iff.mp here
  rw [List.drop_eq_getElem_cons inside, isChar]

theorem drop_eq_cons_iff {tail : Text} :
    text.drop index = char :: tail ↔ text[index]? = some char ∧ tail = text.drop (index + 1) := by
  constructor
  · intro same
    have here : text[index]? = some char := by
      rw [← List.head?_drop, same, List.head?_cons]
    rw [drop_of_getElem? here] at same
    exact ⟨here, (List.cons.inj same).2.symm⟩
  · rintro ⟨here, rfl⟩
    exact drop_of_getElem? here

theorem drop_of_none (past : text[index]? = none) : text.drop index = [] :=
  List.drop_eq_nil_iff.mpr (List.getElem?_eq_none_iff.mp past)

/-- The first `/` of a text ends its first directory. -/
theorem findIdx?_slash_iff :
    text.findIdx? (· = '/') = some index ↔
      ∃ directory tail, text = directory ++ '/' :: tail ∧ '/' ∉ directory ∧
        directory.length = index := by
  induction text generalizing index with
  | nil => simp
  | cons char text inductionHypothesis =>
      rw [List.findIdx?_cons]
      by_cases slash : char = '/'
      · rw [if_pos (by simpa using slash)]
        constructor
        · intro isIndex
          cases isIndex
          exact ⟨[], text, by rw [slash, List.nil_append], List.not_mem_nil, rfl⟩
        · rintro ⟨directory, tail, split, inside, isIndex⟩
          cases directory with
          | nil => rw [← isIndex, List.length_nil]
          | cons first directory =>
              rw [← (List.cons.inj split).1, slash] at inside
              exact absurd List.mem_cons_self inside
      · rw [if_neg (by simpa using slash), Option.map_eq_some_iff]
        constructor
        · rintro ⟨before, found, rfl⟩
          obtain ⟨directory, tail, split, inside, isIndex⟩ := inductionHypothesis.mp found
          refine ⟨char :: directory, tail, by rw [split, List.cons_append], ?_, ?_⟩
          · rw [List.mem_cons, not_or]
            exact ⟨Ne.symm slash, inside⟩
          · rw [List.length_cons, isIndex]
        · rintro ⟨directory, tail, split, inside, rfl⟩
          cases directory with
          | nil => exact absurd (List.cons.inj split).1 slash
          | cons first directory =>
              refine ⟨directory.length, inductionHypothesis.mpr ⟨directory, tail, ?_, ?_, rfl⟩, rfl⟩
              · exact (List.cons.inj split).2
              · exact fun member => inside (List.mem_cons_of_mem _ member)

theorem slash_of_split {directory tail : Text}
    (split : text.drop index = directory ++ '/' :: tail) :
    text[index + directory.length]? = some '/' ∧
      tail = text.drop (index + directory.length + 1) := by
  have behind := congrArg (List.drop directory.length) split
  rw [List.drop_drop, List.drop_left] at behind
  exact drop_eq_cons_iff.mp behind

theorem head?_dot_iff {directory tail : Text} :
    (directory ++ '/' :: tail).head? = some '.' ↔ directory.head? = some '.' := by
  cases directory with
  | nil => simp
  | cons first directory => exact Iff.rfl

theorem atSegmentStart_succ (text : Text) (index : Nat) :
    atSegmentStart text (index + 1) = decide (text[index]? = some '/') := by
  simp [atSegmentStart]

theorem atSegmentStart_behind (here : text[index]? = some char) :
    atSegmentStart text (index + 1) = decide (char = '/') := by
  rw [atSegmentStart_succ, here]
  simp

end Positions

/-! ### Classes -/

section Classes

variable {pattern : Text}

theorem anyValue_iff (value : Char) (members : List (Char × Bool)) :
    anyValue value members = true ↔ ∃ item ∈ classItems members, item.Has value := by
  fun_induction anyValue value members with
  | case1 first _ last _ rest inductionHypothesis =>
      rw [classItems, List.exists_mem_cons_iff, Bool.or_eq_true, inductionHypothesis,
        ClassItem.Has]
      simp only [Bool.and_eq_true, decide_eq_true_eq]
      exact or_congr_left ⟨fun inside => ⟨inside.1.2, inside.2⟩,
        fun inside => ⟨⟨Char.le_trans inside.1 inside.2, inside.1⟩, inside.2⟩⟩
  | case2 char _ rest single inductionHypothesis =>
      rw [classItems.eq_2 _ _ _ single, List.exists_mem_cons_iff, Bool.or_eq_true,
        inductionHypothesis, decide_eq_true_eq, ClassItem.Has]
  | case3 => simp [classItems]

/-- The loop over a class reads its members, or runs to the end of the pattern. -/
theorem collectValues_spec (pattern : Text) (index : Nat) (values : List (Char × Bool)) :
    (classMembers (pattern.drop index) = none ∧
        ∀ next collected, collectValues pattern index values = some (next, collected) →
          pattern.length ≤ next) ∨
      ∃ members next, classMembers (pattern.drop index) =
          some (members, pattern.drop (next + 1)) ∧ pattern[next]? = some ']' ∧
        collectValues pattern index values = some (next, values ++ members) := by
  fun_induction collectValues pattern index values with
  | case1 index values past =>
      refine .inl ⟨by rw [drop_of_none past, classMembers], fun next collected collects => ?_⟩
      cases collects
      exact List.getElem?_eq_none_iff.mp past
  | case2 index values here =>
      refine .inr ⟨[], index, by rw [drop_of_getElem? here, classMembers], here, ?_⟩
      rw [List.append_nil]
  | case3 index values here past =>
      refine .inl ⟨?_, ?_⟩
      · rw [drop_of_getElem? here, drop_of_none past, classMembers]
      · intro next collected collects
        cases collects
  | case4 index values here character following inductionHypothesis =>
      rw [drop_of_getElem? here, drop_of_getElem? following, classMembers]
      rcases inductionHypothesis with ⟨unclosed, past⟩ | ⟨members, next, isRead, closed, collects⟩
      · exact .inl ⟨by rw [unclosed, Option.map_none], past⟩
      · refine .inr ⟨(character, true) :: members, next, ?_, closed, ?_⟩
        · rw [isRead, Option.map_some]
        · rw [collects, List.append_assoc, List.singleton_append]
  | case5 index values character isOpen unescaped here inductionHypothesis =>
      rw [drop_of_getElem? here, classMembers.eq_5 _ _ isOpen (fun same => (unescaped same).elim)
        (fun _ _ same => (unescaped same).elim)]
      rcases inductionHypothesis with ⟨unclosed, past⟩ | ⟨members, next, isRead, closed, collects⟩
      · exact .inl ⟨by rw [unclosed, Option.map_none], past⟩
      · refine .inr ⟨(character, false) :: members, next, ?_, closed, ?_⟩
        · rw [isRead, Option.map_some]
        · rw [collects, List.append_assoc, List.singleton_append]

/-- `character_class` reads the class of the pattern, and tests it. -/
theorem characterClass_spec (pattern : Text) (start : Nat) (value : Char) :
    (readClass (pattern.drop (start + 1)) = none ∧ characterClass pattern start value = none) ∨
      ∃ cls next classMatches,
        readClass (pattern.drop (start + 1)) = some (cls, pattern.drop (next + 1)) ∧
        pattern[next]? = some ']' ∧
        characterClass pattern start value = some (next + 1, classMatches) ∧
        (classMatches = true ↔ cls.Has value) := by
  rw [readClass, characterClass, List.head?_drop]
  generalize (pattern[start + 1]?).any (fun char => char = '!' || char = '^') = negated
  have text : (if negated then (pattern.drop (start + 1)).tail else pattern.drop (start + 1)) =
      pattern.drop (if negated then start + 2 else start + 1) := by
    cases negated with
    | true => exact List.tail_drop
    | false => rfl
  rw [text]
  generalize (if negated then start + 2 else start + 1) = index
  rcases collectValues_spec pattern index [] with
    ⟨unclosed, past⟩ | ⟨members, next, isRead, closed, collects⟩
  · refine .inl ⟨by rw [unclosed], ?_⟩
    cases collects : collectValues pattern index [] with
    | none => rfl
    | some collected =>
        have ended := past collected.1 collected.2 collects
        simp [ended]
  · have inside := (List.getElem?_eq_some_iff.mp closed).1
    rw [isRead, collects, List.nil_append]
    cases members with
    | nil => exact .inl ⟨rfl, by simp⟩
    | cons first others =>
        have behind : ¬ (decide (next ≥ pattern.length) ||
            decide (first :: others = [])) = true := by simpa using inside
        refine .inr ⟨_, next, if negated then !anyValue value (first :: others) else
          anyValue value (first :: others), rfl, closed, if_neg behind, ?_⟩
        rw [CharClass.Has]
        have found := anyValue_iff value (first :: others)
        cases negated with
        | true =>
            rw [if_pos rfl, if_pos rfl, Bool.not_eq_true', ← Bool.not_eq_true, found]
            push Not
            rfl
        | false => rw [if_neg Bool.false_ne_true, if_neg Bool.false_ne_true, found]

end Classes

/-! ### Stars -/

section Stars

variable {pattern : Text} {index : Nat}

theorem drop_afterStars (pattern : Text) (index : Nat) :
    (pattern.drop index).dropWhile (· = '*') = pattern.drop (afterStars pattern index) := by
  have split := congrArg (List.drop ((pattern.drop index).takeWhile (· = '*')).length)
    (List.takeWhile_append_dropWhile (p := fun char : Char => decide (char = '*'))
      (l := pattern.drop index))
  rw [List.drop_left, List.drop_drop] at split
  exact split

theorem two_le_afterStars (star : pattern[index]? = some '*') :
    afterStars pattern index ≥ index + 2 ↔ (pattern.drop (index + 1)).head? = some '*' := by
  rw [afterStars, drop_of_getElem? star, List.takeWhile_cons_of_pos (by decide), List.length_cons]
  cases pattern.drop (index + 1) with
  | nil => simp
  | cons char rest =>
      by_cases more : char = '*'
      · rw [more, List.takeWhile_cons_of_pos (by decide), List.length_cons, List.head?_cons]
        exact iff_of_true (by omega) rfl
      · rw [List.takeWhile_cons_of_neg (by simpa using more), List.head?_cons]
        exact iff_of_false (by simp) fun same => more (Option.some.inj same)

/-- Stars before a `/` at a boundary stand for directories, and others for one star. -/
theorem elements_stars (star : pattern[index]? = some '*') :
    elements (atSegmentStart pattern index) (pattern.drop index) =
      if globstarDirectory pattern index then
        .directories :: elements true (pattern.drop (afterStars pattern index + 1))
      else .star :: elements false (pattern.drop (afterStars pattern index)) := by
  have behind := drop_afterStars pattern index
  rw [drop_of_getElem? star, List.dropWhile_cons_of_pos (by decide)] at behind
  have isGlobstar : (atSegmentStart pattern index &&
      decide ((pattern.drop (index + 1)).head? = some '*') &&
      decide ((pattern.drop (afterStars pattern index)).head? = some '/')) =
        globstarDirectory pattern index := by
    rw [globstarDirectory, ← decide_eq_decide.mpr (two_le_afterStars star), List.head?_drop]
    cases atSegmentStart pattern index
    · rw [Bool.false_and, Bool.false_and, Bool.and_false]
    · rw [Bool.true_and, Bool.and_true]
  rw [drop_of_getElem? star, elements.eq_6, behind, isGlobstar, List.tail_drop]

theorem atSegmentStart_afterStars (star : pattern[index]? = some '*') :
    atSegmentStart pattern (afterStars pattern index) = false := by
  have later := lt_afterStars star
  obtain ⟨last, isLast⟩ : ∃ last, afterStars pattern index = last + 1 :=
    ⟨afterStars pattern index - 1, by omega⟩
  rw [isLast, atSegmentStart_succ, decide_eq_false_iff_not]
  intro isSlash
  -- The character before the end of the stars is one of them.
  have inside : last - index < ((pattern.drop index).takeWhile (· = '*')).length := by
    have length : index + ((pattern.drop index).takeWhile (· = '*')).length = last + 1 := isLast
    omega
  have isStar := List.all_eq_true.mp List.all_takeWhile _ (List.getElem_mem inside)
  rw [(List.takeWhile_prefix _).getElem inside, List.getElem_drop, decide_eq_true_eq] at isStar
  have place : index + (last - index) = last := by omega
  obtain ⟨_, isSlash⟩ := List.getElem?_eq_some_iff.mp isSlash
  simp only [place, isSlash] at isStar
  exact absurd isStar (by decide)

end Stars

/-! ### Calls -/

section Calls

variable {pattern candidate : Text} {patternIndex candidateIndex : Nat}

/-- What a call of `matches` is to say. -/
def Spells (pattern candidate : Text) (key : Nat × Nat) : Prop :=
  Matches (atSegmentStart candidate key.2)
    (elements (atSegmentStart pattern key.1) (pattern.drop key.1)) (candidate.drop key.2)

/-- A call is made within the candidate, and at a globstar where a segment starts. -/
def Reached (pattern candidate : Text) (key : Nat × Nat) : Prop :=
  key.2 ≤ candidate.length ∧
    (globstarDirectory pattern key.1 = true → atSegmentStart candidate key.2 = true)

theorem holds_callIf {predicate : Nat × Nat → Prop} {condition : Bool} :
    (callIf condition patternIndex candidateIndex).Holds predicate ↔
      condition = true ∧ predicate (patternIndex, candidateIndex) := by
  cases condition with
  | false => simp [callIf, Calls.Holds]
  | true => simp [callIf, Calls.Holds]

/-- The call behind a character of both. -/
theorem spells_behind {char literal : Char} (isChar : pattern[patternIndex]? = some char)
    (here : candidate[candidateIndex]? = some literal) :
    Spells pattern candidate (patternIndex + 1, candidateIndex + 1) ↔
      Matches (literal = '/') (elements (char = '/') (pattern.drop (patternIndex + 1)))
        (candidate.drop (candidateIndex + 1)) := by
  rw [Spells, atSegmentStart_behind isChar, atSegmentStart_behind here]

theorem hidden_iff {char : Char} (here : candidate[candidateIndex]? = some char) :
    Hidden (atSegmentStart candidate candidateIndex) (candidate.drop candidateIndex) ↔
      (atSegmentStart candidate candidateIndex && char = '.') = true := by
  rw [Hidden, List.head?_drop, here]
  simp

theorem literal_equation {literal : Char} {start : Bool}
    (isLiteral : pattern[patternIndex]? = some literal) :
    Matches start (.literal literal :: elements (literal = '/') (pattern.drop (patternIndex + 1)))
        (candidate.drop candidateIndex) ↔
      (callIf (candidate[candidateIndex]? = some literal) (patternIndex + 1)
        (candidateIndex + 1)).Holds (Spells pattern candidate) := by
  rw [matches_literal_iff, holds_callIf, decide_eq_true_eq]
  constructor
  · rintro ⟨tail, isTail, matched⟩
    obtain ⟨here, rfl⟩ := drop_eq_cons_iff.mp isTail
    exact ⟨here, (spells_behind isLiteral here).mpr matched⟩
  · rintro ⟨here, matched⟩
    exact ⟨_, drop_of_getElem? here, (spells_behind isLiteral here).mp matched⟩

/-- A character that `?` and classes may match. -/
theorem visible_iff {char : Char} (here : candidate[candidateIndex]? = some char) :
    (char ≠ '/' && !(atSegmentStart candidate candidateIndex && char = '.')) = true ↔
      char ≠ '/' ∧
        ¬ Hidden (atSegmentStart candidate candidateIndex) (candidate.drop candidateIndex) := by
  rw [hidden_iff here, Bool.and_eq_true, decide_eq_true_eq, Bool.not_eq_true', Bool.not_eq_true]

/-- The call behind a character that is no `/`, and one of the pattern that is none. -/
theorem spells_inside {char value : Char} (isChar : pattern[patternIndex]? = some char)
    (plain : char ≠ '/') (here : candidate[candidateIndex]? = some value) (inside : value ≠ '/') :
    Spells pattern candidate (patternIndex + 1, candidateIndex + 1) ↔
      Matches false (elements false (pattern.drop (patternIndex + 1)))
        (candidate.drop (candidateIndex + 1)) := by
  rw [spells_behind isChar here, decide_eq_false plain, decide_eq_false inside]

theorem anyChar_equation (here : pattern[patternIndex]? = some '?') :
    Spells pattern candidate (patternIndex, candidateIndex) ↔
      (callIf ((candidate[candidateIndex]?).any fun char =>
          char ≠ '/' && !(atSegmentStart candidate candidateIndex && char = '.'))
        (patternIndex + 1) (candidateIndex + 1)).Holds (Spells pattern candidate) := by
  rw [Spells, drop_of_getElem? here, elements, matches_anyChar_iff, holds_callIf]
  constructor
  · rintro ⟨char, tail, isTail, inside, visible, matched⟩
    obtain ⟨isChar, rfl⟩ := drop_eq_cons_iff.mp isTail
    refine ⟨?_, (spells_inside here (by decide) isChar inside).mpr matched⟩
    rw [isChar, Option.any_some]
    exact (visible_iff isChar).mpr ⟨inside, visible⟩
  · rintro ⟨visible, matched⟩
    cases isChar : candidate[candidateIndex]? with
    | none =>
        rw [isChar] at visible
        cases visible
    | some char =>
        rw [isChar, Option.any_some] at visible
        obtain ⟨inside, shown⟩ := (visible_iff isChar).mp visible
        exact ⟨char, _, drop_of_getElem? isChar, inside, shown,
          (spells_inside here (by decide) isChar inside).mp matched⟩

theorem class_equation {cls : CharClass} {last : Nat} {value : Char}
    (here : pattern[patternIndex]? = some '[')
    (isClass : readClass (pattern.drop (patternIndex + 1)) =
      some (cls, pattern.drop (last + 1)))
    (closed : pattern[last]? = some ']') (isValue : candidate[candidateIndex]? = some value) :
    Spells pattern candidate (patternIndex, candidateIndex) ↔
      (value ≠ '/' ∧
        ¬ Hidden (atSegmentStart candidate candidateIndex) (candidate.drop candidateIndex)) ∧
        cls.Has value ∧ Spells pattern candidate (last + 1, candidateIndex + 1) := by
  rw [Spells, drop_of_getElem? here, elements_class isClass, matches_oneOf_iff]
  constructor
  · rintro ⟨char, tail, isTail, inside, visible, has, matched⟩
    obtain ⟨isChar, rfl⟩ := drop_eq_cons_iff.mp isTail
    cases isValue.symm.trans isChar
    exact ⟨⟨inside, visible⟩, has, (spells_inside closed (by decide) isChar inside).mpr matched⟩
  · rintro ⟨⟨inside, visible⟩, has, matched⟩
    exact ⟨value, _, drop_of_getElem? isValue, inside, visible, has,
      (spells_inside closed (by decide) isValue inside).mp matched⟩

theorem not_spells_unread (here : pattern[patternIndex]? = some '[')
    (unread : readClass (pattern.drop (patternIndex + 1)) = none) :
    ¬ Spells pattern candidate (patternIndex, candidateIndex) := by
  rw [Spells, drop_of_getElem? here, elements_unread unread]
  exact not_matches_nothing

theorem not_spells_class (here : pattern[patternIndex]? = some '[')
    (past : candidate[candidateIndex]? = none) :
    ¬ Spells pattern candidate (patternIndex, candidateIndex) := by
  cases isClass : readClass (pattern.drop (patternIndex + 1)) with
  | none => exact not_spells_unread here isClass
  | some read =>
      rw [Spells, drop_of_getElem? here, elements_class isClass, drop_of_none past,
        matches_oneOf_iff]
      rintro ⟨_, _, isCons, -⟩
      cases isCons

/-- A star matches nothing, or a character that is no `/` more. -/
theorem star_equation (here : pattern[patternIndex]? = some '*')
    (isStar : globstarDirectory pattern patternIndex = false) :
    Spells pattern candidate (patternIndex, candidateIndex) ↔
      ¬ Hidden (atSegmentStart candidate candidateIndex) (candidate.drop candidateIndex) ∧
        (Spells pattern candidate (afterStars pattern patternIndex, candidateIndex) ∨
          ∃ char, candidate[candidateIndex]? = some char ∧ char ≠ '/' ∧
            Spells pattern candidate (patternIndex, candidateIndex + 1)) := by
  have isElements := elements_stars here
  rw [isStar, if_neg Bool.false_ne_true] at isElements
  have behind : Spells pattern candidate (afterStars pattern patternIndex, candidateIndex) ↔
      Matches (atSegmentStart candidate candidateIndex)
        (elements false (pattern.drop (afterStars pattern patternIndex)))
        (candidate.drop candidateIndex) := by
    rw [Spells, atSegmentStart_afterStars here]
  have more : ∀ char, candidate[candidateIndex]? = some char → char ≠ '/' →
      (Spells pattern candidate (patternIndex, candidateIndex + 1) ↔
        Matches false
          (.star :: elements false (pattern.drop (afterStars pattern patternIndex)))
          (candidate.drop (candidateIndex + 1))) := by
    intro char isChar inside
    rw [Spells, isElements, atSegmentStart_behind isChar, decide_eq_false inside]
  rw [Spells, isElements, matches_star_iff, behind]
  refine and_congr_right fun _ => or_congr_right ⟨?_, ?_⟩
  · rintro ⟨char, tail, isTail, inside, matched⟩
    obtain ⟨isChar, rfl⟩ := drop_eq_cons_iff.mp isTail
    exact ⟨char, isChar, inside, (more char isChar inside).mpr matched⟩
  · rintro ⟨char, isChar, inside, matched⟩
    exact ⟨char, _, drop_of_getElem? isChar, inside, (more char isChar inside).mp matched⟩

/-- Directories match nothing, or a directory that does not start with `.` more. -/
theorem globstar_equation (here : pattern[patternIndex]? = some '*')
    (isGlobstar : globstarDirectory pattern patternIndex = true)
    (starts : atSegmentStart candidate candidateIndex = true) :
    Spells pattern candidate (patternIndex, candidateIndex) ↔
      Spells pattern candidate (afterStars pattern patternIndex + 1, candidateIndex) ∨
        ∃ slash, (candidate.drop candidateIndex).findIdx? (· = '/') = some slash ∧
          candidate[candidateIndex]? ≠ some '.' ∧
            Spells pattern candidate (patternIndex, candidateIndex + slash + 1) := by
  have isElements := elements_stars here
  rw [isGlobstar, if_pos rfl] at isElements
  have behind : Spells pattern candidate (afterStars pattern patternIndex + 1, candidateIndex) ↔
      Matches true (elements true (pattern.drop (afterStars pattern patternIndex + 1)))
        (candidate.drop candidateIndex) := by
    rw [globstarDirectory, Bool.and_eq_true, Bool.and_eq_true, decide_eq_true_eq,
      decide_eq_true_eq] at isGlobstar
    rw [Spells, atSegmentStart_behind isGlobstar.1.2, starts]
    rfl
  have more : ∀ directory tail, candidate.drop candidateIndex = directory ++ '/' :: tail →
      (Spells pattern candidate (patternIndex, candidateIndex + directory.length + 1) ↔
        Matches true
          (.directories :: elements true (pattern.drop (afterStars pattern patternIndex + 1)))
          tail) := by
    intro directory tail split
    obtain ⟨isSlash, rfl⟩ := slash_of_split split
    rw [Spells, isElements, atSegmentStart_behind isSlash]
    rfl
  rw [Spells, isElements, starts, matches_directories_iff, behind]
  refine or_congr_right ⟨?_, ?_⟩
  · rintro ⟨directory, tail, split, inside, visible, matched⟩
    refine ⟨directory.length, ?_, ?_, (more directory tail split).mpr matched⟩
    · rw [split, findIdx?_slash_iff]
      exact ⟨directory, tail, rfl, inside, rfl⟩
    · rwa [← List.head?_drop, split, Ne, head?_dot_iff]
  · rintro ⟨slash, isSlash, visible, matched⟩
    obtain ⟨directory, tail, split, inside, rfl⟩ := findIdx?_slash_iff.mp isSlash
    rw [← List.head?_drop, split, Ne, head?_dot_iff] at visible
    exact ⟨directory, tail, split, inside, visible, (more directory tail split).mp matched⟩

/-- Without a further directory, only the pattern behind the stars is tried. -/
theorem behind_globstar_iff {behind : Prop} {further : Nat → Prop}
    (hidden : ∀ slash, (candidate.drop candidateIndex).findIdx? (· = '/') = some slash →
      candidate[candidateIndex]? = some '.') :
    (behind ∨ ∃ slash, (candidate.drop candidateIndex).findIdx? (· = '/') = some slash ∧
      candidate[candidateIndex]? ≠ some '.' ∧ further slash) ↔ behind := by
  apply or_iff_left
  rintro ⟨slash, found, visible, -⟩
  exact visible (hidden slash found)

theorem globstarCalls_equation (here : pattern[patternIndex]? = some '*')
    (isGlobstar : globstarDirectory pattern patternIndex = true)
    (starts : atSegmentStart candidate candidateIndex = true) :
    Spells pattern candidate (patternIndex, candidateIndex) ↔
      (starCalls pattern candidate patternIndex candidateIndex).Holds
        (Spells pattern candidate) := by
  rw [starCalls, if_pos isGlobstar, globstar_equation here isGlobstar starts, starts]
  split
  · next past =>
      apply behind_globstar_iff
      intro slash found
      rw [drop_of_none past] at found
      cases found
  · next first isFirst =>
      split
      · next hidden =>
          apply behind_globstar_iff
          intro slash found
          rw [Bool.and_true, decide_eq_true_eq] at hidden
          rw [isFirst, hidden]
      · next visible =>
          split
          · next absent =>
              apply behind_globstar_iff
              intro slash found
              cases absent.symm.trans found
          · next slash isSlash =>
              rw [Bool.and_true, decide_eq_true_eq] at visible
              have shown : candidate[candidateIndex]? ≠ some '.' := by
                rw [isFirst]
                exact fun same => visible (Option.some.inj same)
              apply or_congr_right
              constructor
              · rintro ⟨other, isOther, -, spells⟩
                cases isSlash.symm.trans isOther
                exact spells
              · intro spells
                exact ⟨slash, isSlash, shown, spells⟩

theorem plainStarCalls_equation (here : pattern[patternIndex]? = some '*')
    (isStar : globstarDirectory pattern patternIndex = false) :
    Spells pattern candidate (patternIndex, candidateIndex) ↔
      (starCalls pattern candidate patternIndex candidateIndex).Holds
        (Spells pattern candidate) := by
  have isHidden : Hidden (atSegmentStart candidate candidateIndex)
      (candidate.drop candidateIndex) ↔
        (atSegmentStart candidate candidateIndex &&
          candidate[candidateIndex]? = some '.') = true := by
    rw [Hidden, List.head?_drop, Bool.and_eq_true, decide_eq_true_eq]
  rw [starCalls, isStar, if_neg Bool.false_ne_true, star_equation here isStar, isHidden]
  split
  · next hidden =>
      apply iff_of_false _ Bool.false_ne_true
      intro spells
      exact spells.1 hidden
  · next visible =>
      rw [and_iff_right visible]
      split
      · next past =>
          apply or_iff_left
          rintro ⟨char, isChar, -⟩
          cases past.symm.trans isChar
      · next char isChar =>
          split
          · next slash =>
              apply or_iff_left
              rintro ⟨other, isOther, inside, -⟩
              cases isChar.symm.trans isOther
              exact inside slash
          · next inside =>
              apply or_congr_right
              constructor
              · rintro ⟨-, -, -, spells⟩
                exact spells
              · intro spells
                exact ⟨char, isChar, inside, spells⟩

theorem stars_equation (here : pattern[patternIndex]? = some '*')
    (starts : globstarDirectory pattern patternIndex = true →
      atSegmentStart candidate candidateIndex = true) :
    Spells pattern candidate (patternIndex, candidateIndex) ↔
      (starCalls pattern candidate patternIndex candidateIndex).Holds
        (Spells pattern candidate) := by
  cases isGlobstar : globstarDirectory pattern patternIndex with
  | true => exact globstarCalls_equation here isGlobstar (starts isGlobstar)
  | false => exact plainStarCalls_equation here isGlobstar

/-- The equation that the pattern meets at each of its elements. -/
theorem calls_equation (key : Nat × Nat) (reached : Reached pattern candidate key) :
    Spells pattern candidate key ↔
      (calls pattern candidate key).Holds (Spells pattern candidate) := by
  obtain ⟨patternIndex, candidateIndex⟩ := key
  rw [calls]
  dsimp only
  split
  · next past =>
      rw [Spells, drop_of_none past, elements, matches_nil_iff, Calls.Holds, decide_eq_true_eq,
        List.drop_eq_nil_iff]
      exact ⟨fun ended => Nat.le_antisymm reached.1 ended, fun same => Nat.le_of_eq same.symm⟩
  · next here =>
      rw [Spells, drop_of_getElem? here]
      split
      · next past =>
          rw [drop_of_none past, elements]
          exact iff_of_false not_matches_nothing Bool.false_ne_true
      · next literal isLiteral =>
          rw [drop_of_getElem? isLiteral, elements]
          exact literal_equation isLiteral
  · next here => exact anyChar_equation here
  · next here =>
      split
      · next past => exact iff_of_false (not_spells_class here past) Bool.false_ne_true
      · next value isValue =>
          rcases characterClass_spec pattern patternIndex value with
            ⟨unread, isNone⟩ | ⟨cls, last, classMatches, isClass, closed, isSome, has⟩
          · rw [isNone]
            exact iff_of_false (not_spells_unread here unread) Bool.false_ne_true
          · rw [isSome]
            dsimp only
            rw [class_equation here isClass closed isValue, holds_callIf, Bool.and_eq_true,
              visible_iff isValue, has]
            exact and_assoc.symm
  · next here => exact stars_equation here reached.2
  · next literal escape any bracket star here =>
      rw [Spells, drop_of_getElem? here, elements.eq_7 _ _ _ (fun same => (escape same).elim)
        (fun _ _ same => (escape same).elim) any bracket star]
      exact literal_equation here

/-! ### The calls that are made -/

theorem starts_of_globstar (isGlobstar : globstarDirectory pattern patternIndex = true) :
    atSegmentStart pattern patternIndex = true := by
  rw [globstarDirectory, Bool.and_eq_true] at isGlobstar
  exact isGlobstar.2

theorem reached_behind {char value : Char} (isChar : pattern[patternIndex]? = some char)
    (here : candidate[candidateIndex]? = some value) (slash : char = '/' → value = '/') :
    Reached pattern candidate (patternIndex + 1, candidateIndex + 1) := by
  refine ⟨(List.getElem?_eq_some_iff.mp here).1, fun isGlobstar => ?_⟩
  have starts := starts_of_globstar isGlobstar
  rw [atSegmentStart_behind isChar, decide_eq_true_eq] at starts
  rw [atSegmentStart_behind here, decide_eq_true_eq]
  exact slash starts

theorem starCalls_reached (here : pattern[patternIndex]? = some '*')
    (reached : Reached pattern candidate (patternIndex, candidateIndex)) (next : Nat × Nat)
    (member : next ∈ (starCalls pattern candidate patternIndex candidateIndex).keys) :
    Reached pattern candidate next := by
  obtain ⟨within, starts⟩ := reached
  rw [starCalls] at member
  split at member
  · next isGlobstar =>
      have behind : Reached pattern candidate (afterStars pattern patternIndex + 1,
        candidateIndex) :=
        ⟨within, fun _ => starts isGlobstar⟩
      split at member
      · cases List.mem_singleton.mp member
        exact behind
      · split at member
        · cases List.mem_singleton.mp member
          exact behind
        · split at member
          · cases List.mem_singleton.mp member
            exact behind
          · next slash isSlash =>
              rcases List.mem_pair.mp member with rfl | rfl
              · exact behind
              · obtain ⟨directory, tail, split, -, rfl⟩ := findIdx?_slash_iff.mp isSlash
                have isSlash := (slash_of_split split).1
                exact ⟨(List.getElem?_eq_some_iff.mp isSlash).1,
                  fun _ => by rw [atSegmentStart_behind isSlash]; rfl⟩
  · next isStar =>
      have behind : Reached pattern candidate (afterStars pattern patternIndex,
        candidateIndex) := by
        refine ⟨within, fun isGlobstar => ?_⟩
        have notStart := starts_of_globstar isGlobstar
        rw [atSegmentStart_afterStars here] at notStart
        cases notStart
      split at member
      · cases member
      · split at member
        · cases List.mem_singleton.mp member
          exact behind
        · next char isChar =>
            split at member
            · cases List.mem_singleton.mp member
              exact behind
            · rcases List.mem_pair.mp member with rfl | rfl
              · exact behind
              · exact ⟨(List.getElem?_eq_some_iff.mp isChar).1,
                  fun isGlobstar => absurd isGlobstar isStar⟩

theorem calls_reached (key : Nat × Nat) (reached : Reached pattern candidate key)
    (next : Nat × Nat) (member : next ∈ (calls pattern candidate key).keys) :
    Reached pattern candidate next := by
  obtain ⟨patternIndex, candidateIndex⟩ := key
  rw [calls] at member
  dsimp only at member
  split at member
  · cases member
  · split at member
    · cases member
    · next literal isLiteral =>
        obtain ⟨same, rfl⟩ := keys_callIf member
        exact reached_behind isLiteral (of_decide_eq_true same) id
  · next here =>
      obtain ⟨visible, rfl⟩ := keys_callIf member
      obtain ⟨value, isValue, -⟩ := (Option.any_eq_true _ _).mp visible
      exact reached_behind here isValue fun same => absurd same (by decide)
  · next here =>
      split at member
      · cases member
      · next value isValue =>
          rcases characterClass_spec pattern patternIndex value with
            ⟨-, isNone⟩ | ⟨cls, last, classMatches, -, closed, isSome, -⟩
          · rw [isNone] at member
            cases member
          · rw [isSome] at member
            obtain ⟨-, rfl⟩ := keys_callIf member
            exact reached_behind closed isValue fun same => absurd same (by decide)
  · next here => exact starCalls_reached here reached next member
  · next literal _ _ _ _ here =>
      obtain ⟨same, rfl⟩ := keys_callIf member
      exact reached_behind here (of_decide_eq_true same) id

end Calls

/-! ### Patterns -/

/-- The patterns that can match. -/
structure Admissible (pattern : Text) : Prop where
  nonempty : pattern ≠ []
  bounded : byteLength pattern ≤ maxDeploymentBranchPatternBytes
  printable : ∀ char ∈ pattern, char ≠ '\x00' ∧ char ≠ '\n' ∧ char ≠ '\r'

theorem refused_iff (pattern : Text) :
    (pattern = [] || byteLength pattern > maxDeploymentBranchPatternBytes ||
      pattern.any (fun char => ['\x00', '\n', '\r'].contains char)) = true ↔
        ¬ Admissible pattern := by
  have special : pattern.any (fun char => ['\x00', '\n', '\r'].contains char) = true ↔
      ¬ ∀ char ∈ pattern, char ≠ '\x00' ∧ char ≠ '\n' ∧ char ≠ '\r' := by
    simp only [List.any_eq_true, List.contains_iff_mem, List.mem_cons, List.not_mem_nil, or_false]
    push Not
    refine exists_congr fun char => and_congr_right fun _ => ?_
    tauto
  rw [Bool.or_eq_true, Bool.or_eq_true, decide_eq_true_eq, decide_eq_true_eq, special]
  constructor
  · rintro ((empty | long) | special) admissible
    · exact admissible.nonempty empty
    · exact absurd admissible.bounded (by omega)
    · exact special admissible.printable
  · intro refused
    by_contra admitted
    rw [not_or, not_or, not_not] at admitted
    exact refused ⟨admitted.1.1, by omega, admitted.2⟩

/-- A pattern matches the refs that its elements match, with and without the table of `matches`. -/
theorem plain_spells (pattern candidate : Text) :
    (matchRecursion pattern candidate).plain (0, 0) = true ↔
      Matches true (elements true pattern) candidate :=
  (matchRecursion pattern candidate).plain_iff calls_equation calls_reached (0, 0)
    ⟨Nat.zero_le _, fun _ => rfl⟩

/-- An admissible pattern matches the refs that its elements match, and no other pattern matches
any; the table changes no result; and a pattern of plain characters matches only itself. -/
theorem deployment_pattern_matches_iff (pattern candidate : Text) :
    (deploymentPatternMatches pattern candidate = true ↔
      Admissible pattern ∧ Matches true (elements true pattern) candidate) ∧
    (deploymentPatternMatches pattern candidate = true ↔
      Admissible pattern ∧ (matchRecursion pattern candidate).plain (0, 0) = true) ∧
    ((∀ char ∈ pattern, char ≠ '?' ∧ char ≠ '*' ∧ char ≠ '[' ∧ char ≠ '\\') →
      (deploymentPatternMatches pattern candidate = true ↔
        Admissible pattern ∧ candidate = pattern)) := by
  have unmemoized : deploymentPatternMatches pattern candidate = true ↔
      Admissible pattern ∧ (matchRecursion pattern candidate).plain (0, 0) = true := by
    have empty : (matchRecursion pattern candidate).Correct [] := fun _ _ found => nomatch found
    have memoized := ((matchRecursion pattern candidate).memoized_spec (0, 0) empty).1
    rw [deploymentPatternMatches, memoized]
    split
    · next refused =>
        exact iff_of_false Bool.false_ne_true fun holds => (refused_iff pattern).mp refused holds.1
    · next admitted =>
        rw [refused_iff, not_not] at admitted
        exact (and_iff_right admitted).symm
  have spelled : deploymentPatternMatches pattern candidate = true ↔
      Admissible pattern ∧ Matches true (elements true pattern) candidate := by
    rw [unmemoized, plain_spells]
  refine ⟨spelled, unmemoized, fun plain => ?_⟩
  rw [spelled, elements_plain plain, matches_literals_iff]

end GitZero.Agent.DeploymentPolicies
