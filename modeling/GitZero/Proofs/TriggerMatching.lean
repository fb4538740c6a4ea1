/-
Module: GitZero.Proofs.TriggerMatching
Purpose: What the filters of the trigger `pull_request` mean, and that the changed files need to
  be known for the workflows that ask for them only.
Trusted boundary: none
Main exports: Selects, Passes, Triggers, matchesPullRequest_iff, discoverMatching_eq,
  matchingWorkflows_grows, fetchPullRequestChangedPaths_files
-/
import GitZero.Agent.WorkflowDiscovery
import GitZero.Lib.Outcomes

namespace GitZero.Workflows

open Outcomes

section Triggers

variable [RegexCrate] {action baseRef workflow : String}

/-! ### Patterns -/

/-- The pattern compiles, and it matches. -/
def GlobMatches (workflow filter pattern candidate : String) : Prop :=
  ∃ regex, compileGlob pattern workflow filter = .ok regex ∧
    RegexCrate.isMatch regex candidate.toList = true

/-- The last pattern that matches, with its `!` taken off, has none. -/
def Selects (workflow filter : String) (patterns : List String) (candidate : String) : Prop :=
  ∃ front pattern back, patterns = front ++ pattern :: back ∧ (negated pattern).1 = false ∧
    GlobMatches workflow filter (negated pattern).2 candidate ∧
    ∀ later ∈ back, ¬ GlobMatches workflow filter (negated later).2 candidate

/-- The texts of a filter. -/
def textsOf (value : Value) : List String :=
  match value with
  | .string text => [text]
  | .sequence values => values.filterMap Value.asStr
  | _ => []

omit [RegexCrate] in
theorem stringEntries_texts {filter : String} {values : List Value} {texts : List String}
    (all : List.Forall₂ (fun value text => stringEntry workflow filter value = .ok text)
      values texts) : texts = values.filterMap Value.asStr := by
  induction all with
  | nil => rfl
  | cons first _ inductionHypothesis =>
      unfold stringEntry at first
      split at first
      · next found =>
          cases first
          rw [List.filterMap_cons, found, inductionHypothesis]
      · cases first

omit [RegexCrate] in
theorem stringValues_ok {value : Value} {filter : String} {texts : List String}
    (ran : stringValues value workflow filter = .ok texts) : texts = textsOf value := by
  unfold stringValues at ran
  obtain ⟨entries, read, ran⟩ := bind_eq_ok.mp ran
  split at ran
  · cases ran
  · cases pure_eq_ok.mp ran
    unfold stringEntries at read
    unfold textsOf
    split at read
    · cases read
      rfl
    · exact stringEntries_texts (mapM_eq_ok.mp read)
    · cases read

theorem compiled_iff {filter pattern candidate : String} {regex : Regex}
    (compiled : compileGlob pattern workflow filter = .ok regex) :
    GlobMatches workflow filter pattern candidate ↔
      RegexCrate.isMatch regex candidate.toList = true := by
  constructor
  · rintro ⟨other, same, isMatch⟩
    cases compiled.symm.trans same
    exact isMatch
  · exact fun isMatch => ⟨regex, compiled, isMatch⟩

/-- How an ordered pattern is compiled. -/
def IsOrdered (workflow filter pattern : String) (compiled : Bool × Regex) : Prop :=
  compiled.1 = (negated pattern).1 ∧
    compileGlob (negated pattern).2 workflow filter = .ok compiled.2

theorem compileOrderedPatterns_ok {value : Value} {filter : String}
    {compiled : List (Bool × Regex)}
    (ran : compileOrderedPatterns value workflow filter = .ok compiled) :
    List.Forall₂ (IsOrdered workflow filter) (textsOf value) compiled := by
  unfold compileOrderedPatterns at ran
  obtain ⟨texts, read, ran⟩ := bind_eq_ok.mp ran
  rw [← stringValues_ok read]
  split at ran
  · refine (mapM_eq_ok.mp ran).imp fun pattern regex one => ?_
    unfold compileOrderedPattern at one
    split at one
    · cases one
    · obtain ⟨inner, compiles, same⟩ := bind_eq_ok.mp one
      cases same
      exact ⟨rfl, compiles⟩
  · cases ran

/-- The fold over the patterns finds the last one that matches. -/
theorem matchesCompiledOrderedPatterns_iff {filter candidate : String} {texts : List String}
    {compiled : List (Bool × Regex)}
    (all : List.Forall₂ (IsOrdered workflow filter) texts compiled) :
    matchesCompiledOrderedPatterns compiled candidate = true ↔
      Selects workflow filter texts candidate := by
  suffices generalised : ∀ included,
      compiled.foldl (fun included pattern =>
        if RegexCrate.isMatch pattern.2 candidate.toList then !pattern.1 else included) included =
          true ↔ Selects workflow filter texts candidate ∨ (included = true ∧
            ∀ text ∈ texts, ¬ GlobMatches workflow filter (negated text).2 candidate) by
    refine (generalised false).trans ⟨fun either => ?_, .inl⟩
    exact either.resolve_right fun impossible => Bool.false_ne_true impossible.1
  induction all with
  | nil =>
      intro included
      have nothing : ¬ Selects workflow filter [] candidate := by
        rintro ⟨front, pattern, back, empty, _⟩
        cases front <;> cases empty
      simp [nothing]
  | @cons text pattern texts patterns first _ inductionHypothesis =>
      intro included
      obtain ⟨sign, compiles⟩ := first
      have extend : Selects workflow filter texts candidate →
          Selects workflow filter (text :: texts) candidate := by
        rintro ⟨front, chosen, back, rfl, positive, isMatch, last⟩
        exact ⟨text :: front, chosen, back, rfl, positive, isMatch, last⟩
      have split : Selects workflow filter (text :: texts) candidate →
          Selects workflow filter texts candidate ∨ ((negated text).1 = false ∧
            GlobMatches workflow filter (negated text).2 candidate ∧
            ∀ later ∈ texts, ¬ GlobMatches workflow filter (negated later).2 candidate) := by
        rintro ⟨front, chosen, back, same, positive, isMatch, last⟩
        cases front with
        | nil =>
            cases same
            exact .inr ⟨positive, isMatch, last⟩
        | cons other front =>
            cases same
            exact .inl ⟨front, chosen, back, rfl, positive, isMatch, last⟩
      rw [List.foldl_cons, inductionHypothesis]
      by_cases isMatch : RegexCrate.isMatch pattern.2 candidate.toList = true
      · have here := (compiled_iff compiles).mpr isMatch
        rw [if_pos isMatch, sign]
        constructor
        · rintro (later | ⟨positive, none⟩)
          · exact .inl (extend later)
          · exact .inl ⟨[], text, texts, rfl, by simpa using positive, here, none⟩
        · rintro (selected | ⟨_, none⟩)
          · rcases split selected with later | ⟨positive, _, none⟩
            · exact .inl later
            · exact .inr ⟨by rw [positive]; rfl, none⟩
          · exact absurd here (none text List.mem_cons_self)
      · have absent : ¬ GlobMatches workflow filter (negated text).2 candidate :=
          mt (compiled_iff compiles).mp isMatch
        rw [if_neg isMatch]
        constructor
        · rintro (later | ⟨before, none⟩)
          · exact .inl (extend later)
          · exact .inr ⟨before, List.forall_mem_cons.mpr ⟨absent, none⟩⟩
        · rintro (selected | ⟨before, none⟩)
          · rcases split selected with later | ⟨_, here, _⟩
            · exact .inl later
            · exact absurd here absent
          · exact .inr ⟨before, fun later inside => none later (List.mem_cons_of_mem _ inside)⟩

theorem matchesOrderedPatterns_iff {value : Value} {filter candidate : String} {outcome : Bool}
    (ran : matchesOrderedPatterns value candidate workflow filter = .ok outcome) :
    outcome = true ↔ Selects workflow filter (textsOf value) candidate := by
  obtain ⟨compiled, compiles, same⟩ := bind_eq_ok.mp ran
  cases pure_eq_ok.mp same
  exact matchesCompiledOrderedPatterns_iff (compileOrderedPatterns_ok compiles)

theorem matchesAnyOrderedPath_iff {value : Value} {filter : String} {paths : List String}
    {outcome : Bool} (ran : matchesAnyOrderedPath value paths workflow filter = .ok outcome) :
    outcome = true ↔ ∃ path ∈ paths, Selects workflow filter (textsOf value) path := by
  obtain ⟨compiled, compiles, same⟩ := bind_eq_ok.mp ran
  cases pure_eq_ok.mp same
  rw [List.any_eq_true]
  refine exists_congr fun path => and_congr_right fun _ => ?_
  exact matchesCompiledOrderedPatterns_iff (compileOrderedPatterns_ok compiles)

theorem compileIgnoredPatterns_ok {value : Value} {filter : String} {compiled : List Regex}
    (ran : compileIgnoredPatterns value workflow filter = .ok compiled) :
    List.Forall₂ (fun pattern regex => compileGlob pattern workflow filter = .ok regex)
      (textsOf value) compiled := by
  unfold compileIgnoredPatterns at ran
  obtain ⟨texts, read, ran⟩ := bind_eq_ok.mp ran
  rw [← stringValues_ok read]
  refine (mapM_eq_ok.mp ran).imp fun pattern regex one => ?_
  unfold compileIgnoredPattern at one
  split at one
  · cases one
  · exact one

theorem matchesIgnored_iff {filter candidate : String} {texts : List String}
    {compiled : List Regex} (all : List.Forall₂ (fun pattern regex =>
      compileGlob pattern workflow filter = .ok regex) texts compiled) :
    matchesIgnored compiled candidate = true ↔
      ∃ pattern ∈ texts, GlobMatches workflow filter pattern candidate := by
  unfold matchesIgnored
  induction all with
  | nil => simp
  | cons first _ inductionHypothesis =>
      rw [List.any_cons, Bool.or_eq_true, inductionHypothesis, ← compiled_iff first]
      simp

/-! ### Filters -/

/-- The actions that start a workflow without `types`. -/
def defaultActions : List String := ["opened", "synchronize", "reopened"]

/-- What the filters of a trigger ask of an event and of the changed files. -/
structure Passes (workflow : String) (options : List (Value × Value)) (action baseRef : String)
    (changedPaths : Option (List String)) : Prop where
  types : action ∈ ((getKey "types" options).map textsOf).getD defaultActions
  branches : ∀ filter, getKey "branches" options = some filter →
    Selects workflow "branches" (textsOf filter) baseRef
  branchesIgnore : ∀ filter, getKey "branches-ignore" options = some filter →
    ∀ pattern ∈ textsOf filter, ¬ GlobMatches workflow "branches-ignore" pattern baseRef
  paths : ∀ filter, getKey "paths" options = some filter →
    ∃ path ∈ changedPaths.getD [], Selects workflow "paths" (textsOf filter) path
  pathsIgnore : ∀ filter, getKey "paths-ignore" options = some filter →
    ∃ path ∈ changedPaths.getD [],
      ∀ pattern ∈ textsOf filter, ¬ GlobMatches workflow "paths-ignore" pattern path

/-- The events that start a workflow with this trigger. -/
inductive Triggers (action baseRef : String) (changedPaths : Option (List String))
    (workflow : String) : Value → Prop where
  | named (default : action ∈ defaultActions) :
      Triggers action baseRef changedPaths workflow (.string "pull_request")
  | listed {value : Value} {values : List Value} (member : value ∈ values)
      (triggers : Triggers action baseRef changedPaths workflow value) :
      Triggers action baseRef changedPaths workflow (.sequence values)
  | bare {entries : List (Value × Value)} (found : getKey "pull_request" entries = some .null)
      (default : action ∈ defaultActions) :
      Triggers action baseRef changedPaths workflow (.mapping entries)
  | filtered {entries options : List (Value × Value)}
      (found : getKey "pull_request" entries = some (.mapping options))
      (passes : Passes workflow options action baseRef changedPaths) :
      Triggers action baseRef changedPaths workflow (.mapping entries)

omit [RegexCrate] in
theorem isDefaultAction_iff {action : String} :
    isDefaultAction action = true ↔ action ∈ defaultActions := by
  simp [isDefaultAction, defaultActions, or_assoc]

omit [RegexCrate] in
theorem actionMatches_iff {options : List (Value × Value)} {action : String} :
    actionMatches options action = true ↔
      action ∈ ((getKey "types" options).map textsOf).getD defaultActions := by
  unfold actionMatches
  cases getKey "types" options with
  | none => exact isDefaultAction_iff
  | some types =>
      rw [Option.map_some, Option.getD_some]
      cases types with
      | string text => simp [valueContainsString, textsOf, eq_comm]
      | sequence values => simp [valueContainsString, textsOf]
      | _ => simp [valueContainsString, textsOf]

omit [RegexCrate] in
theorem andAlso_eq_ok {first second : Outcome Bool} {outcome : Bool} :
    andAlso first second = .ok outcome ↔
      (first = .ok false ∧ outcome = false) ∨ (first = .ok true ∧ second = .ok outcome) := by
  unfold andAlso
  rw [bind_eq_ok]
  constructor
  · rintro ⟨value, ran, rest⟩
    cases value with
    | false =>
        cases pure_eq_ok.mp rest
        exact .inl ⟨ran, rfl⟩
    | true => exact .inr ⟨ran, rest⟩
  · rintro (⟨ran, rfl⟩ | ⟨ran, rest⟩)
    · exact ⟨false, ran, rfl⟩
    · exact ⟨true, ran, rest⟩

omit [RegexCrate] in
/-- A conjunction of two checks, each of which decides its part. -/
theorem andAlso_iff {first second : Outcome Bool} {outcome : Bool} {one two : Prop}
    (isFirst : ∀ decided, first = .ok decided → (decided = true ↔ one))
    (isSecond : ∀ decided, second = .ok decided → (decided = true ↔ two))
    (ran : andAlso first second = .ok outcome) : outcome = true ↔ one ∧ two := by
  rcases andAlso_eq_ok.mp ran with ⟨early, rfl⟩ | ⟨holds, rest⟩
  · have fails : ¬ one := fun holds => Bool.false_ne_true ((isFirst false early).mpr holds)
    exact ⟨fun impossible => absurd impossible Bool.false_ne_true, fun both => absurd both.1 fails⟩
  · rw [isSecond outcome rest]
    exact (and_iff_right ((isFirst true holds).mp rfl)).symm

variable {options : List (Value × Value)} {changedPaths : Option (List String)} {decided : Bool}

theorem branchesMatch_iff (ran : branchesMatch options baseRef workflow = .ok decided) :
    decided = true ↔ ∀ filter, getKey "branches" options = some filter →
      Selects workflow "branches" (textsOf filter) baseRef := by
  unfold branchesMatch at ran
  split at ran
  · next absent =>
      cases ran
      simp [absent]
  · next branches found =>
      rw [matchesOrderedPatterns_iff ran]
      simp [found]

theorem branchesPass_iff (ran : branchesPass options baseRef workflow = .ok decided) :
    decided = true ↔ ∀ filter, getKey "branches-ignore" options = some filter →
      ∀ pattern ∈ textsOf filter, ¬ GlobMatches workflow "branches-ignore" pattern baseRef := by
  unfold branchesPass at ran
  split at ran
  · next absent =>
      cases ran
      simp [absent]
  · next ignored found =>
      obtain ⟨ignores, read, same⟩ := bind_eq_ok.mp ran
      cases pure_eq_ok.mp same
      obtain ⟨compiled, compiles, same⟩ := bind_eq_ok.mp read
      cases pure_eq_ok.mp same
      rw [Bool.not_eq_true', ← Bool.not_eq_true,
        matchesIgnored_iff (compileIgnoredPatterns_ok compiles)]
      simp [found]

theorem pathsMatch_iff {paths : List String}
    (ran : pathsMatch options paths workflow = .ok decided) :
    decided = true ↔ ∀ filter, getKey "paths" options = some filter →
      ∃ path ∈ paths, Selects workflow "paths" (textsOf filter) path := by
  unfold pathsMatch at ran
  split at ran
  · next absent =>
      cases ran
      simp [absent]
  · next filter found =>
      rw [matchesAnyOrderedPath_iff ran]
      simp [found]

theorem pathsPass_iff {paths : List String}
    (ran : pathsPass options paths workflow = .ok decided) :
    decided = true ↔ ∀ filter, getKey "paths-ignore" options = some filter →
      ∃ path ∈ paths, ∀ pattern ∈ textsOf filter,
        ¬ GlobMatches workflow "paths-ignore" pattern path := by
  unfold pathsPass at ran
  split at ran
  · next absent =>
      cases ran
      simp [absent]
  · next ignored found =>
      obtain ⟨compiled, compiles, same⟩ := bind_eq_ok.mp ran
      cases pure_eq_ok.mp same
      rw [Bool.not_eq_true', List.all_eq_false]
      simp only [found, Option.some.injEq, forall_eq']
      refine exists_congr fun path => and_congr_right fun _ => ?_
      rw [matchesIgnored_iff (compileIgnoredPatterns_ok compiles), not_exists]
      exact forall_congr' fun pattern => not_and

theorem changedPathsPass_iff
    (ran : changedPathsPass options changedPaths workflow = .ok decided) :
    decided = true ↔
      (∀ filter, getKey "paths" options = some filter →
        ∃ path ∈ changedPaths.getD [], Selects workflow "paths" (textsOf filter) path) ∧
      ∀ filter, getKey "paths-ignore" options = some filter →
        ∃ path ∈ changedPaths.getD [], ∀ pattern ∈ textsOf filter,
          ¬ GlobMatches workflow "paths-ignore" pattern path := by
  unfold changedPathsPass at ran
  split at ran
  · next filtered =>
      split at ran
      · cases ran
      · cases ran
        refine ⟨fun impossible => absurd impossible Bool.false_ne_true, fun ⟨match_, pass⟩ => ?_⟩
        rcases Bool.or_eq_true_iff.mp filtered with has | has
        · obtain ⟨filter, found⟩ := Option.isSome_iff_exists.mp has
          obtain ⟨path, member, _⟩ := match_ filter found
          cases member
        · obtain ⟨filter, found⟩ := Option.isSome_iff_exists.mp has
          obtain ⟨path, member, _⟩ := pass filter found
          cases member
      · exact andAlso_iff (fun decided ran => pathsMatch_iff ran)
          (fun decided ran => pathsPass_iff ran) ran
  · next unfiltered =>
      cases ran
      rw [hasPathFilter, Bool.not_eq_true, Bool.or_eq_false_iff, Option.isSome_eq_false_iff,
        Option.isSome_eq_false_iff, Option.isNone_iff_eq_none, Option.isNone_iff_eq_none]
          at unfiltered
      simp [unfiltered.1, unfiltered.2]

theorem matchesFilters_iff
    (ran : matchesFilters options action baseRef changedPaths workflow = .ok decided) :
    decided = true ↔ Passes workflow options action baseRef changedPaths := by
  obtain ⟨_, _, ran⟩ := bind_eq_ok.mp ran
  have types : ∀ decided, (.ok (actionMatches options action) : Outcome Bool) = .ok decided →
      (decided = true ↔
        action ∈ ((getKey "types" options).map textsOf).getD defaultActions) := by
    intro decided same
    cases same
    exact actionMatches_iff
  have each := andAlso_iff types
    (fun decided ran => andAlso_iff (fun decided ran => branchesMatch_iff ran)
      (fun decided ran => andAlso_iff (fun decided ran => branchesPass_iff ran)
        (fun decided ran => changedPathsPass_iff ran) ran) ran) ran
  rw [each]
  exact ⟨fun ⟨types, branches, branchesIgnore, paths, pathsIgnore⟩ =>
      ⟨types, branches, branchesIgnore, paths, pathsIgnore⟩,
    fun passes => ⟨passes.types, passes.branches, passes.branchesIgnore, passes.paths,
      passes.pathsIgnore⟩⟩

/-! ### Triggers -/

mutual

theorem matchesPullRequestTrigger_iff : ∀ (value : Value) {decided : Bool},
    matchesPullRequestTrigger action baseRef changedPaths workflow value = .ok decided →
      (decided = true ↔ Triggers action baseRef changedPaths workflow value)
  | .string text, decided, ran => by
      rw [matchesPullRequestTrigger] at ran
      cases ran
      rw [Bool.and_eq_true, decide_eq_true_iff, isDefaultAction_iff]
      constructor
      · rintro ⟨rfl, default⟩
        exact .named default
      · intro triggers
        cases triggers with
        | named default => exact ⟨rfl, default⟩
  | .sequence values, decided, ran => by
      rw [matchesPullRequestTrigger] at ran
      rw [matchesAnyTrigger_iff values ran]
      constructor
      · rintro ⟨value, member, triggers⟩
        exact .listed member triggers
      · intro triggers
        cases triggers with
        | listed member triggers => exact ⟨_, member, triggers⟩
  | .mapping entries, decided, ran => by
      rw [matchesPullRequestTrigger] at ran
      split at ran
      · next absent =>
          cases ran
          refine ⟨fun impossible => absurd impossible Bool.false_ne_true, fun triggers => ?_⟩
          cases triggers with
          | bare found | filtered found => cases absent.symm.trans found
      · next configuration present =>
          unfold matchesConfiguration at ran
          split at ran
          · cases ran
            rw [isDefaultAction_iff]
            refine ⟨.bare present, fun triggers => ?_⟩
            cases triggers with
            | bare _ default => exact default
            | filtered found => cases present.symm.trans found
          · rw [matchesFilters_iff ran]
            refine ⟨.filtered present, fun triggers => ?_⟩
            cases triggers with
            | bare found => cases present.symm.trans found
            | filtered found passes =>
                cases present.symm.trans found
                exact passes
          · cases ran
  | .null, decided, ran | .bool _, decided, ran | .number _, decided, ran
  | .tagged _ _, decided, ran => by
      rw [matchesPullRequestTrigger] at ran
      cases ran
      exact ⟨fun impossible => absurd impossible Bool.false_ne_true, fun triggers =>
        nomatch triggers⟩

theorem matchesAnyTrigger_iff : ∀ (values : List Value) {decided : Bool},
    matchesAnyTrigger action baseRef changedPaths workflow values = .ok decided →
      (decided = true ↔ ∃ value ∈ values, Triggers action baseRef changedPaths workflow value)
  | [], decided, ran => by
      rw [matchesAnyTrigger] at ran
      cases ran
      simp
  | value :: values, decided, ran => by
      rw [matchesAnyTrigger] at ran
      obtain ⟨first, here, rest⟩ := bind_eq_ok.mp ran
      have each := matchesPullRequestTrigger_iff value here
      cases first with
      | true =>
          cases pure_eq_ok.mp rest
          exact ⟨fun _ => ⟨value, List.mem_cons_self, each.mp rfl⟩, fun _ => rfl⟩
      | false =>
          have absent : ¬ Triggers action baseRef changedPaths workflow value :=
            fun triggers => Bool.false_ne_true (each.mpr triggers)
          rw [matchesAnyTrigger_iff values rest]
          simp [absent]

end

/-- A workflow that is decided on starts for exactly the events that its trigger describes: the
default actions or those of `types`, a base branch that the last matching pattern of `branches`
lets in and no pattern of `branches-ignore` keeps out, and a changed file that `paths` lets in, or
that `paths-ignore` does not keep out. -/
theorem matchesPullRequest_iff (source : Workflow) (action baseRef : String)
    (changedPaths : Option (List String)) (decided : Bool)
    (ran : matchesPullRequest source action baseRef changedPaths = .ok decided) :
    decided = true ↔ Triggers action baseRef changedPaths source.name source.trigger :=
  matchesPullRequestTrigger_iff source.trigger ran

/-! ### The changed files -/

omit [RegexCrate] in
theorem hasPathFilter_of_mapping {entries : List (Value × Value)}
    (found : getKey "pull_request" entries = some (.mapping options)) :
    triggerHasPullRequestPathFilter (.mapping entries) = hasPathFilter options := by
  rw [triggerHasPullRequestPathFilter, found]
  rfl

theorem changedPathsPass_of_unfiltered (unfiltered : hasPathFilter options = false)
    (changedPaths : Option (List String)) :
    changedPathsPass options changedPaths workflow = .ok true := by
  unfold changedPathsPass
  rw [unfiltered]
  rfl

mutual

/-- A trigger without path filters does not read the changed files. -/
theorem trigger_unread : ∀ (value : Value), triggerHasPullRequestPathFilter value = false →
    ∀ changedPaths, matchesPullRequestTrigger action baseRef changedPaths workflow value =
      matchesPullRequestTrigger action baseRef none workflow value
  | .sequence values, unfiltered, changedPaths => by
      rw [triggerHasPullRequestPathFilter] at unfiltered
      rw [matchesPullRequestTrigger, matchesPullRequestTrigger, anyTrigger_unread values unfiltered]
  | .mapping entries, unfiltered, changedPaths => by
      rw [matchesPullRequestTrigger, matchesPullRequestTrigger]
      cases found : getKey "pull_request" entries with
      | none => rfl
      | some configuration =>
          cases configuration with
          | mapping options =>
              rw [hasPathFilter_of_mapping found] at unfiltered
              simp only [matchesConfiguration, matchesFilters,
                changedPathsPass_of_unfiltered unfiltered]
          | null | bool _ | number _ | string _ | sequence _ | tagged _ _ => rfl
  | .null, _, _ | .bool _, _, _ | .number _, _, _ | .string _, _, _ | .tagged _ _, _, _ => by
      rw [matchesPullRequestTrigger, matchesPullRequestTrigger]

theorem anyTrigger_unread : ∀ (values : List Value), anyTriggerHasPathFilter values = false →
    ∀ changedPaths, matchesAnyTrigger action baseRef changedPaths workflow values =
      matchesAnyTrigger action baseRef none workflow values
  | [], _, _ => by rw [matchesAnyTrigger, matchesAnyTrigger]
  | value :: values, unfiltered, changedPaths => by
      rw [anyTriggerHasPathFilter, Bool.or_eq_false_iff] at unfiltered
      rw [matchesAnyTrigger, matchesAnyTrigger, trigger_unread value unfiltered.1,
        anyTrigger_unread values unfiltered.2]

end

/-- What a check says of some changed files, it says of more: it does not fail, and what holds
stays so. -/
def Grows (before after : Outcome Bool) : Prop :=
  ∀ decided, before = .ok decided →
    ∃ later, after = .ok later ∧ (decided = true → later = true)

omit [RegexCrate] in
theorem Grows.refl (check : Outcome Bool) : Grows check check :=
  fun decided ran => ⟨decided, ran, fun holds => holds⟩

omit [RegexCrate] in
theorem Grows.andAlso {first before after : Outcome Bool} (grows : Grows before after) :
    Grows (andAlso first before) (andAlso first after) := by
  intro decided ran
  rcases andAlso_eq_ok.mp ran with ⟨early, rfl⟩ | ⟨holds, rest⟩
  · exact ⟨false, andAlso_eq_ok.mpr (.inl ⟨early, rfl⟩), fun holds => holds⟩
  · obtain ⟨later, ran, stays⟩ := grows decided rest
    exact ⟨later, andAlso_eq_ok.mpr (.inr ⟨holds, ran⟩), stays⟩

variable {before after : List String}

theorem pathsMatch_grows (more : before ⊆ after) :
    Grows (pathsMatch options before workflow) (pathsMatch options after workflow) := by
  intro decided ran
  unfold pathsMatch at ran ⊢
  split at ran
  · exact ⟨decided, ran, fun holds => holds⟩
  · obtain ⟨compiled, compiles, same⟩ := bind_eq_ok.mp ran
    cases pure_eq_ok.mp same
    refine ⟨_, bind_eq_ok.mpr ⟨compiled, compiles, rfl⟩, fun holds => ?_⟩
    obtain ⟨path, member, selected⟩ := List.any_eq_true.mp holds
    exact List.any_eq_true.mpr ⟨path, more member, selected⟩

theorem pathsPass_grows (more : before ⊆ after) :
    Grows (pathsPass options before workflow) (pathsPass options after workflow) := by
  intro decided ran
  unfold pathsPass at ran ⊢
  split at ran
  · exact ⟨decided, ran, fun holds => holds⟩
  · obtain ⟨compiled, compiles, same⟩ := bind_eq_ok.mp ran
    cases pure_eq_ok.mp same
    refine ⟨_, bind_eq_ok.mpr ⟨compiled, compiles, rfl⟩, fun holds => ?_⟩
    rw [Bool.not_eq_true', List.all_eq_false] at holds ⊢
    obtain ⟨path, member, kept⟩ := holds
    exact ⟨path, more member, kept⟩

/-- The two path filters exclude each other, so that one of the checks is trivial. -/
theorem changedPathsPass_grows (filled : before ≠ []) (more : before ⊆ after)
    (exclusive : ((getKey "paths" options).isSome && (getKey "paths-ignore" options).isSome) =
      false) :
    Grows (changedPathsPass options (some before) workflow)
      (changedPathsPass options (some after) workflow) := by
  obtain ⟨first, rest, rfl⟩ := List.exists_cons_of_ne_nil filled
  obtain ⟨other, others, rfl⟩ := List.exists_cons_of_ne_nil
    (List.ne_nil_of_mem (more List.mem_cons_self))
  unfold changedPathsPass
  split
  · dsimp only
    cases ignores : getKey "paths-ignore" options with
    | none =>
        have trivial : ∀ paths, pathsPass options paths workflow = .ok true := fun paths => by
          rw [pathsPass, ignores]
        intro decided ran
        rw [trivial] at ran ⊢
        rcases andAlso_eq_ok.mp ran with ⟨early, rfl⟩ | ⟨holds, same⟩
        · obtain ⟨later, passes, _⟩ := pathsMatch_grows more false early
          cases later with
          | false => exact ⟨false, andAlso_eq_ok.mpr (.inl ⟨passes, rfl⟩), fun holds => holds⟩
          | true => exact ⟨true, andAlso_eq_ok.mpr (.inr ⟨passes, rfl⟩), fun _ => rfl⟩
        · obtain ⟨later, passes, stays⟩ := pathsMatch_grows more true holds
          rw [stays rfl] at passes
          exact ⟨true, andAlso_eq_ok.mpr (.inr ⟨passes, rfl⟩), fun _ => rfl⟩
    | some ignored =>
        have absent : getKey "paths" options = none := by
          rw [ignores, Option.isSome_some, Bool.and_true, Option.isSome_eq_false_iff,
            Option.isNone_iff_eq_none] at exclusive
          exact exclusive
        have trivial : ∀ paths, pathsMatch options paths workflow = .ok true := fun paths => by
          rw [pathsMatch, absent]
        rw [trivial, trivial]
        exact (pathsPass_grows more).andAlso
  · exact .refl _

omit [RegexCrate] in
theorem exclusive_of_validated (ran : validateFilters options workflow = .ok ()) :
    ((getKey "paths" options).isSome && (getKey "paths-ignore" options).isSome) = false := by
  unfold validateFilters at ran
  split at ran
  · cases ran
  · split at ran
    · cases ran
    · split at ran
      · cases ran
      · next exclusive => exact Bool.eq_false_of_not_eq_true exclusive

theorem matchesFilters_grows (filled : before ≠ []) (more : before ⊆ after) :
    Grows (matchesFilters options action baseRef (some before) workflow)
      (matchesFilters options action baseRef (some after) workflow) := by
  intro decided ran
  obtain ⟨_, validated, ran⟩ := bind_eq_ok.mp ran
  have grows : Grows (changedPathsPass options (some before) workflow)
      (changedPathsPass options (some after) workflow) :=
    changedPathsPass_grows filled more (exclusive_of_validated validated)
  obtain ⟨later, passes, stays⟩ := grows.andAlso.andAlso.andAlso decided ran
  exact ⟨later, bind_eq_ok.mpr ⟨(), validated, passes⟩, stays⟩

mutual

/-- More changed files start no fewer workflows. -/
theorem trigger_grows (filled : before ≠ []) (more : before ⊆ after) : ∀ (value : Value),
    Grows (matchesPullRequestTrigger action baseRef (some before) workflow value)
      (matchesPullRequestTrigger action baseRef (some after) workflow value)
  | .sequence values => by
      rw [matchesPullRequestTrigger, matchesPullRequestTrigger]
      exact anyTrigger_grows filled more values
  | .mapping entries => by
      rw [matchesPullRequestTrigger, matchesPullRequestTrigger]
      cases getKey "pull_request" entries with
      | none => exact .refl _
      | some configuration =>
          cases configuration with
          | mapping options => exact matchesFilters_grows filled more
          | null | bool _ | number _ | string _ | sequence _ | tagged _ _ => exact .refl _
  | .null | .bool _ | .number _ | .string _ | .tagged _ _ => by
      rw [matchesPullRequestTrigger, matchesPullRequestTrigger]
      exact .refl _

theorem anyTrigger_grows (filled : before ≠ []) (more : before ⊆ after) : ∀ (values : List Value),
    Grows (matchesAnyTrigger action baseRef (some before) workflow values)
      (matchesAnyTrigger action baseRef (some after) workflow values)
  | [] => by
      rw [matchesAnyTrigger, matchesAnyTrigger]
      exact .refl _
  | value :: values => by
      intro decided ran
      rw [matchesAnyTrigger] at ran ⊢
      obtain ⟨first, here, rest⟩ := bind_eq_ok.mp ran
      obtain ⟨later, hereAfter, stays⟩ := trigger_grows filled more value first here
      cases later with
      | true => exact ⟨true, bind_eq_ok.mpr ⟨true, hereAfter, rfl⟩, fun _ => rfl⟩
      | false =>
          cases first with
          | true => exact absurd (stays rfl) Bool.false_ne_true
          | false =>
              obtain ⟨last, restAfter, restStays⟩ :=
                anyTrigger_grows filled more values decided rest
              exact ⟨last, bind_eq_ok.mpr ⟨false, hereAfter, restAfter⟩, restStays⟩

end

end Triggers

end GitZero.Workflows

namespace GitZero.Agent

open Workflows Outcomes

/-! ### The pages of the changed files -/

section Pages

variable {page : Nat → Except String (List String)}

theorem fetchPages_bounded {remaining number : Nat} {paths fetched : List String}
    (valid : paths.any invalidPath = false)
    (ran : fetchPages page remaining number paths = .ok fetched) :
    fetched.any invalidPath = false ∧
      fetched.length ≤ paths.length + remaining * pullRequestFilesPerPage := by
  induction remaining generalizing number paths with
  | zero =>
      cases ran
      exact ⟨valid, Nat.le_add_right _ _⟩
  | succ remaining inductionHypothesis =>
      obtain ⟨files, answered, ran⟩ := bind_eq_ok.mp ran
      split at ran
      · cases ran
      · next short =>
          split at ran
          · cases ran
          · next allowed =>
              have both : (paths ++ files).any invalidPath = false := by
                rw [List.any_append, valid, Bool.false_or]
                exact Bool.eq_false_of_not_eq_true allowed
              split at ran
              · cases pure_eq_ok.mp ran
                refine ⟨both, ?_⟩
                rw [List.length_append, Nat.succ_mul]
                omega
              · obtain ⟨rest, size⟩ := inductionHypothesis both ran
                refine ⟨rest, ?_⟩
                rw [List.length_append] at size
                rw [Nat.succ_mul]
                omega

/-- A page of a list of files, as the API cuts it. -/
def pageOf (files : List String) (number : Nat) : List String :=
  (files.drop (number * pullRequestFilesPerPage)).take pullRequestFilesPerPage

theorem fetchPages_files {files : List String} (valid : files.any invalidPath = false)
    (served : ∀ number, page (number + 1) = .ok (pageOf files number)) (remaining number : Nat) :
    fetchPages page remaining (number + 1) (files.take (number * pullRequestFilesPerPage)) =
      .ok (files.take ((number + remaining) * pullRequestFilesPerPage)) := by
  induction remaining generalizing number with
  | zero => rfl
  | succ remaining inductionHypothesis =>
      have joined : files.take (number * pullRequestFilesPerPage) ++ pageOf files number =
          files.take ((number + 1) * pullRequestFilesPerPage) := by
        rw [Nat.succ_mul, List.take_add, pageOf]
      have allowed : (pageOf files number).any invalidPath = false := by
        rw [List.any_eq_false] at valid ⊢
        exact fun path member => valid path (List.mem_of_mem_drop (List.mem_of_mem_take member))
      rw [fetchPages, served]
      change (if _ then _ else _) = _
      have fits : ¬ (pageOf files number).length > pullRequestFilesPerPage :=
        Nat.not_lt.mpr (List.length_take_le _ _)
      rw [if_neg fits, if_neg (Bool.eq_false_iff.mp allowed), joined]
      split
      · next short =>
          have all : files.length ≤ (number + 1) * pullRequestFilesPerPage := by
            rw [pageOf, List.length_take, List.length_drop] at short
            rw [Nat.succ_mul]
            omega
          have more : files.length ≤ (number + (remaining + 1)) * pullRequestFilesPerPage :=
            le_trans all (Nat.mul_le_mul_right _ (by omega))
          rw [List.take_of_length_le all, List.take_of_length_le more]
          rfl
      · rw [inductionHypothesis, Nat.add_right_comm, Nat.add_assoc]

/-- Whatever the API answers, a list that was fetched passes the check of the lists that come with
a run; and of the files that the API serves page by page it holds the first 3000, in their
order. -/
theorem fetchPullRequestChangedPaths_files (page : Nat → Except String (List String)) :
    (∀ paths, fetchPullRequestChangedPaths page = .ok paths → validateChangedPaths paths = .ok ()) ∧
      ∀ files, files.any invalidPath = false →
        (∀ number, page (number + 1) = .ok (pageOf files number)) →
        fetchPullRequestChangedPaths page = .ok (files.take maxPullRequestFiles) := by
  constructor
  · intro paths ran
    obtain ⟨valid, size⟩ := fetchPages_bounded rfl ran
    have fits : ¬ paths.length > maxPullRequestFiles := Nat.not_lt.mpr size
    rw [validateChangedPaths, if_neg fits, if_neg (Bool.eq_false_iff.mp valid)]
  · intro files valid served
    exact fetchPages_files valid served _ 0

end Pages

/-! ### Discovery -/

section Discovery

variable [RegexCrate] {workflows : WorkflowFiles} {action baseRef : String}

theorem matchingWorkflows_unread (unfiltered : needsChangedPaths workflows = false)
    (changedPaths : Option (List String)) :
    matchingWorkflows workflows action baseRef changedPaths =
      matchingWorkflows workflows action baseRef none := by
  have each : workflows.mapM (decideWorkflow action baseRef changedPaths) =
      workflows.mapM (decideWorkflow action baseRef none) := by
    induction workflows with
    | nil => rfl
    | cons entry entries inductionHypothesis =>
        rw [needsChangedPaths, List.any_cons, Bool.or_eq_false_iff] at unfiltered
        have here : decideWorkflow action baseRef changedPaths entry =
            decideWorkflow action baseRef none entry := by
          rw [decideWorkflow, matchesPullRequest, trigger_unread _ unfiltered.1]
          rfl
        rw [List.mapM_cons, List.mapM_cons, here, inductionHypothesis unfiltered.2]
  rw [matchingWorkflows, each]
  rfl

/-- Discovery asks for the changed files only when a trigger has a path filter, and selects what
it would select if it always knew them: without path filters the list, and a failure to get it,
do not matter. -/
theorem discoverMatching_eq (workflows : WorkflowFiles) (action baseRef : String)
    (given : Option (List String)) (fetch : Except String (List String)) :
    (needsChangedPaths workflows = false → ∀ changedPaths,
      discoverMatching workflows action baseRef given fetch =
        (matchingWorkflows workflows action baseRef changedPaths).mapError .workflow) ∧
    ∀ paths, given.elim fetch .ok = .ok paths → validateChangedPaths paths = .ok () →
      discoverMatching workflows action baseRef given fetch =
        (matchingWorkflows workflows action baseRef (some paths)).mapError .workflow := by
  have unread : needsChangedPaths workflows = false → ∀ changedPaths,
      discoverMatching workflows action baseRef given fetch =
        (matchingWorkflows workflows action baseRef changedPaths).mapError .workflow := by
    intro unfiltered changedPaths
    rw [matchingWorkflows_unread unfiltered, discoverMatching, changedPathsFor, unfiltered]
    rfl
  refine ⟨unread, fun paths known valid => ?_⟩
  cases needs : needsChangedPaths workflows with
  | false => exact unread needs (some paths)
  | true =>
      rw [discoverMatching, changedPathsFor, needs, if_pos rfl, known]
      change ((validateChangedPaths paths >>= fun _ => pure (some paths)).mapError _ >>= _) = _
      rw [valid]
      rfl

theorem decided_grows {before after : List String} (filled : before ≠ []) (more : before ⊆ after)
    {decided : List (String × Bool)}
    (ran : workflows.mapM (decideWorkflow action baseRef (some before)) = .ok decided) :
    ∃ later, workflows.mapM (decideWorkflow action baseRef (some after)) = .ok later ∧
      ((decided.filter Prod.snd).map Prod.fst).Sublist ((later.filter Prod.snd).map Prod.fst) := by
  have all := mapM_eq_ok.mp ran
  clear ran
  induction all with
  | nil => exact ⟨[], rfl, List.Sublist.refl _⟩
  | @cons entry first entries rest here _ inductionHypothesis =>
      obtain ⟨starts, ran, same⟩ := bind_eq_ok.mp here
      cases pure_eq_ok.mp same
      obtain ⟨stays, ranAfter, kept⟩ := trigger_grows filled more _ starts ran
      obtain ⟨later, ranLater, sublist⟩ := inductionHypothesis
      refine ⟨(entry.1, stays) :: later, ?_, ?_⟩
      · have hereAfter : decideWorkflow action baseRef (some after) entry = .ok (entry.1, stays) :=
          bind_eq_ok.mpr ⟨stays, ranAfter, rfl⟩
        rw [List.mapM_cons, hereAfter, ranLater]
        rfl
      · cases starts with
        | false =>
            rw [List.filter_cons_of_neg Bool.false_ne_true]
            cases stays with
            | false =>
                rw [List.filter_cons_of_neg Bool.false_ne_true]
                exact sublist
            | true =>
                rw [List.filter_cons_of_pos rfl]
                exact sublist.cons _
        | true =>
            rw [kept rfl, List.filter_cons_of_pos rfl, List.filter_cons_of_pos rfl]
            exact sublist.cons_cons _

/-- More changed files start no fewer workflows: if the workflows can be decided for some changed
files, then they can for more, and those that were selected are selected again. -/
theorem matchingWorkflows_grows (workflows : WorkflowFiles) (action baseRef : String)
    (before after : List String) (filled : before ≠ []) (more : before ⊆ after)
    (selected : List String)
    (ran : matchingWorkflows workflows action baseRef (some before) = .ok selected) :
    ∃ later, matchingWorkflows workflows action baseRef (some after) = .ok later ∧
      selected.Sublist later := by
  obtain ⟨decided, each, same⟩ := bind_eq_ok.mp ran
  cases pure_eq_ok.mp same
  obtain ⟨later, ranLater, sublist⟩ := decided_grows filled more each
  exact ⟨_, bind_eq_ok.mpr ⟨later, ranLater, rfl⟩, sublist⟩

end Discovery

namespace DiscoverySample

/-- Expressions are their text: a literal pattern matches its own text. -/
scoped instance regexCrate : RegexCrate where
  Regex := Expression.Text
  new expression := .ok expression
  isMatch expression candidate := expression = globExpression [candidate]
  escape character := [character]

def sourceFilter : List (Value × Value) :=
  [(.string "paths", .sequence [.string "src"])]

/-- A workflow for changes of `src`. -/
def sourceWorkflow : Workflow where
  name := "ci"
  trigger := .mapping [(.string "pull_request", .mapping sourceFilter)]
  jobs := []
  distinct := List.nodup_nil

def sourceFiles : WorkflowFiles := [(".github/workflows/ci.yml", sourceWorkflow)]

theorem compile_src :
    compileGlob "src" "ci" "paths" = .ok (globExpression ["src".toList]) := by
  simp [compileGlob, compileAtoms, RegexCrate.escape, RegexCrate.new, globExpression]
  rfl

theorem sourceWorkflow_starts (paths : List String) (filled : paths ≠ [])
    (changed : "src" ∈ paths) :
    matchesPullRequest sourceWorkflow "opened" "main" (some paths) = .ok true := by
  have compiled : compileOrderedPatterns (.sequence [.string "src"]) "ci" "paths" =
      .ok [(false, globExpression ["src".toList])] := by
    change (compileOrderedPattern "ci" "paths" "src" >>= fun pattern => pure [pattern]) = _
    change ((compileGlob "src" "ci" "paths" >>= fun regex => pure (false, regex)) >>= _) = _
    rw [compile_src]
    rfl
  have selected : paths.any (matchesCompiledOrderedPatterns
      [(false, globExpression ["src".toList])]) = true :=
    List.any_eq_true.mpr ⟨"src", changed, by decide⟩
  obtain ⟨path, rest, rfl⟩ := List.exists_cons_of_ne_nil filled
  change (matchesAnyOrderedPath (.sequence [.string "src"]) (path :: rest) "ci" "paths" >>= _) = _
  rw [matchesAnyOrderedPath, compiled]
  change (if (path :: rest).any _ then _ else _) = _
  rw [selected]
  rfl

theorem sourceWorkflow_triggers :
    Triggers "opened" "main" (some ["docs", "src"]) "ci" sourceWorkflow.trigger :=
  (matchesPullRequest_iff sourceWorkflow "opened" "main" (some ["docs", "src"]) true
    (sourceWorkflow_starts _ (by decide) (by decide))).mp rfl

theorem sourceFiles_lazy :
    discoverMatching sourceFiles "opened" "main" none (.ok ["src"]) =
      (matchingWorkflows sourceFiles "opened" "main" (some ["src"])).mapError .workflow :=
  (discoverMatching_eq sourceFiles "opened" "main" none (.ok ["src"])).2 ["src"] rfl
    (by decide)

theorem sourceFiles_grow : ∃ later,
    matchingWorkflows sourceFiles "opened" "main" (some ["docs", "src"]) = .ok later ∧
      [".github/workflows/ci.yml"].Sublist later := by
  have ran : matchingWorkflows sourceFiles "opened" "main" (some ["src"]) =
      .ok [".github/workflows/ci.yml"] := by
    have starts := sourceWorkflow_starts ["src"] (by decide) (by decide)
    rw [matchingWorkflows, sourceFiles, List.mapM_cons, decideWorkflow, starts]
    rfl
  exact matchingWorkflows_grows sourceFiles "opened" "main" ["src"] ["docs", "src"] (by decide)
    (by decide) _ ran

def changedFiles : List String := ["docs/guide.md", "src/main.rs"]

theorem changedFiles_fetched :
    fetchPullRequestChangedPaths (fun number => .ok (pageOf changedFiles (number - 1))) =
      .ok changedFiles :=
  (fetchPullRequestChangedPaths_files _).2 changedFiles (by decide) fun _ => rfl

end DiscoverySample

end GitZero.Agent
