/-
Module: GitZero.Proofs.MatcherRegistration
Purpose: The problem matchers that the scopes of a job hold, whatever is registered,
  removed and scanned.
Trusted boundary: none
Main exports: Operation, Registered, AddsAtomically, adds_atomically_iff,
  full_scope_is_emptied
-/
import GitZero.Agent.ProblemMatchers
import GitZero.Lib.Machine
import GitZero.Lib.Outcomes

namespace GitZero.Agent.ProblemMatchers

open Expression (Text toAsciiLowercase)
open Outcomes

section Registration

variable [Regexes]

/-- The folded owners of matchers. -/
def owners (matchers : List ProblemMatcher) : List Text :=
  matchers.map fun matcher => toAsciiLowercase matcher.owner

namespace ProblemMatcherRegistry

def matchersOf (registry : ProblemMatcherRegistry) (scope : String) : List ProblemMatcher :=
  (registry.scopes[scope]?).getD []

/-- The owners of every scope differ, and no scope has too many matchers. -/
def Registered (registry : ProblemMatcherRegistry) : Prop :=
  ∀ scope, (owners (registry.matchersOf scope)).Nodup ∧
    (registry.matchersOf scope).length ≤ maxMatchersPerJob

/-- A failure changes no matcher of any scope.  A success puts the new matchers before the
retained ones, keeps the owners different and their number bounded, and changes no other
scope. -/
def AddsAtomically (registry : ProblemMatcherRegistry) (scope : String) (path : Text)
    (file : Except String (List ProblemMatcherConfig)) : Prop :=
  match registry.addFromFile scope path file with
  | (after, .error _) => ∀ other, after.matchersOf other = registry.matchersOf other
  | (after, .ok ()) =>
      (∃ matchers, registry.newMatchers scope path file = .ok matchers ∧
        after.matchersOf scope = matchers ++ retained matchers (registry.matchersOf scope)) ∧
      (owners (after.matchersOf scope)).Nodup ∧
      (after.matchersOf scope).length ≤ maxMatchersPerJob ∧
      ∀ other, other ≠ scope → after.matchersOf other = registry.matchersOf other

/-! ### What is compiled and retained -/

theorem compileAll_sound {seen : List Text} {configs : List ProblemMatcherConfig}
    {matchers : List ProblemMatcher} (compiled : compileAll seen configs = .ok matchers) :
    matchers.length = configs.length ∧ (owners matchers).Nodup ∧
      ∀ owner ∈ owners matchers, owner ∉ seen := by
  induction configs generalizing seen matchers with
  | nil =>
      cases compiled
      exact ⟨rfl, List.nodup_nil, by simp [owners]⟩
  | cons config configs inductionHypothesis =>
      rw [compileAll] at compiled
      obtain ⟨matcher, -, compiled⟩ := bind_eq_ok.mp compiled
      split at compiled
      · cases compiled
      · rename_i unseen
        obtain ⟨rest, isRest, same⟩ := bind_eq_ok.mp compiled
        cases same
        obtain ⟨length, distinct, fresh⟩ := inductionHypothesis isRest
        refine ⟨congrArg (· + 1) length, ?_, ?_⟩
        · refine List.nodup_cons.mpr ⟨fun member => ?_, distinct⟩
          exact fresh _ member List.mem_cons_self
        · intro owner member
          rcases List.mem_cons.mp member with rfl | later
          · exact unseen
          · exact fun inSeen => fresh owner later (List.mem_cons_of_mem _ inSeen)

/-- A file compiles when each of its matchers does and their owners differ. -/
theorem compileAll_eq_ok {seen : List Text} {configs : List ProblemMatcherConfig}
    {ownerOf : ProblemMatcherConfig → Text}
    (compiles : ∀ config ∈ configs, ∃ matcher, ProblemMatcher.compile config = .ok matcher ∧
      toAsciiLowercase matcher.owner = ownerOf config)
    (distinct : (configs.map ownerOf).Nodup)
    (unseen : ∀ config ∈ configs, ownerOf config ∉ seen) :
    ∃ matchers, compileAll seen configs = .ok matchers ∧
      owners matchers = configs.map ownerOf := by
  induction configs generalizing seen with
  | nil => exact ⟨[], rfl, rfl⟩
  | cons config configs inductionHypothesis =>
      obtain ⟨matcher, compiled, owner⟩ := compiles config List.mem_cons_self
      obtain ⟨apart, distinct⟩ := List.nodup_cons.mp distinct
      have unseenRest : ∀ other ∈ configs, ownerOf other ∉ ownerOf config :: seen := by
        intro other member inside
        rcases List.mem_cons.mp inside with same | before
        · exact apart (same ▸ List.mem_map_of_mem member)
        · exact unseen other (List.mem_cons_of_mem _ member) before
      obtain ⟨matchers, rest, named⟩ := inductionHypothesis
        (fun other member => compiles other (List.mem_cons_of_mem _ member)) distinct unseenRest
      refine ⟨matcher :: matchers, ?_, ?_⟩
      · rw [compileAll]
        refine bind_eq_ok.mpr ⟨matcher, compiled, ?_⟩
        rw [owner, if_neg (unseen config List.mem_cons_self), rest]
        rfl
      · rw [owners, List.map_cons, List.map_cons, owner]
        exact congrArg _ named

theorem newMatchers_sound {registry : ProblemMatcherRegistry} {scope : String} {path : Text}
    {file : Except String (List ProblemMatcherConfig)} {matchers : List ProblemMatcher}
    (read : registry.newMatchers scope path file = .ok matchers) :
    matchers.length ≤ maxMatchersPerConfig ∧ (owners matchers).Nodup := by
  unfold newMatchers at read
  obtain ⟨config, -, read⟩ := bind_eq_ok.mp read
  split at read
  · cases read
  · rename_i bounded
    obtain ⟨length, distinct, -⟩ := compileAll_sound read
    exact ⟨by omega, distinct⟩

theorem owners_append_retained {matchers active : List ProblemMatcher}
    (distinct : (owners matchers).Nodup) (distinctActive : (owners active).Nodup) :
    (owners (matchers ++ retained matchers active)).Nodup := by
  rw [owners, List.map_append, List.nodup_append]
  refine ⟨distinct, distinctActive.sublist ((List.filter_sublist).map _), ?_⟩
  intro owner member other memberOther same
  obtain ⟨kept, isKept, rfl⟩ := List.mem_map.mp memberOther
  exact of_decide_eq_true (List.mem_filter.mp isKept).2 (same ▸ member)

theorem retained_nil (active : List ProblemMatcher) : retained [] active = active :=
  List.filter_eq_self.mpr fun _ _ => by simp

/-- Matchers of other owners are retained. -/
theorem retained_eq_self {matchers active : List ProblemMatcher}
    (apart : ∀ owner ∈ owners active, owner ∉ owners matchers) :
    retained matchers active = active :=
  List.filter_eq_self.mpr fun _ member =>
    decide_eq_true (apart _ (List.mem_map_of_mem member))

/-! ### One operation -/

theorem matchersOf_insert (registry : ProblemMatcherRegistry) (scope other : String)
    (matchers : List ProblemMatcher) :
    ({ registry with scopes := registry.scopes.insert scope matchers } :
      ProblemMatcherRegistry).matchersOf other =
        if other = scope then matchers else registry.matchersOf other := by
  simp only [matchersOf, Std.ExtTreeMap.getElem?_insert, compare_eq_iff_eq]
  by_cases same : other = scope
  · rw [if_pos same, if_pos same.symm, Option.getD_some]
  · rw [if_neg same, if_neg (Ne.symm same)]

/-- A change that leaves an empty scope empty. -/
theorem matchersOf_alter (registry : ProblemMatcherRegistry) (scope other : String)
    {change : List ProblemMatcher → List ProblemMatcher} (empty : change [] = []) :
    (registry.alter scope change).matchersOf other =
      if other = scope then change (registry.matchersOf scope) else registry.matchersOf other := by
  unfold alter
  split
  · rename_i absent
    by_cases same : other = scope
    · rw [if_pos same, same, matchersOf, absent, Option.getD_none, empty]
    · rw [if_neg same]
  · rename_i matchers present
    rw [matchersOf_insert, matchersOf, matchersOf, present, Option.getD_some]

/-- What the registration of a file does once the file has compiled. -/
theorem addFromFile_cases (registry : ProblemMatcherRegistry) (scope : String) (path : Text)
    (file : Except String (List ProblemMatcherConfig)) :
    (∃ error, registry.newMatchers scope path file = .error error ∧
      registry.addFromFile scope path file = (registry, .error error)) ∨
    (registry.newMatchers scope path file = .ok [] ∧
      registry.addFromFile scope path file = (registry, .ok ())) ∨
    ∃ matchers, registry.newMatchers scope path file = .ok matchers ∧ matchers ≠ [] ∧
      ((maxMatchersPerJob <
          matchers.length + (retained matchers (registry.matchersOf scope)).length ∧
        registry.addFromFile scope path file =
          ({ registry with scopes := registry.scopes.insert scope [] },
            .error "job registered too many problem matchers")) ∨
      (matchers.length + (retained matchers (registry.matchersOf scope)).length ≤
          maxMatchersPerJob ∧
        registry.addFromFile scope path file =
          ({ registry with
            scopes := registry.scopes.insert scope
              (matchers ++ retained matchers (registry.matchersOf scope)) }, .ok ()))) := by
  unfold addFromFile matchersOf
  split
  · rename_i error failed
    exact .inl ⟨error, failed, rfl⟩
  · rename_i none
    exact .inr (.inl ⟨none, rfl⟩)
  · rename_i matchers some compiled
    refine .inr (.inr ⟨matchers, compiled, some, ?_⟩)
    dsimp only
    split
    · rename_i exceeds
      exact .inl ⟨exceeds, rfl⟩
    · rename_i fits
      exact .inr ⟨Nat.le_of_not_lt fits, rfl⟩

end ProblemMatcherRegistry

/-- A line changes the progress of a matcher only. -/
theorem ProblemMatcher.matchesFrom_rules (line : Text) (count : Nat) (matcher : ProblemMatcher) :
    ∃ state, state.length = matcher.state.length ∧
      (matcher.matchesFrom line count).2 = { matcher with state } := by
  induction count generalizing matcher with
  | zero => exact ⟨matcher.state, rfl, rfl⟩
  | succ index inductionHypothesis =>
      have after : ∀ position issue, ∃ state, state.length = matcher.state.length ∧
          ((matcher.setState position issue).matchesFrom line index).2 =
            { matcher with state } := by
        intro position issue
        obtain ⟨state, length, same⟩ := inductionHypothesis (matcher.setState position issue)
        exact ⟨state, length.trans List.length_set, same⟩
      rw [matchesFrom]
      dsimp only
      split
      · exact inductionHypothesis matcher
      · split
        · exact inductionHypothesis matcher
        · split
          · split
            · dsimp only
              split
              · exact ⟨_, List.length_set.trans (List.length_map _), rfl⟩
              · exact ⟨_, List.length_map _, rfl⟩
            · exact after _ _
          · split
            · exact after _ _
            · exact after _ _

theorem ProblemMatcher.matches_rules (line : Text) (matcher : ProblemMatcher) :
    ∃ state, state.length = matcher.state.length ∧
      (matcher.matches line).2 = { matcher with state } := by
  unfold ProblemMatcher.matches
  split
  · exact ⟨matcher.state, rfl, rfl⟩
  · exact matchesFrom_rules line _ matcher

theorem owners_reset (matchers : List ProblemMatcher) :
    owners (matchers.map ProblemMatcher.reset) = owners matchers := by
  rw [owners, List.map_map]
  rfl

theorem ProblemMatcher.matches_owner {line : Text} {matcher after : ProblemMatcher}
    {issue : Option MatchedIssue} (read : matcher.matches line = (issue, after)) :
    after.owner = matcher.owner := by
  obtain ⟨state, -, same⟩ := matcher.matches_rules line
  rw [read] at same
  rw [show after = { matcher with state } from same]

theorem owners_append (front back : List ProblemMatcher) :
    owners (front ++ back) = owners front ++ owners back :=
  List.map_append

theorem owners_cons (matcher : ProblemMatcher) (matchers : List ProblemMatcher) :
    owners (matcher :: matchers) = toAsciiLowercase matcher.owner :: owners matchers :=
  rfl

theorem owners_scanMatchers [Files] (workspace : Option Text) (line : Text)
    (done matchers : List ProblemMatcher) :
    owners (scanMatchers workspace line done matchers).2 = owners (done ++ matchers) := by
  induction size : matchers.length generalizing done matchers with
  | zero =>
      rw [List.length_eq_zero_iff.mp size, scanMatchers, List.append_nil]
  | succ count inductionHypothesis =>
      cases matchers with
      | nil => cases size
      | cons matcher rest =>
          rw [scanMatchers]
          split
          · rename_i after missed
            rw [inductionHypothesis _ _ (Nat.succ.inj size), List.append_assoc,
              List.singleton_append, owners_append, owners_append, owners_cons, owners_cons,
              ProblemMatcher.matches_owner missed]
          · rename_i issue after matched
            have same : owners (done.map ProblemMatcher.reset ++ [after] ++
                rest.map ProblemMatcher.reset) = owners (done ++ matcher :: rest) := by
              rw [List.append_assoc, List.singleton_append, owners_append, owners_append,
                owners_cons, owners_cons, owners_reset, owners_reset,
                ProblemMatcher.matches_owner matched]
            dsimp only
            split
            · exact same
            · rw [inductionHypothesis _ _ ((List.length_map _).trans (Nat.succ.inj size)), same]

namespace ProblemMatcherRegistry

theorem owners_scan [Files] (registry : ProblemMatcherRegistry) (scope other : String)
    (line : Text) :
    owners ((registry.scan scope line).2.matchersOf other) =
      owners (registry.matchersOf other) := by
  unfold scan
  split
  · rfl
  · rename_i matchers present
    dsimp only
    rw [matchersOf_insert]
    split
    · rename_i same
      rw [owners_scanMatchers, List.nil_append, matchersOf, same, present, Option.getD_some]
    · rfl

/-! ### Runs -/

/-- The operations of a job on its registry. -/
inductive Operation where
  | registerWorkspace (scope : String) (workspace : Text)
  | addFromFile (scope : String) (path : Text) (file : Except String (List ProblemMatcherConfig))
  | removeOwner (scope : String) (owner : Text)
  | removeFromFile (scope : String) (path : Text)
      (file : Except String (List ProblemMatcherConfig))
  | scan (scope : String) (line : Text)
  | resetScope (scope : String)

def apply [Files] (registry : ProblemMatcherRegistry) : Operation → ProblemMatcherRegistry
  | .registerWorkspace scope workspace => registry.registerWorkspace scope workspace
  | .addFromFile scope path file => (registry.addFromFile scope path file).1
  | .removeOwner scope owner => (registry.removeOwner scope owner).1
  | .removeFromFile scope path file => (registry.removeFromFile scope path file).1
  | .scan scope line => (registry.scan scope line).2
  | .resetScope scope => registry.resetScope scope

/-- The registries of `new` and of `default`. -/
def empty (workspace matcherRoot : Option Text) : ProblemMatcherRegistry where
  fallbackWorkspace := workspace
  matcherRoot := matcherRoot

theorem Registered.empty (workspace matcherRoot : Option Text) :
    (empty workspace matcherRoot).Registered := by
  intro scope
  have none : (ProblemMatcherRegistry.empty workspace matcherRoot).matchersOf scope = [] := by
    simp [matchersOf, ProblemMatcherRegistry.empty]
  rw [none]
  exact ⟨List.nodup_nil, Nat.zero_le _⟩

/-- Only the owners decide whether a registry is well formed. -/
theorem Registered.of_sublist {registry after : ProblemMatcherRegistry}
    (registered : registry.Registered)
    (fewer : ∀ scope, (owners (after.matchersOf scope)).Sublist
      (owners (registry.matchersOf scope))) : after.Registered := by
  intro scope
  obtain ⟨distinct, bounded⟩ := registered scope
  refine ⟨distinct.sublist (fewer scope), Nat.le_trans ?_ bounded⟩
  have shorter := (fewer scope).length_le
  rwa [owners, owners, List.length_map, List.length_map] at shorter

theorem Registered.alter {registry : ProblemMatcherRegistry} (registered : registry.Registered)
    (scope : String) {change : List ProblemMatcher → List ProblemMatcher}
    (fewer : ∀ matchers, (owners (change matchers)).Sublist (owners matchers)) :
    (registry.alter scope change).Registered := by
  have empty : change [] = [] := List.map_eq_nil_iff.mp (List.sublist_nil.mp (fewer []))
  apply registered.of_sublist
  intro other
  rw [matchersOf_alter registry scope other empty]
  split
  · rename_i same
    rw [same]
    exact fewer _
  · exact List.Sublist.refl _

theorem Registered.filter {registry : ProblemMatcherRegistry} (registered : registry.Registered)
    (scope : String) (keep : ProblemMatcher → Bool) :
    (registry.alter scope (·.filter keep)).Registered :=
  registered.alter scope fun _ => List.filter_sublist.map _

theorem Registered.addFromFile {registry : ProblemMatcherRegistry}
    (registered : registry.Registered) (scope : String) (path : Text)
    (file : Except String (List ProblemMatcherConfig)) :
    (registry.addFromFile scope path file).1.Registered := by
  rcases registry.addFromFile_cases scope path file with
    ⟨error, -, result⟩ | ⟨-, result⟩ | ⟨matchers, compiled, -, ⟨-, result⟩ | ⟨fits, result⟩⟩
  · rw [result]
    exact registered
  · rw [result]
    exact registered
  · rw [result]
    apply registered.of_sublist
    intro other
    rw [matchersOf_insert]
    split
    · exact List.nil_sublist _
    · exact List.Sublist.refl _
  · rw [result]
    intro other
    dsimp only
    rw [matchersOf_insert]
    split
    · refine ⟨owners_append_retained (newMatchers_sound compiled).2 (registered scope).1, ?_⟩
      rw [List.length_append]
      exact fits
    · exact registered other

theorem Registered.apply [Files] {registry : ProblemMatcherRegistry} (operation : Operation)
    (registered : registry.Registered) : (registry.apply operation).Registered := by
  cases operation with
  | registerWorkspace scope workspace => exact registered
  | addFromFile scope path file => exact registered.addFromFile scope path file
  | removeOwner scope owner =>
      rw [ProblemMatcherRegistry.apply, removeOwner]
      split
      · exact registered
      · exact registered.filter scope _
  | removeFromFile scope path file =>
      rw [ProblemMatcherRegistry.apply, removeFromFile]
      split
      · exact registered
      · exact registered.filter scope _
  | scan scope line =>
      apply registered.of_sublist
      intro other
      rw [ProblemMatcherRegistry.apply, owners_scan]
  | resetScope scope =>
      apply registered.alter scope
      intro matchers
      rw [owners_reset]

/-- The matchers of the file, if it compiles, fit beside the retained ones. -/
def Fits (registry : ProblemMatcherRegistry) (scope : String) (path : Text)
    (file : Except String (List ProblemMatcherConfig)) : Prop :=
  ∀ matchers, registry.newMatchers scope path file = .ok matchers →
    matchers.length + (retained matchers (registry.matchersOf scope)).length ≤ maxMatchersPerJob

theorem Registered.addsAtomically_iff {registry : ProblemMatcherRegistry}
    (registered : registry.Registered) (scope : String) (path : Text)
    (file : Except String (List ProblemMatcherConfig)) :
    registry.AddsAtomically scope path file ↔ registry.Fits scope path file := by
  obtain ⟨distinct, bounded⟩ := registered scope
  unfold AddsAtomically Fits
  rcases registry.addFromFile_cases scope path file with
    ⟨error, compiled, result⟩ | ⟨compiled, result⟩ |
      ⟨matchers, compiled, some, ⟨exceeds, result⟩ | ⟨fits, result⟩⟩
  · rw [result, compiled]
    exact iff_of_true (fun _ => rfl) (by simp)
  · rw [result, compiled]
    refine iff_of_true ⟨⟨[], rfl, (retained_nil _).symm⟩, distinct, bounded, fun _ _ => rfl⟩ ?_
    intro matchers same
    cases same
    rw [retained_nil, List.length_nil, Nat.zero_add]
    exact bounded
  · rw [result, compiled]
    refine iff_of_false (fun unchanged => ?_) fun fits => ?_
    · have drained : [] = registry.matchersOf scope := by
        rw [← unchanged scope, matchersOf_insert, if_pos rfl]
      have few := (newMatchers_sound compiled).1
      rw [← drained, retained, List.filter_nil, List.length_nil] at exceeds
      exact absurd exceeds (Nat.not_lt.mpr (Nat.le_trans few (by decide)))
    · exact absurd (fits matchers rfl) (Nat.not_le.mpr exceeds)
  · rw [result, compiled]
    refine iff_of_true ?_ fun others same => by
      cases same
      exact fits
    dsimp only
    rw [matchersOf_insert, if_pos rfl]
    refine ⟨⟨matchers, rfl, rfl⟩, ?_, ?_, fun other differ => ?_⟩
    · exact owners_append_retained (newMatchers_sound compiled).2 distinct
    · rw [List.length_append]
      exact fits
    · rw [matchersOf_insert, if_neg differ]

theorem not_addsAtomically_of_emptied {registry : ProblemMatcherRegistry} {scope : String}
    {path : Text} {file : Except String (List ProblemMatcherConfig)}
    (active : 0 < (registry.matchersOf scope).length)
    (emptied : ((registry.addFromFile scope path file).1.matchersOf scope).length = 0) :
    ¬ registry.AddsAtomically scope path file := by
  intro atomic
  unfold AddsAtomically at atomic
  split at atomic
  · rename_i after error result
    rw [result, atomic scope] at emptied
    exact absurd emptied active.ne'
  · rename_i after result
    obtain ⟨⟨matchers, -, added⟩, -⟩ := atomic
    rw [result, added, List.length_append, Nat.add_eq_zero_iff, List.length_eq_zero_iff] at emptied
    obtain ⟨rfl, empty⟩ := emptied
    rw [retained_nil] at empty
    exact absurd empty active.ne'

/-- The registration of a file changes nothing when it fails, and keeps the owners different
and the matchers few when it succeeds, unless it compiles and does not fit. -/
theorem adds_atomically_iff [Files] (workspace matcherRoot : Option Text)
    (operations : List Operation) (scope : String) (path : Text)
    (file : Except String (List ProblemMatcherConfig)) :
    (Machine.run apply (empty workspace matcherRoot) operations).AddsAtomically scope path file ↔
      (Machine.run apply (empty workspace matcherRoot) operations).Fits scope path file := by
  apply Registered.addsAtomically_iff
  exact Machine.run_invariant (fun _ operation => Registered.apply operation)
    (Registered.empty workspace matcherRoot) operations

end ProblemMatcherRegistry

end Registration

namespace Sample

open ProblemMatcherRegistry

/-- Expressions that are words. -/
scoped instance words : Regexes where
  Regex := Text
  build pattern := if pattern.all Char.isAlphanum then some pattern else none
  capturesLen _ := 1
  captures word line :=
    if word <:+: line then some fun index => if index = 0 then some word else none else none

scoped instance noFiles : Files where
  locate _ _ := none

def matcherConfig (index : Nat) : ProblemMatcherConfig where
  owner := [Char.ofNat (0x4e00 + index)]
  pattern := [{ regexp := "error".toList, message := some 0 }]

/-- The configuration of 32 matchers, from the owner with that index on. -/
def matcherFile (first : Nat) : Except String (List ProblemMatcherConfig) :=
  .ok ((List.range 32).map fun index => matcherConfig (first + index))

def fullRegistry : ProblemMatcherRegistry :=
  Machine.run ProblemMatcherRegistry.apply (.empty (some "/w".toList) (some "/m".toList))
    [.addFromFile "job" "0.json".toList (matcherFile 0),
      .addFromFile "job" "1.json".toList (matcherFile 32),
      .addFromFile "job" "2.json".toList (matcherFile 64),
      .addFromFile "job" "3.json".toList (matcherFile 96)]

def ownerAt (index : Nat) : Text := [Char.ofNat (0x4e00 + index)]

theorem ownerAt_inj {one two : Nat} (small : one < 160) (other : two < 160)
    (same : ownerAt one = ownerAt two) : one = two := by
  have code {index : Nat} (small : index < 160) :
      (Char.ofNat (0x4e00 + index)).toNat = 0x4e00 + index := by
    have valid : Nat.isValidChar (0x4e00 + index) := .inl (by omega)
    rw [Char.ofNat, dif_pos valid]
    rfl
  have codes := congrArg Char.toNat (List.cons.inj same).1
  rw [code small, code other] at codes
  exact Nat.add_left_cancel codes

theorem compile_matcherConfig {index : Nat} (small : index < 160) : ∃ matcher,
    ProblemMatcher.compile (matcherConfig index) = .ok matcher ∧
      toAsciiLowercase matcher.owner = ownerAt index := by
  have all : ∀ index < 160,
      ((ProblemMatcher.compile (matcherConfig index)).map (toAsciiLowercase ·.owner)) =
        .ok (ownerAt index) := by decide +kernel
  have compiles := all index small
  cases compiled : ProblemMatcher.compile (matcherConfig index) with
  | error error =>
      rw [compiled] at compiles
      cases compiles
  | ok matcher =>
      rw [compiled] at compiles
      exact ⟨matcher, rfl, Except.ok.inj compiles⟩

/-- The job's matchers are those of the files up to that index. -/
structure Filled (registry : ProblemMatcherRegistry) (count : Nat) : Prop where
  workspace : registry.fallbackWorkspace.isSome = true
  root : registry.matcherRoot.isSome = true
  length : (registry.matchersOf "job").length = count
  below : ∀ owner ∈ owners (registry.matchersOf "job"), ∃ index < count, owner = ownerAt index

/-- The next file compiles, and no matcher of the job has an owner of the file. -/
theorem Filled.compiles {registry : ProblemMatcherRegistry} {count : Nat} {path : Text}
    (filled : Filled registry count) (small : count ≤ 128)
    (plain : (path = [] || Commands.byteLength path > 4096 || hasControl path) = false) :
    ∃ matchers, registry.newMatchers "job" path (matcherFile count) = .ok matchers ∧
      matchers ≠ [] ∧ owners matchers = (List.range 32).map (fun index => ownerAt (count + index)) ∧
      retained matchers (registry.matchersOf "job") = registry.matchersOf "job" := by
  let configs := (List.range 32).map fun index => matcherConfig (count + index)
  have single : ∀ config ∈ configs, ∃ matcher, ProblemMatcher.compile config = .ok matcher ∧
      toAsciiLowercase matcher.owner = config.owner := by
    intro config member
    obtain ⟨index, below, rfl⟩ := List.mem_map.mp member
    have := List.mem_range.mp below
    exact compile_matcherConfig (by omega)
  have names : configs.map (·.owner) = (List.range 32).map fun index => ownerAt (count + index) :=
    List.map_map
  have distinct : (configs.map (·.owner)).Nodup := by
    rw [names]
    refine List.Nodup.map_on ?_ List.nodup_range
    intro one oneBelow two twoBelow same
    have := List.mem_range.mp oneBelow
    have := List.mem_range.mp twoBelow
    exact Nat.add_left_cancel (ownerAt_inj (by omega) (by omega) same)
  obtain ⟨matchers, compiled, owned⟩ :=
    compileAll_eq_ok single distinct fun _ _ => List.not_mem_nil
  rw [names] at owned
  refine ⟨matchers, ?_, ?_, owned, retained_eq_self ?_⟩
  · have root : registry.matcherRoot.isNone = false := by simpa using filled.root
    have workspace : (registry.workspace "job").isNone = false := by
      have given := filled.workspace
      rw [ProblemMatcherRegistry.workspace]
      cases registry.workspaces["job"]? <;> simp_all
    rw [ProblemMatcherRegistry.newMatchers, readConfig, plain, workspace, root]
    exact compiled
  · rintro rfl
    simp [owners] at owned
  · intro owner active new
    obtain ⟨index, below, rfl⟩ := filled.below owner active
    rw [owned] at new
    obtain ⟨other, inside, same⟩ := List.mem_map.mp new
    have := List.mem_range.mp inside
    have := ownerAt_inj (by omega) (by omega) same
    omega

/-- A file that fits is registered. -/
theorem Filled.add {registry : ProblemMatcherRegistry} {count : Nat} {path : Text}
    (filled : Filled registry count) (small : count + 32 ≤ 128)
    (plain : (path = [] || Commands.byteLength path > 4096 || hasControl path) = false) :
    Filled (registry.apply (.addFromFile "job" path (matcherFile count))) (count + 32) := by
  obtain ⟨matchers, compiled, some, owned, kept⟩ := filled.compiles (by omega) plain
  have length : matchers.length = 32 := by simpa [owners] using congrArg List.length owned
  rcases addFromFile_cases registry "job" path (matcherFile count) with
    ⟨error, failed, -⟩ | ⟨none, -⟩ | ⟨found, read, -, ⟨exceeds, -⟩ | ⟨-, added⟩⟩
  · rw [compiled] at failed
    cases failed
  · rw [compiled] at none
    exact absurd (Except.ok.inj none) some
  · rw [compiled] at read
    cases read
    rw [kept, length, filled.length, maxMatchersPerJob] at exceeds
    omega
  · rw [compiled] at read
    cases read
    rw [ProblemMatcherRegistry.apply, added]
    refine ⟨filled.workspace, filled.root, ?_, ?_⟩
    · rw [matchersOf_insert, if_pos rfl, kept, List.length_append, length, filled.length,
        Nat.add_comm]
    · intro owner member
      rw [matchersOf_insert, if_pos rfl, kept, owners, List.map_append, List.mem_append] at member
      rcases member with new | old
      · rw [← owners, owned] at new
        obtain ⟨index, below, rfl⟩ := List.mem_map.mp new
        have := List.mem_range.mp below
        exact ⟨count + index, by omega, rfl⟩
      · obtain ⟨index, below, rfl⟩ := filled.below owner old
        exact ⟨index, by omega, rfl⟩

/-- A file too many empties the scope. -/
theorem Filled.emptied {registry : ProblemMatcherRegistry} {path : Text}
    (filled : Filled registry 128)
    (plain : (path = [] || Commands.byteLength path > 4096 || hasControl path) = false) :
    ¬ registry.AddsAtomically "job" path (matcherFile 128) := by
  obtain ⟨matchers, compiled, some, owned, kept⟩ := filled.compiles (Nat.le_refl _) plain
  have length : matchers.length = 32 := by simpa [owners] using congrArg List.length owned
  refine not_addsAtomically_of_emptied (by rw [filled.length]; decide) ?_
  rcases addFromFile_cases registry "job" path (matcherFile 128) with
    ⟨error, failed, -⟩ | ⟨none, -⟩ | ⟨found, read, -, ⟨-, emptied⟩ | ⟨fits, -⟩⟩
  · rw [compiled] at failed
    cases failed
  · rw [compiled] at none
    exact absurd (Except.ok.inj none) some
  · rw [emptied, matchersOf_insert, if_pos rfl, List.length_nil]
  · rw [compiled] at read
    cases read
    rw [kept, length, filled.length, maxMatchersPerJob] at fits
    omega


theorem filled_fullRegistry : Filled fullRegistry 128 := by
  have start : Filled (.empty (some "/w".toList) (some "/m".toList)) 0 :=
    ⟨rfl, rfl, rfl, fun _ member => by cases member⟩
  unfold fullRegistry
  rw [Machine.run_cons, Machine.run_cons, Machine.run_cons, Machine.run_cons, Machine.run_nil]
  refine (((start.add ?_ ?_).add ?_ ?_).add ?_ ?_).add ?_ ?_
  all_goals decide

/-- A file too many leaves a scope without matchers. -/
theorem full_scope_is_emptied :
    ¬ fullRegistry.AddsAtomically "job" "4.json".toList (matcherFile 128) :=
  filled_fullRegistry.emptied (by decide)

end Sample

end GitZero.Agent.ProblemMatchers
