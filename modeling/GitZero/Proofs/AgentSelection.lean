/-
Module: GitZero.Proofs.AgentSelection
Purpose: The agent that a job is dispatched to is the least loaded one that can run it.
Trusted boundary: `localeCompare` is a total order
Main exports: rank, Precedes, lessLoaded_iff, leastLoadedCompatibleAgent_least
-/
import GitZero.ControlPlane.Dispatch
import GitZero.Lib.RunningBest
import Mathlib.Algebra.Order.Field.Rat
import Mathlib.Tactic.Positivity

namespace GitZero.ControlPlane

section Text

variable [JsText]

/-- The load as an exact fraction, then the number of jobs, the age of the connection and
the id. -/
def rank (candidate : AgentCandidate) : ℚ × Nat × Millis × AgentId :=
  (candidate.assigned / candidate.capacity, candidate.assigned, candidate.connectedAt,
    candidate.agentId)

/-- The lexicographic order of the ranks. -/
def Precedes (left right : AgentCandidate) : Prop :=
  Prod.Lex (· < ·) (Prod.Lex (· < ·) (Prod.Lex (· < ·) fun first second =>
    localeBefore first second = true)) (rank left) (rank right)

omit [JsText] in
theorem load_lt_iff {left right : AgentCandidate} (capableLeft : 1 ≤ left.capacity)
    (capableRight : 1 ≤ right.capacity) :
    left.assigned * right.capacity < right.assigned * left.capacity ↔
      (left.assigned / left.capacity : ℚ) < right.assigned / right.capacity := by
  have positiveLeft : (0 : ℚ) < left.capacity := by exact_mod_cast capableLeft
  have positiveRight : (0 : ℚ) < right.capacity := by exact_mod_cast capableRight
  rw [div_lt_div_iff₀ positiveLeft positiveRight]
  norm_cast

omit [JsText] in
theorem load_eq_iff {left right : AgentCandidate} (capableLeft : 1 ≤ left.capacity)
    (capableRight : 1 ≤ right.capacity) :
    left.assigned * right.capacity = right.assigned * left.capacity ↔
      (left.assigned / left.capacity : ℚ) = right.assigned / right.capacity := by
  have nonzeroLeft : (left.capacity : ℚ) ≠ 0 := by
    have positive : (0 : ℚ) < left.capacity := by exact_mod_cast capableLeft
    exact positive.ne'
  have nonzeroRight : (right.capacity : ℚ) ≠ 0 := by
    have positive : (0 : ℚ) < right.capacity := by exact_mod_cast capableRight
    exact positive.ne'
  rw [div_eq_div_iff nonzeroLeft nonzeroRight]
  norm_cast

/-- The cascade of comparisons is the lexicographic order. -/
theorem lessLoaded_iff {left right : AgentCandidate} (capableLeft : 1 ≤ left.capacity)
    (capableRight : 1 ≤ right.capacity) :
    lessLoaded left right = true ↔ Precedes left right := by
  simp only [lessLoaded, Precedes, rank, Prod.lex_def, Bool.or_eq_true, Bool.and_eq_true,
    decide_eq_true_eq, load_lt_iff capableLeft capableRight, load_eq_iff capableLeft capableRight]
  tauto

/-- Candidates of distinct agents are strictly ordered. -/
theorem ranks_lessLoaded [IsStrictTotalOrder String fun first second =>
      localeBefore first second = true] {candidates : List AgentCandidate}
    (capable : ∀ candidate ∈ candidates, 1 ≤ candidate.capacity)
    (distinct : (candidates.map (·.agentId)).Nodup) :
    RunningBest.Ranks lessLoaded (· ∈ candidates) where
  irrefl member := by
    rw [← Bool.not_eq_true, lessLoaded_iff (capable _ member) (capable _ member)]
    exact irrefl_of (Prod.Lex (· < ·) (Prod.Lex (· < ·) (Prod.Lex (· < ·)
      fun first second => localeBefore first second = true))) _
  trans first second third early late := by
    rw [lessLoaded_iff (capable _ first) (capable _ second)] at early
    rw [lessLoaded_iff (capable _ second) (capable _ third)] at late
    rw [lessLoaded_iff (capable _ first) (capable _ third)]
    exact Prod.Lex.trans early late
  total {left right} first second := by
    rw [lessLoaded_iff (capable _ first) (capable _ second),
      lessLoaded_iff (capable _ second) (capable _ first)]
    rcases trichotomous_of (Prod.Lex (· < ·) (Prod.Lex (· < ·) (Prod.Lex (· < ·)
      fun first second => localeBefore first second = true))) (rank left) (rank right)
      with before | same | after
    · exact .inl before
    · have sameId : left.agentId = right.agentId := congrArg (·.2.2.2) same
      exact .inr (.inl (List.inj_on_of_nodup_map distinct first second sameId))
    · exact .inr (.inr after)

/-- The loop of the source is the one of the library. -/
theorem leastLoadedCompatibleAgent_eq_run (candidates : List AgentCandidate)
    (requirements : List RunnerRequirement) :
    leastLoadedCompatibleAgent candidates requirements =
      RunningBest.run (fun candidate => agentSatisfiesRequirements candidate.hello requirements)
        lessLoaded candidates := by
  have sameTurn : keepBest requirements = RunningBest.turn
      (fun candidate => agentSatisfiesRequirements candidate.hello requirements) lessLoaded := by
    funext best candidate
    cases best with
    | none => rfl
    | some current => rfl
  rw [leastLoadedCompatibleAgent, sameTurn, RunningBest.run]

/-- The chosen agent meets the requirements and precedes every other one that does: by its load,
then by its jobs, its time of connection and its id. None is chosen only where none meets them,
and the order of the candidates does not matter. -/
theorem leastLoadedCompatibleAgent_least [IsStrictTotalOrder String fun first second =>
      localeBefore first second = true] (candidates : List AgentCandidate)
    (requirements : List RunnerRequirement)
    (capable : ∀ candidate ∈ candidates, 1 ≤ candidate.capacity)
    (distinct : (candidates.map (·.agentId)).Nodup) :
    (∀ chosen, leastLoadedCompatibleAgent candidates requirements = some chosen →
      chosen ∈ candidates ∧ agentSatisfiesRequirements chosen.hello requirements = true ∧
        ∀ other ∈ candidates, agentSatisfiesRequirements other.hello requirements = true →
          other = chosen ∨ Precedes chosen other) ∧
    (leastLoadedCompatibleAgent candidates requirements = none ↔
      ∀ candidate ∈ candidates,
        agentSatisfiesRequirements candidate.hello requirements = false) ∧
    ∀ permuted : List AgentCandidate, permuted.Perm candidates →
      leastLoadedCompatibleAgent permuted requirements =
        leastLoadedCompatibleAgent candidates requirements := by
  have ranks := ranks_lessLoaded capable distinct
  have least : RunningBest.Least
      (fun candidate => agentSatisfiesRequirements candidate.hello requirements) lessLoaded
      candidates (leastLoadedCompatibleAgent candidates requirements) := by
    rw [leastLoadedCompatibleAgent_eq_run]
    exact RunningBest.run_least ranks fun _ member => member
  refine ⟨fun chosen found => ?_, ⟨fun none => ?_, fun incompatible => ?_⟩,
    fun permuted same => ?_⟩
  · rw [found] at least
    obtain ⟨member, compatible, first⟩ := least
    refine ⟨member, compatible, fun other present satisfied => ?_⟩
    rcases first other present satisfied with same | before
    · exact .inl same
    · exact .inr ((lessLoaded_iff (capable _ member) (capable _ present)).mp before)
  · rw [none] at least
    exact least
  · cases found : leastLoadedCompatibleAgent candidates requirements with
    | none => rfl
    | some chosen =>
        rw [found] at least
        have compatible : agentSatisfiesRequirements chosen.hello requirements = true := least.2.1
        rw [incompatible chosen least.1] at compatible
        cases compatible
  · rw [leastLoadedCompatibleAgent_eq_run, leastLoadedCompatibleAgent_eq_run]
    exact RunningBest.run_perm ranks (fun _ member => member) same

end Text

namespace Sample

open Ascii

/-- Half loaded and two thirds loaded. -/
def loadedCandidates : List AgentCandidate :=
  [{ socket := 1, hello := hello "busy" 3, agentId := "busy", assigned := 2, capacity := 3,
      connectedAt := 0 },
    { socket := 2, hello := hello "free" 2, agentId := "free", assigned := 1, capacity := 2,
      connectedAt := 5 }]

instance : IsStrictTotalOrder String fun first second => localeBefore first second = true where
  trichotomous := by
    intro first second notBefore notAfter
    have atLeast : ¬ first < second := fun less => notBefore (decide_eq_true less)
    have atMost : ¬ second < first := fun less => notAfter (decide_eq_true less)
    exact String.le_antisymm (String.not_lt.mp atMost) (String.not_lt.mp atLeast)
  irrefl value less := String.lt_irrefl value (of_decide_eq_true less)
  trans first second third early late :=
    decide_eq_true (String.lt_trans (of_decide_eq_true early) (of_decide_eq_true late))

/-- An agent with one of two slots taken comes before one with two of three. -/
theorem half_loaded_agent_is_chosen :
    (leastLoadedCompatibleAgent loadedCandidates []).map (·.agentId) = some "free" ∧
      leastLoadedCompatibleAgent loadedCandidates.reverse [] =
        leastLoadedCompatibleAgent loadedCandidates [] :=
  ⟨by decide, (leastLoadedCompatibleAgent_least loadedCandidates [] (by decide) (by decide)).2.2
    _ loadedCandidates.reverse_perm⟩

end Sample

end GitZero.ControlPlane
