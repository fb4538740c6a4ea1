/-
Module: GitZero.Agent.Conclusions
Purpose: Conclusions of jobs and steps, and how the agent folds several into one.
Trusted boundary: none
Main exports: JobConclusion, aggregateConclusions, backgroundWaitConclusion, statusAfter
-/
import GitZero.Expression.Evaluation

namespace GitZero.Agent

open Expression (ExecutionStatus)

/-- How a step or a job ends. -/
inductive JobConclusion where
  | success | failure | timedOut | cancelled | skipped
deriving Repr, DecidableEq

namespace JobConclusion

/-- The conclusions that make a job fail. -/
def failed : JobConclusion → Bool
  | .failure => true
  | .timedOut => true
  | _ => false

end JobConclusion

/-- The worst of some conclusions; skipped only if all are. -/
def aggregateConclusions (conclusions : List JobConclusion) : JobConclusion :=
  if conclusions.contains .failure then .failure
  else if conclusions.contains .timedOut then .timedOut
  else if conclusions.contains .cancelled then .cancelled
  else if conclusions.all (· = .skipped) then .skipped
  else .success

/-- The conclusion of a step that waits for others. -/
def backgroundWaitConclusion (conclusions : List JobConclusion) : JobConclusion :=
  let conclusion := aggregateConclusions conclusions
  if conclusion = .skipped then .success else conclusion

/-- The status of a job once one more of its steps has concluded. -/
def statusAfter (conclusion : JobConclusion) (status : ExecutionStatus) : ExecutionStatus :=
  match conclusion with
  | .failure => .failure
  | .timedOut => .failure
  | .cancelled => .cancelled
  | .success => status
  | .skipped => status

/-! ### What a fold of conclusions says -/

theorem backgroundWaitConclusion_failed {conclusions : List JobConclusion} :
    (backgroundWaitConclusion conclusions).failed = true ↔
      ∃ conclusion ∈ conclusions, conclusion.failed = true := by
  by_cases failure : JobConclusion.failure ∈ conclusions
  · refine iff_of_true ?_ ⟨.failure, failure, rfl⟩
    simp [backgroundWaitConclusion, aggregateConclusions, failure, JobConclusion.failed]
  · by_cases timedOut : JobConclusion.timedOut ∈ conclusions
    · refine iff_of_true ?_ ⟨.timedOut, timedOut, rfl⟩
      simp [backgroundWaitConclusion, aggregateConclusions, failure, timedOut,
        JobConclusion.failed]
    · refine iff_of_false ?_ ?_
      · simp only [backgroundWaitConclusion, aggregateConclusions, List.contains_iff_mem, failure,
          timedOut]
        split_ifs <;> simp_all [JobConclusion.failed]
      · intro ⟨conclusion, member, isFailed⟩
        cases conclusion with
        | failure => exact failure member
        | timedOut => exact timedOut member
        | _ => cases isFailed

theorem mem_of_backgroundWaitConclusion_cancelled {conclusions : List JobConclusion}
    (cancelled : backgroundWaitConclusion conclusions = .cancelled) :
    JobConclusion.cancelled ∈ conclusions := by
  by_contra absent
  revert cancelled
  simp only [backgroundWaitConclusion, aggregateConclusions, List.contains_iff_mem, absent]
  split_ifs <;> simp

end GitZero.Agent
