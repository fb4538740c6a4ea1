/-
Module: GitZero.Workflow.Dependencies
Purpose: What `validate_dependencies` establishes about the first job of each base id.
Trusted boundary: none
Main exports: Needs, getElem?_dependencyGraph, ValidGraph, validateDependencies_ok
-/
import GitZero.Lib.OrderedMaps
import GitZero.Lib.Outcomes
import GitZero.Workflow.Compile

namespace GitZero.Workflows

open Outcomes

variable [Serde]

/-- `Needs jobs dependency job`: both are jobs of the plan, and the job lists the base id
of the dependency. -/
def Needs (jobs : List PlannedJob) (dependency job : PlannedJob) : Prop :=
  dependency ∈ jobs ∧ job ∈ jobs ∧ dependency.baseId ∈ job.needs

theorem Needs.mono {jobs more : List PlannedJob} (subset : jobs ⊆ more)
    {dependency job : PlannedJob} (needs : Needs jobs dependency job) :
    Needs more dependency job :=
  ⟨subset needs.1, subset needs.2.1, needs.2.2⟩

/-- The first job of a base gives its needs. -/
theorem getElem?_dependencyGraph (jobs : List PlannedJob) (baseId : String) :
    (dependencyGraph jobs)[baseId]? =
      (jobs.find? fun job => job.baseId = baseId).map (·.needs) := by
  rw [dependencyGraph, OrderedMaps.getElem?_foldl_insertIfNew]
  simp

theorem mem_dependencyGraph {jobs : List PlannedJob} {baseId : String} :
    baseId ∈ dependencyGraph jobs ↔ ∃ job ∈ jobs, job.baseId = baseId := by
  rw [← Std.ExtTreeMap.isSome_getElem?_iff_mem, getElem?_dependencyGraph]
  simp

/-- The graph of the first needs of each base id: closed, without self loops and
well founded. -/
structure ValidGraph (graph : BTreeMap (List String)) : Prop where
  known : ∀ (baseId : String) needs, graph[baseId]? = some needs → ∀ need ∈ needs, need ∈ graph
  proper : ∀ (baseId : String) needs, graph[baseId]? = some needs → baseId ∉ needs
  acc : ∀ baseId ∈ graph, Acc (DepthFirst.DependsOn fun job : String => graph[job]?) baseId

omit [Serde] in
theorem checkDependency_ok {workflow : String} {graph : BTreeMap (List String)}
    {job dependency : String}
    (passed : checkDependency workflow graph job dependency = .ok ()) :
    dependency ∈ graph ∧ dependency ≠ job := by
  unfold checkDependency at passed
  split at passed
  · cases passed
  · next known =>
      split at passed
      · cases passed
      · next proper => exact ⟨by simpa using known, proper⟩

omit [Serde] in
theorem checkDependencies_ok {workflow : String} {graph : BTreeMap (List String)}
    (passed : (graph.toList.forM fun (job, needs) =>
      needs.forM (checkDependency workflow graph job)) = .ok ())
    {baseId : String} {needs : List String} (listed : graph[baseId]? = some needs) {need : String}
    (member : need ∈ needs) : need ∈ graph ∧ need ≠ baseId := by
  have entry : (baseId, needs) ∈ graph.toList :=
    Std.ExtTreeMap.mem_toList_iff_getElem?_eq_some.mpr listed
  exact checkDependency_ok (forM_eq_ok.mp (forM_eq_ok.mp passed _ entry) need member)

/-- A graph that passes has no cycle and no missing job. -/
theorem validateDependencies_ok {workflow : String} {jobs : List PlannedJob}
    (valid : validateDependencies workflow jobs = .ok ()) : ValidGraph (dependencyGraph jobs) := by
  unfold validateDependencies at valid
  dsimp only at valid
  obtain ⟨_, checked, searched⟩ := bind_eq_ok.mp valid
  refine ⟨?_, ?_, ?_⟩
  · intro baseId needs listed need member
    exact (checkDependencies_ok checked listed member).1
  · intro baseId needs listed member
    exact (checkDependencies_ok checked listed member).2 rfl
  · intro baseId member
    split at searched
    · next marks ran =>
        exact DepthFirst.visitAll_acc ran baseId (Std.ExtTreeMap.mem_keys.mpr member)
    · next obstacle _ => cases obstacle <;> cases searched

end GitZero.Workflows
