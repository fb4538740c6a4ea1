/-
Module: GitZero.Proofs.ConcurrencyScopes
Purpose: The concurrency scopes of a linked plan: who acquires a scope, who releases
  it, and which jobs run in between.
Trusted boundary: none
Main exports: ScopeServed, ScopesServed, Links.planScopes, linked_plan_scopes
-/
import GitZero.Proofs.PlanIdentity

namespace GitZero.Workflows

section Scopes

variable [Serde]

open Relation (TransGen ReflTransGen)

/-! ### The property -/

def acquireIds (job : PlannedJob) : List String := job.concurrencyAcquire.map (·.id)

/-- A scope id occurs in a job: held, acquired or released there. -/
def Mentions (job : PlannedJob) (scope : String) : Prop :=
  scope ∈ job.concurrencyScopeIds ∨ scope ∈ acquireIds job ∨ scope ∈ job.concurrencyRelease

/-- One gate acquires the scope and one result releases it; every holder runs after the
gate and before the result. -/
structure ScopeServed (jobs : List PlannedJob) (scope : String) (gate result : PlannedJob) :
    Prop where
  gateMember : gate ∈ jobs
  isGate : gate.virtualJob = some .reusableGate
  acquires : scope ∈ acquireIds gate
  acquiredOnce : jobs.countP (fun job => scope ∈ acquireIds job) = 1
  resultMember : result ∈ jobs
  isResult : ∃ called outputs, result.virtualJob = some (.reusableResult called outputs)
  releases : scope ∈ result.concurrencyRelease
  releasedOnce : jobs.countP (fun job => scope ∈ job.concurrencyRelease) = 1
  reversed : result.concurrencyRelease = (acquireIds gate).reverse
  before : ∀ job ∈ jobs, scope ∈ job.concurrencyScopeIds → job ≠ gate →
    TransGen (Needs jobs) gate job
  after : ∀ job ∈ jobs, scope ∈ job.concurrencyScopeIds → job ≠ result →
    TransGen (Needs jobs) job result

/-- Whoever acquires or releases the inner of two nested scopes holds the outer one. -/
structure Encloses (jobs : List PlannedJob) (outer inner : String) : Prop where
  acquired : ∀ job ∈ jobs, inner ∈ acquireIds job → outer ∈ job.concurrencyScopeIds ∧
    (outer ∈ acquireIds job → [outer, inner].Sublist (acquireIds job))
  released : ∀ job ∈ jobs, inner ∈ job.concurrencyRelease → outer ∈ job.concurrencyScopeIds

/-- Every scope that a job mentions has a gate and a result, and nested scopes end in their
order. -/
structure ScopesServed (jobs : List PlannedJob) : Prop where
  served : ∀ job ∈ jobs, ∀ scope, Mentions job scope →
    ∃ gate result, ScopeServed jobs scope gate result
  nested : ∀ job ∈ jobs, ∀ outer inner, [outer, inner].Sublist job.concurrencyScopeIds →
    Encloses jobs outer inner

/-! ### Counting -/

omit [Serde] in
/-- Two members that satisfy a predicate of count one are equal. -/
theorem eq_of_countP_one {α : Type} {list : List α} {holds : α → Prop} [DecidablePred holds]
    (once : list.countP (fun item => holds item) = 1) {one two : α} (first : one ∈ list)
    (second : two ∈ list) (oneHolds : holds one) (twoHolds : holds two) : one = two := by
  rw [List.countP_eq_length_filter] at once
  obtain ⟨only, same⟩ := List.length_eq_one_iff.mp once
  have isOnly : ∀ item ∈ list, holds item → item = only := by
    intro item member satisfies
    have inside : item ∈ list.filter fun item => holds item := by
      simp [member, satisfies]
    rw [same] at inside
    exact List.mem_singleton.mp inside
  rw [isOnly one first oneHolds, isOnly two second twoHolds]

/-! ### Groups with their own scopes -/

theorem transNeeds_mono {jobs more : List PlannedJob} (subset : jobs ⊆ more)
    {dependency job : PlannedJob} (needs : TransGen (Needs jobs) dependency job) :
    TransGen (Needs more) dependency job :=
  TransGen.mono (fun _ _ direct => direct.mono subset) _ _ needs

theorem reflTransNeeds_mono {jobs more : List PlannedJob} (subset : jobs ⊆ more)
    {dependency job : PlannedJob} (needs : ReflTransGen (Needs jobs) dependency job) :
    ReflTransGen (Needs more) dependency job :=
  ReflTransGen.mono (fun _ _ direct => direct.mono subset) _ _ needs

theorem ScopeServed.mentions_gate {jobs : List PlannedJob} {scope : String}
    {gate result : PlannedJob} (served : ScopeServed jobs scope gate result) :
    Mentions gate scope := .inr (.inl served.acquires)

theorem ScopeServed.append {front jobs back : List PlannedJob} {scope : String}
    {gate result : PlannedJob} (served : ScopeServed jobs scope gate result)
    (elsewhere : ∀ job ∈ front ++ back, ¬ Mentions job scope) :
    ScopeServed (front ++ jobs ++ back) scope gate result := by
  have subset : jobs ⊆ front ++ jobs ++ back := by
    intro job member
    simp [member]
  have none : ∀ (holds : PlannedJob → Prop) [DecidablePred holds],
      (∀ job, holds job → Mentions job scope) → ∀ list ⊆ front ++ back,
        list.countP (fun job => holds job) = 0 := by
    intro holds _ mentions list inside
    rw [List.countP_eq_zero]
    intro job member satisfies
    exact elsewhere job (inside member) (mentions job (by simpa using satisfies))
  have frontInside : front ⊆ front ++ back := List.subset_append_left _ _
  have backInside : back ⊆ front ++ back := List.subset_append_right _ _
  have holder : ∀ job ∈ front ++ jobs ++ back, scope ∈ job.concurrencyScopeIds → job ∈ jobs := by
    intro job member holds
    by_contra outside
    refine elsewhere job ?_ (.inl holds)
    simp only [List.mem_append] at member ⊢
    tauto
  refine { served with
    gateMember := subset served.gateMember
    resultMember := subset served.resultMember
    acquiredOnce := ?_, releasedOnce := ?_, before := ?_, after := ?_ }
  · have acquired : ∀ job : PlannedJob, scope ∈ acquireIds job → Mentions job scope :=
      fun job holds => .inr (.inl holds)
    rw [List.countP_append, List.countP_append, none _ acquired front frontInside,
      none _ acquired back backInside, served.acquiredOnce]
  · have released : ∀ job : PlannedJob, scope ∈ job.concurrencyRelease → Mentions job scope :=
      fun job holds => .inr (.inr holds)
    rw [List.countP_append, List.countP_append, none _ released front frontInside,
      none _ released back backInside, served.releasedOnce]
  · intro job member holds differ
    exact transNeeds_mono subset (served.before job (holder job member holds) holds differ)
  · intro job member holds differ
    exact transNeeds_mono subset (served.after job (holder job member holds) holds differ)

/-- Groups of jobs whose scope ids differ in a tag. -/
theorem scopesServed_groups {κ : Type} (groups : List (κ × List PlannedJob))
    (distinct : (groups.map Prod.fst).Nodup) (tag : String → κ)
    (each : ∀ group ∈ groups, ScopesServed group.2)
    (tagged : ∀ group ∈ groups, ∀ job ∈ group.2, ∀ scope, Mentions job scope →
      tag scope = group.1) : ScopesServed (groups.flatMap Prod.snd) := by
  have own : ∀ one ∈ groups, ∀ two ∈ groups, ∀ job ∈ one.2, ∀ other ∈ two.2, ∀ scope,
      Mentions job scope → Mentions other scope → one = two := by
    intro one first two second job inOne other inTwo scope mentions alsoMentions
    apply List.inj_on_of_nodup_map distinct first second
    rw [← tagged one first job inOne scope mentions,
      ← tagged two second other inTwo scope alsoMentions]
  constructor
  · intro job member scope mentions
    obtain ⟨group, listed, inside⟩ := List.mem_flatMap.mp member
    obtain ⟨gate, result, served⟩ := (each group listed).served job inside scope mentions
    obtain ⟨front, back, split⟩ := List.append_of_mem listed
    refine ⟨gate, result, ?_⟩
    have flat : groups.flatMap Prod.snd =
        front.flatMap Prod.snd ++ group.2 ++ back.flatMap Prod.snd := by
      rw [split, List.flatMap_append, List.flatMap_cons, List.append_assoc]
    rw [flat]
    apply served.append
    intro other outside alsoMentions
    rw [← List.flatMap_append] at outside
    obtain ⟨holder, around, within⟩ := List.mem_flatMap.mp outside
    have listedToo : holder ∈ groups := by
      rw [split]
      simp only [List.mem_append, List.mem_cons] at around ⊢
      tauto
    have same := own group listed holder listedToo job inside other within scope mentions
      alsoMentions
    rw [split, List.map_append, List.map_cons, List.nodup_middle, List.nodup_cons,
      ← List.map_append, same] at distinct
    exact distinct.1 (List.mem_map_of_mem around)
  · intro job member outer inner nested
    obtain ⟨group, listed, inside⟩ := List.mem_flatMap.mp member
    have encloses := (each group listed).nested job inside outer inner nested
    have mentions : Mentions job inner := .inl (nested.subset (by simp))
    constructor
    · intro other outside acquires
      obtain ⟨holder, listedToo, within⟩ := List.mem_flatMap.mp outside
      have same := own group listed holder listedToo job inside other within inner mentions
        (.inr (.inl acquires))
      subst same
      exact encloses.acquired other within acquires
    · intro other outside releases
      obtain ⟨holder, listedToo, within⟩ := List.mem_flatMap.mp outside
      have same := own group listed holder listedToo job inside other within inner mentions
        (.inr (.inr releases))
      subst same
      exact encloses.released other within releases

/-- Jobs without scopes. -/
theorem scopesServed_of_none {jobs : List PlannedJob}
    (none : ∀ job ∈ jobs, ∀ scope, ¬ Mentions job scope) : ScopesServed jobs := by
  constructor
  · intro job member scope mentions
    exact absurd mentions (none job member scope)
  · intro job member outer inner nested
    exact absurd (Or.inl (nested.subset (by simp))) (none job member outer)

/-! ### One expansion -/

/-- Every job is needed, directly or through others, by a job with a public base id. -/
def PubliclyNeeded (jobs : List PlannedJob) : Prop :=
  ∀ job ∈ jobs, ∃ last ∈ jobs, containsText last.baseId "::" = false ∧
    ReflTransGen (Needs jobs) job last

/-- What the scopes of a called plan have to satisfy before it is expanded. -/
structure Callable (jobs : List PlannedJob) : Prop where
  present : jobs ≠ []
  served : ScopesServed jobs
  named : ∀ job ∈ jobs, ∀ scope, Mentions job scope → ∃ outer inner, scope = under outer inner
  needed : PubliclyNeeded jobs

section Expansion

variable {site : CallSite} {called segment : List PlannedJob}

theorem invocationScopeIds_eq (site : CallSite) :
    site.invocationScopeIds =
      (site.placeholder.concurrency.map fun _ => under site.jobId "caller-concurrency").toList ++
      (site.calledPlan.concurrency.map fun _ =>
        under site.jobId "workflow-concurrency").toList := by
  have callerId : site.jobId ++ "::caller-concurrency" =
      under site.jobId "caller-concurrency" := by
    have separator : ("::caller-concurrency" : String) = "::" ++ "caller-concurrency" := rfl
    rw [separator, under, ← String.append_assoc]
  have workflowId : site.jobId ++ "::workflow-concurrency" =
      under site.jobId "workflow-concurrency" := by
    have separator : ("::workflow-concurrency" : String) = "::" ++ "workflow-concurrency" := rfl
    rw [separator, under, ← String.append_assoc]
  rw [← callerId, ← workflowId, CallSite.invocationScopeIds, CallSite.invocationScopes]
  cases site.placeholder.concurrency <;> cases site.calledPlan.concurrency <;> rfl

/-- The scopes of an invocation have plain names under the name of the call. -/
theorem mem_invocationScopeIds {scope : String} (member : scope ∈ site.invocationScopeIds) :
    ∃ inner, Plain inner ∧ scope = under site.jobId inner := by
  rw [invocationScopeIds_eq, List.mem_append] at member
  rcases member with caller | workflow
  · obtain ⟨_, _, rfl⟩ := Option.map_eq_some_iff.mp (Option.mem_toList.mp caller)
    exact ⟨_, ⟨by decide, by decide⟩, rfl⟩
  · obtain ⟨_, _, rfl⟩ := Option.map_eq_some_iff.mp (Option.mem_toList.mp workflow)
    exact ⟨_, ⟨by decide, by decide⟩, rfl⟩

omit [Serde] in
theorem not_plain_under (outer inner : String) : ¬ Plain (under outer inner) := by
  intro plain
  apply plain.1
  simp [under, String.toList_append]

theorem acquireIds_gate : acquireIds site.gate = site.invocationScopeIds := rfl

theorem IsCalled.acquireIds_eq {early job : PlannedJob} (isCalled : IsCalled site early job) :
    acquireIds job = (acquireIds early).map (under site.jobId) := by
  rw [acquireIds, isCalled.acquire, acquireIds, List.map_map, List.map_map]
  rfl

/-- A called job mentions the scopes of the invocation and its own under the name of the
call. -/
theorem IsCalled.mentions {early job : PlannedJob} (isCalled : IsCalled site early job)
    {scope : String} (mentions : Mentions job scope) :
    scope ∈ site.invocationScopeIds ∨ ∃ inner, Mentions early inner ∧
      scope = under site.jobId inner := by
  rcases mentions with holds | acquires | releases
  · rw [isCalled.scopeIds, List.mem_append] at holds
    rcases holds with outer | own
    · exact .inl outer
    · obtain ⟨inner, member, rfl⟩ := List.mem_map.mp own
      exact .inr ⟨inner, .inl member, rfl⟩
  · rw [isCalled.acquireIds_eq] at acquires
    obtain ⟨inner, member, rfl⟩ := List.mem_map.mp acquires
    exact .inr ⟨inner, .inr (.inl member), rfl⟩
  · rw [isCalled.release] at releases
    obtain ⟨inner, member, rfl⟩ := List.mem_map.mp releases
    exact .inr ⟨inner, .inr (.inr member), rfl⟩

theorem IsExpansion.within_scopes (expansion : IsExpansion site called segment)
    {job : PlannedJob} (member : job ∈ segment) {scope : String} (mentions : Mentions job scope) :
    ∃ inner, scope = under site.jobId inner := by
  have outer : scope ∈ site.invocationScopeIds → ∃ inner, scope = under site.jobId inner := by
    intro member
    obtain ⟨inner, _, same⟩ := mem_invocationScopeIds member
    exact ⟨inner, same⟩
  rcases expansion.mem_cases member with rfl | rfl | ⟨_, early, _, isCalled⟩
  · rcases mentions with holds | acquires | releases
    · exact outer holds
    · exact outer acquires
    · cases releases
  · rcases mentions with holds | acquires | releases
    · exact outer holds
    · cases acquires
    · exact outer (List.mem_reverse.mp releases)
  · rcases isCalled.mentions mentions with invocation | ⟨inner, _, same⟩
    · exact outer invocation
    · exact ⟨inner, same⟩

/-- A job of the called plan and its image in the segment. -/
structure Image (site : CallSite) (segment : List PlannedJob) (early job : PlannedJob) :
    Prop where
  member : early ∈ site.calledPlan.jobs
  placed : job ∈ segment
  computed : site.calledJob early = .ok job

theorem Image.isCalled {early job : PlannedJob} (image : Image site segment early job) :
    IsCalled site early job := calledJob_ok image.computed

theorem Image.unique {early one two : PlannedJob} (first : Image site segment early one)
    (second : Image site segment early two) : one = two :=
  Except.ok.inj (first.computed.symm.trans second.computed)

theorem IsExpansion.exists_image (expansion : IsExpansion site called segment)
    {early : PlannedJob} (member : early ∈ site.calledPlan.jobs) :
    ∃ job, Image site segment early job := by
  obtain ⟨job, inside, computed⟩ := Outcomes.forall₂_mem_right expansion.computed.flip member
  refine ⟨job, member, ?_, computed⟩
  rw [expansion.jobs]
  exact List.mem_append_left _ (List.mem_cons_of_mem _ inside)

theorem IsExpansion.image_cases (expansion : IsExpansion site called segment) {job : PlannedJob}
    (member : job ∈ segment) :
    job = site.gate ∨ job = site.result ∨ ∃ early, Image site segment early job := by
  have placed := member
  rw [expansion.jobs, List.mem_append, List.mem_cons, List.mem_singleton] at member
  rcases member with (isGate | inside) | isResult
  · exact .inl isGate
  · obtain ⟨early, earlyMember, computed⟩ := Outcomes.forall₂_mem_right expansion.computed inside
    exact .inr (.inr ⟨early, earlyMember, placed, computed⟩)
  · exact .inr (.inl isResult)

theorem Image.needs {dependency job dependency' job' : PlannedJob}
    (first : Image site segment dependency dependency') (second : Image site segment job job')
    (needs : Needs site.calledPlan.jobs dependency job) : Needs segment dependency' job' := by
  refine ⟨first.placed, second.placed, ?_⟩
  rw [first.isCalled.baseId, second.isCalled.needs, List.mem_append]
  exact .inl (List.mem_map_of_mem needs.2.2)

theorem IsExpansion.transNeeds (expansion : IsExpansion site called segment)
    {dependency job dependency' job' : PlannedJob}
    (needs : TransGen (Needs site.calledPlan.jobs) dependency job)
    (first : Image site segment dependency dependency') (second : Image site segment job job') :
    TransGen (Needs segment) dependency' job' := by
  induction needs generalizing job' with
  | single direct => exact .single (first.needs second direct)
  | tail _ direct inductionHypothesis =>
      obtain ⟨middle, image⟩ := expansion.exists_image direct.1
      exact .tail (inductionHypothesis image) (image.needs second direct)

theorem IsExpansion.gate_mem (expansion : IsExpansion site called segment) :
    site.gate ∈ segment := by
  rw [expansion.jobs]
  exact List.mem_append_left _ List.mem_cons_self

theorem IsExpansion.result_mem (expansion : IsExpansion site called segment) :
    site.result ∈ segment := by
  rw [expansion.jobs]
  exact List.mem_append_right _ List.mem_cons_self

/-- Every called job needs the gate. -/
theorem IsExpansion.needs_gate (expansion : IsExpansion site called segment)
    {early job : PlannedJob} (image : Image site segment early job) :
    Needs segment site.gate job := by
  refine ⟨expansion.gate_mem, image.placed, ?_⟩
  rw [image.isCalled.needs, List.mem_append]
  exact .inr (List.mem_singleton_self _)

/-- The result needs the called jobs with public base ids. -/
theorem IsExpansion.result_needs (expansion : IsExpansion site called segment)
    {early job : PlannedJob} (image : Image site segment early job)
    (isPublic : containsText early.baseId "::" = false) : Needs segment job site.result := by
  refine ⟨image.placed, expansion.result_mem, ?_⟩
  have listed : (early.baseId, under site.jobId early.baseId) ∈ site.aliases.toList := by
    rw [Std.ExtTreeMap.mem_toList_iff_getElem?_eq_some, getElem?_aliases]
    exact ⟨List.mem_map_of_mem image.member, rfl⟩
  have distinct : ((site.aliases.toList.filter fun entry =>
      !containsText entry.1 "::").map Prod.fst).Nodup := by
    have keys : (site.aliases.toList.map Prod.fst).Nodup := by
      rw [Std.ExtTreeMap.map_fst_toList_eq_keys]
      exact Std.ExtTreeMap.nodup_keys
    exact keys.sublist (List.filter_sublist.map _)
  have aliased : site.publicAliases[early.baseId]? = some (under site.jobId early.baseId) := by
    rw [CallSite.publicAliases, OrderedMaps.getElem?_ofList_of_nodup distinct, List.mem_filter]
    exact ⟨listed, by simp [isPublic]⟩
  rw [image.isCalled.baseId]
  exact List.mem_map.mpr ⟨(early.baseId, under site.jobId early.baseId),
    Std.ExtTreeMap.mem_toList_iff_getElem?_eq_some.mpr aliased, rfl⟩

/-- Every called job runs before the result. -/
theorem IsExpansion.before_result (expansion : IsExpansion site called segment)
    (needed : PubliclyNeeded site.calledPlan.jobs) {early job : PlannedJob}
    (image : Image site segment early job) : TransGen (Needs segment) job site.result := by
  obtain ⟨last, member, isPublic, path⟩ := needed early image.member
  obtain ⟨lastJob, lastImage⟩ := expansion.exists_image member
  have direct := expansion.result_needs lastImage isPublic
  rcases Relation.reflTransGen_iff_eq_or_transGen.mp path with same | longer
  · subst same
    rw [image.unique lastImage]
    exact .single direct
  · exact .tail (expansion.transNeeds longer image lastImage) direct

/-- The gate runs before the result. -/
theorem IsExpansion.gate_before_result (expansion : IsExpansion site called segment)
    (callable : Callable site.calledPlan.jobs) :
    TransGen (Needs segment) site.gate site.result := by
  obtain ⟨early, member⟩ := List.exists_mem_of_ne_nil _ callable.present
  obtain ⟨job, image⟩ := expansion.exists_image member
  exact .head (expansion.needs_gate image) (expansion.before_result callable.needed image)

/-- The scopes of the invocation are new. -/
theorem not_inner_of_invocation (callable : Callable site.calledPlan.jobs) {scope : String}
    (invocation : scope ∈ site.invocationScopeIds) {early : PlannedJob}
    (member : early ∈ site.calledPlan.jobs) {inner : String} (mentions : Mentions early inner) :
    scope ≠ under site.jobId inner := by
  obtain ⟨plainInner, plain, same⟩ := mem_invocationScopeIds invocation
  obtain ⟨outer, deeper, named⟩ := callable.named early member inner mentions
  intro clash
  have equal := under_injective (same.symm.trans clash)
  exact not_plain_under outer deeper (named ▸ equal ▸ plain)

theorem not_acquires_invocation (callable : Callable site.calledPlan.jobs) {scope : String}
    (invocation : scope ∈ site.invocationScopeIds) {early job : PlannedJob}
    (image : Image site segment early job) : scope ∉ acquireIds job := by
  rw [image.isCalled.acquireIds_eq]
  intro member
  obtain ⟨inner, acquires, same⟩ := List.mem_map.mp member
  exact not_inner_of_invocation callable invocation image.member (.inr (.inl acquires)) same.symm

theorem not_releases_invocation (callable : Callable site.calledPlan.jobs) {scope : String}
    (invocation : scope ∈ site.invocationScopeIds) {early job : PlannedJob}
    (image : Image site segment early job) : scope ∉ job.concurrencyRelease := by
  rw [image.isCalled.release]
  intro member
  obtain ⟨inner, releases, same⟩ := List.mem_map.mp member
  exact not_inner_of_invocation callable invocation image.member (.inr (.inr releases)) same.symm

theorem IsExpansion.image_of_called (expansion : IsExpansion site called segment)
    {job : PlannedJob} (member : job ∈ called) : ∃ early, Image site segment early job := by
  obtain ⟨early, earlyMember, computed⟩ := Outcomes.forall₂_mem_right expansion.computed member
  refine ⟨early, earlyMember, ?_, computed⟩
  rw [expansion.jobs]
  exact List.mem_append_left _ (List.mem_cons_of_mem _ member)

theorem IsExpansion.invocation_served (expansion : IsExpansion site called segment)
    (callable : Callable site.calledPlan.jobs) {scope : String}
    (invocation : scope ∈ site.invocationScopeIds) :
    ScopeServed segment scope site.gate site.result where
  gateMember := expansion.gate_mem
  isGate := rfl
  acquires := invocation
  acquiredOnce := by
    have none : called.countP (fun job => scope ∈ acquireIds job) = 0 := by
      rw [List.countP_eq_zero]
      intro job member
      obtain ⟨early, image⟩ := expansion.image_of_called member
      simpa using not_acquires_invocation callable invocation image
    have result : ¬ scope ∈ acquireIds site.result := List.not_mem_nil
    rw [expansion.jobs, List.countP_append, List.countP_cons, none, List.countP_singleton,
      acquireIds_gate]
    simp [invocation, result]
  resultMember := expansion.result_mem
  isResult := ⟨_, _, rfl⟩
  releases := List.mem_reverse.mpr invocation
  releasedOnce := by
    have none : called.countP (fun job => scope ∈ job.concurrencyRelease) = 0 := by
      rw [List.countP_eq_zero]
      intro job member
      obtain ⟨early, image⟩ := expansion.image_of_called member
      simpa using not_releases_invocation callable invocation image
    have gate : ¬ scope ∈ site.gate.concurrencyRelease := List.not_mem_nil
    have result : scope ∈ site.result.concurrencyRelease := List.mem_reverse.mpr invocation
    rw [expansion.jobs, List.countP_append, List.countP_cons, none, List.countP_singleton]
    simp [gate, result]
  reversed := rfl
  before := by
    intro job member _ differ
    rcases expansion.image_cases member with isGate | isResult | ⟨early, image⟩
    · exact absurd isGate differ
    · rw [isResult]
      exact expansion.gate_before_result callable
    · exact .single (expansion.needs_gate image)
  after := by
    intro job member _ differ
    rcases expansion.image_cases member with isGate | isResult | ⟨early, image⟩
    · rw [isGate]
      exact expansion.gate_before_result callable
    · exact absurd isResult differ
    · exact expansion.before_result callable.needed image

omit [Serde] in
theorem countP_forall₂ {α β : Type} {related : α → β → Prop} {list : List α} {others : List β}
    (all : List.Forall₂ related list others) {left : α → Bool} {right : β → Bool}
    (same : ∀ item other, related item other → left item = right other) :
    others.countP right = list.countP left := by
  induction all with
  | nil => rfl
  | cons first _ inductionHypothesis =>
      rw [List.countP_cons, List.countP_cons, inductionHypothesis, same _ _ first]

omit [Serde] in
theorem mem_map_under {jobId scope : String} {scopes : List String} :
    under jobId scope ∈ scopes.map (under jobId) ↔ scope ∈ scopes := by
  rw [List.mem_map_of_injective fun _ _ => under_injective]

theorem IsExpansion.inner_served (expansion : IsExpansion site called segment)
    (callable : Callable site.calledPlan.jobs) {scope : String} {gate result : PlannedJob}
    (served : ScopeServed site.calledPlan.jobs scope gate result) {gate' result' : PlannedJob}
    (gateImage : Image site segment gate gate') (resultImage : Image site segment result result') :
    ScopeServed segment (under site.jobId scope) gate' result' := by
  have fresh : under site.jobId scope ∉ site.invocationScopeIds := fun invocation =>
    not_inner_of_invocation callable invocation gateImage.member served.mentions_gate rfl
  have holder : ∀ job ∈ segment, under site.jobId scope ∈ job.concurrencyScopeIds →
      ∃ early, Image site segment early job ∧ scope ∈ early.concurrencyScopeIds := by
    intro job member holds
    rcases expansion.image_cases member with rfl | rfl | ⟨early, image⟩
    · exact absurd holds fresh
    · exact absurd holds fresh
    · refine ⟨early, image, ?_⟩
      rw [image.isCalled.scopeIds, List.mem_append] at holds
      exact mem_map_under.mp (holds.resolve_left fresh)
  exact {
    gateMember := gateImage.placed
    isGate := by
      have kind := gateImage.isCalled.kind
      rw [served.isGate] at kind
      generalize gate'.virtualJob = virtual at kind
      cases kind
      rfl
    acquires := by
      rw [gateImage.isCalled.acquireIds_eq, mem_map_under]
      exact served.acquires
    acquiredOnce := by
      have same : called.countP (fun job => under site.jobId scope ∈ acquireIds job) = 1 := by
        rw [← served.acquiredOnce]
        apply countP_forall₂ expansion.each
        intro early job isCalled
        rw [isCalled.acquireIds_eq]
        simp [mem_map_under]
      have notResult : ¬ under site.jobId scope ∈ acquireIds site.result := List.not_mem_nil
      rw [expansion.jobs, List.countP_append, List.countP_cons, same, List.countP_singleton,
        acquireIds_gate]
      simp [fresh, notResult]
    resultMember := resultImage.placed
    isResult := by
      obtain ⟨jobs, outputs, isResult⟩ := served.isResult
      have kind := resultImage.isCalled.kind
      rw [isResult] at kind
      generalize result'.virtualJob = virtual at kind
      cases kind with
      | result _ renamed _ => exact ⟨renamed, outputs, rfl⟩
    releases := by
      rw [resultImage.isCalled.release, mem_map_under]
      exact served.releases
    releasedOnce := by
      have same : called.countP (fun job => under site.jobId scope ∈ job.concurrencyRelease) =
          1 := by
        rw [← served.releasedOnce]
        apply countP_forall₂ expansion.each
        intro early job isCalled
        rw [isCalled.release]
        simp [mem_map_under]
      have notGate : ¬ under site.jobId scope ∈ site.gate.concurrencyRelease := List.not_mem_nil
      have notResult : ¬ under site.jobId scope ∈ site.result.concurrencyRelease :=
        fun releases => fresh (List.mem_reverse.mp releases)
      rw [expansion.jobs, List.countP_append, List.countP_cons, same, List.countP_singleton]
      simp [notGate, notResult]
    reversed := by
      rw [resultImage.isCalled.release, gateImage.isCalled.acquireIds_eq, served.reversed,
        List.map_reverse]
    before := by
      intro job member holds differ
      obtain ⟨early, image, earlyHolds⟩ := holder job member holds
      have earlyDiffer : early ≠ gate := by
        rintro rfl
        exact differ (image.unique gateImage)
      exact expansion.transNeeds (served.before early image.member earlyHolds earlyDiffer)
        gateImage image
    after := by
      intro job member holds differ
      obtain ⟨early, image, earlyHolds⟩ := holder job member holds
      have earlyDiffer : early ≠ result := by
        rintro rfl
        exact differ (image.unique resultImage)
      exact expansion.transNeeds (served.after early image.member earlyHolds earlyDiffer)
        image resultImage }

/-- Two scopes in the order in which a called job lists them: both of the invocation,
one of the invocation and one of the called plan, or both of the called plan. -/
theorem sublist_scopeIds {early job : PlannedJob} (isCalled : IsCalled site early job)
    {outer inner : String} (nested : [outer, inner].Sublist job.concurrencyScopeIds) :
    [outer, inner].Sublist site.invocationScopeIds ∨
    (outer ∈ site.invocationScopeIds ∧ ∃ scope ∈ early.concurrencyScopeIds,
      inner = under site.jobId scope) ∨
    ∃ first second, outer = under site.jobId first ∧ inner = under site.jobId second ∧
      [first, second].Sublist early.concurrencyScopeIds := by
  rw [isCalled.scopeIds, List.sublist_append_iff] at nested
  obtain ⟨front, back, split, inFront, inBack⟩ := nested
  match front, split with
  | [], split =>
      rw [List.nil_append] at split
      subst split
      obtain ⟨scopes, sublist, same⟩ := List.sublist_map_iff.mp inBack
      match scopes, same with
      | [first, second], same =>
          cases same
          exact .inr (.inr ⟨first, second, rfl, rfl, sublist⟩)
  | [_], split =>
      cases split
      obtain ⟨scope, member, same⟩ := List.mem_map.mp (inBack.subset List.mem_cons_self)
      exact .inr (.inl ⟨inFront.subset List.mem_cons_self, scope, member, same.symm⟩)
  | [_, _], split =>
      cases split
      exact .inl inFront

/-- Two scopes of the invocation are acquired by the gate in their order. -/
theorem IsExpansion.encloses_invocation (expansion : IsExpansion site called segment)
    (callable : Callable site.calledPlan.jobs) {outer inner : String}
    (nested : [outer, inner].Sublist site.invocationScopeIds) : Encloses segment outer inner := by
  have outerMember : outer ∈ site.invocationScopeIds := nested.subset (by simp)
  have innerMember : inner ∈ site.invocationScopeIds := nested.subset (by simp)
  constructor
  · intro job member acquires
    rcases expansion.image_cases member with rfl | rfl | ⟨early, image⟩
    · exact ⟨outerMember, fun _ => nested⟩
    · cases acquires
    · exact absurd acquires (not_acquires_invocation callable innerMember image)
  · intro job member releases
    rcases expansion.image_cases member with rfl | rfl | ⟨early, image⟩
    · cases releases
    · exact outerMember
    · exact absurd releases (not_releases_invocation callable innerMember image)

/-- A scope of the invocation encloses those of the called plan. -/
theorem IsExpansion.encloses_called (expansion : IsExpansion site called segment)
    (callable : Callable site.calledPlan.jobs) {outer inner : String}
    (outerMember : outer ∈ site.invocationScopeIds)
    (innerFresh : inner ∉ site.invocationScopeIds) : Encloses segment outer inner := by
  constructor
  · intro job member acquires
    rcases expansion.image_cases member with rfl | rfl | ⟨early, image⟩
    · exact absurd acquires innerFresh
    · cases acquires
    · refine ⟨?_, fun outerAcquires => absurd outerAcquires
        (not_acquires_invocation callable outerMember image)⟩
      rw [image.isCalled.scopeIds]
      exact List.mem_append_left _ outerMember
  · intro job member releases
    rcases expansion.image_cases member with rfl | rfl | ⟨early, image⟩
    · cases releases
    · exact absurd (List.mem_reverse.mp releases) innerFresh
    · rw [image.isCalled.scopeIds]
      exact List.mem_append_left _ outerMember

theorem IsExpansion.encloses_inner (expansion : IsExpansion site called segment)
    {first second : String} (encloses : Encloses site.calledPlan.jobs first second)
    (fresh : under site.jobId second ∉ site.invocationScopeIds) :
    Encloses segment (under site.jobId first) (under site.jobId second) := by
  constructor
  · intro job member acquires
    rcases expansion.image_cases member with rfl | rfl | ⟨early, image⟩
    · exact absurd acquires fresh
    · cases acquires
    · have isCalled := image.isCalled
      rw [isCalled.acquireIds_eq, mem_map_under] at acquires
      obtain ⟨holds, ordered⟩ := encloses.acquired early image.member acquires
      rw [isCalled.scopeIds, isCalled.acquireIds_eq, mem_map_under]
      refine ⟨List.mem_append_right _ (List.mem_map_of_mem holds), ?_⟩
      intro outerAcquires
      exact (ordered outerAcquires).map (under site.jobId)
  · intro job member releases
    rcases expansion.image_cases member with rfl | rfl | ⟨early, image⟩
    · cases releases
    · exact absurd (List.mem_reverse.mp releases) fresh
    · have isCalled := image.isCalled
      rw [isCalled.release, mem_map_under] at releases
      rw [isCalled.scopeIds]
      exact List.mem_append_right _
        (List.mem_map_of_mem (encloses.released early image.member releases))

theorem IsExpansion.scopesServed (expansion : IsExpansion site called segment)
    (callable : Callable site.calledPlan.jobs) : ScopesServed segment := by
  constructor
  · intro job member scope mentions
    have invocation : scope ∈ site.invocationScopeIds →
        ∃ gate result, ScopeServed segment scope gate result := fun inside =>
      ⟨site.gate, site.result, expansion.invocation_served callable inside⟩
    rcases expansion.image_cases member with rfl | rfl | ⟨early, image⟩
    · rcases mentions with holds | acquires | releases
      · exact invocation holds
      · exact invocation acquires
      · cases releases
    · rcases mentions with holds | acquires | releases
      · exact invocation holds
      · cases acquires
      · exact invocation (List.mem_reverse.mp releases)
    · rcases image.isCalled.mentions mentions with inside | ⟨inner, earlyMentions, rfl⟩
      · exact invocation inside
      · obtain ⟨gate, result, served⟩ :=
          callable.served.served early image.member inner earlyMentions
        obtain ⟨gate', gateImage⟩ := expansion.exists_image served.gateMember
        obtain ⟨result', resultImage⟩ := expansion.exists_image served.resultMember
        exact ⟨gate', result', expansion.inner_served callable served gateImage resultImage⟩
  · intro job member outer inner nested
    rcases expansion.image_cases member with rfl | rfl | ⟨early, image⟩
    · exact expansion.encloses_invocation callable nested
    · exact expansion.encloses_invocation callable nested
    · have fresh : ∀ scope ∈ early.concurrencyScopeIds,
          under site.jobId scope ∉ site.invocationScopeIds := fun scope holds invocation =>
        not_inner_of_invocation callable invocation image.member (.inl holds) rfl
      rcases sublist_scopeIds image.isCalled nested with
        both | ⟨outerMember, scope, holds, rfl⟩ | ⟨first, second, rfl, rfl, sublist⟩
      · exact expansion.encloses_invocation callable both
      · exact expansion.encloses_called callable outerMember (fresh scope holds)
      · exact expansion.encloses_inner
          (callable.served.nested early image.member first second sublist)
          (fresh second (sublist.subset (by simp)))

/-- Every job of an expansion is its result or runs before it. -/
theorem IsExpansion.reaches_result (expansion : IsExpansion site called segment)
    (callable : Callable site.calledPlan.jobs) {job : PlannedJob} (member : job ∈ segment) :
    ReflTransGen (Needs segment) job site.result := by
  rcases expansion.image_cases member with rfl | rfl | ⟨early, image⟩
  · exact (expansion.gate_before_result callable).to_reflTransGen
  · exact .refl
  · exact (expansion.before_result callable.needed image).to_reflTransGen

end Expansion

/-! ### Whole calls -/

/-- The scopes of the jobs that stand for one job of a workflow. -/
structure SegmentScopes (jobId : String) (segment : List PlannedJob) : Prop where
  served : ScopesServed segment
  named : ∀ job ∈ segment, ∀ scope, Mentions job scope → ∃ inner, scope = under jobId inner
  needed : ∀ job ∈ segment, ∃ last ∈ segment, last.baseId = jobId ∧
    ReflTransGen (Needs segment) job last

theorem invocation_mem_ids {jobId : String} {instances : List PlannedJob} {index : Nat}
    (bound : index < instances.length) :
    under jobId (matrixName index) ∈ invocationIds jobId instances := by
  rw [← invocationId_eq]
  exact List.mem_map_of_mem (List.mem_range.mpr bound)

theorem matrixResult_no_scopes {jobId : String} {template : PlannedJob} {names : List String}
    {scope : String} : ¬ Mentions (reusableMatrixResult jobId template names) scope := by
  rintro (holds | acquires | releases)
  · cases holds
  · cases acquires
  · cases releases

theorem IsMatrix.segmentScopes {jobId : String} {call : PlannedDynamicReusableCall}
    {template : PlannedJob} {instances segment : List PlannedJob}
    (isMatrix : IsMatrix jobId call template instances segment)
    (callable : Callable call.calledPlan.jobs) : SegmentScopes jobId segment := by
  refine ⟨?_, ?_, ?_⟩
  · obtain ⟨keyed, distinct, each, same⟩ := isMatrix.exists_keyed
    rw [same]
    apply scopesServed_groups keyed distinct (tagUnder jobId)
    · intro group member
      cases each group member with
      | expansion _ isExpansion => exact isExpansion.scopesServed callable
      | result =>
          apply scopesServed_of_none
          intro job inside scope
          cases List.mem_singleton.mp inside
          exact matrixResult_no_scopes
    · intro group member job inside scope mentions
      cases each group member with
      | expansion _ isExpansion =>
          obtain ⟨inner, named⟩ := isExpansion.within_scopes inside mentions
          exact tagUnder_within (.inr ⟨inner, named⟩)
      | result =>
          cases List.mem_singleton.mp inside
          exact absurd mentions matrixResult_no_scopes
  · obtain ⟨groups, _, each, same⟩ := isMatrix.exists_groups
    intro job member scope mentions
    rw [same] at member
    rcases List.mem_append.mp member with inside | last
    · obtain ⟨group, listed, inside⟩ := List.mem_flatMap.mp inside
      obtain ⟨placeholder, _, called, expansion⟩ := each group listed
      obtain ⟨inner, named⟩ := expansion.within_scopes inside mentions
      exact ⟨_, named.trans (under_assoc _ _ _)⟩
    · cases List.mem_singleton.mp last
      exact absurd mentions matrixResult_no_scopes
  · obtain ⟨groups, indices, each, same⟩ := isMatrix.exists_groups
    let result := reusableMatrixResult jobId template (invocationIds jobId instances)
    have resultMember : result ∈ segment := by
      rw [same]
      exact List.mem_append_right _ List.mem_cons_self
    intro job member
    refine ⟨result, resultMember, rfl, ?_⟩
    rw [same] at member
    rcases List.mem_append.mp member with inside | last
    · obtain ⟨group, listed, inside⟩ := List.mem_flatMap.mp inside
      obtain ⟨placeholder, _, called, expansion⟩ := each group listed
      have subset : group.2 ⊆ segment := by
        intro other within
        rw [same]
        exact List.mem_append_left _ (List.mem_flatMap.mpr ⟨group, listed, within⟩)
      have bound : group.1 < instances.length := by
        rw [← List.mem_range, ← indices]
        exact List.mem_map_of_mem listed
      have path := expansion.reaches_result callable inside
      refine .tail (reflTransNeeds_mono subset path) ?_
      exact ⟨subset expansion.result_mem, resultMember, invocation_mem_ids bound⟩
    · cases List.mem_singleton.mp last
      exact .refl

theorem IsInstance.no_scopes {context : CompileContext} {jobId : String} {job : Job}
    {plan : MatrixPlan} {matrixIndex : Nat} {matrix : BTreeMap Json} {planned : PlannedJob}
    (is : IsInstance context jobId job plan matrixIndex matrix planned) {scope : String} :
    ¬ Mentions planned scope := by
  rintro (holds | acquires | releases)
  · rw [is.scopeIds] at holds
    cases holds
  · rw [acquireIds, is.acquire] at acquires
    cases acquires
  · rw [is.release] at releases
    cases releases

theorem segmentScopes_of_none {jobId : String} {segment : List PlannedJob}
    (none : ∀ job ∈ segment, ∀ scope, ¬ Mentions job scope)
    (based : ∀ job ∈ segment, job.baseId = jobId) : SegmentScopes jobId segment where
  served := scopesServed_of_none none
  named := fun job member scope mentions => absurd mentions (none job member scope)
  needed := fun job member => ⟨job, member, based job member, .refl⟩

theorem Expands.segmentScopes {jobId : String} {call : PlannedDynamicReusableCall}
    {instances segment : List PlannedJob} (expands : Expands jobId call instances segment)
    (callable : Callable call.calledPlan.jobs)
    (none : ∀ job ∈ instances, ∀ scope, ¬ Mentions job scope)
    (based : ∀ job ∈ instances, job.baseId = jobId) : SegmentScopes jobId segment := by
  cases expands with
  | @template template dynamic =>
      apply segmentScopes_of_none
      · intro job member scope
        cases List.mem_singleton.mp member
        exact none template List.mem_cons_self scope
      · intro job member
        cases List.mem_singleton.mp member
        exact based template List.mem_cons_self
  | single static expansion =>
      refine ⟨expansion.scopesServed callable, ?_, ?_⟩
      · intro job member scope mentions
        exact expansion.within_scopes member mentions
      · intro job member
        exact ⟨_, expansion.result_mem, rfl, expansion.reaches_result callable member⟩
  | matrix static isMatrix => exact isMatrix.segmentScopes callable

/-! ### Whole plans -/

section Plans

variable [Templates]

/-- What holds of the scopes of every linked plan. -/
structure PlanScopes (jobs : List PlannedJob) : Prop where
  served : ScopesServed jobs
  named : ∀ job ∈ jobs, ∀ scope, Mentions job scope → ∃ outer inner, scope = under outer inner
  needed : PubliclyNeeded jobs

/-- By induction over the calls: every linked plan serves its scopes. -/
theorem Links.planScopes {reusableWorkflows : BTreeMap Workflow}
    (validReusables : ∀ (path : String) called,
      reusableWorkflows[path]? = some called → ValidWorkflow called)
    {workflow : Workflow} {path : String} {plan : ExecutionPlan}
    (links : Links reusableWorkflows workflow path plan) (valid : ValidWorkflow workflow) :
    PlanScopes plan.jobs := by
  induction links with
  | @intro workflow plan path context parts isContext entries jobs base valid' compiled own called
      linked inductionHypothesis =>
      have plain : ∀ part ∈ parts, Plain part.id := by
        intro part member
        exact (valid part.entry (entries ▸ List.mem_map_of_mem member)).plain
      have scopes : ∀ part ∈ parts, SegmentScopes part.id part.segment := by
        intro part member
        obtain ⟨matrix, are⟩ := compileJob_ok (compiled part member)
        have none : ∀ job ∈ part.instances, ∀ scope, ¬ Mentions job scope := by
          intro job inside scope
          obtain ⟨_, _, is⟩ := are.instance_of_mem inside
          exact is.no_scopes
        have based : ∀ job ∈ part.instances, job.baseId = part.id := by
          intro job inside
          obtain ⟨_, _, is⟩ := are.instance_of_mem inside
          exact is.baseId
        cases call : part.call with
        | none =>
            rw [(own part member call).2]
            exact segmentScopes_of_none none based
        | some found =>
            have isCall := called part member found call
            obtain ⟨_, _, _, present⟩ := isCall.resolves
            have facts := inductionHypothesis part member found call (validReusables _ _ present)
            exact (expandCall_expands isCall.expanded).segmentScopes
              ⟨isCall.calledJobs, facts.served, facts.named, facts.needed⟩ none based
      rw [jobs]
      refine ⟨?_, ?_, ?_⟩
      · have groups := scopesServed_groups
          (parts.map fun part => (part.id.toList, part.segment)) ?_ head ?_ ?_
        · rwa [List.flatMap_map] at groups
        · rw [List.map_map]
          have distinct := workflow.distinct
          rw [entries, List.map_map] at distinct
          have renamed := distinct.map fun _ _ => String.toList_inj.mp
          rwa [List.map_map] at renamed
        · intro group member
          obtain ⟨part, inside, rfl⟩ := List.mem_map.mp member
          exact (scopes part inside).served
        · intro group member job inside scope mentions
          obtain ⟨part, listed, rfl⟩ := List.mem_map.mp member
          obtain ⟨inner, rfl⟩ := (scopes part listed).named job inside scope mentions
          exact head_under (plain part listed) inner
      · intro job member scope mentions
        obtain ⟨part, inside, member⟩ := List.mem_flatMap.mp member
        exact ⟨part.id, (scopes part inside).named job member scope mentions⟩
      · intro job member
        obtain ⟨part, inside, member⟩ := List.mem_flatMap.mp member
        obtain ⟨last, lastMember, baseId, path⟩ := (scopes part inside).needed job member
        have subset : part.segment ⊆ parts.flatMap Part.segment := fun other within =>
          List.mem_flatMap.mpr ⟨part, inside, within⟩
        refine ⟨last, subset lastMember, ?_, ?_⟩
        · rw [baseId]
          exact containsText_plain (plain part inside)
        · exact reflTransNeeds_mono subset path

omit [Templates] in
/-- Of two scopes that one job holds, the outer one is acquired first and released
last. -/
theorem ScopesServed.release_order {jobs : List PlannedJob} (scopes : ScopesServed jobs)
    {job : PlannedJob} (member : job ∈ jobs) {outer inner : String}
    (nested : [outer, inner].Sublist job.concurrencyScopeIds)
    {gate result gate' result' : PlannedJob} (served : ScopeServed jobs outer gate result)
    (served' : ScopeServed jobs inner gate' result') :
    (gate = gate' ∧ result = result' ∧ [outer, inner].Sublist (acquireIds gate) ∧
      [inner, outer].Sublist result.concurrencyRelease) ∨
    (TransGen (Needs jobs) gate gate' ∧ TransGen (Needs jobs) result' result) := by
  have encloses := scopes.nested job member outer inner nested
  obtain ⟨holds, ordered⟩ := encloses.acquired gate' served'.gateMember served'.acquires
  have resultHolds := encloses.released result' served'.resultMember served'.releases
  by_cases sameGate : gate' = gate
  · subst sameGate
    have sublist := ordered served.acquires
    have releases : inner ∈ result.concurrencyRelease := by
      rw [served.reversed, List.mem_reverse]
      exact served'.acquires
    refine .inl ⟨rfl, ?_, sublist, ?_⟩
    · exact eq_of_countP_one served'.releasedOnce served.resultMember served'.resultMember releases
        served'.releases
    · rw [served.reversed]
      exact sublist.reverse
  · have differ : result' ≠ result := by
      rintro rfl
      have acquires : inner ∈ acquireIds gate := by
        rw [← List.mem_reverse, ← served.reversed]
        exact served'.releases
      exact sameGate (eq_of_countP_one served'.acquiredOnce served'.gateMember served.gateMember
        served'.acquires acquires)
    exact .inr ⟨served.before gate' served'.gateMember holds sameGate,
      served.after result' served'.resultMember resultHolds differ⟩

/-- Every scope of a linked plan is served by one gate and one result around all of its
holders, and nested scopes are released in the reverse of the order of acquisition. -/
theorem linked_plan_scopes (workflow : Workflow) (path : String)
    (reusableWorkflows : BTreeMap Workflow) (plan : ExecutionPlan)
    (valid : ValidWorkflow workflow)
    (validReusables : ∀ (path : String) called,
      reusableWorkflows[path]? = some called → ValidWorkflow called)
    (compiled : compileWithReusables workflow path reusableWorkflows = .ok plan) :
    (∀ job ∈ plan.jobs, ∀ scope, Mentions job scope →
      ∃ gate result, ScopeServed plan.jobs scope gate result) ∧
    ∀ job ∈ plan.jobs, ∀ outer inner, [outer, inner].Sublist job.concurrencyScopeIds →
      ∀ gate result gate' result', ScopeServed plan.jobs outer gate result →
        ScopeServed plan.jobs inner gate' result' →
        (gate = gate' ∧ result = result' ∧ [outer, inner].Sublist (acquireIds gate) ∧
          [inner, outer].Sublist result.concurrencyRelease) ∨
        (TransGen (Needs plan.jobs) gate gate' ∧ TransGen (Needs plan.jobs) result' result) := by
  have scopes := ((compileWithReusables_links compiled).planScopes validReusables valid).served
  refine ⟨scopes.served, ?_⟩
  intro job member outer inner nested gate result gate' result' served served'
  exact scopes.release_order member nested served served'

end Plans

end Scopes

/-! ### A call with a group of its own -/

namespace Sample

def guardedCaller : Workflow where
  name := "caller"
  jobs := [("call", {
    uses := some "./.github/workflows/callee.yml", concurrency := some (.group "deploy") })]
  distinct := by decide

def scopesOf : Outcome ExecutionPlan → Option (List (List String))
  | .ok plan => some (plan.jobs.map (·.concurrencyScopeIds))
  | .error _ => none

/-- The group is held by the gate, the called job and the result. -/
theorem guarded_call_served :
    ∃ plan, compileWithReusables guardedCaller ".github/workflows/ci.yml" (reusables "build") =
        .ok plan ∧
      plan.jobs.map (·.concurrencyScopeIds) = List.replicate 3 ["call::caller-concurrency"] ∧
      ∃ gate result, ScopeServed plan.jobs "call::caller-concurrency" gate result := by
  have validCaller : ValidWorkflow guardedCaller := by
    intro entry member
    cases List.mem_singleton.mp member
    exact validId_of_chars "all".toList rfl (by decide) (by decide)
  have validBuild : ValidId "build" :=
    validId_of_chars "uild".toList rfl (by decide) (by decide)
  have computed : scopesOf (compileWithReusables guardedCaller ".github/workflows/ci.yml"
      (reusables "build")) = some (List.replicate 3 ["call::caller-concurrency"]) := by
    decide +kernel
  cases ran : compileWithReusables guardedCaller ".github/workflows/ci.yml" (reusables "build") with
  | error failure =>
      rw [ran] at computed
      cases computed
  | ok plan =>
      rw [ran] at computed
      have scopes : plan.jobs.map (·.concurrencyScopeIds) =
          List.replicate 3 ["call::caller-concurrency"] := Option.some.inj computed
      refine ⟨plan, rfl, scopes, ?_⟩
      have present : ["call::caller-concurrency"] ∈ plan.jobs.map (·.concurrencyScopeIds) := by
        rw [scopes]
        simp
      obtain ⟨job, member, holds⟩ := List.mem_map.mp present
      exact (linked_plan_scopes guardedCaller _ (reusables "build") plan validCaller
        (reusables_valid validBuild) ran).1 job member "call::caller-concurrency"
        (.inl (by simp [holds]))

end Sample

end GitZero.Workflows
