/-
Module: GitZero.Proofs.TemplateNames
Purpose: The names of templates of dynamic calls: an expansion takes only names under its
  template, which no other job has in a plan of workflows whose job ids are GitHub identifiers.
Trusted boundary: none
Main exports: IsTemplate, Expandable, Links.expandable, compileWithReusables_expandable,
  Expandable.replaceTemplate
-/
import GitZero.Proofs.PlanIdentity

namespace GitZero.Workflows

/-! ### Names -/

/-- The name does not end in the mark that stands behind it in the names under it. -/
def EndsPlain (name : String) : Prop :=
  ∃ front last, name.toList = front ++ [last] ∧ last ≠ ':'

theorem EndsPlain.under {inner : String} (ends : EndsPlain inner) (outer : String) :
    EndsPlain (under outer inner) := by
  obtain ⟨front, last, same, notMark⟩ := ends
  refine ⟨outer.toList ++ "::".toList ++ front, last, ?_, notMark⟩
  simp [Workflows.under, same]

theorem ValidId.endsPlain {id : String} (valid : ValidId id) : EndsPlain id := by
  have filled : id.toList ≠ [] := by
    obtain ⟨first, rest, chars, _⟩ := valid
    simp [chars]
  refine ⟨_, _, (List.dropLast_append_getLast filled).symm, fun same => ?_⟩
  exact valid.plain.1 (same ▸ List.getLast_mem filled)

theorem Plain.ne_under {name : String} (plain : Plain name) (outer inner : String) :
    name ≠ under outer inner := by
  rintro rfl
  exact plain.1 (by simp [under])

theorem under_inj_of_plain {one two first second : String} (onePlain : Plain one)
    (twoPlain : Plain two) (same : under one first = under two second) :
    one = two ∧ first = second := by
  have heads : one = two := by
    have heads := congrArg head same
    rw [head_under onePlain, head_under twoPlain] at heads
    exact String.toList_inj.mp heads
  exact ⟨heads, under_injective (heads ▸ same)⟩

/-- A name that stands under two others: one of them is the other, or stands under it. -/
theorem under_eq_under {one two first second : String} (oneEnds : EndsPlain one)
    (twoEnds : EndsPlain two) (same : under one first = under two second) :
    one = two ∨ (∃ inner, one = under two inner) ∨ ∃ inner, two = under one inner := by
  -- what the longer name has beyond the shorter one begins with the mark
  have beyond : ∀ {short long : String} {rest tail : List Char}, EndsPlain long →
      long.toList = short.toList ++ rest → ':' :: ':' :: tail = rest ++ ':' :: ':' ::
        second.toList ∨
        ':' :: ':' :: tail = rest ++ ':' :: ':' :: first.toList →
      short = long ∨ ∃ inner, long = under short inner := by
    intro short long rest tail ends longer behind
    match rest with
    | [] =>
        rw [List.append_nil] at longer
        exact .inl (String.toList_inj.mp longer.symm)
    | [mark] =>
        obtain ⟨front, last, isLast, notMark⟩ := ends
        rw [isLast] at longer
        have isMark : mark = ':' := by
          rcases behind with behind | behind <;> exact (List.cons.inj behind).1.symm
        exact absurd ((List.append_inj' longer rfl).2) (by simpa [isMark] using notMark)
    | mark :: next :: inner =>
        refine .inr ⟨String.ofList inner, ?_⟩
        have marks : mark = ':' ∧ next = ':' := by
          rcases behind with behind | behind <;>
            simp only [List.cons_append, List.cons.injEq] at behind <;>
            exact ⟨behind.1.symm, behind.2.1.symm⟩
        rw [← String.toList_inj, longer, marks.1, marks.2]
        simp [under]
  have chars := congrArg String.toList same
  simp only [under, String.toList_append, List.append_assoc] at chars
  rcases List.append_eq_append_iff.mp chars with ⟨rest, longer, behind⟩ | ⟨rest, longer, behind⟩
  · exact (beyond twoEnds longer (.inl behind)).imp id .inr
  · exact (beyond oneEnds longer (.inr behind)).imp Eq.symm .inl

section Templates

variable [Serde]

/-- A job with this base is the template of the call. -/
def IsTemplate (jobs : List PlannedJob) (name : String) (call : PlannedDynamicReusableCall) :
    Prop :=
  ∃ job ∈ jobs, job.baseId = name ∧ job.virtualJob = some (.reusableDynamicCall call)

/-- No job of the plan stands under a template, in the plan and in all that its templates
call. -/
inductive Expandable : List PlannedJob → Prop where
  | intro {jobs : List PlannedJob}
      (ends : ∀ name call, IsTemplate jobs name call → EndsPlain name)
      (apart : ∀ name call, IsTemplate jobs name call → ∀ job ∈ jobs, ∀ inner,
        job.baseId ≠ under name inner)
      (called : ∀ name call, IsTemplate jobs name call → Expandable call.calledPlan.jobs) :
      Expandable jobs

namespace Expandable

variable {jobs others : List PlannedJob} {name : String} {call : PlannedDynamicReusableCall}

theorem ends (expandable : Expandable jobs) (isTemplate : IsTemplate jobs name call) :
    EndsPlain name := by
  obtain ⟨ends, _, _⟩ := expandable
  exact ends name call isTemplate

theorem apart (expandable : Expandable jobs) (isTemplate : IsTemplate jobs name call)
    {job : PlannedJob} (member : job ∈ jobs) (inner : String) : job.baseId ≠ under name inner := by
  obtain ⟨_, apart, _⟩ := expandable
  exact apart name call isTemplate job member inner

theorem called (expandable : Expandable jobs) (isTemplate : IsTemplate jobs name call) :
    Expandable call.calledPlan.jobs := by
  obtain ⟨_, _, called⟩ := expandable
  exact called name call isTemplate

theorem of_plain (plain : ∀ name call, ¬ IsTemplate jobs name call) : Expandable jobs :=
  .intro (fun name call isTemplate => (plain name call isTemplate).elim)
    (fun name call isTemplate => (plain name call isTemplate).elim)
    (fun name call isTemplate => (plain name call isTemplate).elim)

theorem mono (expandable : Expandable jobs) (subset : others ⊆ jobs) : Expandable others := by
  have more : ∀ {name call}, IsTemplate others name call → IsTemplate jobs name call :=
    fun ⟨job, member, isTemplate⟩ => ⟨job, subset member, isTemplate⟩
  exact .intro (fun _ _ isTemplate => expandable.ends (more isTemplate))
    (fun _ _ isTemplate job member => expandable.apart (more isTemplate) (subset member))
    (fun _ _ isTemplate => expandable.called (more isTemplate))

end Expandable

theorem isTemplate_append {front back : List PlannedJob} {name : String}
    {call : PlannedDynamicReusableCall} :
    IsTemplate (front ++ back) name call ↔
      IsTemplate front name call ∨ IsTemplate back name call := by
  simp [IsTemplate, or_and_right, exists_or]

/-- No job of the second list stands under a template of the first. -/
def Clear (front back : List PlannedJob) : Prop :=
  ∀ name call, IsTemplate front name call → ∀ job ∈ back, ∀ inner, job.baseId ≠ under name inner

theorem Expandable.append {front back : List PlannedJob} (first : Expandable front)
    (second : Expandable back) (forth : Clear front back) (around : Clear back front) :
    Expandable (front ++ back) := by
  constructor
  · intro name call isTemplate
    exact (isTemplate_append.mp isTemplate).elim first.ends second.ends
  · intro name call isTemplate job member
    rcases isTemplate_append.mp isTemplate with inFront | inBack
    · rcases List.mem_append.mp member with jobFront | jobBack
      · exact first.apart inFront jobFront
      · exact forth name call inFront job jobBack
    · rcases List.mem_append.mp member with jobFront | jobBack
      · exact around name call inBack job jobFront
      · exact second.apart inBack jobBack
  · intro name call isTemplate
    exact (isTemplate_append.mp isTemplate).elim first.called second.called

/-! ### Expansions -/

theorem IsExpansion.base_cases {site : CallSite} {called segment : List PlannedJob}
    (expansion : IsExpansion site called segment) {job : PlannedJob} (member : job ∈ segment) :
    job.baseId = site.jobId ∨ ∃ inner, job.baseId = under site.jobId inner ∧
      (Plain inner ∨ ∃ early ∈ site.calledPlan.jobs, early.baseId = inner) := by
  rcases expansion.mem_cases member with rfl | rfl | ⟨_, early, inside, isCalled⟩
  · exact .inr ⟨"gate", gateId_eq site, .inl plain_gate⟩
  · exact .inl rfl
  · exact .inr ⟨_, isCalled.baseId, .inr ⟨early, inside, rfl⟩⟩

/-- The templates of an expansion are those of the called plan. -/
theorem IsExpansion.template_cases {site : CallSite} {called segment : List PlannedJob}
    (expansion : IsExpansion site called segment) {name : String}
    {call : PlannedDynamicReusableCall} (isTemplate : IsTemplate segment name call) :
    ∃ inner, name = under site.jobId inner ∧ IsTemplate site.calledPlan.jobs inner call := by
  obtain ⟨job, member, rfl, isCall⟩ := isTemplate
  rcases expansion.mem_cases member with rfl | rfl | ⟨_, early, inside, isCalled⟩
  · cases isCall
  · cases isCall
  · refine ⟨early.baseId, isCalled.baseId, early, inside, rfl, ?_⟩
    have kind := isCalled.kind
    rw [isCall] at kind
    generalize early.virtualJob = virtual at kind
    cases kind
    rfl

/-- No name of a called plan, and no plain name, stands under one of its templates. -/
theorem Expandable.inner_ne {called : List PlannedJob} (expandable : Expandable called)
    {template inner : String} {call : PlannedDynamicReusableCall}
    (isTemplate : IsTemplate called template call)
    (named : Plain inner ∨ ∃ early ∈ called, early.baseId = inner) (deeper : String) :
    inner ≠ under template deeper := by
  rcases named with plain | ⟨early, inside, rfl⟩
  · exact plain.ne_under template deeper
  · exact expandable.apart isTemplate inside deeper

theorem IsExpansion.expandable {site : CallSite} {called segment : List PlannedJob}
    (expansion : IsExpansion site called segment)
    (expandable : Expandable site.calledPlan.jobs) : Expandable segment := by
  constructor
  · intro name call isTemplate
    obtain ⟨inner, rfl, isInner⟩ := expansion.template_cases isTemplate
    exact (expandable.ends isInner).under _
  · intro name call isTemplate job member deeper same
    obtain ⟨template, rfl, isInner⟩ := expansion.template_cases isTemplate
    rw [under_assoc] at same
    rcases expansion.base_cases member with isSite | ⟨inner, isUnder, named⟩
    · exact under_ne _ _ (same.symm.trans isSite)
    · exact expandable.inner_ne isInner named deeper (under_injective (isUnder.symm.trans same))
  · intro name call isTemplate
    obtain ⟨inner, rfl, isInner⟩ := expansion.template_cases isTemplate
    exact expandable.called isInner

section Matrix

variable {jobId : String} {call : PlannedDynamicReusableCall} {template : PlannedJob}
  {instances segment : List PlannedJob}

/-- The bases of a matrix: its own, and those of its invocations. -/
theorem IsMatrix.base_cases (isMatrix : IsMatrix jobId call template instances segment)
    {job : PlannedJob} (member : job ∈ segment) :
    job.baseId = jobId ∨ (∃ index, job.baseId = under jobId (matrixName index)) ∨
      ∃ index inner, job.baseId = under jobId (under (matrixName index) inner) ∧
        (Plain inner ∨ ∃ early ∈ call.calledPlan.jobs, early.baseId = inner) := by
  obtain ⟨groups, _, each, same⟩ := isMatrix.exists_groups
  rw [same] at member
  rcases List.mem_append.mp member with inside | last
  · obtain ⟨group, listed, inside⟩ := List.mem_flatMap.mp inside
    obtain ⟨placeholder, _, called, expansion⟩ := each group listed
    rcases expansion.base_cases inside with isSite | ⟨inner, isUnder, named⟩
    · exact .inr (.inl ⟨_, isSite⟩)
    · exact .inr (.inr ⟨_, inner, isUnder.trans (under_assoc _ _ _), named⟩)
  · cases List.mem_singleton.mp last
    exact .inl rfl

theorem IsMatrix.exists_base (isMatrix : IsMatrix jobId call template instances segment) :
    ∃ job ∈ segment, job.baseId = jobId := by
  obtain ⟨groups, _, _, same⟩ := isMatrix.exists_groups
  refine ⟨reusableMatrixResult jobId template (invocationIds jobId instances), ?_, rfl⟩
  rw [same]
  exact List.mem_append_right _ List.mem_cons_self

theorem IsMatrix.template_cases (isMatrix : IsMatrix jobId call template instances segment)
    {name : String} {other : PlannedDynamicReusableCall}
    (isTemplate : IsTemplate segment name other) :
    ∃ index inner, name = under jobId (under (matrixName index) inner) ∧
      IsTemplate call.calledPlan.jobs inner other := by
  obtain ⟨groups, _, each, same⟩ := isMatrix.exists_groups
  rw [same] at isTemplate
  rcases isTemplate_append.mp isTemplate with ⟨job, member, isJob⟩ | ⟨job, member, _, isCall⟩
  · obtain ⟨group, listed, inside⟩ := List.mem_flatMap.mp member
    obtain ⟨placeholder, _, called, expansion⟩ := each group listed
    obtain ⟨inner, rfl, isInner⟩ := expansion.template_cases ⟨job, inside, isJob⟩
    exact ⟨_, inner, under_assoc _ _ _, isInner⟩
  · cases List.mem_singleton.mp member
    cases isCall

theorem IsMatrix.expandable (isMatrix : IsMatrix jobId call template instances segment)
    (expandable : Expandable call.calledPlan.jobs) : Expandable segment := by
  constructor
  · intro name other isTemplate
    obtain ⟨index, inner, rfl, isInner⟩ := isMatrix.template_cases isTemplate
    exact ((expandable.ends isInner).under _).under _
  · intro name other isTemplate job member deeper same
    obtain ⟨index, inner, rfl, isInner⟩ := isMatrix.template_cases isTemplate
    rw [under_assoc, under_assoc] at same
    rcases isMatrix.base_cases member with isSite | ⟨place, isPlace⟩ | ⟨place, name, isUnder, named⟩
    · exact under_ne _ _ (same.symm.trans isSite)
    · exact (matrixName_plain place).ne_under _ _ (under_injective (isPlace.symm.trans same))
    · have behind := under_injective (isUnder.symm.trans same)
      obtain ⟨_, inside⟩ :=
        under_inj_of_plain (matrixName_plain place) (matrixName_plain index) behind
      exact expandable.inner_ne isInner named deeper inside
  · intro name other isTemplate
    obtain ⟨index, inner, rfl, isInner⟩ := isMatrix.template_cases isTemplate
    exact expandable.called isInner

end Matrix

/-- A template gives way to its expansion, which brings the base of the template again. -/
theorem Expandable.replaceTemplate {jobs expanded : List PlannedJob} {template : PlannedJob}
    {call : PlannedDynamicReusableCall} {combinations : List (BTreeMap Json)}
    (expandable : Expandable jobs) (member : template ∈ jobs)
    (isCall : template.virtualJob = some (.reusableDynamicCall call))
    (ran : expandTemplate template combinations call = .ok expanded) :
    Expandable (replaceTemplate jobs template expanded) ∧
      (∃ job ∈ expanded, job.baseId = template.baseId) ∧
      ∀ job ∈ expanded, job.baseId = template.baseId ∨
        ∃ inner, job.baseId = under template.baseId inner := by
  have isMatrix := expandDynamicReusableCall_isMatrix ran
  have isTemplate : IsTemplate jobs template.baseId call := ⟨template, member, rfl, isCall⟩
  have bases : ∀ job ∈ expanded, job.baseId = template.baseId ∨
      ∃ inner, job.baseId = under template.baseId inner := by
    intro job inside
    rcases isMatrix.base_cases inside with isSite | ⟨_, isUnder⟩ | ⟨_, _, isUnder, _⟩
    · exact .inl isSite
    · exact .inr ⟨_, isUnder⟩
    · exact .inr ⟨_, isUnder⟩
  refine ⟨?_, ?_, bases⟩
  · refine (expandable.mono (List.filter_subset_self jobs)).append
      (isMatrix.expandable (expandable.called isTemplate)) ?_ ?_
    · rintro name other ⟨rest, inRest, rfl, isOther⟩ job inside inner same
      obtain ⟨inJobs, differs⟩ := List.mem_filter.mp inRest
      have isRest : IsTemplate jobs rest.baseId other := ⟨rest, inJobs, rfl, isOther⟩
      rcases bases job inside with isSite | ⟨deeper, isUnder⟩
      · exact expandable.apart isRest member inner (isSite.symm.trans same)
      · rcases under_eq_under (expandable.ends isTemplate) (expandable.ends isRest)
          (isUnder.symm.trans same) with equal | ⟨between, below⟩ | ⟨between, below⟩
        · exact of_decide_eq_true differs equal.symm
        · exact expandable.apart isRest member between below
        · exact expandable.apart isTemplate inJobs between below
    · intro name other isOther job inRest inner same
      obtain ⟨index, deeper, rfl, _⟩ := isMatrix.template_cases isOther
      rw [under_assoc] at same
      exact expandable.apart isTemplate (List.mem_of_mem_filter inRest) _ same
  · exact isMatrix.exists_base

/-! ### Linked plans -/

/-- The segments of different jobs of a workflow are clear of each other. -/
theorem clear_of_named {one two : String} {first second : List PlannedJob} (differ : one ≠ two)
    (onePlain : Plain one) (firstNamed : ∀ job ∈ first, Within one job.baseId)
    (secondNamed : ∀ job ∈ second, head job.baseId = two.toList) : Clear first second := by
  rintro name call ⟨template, inFirst, rfl, _⟩ job inSecond inner same
  have isHead : head (under template.baseId inner) = one.toList := by
    rcases firstNamed template inFirst with isOne | ⟨deeper, isUnder⟩
    · rw [isOne, head_under onePlain]
    · rw [isUnder, under_assoc, head_under onePlain]
  rw [← same, secondNamed job inSecond] at isHead
  exact differ (String.toList_inj.mp isHead).symm

theorem expandable_flatMap {parts : List Part} (ids : (parts.map Part.id).Nodup)
    (plain : ∀ part ∈ parts, Plain part.id)
    (named : ∀ part ∈ parts, ∀ job ∈ part.segment, Within part.id job.baseId)
    (each : ∀ part ∈ parts, Expandable part.segment) :
    Expandable (parts.flatMap Part.segment) := by
  induction parts with
  | nil => exact .of_plain fun _ _ ⟨_, member, _⟩ => nomatch member
  | cons part parts inductionHypothesis =>
      obtain ⟨fresh, ids⟩ := List.nodup_cons.mp ids
      have later : ∀ other ∈ parts, other ∈ part :: parts := fun _ => List.mem_cons_of_mem part
      have differ : ∀ other ∈ parts, part.id ≠ other.id := fun other inside same =>
        fresh (same ▸ List.mem_map_of_mem inside)
      have heads : ∀ other ∈ part :: parts, ∀ job ∈ other.segment,
          head job.baseId = other.id.toList := fun other inside job member =>
        (named other inside job member).head_eq (plain other inside)
      rw [List.flatMap_cons]
      refine (each part List.mem_cons_self).append
        (inductionHypothesis ids (fun other inside => plain other (later other inside))
          (fun other inside => named other (later other inside))
          fun other inside => each other (later other inside)) ?_ ?_
      · intro name call isTemplate job member
        obtain ⟨other, inside, member⟩ := List.mem_flatMap.mp member
        exact clear_of_named (differ other inside) (plain part List.mem_cons_self)
          (named part List.mem_cons_self) (heads other (later other inside)) name call isTemplate
          job member
      · rintro name call ⟨template, member, isTemplate⟩ job inFirst
        obtain ⟨other, inside, member⟩ := List.mem_flatMap.mp member
        exact clear_of_named (differ other inside).symm (plain other (later other inside))
          (named other (later other inside)) (heads part List.mem_cons_self) name call
          ⟨template, member, isTemplate⟩ job inFirst

theorem Expands.within {jobId : String} {call : PlannedDynamicReusableCall}
    {instances segment : List PlannedJob} (expands : Expands jobId call instances segment)
    (based : ∀ job ∈ instances, job.baseId = jobId) :
    ∀ job ∈ segment, Within jobId job.baseId := by
  intro job member
  cases expands with
  | @template template dynamic =>
      cases List.mem_singleton.mp member
      exact .inl (based template List.mem_cons_self)
  | single static expansion =>
      rcases expansion.base_cases member with isSite | ⟨inner, isUnder, _⟩
      · exact .inl isSite
      · exact .inr ⟨inner, isUnder⟩
  | matrix static isMatrix =>
      rcases isMatrix.base_cases member with isSite | ⟨_, isUnder⟩ | ⟨_, _, isUnder, _⟩
      · exact .inl isSite
      · exact .inr ⟨_, isUnder⟩
      · exact .inr ⟨_, isUnder⟩

theorem Expands.expandable {jobId : String} {call : PlannedDynamicReusableCall}
    {instances segment : List PlannedJob} (expands : Expands jobId call instances segment)
    (based : ∀ job ∈ instances, job.baseId = jobId) (ends : EndsPlain jobId)
    (expandable : Expandable call.calledPlan.jobs) : Expandable segment := by
  cases expands with
  | @template template dynamic =>
      have isBase : template.baseId = jobId := based template List.mem_cons_self
      constructor
      · rintro name other ⟨job, member, rfl, _⟩
        cases List.mem_singleton.mp member
        exact isBase ▸ ends
      · rintro name other ⟨job, member, rfl, _⟩ single inside inner same
        cases List.mem_singleton.mp member
        cases List.mem_singleton.mp inside
        exact under_ne _ _ same.symm
      · rintro name other ⟨job, member, _, isCall⟩
        cases List.mem_singleton.mp member
        cases isCall
        exact expandable
  | single static expansion => exact expansion.expandable expandable
  | matrix static isMatrix => exact isMatrix.expandable expandable

section Linking

variable [Templates]

/-- In a plan that is linked from workflows whose job ids are GitHub identifiers, nothing stands
under a template. -/
theorem Links.expandable {reusableWorkflows : BTreeMap Workflow}
    (validReusables : ∀ (path : String) called,
      reusableWorkflows[path]? = some called → ValidWorkflow called)
    {workflow : Workflow} {path : String} {plan : ExecutionPlan}
    (links : Links reusableWorkflows workflow path plan) (valid : ValidWorkflow workflow) :
    Expandable plan.jobs := by
  induction links with
  | @intro workflow plan path context parts isContext entries jobs base valid' compiled own called
      linked inductionHypothesis =>
      have listed : ∀ part ∈ parts, ValidId part.id := fun part member =>
        valid (part.id, part.job) (entries ▸ List.mem_map_of_mem member)
      have based : ∀ part ∈ parts, ∀ job ∈ part.instances,
          job.baseId = part.id ∧ job.virtualJob = none := by
        intro part member job inside
        obtain ⟨_, are, _⟩ := Part.areInstances isContext (compiled part member)
        obtain ⟨_, _, is⟩ := are.instance_of_mem inside
        exact ⟨is.baseId, is.virtualJob⟩
      have expands : ∀ part ∈ parts, ∀ found, part.call = some found →
          Expands part.id found.call part.instances part.segment ∧
            Expandable found.call.calledPlan.jobs := by
        intro part member found isCall
        obtain ⟨_, _, _, present⟩ := (called part member found isCall).resolves
        exact ⟨expandCall_expands (called part member found isCall).expanded,
          inductionHypothesis part member found isCall (validReusables _ _ present)⟩
      rw [jobs]
      refine expandable_flatMap ?_ (fun part member => (listed part member).plain) ?_ ?_
      · have distinct := workflow.distinct
        rw [entries, List.map_map] at distinct
        exact distinct
      · intro part member
        cases call : part.call with
        | none =>
            rw [(own part member call).2]
            exact fun job inside => .inl (based part member job inside).1
        | some found =>
            exact (expands part member found call).1.within
              fun job inside => (based part member job inside).1
      · intro part member
        cases call : part.call with
        | none =>
            rw [(own part member call).2]
            refine .of_plain ?_
            rintro name other ⟨job, inside, _, isCall⟩
            exact nomatch (based part member job inside).2.symm.trans isCall
        | some found =>
            obtain ⟨expanded, calledExpandable⟩ := expands part member found call
            exact expanded.expandable (fun job inside => (based part member job inside).1)
              (listed part member).endsPlain calledExpandable

/-- In the plans of the compiler nothing stands under a template. -/
theorem compileWithReusables_expandable {workflow : Workflow} {path : String}
    {reusableWorkflows : BTreeMap Workflow} {plan : ExecutionPlan} (valid : ValidWorkflow workflow)
    (validReusables : ∀ (path : String) called,
      reusableWorkflows[path]? = some called → ValidWorkflow called)
    (ran : compileWithReusables workflow path reusableWorkflows = .ok plan) :
    Expandable plan.jobs :=
  (compileWithReusables_links ran).expandable validReusables valid

end Linking

end Templates

end GitZero.Workflows
