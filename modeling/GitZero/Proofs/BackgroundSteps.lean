/-
Module: GitZero.Proofs.BackgroundSteps
Purpose: Background steps of a job: each is merged once, at the first control step that names it
  or at the drain, and the outcome of the job is read off the steps that failed.
Trusted boundary: none
Main exports: merges, due, joinTask, Recorded, Accounted, Quiet, Calm, BackgroundLaw, Ready.run,
  background_law
-/
import GitZero.Agent.JobSteps
import GitZero.Lib.OrderedMaps
import GitZero.Lib.Outcomes
import GitZero.Proofs.StepIds

namespace GitZero.Agent

open Workflows
open Expression (ExecutionStatus)

/-- The background steps that were merged, in this order. -/
def merges (journal : List Entry) : List String :=
  (journal.filter (·.kind = .merged)).map (·.stepId)

/-- The named steps that wait to be merged, each once and as named. -/
def due (waiting : List String) : List String → List String
  | [] => []
  | id :: ids => if id ∈ waiting then id :: due (waiting.erase id) ids else due waiting ids

@[simp] theorem merges_append_merged (journal : List Entry) (id : String)
    (conclusion : JobConclusion) :
    merges (journal ++ [{ kind := .merged, stepId := id, conclusion }]) =
      merges journal ++ [id] := by
  simp [merges]

theorem merges_append_other (journal : List Entry) {entry : Entry} (other : entry.kind ≠ .merged) :
    merges (journal ++ [entry]) = merges journal := by
  simp [merges, other]

theorem mem_merges_of_mem {journal : List Entry} {entry : Entry} (member : entry ∈ journal)
    (isMerged : entry.kind = .merged) : entry.stepId ∈ merges journal :=
  List.mem_map.mpr ⟨entry, List.mem_filter.mpr ⟨member, by simpa using isMerged⟩, rfl⟩

section Steps

variable {Post : Type}

/-- The started steps that are not merged yet. -/
def waiting (state : JobState Post) : List String :=
  state.backgroundOrder.filter fun id => id ∉ merges state.journal

def conclusionOf (state : JobState Post) (id : String) : JobConclusion :=
  match state.background[id]? with
  | some runtime => runtime.conclusion.getD .success
  | none => .success

/-! ### The two stages of a background step -/

/-- How far a background step has come, by what the journal holds of it. -/
inductive Stage (journal : List Entry) (id : String) : Runtime → Prop where
  | pending {task : PlannedStep × Snapshot} {explicitlyCancelled : Bool} :
      id ∉ merges journal →
      Stage journal id { task := some task, explicitlyCancelled }
  | joined {conclusion : JobConclusion} {explicitlyCancelled : Bool} :
      { kind := .merged, stepId := id, conclusion } ∈ journal →
      Stage journal id { task := none, conclusion := some conclusion, explicitlyCancelled,
                         flushed := true }

/-- The bookkeeping of the loop: the record of the background steps is the one in the map. -/
structure Recorded (state : JobState Post) : Prop where
  ordered : state.backgroundOrder.Nodup
  known : ∀ id, id ∈ state.backgroundOrder ↔ ∃ runtime, state.background[id]? = some runtime
  stages : ∀ {id runtime}, state.background[id]? = some runtime → Stage state.journal id runtime
  once : (merges state.journal).Nodup
  entries : ∀ entry ∈ state.journal, entry.kind = .merged →
    ∃ runtime, state.background[entry.stepId]? = some runtime ∧
      runtime.conclusion = some entry.conclusion

theorem Recorded.started {state : JobState Post} (recorded : Recorded state) {id : String}
    (merged : id ∈ merges state.journal) : id ∈ state.backgroundOrder := by
  obtain ⟨entry, member, rfl⟩ := List.mem_map.mp merged
  obtain ⟨inJournal, isMerged⟩ := List.mem_filter.mp member
  obtain ⟨runtime, found, -⟩ := recorded.entries entry inJournal (by simpa using isMerged)
  exact (recorded.known entry.stepId).mpr ⟨runtime, found⟩

theorem mem_waiting {state : JobState Post} {id : String} :
    id ∈ waiting state ↔ id ∈ state.backgroundOrder ∧ id ∉ merges state.journal := by
  simp [waiting]

theorem Stage.append {journal : List Entry} {id : String} {runtime : Runtime}
    (stage : Stage journal id runtime) {entry : Entry}
    (other : entry.kind = .merged → entry.stepId ≠ id) : Stage (journal ++ [entry]) id runtime := by
  cases stage with
  | pending absent =>
      refine .pending ?_
      by_cases merged : entry.kind = .merged
      · have differ : id ≠ entry.stepId := fun same => other merged same.symm
        simp [merges, merged, differ] at absent ⊢
        exact absent
      · rwa [merges_append_other _ merged]
  | joined member => exact .joined (List.mem_append_left _ member)

variable (world : World Post)

/-- Join the task of a waiting step and merge what it did. -/
def joinTask (state : JobState Post) (id : String) : JobState Post :=
  match state.background[id]? with
  | some { task := some (step, snapshot), explicitlyCancelled, .. } =>
      let completion := world.complete step snapshot explicitlyCancelled
      merge world id snapshot.environment completion { state with
        background := state.background.insert id {
          task := none
          conclusion := some completion.execution.conclusion
          explicitlyCancelled
          flushed := true } }
  | _ => state

variable {world} {state : JobState Post} {id : String}

theorem joinTask_eq {step : PlannedStep} {snapshot : Snapshot} {explicitlyCancelled : Bool}
    (found : state.background[id]? = some { task := some (step, snapshot), explicitlyCancelled }) :
    joinTask world state id = merge world id snapshot.environment
      (world.complete step snapshot explicitlyCancelled) { state with
        background := state.background.insert id {
          task := none
          conclusion := some (world.complete step snapshot explicitlyCancelled).execution.conclusion
          explicitlyCancelled
          flushed := true } } := by
  simp [joinTask, found]

variable (world) in
/-- A named step is merged if it waits, and nothing happens otherwise. -/
theorem flushOne_cases (recorded : Recorded state) (id : String) :
    (id ∉ waiting state ∧ flushOne world state id = (state, conclusionOf state id)) ∨
    (id ∈ waiting state ∧ ∃ step snapshot explicitlyCancelled,
      state.background[id]? = some { task := some (step, snapshot), explicitlyCancelled } ∧
      flushOne world state id = (joinTask world state id,
        (world.complete step snapshot explicitlyCancelled).execution.conclusion)) := by
  cases found : state.background[id]? with
  | none =>
      refine .inl ⟨?_, by simp [flushOne, conclusionOf, found]⟩
      intro waits
      obtain ⟨runtime, isRuntime⟩ := (recorded.known id).mp (mem_waiting.mp waits).1
      simp [found] at isRuntime
  | some runtime =>
      cases recorded.stages found with
      | joined member =>
          refine .inl ⟨?_, by simp [flushOne, conclusionOf, found]⟩
          intro waits
          exact (mem_waiting.mp waits).2 (mem_merges_of_mem member rfl)
      | @pending task explicitlyCancelled absent =>
          obtain ⟨step, snapshot⟩ := task
          refine .inr ⟨mem_waiting.mpr ⟨(recorded.known id).mpr ⟨_, found⟩, absent⟩,
            step, snapshot, explicitlyCancelled, rfl, ?_⟩
          rw [joinTask_eq found]
          simp [flushOne, found]

/-- Joining a step records its merge. -/
theorem Recorded.joinTask (recorded : Recorded state) (waits : id ∈ waiting state)
    {step : PlannedStep} {snapshot : Snapshot} {explicitlyCancelled : Bool}
    (found : state.background[id]? = some { task := some (step, snapshot), explicitlyCancelled }) :
    Recorded (joinTask world state id) := by
  have absent := (mem_waiting.mp waits).2
  rw [joinTask_eq found]
  constructor
  case ordered => exact recorded.ordered
  case known =>
    intro other
    simp only [merge, Std.ExtTreeMap.getElem?_insert, recorded.known other]
    split
    · next same =>
        cases compare_eq_iff_eq.mp same
        exact iff_of_true ⟨_, found⟩ ⟨_, rfl⟩
    · rfl
  case stages =>
    intro other runtime isRuntime
    simp only [merge, Std.ExtTreeMap.getElem?_insert] at isRuntime
    split at isRuntime
    · next same =>
        cases compare_eq_iff_eq.mp same
        cases isRuntime
        exact .joined (by simp [merge])
    · next differ =>
        refine (recorded.stages isRuntime).append fun _ same => differ ?_
        exact compare_eq_iff_eq.mpr same
  case once =>
    simp only [merge, merges_append_merged]
    exact List.nodup_append.mpr ⟨recorded.once, List.nodup_singleton _,
      fun one member two isNew => by
        cases List.mem_singleton.mp isNew
        exact fun same => absent (same ▸ member)⟩
  case entries =>
    intro entry member isMerged
    simp only [merge, Std.ExtTreeMap.getElem?_insert]
    rcases List.mem_append.mp member with older | newest
    · obtain ⟨runtime, isRuntime, concluded⟩ := recorded.entries entry older isMerged
      have differ : id ≠ entry.stepId := fun same =>
        absent (same ▸ mem_merges_of_mem older isMerged)
      rw [if_neg (fun same => differ (compare_eq_iff_eq.mp same))]
      exact ⟨runtime, isRuntime, concluded⟩
    · cases List.mem_singleton.mp newest
      simp

theorem Recorded.waiting_nodup (recorded : Recorded state) : (waiting state).Nodup :=
  recorded.ordered.filter _

theorem waiting_joinTask (recorded : Recorded state) {step : PlannedStep} {snapshot : Snapshot}
    {explicitlyCancelled : Bool}
    (found : state.background[id]? = some { task := some (step, snapshot), explicitlyCancelled }) :
    waiting (joinTask world state id) = (waiting state).erase id := by
  rw [joinTask_eq found, recorded.waiting_nodup.erase_eq_filter]
  simp only [waiting, merge, merges_append_merged, List.filter_filter]
  apply List.filter_congr
  intro other _
  by_cases same : other = id
  · simp [same]
  · simp [same]

/-! ### Joining the targets of a step -/

variable (world) in
/-- What a flush keeps: the order of the background steps, the status and the loop. -/
theorem flush_frame (ids : List String) (state : JobState Post) :
    let flushed := (flushBackgroundSteps world ids state).1
    flushed.backgroundOrder = state.backgroundOrder ∧ flushed.status = state.status ∧
      flushed.stopped = state.stopped := by
  induction ids generalizing state with
  | nil => exact ⟨rfl, rfl, rfl⟩
  | cons id ids inductionHypothesis =>
      have one : (flushOne world state id).1.backgroundOrder = state.backgroundOrder ∧
          (flushOne world state id).1.status = state.status ∧
          (flushOne world state id).1.stopped = state.stopped := by
        unfold flushOne
        split
        · exact ⟨rfl, rfl, rfl⟩
        · split
          · exact ⟨rfl, rfl, rfl⟩
          · dsimp only
            split <;> exact ⟨rfl, rfl, rfl⟩
      obtain ⟨order, status, stopped⟩ := inductionHypothesis (flushOne world state id).1
      exact ⟨order.trans one.1, status.trans one.2.1, stopped.trans one.2.2⟩

/-- A step that does not wait keeps its runtime. -/
theorem flushOne_background (recorded : Recorded state) {id other : String}
    (differ : other ∈ waiting state → other ≠ id) :
    (flushOne world state id).1.background[other]? = state.background[other]? := by
  rcases flushOne_cases world recorded id with ⟨-, same⟩ | ⟨waits, step, snapshot,
    explicitlyCancelled, found, same⟩
  · rw [same]
  · rw [same, joinTask_eq found]
    have apart : id ≠ other := fun equal => differ (equal ▸ waits) equal.symm
    simp [merge, Std.ExtTreeMap.getElem?_insert, apart]

variable (world) in
theorem Recorded.flushOne (recorded : Recorded state) (id : String) :
    Recorded (flushOne world state id).1 ∧
      waiting (flushOne world state id).1 = (waiting state).erase id := by
  rcases flushOne_cases world recorded id with ⟨absent, same⟩ | ⟨waits, step, snapshot,
    explicitlyCancelled, found, same⟩
  · rw [same]
    exact ⟨recorded, (List.erase_of_not_mem absent).symm⟩
  · rw [same]
    exact ⟨recorded.joinTask waits found, waiting_joinTask recorded found⟩

variable (world) in
theorem Recorded.flush (recorded : Recorded state) (ids : List String) :
    Recorded (flushBackgroundSteps world ids state).1 := by
  induction ids generalizing state with
  | nil => exact recorded
  | cons id ids inductionHypothesis => exact inductionHypothesis (recorded.flushOne world id).1

theorem flush_background (recorded : Recorded state) {ids : List String} {other : String}
    (differ : other ∈ waiting state → other ∉ ids) :
    (flushBackgroundSteps world ids state).1.background[other]? = state.background[other]? := by
  induction ids generalizing state with
  | nil => rfl
  | cons id ids inductionHypothesis =>
      obtain ⟨nextRecorded, nextWaiting⟩ := recorded.flushOne world id
      refine (inductionHypothesis nextRecorded ?_).trans (flushOne_background recorded ?_)
      · intro waits member
        rw [nextWaiting] at waits
        exact differ (List.mem_of_mem_erase waits) (List.mem_cons_of_mem _ member)
      · intro waits same
        exact differ waits (same ▸ List.mem_cons_self)

variable (world) in
/-- A flush merges the waiting ones of its targets, each once and in this order. -/
theorem flush_eq_foldl (recorded : Recorded state) (ids : List String) :
    (flushBackgroundSteps world ids state).1 =
      (due (waiting state) ids).foldl (joinTask world) state := by
  induction ids generalizing state with
  | nil => rfl
  | cons id ids inductionHypothesis =>
      obtain ⟨nextRecorded, nextWaiting⟩ := recorded.flushOne world id
      change (flushBackgroundSteps world ids (flushOne world state id).1).1 = _
      rw [inductionHypothesis nextRecorded, nextWaiting, due]
      rcases flushOne_cases world recorded id with ⟨absent, same⟩ | ⟨waits, step,
        snapshot, explicitlyCancelled, found, same⟩
      · rw [same, if_neg absent, List.erase_of_not_mem absent]
      · rw [same, if_pos waits, List.foldl_cons]

variable (world) in
theorem merges_flush (recorded : Recorded state) (ids : List String) :
    merges (flushBackgroundSteps world ids state).1.journal =
      merges state.journal ++ due (waiting state) ids := by
  induction ids generalizing state with
  | nil => simp [flushBackgroundSteps, due]
  | cons id ids inductionHypothesis =>
      obtain ⟨nextRecorded, nextWaiting⟩ := recorded.flushOne world id
      change merges (flushBackgroundSteps world ids (flushOne world state id).1).1.journal = _
      rw [inductionHypothesis nextRecorded, nextWaiting, due]
      rcases flushOne_cases world recorded id with ⟨absent, same⟩ | ⟨waits, step,
        snapshot, explicitlyCancelled, found, same⟩
      · rw [same, if_neg absent, List.erase_of_not_mem absent]
      · rw [same, if_pos waits, joinTask_eq found]
        simp [merge]

theorem conclusionOf_flushOne (recorded : Recorded state) (id : String) :
    (flushOne world state id).2 = conclusionOf (flushOne world state id).1 id := by
  rcases flushOne_cases world recorded id with ⟨-, same⟩ | ⟨-, step, snapshot,
    explicitlyCancelled, found, same⟩
  · rw [same]
  · rw [same, joinTask_eq found]
    simp [merge, conclusionOf]

/-- The conclusions that a flush returns are those its targets have afterwards. -/
theorem flush_conclusions (recorded : Recorded state) (ids : List String) :
    (flushBackgroundSteps world ids state).2 =
      ids.map (conclusionOf (flushBackgroundSteps world ids state).1) := by
  induction ids generalizing state with
  | nil => rfl
  | cons id ids inductionHypothesis =>
      obtain ⟨nextRecorded, nextWaiting⟩ := recorded.flushOne world id
      have later : conclusionOf (flushBackgroundSteps world ids (flushOne world state id).1).1 id =
          conclusionOf (flushOne world state id).1 id := by
        have gone : id ∉ waiting (flushOne world state id).1 := by
          rw [nextWaiting]
          exact recorded.waiting_nodup.not_mem_erase
        rw [conclusionOf, conclusionOf,
          flush_background nextRecorded fun waits => absurd waits gone]
      have rest := inductionHypothesis nextRecorded
      change (flushOne world state id).2 :: (flushBackgroundSteps world ids
        (flushOne world state id).1).2 = _ :: ids.map (conclusionOf (flushBackgroundSteps world ids
          (flushOne world state id).1).1)
      rw [rest, conclusionOf_flushOne recorded]
      exact congrArg (· :: _) later.symm

/-! ### Runs without a cancellation or a timeout of the job -/

/-- Neither the cancellation of the job nor its timeout fires: a step ends cancelled only if
it was told to stop. -/
structure Quiet (world : World Post) : Prop where
  cancel : ∀ step, world.cancelRequested step = false
  timeout : ∀ step, world.timedOutAfter step = false
  drain : world.timedOutAfterDrain = false
  posts : ∀ post, world.timedOutAfterPost post = false
  ending : world.timedOutAtEnd = false
  execute : ∀ step snapshot, (world.execute step snapshot).execution.conclusion ≠ .cancelled
  complete : ∀ step snapshot,
    (world.complete step snapshot false).execution.conclusion ≠ .cancelled

/-- A `wait` names no step that was explicitly cancelled before and ended so. -/
def Calm (state : JobState Post) (step : PlannedStep) : Prop :=
  ∀ stepIds, step.kind = .wait stepIds → ∀ id ∈ stepIds, ∀ runtime,
    state.background[id]? = some runtime →
      ¬ (runtime.explicitlyCancelled = true ∧ runtime.conclusion = some .cancelled)

/-- Only explicitly cancelled steps end cancelled. -/
def Told (state : JobState Post) : Prop :=
  ∀ (id : String) (runtime : Runtime), state.background[id]? = some runtime →
    runtime.conclusion = some .cancelled → runtime.explicitlyCancelled = true

/-- What the status of the loop says about the steps so far. -/
structure Accounted (state : JobState Post) : Prop where
  going : state.stopped = false
  status : state.status = .success ∨ state.status = .failure
  fails : state.status = .failure → ∃ entry ∈ state.journal, entry.conclusion.failed = true
  kept : ∀ entry ∈ state.journal, entry.conclusion.failed = true → entry.kind ≠ .merged →
    state.status = .failure
  waits : ∀ entry ∈ state.journal, entry.kind = .control → entry.conclusion.failed = true →
    ∃ other ∈ state.journal, other.kind = .merged ∧ other.conclusion.failed = true
  controls : ∀ entry ∈ state.journal, entry.kind = .control → entry.conclusion ≠ .cancelled

/-- The marks of `cancel` steps stand at joined steps only, between the steps of the job. -/
def Settled (state : JobState Post) : Prop :=
  ∀ (id : String) (runtime : Runtime), state.background[id]? = some runtime →
    runtime.explicitlyCancelled = true → runtime.flushed = true

theorem Told.flush (quiet : Quiet world) (recorded : Recorded state) (told : Told state)
    (ids : List String) : Told (flushBackgroundSteps world ids state).1 := by
  induction ids generalizing state with
  | nil => exact told
  | cons id ids inductionHypothesis =>
      refine inductionHypothesis (recorded.flushOne world id).1 ?_
      change Told (flushOne world state id).1
      rcases flushOne_cases world recorded id with ⟨-, same⟩ | ⟨-, step, snapshot,
        explicitlyCancelled, found, same⟩
      · rw [same]
        exact told
      · rw [same, joinTask_eq found]
        intro other runtime isRuntime ended
        simp only [merge, Std.ExtTreeMap.getElem?_insert] at isRuntime
        split at isRuntime
        · cases isRuntime
          cases explicitlyCancelled with
          | true => rfl
          | false => exact absurd (Option.some.inj ended) (quiet.complete step snapshot)
        · exact told other runtime isRuntime ended

/-- A joined step has left the steps that wait. -/
theorem Recorded.flushed_of_merged (recorded : Recorded state) {runtime : Runtime}
    (found : state.background[id]? = some runtime) (merged : id ∈ merges state.journal) :
    runtime.flushed = true := by
  cases recorded.stages found with
  | pending absent => exact absurd merged absent
  | joined => rfl

theorem mem_due {waiting ids : List String} (member : id ∈ ids) (waits : id ∈ waiting) :
    id ∈ due waiting ids := by
  induction ids generalizing waiting with
  | nil => cases member
  | cons head ids inductionHypothesis =>
      rw [due]
      by_cases same : id = head
      · subst same
        simp [waits]
      · have inside : id ∈ ids := (List.mem_cons.mp member).resolve_left same
        split
        · exact List.mem_cons_of_mem _
            (inductionHypothesis inside ((List.mem_erase_of_ne same).mpr waits))
        · exact inductionHypothesis inside waits

theorem flushed_of_target (recorded : Recorded state) {ids : List String} (member : id ∈ ids)
    {runtime : Runtime}
    (found : (flushBackgroundSteps world ids state).1.background[id]? = some runtime) :
    runtime.flushed = true := by
  refine (recorded.flush world ids).flushed_of_merged found ?_
  rw [merges_flush world recorded, List.mem_append]
  by_cases waits : id ∈ waiting state
  · exact .inr (mem_due member waits)
  · refine .inl ?_
    have started : id ∈ state.backgroundOrder := by
      rw [← (flush_frame world ids state).1]
      exact ((recorded.flush world ids).known id).mpr ⟨runtime, found⟩
    by_contra absent
    exact waits (mem_waiting.mpr ⟨started, absent⟩)

theorem Settled.flush (recorded : Recorded state) {ids : List String}
    (settled : ∀ (id : String) (runtime : Runtime), state.background[id]? = some runtime →
      id ∉ ids → runtime.explicitlyCancelled = true → runtime.flushed = true) :
    Settled (flushBackgroundSteps world ids state).1 := by
  intro id runtime found marked
  by_cases member : id ∈ ids
  · exact flushed_of_target recorded member found
  · rw [flush_background recorded fun _ => member] at found
    exact settled id runtime found member marked

/-- The entries that a flush adds are merges. -/
theorem mem_journal_flush (recorded : Recorded state) (ids : List String) {entry : Entry} :
    entry ∈ (flushBackgroundSteps world ids state).1.journal →
      entry ∈ state.journal ∨ entry.kind = .merged := by
  induction ids generalizing state with
  | nil => exact .inl
  | cons id ids inductionHypothesis =>
      intro member
      rcases inductionHypothesis (recorded.flushOne world id).1 member with before | merged
      · rcases flushOne_cases world recorded id with ⟨-, same⟩ | ⟨-, step, snapshot,
          explicitlyCancelled, found, same⟩
        · rw [same] at before
          exact .inl before
        · rw [same, joinTask_eq found] at before
          rcases List.mem_append.mp before with older | newest
          · exact .inl older
          · cases List.mem_singleton.mp newest
            exact .inr rfl
      · exact .inr merged

variable (world) in
theorem journal_subset_flush (recorded : Recorded state) (ids : List String) :
    state.journal ⊆ (flushBackgroundSteps world ids state).1.journal := by
  induction ids generalizing state with
  | nil => exact fun _ member => member
  | cons id ids inductionHypothesis =>
      refine List.Subset.trans ?_ (inductionHypothesis (recorded.flushOne world id).1)
      change state.journal ⊆ (flushOne world state id).1.journal
      rcases flushOne_cases world recorded id with ⟨-, same⟩ | ⟨-, step, snapshot,
        explicitlyCancelled, found, same⟩
      · rw [same]
        exact fun _ member => member
      · rw [same, joinTask_eq found]
        exact fun _ member => List.mem_append_left _ member

variable (world) in
theorem Accounted.flush (recorded : Recorded state) (accounted : Accounted state)
    (ids : List String) : Accounted (flushBackgroundSteps world ids state).1 := by
  obtain ⟨-, status, stopped⟩ := flush_frame world ids state
  have more := journal_subset_flush world recorded ids
  have older : ∀ entry ∈ (flushBackgroundSteps world ids state).1.journal,
      entry.kind ≠ .merged → entry ∈ state.journal := fun entry member other =>
    (mem_journal_flush recorded ids member).resolve_right other
  constructor
  case going => exact stopped.trans accounted.going
  case status => rw [status]; exact accounted.status
  case fails =>
    intro isFailure
    obtain ⟨entry, member, failed⟩ := accounted.fails (status ▸ isFailure)
    exact ⟨entry, more member, failed⟩
  case kept =>
    intro entry member failed other
    exact status.trans (accounted.kept entry (older entry member other) failed other)
  case waits =>
    intro entry member isControl failed
    obtain ⟨other, inside, merged⟩ := accounted.waits entry
      (older entry member (by simp [isControl])) isControl failed
    exact ⟨other, more inside, merged⟩
  case controls =>
    intro entry member isControl
    exact accounted.controls entry (older entry member (by simp [isControl])) isControl

/-- One more step concluded. -/
theorem Accounted.conclude {after : JobState Post} (accounted : Accounted state) {entry : Entry}
    (going : after.stopped = false) (journal : after.journal = state.journal ++ [entry])
    (status : after.status = statusAfter entry.conclusion state.status)
    (other : entry.kind ≠ .merged) (notCancelled : entry.conclusion ≠ .cancelled)
    (waits : entry.kind = .control → entry.conclusion.failed = true →
      ∃ other ∈ state.journal, other.kind = .merged ∧ other.conclusion.failed = true) :
    Accounted after := by
  have changes : (entry.conclusion.failed = true ∧ after.status = .failure) ∨
      (entry.conclusion.failed = false ∧ after.status = state.status) := by
    rw [status]
    cases conclusion : entry.conclusion with
    | cancelled => exact absurd conclusion notCancelled
    | _ => simp [statusAfter, JobConclusion.failed]
  have member : ∀ {line : Entry}, line ∈ after.journal → line ∈ state.journal ∨ line = entry := by
    intro line inside
    rw [journal] at inside
    simpa using inside
  have more : ∀ {line : Entry}, line ∈ state.journal → line ∈ after.journal := by
    intro line inside
    rw [journal]
    exact List.mem_append_left _ inside
  constructor
  case going => exact going
  case status =>
    rcases changes with ⟨-, isFailure⟩ | ⟨-, same⟩
    · exact .inr isFailure
    · rw [same]
      exact accounted.status
  case fails =>
    intro isFailure
    rcases changes with ⟨failed, -⟩ | ⟨-, same⟩
    · exact ⟨entry, by simp [journal], failed⟩
    · obtain ⟨line, inside, failed⟩ := accounted.fails (same.symm.trans isFailure)
      exact ⟨line, more inside, failed⟩
  case kept =>
    intro line inside failed notMerged
    rcases changes with ⟨-, isFailure⟩ | ⟨succeeded, same⟩
    · exact isFailure
    · rcases member inside with older | newest
      · exact same.trans (accounted.kept line older failed notMerged)
      · rw [newest, succeeded] at failed
        cases failed
  case waits =>
    intro line inside isControl failed
    rcases member inside with older | newest
    · obtain ⟨source, found, merged⟩ := accounted.waits line older isControl failed
      exact ⟨source, more found, merged⟩
    · subst newest
      obtain ⟨source, found, merged⟩ := waits isControl failed
      exact ⟨source, more found, merged⟩
  case controls =>
    intro line inside isControl
    rcases member inside with older | newest
    · exact accounted.controls line older isControl
    · rw [newest]
      exact notCancelled

theorem Recorded.conclude {after : JobState Post} (recorded : Recorded state) {entry : Entry}
    (order : after.backgroundOrder = state.backgroundOrder)
    (background : after.background = state.background)
    (journal : after.journal = state.journal ++ [entry]) (other : entry.kind ≠ .merged) :
    Recorded after := by
  constructor
  case ordered => rw [order]; exact recorded.ordered
  case known => rw [order, background]; exact recorded.known
  case stages =>
    intro id runtime found
    rw [background] at found
    rw [journal]
    exact (recorded.stages found).append fun merged => absurd merged other
  case once => rw [journal, merges_append_other _ other]; exact recorded.once
  case entries =>
    intro line inside merged
    rw [journal] at inside
    rw [background]
    rcases List.mem_append.mp inside with older | newest
    · exact recorded.entries line older merged
    · cases List.mem_singleton.mp newest
      exact absurd merged other

/-! ### The marks of `cancel` steps -/

/-- Marking changes the marks of the targets only. -/
structure Marks (state marked : JobState Post) (targets : List String) : Prop where
  same : marked = { state with background := marked.background }
  others : ∀ id ∉ targets, marked.background[id]? = state.background[id]?
  flags : ∀ id : String, marked.background[id]? = state.background[id]? ∨ ∃ runtime : Runtime,
    state.background[id]? = some runtime ∧
      marked.background[id]? = some { runtime with explicitlyCancelled := true }

theorem marks_cancelTarget (state : JobState Post) (id : String) :
    Marks state (cancelTarget state id) [id] := by
  unfold cancelTarget
  cases found : state.background[id]? with
  | none => exact ⟨rfl, fun _ _ => rfl, fun _ => .inl rfl⟩
  | some runtime =>
      refine ⟨rfl, ?_, ?_⟩
      · intro other outside
        have differ : id ≠ other := fun same => outside (List.mem_singleton.mpr same.symm)
        simp [Std.ExtTreeMap.getElem?_insert, differ]
      · intro other
        by_cases same : id = other
        · subst same
          exact .inr ⟨runtime, found, by simp⟩
        · exact .inl (by simp [Std.ExtTreeMap.getElem?_insert, same])

theorem marks_markTargets {step : PlannedStep} {targets : List String}
    (isTargets : targetIds state step.kind = some targets) :
    Marks state (markTargets step targets state) targets := by
  cases kind : step.kind with
  | cancel id =>
      rw [kind, targetIds, Option.some.injEq] at isTargets
      subst isTargets
      simpa [markTargets, kind, isCancel] using marks_cancelTarget state id
  | _ =>
      simp only [markTargets, kind, isCancel]
      exact ⟨rfl, fun _ _ => rfl, fun _ => .inl rfl⟩

section Marked

variable {marked : JobState Post} {targets : List String}

theorem Marks.exists_before (marks : Marks state marked targets) {runtime : Runtime}
    (found : marked.background[id]? = some runtime) : ∃ before,
      state.background[id]? = some before ∧ before.task = runtime.task ∧
      before.conclusion = runtime.conclusion ∧ before.flushed = runtime.flushed ∧
      (before.explicitlyCancelled = true → runtime.explicitlyCancelled = true) := by
  rcases marks.flags id with same | ⟨before, isBefore, isMarked⟩
  · exact ⟨runtime, same ▸ found, rfl, rfl, rfl, fun flag => flag⟩
  · rw [isMarked] at found
    cases found
    exact ⟨before, isBefore, rfl, rfl, rfl, fun _ => rfl⟩

theorem Stage.of_same {journal : List Entry} {before after : Runtime}
    (stage : Stage journal id before) (task : before.task = after.task)
    (conclusion : before.conclusion = after.conclusion) (flushed : before.flushed = after.flushed) :
    Stage journal id after := by
  obtain ⟨afterTask, afterConclusion, afterCancelled, afterFlushed⟩ := after
  cases stage with
  | pending absent =>
      cases task
      cases conclusion
      cases flushed
      exact .pending absent
  | joined member =>
      cases task
      cases conclusion
      cases flushed
      exact .joined member

theorem Recorded.mark (recorded : Recorded state) (marks : Marks state marked targets) :
    Recorded marked := by
  have journal : marked.journal = state.journal := by rw [marks.same]
  have order : marked.backgroundOrder = state.backgroundOrder := by rw [marks.same]
  constructor
  case ordered => rw [order]; exact recorded.ordered
  case known =>
    intro id
    rw [order, recorded.known id]
    rcases marks.flags id with same | ⟨before, isBefore, isMarked⟩
    · rw [same]
    · exact iff_of_true ⟨_, isBefore⟩ ⟨_, isMarked⟩
  case stages =>
    intro id runtime found
    obtain ⟨before, isBefore, task, conclusion, flushed, -⟩ := marks.exists_before found
    rw [journal]
    exact (recorded.stages isBefore).of_same task conclusion flushed
  case once => rw [journal]; exact recorded.once
  case entries =>
    intro entry member merged
    rw [journal] at member
    obtain ⟨runtime, found, concluded⟩ := recorded.entries entry member merged
    rcases marks.flags entry.stepId with same | ⟨before, isBefore, isMarked⟩
    · exact ⟨runtime, same.trans found, concluded⟩
    · rw [found] at isBefore
      cases isBefore
      exact ⟨_, isMarked, concluded⟩

theorem Told.mark (told : Told state) (marks : Marks state marked targets) : Told marked := by
  intro id runtime found ended
  obtain ⟨before, isBefore, -, conclusion, -, flag⟩ := marks.exists_before found
  exact flag (told id before isBefore (conclusion.trans ended))

theorem Accounted.mark (accounted : Accounted state) (marks : Marks state marked targets) :
    Accounted marked := by
  rw [marks.same]
  exact ⟨accounted.going, accounted.status, accounted.fails, accounted.kept, accounted.waits,
    accounted.controls⟩

theorem Marks.waiting_eq (marks : Marks state marked targets) : waiting marked = waiting state := by
  rw [marks.same]
  rfl

end Marked

/-! ### One step of the job -/

/-- A flush leaves the marks as they are. -/
theorem flush_flags (recorded : Recorded state) (ids : List String) {runtime : Runtime}
    (found : (flushBackgroundSteps world ids state).1.background[id]? = some runtime) :
    ∃ before, state.background[id]? = some before ∧
      before.explicitlyCancelled = runtime.explicitlyCancelled := by
  induction ids generalizing state with
  | nil => exact ⟨runtime, found, rfl⟩
  | cons head ids inductionHypothesis =>
      obtain ⟨middle, isMiddle, flag⟩ :=
        inductionHypothesis (recorded.flushOne world head).1 found
      rcases flushOne_cases world recorded head with ⟨-, same⟩ | ⟨-, step, snapshot,
        explicitlyCancelled, isHead, same⟩
      · rw [same] at isMiddle
        exact ⟨middle, isMiddle, flag⟩
      · rw [same, joinTask_eq isHead] at isMiddle
        simp only [merge, Std.ExtTreeMap.getElem?_insert] at isMiddle
        split at isMiddle
        · next equal =>
            cases compare_eq_iff_eq.mp equal
            cases isMiddle
            exact ⟨_, isHead, flag⟩
        · exact ⟨middle, isMiddle, flag⟩

/-- The invariant of the loop over the steps of the job. -/
structure Ready (state : JobState Post) (rest : List PlannedStep) : Prop where
  recorded : Recorded state
  accounted : Accounted state
  told : Told state
  settled : Settled state
  distinct : (rest.map (·.id)).Nodup
  fresh : ∀ step ∈ rest, step.id ∉ state.backgroundOrder

theorem Ready.start {environment : BTreeMap String} {steps : List PlannedStep}
    (distinct : (steps.map (·.id)).Nodup) : @Ready Post { environment } steps where
  recorded := ⟨List.nodup_nil, by simp, by simp, List.nodup_nil, by simp⟩
  accounted := ⟨rfl, .inl rfl, by simp, by simp, by simp, by simp⟩
  told := by simp [Told]
  settled := by simp [Settled]
  distinct
  fresh := by simp

theorem exists_runtime_of_conclusionOf {conclusion : JobConclusion}
    (concluded : conclusionOf state id = conclusion) (notSuccess : conclusion ≠ .success) :
    ∃ runtime, state.background[id]? = some runtime ∧ runtime.conclusion = some conclusion := by
  unfold conclusionOf at concluded
  split at concluded
  · next runtime found =>
      cases stored : runtime.conclusion with
      | none => simp [stored, notSuccess.symm] at concluded
      | some value =>
          simp only [stored, Option.getD_some] at concluded
          exact ⟨runtime, found, by rw [stored, concluded]⟩
  · exact absurd concluded.symm notSuccess

/-- A failed target is on record. -/
theorem Recorded.exists_failed (recorded : Recorded state)
    (failed : (conclusionOf state id).failed = true) :
    ∃ entry ∈ state.journal, entry.kind = .merged ∧ entry.conclusion.failed = true := by
  have notSuccess : conclusionOf state id ≠ .success := by
    intro success
    rw [success] at failed
    cases failed
  obtain ⟨runtime, found, concluded⟩ := exists_runtime_of_conclusionOf rfl notSuccess
  cases recorded.stages found with
  | pending => cases concluded
  | joined member =>
      cases concluded
      exact ⟨_, member, rfl, failed⟩

section Control

variable {step : PlannedStep} {targets : List String}

/-- A `wait` or `wait-all` over steps that are not both explicitly cancelled and ended so
does not conclude cancelled. -/
theorem wait_ne_cancelled (quiet : Quiet world) (recorded : Recorded state) (told : Told state)
    (settled : Settled state) (calm : Calm state step) (notCancel : isCancel step.kind = false)
    (isTargets : targetIds state step.kind = some targets) :
    backgroundWaitConclusion (flushBackgroundSteps world targets state).2 ≠ .cancelled := by
  intro cancelled
  have member := mem_of_backgroundWaitConclusion_cancelled cancelled
  rw [flush_conclusions recorded, List.mem_map] at member
  obtain ⟨id, isTarget, concluded⟩ := member
  obtain ⟨runtime, found, ended⟩ := exists_runtime_of_conclusionOf concluded (by decide)
  have flagged := Told.flush quiet recorded told targets id runtime found ended
  obtain ⟨before, isBefore, flag⟩ := flush_flags recorded targets found
  -- the mark is an old one, so the target was joined before this step
  have flushed := settled id before isBefore (flag.trans flagged)
  have notWaiting : id ∉ waiting state := by
    intro waits
    cases recorded.stages isBefore with
    | pending => cases flushed
    | joined merged => exact (mem_waiting.mp waits).2 (mem_merges_of_mem merged rfl)
  rw [flush_background recorded fun waits => absurd waits notWaiting, isBefore] at found
  cases found
  cases kind : step.kind with
  | wait stepIds =>
      rw [kind, targetIds, Option.some.injEq] at isTargets
      exact calm stepIds kind id (isTargets ▸ isTarget) runtime isBefore ⟨flagged, ended⟩
  | waitAll =>
      rw [kind, targetIds, Option.some.injEq] at isTargets
      have unflushed := (List.mem_filter.mp (isTargets ▸ isTarget)).2
      simp [isBefore, flushed] at unflushed
  | cancel stepId => simp [kind, isCancel] at notCancel
  | checkout inputs => simp [kind, targetIds] at isTargets
  | run shell script => simp [kind, targetIds] at isTargets
  | uses action inputs => simp [kind, targetIds] at isTargets

theorem forgiven_cases (forgives : Bool) (outcome : JobConclusion) :
    let conclusion := if forgives && outcome = .failure then .success else outcome
    conclusion = outcome ∨ (conclusion = .success ∧ outcome = .failure) := by
  cases forgives with
  | false => exact .inl (by simp)
  | true =>
      by_cases failure : outcome = .failure
      · exact .inr (by simp [failure])
      · exact .inl (by simp [failure])

/-- What a control step does after it has joined its targets. -/
theorem controlStep_eq (world : World Post) (state : JobState Post) (step : PlannedStep)
    (targets : List String) :
    let joined := flushBackgroundSteps world targets (markTargets step targets state)
    ∃ outcome conclusion,
      (outcome = if isCancel step.kind then .success else backgroundWaitConclusion joined.2) ∧
      (conclusion = outcome ∨ (conclusion = .success ∧ outcome = .failure)) ∧
      controlStep world step targets state = { joined.1 with
        completedSteps := joined.1.completedSteps + 1
        steps := joined.1.steps.insert step.id { outputs := ∅, outcome, conclusion }
        status := statusAfter conclusion joined.1.status
        journal := joined.1.journal ++ [{ kind := .control, stepId := step.id, conclusion }] } := by
  exact ⟨_, _, rfl, forgiven_cases _ _, rfl⟩

theorem Ready.control (quiet : Quiet world) {rest : List PlannedStep}
    (ready : Ready state (step :: rest)) (calm : Calm state step)
    (isTargets : targetIds state step.kind = some targets) :
    Ready (controlStep world step targets state) rest := by
  have marks := marks_markTargets isTargets
  have recorded := ready.recorded.mark marks
  have joinedRecorded := recorded.flush world targets
  have joinedAccounted := (ready.accounted.mark marks).flush world recorded targets
  obtain ⟨order, -, -⟩ := flush_frame world targets (markTargets step targets state)
  have startOrder : (markTargets step targets state).backgroundOrder = state.backgroundOrder := by
    rw [marks.same]
  obtain ⟨outcome, conclusion, isOutcome, isConclusion, same⟩ :=
    controlStep_eq world state step targets
  have notCancelled : outcome ≠ .cancelled := by
    rw [isOutcome]
    split
    · decide
    · next notCancel =>
        have unmarked : markTargets step targets state = state := by simp [markTargets, notCancel]
        rw [unmarked]
        exact wait_ne_cancelled quiet ready.recorded ready.told ready.settled calm
          (by simpa using notCancel) isTargets
  have failing : outcome.failed = true → ∃ entry ∈ (flushBackgroundSteps world targets
      (markTargets step targets state)).1.journal, entry.kind = .merged ∧
        entry.conclusion.failed = true := by
    intro failed
    rw [isOutcome] at failed
    split at failed
    · cases failed
    · obtain ⟨found, member, isFailed⟩ := backgroundWaitConclusion_failed.mp failed
      rw [flush_conclusions recorded, List.mem_map] at member
      obtain ⟨id, -, rfl⟩ := member
      exact joinedRecorded.exists_failed isFailed
  rw [same]
  constructor
  case recorded => exact joinedRecorded.conclude rfl rfl rfl (by simp)
  case accounted =>
    refine joinedAccounted.conclude joinedAccounted.going rfl rfl (by simp) ?_ ?_
    · rcases isConclusion with equal | ⟨succeeds, -⟩
      · simpa [equal] using notCancelled
      · simp [succeeds]
    · intro _ failed
      rcases isConclusion with equal | ⟨succeeds, -⟩
      · exact failing (equal ▸ failed)
      · simp [succeeds, JobConclusion.failed] at failed
  case told => exact Told.flush quiet recorded (ready.told.mark marks) targets
  case settled =>
    refine Settled.flush recorded fun id runtime found outside flagged => ?_
    rw [marks.others id outside] at found
    exact ready.settled id runtime found flagged
  case distinct => exact (List.nodup_cons.mp ready.distinct).2
  case fresh =>
    intro later member
    change later.id ∉ (flushBackgroundSteps world targets
      (markTargets step targets state)).1.backgroundOrder
    rw [order, startOrder]
    exact ready.fresh later (List.mem_cons_of_mem _ member)

end Control

section Ordinary

variable {step : PlannedStep} {rest : List PlannedStep}

theorem Ready.later_ne (ready : Ready state (step :: rest)) {later : PlannedStep}
    (member : later ∈ rest) : later.id ≠ step.id := by
  intro same
  exact (List.nodup_cons.mp ready.distinct).1 (List.mem_map.mpr ⟨later, member, same⟩)

theorem Ready.startBackgroundStep (ready : Ready state (step :: rest)) :
    Ready (startBackgroundStep step state) rest := by
  have absent : step.id ∉ state.backgroundOrder := ready.fresh step List.mem_cons_self
  have notMerged : step.id ∉ merges state.journal := fun merged =>
    absent (ready.recorded.started merged)
  have lookup : ∀ {id : String} {runtime : Runtime},
      (Agent.startBackgroundStep step state).background[id]? = some runtime →
      (id = step.id ∧ runtime = { task := some (step, state.snapshot) }) ∨
        state.background[id]? = some runtime := by
    intro id runtime found
    simp only [Agent.startBackgroundStep, Std.ExtTreeMap.getElem?_insert] at found
    split at found
    · next same =>
        cases compare_eq_iff_eq.mp same
        exact .inl ⟨rfl, (Option.some.inj found).symm⟩
    · exact .inr found
  constructor
  case recorded =>
    constructor
    case ordered =>
      exact List.nodup_append.mpr ⟨ready.recorded.ordered, List.nodup_singleton _,
        fun one member two isNew => by
          cases List.mem_singleton.mp isNew
          exact fun same => absent (same ▸ member)⟩
    case known =>
      intro id
      simp only [Agent.startBackgroundStep, List.mem_append, List.mem_singleton,
        Std.ExtTreeMap.getElem?_insert, ready.recorded.known id]
      by_cases same : step.id = id
      · simp [same]
      · have differ : id ≠ step.id := fun equal => same equal.symm
        simp [same, differ]
    case stages =>
      intro id runtime found
      rcases lookup found with ⟨rfl, rfl⟩ | older
      · exact .pending notMerged
      · exact ready.recorded.stages older
    case once => exact ready.recorded.once
    case entries =>
      intro entry member merged
      obtain ⟨runtime, found, concluded⟩ := ready.recorded.entries entry member merged
      have differ : step.id ≠ entry.stepId := fun same =>
        notMerged (same ▸ mem_merges_of_mem member merged)
      exact ⟨runtime, by simp [Agent.startBackgroundStep, Std.ExtTreeMap.getElem?_insert, differ,
        found], concluded⟩
  case accounted =>
    exact ⟨ready.accounted.going, ready.accounted.status, ready.accounted.fails,
      ready.accounted.kept, ready.accounted.waits, ready.accounted.controls⟩
  case told =>
    intro id runtime found ended
    rcases lookup found with ⟨-, rfl⟩ | older
    · cases ended
    · exact ready.told id runtime older ended
  case settled =>
    intro id runtime found marked
    rcases lookup found with ⟨-, rfl⟩ | older
    · cases marked
    · exact ready.settled id runtime older marked
  case distinct => exact (List.nodup_cons.mp ready.distinct).2
  case fresh =>
    intro later member
    simp only [Agent.startBackgroundStep, List.mem_append, List.mem_singleton, not_or]
    exact ⟨ready.fresh later (List.mem_cons_of_mem _ member), ready.later_ne member⟩

theorem Ready.foregroundStep (quiet : Quiet world) (ready : Ready state (step :: rest)) :
    Ready (foregroundStep world step state) rest := by
  have notCancelled := quiet.execute step state.snapshot
  constructor
  case recorded => exact ready.recorded.conclude rfl rfl rfl (by simp)
  case accounted =>
    refine ready.accounted.conclude ?_ rfl rfl (by simp) notCancelled (by simp)
    have running : statusAfter (world.execute step state.snapshot).execution.conclusion
        state.status ≠ .cancelled := by
      cases conclusion : (world.execute step state.snapshot).execution.conclusion with
      | cancelled => exact absurd conclusion notCancelled
      | failure => simp [statusAfter]
      | timedOut => simp [statusAfter]
      | _ => rcases ready.accounted.status with same | same <;> simp [statusAfter, same]
    simp [Agent.foregroundStep, running, quiet.timeout step]
  case told => exact ready.told
  case settled => exact ready.settled
  case distinct => exact (List.nodup_cons.mp ready.distinct).2
  case fresh => exact fun later member => ready.fresh later (List.mem_cons_of_mem _ member)

/-- What one step of the job does, in a run without a cancellation or a timeout. -/
theorem round_cases (quiet : Quiet world) (going : state.stopped = false) (step : PlannedStep) :
    (∃ targets, targetIds state step.kind = some targets ∧
      round world state step = controlStep world step targets state) ∨
    (targetIds state step.kind = none ∧
      (round world state step = Agent.startBackgroundStep step state ∨
        round world state step = Agent.foregroundStep world step state)) := by
  simp only [round, going, quiet.cancel step, Bool.false_eq_true, if_false]
  cases isTargets : targetIds state step.kind with
  | some targets => exact .inl ⟨targets, rfl, rfl⟩
  | none =>
      refine .inr ⟨rfl, ?_⟩
      by_cases background : world.isBackground step state.snapshot = true
      · exact .inl (by simp [background])
      · exact .inr (by simp [background])

theorem Ready.round (quiet : Quiet world) (ready : Ready state (step :: rest))
    (calm : Calm state step) : Ready (round world state step) rest := by
  rcases round_cases quiet ready.accounted.going step with ⟨targets, isTargets, same⟩ |
    ⟨-, same | same⟩
  · rw [same]
    exact ready.control quiet calm isTargets
  · rw [same]
    exact ready.startBackgroundStep
  · rw [same]
    exact ready.foregroundStep quiet

end Ordinary

/-- A calm run of the loop keeps the invariant. -/
theorem Ready.run (quiet : Quiet world) {steps rest : List PlannedStep}
    (ready : Ready state (steps ++ rest))
    (calm : Machine.Along (Agent.round world) Calm state steps) :
    Ready (Machine.run (Agent.round world) state steps) rest := by
  induction steps generalizing state with
  | nil => exact ready
  | cons step steps inductionHypothesis =>
      exact inductionHypothesis (ready.round quiet calm.1) calm.2

/-! ### The end of the job -/

theorem Recorded.unflushed_eq (recorded : Recorded state) : state.unflushed = waiting state := by
  apply List.filter_congr
  intro id started
  obtain ⟨runtime, found⟩ := (recorded.known id).mp started
  cases recorded.stages found with
  | pending absent => simp [found, absent]
  | joined member => simp [found, mem_merges_of_mem member rfl]

theorem due_self {waiting : List String} (nodup : waiting.Nodup) :
    due waiting waiting = waiting := by
  induction waiting with
  | nil => rfl
  | cons id ids inductionHypothesis =>
      rw [due, if_pos List.mem_cons_self, List.erase_cons_head,
        inductionHypothesis (List.nodup_cons.mp nodup).2]

/-- The status of a job tells whether a step has failed. -/
structure Counted (state : JobState Post) : Prop where
  status : state.status = .success ∨ state.status = .failure
  failure_iff : state.status = .failure ↔ ∃ entry ∈ state.journal, entry.conclusion.failed = true
  waits : ∀ entry ∈ state.journal, entry.kind = .control → entry.conclusion.failed = true →
    ∃ other ∈ state.journal, other.kind = .merged ∧ other.conclusion.failed = true
  controls : ∀ entry ∈ state.journal, entry.kind = .control → entry.conclusion ≠ .cancelled

theorem mem_backgroundConclusions {conclusion : JobConclusion} :
    conclusion ∈ backgroundConclusions state ↔ ∃ id ∈ state.backgroundOrder, ∃ runtime,
      state.background[id]? = some runtime ∧ runtime.conclusion = some conclusion ∧
        ¬ (runtime.explicitlyCancelled = true ∧ conclusion = .cancelled) := by
  rw [backgroundConclusions, List.mem_filterMap]
  apply exists_congr
  intro id
  apply and_congr_right
  intro _
  cases found : state.background[id]? with
  | none => simp
  | some runtime =>
      cases concluded : runtime.conclusion with
      | none => simp [concluded]
      | some stored =>
          simp only [concluded, Option.some.injEq, exists_eq_left']
          split
          · next neutral =>
              constructor
              · intro impossible
                cases impossible
              · intro ⟨same, notNeutral⟩
                subst same
                exact absurd (by simpa using neutral) notNeutral
          · next kept =>
              constructor
              · intro same
                cases same
                exact ⟨rfl, by simpa using kept⟩
              · intro ⟨same, _⟩
                rw [same]

theorem Told.not_mem_cancelled (told : Told state) :
    JobConclusion.cancelled ∉ backgroundConclusions state := by
  intro member
  obtain ⟨id, -, runtime, found, ended, notNeutral⟩ := mem_backgroundConclusions.mp member
  exact notNeutral ⟨told id runtime found ended, rfl⟩

/-- Whether a background step failed, as the drain sees it. -/
theorem Recorded.failed_iff (recorded : Recorded state) :
    (backgroundWaitConclusion (backgroundConclusions state)).failed = true ↔
      ∃ entry ∈ state.journal, entry.kind = .merged ∧ entry.conclusion.failed = true := by
  rw [backgroundWaitConclusion_failed]
  constructor
  · intro ⟨conclusion, member, failed⟩
    obtain ⟨id, -, runtime, found, concluded, -⟩ := mem_backgroundConclusions.mp member
    have failing : (conclusionOf state id).failed = true := by
      simpa [conclusionOf, found, concluded] using failed
    exact recorded.exists_failed failing
  · intro ⟨entry, member, merged, failed⟩
    obtain ⟨runtime, found, concluded⟩ := recorded.entries entry member merged
    refine ⟨entry.conclusion, mem_backgroundConclusions.mpr ⟨entry.stepId,
      (recorded.known _).mpr ⟨runtime, found⟩, runtime, found, concluded, ?_⟩, failed⟩
    intro neutral
    rw [neutral.2] at failed
    cases failed

theorem Counted.of_drain (recorded : Recorded state) (accounted : Accounted state)
    (told : Told state) {status : ExecutionStatus}
    (isStatus : status = statusAfter (backgroundWaitConclusion (backgroundConclusions state))
      state.status) : Counted { state with status } := by
  have changes : ((backgroundWaitConclusion (backgroundConclusions state)).failed = true ∧
      status = .failure) ∨
      ((backgroundWaitConclusion (backgroundConclusions state)).failed = false ∧
        status = state.status) := by
    rw [isStatus]
    cases conclusion : backgroundWaitConclusion (backgroundConclusions state) with
    | cancelled =>
        exact absurd (mem_of_backgroundWaitConclusion_cancelled conclusion) told.not_mem_cancelled
    | _ => simp [statusAfter, JobConclusion.failed]
  constructor
  case status =>
    rcases changes with ⟨-, isFailure⟩ | ⟨-, same⟩
    · exact .inr isFailure
    · exact same ▸ accounted.status
  case failure_iff =>
    constructor
    · intro isFailure
      rcases changes with ⟨failed, -⟩ | ⟨-, same⟩
      · obtain ⟨entry, member, -, isFailed⟩ := recorded.failed_iff.mp failed
        exact ⟨entry, member, isFailed⟩
      · exact accounted.fails (same ▸ isFailure)
    · rintro ⟨entry, member, failed⟩
      rcases changes with ⟨-, isFailure⟩ | ⟨succeeded, same⟩
      · exact isFailure
      · by_cases merged : entry.kind = .merged
        · rw [recorded.failed_iff.mpr ⟨entry, member, merged, failed⟩] at succeeded
          cases succeeded
        · exact same.trans (accounted.kept entry member failed merged)
  case waits => exact accounted.waits
  case controls => exact accounted.controls

variable (world) in
theorem Counted.runPosts (counted : Counted state) (posts : List Post) :
    Counted (runPosts world posts state) ∧
      merges (runPosts world posts state).journal = merges state.journal := by
  induction posts generalizing state with
  | nil => exact ⟨counted, rfl⟩
  | cons post posts inductionHypothesis =>
      unfold Agent.runPosts
      split
      · exact ⟨counted, rfl⟩
      · split
        · exact inductionHypothesis counted
        · next conclusion environment _ =>
            have next : Counted { state with
                environment
                status := if conclusion.failed then .failure else state.status
                journal := state.journal ++ [{ kind := .post, conclusion }] } := by
              constructor
              case status =>
                dsimp only
                split
                · exact .inr rfl
                · exact counted.status
              case failure_iff =>
                cases failed : conclusion.failed with
                | true => simp [failed]
                | false => simpa [failed, or_and_right, exists_or] using counted.failure_iff
              case waits =>
                intro entry member isControl isFailed
                rcases List.mem_append.mp member with older | newest
                · obtain ⟨other, inside, merged⟩ := counted.waits entry older isControl isFailed
                  exact ⟨other, List.mem_append_left _ inside, merged⟩
                · cases List.mem_singleton.mp newest
                  cases isControl
              case controls =>
                intro entry member isControl
                rcases List.mem_append.mp member with older | newest
                · exact counted.controls entry older isControl
                · cases List.mem_singleton.mp newest
                  cases isControl
            have sameMerges : merges (state.journal ++ [{ kind := .post, conclusion }]) =
                merges state.journal := merges_append_other _ (by simp)
            dsimp only
            split
            · exact ⟨next, sameMerges⟩
            · obtain ⟨ended, endedMerges⟩ := inductionHypothesis next
              exact ⟨ended, endedMerges.trans sameMerges⟩

/-! ### Every run -/

/-- The job after a part of its steps. -/
def loop (world : World Post) (environment : BTreeMap String) (steps : List PlannedStep) :
    JobState Post :=
  Machine.run (Agent.round world) { environment } steps

/-- `after` is `before` with the steps `ids` merged, each once and in this order; `marked` is
`before` with the marks of a `cancel` step. -/
structure Merged (world : World Post) (before marked after : JobState Post) (ids : List String) :
    Prop where
  merges : merges after.journal = merges before.journal ++ ids
  environment : after.environment = (ids.foldl (joinTask world) marked).environment
  posts : after.posts = (ids.foldl (joinTask world) marked).posts
  summary : after.summary = (ids.foldl (joinTask world) marked).summary
  outputs : ∀ id ∈ ids, after.steps[id]? = (ids.foldl (joinTask world) marked).steps[id]?

/-- The law of background steps, for one execution of a job. -/
structure BackgroundLaw (world : World Post) (environment : BTreeMap String)
    (steps : List PlannedStep) : Prop where
  /-- A control step merges the named steps that wait. -/
  control : ∀ before step after targets, steps = before ++ step :: after →
    targetIds (loop world environment before) step.kind = some targets →
    Merged world (loop world environment before)
      (markTargets step targets (loop world environment before))
      (loop world environment (before ++ [step]))
      (due (waiting (loop world environment before)) targets)
  /-- No other step merges one. -/
  other : ∀ before step after, steps = before ++ step :: after →
    targetIds (loop world environment before) step.kind = none →
    merges (loop world environment (before ++ [step])).journal =
      merges (loop world environment before).journal
  /-- The drain merges the rest, in the order in which they were started. -/
  drained : Merged world (loop world environment steps) (loop world environment steps)
    (drain world (loop world environment steps)) (waiting (loop world environment steps))
  once : (merges (executeSteps world steps environment).1.journal).Nodup
  all : ∀ id, id ∈ merges (executeSteps world steps environment).1.journal ↔
    id ∈ (loop world environment steps).backgroundOrder
  /-- A wait never makes a job fail by itself, nor be cancelled. -/
  neutral : ∀ entry ∈ (executeSteps world steps environment).1.journal, entry.kind = .control →
    entry.conclusion ≠ .cancelled ∧ (entry.conclusion.failed = true →
      ∃ other ∈ (executeSteps world steps environment).1.journal,
        other.kind = .merged ∧ other.conclusion.failed = true)
  outcome : (executeSteps world steps environment).2 =
    if (executeSteps world steps environment).1.journal.any (·.conclusion.failed) then .failure
    else .success

theorem mem_of_mem_due {waiting ids : List String} (member : id ∈ due waiting ids) :
    id ∈ waiting := by
  induction ids generalizing waiting with
  | nil => cases member
  | cons head ids inductionHypothesis =>
      rw [due] at member
      split at member
      · next waits =>
          rcases List.mem_cons.mp member with same | later
          · exact same ▸ waits
          · exact List.mem_of_mem_erase (inductionHypothesis later)
      · exact inductionHypothesis member

theorem Ready.merged_control {step : PlannedStep} {rest : List PlannedStep}
    {targets : List String} (ready : Ready state (step :: rest))
    (isTargets : targetIds state step.kind = some targets) :
    Merged world state (markTargets step targets state) (controlStep world step targets state)
      (due (waiting state) targets) := by
  have marks := marks_markTargets isTargets
  have recorded := ready.recorded.mark marks
  have folded := flush_eq_foldl world recorded targets
  rw [marks.waiting_eq] at folded
  obtain ⟨outcome, conclusion, -, -, same⟩ := controlStep_eq world state step targets
  rw [same]
  constructor
  case merges =>
    rw [merges_append_other _ (by simp), merges_flush world recorded, marks.waiting_eq, marks.same]
  case environment => rw [← folded]
  case posts => rw [← folded]
  case summary => rw [← folded]
  case outputs =>
    intro id member
    have started := (mem_waiting.mp (mem_of_mem_due member)).1
    have differ : step.id ≠ id := fun equal =>
      ready.fresh step List.mem_cons_self (equal ▸ started)
    rw [← folded]
    simp [Std.ExtTreeMap.getElem?_insert, differ]

variable (world) in
theorem Recorded.merged_drain (recorded : Recorded state) :
    Merged world state state (drain world state) (waiting state) := by
  have folded := flush_eq_foldl world recorded state.unflushed
  have merged := merges_flush world recorded state.unflushed
  rw [recorded.unflushed_eq, due_self recorded.waiting_nodup] at folded merged
  simp only [drain, recorded.unflushed_eq]
  exact ⟨merged, by rw [← folded], by rw [← folded], by rw [← folded], by rw [← folded]; simp⟩

/-- The job once its background steps are drained. -/
theorem Ready.counted (quiet : Quiet world) (ready : Ready state []) :
    Recorded (drain world state) ∧ Counted (drain world state) ∧
      (drain world state).backgroundOrder = state.backgroundOrder := by
  have recorded := ready.recorded.flush world state.unflushed
  refine ⟨⟨recorded.ordered, recorded.known, recorded.stages, recorded.once, recorded.entries⟩,
    ?_, (flush_frame world state.unflushed state).1⟩
  exact Counted.of_drain recorded (ready.accounted.flush world ready.recorded state.unflushed)
    (Told.flush quiet ready.recorded ready.told state.unflushed) rfl

theorem Counted.outcome_eq (counted : Counted state) :
    state.outcome = if state.journal.any (·.conclusion.failed) then .failure else .success := by
  rcases counted.status with success | failure
  · have none : state.journal.any (·.conclusion.failed) = false := by
      rw [List.any_eq_false]
      intro entry member failed
      have isFailure := counted.failure_iff.mpr ⟨entry, member, failed⟩
      rw [success] at isFailure
      cases isFailure
    simp [JobState.outcome, success, none]
  · have some : state.journal.any (·.conclusion.failed) = true :=
      List.any_eq_true.mpr (counted.failure_iff.mp failure)
    simp [JobState.outcome, failure, some]

/-- In a job that is neither cancelled nor timed out, and whose waits name no step that was
cancelled and ended so: every background step is merged once, by the control step that names it or
by the drain, a wait never makes the job fail or be cancelled by itself, and the job concludes as
its steps do. -/
theorem background_law (world : World Post) (environment : BTreeMap String)
    (steps : List PlannedStep) (quiet : Quiet world) (distinct : (steps.map (·.id)).Nodup)
    (calm : Machine.Along (Agent.round world) Calm { environment } steps) :
    BackgroundLaw world environment steps := by
  have readyAt : ∀ {before rest : List PlannedStep}, steps = before ++ rest →
      Ready (loop world environment before) rest := by
    intro before rest split
    subst split
    exact (Ready.start distinct).run quiet (Machine.Along.append.mp calm).1
  have next : ∀ {before : List PlannedStep} {step : PlannedStep},
      loop world environment (before ++ [step]) =
        Agent.round world (loop world environment before) step := by
    intro before step
    exact Machine.run_append (Agent.round world) _ before [step]
  have readyEnd : Ready (loop world environment steps) [] := readyAt (List.append_nil steps).symm
  obtain ⟨recorded, counted, order⟩ := readyEnd.counted quiet
  have merged := readyEnd.recorded.merged_drain world
  obtain ⟨ended, endedMerges⟩ := counted.runPosts world
    (drain world (loop world environment steps)).posts.reverse
  have result : executeSteps world steps environment =
      (runPosts world (drain world (loop world environment steps)).posts.reverse
        (drain world (loop world environment steps)),
       (runPosts world (drain world (loop world environment steps)).posts.reverse
        (drain world (loop world environment steps))).outcome) := by
    simp only [executeSteps, quiet.drain, quiet.ending]
    rfl
  constructor
  case control =>
    intro before step after targets split isTargets
    have ready := readyAt split
    rcases round_cases quiet ready.accounted.going step with ⟨found, isFound, same⟩ | ⟨absent, -⟩
    · rw [isTargets] at isFound
      cases isFound
      rw [next, same]
      exact ready.merged_control isTargets
    · rw [isTargets] at absent
      cases absent
  case other =>
    intro before step after split isNone
    have ready := readyAt split
    rcases round_cases quiet ready.accounted.going step with ⟨found, isFound, -⟩ |
      ⟨-, same | same⟩
    · rw [isNone] at isFound
      cases isFound
    · rw [next, same]
      rfl
    · rw [next, same]
      exact merges_append_other _ (by simp)
  case drained => exact merged
  case once =>
    rw [result, endedMerges]
    exact recorded.once
  case all =>
    intro id
    rw [result, endedMerges, ← order]
    refine ⟨fun inside => recorded.started inside, fun started => ?_⟩
    rw [merged.merges, List.mem_append]
    by_cases earlier : id ∈ merges (loop world environment steps).journal
    · exact .inl earlier
    · exact .inr (mem_waiting.mpr ⟨order ▸ started, earlier⟩)
  case neutral =>
    rw [result]
    exact fun entry member isControl =>
      ⟨ended.controls entry member isControl, ended.waits entry member isControl⟩
  case outcome =>
    rw [result]
    exact ended.outcome_eq

end Steps

/-! ### The ids of the steps of a compiled job -/

section Ids

variable {workflow jobId : String}

/-- The compiler rejects a job with two steps of one id. -/
theorem compileSteps_distinct {source : List Step} {shell directory : Option String}
    {steps : List PlannedStep}
    (ran : compileSteps workflow jobId source shell directory = .ok steps) :
    (steps.map (·.id)).Nodup := by
  have distinct := (compileSteps_sound ran).1
  rw [show (fun step : PlannedStep => toAsciiLowercase step.id) =
    toAsciiLowercase ∘ (·.id) from rfl, ← List.map_map] at distinct
  exact distinct.of_map

end Ids

namespace Sample

/-- A background step that ends as it is told to, and fails otherwise. -/
def monitor : PlannedStep where
  id := "monitor"
  githubAction := "__run"
  name := "monitor"
  background := some "true"
  kind := .run "bash" "tail -f log"

def cancelMonitor : PlannedStep where
  id := "stop"
  githubAction := "__cancel"
  name := "stop"
  kind := .cancel "monitor"

def waitMonitor : PlannedStep where
  id := "wait"
  githubAction := "__wait"
  name := "wait"
  kind := .wait ["monitor"]

def monitored : World Unit where
  isBackground step _ := step.background.isSome
  continueOnError _ _ := false
  execute _ snapshot := ⟨⟨.success, .success, ∅, true⟩, snapshot.environment, [], {}⟩
  complete _ snapshot told :=
    let conclusion := if told then .cancelled else .failure
    ⟨⟨conclusion, conclusion, ∅, true⟩, snapshot.environment, [], {}⟩
  runPost _ _ := none
  cancelRequested _ := false
  timedOutAfter _ := false
  timedOutAfterDrain := false
  timedOutAfterPost _ := false
  timedOutAtEnd := false
  path := none

theorem monitored_quiet : Quiet monitored where
  cancel _ := rfl
  timeout _ := rfl
  drain := rfl
  posts _ := rfl
  ending := rfl
  execute _ _ := by simp [monitored]
  complete _ _ := by simp [monitored]

/-- A wait for a step that was cancelled before makes the job cancelled, although no step
failed. -/
theorem waited_cancel_cancels_job :
    Quiet monitored ∧ ¬ BackgroundLaw monitored ∅ [monitor, cancelMonitor, waitMonitor] := by
  refine ⟨monitored_quiet, fun law => ?_⟩
  have outcome := law.outcome
  revert outcome
  decide

theorem waited_monitor_calm :
    Machine.Along (round monitored) Calm { environment := ∅ } [monitor, waitMonitor] := by
  refine ⟨fun stepIds isWait => by simp [monitor] at isWait, ?_, trivial⟩
  intro stepIds _ id _ runtime found both
  change (startBackgroundStep monitor { environment := ∅ }).background[id]? = some runtime at found
  simp only [startBackgroundStep, Std.ExtTreeMap.getElem?_insert] at found
  split at found
  · cases found
    cases both.1
  · simp at found

/-- A job that waits for the failing step instead. -/
theorem waited_monitor_law :
    (executeSteps monitored [monitor, waitMonitor] ∅).2 = .failure ∧
      BackgroundLaw monitored ∅ [monitor, waitMonitor] :=
  ⟨by decide, background_law monitored ∅ [monitor, waitMonitor] monitored_quiet
    (by decide) waited_monitor_calm⟩

end Sample

end GitZero.Agent
