/-
Module: GitZero.Proofs.StepIds
Purpose: The ids of the steps of a job: when the compiler finds one duplicated, and what
  the control steps refer to.
Trusted boundary: none
Main exports: IdsSound, compileSteps_sound, Slot, slots, givenIds, Clashes, StepIdsLaw,
  step_ids_law_iff, generated_id_rejects_job
-/
import Std.Data.String.ToNat
import GitZero.Lib.OrderedMaps
import GitZero.Lib.Outcomes
import GitZero.Workflow.Steps

namespace GitZero.Workflows

open Outcomes

section Steps

variable {workflow jobId : String}

/-! ### What compiled steps refer to -/

/-- The step is started in the background, or may be. -/
def PlannedStep.mayRunBehind (step : PlannedStep) : Prop :=
  step.background.isSome = true ∧ step.background ≠ some "false"

/-- The ids that a `wait` or a `cancel` names. -/
def StepKind.refersTo : StepKind → List String
  | .wait ids => ids
  | .cancel id => [id]
  | _ => []

/-- Every id that a step refers to is that of a background step before it. -/
def ReferencesBack (steps : List PlannedStep) : Prop :=
  ∀ before step after, steps = before ++ step :: after → ∀ id ∈ step.kind.refersTo,
    ∃ earlier ∈ before, earlier.id = id ∧ earlier.mayRunBehind

/-- What holds of the steps compiled so far. -/
structure IdsSound (soFar : StepsSoFar) : Prop where
  listed : ∀ step ∈ soFar.steps, toAsciiLowercase step.id ∈ soFar.stepIds
  distinct : (soFar.steps.map fun step => toAsciiLowercase step.id).Nodup
  background : ∀ (key : String) id, soFar.backgroundIds[key]? = some id →
    ∃ step ∈ soFar.steps, step.id = id ∧ step.mayRunBehind
  references : ReferencesBack soFar.steps

theorem registerStepId_ok {stepId : String} {soFar after : StepsSoFar}
    (ran : registerStepId workflow jobId stepId soFar = .ok after) :
    toAsciiLowercase stepId ∉ soFar.stepIds ∧
      after = { soFar with stepIds := insert (toAsciiLowercase stepId) soFar.stepIds } := by
  unfold registerStepId at ran
  split at ran
  · cases ran
  · rename_i absent
    exact ⟨absent, (Except.ok.inj ran).symm⟩

theorem ReferencesBack.append {steps : List PlannedStep} (references : ReferencesBack steps)
    {step : PlannedStep} (known : ∀ id ∈ step.kind.refersTo,
      ∃ earlier ∈ steps, earlier.id = id ∧ earlier.mayRunBehind) :
    ReferencesBack (steps ++ [step]) := by
  intro before middle after split
  rcases List.append_eq_append_iff.mp split with ⟨front, same, rest⟩ | ⟨back, same, rest⟩
  · cases front with
    | nil =>
        simp only [List.append_nil] at same
        cases rest
        exact same ▸ known
    | cons head tail => simp at rest
  · cases back with
    | nil =>
        simp only [List.append_nil] at same
        cases rest
        exact same ▸ known
    | cons head tail =>
        cases rest
        exact references before middle tail same

/-- A step with a new id, which names background steps only. -/
theorem IdsSound.push {soFar after : StepsSoFar} (sound : IdsSound soFar) {step : PlannedStep}
    {stepId : String} (absent : toAsciiLowercase stepId ∉ soFar.stepIds)
    (stepIds : after.stepIds = insert (toAsciiLowercase stepId) soFar.stepIds)
    (steps : after.steps = soFar.steps ++ [step]) (isId : step.id = stepId)
    (background : ∀ (key : String) id, after.backgroundIds[key]? = some id →
      soFar.backgroundIds[key]? = some id ∨ (id = stepId ∧ step.mayRunBehind))
    (known : ∀ id ∈ step.kind.refersTo,
      ∃ earlier ∈ soFar.steps, earlier.id = id ∧ earlier.mayRunBehind) :
    IdsSound after := by
  subst isId
  constructor
  case listed =>
    intro other member
    rw [steps] at member
    rw [stepIds, Finset.mem_insert]
    rcases List.mem_append.mp member with older | newest
    · exact .inr (sound.listed other older)
    · cases List.mem_singleton.mp newest
      exact .inl rfl
  case distinct =>
    rw [steps, List.map_append, List.nodup_append]
    refine ⟨sound.distinct, List.nodup_singleton _, ?_⟩
    intro one inside two isNew same
    obtain ⟨older, member, rfl⟩ := List.mem_map.mp inside
    cases List.mem_singleton.mp isNew
    change toAsciiLowercase older.id = toAsciiLowercase step.id at same
    exact absent (same ▸ sound.listed older member)
  case background =>
    intro key id found
    rw [steps]
    rcases background key id found with older | ⟨rfl, behind⟩
    · obtain ⟨other, member, rest⟩ := sound.background key id older
      exact ⟨other, List.mem_append_left _ member, rest⟩
    · exact ⟨step, List.mem_append_right _ (List.mem_singleton.mpr rfl), rfl, behind⟩
  case references =>
    rw [steps]
    exact sound.references.append known

theorem resolveBackgroundIds_mem {control : String} {ids resolved : List String}
    {backgroundIds : BTreeMap String}
    (ran : resolveBackgroundIds workflow jobId control ids backgroundIds = .ok resolved)
    {id : String} (member : id ∈ resolved) : ∃ key : String, backgroundIds[key]? = some id := by
  obtain ⟨named, -, found⟩ := forall₂_mem_right (mapM_eq_ok.mp ran) member
  split at found
  · rename_i known lookup
    cases found
    exact ⟨_, lookup⟩
  · cases found

theorem controlKind_refersTo {step : Step} {soFar : StepsSoFar} {kind : StepKind}
    {name action : String} (ran : controlKind workflow jobId step soFar = .ok (kind, name, action))
    {id : String} (member : id ∈ kind.refersTo) :
    ∃ key : String, soFar.backgroundIds[key]? = some id := by
  unfold controlKind at ran
  split at ran
  · obtain ⟨ids, resolved, same⟩ := bind_eq_ok.mp ran
    cases same
    exact resolveBackgroundIds_mem resolved member
  · split at ran
    · cases ran
      cases member
    · obtain ⟨cancelled, -, ran⟩ := bind_eq_ok.mp ran
      obtain ⟨ids, resolved, ran⟩ := bind_eq_ok.mp ran
      obtain ⟨first, isFirst, same⟩ := bind_eq_ok.mp ran
      cases same
      cases List.mem_singleton.mp member
      refine resolveBackgroundIds_mem resolved ?_
      cases ids with
      | nil => cases isFirst
      | cons head tail =>
          cases isFirst
          exact List.mem_cons_self

theorem ordinaryKind_refersTo {step : Step} {stepName : String} {shell : Option String}
    {kind : StepKind} (ran : ordinaryKind workflow jobId step stepName shell = .ok kind) :
    kind.refersTo = [] := by
  unfold ordinaryKind at ran
  split at ran
  · split at ran
    · cases ran
      rfl
    · cases ran
  · split at ran
    · cases ran
      rfl
    · cases ran
      rfl
  · cases ran

/-- A background step with an id of its own is noted under that id. -/
theorem noted_eq_some {backgroundIds : BTreeMap String} {noted : Bool} {stepId key id : String}
    (found : (if noted then backgroundIds.insert (toAsciiLowercase stepId) stepId
      else backgroundIds)[key]? = some id) :
    backgroundIds[key]? = some id ∨ (id = stepId ∧ noted = true) := by
  cases noted with
  | false => exact .inl found
  | true =>
      rw [if_pos rfl, Std.ExtTreeMap.getElem?_insert] at found
      split at found
      · exact .inr ⟨(Option.some.inj found).symm, rfl⟩
      · exact .inl found

theorem IdsSound.single {step : Step} {parallelBackground : Bool}
    {shell directory : Option String} {soFar after : StepsSoFar} {id : String}
    (sound : IdsSound soFar)
    (ran : compileSingleStep workflow jobId step parallelBackground shell directory soFar =
      .ok (id, after)) :
    IdsSound after ∧ ∃ planned, after.steps = soFar.steps ++ [planned] ∧ planned.id = id ∧
      (parallelBackground = true → planned.mayRunBehind) := by
  unfold compileSingleStep at ran
  dsimp only at ran
  split at ran
  · unfold compileControlStep at ran
    split at ran
    · cases ran
    · rename_i standalone
      obtain ⟨⟨kind, name, action⟩, isKind, ran⟩ := bind_eq_ok.mp ran
      obtain ⟨noted, isNoted, ran⟩ := bind_eq_ok.mp ran
      obtain ⟨absent, rfl⟩ := registerStepId_ok isNoted
      cases ran
      refine ⟨sound.push absent rfl rfl rfl (fun key id => .inl) ?_, _, rfl, rfl, ?_⟩
      · intro id member
        obtain ⟨key, found⟩ := controlKind_refersTo isKind member
        exact sound.background key id found
      · rintro rfl
        simp at standalone
  · unfold compileOrdinaryStep at ran
    obtain ⟨noted, isNoted, ran⟩ := bind_eq_ok.mp ran
    obtain ⟨absent, rfl⟩ := registerStepId_ok isNoted
    split at ran
    · cases ran
    · obtain ⟨kind, isKind, ran⟩ := bind_eq_ok.mp ran
      cases ran
      refine ⟨sound.push absent rfl rfl rfl ?_ ?_, _, rfl, rfl, ?_⟩
      · intro key id found
        rcases noted_eq_some found with older | ⟨same, noted⟩
        · exact .inl older
        · refine .inr ⟨same, ?_⟩
          rw [Bool.and_eq_true, Bool.and_eq_true, decide_eq_true_eq] at noted
          exact ⟨noted.2, noted.1.2⟩
      · rw [ordinaryKind_refersTo isKind]
        intro id member
        cases member
      · rintro rfl
        exact ⟨rfl, by simp⟩

theorem IdsSound.parallel {shell directory : Option String} {children : List Step}
    {start stop : List String × StepsSoFar} (sound : IdsSound start.2)
    (known : ∀ id ∈ start.1, ∃ step ∈ start.2.steps, step.id = id ∧ step.mayRunBehind)
    (ran : children.foldlM (compileParallelEntry workflow jobId shell directory) start =
      .ok stop) :
    IdsSound stop.2 ∧ ∀ id ∈ stop.1, ∃ step ∈ stop.2.steps, step.id = id ∧ step.mayRunBehind := by
  induction children generalizing start with
  | nil =>
      cases pure_eq_ok.mp ran
      exact ⟨sound, known⟩
  | cons child children inductionHypothesis =>
      obtain ⟨middle, isMiddle, rest⟩ := foldlM_cons_eq_ok.mp ran
      unfold compileParallelEntry at isMiddle
      split at isMiddle
      · cases isMiddle
      · obtain ⟨_, -, isMiddle⟩ := bind_eq_ok.mp isMiddle
        obtain ⟨⟨id, after⟩, single, isMiddle⟩ := bind_eq_ok.mp isMiddle
        cases isMiddle
        obtain ⟨next, planned, steps, isId, behind⟩ := sound.single single
        refine inductionHypothesis next ?_ rest
        intro other member
        dsimp only
        rw [steps]
        rcases List.mem_append.mp member with older | newest
        · obtain ⟨step, inside, holds⟩ := known other older
          exact ⟨step, List.mem_append_left _ inside, holds⟩
        · cases List.mem_singleton.mp newest
          exact ⟨planned, List.mem_append_right _ (List.mem_singleton.mpr rfl), isId, behind rfl⟩

theorem IdsSound.step {shell directory : Option String} {step : Step} {soFar after : StepsSoFar}
    (sound : IdsSound soFar)
    (ran : compileStep workflow jobId shell directory soFar step = .ok after) :
    IdsSound after := by
  unfold compileStep at ran
  obtain ⟨_, -, ran⟩ := bind_eq_ok.mp ran
  split at ran
  · obtain ⟨⟨id, grouped⟩, isGroup, ran⟩ := bind_eq_ok.mp ran
    cases ran
    unfold compileParallelGroup at isGroup
    split at isGroup
    · cases isGroup
    · split at isGroup
      · cases isGroup
      · obtain ⟨⟨groupIds, compiled⟩, children, isGroup⟩ := bind_eq_ok.mp isGroup
        obtain ⟨entries, known⟩ := IdsSound.parallel
          ⟨sound.listed, sound.distinct, sound.background, sound.references⟩
          (by simp) children
        obtain ⟨noted, isNoted, isGroup⟩ := bind_eq_ok.mp isGroup
        obtain ⟨absent, rfl⟩ := registerStepId_ok isNoted
        cases isGroup
        exact entries.push absent rfl rfl rfl (fun key id => .inl) known
  · obtain ⟨⟨id, compiled⟩, single, ran⟩ := bind_eq_ok.mp ran
    cases ran
    exact (sound.single single).1

/-- The ids of compiled steps differ, and control steps refer to background steps before
them. -/
theorem compileSteps_sound {source : List Step} {shell directory : Option String}
    {steps : List PlannedStep}
    (compiled : compileSteps workflow jobId source shell directory = .ok steps) :
    (steps.map fun step => toAsciiLowercase step.id).Nodup ∧ ReferencesBack steps := by
  unfold compileSteps at compiled
  obtain ⟨soFar, folded, same⟩ := bind_eq_ok.mp compiled
  cases same
  suffices all : ∀ {start stop : StepsSoFar}, IdsSound start →
      source.foldlM (compileStep workflow jobId shell directory) start = .ok stop →
      IdsSound stop by
    have sound := all ⟨by simp, by simp, by simp, by simp [ReferencesBack]⟩ folded
    exact ⟨sound.distinct, sound.references⟩
  clear folded compiled
  induction source with
  | nil =>
      intro start stop sound stopped
      cases pure_eq_ok.mp stopped
      exact sound
  | cons step source inductionHypothesis =>
      intro start stop sound ran
      obtain ⟨middle, isMiddle, rest⟩ := foldlM_cons_eq_ok.mp ran
      exact inductionHypothesis (sound.step isMiddle) rest

/-! ### The ids that are given out -/

/-- What the compiler meets on its way through the steps: the head of a parallel group,
a step with its `parallel_background`, and the wait that ends a group. -/
inductive Slot where
  | group (step : Step) (children : List Step)
  | single (step : Step) (parallel : Bool)
  | wait (group : Nat)

/-- The slots of a step, if it is or comes before the parallel group of that number. -/
def Step.slots (group : Nat) (step : Step) : List Slot :=
  match step.parallel with
  | some children =>
      [.group step children] ++ (children.map (fun child => .single child true) ++ [.wait group])
  | none => [.single step false]

def slotsFrom (group : Nat) : List Step → List Slot
  | [] => []
  | step :: rest => step.slots group ++ slotsFrom (group + step.parallel.isSome.toNat) rest

/-- The places of the steps, each with its id or without. -/
def slots (source : List Step) : List Slot := slotsFrom 1 source

def Slot.isGroup : Slot → Bool
  | .group _ _ => true
  | _ => false

def Slot.isWait : Slot → Bool
  | .wait _ => true
  | _ => false

/-- The id of a slot, if so many steps have an id before it. -/
def Slot.id? (numbered : Nat) : Slot → Option String
  | .group _ _ => none
  | .single step _ => some (step.id.getD s!"step-{numbered + 1}")
  | .wait number => some s!"__parallel_{number}_wait"

/-- The ids of the slots, written or generated, in their order. -/
def givenIds (slots : List Slot) : List String :=
  slots.foldl (fun ids slot => ids ++ (slot.id? ids.length).toList) []

/-- The id that the workflow itself gives to a slot. -/
def Slot.explicitId? : Slot → Option String
  | .single step _ => step.id
  | _ => none

def explicitIds (slots : List Slot) : List String :=
  slots.filterMap Slot.explicitId?

def Step.isControl (step : Step) : Bool :=
  step.wait.isSome || step.extra.contains "wait-all" || step.cancel.isSome

/-- The id under which later control steps may name the slot. -/
def Slot.backgroundId? : Slot → Option String
  | .single step parallel =>
      let background := if parallel then some "true" else step.background
      if !step.isControl && background ≠ some "false" && background.isSome then step.id else none
  | _ => none

def backgroundIds (slots : List Slot) : List String :=
  slots.filterMap fun slot => slot.backgroundId?.map toAsciiLowercase

/-! ### The other reasons to reject a step -/

def Step.acceptsKeys (step : Step) : Bool :=
  step.extra.keys.all (· = "wait-all") && (step.extra["wait-all"]?).all Value.isNull

/-- A control step with one control field and no field of an ordinary step. -/
def Step.standsAlone (step : Step) (parallel : Bool) : Bool :=
  !(step.wait.isSome.toNat + (step.extra.contains "wait-all").toNat +
    step.cancel.isSome.toNat ≠ 1 ||
    parallel || step.run.isSome || step.uses.isSome || step.shell.isSome ||
    step.workingDirectory.isSome || !step.env.isEmpty || !step.inputs.isEmpty ||
    step.condition.isSome || step.timeoutMinutes.isSome || step.background.isSome)

/-- The background steps that a control step names are known. -/
def Step.namesKnown (step : Step) (known : List String) : Bool :=
  match step.wait with
  | some ids => ids.all fun id => toAsciiLowercase id ∈ known
  | none => "wait-all" ∈ step.extra || step.cancel.all fun id => toAsciiLowercase id ∈ known

/-- The slot is rejected before it gets its id. -/
def Slot.refused (known : List String) : Slot → Bool
  | .group step children =>
      !step.acceptsKeys || children.isEmpty || step.id.isSome || step.name.isSome ||
        step.run.isSome || step.uses.isSome || step.shell.isSome || step.workingDirectory.isSome ||
        !step.env.isEmpty || !step.inputs.isEmpty || step.condition.isSome ||
        step.continueOnError.isSome || step.timeoutMinutes.isSome || step.background.isSome ||
        step.wait.isSome || step.cancel.isSome || step.extra.contains "wait-all"
  | .single step parallel =>
      (parallel && (step.background.isSome || step.wait.isSome || step.cancel.isSome ||
        step.parallel.isSome || step.extra.contains "wait-all")) ||
        !step.acceptsKeys ||
          (step.isControl && !(step.standsAlone parallel && step.namesKnown known))
  | .wait _ => false

/-- The slot is rejected after it got its id. -/
def Slot.broken : Slot → Bool
  | .single step _ =>
      !step.isControl &&
        ((step.uses.isSome && (step.shell.isSome || step.workingDirectory.isSome)) ||
          !((step.run.isSome && step.uses.isNone && step.inputs.isEmpty) ||
            (step.run.isNone && step.uses.isSome)))
  | _ => false

/-- The id of the slot is taken, up to ASCII case, by a slot before it. -/
def Slot.clashes (before : List Slot) (slot : Slot) : Bool :=
  (slot.id? (givenIds before).length).any fun id =>
    toAsciiLowercase id ∈ (givenIds before).map toAsciiLowercase

/-- The slot is compiled after these. -/
def Slot.accepted (before : List Slot) (slot : Slot) : Bool :=
  !slot.refused (backgroundIds before) && !slot.clashes before && !slot.broken

/-- Every one of the slots is accepted after those before it. -/
def AllAccepted (before slots : List Slot) : Prop :=
  ∀ front other back, slots = front ++ other :: back → other.accepted (before ++ front) = true

/-- Some slot is given an id that an earlier one has, and no slot before it is rejected,
nor that one for another reason. -/
def Clashes (source : List Step) : Prop :=
  ∃ before slot after, slots source = before ++ slot :: after ∧
    AllAccepted [] before ∧ slot.refused (backgroundIds before) = false ∧ slot.clashes before = true

/-! ### How the compiler goes through the slots -/

/-- The failure of `register_step_id`. -/
def IsDuplicate (workflow jobId : String) (failure : Failure) : Prop :=
  ∃ id : String, failure =
    .error (.incompatible workflow jobId s!"step id '{id}' is duplicated")

/-- The other messages of the compiler begin in other ways. -/
theorem not_isDuplicate {text : String} (other : text.toList.take 6 ≠ "step i".toList) :
    ¬ IsDuplicate workflow jobId (.error (.incompatible workflow jobId text)) := by
  rintro ⟨id, same⟩
  cases same
  refine other ?_
  simp [toString]

/-- The compiler has given out the ids of these slots. -/
structure Tracks (before : List Slot) (soFar : StepsSoFar) : Prop where
  group : soFar.nextParallelGroup = before.countP Slot.isGroup + 1
  number : soFar.nextStepNumber = (givenIds before).length + 1
  ids : ∀ key, key ∈ soFar.stepIds ↔ key ∈ (givenIds before).map toAsciiLowercase
  background : ∀ key, key ∈ soFar.backgroundIds ↔ key ∈ backgroundIds before

/-- A part of the compilation has gone through its slots, or has stopped at the first
that is not accepted. -/
inductive Ended (workflow jobId : String) {α : Type} (before slots : List Slot)
    (outcome : Outcome α) (state : α → StepsSoFar) : Prop where
  | compiled (value : α) (ran : outcome = .ok value) (accepted : AllAccepted before slots)
      (tracks : Tracks (before ++ slots) (state value))
  | stopped (front : List Slot) (slot : Slot) (back : List Slot) (failure : Failure)
      (failed : outcome = .error failure) (split : slots = front ++ slot :: back)
      (accepted : AllAccepted before front) (rejected : slot.accepted (before ++ front) = false)
      (duplicate : IsDuplicate workflow jobId failure ↔
        slot.refused (backgroundIds (before ++ front)) = false ∧
          slot.clashes (before ++ front) = true)

theorem givenIds_append (slots : List Slot) (slot : Slot) :
    givenIds (slots ++ [slot]) = givenIds slots ++ (slot.id? (givenIds slots).length).toList := by
  simp [givenIds]

theorem backgroundIds_append (slots : List Slot) (slot : Slot) :
    backgroundIds (slots ++ [slot]) =
      backgroundIds slots ++ (slot.backgroundId?.map toAsciiLowercase).toList := by
  cases found : slot.backgroundId? <;> simp [backgroundIds, found]

theorem AllAccepted.append {before front back : List Slot} (first : AllAccepted before front)
    (later : AllAccepted (before ++ front) back) : AllAccepted before (front ++ back) := by
  intro early slot rest split
  rcases List.append_eq_append_iff.mp split with ⟨inner, same, inside⟩ | ⟨inner, same, inside⟩
  · rw [same, ← List.append_assoc]
    exact later inner slot rest inside
  · cases inner with
    | nil =>
        rw [List.append_nil] at same
        have accepted := later [] slot rest (by simpa using inside.symm)
        rw [List.append_nil, same] at accepted
        exact accepted
    | cons head tail =>
        obtain ⟨rfl, rfl⟩ := List.cons.inj inside
        exact first early slot tail same

theorem AllAccepted.single {before : List Slot} {slot : Slot}
    (accepted : slot.accepted before = true) : AllAccepted before [slot] := by
  intro front other back split
  cases front with
  | nil =>
      cases split
      rwa [List.append_nil]
  | cons head tail => simp at split

theorem allAccepted_nil (before : List Slot) : AllAccepted before [] := by
  intro front other back split
  simp at split

theorem Ended.after {α : Type} {before front back : List Slot} {outcome : Outcome α}
    {state : α → StepsSoFar} (accepted : AllAccepted before front)
    (ended : Ended workflow jobId (before ++ front) back outcome state) :
    Ended workflow jobId before (front ++ back) outcome state := by
  cases ended with
  | compiled value ran acceptedBack tracks =>
      exact .compiled value ran (accepted.append acceptedBack) (by rwa [← List.append_assoc])
  | stopped early slot rest failure failed split acceptedEarly rejected duplicate =>
      rw [List.append_assoc] at rejected duplicate
      exact .stopped (front ++ early) slot rest failure failed
        (by rw [split, List.append_assoc]) (accepted.append acceptedEarly) rejected duplicate

/-- The slots after the one that is rejected do not matter. -/
theorem Ended.earlier {α β : Type} {before front back : List Slot} {failure : Failure}
    {state : α → StepsSoFar} {stop : β → StepsSoFar}
    (ended : Ended workflow jobId before front (.error failure : Outcome α) state) :
    Ended workflow jobId before (front ++ back) (.error failure : Outcome β) stop := by
  cases ended with
  | compiled value ran accepted tracks => cases ran
  | stopped early slot rest failure failed split accepted rejected duplicate =>
      cases failed
      exact .stopped early slot (rest ++ back) _ rfl
        (by rw [split, List.append_assoc, List.cons_append]) accepted rejected duplicate

/-- Two parts of the compilation, one after the other. -/
theorem Ended.bind {α β : Type} {before front back : List Slot} {outcome : Outcome α}
    {state : α → StepsSoFar} {next : α → Outcome β} {stop : β → StepsSoFar}
    (first : Ended workflow jobId before front outcome state)
    (later : ∀ value, Tracks (before ++ front) (state value) →
      Ended workflow jobId (before ++ front) back (next value) stop) :
    Ended workflow jobId before (front ++ back) (outcome >>= next) stop := by
  cases outcome with
  | error failure => exact first.earlier
  | ok value =>
      cases first with
      | compiled value ran accepted tracks =>
          cases ran
          exact .after accepted (later _ tracks)
      | stopped early slot rest failure failed split accepted rejected duplicate => cases failed

theorem Ended.map {α β : Type} {before slots : List Slot} {outcome : Outcome α}
    {state : α → StepsSoFar} {change : α → β} {stop : β → StepsSoFar}
    (ended : Ended workflow jobId before slots outcome state)
    (same : ∀ value, stop (change value) = state value) :
    Ended workflow jobId before slots (outcome >>= fun value => pure (change value)) stop := by
  cases ended with
  | compiled value ran accepted tracks =>
      exact .compiled (change value) (by rw [ran]; rfl) accepted (same value ▸ tracks)
  | stopped front slot back failure failed split accepted rejected duplicate =>
      exact .stopped front slot back failure (by rw [failed]; rfl) split accepted rejected duplicate

/-- A slot that is rejected before it gets its id. -/
theorem Ended.refuse {α : Type} {before back : List Slot} {slot : Slot} {state : α → StepsSoFar}
    {failure : Failure} (refused : slot.refused (backgroundIds before) = true)
    (other : ¬ IsDuplicate workflow jobId failure) :
    Ended workflow jobId before (slot :: back) (.error failure) state :=
  .stopped [] slot back failure rfl rfl (allAccepted_nil before) (by simp [Slot.accepted, refused])
    (by simp [refused, other])

theorem checkStepKeys_cases (workflow jobId : String) (step : Step) :
    (checkStepKeys workflow jobId step = .ok () ∧ step.acceptsKeys = true) ∨
      ∃ failure, checkStepKeys workflow jobId step = .error failure ∧
        ¬ IsDuplicate workflow jobId failure ∧ step.acceptsKeys = false := by
  unfold checkStepKeys Step.acceptsKeys
  split
  · rename_i feature found
    refine .inr ⟨_, rfl, not_isDuplicate (by simp [toString]), ?_⟩
    have listed := List.mem_of_find?_eq_some found
    have other := List.find?_some found
    rw [Bool.and_eq_false_iff]
    refine .inl (Bool.eq_false_iff.mpr fun all => ?_)
    simp [List.all_eq_true.mp all feature listed |> of_decide_eq_true] at other
  · rename_i none
    have only : step.extra.keys.all (· = "wait-all") = true := by
      rw [List.find?_eq_none] at none
      simpa using none
    split
    · rename_i value found
      split
      · rename_i isNull
        exact .inl ⟨rfl, by simp [only, found, isNull]⟩
      · rename_i given
        exact .inr ⟨_, rfl, not_isDuplicate (by simp), by simp [found, given]⟩
    · rename_i absent
      exact .inl ⟨rfl, by simp [only, absent]⟩

theorem resolveBackgroundIds_cases (workflow jobId : String) {control : String}
    (named : control = "wait" ∨ control = "cancel")
    (ids : List String) {backgroundIds : BTreeMap String} {known : List String}
    (tracked : ∀ key, key ∈ backgroundIds ↔ key ∈ known) :
    (∃ resolved, resolveBackgroundIds workflow jobId control ids backgroundIds = .ok resolved ∧
        resolved.length = ids.length ∧ (ids.all fun id => toAsciiLowercase id ∈ known) = true) ∨
      ∃ failure, resolveBackgroundIds workflow jobId control ids backgroundIds = .error failure ∧
        ¬ IsDuplicate workflow jobId failure ∧
        (ids.all fun id => toAsciiLowercase id ∈ known) = false := by
  induction ids with
  | nil => exact .inl ⟨[], rfl, rfl, rfl⟩
  | cons id ids inductionHypothesis =>
      unfold resolveBackgroundIds at inductionHypothesis ⊢
      rw [List.mapM_cons]
      cases lookup : backgroundIds[toAsciiLowercase id]? with
      | none =>
          have unknown : toAsciiLowercase id ∉ known := by
            rw [← tracked, ← Std.ExtTreeMap.isSome_getElem?_iff_mem, lookup]
            simp
          refine .inr ⟨_, rfl, not_isDuplicate ?_, by simp [unknown]⟩
          rcases named with rfl | rfl <;> simp [toString]
      | some found =>
          have isKnown : toAsciiLowercase id ∈ known := by
            rw [← tracked, ← Std.ExtTreeMap.isSome_getElem?_iff_mem, lookup]
            rfl
          rcases inductionHypothesis with ⟨resolved, ran, length, all⟩ |
            ⟨failure, failed, other, some⟩
          · rw [ran]
            exact .inl ⟨found :: resolved, rfl, by simp [length], by simpa [isKnown] using all⟩
          · rw [failed]
            exact .inr ⟨failure, rfl, other, by simp [isKnown, some]⟩

/-- The kind of a control step that stands alone. -/
theorem controlKind_cases (workflow jobId : String) {step : Step} {soFar : StepsSoFar}
    {known : List String}
    (tracked : ∀ key, key ∈ soFar.backgroundIds ↔ key ∈ known)
    (control : step.isControl = true) :
    (∃ kind, controlKind workflow jobId step soFar = .ok kind ∧ step.namesKnown known = true) ∨
      ∃ failure, controlKind workflow jobId step soFar = .error failure ∧
        ¬ IsDuplicate workflow jobId failure ∧ step.namesKnown known = false := by
  unfold controlKind Step.namesKnown
  cases wait : step.wait with
  | some ids =>
      rcases resolveBackgroundIds_cases workflow jobId (.inl rfl) ids
        tracked with ⟨resolved, ran, -, all⟩ | ⟨failure, failed, other, some⟩
      · simp only [ran]
        exact .inl ⟨_, rfl, all⟩
      · simp only [failed]
        exact .inr ⟨failure, rfl, other, some⟩
  | none =>
      by_cases waitAll : "wait-all" ∈ step.extra
      · simp only [waitAll, if_true]
        exact .inl ⟨_, rfl, by simp⟩
      · have isCancel : step.cancel.isSome = true := by
          have absent : step.extra.contains "wait-all" = false :=
            Bool.eq_false_iff.mpr fun present =>
              waitAll (Std.ExtTreeMap.mem_iff_contains.mpr present)
          simpa [Step.isControl, wait, absent] using control
        obtain ⟨id, cancel⟩ := Option.isSome_iff_exists.mp isCancel
        simp only [waitAll, if_false, cancel]
        rcases resolveBackgroundIds_cases workflow jobId (.inr rfl) [id]
          tracked with ⟨resolved, ran, length, all⟩ | ⟨failure, failed, other, some⟩
        · cases resolved with
          | nil => cases length
          | cons first rest =>
              refine .inl ⟨(.cancel first, "Cancel background step", "__cancel"), ?_,
                by simpa using all⟩
              simp [expect, ran, bind, Except.bind, pure, Except.pure]
        · refine .inr ⟨failure, ?_, other, by simpa using some⟩
          simp [expect, failed, bind, Except.bind]

theorem ordinaryKind_cases (workflow jobId : String) (step : Step) (stepName : String)
    (shell : Option String) :
    (∃ kind, ordinaryKind workflow jobId step stepName shell = .ok kind ∧
        ((step.run.isSome && step.uses.isNone && step.inputs.isEmpty) ||
          (step.run.isNone && step.uses.isSome)) = true) ∨
      ∃ failure, ordinaryKind workflow jobId step stepName shell = .error failure ∧
        ¬ IsDuplicate workflow jobId failure ∧
        ((step.run.isSome && step.uses.isNone && step.inputs.isEmpty) ||
          (step.run.isNone && step.uses.isSome)) = false := by
  unfold ordinaryKind
  cases run : step.run with
  | none =>
      cases uses : step.uses with
      | none => exact .inr ⟨_, rfl, not_isDuplicate (by simp [toString]), rfl⟩
      | some action =>
          dsimp only
          split
          · exact .inl ⟨_, rfl, rfl⟩
          · exact .inl ⟨_, rfl, rfl⟩
  | some script =>
      cases uses : step.uses with
      | none =>
          dsimp only
          split
          · rename_i empty
            exact .inl ⟨_, rfl, by simp [empty]⟩
          · rename_i given
            exact .inr ⟨_, rfl, not_isDuplicate (by simp [toString]), by simp [given]⟩
      | some action => exact .inr ⟨_, rfl, not_isDuplicate (by simp [toString]), rfl⟩

theorem Tracks.push {before : List Slot} {slot : Slot} {soFar after : StepsSoFar} {id : String}
    (tracks : Tracks before soFar) (isId : slot.id? (givenIds before).length = some id)
    (group : after.nextParallelGroup = soFar.nextParallelGroup)
    (number : after.nextStepNumber = soFar.nextStepNumber + 1)
    (ids : after.stepIds = insert (toAsciiLowercase id) soFar.stepIds)
    (background : ∀ key, key ∈ after.backgroundIds ↔
      key ∈ soFar.backgroundIds ∨ slot.backgroundId?.map toAsciiLowercase = some key) :
    Tracks (before ++ [slot]) after := by
  constructor
  · rw [group, tracks.group, List.countP_append]
    cases slot with
    | group step children => cases isId
    | single step parallel => rfl
    | wait number => rfl
  · rw [givenIds_append, isId, number, tracks.number]
    simp
  · intro key
    rw [givenIds_append, isId, ids, Finset.mem_insert, tracks.ids]
    simp [or_comm]
  · intro key
    rw [background, tracks.background, backgroundIds_append, List.mem_append, Option.mem_toList]

/-- The registration of the slot's id, and what follows it. -/
theorem Ended.register {α : Type} {before : List Slot} {slot : Slot} {soFar : StepsSoFar}
    {id : String} {next : StepsSoFar → Outcome α} {state : α → StepsSoFar}
    (isId : slot.id? (givenIds before).length = some id)
    (taken : ∀ key, key ∈ soFar.stepIds ↔ key ∈ (givenIds before).map toAsciiLowercase)
    (read : slot.refused (backgroundIds before) = false)
    (later : slot.clashes before = false → Ended workflow jobId before [slot]
      (next { soFar with stepIds := insert (toAsciiLowercase id) soFar.stepIds }) state) :
    Ended workflow jobId before [slot] (registerStepId workflow jobId id soFar >>= next) state := by
  have clash : slot.clashes before = true ↔ toAsciiLowercase id ∈ soFar.stepIds := by
    rw [taken]
    simp [Slot.clashes, isId]
  unfold registerStepId
  split
  · rename_i present
    have clashes := clash.mpr present
    exact .stopped [] slot [] _ rfl rfl (allAccepted_nil before)
      (by simp [Slot.accepted, clashes]) (by simp [IsDuplicate, read, clashes])
  · rename_i absent
    exact later (Bool.eq_false_iff.mpr fun clashes => absent (clash.mp clashes))

/-- A slot that is rejected although its id is free. -/
theorem Ended.break {α : Type} {before : List Slot} {slot : Slot} {state : α → StepsSoFar}
    {failure : Failure} (broken : slot.broken = true) (free : slot.clashes before = false)
    (other : ¬ IsDuplicate workflow jobId failure) :
    Ended workflow jobId before [slot] (.error failure) state :=
  .stopped [] slot [] failure rfl rfl (allAccepted_nil before) (by simp [Slot.accepted, broken])
    (by simp [free, other])

theorem Ended.accept {α : Type} {before : List Slot} {slot : Slot} {state : α → StepsSoFar}
    {value : α} (read : slot.refused (backgroundIds before) = false)
    (free : slot.clashes before = false) (whole : slot.broken = false)
    (tracks : Tracks (before ++ [slot]) (state value)) :
    Ended workflow jobId before [slot] (.ok value) state :=
  .compiled value rfl (.single (by simp [Slot.accepted, read, free, whole])) tracks

theorem single_id {before : List Slot} {soFar : StepsSoFar} (tracks : Tracks before soFar)
    (step : Step) (parallel : Bool) :
    (Slot.single step parallel).id? (givenIds before).length =
      some (step.id.getD (generatedId soFar)) := by
  rw [generatedId, tracks.number]
  rfl

theorem mem_noted {backgroundIds : BTreeMap String} {noted : Bool} {stepId key : String} :
    key ∈ (if noted then backgroundIds.insert (toAsciiLowercase stepId) stepId
      else backgroundIds) ↔
      key ∈ backgroundIds ∨ (noted = true ∧ toAsciiLowercase stepId = key) := by
  cases noted with
  | false => simp
  | true =>
      rw [if_pos rfl, Std.ExtTreeMap.mem_insert, Std.LawfulEqCmp.compare_eq_iff_eq]
      simp [or_comm]

/-- A step whose place and keys have been checked. -/
theorem compileSingleStep_ended {before : List Slot} {soFar : StepsSoFar}
    (tracks : Tracks before soFar) {step : Step} {parallel : Bool}
    (checked : (Slot.single step parallel).refused (backgroundIds before) =
      (step.isControl && !(step.standsAlone parallel && step.namesKnown (backgroundIds before))))
    (shell directory : Option String) :
    Ended workflow jobId before [.single step parallel]
      (compileSingleStep workflow jobId step parallel shell directory soFar) Prod.snd := by
  have fields : step.wait.isSome.toNat + (step.extra.contains "wait-all").toNat +
      step.cancel.isSome.toNat > 0 ↔ step.isControl = true := by
    unfold Step.isControl
    cases step.wait.isSome <;> cases step.extra.contains "wait-all" <;>
      cases step.cancel.isSome <;> decide
  have isId := single_id tracks step parallel
  unfold compileSingleStep
  dsimp only
  split
  · rename_i some
    have control := fields.mp some
    rw [control, Bool.true_and] at checked
    unfold compileControlStep
    split
    · rename_i mixed
      have alone : step.standsAlone parallel = false := by
        rw [Step.standsAlone, Bool.not_eq_false']
        exact mixed
      exact .refuse (by rw [checked, alone]; rfl) (not_isDuplicate (by simp))
    · rename_i standing
      have alone : step.standsAlone parallel = true := by
        rw [Step.standsAlone, Bool.not_eq_true']
        exact Bool.eq_false_iff.mpr standing
      rcases controlKind_cases workflow jobId tracks.background control
        with ⟨⟨kind, name, action⟩, ran, known⟩ | ⟨failure, failed, other, unknown⟩
      · rw [ran]
        have read : (Slot.single step parallel).refused (backgroundIds before) = false := by
          rw [checked, alone, known]
          rfl
        refine Ended.register isId (fun key => tracks.ids key) read fun free => ?_
        refine .accept read free (by simp [Slot.broken, control]) ?_
        exact tracks.push isId rfl rfl rfl (fun key => by simp [Slot.backgroundId?, control]; rfl)
      · rw [failed]
        exact .refuse (by rw [checked, unknown]; simp) other
  · rename_i none
    have ordinary : step.isControl = false := Bool.eq_false_iff.mpr (mt fields.mpr none)
    rw [ordinary, Bool.false_and] at checked
    unfold compileOrdinaryStep
    refine Ended.register isId (fun key => tracks.ids key) checked fun free => ?_
    dsimp only
    split
    · rename_i mixed
      exact .break (by simp [Slot.broken, ordinary, mixed]) free
        (not_isDuplicate (by simp [toString]))
    · rename_i plain
      rcases ordinaryKind_cases workflow jobId step _ shell with
        ⟨kind, ran, sensible⟩ | ⟨failure, failed, other, senseless⟩
      · rw [ran]
        refine .accept checked free ?_ ?_
        · simp only [Slot.broken, ordinary, sensible, plain]
          rfl
        · refine tracks.push isId rfl rfl rfl fun key => mem_noted.trans (or_congr_right ?_)
          unfold Slot.backgroundId?
          cases given : step.id with
          | none => simp [given]
          | some id => simp [ordinary, given, and_assoc]
      · rw [failed]
        exact .break (by simp [Slot.broken, ordinary, senseless]) free other

/-! ### Parallel groups and the whole list -/

theorem Tracks.head {before : List Slot} {soFar after : StepsSoFar} (tracks : Tracks before soFar)
    (step : Step) (children : List Step)
    (group : after.nextParallelGroup = soFar.nextParallelGroup + 1)
    (number : after.nextStepNumber = soFar.nextStepNumber)
    (ids : after.stepIds = soFar.stepIds) (background : after.backgroundIds = soFar.backgroundIds) :
    Tracks (before ++ [.group step children]) after := by
  have same : givenIds (before ++ [.group step children]) = givenIds before := by
    rw [givenIds_append]
    simp [Slot.id?]
  have known : backgroundIds (before ++ [.group step children]) = backgroundIds before := by
    rw [backgroundIds_append]
    simp [Slot.backgroundId?]
  exact ⟨by rw [group, tracks.group, List.countP_append]; rfl, by rw [same, number,
    tracks.number], by rw [same, ids]; exact tracks.ids,
    by rw [known, background]; exact tracks.background⟩

theorem compileParallelEntry_ended {before : List Slot} {state : List String × StepsSoFar}
    (tracks : Tracks before state.2) (child : Step) (shell directory : Option String) :
    Ended workflow jobId before [.single child true]
      (compileParallelEntry workflow jobId shell directory state child) Prod.snd := by
  unfold compileParallelEntry
  split
  · rename_i misplaced
    exact .refuse (by simp only [Slot.refused, misplaced]; simp) (not_isDuplicate (by simp))
  · rename_i placed
    rcases checkStepKeys_cases workflow jobId child with
      ⟨ran, keys⟩ | ⟨failure, failed, other, keys⟩
    · rw [ran]
      refine Ended.map (compileSingleStep_ended tracks ?_ shell directory) fun _ => rfl
      simp only [Slot.refused, keys, Bool.eq_false_iff.mpr placed]
      simp
    · rw [failed]
      exact .refuse (by simp only [Slot.refused, keys]; simp) other

theorem children_ended {before : List Slot} {state : List String × StepsSoFar}
    (tracks : Tracks before state.2) (children : List Step) (shell directory : Option String) :
    Ended workflow jobId before (children.map fun child => .single child true)
      (children.foldlM (compileParallelEntry workflow jobId shell directory) state) Prod.snd := by
  induction children generalizing before state with
  | nil => exact .compiled state rfl (allAccepted_nil before) (by simpa using tracks)
  | cons child children inductionHypothesis =>
      rw [List.foldlM_cons, List.map_cons, ← List.singleton_append]
      exact (compileParallelEntry_ended tracks child shell directory).bind
        fun _ later => inductionHypothesis later

theorem compileParallelGroup_ended {before : List Slot} {soFar : StepsSoFar}
    (tracks : Tracks before soFar) {step : Step} (keys : step.acceptsKeys = true)
    (parallel : List Step) (shell directory : Option String) :
    Ended workflow jobId before
      ([.group step parallel] ++
        (parallel.map (fun child => .single child true) ++ [.wait soFar.nextParallelGroup]))
      (compileParallelGroup workflow jobId step parallel shell directory soFar) Prod.snd := by
  unfold compileParallelGroup
  split
  · rename_i empty
    exact .refuse (by simp [Slot.refused, empty]) (not_isDuplicate (by simp))
  · rename_i given
    split
    · rename_i mixed
      refine .refuse ?_ (not_isDuplicate (by simp))
      simp only [Slot.refused, Bool.or_assoc] at mixed ⊢
      simp [mixed]
    · rename_i alone
      rw [Bool.not_eq_true] at alone
      have read : (Slot.group step parallel).refused (backgroundIds before) = false := by
        simp only [Slot.refused, keys, Bool.or_assoc] at alone ⊢
        simp [given, alone]
      refine .after (.single (by simp [Slot.accepted, read, Slot.clashes, Slot.id?, Slot.broken]))
        ?_
      have started : Tracks (before ++ [.group step parallel])
          { soFar with nextParallelGroup := soFar.nextParallelGroup + 1 } :=
        tracks.head step parallel rfl rfl rfl rfl
      refine Ended.bind (@children_ended workflow jobId _ ([], _) started parallel shell directory)
        ?_
      rintro ⟨groupIds, compiled⟩ later
      refine Ended.register rfl later.ids rfl fun free => ?_
      exact .accept rfl free rfl (later.push rfl rfl rfl rfl
        fun key => by simp [Slot.backgroundId?]; rfl)

theorem compileStep_ended {before : List Slot} {soFar : StepsSoFar}
    (tracks : Tracks before soFar) (step : Step) (shell directory : Option String) :
    Ended workflow jobId before (step.slots soFar.nextParallelGroup)
      (compileStep workflow jobId shell directory soFar step) id := by
  unfold compileStep Step.slots
  rcases checkStepKeys_cases workflow jobId step with ⟨ran, keys⟩ | ⟨failure, failed, other, keys⟩
  · rw [ran]
    cases step.parallel with
    | some children =>
        exact Ended.map (compileParallelGroup_ended tracks keys children shell directory)
          fun _ => rfl
    | none =>
        refine Ended.map (compileSingleStep_ended tracks ?_ shell directory) fun _ => rfl
        simp only [Slot.refused, keys]
        rfl
  · rw [failed]
    cases step.parallel with
    | some children => exact .refuse (by simp [Slot.refused, keys]) other
    | none => exact .refuse (by simp [Slot.refused, keys]) other

theorem countP_isGroup_slots (group : Nat) (step : Step) :
    (step.slots group).countP Slot.isGroup = step.parallel.isSome.toNat := by
  unfold Step.slots
  cases step.parallel with
  | none => rfl
  | some children =>
      have none : (children.map fun child => Slot.single child true).countP Slot.isGroup = 0 := by
        simp [List.countP_map, Slot.isGroup, Function.comp_def]
      rw [List.countP_append, List.countP_append, none]
      rfl

theorem countP_isWait_slots (group : Nat) (step : Step) :
    (step.slots group).countP Slot.isWait = step.parallel.isSome.toNat := by
  unfold Step.slots
  cases step.parallel with
  | none => rfl
  | some children =>
      have none : (children.map fun child => Slot.single child true).countP Slot.isWait = 0 := by
        simp [List.countP_map, Slot.isWait, Function.comp_def]
      rw [List.countP_append, List.countP_append, none]
      rfl

theorem source_ended (workflow jobId : String) {before : List Slot} {soFar : StepsSoFar}
    (tracks : Tracks before soFar)
    (source : List Step) (shell directory : Option String) :
    Ended workflow jobId before (slotsFrom soFar.nextParallelGroup source)
      (source.foldlM (compileStep workflow jobId shell directory) soFar) id := by
  induction source generalizing before soFar with
  | nil => exact .compiled soFar rfl (allAccepted_nil before) (by simpa [slotsFrom] using tracks)
  | cons step rest inductionHypothesis =>
      rw [List.foldlM_cons, slotsFrom]
      refine (compileStep_ended tracks step shell directory).bind fun after later => ?_
      have group : after.nextParallelGroup =
          soFar.nextParallelGroup + step.parallel.isSome.toNat := by
        have counted : after.nextParallelGroup = _ := later.group
        rw [counted, List.countP_append, countP_isGroup_slots, tracks.group, Nat.add_right_comm]
      exact group ▸ inductionHypothesis later

/-- Only one slot is the first that is not accepted. -/
theorem first_rejected_unique {all before early after late : List Slot} {slot other : Slot}
    (split : all = before ++ slot :: after) (accepted : AllAccepted [] before)
    (rejected : slot.accepted before = false)
    (splitOther : all = early ++ other :: late) (acceptedEarly : AllAccepted [] early)
    (rejectedOther : other.accepted early = false) : before = early ∧ slot = other := by
  rw [split] at splitOther
  rcases List.append_eq_append_iff.mp splitOther with ⟨inner, same, rest⟩ | ⟨inner, same, rest⟩
  · cases inner with
    | nil =>
        rw [List.append_nil] at same
        cases rest
        exact ⟨same.symm, rfl⟩
    | cons head tail =>
        cases rest
        have contrary := acceptedEarly before slot tail same
        rw [List.nil_append, rejected] at contrary
        cases contrary
  · cases inner with
    | nil =>
        rw [List.append_nil] at same
        cases rest
        exact ⟨same, rfl⟩
    | cons head tail =>
        cases rest
        have contrary := accepted early other tail same
        rw [List.nil_append, rejectedOther] at contrary
        cases contrary

theorem tracks_nil : Tracks [] {} :=
  ⟨rfl, rfl, fun key => by simp [givenIds], fun key => by simp [backgroundIds]⟩

/-- The compiler fails with a duplicated id exactly when a slot gets one. -/
theorem compileSteps_duplicate_iff (workflow jobId : String) (source : List Step)
    (shell directory : Option String) :
    (∃ failure, compileSteps workflow jobId source shell directory = .error failure ∧
      IsDuplicate workflow jobId failure) ↔ Clashes source := by
  unfold compileSteps
  cases source_ended workflow jobId tracks_nil source shell directory with
  | compiled soFar ran accepted tracks =>
      rw [ran]
      constructor
      · rintro ⟨failure, failed, duplicate⟩
        cases failed
      · rintro ⟨before, slot, after, split, -, -, clashes⟩
        have contrary := accepted before slot after split
        rw [List.nil_append, Slot.accepted, clashes] at contrary
        simp at contrary
  | stopped front slot back failure failed split accepted rejected duplicate =>
      rw [failed]
      constructor
      · rintro ⟨_, same, isDuplicate⟩
        cases same
        obtain ⟨read, clashes⟩ := duplicate.mp isDuplicate
        exact ⟨front, slot, back, split, accepted, read, clashes⟩
      · rintro ⟨before, other, after, splitOther, acceptedOther, read, clashes⟩
        have rejectedOther : other.accepted before = false := by simp [Slot.accepted, clashes]
        obtain ⟨rfl, rfl⟩ := first_rejected_unique split accepted rejected splitOther acceptedOther
          rejectedOther
        exact ⟨failure, rfl, duplicate.mpr ⟨read, clashes⟩⟩

/-! ### Generated ids -/

/-- Of two slots one has an id from the workflow and the other a generated one, and they
agree up to ASCII case; and no slot before the second is rejected, nor that one for another
reason. -/
def TakesGenerated (source : List Step) : Prop :=
  ∃ front one middle two after id other,
    slots source = front ++ one :: (middle ++ two :: after) ∧
    one.explicitId?.isSome ≠ two.explicitId?.isSome ∧
    one.id? (givenIds front).length = some id ∧
    two.id? (givenIds (front ++ one :: middle)).length = some other ∧
    toAsciiLowercase id = toAsciiLowercase other ∧
    AllAccepted [] (front ++ one :: middle) ∧
    two.refused (backgroundIds (front ++ one :: middle)) = false

theorem toLower_digit {char : Char} (digit : char.isDigit = true) : char.toLower = char := by
  unfold Char.toLower
  rw [dif_neg]
  simp only [Char.isDigit, Bool.and_eq_true, decide_eq_true_eq] at digit
  rintro ⟨low, -⟩
  have high := digit.2
  simp [UInt32.le_iff_toNat_le] at low high
  omega

theorem lowered_digits_inj {one two : Nat}
    (same : (Nat.toDigits 10 one).map Char.toLower = (Nat.toDigits 10 two).map Char.toLower) :
    one = two := by
  have kept : ∀ number, (Nat.toDigits 10 number).map Char.toLower = Nat.toDigits 10 number := by
    intro number
    refine (List.map_congr_left fun char member => ?_).trans (List.map_id _)
    exact toLower_digit (Nat.isDigit_of_mem_toDigits (by decide) (by decide) member)
  rw [kept, kept] at same
  refine Nat.repr_injective (String.toList_inj.mp ?_)
  rw [Nat.toList_repr, Nat.toList_repr, same]

theorem step_id_inj {one two : Nat}
    (same : toAsciiLowercase s!"step-{one}" = toAsciiLowercase s!"step-{two}") : one = two := by
  simp only [toAsciiLowercase, Expression.toAsciiLowercase, String.ofList_inj, toString,
    String.toList_append, List.map_append, List.append_cancel_left_eq, Nat.toList_repr] at same
  exact lowered_digits_inj same

theorem wait_id_inj {one two : Nat}
    (same : toAsciiLowercase s!"__parallel_{one}_wait" =
      toAsciiLowercase s!"__parallel_{two}_wait") : one = two := by
  simp only [toAsciiLowercase, Expression.toAsciiLowercase, String.ofList_inj, toString,
    String.toList_append, List.map_append, List.append_cancel_left_eq, List.append_cancel_right_eq,
    Nat.toList_repr, List.append_assoc] at same
  exact lowered_digits_inj same

theorem step_id_ne_wait_id (number group : Nat) :
    toAsciiLowercase s!"step-{number}" ≠ toAsciiLowercase s!"__parallel_{group}_wait" := by
  intro same
  have first := congrArg (fun text : String => text.toList.head?) same
  simp [toAsciiLowercase, Expression.toAsciiLowercase, toString] at first

theorem mem_givenIds {slots : List Slot} {id : String} :
    id ∈ givenIds slots ↔ ∃ front one back, slots = front ++ one :: back ∧
      one.id? (givenIds front).length = some id := by
  induction slots using List.reverseRecOn with
  | nil => simp [givenIds]
  | append_singleton slots slot inductionHypothesis =>
      rw [givenIds_append, List.mem_append, Option.mem_toList, inductionHypothesis]
      constructor
      · rintro (⟨front, one, back, rfl, isId⟩ | isId)
        · exact ⟨front, one, back ++ [slot], by simp, isId⟩
        · exact ⟨slots, slot, [], rfl, isId⟩
      · rintro ⟨front, one, back, split, isId⟩
        cases back using List.reverseRecOn with
        | nil =>
            obtain ⟨rfl, same⟩ := List.append_inj' split rfl
            cases same
            exact .inr isId
        | append_singleton back last =>
            rw [← List.cons_append, ← List.append_assoc] at split
            obtain ⟨rfl, -⟩ := List.append_inj' split rfl
            exact .inl ⟨front, one, back, rfl, isId⟩

theorem wait_mem_slots {group number : Nat} {step : Step}
    (member : .wait number ∈ step.slots group) :
    number = group ∧ step.parallel.isSome.toNat = 1 := by
  unfold Step.slots at member
  cases found : step.parallel with
  | none => simp [found] at member
  | some children =>
      simp only [found, List.mem_append, List.mem_singleton, List.mem_map] at member
      rcases member with head | ⟨child, -, single⟩ | last
      · cases head
      · cases single
      · cases last
        exact ⟨rfl, rfl⟩

/-- The waits are numbered in their order. -/
theorem wait_number {group number : Nat} {source : List Step} {before after : List Slot}
    (split : slotsFrom group source = before ++ .wait number :: after) :
    number = group + before.countP Slot.isWait := by
  induction source generalizing group before after with
  | nil => simp [slotsFrom] at split
  | cons step rest inductionHypothesis =>
      rw [slotsFrom] at split
      rcases List.append_eq_append_iff.mp split with ⟨inner, rfl, later⟩ | ⟨inner, here, later⟩
      · rw [List.countP_append, countP_isWait_slots, inductionHypothesis later, Nat.add_assoc]
      · cases inner with
        | nil =>
            rw [List.append_nil] at here
            rw [← here, countP_isWait_slots]
            have first : slotsFrom (group + step.parallel.isSome.toNat) rest =
                [] ++ .wait number :: after := later.symm
            exact inductionHypothesis first
        | cons head tail =>
            cases later
            have member : .wait number ∈ step.slots group := by
              rw [here]
              simp
            obtain ⟨rfl, one⟩ := wait_mem_slots member
            have counted := countP_isWait_slots number step
            rw [here, List.countP_append, List.countP_cons_of_pos rfl, one] at counted
            omega

theorem Slot.id_of_explicit {slot : Slot} {id : String} (given : slot.explicitId? = some id)
    (numbered : Nat) : slot.id? numbered = some id := by
  cases slot with
  | group step children => cases given
  | single step parallel =>
      change step.id = some id at given
      simp [Slot.id?, given]
  | wait group => cases given

theorem givenIds_length_lt {front : List Slot} {one : Slot} {id : String}
    (isId : one.id? (givenIds front).length = some id) (middle : List Slot) :
    (givenIds front).length < (givenIds (front ++ one :: middle)).length := by
  induction middle using List.reverseRecOn with
  | nil =>
      rw [givenIds_append, isId]
      simp
  | append_singleton middle last inductionHypothesis =>
      rw [← List.cons_append, ← List.append_assoc, givenIds_append, List.length_append]
      exact Nat.lt_add_right _ inductionHypothesis

/-- Two ids that the workflow gives. -/
theorem explicit_differ {front middle after : List Slot} {one two : Slot} {id other : String}
    (distinct : ((explicitIds (front ++ one :: (middle ++ two :: after))).map
      toAsciiLowercase).Nodup)
    (isId : one.explicitId? = some id) (isOther : two.explicitId? = some other) :
    toAsciiLowercase id ≠ toAsciiLowercase other := by
  intro same
  simp only [explicitIds, List.filterMap_append, List.filterMap_cons, isId, isOther,
    List.map_append, List.map_cons] at distinct
  have later := (List.nodup_cons.mp (List.nodup_append.mp distinct).2.1).1
  exact later (by simp [same])

/-- Two slots with ids of the same kind. -/
theorem same_kind_differ {source : List Step} {front middle after : List Slot} {one two : Slot}
    {id other : String} (split : slots source = front ++ one :: (middle ++ two :: after))
    (distinct : ((explicitIds (slots source)).map toAsciiLowercase).Nodup)
    (kind : one.explicitId?.isSome = two.explicitId?.isSome)
    (isId : one.id? (givenIds front).length = some id)
    (isOther : two.id? (givenIds (front ++ one :: middle)).length = some other) :
    toAsciiLowercase id ≠ toAsciiLowercase other := by
  have more := givenIds_length_lt isId middle
  generalize (givenIds (front ++ one :: middle)).length = number at more isOther
  generalize (givenIds front).length = earlier at more isId
  cases written : one.explicitId? with
  | some given =>
      rw [written, Option.isSome_some] at kind
      obtain ⟨givenOther, writtenOther⟩ := Option.isSome_iff_exists.mp kind.symm
      rw [Slot.id_of_explicit written] at isId
      rw [Slot.id_of_explicit writtenOther] at isOther
      cases isId
      cases isOther
      exact explicit_differ (split ▸ distinct) written writtenOther
  | none =>
      rw [written, Option.isSome_none] at kind
      have writtenOther := Option.isSome_eq_false_iff.mp kind.symm
      rw [Option.isNone_iff_eq_none] at writtenOther
      intro same
      cases one with
      | group step children => cases isId
      | single step parallel =>
          change step.id = none at written
          simp only [Slot.id?, written] at isId
          cases isId
          cases two with
          | group step children => cases isOther
          | single step parallel =>
              change step.id = none at writtenOther
              simp only [Slot.id?, writtenOther] at isOther
              cases isOther
              have number := step_id_inj same
              omega
          | wait group =>
              cases isOther
              exact step_id_ne_wait_id _ _ same
      | wait group =>
          cases isId
          cases two with
          | group step children => cases isOther
          | single step parallel =>
              change step.id = none at writtenOther
              simp only [Slot.id?, writtenOther] at isOther
              cases isOther
              exact step_id_ne_wait_id _ _ same.symm
          | wait groupOther =>
              cases isOther
              have first := wait_number split
              rw [← List.cons_append, ← List.append_assoc] at split
              have second := wait_number split
              rw [List.countP_append, List.countP_cons_of_pos rfl] at second
              have number := wait_id_inj same
              omega

/-- With distinct ids of its own, a job clashes only with generated ones. -/
theorem clashes_iff {source : List Step}
    (distinct : ((explicitIds (slots source)).map toAsciiLowercase).Nodup) :
    Clashes source ↔ TakesGenerated source := by
  constructor
  · rintro ⟨before, two, after, split, accepted, read, clashes⟩
    rw [Slot.clashes, Option.any_eq_true] at clashes
    obtain ⟨other, isOther, taken⟩ := clashes
    obtain ⟨id, member, same⟩ := List.mem_map.mp (of_decide_eq_true taken)
    obtain ⟨front, one, middle, rfl, isId⟩ := mem_givenIds.mp member
    rw [List.append_assoc, List.cons_append] at split
    have kind : one.explicitId?.isSome ≠ two.explicitId?.isSome := fun kind =>
      same_kind_differ split distinct kind isId isOther same
    exact ⟨front, one, middle, two, after, id, other, split, kind, isId, isOther, same, accepted,
      read⟩
  · rintro ⟨front, one, middle, two, after, id, other, split, -, isId, isOther, same,
      accepted, read⟩
    refine ⟨front ++ one :: middle, two, after, by simpa using split, accepted, read, ?_⟩
    rw [Slot.clashes, isOther]
    have member : id ∈ givenIds (front ++ one :: middle) :=
      mem_givenIds.mpr ⟨front, one, middle, rfl, isId⟩
    exact decide_eq_true (same ▸ List.mem_map_of_mem member)

/-! ### When distinct ids stay distinct -/

/-- If the steps of a job have different ids of their own, the compiler finds no id
duplicated; and the ids of compiled steps differ, and control steps refer to background
steps before them. -/
def StepIdsLaw (workflow jobId : String) (source : List Step)
    (shell directory : Option String) : Prop :=
  ((explicitIds (slots source)).map toAsciiLowercase).Nodup →
    (¬ ∃ failure, compileSteps workflow jobId source shell directory = .error failure ∧
      IsDuplicate workflow jobId failure) ∧
    ∀ steps, compileSteps workflow jobId source shell directory = .ok steps →
      (steps.map fun step => toAsciiLowercase step.id).Nodup ∧ ReferencesBack steps

/-- It does so exactly if no such job has the generated id of one step for another. -/
theorem step_ids_law_iff (workflow jobId : String) (source : List Step)
    (shell directory : Option String) :
    StepIdsLaw workflow jobId source shell directory ↔
      (((explicitIds (slots source)).map toAsciiLowercase).Nodup → ¬ TakesGenerated source) := by
  refine imp_congr_right fun distinct => ?_
  rw [compileSteps_duplicate_iff, clashes_iff distinct]
  exact and_iff_left fun steps compiled => compileSteps_sound compiled

/-- The second step is called as the first one is numbered. -/
theorem generated_id_rejects_job : ¬ StepIdsLaw "workflow.yml" "build"
    [{ run := some "make" }, { id := some "Step-1", run := some "make check" }] none none := by
  intro law
  refine (law (by decide)).1 ((compileSteps_duplicate_iff _ _ _ none none).mpr ?_)
  have accepted : AllAccepted [] [.single { run := some "make" } false] := by
    apply AllAccepted.single
    rfl
  refine ⟨[.single { run := some "make" } false],
    .single { id := some "Step-1", run := some "make check" } false, [], rfl, accepted, ?_, ?_⟩
  · rfl
  · decide

end Steps

end GitZero.Workflows
