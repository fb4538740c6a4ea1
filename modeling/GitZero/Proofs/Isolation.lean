/-
Module: GitZero.Proofs.Isolation
Purpose: Job instances have workspaces of their own, and processes that run at the same time
  have command files of their own, exactly if no two of their ids look alike.
Trusted boundary: `shell_words::split` and `Uuid::new_v4`, parameters; names of files are compared
  as texts, as on a case-sensitive volume
Main exports: LookAlike, sanitizeId_eq_iff, commandFiles_disjoint_iff, Fresh, Origins,
  isolated_iff
-/
import GitZero.Agent.Processes
import GitZero.Proofs.PlanIdentity

namespace GitZero.Agent

open Workflows

/-- A text is cut at the first mark in one way only. -/
theorem append_mark_inj {mark : Char} {one two oneRest twoRest : List Char}
    (oneFree : mark ∉ one) (twoFree : mark ∉ two) :
    one ++ mark :: oneRest = two ++ mark :: twoRest ↔ one = two ∧ oneRest = twoRest := by
  induction one generalizing two with
  | nil =>
      cases two with
      | nil => simp
      | cons head tail =>
          have differ : mark ≠ head := fun same => twoFree (same ▸ List.mem_cons_self)
          simp [differ]
  | cons oneHead oneTail inductionHypothesis =>
      cases two with
      | nil =>
          have differ : oneHead ≠ mark := fun same => oneFree (same ▸ List.mem_cons_self)
          simp [differ]
      | cons twoHead twoTail =>
          rw [List.cons_append, List.cons_append, List.cons.injEq, List.cons.injEq,
            inductionHypothesis (fun member => oneFree (List.mem_cons_of_mem _ member))
              (fun member => twoFree (List.mem_cons_of_mem _ member)), and_assoc]

/-- A text is cut at the last mark in one way only. -/
theorem append_lastMark_inj {mark : Char} {one two oneRest twoRest : List Char}
    (oneFree : mark ∉ oneRest) (twoFree : mark ∉ twoRest)
    (same : one ++ mark :: oneRest = two ++ mark :: twoRest) : one = two := by
  have reversed := congrArg List.reverse same
  simp only [List.reverse_append, List.reverse_cons, List.append_assoc,
    List.singleton_append] at reversed
  have cut := (append_mark_inj (by simpa using oneFree) (by simpa using twoFree)).mp reversed
  exact List.reverse_injective cut.2

/-! ### Names that look alike -/

/-- A character that stands for itself in no file name, or is the dash that replaces those. -/
def Blurred (character : Char) : Prop :=
  isAsciiAlphanumeric character = false ∧ character ≠ '_'

instance (character : Char) : Decidable (Blurred character) :=
  inferInstanceAs (Decidable (_ ∧ _))

/-- Two ids that differ, if at all, in which blurred characters stand at some places. -/
def LookAlike (one two : String) : Prop :=
  List.Forall₂ (fun left right => left = right ∨ (Blurred left ∧ Blurred right))
    one.toList two.toList

def sanitizeCharacter (character : Char) : Char :=
  if isAsciiAlphanumeric character || character = '-' || character = '_' then character else '-'

theorem sanitizeId_toList (value : String) :
    (sanitizeId value).toList = value.toList.map sanitizeCharacter := by
  simp [sanitizeId, sanitizeCharacter]

theorem sanitizeCharacter_of_blurred {character : Char} (blurred : Blurred character) :
    sanitizeCharacter character = '-' := by
  by_cases dash : character = '-'
  · subst dash
    decide
  · simp [sanitizeCharacter, blurred.1, blurred.2, dash]

theorem sanitizeCharacter_of_not_blurred {character : Char} (sharp : ¬ Blurred character) :
    sanitizeCharacter character = character := by
  by_cases alphanumeric : isAsciiAlphanumeric character = true
  · simp [sanitizeCharacter, alphanumeric]
  · have underscore : character = '_' := by
      by_contra other
      exact sharp ⟨by simpa using alphanumeric, other⟩
    simp [sanitizeCharacter, underscore]

theorem blurred_dash : Blurred '-' := by decide

theorem sanitizeCharacter_eq_iff (left right : Char) :
    sanitizeCharacter left = sanitizeCharacter right ↔
      left = right ∨ (Blurred left ∧ Blurred right) := by
  by_cases leftBlurred : Blurred left
  · by_cases rightBlurred : Blurred right
    · simp [sanitizeCharacter_of_blurred, leftBlurred, rightBlurred]
    · rw [sanitizeCharacter_of_blurred leftBlurred, sanitizeCharacter_of_not_blurred rightBlurred]
      constructor
      · intro same
        exact absurd (same ▸ blurred_dash) rightBlurred
      · rintro (same | both)
        · exact absurd (same ▸ leftBlurred) rightBlurred
        · exact absurd both.2 rightBlurred
  · by_cases rightBlurred : Blurred right
    · rw [sanitizeCharacter_of_not_blurred leftBlurred, sanitizeCharacter_of_blurred rightBlurred]
      constructor
      · intro same
        exact absurd (same ▸ blurred_dash) leftBlurred
      · rintro (same | both)
        · exact absurd (same ▸ rightBlurred) leftBlurred
        · exact absurd both.1 leftBlurred
    · simp [sanitizeCharacter_of_not_blurred, leftBlurred, rightBlurred]

/-- Ids share a directory exactly when they look alike. -/
theorem sanitizeId_eq_iff (one two : String) :
    sanitizeId one = sanitizeId two ↔ LookAlike one two := by
  rw [← String.toList_inj, sanitizeId_toList, sanitizeId_toList, ← List.forall₂_eq_eq_eq,
    List.forall₂_map_left_iff, List.forall₂_map_right_iff]
  simp only [sanitizeCharacter_eq_iff, LookAlike]

/-! ### Workspaces -/

theorem dash_notMem_toString (number : Nat) : '-' ∉ (toString number).toList := by
  intro member
  have chars : (toString number).toList = Nat.toDigits 10 number := Nat.toList_repr
  rw [chars] at member
  have digit := Nat.isDigit_of_mem_toDigits (by decide) (by decide) member
  simp at digit

section Jobs

variable [Serde]

theorem workspaceDirectory_eq_iff (onePlan twoPlan : Nat) (one two : PlannedJob) :
    workspaceDirectory onePlan one = workspaceDirectory twoPlan two ↔
      onePlan = twoPlan ∧ LookAlike one.id two.id := by
  have chars : ∀ (plan : Nat) (job : PlannedJob), (workspaceDirectory plan job).toList =
      (toString plan).toList ++ '-' :: (sanitizeId job.id).toList := by
    intro plan job
    change (toString plan ++ "-" ++ sanitizeId job.id).toList = _
    simp
  rw [← String.toList_inj, chars, chars, append_mark_inj
    (dash_notMem_toString onePlan) (dash_notMem_toString twoPlan), String.toList_inj,
    String.toList_inj, sanitizeId_eq_iff]
  constructor
  · intro same
    exact ⟨Nat.repr_injective same.1, same.2⟩
  · intro ⟨plans, ids⟩
    exact ⟨plans ▸ rfl, ids⟩

theorem workspaceDirectories_nodup_iff (plans : List RunPlan) :
    (workspaceDirectories plans).Nodup ↔
      ∀ running ∈ plans, running.instances.Pairwise fun one two => ¬ LookAlike one.id two.id := by
  rw [workspaceDirectories, List.nodup_flatten]
  constructor
  · intro nodup running member
    obtain ⟨index, bound, rfl⟩ := List.mem_iff_getElem.mp member
    have own := nodup.1 (plans[index].instances.map (workspaceDirectory index))
      (List.mem_iff_getElem.mpr ⟨index, by simpa using bound, by simp⟩)
    rw [List.Nodup, List.pairwise_map] at own
    refine own.imp ?_
    intro one two differ alike
    exact differ ((workspaceDirectory_eq_iff index index one two).mpr ⟨rfl, alike⟩)
  · intro apart
    constructor
    · intro directories member
      obtain ⟨index, bound, rfl⟩ := List.mem_iff_getElem.mp member
      have inside : index < plans.length := by simpa using bound
      rw [List.getElem_mapIdx, List.Nodup, List.pairwise_map]
      refine (apart plans[index] (List.getElem_mem inside)).imp ?_
      intro one two differ same
      exact differ ((workspaceDirectory_eq_iff index index one two).mp same).2
    · rw [List.pairwise_iff_getElem]
      intro left right leftBound rightBound before name inLeft inRight
      rw [List.getElem_mapIdx, List.mem_map] at inLeft inRight
      obtain ⟨one, -, oneName⟩ := inLeft
      obtain ⟨two, -, twoName⟩ := inRight
      have plansSame := ((workspaceDirectory_eq_iff left right one two).mp
        (oneName.trans twoName.symm)).1
      omega

end Jobs

/-! ### Command files -/

theorem commandFile_toList (stepId scriptExtension : String) (file : CommandFile) :
    (commandFile stepId scriptExtension file).toList =
      file.label.toList ++ '-' :: ((sanitizeId stepId).toList ++
        '.' :: (file.extension scriptExtension).toList) := by
  change (file.label ++ "-" ++ sanitizeId stepId ++ "." ++ file.extension scriptExtension).toList =
    _
  simp

theorem phaseFile_toList (phase : Phase) (nonce fileEnd : String) :
    (phaseFile phase nonce fileEnd).toList =
      "action".toList ++ '-' :: (phase.name.toList ++ '-' :: (nonce.toList ++
        '-' :: fileEnd.toList)) := by
  change ("action-" ++ phase.name ++ "-" ++ nonce ++ "-" ++ fileEnd).toList = _
  simp

theorem CommandFile.dash_notMem_label (file : CommandFile) : '-' ∉ file.label.toList := by
  cases file <;> decide

theorem Phase.dash_notMem_name (phase : Phase) : '-' ∉ phase.name.toList := by
  cases phase <;> decide

/-- The files of two scripts coincide in name only for one kind of file and alike steps. -/
theorem lookAlike_of_commandFile_eq {oneId oneExtension twoId twoExtension : String}
    {oneFile twoFile : CommandFile}
    (same : commandFile oneId oneExtension oneFile = commandFile twoId twoExtension twoFile) :
    LookAlike oneId twoId := by
  have chars := congrArg String.toList same
  rw [commandFile_toList, commandFile_toList, append_mark_inj
    oneFile.dash_notMem_label twoFile.dash_notMem_label, append_mark_inj
    (dot_notMem_sanitizeId oneId) (dot_notMem_sanitizeId twoId)] at chars
  exact (sanitizeId_eq_iff oneId twoId).mp (String.toList_inj.mp chars.2.1)

theorem commandFile_env_eq {oneId twoId : String} (alike : LookAlike oneId twoId)
    (oneExtension twoExtension : String) :
    commandFile oneId oneExtension .env = commandFile twoId twoExtension .env := by
  have ids := (sanitizeId_eq_iff oneId twoId).mpr alike
  simp only [commandFile, ids, CommandFile.extension]

theorem commandFile_ne_phaseFile (stepId scriptExtension : String) (file : CommandFile)
    (phase : Phase) (nonce fileEnd : String) :
    commandFile stepId scriptExtension file ≠ phaseFile phase nonce fileEnd := by
  intro same
  have chars := congrArg String.toList same
  rw [commandFile_toList, phaseFile_toList, append_mark_inj
    file.dash_notMem_label (by decide)] at chars
  revert chars
  cases file <;> simp [CommandFile.label]

theorem dash_notMem_phaseFileEnd {fileEnd : String} (isEnd : fileEnd ∈ phaseFileEnds) :
    '-' ∉ fileEnd.toList := by
  revert fileEnd
  decide

/-- The ends hold no dash, so that a name gives its draw away. -/
theorem Uuids.eq_of_phaseFile_eq {drawn : Nat} (uuids : Uuids drawn) {onePhase twoPhase : Phase}
    {one two : Nat} {oneEnd twoEnd : String} (oneDrawn : one < drawn) (twoDrawn : two < drawn)
    (oneIs : oneEnd ∈ phaseFileEnds) (twoIs : twoEnd ∈ phaseFileEnds)
    (same : phaseFile onePhase (uuids.text one) oneEnd =
      phaseFile twoPhase (uuids.text two) twoEnd) : one = two := by
  have chars := congrArg String.toList same
  rw [phaseFile_toList, phaseFile_toList, append_mark_inj (by decide) (by decide),
    append_mark_inj onePhase.dash_notMem_name twoPhase.dash_notMem_name] at chars
  have nonces := append_lastMark_inj (dash_notMem_phaseFileEnd oneIs)
    (dash_notMem_phaseFileEnd twoIs) chars.2.2
  exact uuids.distinct one oneDrawn two twoDrawn (String.toList_inj.mp nonces)

/-- Two processes whose files could only be told apart by their steps' ids. -/
def AlikeProcesses : Process → Process → Prop
  | .script oneId _, .script twoId _ => LookAlike oneId twoId
  | _, _ => False

/-- Processes with different draws share a file exactly if they are scripts of steps that
look alike. -/
theorem commandFiles_disjoint_iff {drawn : Nat} (uuids : Uuids drawn) {one two : Process × Nat}
    (oneDrawn : one.2 < drawn) (twoDrawn : two.2 < drawn) (draws : one.2 ≠ two.2) :
    (commandFiles uuids one).Disjoint (commandFiles uuids two) ↔ ¬ AlikeProcesses one.1 two.1 := by
  obtain ⟨oneProcess, oneDraw⟩ := one
  obtain ⟨twoProcess, twoDraw⟩ := two
  cases oneProcess with
  | script oneId oneExtension =>
      cases twoProcess with
      | script twoId twoExtension =>
          constructor
          · intro disjoint alike
            have inTwo : commandFile twoId twoExtension .env ∈
                CommandFile.all.map (commandFile twoId twoExtension) :=
              List.mem_map_of_mem (by decide)
            rw [← commandFile_env_eq alike oneExtension twoExtension] at inTwo
            exact disjoint (List.mem_map_of_mem (by decide)) inTwo
          · intro differ name inOne inTwo
            obtain ⟨oneFile, -, oneName⟩ := List.mem_map.mp inOne
            obtain ⟨twoFile, -, twoName⟩ := List.mem_map.mp inTwo
            exact differ (lookAlike_of_commandFile_eq (oneName.trans twoName.symm))
      | phase twoPhase =>
          refine iff_of_true ?_ (fun alike => alike)
          intro name inOne inTwo
          obtain ⟨file, -, oneName⟩ := List.mem_map.mp inOne
          obtain ⟨fileEnd, -, twoName⟩ := List.mem_map.mp inTwo
          exact commandFile_ne_phaseFile _ _ _ _ _ _ (oneName.trans twoName.symm)
  | phase onePhase =>
      refine iff_of_true ?_ (fun alike => alike)
      cases twoProcess with
      | script twoId twoExtension =>
          intro name inOne inTwo
          obtain ⟨fileEnd, -, oneName⟩ := List.mem_map.mp inOne
          obtain ⟨file, -, twoName⟩ := List.mem_map.mp inTwo
          exact commandFile_ne_phaseFile _ _ _ _ _ _ (twoName.trans oneName.symm)
      | phase twoPhase =>
          intro name inOne inTwo
          obtain ⟨oneEnd, oneIs, oneName⟩ := List.mem_map.mp inOne
          obtain ⟨twoEnd, twoIs, twoName⟩ := List.mem_map.mp inTwo
          exact draws (uuids.eq_of_phaseFile_eq oneDrawn twoDrawn oneIs twoIs
            (oneName.trans twoName.symm))

/-! ### The draws of a job -/

/-- The process of a lane. -/
def Floor.running (floor : Floor) (index : Nat) : Option (Process × Nat) :=
  floor.lanes[index]?.bind Lane.running

/-- No draw was handed out twice. -/
structure Fresh (floor : Floor) : Prop where
  bounded : ∀ {index : Nat} {process : Process × Nat},
    floor.running index = some process → process.2 < floor.drawn
  distinct : ∀ {left right : Nat} {one two : Process × Nat},
    floor.running left = some one → floor.running right = some two → one.2 = two.2 → left = right

theorem Fresh.start (runs : List StepRun) : Fresh { next := runs } where
  bounded running := by simp [Floor.running] at running
  distinct running := by simp [Floor.running] at running

/-- A floor whose lanes run what lanes of another ran, and hold none of it twice. -/
theorem Fresh.of_embeds {floor after : Floor} (fresh : Fresh floor)
    (drawn : floor.drawn ≤ after.drawn) (place : Nat → Nat) (apart : Function.Injective place)
    (embeds : ∀ {index : Nat} {process : Process × Nat}, after.running index = some process →
      floor.running (place index) = some process) : Fresh after where
  bounded running := Nat.lt_of_lt_of_le (fresh.bounded (embeds running)) drawn
  distinct left right same := apart (fresh.distinct (embeds left) (embeds right) same)

theorem running_append_idle {floor : Floor} {lane : Lane} (idle : lane.running = none)
    (next : List StepRun) (index : Nat) :
    Floor.running { floor with next, lanes := floor.lanes ++ [lane] } index =
      floor.running index := by
  by_cases inside : index < floor.lanes.length
  · simp [Floor.running, List.getElem?_append_left inside]
  · by_cases last : index = floor.lanes.length
    · simp [Floor.running, last, idle]
    · have missing : (floor.lanes ++ [lane])[index]? = none := by
        rw [List.getElem?_eq_none_iff, List.length_append, List.length_singleton]
        omega
      have absent : floor.lanes[index]? = none := by
        rw [List.getElem?_eq_none_iff]
        omega
      simp only [Floor.running, missing, absent]

theorem running_set (floor : Floor) (drawn index other : Nat) (lane : Lane) :
    Floor.running { floor with lanes := floor.lanes.set index lane, drawn } other =
      if index = other ∧ index < floor.lanes.length then lane.running else floor.running other := by
  unfold Floor.running
  rw [List.getElem?_set]
  by_cases same : index = other
  · by_cases inside : index < floor.lanes.length
    · simp [same, same ▸ inside]
    · simp [same, same ▸ inside]
  · simp [same]

theorem Fresh.begin {floor : Floor} (fresh : Fresh floor) (index : Nat) (lane : Lane)
    (process : Process) (running : lane.running = some (process, floor.drawn)) :
    Fresh { floor with lanes := floor.lanes.set index lane, drawn := floor.drawn + 1 } where
  bounded {other found} holds := by
    rw [running_set, running] at holds
    split at holds
    · cases holds
      exact Nat.lt_succ_self _
    · exact Nat.lt_succ_of_lt (fresh.bounded holds)
  distinct {left right one two} leftHolds rightHolds same := by
    rw [running_set, running] at leftHolds rightHolds
    -- only the new process has the new draw
    split at leftHolds
    · next isLeft =>
        cases leftHolds
        split at rightHolds
        · next isRight => exact isLeft.1.symm.trans isRight.1
        · have older := fresh.bounded rightHolds
          exact absurd same.symm (Nat.ne_of_lt older)
    · split at rightHolds
      · cases rightHolds
        have older := fresh.bounded leftHolds
        exact absurd same (Nat.ne_of_lt older)
      · exact fresh.distinct leftHolds rightHolds same

theorem Fresh.draws_ne {floor : Floor} (fresh : Fresh floor) {one two : Process × Nat}
    (together : floor.Together one two) : one.2 ≠ two.2 := by
  obtain ⟨left, right, first, second, apart, isFirst, isSecond, oneRuns, twoRuns⟩ := together
  intro same
  have leftRuns : floor.running left = some one := by simp [Floor.running, isFirst, oneRuns]
  have rightRuns : floor.running right = some two := by simp [Floor.running, isSecond, twoRuns]
  exact apart (fresh.distinct leftRuns rightRuns same)

theorem Fresh.draws_lt {floor : Floor} (fresh : Fresh floor) {one two : Process × Nat}
    (together : floor.Together one two) : one.2 < floor.drawn ∧ two.2 < floor.drawn := by
  obtain ⟨left, right, first, second, _, isFirst, isSecond, oneRuns, twoRuns⟩ := together
  exact ⟨@fresh.bounded left one (by simp [Floor.running, isFirst, oneRuns]),
    @fresh.bounded right two (by simp [Floor.running, isSecond, twoRuns])⟩

section Steps

variable [ShellWords]

theorem reach_running {workflowJobId : String} {floor after : Floor}
    (reached : reach workflowJobId floor = some after) :
    after.drawn = floor.drawn ∧ ∀ index, after.running index = floor.running index := by
  unfold reach at reached
  split at reached
  · cases reached
  · split at reached
    · cases reached
    · split at reached
      · split at reached
        · cases reached
        · cases reached
          exact ⟨rfl, fun _ => rfl⟩
      · cases reached
        exact ⟨rfl, running_append_idle rfl _⟩

theorem Fresh.move {workflowJobId : String} {floor after : Floor} (fresh : Fresh floor)
    (made : Move) (moved : move workflowJobId floor made = some after) : Fresh after := by
  cases made with
  | reach =>
      obtain ⟨drawn, running⟩ := reach_running moved
      refine fresh.of_embeds (Nat.le_of_eq drawn.symm) id Function.injective_id ?_
      intro index process holds
      rw [running] at holds
      exact holds
  | begin index =>
      simp only [Agent.move] at moved
      split at moved
      · split at moved
        · cases moved
          exact fresh.begin index _ _ rfl
        · cases moved
      · cases moved
  | finish index =>
      simp only [Agent.move] at moved
      split at moved
      · cases moved
        refine fresh.of_embeds (Nat.le_refl _) id Function.injective_id ?_
        intro other process holds
        rw [running_set] at holds
        split at holds
        · cases holds
        · exact holds
      · cases moved
  | leave index =>
      simp only [Agent.move] at moved
      split at moved
      · split at moved
        · cases moved
        · cases moved
          refine fresh.of_embeds (Nat.le_refl _)
            (fun other => if other < index then other else other + 1) ?_ ?_
          · intro left right same
            simp only at same
            split at same <;> split at same <;> omega
          · intro other process holds
            rw [Floor.running, List.getElem?_eraseIdx] at holds
            simp only [Floor.running]
            split at holds
            · next before => rwa [if_pos before]
            · next after => rwa [if_neg after]
      · cases moved

theorem Floor.Reachable.fresh {workflowJobId : String} {runs : List StepRun} {floor : Floor}
    (reachable : Floor.Reachable workflowJobId runs floor) : Fresh floor := by
  induction reachable with
  | start => exact Fresh.start runs
  | move made _ moved inductionHypothesis => exact inductionHypothesis.move made moved

/-! ### The steps at work -/

/-- What a lane runs, and will run, are processes of the step. -/
structure Lane.Of (workflowJobId : String) (run : StepRun) (lane : Lane) : Prop where
  rest : ∀ process ∈ lane.rest, process ∈ run.processes workflowJobId
  running : ∀ process, lane.running = some process → process.1 ∈ run.processes workflowJobId

/-- The lanes are those of steps that were reached one after the other. -/
structure Origins (workflowJobId : String) (runs started : List StepRun) (floor : Floor) :
    Prop where
  order : (started ++ floor.next).Sublist runs
  length : started.length = floor.lanes.length
  each : ∀ (index : Nat) (run : StepRun) (lane : Lane), started[index]? = some run →
    floor.lanes[index]? = some lane → lane.Of workflowJobId run

section Origins

variable {workflowJobId : String} {runs started : List StepRun} {floor after : Floor}

theorem Origins.reach (origins : Origins workflowJobId runs started floor)
    (reached : reach workflowJobId floor = some after) :
    ∃ started, Origins workflowJobId runs started after := by
  unfold Agent.reach at reached
  split at reached
  · cases reached
  · split at reached
    · cases reached
    · next run next isNext =>
        have order := isNext ▸ origins.order
        split at reached
        · split at reached
          · cases reached
          · cases reached
            exact ⟨started, ((List.sublist_cons_self run next).append_left started).trans order,
              origins.length, origins.each⟩
        · cases reached
          refine ⟨started ++ [run], by simpa using order, by simp [origins.length], ?_⟩
          intro index other lane isOther isLane
          dsimp only at isLane
          rw [List.getElem?_append] at isOther isLane
          rw [origins.length] at isOther
          split at isOther
          · next inside =>
              rw [if_pos inside] at isLane
              exact origins.each index other lane isOther isLane
          · next outside =>
              rw [if_neg outside] at isLane
              rw [List.getElem?_singleton] at isOther isLane
              split at isOther
              · next last =>
                  rw [if_pos last] at isLane
                  cases isOther
                  cases isLane
                  exact ⟨fun process member => member, nofun⟩
              · cases isOther

/-- A step goes on with a process of its own, or with none. -/
theorem Origins.set (origins : Origins workflowJobId runs started floor) {index drawn : Nat}
    {lane : Lane} (goesOn : ∀ run old, floor.lanes[index]? = some old →
      old.Of workflowJobId run → lane.Of workflowJobId run) :
    Origins workflowJobId runs started
      { floor with lanes := floor.lanes.set index lane, drawn } := by
  refine ⟨origins.order, by simp [origins.length], ?_⟩
  intro other run found isRun isFound
  dsimp only at isFound
  rw [List.getElem?_set] at isFound
  split at isFound
  · next same =>
      subst same
      split at isFound
      · next inside =>
          cases isFound
          have isOld := List.getElem?_eq_getElem inside
          exact goesOn run _ isOld (origins.each _ run _ isRun isOld)
      · cases isFound
  · exact origins.each other run found isRun isFound

theorem Origins.move (origins : Origins workflowJobId runs started floor) (made : Move)
    (moved : move workflowJobId floor made = some after) :
    ∃ started, Origins workflowJobId runs started after := by
  cases made with
  | reach => exact origins.reach moved
  | begin index =>
      simp only [Agent.move] at moved
      split at moved
      · next isLane =>
          split at moved
          · cases moved
            refine ⟨started, origins.set fun run old isOld isOf => ?_⟩
            cases isLane.symm.trans isOld
            refine ⟨fun process member => isOf.rest process (List.mem_cons_of_mem _ member), ?_⟩
            intro process running
            cases running
            exact isOf.rest _ List.mem_cons_self
          · cases moved
      · cases moved
  | finish index =>
      simp only [Agent.move] at moved
      split at moved
      · next isLane =>
          cases moved
          refine ⟨started, origins.set fun run old isOld isOf => ?_⟩
          cases isLane.symm.trans isOld
          exact ⟨isOf.rest, nofun⟩
      · cases moved
  | leave index =>
      simp only [Agent.move] at moved
      split at moved
      · split at moved
        · cases moved
        · cases moved
          refine ⟨started.eraseIdx index,
            ((List.eraseIdx_sublist started index).append_right _).trans origins.order,
            by simp [List.length_eraseIdx, origins.length], ?_⟩
          intro other run lane isRun isLane
          dsimp only at isLane
          rw [List.getElem?_eraseIdx] at isRun isLane
          split at isRun
          · next before =>
              rw [if_pos before] at isLane
              exact origins.each other run lane isRun isLane
          · next behind =>
              rw [if_neg behind] at isLane
              exact origins.each (other + 1) run lane isRun isLane
      · cases moved

theorem Floor.Reachable.origins (reachable : Floor.Reachable workflowJobId runs floor) :
    ∃ started, Origins workflowJobId runs started floor := by
  induction reachable with
  | start => exact ⟨[], List.Sublist.refl runs, rfl, by simp⟩
  | move made _ moved inductionHypothesis =>
      obtain ⟨started, origins⟩ := inductionHypothesis
      exact origins.move made moved

/-- What holds between the processes of any two steps holds of processes that run at the same
time. -/
theorem Floor.Reachable.together {related : Process → Process → Prop}
    (symmetric : ∀ {one two}, related one two → related two one)
    (apart : runs.Pairwise fun first second => ∀ one ∈ first.processes workflowJobId,
      ∀ two ∈ second.processes workflowJobId, related one two)
    (reachable : Floor.Reachable workflowJobId runs floor) {one two : Process × Nat}
    (together : floor.Together one two) : related one.1 two.1 := by
  obtain ⟨started, origins⟩ := reachable.origins
  obtain ⟨left, right, first, second, differ, isFirst, isSecond, oneRuns, twoRuns⟩ := together
  have pairwise := apart.sublist ((List.sublist_append_left started floor.next).trans origins.order)
  obtain ⟨leftBound, sameFirst⟩ := List.getElem?_eq_some_iff.mp isFirst
  obtain ⟨rightBound, sameSecond⟩ := List.getElem?_eq_some_iff.mp isSecond
  rw [← origins.length] at leftBound rightBound
  have inFirst := (origins.each left _ first (List.getElem?_eq_getElem leftBound) isFirst).running
    one oneRuns
  have inSecond := (origins.each right _ second (List.getElem?_eq_getElem rightBound)
    isSecond).running two twoRuns
  rw [List.pairwise_iff_getElem] at pairwise
  rcases Nat.lt_or_gt_of_ne differ with before | behind
  · exact pairwise left right leftBound rightBound before _ inFirst _ inSecond
  · exact symmetric (pairwise right left rightBound leftBound behind _ inSecond _ inFirst)

end Origins

/-! ### Isolation -/

/-- In every execution of a job, processes that run at the same time are in the relation. -/
def AlwaysTogether [Serde] (related : Floor → Process × Nat → Process × Nat → Prop)
    (planIndex : Nat) (job : PlannedJob) : Prop :=
  ∀ (runs : List StepRun), runs.map StepRun.step = job.steps →
    ∀ floor, Floor.Reachable (eventJobId planIndex job) runs floor →
      ∀ one two, floor.Together one two → related floor one two

/-- All instances of a run, each with the number of its plan, are in the relation. -/
def ForInstances [Serde] (holds : Nat → PlannedJob → Prop) (plans : List RunPlan) : Prop :=
  ∀ planIndex running, plans[planIndex]? = some running →
    ∀ job ∈ running.instances, holds planIndex job

/-- The processes have no file in common, whatever texts were drawn so far. -/
def FilesApart (floor : Floor) (one two : Process × Nat) : Prop :=
  ∀ uuids : Uuids floor.drawn, (commandFiles uuids one).Disjoint (commandFiles uuids two)

/-- Every instance has a workspace of its own, and processes that run at the same time in
one job have command files of their own. -/
structure Isolated [Serde] (plans : List RunPlan) : Prop where
  workspaces : (workspaceDirectories plans).Nodup
  commandFiles : ForInstances (AlwaysTogether FilesApart) plans

/-- No two instances of one plan look alike, nor do two scripts of one job that run at the
same time. -/
structure Distinguishable [Serde] (plans : List RunPlan) : Prop where
  instances : ∀ running ∈ plans,
    running.instances.Pairwise fun one two => ¬ LookAlike one.id two.id
  scripts : ForInstances (AlwaysTogether fun _ one two => ¬ AlikeProcesses one.1 two.1) plans

omit [ShellWords] in
theorem Fresh.filesApart_iff {floor : Floor} (fresh : Fresh floor) {one two : Process × Nat}
    (together : floor.Together one two) :
    FilesApart floor one two ↔ ¬ AlikeProcesses one.1 two.1 := by
  obtain ⟨oneDrawn, twoDrawn⟩ := fresh.draws_lt together
  have each := fun uuids : Uuids floor.drawn =>
    commandFiles_disjoint_iff uuids oneDrawn twoDrawn (fresh.draws_ne together)
  constructor
  · intro apart
    exact (each default).mp (apart default)
  · intro differ uuids
    exact (each uuids).mpr differ

/-- A run is isolated exactly if its job instances, and the scripts that run at the same time
in one job, can be told apart by the characters that their file names keep. -/
theorem isolated_iff [Serde] (plans : List RunPlan) :
    Isolated plans ↔ Distinguishable plans := by
  have files : ∀ {planIndex : Nat} {job : PlannedJob}, AlwaysTogether FilesApart planIndex job ↔
      AlwaysTogether (fun _ one two => ¬ AlikeProcesses one.1 two.1) planIndex job := by
    intro planIndex job
    apply forall_congr'; intro runs
    apply forall_congr'; intro same
    apply forall_congr'; intro floor
    apply forall_congr'; intro reachable
    apply forall_congr'; intro one
    apply forall_congr'; intro two
    apply forall_congr'; intro together
    exact reachable.fresh.filesApart_iff together
  constructor
  · intro isolated
    refine ⟨(workspaceDirectories_nodup_iff plans).mp isolated.workspaces, ?_⟩
    intro planIndex running isPlan job member
    exact files.mp (isolated.commandFiles planIndex running isPlan job member)
  · intro distinguishable
    refine ⟨(workspaceDirectories_nodup_iff plans).mpr distinguishable.instances, ?_⟩
    intro planIndex running isPlan job member
    exact files.mpr (distinguishable.scripts planIndex running isPlan job member)

end Steps

namespace Sample

open Workflows.Sample

scoped instance shellWords : ShellWords where
  split shell := .ok [shell]

/-! ### Two job instances -/

/-- The instances of `a` are `a[1]` and `a[2]`. -/
def twins : Workflow where
  name := "twins"
  jobs := [("a", { runner with strategy := some (.mapping [(.string "matrix", .mapping
      [(.string "os", .sequence [.string "macos-14", .string "macos-15"])])]) }),
    ("a-1-", runner)]
  distinct := by decide

/-- The ids of the steps, written or generated, are valid. -/
def ValidSteps (workflow : Workflow) : Prop :=
  ∀ entry ∈ workflow.jobs, ∀ step ∈ entry.2.steps, ∀ id, step.id = some id → ValidId id

/-- The ids of a plan of ordinary jobs. -/
def ordinaryIds : Outcome ExecutionPlan → Option (List String)
  | .ok plan =>
      if plan.jobs.all fun job => job.virtualJob.isNone && job.dynamicMatrix.isNone then
        some (plan.jobs.map (·.id))
      else none
  | .error _ => none

/-- A plan that runs as it was compiled. -/
def asPlanned [Serde] (plan : ExecutionPlan) : RunPlan where
  plan
  jobs := plan.jobs
  expanded := .planned
  combinations _ := []

theorem instances_asPlanned [Serde] {plan : ExecutionPlan}
    (plain : ∀ job ∈ plan.jobs, job.virtualJob = none ∧ job.dynamicMatrix = none) :
    (asPlanned plan).instances = plan.jobs := by
  have kept : plan.jobs.filter (fun job => job.virtualJob.isNone) = plan.jobs :=
    List.filter_eq_self.mpr fun job member => by simp [(plain job member).1]
  rw [RunPlan.instances, asPlanned, kept]
  conv_rhs => rw [← List.flatMap_singleton' plan.jobs]
  apply List.flatMap_congr
  intro job member
  simp [(plain job member).2]

theorem exists_of_ordinaryIds {outcome : Outcome ExecutionPlan} {ids : List String}
    (same : ordinaryIds outcome = some ids) : ∃ plan, outcome = .ok plan ∧
      (asPlanned plan).instances = plan.jobs ∧ plan.jobs.map (·.id) = ids := by
  cases outcome with
  | error failure => cases same
  | ok plan =>
      rw [ordinaryIds] at same
      split at same
      · next plain =>
          refine ⟨plan, rfl, instances_asPlanned ?_, Option.some.inj same⟩
          intro job member
          simpa using List.all_eq_true.mp plain job member
      · cases same

theorem validId_of_check {id : String} {first : Char} {rest : List Char}
    (chars : id.toList = first :: rest) (firstOk : isAsciiAlphabetic first = true)
    (restOk : (rest.all fun char => isAsciiAlphanumeric char || char = '_' || char = '-') = true) :
    ValidId id := by
  refine ⟨first, rest, chars, .inl firstOk, fun char member => ?_⟩
  simpa [or_assoc] using List.all_eq_true.mp restOk char member

theorem twins_valid : ValidWorkflow twins ∧ ValidSteps twins := by
  constructor
  · intro entry member
    rcases List.mem_cons.mp member with first | rest
    · subst first
      exact validId_of_check rfl (by decide) (by decide)
    · cases List.mem_singleton.mp rest
      exact validId_of_check rfl (by decide) (by decide)
  · intro entry member step inside id isId
    rcases List.mem_cons.mp member with first | rest
    · subst first
      cases List.mem_singleton.mp inside
      cases isId
    · cases List.mem_singleton.mp rest
      cases List.mem_singleton.mp inside
      cases isId

/-- `a[1]` and `a-1-` work in the directory `0-a-1-`. -/
theorem twins_share_workspace : ∃ plan,
    compileWithReusables twins ".github/workflows/ci.yml" ∅ = .ok plan ∧
      ¬ (workspaceDirectories [asPlanned plan]).Nodup := by
  obtain ⟨plan, ran, instances, ids⟩ := exists_of_ordinaryIds
    (show ordinaryIds (compileWithReusables twins ".github/workflows/ci.yml" ∅) =
      some ["a[1]", "a[2]", "a-1-"] by decide)
  refine ⟨plan, ran, ?_⟩
  have directories : workspaceDirectories [asPlanned plan] =
      (plan.jobs.map (·.id)).map fun id => s!"{0}-{sanitizeId id}" := by
    simp [workspaceDirectories, instances, workspaceDirectory]
  rw [directories, ids]
  decide

/-! ### Two steps -/

def nestedSteps : Workflow where
  name := "nested"
  jobs := [("build", { runner with steps := [
    { id := some "a", uses := some "./action", background := some "true" },
    { id := some "a-b", run := some "true" }] })]
  distinct := by decide

theorem nestedSteps_valid : ValidWorkflow nestedSteps ∧ ValidSteps nestedSteps := by
  constructor
  · intro entry member
    cases List.mem_singleton.mp member
    exact validId_of_check rfl (by decide) (by decide)
  · intro entry member step inside id isId
    cases List.mem_singleton.mp member
    rcases List.mem_cons.mp inside with first | rest
    · subst first
      cases isId
      exact validId_of_check rfl (by decide) (by decide)
    · cases List.mem_singleton.mp rest
      cases isId
      exact validId_of_check rfl (by decide) (by decide)

/-- A composite action whose only step has the id `b`. -/
def nestedAction : Action := .composite (.run (some "b") "bash" .done)

/-- The background step `a` runs its nested step `b` while the step `a-b` runs. -/
theorem nested_processes_together (workflowJobId : String) {first second : PlannedStep}
    (firstId : first.id = "a") (secondId : second.id = "a-b")
    (declared : first.background.isSome = true)
    (firstKind : ∃ action inputs, first.kind = .uses action inputs)
    (secondKind : ∃ shell script, second.kind = .run shell script) :
    ∃ floor, Floor.Reachable workflowJobId [
        { step := first, background := true, declared := fun _ =>
          declared, action := nestedAction },
        { step := second, shell := "bash" }] floor ∧
      floor.Together (.script (workflowJobId ++ "/" ++ "a" ++ "/" ++ "b") "sh", 0)
        (.script (workflowJobId ++ "/" ++ "a-b") "sh", 1) := by
  obtain ⟨action, inputs, isUses⟩ := firstKind
  obtain ⟨shell, script, isRun⟩ := secondKind
  have extension : shellScriptExtension "bash" = .ok "sh" := by decide
  let firstRun : StepRun :=
    { step := first, background := true, declared := fun _ => declared, action := nestedAction }
  let secondRun : StepRun := { step := second, shell := "bash" }
  let firstLane : Lane := {
    stepId := "a"
    background := true
    rest := [.script (workflowJobId ++ "/" ++ "a" ++ "/" ++ "b") "sh"] }
  let secondLane : Lane := {
    stepId := "a-b"
    background := false
    rest := [.script (workflowJobId ++ "/" ++ "a-b") "sh"] }
  have isFirst : laneOf workflowJobId firstRun = firstLane := by
    simp only [laneOf, StepRun.processes, firstRun, isUses, firstId, nestedAction,
      Action.processes, Nested.processes, scriptProcess, extension, compositeStepId]
    rfl
  have isSecond : laneOf workflowJobId secondRun = secondLane := by
    simp only [laneOf, StepRun.processes, secondRun, isRun, secondId, scriptProcess, extension]
    rfl
  have firstReached : Floor.Reachable workflowJobId [firstRun, secondRun]
      { next := [secondRun], lanes := [firstLane] } :=
    .move .reach .start (by simp [move, reach, joins, isUses, firstRun, ← isFirst])
  have bothReached : Floor.Reachable workflowJobId [firstRun, secondRun]
      { next := [], lanes := [firstLane, secondLane] } :=
    .move .reach firstReached (by simp [move, reach, joins, isRun, firstLane,
      secondRun, ← isSecond])
  have firstBegun := bothReached.move (.begin 0) rfl
  have bothBegun := firstBegun.move (.begin 1) rfl
  exact ⟨_, bothBegun, 0, 1, _, _, by decide, rfl, rfl, rfl, rfl⟩

/-- The id of a step, whether it is a `uses` or a `run` step, and whether it may run in the
background. -/
def stepShape (step : PlannedStep) : String × Bool × Bool × Bool :=
  (step.id, match step.kind with | .uses _ _ => true | _ => false, step.kind.isRun,
    step.background.isSome)

/-- The jobs of a plan, with the shapes of their steps. -/
def jobShapes : Outcome ExecutionPlan → List (String × List (String × Bool × Bool × Bool))
  | .ok plan => plan.jobs.map fun job => (job.id, job.steps.map stepShape)
  | .error _ => []

theorem stepShape_uses {step : PlannedStep} {id : String} {background : Bool}
    (shape : stepShape step = (id, true, false, background)) :
    step.id = id ∧ (∃ action inputs, step.kind = .uses action inputs) ∧
      step.background.isSome = background := by
  simp only [stepShape, Prod.mk.injEq] at shape
  refine ⟨shape.1, ?_, shape.2.2.2⟩
  cases kind : step.kind with
  | uses action inputs => exact ⟨action, inputs, rfl⟩
  | _ => simp [kind] at shape

theorem stepShape_run {step : PlannedStep} {id : String} {background : Bool}
    (shape : stepShape step = (id, false, true, background)) :
    step.id = id ∧ ∃ shell script, step.kind = .run shell script := by
  simp only [stepShape, Prod.mk.injEq] at shape
  refine ⟨shape.1, ?_⟩
  cases kind : step.kind with
  | run shell script => exact ⟨shell, script, rfl⟩
  | _ => simp [kind, StepKind.isRun] at shape

theorem nested_lookAlike (workflowJobId : String) :
    LookAlike (workflowJobId ++ "/" ++ "a" ++ "/" ++ "b") (workflowJobId ++ "/" ++ "a-b") := by
  rw [← sanitizeId_eq_iff, ← String.toList_inj, sanitizeId_toList, sanitizeId_toList]
  simp only [String.toList_append, List.map_append, List.append_assoc]
  congr 1

theorem nestedSteps_share_files : ∃ plan,
    compileWithReusables nestedSteps ".github/workflows/ci.yml" ∅ = .ok plan ∧
      ∃ job ∈ (asPlanned plan).instances, ¬ AlwaysTogether FilesApart 0 job := by
  obtain ⟨plan, ran, instances, ids⟩ := exists_of_ordinaryIds
    (show ordinaryIds (compileWithReusables nestedSteps ".github/workflows/ci.yml" ∅) =
      some ["build"] by decide)
  have shapes : jobShapes (compileWithReusables nestedSteps ".github/workflows/ci.yml" ∅) =
    [("build", [("a", true, false, true), ("a-b", false, true, false)])] := by decide
  obtain ⟨job, isJob⟩ : ∃ job, plan.jobs = [job] := by
    apply List.length_eq_one_iff.mp
    simpa using congrArg List.length ids
  refine ⟨plan, ran, job, by simp [instances, isJob], ?_⟩
  rw [ran, jobShapes, isJob, List.map_singleton, List.singleton_inj, Prod.mk.injEq] at shapes
  obtain ⟨first, rest, isSteps, firstShape, restShapes⟩ := List.map_eq_cons_iff.mp shapes.2
  obtain ⟨second, none, rfl, secondShape, noneShapes⟩ := List.map_eq_cons_iff.mp restShapes
  rw [List.map_eq_nil_iff.mp noneShapes] at isSteps
  obtain ⟨firstId, firstKind, declared⟩ := stepShape_uses firstShape
  obtain ⟨secondId, secondKind⟩ := stepShape_run secondShape
  obtain ⟨floor, reachable, together⟩ :=
    nested_processes_together (eventJobId 0 job) firstId secondId
    declared firstKind secondKind
  intro disjoint
  have apart := disjoint _ (by simp [isSteps]) floor reachable _ _ together
  exact (reachable.fresh.filesApart_iff together).mp apart (nested_lookAlike _)

/-- Valid ids do not keep instances apart, nor steps that run at the same time. -/
theorem valid_ids_collide :
    (ValidWorkflow twins ∧ ValidSteps twins ∧ ∃ plan,
      compileWithReusables twins ".github/workflows/ci.yml" ∅ = .ok plan ∧
        ¬ (workspaceDirectories [asPlanned plan]).Nodup) ∧
    (ValidWorkflow nestedSteps ∧ ValidSteps nestedSteps ∧ ∃ plan,
      compileWithReusables nestedSteps ".github/workflows/ci.yml" ∅ = .ok plan ∧
        ¬ ForInstances (AlwaysTogether FilesApart) [asPlanned plan]) := by
  refine ⟨⟨twins_valid.1, twins_valid.2, twins_share_workspace⟩,
    nestedSteps_valid.1, nestedSteps_valid.2, ?_⟩
  obtain ⟨plan, ran, job, member, shares⟩ := nestedSteps_share_files
  refine ⟨plan, ran, fun isolated => ?_⟩
  exact shares (isolated 0 (asPlanned plan) rfl job member)

/-! ### A run that is isolated -/

/-- Two instances of a job with a background step, and a job beside them. -/
def apart : Workflow where
  name := "apart"
  jobs := [("a", { runner with
      strategy := some (.mapping [(.string "matrix", .mapping
        [(.string "os", .sequence [.string "macos-14", .string "macos-15"])])])
      steps := [
        { id := some "serve", run := some "true", background := some "true" },
        { id := some "test", run := some "true" }] }),
    ("b", runner)]
  distinct := by decide

theorem not_lookAlike_of_last (front one two : String)
    (differ : sanitizeId one ≠ sanitizeId two) : ¬ LookAlike (front ++ one) (front ++ two) := by
  intro alike
  have same := (sanitizeId_eq_iff _ _).mpr alike
  rw [← String.toList_inj, sanitizeId_toList, sanitizeId_toList, String.toList_append,
    String.toList_append, List.map_append, List.map_append] at same
  apply differ
  rw [← String.toList_inj, sanitizeId_toList, sanitizeId_toList]
  exact List.append_cancel_left same

/-- In a job of `run` steps whose ids can be told apart, scripts never look alike. -/
theorem alwaysTogether_of_runs {planIndex : Nat} {job : PlannedJob}
    (kinds : ∀ step ∈ job.steps, ∃ shell script, step.kind = .run shell script)
    (ids : job.steps.Pairwise fun one two => sanitizeId one.id ≠ sanitizeId two.id) :
    AlwaysTogether (fun _ one two => ¬ AlikeProcesses one.1 two.1) planIndex job := by
  intro runs sameSteps floor reachable one two together
  have processes : ∀ run ∈ runs, ∀ process ∈ run.processes (eventJobId planIndex job),
      ∃ scriptExtension,
        process = .script (eventJobId planIndex job ++ "/" ++ run.step.id) scriptExtension := by
    intro run member process inside
    obtain ⟨shell, script, isRun⟩ := kinds run.step (sameSteps ▸ List.mem_map_of_mem member)
    rw [StepRun.processes, isRun] at inside
    dsimp only at inside
    split at inside
    · cases inside
    · rw [scriptProcess] at inside
      split at inside
      · exact ⟨_, List.mem_singleton.mp inside⟩
      · cases inside
  rw [← sameSteps, List.pairwise_map] at ids
  have symmetric : ∀ {one two : Process}, ¬ AlikeProcesses one two → ¬ AlikeProcesses two one := by
    intro one two differ alike
    apply differ
    cases one with
    | script =>
        cases two with
        | script => exact alike.flip.imp fun _ _ same => same.imp Eq.symm And.symm
        | phase => exact alike
    | phase => cases two <;> exact alike
  have pairwise : runs.Pairwise fun first second =>
      ∀ one ∈ first.processes (eventJobId planIndex job),
        ∀ two ∈ second.processes (eventJobId planIndex job), ¬ AlikeProcesses one two := by
    refine ids.imp_of_mem fun {first second} inFirst inSecond differ => ?_
    intro one inOne two inTwo
    obtain ⟨_, rfl⟩ := processes first inFirst one inOne
    obtain ⟨_, rfl⟩ := processes second inSecond two inTwo
    exact not_lookAlike_of_last _ _ _ differ
  exact reachable.together symmetric pairwise together

/-- The instances `a[1]`, `a[2]` and `b` have directories of their own, and the background step
of an instance never shares a file with the step behind it. -/
theorem apart_isolated : ∃ plan,
    compileWithReusables apart ".github/workflows/ci.yml" ∅ = .ok plan ∧
      Isolated [asPlanned plan] := by
  obtain ⟨plan, ran, instances, ids⟩ := exists_of_ordinaryIds
    (show ordinaryIds (compileWithReusables apart ".github/workflows/ci.yml" ∅) =
      some ["a[1]", "a[2]", "b"] by decide)
  have shapes : jobShapes (compileWithReusables apart ".github/workflows/ci.yml" ∅) =
    [("a[1]", [("serve", false, true, true), ("test", false, true, false)]),
      ("a[2]", [("serve", false, true, true), ("test", false, true, false)]),
      ("b", [("step-1", false, true, false)])] := by decide
  rw [ran, jobShapes] at shapes
  refine ⟨plan, ran, (isolated_iff [asPlanned plan]).mpr ⟨?_, ?_⟩⟩
  · intro running isPlan
    rw [List.mem_singleton.mp isPlan, instances]
    have pairwise : (plan.jobs.map (·.id)).Pairwise fun one two => ¬ LookAlike one two := by
      rw [ids]
      simp only [← sanitizeId_eq_iff]
      decide
    exact List.pairwise_map.mp pairwise
  · intro planIndex running isPlan job member
    obtain rfl : running = asPlanned plan := by
      have inside := List.mem_of_getElem? isPlan
      exact List.mem_singleton.mp inside
    rw [instances] at member
    have shape := List.mem_map_of_mem (f := fun job : PlannedJob =>
      (job.id, job.steps.map stepShape)) member
    rw [shapes] at shape
    have kinds : ∀ step ∈ job.steps, ∃ id background,
        stepShape step = (id, false, true, background) := by
      intro step inside
      have listed : stepShape step ∈ job.steps.map stepShape := List.mem_map_of_mem inside
      simp only [List.mem_cons, Prod.mk.injEq, List.not_mem_nil, or_false] at shape
      rcases shape with ⟨-, same⟩ | ⟨-, same⟩ | ⟨-, same⟩
      all_goals
        rw [same] at listed
        simp only [List.mem_cons, List.not_mem_nil, or_false] at listed
      · rcases listed with first | second
        · exact ⟨_, _, first⟩
        · exact ⟨_, _, second⟩
      · rcases listed with first | second
        · exact ⟨_, _, first⟩
        · exact ⟨_, _, second⟩
      · exact ⟨_, _, listed⟩
    have names : (job.steps.map stepShape).Pairwise fun one two =>
        sanitizeId one.1 ≠ sanitizeId two.1 := by
      simp only [List.mem_cons, Prod.mk.injEq, List.not_mem_nil, or_false] at shape
      rcases shape with ⟨-, same⟩ | ⟨-, same⟩ | ⟨-, same⟩
      all_goals
        rw [same]
        decide
    refine alwaysTogether_of_runs (fun step inside => ?_)
      ((List.pairwise_map (f := stepShape)).mp names)
    obtain ⟨id, background, isShape⟩ := kinds step inside
    exact (stepShape_run isShape).2

end Sample

end GitZero.Agent
