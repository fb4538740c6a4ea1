/-
Module: GitZero.Proofs.StepCourses
Purpose: Every step that executes in a job has a course that says what its processes and its
  checkouts did to the environment.
Trusted boundary: none
Main exports: executeStep_ran, executeStepTrees_ran
-/
import GitZero.Agent.CheckoutSteps

namespace GitZero.Agent

open Workflows
open Expression (ExecutionStatus)

/-! ### Values -/

section Values

variable {α β : Type} {program : JobM α} {log : JobLog} {between : α → Prop} {holds : β → Prop}

/-- What holds of the value if the program returns one. -/
def Returns (program : JobM α) (log : JobLog) (holds : α → Prop) : Prop :=
  Recording.Ensures program log (fun value _ => holds value) fun _ => True

theorem Returns.value {value : β} (isValue : holds value) : Returns (pure value) log holds :=
  Recording.ensures_pure isValue

theorem Returns.bind {next : α → JobM β} (first : Returns program log between)
    (second : ∀ value after, between value → Returns (next value) after holds) :
    Returns (program >>= next) log holds :=
  Recording.ensures_bind first second

theorem Returns.mono {weaker : α → Prop} (returns : Returns program log between)
    (weakens : ∀ value, between value → weaker value) : Returns program log weaker :=
  Recording.Ensures.mono returns (fun value _ => weakens value) fun _ => id

theorem Returns.any (program : JobM α) (log : JobLog) : Returns program log fun _ => True := by
  unfold Returns Recording.Ensures
  split <;> trivial

/-- A program whose value does not matter. -/
theorem Returns.after {next : α → JobM β}
    (second : ∀ value after, Returns (next value) after holds) :
    Returns (program >>= next) log holds :=
  (Returns.any program log).bind fun value after _ => second value after

theorem Returns.ofOption {option : Option α} {next : α → JobM β}
    (second : ∀ value, option = some value → Returns (next value) log holds) :
    Returns (Recording.ofOption option >>= next) log holds :=
  Recording.ensures_ofOption_bind (fun _ => trivial) second

end Values

/-! ### Processes -/

section Processes

variable {course : Course} {log : JobLog} {environment : Environment}

theorem runWorkflowProcess_ran (enclosing : List Environment) (captured : Option Environment)
    (received : Nat → Environment) :
    Returns (runWorkflowProcess course enclosing captured environment received) log fun phase =>
      ∃ moment, readBack course.agent environment (course.process moment) =
        some phase.environment := by
  unfold runWorkflowProcess
  refine Returns.after fun moment after => Returns.after fun _ after => ?_
  refine Returns.ofOption fun changed applied => Returns.ofOption fun state _ => ?_
  exact Returns.value ⟨moment, applied⟩

/-- The processes of some moments make one environment of the other. -/
def Processed (course : Course) (environment changed : Environment) : Prop :=
  ∃ moments : List Nat,
    (moments.map course.process).foldlM (readBack course.agent) environment = some changed

theorem Processed.none : Processed course environment environment := ⟨[], rfl⟩

theorem Processed.one {changed : Environment} {moment : Nat}
    (isRead : readBack course.agent environment (course.process moment) = some changed) :
    Processed course environment changed := by
  refine ⟨[moment], ?_⟩
  rw [List.map_singleton, List.foldlM_cons, isRead]
  rfl

theorem Processed.trans {between changed : Environment}
    (first : Processed course environment between) (second : Processed course between changed) :
    Processed course environment changed := by
  obtain ⟨before, ranBefore⟩ := first
  obtain ⟨after, ranAfter⟩ := second
  refine ⟨before ++ after, ?_⟩
  rw [List.map_append, List.foldlM_append, ranBefore]
  exact ranAfter

theorem executePre_ran (enclosing : List Environment) (action : Environment) (pre : Bool) :
    Returns (executePre course enclosing environment action pre) log fun phase =>
      Processed course environment phase.environment := by
  cases pre with
  | false => exact Returns.value Processed.none
  | true =>
      refine Returns.after fun allowed after => ?_
      cases allowed with
      | false => exact Returns.value Processed.none
      | true =>
          exact (runWorkflowProcess_ran _ _ _).mono fun phase ⟨_, isRead⟩ => Processed.one isRead

theorem executeMain_ran (enclosing : List Environment) (action : Environment) (before : PhaseEnd) :
    Returns (executeMain course enclosing action before) log fun phase =>
      Processed course before.environment phase.environment := by
  unfold executeMain
  split
  · refine (runWorkflowProcess_ran _ _ _).bind fun phase after ⟨_, isRead⟩ => ?_
    exact Returns.value (Processed.one isRead)
  · exact Returns.value Processed.none

theorem executeJavascript_ran (enclosing : List Environment) (action : Environment)
    (pre post : Bool) :
    Returns (executeJavascript course enclosing environment action pre post) log fun ended =>
      Processed course environment ended.environment := by
  unfold executeJavascript
  refine (executePre_ran enclosing action pre).bind fun before after first => ?_
  refine (executeMain_ran enclosing action before).bind fun main after second => ?_
  refine Returns.after fun _ after => Returns.after fun conclusion after => ?_
  exact Returns.value (first.trans second)

theorem executeCheckout_ran (enclosing : List Environment) :
    Returns (executeCheckout course enclosing environment) log fun ended =>
      ∃ moment, (course.checkout moment).leaves environment = some ended.environment := by
  unfold executeCheckout
  refine Returns.after fun moment after => ?_
  dsimp only
  cases ready : (course.checkout moment).ready with
  | true =>
      rw [if_pos rfl]
      refine Returns.ofOption fun received isReceived => ?_
      refine Returns.ofOption fun changed isChanged => Returns.after fun _ after => ?_
      refine Returns.ofOption fun conclusion isConclusion => Returns.value ⟨moment, ?_⟩
      rw [CheckoutCourse.leaves, if_pos ready, isReceived, isChanged, isConclusion]
      rfl
  | false =>
      rw [if_neg Bool.false_ne_true]
      refine Returns.ofOption fun conclusion isConclusion => Returns.value ⟨moment, ?_⟩
      rw [CheckoutCourse.leaves, ready, if_neg Bool.false_ne_true, isConclusion]
      rfl

end Processes

/-! ### Steps -/

section Steps

variable {course : Course}

/-- The step has run on a course that makes one environment of the other. -/
def RanTo (course : Course) (step : StepTree) (environment changed : Environment) : Prop :=
  ∃ run, Ran course step run ∧ run.execute course.agent environment = some changed

theorem RanTo.skipped (step : StepTree) (environment : Environment) :
    RanTo course step environment environment := by
  refine ⟨.processes [], .skipped step, ?_⟩
  rw [StepCourse.execute]
  rfl

/-- A step whose condition is false changes nothing. -/
theorem Returns.begin {header : StepHeader} {step : StepTree} {environment : Environment}
    {log : JobLog} {next : Option Environment → JobM StepEnd}
    (skips : next none = pure { environment, conclusion := .skipped })
    (runs : ∀ own after, Returns (next (some own)) after fun ended =>
      RanTo course step environment ended.environment) :
    Returns (beginStep course header >>= next) log fun ended =>
      RanTo course step environment ended.environment := by
  refine Returns.after fun begun after => ?_
  cases begun with
  | none =>
      rw [skips]
      exact Returns.value (RanTo.skipped step environment)
  | some own => exact runs own after

mutual

/-- A step ends in the environment that its processes and phases give. -/
theorem executeStep_ran (step : StepTree) (log : JobLog) (enclosing : List Environment)
    (environment : Environment) :
    Returns (executeStep course enclosing step environment) log fun ended =>
      RanTo course step environment ended.environment := by
  match step with
  | .run header =>
      rw [executeStep]
      refine Returns.begin rfl fun own after => ?_
      refine (runWorkflowProcess_ran _ _ _).bind fun phase after ⟨moment, isRead⟩ => ?_
      refine Returns.value ⟨_, .run header moment, ?_⟩
      rw [StepCourse.execute, List.foldlM_cons, isRead]
      rfl
  | .checkout header =>
      rw [executeStep]
      refine Returns.begin rfl fun own after => ?_
      refine (executeCheckout_ran _).mono fun ended ⟨moment, leaves⟩ => ?_
      refine ⟨_, .checkout header moment, ?_⟩
      rw [StepCourse.execute, leaves]
  | .javascript header action pre post =>
      rw [executeStep]
      refine Returns.begin rfl fun own after => Returns.after fun inputs after => ?_
      refine (executeJavascript_ran _ _ pre post).mono fun ended ⟨moments, isRead⟩ => ?_
      refine ⟨_, .javascript header action pre post moments, ?_⟩
      rw [StepCourse.execute, isRead]
  | .composite header action steps =>
      rw [executeStep]
      refine Returns.begin rfl fun own after => Returns.after fun inputs after => ?_
      refine Returns.after fun before after => ?_
      refine (executeStepTrees_ran steps after (own :: enclosing) (fun _ => false) _ .success).bind
        fun last after ⟨runs, ran, execute⟩ => ?_
      refine Returns.after fun _ after => Returns.after fun conclusion after => ?_
      refine Returns.value ⟨_, .composite header action own inputs ran, ?_⟩
      rw [StepCourse.execute, execute]
      rfl

/-- The same for the steps of a composite action. -/
theorem executeStepTrees_ran (steps : List StepTree) (log : JobLog)
    (enclosing : List Environment) (stops : Nat → Bool) (environment : Environment)
    (status : ExecutionStatus) :
    Returns (executeStepTrees course enclosing stops steps environment status) log fun last =>
      ∃ runs, RanAll course steps runs ∧
        executeRuns course.agent runs environment = some last.1 := by
  match steps with
  | [] =>
      rw [executeStepTrees]
      exact Returns.value ⟨[], .stopped [], by rw [executeRuns]⟩
  | step :: rest =>
      rw [executeStepTrees]
      refine Returns.after fun moment after => ?_
      split
      · exact Returns.value ⟨[], .stopped _, by rw [executeRuns]⟩
      · refine (executeStep_ran step after enclosing environment).bind
          fun ended after ⟨run, ran, execute⟩ => ?_
        dsimp only
        split
        · refine Returns.value ⟨[run], .next ran (.stopped rest), ?_⟩
          rw [executeRuns, execute, Option.bind_some, executeRuns]
        · refine (executeStepTrees_ran rest after enclosing stops ended.environment _).mono
            fun last ⟨runs, ranAll, executeRest⟩ => ?_
          refine ⟨run :: runs, .next ran ranAll, ?_⟩
          rw [executeRuns, execute, Option.bind_some, executeRest]

end

end Steps

end GitZero.Agent
