/-
Module: GitZero.Agent.CheckoutSteps
Purpose: What the steps of a job that ran do to an environment, checkouts and composite
  actions among them; and the environment of a job under its foreground steps and the
  background steps that are merged into it in any order.
Trusted boundary: none
Main exports: configureInPlace, StepCourse, StepCourse.execute, Ran, CheckoutJob, CheckoutEvent,
  checkoutStep
-/
import GitZero.Agent.Environment
import GitZero.Lib.Base64

namespace GitZero.Agent

/-! ### Credentials -/

/-- The header for a nonempty token. -/
def credentialHeader (token : String) : String :=
  "AUTHORIZATION: basic " ++
    String.ofList (Base64.btoa ("x-access-token:" ++ token).toUTF8.toList)

/-- `configure_checkout_credentials` changes the variables where they are; the flag says whether
it succeeded. -/
def configureInPlace (environment : Environment) (credential : Option String)
    (rewriteSshSubmoduleUrls : Bool) : Environment × Bool :=
  match gitConfigCount environment with
  | none => (environment, false)
  | some count =>
      if count > maxInlineGitConfigParameters + 2 then (environment, false)
      else
        match unmanagedGitConfig environment count with
        | none => (environment, false)
        | some entries =>
            let managedEntryCount :=
              credential.toList.length + if rewriteSshSubmoduleUrls then 1 else 0
            if entries.length + managedEntryCount > maxInlineGitConfigParameters + 2 then
              (environment, false)
            else
              let removed := removeGitConfig environment count
              let authorized :=
                entries ++ credential.toList.map fun value => (checkoutHttpExtraheader, value)
              let complete :=
                if rewriteSshSubmoduleUrls then
                  authorized ++ [(checkoutSshInsteadOf, "git@github.com:")]
                else authorized
              (insertGitConfig removed complete, true)

/-! ### Steps that ran -/

/-- What a step did when it ran: its processes ended, or it was a checkout, or the steps of a
composite action ran in the environment of the action.  A step that is skipped has no
processes. -/
inductive StepCourse where
  | processes (ended : List ProcessEnd)
  | checkout (checkout : CheckoutCourse)
  | composite (header : StepHeader) (action : ActionUse) (own inputs : Environment)
      (steps : List StepCourse)

section Runs

variable (agent : Environment)

/-- The command files of a process that ended. -/
def readBack (environment : Environment) (ended : ProcessEnd) : Option Environment :=
  (applyEnvironmentFile environment ended.environmentFile).map fun environment =>
    applyPathFile agent environment ended.pathFile

/-- The environment that a checkout leaves; `none` for an error that ends the job. -/
def CheckoutCourse.leaves (checkout : CheckoutCourse) (environment : Environment) :
    Option Environment :=
  if checkout.ready then do
    let _ ← checkoutEnvironment checkout environment
    let changed ← persistCheckout checkout environment
    let _ ← checkout.conclusion
    return changed
  else do
    let _ ← checkout.conclusion
    return environment

mutual

/-- The environment that the step leaves; `none` for an error that ends the job. -/
def StepCourse.execute (step : StepCourse) (environment : Environment) : Option Environment :=
  match step with
  | .processes ended => ended.foldlM (readBack agent) environment
  | .checkout checkout => checkout.leaves environment
  | .composite header action own inputs steps =>
      let initial := actionEnvironment action (visibleEnvironment header environment own) inputs
      (executeRuns steps initial).map (propagate environment initial)

def executeRuns (steps : List StepCourse) (environment : Environment) : Option Environment :=
  match steps with
  | [] => some environment
  | step :: rest => (step.execute environment).bind (executeRuns rest)

end

end Runs

mutual

/-- The step can have run so in the course of the job. -/
inductive Ran (course : Course) : StepTree → StepCourse → Prop
  | skipped (step : StepTree) : Ran course step (.processes [])
  | run (header : StepHeader) (moment : Nat) :
      Ran course (.run header) (.processes [course.process moment])
  | javascript (header : StepHeader) (action : ActionUse) (pre post : Bool)
      (moments : List Nat) :
      Ran course (.javascript header action pre post) (.processes (moments.map course.process))
  | checkout (header : StepHeader) (moment : Nat) :
      Ran course (.checkout header) (.checkout (course.checkout moment))
  | composite (header : StepHeader) (action : ActionUse) (own inputs : Environment)
      {steps : List StepTree} {runs : List StepCourse} (inside : RanAll course steps runs) :
      Ran course (.composite header action steps) (.composite header action own inputs runs)

/-- The steps ran in their order, perhaps not to the last one. -/
inductive RanAll (course : Course) : List StepTree → List StepCourse → Prop
  | stopped (steps : List StepTree) : RanAll course steps []
  | next {step : StepTree} {run : StepCourse} {steps : List StepTree} {runs : List StepCourse}
      (first : Ran course step run) (rest : RanAll course steps runs) :
      RanAll course (step :: steps) (run :: runs)

end

/-! ### The environment of a job -/

/-- A background step that runs: the environment that it started with, and the one that it
leaves. -/
structure DeferredRun where
  id : String
  initial : Environment
  final : Option Environment

/-- `ended` by an error. -/
structure CheckoutJob where
  environment : Environment
  deferred : List DeferredRun := []
  ended : Bool := false

/-- A step ends in the foreground or in the background, or the changes of a background step are
flushed. -/
inductive CheckoutEvent where
  | foreground (step : StepCourse)
  | background (id : String) (step : StepCourse)
  | flush (id : String)

section Jobs

variable {Post : Type} (world : World Post) (agent : Environment)

/-- A background step works on a copy of the environment that it starts with; it is merged
once. -/
def checkoutStep (job : CheckoutJob) : CheckoutEvent → CheckoutJob
  | .foreground step =>
      if job.ended then job
      else
        match step.execute agent job.environment with
        | some environment => { job with environment := environment }
        | none => { job with ended := true }
  | .background id step =>
      if job.ended then job
      else { job with deferred := job.deferred ++
        [{ id, initial := job.environment, final := step.execute agent job.environment }] }
  | .flush id =>
      if job.ended then job
      else
        match job.deferred.find? (·.id = id) with
        | none => job
        | some run =>
            match run.final with
            | none => { job with ended := true }
            | some final => { job with
                environment :=
                  mergeBackgroundEnvironment world job.environment run.initial final
                deferred := job.deferred.filter (·.id ≠ id) }

end Jobs

end GitZero.Agent
