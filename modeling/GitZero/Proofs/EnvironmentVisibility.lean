/-
Module: GitZero.Proofs.EnvironmentVisibility
Purpose: When a process of a job receives the values that the processes before it exported,
  and why the default values of the runner never change.
Trusted boundary: none
Main exports: setByRunner, afterProcesses, Reception.Fresh, Closure.Carried, Kept,
  EnvironmentLaw, environment_visibility
-/
import GitZero.Agent.Environment

namespace GitZero.Agent

open Std Workflows OrderedMaps
open Expression (ExecutionStatus)

/-! ### Names -/

/-- The names that the runner sets itself. -/
def setByRunner (name : String) : Bool :=
  startsWith "GITHUB_" name || startsWith "RUNNER_" name || startsWith "INPUT_" name ||
    startsWith "STATE_" name || startsWith "ACTIONS_" name || startsWith "GIT_" name

/-- The default names that the runner sets anew for each step or each process. -/
def perStepNames : List String :=
  ["GITHUB_ACTION", "GITHUB_ACTION_PATH", "GITHUB_ACTION_REPOSITORY", "GITHUB_ACTION_REF"] ++
    phaseFiles

theorem startsWith_append (start rest : String) : startsWith start (start ++ rest) = true := by
  simp [startsWith]

theorem setByRunner_input (name : String) :
    setByRunner (actionInputEnvironmentName name) = true := by
  simp [setByRunner, actionInputEnvironmentName, startsWith_append]

theorem isDefault_input (name : String) :
    isDefaultEnvironmentName (actionInputEnvironmentName name) = false := by
  simp [isDefaultEnvironmentName, actionInputEnvironmentName, startsWith, List.isPrefixOf]

theorem setByRunner_state (name : String) : setByRunner ("STATE_" ++ name) = true := by
  simp [setByRunner, startsWith_append]

theorem isDefault_state (name : String) : isDefaultEnvironmentName ("STATE_" ++ name) = false := by
  simp [isDefaultEnvironmentName, startsWith, List.isPrefixOf]

theorem isDefault_of_git {name : String} (git : startsWith "GIT_" name = true) :
    isDefaultEnvironmentName name = false := by
  simp only [startsWith, List.isPrefixOf_iff_prefix] at git
  obtain ⟨rest, spelled⟩ := git
  rw [isDefaultEnvironmentName, startsWith, startsWith, ← spelled]
  simp [List.isPrefixOf]

theorem setByRunner_of_git {name : String} (git : startsWith "GIT_" name = true) :
    setByRunner name = true := by
  simp [setByRunner, git]

theorem setByRunner_of_default {name : String} (default : isDefaultEnvironmentName name = true) :
    setByRunner name = true := by
  rw [isDefaultEnvironmentName] at default
  simp only [setByRunner, default, Bool.true_or]

theorem setByRunner_of_perStep {name : String} (perStep : name ∈ perStepNames) :
    setByRunner name = true := by
  have every : ∀ name ∈ perStepNames, setByRunner name = true := List.all_eq_true.mp (by decide)
  exact every name perStep

theorem ne_of_setByRunner {name other : String} (ordinary : setByRunner name = false)
    (own : setByRunner other = true) : other ≠ name := by
  rintro rfl
  rw [ordinary] at own
  cases own

theorem ne_of_default {name other : String} (default : isDefaultEnvironmentName name = true)
    (own : isDefaultEnvironmentName other = false) : other ≠ name := by
  rintro rfl
  rw [default] at own
  cases own

theorem ne_of_perStep {name other : String} (outside : name ∉ perStepNames)
    (perStep : other ∈ perStepNames) : other ≠ name := by
  rintro rfl
  exact outside perStep

/-! ### What command files change -/

section Files

variable {course : Course} {environment left right : Environment} {name : String}

theorem getElem?_applied (values environment : Environment) (name : String) :
    (values.toList.foldl (fun environment (name, value) =>
        if acceptedName name then environment.insert name value else environment)
      environment)[name]? =
      ((values[name]?).filter fun _ => acceptedName name).or environment[name]? :=
  getElem?_foldl_copy (fun name _ => acceptedName name) values environment name

theorem getElem?_applyPathFile (agent environment : Environment) (source name : String) :
    (applyPathFile agent environment source)[name]? = environment[name]? ∨ name = "PATH" := by
  unfold applyPathFile
  dsimp only
  split
  · exact .inl rfl
  · by_cases path : "PATH" = name
    · exact .inr path.symm
    · exact .inl (getElem?_insert_outside path _ _)

theorem applyPathFile_congr (agent : Environment) (source : String)
    (same : left[name]? = right[name]?) :
    (applyPathFile agent left source)[name]? = (applyPathFile agent right source)[name]? := by
  unfold applyPathFile
  dsimp only
  split
  · exact same
  · by_cases path : "PATH" = name
    · subst path
      rw [same]
      simp
    · rw [getElem?_insert_outside path, getElem?_insert_outside path, same]

theorem applyPathFile_keeps (agent : Environment) (source : String)
    (absent : (applyPathFile agent environment source)[name]? = none) :
    environment[name]? = none := by
  unfold applyPathFile at absent
  dsimp only at absent
  split at absent
  · exact absent
  · by_cases path : "PATH" = name
    · subst path
      simp at absent
    · rwa [getElem?_insert_outside path] at absent

variable (course) in
/-- The environment with what a process exported. -/
def exported (environment : Environment) (ended : ProcessEnd) : Environment :=
  (applyFiles course environment ended).getD environment

variable (course) in
/-- The environment with what processes exported, one after the other. -/
def afterProcesses (ended : List ProcessEnd) (environment : Environment) : Environment :=
  ended.foldl (exported course) environment

/-- An export either cannot be read or changes each name on its own. -/
theorem exported_cases (course : Course) (ended : ProcessEnd) :
    (∀ environment, applyFiles course environment ended = none) ∨
      ∃ values : Environment, ∀ environment, applyFiles course environment ended =
        some (applyPathFile course.agent (values.toList.foldl (fun environment (name, value) =>
          if acceptedName name then environment.insert name value else environment)
          environment) ended.pathFile) := by
  cases parsed : parseCommandSource ended.environmentFile with
  | none => exact .inl fun environment => by simp [applyFiles, applyEnvironmentFile, parsed]
  | some values =>
      exact .inr ⟨values, fun environment => by simp [applyFiles, applyEnvironmentFile, parsed]⟩

theorem exported_congr (course : Course) (ended : ProcessEnd) (same : left[name]? = right[name]?) :
    (exported course left ended)[name]? = (exported course right ended)[name]? := by
  unfold exported
  rcases exported_cases course ended with unreadable | ⟨values, reads⟩
  · rw [unreadable, unreadable]
    exact same
  · rw [reads, reads]
    refine applyPathFile_congr _ _ ?_
    rw [getElem?_applied, getElem?_applied, same]

theorem exported_keeps (course : Course) (ended : ProcessEnd)
    (absent : (exported course environment ended)[name]? = none) : environment[name]? = none := by
  unfold exported at absent
  rcases exported_cases course ended with unreadable | ⟨values, reads⟩
  · rwa [unreadable] at absent
  · rw [reads] at absent
    have unset := applyPathFile_keeps _ _ absent
    rw [getElem?_applied, Option.or_eq_none_iff] at unset
    exact unset.2

theorem exported_default (course : Course) (ended : ProcessEnd)
    (default : isDefaultEnvironmentName name = true) :
    (exported course environment ended)[name]? = environment[name]? := by
  unfold exported
  rcases exported_cases course ended with unreadable | ⟨values, reads⟩
  · rw [unreadable]
    rfl
  · rw [reads, Option.getD_some]
    rcases getElem?_applyPathFile course.agent _ ended.pathFile name with same | path
    · rw [same, getElem?_applied]
      simp [acceptedName, default]
    · subst path
      cases default

theorem afterProcesses_congr (course : Course) (ended : List ProcessEnd)
    (same : left[name]? = right[name]?) :
    (afterProcesses course ended left)[name]? = (afterProcesses course ended right)[name]? := by
  induction ended generalizing left right with
  | nil => exact same
  | cons first rest inductionHypothesis =>
      exact inductionHypothesis (exported_congr course first same)

theorem afterProcesses_keeps (course : Course) (ended : List ProcessEnd)
    (absent : (afterProcesses course ended environment)[name]? = none) :
    environment[name]? = none := by
  induction ended generalizing environment with
  | nil => exact absent
  | cons first rest inductionHypothesis =>
      exact exported_keeps course first (inductionHypothesis absent)

theorem afterProcesses_append (course : Course) (before after : List ProcessEnd)
    (environment : Environment) :
    afterProcesses course (before ++ after) environment =
      afterProcesses course after (afterProcesses course before environment) :=
  List.foldl_append

end Files

/-! ### What a process receives -/

section Received

variable {course : Course} {environment own inputs action state : Environment} {name : String}

theorem getElem?_restore (environment defaults : Environment) (name : String) :
    (restoreDefaultEnvironment environment defaults)[name]? =
      if isDefaultEnvironmentName name then (defaults[name]?).or environment[name]?
      else environment[name]? :=
  getElem?_insertMany_filter isDefaultEnvironmentName environment defaults name

theorem visible_ordinary (header : StepHeader) (ordinary : setByRunner name = false) :
    (visibleEnvironment header environment own)[name]? = (own[name]?).or environment[name]? := by
  have plain : isDefaultEnvironmentName name = false := by
    by_contra default
    rw [setByRunner_of_default (by simpa using default)] at ordinary
    cases ordinary
  rw [visibleEnvironment, getElem?_insert_outside (ne_of_setByRunner ordinary (by decide)),
    getElem?_restore, plain, if_neg Bool.false_ne_true, getElem?_insertMany_toList]

theorem visible_default (header : StepHeader) {value : String}
    (default : isDefaultEnvironmentName name = true) (outside : name ∉ perStepNames)
    (present : environment[name]? = some value) :
    (visibleEnvironment header environment own)[name]? = some value := by
  rw [visibleEnvironment, getElem?_insert_outside (ne_of_perStep outside (by decide)),
    getElem?_restore, default, if_pos rfl, present, Option.some_or]

/-- Laying the variables of an action over an environment. -/
theorem getElem?_action (action : ActionUse) (visible inputs : Environment)
    (inputless : ∀ input, actionInputEnvironmentName input ≠ name)
    (outside : name ∉ perStepNames) :
    (actionEnvironment action visible inputs)[name]? = visible[name]? := by
  have given : (inputs.toList.foldl (fun environment (name, value) =>
      environment.insert (actionInputEnvironmentName name) value) visible)[name]? =
      visible[name]? :=
    getElem?_foldl_outside (fun map entry _ => getElem?_insert_outside (inputless entry.1) map _)
      visible
  unfold actionEnvironment
  dsimp only
  split
  · rw [getElem?_insert_outside (ne_of_perStep outside (by decide)),
      getElem?_insert_outside (ne_of_perStep outside (by decide)),
      getElem?_insert_outside (ne_of_perStep outside (by decide)), given]
  · rw [getElem?_insert_outside (ne_of_perStep outside (by decide)), given]

theorem not_perStep_of_ordinary (ordinary : setByRunner name = false) : name ∉ perStepNames := by
  intro perStep
  rw [setByRunner_of_perStep perStep] at ordinary
  cases ordinary

theorem action_ordinary (use : ActionUse) (header : StepHeader)
    (ordinary : setByRunner name = false) :
    (actionEnvironment use (visibleEnvironment header environment own) inputs)[name]? =
      (own[name]?).or environment[name]? := by
  rw [getElem?_action use _ inputs
    (fun input => ne_of_setByRunner ordinary (setByRunner_input input))
    (not_perStep_of_ordinary ordinary), visible_ordinary header ordinary]

theorem action_default (use : ActionUse) (header : StepHeader) {value : String}
    (default : isDefaultEnvironmentName name = true) (outside : name ∉ perStepNames)
    (present : environment[name]? = some value) :
    (actionEnvironment use (visibleEnvironment header environment own) inputs)[name]? =
      some value := by
  rw [getElem?_action use _ inputs (fun input => ne_of_default default (isDefault_input input))
    outside, visible_default header default outside present]

theorem getElem?_withCommandFiles (files : List String) (perStep : files ⊆ perStepNames)
    (outside : name ∉ perStepNames) (environment : Environment) (moment : Nat) :
    (withCommandFiles course files environment moment)[name]? = environment[name]? :=
  getElem?_foldl_outside (fun map _ member =>
    getElem?_insert_outside (ne_of_perStep outside (perStep member)) map _) environment

theorem getElem?_phase (stateless : ∀ entry, "STATE_" ++ entry ≠ name)
    (uncached : "ACTIONS_CACHE_MODE" ≠ name) :
    (phaseEnvironment course environment action state)[name]? =
      (action[name]?).or environment[name]? := by
  have saved : (state.toList.foldl (fun environment (name, value) =>
      environment.insert ("STATE_" ++ name) value) (environment.insertMany action.toList))[name]? =
      (environment.insertMany action.toList)[name]? :=
    getElem?_foldl_outside (fun map entry _ => getElem?_insert_outside (stateless entry.1) map _) _
  rw [phaseEnvironment, getElem?_insert_outside uncached, saved, getElem?_insertMany_toList]

theorem phase_ordinary (ordinary : setByRunner name = false) :
    (phaseEnvironment course environment action state)[name]? =
      (action[name]?).or environment[name]? :=
  getElem?_phase (fun entry => ne_of_setByRunner ordinary (setByRunner_state entry))
    (ne_of_setByRunner ordinary (by decide))

theorem phase_default (default : isDefaultEnvironmentName name = true) :
    (phaseEnvironment course environment action state)[name]? =
      (action[name]?).or environment[name]? :=
  getElem?_phase (fun entry => ne_of_default default (isDefault_state entry))
    (ne_of_default default (by decide))

end Received

/-! ### Checkout -/

section Checkout

variable {environment changed : Environment} {name : String}

theorem startsWith_gitConfigKey (index : Nat) : startsWith "GIT_" (gitConfigKey index) = true := by
  unfold gitConfigKey
  generalize toString index = digits
  simp [startsWith]

theorem startsWith_gitConfigValue (index : Nat) :
    startsWith "GIT_" (gitConfigValue index) = true := by
  unfold gitConfigValue
  generalize toString index = digits
  simp [startsWith]

theorem ne_of_git {other : String} (plain : startsWith "GIT_" name = false)
    (git : startsWith "GIT_" other = true) : other ≠ name := by
  rintro rfl
  rw [plain] at git
  cases git

theorem configureCheckoutCredentials_plain {credential : Option String} {rewrite : Bool}
    (configured : configureCheckoutCredentials environment credential rewrite = some changed)
    (plain : startsWith "GIT_" name = false) : changed[name]? = environment[name]? := by
  have removed : ∀ count, (removeGitConfig environment count)[name]? = environment[name]? := by
    intro count
    rw [removeGitConfig, getElem?_foldl_outside,
      getElem?_erase_outside (ne_of_git plain (by decide))]
    intro map index _
    rw [getElem?_erase_outside (ne_of_git plain (startsWith_gitConfigValue index)),
      getElem?_erase_outside (ne_of_git plain (startsWith_gitConfigKey index))]
  have inserted : ∀ (map : Environment) (entries : List (String × String)),
      (insertGitConfig map entries)[name]? = map[name]? := by
    intro map entries
    have outside : ∀ (map : Environment) (entry : (String × String) × Nat),
        ((map.insert (gitConfigKey entry.2) entry.1.1).insert (gitConfigValue entry.2)
          entry.1.2)[name]? = map[name]? := by
      intro map entry
      rw [getElem?_insert_outside (ne_of_git plain (startsWith_gitConfigValue entry.2)),
        getElem?_insert_outside (ne_of_git plain (startsWith_gitConfigKey entry.2))]
    unfold insertGitConfig
    dsimp only
    split
    · exact getElem?_foldl_outside (fun map entry _ => outside map entry) map
    · rw [getElem?_insert_outside (ne_of_git plain (by decide))]
      exact getElem?_foldl_outside (fun map entry _ => outside map entry) map
  simp only [configureCheckoutCredentials, Option.bind_eq_bind, Option.bind_eq_some_iff]
    at configured
  obtain ⟨count, _, configured⟩ := configured
  split at configured
  · cases configured
  · obtain ⟨entries, _, configured⟩ := Option.bind_eq_some_iff.mp configured
    obtain ⟨_, same⟩ := Option.ite_none_left_eq_some.mp configured
    cases same
    rw [inserted, removed]

theorem configureCheckoutSsh_plain (command : Option String)
    (plain : startsWith "GIT_" name = false) :
    (configureCheckoutSsh environment command)[name]? = environment[name]? := by
  have other := ne_of_git plain (show startsWith "GIT_" "GIT_SSH_COMMAND" = true by decide)
  cases command with
  | none => exact getElem?_erase_outside other environment
  | some command =>
      rw [configureCheckoutSsh, getElem?_insert_outside other, getElem?_erase_outside other]

theorem persistCheckout_plain {checkout : CheckoutCourse}
    (persisted : persistCheckout checkout environment = some changed)
    (plain : startsWith "GIT_" name = false) : changed[name]? = environment[name]? := by
  simp only [persistCheckout, Option.bind_eq_bind, Option.bind_eq_some_iff] at persisted
  obtain ⟨configured, done, same⟩ := persisted
  cases same
  rw [configureCheckoutSsh_plain _ plain, configureCheckoutCredentials_plain done plain]

theorem checkoutEnvironment_plain {checkout : CheckoutCourse}
    (prepared : checkoutEnvironment checkout environment = some changed)
    (plain : startsWith "GIT_" name = false) (homeless : "HOME" ≠ name) :
    changed[name]? = environment[name]? := by
  simp only [checkoutEnvironment, Option.bind_eq_bind, Option.bind_eq_some_iff] at prepared
  obtain ⟨configured, done, same⟩ := prepared
  have homed := configureCheckoutCredentials_plain done plain
  have skipped := ne_of_git plain (show startsWith "GIT_" "GIT_LFS_SKIP_SMUDGE" = true by decide)
  have last : changed[name]? = configured[name]? := by
    cases same
    split
    · rw [getElem?_erase_outside skipped, configureCheckoutSsh_plain _ plain]
    · rw [getElem?_insert_outside skipped, configureCheckoutSsh_plain _ plain]
  rw [last, homed]
  split
  · rw [getElem?_insert_outside (ne_of_git plain (by decide)), getElem?_insert_outside homeless]
  · rfl

end Checkout

/-! ### The law and what it needs -/

/-- A step-level `env` of an enclosing step sets the name. -/
def enclosed (enclosing : List Environment) (name : String) : Bool :=
  enclosing.any fun own => (own[name]?).isSome

/-- Every variable of the captured environment still has its value. -/
def FreshOver (enclosing : List Environment) (environment captured : Environment) : Prop :=
  ∀ name value, setByRunner name = false → enclosed enclosing name = false →
    captured[name]? = some value → environment[name]? = some value

/-- The captured environment, if there is one, holds no value that has changed since. -/
def Reception.Fresh (reception : Reception) : Prop :=
  ∀ captured, reception.captured = some captured →
    FreshOver reception.enclosing reception.environment captured

/-- What the processes inside a composite action do to a variable that the `env` of its step
sets, they do to the variable outside as well: they leave both alone, or give both one value
that is not that of the `env`. -/
def Closure.Carried (course : Course) (closure : Closure) : Prop :=
  ∀ name, setByRunner name = false → (closure.own[name]?).isSome = true →
    let inside := (afterProcesses course closure.inside closure.initial)[name]?
    let outside := (afterProcesses course closure.inside closure.outer)[name]?
    if inside = closure.initial[name]? then outside = closure.outer[name]? else outside = inside

/-- No captured environment was out of date where it was laid over a process, and every composite
action handed on what its steps have exported. -/
structure Kept (course : Course) (record : JobRecord) : Prop where
  fresh : ∀ reception ∈ record.seen, reception.Fresh
  carried : ∀ closure ∈ record.closed, closure.Carried course

/-- The names whose values the runner sets itself for a process: Git commands of a checkout
run with a home of their own. -/
def Reception.setByRunner (reception : Reception) (name : String) : Bool :=
  Agent.setByRunner name || reception.git && name = "HOME"

/-- The process has the value that the processes before it left. -/
def Reception.Current (course : Course) (initial : Environment) (reception : Reception) : Prop :=
  ∀ name, reception.setByRunner name = false → enclosed reception.enclosing name = false →
    (reception.received[name]?).or course.agent[name]? =
      ((afterProcesses course reception.finished initial)[name]?).or course.agent[name]?

/-- The environment holds the default values. -/
def HoldsDefaults (defaults environment : Environment) : Prop :=
  ∀ name value, isDefaultEnvironmentName name = true → name ∉ perStepNames →
    defaults[name]? = some value → environment[name]? = some value

/-- What every process of the job receives: the values that the processes before it left, and the
default values of the runner. -/
structure EnvironmentLaw (course : Course) (initial defaults : Environment) (record : JobRecord) :
    Prop where
  current : ∀ reception ∈ record.seen, reception.Current course initial
  defaults : ∀ reception ∈ record.seen, HoldsDefaults defaults reception.received

/-! ### What one part of a job preserves -/

section Preservation

variable {course : Course} {initial defaults : Environment} {enclosing : List Environment}
  {record after : JobRecord} {environment changed : Environment}

variable (course initial defaults) in
/-- The invariant of the record: the defaults hold of everything in it, and the rest where it is
kept. -/
structure Sound (record : JobRecord) : Prop where
  current : Kept course record → ∀ reception ∈ record.seen, reception.Current course initial
  holds : ∀ reception ∈ record.seen, HoldsDefaults defaults reception.received
  posts : ∀ post ∈ record.posts, HoldsDefaults defaults post.environment

variable (course initial defaults) in
/-- The environment that a step is about to work on. -/
structure Poised (enclosing : List Environment) (record : JobRecord) (environment : Environment) :
    Prop where
  sound : Sound course initial defaults record
  holds : HoldsDefaults defaults environment
  tracks : Kept course record → ∀ name, setByRunner name = false →
    enclosed enclosing name = false →
      environment[name]? = (afterProcesses course record.finished initial)[name]?

variable (course initial defaults) in
/-- What a part of a job has done to the environment it worked on. -/
structure Advanced (before : JobRecord) (environment : Environment) (after : JobRecord)
    (changed : Environment) : Prop where
  sound : Sound course initial defaults after
  kept : Kept course after → Kept course before
  ended : ∃ ended, after.finished = before.finished ++ ended ∧
    (Kept course after → ∀ name, setByRunner name = false →
      changed[name]? = (afterProcesses course ended environment)[name]?)
  default : ∀ name, isDefaultEnvironmentName name = true → changed[name]? = environment[name]?

theorem Poised.enclose (ready : Poised course initial defaults enclosing record environment)
    {inner : List Environment} (wider : ∀ own ∈ enclosing, own ∈ inner) :
    Poised course initial defaults inner record environment where
  sound := ready.sound
  holds := ready.holds
  tracks kept name ordinary unset := by
    refine ready.tracks kept name ordinary ?_
    simp only [enclosed, List.any_eq_false] at unset ⊢
    exact fun own member => unset own (wider own member)

theorem Poised.still (ready : Poised course initial defaults enclosing record environment) :
    Advanced course initial defaults record environment record environment where
  sound := ready.sound
  kept := id
  ended := ⟨[], (List.append_nil _).symm, fun _ _ _ => rfl⟩
  default _ _ := rfl

theorem Poised.advance (ready : Poised course initial defaults enclosing record environment)
    (advanced : Advanced course initial defaults record environment after changed) :
    Poised course initial defaults enclosing after changed where
  sound := advanced.sound
  holds name value default outside present :=
    (advanced.default name default).trans (ready.holds name value default outside present)
  tracks kept name ordinary unset := by
    obtain ⟨ended, finished, values⟩ := advanced.ended
    rw [values kept name ordinary, finished, afterProcesses_append]
    exact afterProcesses_congr course ended
      (ready.tracks (advanced.kept kept) name ordinary unset)

theorem Advanced.trans {last : JobRecord} {final : Environment}
    (first : Advanced course initial defaults record environment after changed)
    (second : Advanced course initial defaults after changed last final) :
    Advanced course initial defaults record environment last final where
  sound := second.sound
  kept := first.kept ∘ second.kept
  ended := by
    obtain ⟨early, finishedEarly, valuesEarly⟩ := first.ended
    obtain ⟨late, finishedLate, valuesLate⟩ := second.ended
    refine ⟨early ++ late, by rw [finishedLate, finishedEarly, List.append_assoc], ?_⟩
    intro kept name ordinary
    rw [valuesLate kept name ordinary, afterProcesses_append]
    exact afterProcesses_congr course late (valuesEarly (second.kept kept) name ordinary)
  default name isDefault := (second.default name isDefault).trans (first.default name isDefault)

/-- A process that starts and does not end the job before it is recorded. -/
theorem Sound.receive (ready : Poised course initial defaults enclosing record environment)
    (captured : Option Environment) (received : Environment) (git : Bool) (ended : List ProcessEnd)
    (reads : (∀ own, captured = some own → FreshOver enclosing environment own) →
      ∀ name, setByRunner name = false → (git && name = "HOME") = false →
        enclosed enclosing name = false → received[name]? = environment[name]?)
    (holds : HoldsDefaults defaults received) :
    Sound course initial defaults { record with
      seen := record.seen ++ [{
        finished := record.finished, enclosing, environment, captured, received, git }]
      finished := record.finished ++ ended } := by
  constructor
  · intro kept reception member
    have before : Kept course record :=
      ⟨fun earlier seen => kept.fresh earlier (List.mem_append_left _ seen), kept.carried⟩
    rcases List.mem_append.mp member with old | new
    · exact ready.sound.current before reception old
    · have fresh := kept.fresh reception member
      cases List.mem_singleton.mp new
      intro name plain unset
      simp only [Reception.setByRunner, Bool.or_eq_false_iff] at plain
      rw [reads fresh name plain.1 plain.2 unset, ready.tracks before name plain.1 unset]
  · intro reception member
    rcases List.mem_append.mp member with old | new
    · exact ready.sound.holds reception old
    · cases List.mem_singleton.mp new
      exact holds
  · exact ready.sound.posts

/-! ### Programs -/

open Recording

variable {α β : Type} {log : JobLog}

theorem ensures_tick {returns : Nat → JobLog → Prop} {fails : JobLog → Prop}
    (holds : ∀ moment after, after.toJobRecord = log.toJobRecord → returns moment after) :
    Ensures tick log returns fails :=
  holds log.moment { log with moment := log.moment + 1 } rfl

variable (course initial defaults) in
/-- The program advances the environment that it works on, or fails with a sound record. -/
def Advances (result : α → Environment) (program : JobM α) (log : JobLog)
    (environment : Environment) : Prop :=
  Ensures program log
    (fun value after => Advanced course initial defaults log.toJobRecord environment
      after.toJobRecord (result value))
    fun after => Sound course initial defaults after.toJobRecord

variable {result : α → Environment} {last : β → Environment} {program : JobM α}

theorem Advances.pure (ready : Poised course initial defaults enclosing log.toJobRecord environment)
    {value : α} (same : result value = environment) :
    Advances course initial defaults result (pure value) log environment := by
  refine ensures_pure ?_
  rw [same]
  exact ready.still

theorem Advances.fail (ready : Poised course initial defaults enclosing log.toJobRecord
    environment) :
    Advances course initial defaults result (Recording.fail : JobM α) log environment :=
  ensures_fail ready.sound

theorem Advances.bind (ready : Poised course initial defaults enclosing log.toJobRecord environment)
    {next : α → JobM β} (first : Advances course initial defaults result program log environment)
    (second : ∀ value after,
      Poised course initial defaults enclosing after.toJobRecord (result value) →
        Advances course initial defaults last (next value) after (result value)) :
    Advances course initial defaults last (program >>= next) log environment := by
  refine ensures_bind first fun value after advanced => ?_
  exact (second value after (ready.advance advanced)).mono
    (fun _ _ further => advanced.trans further) fun _ => id

theorem Advances.of_same {later : JobLog} (same : later.toJobRecord = log.toJobRecord)
    (advances : Advances course initial defaults result program later environment) :
    Ensures program later
      (fun value after => Advanced course initial defaults log.toJobRecord environment
        after.toJobRecord (result value))
      fun after => Sound course initial defaults after.toJobRecord := by
  rw [← same]
  exact advances

theorem Advances.tick (ready : Poised course initial defaults enclosing log.toJobRecord environment)
    {next : Nat → JobM β}
    (second : ∀ moment after,
      Poised course initial defaults enclosing after.toJobRecord environment →
        Advances course initial defaults last (next moment) after environment) :
    Advances course initial defaults last (tick >>= next) log environment := by
  refine ensures_bind (ensures_tick fun moment after same => same) fun moment after same => ?_
  exact (second moment after (same ▸ ready)).of_same same

theorem Advances.ofOption
    (ready : Poised course initial defaults enclosing log.toJobRecord environment)
    {option : Option α} {next : α → JobM β}
    (second : ∀ value, option = some value →
      Advances course initial defaults last (next value) log environment) :
    Advances course initial defaults last (Recording.ofOption option >>= next) log environment := by
  cases option with
  | none => exact Advances.fail ready
  | some value => exact second value rfl

theorem Advances.ask (ready : Poised course initial defaults enclosing log.toJobRecord environment)
    {question : Nat → Option α} {next : α → JobM β}
    (second : ∀ value after,
      Poised course initial defaults enclosing after.toJobRecord environment →
        Advances course initial defaults last (next value) after environment) :
    Advances course initial defaults last (ask question >>= next) log environment := by
  rw [Agent.ask, Recording.bind_assoc]
  refine Advances.tick ready fun moment after readyAfter => ?_
  exact Advances.ofOption readyAfter fun value _ => second value after readyAfter

/-! ### Processes -/

theorem Kept.earlier {receptions : List Reception} {ended : List ProcessEnd}
    (kept : Kept course { record with
      seen := record.seen ++ receptions
      finished := record.finished ++ ended }) : Kept course record :=
  ⟨fun reception member => kept.fresh reception (List.mem_append_left _ member), kept.carried⟩

theorem advances_process
    (poised : Poised course initial defaults enclosing log.toJobRecord environment)
    (captured : Option Environment) (received : Nat → Environment)
    (reads : (∀ own, captured = some own → FreshOver enclosing environment own) →
      ∀ moment name, setByRunner name = false → enclosed enclosing name = false →
        (received moment)[name]? = environment[name]?)
    (holds : ∀ moment, HoldsDefaults defaults (received moment)) :
    Advances course initial defaults PhaseEnd.environment
      (runWorkflowProcess course enclosing captured environment received) log environment := by
  unfold runWorkflowProcess
  refine Advances.tick poised fun moment after poisedAfter => ?_
  have sound := Sound.receive poisedAfter captured (received moment) false
    [course.process moment]
    (fun fresh name ordinary _ unset => reads fresh moment name ordinary unset) (holds moment)
  refine ensures_update_bind ?_
  -- The files are read back before the next process starts.
  refine ensures_ofOption_bind (fun _ => sound) fun changed applied => ?_
  refine ensures_ofOption_bind (fun _ => sound) fun state _ => ?_
  have changes : exported course environment (course.process moment) = changed := by
    rw [exported, applied, Option.getD_some]
  refine ensures_pure ⟨sound, Kept.earlier, ⟨[course.process moment], rfl, fun _ name _ => ?_⟩,
    fun name default => ?_⟩
  · rw [← changes]
    rfl
  · rw [← changes]
    exact exported_default course _ default

theorem advances_phase {action state : Environment}
    (poised : Poised course initial defaults enclosing log.toJobRecord environment)
    (holds : HoldsDefaults defaults action) :
    Advances course initial defaults PhaseEnd.environment
      (executeNodeActionPhase course enclosing environment action state) log environment := by
  have files : phaseFiles ⊆ perStepNames := List.subset_append_right _ _
  refine advances_process poised (some action) _ (fun fresh moment name ordinary unset => ?_)
    fun moment name value default outside present => ?_
  · rw [getElem?_withCommandFiles phaseFiles files (not_perStep_of_ordinary ordinary),
      phase_ordinary ordinary]
    cases found : action[name]? with
    | none => rw [Option.none_or]
    | some value => rw [Option.some_or, fresh action rfl name value ordinary unset found]
  · rw [getElem?_withCommandFiles phaseFiles files outside, phase_default default,
      holds name value default outside present, Option.some_or]

theorem advances_pre {action : Environment} (pre : Bool)
    (poised : Poised course initial defaults enclosing log.toJobRecord environment)
    (holds : HoldsDefaults defaults action) :
    Advances course initial defaults PhaseEnd.environment
      (executePre course enclosing environment action pre) log environment := by
  unfold executePre
  split
  · refine Advances.ask poised fun allowed after poisedAfter => ?_
    split
    · exact advances_phase poisedAfter holds
    · exact Advances.pure poisedAfter rfl
  · exact Advances.pure poised rfl

theorem advances_main {action : Environment} {before : PhaseEnd}
    (poised : Poised course initial defaults enclosing log.toJobRecord before.environment)
    (holds : HoldsDefaults defaults action) :
    Advances course initial defaults PhaseEnd.environment
      (executeMain course enclosing action before) log before.environment := by
  unfold executeMain
  split
  · exact Advances.bind poised (advances_phase poised holds) fun main after poisedAfter =>
      Advances.pure poisedAfter rfl
  · exact Advances.pure poised rfl

theorem advances_forced {changed : Environment} (conclusion : JobConclusion)
    (poised : Poised course initial defaults enclosing log.toJobRecord changed) :
    Advances course initial defaults StepEnd.environment
      (forced course conclusion >>= fun conclusion =>
        pure { environment := changed, conclusion }) log changed := by
  rw [forced, Recording.bind_assoc]
  exact Advances.tick poised fun moment after poisedAfter => Advances.pure poisedAfter rfl

/-- Registering an entry point keeps what holds of the environments. -/
theorem Sound.register (sound : Sound course initial defaults record) {posts : List ActionPost}
    (holds : ∀ post ∈ posts, HoldsDefaults defaults post.environment) :
    Sound course initial defaults { record with posts := record.posts ++ posts } where
  current kept := sound.current ⟨kept.fresh, kept.carried⟩
  holds := sound.holds
  posts post member := by
    rcases List.mem_append.mp member with old | new
    · exact sound.posts post old
    · exact holds post new

theorem advances_javascript {action : Environment} (pre post : Bool)
    (poised : Poised course initial defaults enclosing log.toJobRecord environment)
    (holds : HoldsDefaults defaults action) :
    Advances course initial defaults StepEnd.environment
      (executeJavascript course enclosing environment action pre post) log environment := by
  unfold executeJavascript
  refine Advances.bind poised (advances_pre pre poised holds) fun before after poisedBefore => ?_
  refine Advances.bind poisedBefore (advances_main poisedBefore holds)
    fun main later poisedMain => ?_
  let posts : List ActionPost :=
    if post then [{ environment := action, state := main.state, enclosing }] else []
  have registered : ∀ post ∈ posts, HoldsDefaults defaults post.environment := by
    intro entry member
    simp only [posts] at member
    split at member
    · cases List.mem_singleton.mp member
      exact holds
    · cases member
  have sound := poisedMain.sound.register registered
  have register : Advances course initial defaults (fun _ => main.environment)
      (Recording.update fun log => { log with posts := log.posts ++ posts }) later
      main.environment :=
    ⟨sound, fun kept => ⟨kept.fresh, kept.carried⟩,
      ⟨[], (List.append_nil _).symm, fun _ _ _ => rfl⟩, fun _ _ => rfl⟩
  exact Advances.bind poisedMain register fun _ last poisedLast =>
    advances_forced main.conclusion poisedLast

theorem advances_checkout
    (poised : Poised course initial defaults enclosing log.toJobRecord environment) :
    Advances course initial defaults StepEnd.environment
      (executeCheckout course enclosing environment) log environment := by
  unfold executeCheckout
  refine Advances.tick poised fun moment after poisedAfter => ?_
  dsimp only
  split
  · refine Advances.ofOption poisedAfter fun received prepared => ?_
    refine Advances.ofOption poisedAfter fun changed persisted => ?_
    have plain : ∀ {name}, setByRunner name = false → startsWith "GIT_" name = false := by
      intro name ordinary
      by_contra git
      rw [setByRunner_of_git (by simpa using git)] at ordinary
      cases ordinary
    have plainDefault : ∀ {name}, isDefaultEnvironmentName name = true →
        startsWith "GIT_" name = false := by
      intro name default
      by_contra git
      rw [isDefault_of_git (by simpa using git)] at default
      cases default
    have sound := Sound.receive poisedAfter none received true []
      (fun _ name ordinary homeless _ => checkoutEnvironment_plain prepared (plain ordinary)
        (by rintro rfl; simp at homeless))
      (fun name value default outside present => by
        rw [checkoutEnvironment_plain prepared (plainDefault default)
          (ne_of_default default (by decide))]
        exact poisedAfter.holds name value default outside present)
    rw [List.append_nil] at sound
    refine ensures_update_bind (ensures_ofOption_bind (fun _ => sound) fun conclusion _ => ?_)
    refine ensures_pure ⟨sound, fun kept => ⟨fun reception member =>
      kept.fresh reception (List.mem_append_left _ member), kept.carried⟩,
      ⟨[], (List.append_nil _).symm, fun _ name ordinary => ?_⟩, fun name default => ?_⟩
    · exact persistCheckout_plain persisted (plain ordinary)
    · exact persistCheckout_plain persisted (plainDefault default)
  · exact Advances.ofOption poisedAfter fun conclusion _ => Advances.pure poisedAfter rfl

/-! ### Composite actions -/

theorem getElem?_propagate (outer start final : Environment) (name : String) :
    (propagate outer start final)[name]? =
      if final[name]? = start[name]? then outer[name]? else (final[name]?).or outer[name]? := by
  have copied := getElem?_foldl_copy (fun name value => decide (start[name]? ≠ some value))
    final outer name
  simp only [decide_eq_true_eq] at copied
  rw [propagate, copied]
  cases final[name]? with
  | none => simp
  | some value =>
      by_cases same : start[name]? = some value
      · rw [same, Option.filter_some_neg (by simp), Option.none_or, if_pos rfl]
      · rw [Option.filter_some_pos (by simpa using same), if_neg (Ne.symm same)]

/-- What a composite action leaves outside when its steps have advanced its environment. -/
theorem Advanced.close {own start final : Environment}
    (ordinary : ∀ name, setByRunner name = false →
      start[name]? = (own[name]?).or environment[name]?)
    (inside : Advanced course initial defaults record start after final) :
    Advanced course initial defaults record environment
      { after with closed := after.closed ++ [{
          outer := environment
          initial := start
          own
          inside := after.finished.drop record.finished.length }] }
      (propagate environment start final) := by
  obtain ⟨ended, finished, values⟩ := inside.ended
  have dropped : after.finished.drop record.finished.length = ended := by
    rw [finished, List.drop_left]
  have earlier : ∀ {closed : List Closure},
      Kept course { after with closed := after.closed ++ closed } → Kept course after :=
    fun kept => ⟨kept.fresh, fun closure member =>
      kept.carried closure (List.mem_append_left _ member)⟩
  refine ⟨⟨fun kept => inside.sound.current (earlier kept), inside.sound.holds, inside.sound.posts⟩,
    fun kept => inside.kept (earlier kept), ⟨ended, finished, fun kept name plain => ?_⟩,
    fun name default => ?_⟩
  · have reached := values (earlier kept) name plain
    have carried := kept.carried _ (List.mem_append_right _ List.mem_cons_self)
    rw [dropped] at carried
    rw [getElem?_propagate, reached]
    cases set : own[name]? with
    | none =>
        -- The variable comes from outside, so that both sides see the same exports.
        have same : start[name]? = environment[name]? := by rw [ordinary name plain, set,
          Option.none_or]
        rw [← afterProcesses_congr course ended same]
        split
        · next unchanged => rw [unchanged, same]
        · cases left : (afterProcesses course ended start)[name]? with
          | none =>
              rw [Option.none_or, ← same]
              exact afterProcesses_keeps course ended left
          | some value => rw [Option.some_or]
    | some value =>
        have outcome := carried name plain (by rw [set]; rfl)
        dsimp only at outcome
        split at outcome
        · next unchanged => rw [if_pos unchanged, outcome]
        · next different =>
            rw [if_neg different, outcome]
            cases left : (afterProcesses course ended start)[name]? with
            | none =>
                have absent := afterProcesses_keeps course ended left
                rw [left, absent] at different
                exact absurd rfl different
            | some value => rw [Option.some_or]
  · rw [getElem?_propagate, if_pos (inside.default name default)]

theorem HoldsDefaults.visible (holds : HoldsDefaults defaults environment) (header : StepHeader)
    (own : Environment) : HoldsDefaults defaults (visibleEnvironment header environment own) :=
  fun name value default outside present =>
    visible_default header default outside (holds name value default outside present)

theorem HoldsDefaults.action (holds : HoldsDefaults defaults environment) (use : ActionUse)
    (header : StepHeader) (own inputs : Environment) : HoldsDefaults defaults
      (actionEnvironment use (visibleEnvironment header environment own) inputs) :=
  fun name value default outside present =>
    action_default use header default outside (holds name value default outside present)

/-! ### Steps -/

theorem Advances.begin
    (poised : Poised course initial defaults enclosing log.toJobRecord environment)
    (header : StepHeader) {next : Option Environment → JobM β}
    (skips : ∀ after, Poised course initial defaults enclosing after.toJobRecord environment →
      Advances course initial defaults last (next none) after environment)
    (runs : ∀ own after, Poised course initial defaults enclosing after.toJobRecord environment →
      Advances course initial defaults last (next (some own)) after environment) :
    Advances course initial defaults last (beginStep course header >>= next) log environment := by
  rw [beginStep, Recording.bind_assoc]
  refine Advances.ask poised fun own between poisedBetween => ?_
  rw [Recording.bind_assoc]
  refine Advances.ask poisedBetween fun allowed after poisedAfter => ?_
  cases allowed with
  | false => exact skips after poisedAfter
  | true => exact runs own after poisedAfter

theorem unset_of_enclosed {own : Environment} {name : String}
    (unset : enclosed (own :: enclosing) name = false) : own[name]? = none := by
  rw [enclosed, List.any_cons, Bool.or_eq_false_iff, Option.isSome_eq_false_iff,
    Option.isNone_iff_eq_none] at unset
  exact unset.1

/-- The processes of an action start from the environment outside it. -/
theorem Poised.action (poised : Poised course initial defaults enclosing record environment)
    (use : ActionUse) (header : StepHeader) (own inputs : Environment) :
    Poised course initial defaults (own :: enclosing) record
      (actionEnvironment use (visibleEnvironment header environment own) inputs) where
  sound := poised.sound
  holds := poised.holds.action use header own inputs
  tracks kept name ordinary unset := by
    rw [action_ordinary use header ordinary, unset_of_enclosed unset, Option.none_or]
    exact (poised.enclose fun _ => List.mem_cons_of_mem own).tracks kept name ordinary unset

theorem advances_run (poised : Poised course initial defaults enclosing log.toJobRecord environment)
    (header : StepHeader) (own : Environment) :
    Advances course initial defaults PhaseEnd.environment
      (runWorkflowProcess course (own :: enclosing) none environment
        (withCommandFiles course runFiles (visibleEnvironment header environment own)))
      log environment := by
  have files : runFiles ⊆ perStepNames := by decide
  refine advances_process (poised.enclose fun _ => List.mem_cons_of_mem own) none _
    (fun _ moment name ordinary unset => ?_) fun moment name value default outside present => ?_
  · rw [getElem?_withCommandFiles runFiles files (not_perStep_of_ordinary ordinary),
      visible_ordinary header ordinary, unset_of_enclosed unset, Option.none_or]
  · rw [getElem?_withCommandFiles runFiles files outside]
    exact poised.holds.visible header own name value default outside present

mutual

theorem advances_step (step : StepTree) (log : JobLog)
    (enclosing : List Environment) (environment : Environment)
    (poised : Poised course initial defaults enclosing log.toJobRecord environment) :
    Advances course initial defaults StepEnd.environment
      (executeStep course enclosing step environment) log environment := by
  match step with
  | .run header =>
      rw [executeStep]
      refine Advances.begin poised header (fun after poisedAfter => Advances.pure poisedAfter rfl)
        fun own after poisedAfter => ?_
      exact Advances.bind poisedAfter (advances_run poisedAfter header own)
        fun ended later poisedLater => Advances.pure poisedLater rfl
  | .checkout header =>
      rw [executeStep]
      refine Advances.begin poised header (fun after poisedAfter => Advances.pure poisedAfter rfl)
        fun own after poisedAfter => ?_
      exact advances_checkout (poisedAfter.enclose fun _ => List.mem_cons_of_mem own)
  | .javascript header action pre post =>
      rw [executeStep]
      refine Advances.begin poised header (fun after poisedAfter => Advances.pure poisedAfter rfl)
        fun own after poisedAfter => ?_
      refine Advances.ask poisedAfter fun inputs later poisedLater => ?_
      exact advances_javascript pre post
        (poisedLater.enclose fun _ => List.mem_cons_of_mem own)
        (poisedLater.holds.action action header own inputs)
  | .composite header action steps =>
      rw [executeStep]
      refine Advances.begin poised header (fun after poisedAfter => Advances.pure poisedAfter rfl)
        fun own after poisedAfter => ?_
      refine Advances.ask poisedAfter fun inputs later poisedLater => ?_
      have inner := advances_steps steps later (own :: enclosing) (fun _ => false) _ .success
        (poisedLater.action action header own inputs)
      refine ensures_read_bind (ensures_bind inner fun ended last inside => ?_)
      have closed := Advanced.close
        (fun name ordinary => action_ordinary action header ordinary) inside
      refine ensures_update_bind ?_
      refine (advances_forced (compositeConclusion ended.2) (poisedLater.advance closed)).mono
        (fun _ _ further => closed.trans further) fun _ => id

theorem advances_steps (steps : List StepTree) (log : JobLog)
    (enclosing : List Environment) (stops : Nat → Bool) (environment : Environment)
    (status : ExecutionStatus)
    (poised : Poised course initial defaults enclosing log.toJobRecord environment) :
    Advances course initial defaults Prod.fst
      (executeStepTrees course enclosing stops steps environment status) log environment := by
  match steps with
  | [] =>
      rw [executeStepTrees]
      exact Advances.pure poised rfl
  | step :: rest =>
      rw [executeStepTrees]
      refine Advances.tick poised fun moment after poisedAfter => ?_
      split
      · exact Advances.pure poisedAfter rfl
      · refine Advances.bind poisedAfter
          (advances_step step after enclosing environment poisedAfter)
          fun ended later poisedLater => ?_
        dsimp only
        split
        · exact Advances.pure poisedLater rfl
        · exact advances_steps rest later enclosing stops ended.environment _ poisedLater

end

/-! ### The whole job -/

theorem sound_posts (posts : List ActionPost) (log : JobLog) (environment : Environment)
    (registered : ∀ post ∈ posts, HoldsDefaults defaults post.environment)
    (poised : Poised course initial defaults [] log.toJobRecord environment) :
    Ensures (runActionPosts course posts environment) log
      (fun _ after => Sound course initial defaults after.toJobRecord)
      fun after => Sound course initial defaults after.toJobRecord := by
  induction posts generalizing log environment with
  | nil => exact ensures_pure poised.sound
  | cons post rest inductionHypothesis =>
      rw [runActionPosts]
      refine ensures_bind (ensures_tick fun moment after same => same) fun moment after same => ?_
      have poisedAfter : Poised course initial defaults [] after.toJobRecord environment :=
        same ▸ poised
      split
      · exact ensures_pure poisedAfter.sound
      · rw [ask, Recording.bind_assoc]
        refine ensures_bind (ensures_tick fun moment last same => same) fun moment last same => ?_
        have poisedLast : Poised course initial defaults [] last.toJobRecord environment :=
          same ▸ poisedAfter
        refine ensures_ofOption_bind (fun _ => poisedLast.sound) fun allowed _ => ?_
        have further : ∀ member ∈ rest, HoldsDefaults defaults member.environment :=
          fun member inRest => registered member (List.mem_cons_of_mem _ inRest)
        split
        · have poisedPost :
              Poised course initial defaults post.enclosing last.toJobRecord environment :=
            poisedLast.enclose fun own member => by cases member
          have phase : Advances course initial defaults PhaseEnd.environment
              (executeNodeActionPhase course post.enclosing environment post.environment
                post.state) last environment :=
            advances_phase poisedPost (registered post List.mem_cons_self)
          exact ensures_bind phase fun ended reached advanced =>
            inductionHypothesis reached ended.environment further (poisedLast.advance advanced)
        · exact inductionHypothesis last environment further poisedLast

theorem sound_foreground (steps : List StepTree) (log : JobLog) (environment : Environment)
    (poised : Poised course initial defaults [] log.toJobRecord environment) :
    Ensures (executeForeground course steps environment) log
      (fun _ after => Sound course initial defaults after.toJobRecord)
      fun after => Sound course initial defaults after.toJobRecord := by
  unfold executeForeground
  refine ensures_bind (advances_steps steps log [] course.stops environment .success poised)
    fun ended after advanced => ?_
  dsimp only
  split
  · exact ensures_pure advanced.sound
  · refine ensures_read_bind ?_
    exact sound_posts _ after _
      (fun post member => advanced.sound.posts post (List.mem_reverse.mp member))
      (poised.advance advanced)

end Preservation

/-- The record of the foreground steps of a job. -/
def jobRecord (course : Course) (steps : List StepTree) (environment : Environment) : JobRecord :=
  (executeForeground course steps environment {}).1.toJobRecord

/-- The default values of a run and of a job of it. -/
def jobDefaults (defaults : Environment) (jobId workspace temp : String) : Environment :=
  ((defaults.insert "GITHUB_JOB" jobId).insert "GITHUB_WORKSPACE" workspace).insert
    "RUNNER_TEMP" temp

theorem HoldsDefaults.insert {defaults environment : Environment}
    (holds : HoldsDefaults defaults environment) (name value : String) :
    HoldsDefaults (defaults.insert name value) (environment.insert name value) := by
  intro other otherValue default perStep present
  rw [ExtTreeMap.getElem?_insert] at present ⊢
  split
  · next same => rwa [if_pos same] at present
  · next differs =>
      rw [if_neg differs] at present
      exact holds other otherValue default perStep present

theorem holdsDefaults_restored (defaults environment : Environment) :
    HoldsDefaults defaults (restoreDefaultEnvironment environment defaults) := by
  intro name value default _ present
  rw [getElem?_restore, if_pos default, present, Option.some_or]

theorem holdsDefaults_jobEnvironment (defaults environment : Environment)
    (jobId workspace temp : String) :
    HoldsDefaults (jobDefaults defaults jobId workspace temp)
      (jobEnvironment defaults environment jobId workspace temp) :=
  (((holdsDefaults_restored defaults _).insert _ _).insert _ _).insert _ _

/-- Every process of a job has the default values of the run and the job, whatever the maps and
files of the workflow say.  Where each entry point finds the environment that was captured for it,
and each composite action hands on what it sets, every process also has the values that the
processes before it left. -/
theorem environment_visibility (course : Course) (steps : List StepTree)
    (defaults environment : Environment) (jobId workspace temp : String) :
    let initial := jobEnvironment defaults environment jobId workspace temp
    let record := jobRecord course steps initial
    (∀ reception ∈ record.seen,
      HoldsDefaults (jobDefaults defaults jobId workspace temp) reception.received) ∧
    (Kept course record →
      EnvironmentLaw course initial (jobDefaults defaults jobId workspace temp) record) := by
  have start : Poised course (jobEnvironment defaults environment jobId workspace temp)
      (jobDefaults defaults jobId workspace temp) [] {}
      (jobEnvironment defaults environment jobId workspace temp) :=
    ⟨⟨fun _ reception member => (by cases member), fun reception member => (by cases member),
      fun post member => by cases member⟩,
      holdsDefaults_jobEnvironment defaults environment jobId workspace temp, fun _ _ _ _ => rfl⟩
  have ran := sound_foreground steps {} _ start
  have sound : Sound course (jobEnvironment defaults environment jobId workspace temp)
      (jobDefaults defaults jobId workspace temp) (jobRecord course steps
        (jobEnvironment defaults environment jobId workspace temp)) := by
    unfold jobRecord
    unfold Recording.Ensures at ran
    split at ran
    · next ended => rwa [ended]
    · next ended => rwa [ended]
  exact ⟨sound.holds, fun kept => ⟨sound.current kept, sound.holds⟩⟩

/-! ### Deciding the conditions -/

theorem freshOver_iff {enclosing : List Environment} {environment captured : Environment} :
    FreshOver enclosing environment captured ↔
      (captured.toList.all fun entry => setByRunner entry.1 || enclosed enclosing entry.1 ||
        environment[entry.1]? = some entry.2) = true := by
  simp only [List.all_eq_true, Bool.or_eq_true, decide_eq_true_eq]
  constructor
  · intro fresh entry member
    have present := ExtTreeMap.mem_toList_iff_getElem?_eq_some.mp member
    cases ordinary : setByRunner entry.1 with
    | true => exact .inl (.inl rfl)
    | false =>
        cases unset : enclosed enclosing entry.1 with
        | true => exact .inl (.inr rfl)
        | false => exact .inr (fresh entry.1 entry.2 ordinary unset present)
  · intro every name value ordinary unset present
    rcases every (name, value) (ExtTreeMap.mem_toList_iff_getElem?_eq_some.mpr present) with
      (runner | inEnclosing) | same
    · rw [ordinary] at runner
      cases runner
    · rw [unset] at inEnclosing
      cases inEnclosing
    · exact same

instance (enclosing : List Environment) (environment captured : Environment) :
    Decidable (FreshOver enclosing environment captured) :=
  decidable_of_iff' _ freshOver_iff

instance (reception : Reception) : Decidable reception.Fresh :=
  match found : reception.captured with
  | none => isTrue fun captured same => by
      rw [found] at same
      cases same
  | some captured =>
      decidable_of_iff (FreshOver reception.enclosing reception.environment captured)
        ⟨fun fresh other same => by
          rw [found] at same
          cases same
          exact fresh, fun fresh => fresh captured found⟩

theorem carried_iff {course : Course} {closure : Closure} :
    closure.Carried course ↔ ∀ name ∈ closure.own.keys, setByRunner name = false →
      if (afterProcesses course closure.inside closure.initial)[name]? = closure.initial[name]? then
        (afterProcesses course closure.inside closure.outer)[name]? = closure.outer[name]?
      else (afterProcesses course closure.inside closure.outer)[name]? =
        (afterProcesses course closure.inside closure.initial)[name]? := by
  constructor
  · intro carried name member ordinary
    refine carried name ordinary ?_
    rw [ExtTreeMap.isSome_getElem?_iff_mem]
    exact ExtTreeMap.mem_keys.mp member
  · intro every name ordinary set
    refine every name (ExtTreeMap.mem_keys.mpr ?_) ordinary
    exact ExtTreeMap.isSome_getElem?_iff_mem.mp set

instance (course : Course) (closure : Closure) : Decidable (closure.Carried course) :=
  decidable_of_iff' _ carried_iff

instance (course : Course) (record : JobRecord) : Decidable (Kept course record) :=
  decidable_of_iff ((∀ reception ∈ record.seen, reception.Fresh) ∧
      ∀ closure ∈ record.closed, closure.Carried course)
    ⟨fun ⟨fresh, carried⟩ => ⟨fresh, carried⟩, fun kept => ⟨kept.fresh, kept.carried⟩⟩

namespace Sample

/-- The job's `env` sets `FOO`; a JavaScript action with a post entry point runs, and then a
script writes the given line to its environment file. -/
def exportingCourse (line : String) : Course where
  render := fun _ template => some template
  condition := fun _ => some true
  inputs := fun _ => some ∅
  process := fun moment => if moment = 9 then { environmentFile := line } else {}
  checkout := fun _ => {}
  commandFile := fun moment name => "/temp/" ++ name ++ toString moment
  deadline := fun _ => none
  stops := fun _ => false

def actionThenScript : List StepTree :=
  [.javascript { githubAction := "setup" } { directory := "/action" } false true,
    .run { githubAction := "__run" }]

def fooEnvironment : Environment := ExtTreeMap.ofList [("FOO", "1")] compare

/-- A name that nobody had set reaches the post entry point. -/
theorem new_name_reaches_post :
    Kept (exportingCourse "BAR=2\n") (jobRecord (exportingCourse "BAR=2\n") actionThenScript
      (jobEnvironment ∅ fooEnvironment "build" "/work" "/temp")) ∧
    EnvironmentLaw (exportingCourse "BAR=2\n")
      (jobEnvironment ∅ fooEnvironment "build" "/work" "/temp")
      (jobDefaults ∅ "build" "/work" "/temp")
      (jobRecord (exportingCourse "BAR=2\n") actionThenScript
        (jobEnvironment ∅ fooEnvironment "build" "/work" "/temp")) :=
  have kept : Kept (exportingCourse "BAR=2\n") (jobRecord (exportingCourse "BAR=2\n")
      actionThenScript (jobEnvironment ∅ fooEnvironment "build" "/work" "/temp")) := by
    decide +kernel
  ⟨kept, (environment_visibility (exportingCourse "BAR=2\n") actionThenScript ∅ fooEnvironment
    "build" "/work" "/temp").2 kept⟩

/-- The script exports `FOO=2`; the post entry point still receives `FOO=1`. -/
theorem post_sees_stale_value :
    ¬ ∀ (course : Course) (steps : List StepTree) (defaults environment : Environment)
        (jobId workspace temp : String),
      EnvironmentLaw course (jobEnvironment defaults environment jobId workspace temp)
        (jobDefaults defaults jobId workspace temp)
        (jobRecord course steps (jobEnvironment defaults environment jobId workspace temp)) := by
  intro law
  have current := (law (exportingCourse "FOO=2\n") actionThenScript ∅ fooEnvironment "build"
    "/work" "/temp").current
  have stale : ∃ reception ∈ (jobRecord (exportingCourse "FOO=2\n") actionThenScript
      (jobEnvironment ∅ fooEnvironment "build" "/work" "/temp")).seen,
      reception.setByRunner "FOO" = false ∧ enclosed reception.enclosing "FOO" = false ∧
        (reception.received["FOO"]?).or (exportingCourse "FOO=2\n").agent["FOO"]? ≠
          ((afterProcesses (exportingCourse "FOO=2\n") reception.finished
            (jobEnvironment ∅ fooEnvironment "build" "/work" "/temp"))["FOO"]?).or
            (exportingCourse "FOO=2\n").agent["FOO"]? := by
    decide +kernel
  obtain ⟨reception, member, ordinary, unset, differs⟩ := stale
  exact differs (current reception member "FOO" ordinary unset)

end Sample

end GitZero.Agent
