/-
Module: GitZero.Proofs.GitConfiguration
Purpose: The inline configuration of Git in the environment of a job: what one call of
  configure_checkout_credentials makes of it, and what is left of it when checkouts in
  composite actions and background steps are laid over the job, which deletes nothing.
Trusted boundary: none
Main exports: inlineGitConfig, configure_replaces, GitConfigured, NoCredential,
  StepCourse.lastCheckout, FlushFits, step_keeps, steps_keep, git_configuration_stays
-/
import Std.Data.String.ToNat
import GitZero.Agent.CheckoutSteps
import GitZero.Lib.Machine
import GitZero.Lib.Outcomes
import GitZero.Proofs.DeferredEnvironment
import GitZero.Proofs.EnvironmentVisibility

namespace GitZero.Agent

open Machine OrderedMaps
open Expression (parseUsize)

/-! ### Names -/

def isGitConfigName (name : String) : Bool := startsWith "GIT_CONFIG_" name

theorem isGitConfigName_key (index : Nat) : isGitConfigName (gitConfigKey index) = true := by
  unfold isGitConfigName gitConfigKey
  generalize toString index = digits
  simp [startsWith]

theorem isGitConfigName_value (index : Nat) : isGitConfigName (gitConfigValue index) = true := by
  unfold isGitConfigName gitConfigValue
  generalize toString index = digits
  simp [startsWith]

theorem isGitConfigName_count : isGitConfigName "GIT_CONFIG_COUNT" = true := by decide

/-- The number behind a base is a part of the name. -/
theorem numbered_inj {base : String} {one two : Nat} :
    base ++ toString one = base ++ toString two ↔ one = two := by
  constructor
  · intro same
    have texts := congrArg String.toList same
    rw [String.toList_append, String.toList_append] at texts
    have digits := String.toList_inj.mp (List.append_cancel_left texts)
    exact Nat.repr_injective digits
  · intro same
    rw [same]

theorem gitConfigKey_inj {one two : Nat} : gitConfigKey one = gitConfigKey two ↔ one = two :=
  numbered_inj

theorem gitConfigValue_inj {one two : Nat} :
    gitConfigValue one = gitConfigValue two ↔ one = two :=
  numbered_inj

theorem gitConfigKey_ne {other : String} (differs : startsWith "GIT_CONFIG_KEY_" other = false)
    (index : Nat) : gitConfigKey index ≠ other := by
  rintro rfl
  have starts : startsWith "GIT_CONFIG_KEY_" (gitConfigKey index) = true :=
    startsWith_append _ (toString index)
  rw [differs] at starts
  cases starts

theorem gitConfigValue_ne {other : String}
    (differs : startsWith "GIT_CONFIG_VALUE_" other = false) (index : Nat) :
    gitConfigValue index ≠ other := by
  rintro rfl
  have starts : startsWith "GIT_CONFIG_VALUE_" (gitConfigValue index) = true :=
    startsWith_append _ (toString index)
  rw [differs] at starts
  cases starts

theorem gitConfigKey_ne_value (one two : Nat) : gitConfigKey one ≠ gitConfigValue two := by
  refine gitConfigKey_ne ?_ one
  unfold gitConfigValue
  generalize toString two = digits
  simp [startsWith, List.isPrefixOf]

theorem gitConfigKey_ne_count (index : Nat) : gitConfigKey index ≠ "GIT_CONFIG_COUNT" :=
  gitConfigKey_ne (by decide) index

theorem gitConfigValue_ne_count (index : Nat) : gitConfigValue index ≠ "GIT_CONFIG_COUNT" :=
  gitConfigValue_ne (by decide) index

theorem startsWith_git_of_config {name : String} (config : isGitConfigName name = true) :
    startsWith "GIT_" name = true := by
  rw [isGitConfigName, startsWith, List.isPrefixOf_iff_prefix] at config
  rw [startsWith, List.isPrefixOf_iff_prefix]
  exact List.IsPrefix.trans (by decide) config

theorem isGitConfigName_input (name : String) :
    isGitConfigName (actionInputEnvironmentName name) = false := by
  simp [isGitConfigName, actionInputEnvironmentName, startsWith, List.isPrefixOf]

theorem not_perStep_of_config {name : String} (config : isGitConfigName name = true) :
    name ∉ perStepNames := by
  intro perStep
  have every : ∀ name ∈ perStepNames, (!isGitConfigName name) = true :=
    List.all_eq_true.mp (by decide)
  have plain := every name perStep
  rw [config] at plain
  cases plain

theorem ne_of_gitConfig {name other : String} (config : isGitConfigName name = true)
    (plain : isGitConfigName other = false) : other ≠ name := by
  rintro rfl
  rw [config] at plain
  cases plain

/-! ### The configuration -/

def gitConfigEntry (environment : Environment) (index : Nat) : Option (String × String) := do
  let key ← environment[gitConfigKey index]?
  let value ← environment[gitConfigValue index]?
  return (key, value)

/-- The entries that Git reads; `none` where the variables are ill formed. -/
def inlineGitConfig (environment : Environment) : Option (List (String × String)) := do
  let count ← gitConfigCount environment
  (List.range count).mapM (gitConfigEntry environment)

def isManagedKey (key : String) : Bool :=
  eqIgnoreAsciiCase key checkoutHttpExtraheader || eqIgnoreAsciiCase key checkoutSshInsteadOf

def isUnmanaged (entry : String × String) : Bool := !isManagedKey entry.1

def managedEntries (credential : Option String) (rewriteSshSubmoduleUrls : Bool) :
    List (String × String) :=
  credential.toList.map (fun value => (checkoutHttpExtraheader, value)) ++
    if rewriteSshSubmoduleUrls then [(checkoutSshInsteadOf, "git@github.com:")] else []

theorem gitConfigEntry_eq_some {environment : Environment} {index : Nat}
    {entry : String × String} :
    gitConfigEntry environment index = some entry ↔
      environment[gitConfigKey index]? = some entry.1 ∧
        environment[gitConfigValue index]? = some entry.2 := by
  unfold gitConfigEntry
  cases environment[gitConfigKey index]? with
  | none => simp
  | some key =>
      cases environment[gitConfigValue index]? with
      | none => simp
      | some value =>
          simp only [Option.bind_eq_bind, Option.bind_some, Option.pure_def, Option.some.injEq]
          exact ⟨fun same => same ▸ ⟨rfl, rfl⟩, fun same => Prod.ext same.1 same.2⟩

theorem unmanagedGitConfig_eq (environment : Environment) (count : Nat) :
    unmanagedGitConfig environment count =
      ((List.range count).mapM (gitConfigEntry environment)).map fun entries =>
        entries.filter isUnmanaged := by
  have same : (fun entry : String × String =>
      !eqIgnoreAsciiCase entry.1 checkoutHttpExtraheader &&
        !eqIgnoreAsciiCase entry.1 checkoutSshInsteadOf) = isUnmanaged :=
    funext fun _ => (Bool.not_or ..).symm
  unfold unmanagedGitConfig
  rw [same]
  cases found : (List.range count).mapM (gitConfigEntry environment) with
  | none =>
      unfold gitConfigEntry at found
      rw [found]
      rfl
  | some entries =>
      unfold gitConfigEntry at found
      rw [found]
      rfl

theorem parseUsize_toString {number : Nat} (small : number < 2 ^ 64) :
    parseUsize (toString number).toList = some number := by
  have spelled : (toString number).toList = Nat.toDigits 10 number := by
    simp [Nat.repr]
  rw [spelled]
  exact Expression.parseUsize_toDigits small

/-- Reading numbered entries that are all there. -/
theorem mapM_range {α : Type} {read : Nat → Option α} {entries : List α} (start : Nat)
    (reads : ∀ index (inside : index < entries.length), read (start + index) =
      some entries[index]) :
    (List.range' start entries.length).mapM read = some entries := by
  induction entries generalizing start with
  | nil => rfl
  | cons entry entries inductionHypothesis =>
      have first := reads 0 (Nat.zero_lt_succ _)
      have rest := inductionHypothesis (start + 1) fun index inside => by
        have later := reads (index + 1) (Nat.succ_lt_succ inside)
        rw [Nat.add_right_comm, Nat.add_assoc]
        exact later
      rw [List.length_cons, List.range'_succ, List.mapM_cons]
      rw [Nat.add_zero] at first
      rw [first, rest]
      rfl

theorem mapM_of_isSome {α β : Type} {read : α → Option β} {items : List α}
    (every : ∀ item ∈ items, (read item).isSome) : ∃ values, items.mapM read = some values := by
  induction items with
  | nil => exact ⟨[], rfl⟩
  | cons item items inductionHypothesis =>
      obtain ⟨value, found⟩ := Option.isSome_iff_exists.mp (every item List.mem_cons_self)
      obtain ⟨values, foundRest⟩ := inductionHypothesis fun later member =>
        every later (List.mem_cons_of_mem _ member)
      refine ⟨value :: values, ?_⟩
      rw [List.mapM_cons, found, foundRest]
      rfl

theorem length_of_mapM {α β : Type} {read : α → Option β} {items : List α} {values : List β}
    (found : items.mapM read = some values) : values.length = items.length := by
  induction items generalizing values with
  | nil =>
      cases found
      rfl
  | cons item items inductionHypothesis =>
      rw [List.mapM_cons, Option.bind_eq_bind, Option.bind_eq_some_iff] at found
      obtain ⟨value, _, found⟩ := found
      obtain ⟨rest, foundRest, same⟩ := Option.bind_eq_some_iff.mp found
      cases same
      rw [List.length_cons, List.length_cons, inductionHypothesis foundRest]

/-! ### One call -/

section Configuration

variable {environment base changed : Environment} {entries : List (String × String)}
  {name : String}

theorem getElem?_removeGitConfig_other (count : Nat) (uncounted : name ≠ "GIT_CONFIG_COUNT")
    (unnumbered : ∀ index < max count 2, gitConfigKey index ≠ name ∧ gitConfigValue index ≠ name) :
    (removeGitConfig environment count)[name]? = environment[name]? := by
  rw [removeGitConfig, getElem?_foldl_outside, getElem?_erase_outside uncounted.symm]
  intro map index member
  obtain ⟨notKey, notValue⟩ := unnumbered index (List.mem_range.mp member)
  rw [getElem?_erase_outside notValue, getElem?_erase_outside notKey]

/-- Erasing keeps an absent variable absent. -/
theorem getElem?_erase_absent (map : Environment) (erased : String) (absent : map[name]? = none) :
    (map.erase erased)[name]? = none := by
  by_cases same : erased = name
  · rw [same, Std.ExtTreeMap.getElem?_erase_self]
  · rw [getElem?_erase_outside same, absent]

theorem foldl_erase_absent (indices : List Nat) (absent : base[name]? = none) :
    (indices.foldl (fun environment index =>
      (environment.erase (gitConfigKey index)).erase (gitConfigValue index)) base)[name]? =
      none := by
  induction indices generalizing base with
  | nil => exact absent
  | cons index indices inductionHypothesis =>
      exact inductionHypothesis
        (getElem?_erase_absent _ _ (getElem?_erase_absent _ _ absent))

theorem getElem?_removeGitConfig_count (count : Nat) :
    (removeGitConfig environment count)["GIT_CONFIG_COUNT"]? = none :=
  foldl_erase_absent _ Std.ExtTreeMap.getElem?_erase_self

theorem foldl_erase_numbered {index : Nat} (numbered : gitConfigKey index = name ∨
      gitConfigValue index = name) (indices : List Nat) (member : index ∈ indices) :
    (indices.foldl (fun environment index =>
      (environment.erase (gitConfigKey index)).erase (gitConfigValue index)) base)[name]? =
      none := by
  induction indices generalizing base with
  | nil => cases member
  | cons first indices inductionHypothesis =>
      rcases List.mem_cons.mp member with rfl | later
      · refine foldl_erase_absent indices ?_
        rcases numbered with rfl | rfl
        · exact getElem?_erase_absent _ _ Std.ExtTreeMap.getElem?_erase_self
        · exact Std.ExtTreeMap.getElem?_erase_self
      · exact inductionHypothesis later

theorem getElem?_removeGitConfig_numbered {count : Nat} (index : Nat) (within : index < max count 2)
    (numbered : gitConfigKey index = name ∨ gitConfigValue index = name) :
    (removeGitConfig environment count)[name]? = none :=
  foldl_erase_numbered numbered _ (List.mem_range.mpr within)

/-- The variables of the entries, numbered from `start` on. -/
def placeEntries (start : Nat) (environment : Environment) (entries : List (String × String)) :
    Environment :=
  (entries.zipIdx start).foldl (fun environment entry =>
    (environment.insert (gitConfigKey entry.2) entry.1.1).insert (gitConfigValue entry.2)
      entry.1.2) environment

theorem insertGitConfig_eq (environment : Environment) (entries : List (String × String)) :
    insertGitConfig environment entries =
      if entries.isEmpty then placeEntries 0 environment entries
      else (placeEntries 0 environment entries).insert "GIT_CONFIG_COUNT"
        (toString entries.length) := rfl

theorem getElem?_placeEntries_other (environment : Environment) (start : Nat)
    (unnumbered : ∀ index, start ≤ index → index < start + entries.length →
      gitConfigKey index ≠ name ∧ gitConfigValue index ≠ name) :
    (placeEntries start environment entries)[name]? = environment[name]? := by
  refine getElem?_foldl_outside (fun map entry member => ?_) environment
  have numbered := List.mem_zipIdx member
  obtain ⟨notKey, notValue⟩ := unnumbered entry.2 numbered.1 numbered.2.1
  rw [getElem?_insert_outside notValue, getElem?_insert_outside notKey]

theorem getElem?_placeEntries (environment : Environment) (start index : Nat)
    (inside : index < entries.length) :
    (placeEntries start environment entries)[gitConfigKey (start + index)]? =
        some entries[index].1 ∧
      (placeEntries start environment entries)[gitConfigValue (start + index)]? =
        some entries[index].2 := by
  induction entries generalizing start index environment with
  | nil => cases inside
  | cons entry entries inductionHypothesis =>
      cases index with
      | zero =>
          have later : ∀ name, name = gitConfigKey start ∨ name = gitConfigValue start →
              ∀ index, start + 1 ≤ index → index < start + 1 + entries.length →
                gitConfigKey index ≠ name ∧ gitConfigValue index ≠ name := by
            rintro name (rfl | rfl) index above _
            · refine ⟨fun same => ?_, (gitConfigKey_ne_value _ _).symm⟩
              rw [gitConfigKey_inj] at same
              omega
            · refine ⟨gitConfigKey_ne_value _ _, fun same => ?_⟩
              rw [gitConfigValue_inj] at same
              omega
          have key := getElem?_placeEntries_other
            ((environment.insert (gitConfigKey start) entry.1).insert (gitConfigValue start)
              entry.2) (start + 1) (later _ (.inl rfl))
          have value := getElem?_placeEntries_other
            ((environment.insert (gitConfigKey start) entry.1).insert (gitConfigValue start)
              entry.2) (start + 1) (later _ (.inr rfl))
          refine ⟨key.trans ?_, value.trans Std.ExtTreeMap.getElem?_insert_self⟩
          rw [getElem?_insert_outside (gitConfigKey_ne_value _ _).symm]
          exact Std.ExtTreeMap.getElem?_insert_self
      | succ index =>
          have rest := inductionHypothesis
            ((environment.insert (gitConfigKey start) entry.1).insert (gitConfigValue start)
              entry.2) (start + 1) index (Nat.lt_of_succ_lt_succ inside)
          rw [Nat.add_right_comm, Nat.add_assoc] at rest
          exact rest

theorem getElem?_insertGitConfig_other (uncounted : name ≠ "GIT_CONFIG_COUNT")
    (unnumbered : ∀ index < entries.length,
      gitConfigKey index ≠ name ∧ gitConfigValue index ≠ name) :
    (insertGitConfig environment entries)[name]? = environment[name]? := by
  have placed : (placeEntries 0 environment entries)[name]? = environment[name]? :=
    getElem?_placeEntries_other _ 0 fun index _ below =>
      unnumbered index (by rwa [Nat.zero_add] at below)
  rw [insertGitConfig_eq]
  split
  · exact placed
  · rw [getElem?_insert_outside uncounted.symm, placed]

theorem gitConfigEntry_insertGitConfig (environment : Environment) (index : Nat)
    (inside : index < entries.length) :
    gitConfigEntry (insertGitConfig environment entries) index = some entries[index] := by
  have placed := getElem?_placeEntries environment 0 index inside
  rw [Nat.zero_add] at placed
  have filled : entries.isEmpty = false := by
    cases entries with
    | nil => cases inside
    | cons => rfl
  rw [gitConfigEntry, insertGitConfig_eq, filled, if_neg Bool.false_ne_true,
    getElem?_insert_outside (gitConfigKey_ne_count index).symm,
    getElem?_insert_outside (gitConfigValue_ne_count index).symm, placed.1, placed.2]
  rfl

theorem getElem?_insertGitConfig_count :
    (insertGitConfig base entries)["GIT_CONFIG_COUNT"]? =
      if entries.isEmpty then base["GIT_CONFIG_COUNT"]? else some (toString entries.length) := by
  rw [insertGitConfig_eq]
  split
  · exact getElem?_placeEntries_other _ 0 fun index _ _ =>
      ⟨gitConfigKey_ne_count index, gitConfigValue_ne_count index⟩
  · exact Std.ExtTreeMap.getElem?_insert_self

theorem gitConfigCount_insertGitConfig (uncounted : base["GIT_CONFIG_COUNT"]? = none)
    (small : entries.length < 2 ^ 64) :
    gitConfigCount (insertGitConfig base entries) = some entries.length := by
  rw [gitConfigCount, getElem?_insertGitConfig_count, uncounted]
  cases entries with
  | nil => rfl
  | cons entry entries => exact parseUsize_toString small

theorem inlineGitConfig_insertGitConfig (uncounted : base["GIT_CONFIG_COUNT"]? = none)
    (small : entries.length < 2 ^ 64) :
    inlineGitConfig (insertGitConfig base entries) = some entries := by
  rw [inlineGitConfig, gitConfigCount_insertGitConfig uncounted small, Option.bind_eq_bind,
    Option.bind_some, List.range_eq_range']
  refine mapM_range 0 fun index inside => ?_
  rw [Nat.zero_add]
  exact gitConfigEntry_insertGitConfig base index inside

theorem inlineGitConfig_eq_some :
    inlineGitConfig environment = some entries ↔
      gitConfigCount environment = some entries.length ∧
        (List.range entries.length).mapM (gitConfigEntry environment) = some entries := by
  unfold inlineGitConfig
  rw [Option.bind_eq_bind, Option.bind_eq_some_iff]
  constructor
  · rintro ⟨count, counted, found⟩
    have length := length_of_mapM found
    rw [List.length_range] at length
    rw [length]
    exact ⟨counted, found⟩
  · rintro ⟨counted, found⟩
    exact ⟨entries.length, counted, found⟩

/-- What a call of `configure_checkout_credentials` does: the entries that it does not manage
stay in their order, and the managed ones follow. -/
structure GitConfigured (environment : Environment) (credential : Option String)
    (rewriteSshSubmoduleUrls : Bool) (changed : Environment) : Prop where
  succeeds : configureCheckoutCredentials environment credential rewriteSshSubmoduleUrls =
    some changed
  replaces : ∃ entries, inlineGitConfig environment = some entries ∧
    inlineGitConfig changed =
      some (entries.filter isUnmanaged ++ managedEntries credential rewriteSshSubmoduleUrls)
  once : ∀ entries, inlineGitConfig changed = some entries →
    (entries.filter fun entry => eqIgnoreAsciiCase entry.1 checkoutHttpExtraheader).length ≤ 1
  others : ∀ name, isGitConfigName name = false → changed[name]? = environment[name]?

/-- The entries and what a call adds to them stay below the limit. -/
structure GitConfigFits (entries : List (String × String)) (credential : Option String)
    (rewriteSshSubmoduleUrls : Bool) : Prop where
  before : entries.length ≤ maxInlineGitConfigParameters + 2
  after : (entries.filter isUnmanaged ++
    managedEntries credential rewriteSshSubmoduleUrls).length ≤ maxInlineGitConfigParameters + 2

theorem configureCheckoutCredentials_eq {credential : Option String}
    {rewriteSshSubmoduleUrls : Bool} (configured : inlineGitConfig environment = some entries)
    (fits : GitConfigFits entries credential rewriteSshSubmoduleUrls) :
    configureCheckoutCredentials environment credential rewriteSshSubmoduleUrls =
      some (insertGitConfig (removeGitConfig environment entries.length)
        (entries.filter isUnmanaged ++ managedEntries credential rewriteSshSubmoduleUrls)) := by
  obtain ⟨counted, found⟩ := inlineGitConfig_eq_some.mp configured
  have unmanaged : unmanagedGitConfig environment entries.length =
      some (entries.filter isUnmanaged) := by
    rw [unmanagedGitConfig_eq, found, Option.map_some]
  unfold configureCheckoutCredentials
  simp only [Option.bind_eq_bind, counted, Option.bind_some, if_neg (Nat.not_lt.mpr fits.before),
    unmanaged]
  exact if_neg (Nat.not_lt.mpr fits.after)

theorem headers_once (entries : List (String × String)) (credential : Option String)
    (rewriteSshSubmoduleUrls : Bool) :
    ((entries.filter isUnmanaged ++ managedEntries credential rewriteSshSubmoduleUrls).filter
      fun entry => eqIgnoreAsciiCase entry.1 checkoutHttpExtraheader).length ≤ 1 := by
  have kept : (entries.filter isUnmanaged).filter
      (fun entry => eqIgnoreAsciiCase entry.1 checkoutHttpExtraheader) = [] := by
    refine List.filter_eq_nil_iff.mpr fun entry member => ?_
    have unmanaged := (List.mem_filter.mp member).2
    rw [isUnmanaged, isManagedKey, Bool.not_eq_true', Bool.or_eq_false_iff] at unmanaged
    rw [unmanaged.1]
    exact Bool.false_ne_true
  have rewritten : eqIgnoreAsciiCase checkoutSshInsteadOf checkoutHttpExtraheader = false := by
    decide
  have header : eqIgnoreAsciiCase checkoutHttpExtraheader checkoutHttpExtraheader = true := by
    decide
  rw [List.filter_append, kept, List.nil_append]
  cases credential <;> cases rewriteSshSubmoduleUrls <;> simp [managedEntries, rewritten, header]

/-- Configuring a checkout appends its entries to those that are there. -/
theorem configure_replaces {credential : Option String} {rewriteSshSubmoduleUrls : Bool}
    (configured : inlineGitConfig environment = some entries)
    (fits : GitConfigFits entries credential rewriteSshSubmoduleUrls) :
    ∃ changed, GitConfigured environment credential rewriteSshSubmoduleUrls changed := by
  have replaced : inlineGitConfig (insertGitConfig (removeGitConfig environment entries.length)
      (entries.filter isUnmanaged ++ managedEntries credential rewriteSshSubmoduleUrls)) =
      some (entries.filter isUnmanaged ++ managedEntries credential rewriteSshSubmoduleUrls) :=
    inlineGitConfig_insertGitConfig (getElem?_removeGitConfig_count _)
      (Nat.lt_of_le_of_lt fits.after (by decide))
  refine ⟨_, configureCheckoutCredentials_eq configured fits, ⟨entries, configured, replaced⟩,
    fun found isFound => ?_, ?_⟩
  · rw [replaced] at isFound
    cases isFound
    exact headers_once entries credential rewriteSshSubmoduleUrls
  · intro name plain
    have uncounted : name ≠ "GIT_CONFIG_COUNT" :=
      (ne_of_gitConfig isGitConfigName_count plain).symm ∘ Eq.symm
    have unnumbered : ∀ index, gitConfigKey index ≠ name ∧ gitConfigValue index ≠ name :=
      fun index => ⟨(ne_of_gitConfig (isGitConfigName_key index) plain).symm,
        (ne_of_gitConfig (isGitConfigName_value index) plain).symm⟩
    rw [getElem?_insertGitConfig_other uncounted fun index _ => unnumbered index,
      getElem?_removeGitConfig_other _ uncounted fun index _ => unnumbered index]

/-- A failed call changes nothing. -/
theorem configureInPlace_eq (environment : Environment) (credential : Option String)
    (rewriteSshSubmoduleUrls : Bool) :
    configureInPlace environment credential rewriteSshSubmoduleUrls =
      ((configureCheckoutCredentials environment credential rewriteSshSubmoduleUrls).getD
          environment,
        (configureCheckoutCredentials environment credential rewriteSshSubmoduleUrls).isSome) := by
  unfold configureInPlace configureCheckoutCredentials
  simp only [Option.bind_eq_bind]
  cases gitConfigCount environment with
  | none => rfl
  | some count =>
      simp only [Option.bind_some]
      split
      · rfl
      · cases unmanagedGitConfig environment count with
        | none => rfl
        | some entries =>
            simp only [Option.bind_some]
            cases rewriteSshSubmoduleUrls with
            | false =>
                simp only [Bool.false_eq_true, if_false, List.append_nil, List.length_append,
                  List.length_map, Nat.add_zero]
                split
                · rfl
                · rfl
            | true =>
                simp only [if_true, List.length_append, List.length_map, List.length_singleton,
                  List.append_assoc]
                split
                · rfl
                · rfl

end Configuration

/-! ### The configuration of a job -/

/-- A variable of the configuration that a checkout has set. -/
def OwnVariable (name value : String) : Prop :=
  name = "GIT_CONFIG_COUNT" ∨
    ∃ index < 2, (name = gitConfigKey index ∧ isManagedKey value = true) ∨
      name = gitConfigValue index

/-- Only checkouts have set the configuration, and Git can read it. -/
structure Tame (environment : Environment) : Prop where
  own : ∀ name value, isGitConfigName name = true → environment[name]? = some value →
    OwnVariable name value
  few : ∀ value, environment["GIT_CONFIG_COUNT"]? = some value →
    ∃ count ≤ 2, value = toString count
  counted : ∀ count, environment["GIT_CONFIG_COUNT"]? = some (toString count) →
    ∀ index < count, environment[gitConfigKey index]?.isSome ∧
      environment[gitConfigValue index]?.isSome

/-- No variable of the configuration. -/
def NoConfig (environment : Environment) : Prop :=
  ∀ name, isGitConfigName name = true → environment[name]? = none

/-- No entry of the configuration holds a credential. -/
def NoCredential (environment : Environment) : Prop :=
  ∀ name token, isGitConfigName name = true →
    environment[name]? ≠ some (credentialHeader token)

/-- The same configuration. -/
def SameConfig (left right : Environment) : Prop :=
  ∀ name, isGitConfigName name = true → left[name]? = right[name]?

section Tame

variable {environment base left right : Environment} {entries : List (String × String)}

theorem NoConfig.tame (plain : NoConfig environment) : Tame environment where
  own name value config present := by
    rw [plain name config] at present
    cases present
  few value present := by
    rw [plain _ isGitConfigName_count] at present
    cases present
  counted count present := by
    rw [plain _ isGitConfigName_count] at present
    cases present

theorem NoConfig.clean (plain : NoConfig environment) : NoCredential environment := by
  intro name token config
  rw [plain name config]
  exact (Option.some_ne_none _).symm

theorem NoCredential.congr (clean : NoCredential left) (same : SameConfig right left) :
    NoCredential right := by
  intro name token config
  rw [same name config]
  exact clean name token config

theorem SameConfig.trans {third : Environment} (first : SameConfig left right)
    (second : SameConfig right third) : SameConfig left third :=
  fun name config => (first name config).trans (second name config)

theorem Tame.congr (tame : Tame left) (same : SameConfig right left) : Tame right where
  own name value config present :=
    tame.own name value config ((same name config).symm.trans present)
  few value present := tame.few value ((same _ isGitConfigName_count).symm.trans present)
  counted count present index below := by
    rw [same _ (isGitConfigName_key index), same _ (isGitConfigName_value index)]
    exact tame.counted count ((same _ isGitConfigName_count).symm.trans present) index below

theorem Tame.managed (tame : Tame environment) {index : Nat} {entry : String × String}
    (isEntry : gitConfigEntry environment index = some entry) : isUnmanaged entry = false := by
  obtain ⟨key, _⟩ := gitConfigEntry_eq_some.mp isEntry
  rcases tame.own _ _ (isGitConfigName_key index) key with counts | ⟨other, _, isKey | isValue⟩
  · exact absurd counts (gitConfigKey_ne_count index)
  · rw [isUnmanaged, isKey.2]
    rfl
  · exact absurd isValue (gitConfigKey_ne_value index other)

/-- At most two entries, all of them managed. -/
theorem Tame.reads (tame : Tame environment) :
    ∃ entries, inlineGitConfig environment = some entries ∧ entries.length ≤ 2 ∧
      entries.filter isUnmanaged = [] := by
  cases present : environment["GIT_CONFIG_COUNT"]? with
  | none =>
      refine ⟨[], ?_, Nat.zero_le 2, rfl⟩
      rw [inlineGitConfig, gitConfigCount, present]
      rfl
  | some value =>
      obtain ⟨count, small, rfl⟩ := tame.few value present
      have every : ∀ index ∈ List.range count, (gitConfigEntry environment index).isSome := by
        intro index member
        obtain ⟨isKey, isValue⟩ := tame.counted count present index (List.mem_range.mp member)
        obtain ⟨key, foundKey⟩ := Option.isSome_iff_exists.mp isKey
        obtain ⟨value, foundValue⟩ := Option.isSome_iff_exists.mp isValue
        have isEntry : gitConfigEntry environment index = some (key, value) :=
          gitConfigEntry_eq_some.mpr ⟨foundKey, foundValue⟩
        rw [isEntry]
        rfl
      obtain ⟨entries, found⟩ := mapM_of_isSome every
      have length := length_of_mapM found
      rw [List.length_range] at length
      refine ⟨entries, ?_, length ▸ small, ?_⟩
      · rw [inlineGitConfig, gitConfigCount, present]
        dsimp only
        rw [parseUsize_toString (by omega)]
        exact found
      · refine List.filter_eq_nil_iff.mpr fun entry member => ?_
        obtain ⟨index, _, isEntry⟩ := Outcomes.exists_of_mem_mapM found member
        rw [tame.managed isEntry]
        exact Bool.false_ne_true

theorem Tame.removed (tame : Tame environment) (count : Nat) :
    NoConfig (removeGitConfig environment count) := by
  intro name config
  cases present : environment[name]? with
  | none => exact foldl_erase_absent _ (getElem?_erase_absent _ _ present)
  | some value =>
      rcases tame.own name value config present with rfl | ⟨index, below, numbered⟩
      · exact getElem?_removeGitConfig_count count
      · refine getElem?_removeGitConfig_numbered index
          (Nat.lt_of_lt_of_le below (Nat.le_max_right count 2)) ?_
        rcases numbered with ⟨rfl, _⟩ | rfl
        · exact .inl rfl
        · exact .inr rfl

theorem tame_insertGitConfig (plain : NoConfig base) (few : entries.length ≤ 2)
    (managed : ∀ entry ∈ entries, isManagedKey entry.1 = true) :
    Tame (insertGitConfig base entries) where
  own name value config present := by
    by_cases counts : name = "GIT_CONFIG_COUNT"
    · exact .inl counts
    · refine .inr ?_
      by_contra unnumbered
      have other : (insertGitConfig base entries)[name]? = base[name]? := by
        refine getElem?_insertGitConfig_other counts fun index below => ?_
        obtain ⟨isKey, _⟩ := gitConfigEntry_eq_some.mp
          (gitConfigEntry_insertGitConfig base index below)
        refine ⟨fun same => unnumbered ⟨index, by omega, .inl ⟨same.symm, ?_⟩⟩,
          fun same => unnumbered ⟨index, by omega, .inr same.symm⟩⟩
        rw [same, present] at isKey
        cases isKey
        exact managed _ (List.getElem_mem below)
      rw [other, plain name config] at present
      cases present
  few value present := by
    rw [getElem?_insertGitConfig_count, plain _ isGitConfigName_count] at present
    split at present
    · cases present
    · cases present
      exact ⟨entries.length, few, rfl⟩
  counted count present index below := by
    rw [getElem?_insertGitConfig_count, plain _ isGitConfigName_count] at present
    split at present
    · cases present
    · have length := Nat.repr_injective (Option.some.inj present)
      obtain ⟨isKey, isValue⟩ := gitConfigEntry_eq_some.mp
        (gitConfigEntry_insertGitConfig base index (length.symm ▸ below))
      rw [isKey, isValue]
      exact ⟨rfl, rfl⟩

theorem length_managedEntries (credential : Option String) (rewriteSshSubmoduleUrls : Bool) :
    (managedEntries credential rewriteSshSubmoduleUrls).length ≤ 2 := by
  cases credential <;> cases rewriteSshSubmoduleUrls <;> simp [managedEntries]

theorem isManagedKey_header : isManagedKey checkoutHttpExtraheader = true := by decide

theorem isManagedKey_insteadOf : isManagedKey checkoutSshInsteadOf = true := by decide

theorem isManagedKey_of_mem {credential : Option String} {rewriteSshSubmoduleUrls : Bool}
    {entry : String × String}
    (member : entry ∈ managedEntries credential rewriteSshSubmoduleUrls) :
    isManagedKey entry.1 = true := by
  rcases List.mem_append.mp member with header | rewrite
  · obtain ⟨value, _, rfl⟩ := List.mem_map.mp header
    exact isManagedKey_header
  · split at rewrite
    · rw [List.mem_singleton.mp rewrite]
      exact isManagedKey_insteadOf
    · cases rewrite

theorem fits_of_managed {credential : Option String} {rewriteSshSubmoduleUrls : Bool}
    (few : entries.length ≤ 2) (none : entries.filter isUnmanaged = []) :
    GitConfigFits entries credential rewriteSshSubmoduleUrls := by
  refine ⟨few.trans (by decide), ?_⟩
  rw [none, List.nil_append]
  exact (length_managedEntries credential rewriteSshSubmoduleUrls).trans (by decide)

/-- A checkout can always configure Git in a job that only checkouts have configured. -/
theorem Tame.configures (tame : Tame environment) (credential : Option String)
    (rewriteSshSubmoduleUrls : Bool) :
    ∃ changed, GitConfigured environment credential rewriteSshSubmoduleUrls changed ∧
      Tame changed ∧
      (managedEntries credential rewriteSshSubmoduleUrls = [] → NoConfig changed) := by
  obtain ⟨entries, configured, few, none⟩ := tame.reads
  have fits : GitConfigFits entries credential rewriteSshSubmoduleUrls := fits_of_managed few none
  have result := configureCheckoutCredentials_eq configured fits
  rw [none, List.nil_append] at result
  obtain ⟨changed, done⟩ := configure_replaces configured fits
  have same := Option.some.inj (done.succeeds.symm.trans result)
  subst same
  refine ⟨_, done, ?_, fun empty => ?_⟩
  · exact tame_insertGitConfig (tame.removed _) (length_managedEntries _ _)
      fun entry => isManagedKey_of_mem
  · rw [empty]
    exact tame.removed _

end Tame

/-! ### What is laid over an environment -/

/-- The changes from one environment to another, copied into a third; nothing is deleted. -/
def Overlaid (current initial final after : Environment) : Prop :=
  ∀ name, isGitConfigName name = true → after[name]? =
    if final[name]? = initial[name]? then current[name]? else (final[name]?).or current[name]?

/-- Where the count changes, the entries that it counts and that are not new are still there. -/
def FlushFits (current initial final : Environment) : Prop :=
  final["GIT_CONFIG_COUNT"]? ≠ initial["GIT_CONFIG_COUNT"]? →
    ∀ count, final["GIT_CONFIG_COUNT"]? = some (toString count) → ∀ index < count, ∀ name,
      name = gitConfigKey index ∨ name = gitConfigValue index →
        final[name]? = initial[name]? → current[name]?.isSome

section Overlays

variable {current initial final after outer : Environment} {name : String}

theorem overlaid_propagate : Overlaid outer initial final (propagate outer initial final) :=
  fun name _ => getElem?_propagate outer initial final name

theorem overlaid_merge {Post : Type} (world : World Post) : Overlaid current initial final
    (mergeBackgroundEnvironment world current initial final) := by
  intro name config
  exact getElem?_merge_other initial current world (ne_of_gitConfig config (by decide)).symm final

theorem Overlaid.origin (overlaid : Overlaid current initial final after)
    (config : isGitConfigName name = true) {value : String} (present : after[name]? = some value) :
    current[name]? = some value ∨ final[name]? = some value := by
  rw [overlaid name config] at present
  split at present
  · exact .inl present
  · exact (Option.or_eq_some_iff.mp present).symm.imp And.right id

theorem Overlaid.keeps (overlaid : Overlaid current initial final after)
    (config : isGitConfigName name = true) (held : current[name]?.isSome) :
    after[name]?.isSome := by
  rw [overlaid name config]
  split
  · exact held
  · rw [Option.isSome_or, held, Bool.or_true]

theorem Overlaid.adds (overlaid : Overlaid current initial final after)
    (config : isGitConfigName name = true) (held : final[name]?.isSome)
    (fits : final[name]? = initial[name]? → current[name]?.isSome) : after[name]?.isSome := by
  rw [overlaid name config]
  split
  · next same => exact fits same
  · rw [Option.isSome_or, held, Bool.true_or]

theorem Overlaid.clean (overlaid : Overlaid current initial final after)
    (before : NoCredential current) (laid : NoCredential final) : NoCredential after := by
  intro name token config present
  rcases overlaid.origin config present with old | new
  · exact before name token config old
  · exact laid name token config new

theorem Overlaid.tame (overlaid : Overlaid current initial final after) (before : Tame current)
    (laid : Tame final) (fits : FlushFits current initial final) : Tame after where
  own name value config present := by
    rcases overlaid.origin config present with old | new
    · exact before.own name value config old
    · exact laid.own name value config new
  few value present := by
    rcases overlaid.origin isGitConfigName_count present with old | new
    · exact before.few value old
    · exact laid.few value new
  counted count present index below := by
    have isKey := isGitConfigName_key index
    have isValue := isGitConfigName_value index
    by_cases same : final["GIT_CONFIG_COUNT"]? = initial["GIT_CONFIG_COUNT"]?
    · rw [overlaid _ isGitConfigName_count, if_pos same] at present
      have held := before.counted count present index below
      exact ⟨overlaid.keeps isKey held.1, overlaid.keeps isValue held.2⟩
    · rw [overlaid _ isGitConfigName_count, if_neg same] at present
      rcases Option.or_eq_some_iff.mp present with new | ⟨_, old⟩
      · have held := laid.counted count new index below
        exact ⟨overlaid.adds isKey held.1 (fits same count new index below _ (.inl rfl)),
          overlaid.adds isValue held.2 (fits same count new index below _ (.inr rfl))⟩
      · have held := before.counted count old index below
        exact ⟨overlaid.keeps isKey held.1, overlaid.keeps isValue held.2⟩

/-- Nothing can be missing from the environment that the changes started from. -/
theorem flushFits_of_same (same : SameConfig initial current) (laid : Tame final) :
    FlushFits current initial final := by
  intro _ count counts index below name numbered unchanged
  have held := laid.counted count counts index below
  rcases numbered with rfl | rfl
  · rw [← same _ (isGitConfigName_key index), ← unchanged]
    exact held.1
  · rw [← same _ (isGitConfigName_value index), ← unchanged]
    exact held.2

theorem Overlaid.still (overlaid : Overlaid current initial final after)
    (same : SameConfig final initial) : SameConfig after current := by
  intro name config
  rw [overlaid name config, if_pos (same name config)]

end Overlays

/-! ### Steps -/

/-- The process exports no variable of the configuration. -/
def ProcessEnd.Quiet (ended : ProcessEnd) : Prop :=
  ∀ values, parseCommandSource ended.environmentFile = some values → NoConfig values

mutual

/-- Neither the workflow nor a process sets a variable of the configuration. -/
def StepCourse.Quiet (step : StepCourse) : Prop :=
  match step with
  | .processes ended => ∀ one ∈ ended, one.Quiet
  | .checkout _ => True
  | .composite _ _ own _ steps => NoConfig own ∧ AllQuiet steps

def AllQuiet (steps : List StepCourse) : Prop :=
  match steps with
  | [] => True
  | step :: rest => step.Quiet ∧ AllQuiet rest

end

/-- The environment that the Git commands of a checkout configure. -/
def homedEnvironment (checkout : CheckoutCourse) (environment : Environment) : Environment :=
  match checkout.safeDirectory with
  | some (home, config) => (environment.insert "HOME" home).insert "GIT_CONFIG_GLOBAL" config
  | none => environment

/-- Both calls of `configure_checkout_credentials` in a checkout succeed. -/
structure CheckoutConfigured (checkout : CheckoutCourse) (environment : Environment) : Prop where
  commands : ∃ changed, GitConfigured (homedEnvironment checkout environment) checkout.credential
    checkout.rewriteSshSubmoduleUrls changed
  job : ∃ changed, GitConfigured environment
    (if checkout.persistCredentials then checkout.credential else none)
    (checkout.persistCredentials && checkout.rewriteSshSubmoduleUrls) changed
  received : (checkoutEnvironment checkout environment).isSome
  leaves : (persistCheckout checkout environment).isSome

section Steps

variable (agent : Environment)

mutual

/-- Every call of `configure_checkout_credentials` in the step succeeds. -/
def StepCourse.Configured (step : StepCourse) (environment : Environment) : Prop :=
  match step with
  | .processes _ => True
  | .checkout checkout => checkout.ready = true → CheckoutConfigured checkout environment
  | .composite header action own inputs steps =>
      AllConfigured steps
        (actionEnvironment action (visibleEnvironment header environment own) inputs)

def AllConfigured (steps : List StepCourse) (environment : Environment) : Prop :=
  match steps with
  | [] => True
  | step :: rest => step.Configured environment ∧
      ∀ changed, step.execute agent environment = some changed → AllConfigured rest changed

end

mutual

/-- The last checkout of a step, and the environments that hide from it: those outside the
composite actions around it, and its own if it stops before it configures Git. -/
def StepCourse.lastCheckout (step : StepCourse) (environment : Environment) :
    Option (CheckoutCourse × List Environment) :=
  match step with
  | .processes _ => none
  | .checkout checkout => some (checkout, if checkout.ready then [] else [environment])
  | .composite header action own inputs steps =>
      (lastCheckoutOf steps (actionEnvironment action
        (visibleEnvironment header environment own) inputs)).map fun last =>
          (last.1, environment :: last.2)

def lastCheckoutOf (steps : List StepCourse) (environment : Environment) :
    Option (CheckoutCourse × List Environment) :=
  match steps with
  | [] => none
  | step :: rest =>
      ((step.execute agent environment).bind (lastCheckoutOf rest)).or
        (step.lastCheckout environment)

end

variable {agent} {environment own inputs changed : Environment}

theorem config_action (action : ActionUse) (header : StepHeader) (quiet : NoConfig own) :
    SameConfig (actionEnvironment action (visibleEnvironment header environment own) inputs)
      environment := by
  intro name config
  have plain := isDefault_of_git (startsWith_git_of_config config)
  have inputless : ∀ input, actionInputEnvironmentName input ≠ name := fun input =>
    ne_of_gitConfig config (isGitConfigName_input input)
  rw [getElem?_action action _ _ inputless (not_perStep_of_config config), visibleEnvironment,
    getElem?_insert_outside (ne_of_gitConfig config (by decide)), getElem?_restore, plain,
    if_neg Bool.false_ne_true, getElem?_insertMany_toList, quiet name config, Option.none_or]

theorem config_readBack {ended : ProcessEnd} (quiet : ended.Quiet)
    (read : readBack agent environment ended = some changed) : SameConfig changed environment := by
  intro name config
  obtain ⟨applied, isApplied, rfl⟩ := Option.map_eq_some_iff.mp read
  obtain ⟨values, parsed, rfl⟩ := Option.map_eq_some_iff.mp isApplied
  have path := ne_of_gitConfig config (show isGitConfigName "PATH" = false by decide)
  rw [(getElem?_applyPathFile agent _ ended.pathFile name).resolve_right path.symm,
    getElem?_applied, quiet values parsed name config, Option.filter_none, Option.none_or]

theorem config_processes {ended : List ProcessEnd} (quiet : ∀ one ∈ ended, one.Quiet)
    (read : ended.foldlM (readBack agent) environment = some changed) :
    SameConfig changed environment := by
  induction ended generalizing environment with
  | nil =>
      cases read
      exact fun _ _ => rfl
  | cons one ended inductionHypothesis =>
      rw [List.foldlM_cons, Option.bind_eq_bind, Option.bind_eq_some_iff] at read
      obtain ⟨between, first, rest⟩ := read
      have later := inductionHypothesis (fun one member =>
        quiet one (List.mem_cons_of_mem _ member))
        rest
      exact later.trans (config_readBack (quiet one List.mem_cons_self) first)

theorem config_ssh (command : Option String) :
    SameConfig (configureCheckoutSsh environment command) environment := by
  intro name config
  have other := ne_of_gitConfig config (show isGitConfigName "GIT_SSH_COMMAND" = false by decide)
  cases command with
  | none => exact getElem?_erase_outside other environment
  | some command =>
      rw [configureCheckoutSsh, getElem?_insert_outside other, getElem?_erase_outside other]

theorem inlineGitConfig_homed (checkout : CheckoutCourse) (environment : Environment) :
    inlineGitConfig (homedEnvironment checkout environment) = inlineGitConfig environment := by
  have other : ∀ name, name ≠ "HOME" → name ≠ "GIT_CONFIG_GLOBAL" →
      (homedEnvironment checkout environment)[name]? = environment[name]? := by
    intro name notHome notGlobal
    unfold homedEnvironment
    split
    · rw [getElem?_insert_outside notGlobal.symm, getElem?_insert_outside notHome.symm]
    · rfl
  have counts : gitConfigCount (homedEnvironment checkout environment) =
      gitConfigCount environment := by
    unfold gitConfigCount
    rw [other _ (by decide) (by decide)]
  have entries : gitConfigEntry (homedEnvironment checkout environment) =
      gitConfigEntry environment := by
    funext index
    unfold gitConfigEntry
    rw [other _ (gitConfigKey_ne (by decide) index) (gitConfigKey_ne (by decide) index),
      other _ (gitConfigValue_ne (by decide) index) (gitConfigValue_ne (by decide) index)]
  rw [inlineGitConfig, inlineGitConfig, counts, entries]

/-- What the Git commands of a checkout receive after the first call. -/
def commandEnvironment (checkout : CheckoutCourse) (configured : Environment) : Environment :=
  let connected := configureCheckoutSsh configured checkout.sshCommand
  if checkout.lfs then connected.erase "GIT_LFS_SKIP_SMUDGE"
  else connected.insert "GIT_LFS_SKIP_SMUDGE" "1"

theorem checkoutEnvironment_eq (checkout : CheckoutCourse) (environment : Environment) :
    checkoutEnvironment checkout environment =
      (configureCheckoutCredentials (homedEnvironment checkout environment) checkout.credential
        checkout.rewriteSshSubmoduleUrls).map (commandEnvironment checkout) := by
  rw [Option.map_eq_bind]
  rfl

theorem persistCheckout_eq (checkout : CheckoutCourse) (environment : Environment) :
    persistCheckout checkout environment =
      (configureCheckoutCredentials environment
        (if checkout.persistCredentials then checkout.credential else none)
        (checkout.persistCredentials && checkout.rewriteSshSubmoduleUrls)).map
        fun configured => configureCheckoutSsh configured
          (if checkout.persistCredentials then checkout.sshCommand else none) := by
  rw [Option.map_eq_bind]
  rfl

theorem Tame.checkout (tame : Tame environment) (checkout : CheckoutCourse) :
    CheckoutConfigured checkout environment ∧ ∃ changed,
      persistCheckout checkout environment = some changed ∧ Tame changed ∧
        (checkout.persistCredentials = false → NoConfig changed) := by
  obtain ⟨entries, configured, few, none⟩ := tame.reads
  have fits : GitConfigFits entries checkout.credential checkout.rewriteSshSubmoduleUrls :=
    fits_of_managed few none
  obtain ⟨prepared, isPrepared⟩ := configure_replaces
    ((inlineGitConfig_homed checkout environment).trans configured) fits
  obtain ⟨persisted, isPersisted, stays, empties⟩ := tame.configures
    (if checkout.persistCredentials then checkout.credential else .none)
    (checkout.persistCredentials && checkout.rewriteSshSubmoduleUrls)
  have left := persistCheckout_eq checkout environment
  rw [isPersisted.succeeds, Option.map_some] at left
  refine ⟨⟨⟨prepared, isPrepared⟩, ⟨persisted, isPersisted⟩, ?_, ?_⟩, _, left,
    stays.congr (config_ssh _), fun withdrawn => ?_⟩
  · rw [checkoutEnvironment_eq, isPrepared.succeeds]
    rfl
  · rw [left]
    rfl
  · have plain : NoConfig persisted := empties (by rw [withdrawn]; rfl)
    exact fun name config => (config_ssh _ name config).trans (plain name config)

/-- What a step that ran leaves of the configuration. -/
structure StepKeeps (environment changed : Environment)
    (last : Option (CheckoutCourse × List Environment)) : Prop where
  tame : Tame changed
  withdrawn : ∀ checkout hidden, last = some (checkout, hidden) →
    checkout.persistCredentials = false → (∀ outer ∈ hidden, NoCredential outer) →
      NoCredential changed
  still : last = none → SameConfig changed environment

theorem Tame.keeps_checkout (tame : Tame environment) {checkout : CheckoutCourse}
    (ran : checkout.leaves environment = some changed) :
    StepKeeps environment changed
      (some (checkout, if checkout.ready then [] else [environment])) := by
  unfold CheckoutCourse.leaves at ran
  cases ready : checkout.ready with
  | true =>
      obtain ⟨_, persisted, isPersisted, stays, empties⟩ := tame.checkout checkout
      rw [ready, if_pos rfl, isPersisted] at ran
      simp only [Option.bind_eq_bind, Option.bind_some, Option.bind_eq_some_iff] at ran
      obtain ⟨_, _, _, _, same⟩ := ran
      cases same
      refine ⟨stays, fun _ _ last withdrawn _ => ?_, nofun⟩
      cases last
      exact (empties withdrawn).clean
  | false =>
      simp only [ready, Bool.false_eq_true, if_false, Option.bind_eq_bind,
        Option.bind_eq_some_iff] at ran
      obtain ⟨_, _, same⟩ := ran
      cases same
      refine ⟨tame, fun _ _ last _ clean => ?_, nofun⟩
      cases last
      exact clean environment List.mem_cons_self

theorem StepKeeps.composite {initial final : Environment}
    {last : Option (CheckoutCourse × List Environment)} (keeps : StepKeeps initial final last)
    (same : SameConfig initial environment) (tame : Tame environment) :
    StepKeeps environment (propagate environment initial final)
      (last.map fun last => (last.1, environment :: last.2)) where
  tame := overlaid_propagate.tame tame keeps.tame (flushFits_of_same same keeps.tame)
  withdrawn checkout hidden isLast withdrawn clean := by
    obtain ⟨inner, isInner, same⟩ := Option.map_eq_some_iff.mp isLast
    cases same
    refine overlaid_propagate.clean (clean environment List.mem_cons_self) ?_
    exact keeps.withdrawn inner.1 inner.2 isInner withdrawn fun outer member =>
      clean outer (List.mem_cons_of_mem _ member)
  still none := overlaid_propagate.still (keeps.still (Option.map_eq_none_iff.mp none))

/-- One step after another. -/
theorem StepKeeps.append {between : Environment}
    {first second : Option (CheckoutCourse × List Environment)}
    (before : StepKeeps environment between first) (after : StepKeeps between changed second) :
    StepKeeps environment changed (second.or first) where
  tame := after.tame
  withdrawn checkout hidden isLast withdrawn clean := by
    rcases Option.or_eq_some_iff.mp isLast with late | ⟨none, early⟩
    · exact after.withdrawn checkout hidden late withdrawn clean
    · exact (before.withdrawn checkout hidden early withdrawn clean).congr (after.still none)
  still none := by
    obtain ⟨late, early⟩ := Option.or_eq_none_iff.mp none
    exact (after.still late).trans (before.still early)

mutual

/-- One case for each kind of step; a composite action by induction over its steps. -/
theorem step_keeps (step : StepCourse) (environment : Environment) (tame : Tame environment)
    (quiet : step.Quiet) :
    step.Configured agent environment ∧ ∀ changed,
      step.execute agent environment = some changed →
        StepKeeps environment changed (step.lastCheckout agent environment) := by
  match step with
  | .processes ended =>
      rw [StepCourse.Quiet] at quiet
      rw [StepCourse.Configured]
      refine ⟨trivial, fun changed ran => ?_⟩
      rw [StepCourse.execute] at ran
      rw [StepCourse.lastCheckout]
      have same := config_processes quiet ran
      exact ⟨tame.congr same, nofun, fun _ => same⟩
  | .checkout checkout =>
      rw [StepCourse.Configured]
      refine ⟨fun _ => (tame.checkout checkout).1, fun changed ran => ?_⟩
      rw [StepCourse.execute] at ran
      rw [StepCourse.lastCheckout]
      exact tame.keeps_checkout ran
  | .composite header action own inputs steps =>
      rw [StepCourse.Quiet] at quiet
      have same : SameConfig (actionEnvironment action
          (visibleEnvironment header environment own) inputs) environment :=
        config_action action header quiet.1
      obtain ⟨configured, keeps⟩ := steps_keep steps _ (tame.congr same) quiet.2
      rw [StepCourse.Configured]
      refine ⟨configured, fun changed ran => ?_⟩
      rw [StepCourse.execute] at ran
      rw [StepCourse.lastCheckout]
      obtain ⟨final, inside, rfl⟩ := Option.map_eq_some_iff.mp ran
      exact (keeps final inside).composite same tame

/-- The same for steps in a row. -/
theorem steps_keep (steps : List StepCourse) (environment : Environment)
    (tame : Tame environment) (quiet : AllQuiet steps) :
    AllConfigured agent steps environment ∧ ∀ changed,
      executeRuns agent steps environment = some changed →
        StepKeeps environment changed (lastCheckoutOf agent steps environment) := by
  match steps with
  | [] =>
      rw [AllConfigured]
      refine ⟨trivial, fun changed ran => ?_⟩
      rw [executeRuns] at ran
      rw [lastCheckoutOf]
      cases ran
      exact ⟨tame, nofun, fun _ _ _ => rfl⟩
  | step :: rest =>
      rw [AllQuiet] at quiet
      obtain ⟨configured, keeps⟩ := step_keeps step environment tame quiet.1
      rw [AllConfigured]
      refine ⟨⟨configured, fun between ran => ?_⟩, fun changed ran => ?_⟩
      · exact (steps_keep rest between (keeps between ran).tame quiet.2).1
      · rw [executeRuns] at ran
        obtain ⟨between, first, later⟩ := Option.bind_eq_some_iff.mp ran
        have before := keeps between first
        have after := (steps_keep rest between before.tame quiet.2).2 changed later
        rw [lastCheckoutOf, first, Option.bind_some]
        exact before.append after

end

end Steps

/-! ### Jobs -/

/-- Where the count is set, Git can read it and finds every entry that it counts. -/
def GitConfigWellFormed (environment : Environment) : Prop :=
  ∀ value, environment["GIT_CONFIG_COUNT"]? = some value →
    ∃ count, parseUsize value.toList = some count ∧ ∀ index < count,
      environment[gitConfigKey index]?.isSome ∧ environment[gitConfigValue index]?.isSome

theorem Tame.wellFormed {environment : Environment} (tame : Tame environment) :
    GitConfigWellFormed environment := by
  intro value present
  obtain ⟨count, few, rfl⟩ := tame.few value present
  exact ⟨count, parseUsize_toString (by omega), tame.counted count present⟩

def CheckoutEvent.Quiet : CheckoutEvent → Prop
  | .foreground step => step.Quiet
  | .background _ step => step.Quiet
  | .flush _ => True

section Runs

variable {Post : Type} (world : World Post) (agent : Environment)

/-- No credential hides from the last checkout of a foreground step that persists none, and a
background step that changes the count finds the entries that it has not changed. -/
def EventFits (job : CheckoutJob) : CheckoutEvent → Prop
  | .foreground step => ∀ checkout hidden,
      step.lastCheckout agent job.environment = some (checkout, hidden) →
        checkout.persistCredentials = false → ∀ outer ∈ hidden, NoCredential outer
  | .background _ _ => True
  | .flush id => ∀ run final, job.deferred.find? (·.id = id) = some run →
      run.final = some final → FlushFits job.environment run.initial final

/-- Every call of `configure_checkout_credentials` in the event succeeds. -/
def CheckoutEvent.Configured (job : CheckoutJob) : CheckoutEvent → Prop
  | .foreground step => step.Configured agent job.environment
  | .background _ step => step.Configured agent job.environment
  | .flush _ => True

/-- What holds at an event of a job that only checkouts configure. -/
structure EventKept (job : CheckoutJob) (event : CheckoutEvent) : Prop where
  wellFormed : GitConfigWellFormed (checkoutStep world agent job event).environment
  configured : event.Configured agent job
  withdrawn : ∀ step checkout hidden, event = .foreground step →
    (checkoutStep world agent job event).ended = false →
      step.lastCheckout agent job.environment = some (checkout, hidden) →
        checkout.persistCredentials = false →
          NoCredential (checkoutStep world agent job event).environment

/-- The environment of the job, and what its background steps hold back, have no foreign Git
configuration. -/
structure JobTame (job : CheckoutJob) : Prop where
  environment : Tame job.environment
  deferred : ∀ run ∈ job.deferred, ∀ final, run.final = some final → Tame final

variable {agent} {job : CheckoutJob} {event : CheckoutEvent}

theorem JobTame.step (tame : JobTame job) (quiet : event.Quiet) (fits : EventFits agent job event) :
    JobTame (checkoutStep world agent job event) := by
  cases event with
  | foreground step =>
      unfold checkoutStep
      dsimp only
      split
      · exact tame
      · split
        · next environment ran =>
            exact ⟨((step_keeps step job.environment tame.environment quiet).2 _ ran).tame,
              tame.deferred⟩
        · exact ⟨tame.environment, tame.deferred⟩
  | background id step =>
      unfold checkoutStep
      dsimp only
      split
      · exact tame
      · refine ⟨tame.environment, fun run member final isFinal => ?_⟩
        rcases List.mem_append.mp member with old | new
        · exact tame.deferred run old final isFinal
        · cases List.mem_singleton.mp new
          exact ((step_keeps step job.environment tame.environment quiet).2 _ isFinal).tame
  | flush id =>
      unfold checkoutStep
      dsimp only
      split
      · exact tame
      · split
        · exact tame
        · next run found =>
            split
            · exact ⟨tame.environment, tame.deferred⟩
            · next final isFinal =>
                have laid := tame.deferred run (List.mem_of_find?_eq_some found) final isFinal
                refine ⟨(overlaid_merge world).tame tame.environment laid
                  (fits run final found isFinal), fun other member => ?_⟩
                exact tame.deferred other (List.mem_filter.mp member).1

theorem JobTame.kept (tame : JobTame job) (quiet : event.Quiet) (fits : EventFits agent job event) :
    EventKept world agent job event where
  wellFormed := (tame.step world quiet fits).environment.wellFormed
  configured := by
    cases event with
    | foreground step => exact (step_keeps step job.environment tame.environment quiet).1
    | background id step => exact (step_keeps step job.environment tame.environment quiet).1
    | flush id => trivial
  withdrawn step checkout hidden isStep going last withdrawn := by
    subst isStep
    unfold checkoutStep at *
    dsimp only at *
    split at going
    · next ended =>
        rw [ended] at going
        cases going
    · next running =>
        rw [if_neg running]
        cases ran : step.execute agent job.environment with
        | none =>
            rw [ran] at going
            cases going
        | some changed =>
            have keeps := (step_keeps step job.environment tame.environment quiet).2 changed ran
            exact keeps.withdrawn checkout hidden last withdrawn
              (fits checkout hidden last withdrawn)

/-- The inline configuration of Git along a job whose steps each meet the condition. -/
theorem git_configuration_stays (agent : Environment) {start : Environment}
    (plain : NoConfig start) (events : List CheckoutEvent)
    (quiet : ∀ event ∈ events, event.Quiet)
    (fits : Along (checkoutStep world agent) (EventFits agent) { environment := start } events) :
    Along (checkoutStep world agent) (EventKept world agent) { environment := start } events ∧
      ∀ environment credential rewriteSshSubmoduleUrls,
        (configureInPlace environment credential rewriteSshSubmoduleUrls).2 = false →
          (configureInPlace environment credential rewriteSshSubmoduleUrls).1 = environment := by
  refine ⟨?_, fun environment credential rewriteSshSubmoduleUrls failed => ?_⟩
  · have initial : JobTame { environment := start } := ⟨plain.tame, nofun⟩
    exact Along.safe
      (fun job event tame good => JobTame.step world tame (quiet event good.2) good.1)
      (fun job event tame good => JobTame.kept world tame (quiet event good.2) good.1)
      initial fits.with_mem
  · rw [configureInPlace_eq] at failed ⊢
    rw [Option.isSome_eq_false_iff, Option.isNone_iff_eq_none] at failed
    rw [failed, Option.getD_none]

end Runs

namespace CheckoutSample

open Sample (plainWorld)

/-- A checkout that leaves its credential to the job. -/
def persisting : CheckoutCourse := { credential := some (credentialHeader "token") }

def withdrawing : CheckoutCourse :=
  { credential := some (credentialHeader "token"), persistCredentials := false }

def withSubmodules : CheckoutCourse :=
  { credential := some (credentialHeader "token"), rewriteSshSubmoduleUrls := true }

def inAction (checkouts : List CheckoutCourse) : StepCourse :=
  .composite { githubAction := "__action" } { directory := "/action" } ∅ ∅
    (checkouts.map StepCourse.checkout)

/-- A checkout withdraws what a background step has left. -/
def tidyEvents : List CheckoutEvent :=
  [.background "a" (.checkout withSubmodules), .flush "a", .foreground (.checkout withdrawing)]

theorem noConfig_empty : NoConfig ∅ := fun _ _ => Std.ExtTreeMap.getElem?_empty

/-- A flush brings the configuration of a checkout, which the next checkout withdraws. -/
theorem tidyEvents_keep :
    Along (checkoutStep plainWorld ∅) (EventKept plainWorld ∅) { environment := ∅ } tidyEvents := by
  refine (git_configuration_stays plainWorld ∅ noConfig_empty tidyEvents ?_ ?_).1
  · simp [tidyEvents, CheckoutEvent.Quiet, StepCourse.Quiet]
  · refine ⟨trivial, fun run final found isFinal => ?_, fun checkout hidden last _ => ?_, trivial⟩
    · cases found
      have laid := (@step_keeps ∅ (.checkout withSubmodules) ∅ noConfig_empty.tame trivial).2
        final isFinal
      exact flushFits_of_same (fun _ _ => rfl) laid.tame
    · cases last
      exact nofun

/-- An action withdraws the credential of the job. -/
def hiddenEvents : List CheckoutEvent :=
  [.foreground (.checkout persisting), .foreground (inAction [withdrawing])]

/-- A background step counts an entry that the job loses before it is merged. -/
def staleEvents : List CheckoutEvent :=
  [.foreground (.checkout persisting), .background "a" (.checkout withSubmodules),
    .foreground (.checkout withdrawing), .flush "a"]

/-- The credential that an action withdraws stays in the environment of the job; and a flush
brings a count of entries that the job has lost meanwhile. -/
theorem action_keeps_credential :
    ((∀ event ∈ hiddenEvents, event.Quiet) ∧
      ¬ Along (checkoutStep plainWorld ∅) (EventKept plainWorld ∅) { environment := ∅ }
        hiddenEvents) ∧
    ((∀ event ∈ staleEvents, event.Quiet) ∧
      ¬ Along (checkoutStep plainWorld ∅) (EventKept plainWorld ∅) { environment := ∅ }
        staleEvents) := by
  have held : (run (checkoutStep plainWorld ∅) { environment := ∅ }
      hiddenEvents).environment["GIT_CONFIG_VALUE_0"]? = some (credentialHeader "token") := by
    decide +kernel
  have going : (run (checkoutStep plainWorld ∅) { environment := ∅ } hiddenEvents).ended =
      false := by
    decide
  have stale : (run (checkoutStep plainWorld ∅) { environment := ∅ }
        staleEvents).environment["GIT_CONFIG_COUNT"]? = some (toString 2) ∧
      (run (checkoutStep plainWorld ∅) { environment := ∅ }
        staleEvents).environment[gitConfigKey 0]? = none := by
    decide +kernel
  refine ⟨⟨?_, fun along => ?_⟩, ⟨?_, fun along => ?_⟩⟩
  · simp [hiddenEvents, inAction, CheckoutEvent.Quiet, StepCourse.Quiet, AllQuiet, noConfig_empty]
  · obtain ⟨_, second, _⟩ := along
    exact second.withdrawn _ _ _ rfl going rfl rfl "GIT_CONFIG_VALUE_0" "token" (by decide) held
  · simp [staleEvents, CheckoutEvent.Quiet, StepCourse.Quiet]
  · obtain ⟨_, _, _, last, _⟩ := along
    obtain ⟨count, parsed, filled⟩ := last.wellFormed _ stale.1
    rw [parseUsize_toString (by decide)] at parsed
    cases parsed
    exact Option.isSome_iff_ne_none.mp (filled 0 (by decide)).1 stale.2

end CheckoutSample

end GitZero.Agent
