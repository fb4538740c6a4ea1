/-
Module: GitZero.Proofs.SecretBoundaries
Purpose: A secret is visible inside nested reusable workflows only through every boundary.
Trusted boundary: none
Main exports: Passes, StandsFor, Reachable, resolveReusableSecrets_boundaries
-/
import GitZero.Agent.Secrets
import GitZero.Lib.Outcomes
import Mathlib.Data.List.Find

namespace GitZero.Agent

open Std Workflows

/-! ### What a chain of boundaries lets through -/

/-- What one boundary lets through, as its declaration reads: a name outside and the name under
which it is seen inside. -/
inductive Passes (scope : PlannedReusableSecretScope) : String → String → Prop where
  | token {name : String} (isToken : eqIgnoreAsciiCase name "GITHUB_TOKEN" = true) :
      Passes scope name name
  | inherited {name : String} (inherits : scope.inherit = true) : Passes scope name name
  | mapped {outside inside source : String} (listed : scope.mappings[inside]? = some source)
      (same : eqIgnoreAsciiCase outside source = true) : Passes scope outside inside

/-- A chain of boundaries, the outermost first. -/
inductive PassesAll : List PlannedReusableSecretScope → String → String → Prop where
  | none (name : String) : PassesAll [] name name
  | within {scopes : List PlannedReusableSecretScope} {scope : PlannedReusableSecretScope}
      {outside between inside : String} (through : PassesAll scopes outside between)
      (passes : Passes scope between inside) : PassesAll (scopes ++ [scope]) outside inside

/-- Of the names that are visible, the first one that is the requested name up to case. -/
structure FirstNamed (visible : String → Prop) (requested name : String) : Prop where
  seen : visible name
  same : eqIgnoreAsciiCase name requested = true
  least : ∀ lesser, visible lesser → eqIgnoreAsciiCase lesser requested = true →
    compare lesser name ≠ .lt

/-- The base name that a name inside a chain stands for. The chain is followed from inside out, so
the innermost boundary comes first. -/
def StandsFor (secrets : BTreeMap String) :
    List PlannedReusableSecretScope → String → String → Prop
  | [], name, origin => name ∈ secrets ∧ origin = name
  | scope :: outer, name, origin =>
      let visible := fun name => ∃ origin, StandsFor secrets outer name origin
      (∃ source outside, scope.mappings[name]? = some source ∧
          FirstNamed visible source outside ∧ StandsFor secrets outer outside origin) ∨
        (∀ source outside, scope.mappings[name]? = some source →
            eqIgnoreAsciiCase outside source = true → ¬ visible outside) ∧
          (scope.inherit = true ∨ FirstNamed visible "GITHUB_TOKEN" name) ∧
          StandsFor secrets outer name origin

/-- The names outside a chain that can be seen inside it, or on which a required name of one of its
boundaries depends. -/
inductive Reachable : List PlannedReusableSecretScope → String → Prop where
  | inside (name : String) : Reachable [] name
  | through {scope : PlannedReusableSecretScope} {inner : List PlannedReusableSecretScope}
      {outside inside : String} (passes : Passes scope outside inside)
      (reachable : Reachable inner inside) : Reachable (scope :: inner) outside
  | required {scope : PlannedReusableSecretScope} {inner : List PlannedReusableSecretScope}
      {outside inside required : String} (passes : Passes scope outside inside)
      (listed : required ∈ scope.required) (same : eqIgnoreAsciiCase inside required = true) :
      Reachable (scope :: inner) outside

/-! ### One boundary -/

/-- The visible names hold the values of the base names they stand for. -/
def Holds (secrets : BTreeMap String) (chain : List PlannedReusableSecretScope)
    (available : BTreeMap String) : Prop :=
  ∀ name value, available[name]? = some value ↔
    ∃ origin, StandsFor secrets chain name origin ∧ secrets[origin]? = some value

theorem StandsFor.origin_mem {secrets : BTreeMap String} {chain : List PlannedReusableSecretScope}
    {name origin : String} (stands : StandsFor secrets chain name origin) : origin ∈ secrets := by
  induction chain generalizing name with
  | nil =>
      obtain ⟨member, rfl⟩ := stands
      exact member
  | cons scope outer inductionHypothesis =>
      rcases stands with ⟨_, _, _, _, outside⟩ | ⟨_, _, outside⟩
      · exact inductionHypothesis outside
      · exact inductionHypothesis outside

theorem Holds.start (secrets : BTreeMap String) : Holds secrets [] secrets := by
  intro name value
  constructor
  · intro found
    have member : name ∈ secrets := ExtTreeMap.isSome_getElem?_iff_mem.mp (by rw [found]; rfl)
    exact ⟨name, ⟨member, rfl⟩, found⟩
  · rintro ⟨origin, ⟨_, rfl⟩, found⟩
    exact found

section Boundary

variable {secrets available : BTreeMap String} {chain : List PlannedReusableSecretScope}

theorem Holds.mem_iff (holds : Holds secrets chain available) {name : String} :
    name ∈ available ↔ ∃ origin, StandsFor secrets chain name origin := by
  rw [← ExtTreeMap.isSome_getElem?_iff_mem, Option.isSome_iff_exists]
  constructor
  · rintro ⟨value, found⟩
    obtain ⟨origin, stands, _⟩ := (holds name value).mp found
    exact ⟨origin, stands⟩
  · rintro ⟨origin, stands⟩
    obtain ⟨value, found⟩ := Option.isSome_iff_exists.mp
      (ExtTreeMap.isSome_getElem?_iff_mem.mpr stands.origin_mem)
    exact ⟨value, (holds name value).mpr ⟨origin, stands, found⟩⟩

theorem Holds.firstNamed (holds : Holds secrets chain available) {requested name value : String} :
    caseInsensitiveSecret available requested = some (name, value) ↔
      FirstNamed (fun name => ∃ origin, StandsFor secrets chain name origin) requested name ∧
        available[name]? = some value := by
  rw [caseInsensitiveSecret_eq_some]
  constructor
  · rintro ⟨found, same, least⟩
    have member : name ∈ available := ExtTreeMap.isSome_getElem?_iff_mem.mp (by rw [found]; rfl)
    exact ⟨⟨holds.mem_iff.mp member, same, fun lesser seen =>
      least lesser (holds.mem_iff.mpr seen)⟩, found⟩
  · rintro ⟨first, found⟩
    exact ⟨found, first.same, fun lesser member => first.least lesser (holds.mem_iff.mp member)⟩

theorem Holds.missing (holds : Holds secrets chain available) {requested : String} :
    caseInsensitiveSecret available requested = none ↔
      ∀ name, eqIgnoreAsciiCase name requested = true →
        ¬ ∃ origin, StandsFor secrets chain name origin := by
  rw [← Option.not_isSome_iff_eq_none, caseInsensitiveSecret_isSome]
  constructor
  · intro absent name same seen
    exact absent ⟨name, holds.mem_iff.mpr seen, same⟩
  · rintro absent ⟨name, member, same⟩
    exact absent name same (holds.mem_iff.mp member)

theorem Holds.mapped_eq_some (holds : Holds secrets chain available)
    {mappings : BTreeMap String} {name value : String} :
    (mappings[name]?.bind fun source =>
        (caseInsensitiveSecret available source).map Prod.snd) = some value ↔
      ∃ source outside, mappings[name]? = some source ∧
        FirstNamed (fun name => ∃ origin, StandsFor secrets chain name origin) source outside ∧
          available[outside]? = some value := by
  rw [Option.bind_eq_some_iff]
  constructor
  · rintro ⟨source, listed, taken⟩
    obtain ⟨⟨outside, found⟩, first, rfl⟩ := Option.map_eq_some_iff.mp taken
    exact ⟨source, outside, listed, holds.firstNamed.mp first⟩
  · rintro ⟨source, outside, listed, first⟩
    exact ⟨source, listed, Option.map_eq_some_iff.mpr
      ⟨(outside, value), holds.firstNamed.mpr first, rfl⟩⟩

theorem Holds.mapped_eq_none (holds : Holds secrets chain available)
    {mappings : BTreeMap String} {name : String} :
    (mappings[name]?.bind fun source =>
        (caseInsensitiveSecret available source).map Prod.snd) = none ↔
      ∀ source outside, mappings[name]? = some source →
        eqIgnoreAsciiCase outside source = true →
          ¬ ∃ origin, StandsFor secrets chain outside origin := by
  rw [Option.bind_eq_none_iff]
  constructor
  · intro none source outside listed
    exact holds.missing.mp (Option.map_eq_none_iff.mp (none source listed)) outside
  · intro unseen source listed
    exact Option.map_eq_none_iff.mpr (holds.missing.mpr fun outside => unseen source outside listed)

theorem Holds.inherited_eq_some (holds : Holds secrets chain available) {inherits : Bool}
    {name value : String} :
    (if inherits then available[name]?
      else (caseInsensitiveSecret available "GITHUB_TOKEN").bind fun token =>
        if token.1 = name then some token.2 else none) = some value ↔
      (inherits = true ∨ FirstNamed (fun name => ∃ origin, StandsFor secrets chain name origin)
        "GITHUB_TOKEN" name) ∧ available[name]? = some value := by
  cases inherits with
  | true => simp
  | false =>
      simp only [Bool.false_eq_true, if_false, false_or, ← holds.firstNamed,
        Option.bind_eq_some_iff]
      constructor
      · rintro ⟨⟨token, found⟩, first, taken⟩
        split at taken
        · next same =>
            cases taken
            exact same ▸ first
        · cases taken
      · intro first
        exact ⟨(name, value), first, if_pos rfl⟩

/-- The round of the loop for one scope takes each name to what it stands for one boundary
further inside. -/
theorem Holds.visibleInside (holds : Holds secrets chain available)
    (scope : PlannedReusableSecretScope) :
    Holds secrets (scope :: chain) (visibleInside scope available) := by
  intro name value
  rw [getElem?_visibleInside, Option.or_eq_some_iff, holds.mapped_eq_some, holds.mapped_eq_none,
    holds.inherited_eq_some]
  simp only [holds _ value]
  constructor
  · rintro (⟨source, outside, listed, first, origin, stands, found⟩ |
      ⟨unmapped, passes, origin, stands, found⟩)
    · exact ⟨origin, .inl ⟨source, outside, listed, first, stands⟩, found⟩
    · exact ⟨origin, .inr ⟨unmapped, passes, stands⟩, found⟩
  · rintro ⟨origin, ⟨source, outside, listed, first, stands⟩ | ⟨unmapped, passes, stands⟩, found⟩
    · exact .inl ⟨source, outside, listed, first, origin, stands, found⟩
    · exact .inr ⟨unmapped, passes, origin, stands, found⟩

end Boundary

/-! ### The whole chain -/

/-- The visible names behind all boundaries, whether or not required names are missing. -/
def visibleThrough (secrets : BTreeMap String) (scopes : List PlannedReusableSecretScope) :
    BTreeMap String :=
  scopes.foldl (fun available scope => visibleInside scope available) secrets

theorem visibleThrough_append (secrets : BTreeMap String)
    (scopes : List PlannedReusableSecretScope) (scope : PlannedReusableSecretScope) :
    visibleThrough secrets (scopes ++ [scope]) =
      visibleInside scope (visibleThrough secrets scopes) := by
  simp [visibleThrough]

theorem holds_visibleThrough (secrets : BTreeMap String)
    (scopes : List PlannedReusableSecretScope) :
    Holds secrets scopes.reverse (visibleThrough secrets scopes) := by
  induction scopes using List.reverseRecOn with
  | nil => exact Holds.start secrets
  | append_singleton scopes scope inductionHypothesis =>
      rw [visibleThrough_append, List.reverse_append]
      exact inductionHypothesis.visibleInside scope

/-- What a name stands for has passed every boundary. -/
theorem StandsFor.passesAll {secrets : BTreeMap String}
    {scopes : List PlannedReusableSecretScope} {name origin : String}
    (stands : StandsFor secrets scopes.reverse name origin) : PassesAll scopes origin name := by
  induction scopes using List.reverseRecOn generalizing name with
  | nil =>
      obtain ⟨_, rfl⟩ := stands
      exact .none _
  | append_singleton scopes scope inductionHypothesis =>
      rw [List.reverse_append] at stands
      rcases stands with ⟨source, outside, listed, first, outer⟩ | ⟨_, passes, outer⟩
      · exact .within (inductionHypothesis outer) (.mapped listed first.same)
      · rcases passes with inherits | first
        · exact .within (inductionHypothesis outer) (.inherited inherits)
        · exact .within (inductionHypothesis outer) (.token first.same)

theorem enterScope_eq_ok {baseId : String} {available current : BTreeMap String}
    {scope : PlannedReusableSecretScope} :
    enterScope baseId available scope = .ok current ↔
      current = visibleInside scope available ∧
        missingSecret scope (visibleInside scope available) = none := by
  unfold enterScope
  dsimp only
  cases missingSecret scope (visibleInside scope available) with
  | none => simp [eq_comm]
  | some missing => simp

/-- The loop goes through when no scope misses a required name. -/
theorem foldlM_enterScope_eq_ok {baseId : String} {secrets visible : BTreeMap String}
    {scopes : List PlannedReusableSecretScope} :
    scopes.foldlM (enterScope baseId) secrets = .ok visible ↔
      visible = visibleThrough secrets scopes ∧
        ∀ outer scope inner, scopes = outer ++ scope :: inner →
          missingSecret scope (visibleThrough secrets (outer ++ [scope])) = none := by
  induction scopes generalizing secrets with
  | nil =>
      rw [List.foldlM_nil, Outcomes.pure_eq_ok]
      simp [visibleThrough, eq_comm]
  | cons first rest inductionHypothesis =>
      rw [Outcomes.foldlM_cons_eq_ok]
      simp only [enterScope_eq_ok, inductionHypothesis]
      constructor
      · rintro ⟨_, ⟨rfl, none⟩, same, complete⟩
        refine ⟨same, ?_⟩
        intro outer scope inner split
        cases outer with
        | nil =>
            cases split
            exact none
        | cons head outer =>
            cases split
            exact complete outer scope inner rfl
      · rintro ⟨same, complete⟩
        exact ⟨_, ⟨rfl, complete [] first rest rfl⟩, same, fun outer scope inner split =>
          complete (first :: outer) scope inner (congrArg _ split)⟩

theorem missingSecret_eq_none {scope : PlannedReusableSecretScope} {current : BTreeMap String} :
    missingSecret scope current = none ↔
      ∀ required ∈ scope.required, caseInsensitiveSecret current required ≠ none := by
  simp [missingSecret, List.find?_eq_none]

/-! ### Base maps that agree on what the chain reaches -/

theorem visibleInside_congr {scope : PlannedReusableSecretScope} {secrets others : BTreeMap String}
    {name : String}
    (agree : ∀ outside inside, Passes scope outside inside →
      eqIgnoreAsciiCase inside "GITHUB_TOKEN" = true ∨ inside = name →
      secrets[outside]? = others[outside]?) :
    (visibleInside scope secrets)[name]? = (visibleInside scope others)[name]? := by
  rw [getElem?_visibleInside, getElem?_visibleInside]
  congr 1
  · cases listed : scope.mappings[name]? with
    | none => rfl
    | some source =>
        have same : caseInsensitiveSecret secrets source = caseInsensitiveSecret others source :=
          caseInsensitiveSecret_congr fun outside same =>
            agree outside name (.mapped listed same) (.inr rfl)
        rw [Option.bind_some, Option.bind_some, same]
  · split
    · next inherits => exact agree name name (.inherited inherits) (.inr rfl)
    · have same : caseInsensitiveSecret secrets "GITHUB_TOKEN" =
          caseInsensitiveSecret others "GITHUB_TOKEN" :=
        caseInsensitiveSecret_congr fun outside isToken =>
          agree outside outside (.token isToken) (.inl isToken)
      rw [same]

/-- What is visible behind all boundaries only depends on the names that pass them. -/
theorem visibleThrough_congr {secrets others : BTreeMap String}
    {scopes : List PlannedReusableSecretScope} {name : String}
    (agree : ∀ outside inside, PassesAll scopes outside inside →
      eqIgnoreAsciiCase inside "GITHUB_TOKEN" = true ∨ inside = name →
      secrets[outside]? = others[outside]?) :
    (visibleThrough secrets scopes)[name]? = (visibleThrough others scopes)[name]? := by
  induction scopes using List.reverseRecOn generalizing name with
  | nil => exact agree name name (.none name) (.inr rfl)
  | append_singleton scopes scope inductionHypothesis =>
      rw [visibleThrough_append, visibleThrough_append]
      refine visibleInside_congr fun between inside passes wanted => ?_
      refine inductionHypothesis fun outside seen through isWanted => ?_
      rcases isWanted with isToken | rfl
      · exact agree outside seen (.within through (.token isToken)) (.inl isToken)
      · exact agree outside inside (.within through passes) wanted

theorem Reachable.token (scopes : List PlannedReusableSecretScope) {name : String}
    (isToken : eqIgnoreAsciiCase name "GITHUB_TOKEN" = true) : Reachable scopes name := by
  induction scopes with
  | nil => exact .inside name
  | cons scope inner inductionHypothesis => exact .through (.token isToken) inductionHypothesis

theorem foldlM_enterScope_congr {baseId : String} {secrets others : BTreeMap String}
    {scopes : List PlannedReusableSecretScope}
    (agree : ∀ name, Reachable scopes name → secrets[name]? = others[name]?) :
    scopes.foldlM (enterScope baseId) secrets = scopes.foldlM (enterScope baseId) others := by
  induction scopes generalizing secrets others with
  | nil =>
      have same : secrets = others := ExtTreeMap.ext_getElem? fun name => agree name (.inside name)
      rw [same]
  | cons scope inner inductionHypothesis =>
      -- Inside the scope the maps agree on what the inner chain reaches and on the required names.
      have reached : ∀ name, Reachable inner name →
          (visibleInside scope secrets)[name]? = (visibleInside scope others)[name]? := by
        intro name reachable
        refine visibleInside_congr fun outside inside passes wanted => ?_
        rcases wanted with isToken | rfl
        · exact agree outside (.through passes (.token inner isToken))
        · exact agree outside (.through passes reachable)
      have demanded : ∀ required ∈ scope.required,
          caseInsensitiveSecret (visibleInside scope secrets) required =
            caseInsensitiveSecret (visibleInside scope others) required := by
        intro required listed
        refine caseInsensitiveSecret_congr fun name same => ?_
        refine visibleInside_congr fun outside inside passes wanted => ?_
        rcases wanted with isToken | rfl
        · exact agree outside (.through passes (.token inner isToken))
        · exact agree outside (.required passes listed same)
      have missing : missingSecret scope (visibleInside scope secrets) =
          missingSecret scope (visibleInside scope others) := by
        refine List.find?_congr fun required listed => ?_
        rw [demanded required (ExtTreeSet.mem_toList.mp listed)]
      rw [List.foldlM_cons, List.foldlM_cons]
      unfold enterScope
      dsimp only
      rw [missing]
      cases missingSecret scope (visibleInside scope others) with
      | none => exact inductionHypothesis reached
      | some missing => rfl

/-! ### The boundaries of a job -/

theorem missingSecret_visibleThrough {secrets : BTreeMap String}
    {outer : List PlannedReusableSecretScope} {scope : PlannedReusableSecretScope} :
    missingSecret scope (visibleThrough secrets (outer ++ [scope])) ≠ none ↔
      ∃ required ∈ scope.required, ∀ name origin,
        StandsFor secrets (scope :: outer.reverse) name origin →
          eqIgnoreAsciiCase name required = false := by
  have holds : Holds secrets (scope :: outer.reverse)
    (visibleThrough secrets (outer ++ [scope])) := by
    have reversed := holds_visibleThrough secrets (outer ++ [scope])
    rwa [List.reverse_append] at reversed
  rw [Ne, missingSecret_eq_none]
  push Not
  constructor
  · rintro ⟨required, listed, absent⟩
    refine ⟨required, listed, fun name origin stands => ?_⟩
    by_contra same
    exact holds.missing.mp absent name (by simpa using same) ⟨origin, stands⟩
  · rintro ⟨required, listed, unseen⟩
    refine ⟨required, listed, holds.missing.mpr ?_⟩
    rintro name same ⟨origin, stands⟩
    rw [unseen name origin stands] at same
    cases same

variable [Serde]

/-- A name is visible exactly when it stands for a base name that passes every boundary, with the
value of that base name; a job is refused exactly when a name that some scope requires is not
visible inside that scope; and base maps that agree on what the chain reaches are not told apart. -/
theorem resolveReusableSecrets_boundaries (job : PlannedJob) (baseSecrets : BTreeMap String) :
    (∀ visible, resolveReusableSecrets job baseSecrets = .ok visible → ∀ name value,
      visible[name]? = some value ↔
        ∃ origin, StandsFor baseSecrets job.reusableSecretScopes.reverse name origin ∧
          PassesAll job.reusableSecretScopes origin name ∧ baseSecrets[origin]? = some value) ∧
    ((∃ message, resolveReusableSecrets job baseSecrets = .error message) ↔
      ∃ outer scope inner, job.reusableSecretScopes = outer ++ scope :: inner ∧
        ∃ required ∈ scope.required, ∀ name origin,
          StandsFor baseSecrets (scope :: outer.reverse) name origin →
            eqIgnoreAsciiCase name required = false) ∧
    (∀ others, (∀ name, Reachable job.reusableSecretScopes name →
        baseSecrets[name]? = others[name]?) →
      resolveReusableSecrets job baseSecrets = resolveReusableSecrets job others) ∧
    ∀ others visible otherVisible,
      (∀ outside inside, PassesAll job.reusableSecretScopes outside inside →
        baseSecrets[outside]? = others[outside]?) →
      resolveReusableSecrets job baseSecrets = .ok visible →
      resolveReusableSecrets job others = .ok otherVisible → visible = otherVisible := by
  refine ⟨?_, ?_, ?_, ?_⟩
  · intro visible resolved name value
    obtain ⟨rfl, _⟩ := foldlM_enterScope_eq_ok.mp resolved
    rw [holds_visibleThrough baseSecrets job.reusableSecretScopes name value]
    constructor
    · rintro ⟨origin, stands, found⟩
      exact ⟨origin, stands, stands.passesAll, found⟩
    · rintro ⟨origin, stands, _, found⟩
      exact ⟨origin, stands, found⟩
  · simp only [← missingSecret_visibleThrough]
    constructor
    · rintro ⟨message, refused⟩
      by_contra complete
      push Not at complete
      have resolved : resolveReusableSecrets job baseSecrets = .ok _ :=
        foldlM_enterScope_eq_ok.mpr ⟨rfl, complete⟩
      rw [refused] at resolved
      cases resolved
    · rintro ⟨outer, scope, inner, split, missing⟩
      cases resolved : resolveReusableSecrets job baseSecrets with
      | error message => exact ⟨message, rfl⟩
      | ok visible =>
          exact absurd ((foldlM_enterScope_eq_ok.mp resolved).2 outer scope inner split) missing
  · intro others agree
    exact foldlM_enterScope_congr agree
  · intro others visible otherVisible agree resolved otherResolved
    obtain ⟨rfl, _⟩ := foldlM_enterScope_eq_ok.mp resolved
    obtain ⟨rfl, _⟩ := foldlM_enterScope_eq_ok.mp otherResolved
    exact ExtTreeMap.ext_getElem? fun name =>
      visibleThrough_congr fun outside inside through _ => agree outside inside through

end GitZero.Agent
