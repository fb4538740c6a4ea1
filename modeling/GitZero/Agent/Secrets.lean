/-
Module: GitZero.Agent.Secrets
Purpose: The secrets that the agent makes visible inside nested reusable workflows.
Trusted boundary: none
Main exports: caseInsensitiveSecret, enterScope, resolveReusableSecrets, getElem?_visibleInside
-/
import GitZero.Lib.OrderedMaps
import GitZero.Workflow.Plan
import GitZero.Workflow.Steps

namespace GitZero.Agent

open Std Workflows

/-- `str::eq_ignore_ascii_case`. -/
def eqIgnoreAsciiCase (left right : String) : Bool :=
  toAsciiLowercase left == toAsciiLowercase right

/-- The first entry, in key order, whose name is the requested one up to ASCII case. -/
def caseInsensitiveSecret (secrets : BTreeMap String) (requested : String) :
    Option (String × String) :=
  secrets.toList.find? fun entry => eqIgnoreAsciiCase entry.1 requested

/-- The token, and all names outside when the call inherits them. -/
def inheritedInside (scope : PlannedReusableSecretScope) (previous : BTreeMap String) :
    BTreeMap String :=
  let current : BTreeMap String :=
    match caseInsensitiveSecret previous "GITHUB_TOKEN" with
    | some (name, value) => (∅ : BTreeMap String).insert name value
    | none => ∅
  if scope.inherit then current.insertMany previous.toList else current

/-- The map that one round of the loop builds before it checks the required names. -/
def visibleInside (scope : PlannedReusableSecretScope) (previous : BTreeMap String) :
    BTreeMap String :=
  scope.mappings.toList.foldl (fun current mapping =>
    match (caseInsensitiveSecret previous mapping.2).map Prod.snd with
    | some value => current.insert mapping.1 value
    | none => current) (inheritedInside scope previous)

def missingSecret (scope : PlannedReusableSecretScope) (current : BTreeMap String) :
    Option String :=
  scope.required.toList.find? fun required => (caseInsensitiveSecret current required).isNone

/-- The secrets that are visible inside a call, if its required ones are. -/
def enterScope (baseId : String) (available : BTreeMap String)
    (scope : PlannedReusableSecretScope) : Except String (BTreeMap String) :=
  let current := visibleInside scope available
  match missingSecret scope current with
  | some missing =>
      .error
        s!"required reusable workflow secret '{missing}' is unavailable for job '{baseId}'"
  | none => .ok current

/-- The scopes stand with the outermost caller first. -/
def resolveReusableSecrets [Serde] (job : PlannedJob) (baseSecrets : BTreeMap String) :
    Except String (BTreeMap String) :=
  job.reusableSecretScopes.foldlM (enterScope job.baseId) baseSecrets

/-! ### What each part reads -/

theorem caseInsensitiveSecret_eq_some {secrets : BTreeMap String} {requested name value : String} :
    caseInsensitiveSecret secrets requested = some (name, value) ↔
      secrets[name]? = some value ∧ eqIgnoreAsciiCase name requested = true ∧
        ∀ lesser, lesser ∈ secrets → eqIgnoreAsciiCase lesser requested = true →
          compare lesser name ≠ .lt :=
  OrderedMaps.find?_toList_eq_some (fun name => eqIgnoreAsciiCase name requested)

theorem caseInsensitiveSecret_isSome {secrets : BTreeMap String} {requested : String} :
    (caseInsensitiveSecret secrets requested).isSome = true ↔
      ∃ name, name ∈ secrets ∧ eqIgnoreAsciiCase name requested = true :=
  OrderedMaps.find?_toList_isSome (fun name => eqIgnoreAsciiCase name requested)

theorem caseInsensitiveSecret_congr {secrets others : BTreeMap String} {requested : String}
    (agree : ∀ name, eqIgnoreAsciiCase name requested = true → secrets[name]? = others[name]?) :
    caseInsensitiveSecret secrets requested = caseInsensitiveSecret others requested :=
  OrderedMaps.find?_toList_congr (fun name => eqIgnoreAsciiCase name requested) agree

theorem getElem?_inheritedInside (scope : PlannedReusableSecretScope)
    (previous : BTreeMap String) (name : String) :
    (inheritedInside scope previous)[name]? =
      if scope.inherit then previous[name]?
      else (caseInsensitiveSecret previous "GITHUB_TOKEN").bind fun token =>
        if token.1 = name then some token.2 else none := by
  unfold inheritedInside
  dsimp only
  cases found : caseInsensitiveSecret previous "GITHUB_TOKEN" with
  | none =>
      split
      · rw [OrderedMaps.getElem?_insertMany_toList]
        simp
      · simp
  | some token =>
      have present := (caseInsensitiveSecret_eq_some.mp found).1
      split
      · rw [OrderedMaps.getElem?_insertMany_toList]
        by_cases same : token.1 = name
        · rw [← same, present, Option.some_or]
        · simp [same]
      · simp [ExtTreeMap.getElem?_insert]

/-- A mapping comes before an inherited value of the same name, and a mapping whose source is
not visible outside leaves the inherited value in place. -/
theorem getElem?_visibleInside (scope : PlannedReusableSecretScope) (previous : BTreeMap String)
    (name : String) :
    (visibleInside scope previous)[name]? =
      (scope.mappings[name]?.bind fun source =>
        (caseInsensitiveSecret previous source).map Prod.snd).or
      (if scope.inherit then previous[name]?
      else (caseInsensitiveSecret previous "GITHUB_TOKEN").bind fun token =>
        if token.1 = name then some token.2 else none) := by
  have distinct : (scope.mappings.toList.map Prod.fst).Nodup := by
    rw [ExtTreeMap.map_fst_toList_eq_keys]
    exact scope.mappings.nodup_keys
  rw [← getElem?_inheritedInside, ← OrderedMaps.getElem?_ofList_toList scope.mappings,
    visibleInside]
  refine OrderedMaps.getElem?_foldl_insert ?_ ?_ distinct (inheritedInside scope previous) name
  · intro current mapping value found
    simp only [found]
  · intro current mapping notFound
    simp only [notFound]

end GitZero.Agent
