/-
Module: GitZero.Proofs.RunnerRequirements
Purpose: When the requirements of a rejected job mean the same before and after their
  normalization, and the same to the agent and to the control plane.
Trusted boundary: the text functions of JavaScript, as far as `LawfulText` says
Main exports: LawfulText, Met, Collapses, met_normalize, rejection_holds_iff, LawfulCase,
  Offered, Confused, eligibility_agrees_iff
-/
import GitZero.Agent.Targeting
import GitZero.Lib.Outcomes
import Mathlib.Data.List.DropRight

namespace GitZero.ControlPlane

open Outcomes (exists_of_mem_mapM)
open Agent (runnerRequirementsSchema runnerRequirementSchema runnerSelectorSchema
  runnerGroupSchema startsWith)

/-- Documented behaviour of `toLowerCase`, `trim` and `startsWith`. -/
class LawfulText [JsText] : Prop where
  lower_lower : ∀ text, toLowerCase (toLowerCase text) = toLowerCase text
  trim_trim : ∀ text, trim (trim text) = trim text
  startsWithMacos_eq : ∀ text, startsWithMacos text = startsWith "macos-" text

section Text

variable [JsText] {hello : AgentHello} {requirement : RunnerRequirement}
  {requirements : List RunnerRequirement}

/-! ### What a requirement asks for -/

def OffersGroup (hello : AgentHello) (requirement : RunnerRequirement) : Prop :=
  requirement.runnerGroup = none ∨
    hello.runnerGroup.map toLowerCase = requirement.runnerGroup.map toLowerCase

def OffersLabels (hello : AgentHello) (requirement : RunnerRequirement) : Prop :=
  ∀ label ∈ requirement.labels, toLowerCase label ∈ hello.labels.map toLowerCase

/-- One label of a hosted runner and nothing else: every agent takes its place. -/
def LoneHosted (requirement : RunnerRequirement) : Prop :=
  requirement.runnerGroup = none ∧
    ∃ label, requirement.labels = [label] ∧ isHostedMacosLabel label = true

/-- The requirement is met on the Workspace's side. -/
def Met (hello : AgentHello) (requirement : RunnerRequirement) : Prop :=
  OffersGroup hello requirement ∧ (LoneHosted requirement ∨ OffersLabels hello requirement)

/-- Several labels that are one hosted label up to letter case. -/
def Collapses (requirement : RunnerRequirement) : Prop :=
  requirement.runnerGroup = none ∧ 2 ≤ requirement.labels.length ∧
    ∃ label ∈ requirement.labels, isHostedMacosLabel label = true ∧
      ∀ other ∈ requirement.labels, toLowerCase other = toLowerCase label

theorem agentSatisfiesRequirements_iff :
    agentSatisfiesRequirements hello requirements = true ↔
      ∀ requirement ∈ requirements, Met hello requirement := by
  unfold agentSatisfiesRequirements
  rw [List.all_eq_true]
  refine forall₂_congr fun requirement _ => ?_
  dsimp only
  rw [Met, OffersGroup, LoneHosted, OffersLabels]
  cases group : requirement.runnerGroup with
  | none =>
      simp only [Option.map_none, ne_eq, not_true_eq_false, false_and, if_false, true_and, true_or]
      split
      · next lone =>
          refine iff_of_true rfl (.inl ?_)
          obtain ⟨label, single⟩ := List.length_eq_one_iff.mp lone.1
          refine ⟨label, single, ?_⟩
          have hosted := lone.2
          rwa [single, List.headD_cons] at hosted
      · next several =>
          rw [List.all_eq_true]
          simp only [List.contains_iff_mem]
          refine ⟨.inr, fun offered => offered.resolve_left ?_⟩
          rintro ⟨label, single, hosted⟩
          refine several ⟨by rw [single]; rfl, ?_⟩
          rwa [single, List.headD_cons]
  | some required =>
      simp only [Option.map_some, ne_eq, reduceCtorEq, not_false_eq_true, true_and, false_and,
        if_false, false_or]
      split
      · next other => simp [other]
      · next same =>
          rw [List.all_eq_true]
          simp [not_not.mp same]

/-! ### Normalization -/

theorem mem_normalizeRunnerRequirements {normalized : RunnerRequirement} :
    normalized ∈ normalizeRunnerRequirements requirements ↔
      ∃ requirement ∈ requirements, normalizeRunnerRequirement requirement = normalized := by
  rw [normalizeRunnerRequirements, List.mem_insertionSort, List.mem_eraseDups, List.mem_map]

/-- Labels and group are as `trim` leaves them. -/
def Trimmed (requirement : RunnerRequirement) : Prop :=
  (∀ label ∈ requirement.labels, trim label = label) ∧
    ∀ group, requirement.runnerGroup = some group → trim group = group

theorem mem_normalized_labels (trimmed : Trimmed requirement) {text : String} :
    text ∈ (normalizeRunnerRequirement requirement).labels ↔
      ∃ label ∈ requirement.labels, toLowerCase label = text := by
  rw [normalizeRunnerRequirement, List.mem_insertionSort, List.mem_eraseDups, List.mem_map]
  refine exists_congr fun label => and_congr_right fun member => ?_
  rw [trimmed.1 label member]

theorem nodup_normalized_labels (requirement : RunnerRequirement) :
    (normalizeRunnerRequirement requirement).labels.Nodup :=
  (List.perm_insertionSort _ _).nodup_iff.mpr (Table.nodup_eraseDups _)

omit [JsText] in
theorem eq_singleton_of_forall {α : Type} {items : List α} {item : α} (distinct : items.Nodup)
    (present : item ∈ items) (same : ∀ other ∈ items, other = item) : items = [item] := by
  match items with
  | [] => cases present
  | [only] => rw [same only List.mem_cons_self]
  | first :: second :: rest =>
      have equal : first = second := (same first List.mem_cons_self).trans
        (same second (List.mem_cons_of_mem _ List.mem_cons_self)).symm
      exact absurd (equal ▸ List.mem_cons_self) (List.nodup_cons.mp distinct).1

variable [LawfulText]

theorem isHostedMacosLabel_lower (label : String) :
    isHostedMacosLabel (toLowerCase label) = isHostedMacosLabel label := by
  rw [isHostedMacosLabel, isHostedMacosLabel, LawfulText.lower_lower]

omit [LawfulText] in
theorem normalized_eq_singleton (trimmed : Trimmed requirement) {text : String} :
    (normalizeRunnerRequirement requirement).labels = [text] ↔
      requirement.labels ≠ [] ∧ ∀ label ∈ requirement.labels, toLowerCase label = text := by
  constructor
  · intro single
    refine ⟨?_, fun label member => ?_⟩
    · rintro none
      obtain ⟨label, member, _⟩ := (mem_normalized_labels trimmed).mp
        (single ▸ List.mem_cons_self : text ∈ (normalizeRunnerRequirement requirement).labels)
      rw [none] at member
      cases member
    · have inside := (mem_normalized_labels trimmed).mpr ⟨label, member, rfl⟩
      rw [single] at inside
      exact List.mem_singleton.mp inside
  · rintro ⟨filled, same⟩
    obtain ⟨label, member⟩ := List.exists_mem_of_ne_nil _ filled
    refine eq_singleton_of_forall (nodup_normalized_labels requirement)
      ((mem_normalized_labels trimmed).mpr ⟨label, member, same label member⟩) fun other inside =>
        ?_
    obtain ⟨origin, present, rfl⟩ := (mem_normalized_labels trimmed).mp inside
    exact same origin present

theorem loneHosted_normalize (trimmed : Trimmed requirement) :
    LoneHosted (normalizeRunnerRequirement requirement) ↔
      LoneHosted requirement ∨ Collapses requirement := by
  have groupless : (normalizeRunnerRequirement requirement).runnerGroup = none ↔
      requirement.runnerGroup = none := Option.map_eq_none_iff
  constructor
  · rintro ⟨noGroup, text, single, hosted⟩
    obtain ⟨filled, same⟩ := (normalized_eq_singleton trimmed).mp single
    obtain ⟨label, member⟩ := List.exists_mem_of_ne_nil _ filled
    have labelHosted : isHostedMacosLabel label = true := by
      rw [← isHostedMacosLabel_lower, same label member]
      exact hosted
    by_cases several : 2 ≤ requirement.labels.length
    · exact .inr ⟨groupless.mp noGroup, several, label, member, labelHosted, fun other inside =>
        (same other inside).trans (same label member).symm⟩
    · have one : requirement.labels.length = 1 := by
        have positive := List.length_pos_iff.mpr filled
        omega
      obtain ⟨only, isOnly⟩ := List.length_eq_one_iff.mp one
      rw [isOnly, List.mem_singleton] at member
      exact .inl ⟨groupless.mp noGroup, only, isOnly, member ▸ labelHosted⟩
  · rintro (⟨noGroup, label, single, hosted⟩ | ⟨noGroup, _, label, member, hosted, same⟩)
    · refine ⟨groupless.mpr noGroup, toLowerCase label, ?_, by rwa [isHostedMacosLabel_lower]⟩
      rw [normalized_eq_singleton trimmed, single]
      refine ⟨nofun, fun other inside => ?_⟩
      rw [List.mem_singleton.mp inside]
    · refine ⟨groupless.mpr noGroup, toLowerCase label, ?_, by rwa [isHostedMacosLabel_lower]⟩
      rw [normalized_eq_singleton trimmed]
      exact ⟨List.ne_nil_of_mem member, same⟩

theorem offersGroup_normalize (trimmed : Trimmed requirement) :
    OffersGroup hello (normalizeRunnerRequirement requirement) ↔
      OffersGroup hello requirement := by
  unfold OffersGroup normalizeRunnerRequirement
  cases group : requirement.runnerGroup with
  | none => simp
  | some required =>
      simp [trimmed.2 required group, LawfulText.lower_lower]

theorem offersLabels_normalize (trimmed : Trimmed requirement) :
    OffersLabels hello (normalizeRunnerRequirement requirement) ↔
      OffersLabels hello requirement := by
  constructor
  · intro offered label member
    have inside := offered _ ((mem_normalized_labels trimmed).mpr ⟨label, member, rfl⟩)
    rwa [LawfulText.lower_lower] at inside
  · intro offered text inside
    obtain ⟨label, member, rfl⟩ := (mem_normalized_labels trimmed).mp inside
    rw [LawfulText.lower_lower]
    exact offered label member

/-- Normalization only helps a requirement whose labels collapse. -/
theorem met_normalize (trimmed : Trimmed requirement) :
    Met hello (normalizeRunnerRequirement requirement) ↔
      Collapses requirement ∨ Met hello requirement := by
  rw [Met, Met, offersGroup_normalize trimmed, offersLabels_normalize trimmed,
    loneHosted_normalize trimmed]
  constructor
  · rintro ⟨group, (lone | collapses) | labels⟩
    · exact .inr ⟨group, .inl lone⟩
    · exact .inl collapses
    · exact .inr ⟨group, .inr labels⟩
  · rintro (collapses | ⟨group, lone | labels⟩)
    · exact ⟨.inl collapses.1, .inl (.inr collapses)⟩
    · exact ⟨group, .inl (.inl lone)⟩
    · exact ⟨group, .inr labels⟩

/-! ### A rejection that is not dispatched again -/

theorem runnerSelectorSchema_trimmed {input value : String}
    (accepted : runnerSelectorSchema input = some value) : trim value = value := by
  unfold runnerSelectorSchema at accepted
  dsimp only at accepted
  split at accepted
  · cases accepted
    exact LawfulText.trim_trim input
  · cases accepted

theorem runnerRequirementSchema_trimmed {input : RunnerRequirement}
    (accepted : runnerRequirementSchema input = some requirement) : Trimmed requirement := by
  simp only [runnerRequirementSchema, Option.bind_eq_bind, Option.bind_eq_some_iff] at accepted
  obtain ⟨labels, parsedLabels, group, parsedGroup, accepted⟩ := accepted
  obtain ⟨_, same⟩ := Option.ite_none_left_eq_some.mp accepted
  cases same
  constructor
  · intro label member
    obtain ⟨origin, _, parsed⟩ := exists_of_mem_mapM parsedLabels member
    exact runnerSelectorSchema_trimmed parsed
  · intro text isText
    cases given : input.runnerGroup with
    | none =>
        rw [given] at parsedGroup
        cases parsedGroup
        cases isText
    | some origin =>
        rw [given, runnerGroupSchema, Option.map_eq_some_iff] at parsedGroup
        obtain ⟨value, parsed, same⟩ := parsedGroup
        dsimp only at isText
        rw [← same] at isText
        cases isText
        exact runnerSelectorSchema_trimmed parsed

theorem runnerRequirementsSchema_trimmed {inputs : List RunnerRequirement}
    (accepted : runnerRequirementsSchema inputs = some requirements) :
    ∀ requirement ∈ requirements, Trimmed requirement := by
  simp only [runnerRequirementsSchema, Option.bind_eq_bind, Option.bind_eq_some_iff] at accepted
  obtain ⟨parsed, ran, accepted⟩ := accepted
  obtain ⟨_, same⟩ := Option.ite_none_left_eq_some.mp accepted
  cases same
  intro requirement member
  obtain ⟨origin, _, isRequirement⟩ := exists_of_mem_mapM ran member
  exact runnerRequirementSchema_trimmed isRequirement

/-- Normalization keeps the verdict on an agent, and an agent that has rejected a job is not
selected for it again while it has the same hello. -/
structure RejectionHolds (hello : AgentHello) (requirements : List RunnerRequirement) : Prop where
  normalized : agentSatisfiesRequirements hello (normalizeRunnerRequirements requirements) =
    agentSatisfiesRequirements hello requirements
  unselected : agentSatisfiesRequirements hello requirements = false →
    ∀ (state : State) (row : JobRow) (candidate : AgentCandidate),
      selectDispatch state = some (row, candidate) →
        row.runnerRequirements = normalizeRunnerRequirements requirements →
          candidate.hello ≠ hello

omit [LawfulText] in
theorem selectDispatch_satisfied {state : State} {row : JobRow} {candidate : AgentCandidate}
    (selected : selectDispatch state = some (row, candidate)) :
    agentSatisfiesRequirements candidate.hello row.runnerRequirements = true := by
  obtain ⟨queued, _, chosen⟩ := List.exists_of_findSome?_eq_some selected
  obtain ⟨best, found, same⟩ := Option.map_eq_some_iff.mp chosen
  cases same
  have kept : ∀ (candidates : List AgentCandidate) (best : Option AgentCandidate),
      (∀ chosen, best = some chosen →
        agentSatisfiesRequirements chosen.hello row.runnerRequirements = true) →
      ∀ chosen, candidates.foldl (keepBest row.runnerRequirements) best = some chosen →
        agentSatisfiesRequirements chosen.hello row.runnerRequirements = true := by
    intro candidates
    induction candidates with
    | nil => exact fun best holds chosen found => holds chosen found
    | cons first rest inductionHypothesis =>
        intro best holds chosen found
        refine inductionHypothesis _ (fun later isLater => ?_) chosen found
        by_cases compatible :
            agentSatisfiesRequirements first.hello row.runnerRequirements = true
        · rcases keepBest_cases isLater with same | earlier
          · exact same ▸ compatible
          · exact holds later earlier
        · unfold keepBest at isLater
          rw [if_neg compatible] at isLater
          exact holds later isLater
  exact kept _ none (fun chosen impossible => by cases impossible) candidate found

/-- Normalization keeps the verdict of an agent, and a job that it has rejected is not given to it
again, exactly when some requirement that does not collapse is not met anyway, or the labels of
every collapsing one are offered. -/
theorem rejection_holds_iff (hello : AgentHello) (inputs requirements : List RunnerRequirement)
    (accepted : runnerRequirementsSchema inputs = some requirements) :
    RejectionHolds hello requirements ↔
      (∃ requirement ∈ requirements, ¬ Collapses requirement ∧ ¬ Met hello requirement) ∨
        ∀ requirement ∈ requirements, Collapses requirement → OffersLabels hello requirement := by
  have trimmed := runnerRequirementsSchema_trimmed accepted
  have after : agentSatisfiesRequirements hello (normalizeRunnerRequirements requirements) = true ↔
      ∀ requirement ∈ requirements, Collapses requirement ∨ Met hello requirement := by
    rw [agentSatisfiesRequirements_iff]
    constructor
    · intro every requirement member
      rw [← met_normalize (trimmed requirement member)]
      exact every _ (mem_normalizeRunnerRequirements.mpr ⟨requirement, member, rfl⟩)
    · intro every normalized inside
      obtain ⟨requirement, member, rfl⟩ := mem_normalizeRunnerRequirements.mp inside
      rw [met_normalize (trimmed requirement member)]
      exact every requirement member
  constructor
  · intro holds
    by_contra fails
    rw [not_or] at fails
    obtain ⟨noneMissed, someMissed⟩ := fails
    have satisfiedAfter :
        agentSatisfiesRequirements hello (normalizeRunnerRequirements requirements) = true := by
      rw [after]
      intro requirement member
      by_contra missed
      rw [not_or] at missed
      exact noneMissed ⟨requirement, member, missed⟩
    rw [holds.normalized, agentSatisfiesRequirements_iff] at satisfiedAfter
    refine someMissed fun requirement member collapses => ?_
    -- A requirement with several labels is met by its labels alone.
    rcases (satisfiedAfter requirement member).2 with lone | labels
    · obtain ⟨_, label, single, _⟩ := lone
      have several := collapses.2.1
      rw [single] at several
      exact absurd several (by simp)
    · exact labels
  · intro condition
    have same : agentSatisfiesRequirements hello (normalizeRunnerRequirements requirements) =
        agentSatisfiesRequirements hello requirements := by
      rw [Bool.eq_iff_iff, after, agentSatisfiesRequirements_iff]
      constructor
      · intro every requirement member
        rcases condition with ⟨missed, inside, plain, unmet⟩ | offered
        · rcases every missed inside with collapses | met
          · exact absurd collapses plain
          · exact absurd met unmet
        · rcases every requirement member with collapses | met
          · exact ⟨.inl collapses.1, .inr (offered requirement member collapses)⟩
          · exact met
      · exact fun every requirement member => .inr (every requirement member)
    refine ⟨same, fun rejected state row candidate selected stored sameHello => ?_⟩
    have satisfied := selectDispatch_satisfied selected
    rw [stored, sameHello, same, rejected] at satisfied
    cases satisfied

end Text

/-! ### The agent and the control plane -/

theorem toLower_cases (char : Char) :
    char.toLower = char ∨
      65 ≤ char.toNat ∧ char.toNat ≤ 90 ∧ char.toLower.toNat = char.toNat + 32 := by
  unfold Char.toLower
  split
  · next upper =>
      obtain ⟨low, high⟩ := upper
      have lowNat : 65 ≤ char.toNat := low
      have highNat : char.toNat ≤ 90 := high
      refine .inr ⟨lowNat, highNat, ?_⟩
      change (char.val + 32).toNat = char.val.toNat + 32
      rw [UInt32.toNat_add]
      exact Nat.mod_eq_of_lt (by have same : char.val.toNat = char.toNat := rfl; simp; omega)
  · exact .inl rfl

open Agent Workflows

theorem toAsciiLowercase_twice (text : String) :
    toAsciiLowercase (toAsciiLowercase text) = toAsciiLowercase text := by
  simp only [toAsciiLowercase, Expression.toAsciiLowercase, String.toList_ofList, List.map_map]
  congr 1
  exact List.map_congr_left fun char _ => Expression.toLower_toLower char

section Agreement

variable [JsText]

/-- What the control plane compares of a label or a group. -/
def fold (text : String) : String := toLowerCase (trim text)

/-- Documented behaviour of `toLowerCase` and `trim` on letters of ASCII. -/
class LawfulCase [JsText] : Prop where
  fold_ascii : ∀ text, fold (toAsciiLowercase text) = fold text
  macos_ascii : ∀ text, startsWith "macos-" (toAsciiLowercase text) = true →
    startsWith "macos-" (fold text) = true

/-- The labels are one label of a hosted runner, for one way to compare labels. -/
def OneHosted (key : String → String) (requirement : RunnerRequirement) : Prop :=
  requirement.runnerGroup = none ∧ ∃ label ∈ requirement.labels,
    startsWith "macos-" (key label) = true ∧ ∀ other ∈ requirement.labels, key other = key label

/-- What a requirement asks for, for one way to compare labels and groups. -/
def Offered (key : String → String) (labels : List String) (group : Option String)
    (requirement : RunnerRequirement) : Prop :=
  (requirement.runnerGroup = none ∨ group.map key = requirement.runnerGroup.map key) ∧
    (OneHosted key requirement ∨ ∀ label ∈ requirement.labels, key label ∈ labels.map key)

/-- A group or a label that the agent tells apart from its own and the control plane does
not. -/
def Confused (labels : List String) (group : Option String) (requirement : RunnerRequirement) :
    Prop :=
  (∃ own ∈ group, ∃ required ∈ requirement.runnerGroup,
    fold own = fold required ∧ toAsciiLowercase own ≠ toAsciiLowercase required) ∨
  (¬ OneHosted toAsciiLowercase requirement ∧ ∃ label ∈ requirement.labels,
    toAsciiLowercase label ∉ labels.map toAsciiLowercase ∧
      (OneHosted fold requirement ∨ ∃ own ∈ labels, fold own = fold label))

/-- Both sides give one verdict, and a rejection of a job that is still assigned is accepted. -/
structure EligibilityAgrees (runner : RunnerTargeting) (requirements : List RunnerRequirement)
    (hello : AgentHello) (received : List RunnerRequirement) : Prop where
  verdict : runnerSatisfiesRequirements requirements runner =
    agentSatisfiesRequirements hello (normalizeRunnerRequirements received)
  accepted : runnerSatisfiesRequirements requirements runner = false →
    ∀ (state : State) (socket : SocketId) (row : JobRow), row.status = .assigned →
      (state.socket? socket).bind (·.hello) = some hello →
        RejectionAccepted state socket row received

/-! ### What the schema leaves of a message -/

omit [JsText] in
theorem mapM_eq_map {α β : Type} {parse : α → Option β} {image : α → β} {inputs : List α}
    {values : List β} (parses : ∀ input value, parse input = some value → value = image input)
    (parsed : inputs.mapM parse = some values) : values = inputs.map image := by
  induction inputs generalizing values with
  | nil =>
      cases parsed
      rfl
  | cons input inputs inductionHypothesis =>
      rw [List.mapM_cons, Option.bind_eq_bind, Option.bind_eq_some_iff] at parsed
      obtain ⟨first, parsedFirst, parsed⟩ := parsed
      obtain ⟨rest, parsedRest, same⟩ := Option.bind_eq_some_iff.mp parsed
      cases same
      rw [List.map_cons, parses input first parsedFirst, inductionHypothesis parsedRest]

def trimmedRequirement (requirement : RunnerRequirement) : RunnerRequirement where
  labels := requirement.labels.map trim
  runnerGroup := requirement.runnerGroup.map trim

theorem runnerSelectorSchema_eq (input value : String)
    (accepted : runnerSelectorSchema input = some value) : value = trim input := by
  unfold runnerSelectorSchema at accepted
  dsimp only at accepted
  split at accepted
  · cases accepted
    rfl
  · cases accepted

theorem runnerGroupSchema_eq {input value : Option String}
    (accepted : runnerGroupSchema input = some value) : value = input.map trim := by
  cases input with
  | none =>
      cases accepted
      rfl
  | some text =>
      obtain ⟨parsed, found, same⟩ := Option.map_eq_some_iff.mp accepted
      rw [← same, runnerSelectorSchema_eq text parsed found, Option.map_some]

theorem runnerRequirementsSchema_eq {inputs values : List RunnerRequirement}
    (accepted : runnerRequirementsSchema inputs = some values) :
    values = inputs.map trimmedRequirement := by
  simp only [runnerRequirementsSchema, Option.bind_eq_bind, Option.bind_eq_some_iff] at accepted
  obtain ⟨parsed, ran, accepted⟩ := accepted
  obtain ⟨_, same⟩ := Option.ite_none_left_eq_some.mp accepted
  cases same
  refine mapM_eq_map (fun input value isValue => ?_) ran
  simp only [runnerRequirementSchema, Option.bind_eq_bind, Option.bind_eq_some_iff] at isValue
  obtain ⟨labels, parsedLabels, group, parsedGroup, isValue⟩ := isValue
  obtain ⟨_, same⟩ := Option.ite_none_left_eq_some.mp isValue
  cases same
  rw [trimmedRequirement, mapM_eq_map runnerSelectorSchema_eq parsedLabels,
    runnerGroupSchema_eq parsedGroup]

theorem receivedHello_eq {base hello : AgentHello} {labels : List String}
    {group : Option String} (greeted : receivedHello base labels group = some hello) :
    hello.labels = labels.map trim ∧ hello.runnerGroup = group.map trim := by
  simp only [receivedHello, Option.bind_eq_bind, Option.bind_eq_some_iff] at greeted
  obtain ⟨parsed, parsedLabels, parsedGroup, foundGroup, greeted⟩ := greeted
  obtain ⟨_, same⟩ := Option.ite_none_left_eq_some.mp greeted
  cases same
  exact ⟨mapM_eq_map runnerSelectorSchema_eq parsedLabels, runnerGroupSchema_eq foundGroup⟩

/-! ### The check of the agent -/

omit [JsText] in
/-- Every requirement that the agent collects comes from a selector. -/
theorem collected_requirement {selectors : List RunnerSelector}
    {start requirements : List RunnerRequirement}
    (collected : selectors.foldlM insertRunnerRequirement start = some requirements)
    {requirement : RunnerRequirement} (member : requirement ∈ requirements) :
    requirement ∈ start ∨ ∃ selector, requirement = requirementOf selector := by
  induction selectors generalizing start with
  | nil =>
      cases collected
      exact .inl member
  | cons selector selectors inductionHypothesis =>
      rw [List.foldlM_cons, Option.bind_eq_bind, Option.bind_eq_some_iff] at collected
      obtain ⟨next, inserted, collected⟩ := collected
      rcases inductionHypothesis collected with earlier | known
      · unfold insertRunnerRequirement at inserted
        split at inserted
        · cases inserted
          exact .inl earlier
        · split at inserted
          · cases inserted
          · split at inserted
            · cases inserted
            · obtain ⟨_, same⟩ := Option.ite_none_left_eq_some.mp inserted
              cases same
              split at earlier
              · exact .inl earlier
              · rcases List.mem_append.mp earlier with old | new
                · exact .inl old
                · exact .inr ⟨selector, List.mem_singleton.mp new⟩
      · exact .inr known

omit [JsText] in
theorem macos_of_latest {text : String} (latest : text = "macos-latest") :
    startsWith "macos-" text = true := by
  rw [latest]
  decide

omit [JsText] in
theorem isGithubHostedMacosLabel_iff (label : String) :
    isGithubHostedMacosLabel label = true ↔
      startsWith "macos-" (toAsciiLowercase label) = true := by
  rw [isGithubHostedMacosLabel, Bool.or_eq_true, decide_eq_true_eq]
  exact or_iff_right_of_imp macos_of_latest

omit [JsText] in
/-- The labels that the agent collects are distinct, so that one label means one entry. -/
theorem oneHosted_requirementOf (selector : RunnerSelector) :
    ((requirementOf selector).runnerGroup.isNone &&
        decide ((requirementOf selector).labels.length = 1) &&
        (requirementOf selector).labels.all isGithubHostedMacosLabel) = true ↔
      OneHosted toAsciiLowercase (requirementOf selector) := by
  rw [Bool.and_eq_true, Bool.and_eq_true, Option.isNone_iff_eq_none, decide_eq_true_eq,
    List.length_eq_one_iff, and_assoc, OneHosted]
  refine and_congr_right fun _ => ⟨?_, ?_⟩
  · rintro ⟨⟨label, single⟩, hosted⟩
    rw [single, List.all_cons, List.all_nil, Bool.and_true, isGithubHostedMacosLabel_iff] at hosted
    refine ⟨label, single ▸ List.mem_cons_self, hosted, fun other inside => ?_⟩
    rw [single, List.mem_singleton] at inside
    rw [inside]
  · rintro ⟨label, member, hosted, same⟩
    have lowered : ∀ text ∈ (requirementOf selector).labels, toAsciiLowercase text = text := by
      intro text inside
      rw [requirementOf, List.mem_insertionSort, List.mem_eraseDups, List.mem_map] at inside
      obtain ⟨origin, _, rfl⟩ := inside
      exact toAsciiLowercase_twice origin
    have distinct : (requirementOf selector).labels.Nodup :=
      (List.perm_insertionSort _ _).nodup_iff.mpr (Table.nodup_eraseDups _)
    have single := eq_singleton_of_forall distinct member fun other inside => by
      rw [← lowered other inside, same other inside, lowered label member]
    refine ⟨⟨label, single⟩, ?_⟩
    rw [single, List.all_cons, List.all_nil, Bool.and_true, isGithubHostedMacosLabel_iff]
    exact hosted

omit [JsText] in
theorem ensureRunnerEligible_iff (labels : List String) (group : Option String)
    (selector : RunnerSelector) :
    ensureRunnerEligible (requirementOf selector) (runnerTargeting labels group) = true ↔
      Offered toAsciiLowercase labels group (requirementOf selector) := by
  unfold ensureRunnerEligible
  rw [Bool.and_eq_true, Bool.or_eq_true, oneHosted_requirementOf, List.all_eq_true, Offered]
  refine and_congr ?_ (or_congr_right (forall₂_congr fun label _ => ?_))
  · cases (requirementOf selector).runnerGroup with
    | none => simp
    | some required =>
        cases group with
        | none => simp [runnerTargeting]
        | some own => simp [runnerTargeting, eqIgnoreAsciiCase, toAsciiLowercase_twice]
  · rw [List.contains_iff_mem]
    rfl

/-! ### The check of the control plane -/

variable [LawfulText]

theorem isHostedMacosLabel_iff (label : String) :
    isHostedMacosLabel label = true ↔ startsWith "macos-" (toLowerCase label) = true := by
  rw [isHostedMacosLabel, Bool.or_eq_true, decide_eq_true_eq, LawfulText.startsWithMacos_eq]
  exact or_iff_right_of_imp macos_of_latest

theorem oneHosted_lower (requirement : RunnerRequirement) :
    LoneHosted requirement ∨ Collapses requirement ↔ OneHosted toLowerCase requirement := by
  constructor
  · rintro (⟨noGroup, label, single, hosted⟩ | ⟨noGroup, _, label, member, hosted, same⟩)
    · refine ⟨noGroup, label, single ▸ List.mem_cons_self, (isHostedMacosLabel_iff label).mp hosted,
        fun other inside => ?_⟩
      rw [single, List.mem_singleton] at inside
      rw [inside]
    · exact ⟨noGroup, label, member, (isHostedMacosLabel_iff label).mp hosted, same⟩
  · rintro ⟨noGroup, label, member, hosted, same⟩
    rw [← isHostedMacosLabel_iff] at hosted
    by_cases several : 2 ≤ requirement.labels.length
    · exact .inr ⟨noGroup, several, label, member, hosted, same⟩
    · have positive := List.length_pos_of_mem member
      obtain ⟨only, isOnly⟩ := List.length_eq_one_iff.mp
        (by omega : requirement.labels.length = 1)
      rw [isOnly, List.mem_singleton] at member
      exact .inl ⟨noGroup, only, isOnly, member ▸ hosted⟩

theorem met_received {base hello : AgentHello} {labels : List String} {group : Option String}
    (greeted : receivedHello base labels group = some hello) (requirement : RunnerRequirement) :
    Met hello (normalizeRunnerRequirement (trimmedRequirement requirement)) ↔
      Offered fold labels group requirement := by
  obtain ⟨sameLabels, sameGroup⟩ := receivedHello_eq greeted
  have trimmed : Trimmed (trimmedRequirement requirement) := by
    constructor
    · intro label member
      obtain ⟨origin, _, rfl⟩ := List.mem_map.mp member
      exact LawfulText.trim_trim origin
    · intro text isText
      obtain ⟨origin, _, rfl⟩ := Option.map_eq_some_iff.mp isText
      exact LawfulText.trim_trim origin
  have hosted : OneHosted toLowerCase (trimmedRequirement requirement) ↔
      OneHosted fold requirement := by
    simp [OneHosted, trimmedRequirement, fold]
  have groups : OffersGroup hello (trimmedRequirement requirement) ↔
      requirement.runnerGroup = none ∨
        group.map fold = requirement.runnerGroup.map fold := by
    simp only [OffersGroup, trimmedRequirement, sameGroup, Option.map_map, Option.map_eq_none_iff]
    rfl
  have offers : OffersLabels hello (trimmedRequirement requirement) ↔
      ∀ label ∈ requirement.labels, fold label ∈ labels.map fold := by
    simp only [OffersLabels, trimmedRequirement, sameLabels, List.map_map, List.forall_mem_map]
    rfl
  rw [Met, offersGroup_normalize trimmed, offersLabels_normalize trimmed,
    loneHosted_normalize trimmed, oneHosted_lower, hosted, groups, offers, Offered]

/-! ### The two verdicts -/

variable [LawfulCase]

omit [LawfulText] in
theorem fold_eq_of_ascii {left right : String}
    (same : toAsciiLowercase left = toAsciiLowercase right) : fold left = fold right := by
  rw [← LawfulCase.fold_ascii left, same, LawfulCase.fold_ascii]

omit [LawfulText] in
/-- The control plane compares more coarsely. -/
theorem Offered.folded {labels : List String} {group : Option String}
    {requirement : RunnerRequirement}
    (offered : Offered toAsciiLowercase labels group requirement) :
    Offered fold labels group requirement := by
  obtain ⟨groups, wanted⟩ := offered
  constructor
  · refine groups.imp_right fun same => ?_
    have refolded : ∀ given : Option String,
        given.map fold = (given.map toAsciiLowercase).map fold := by
      intro given
      rw [Option.map_map]
      exact congrArg (given.map ·) (funext fun text => (LawfulCase.fold_ascii text).symm)
    rw [refolded, same, ← refolded]
  · refine wanted.imp ?_ fun every label member => ?_
    · rintro ⟨noGroup, label, member, hosted, same⟩
      exact ⟨noGroup, label, member, LawfulCase.macos_ascii label hosted, fun other inside =>
        fold_eq_of_ascii (same other inside)⟩
    · obtain ⟨own, inside, same⟩ := List.mem_map.mp (every label member)
      exact List.mem_map.mpr ⟨own, inside, fold_eq_of_ascii same⟩

omit [LawfulText] [LawfulCase] in
theorem offered_ascii_iff {labels : List String} {group : Option String}
    {requirement : RunnerRequirement} (folded : Offered fold labels group requirement) :
    Offered toAsciiLowercase labels group requirement ↔ ¬ Confused labels group requirement := by
  constructor
  · rintro ⟨groups, wanted⟩ (⟨own, isOwn, required, isRequired, _, differ⟩ |
      ⟨notOne, label, member, missing, _⟩)
    · rw [Option.mem_def.mp isOwn, Option.mem_def.mp isRequired] at groups
      rcases groups with impossible | same
      · cases impossible
      · exact differ (Option.some.inj same)
    · rcases wanted with one | every
      · exact notOne one
      · exact missing (every label member)
  · intro clear
    obtain ⟨groups, wanted⟩ := folded
    constructor
    · refine groups.imp_right fun same => ?_
      cases required : requirement.runnerGroup with
      | none =>
          rw [required, Option.map_none, Option.map_eq_none_iff] at same
          rw [same]
      | some text =>
          rw [required, Option.map_some] at same
          obtain ⟨own, isOwn, folds⟩ := Option.map_eq_some_iff.mp same
          rw [isOwn, Option.map_some, Option.map_some]
          by_contra differ
          exact clear (.inl ⟨own, isOwn, text, required, folds, fun equal =>
            differ (congrArg some equal)⟩)
    · by_contra missed
      rw [not_or, not_forall₂] at missed
      obtain ⟨notOne, label, member, missing⟩ := missed
      refine clear (.inr ⟨notOne, label, member, missing, wanted.imp_right fun every => ?_⟩)
      exact List.mem_map.mp (every label member)

/-- Agent and Workspace give one verdict, and a rejection is accepted, exactly when some
requirement is not offered even under full case folding, or none depends on how the case is
folded. -/
theorem eligibility_agrees_iff (labels : List String) (group : Option String)
    (selectors : List RunnerSelector) (requirements received : List RunnerRequirement)
    (base hello : AgentHello)
    (collected : selectors.foldlM insertRunnerRequirement [] = some requirements)
    (greeted : receivedHello base labels group = some hello)
    (sent : runnerRequirementsSchema requirements = some received) :
    EligibilityAgrees (runnerTargeting labels group) requirements hello received ↔
      (∃ requirement ∈ requirements, ¬ Offered fold labels group requirement) ∨
        ∀ requirement ∈ requirements, ¬ Confused labels group requirement := by
  have isReceived := runnerRequirementsSchema_eq sent
  have agent : runnerSatisfiesRequirements requirements (runnerTargeting labels group) = true ↔
      ∀ requirement ∈ requirements, Offered toAsciiLowercase labels group requirement := by
    rw [runnerSatisfiesRequirements, List.all_eq_true]
    refine forall₂_congr fun requirement member => ?_
    rcases collected_requirement collected member with impossible | ⟨selector, rfl⟩
    · cases impossible
    · exact ensureRunnerEligible_iff labels group selector
  have server : agentSatisfiesRequirements hello (normalizeRunnerRequirements received) = true ↔
      ∀ requirement ∈ requirements, Offered fold labels group requirement := by
    rw [agentSatisfiesRequirements_iff]
    simp only [mem_normalizeRunnerRequirements, isReceived, List.mem_map, forall_exists_index,
      and_imp, forall_apply_eq_imp_iff₂]
    exact forall₂_congr fun requirement _ => met_received greeted requirement
  constructor
  · intro agrees
    by_contra fails
    rw [not_or, not_exists] at fails
    obtain ⟨noneMissed, someConfused⟩ := fails
    have folded : ∀ requirement ∈ requirements, Offered fold labels group requirement :=
      fun requirement member => not_not.mp fun missed => noneMissed requirement ⟨member, missed⟩
    have satisfied := agrees.verdict.trans (server.mpr folded)
    rw [agent] at satisfied
    exact someConfused fun requirement member =>
      (offered_ascii_iff (folded requirement member)).mp (satisfied requirement member)
  · intro condition
    have verdict : runnerSatisfiesRequirements requirements (runnerTargeting labels group) =
        agentSatisfiesRequirements hello (normalizeRunnerRequirements received) := by
      rw [Bool.eq_iff_iff, agent, server]
      constructor
      · exact fun every requirement member => (every requirement member).folded
      · intro every requirement member
        rcases condition with ⟨missed, inside, unmet⟩ | clear
        · exact absurd (every missed inside) unmet
        · exact (offered_ascii_iff (every requirement member)).mpr (clear requirement member)
    refine ⟨verdict, fun rejected state socket row assigned known =>
      ⟨assigned, hello, known, ?_⟩⟩
    -- What is met as it is sent is met once it is stored.
    by_contra satisfied
    rw [Bool.not_eq_false, agentSatisfiesRequirements_iff] at satisfied
    have stored : agentSatisfiesRequirements hello (normalizeRunnerRequirements received) =
        true := by
      rw [agentSatisfiesRequirements_iff]
      intro normalized inside
      obtain ⟨requirement, member, rfl⟩ := mem_normalizeRunnerRequirements.mp inside
      rw [met_normalize (runnerRequirementsSchema_trimmed sent requirement member)]
      exact .inr (satisfied requirement member)
    rw [rejected, stored] at verdict
    cases verdict

end Agreement

/-! ### Text that is lowered letter by letter -/

/-- `trim` of a text whose blanks are single characters -/
def strip (blank : Char → Bool) (text : List Char) : List Char :=
  ((text.dropWhile blank).reverse.dropWhile blank).reverse

theorem strip_strip (blank : Char → Bool) (text : List Char) :
    strip blank (strip blank text) = strip blank text := by
  have front : (strip blank text).dropWhile blank = strip blank text := by
    cases stripped : strip blank text with
    | nil => rfl
    | cons first rest =>
        obtain ⟨tail, whole⟩ := @List.rdropWhile_prefix _ blank (text.dropWhile blank)
        rw [List.rdropWhile, ← strip, stripped, List.cons_append] at whole
        have filled : text.dropWhile blank ≠ [] := by
          rw [← whole]
          exact List.cons_ne_nil _ _
        have start := List.head_dropWhile_not blank filled
        simp only [← whole, List.head_cons] at start
        exact List.dropWhile_cons_of_neg (by simpa using start)
  rw [strip, front, strip, List.reverse_reverse, List.dropWhile_idempotent]

theorem strip_map {blank : Char → Bool} {lower : Char → Char}
    (keeps : ∀ char, blank (lower char) = blank char) (text : List Char) :
    strip blank (text.map lower) = (strip blank text).map lower := by
  have same : blank ∘ lower = blank := funext keeps
  rw [strip, strip, List.dropWhile_map, same, ← List.map_reverse, List.dropWhile_map, same,
    List.map_reverse]

/-- What follows two characters that stay is stripped alone. -/
theorem strip_append {blank : Char → Bool} {first last : Char}
    (visibleFirst : blank first = false) (visibleLast : blank last = false)
    (middle rest : List Char) :
    ∃ tail, strip blank (first :: middle ++ last :: rest) = first :: middle ++ last :: tail := by
  refine ⟨(rest.reverse.dropWhile blank).reverse, ?_⟩
  rw [strip, List.cons_append, List.dropWhile_cons_of_neg (by simp [visibleFirst])]
  simp only [List.reverse_cons, List.reverse_append, List.append_assoc]
  rw [List.dropWhile_append]
  split
  · next blanks =>
      rw [List.isEmpty_iff.mp blanks]
      simp [visibleLast]
  · simp

/-- The functions of JavaScript on texts without quotes, where they go letter by letter. -/
@[reducible] def charText (lower : Char → Char) (blank : Char → Bool) : JsText where
  toLowerCase value := String.ofList (value.toList.map lower)
  trim value := String.ofList (strip blank value.toList)
  localeBefore := Ascii.text.localeBefore
  startsWithMacos := Ascii.text.startsWithMacos
  jsonString := Ascii.text.jsonString
  utf16Length := Ascii.text.utf16Length
  sliceTo := Ascii.text.sliceTo
  urlHostname := Ascii.text.urlHostname

/-- A lower-casing that agrees with that of ASCII. -/
structure LowersAscii (lower : Char → Char) (blank : Char → Bool) : Prop where
  again : ∀ char, lower (lower char) = lower char
  ascii : ∀ char, lower char.toLower = lower char
  blank_ascii : ∀ char, blank char.toLower = blank char
  macos : ∀ char ∈ "macos-".toList, lower char = char ∧ blank char = false

theorem LowersAscii.lawfulText {lower : Char → Char} {blank : Char → Bool}
    (lowers : LowersAscii lower blank) : @LawfulText (charText lower blank) := by
  let _ := charText lower blank
  refine ⟨fun text => ?_, fun text => ?_, fun text => rfl⟩
  · change String.ofList ((String.ofList (text.toList.map lower)).toList.map lower) =
      String.ofList (text.toList.map lower)
    rw [String.toList_ofList, List.map_map]
    exact congrArg String.ofList (List.map_congr_left fun char _ => lowers.again char)
  · change String.ofList (strip blank (String.ofList (strip blank text.toList)).toList) =
      String.ofList (strip blank text.toList)
    rw [String.toList_ofList, strip_strip]

theorem LowersAscii.lawfulCase {lower : Char → Char} {blank : Char → Bool}
    (lowers : LowersAscii lower blank) : @LawfulCase (charText lower blank) := by
  let _ := charText lower blank
  have folds : ∀ text, fold text = String.ofList ((strip blank text.toList).map lower) := by
    intro text
    change String.ofList ((String.ofList (strip blank text.toList)).toList.map lower) = _
    rw [String.toList_ofList]
  have lowered : ∀ text, (toAsciiLowercase text).toList = text.toList.map Char.toLower :=
    fun text => String.toList_ofList
  refine ⟨fun text => ?_, fun text hosted => ?_⟩
  · rw [folds, folds, lowered, strip_map lowers.blank_ascii, List.map_map]
    exact congrArg String.ofList (List.map_congr_left fun char _ => lowers.ascii char)
  · rw [startsWith, lowered] at hosted
    obtain ⟨rest, whole⟩ := List.isPrefixOf_iff_prefix.mp hosted
    rw [show "macos-".toList = ['m', 'a', 'c', 'o', 's', '-'] from rfl] at whole
    obtain ⟨start, tail, split, isStart, _⟩ := List.map_eq_append_iff.mp whole.symm
    obtain ⟨m, _, rfl, isM, isRest⟩ := List.map_eq_cons_iff.mp isStart
    obtain ⟨a, _, rfl, isA, isRest⟩ := List.map_eq_cons_iff.mp isRest
    obtain ⟨c, _, rfl, isC, isRest⟩ := List.map_eq_cons_iff.mp isRest
    obtain ⟨o, _, rfl, isO, isRest⟩ := List.map_eq_cons_iff.mp isRest
    obtain ⟨s, _, rfl, isS, isRest⟩ := List.map_eq_cons_iff.mp isRest
    obtain ⟨dash, _, rfl, isDash, isRest⟩ := List.map_eq_cons_iff.mp isRest
    cases List.map_eq_nil_iff.mp isRest
    have low : ∀ char letter, char.toLower = letter → letter ∈ "macos-".toList →
        lower char = letter ∧ blank char = false := by
      rintro char letter rfl member
      rw [← lowers.ascii, ← lowers.blank_ascii]
      exact lowers.macos _ member
    have lowM := low m _ isM (by simp)
    have lowDash := low dash _ isDash (by simp)
    obtain ⟨kept, stripped⟩ := strip_append lowM.2 lowDash.2 [a, c, o, s] tail
    rw [startsWith, folds, String.toList_ofList, split,
      show [m, a, c, o, s, dash] ++ tail = m :: [a, c, o, s] ++ dash :: tail from rfl, stripped]
    simp [lowM.1, lowDash.1, (low a _ isA (by simp)).1, (low c _ isC (by simp)).1,
      (low o _ isO (by simp)).1, (low s _ isS (by simp)).1]

namespace Sample

section Plain

open Ascii

theorem visible_of_code {char : Char} (visible : 32 < char.toNat) : char.isWhitespace = false := by
  by_contra blank
  rw [Bool.not_eq_false, Char.isWhitespace] at blank
  simp only [Bool.or_eq_true, decide_eq_true_eq] at blank
  rcases blank with ((rfl | rfl) | rfl) | rfl
  all_goals exact absurd visible (by decide)

theorem lowers_ascii : LowersAscii Char.toLower Char.isWhitespace where
  again := Expression.toLower_toLower
  ascii := Expression.toLower_toLower
  blank_ascii char := by
    rcases toLower_cases char with same | ⟨low, _, shifted⟩
    · rw [same]
    · rw [visible_of_code (by omega), visible_of_code (by omega)]
  macos := fun char member => by
    have every := List.all_eq_true.mp (by decide :
      ("macos-".toList.all fun char => char.toLower == char && !char.isWhitespace) = true)
      char member
    simpa using every

instance : LawfulText := lowers_ascii.lawfulText

instance : LawfulCase := lowers_ascii.lawfulCase

def plainAgent : AgentHello := hello "mac" 1

/-- An ordinary rejection: the agent has no such label. -/
theorem xcode_rejection_holds :
    RejectionHolds plainAgent [{ labels := ["xcode-16"], runnerGroup := none }] :=
  (rejection_holds_iff plainAgent [{ labels := [" xcode-16"], runnerGroup := none }]
    [{ labels := ["xcode-16"], runnerGroup := none }] (by decide)).mpr (.inr fun requirement member
      collapses => by
        cases List.mem_singleton.mp member
        exact absurd collapses.2.1 (by decide))

/-- Twice one hosted label: refused by the agent as it is sent, met once it is stored. -/
theorem repeated_hosted_label_is_dispatched_again :
    ¬ ∀ (hello : AgentHello) (inputs requirements : List RunnerRequirement),
      runnerRequirementsSchema inputs = some requirements → RejectionHolds hello requirements := by
  intro law
  have holds := (law plainAgent
    [{ labels := ["macos-latest", "macos-latest"], runnerGroup := none }]
    [{ labels := ["macos-latest", "macos-latest"], runnerGroup := none }] (by decide)).normalized
  have differ : agentSatisfiesRequirements plainAgent (normalizeRunnerRequirements
      [{ labels := ["macos-latest", "macos-latest"], runnerGroup := none }]) ≠
      agentSatisfiesRequirements plainAgent
        [{ labels := ["macos-latest", "macos-latest"], runnerGroup := none }] := by
    decide
  exact differ holds

def selector (labels : List String)
    (trimmed : ∀ label ∈ labels, trimWhitespace label = label ∧ label ≠ "")
    (selects : labels ≠ []) : RunnerSelector where
  labels := labels
  group := none
  labelsTrimmed := trimmed
  groupTrimmed _ impossible := by cases impossible
  selects := .inl selects

def xcodeSelector : RunnerSelector :=
  selector ["Xcode-16"] (fun label member => by
    cases List.mem_singleton.mp member
    decide) (List.cons_ne_nil _ _)

/-- An agent without the label rejects the job and the rejection is accepted. -/
theorem missing_label_agrees :
    EligibilityAgrees (runnerTargeting ["self-hosted", "macOS", "ARM64"] none)
      [{ labels := ["xcode-16"], runnerGroup := none }]
      { plainAgent with labels := ["self-hosted", "macOS", "ARM64"] }
      [{ labels := ["xcode-16"], runnerGroup := none }] :=
  (eligibility_agrees_iff _ none [xcodeSelector] _ _ plainAgent _ (by decide) (by decide)
    (by decide)).mpr (.inl ⟨_, List.mem_cons_self, by
      rintro ⟨_, ⟨_, label, member, hosted, _⟩ | every⟩
      · cases List.mem_singleton.mp member
        exact absurd hosted (by decide)
      · exact absurd (every "xcode-16" List.mem_cons_self) (by decide)⟩)

end Plain

section Accents

/-- `toLowerCase` on the letters of Latin-1 -/
def latinLower (char : Char) : Char :=
  if 0xC0 ≤ char.toNat ∧ char.toNat ≤ 0xDE ∧ char.toNat ≠ 0xD7 then Char.ofNat (char.toNat + 32)
  else char.toLower

/-- Blanks of JavaScript among the letters of Latin-1. -/
scoped instance latin : JsText := charText latinLower Char.isWhitespace

def accentSelector : RunnerSelector :=
  selector ["é"] (fun label member => by
    cases List.mem_singleton.mp member
    decide) (List.cons_ne_nil _ _)

/-- The agent has the label `É`, the job asks for `é`. -/
theorem accent_rejection_is_refused :
    ¬ ∀ (arch : String) (custom : List String) (given : Option String) (labels : List String)
      (group : Option String) (selectors : List RunnerSelector)
      (requirements received : List RunnerRequirement) (base hello : AgentHello),
      normalizeRunnerTargeting arch custom given = some (labels, group) →
      selectors.foldlM insertRunnerRequirement [] = some requirements →
      receivedHello base labels group = some hello →
      runnerRequirementsSchema requirements = some received →
        EligibilityAgrees (runnerTargeting labels group) requirements hello received := by
  intro law
  have agrees := law "ARM64" ["É"] none ["self-hosted", "macOS", "ARM64", "É"] none
    [accentSelector] [{ labels := ["é"], runnerGroup := none }]
    [{ labels := ["é"], runnerGroup := none }] (Ascii.hello "mac" 1)
    { Ascii.hello "mac" 1 with labels := ["self-hosted", "macOS", "ARM64", "É"] }
    (by decide) (by decide) (by decide) (by decide)
  exact absurd agrees.verdict (by decide)

end Accents

end Sample

end GitZero.ControlPlane
