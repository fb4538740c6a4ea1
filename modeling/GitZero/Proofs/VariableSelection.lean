/-
Module: GitZero.Proofs.VariableSelection
Purpose: Which variables of the two scopes a run receives, and when a variable of the
  organization takes the place of one of the repository.
Trusted boundary: `toUpperCase`, a parameter
Main exports: ordered, VariablesChosen, addSorted_eq, selectActionsVariables_eq,
  variables_chosen_iff
-/
import GitZero.ControlPlane.GithubVariables
import GitZero.Lib.Budget

namespace GitZero.ControlPlane

open Budget

/-! ### The loop over one scope -/

section Names

variable (toUpperCase : String → String)

/-- The variables of a scope in the order of their names, the first of each name. -/
def ordered (entries : List ActionsVariable) : List ActionsVariable :=
  fresh (·.normalizedName toUpperCase) [] (toSorted toUpperCase entries)

def ActionsVariable.entry (entry : ActionsVariable) : String × String := (entry.name, entry.value)

theorem ActionsVariable.entry_injective : Function.Injective ActionsVariable.entry := by
  intro left right same
  cases left
  cases right
  simpa [ActionsVariable.entry] using same

/-- The map holds the variables under their names, and the count is right. -/
structure Selection.Consistent (selection : Selection) (chosen : List ActionsVariable) : Prop where
  selected : selection.selected = chosen.map fun entry => (entry.normalizedName toUpperCase, entry)
  byteCount : selection.byteCount = total ActionsVariable.bytes chosen
  within : total ActionsVariable.bytes chosen ≤ maxCombinedVariableBytes

variable {toUpperCase}

theorem Selection.Consistent.names {selection : Selection} {chosen : List ActionsVariable}
    (consistent : selection.Consistent toUpperCase chosen) :
    selection.selected.map Prod.fst = chosen.map (·.normalizedName toUpperCase) := by
  rw [consistent.selected, List.map_map]
  rfl

/-- A scope adds, of its new names, the longest start that fits. -/
theorem addSorted_eq {selection : Selection} {chosen : List ActionsVariable}
    (consistent : selection.Consistent toUpperCase chosen) (entries : List ActionsVariable) :
    (addSorted toUpperCase selection entries).Consistent toUpperCase
      (chosen ++ affordable ActionsVariable.bytes
        (maxCombinedVariableBytes - total ActionsVariable.bytes chosen)
        (fresh (·.normalizedName toUpperCase) (chosen.map (·.normalizedName toUpperCase))
          entries)) := by
  induction entries generalizing selection chosen with
  | nil =>
      rw [addSorted, fresh, affordable, List.append_nil]
      exact consistent
  | cons first entries inductionHypothesis =>
      rw [addSorted, consistent.names, consistent.byteCount, fresh]
      by_cases known :
          first.normalizedName toUpperCase ∈ chosen.map (·.normalizedName toUpperCase)
      · rw [if_pos known, if_pos known]
        exact inductionHypothesis consistent
      · rw [if_neg known, if_neg known, affordable]
        by_cases dear :
            total ActionsVariable.bytes chosen + first.bytes > maxCombinedVariableBytes
        · have within := consistent.within
          rw [if_pos dear, if_pos (by omega), List.append_nil]
          exact consistent
        · rw [if_neg dear, if_neg (by omega)]
          have larger : total ActionsVariable.bytes (chosen ++ [first]) =
              total ActionsVariable.bytes chosen + first.bytes := total_append _ chosen [first]
          have next : Selection.Consistent toUpperCase
              { selected := selection.selected ++ [(first.normalizedName toUpperCase, first)]
                byteCount := total ActionsVariable.bytes chosen + first.bytes }
              (chosen ++ [first]) := by
            constructor
            · simp [consistent.selected]
            · exact larger.symm
            · omega
          have after := inductionHypothesis next
          rw [larger, ← Nat.sub_sub, List.append_assoc, List.singleton_append] at after
          have names : ∀ name, name ∈ first.normalizedName toUpperCase ::
                chosen.map (·.normalizedName toUpperCase) ↔
              name ∈ (chosen ++ [first]).map (·.normalizedName toUpperCase) := by
            intro name
            simp [or_comm]
          rw [fresh_congr _ names]
          exact after

/-! ### Both scopes -/

variable (toUpperCase) (organization repository : List ActionsVariable)

/-- The variables of the repository that fit. -/
def keptVariables : List ActionsVariable :=
  affordable ActionsVariable.bytes maxCombinedVariableBytes (ordered toUpperCase repository)

/-- The variables of the organization whose name is not that of a kept one. -/
def remainingVariables : List ActionsVariable :=
  (ordered toUpperCase organization).filter fun entry =>
    entry.normalizedName toUpperCase ∉
      (keptVariables toUpperCase repository).map (·.normalizedName toUpperCase)

/-- The variables of the organization whose name is not one of the repository. -/
def unshadowedVariables : List ActionsVariable :=
  (ordered toUpperCase organization).filter fun entry =>
    entry.normalizedName toUpperCase ∉ repository.map (·.normalizedName toUpperCase)

def chosenVariables : List ActionsVariable :=
  keptVariables toUpperCase repository ++ affordable ActionsVariable.bytes
    (maxCombinedVariableBytes - total ActionsVariable.bytes (keptVariables toUpperCase repository))
    (remainingVariables toUpperCase organization repository)

/-- What a run should receive: at most 256 KiB, one variable of a name, of each scope the first
ones in the order of names, and of the organization none whose name the repository has. -/
structure VariablesChosen (result : List (String × String)) : Prop where
  size : (result.map fun entry => entry.1.utf8ByteSize + entry.2.utf8ByteSize).sum ≤
    maxCombinedVariableBytes
  once : (result.map fun entry => toUpperCase entry.1).Nodup
  scopes : ∃ own shared, result = (own ++ shared).map ActionsVariable.entry ∧
    own <+: ordered toUpperCase repository ∧
    shared <+: unshadowedVariables toUpperCase organization repository

theorem nodup_chosenVariables :
    ((chosenVariables toUpperCase organization repository).map
      (·.normalizedName toUpperCase)).Nodup := by
  have distinct : ∀ entries, ((ordered toUpperCase entries).map
      (·.normalizedName toUpperCase)).Nodup := fun entries => nodup_fresh _ [] _
  rw [chosenVariables, List.map_append, List.nodup_append]
  refine ⟨?_, ?_, ?_⟩
  · exact (distinct repository).sublist ((affordable_start _ _ _).sublist.map _)
  · refine (distinct organization).sublist (List.Sublist.map _ ?_)
    exact (affordable_start _ _ _).sublist.trans List.filter_sublist
  · intro name kept other remaining same
    obtain ⟨entry, member, rfl⟩ := List.mem_map.mp remaining
    have inside := (affordable_start _ _ _).subset member
    have new := (List.mem_filter.mp inside).2
    rw [decide_eq_true_eq] at new
    exact new (same ▸ kept)

/-- Entries of distinct names stay as they are. -/
theorem fromEntries_of_nodup {entries : List (String × String)}
    (distinct : (entries.map Prod.fst).Nodup) : fromEntries entries = entries := by
  have run : ∀ rest object : List (String × String),
      ((object ++ rest).map Prod.fst).Nodup →
      rest.foldl (fun object entry =>
        if entry.1 ∈ object.map Prod.fst then
          object.map fun old => if old.1 = entry.1 then entry else old
        else object ++ [entry]) object = object ++ rest := by
    intro rest
    induction rest with
    | nil => exact fun object _ => (List.append_nil object).symm
    | cons entry rest inductionHypothesis =>
        intro object distinct
        have new : entry.1 ∉ object.map Prod.fst := by
          rw [List.map_append, List.map_cons, List.nodup_append] at distinct
          exact fun old => distinct.2.2 _ old _ List.mem_cons_self rfl
        rw [List.foldl_cons, if_neg new, inductionHypothesis, List.append_assoc,
          List.singleton_append]
        rwa [List.append_assoc, List.singleton_append]
  exact run entries [] distinct

/-- The loop selects the chosen variables. -/
theorem selectActionsVariables_eq :
    selectActionsVariables toUpperCase organization repository =
      (chosenVariables toUpperCase organization repository).map ActionsVariable.entry := by
  have empty : Selection.Consistent toUpperCase {} [] := ⟨rfl, rfl, Nat.zero_le _⟩
  have first : (addLevel toUpperCase {} repository).Consistent toUpperCase
      (keptVariables toUpperCase repository) := addSorted_eq empty (toSorted toUpperCase repository)
  have chosen : (addLevel toUpperCase (addLevel toUpperCase {} repository) organization).Consistent
      toUpperCase (chosenVariables toUpperCase organization repository) := by
    have both := addSorted_eq first (toSorted toUpperCase organization)
    rw [fresh_eq_filter] at both
    exact both
  rw [selectActionsVariables, chosen.selected, List.map_map]
  refine fromEntries_of_nodup ?_
  -- Distinct normalized names have distinct names.
  have distinct := nodup_chosenVariables toUpperCase organization repository
  refine List.Nodup.of_map toUpperCase ?_
  rw [List.map_map, List.map_map]
  exact distinct

theorem total_chosenVariables_le :
    total ActionsVariable.bytes (chosenVariables toUpperCase organization repository) ≤
      maxCombinedVariableBytes := by
  have kept := affordable_total_le ActionsVariable.bytes maxCombinedVariableBytes
    (ordered toUpperCase repository)
  have more := affordable_total_le ActionsVariable.bytes
    (maxCombinedVariableBytes - total ActionsVariable.bytes (keptVariables toUpperCase repository))
    (remainingVariables toUpperCase organization repository)
  rw [← keptVariables] at kept
  rw [chosenVariables, total_append]
  omega

theorem filter_remainingVariables :
    (remainingVariables toUpperCase organization repository).filter (fun entry =>
      entry.normalizedName toUpperCase ∉ repository.map (·.normalizedName toUpperCase)) =
        unshadowedVariables toUpperCase organization repository := by
  rw [remainingVariables, List.filter_filter, unshadowedVariables]
  refine List.filter_congr fun entry _ => ?_
  rw [Bool.eq_iff_iff, Bool.and_eq_true, and_iff_left_iff_imp]
  simp only [decide_eq_true_eq]
  intro unshadowed kept
  obtain ⟨own, member, same⟩ := List.mem_map.mp kept
  have inside := (affordable_start _ _ _).subset member
  have given := (mem_of_mem_fresh inside).1
  rw [toSorted, List.mem_insertionSort] at given
  exact unshadowed (List.mem_map.mpr ⟨own, given, same⟩)

/-- A variable of the organization whose name the repository has must not fit. -/
theorem VariablesChosen.outgrown
    (chosen : VariablesChosen toUpperCase organization repository
      (selectActionsVariables toUpperCase organization repository))
    {entry : ActionsVariable}
    (member : entry ∈ remainingVariables toUpperCase organization repository)
    (shadowed : entry.normalizedName toUpperCase ∈
      repository.map (·.normalizedName toUpperCase)) :
    maxCombinedVariableBytes <
      total ActionsVariable.bytes (keptVariables toUpperCase repository) +
        reach ActionsVariable.bytes (remainingVariables toUpperCase organization repository)
          entry := by
  by_contra fits
  obtain ⟨_, _, own, shared, same, ownStart, sharedStart⟩ := chosen
  rw [selectActionsVariables_eq] at same
  have parts : chosenVariables toUpperCase organization repository = own ++ shared :=
    List.map_injective_iff.mpr ActionsVariable.entry_injective same
  have inside : entry ∈ own ++ shared := by
    rw [← parts]
    exact List.mem_append_right _ ((mem_affordable_iff ActionsVariable.bytes).mpr
      ⟨member, by omega⟩)
  rcases List.mem_append.mp inside with inOwn | inShared
  · have cheap := total_chosenVariables_le toUpperCase organization repository
    rw [parts, total_append] at cheap
    have cheapOwn : total ActionsVariable.bytes own ≤ maxCombinedVariableBytes := by omega
    have kept := (start_affordable ActionsVariable.bytes ownStart cheapOwn).subset inOwn
    have unkept := (List.mem_filter.mp member).2
    rw [decide_eq_true_eq] at unkept
    exact unkept (List.mem_map_of_mem kept)
  · have unshadowed := (List.mem_filter.mp (sharedStart.subset inShared)).2
    rw [decide_eq_true_eq] at unshadowed
    exact unshadowed shadowed

/-- The law holds if and only if no variable of the organization that has the name of one of
the repository past the limit still fits. -/
theorem variables_chosen_iff :
    VariablesChosen toUpperCase organization repository
        (selectActionsVariables toUpperCase organization repository) ↔
      ∀ entry ∈ remainingVariables toUpperCase organization repository,
        entry.normalizedName toUpperCase ∈ repository.map (·.normalizedName toUpperCase) →
          maxCombinedVariableBytes <
            total ActionsVariable.bytes (keptVariables toUpperCase repository) +
              reach ActionsVariable.bytes (remainingVariables toUpperCase organization repository)
                entry := by
  refine ⟨fun chosen entry member shadowed => chosen.outgrown toUpperCase organization repository
    member shadowed, fun outgrown => ?_⟩
  rw [selectActionsVariables_eq]
  refine ⟨?_, ?_, _, _, rfl, affordable_start _ _ _, ?_⟩
  · have cheap := total_chosenVariables_le toUpperCase organization repository
    have bytes : ActionsVariable.bytes = fun entry =>
        entry.name.utf8ByteSize + entry.value.utf8ByteSize :=
      funext fun entry => String.utf8ByteSize_append
    rw [total, bytes] at cheap
    rw [List.map_map]
    exact cheap
  · rw [List.map_map]
    exact nodup_chosenVariables toUpperCase organization repository
  · have unshadowed : ∀ entry ∈ affordable ActionsVariable.bytes (maxCombinedVariableBytes -
          total ActionsVariable.bytes (keptVariables toUpperCase repository))
          (remainingVariables toUpperCase organization repository),
        decide (entry.normalizedName toUpperCase ∉
          repository.map (·.normalizedName toUpperCase)) = true := by
      intro entry member
      rw [decide_eq_true_eq]
      intro shadowed
      obtain ⟨inside, cheap⟩ := (mem_affordable_iff ActionsVariable.bytes).mp member
      have excess := outgrown entry inside shadowed
      have kept := affordable_total_le ActionsVariable.bytes maxCombinedVariableBytes
        (ordered toUpperCase repository)
      rw [← keptVariables] at kept
      omega
    have start := (affordable_start ActionsVariable.bytes (maxCombinedVariableBytes -
          total ActionsVariable.bytes (keptVariables toUpperCase repository))
        (remainingVariables toUpperCase organization repository)).filter fun entry =>
      entry.normalizedName toUpperCase ∉ repository.map (·.normalizedName toUpperCase)
    rwa [List.filter_eq_self.mpr unshadowed, filter_remainingVariables] at start

end Names

namespace Sample

/-- `toUpperCase` on letters of ASCII -/
def upper (text : String) : String := String.ofList (text.toList.map Char.toUpper)

def repositoryVariables (value : String) : List ActionsVariable :=
  ["A", "B", "C", "D", "E", "F"].map fun name => { name := name, value := value }

def organizationVariable : ActionsVariable := { name := "f", value := "small" }

theorem ordered_repositoryVariables (value : String) :
    ordered upper (repositoryVariables value) = repositoryVariables value := by
  have inOrder : (repositoryVariables value).Pairwise fun left right =>
      compareVariableNames upper left right ≠ .gt := by
    rw [repositoryVariables, List.pairwise_map]
    change List.Pairwise (fun left right : String => compareVariableNames upper
      { name := left, value := "" } { name := right, value := "" } ≠ .gt) _
    decide
  have unchanged : ∀ name ∈ ["A", "B", "C", "D", "E", "F"], upper name = name := by
    decide
  rw [ordered, toSorted, inOrder.insertionSort_eq]
  simp only [List.mem_cons, List.not_mem_nil, or_false, forall_eq_or_imp, forall_eq] at unchanged
  simp [repositoryVariables, fresh, ActionsVariable.normalizedName, unchanged]

theorem bytes_repositoryVariables {value : String} (size : value.utf8ByteSize = 49136)
    {entry : ActionsVariable} (member : entry ∈ repositoryVariables value) :
    entry.bytes = 49137 := by
  obtain ⟨name, inside, rfl⟩ := List.mem_map.mp member
  have letter : ∀ name ∈ ["A", "B", "C", "D", "E", "F"], name.utf8ByteSize = 1 := by decide
  rw [ActionsVariable.bytes, String.utf8ByteSize_append, letter name inside, size]

/-- Values of almost 48 KiB: five fit. -/
theorem keptVariables_repositoryVariables {value : String}
    (size : value.utf8ByteSize = 49136) :
    keptVariables upper (repositoryVariables value) = (repositoryVariables value).take 5 := by
  have bytes : ∀ entry ∈ repositoryVariables value, entry.bytes = 49137 :=
    fun entry member => bytes_repositoryVariables size member
  rw [keptVariables, ordered_repositoryVariables]
  simp only [repositoryVariables, List.map_cons, List.map_nil, List.mem_cons, List.not_mem_nil,
    or_false, forall_eq_or_imp, forall_eq] at bytes ⊢
  simp [affordable, maxCombinedVariableBytes, bytes]

theorem exists_value (count : Nat) : ∃ value : String, value.utf8ByteSize = count := by
  induction count with
  | zero => exact ⟨"", rfl⟩
  | succ count inductionHypothesis =>
      obtain ⟨value, size⟩ := inductionHypothesis
      refine ⟨value ++ "x", ?_⟩
      rw [String.utf8ByteSize_append, size]
      rfl

/-- The sixth variable of the repository is cut off and that of the organization takes its
place. -/
theorem organization_value_for_repository_name :
    ¬ ∀ organization repository : List ActionsVariable,
      VariablesChosen upper organization repository
        (selectActionsVariables upper organization repository) := by
  intro law
  obtain ⟨value, size⟩ := exists_value 49136
  have kept := keptVariables_repositoryVariables size
  have remaining : remainingVariables upper [organizationVariable] (repositoryVariables value) =
      [organizationVariable] := by
    have inOrder : ordered upper [organizationVariable] = [organizationVariable] := rfl
    have unkept : organizationVariable.normalizedName upper ∉
        ((repositoryVariables value).take 5).map (·.normalizedName upper) := by
      change _ ∉ ["A", "B", "C", "D", "E"].map upper
      decide
    rw [remainingVariables, kept, inOrder, List.filter_cons_of_pos (by simpa using unkept),
      List.filter_nil]
  have shadowed : organizationVariable.normalizedName upper ∈
      (repositoryVariables value).map (·.normalizedName upper) := by
    rw [repositoryVariables, List.map_map]
    change _ ∈ ["A", "B", "C", "D", "E", "F"].map upper
    decide
  have member : organizationVariable ∈
      remainingVariables upper [organizationVariable] (repositoryVariables value) := by
    rw [remaining]
    exact List.mem_cons_self
  have excess := (law [organizationVariable] (repositoryVariables value)).outgrown upper _ _
    member shadowed
  rw [remaining, kept] at excess
  have five : total ActionsVariable.bytes ((repositoryVariables value).take 5) = 5 * 49137 := by
    have same : ((repositoryVariables value).take 5).map ActionsVariable.bytes =
        ((repositoryVariables value).take 5).map fun _ => 49137 :=
      List.map_congr_left fun entry member =>
        bytes_repositoryVariables size (List.mem_of_mem_take member)
    rw [total, same, List.map_const', List.sum_replicate_nat]
    rfl
  have six : reach ActionsVariable.bytes [organizationVariable] organizationVariable = 6 := by
    decide
  rw [five, six, maxCombinedVariableBytes] at excess
  omega

end Sample

end GitZero.ControlPlane
