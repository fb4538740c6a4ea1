/-
Module: GitZero.Proofs.MatrixExpansion
Purpose: Which combinations a matrix definition stands for, in which order and how often.
Trusted boundary: none
Main exports: choices, Extends, Agrees, Declares, product, startingCombinations, Augments,
  expandMatrixDefinition_result, includes_without_dimension
-/
import GitZero.Lib.OrderedMaps
import GitZero.Proofs.PlanIdentity
import GitZero.Workflow.Returns

namespace GitZero.Workflows

open Outcomes OrderedMaps

section Serde

variable [Serde]

/-! ### What a definition says -/

/-- One value for every dimension; the last dimension varies fastest. -/
def choices : List (String × List Json) → List (List (String × Json))
  | [] => [[]]
  | dimension :: rest =>
      dimension.2.flatMap fun value =>
        (choices rest).map fun choice => (dimension.1, value) :: choice

/-- The combination has all entries of the object. -/
def Extends (combination object : BTreeMap Json) : Prop :=
  ∀ (key : String) value, object[key]? = some value → combination[key]? = some value

/-- No key of the object has another value in the combination. -/
def Agrees (combination object : BTreeMap Json) : Prop :=
  ∀ (key : String) value given,
    object[key]? = some value → combination[key]? = some given → given = value

/-- The key of the entry is the given text. -/
def Named (name : String) (entry : Value × Value) : Prop := entry.1.asStr = some name

instance (name : String) : DecidablePred (Named name) :=
  fun entry => inferInstanceAs (Decidable (entry.1.asStr = some name))

/-- A list of objects of a matrix is its last entry with that name. -/
structure ListsObjects (workflow jobId name : String) (entries : List (Value × Value))
    (objects : List (BTreeMap Json)) : Prop where
  given : ∀ entry, (entries.filter fun entry => Named name entry).getLast? = some entry →
    matrixObjects workflow jobId name entry.2 = .ok objects
  absent : (entries.filter fun entry => Named name entry).getLast? = none → objects = []

/-- The entries of a matrix mapping declare these dimensions, excludes and includes. -/
structure Declares (workflow jobId : String) (entries : List (Value × Value))
    (definition : MatrixDefinition) : Prop where
  dimensions : List.Forall₂
    (fun entry dimension => Named dimension.1 entry ∧
      matrixDimension workflow jobId dimension.1 entry.2 = .ok dimension.2)
    (entries.filter fun entry => ¬ Named "include" entry ∧ ¬ Named "exclude" entry)
    definition.dimensions
  includes : ListsObjects workflow jobId "include" entries definition.includes
  excludes : ListsObjects workflow jobId "exclude" entries definition.excludes

theorem matrixObjectMatches_iff {combination object : BTreeMap Json} :
    matrixObjectMatches combination object = true ↔ Extends combination object := by
  simp [matrixObjectMatches, Extends, Std.ExtTreeMap.mem_toList_iff_getElem?_eq_some]

theorem includeCompatible_iff {combination object : BTreeMap Json} :
    includeCompatible combination object = true ↔ Agrees combination object := by
  simp only [includeCompatible, List.all_eq_true, Prod.forall,
    Std.ExtTreeMap.mem_toList_iff_getElem?_eq_some, Agrees]
  constructor
  · intro compatible key value given found present
    simpa [present] using compatible key value found
  · intro agrees key value found
    cases present : combination[key]? with
    | none => rfl
    | some given => simpa using agrees key value given found present

instance (combination object : BTreeMap Json) : Decidable (Extends combination object) :=
  decidable_of_iff _ matrixObjectMatches_iff

instance (combination object : BTreeMap Json) : Decidable (Agrees combination object) :=
  decidable_of_iff _ includeCompatible_iff

/-- The Cartesian product of the dimensions without the excluded combinations. -/
def product (definition : MatrixDefinition) : List (BTreeMap Json) :=
  ((choices definition.dimensions).map fun choice => .ofList choice).filter fun combination =>
    ¬ ∃ object ∈ definition.excludes, Extends combination object

/-- Without dimensions a matrix consists of its includes. -/
def startingCombinations (definition : MatrixDefinition) : List (BTreeMap Json) :=
  if definition.dimensions = [] ∧ definition.includes ≠ [] then [] else product definition

/-- The original values stay, and every other key has its value from the last include
that agrees with the original combination and has the key. -/
structure Augments (includes : List (BTreeMap Json)) (original augmented : BTreeMap Json) :
    Prop where
  kept : ∀ (key : String) value, original[key]? = some value → augmented[key]? = some value
  added : ∀ key : String, original[key]? = none → augmented[key]? =
    ((includes.filter fun object => Agrees original object).filterMap (·[key]?)).getLast?

/-- The combinations that `starting`, extended by the includes, and the other includes
make up. -/
structure Expansion (starting includes result : List (BTreeMap Json)) : Prop where
  split : ∃ augmented, List.Forall₂ (Augments includes) starting augmented ∧
    result = augmented ++
      includes.filter fun object => ∀ combination ∈ starting, ¬ Agrees combination object
  bound : result.length ≤ 256

/-! ### Reading the mapping -/

theorem ListsObjects.absent_append {workflow jobId name : String} {entries : List (Value × Value)}
    {objects : List (BTreeMap Json)} (lists : ListsObjects workflow jobId name entries objects)
    {entry : Value × Value} (other : ¬ Named name entry) :
    ListsObjects workflow jobId name (entries ++ [entry]) objects := by
  have same : (entries ++ [entry]).filter (fun entry => Named name entry) =
      entries.filter fun entry => Named name entry := by
    simp [List.filter_append, other]
  exact ⟨by rw [same]; exact lists.given, by rw [same]; exact lists.absent⟩

theorem ListsObjects.given_append {workflow jobId name : String} {entries : List (Value × Value)}
    {objects : List (BTreeMap Json)} {entry : Value × Value} (named : Named name entry)
    (read : matrixObjects workflow jobId name entry.2 = .ok objects) :
    ListsObjects workflow jobId name (entries ++ [entry]) objects := by
  have last : ((entries ++ [entry]).filter fun entry => Named name entry).getLast? =
      some entry := by
    simp [List.filter_append, named]
  constructor
  · intro other found
    rw [last] at found
    cases found
    exact read
  · intro none
    rw [last] at none
    cases none

theorem declares_nil (workflow jobId : String) : Declares workflow jobId [] {} where
  dimensions := .nil
  includes := ⟨by simp, fun _ => rfl⟩
  excludes := ⟨by simp, fun _ => rfl⟩

/-- One entry of the mapping is a list of objects or the next dimension. -/
theorem Declares.append {workflow jobId : String} {entries : List (Value × Value)}
    {entry : Value × Value} {definition next : MatrixDefinition}
    (declares : Declares workflow jobId entries definition)
    (read : readMatrixKey workflow jobId definition entry = .ok next) :
    Declares workflow jobId (entries ++ [entry]) next := by
  obtain ⟨key, value⟩ := entry
  unfold readMatrixKey at read
  dsimp only at read
  split at read
  · cases read
  · rename_i named
    obtain ⟨objects, listed, same⟩ := bind_eq_ok.mp read
    cases same
    have other : ¬ Named "exclude" (key, value) := by simp [Named, named]
    have skipped : (entries ++ [(key, value)]).filter
        (fun entry => ¬ Named "include" entry ∧ ¬ Named "exclude" entry) =
        entries.filter fun entry => ¬ Named "include" entry ∧ ¬ Named "exclude" entry := by
      simp [List.filter_append, Named, named]
    exact ⟨skipped ▸ declares.dimensions, .given_append named listed,
      declares.excludes.absent_append other⟩
  · rename_i named
    obtain ⟨objects, listed, same⟩ := bind_eq_ok.mp read
    cases same
    have other : ¬ Named "include" (key, value) := by simp [Named, named]
    have skipped : (entries ++ [(key, value)]).filter
        (fun entry => ¬ Named "include" entry ∧ ¬ Named "exclude" entry) =
        entries.filter fun entry => ¬ Named "include" entry ∧ ¬ Named "exclude" entry := by
      simp [List.filter_append, Named, named]
    exact ⟨skipped ▸ declares.dimensions, declares.includes.absent_append other,
      .given_append named listed⟩
  · rename_i dimension notInclude notExclude named
    obtain ⟨values, listed, same⟩ := bind_eq_ok.mp read
    cases same
    have neither : ¬ Named "include" (key, value) ∧ ¬ Named "exclude" (key, value) := by
      simp only [Named, named]
      exact ⟨fun same => notInclude (Option.some.inj same),
        fun same => notExclude (Option.some.inj same)⟩
    refine ⟨?_, declares.includes.absent_append neither.1,
      declares.excludes.absent_append neither.2⟩
    have taken : (entries ++ [(key, value)]).filter
        (fun entry => ¬ Named "include" entry ∧ ¬ Named "exclude" entry) =
        (entries.filter fun entry => ¬ Named "include" entry ∧ ¬ Named "exclude" entry) ++
          [(key, value)] := by
      rw [List.filter_append, List.filter_singleton]
      simp [neither]
    rw [taken]
    exact List.rel_append declares.dimensions (.cons ⟨named, listed⟩ .nil)

theorem declares_of_read {workflow jobId : String} {entries : List (Value × Value)}
    {definition : MatrixDefinition}
    (read : entries.foldlM (readMatrixKey workflow jobId) {} = .ok definition) :
    Declares workflow jobId entries definition := by
  induction entries using List.reverseRecOn generalizing definition with
  | nil =>
      cases pure_eq_ok.mp read
      exact declares_nil workflow jobId
  | append_singleton entries entry inductionHypothesis =>
      obtain ⟨middle, earlier, last⟩ := foldlM_append_eq_ok.mp read
      obtain ⟨next, ran, done⟩ := foldlM_cons_eq_ok.mp last
      cases pure_eq_ok.mp done
      exact (inductionHypothesis earlier).append ran

/-! ### The product -/

omit [Serde] in
theorem matrixLimit_bound {α : Type} {workflow jobId : String} {combinations limited : List α}
    (ran : matrixLimit workflow jobId combinations = .ok limited) : limited.length ≤ 256 := by
  unfold matrixLimit at ran
  split at ran
  · cases ran
  · rename_i few
    cases ran
    exact Nat.le_of_not_gt few

omit [Serde] in
/-- A loop whose rounds all end within the limit keeps to it. -/
theorem foldlM_limited {α β : Type} {run : List α → β → Outcome (List α)} {items : List β}
    {start stop : List α}
    (limited : ∀ combinations item next, run combinations item = .ok next → next.length ≤ 256)
    (few : start.length ≤ 256) (ran : items.foldlM run start = .ok stop) : stop.length ≤ 256 := by
  induction items generalizing start with
  | nil =>
      cases pure_eq_ok.mp ran
      exact few
  | cons item rest inductionHypothesis =>
      obtain ⟨middle, first, later⟩ := foldlM_cons_eq_ok.mp ran
      exact inductionHypothesis (limited _ _ _ first) later

theorem multiplyDimensions_eq {workflow jobId : String} {dimensions : List (String × List Json)}
    {start stop : List (BTreeMap Json)}
    (ran : dimensions.foldlM (multiplyDimension workflow jobId) start = .ok stop) :
    stop = start.flatMap fun combination =>
      (choices dimensions).map fun choice => combination.insertMany choice := by
  induction dimensions generalizing start with
  | nil =>
      cases pure_eq_ok.mp ran
      simp [choices]
  | cons dimension rest inductionHypothesis =>
      obtain ⟨middle, first, later⟩ := foldlM_cons_eq_ok.mp ran
      rw [inductionHypothesis later, matrixLimit_ok workflow jobId first]
      simp only [choices, List.flatMap_assoc, List.flatMap_map, List.map_flatMap, List.map_map]
      refine List.flatMap_congr fun combination _ => List.flatMap_congr fun value _ => ?_
      refine List.map_congr_left fun choice _ => ?_
      exact Std.ExtTreeMap.insertMany_cons.symm

/-! ### The includes -/

/-- A combination extended by the includes that agree with it, one after the other. -/
def augment (includes : List (BTreeMap Json)) (original : BTreeMap Json) : BTreeMap Json :=
  (includes.filter fun object => Agrees original object).foldl extend original

theorem getElem?_extend (map other : BTreeMap Json) (key : String) :
    (extend map other)[key]? = (other[key]?).or map[key]? := by
  have same : extend map other = map.insertMany other.toList := by
    unfold extend
    generalize other.toList = entries
    induction entries generalizing map with
    | nil => simp
    | cons entry rest inductionHypothesis =>
        obtain ⟨name, value⟩ := entry
        rw [List.foldl_cons, inductionHypothesis, Std.ExtTreeMap.insertMany_cons]
  rw [same, getElem?_insertMany_toList]

theorem getElem?_foldl_extend (objects : List (BTreeMap Json)) (map : BTreeMap Json)
    (key : String) :
    (objects.foldl extend map)[key]? =
      ((objects.filterMap (·[key]?)).getLast?).or map[key]? := by
  induction objects using List.reverseRecOn with
  | nil => simp
  | append_singleton objects object inductionHypothesis =>
      rw [List.foldl_append, List.foldl_cons, List.foldl_nil, getElem?_extend,
        inductionHypothesis, List.filterMap_append]
      cases found : object[key]? with
      | none => simp [found]
      | some value => simp [found]

theorem augments_augment (includes : List (BTreeMap Json)) (original : BTreeMap Json) :
    Augments includes original (augment includes original) := by
  constructor
  · intro key value present
    rw [augment, getElem?_foldl_extend]
    cases last : (((includes.filter fun object => Agrees original object).filterMap
        (·[key]?)).getLast?) with
    | none => exact present
    | some other =>
        obtain ⟨object, member, found⟩ := List.mem_filterMap.mp (List.mem_of_getLast? last)
        have agrees : Agrees original object := by
          simpa using (List.mem_filter.mp member).2
        rw [Option.some_or, agrees key other value found present]
  · intro key none
    rw [augment, getElem?_foldl_extend, none, Option.or_none]

/-- The inner loop of an include: from position `done.length` on, the flagged
combinations are extended. -/
theorem extendFlagged (object : BTreeMap Json) (flags : List Bool)
    (done front rest : List (BTreeMap Json)) (length : flags.length = front.length) :
    (flags.zipIdx done.length).foldlM
      (fun combinations entry =>
        if entry.1 then do
          let combination ← expect "index out of bounds" combinations[entry.2]?
          return combinations.set entry.2 (extend combination object)
        else return combinations) (done ++ front ++ rest) =
      (.ok (done ++ List.zipWith
        (fun flag combination => if flag then extend combination object else combination)
        flags front ++ rest) : Outcome _) := by
  induction flags generalizing done front with
  | nil =>
      cases front with
      | nil => rfl
      | cons => cases length
  | cons flag flags inductionHypothesis =>
      cases front with
      | nil => cases length
      | cons combination front =>
          have later := fun (next : BTreeMap Json) =>
            inductionHypothesis (done ++ [next]) front (Nat.succ.inj length)
          simp only [List.length_append, List.length_singleton, List.append_assoc,
            List.singleton_append] at later
          rw [List.zipIdx_cons, foldlM_cons_eq_ok]
          cases flag with
          | false =>
              refine ⟨done ++ combination :: front ++ rest, rfl, ?_⟩
              simpa using later combination
          | true =>
              refine ⟨done ++ extend combination object :: front ++ rest, ?_, ?_⟩
              · simp [expect, bind, Except.bind, pure, Except.pure]
              · simpa using later (extend combination object)

theorem applyInclude_eq {workflow jobId : String} {original alone next : List (BTreeMap Json)}
    {current : BTreeMap Json → BTreeMap Json} {object : BTreeMap Json}
    (ran : applyInclude workflow jobId original (original.map current ++ alone) object = .ok next) :
    next = (original.map fun combination =>
        if Agrees combination object then extend (current combination) object
        else current combination) ++
      (alone ++ if ∀ combination ∈ original, ¬ Agrees combination object then [object]
        else []) := by
  have flagged := extendFlagged object
    (original.map fun combination => includeCompatible combination object) []
    (original.map current) alone (by simp)
  simp only [List.nil_append, List.length_nil] at flagged
  have zipped : List.zipWith
      (fun flag combination => if flag then extend combination object else combination)
      (original.map fun combination => includeCompatible combination object)
      (original.map current) =
      original.map fun combination =>
        if Agrees combination object then extend (current combination) object
        else current combination := by
    rw [List.zipWith_map, List.zipWith_self]
    refine List.map_congr_left fun combination _ => ?_
    by_cases agrees : Agrees combination object
    · rw [includeCompatible_iff.mpr agrees, if_pos rfl, if_pos agrees]
    · rw [Bool.not_eq_true _ |>.mp (mt includeCompatible_iff.mp agrees), if_neg agrees]
      rfl
  rw [zipped] at flagged
  unfold applyInclude at ran
  dsimp only at ran
  erw [flagged] at ran
  have result := matrixLimit_ok workflow jobId ran
  rw [result]
  by_cases none : ∀ combination ∈ original, ¬ Agrees combination object
  · have unflagged : (original.map fun combination =>
        includeCompatible combination object).contains true = false := by
      simpa [includeCompatible_iff] using none
    have kept : (original.map fun combination =>
        if Agrees combination object then extend (current combination) object
        else current combination) = original.map current :=
      List.map_congr_left fun combination member => if_neg (none combination member)
    rw [unflagged, if_pos none, kept]
    simp
  · have flag : (original.map fun combination =>
        includeCompatible combination object).contains true = true := by
      simpa [includeCompatible_iff] using none
    rw [flag, if_neg none]
    simp

theorem applyIncludes_eq {workflow jobId : String} {original includes result : List (BTreeMap Json)}
    (ran : includes.foldlM (applyInclude workflow jobId original) original = .ok result) :
    result = original.map (augment includes) ++
      includes.filter fun object => ∀ combination ∈ original, ¬ Agrees combination object := by
  induction includes using List.reverseRecOn generalizing result with
  | nil =>
      cases pure_eq_ok.mp ran
      have same : augment [] = id := funext fun _ => rfl
      simp [same]
  | append_singleton includes object inductionHypothesis =>
      obtain ⟨middle, earlier, last⟩ := foldlM_append_eq_ok.mp ran
      obtain ⟨next, applied, done⟩ := foldlM_cons_eq_ok.mp last
      cases pure_eq_ok.mp done
      rw [inductionHypothesis earlier] at applied
      rw [applyInclude_eq applied, List.filter_append, List.filter_singleton]
      congr 1
      · refine List.map_congr_left fun combination _ => ?_
        by_cases agrees : Agrees combination object
        · simp [augment, List.filter_append, agrees]
        · simp [augment, List.filter_append, agrees]
      · simp

/-! ### The definition -/

theorem choices_nil_product {definition : MatrixDefinition} (none : definition.dimensions = []) :
    (choices definition.dimensions).map (fun choice => .ofList choice) =
      ([∅] : List (BTreeMap Json)) := by
  rw [none, choices, List.map_singleton, Std.ExtTreeMap.ofList_nil]

/-- A matrix that expands is the product of its dimensions without the excluded
combinations, each extended by the includes that agree with it, and then the includes
that agree with no combination; a matrix of includes alone starts from no combination. -/
theorem expandMatrixDefinition_result {workflow jobId : String} {matrix : Value}
    {result : List (BTreeMap Json)}
    (expanded : expandMatrixDefinition workflow jobId matrix = .ok result) :
    ∃ entries definition, matrix = .mapping entries ∧
      Declares workflow jobId entries definition ∧
      Expansion (startingCombinations definition) definition.includes result := by
  unfold expandMatrixDefinition at expanded
  split at expanded
  · rename_i entries
    obtain ⟨definition, read, rest⟩ := bind_eq_ok.mp expanded
    obtain ⟨all, multiplied, included⟩ := bind_eq_ok.mp rest
    refine ⟨entries, definition, rfl, declares_of_read read, ?_⟩
    have starting : (all.filter fun combination =>
        !definition.excludes.any (matrixObjectMatches combination)) =
        startingCombinations definition := by
      rw [multiplyDimensions_eq multiplied]
      have excluded : (fun combination =>
          !definition.excludes.any (matrixObjectMatches combination)) =
          fun combination => decide (¬ ∃ object ∈ definition.excludes,
            Extends combination object) := by
        funext combination
        rw [Bool.eq_iff_iff]
        simp [← matrixObjectMatches_iff]
      rw [excluded]
      unfold startingCombinations product
      by_cases alone : definition.dimensions = [] ∧ definition.includes ≠ []
      · rw [if_pos alone]
        simp [alone.1, alone.2]
      · have some : (definition.dimensions.isEmpty && !definition.includes.isEmpty) = false := by
          simpa using alone
        rw [if_neg alone, some]
        simp [Std.ExtTreeMap.ofList_eq_insertMany_empty]
    have few : all.length ≤ 256 := by
      refine foldlM_limited (fun combinations dimension next ran => matrixLimit_bound ran) ?_
        multiplied
      split <;> simp
    have limited : result.length ≤ 256 := by
      refine foldlM_limited (fun combinations object next ran => ?_) ?_ included
      · obtain ⟨augmented, _, limited⟩ := bind_eq_ok.mp ran
        exact matrixLimit_bound limited
      · exact Nat.le_trans (List.length_filter_le _ _) few
    rw [← starting]
    refine ⟨⟨_, ?_, applyIncludes_eq included⟩, limited⟩
    rw [List.forall₂_map_right_iff]
    exact List.forall₂_same.mpr fun combination _ => augments_augment _ _
  · cases expanded

end Serde

/-! ### Two matrices -/

namespace Sample

/-- One of four combinations is excluded, one include agrees with two of the others, and one
with none. -/
def crossedSystems : List (Value × Value) :=
  [(.string "system", .sequence [.string "linux", .string "macos"]),
    (.string "size", .sequence [.string "small", .string "large"]),
    (.string "exclude", .sequence
      [.mapping [(.string "system", .string "macos"), (.string "size", .string "small")]]),
    (.string "include", .sequence
      [.mapping [(.string "system", .string "linux"), (.string "label", .string "fast")],
        .mapping [(.string "system", .string "windows")]])]

theorem crossedSystems_expand : ∃ result,
    expandMatrixDefinition "ci" "build" (.mapping crossedSystems) = .ok result ∧
      result.map (fun combination => (combination["system"]?, combination["label"]?)) =
        [(some "linux", some "fast"), (some "linux", some "fast"), (some "macos", none),
          (some "windows", none)] ∧
      ∃ entries definition, Value.mapping crossedSystems = .mapping entries ∧
        Declares "ci" "build" entries definition ∧
        Expansion (startingCombinations definition) definition.includes result := by
  have computed : ((expandMatrixDefinition "ci" "build" (.mapping crossedSystems)).toOption.map
      (List.map fun combination => (combination["system"]?, combination["label"]?))) =
        some [(some "linux", some "fast"), (some "linux", some "fast"), (some "macos", none),
          (some "windows", none)] := by
    decide
  obtain ⟨result, ran, labels⟩ := Option.map_eq_some_iff.mp computed
  cases outcome : expandMatrixDefinition "ci" "build" (.mapping crossedSystems) with
  | error => simp [outcome, Except.toOption] at ran
  | ok value =>
      rw [outcome] at ran
      cases ran
      exact ⟨result, rfl, labels, expandMatrixDefinition_result outcome⟩

/-- Two systems, and no dimension. -/
def includedSystems : List (Value × Value) :=
  [(.string "include", .sequence
    [.mapping [(.string "system", .string "macos")],
      .mapping [(.string "system", .string "linux")]])]

theorem includedSystems_two : ∃ result,
    expandMatrixDefinition "ci" "build" (.mapping includedSystems) = .ok result ∧
      result.length = 2 := by
  have computed : ((expandMatrixDefinition "ci" "build" (.mapping includedSystems)).toOption.map
      List.length) = some 2 := by
    decide
  obtain ⟨result, ran, length⟩ := Option.map_eq_some_iff.mp computed
  refine ⟨result, ?_, length⟩
  cases outcome : expandMatrixDefinition "ci" "build" (.mapping includedSystems) with
  | error => simp [outcome, Except.toOption] at ran
  | ok value => simpa [outcome, Except.toOption] using ran

/-- Read as the product of no dimensions, the one empty combination, the two includes
would make one job. -/
theorem includes_without_dimension : ∃ result,
    expandMatrixDefinition "ci" "build" (.mapping includedSystems) = .ok result ∧
      ∀ definition, Declares "ci" "build" includedSystems definition →
        ¬ Expansion (product definition) definition.includes result := by
  obtain ⟨result, expanded, length⟩ := includedSystems_two
  refine ⟨result, expanded, fun definition declares expansion => ?_⟩
  have noDimension : definition.dimensions = [] := List.forall₂_nil_left_iff.mp declares.dimensions
  have noExclude : definition.excludes = [] := declares.excludes.absent rfl
  have empty : product definition = [∅] := by
    unfold product
    rw [choices_nil_product noDimension]
    simp [noExclude]
  obtain ⟨augmented, pairs, same⟩ := expansion.split
  rw [empty] at pairs same
  have agreeing : definition.includes.filter (fun object =>
      ∀ combination ∈ ([∅] : List (BTreeMap Json)), ¬ Agrees combination object) = [] := by
    rw [List.filter_eq_nil_iff]
    intro object _
    simp [Agrees]
  rw [agreeing, List.append_nil] at same
  rw [same, ← pairs.length_eq] at length
  cases length

end Sample

end GitZero.Workflows
