/-
Module: GitZero.Proofs.DeferredEnvironment
Purpose: When the merge of a background step into the environment of its job gives what the
  exports of the step would have given there.
Trusted boundary: none
Main exports: ExplainedBy, PathReconstructs, Reconstructs, merge_replays_iff
-/
import GitZero.Proofs.EnvironmentVisibility

namespace GitZero.Agent

open Std Workflows OrderedMaps

/-! ### Paths as lists -/

def joinPath (entries : List String) : String := ":".intercalate entries

/-- No colon, which would divide an entry. -/
def PathEntries (entries : List String) : Prop := ∀ entry ∈ entries, ':' ∉ entry.toList

theorem toList_joinPath (entries : List String) :
    (joinPath entries).toList = [':'].intercalate (entries.map String.toList) :=
  String.toList_intercalate

theorem splitOn_joinPath {entries : List String} (isPath : PathEntries entries)
    (nonempty : entries ≠ []) :
    (joinPath entries).toList.splitOn ':' = entries.map String.toList := by
  rw [toList_joinPath]
  refine List.splitOn_intercalate ':' ?_ (by simpa using nonempty)
  intro text member
  obtain ⟨entry, isEntry, same⟩ := List.mem_map.mp member
  rw [← same]
  exact isPath entry isEntry

theorem joinPath_inj {one two : List String} (first : PathEntries one) (second : PathEntries two)
    (some : one ≠ []) (other : two ≠ []) : joinPath one = joinPath two ↔ one = two := by
  refine ⟨fun same => ?_, congrArg joinPath⟩
  have split := splitOn_joinPath first some
  rw [same, splitOn_joinPath second other] at split
  exact ((List.map_inj_right fun _ _ => String.toList_inj.mp).mp split).symm

theorem not_mem_of_mem_splitOn {separator : Char} {text piece : List Char}
    (member : piece ∈ text.splitOn separator) : separator ∉ piece := by
  induction text generalizing piece with
  | nil =>
      rw [List.splitOn_nil, List.mem_singleton] at member
      rw [member]
      exact List.not_mem_nil
  | cons char text inductionHypothesis =>
      rw [List.splitOn_cons_eq_if_modifyHead] at member
      split at member
      · rcases List.mem_cons.mp member with empty | later
        · rw [empty]
          exact List.not_mem_nil
        · exact inductionHypothesis later
      · rename_i other
        cases pieces : text.splitOn separator with
        | nil => exact absurd pieces (List.splitOn_ne_nil _ _)
        | cons first others =>
            rw [pieces, List.modifyHead_cons] at member
            rw [pieces] at inductionHypothesis
            rcases List.mem_cons.mp member with isFirst | later
            · rw [isFirst, List.mem_cons, not_or]
              exact ⟨fun same => other (beq_iff_eq.mpr same.symm),
                inductionHypothesis List.mem_cons_self⟩
            · exact inductionHypothesis (List.mem_cons_of_mem _ later)

theorem pathEntries_splitPath (path : String) : PathEntries (splitPath path) := by
  intro entry member
  rw [splitPath] at member
  split at member
  · cases member
  · obtain ⟨piece, isPiece, same⟩ := List.mem_map.mp member
    rw [← same, String.toList_ofList]
    exact not_mem_of_mem_splitOn isPiece

theorem PathEntries.filter {entries : List String} (isPath : PathEntries entries)
    (keep : String → Bool) : PathEntries (entries.filter keep) :=
  fun entry member => isPath entry (List.mem_filter.mp member).1

theorem joinPath_splitPath (path : String) : joinPath (splitPath path) = path := by
  rw [← String.toList_inj, toList_joinPath, splitPath]
  split
  · rename_i empty
    rw [String.isEmpty_iff.mp empty]
    rfl
  · have back : String.toList ∘ String.ofList = id := funext fun _ => String.toList_ofList
    rw [List.map_map, back, List.map_id, List.intercalate_splitOn]

theorem splitPath_ne_nil {path : String} (some : path ≠ "") : splitPath path ≠ [] := by
  intro empty
  have joined := joinPath_splitPath path
  rw [empty] at joined
  exact some joined.symm

theorem joinPath_append {front rest : List String} (some : front ≠ []) (nonempty : rest ≠ []) :
    joinPath (front ++ rest) = joinPath front ++ ":" ++ joinPath rest :=
  String.intercalate_append_of_ne_nil some nonempty

/-- Behind the same nonempty front, different entries give different paths. -/
theorem joinPath_append_inj {front one two : List String} (some : front ≠ [])
    (first : PathEntries one) (second : PathEntries two) :
    joinPath (front ++ one) = joinPath (front ++ two) ↔ one = two := by
  have changed {rest : List String} (nonempty : rest ≠ []) :
      joinPath (front ++ rest) ≠ joinPath front := by
    intro same
    have length := congrArg String.length same
    rw [joinPath_append some nonempty, String.length_append, String.length_append] at length
    have colon : ":".length = 1 := rfl
    omega
  refine ⟨fun same => ?_, fun same => by rw [same]⟩
  by_cases empty : one = []
  · by_cases other : two = []
    · rw [empty, other]
    · rw [empty, List.append_nil] at same
      exact absurd same.symm (changed other)
  · by_cases other : two = []
    · rw [other, List.append_nil] at same
      exact absurd same (changed empty)
    · rw [joinPath_append some empty, joinPath_append some other] at same
      exact (joinPath_inj first second empty other).mp (String.append_right_inj _ |>.mp same)

/-! ### Additions -/

/-- What the additions of a path file make of a path. -/
def moveToFront (additions entries : List String) : List String :=
  additions.foldl (fun entries addition => addition :: entries.filter (· ≠ addition)) entries

/-- The additions, the last one first and each of them once. -/
def latest (additions : List String) : List String := moveToFront additions []

def without (front entries : List String) : List String :=
  entries.filter fun entry => !front.contains entry

theorem moveToFront_eq (additions entries : List String) :
    moveToFront additions entries = latest additions ++ without (latest additions) entries := by
  induction additions using List.reverseRecOn with
  | nil => exact (List.filter_eq_self.mpr fun entry _ => rfl).symm
  | append_singleton additions addition inductionHypothesis =>
      have last (entries : List String) : moveToFront (additions ++ [addition]) entries =
          addition :: (moveToFront additions entries).filter (· ≠ addition) := by
        rw [moveToFront, List.foldl_append]
        rfl
      rw [latest, last, last, inductionHypothesis, List.filter_append, List.cons_append]
      congr 2
      rw [without, without, List.filter_filter]
      refine List.filter_congr fun entry _ => ?_
      by_cases same : entry = addition
      · simp [same]
      · simp [same, latest]

theorem latest_ne_nil {additions : List String} (some : additions ≠ []) :
    latest additions ≠ [] := by
  obtain ⟨before, last, same⟩ := List.eq_nil_or_concat additions |>.resolve_left some
  rw [latest, same, List.concat_eq_append, moveToFront, List.foldl_append]
  exact List.cons_ne_nil _ _

theorem mem_latest {additions : List String} {entry : String} :
    entry ∈ latest additions ↔ entry ∈ additions := by
  induction additions using List.reverseRecOn with
  | nil => exact Iff.rfl
  | append_singleton additions addition inductionHypothesis =>
      have last : latest (additions ++ [addition]) =
          addition :: (latest additions).filter (· ≠ addition) := by
        rw [latest, moveToFront, List.foldl_append]
        rfl
      rw [last, List.mem_cons, List.mem_filter, inductionHypothesis, List.mem_append,
        List.mem_singleton, decide_eq_true_eq]
      by_cases same : entry = addition
      · simp [same]
      · simp [same]

theorem mem_without {front entries : List String} {entry : String} :
    entry ∈ without front entries ↔ entry ∈ entries ∧ entry ∉ front := by
  simp [without]

theorem without_latest (additions entries : List String) :
    without (latest additions) entries = without additions entries := by
  refine List.filter_congr fun entry _ => ?_
  rw [Bool.eq_iff_iff]
  simp [mem_latest]

theorem without_without {outer inner entries : List String}
    (covers : ∀ entry ∈ entries, entry ∈ inner → entry ∈ outer) :
    without outer (without inner entries) = without outer entries := by
  rw [without, without, without, List.filter_filter]
  refine List.filter_congr fun entry member => ?_
  by_cases inside : entry ∈ inner
  · simp [inside, covers entry member inside]
  · simp [inside]

/-- The entries that the additions make: one for each, and more for one with a colon. -/
def addedEntries (additions : List String) : List String := splitPath (joinPath (latest additions))

/-- The entries begin with `front`, and behind it is none of `others`. -/
def Opens (front others entries : List String) : Prop :=
  ∃ back, entries = front ++ back ∧ ∀ entry ∈ back, entry ∉ others

theorem eq_append_without_iff {front others entries : List String} :
    entries = front ++ without others entries ↔
      (∀ entry ∈ front, entry ∈ others) ∧ Opens front others entries := by
  have apart_iff {back : List String} :
      without others back = back ↔ ∀ entry ∈ back, entry ∉ others := by
    simp [without, List.filter_eq_self]
  have within_iff : without others front = [] ↔ ∀ entry ∈ front, entry ∈ others := by
    simp [without]
  have divided (back : List String) :
      without others (front ++ back) = without others front ++ without others back :=
    List.filter_append ..
  constructor
  · intro same
    have apart : ∀ entry ∈ without others entries, entry ∉ others :=
      fun entry member => (mem_without.mp member).2
    refine ⟨within_iff.mp ?_, without others entries, same, apart⟩
    have parts := congrArg (without others) same
    rw [divided, apart_iff.mpr apart] at parts
    exact List.self_eq_append_left.mp parts
  · rintro ⟨within, back, rfl, apart⟩
    rw [divided, within_iff.mpr within, apart_iff.mpr apart, List.nil_append]

/-- The additions stand in front, each of them once. -/
def Stands (additions entries : List String) : Prop :=
  (∀ entry ∈ addedEntries additions, entry ∈ additions) ∧
    Opens (addedEntries additions) additions entries

/-! ### The additions that explain a path -/

/-- With its first `count` entries in front, the path `before` is the path `after`. -/
def Explains (before after : List String) (count : Nat) : Prop :=
  0 < count ∧ count ≤ after.length ∧ without (after.take count) before = after.drop count

/-- The fewest first entries of a path that explain it. -/
def ExplainedBy (before after added : List String) : Prop :=
  ∃ count, Explains before after count ∧ (∀ earlier < count, ¬ Explains before after earlier) ∧
    added = after.take count

theorem findSome?_range' {α : Type} {question : Nat → Option α} {start count : Nat} {answer : α} :
    (List.range' start count).findSome? question = some answer ↔
      ∃ found, start ≤ found ∧ found < start + count ∧ question found = some answer ∧
        ∀ earlier, start ≤ earlier → earlier < found → question earlier = none := by
  induction count generalizing start with
  | zero =>
      constructor
      · intro impossible
        cases impossible
      · rintro ⟨found, late, early, _⟩
        omega
  | succ count inductionHypothesis =>
      rw [List.range'_succ, List.findSome?_cons]
      cases asked : question start with
      | some first =>
          constructor
          · intro same
            exact ⟨start, Nat.le_refl _, by omega, by rw [asked]; exact same,
              fun earlier late early => by omega⟩
          · rintro ⟨found, late, _, isFound, earlier⟩
            rcases Nat.eq_or_lt_of_le late with same | later
            · rw [← isFound, ← same, asked]
            · rw [earlier start (Nat.le_refl _) later] at asked
              cases asked
      | none =>
          rw [inductionHypothesis]
          constructor
          · rintro ⟨found, late, early, isFound, earlier⟩
            refine ⟨found, by omega, by omega, isFound, fun other notBefore before => ?_⟩
            rcases Nat.eq_or_lt_of_le notBefore with same | later
            · rw [← same, asked]
            · exact earlier other later before
          · rintro ⟨found, late, early, isFound, earlier⟩
            have differ : found ≠ start := by
              rintro rfl
              rw [asked] at isFound
              cases isFound
            exact ⟨found, by omega, by omega, isFound,
              fun other notBefore before => earlier other (by omega) before⟩

theorem deferredPathAdditions_eq_some {before after added : List String} :
    deferredPathAdditions before after = some added ↔ ExplainedBy before after added := by
  rw [deferredPathAdditions, findSome?_range']
  have asked (count : Nat) : (0 < count ∧ count ≤ after.length) →
      ((if without (after.take count) before = after.drop count then some (after.take count)
        else none) = none ↔ ¬ Explains before after count) := by
    intro bounds
    rw [Explains, ite_eq_right_iff]
    simp only [bounds.1, bounds.2, true_and, reduceCtorEq, imp_false]
  constructor
  · rintro ⟨count, positive, bounded, isFound, earlier⟩
    dsimp only at isFound
    split at isFound
    · rename_i same
      cases isFound
      refine ⟨count, ⟨positive, by omega, same⟩, fun other before explains => ?_, rfl⟩
      exact (asked other ⟨explains.1, explains.2.1⟩).mp (earlier other explains.1 before) explains
    · cases isFound
  · rintro ⟨count, explains, earlier, same⟩
    refine ⟨count, explains.1, by have := explains.2.1; omega, ?_, fun other positive before => ?_⟩
    · rw [same]
      exact if_pos explains.2.2
    · exact (asked other ⟨positive, by have := explains.2.1; omega⟩).mpr (earlier other before)

theorem deferredPathAdditions_eq_none {before after : List String} :
    deferredPathAdditions before after = none ↔ ∀ added, ¬ ExplainedBy before after added := by
  rw [Option.eq_none_iff_forall_ne_some]
  exact forall_congr' fun added => not_congr deferredPathAdditions_eq_some

/-! ### When the merge replays the exports -/

variable (agent initial current : Environment)

/-- The `PATH` that the additions of a process are put in front of. -/
def pathOf (agent environment : Environment) : String :=
  ((environment["PATH"]?).or agent["PATH"]?).getD ""

/-- The additions of a path file. -/
def pathAdditions (source : String) : List String :=
  ((sourceLines source).filter fun line => !line.isEmpty).map String.ofList

/-- When the additions of a step that did not set `PATH` are replayed: `before` and `now` are the
entries at its start and at the merge, and `own` says that the job has a `PATH`.  The merge does
nothing where the additions stand in front at the start.  Otherwise it moves the fewest first
entries that explain the change: additions that it leaves out must stand in front of what it
does not move, and what it moves beside the additions must stand in front of the rest. -/
structure AdditionsReconstruct (additions before now : List String) (own : Prop) : Prop where
  standing : Stands additions before → own ∧ Stands additions now
  fewer : ¬ Stands additions before → ∀ added rest,
    ExplainedBy before (addedEntries additions ++ without additions before) added →
    addedEntries additions = added ++ rest →
      (∀ entry ∈ rest, entry ∈ additions) ∧ (∀ entry ∈ now, entry ∈ added → entry ∈ additions) ∧
        Opens rest additions (without added now)
  more : ¬ Stands additions before → ∀ added rest,
    ExplainedBy before (addedEntries additions ++ without additions before) added →
    added = addedEntries additions ++ rest → Opens rest added (without additions now)
  unexplained : ¬ Stands additions before →
    (∀ added, ¬ ExplainedBy before (addedEntries additions ++ without additions before) added) →
    without additions now = without additions before

/-- What `PATH` has to be in the job for the merge to replay the `PATH` that a step has set and
its additions: `before` and `now` are the entries at its start and at the merge. -/
def PathReconstructs (given : Option String) (additions : List String) : Prop :=
  let before := splitPath (pathOf agent initial)
  let now := splitPath (pathOf agent current)
  match given with
  | some path =>
      let final := if additions = [] then path
        else joinPath (moveToFront additions (splitPath path))
      if pathOf agent initial = final then current["PATH"]? = some final
      else ∀ added, ExplainedBy before (splitPath final) added →
        without added now = without added before
  | none =>
      if additions = [] then
        initial["PATH"]?.isSome ∨ pathOf agent initial = "" ∨ current["PATH"]? = some ""
      else AdditionsReconstruct additions before now current["PATH"]?.isSome

/-- What the job has to hold for the merge to replay the entries `values` of an environment file
and the additions of a path file. -/
structure Reconstructs (values : Environment) (additions : List String) : Prop where
  names : ∀ name value, name ≠ "PATH" → acceptedName name = true → values[name]? = some value →
    initial[name]? = some value → current[name]? = some value
  path : PathReconstructs agent initial current values["PATH"]? additions

variable {Post : Type} (world : World Post)

/-- The merge of the names but `PATH`. -/
theorem getElem?_merged (final : Environment) (name : String) :
    (final.toList.foldl (fun environment (name, value) =>
        if name ≠ "PATH" && initial[name]? ≠ some value then environment.insert name value
        else environment) current)[name]? =
      if name = "PATH" ∨ final[name]? = initial[name]? then current[name]?
      else (final[name]?).or current[name]? := by
  have copied := getElem?_foldl_copy
    (fun name value => decide (name ≠ "PATH") && decide (initial[name]? ≠ some value))
    final current name
  rw [copied]
  by_cases path : name = "PATH"
  · rw [if_pos (.inl path)]
    cases final[name]? with
    | none => rfl
    | some value => rw [Option.filter_some_neg (by simp [path]), Option.none_or]
  · cases final[name]? with
    | none => simp
    | some value =>
        by_cases same : initial[name]? = some value
        · rw [Option.filter_some_neg (by simp [same]), Option.none_or, if_pos (.inr same.symm)]
        · rw [Option.filter_some_pos (by simp [path, same]), if_neg]
          rintro (isPath | isSame)
          · exact path isPath
          · exact same isSame.symm

theorem getElem?_merge_other {name : String} (other : name ≠ "PATH") (final : Environment) :
    (mergeBackgroundEnvironment world current initial final)[name]? =
      if final[name]? = initial[name]? then current[name]?
      else (final[name]?).or current[name]? := by
  have merged := getElem?_merged initial current final name
  simp only [other, false_or] at merged
  rw [← merged, mergeBackgroundEnvironment]
  dsimp only
  split
  · rfl
  · split
    · exact getElem?_insert_outside other.symm _ _
    · exact getElem?_insert_outside other.symm _ _

theorem getElem?_merge_path (final : Environment) (agentPath : world.path = agent["PATH"]?) :
    (mergeBackgroundEnvironment world current initial final)["PATH"]? =
      if pathOf agent initial = (final["PATH"]?).getD "" then current["PATH"]?
      else
        some <| (deferredPathAdditions (splitPath (pathOf agent initial))
            (splitPath ((final["PATH"]?).getD ""))).elim ((final["PATH"]?).getD "")
          fun added => joinPath (added ++ without added (splitPath (pathOf agent current))) := by
  have merged := getElem?_merged initial current final "PATH"
  rw [if_pos (.inl rfl)] at merged
  have before : ((initial["PATH"]?).or agent["PATH"]?).getD "" = pathOf agent initial := rfl
  have now : ((((current["PATH"]?).or agent["PATH"]?).map splitPath)).getD [] =
      splitPath (pathOf agent current) := by
    rw [pathOf]
    cases (current["PATH"]?).or agent["PATH"]? <;> rfl
  rw [mergeBackgroundEnvironment]
  dsimp only
  rw [merged, agentPath, now, before]
  by_cases same : pathOf agent initial = (final["PATH"]?).getD ""
  · rw [if_pos same, if_pos same]
    exact merged
  · rw [if_neg same, if_neg same]
    cases deferredPathAdditions (splitPath (pathOf agent initial))
        (splitPath ((final["PATH"]?).getD "")) with
    | none => exact ExtTreeMap.getElem?_insert_self
    | some added => exact ExtTreeMap.getElem?_insert_self

/-! ### The exports of a step -/

theorem getElem?_applyPathFile_path (environment : Environment) (source : String) :
    (applyPathFile agent environment source)["PATH"]? =
      if pathAdditions source = [] then environment["PATH"]?
      else some (joinPath (moveToFront (pathAdditions source)
        (splitPath (pathOf agent environment)))) := by
  have additions : ((sourceLines source).filter fun line => !line.isEmpty).map String.ofList =
      pathAdditions source := rfl
  rw [applyPathFile, additions]
  dsimp only
  by_cases empty : pathAdditions source = []
  · rw [if_pos empty, if_pos (List.isEmpty_iff.mpr empty)]
  · rw [if_neg empty, if_neg (fun isEmpty => empty (List.isEmpty_iff.mp isEmpty))]
    exact ExtTreeMap.getElem?_insert_self

theorem pathAdditions_nonempty {source addition : String}
    (member : addition ∈ pathAdditions source) : addition ≠ "" := by
  obtain ⟨line, isLine, same⟩ := List.mem_map.mp member
  rintro rfl
  have empty : line = [] := by
    rw [← String.toList_ofList (l := line), same]
    rfl
  rw [empty, List.mem_filter] at isLine
  simp at isLine

/-- The additions themselves make a path. -/
theorem joinPath_latest {source : String} (some : pathAdditions source ≠ []) :
    joinPath (latest (pathAdditions source)) ≠ "" := by
  cases isLatest : latest (pathAdditions source) with
  | nil => exact absurd isLatest (latest_ne_nil some)
  | cons first rest =>
      have nonempty : first ≠ "" :=
        pathAdditions_nonempty (mem_latest.mp (isLatest ▸ List.mem_cons_self))
      intro empty
      have text := congrArg String.toList empty
      rw [toList_joinPath, List.map_cons] at text
      cases rest with
      | nil =>
          rw [List.map_nil, List.intercalate_singleton] at text
          exact nonempty (String.toList_inj.mp text)
      | cons second rest =>
          rw [List.map_cons, List.intercalate_cons_cons] at text
          simp at text

section Exports

variable {course : Course} {ended : ProcessEnd} {values : Environment}

theorem exported_parsed (parsed : parseCommandSource ended.environmentFile = some values)
    (environment : Environment) : exported course environment ended =
      applyPathFile course.agent (values.toList.foldl (fun environment (name, value) =>
        if acceptedName name then environment.insert name value else environment) environment)
        ended.pathFile := by
  simp [exported, applyFiles, applyEnvironmentFile, parsed]

theorem exported_other (parsed : parseCommandSource ended.environmentFile = some values)
    (environment : Environment) {name : String} (other : name ≠ "PATH") :
    (exported course environment ended)[name]? =
      ((values[name]?).filter fun _ => acceptedName name).or environment[name]? := by
  rw [exported_parsed parsed, ← getElem?_applied]
  exact (getElem?_applyPathFile _ _ _ name).resolve_right other

theorem exported_path (parsed : parseCommandSource ended.environmentFile = some values)
    (environment : Environment) : (exported course environment ended)["PATH"]? =
      if pathAdditions ended.pathFile = [] then (values["PATH"]?).or environment["PATH"]?
      else some (joinPath (moveToFront (pathAdditions ended.pathFile)
        (splitPath ((values["PATH"]?).getD (pathOf course.agent environment))))) := by
  have accepted : acceptedName "PATH" = true := by decide
  rw [exported_parsed parsed, getElem?_applyPathFile_path]
  simp only [pathOf, getElem?_applied]
  cases values["PATH"]? with
  | none => rfl
  | some path =>
      rw [Option.filter_some_pos (p := fun _ => acceptedName "PATH") accepted]
      rfl

theorem merge_other_iff (parsed : parseCommandSource ended.environmentFile = some values)
    {name : String} (other : name ≠ "PATH") :
    (mergeBackgroundEnvironment world current initial (exported course initial ended))[name]? =
        (exported course current ended)[name]? ↔
      ∀ value, acceptedName name = true → values[name]? = some value →
        initial[name]? = some value → current[name]? = some value := by
  rw [getElem?_merge_other _ _ _ other, exported_other parsed _ other,
    exported_other parsed _ other]
  cases given : (values[name]?).filter fun _ => acceptedName name with
  | none =>
      rw [Option.none_or, Option.none_or, if_pos rfl]
      refine iff_of_true rfl fun value accepted isValue => ?_
      rw [isValue, Option.filter_some_pos (p := fun _ => acceptedName name) accepted] at given
      cases given
  | some value =>
      obtain ⟨isValue, accepted⟩ := Option.filter_eq_some_iff.mp given
      rw [Option.some_or, Option.some_or]
      by_cases same : initial[name]? = some value
      · rw [if_pos same.symm]
        refine ⟨fun kept found _ isFound _ => ?_, fun kept => kept value accepted isValue same⟩
        rw [isValue] at isFound
        cases isFound
        exact kept
      · rw [if_neg fun equal => same equal.symm]
        refine iff_of_true rfl fun found _ isFound isInitial => ?_
        rw [isValue] at isFound
        cases isFound
        exact absurd isInitial same

theorem ExplainedBy.split {before after added : List String}
    (explained : ExplainedBy before after added) :
    after = added ++ without added before ∧ added ≠ [] := by
  obtain ⟨count, ⟨positive, bounded, same⟩, _, isAdded⟩ := explained
  subst isAdded
  refine ⟨by rw [same, List.take_append_drop], ?_⟩
  rw [← List.length_pos_iff, List.length_take]
  omega

theorem PathEntries.append {one two : List String} (first : PathEntries one)
    (second : PathEntries two) : PathEntries (one ++ two) :=
  List.forall_mem_append.mpr ⟨first, second⟩

theorem PathEntries.without {entries : List String} (isPath : PathEntries entries)
    (front : List String) : PathEntries (without front entries) := isPath.filter _

section Paths

variable {before now additions : List String} (isBefore : PathEntries before)
  (isNow : PathEntries now) {final : String}

include isBefore isNow

/-- A path that was set does not depend on where it is replayed. -/
theorem merged_given_iff :
    ((deferredPathAdditions before (splitPath final)).elim final fun added =>
        joinPath (added ++ without added now)) = final ↔
      ∀ added, ExplainedBy before (splitPath final) added →
        without added now = without added before := by
  cases found : deferredPathAdditions before (splitPath final) with
  | none =>
      exact iff_of_true rfl fun added explained =>
        absurd explained (deferredPathAdditions_eq_none.mp found added)
  | some added =>
      have explained := deferredPathAdditions_eq_some.mp found
      obtain ⟨whole, some⟩ := explained.split
      have isFinal : final = joinPath (added ++ without added before) := by
        rw [← whole, joinPath_splitPath]
      have moved : joinPath (added ++ without added now) = final ↔
          without added now = without added before := by
        conv => lhs; rhs; rw [isFinal]
        exact joinPath_append_inj some (isNow.without added) (isBefore.without added)
      rw [Option.elim_some, moved]
      refine ⟨fun equal other isOther => ?_, fun all => all added explained⟩
      have unique := deferredPathAdditions_eq_some.mpr isOther
      rw [found] at unique
      cases unique
      exact equal

end Paths

/-- A path that was left alone. -/
theorem merged_unset_iff (now : List String) :
    (if pathOf agent initial = (initial["PATH"]?).getD "" then current["PATH"]?
      else some ((deferredPathAdditions (splitPath (pathOf agent initial))
        (splitPath ((initial["PATH"]?).getD ""))).elim ((initial["PATH"]?).getD "") fun added =>
          joinPath (added ++ without added now))) = current["PATH"]? ↔
      initial["PATH"]?.isSome ∨ pathOf agent initial = "" ∨ current["PATH"]? = some "" := by
  cases isInitial : initial["PATH"]? with
  | some path =>
      have same : pathOf agent initial = path := by
        rw [pathOf, isInitial]
        rfl
      rw [Option.getD_some, if_pos same]
      exact iff_of_true rfl (.inl rfl)
  | none =>
      rw [Option.getD_none]
      by_cases same : pathOf agent initial = ""
      · rw [if_pos same]
        exact iff_of_true rfl (.inr (.inl same))
      · have unexplained : deferredPathAdditions (splitPath (pathOf agent initial))
            (splitPath "") = none := by
          refine deferredPathAdditions_eq_none.mpr fun added explained => ?_
          have parts := explained.split
          exact parts.2 (List.append_eq_nil_iff.mp parts.1.symm).1
        rw [if_neg same, unexplained, Option.elim_none, eq_comm]
        simp only [Option.isSome_none, Bool.false_eq_true, false_or, same]

/-! ### A path that was added to -/

section Additions

variable {before now additions added : List String}

theorem mem_splitOn_intercalate {separator : Char} {piece : List Char}
    (plain : separator ∉ piece) {pieces : List (List Char)} (member : piece ∈ pieces) :
    piece ∈ ([separator].intercalate pieces).splitOn separator := by
  induction pieces with
  | nil => cases member
  | cons first others inductionHypothesis =>
      cases others with
      | nil =>
          rw [List.intercalate_singleton, List.mem_singleton.mp member,
            List.splitOn_eq_singleton (List.mem_singleton.mp member ▸ plain)]
          exact List.mem_singleton_self _
      | cons second others =>
          rw [List.intercalate_cons_cons, List.append_assoc, List.singleton_append,
            List.splitOn_append_cons_self]
          rcases List.mem_cons.mp member with rfl | later
          · rw [List.splitOn_eq_singleton plain]
            exact List.mem_append_left _ (List.mem_singleton_self _)
          · exact List.mem_append_right _ (inductionHypothesis later)

theorem mem_addedEntries (isPath : joinPath (latest additions) ≠ "") {entry : String}
    (plain : ':' ∉ entry.toList) (member : entry ∈ additions) :
    entry ∈ addedEntries additions := by
  rw [addedEntries, splitPath, if_neg (by simpa using isPath), toList_joinPath]
  exact List.mem_map.mpr ⟨entry.toList, mem_splitOn_intercalate plain
    (List.mem_map_of_mem (mem_latest.mpr member)), String.ofList_toList⟩

theorem joinPath_eq_latest_iff (isPath : joinPath (latest additions) ≠ "")
    {entries rest : List String} (first : PathEntries entries) (second : PathEntries rest) :
    joinPath entries = joinPath (latest additions ++ rest) ↔
      entries = addedEntries additions ++ rest := by
  have some : addedEntries additions ≠ [] := splitPath_ne_nil isPath
  have divided :
      joinPath (latest additions ++ rest) = joinPath (addedEntries additions ++ rest) := by
    by_cases empty : rest = []
    · rw [empty, List.append_nil, List.append_nil, addedEntries, joinPath_splitPath]
    · have nonempty : latest additions ≠ [] := by
        intro none
        rw [none] at isPath
        exact isPath rfl
      rw [joinPath_append nonempty empty, joinPath_append some empty, addedEntries,
        joinPath_splitPath]
  rw [divided]
  by_cases empty : entries = []
  · refine iff_of_false ?_ fun same => ?_
    · rw [empty, ← divided]
      intro same
      by_cases none : rest = []
      · rw [none, List.append_nil] at same
        exact isPath same.symm
      · have text := congrArg String.length same
        rw [divided, joinPath_append some none, String.length_append, String.length_append] at text
        have colon : ":".length = 1 := rfl
        have nothing : (joinPath []).length = 0 := rfl
        omega
    · rw [empty] at same
      exact some (List.append_eq_nil_iff.mp same.symm).1
  · exact joinPath_inj first ((pathEntries_splitPath _).append second) empty
      (List.append_ne_nil_of_left_ne_nil some _)

/-- The merge moves a part of the additions. -/
theorem moved_fewer_iff {rest : List String} (same : addedEntries additions = added ++ rest) :
    added ++ without added now = addedEntries additions ++ without additions now ↔
      (∀ entry ∈ rest, entry ∈ additions) ∧ (∀ entry ∈ now, entry ∈ added → entry ∈ additions) ∧
        Opens rest additions (without added now) := by
  rw [same, List.append_assoc, List.append_right_inj]
  constructor
  · intro equal
    have known : ∀ entry ∈ now, entry ∈ added → entry ∈ additions := by
      intro entry member isAdded
      by_contra other
      have inside : entry ∈ without added now :=
        equal ▸ List.mem_append_right _ (mem_without.mpr ⟨member, other⟩)
      exact (mem_without.mp inside).2 isAdded
    rw [← without_without known] at equal
    obtain ⟨within, opens⟩ := eq_append_without_iff.mp equal
    exact ⟨within, known, opens⟩
  · rintro ⟨within, known, opens⟩
    rw [← without_without known]
    exact eq_append_without_iff.mpr ⟨within, opens⟩

/-- The merge moves the additions and more. -/
theorem moved_more_iff {rest : List String} (isPath : joinPath (latest additions) ≠ "")
    (isNow : PathEntries now) (same : added = addedEntries additions ++ rest) :
    added ++ without added now = addedEntries additions ++ without additions now ↔
      Opens rest added (without additions now) := by
  have known : ∀ entry ∈ now, entry ∈ additions → entry ∈ added := by
    intro entry member isAddition
    rw [same]
    exact List.mem_append_left _ (mem_addedEntries isPath (isNow entry member) isAddition)
  have within : ∀ entry ∈ rest, entry ∈ added := by
    intro entry member
    rw [same]
    exact List.mem_append_right _ member
  have cancelled : added ++ without added now = addedEntries additions ++ without additions now ↔
      rest ++ without added now = without additions now := by
    conv => lhs; lhs; lhs; rw [same]
    rw [List.append_assoc, List.append_right_inj]
  rw [cancelled, eq_comm, ← without_without known, eq_append_without_iff, and_iff_right within]

theorem stands_iff (isPath : joinPath (latest additions) ≠ "") (isBefore : PathEntries before) :
    joinPath before = joinPath (moveToFront additions before) ↔ Stands additions before := by
  rw [moveToFront_eq, without_latest, joinPath_eq_latest_iff isPath isBefore (isBefore.without _),
    eq_append_without_iff]
  rfl

/-- A path that was only added to is added to again. -/
theorem moved_iff (isPath : joinPath (latest additions) ≠ "") (isBefore : PathEntries before)
    (isNow : PathEntries now) (moves : ¬ Stands additions before) (own : Prop) :
    ((deferredPathAdditions before (splitPath (joinPath (moveToFront additions before)))).elim
        (joinPath (moveToFront additions before)) fun added =>
          joinPath (added ++ without added now)) = joinPath (moveToFront additions now) ↔
      AdditionsReconstruct additions before now own := by
  have after : splitPath (joinPath (moveToFront additions before)) =
      addedEntries additions ++ without additions before := by
    rw [moveToFront_eq, without_latest]
    exact (joinPath_eq_latest_iff isPath (pathEntries_splitPath _) (isBefore.without _)).mp
      (joinPath_splitPath _)
  rw [after]
  cases found : deferredPathAdditions before
      (addedEntries additions ++ without additions before) with
  | none =>
      have unexplained := deferredPathAdditions_eq_none.mp found
      have some : latest additions ≠ [] := by
        intro none
        rw [none] at isPath
        exact isPath rfl
      rw [Option.elim_none, moveToFront_eq, moveToFront_eq, without_latest, without_latest,
        eq_comm, joinPath_append_inj some (isNow.without _) (isBefore.without _)]
      refine ⟨fun same => ⟨fun stands => absurd stands moves, ?_, ?_, fun _ _ => same⟩,
        fun holds => holds.unexplained moves unexplained⟩
      · exact fun _ added rest explained _ => absurd explained (unexplained added)
      · exact fun _ added rest explained _ => absurd explained (unexplained added)
  | some added =>
      have explained := deferredPathAdditions_eq_some.mp found
      have unique {other : List String} (isOther : ExplainedBy before
          (addedEntries additions ++ without additions before) other) : other = added := by
        have again := deferredPathAdditions_eq_some.mpr isOther
        rw [found] at again
        exact (Option.some.inj again).symm
      have path : PathEntries (added ++ without added now) := by
        refine PathEntries.append (fun entry member => ?_) (isNow.without _)
        have whole : entry ∈ addedEntries additions ++ without additions before :=
          explained.split.1 ▸ List.mem_append_left _ member
        exact ((pathEntries_splitPath _).append (isBefore.without _)) entry whole
      rw [Option.elim_some, moveToFront_eq, without_latest,
        joinPath_eq_latest_iff isPath path (isNow.without _)]
      constructor
      · intro equal
        refine ⟨fun stands => absurd stands moves, ?_, ?_,
          fun _ unexplained => absurd explained (unexplained added)⟩
        · intro _ other rest isOther same
          cases unique isOther
          exact (moved_fewer_iff same).mp equal
        · intro _ other rest isOther same
          cases unique isOther
          exact (moved_more_iff isPath isNow same).mp equal
      · intro holds
        -- Both are the first entries of the path that the additions make.
        have first : added <+: addedEntries additions ++ without additions before :=
          ⟨_, explained.split.1.symm⟩
        rcases List.prefix_or_prefix_of_prefix first (List.prefix_append _ _) with
          ⟨rest, same⟩ | ⟨rest, same⟩
        · exact (moved_fewer_iff same.symm).mpr
            (holds.fewer moves added rest explained same.symm)
        · exact (moved_more_iff isPath isNow same.symm).mpr
            (holds.more moves added rest explained same.symm)

end Additions

/-- The merge of a path that was only added to. -/
theorem merged_added_iff {additions : List String} (isPath : joinPath (latest additions) ≠ "") :
    (if pathOf agent initial =
          joinPath (moveToFront additions (splitPath (pathOf agent initial))) then current["PATH"]?
      else some ((deferredPathAdditions (splitPath (pathOf agent initial)) (splitPath
        (joinPath (moveToFront additions (splitPath (pathOf agent initial)))))).elim
        (joinPath (moveToFront additions (splitPath (pathOf agent initial)))) fun added =>
          joinPath (added ++ without added (splitPath (pathOf agent current))))) =
        some (joinPath (moveToFront additions (splitPath (pathOf agent current)))) ↔
      AdditionsReconstruct additions (splitPath (pathOf agent initial))
        (splitPath (pathOf agent current)) current["PATH"]?.isSome := by
  have isBefore := pathEntries_splitPath (pathOf agent initial)
  have isNow := pathEntries_splitPath (pathOf agent current)
  have standing := stands_iff isPath isBefore
  rw [joinPath_splitPath] at standing
  by_cases stands : Stands additions (splitPath (pathOf agent initial))
  · rw [if_pos (standing.mpr stands)]
    have kept : current["PATH"]? =
        some (joinPath (moveToFront additions (splitPath (pathOf agent current)))) ↔
        current["PATH"]?.isSome ∧ Stands additions (splitPath (pathOf agent current)) := by
      rw [← stands_iff isPath isNow, joinPath_splitPath]
      cases isCurrent : current["PATH"]? with
      | none => simp
      | some path =>
          have same : pathOf agent current = path := by
            rw [pathOf, isCurrent]
            rfl
          simp [same]
    rw [kept]
    refine ⟨fun own => ⟨fun _ => own, ?_, ?_, ?_⟩, fun holds => holds.standing stands⟩
    · exact fun moves => absurd stands moves
    · exact fun moves => absurd stands moves
    · exact fun moves => absurd stands moves
  · rw [if_neg (mt standing.mp stands), Option.some_inj]
    exact moved_iff isPath isBefore isNow stands _

theorem merge_path_iff (parsed : parseCommandSource ended.environmentFile = some values)
    (agentPath : world.path = course.agent["PATH"]?) :
    (mergeBackgroundEnvironment world current initial (exported course initial ended))["PATH"]? =
        (exported course current ended)["PATH"]? ↔
      PathReconstructs course.agent initial current values["PATH"]?
        (pathAdditions ended.pathFile) := by
  rw [getElem?_merge_path course.agent _ _ world _ agentPath, exported_path parsed,
    exported_path parsed]
  have isBefore := pathEntries_splitPath (pathOf course.agent initial)
  have isNow := pathEntries_splitPath (pathOf course.agent current)
  cases values["PATH"]? with
  | some path =>
      have given (environment : Environment) :
          (if pathAdditions ended.pathFile = [] then (some path).or environment["PATH"]?
            else some (joinPath (moveToFront (pathAdditions ended.pathFile)
              (splitPath ((some path).getD (pathOf course.agent environment)))))) =
          some (if pathAdditions ended.pathFile = [] then path
            else joinPath (moveToFront (pathAdditions ended.pathFile) (splitPath path))) := by
        split <;> rfl
      rw [given, given, Option.getD_some]
      unfold PathReconstructs
      dsimp only
      generalize (if pathAdditions ended.pathFile = [] then path
        else joinPath (moveToFront (pathAdditions ended.pathFile) (splitPath path))) = final
      by_cases same : pathOf course.agent initial = final
      · rw [if_pos same, if_pos same]
      · rw [if_neg same, if_neg same, Option.some_inj]
        exact merged_given_iff isBefore isNow
  | none =>
      unfold PathReconstructs
      dsimp only
      by_cases empty : pathAdditions ended.pathFile = []
      · simp only [if_pos empty, Option.none_or]
        exact merged_unset_iff course.agent initial current _
      · simp only [if_neg empty, Option.getD_none, Option.getD_some]
        exact merged_added_iff course.agent initial current (joinPath_latest empty)

end Exports

/-- The merge of a background step gives what its exports give in the environment of the job
exactly when the snapshots of the step show them all. -/
theorem merge_replays_iff (course : Course) (ended : ProcessEnd) (values : Environment)
    (parsed : parseCommandSource ended.environmentFile = some values) :
    mergeBackgroundEnvironment { world with path := course.agent["PATH"]? } current initial
        (exported course initial ended) = exported course current ended ↔
      Reconstructs course.agent initial current values (pathAdditions ended.pathFile) := by
  constructor
  · intro same
    constructor
    · intro name value other accepted isValue isInitial
      have equal := congrArg (fun environment : Environment => environment[name]?) same
      exact (merge_other_iff initial current _ parsed other).mp equal value accepted isValue
        isInitial
    · exact (merge_path_iff initial current _ parsed rfl).mp
        (congrArg (fun environment : Environment => environment["PATH"]?) same)
  · intro reconstructs
    refine ExtTreeMap.ext_getElem? fun name => ?_
    by_cases path : name = "PATH"
    · subst path
      exact (merge_path_iff initial current _ parsed rfl).mpr reconstructs.path
    · exact (merge_other_iff initial current _ parsed path).mpr fun value =>
        reconstructs.names name value path

namespace Sample

/-- An agent with a `PATH`. -/
def plainCourse : Course where
  agent := ExtTreeMap.ofList [("PATH", "/bin")] compare
  render := fun _ template => some template
  condition := fun _ => some true
  inputs := fun _ => some ∅
  process := fun _ => {}
  checkout := fun _ => {}
  commandFile := fun moment name => "/temp/" ++ name ++ toString moment
  deadline := fun _ => none
  stops := fun _ => false

def plainWorld : World Unit where
  isBackground step _ := step.background.isSome
  continueOnError _ _ := false
  execute _ snapshot := ⟨⟨.success, .success, ∅, true⟩, snapshot.environment, [], {}⟩
  complete _ snapshot _ := ⟨⟨.success, .success, ∅, true⟩, snapshot.environment, [], {}⟩
  runPost _ _ := none
  cancelRequested _ := false
  timedOutAfter _ := false
  timedOutAfterDrain := false
  timedOutAfterPost _ := false
  timedOutAtEnd := false
  path := some "/bin"

def named (name value : String) : Environment := (∅ : Environment).insert name value

/-- A step that adds a directory to `PATH` and exports a new name. -/
def addingEnd : ProcessEnd := { environmentFile := "A=1\n", pathFile := "/opt\n" }

/-- A directory is added to the `PATH` of the agent, which neither snapshot has. -/
theorem added_directory_is_replayed :
    parseCommandSource addingEnd.environmentFile = some (named "A" "1") ∧
      (mergeBackgroundEnvironment { plainWorld with path := plainCourse.agent["PATH"]? }
          (named "B" "2") ∅ (exported plainCourse ∅ addingEnd) =
        exported plainCourse (named "B" "2") addingEnd ↔
      Reconstructs plainCourse.agent ∅ (named "B" "2") (named "A" "1")
        (pathAdditions addingEnd.pathFile)) :=
  ⟨rfl, merge_replays_iff ∅ (named "B" "2") plainWorld plainCourse addingEnd (named "A" "1") rfl⟩

/-- A step that exports nothing loses the `PATH` of the job if none was set at its start, and one
that exports a value that its name had already does not undo a later one. -/
theorem silent_step_loses_path :
    ((mergeBackgroundEnvironment plainWorld (named "PATH" "/opt:/bin") ∅
          (exported plainCourse ∅ {}))["PATH"]? = some "" ∧
      (exported plainCourse (named "PATH" "/opt:/bin") {})["PATH"]? = some "/opt:/bin") ∧
    ((mergeBackgroundEnvironment plainWorld (named "A" "2") (named "A" "1")
          (exported plainCourse (named "A" "1") { environmentFile := "A=1\n" }))["A"]? = some "2" ∧
      (exported plainCourse (named "A" "2") { environmentFile := "A=1\n" })["A"]? = some "1") := by
  decide

end Sample

end GitZero.Agent
