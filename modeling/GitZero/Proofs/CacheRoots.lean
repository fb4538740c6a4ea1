/-
Module: GitZero.Proofs.CacheRoots
Purpose: The root of the cache under the file operations of a request: what removals leave,
  in part or as a whole, what a publication adds, and how far a request has come when one of
  its operations fails or its process stops.
Trusted boundary: none
Main exports: entriesOf, Fewer, Stored, applyAll_removals_fewer, rootAfter_removals,
  rootAfter_publication, commitReservation_shape
-/
import GitZero.Proofs.CachePlans
import Mathlib.Data.List.Nodup
import Mathlib.Algebra.Order.BigOperators.Group.List

namespace GitZero.Agent.CacheStore

open Table
open Artifacts (Bytes Sha256 u64Max saturatingAdd)

/-! ### Places -/

def Directory.place (directory : Directory) : String × String :=
  (directory.scopeRoot, directory.name)

def CacheEntry.place (entry : CacheEntry) : String × String := (entry.scopeRoot, entry.name)

/-- Every entry below the root, whatever its scope. -/
def entriesOf (root : List Directory) : List CacheEntry := root.filterMap Directory.entry?

section Places

variable {root : List Directory} {directory : Directory} {entry : CacheEntry}

theorem isAt_iff {scopeRoot name : String} :
    directory.isAt scopeRoot name = true ↔ directory.place = (scopeRoot, name) := by
  simp [Directory.isAt, Directory.place]

theorem entry?_eq_some :
    directory.entry? = some entry ↔ directory.place = entry.place ∧
      directory.metadata = some (.written entry.metadata) ∧ directory.archive.isSome = true := by
  obtain ⟨scopeRoot, name, metadata, archive⟩ := directory
  obtain ⟨entryRoot, entryName, stored⟩ := entry
  rcases metadata with _ | ⟨metadata | error⟩ <;> rcases archive with _ | archive <;>
    simp [Directory.entry?, Directory.place, CacheEntry.place, and_assoc]

theorem mem_entriesOf :
    entry ∈ entriesOf root ↔ ∃ directory ∈ root, directory.entry? = some entry :=
  List.mem_filterMap

theorem entriesOf_append (first second : List Directory) :
    entriesOf (first ++ second) = entriesOf first ++ entriesOf second :=
  List.filterMap_append

theorem mem_loadScopeEntries {scopeRoot : String} :
    entry ∈ loadScopeEntries root scopeRoot ↔ ∃ directory ∈ root,
      directory.scopeRoot = scopeRoot ∧ directory.hidden = false ∧
        directory.entry? = some entry := by
  simp [loadScopeEntries, and_assoc]

theorem loadScopeEntries_subset (scopeRoot : String) :
    loadScopeEntries root scopeRoot ⊆ entriesOf root := by
  intro entry member
  obtain ⟨directory, inside, -, -, isEntry⟩ := mem_loadScopeEntries.mp member
  exact mem_entriesOf.mpr ⟨directory, inside, isEntry⟩

theorem scopeRoot_of_mem_load {scopeRoot : String}
    (member : entry ∈ loadScopeEntries root scopeRoot) : entry.scopeRoot = scopeRoot := by
  obtain ⟨directory, -, isRoot, -, isEntry⟩ := mem_loadScopeEntries.mp member
  have same := congrArg Prod.fst (entry?_eq_some.mp isEntry).1
  exact same.symm.trans isRoot

theorem eq_of_place (distinct : (root.map Directory.place).Nodup) {other : Directory}
    (member : directory ∈ root) (also : other ∈ root) (same : directory.place = other.place) :
    directory = other := List.inj_on_of_nodup_map distinct member also same

/-- Two entries are at different places. -/
theorem entriesOf_places (distinct : (root.map Directory.place).Nodup) :
    ((entriesOf root).map CacheEntry.place).Nodup := by
  refine List.Nodup.sublist ?_ distinct
  induction root with
  | nil => exact List.Sublist.slnil
  | cons directory root inductionHypothesis =>
      have later := inductionHypothesis (List.nodup_cons.mp distinct).2
      rw [entriesOf, List.filterMap_cons]
      cases isEntry : directory.entry? with
      | none => exact later.trans (List.sublist_cons_self _ _)
      | some entry =>
          rw [List.map_cons, List.map_cons, (entry?_eq_some.mp isEntry).1]
          exact later.cons_cons _

theorem eq_of_entry_place (distinct : (root.map Directory.place).Nodup) {other : CacheEntry}
    (member : entry ∈ entriesOf root) (also : other ∈ entriesOf root)
    (same : entry.place = other.place) : entry = other :=
  List.inj_on_of_nodup_map (entriesOf_places distinct) member also same

end Places

/-! ### Roots with less in them -/

/-- Directories are gone, and of those that meet `cut` files may be gone. -/
structure Fewer (cut : Directory → Prop) (after before : List Directory) : Prop where
  places : (after.map Directory.place).Sublist (before.map Directory.place)
  parts : ∀ left ∈ after, left ∈ before ∨ ∃ whole ∈ before, cut whole ∧
    left.place = whole.place ∧ (left.metadata = none ∨ left.metadata = whole.metadata) ∧
    (left.archive = none ∨ left.archive = whole.archive)

namespace Fewer

variable {cut : Directory → Prop} {after middle before root : List Directory}

theorem refl (root : List Directory) : Fewer cut root root :=
  ⟨List.Sublist.refl _, fun _ member => .inl member⟩

theorem mono {other : Directory → Prop} (fewer : Fewer cut after before)
    (weaker : ∀ directory ∈ before, cut directory → other directory) :
    Fewer other after before := by
  refine ⟨fewer.places, fun left member => ?_⟩
  rcases fewer.parts left member with old | ⟨whole, present, isCut, rest⟩
  · exact .inl old
  · exact .inr ⟨whole, present, weaker whole present isCut, rest⟩

/-- Whole directories are removed, then files of some. -/
theorem trans (first : Fewer (fun _ => False) middle before) (second : Fewer cut after middle) :
    Fewer cut after before := by
  have old : ∀ directory ∈ middle, directory ∈ before := by
    intro directory member
    rcases first.parts directory member with kept | ⟨_, _, never, _⟩
    · exact kept
    · exact never.elim
  refine ⟨second.places.trans first.places, fun left member => ?_⟩
  rcases second.parts left member with kept | ⟨whole, present, rest⟩
  · exact .inl (old left kept)
  · exact .inr ⟨whole, old whole present, rest⟩

theorem delete (selected : Directory → Bool) :
    Fewer (fun _ => False) (Table.delete root selected) root :=
  ⟨List.filter_sublist.map _, fun _ member => .inl (mem_delete.mp member).1⟩

theorem interrupt (cut : Cut) (scopeRoot name : String) :
    Fewer (fun directory => directory.place = (scopeRoot, name))
      ((FileOp.removeDirectory scopeRoot name).interrupt cut root) root := by
  constructor
  · have places : ((FileOp.removeDirectory scopeRoot name).interrupt cut root).map
        Directory.place = root.map Directory.place := map_key_update fun _ _ _ => rfl
    rw [places]
  · intro left member
    obtain ⟨whole, present, rfl⟩ := mem_update.mp member
    split
    · next here =>
        refine .inr ⟨whole, present, isAt_iff.mp here, rfl, ?_, ?_⟩
        · dsimp only
          split
          · exact .inr rfl
          · exact .inl rfl
        · dsimp only
          split
          · exact .inr rfl
          · exact .inl rfl
    · exact .inl present

/-- What is still an entry was one before. -/
theorem entries (fewer : Fewer cut after before) : entriesOf after ⊆ entriesOf before := by
  intro entry member
  obtain ⟨left, inside, isEntry⟩ := mem_entriesOf.mp member
  rcases fewer.parts left inside with old | ⟨whole, present, -, place, metadata, archive⟩
  · exact mem_entriesOf.mpr ⟨left, old, isEntry⟩
  · obtain ⟨isPlace, written, there⟩ := entry?_eq_some.mp isEntry
    refine mem_entriesOf.mpr ⟨whole, present, entry?_eq_some.mpr ⟨place ▸ isPlace, ?_, ?_⟩⟩
    · rcases metadata with gone | kept
      · rw [gone] at written
        cases written
      · rw [← kept]
        exact written
    · rcases archive with gone | kept
      · rw [gone] at there
        cases there
      · rw [← kept]
        exact there

theorem distinct (fewer : Fewer cut after before)
    (distinct : (before.map Directory.place).Nodup) : (after.map Directory.place).Nodup :=
  distinct.sublist fewer.places

theorem vacant (fewer : Fewer cut after before) {scopeRoot name : String}
    (vacant : Vacant before scopeRoot name) : Vacant after scopeRoot name := by
  refine List.any_eq_false.mpr fun left member here => ?_
  have named : left.place ∈ before.map Directory.place :=
    fewer.places.subset (List.mem_map_of_mem member)
  obtain ⟨directory, present, same⟩ := List.mem_map.mp named
  exact List.any_eq_false.mp vacant directory present
    (isAt_iff.mpr (same.trans (isAt_iff.mp here)))

end Fewer

/-! ### Removals -/

section Removals

variable {root : List Directory} {victims : List CacheEntry}

/-- Removals only take away. -/
theorem applyAll_removals_fewer (root : List Directory) (victims : List CacheEntry) :
    Fewer (fun _ => False) (applyAll root (removals victims)) root := by
  induction victims generalizing root with
  | nil => exact .refl root
  | cons victim victims inductionHypothesis =>
      exact (Fewer.delete _).trans (inductionHypothesis _)

theorem mem_applyAll_removals {directory : Directory} :
    directory ∈ applyAll root (removals victims) ↔
      directory ∈ root ∧ ∀ victim ∈ victims, directory.place ≠ victim.place := by
  induction victims generalizing root with
  | nil => simp [removals]
  | cons victim victims inductionHypothesis =>
      have here : ∀ {scopeRoot name : String}, directory.isAt scopeRoot name = false ↔
          directory.place ≠ (scopeRoot, name) := by
        intro scopeRoot name
        rw [Ne, ← isAt_iff, Bool.not_eq_true]
      rw [removals, List.map_cons, applyAll_cons, ← removals, inductionHypothesis, FileOp.apply,
        mem_delete, here, List.forall_mem_cons, and_assoc]
      rfl

theorem take_removals (after : Nat) :
    (removals victims).take after = removals (victims.take after) := List.map_take.symm

theorem getElem?_removals (after : Nat) : (removals victims)[after]? =
    (victims[after]?).map fun victim => .removeDirectory victim.scopeRoot victim.name :=
  List.getElem?_map ..

theorem cleanup_removals : (removals victims).filterMap FileOp.cleanup = [] := by
  simp [removals, FileOp.cleanup, List.filterMap_map, Function.comp_def]

/-- Removals up to one that is done in part. -/
theorem interrupted_removals (after : Nat) (cut : Option Cut) :
    Fewer (fun directory => cut.isSome = true ∧
        ∃ victim ∈ victims[after]?, directory.place = victim.place)
      (Ending.interrupted root (removals victims) after cut) root := by
  have front := applyAll_removals_fewer root (victims.take after)
  cases cut with
  | none =>
      rw [Ending.interrupted, take_removals]
      exact front.mono fun _ _ never => never.elim
  | some cut =>
      rw [Ending.interrupted, take_removals, getElem?_removals]
      cases found : victims[after]? with
      | none => exact front.mono fun _ _ never => never.elim
      | some victim =>
          refine front.trans ((Fewer.interrupt cut victim.scopeRoot victim.name).mono ?_)
          exact fun directory _ here => ⟨rfl, victim, rfl, here⟩

/-- What is at no victim's place is there all the while. -/
theorem mem_interrupted_removals {after : Nat} {cut : Option Cut} {directory : Directory}
    (member : directory ∈ root)
    (apart : ∀ victim ∈ victims, directory.place ≠ victim.place) :
    directory ∈ Ending.interrupted root (removals victims) after cut := by
  have front : directory ∈ applyAll root (removals (victims.take after)) :=
    mem_applyAll_removals.mpr ⟨member, fun victim inside =>
      apart victim (List.mem_of_mem_take inside)⟩
  cases cut with
  | none =>
      rw [Ending.interrupted, take_removals]
      exact front
  | some cut =>
      rw [Ending.interrupted, take_removals, getElem?_removals]
      cases found : victims[after]? with
      | none => exact front
      | some victim =>
          refine mem_update.mpr ⟨directory, front, if_neg ?_⟩
          rw [isAt_iff]
          exact apart victim (List.mem_of_getElem? found)

end Removals

/-! ### Endings -/

section Endings

variable {root : List Directory} {victims : List CacheEntry} {tail : List FileOp}

theorem length_removals : (removals victims).length = victims.length := List.length_map _

theorem interrupted_front {after : Nat} {cut : Option Cut} (within : after < victims.length) :
    Ending.interrupted root (removals victims ++ tail) after cut =
      Ending.interrupted root (removals victims) after cut := by
  rw [← length_removals] at within
  cases cut with
  | none =>
      rw [Ending.interrupted, Ending.interrupted, List.take_append_of_le_length within.le]
  | some cut =>
      rw [Ending.interrupted, Ending.interrupted, List.take_append_of_le_length within.le,
        List.getElem?_append_left within]

theorem interrupted_back {after : Nat} {cut : Option Cut} (beyond : victims.length ≤ after) :
    Ending.interrupted root (removals victims ++ tail) after cut =
      Ending.interrupted (applyAll root (removals victims)) tail (after - victims.length) cut := by
  have split : (removals victims ++ tail).take after =
      removals victims ++ tail.take (after - victims.length) := by
    rw [List.take_append, length_removals, List.take_of_length_le (by rw [length_removals]; omega)]
  cases cut with
  | none => rw [Ending.interrupted, Ending.interrupted, split, applyAll_append]
  | some cut =>
      rw [Ending.interrupted, Ending.interrupted, split, applyAll_append,
        List.getElem?_append_right (by rw [length_removals]; omega), length_removals]

/-- Where a request ends, if it is not complete. -/
def Ending.stage : Ending → Option (Nat × Option Cut)
  | .complete => none
  | .fails after cut _ | .stops after cut | .abandons after cut _ => some (after, cut)

/-- A replacement of metadata is done or not, and cleaned up by nothing. -/
theorem interrupted_replace {scopeRoot name : String} {metadata : StoredCache} (after : Nat)
    (cut : Option Cut) :
    Ending.interrupted root [.replaceMetadata scopeRoot name metadata] after cut = root ∨
      Ending.interrupted root [.replaceMetadata scopeRoot name metadata] after cut =
        applyAll root [.replaceMetadata scopeRoot name metadata] := by
  cases after with
  | zero =>
      left
      cases cut with
      | none | some => rfl
  | succ after =>
      right
      cases cut with
      | none => rw [Ending.interrupted, List.take_of_length_le (by simp)]
      | some =>
          rw [Ending.interrupted, List.take_of_length_le (by simp), List.getElem?_eq_none (by simp)]
          rfl

theorem interrupted_nil (after : Nat) (cut : Option Cut) :
    Ending.interrupted root [] after cut = root := by
  cases cut with
  | none => rw [Ending.interrupted, List.take_nil, applyAll_nil]
  | some =>
      rw [Ending.interrupted, List.take_nil, List.getElem?_nil]
      rfl

theorem rootAfter_nil (ending : Ending) : ending.rootAfter root [] = root := by
  cases ending with
  | complete => rfl
  | fails after cut text =>
      rw [Ending.rootAfter, if_neg (by simp)]
      rfl
  | stops after cut => exact interrupted_nil ..
  | abandons after cut left =>
      rw [Ending.rootAfter, if_neg (by simp)]
      rfl

/-- How far a request comes that removes, and then at most replaces the metadata of an
entry: into the removals, or through all of them, or to its end. -/
theorem rootAfter_removals (single : tail = [] ∨ ∃ scopeRoot name metadata,
      tail = [.replaceMetadata scopeRoot name metadata]) (ending : Ending) :
    (∃ after cut, ending.stage = some (after, cut) ∧ after < victims.length ∧
      ending.rootAfter root (removals victims ++ tail) =
        Ending.interrupted root (removals victims) after cut) ∨
    ending.rootAfter root (removals victims ++ tail) = applyAll root (removals victims) ∨
    ending.rootAfter root (removals victims ++ tail) =
      applyAll root (removals victims ++ tail) := by
  have uncleaned : ∀ after, ((removals victims ++ tail).take after).filterMap FileOp.cleanup =
      [] := by
    intro after
    refine List.filterMap_eq_nil_iff.mpr fun op member => ?_
    rcases List.mem_append.mp (List.mem_of_mem_take member) with removal | last
    · exact List.filterMap_eq_nil_iff.mp cleanup_removals op removal
    · rcases single with rfl | ⟨scopeRoot, name, metadata, rfl⟩
      · cases last
      · rw [List.mem_singleton.mp last]
        rfl
  have stopped : ∀ after cut, (after < victims.length ∧
        Ending.interrupted root (removals victims ++ tail) after cut =
          Ending.interrupted root (removals victims) after cut) ∨
      Ending.interrupted root (removals victims ++ tail) after cut =
        applyAll root (removals victims) ∨
      Ending.interrupted root (removals victims ++ tail) after cut =
        applyAll root (removals victims ++ tail) := by
    intro after cut
    by_cases within : after < victims.length
    · exact .inl ⟨within, interrupted_front within⟩
    · rw [interrupted_back (Nat.not_lt.mp within), applyAll_append]
      right
      rcases single with rfl | ⟨scopeRoot, name, metadata, rfl⟩
      · exact .inl (interrupted_nil ..)
      · exact interrupted_replace ..
  have staged : ∀ after cut, ending.stage = some (after, cut) →
      ending.rootAfter root (removals victims ++ tail) =
        Ending.interrupted root (removals victims ++ tail) after cut ∨
      ending.rootAfter root (removals victims ++ tail) =
        applyAll root (removals victims ++ tail) := by
    intro after cut isStage
    cases ending with
    | complete => cases isStage
    | fails reached partly text =>
        cases isStage
        rw [Ending.rootAfter]
        split
        · rw [uncleaned]
          exact .inl rfl
        · exact .inr rfl
    | stops reached partly =>
        cases isStage
        exact .inl rfl
    | abandons reached partly left =>
        cases isStage
        rw [Ending.rootAfter]
        split
        · rw [uncleaned]
          exact .inl rfl
        · exact .inr rfl
  cases isStage : ending.stage with
  | none =>
      cases ending with
      | complete => exact .inr (.inr rfl)
      | fails | stops | abandons => cases isStage
  | some stage =>
      rcases staged stage.1 stage.2 isStage with same | same
      · rw [same]
        rcases stopped stage.1 stage.2 with ⟨within, front⟩ | later
        · exact .inl ⟨stage.1, stage.2, rfl, within, front⟩
        · exact .inr later
      · exact .inr (.inr same)

/-- The temporary directory of a publication that does not come to its end. -/
structure Unpublished (scopeRoot temporary : String) (content : Bytes) (metadata : StoredCache)
    (torn : Prop) (directory : Directory) : Prop where
  place : directory.place = (scopeRoot, temporary)
  metadata : directory.metadata = none ∨
    directory.metadata = some (.written metadata) ∨
    torn ∧ ∃ error, directory.metadata = some (.torn error)
  archive : directory.archive = none ∨ directory.archive = some content

variable {scopeRoot temporary final : String} {content : Bytes} {metadata : StoredCache}

/-- The steps of a publication. -/
theorem interrupted_publication (vacant : Vacant root scopeRoot temporary) (after : Nat)
    (cut : Option Cut) :
    let pub := publication scopeRoot temporary final content metadata
    (after = 0 ∧ Ending.interrupted root pub after cut = root) ∨
    (0 < after ∧ after < 4 ∧ ∃ directory,
      Unpublished scopeRoot temporary content metadata (after = 2 ∧ cut.isSome = true) directory ∧
      Ending.interrupted root pub after cut = root ++ [directory]) ∨
    (4 ≤ after ∧ Ending.interrupted root pub after cut = applyAll root pub) := by
  intro pub
  have created : ∀ set : Directory → Directory, ∀ directory : Directory,
      directory.place = (scopeRoot, temporary) →
      update (root ++ [directory]) (·.isAt scopeRoot temporary) set = root ++ [set directory] :=
    fun set directory place => vacant.update_new set (isAt_iff.mpr place)
  have moved : applyAll root (pub.take 2) = root ++
      [{ scopeRoot := scopeRoot, name := temporary, archive := some content }] := created _ _ rfl
  rcases after with _ | _ | _ | _ | after
  · refine .inl ⟨rfl, ?_⟩
    cases cut with
    | none | some => rfl
  · refine .inr (.inl ⟨by omega, by omega, { scopeRoot := scopeRoot, name := temporary }, ?_, ?_⟩)
    · exact ⟨rfl, .inl rfl, .inl rfl⟩
    · cases cut with
      | none | some => rfl
  · cases cut with
    | none =>
        refine .inr (.inl ⟨by omega, by omega,
          { scopeRoot := scopeRoot, name := temporary, archive := some content },
          ⟨rfl, .inl rfl, .inr rfl⟩, moved⟩)
    | some cut =>
        refine .inr (.inl ⟨by omega, by omega,
          { scopeRoot := scopeRoot, name := temporary, metadata := some (.torn cut.error)
            archive := some content },
          ⟨rfl, .inr (.inr ⟨⟨rfl, rfl⟩, cut.error, rfl⟩), .inr rfl⟩, ?_⟩)
        have torn : Ending.interrupted root pub 2 (some cut) =
            update (applyAll root (pub.take 2)) (·.isAt scopeRoot temporary)
              fun directory => { directory with metadata := some (.torn cut.error) } := rfl
        exact torn.trans ((congrArg (update · _ _) moved).trans (created _ _ rfl))
  · have written : applyAll root (pub.take 3) = root ++
        [{ scopeRoot := scopeRoot, name := temporary, metadata := some (.written metadata)
           archive := some content }] := by
      have last : applyAll root (pub.take 3) = update (applyAll root (pub.take 2))
          (·.isAt scopeRoot temporary) fun directory =>
            { directory with metadata := some (.written metadata) } := rfl
      rw [last, moved, created _ _ rfl]
    refine .inr (.inl ⟨by omega, by omega,
      { scopeRoot := scopeRoot, name := temporary, metadata := some (.written metadata)
        archive := some content }, ⟨rfl, .inr (.inl rfl), .inr rfl⟩, ?_⟩)
    rw [← written]
    cases cut with
    | none | some => rfl
  · have all : pub.take (after + 4) = pub := List.take_of_length_le (by simp [pub, publication])
    refine .inr (.inr ⟨by omega, ?_⟩)
    cases cut with
    | none => rw [Ending.interrupted, all]
    | some =>
        rw [Ending.interrupted, all, List.getElem?_eq_none (by simp [pub, publication])]
        rfl

theorem cleanup_publication {after : Nat} (begun : 0 < after) :
    ((publication scopeRoot temporary final content metadata).take after).filterMap
      FileOp.cleanup = [.removeDirectory scopeRoot temporary] := by
  obtain ⟨later, rfl⟩ := Nat.exists_eq_add_of_lt begun
  rw [Nat.zero_add, publication, List.take_succ_cons, List.filterMap_cons]
  dsimp only [FileOp.cleanup]
  refine congrArg _ (List.filterMap_eq_nil_iff.mpr fun op member => ?_)
  have listed := List.mem_of_mem_take member
  simp only [List.mem_cons, List.not_mem_nil, or_false] at listed
  rcases listed with rfl | rfl | rfl <;> rfl

/-- What a failed publication has made is removed again. -/
theorem delete_unpublished (vacant : Vacant root scopeRoot temporary) {directory : Directory}
    (place : directory.place = (scopeRoot, temporary)) :
    applyAll (root ++ [directory]) [.removeDirectory scopeRoot temporary] = root := by
  have kept : delete root (·.isAt scopeRoot temporary) = root := by
    refine List.filter_eq_self.mpr fun other member => ?_
    simpa using List.any_eq_false.mp vacant other member
  rw [applyAll_cons, applyAll_nil, FileOp.apply, delete, List.filter_append, ← delete, kept]
  simp [isAt_iff.mpr place]

theorem Unpublished.mono {torn worse : Prop} {directory : Directory}
    (unpublished : Unpublished scopeRoot temporary content metadata torn directory)
    (weaker : torn → worse) : Unpublished scopeRoot temporary content metadata worse directory :=
  ⟨unpublished.place, unpublished.metadata.imp_right (Or.imp_right (And.imp_left weaker)),
    unpublished.archive⟩

/-- The cleanup of it may not come to its end either. -/
theorem Unpublished.interrupt (vacant : Vacant root scopeRoot temporary) (left : Cut)
    {torn : Prop} {directory : Directory}
    (unpublished : Unpublished scopeRoot temporary content metadata torn directory) :
    ∃ rest, Unpublished scopeRoot temporary content metadata torn rest ∧
      (FileOp.removeDirectory scopeRoot temporary).interrupt left (root ++ [directory]) =
        root ++ [rest] := by
  refine ⟨{ directory with
    metadata := if left.metadata then directory.metadata else none
    archive := if left.archive then directory.archive else none }, ⟨unpublished.place, ?_, ?_⟩,
    vacant.update_new _ (isAt_iff.mpr unpublished.place)⟩
  · dsimp only
    split
    · exact unpublished.metadata
    · exact .inl rfl
  · dsimp only
    split
    · exact unpublished.archive
    · exact .inl rfl

/-- How far a commit comes that publishes. -/
theorem rootAfter_publication
    (vacant : Vacant (applyAll root (removals victims)) scopeRoot temporary) (ending : Ending) :
    let ops := removals victims ++ publication scopeRoot temporary final content metadata
    (∃ after cut, ending.stage = some (after, cut) ∧ after < victims.length ∧
      ending.rootAfter root ops = Ending.interrupted root (removals victims) after cut) ∨
    ((∃ after cut, ending.stage = some (after, cut) ∧ victims.length ≤ after ∧
        after < ops.length) ∧
      ending.rootAfter root ops = applyAll root (removals victims)) ∨
    (∃ after cut directory, ending.isStop = true ∧ ending.stage = some (after, cut) ∧
      Unpublished scopeRoot temporary content metadata
        (after = victims.length + 2 ∧ cut.isSome = true) directory ∧
      ending.rootAfter root ops = applyAll root (removals victims) ++ [directory]) ∨
    ((∀ after cut text, ending = .fails after cut text → ops.length ≤ after) ∧
      ending.rootAfter root ops = applyAll root ops) := by
  intro ops
  have length : ops.length = victims.length + 4 := by
    simp [ops, removals, publication]
  have front : ∀ after, after < victims.length → (ops.take after).filterMap FileOp.cleanup =
      [] := by
    intro after within
    rw [List.take_append_of_le_length (by rw [length_removals]; omega), take_removals,
      cleanup_removals]
  have back : ∀ after, victims.length ≤ after → (ops.take after).filterMap FileOp.cleanup =
      ((publication scopeRoot temporary final content metadata).take
        (after - victims.length)).filterMap FileOp.cleanup := by
    intro after beyond
    rw [List.take_append, length_removals, List.filterMap_append, List.take_of_length_le
      (by rw [length_removals]; omega), cleanup_removals, List.nil_append]
  cases ending with
  | complete => exact .inr (.inr (.inr ⟨(fun _ _ _ same => by cases same), rfl⟩))
  | fails after cut text =>
      rw [Ending.rootAfter, length]
      by_cases early : after < victims.length
      · rw [if_pos (by omega), front after early, applyAll_nil, interrupted_front early]
        exact .inl ⟨after, cut, rfl, early, rfl⟩
      by_cases within : after < victims.length + 4
      · rw [if_pos within, back after (by omega), interrupted_back (by omega)]
        refine .inr (.inl ⟨⟨after, cut, rfl, by omega, within⟩, ?_⟩)
        rcases interrupted_publication vacant (after - victims.length) cut with
          ⟨start, same⟩ | ⟨begun, -, directory, unpublished, same⟩ | ⟨beyond, -⟩
        · rw [same, start]
          rfl
        · rw [same, cleanup_publication begun]
          exact delete_unpublished vacant unpublished.place
        · omega
      · rw [if_neg within]
        refine .inr (.inr (.inr ⟨?_, rfl⟩))
        rintro _ _ _ ⟨⟩
        exact Nat.not_lt.mp within
  | stops after cut =>
      rw [Ending.rootAfter]
      by_cases early : after < victims.length
      · rw [interrupted_front early]
        exact .inl ⟨after, cut, rfl, early, rfl⟩
      · rw [interrupted_back (by omega)]
        rcases interrupted_publication vacant (after - victims.length) cut with
          ⟨start, same⟩ | ⟨begun, -, directory, unpublished, same⟩ | ⟨-, same⟩
        · exact .inr (.inl ⟨⟨after, cut, rfl, by omega, by omega⟩, same⟩)
        · refine .inr (.inr (.inl ⟨after, cut, directory, rfl, rfl, ?_, same⟩))
          exact unpublished.mono fun torn => ⟨by omega, torn.2⟩
        · refine .inr (.inr (.inr ⟨(fun _ _ _ stop => by cases stop), ?_⟩))
          rw [same, applyAll_append]
  | abandons after cut left =>
      rw [Ending.rootAfter, length]
      by_cases early : after < victims.length
      · rw [if_pos (by omega), front after early, interrupted_front early]
        exact .inl ⟨after, cut, rfl, early, rfl⟩
      by_cases within : after < victims.length + 4
      · rw [if_pos within, back after (by omega), interrupted_back (by omega)]
        rcases interrupted_publication vacant (after - victims.length) cut with
          ⟨start, same⟩ | ⟨begun, -, directory, unpublished, same⟩ | ⟨beyond, -⟩
        · rw [same, start]
          exact .inr (.inl ⟨⟨after, cut, rfl, by omega, within⟩, rfl⟩)
        · rw [same, cleanup_publication begun]
          obtain ⟨rest, unremoved, isRest⟩ := unpublished.interrupt vacant left
          refine .inr (.inr (.inl ⟨after, cut, rest, rfl, rfl, ?_, isRest⟩))
          exact unremoved.mono fun torn => ⟨by omega, torn.2⟩
        · omega
      · rw [if_neg within]
        exact .inr (.inr (.inr ⟨(fun _ _ _ stop => by cases stop), rfl⟩))

end Endings

/-! ### Sound roots -/

section Sound

variable [Sha256] {root after before : List Directory}

/-- Every directory has a place of its own; what metadata is there was written whole; a
directory whose name is not hidden has the name of its key and version; and an archive has
the size of its metadata. -/
structure Stored (root : List Directory) : Prop where
  distinct : (root.map Directory.place).Nodup
  untorn : ∀ directory ∈ root, ∀ error, directory.metadata ≠ some (.torn error)
  named : ∀ directory ∈ root, directory.hidden = false → ∀ metadata,
    directory.metadata = some (.written metadata) →
    directory.name = entryDigest metadata.cacheKey metadata.cacheVersion
  sized : ∀ directory ∈ root, ∀ metadata content,
    directory.metadata = some (.written metadata) → directory.archive = some content →
    content.length = metadata.size

omit [Sha256] in
theorem Directory.hidden_of_place {directory other : Directory}
    (same : directory.place = other.place) : directory.hidden = other.hidden := by
  rw [Directory.hidden, Directory.hidden, show directory.name = other.name from
    congrArg Prod.snd same]

omit [Sha256] in
theorem scan_of_untorn (untorn : ∀ directory ∈ root, ∀ error,
      directory.metadata ≠ some (.torn error)) :
    scanCacheEntries root = .ok (entriesOf root) := by
  induction root with
  | nil => rfl
  | cons directory root inductionHypothesis =>
      have later := inductionHypothesis fun other member =>
        untorn other (List.mem_cons_of_mem _ member)
      have here := untorn directory List.mem_cons_self
      have all : entriesOf (directory :: root) =
          directory.entry?.toList ++ entriesOf root := by
        rw [entriesOf, List.filterMap_cons, ← entriesOf]
        cases directory.entry? with
        | none | some => rfl
      rw [scanCacheEntries, later, all]
      split
      · next error isTorn => exact absurd isTorn (here error)
      · rfl

theorem Stored.fewer {cut : Directory → Prop} (stored : Stored before)
    (fewer : Fewer cut after before) : Stored after := by
  refine ⟨fewer.distinct stored.distinct, ?_, ?_, ?_⟩
  · intro left member error isTorn
    rcases fewer.parts left member with old | ⟨whole, present, -, -, gone | kept, -⟩
    · exact stored.untorn left old error isTorn
    · rw [gone] at isTorn
      cases isTorn
    · exact stored.untorn whole present error (kept ▸ isTorn)
  · intro left member visible metadata written
    rcases fewer.parts left member with old | ⟨whole, present, -, place, gone | kept, -⟩
    · exact stored.named left old visible metadata written
    · rw [gone] at written
      cases written
    · rw [show left.name = whole.name from congrArg Prod.snd place]
      exact stored.named whole present (Directory.hidden_of_place place ▸ visible) metadata
        (kept ▸ written)
  · intro left member metadata content written there
    rcases fewer.parts left member with old | ⟨whole, present, -, -, gone | kept, lost | held⟩
    · exact stored.sized left old metadata content written there
    · rw [gone] at written
      cases written
    · rw [gone] at written
      cases written
    · rw [lost] at there
      cases there
    · exact stored.sized whole present metadata content (kept ▸ written) (held ▸ there)

/-- A directory is added at a vacant place. -/
theorem Stored.add {directory : Directory} (stored : Stored root)
    (vacant : Vacant root directory.scopeRoot directory.name)
    (untorn : ∀ error, directory.metadata ≠ some (.torn error))
    (named : directory.hidden = false → ∀ metadata,
      directory.metadata = some (.written metadata) →
      directory.name = entryDigest metadata.cacheKey metadata.cacheVersion)
    (sized : ∀ metadata content, directory.metadata = some (.written metadata) →
      directory.archive = some content → content.length = metadata.size) :
    Stored (root ++ [directory]) := by
  have split : ∀ {other : Directory}, other ∈ root ++ [directory] →
      other ∈ root ∨ other = directory := by
    intro other member
    rcases List.mem_append.mp member with old | new
    · exact .inl old
    · exact .inr (List.mem_singleton.mp new)
  refine ⟨?_, ?_, ?_, ?_⟩
  · refine nodup_key_append stored.distinct fun other member same => ?_
    exact List.any_eq_false.mp vacant other member (isAt_iff.mpr same)
  · intro other member
    rcases split member with old | rfl
    · exact stored.untorn other old
    · exact untorn
  · intro other member
    rcases split member with old | rfl
    · exact stored.named other old
    · exact named
  · intro other member
    rcases split member with old | rfl
    · exact stored.sized other old
    · exact sized

/-- The metadata of a directory is replaced by one of the same key, version and size. -/
theorem Stored.replace {scopeRoot name : String} {old new : StoredCache} (stored : Stored root)
    (present : ∃ directory ∈ root, directory.place = (scopeRoot, name) ∧
      directory.metadata = some (.written old))
    (key : new.cacheKey = old.cacheKey) (version : new.cacheVersion = old.cacheVersion)
    (size : new.size = old.size) :
    Stored ((FileOp.replaceMetadata scopeRoot name new).apply root) := by
  obtain ⟨origin, isOrigin, isPlace, isOld⟩ := present
  have only : ∀ directory ∈ root, directory.isAt scopeRoot name = true →
      directory.metadata = some (.written old) := by
    intro directory member here
    rw [eq_of_place stored.distinct member isOrigin ((isAt_iff.mp here).trans isPlace.symm)]
    exact isOld
  refine ⟨?_, ?_, ?_, ?_⟩
  · exact nodup_key_update (fun _ _ _ => rfl) stored.distinct
  · refine forall_update stored.untorn fun directory _ _ _ error isTorn => ?_
    cases isTorn
  · intro directory member
    obtain ⟨whole, there, rfl⟩ := mem_update.mp member
    split
    · next here =>
        intro visible metadata written
        cases written
        rw [key, version]
        exact stored.named whole there visible old (only whole there here)
    · exact stored.named whole there
  · intro directory member
    obtain ⟨whole, there, rfl⟩ := mem_update.mp member
    split
    · next here =>
        intro metadata content written archived
        cases written
        rw [size]
        exact stored.sized whole there old content (only whole there here) archived
    · exact stored.sized whole there

theorem entryDigest_visible (key version : String) :
    (entryDigest key version).toList.head? ≠ some '.' := by
  unfold entryDigest Artifacts.hexDigest
  cases Sha256.digest (key ++ "\x00" ++ version).toUTF8.data.toList with
  | nil => simp
  | cons byte rest => simp [Artifacts.hexByte, String.join_cons]

omit [Sha256] in
theorem temporaryName_hidden (digest uuid : String) :
    (temporaryName digest uuid).toList.head? = some '.' := by
  simp [temporaryName]

end Sound

/-! ### The operations of a request -/

section Shapes

variable [Sha256] {service : CacheService} {root : List Directory} {readings : Readings}

omit [Sha256] in
theorem removals_append (first second : List CacheEntry) :
    removals (first ++ second) = removals first ++ removals second := List.map_append

omit [Sha256] in
theorem newest_mem {entries : List CacheEntry} {entry : CacheEntry}
    (isNewest : newest entries = some entry) : entry ∈ entries :=
  List.mem_mergeSort.mp (List.mem_of_head? isNewest)

omit [Sha256] in
theorem matchCache_mem {entries : List CacheEntry} {version : String} {keys : List String}
    {entry : CacheEntry} (matched : matchCache entries version keys = some entry) :
    entry ∈ entries := by
  induction keys with
  | nil => cases matched
  | cons key keys inductionHypothesis =>
      rw [matchCache] at matched
      split at matched
      · next found =>
          cases matched
          exact List.mem_of_mem_filter (newest_mem found)
      · split at matched
        · next found =>
            cases matched
            exact List.mem_of_mem_filter (newest_mem found)
        · exact inductionHypothesis matched

/-- What a request other than a commit does to the root: it discards what has expired, and
a lookup notes the access to the entry that it finds. -/
theorem plan_reads {request : Request} (reads : ∀ id size, request ≠ .commit id size) :
    ∃ victims tail, (plan service root readings request).ops = removals victims ++ tail ∧
      (victims = [] ∨ victims = discarded service root readings) ∧
      (tail = [] ∨ ∃ entry ∈ retained service root readings, tail =
        [.replaceMetadata entry.scopeRoot entry.name
          { entry.metadata with lastAccessedTime := readings.access }]) := by
  cases request with
  | commit id size => exact absurd rfl (reads id size)
  | upload id contentRange body => exact ⟨[], [], rfl, .inl rfl, .inl rfl⟩
  | list key =>
      dsimp only [plan, listCaches]
      split
      · exact ⟨[], [], rfl, .inl rfl, .inl rfl⟩
      · exact ⟨_, [], (List.append_nil _).symm, .inr rfl, .inl rfl⟩
  | reserve key version cacheSize =>
      rcases reserveCache_cases key version cacheSize with
        ⟨error, same⟩ | ⟨-, same⟩ | ⟨-, same⟩
      · rw [plan, same]
        exact ⟨[], [], rfl, .inl rfl, .inl rfl⟩
      · rw [plan, same]
        exact ⟨_, [], (List.append_nil _).symm, .inr rfl, .inl rfl⟩
      · rw [plan, same]
        exact ⟨_, [], (List.append_nil _).symm, .inr rfl, .inl rfl⟩
  | lookup keys version =>
      dsimp only [plan, lookupCache]
      split
      · exact ⟨[], [], rfl, .inl rfl, .inl rfl⟩
      · split
        · exact ⟨[], [], rfl, .inl rfl, .inl rfl⟩
        · split
          · exact ⟨[], [], rfl, .inl rfl, .inl rfl⟩
          · split
            · exact ⟨_, [], (List.append_nil _).symm, .inr rfl, .inl rfl⟩
            · next entry matched =>
                exact ⟨_, _, rfl, .inr rfl, .inr ⟨entry, matchCache_mem matched, rfl⟩⟩

/-- The entries that a commit of the size removes when it comes to its eviction. -/
def commitVictims (service : CacheService) (root : List Directory) (readings : Readings)
    (size : Nat) : List CacheEntry :=
  discarded service root readings ++ (evicted service readings size
    (entriesOf (applyAll root (removals (discarded service root readings))))).1

/-- The total that its eviction leaves. -/
def commitTotal (service : CacheService) (root : List Directory) (readings : Readings)
    (size : Nat) : Nat :=
  (evicted service readings size
    (entriesOf (applyAll root (removals (discarded service root readings))))).2

/-- What a commit does to a root without torn metadata. -/
theorem commitReservation_shape {reservation : Reservation} {size : Nat}
    (untorn : ∀ directory ∈ root, ∀ error, directory.metadata ≠ some (.torn error)) :
    ((commitReservation service root readings reservation size).ops = []) ∨
    ((commitReservation service root readings reservation size).ops =
      removals (discarded service root readings)) ∨
    ∃ content, reservation.upload = some content ∧ content.length = size ∧
      (retained service root readings).any (·.isFor reservation.key reservation.version) =
        false ∧
      let cleared := applyAll root (removals (commitVictims service root readings size))
      (((∃ error, commitReservation service root readings reservation size =
            ⟨removals (commitVictims service root readings size), .failed error⟩) ∧
          (service.limits.maximumBytes <
              saturatingAdd (commitTotal service root readings size) size ∨
            ¬ Vacant cleared service.scopeRoot (finalName reservation) ∨
            ¬ Vacant cleared service.scopeRoot (temporaryOf readings reservation))) ∨
        (saturatingAdd (commitTotal service root readings size) size ≤
            service.limits.maximumBytes ∧
          Vacant cleared service.scopeRoot (finalName reservation) ∧
          Vacant cleared service.scopeRoot (temporaryOf readings reservation) ∧
          commitReservation service root readings reservation size =
            ⟨removals (commitVictims service root readings size) ++
              publication service.scopeRoot (temporaryOf readings reservation)
                (finalName reservation) content
                (storedCache service readings reservation size), .noContent⟩)) := by
  have scanned : scanCacheEntries (applyAll root (removals (discarded service root readings))) =
      .ok (entriesOf (applyAll root (removals (discarded service root readings)))) := by
    refine scan_of_untorn fun directory member => untorn directory ?_
    exact (mem_applyAll_removals.mp member).1
  rcases commitReservation_cases reservation size with
    ⟨-, same⟩ | ⟨error, same⟩ | ⟨content, -, -, uploaded, length, ⟨-, same⟩ | ⟨free, same⟩⟩
  · rw [same]
    exact .inl rfl
  · rw [same]
    exact .inl rfl
  · rw [same]
    exact .inr (.inl rfl)
  · refine .inr (.inr ⟨content, uploaded, length, free, ?_⟩)
    rw [commitVictims, commitTotal, removals_append, applyAll_append, same]
    rcases publish_cases reservation content size with
      ⟨error, torn, -⟩ | ⟨entries, isScan, outcome⟩
    · rw [scanned] at torn
      cases torn
    · rw [scanned] at isScan
      cases isScan
      rcases outcome with ⟨error, refused, why⟩ | ⟨fits, final, temporary, done⟩
      · rw [refused]
        exact .inl ⟨⟨error, rfl⟩, why⟩
      · rw [done]
        refine .inr ⟨fits, final, temporary, ?_⟩
        rw [List.append_assoc]

end Shapes

end GitZero.Agent.CacheStore
