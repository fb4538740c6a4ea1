/-
Module: GitZero.Proofs.CacheEviction
Purpose: The entries of the cache root over every run of requests: one for a key and a
  version, unchanged while it exists, all within the limit after a commit, and evicted only
  when expired or in the way, where no commit can fail behind its eviction.
Trusted boundary: none
Main exports: evict_removed, Roomy, Kept, cache_store_kept, shared_name_evicts
-/
import GitZero.Lib.BoundedSums
import GitZero.Lib.Machine
import GitZero.Proofs.CacheRoots

namespace GitZero.Agent.CacheStore

open Machine Table BoundedSums
open Artifacts (Bytes Sha256 u64Max saturatingAdd)

/-! ### Sizes -/

/-- The sizes of the entries together. -/
def storedSize (entries : List CacheEntry) : Nat := (entries.map (·.metadata.size)).sum

section Sizes

variable {entries : List CacheEntry}

theorem storedSize_cons (entry : CacheEntry) (entries : List CacheEntry) :
    storedSize (entry :: entries) = entry.metadata.size + storedSize entries := rfl

theorem storedSize_append (first second : List CacheEntry) :
    storedSize (first ++ second) = storedSize first + storedSize second := by
  rw [storedSize, List.map_append, List.sum_append]
  rfl

theorem storedSize_perm {others : List CacheEntry} (perm : entries.Perm others) :
    storedSize entries = storedSize others := (perm.map _).sum_eq

theorem storedSize_sublist {part : List CacheEntry} (sublist : part.Sublist entries) :
    storedSize part ≤ storedSize entries :=
  (sublist.map _).sum_le_sum fun _ _ => Nat.zero_le _

/-- Distinct entries of a list are not larger than the list. -/
theorem storedSize_le {part : List CacheEntry} (distinct : part.Nodup)
    (subset : part ⊆ entries) : storedSize part ≤ storedSize entries := by
  obtain ⟨rearranged, perm, sublist⟩ := List.subperm_of_subset distinct subset
  rw [← storedSize_perm perm]
  exact storedSize_sublist sublist

theorem totalSize_le (entries : List CacheEntry) : totalSize entries ≤ storedSize entries :=
  (cappedSum_eq u64Max (fun entry : CacheEntry => entry.metadata.size) entries).trans_le
    (Nat.min_le_left _ _)

theorem totalSize_eq (small : storedSize entries ≤ u64Max) :
    totalSize entries = storedSize entries :=
  (cappedSum_eq u64Max (fun entry : CacheEntry => entry.metadata.size) entries).trans
    (Nat.min_eq_left small)

end Sizes

/-! ### The eviction -/

section Eviction

variable {now maximum required total : Nat} {entries : List CacheEntry}

theorem evict_subset : (evict now maximum required total entries).1.Sublist entries := by
  induction entries generalizing total with
  | nil => exact List.Sublist.slnil
  | cons entry entries inductionHypothesis =>
      rw [evict]
      split
      · exact inductionHypothesis.cons_cons _
      · exact inductionHypothesis.cons _

/-- An eviction that finds room removes what has expired. -/
theorem expired_of_room (room : saturatingAdd total required ≤ maximum) :
    ∀ entry ∈ (evict now maximum required total entries).1, entry.expired now = true := by
  induction entries generalizing total with
  | nil => exact fun _ member => by cases member
  | cons entry entries inductionHypothesis =>
      rw [evict]
      split
      · next removed =>
          have gone : entry.expired now = true := by
            simpa [Nat.not_lt.mpr room] using removed
          intro other member
          rcases List.mem_cons.mp member with rfl | later
          · exact gone
          · refine inductionHypothesis ?_ other later
            unfold saturatingAdd at room ⊢
            omega
      · exact inductionHypothesis room

/-- What is removed has expired; or what is before it is removed too, and from it on there
is not enough room. -/
theorem evict_removed (counted : total = storedSize entries) {entry : CacheEntry}
    (removed : entry ∈ (evict now maximum required total entries).1) :
    entry.expired now = true ∨ ∃ front back, entries = front ++ entry :: back ∧
      (∀ older ∈ front, older ∈ (evict now maximum required total entries).1) ∧
      maximum < storedSize (entry :: back) + required := by
  induction entries generalizing total with
  | nil => cases removed
  | cons first entries inductionHypothesis =>
      rw [storedSize_cons] at counted
      rw [evict] at removed ⊢
      split at removed
      · next gone =>
          rw [if_pos gone]
          rcases List.mem_cons.mp removed with rfl | later
          · rcases Bool.or_eq_true_iff.mp gone with expired | full
            · exact .inl expired
            · refine .inr ⟨[], entries, rfl, (fun _ member => by cases member), ?_⟩
              have isFull := of_decide_eq_true full
              rw [storedSize_cons, ← counted]
              unfold saturatingAdd at isFull
              omega
          · rcases inductionHypothesis (by omega) later with expired | ⟨front, back, rfl, all, full⟩
            · exact .inl expired
            · refine .inr ⟨first :: front, back, rfl, fun older member => ?_, full⟩
              rcases List.mem_cons.mp member with rfl | inside
              · exact List.mem_cons_self
              · exact List.mem_cons_of_mem _ (all older inside)
      · next kept =>
          -- There is room already, so that only the expired go.
          refine .inl (expired_of_room ?_ entry removed)
          simp only [Bool.or_eq_true, decide_eq_true_eq, not_or, Nat.not_lt] at kept
          exact kept.2

theorem evict_total (counted : total = storedSize entries) :
    (evict now maximum required total entries).2 +
      storedSize (evict now maximum required total entries).1 = storedSize entries := by
  have run : ∀ {total : Nat} (entries : List CacheEntry), storedSize entries ≤ total →
      (evict now maximum required total entries).2 +
        storedSize (evict now maximum required total entries).1 = total := by
    intro total entries
    induction entries generalizing total with
    | nil => exact fun _ => rfl
    | cons entry entries inductionHypothesis =>
        intro enough
        rw [storedSize_cons] at enough
        rw [evict]
        split
        · have later := @inductionHypothesis (total - entry.metadata.size) (by omega)
          dsimp only
          rw [storedSize_cons]
          omega
        · exact inductionHypothesis (by omega)
  rw [run entries counted.ge, counted]

/-- The eviction makes room for what fits at all. -/
theorem evict_fits (counted : total ≤ storedSize entries) (fits : required ≤ maximum) :
    saturatingAdd (evict now maximum required total entries).2 required ≤ maximum := by
  induction entries generalizing total with
  | nil =>
      have none : total ≤ 0 := counted
      rw [evict]
      unfold saturatingAdd
      omega
  | cons entry entries inductionHypothesis =>
      rw [storedSize_cons] at counted
      rw [evict]
      split
      · exact inductionHypothesis (by omega)
      · next kept =>
          simp only [Bool.or_eq_true, decide_eq_true_eq, not_or, Nat.not_lt] at kept
          have smaller : ∀ {total : Nat} (entries : List CacheEntry),
              (evict now maximum required total entries).2 ≤ total := by
            intro total entries
            induction entries generalizing total with
            | nil => exact Nat.le_refl _
            | cons entry entries inductionHypothesis =>
                rw [evict]
                split
                · exact (@inductionHypothesis (total - entry.metadata.size)).trans
                    (Nat.sub_le _ _)
                · exact inductionHypothesis
          have less := @smaller total entries
          have room := kept.2
          unfold saturatingAdd at room ⊢
          omega

theorem evict_expires {entry : CacheEntry} (member : entry ∈ entries)
    (isExpired : entry.expired now = true) :
    entry ∈ (evict now maximum required total entries).1 := by
  induction entries generalizing total with
  | nil => cases member
  | cons first entries inductionHypothesis =>
      rw [evict]
      rcases List.mem_cons.mp member with rfl | behind
      · rw [if_pos (by simp [isExpired])]
        exact List.mem_cons_self
      · split
        · exact List.mem_cons_of_mem _ (inductionHypothesis behind)
        · exact inductionHypothesis behind

/-- The order of the eviction: no entry is accessed later than one behind it. -/
theorem sorted_by_access (entries : List CacheEntry) :
    (entries.mergeSort CacheEntry.before).Pairwise fun left right =>
      left.metadata.lastAccessedTime ≤ right.metadata.lastAccessedTime := by
  refine List.Pairwise.imp ?_ (List.pairwise_mergeSort ?_ ?_ entries)
  · intro left right ordered
    simp only [CacheEntry.before, Bool.or_eq_true, decide_eq_true_eq, Bool.and_eq_true] at ordered
    omega
  · intro first second third one two
    simp only [CacheEntry.before, Bool.or_eq_true, decide_eq_true_eq, Bool.and_eq_true]
      at one two ⊢
    omega
  · intro left right
    simp only [CacheEntry.before, Bool.or_eq_true, decide_eq_true_eq, Bool.and_eq_true]
    omega

/-- Once there is room nothing is removed that has not expired, and what has expired is at
the front. -/
theorem evict_expired (sorted : entries.Pairwise fun left right =>
      left.metadata.lastAccessedTime ≤ right.metadata.lastAccessedTime)
    (counted : total = storedSize entries)
    (room : storedSize (entries.filter (!·.expired now)) + required ≤ maximum) :
    ∀ entry ∈ (evict now maximum required total entries).1, entry.expired now = true := by
  induction entries generalizing total with
  | nil => exact fun _ member => by cases member
  | cons first entries inductionHypothesis =>
      obtain ⟨least, later⟩ := List.pairwise_cons.mp sorted
      rw [storedSize_cons] at counted
      cases isExpired : first.expired now with
      | true =>
          rw [List.filter_cons_of_neg (by simp [isExpired])] at room
          rw [evict, if_pos (by simp [isExpired])]
          intro entry member
          rcases List.mem_cons.mp member with rfl | behind
          · exact isExpired
          · exact inductionHypothesis later (by omega) room entry behind
      | false =>
          -- Nothing behind has expired either, so that all of it counts.
          have all : (first :: entries).filter (!·.expired now) = first :: entries := by
            refine List.filter_eq_self.mpr fun entry member => ?_
            rcases List.mem_cons.mp member with rfl | behind
            · simp [isExpired]
            · have ordered := least entry behind
              simp only [CacheEntry.expired, decide_eq_false_iff_not, Nat.not_lt] at isExpired
              simp only [CacheEntry.expired, Bool.not_eq_true', decide_eq_false_iff_not,
                Nat.not_lt]
              omega
          rw [all, storedSize_cons] at room
          refine expired_of_room ?_
          unfold saturatingAdd
          omega

end Eviction

/-! ### What is removed -/

/-- Of the root are gone, as a whole or in part, directories of victims only. -/
structure Gone (victims : List CacheEntry) (after before : List Directory) : Prop where
  fewer : Fewer (fun directory => ∃ victim ∈ victims, directory.place = victim.place) after before
  kept : ∀ directory ∈ before, (∀ victim ∈ victims, directory.place ≠ victim.place) →
    directory ∈ after

namespace Gone

variable {victims : List CacheEntry} {before root : List Directory}

theorem refl (victims : List CacheEntry) (root : List Directory) : Gone victims root root :=
  ⟨.refl root, fun _ member _ => member⟩

theorem removals (victims : List CacheEntry) (root : List Directory) :
    Gone victims (applyAll root (CacheStore.removals victims)) root :=
  ⟨(applyAll_removals_fewer root victims).mono fun _ _ never => never.elim,
    fun _ member apart => mem_applyAll_removals.mpr ⟨member, apart⟩⟩

theorem interrupted (victims : List CacheEntry) (root : List Directory) (after : Nat)
    (cut : Option Cut) :
    Gone victims (Ending.interrupted root (CacheStore.removals victims) after cut) root := by
  refine ⟨(interrupted_removals after cut).mono ?_, fun directory member apart =>
    mem_interrupted_removals member apart⟩
  rintro directory - ⟨-, victim, found, same⟩
  exact ⟨victim, List.mem_of_getElem? found, same⟩

/-- However a request ends that removes and does nothing else. -/
theorem ending (victims : List CacheEntry) (root : List Directory) (ending : Ending) :
    Gone victims (ending.rootAfter root (CacheStore.removals victims)) root := by
  have ends := @rootAfter_removals root victims [] (.inl rfl) ending
  rw [List.append_nil] at ends
  rcases ends with ⟨after, cut, -, -, same⟩ | same | same
  · rw [same]
    exact interrupted ..
  · rw [same]
    exact removals ..
  · rw [same]
    exact removals ..

/-- An entry that is gone was at the place of a victim. -/
theorem victim (gone : Gone victims root before) {entry : CacheEntry}
    (present : entry ∈ entriesOf before) (absent : entry ∉ entriesOf root) :
    ∃ victim ∈ victims, entry.place = victim.place := by
  by_contra apart
  obtain ⟨directory, member, isEntry⟩ := mem_entriesOf.mp present
  refine absent (mem_entriesOf.mpr ⟨directory, gone.kept directory member ?_, isEntry⟩)
  intro victim inside same
  exact apart ⟨victim, inside, (entry?_eq_some.mp isEntry).1.symm.trans same⟩

end Gone

section Victims

variable {service : CacheService} {root : List Directory} {readings : Readings} {size : Nat}

/-- The entries that are left when the expired ones of the scope have been discarded. -/
def remaining (service : CacheService) (root : List Directory) (readings : Readings) :
    List CacheEntry :=
  entriesOf (applyAll root (removals (discarded service root readings)))

/-- What has not expired leaves room for the size. -/
def Room (service : CacheService) (root : List Directory) (readings : Readings)
    (size : Nat) : Prop :=
  storedSize ((remaining service root readings).filter (!·.expired readings.evict)) + size ≤
    service.limits.maximumBytes

/-- From the entry on there was not enough room, and what is before it, accessed no later,
is gone as well. -/
def Needed (service : CacheService) (root : List Directory) (readings : Readings) (size : Nat)
    (after : List CacheEntry) (entry : CacheEntry) : Prop :=
  ∃ front back, (front ++ entry :: back).Perm (remaining service root readings) ∧
    (front ++ entry :: back).Pairwise (fun left right =>
      left.metadata.lastAccessedTime ≤ right.metadata.lastAccessedTime) ∧
    (∀ older ∈ front, older ∉ after) ∧
    service.limits.maximumBytes < storedSize (entry :: back) + size

theorem remaining_subset : remaining service root readings ⊆ entriesOf root :=
  (applyAll_removals_fewer root _).entries

theorem entriesOf_nodup (distinct : (root.map Directory.place).Nodup) : (entriesOf root).Nodup :=
  List.Nodup.of_map _ (entriesOf_places distinct)

theorem remaining_nodup (distinct : (root.map Directory.place).Nodup) :
    (remaining service root readings).Nodup :=
  entriesOf_nodup ((applyAll_removals_fewer root _).distinct distinct)

theorem remaining_total (stored : (root.map Directory.place).Nodup)
    (small : storedSize (entriesOf root) ≤ u64Max) :
    totalSize (remaining service root readings) =
      storedSize ((remaining service root readings).mergeSort CacheEntry.before) := by
  rw [storedSize_perm (List.mergeSort_perm _ _)]
  exact totalSize_eq ((storedSize_le (remaining_nodup stored) remaining_subset).trans small)

theorem evicted_eq : evicted service readings size (remaining service root readings) =
    evict readings.evict service.limits.maximumBytes size
      (totalSize (remaining service root readings))
      ((remaining service root readings).mergeSort CacheEntry.before) := rfl

theorem evicted_remaining : (evicted service readings size (remaining service root readings)).1 ⊆
    remaining service root readings :=
  fun _ member => List.mem_mergeSort.mp (evict_subset.subset member)

theorem evicted_nodup (distinct : (root.map Directory.place).Nodup) :
    (evicted service readings size (remaining service root readings)).1.Nodup :=
  List.Nodup.sublist evict_subset
    ((List.mergeSort_perm _ _).nodup_iff.mpr (remaining_nodup distinct))

theorem commitVictims_subset : commitVictims service root readings size ⊆ entriesOf root := by
  intro victim member
  rcases List.mem_append.mp member with early | late
  · exact loadScopeEntries_subset _ (List.mem_of_mem_filter early)
  · exact remaining_subset (evicted_remaining late)

/-- What a commit leaves of the entries is no larger than its count. -/
theorem cleared_total (distinct : (root.map Directory.place).Nodup)
    (small : storedSize (entriesOf root) ≤ u64Max) :
    storedSize (entriesOf (applyAll root (removals (commitVictims service root readings size)))) ≤
      commitTotal service root readings size := by
  have counted := @remaining_total service root readings distinct small
  have total := @evict_total readings.evict service.limits.maximumBytes size _ _ counted
  rw [← evicted_eq, storedSize_perm (List.mergeSort_perm _ _)] at total
  rw [commitVictims, removals_append, applyAll_append]
  have first : ((applyAll root (removals (discarded service root readings))).map
      Directory.place).Nodup := (applyAll_removals_fewer root _).distinct distinct
  have cleared := applyAll_removals_fewer
    (applyAll root (removals (discarded service root readings)))
    (evicted service readings size (remaining service root readings)).1
  have parts : (entriesOf (applyAll (applyAll root (removals (discarded service root readings)))
        (removals (evicted service readings size (remaining service root readings)).1)) ++
      (evicted service readings size (remaining service root readings)).1).Nodup := by
    refine List.nodup_append.mpr ⟨entriesOf_nodup (cleared.distinct first),
      evicted_nodup distinct, ?_⟩
    rintro entry member other removed rfl
    obtain ⟨directory, left, isEntry⟩ := mem_entriesOf.mp member
    exact (mem_applyAll_removals.mp left).2 entry removed (entry?_eq_some.mp isEntry).1
  have sizes := storedSize_le parts (List.append_subset.mpr ⟨cleared.entries, evicted_remaining⟩)
  rw [storedSize_append] at sizes
  change storedSize _ ≤ (evicted service readings size (remaining service root readings)).2
  unfold remaining at sizes total ⊢
  omega

/-- A victim of a commit with room has expired. -/
theorem commitVictims_expired (distinct : (root.map Directory.place).Nodup)
    (small : storedSize (entriesOf root) ≤ u64Max) (room : Room service root readings size)
    {victim : CacheEntry} (member : victim ∈ commitVictims service root readings size) :
    victim.expired readings.discard = true ∨ victim.expired readings.evict = true := by
  rcases List.mem_append.mp member with early | late
  · exact .inl (List.mem_filter.mp early).2
  · refine .inr (evict_expired (sorted_by_access _) (remaining_total distinct small) ?_ victim late)
    rw [storedSize_perm ((List.mergeSort_perm _ _).filter _)]
    exact room

/-- A victim of a commit has expired or is in the way. -/
theorem commitVictims_needed (distinct : (root.map Directory.place).Nodup)
    (small : storedSize (entriesOf root) ≤ u64Max) {victim : CacheEntry}
    (member : victim ∈ commitVictims service root readings size) {after : List CacheEntry}
    (gone : ∀ other ∈ (evicted service readings size (remaining service root readings)).1,
      other ∉ after) :
    victim.expired readings.discard = true ∨ victim.expired readings.evict = true ∨
      Needed service root readings size after victim := by
  rcases List.mem_append.mp member with early | late
  · exact .inl (List.mem_filter.mp early).2
  · right
    rcases evict_removed (remaining_total distinct small) late with
      expired | ⟨front, back, split, removed, full⟩
    · exact .inl expired
    · refine .inr ⟨front, back, ?_, ?_, ?_, full⟩
      · rw [← split]
        exact List.mergeSort_perm _ _
      · rw [← split]
        exact sorted_by_access _
      · exact fun older inside => gone older (removed older inside)

theorem removes_victim {victims : List CacheEntry} {tail : List FileOp} {victim : CacheEntry}
    (member : victim ∈ victims) :
    .removeDirectory victim.scopeRoot victim.name ∈ removals victims ++ tail :=
  List.mem_append_left _ (List.mem_map_of_mem
    (f := fun victim : CacheEntry => FileOp.removeDirectory victim.scopeRoot victim.name) member)

theorem not_mem_cleared {victim : CacheEntry}
    (member : victim ∈ commitVictims service root readings size) : victim ∉
      entriesOf (applyAll root (removals (commitVictims service root readings size))) := by
  intro still
  obtain ⟨directory, left, isEntry⟩ := mem_entriesOf.mp still
  exact (mem_applyAll_removals.mp left).2 victim member (entry?_eq_some.mp isEntry).1

/-- What has not expired and is left by a commit that publishes leaves room for it. -/
theorem cleared_fits (distinct : (root.map Directory.place).Nodup)
    (small : storedSize (entriesOf root) ≤ u64Max)
    (room : Room service root readings size ∨ service.limits.maximumBytes < u64Max)
    (counted : saturatingAdd (commitTotal service root readings size) size ≤
      service.limits.maximumBytes) :
    storedSize (entriesOf (applyAll root (removals (commitVictims service root readings size)))) +
      size ≤ service.limits.maximumBytes := by
  rcases room with room | bounded
  · refine le_trans (Nat.add_le_add_right (storedSize_le ?_ ?_) size) room
    · exact entriesOf_nodup ((applyAll_removals_fewer root _).distinct distinct)
    · intro entry member
      obtain ⟨directory, left, isEntry⟩ := mem_entriesOf.mp member
      obtain ⟨present, apart⟩ := mem_applyAll_removals.mp left
      have place := (entry?_eq_some.mp isEntry).1
      have stays : entry ∈ remaining service root readings :=
        mem_entriesOf.mpr ⟨directory, mem_applyAll_removals.mpr ⟨present, fun victim early =>
          apart victim (List.mem_append_left _ early)⟩, isEntry⟩
      refine List.mem_filter.mpr ⟨stays, ?_⟩
      rw [Bool.not_eq_true']
      by_contra isExpired
      refine apart entry (List.mem_append_right _ ?_) place
      exact evict_expires (List.mem_mergeSort.mpr stays) (by simpa using isExpired)
  · have total := @cleared_total service root readings size distinct small
    unfold saturatingAdd at counted
    omega

end Victims

section Outcomes

variable [Sha256] {service : CacheService} {root : List Directory} {readings : Readings}
  {request : Request} {ending : Ending} {reservation : Reservation} {size : Nat}

/-- A request other than a commit removes what it discards at most, and then notes an
access. -/
theorem read_outcome (reads : ∀ id size, request ≠ .commit id size) (ending : Ending) :
    ∃ victims, (∀ victim ∈ victims, victim ∈ discarded service root readings) ∧
      (∀ victim ∈ victims, .removeDirectory victim.scopeRoot victim.name ∈
        (plan service root readings request).ops) ∧
      (Gone victims (ending.rootAfter root (plan service root readings request).ops) root ∨
        ∃ entry ∈ retained service root readings,
          ending.rootAfter root (plan service root readings request).ops =
            (FileOp.replaceMetadata entry.scopeRoot entry.name
              { entry.metadata with lastAccessedTime := readings.access }).apply
                (applyAll root (removals victims))) := by
  obtain ⟨victims, tail, isOps, which, single⟩ := plan_reads reads
  rw [isOps]
  refine ⟨victims, ?_, ?_, ?_⟩
  · intro victim member
    rcases which with rfl | rfl
    · cases member
    · exact member
  · exact fun victim member => List.mem_append_left _
      (List.mem_map_of_mem (f := fun victim : CacheEntry =>
        FileOp.removeDirectory victim.scopeRoot victim.name) member)
  · have alone : tail = [] ∨ ∃ scopeRoot name metadata,
        tail = [.replaceMetadata scopeRoot name metadata] := by
      rcases single with none | ⟨entry, -, replaced⟩
      · exact .inl none
      · exact .inr ⟨_, _, _, replaced⟩
    rcases rootAfter_removals alone ending with ⟨after, cut, -, -, same⟩ | same | same
    · rw [same]
      exact .inl (.interrupted ..)
    · rw [same]
      exact .inl (.removals ..)
    · rw [same]
      rcases single with rfl | ⟨entry, member, rfl⟩
      · rw [List.append_nil]
        exact .inl (.removals ..)
      · rw [applyAll_append]
        exact .inr ⟨entry, member, rfl⟩

/-- A commit that comes to its eviction finds room beside what has not expired; or its name
is free or that of an entry of its key and version, and none of its file operations fails
from the eviction on. -/
def CommitFits (service : CacheService) (root : List Directory) (readings : Readings)
    (reservation : Reservation) (size : Nat) (ending : Ending) : Prop :=
  ∀ content, reservation.upload = some content → content.length = size →
    (retained service root readings).any (·.isFor reservation.key reservation.version) = false →
    Room service root readings size ∨
    service.limits.maximumBytes < u64Max ∧
    (∀ directory ∈ root, directory.place = (service.scopeRoot, finalName reservation) →
      ∃ entry, directory.entry? = some entry ∧
        entry.isFor reservation.key reservation.version = true) ∧
    ∀ after cut text, ending = .fails after cut text →
      after < (discarded service root readings).length ∨
      (commitReservation service root readings reservation size).ops.length ≤ after

theorem final_visible {scopeRoot : String} {directory : Directory}
    (place : directory.place = (scopeRoot, finalName reservation)) : directory.hidden = false := by
  refine decide_eq_false ?_
  rw [show directory.name = finalName reservation from congrArg Prod.snd place]
  exact entryDigest_visible _ _

/-- The name of the entry is free once what has expired is gone. -/
theorem vacant_final (free : (retained service root readings).any
      (·.isFor reservation.key reservation.version) = false)
    (named : ∀ directory ∈ root, directory.place = (service.scopeRoot, finalName reservation) →
      ∃ entry, directory.entry? = some entry ∧
        entry.isFor reservation.key reservation.version = true) :
    Vacant (applyAll root (removals (commitVictims service root readings size)))
      service.scopeRoot (finalName reservation) := by
  refine List.any_eq_false.mpr fun directory left here => ?_
  obtain ⟨present, apart⟩ := mem_applyAll_removals.mp left
  have place := isAt_iff.mp here
  obtain ⟨entry, isEntry, isFor⟩ := named directory present place
  have listed : entry ∈ loadScopeEntries root service.scopeRoot :=
    mem_loadScopeEntries.mpr ⟨directory, present, congrArg Prod.fst place, final_visible place,
      isEntry⟩
  cases expired : entry.expired readings.discard with
  | true =>
      exact apart entry (List.mem_append_left _ (List.mem_filter.mpr ⟨listed, expired⟩))
        (entry?_eq_some.mp isEntry).1
  | false =>
      have kept : entry ∈ retained service root readings :=
        List.mem_filter.mpr ⟨listed, by simp [expired]⟩
      exact List.any_eq_false.mp free entry kept isFor

omit [Sha256] in
theorem vacant_hidden (visible : ∀ directory ∈ root, directory.hidden = false)
    (scopeRoot digest uuid : String) : Vacant root scopeRoot (temporaryName digest uuid) := by
  refine List.any_eq_false.mpr fun directory member here => ?_
  have shown := visible directory member
  rw [Directory.hidden, show directory.name = temporaryName digest uuid from
    congrArg Prod.snd (isAt_iff.mp here), temporaryName_hidden] at shown
  simp at shown

/-- The directory that a commit publishes. -/
def published (service : CacheService) (readings : Readings) (reservation : Reservation)
    (content : Bytes) (size : Nat) : Directory :=
  { scopeRoot := service.scopeRoot
    name := finalName reservation
    metadata := some (.written (storedCache service readings reservation size))
    archive := some content }

/-- The published entry is none of those that were evicted for it. -/
theorem evicted_gone (free : (retained service root readings).any
      (·.isFor reservation.key reservation.version) = false) {content : Bytes} :
    ∀ victim ∈ (evicted service readings size (remaining service root readings)).1,
      victim ∉ entriesOf (applyAll root (removals (commitVictims service root readings size)) ++
        [published service readings reservation content size]) := by
  intro victim member still
  rw [entriesOf_append] at still
  rcases List.mem_append.mp still with old | new
  · exact not_mem_cleared (List.mem_append_right _ member) old
  · obtain ⟨directory, isNew, isEntry⟩ := mem_entriesOf.mp new
    rw [List.mem_singleton.mp isNew] at isEntry
    cases isEntry
    obtain ⟨whole, left, isVictim⟩ := mem_entriesOf.mp (evicted_remaining member)
    obtain ⟨present, apart⟩ := mem_applyAll_removals.mp left
    have place := (entry?_eq_some.mp isVictim).1
    have listed := mem_loadScopeEntries.mpr ⟨whole, present, congrArg Prod.fst place,
      final_visible place, isVictim⟩
    refine List.any_eq_false.mp free _ (List.mem_filter.mpr ⟨listed, ?_⟩) ?_
    · rw [Bool.not_eq_true']
      by_contra expired
      exact apart _ (List.mem_filter.mpr ⟨listed, by simpa using expired⟩) place
    · simp [CacheEntry.isFor, storedCache]

/-- A commit removes what has expired, and of it what it comes to; or it removes all its
victims and publishes. -/
theorem commit_outcome {id : Nat} (stored : Stored root)
    (visible : ∀ directory ∈ root, directory.hidden = false)
    (small : storedSize (entriesOf root) ≤ u64Max)
    (limits : service.limits.maximumEntryBytes ≤ service.limits.maximumBytes)
    (running : ending.isStop = false)
    (fits : ∀ reservation, service.reservation? id = some reservation →
      CommitFits service root readings reservation size ending) :
    let planned := plan service root readings (.commit id size)
    (∃ victims, (∀ victim ∈ victims, victim ∈ entriesOf root ∧
        (victim.expired readings.discard = true ∨ victim.expired readings.evict = true)) ∧
      (∀ victim ∈ victims, .removeDirectory victim.scopeRoot victim.name ∈ planned.ops) ∧
      Gone victims (ending.rootAfter root planned.ops) root) ∨
    ∃ reservation content, content.length = size ∧
      (retained service root readings).any (·.isFor reservation.key reservation.version) =
        false ∧
      storedSize (entriesOf (applyAll root
        (removals (commitVictims service root readings size)))) + size ≤
          service.limits.maximumBytes ∧
      Vacant (applyAll root (removals (commitVictims service root readings size)))
        service.scopeRoot (finalName reservation) ∧
      (∀ victim ∈ commitVictims service root readings size,
        .removeDirectory victim.scopeRoot victim.name ∈ planned.ops) ∧
      ending.answerOf planned = some .noContent ∧
      ending.rootAfter root planned.ops =
        applyAll root (removals (commitVictims service root readings size)) ++
          [published service readings reservation content size] := by
  intro planned
  have early : ∀ victim ∈ discarded service root readings, victim ∈ entriesOf root ∧
      (victim.expired readings.discard = true ∨ victim.expired readings.evict = true) :=
    fun victim member => ⟨loadScopeEntries_subset _ (List.mem_of_mem_filter member),
      .inl (List.mem_filter.mp member).2⟩
  have late : Room service root readings size →
      ∀ victim ∈ commitVictims service root readings size, victim ∈ entriesOf root ∧
        (victim.expired readings.discard = true ∨ victim.expired readings.evict = true) :=
    fun room victim member => ⟨commitVictims_subset member,
      commitVictims_expired stored.distinct small room member⟩
  have isPlan : planned = commitCache service root readings id size := rfl
  rcases @commitCache_cases _ service root readings id size with
    ⟨error, refused⟩ | ⟨reservation, found, -, bound, same⟩
  · rw [isPlan, refused]
    refine .inl ⟨[], (fun _ member => by cases member), (fun _ member => by cases member), ?_⟩
    rw [fail, rootAfter_nil]
    exact .refl ..
  rw [isPlan, same]
  rcases @commitReservation_shape _ service root readings reservation size stored.untorn with
    isOps | isOps | ⟨content, uploaded, length, free, outcome⟩
  · rw [isOps, rootAfter_nil]
    exact .inl ⟨[], (fun _ member => by cases member), (fun _ member => by cases member),
      .refl ..⟩
  · rw [isOps]
    refine .inl ⟨_, early, fun victim member => ?_, .ending ..⟩
    rw [← List.append_nil (removals _)]
    exact removes_victim member
  have fit := fits reservation found content uploaded length free
  rcases outcome with ⟨⟨error, refused⟩, why⟩ | ⟨counted, final, temporary, done⟩
  · -- With room only what has expired is removed; without it the commit is not refused.
    have room : Room service root readings size := by
      refine fit.resolve_right fun strict => ?_
      rcases why with full | taken | taken
      · refine absurd full (Nat.not_lt.mpr ?_)
        exact evict_fits (remaining_total stored.distinct small).le (bound.trans limits)
      · exact taken (vacant_final free strict.2.1)
      · refine taken ((applyAll_removals_fewer root _).vacant ?_)
        exact vacant_hidden visible ..
    rw [refused]
    refine .inl ⟨_, late room, fun victim member => ?_, .ending ..⟩
    rw [← List.append_nil (removals _)]
    exact removes_victim member
  · have removes : ∀ victim ∈ commitVictims service root readings size,
        .removeDirectory victim.scopeRoot victim.name ∈
          (commitReservation service root readings reservation size).ops := by
      rw [done]
      exact fun victim member => removes_victim member
    -- Where it fails, and what then follows from the condition.
    have stage : ∀ {after cut}, ending.stage = some (after, cut) →
        after < (commitReservation service root readings reservation size).ops.length →
        Room service root readings size ∨ after < (discarded service root readings).length := by
      intro after cut isStage within
      refine fit.imp_right fun strict => ?_
      cases ending with
      | complete => cases isStage
      | stops | abandons => cases running
      | fails reached partly text =>
          cases isStage
          exact (strict.2.2 _ _ _ rfl).resolve_right (Nat.not_le.mpr within)
    have length_ops : (commitReservation service root readings reservation size).ops.length =
        (commitVictims service root readings size).length + 4 := by
      rw [done]
      simp [removals, publication]
    have length_victims : (commitVictims service root readings size).length =
        (discarded service root readings).length +
          (evicted service readings size (remaining service root readings)).1.length :=
      List.length_append
    have ends := @rootAfter_publication root (commitVictims service root readings size)
      service.scopeRoot (temporaryOf readings reservation) (finalName reservation) content
      (storedCache service readings reservation size) temporary ending
    dsimp only at ends
    have isOps : (commitReservation service root readings reservation size).ops =
        removals (commitVictims service root readings size) ++
          publication service.scopeRoot (temporaryOf readings reservation)
            (finalName reservation) content (storedCache service readings reservation size) := by
      rw [done]
    rw [← isOps] at ends
    rcases ends with ⟨after, cut, isStage, within, isRoot⟩ |
      ⟨⟨after, cut, isStage, beyond, within⟩, isRoot⟩ | ⟨after, cut, directory, stops, -, -, -⟩ |
      ⟨whole, isRoot⟩
    · rw [isRoot]
      rcases stage isStage (by omega) with room | early_stage
      · exact .inl ⟨_, late room, removes, .interrupted ..⟩
      · refine .inl ⟨_, early, fun victim member => removes victim
          (List.mem_append_left _ member), ?_⟩
        rw [commitVictims, removals_append, interrupted_front early_stage]
        exact .interrupted ..
    · rw [isRoot]
      refine .inl ⟨_, late ((stage isStage within).resolve_right (by omega)), removes, .removals ..⟩
    · rw [stops] at running
      cases running
    · refine .inr ⟨reservation, content, length, free, ?_, final, removes, ?_, ?_⟩
      · exact cleared_fits stored.distinct small (fit.imp_right And.left) counted
      · rw [done] at whole ⊢
        cases ending with
        | complete => rfl
        | stops | abandons => cases running
        | fails after cut text => exact if_neg (Nat.not_lt.mpr (whole _ _ _ rfl))
      · rw [isRoot, isOps, applyAll_append, applyAll_publication temporary]
        rfl

end Outcomes

/-! ### Roots that are kept -/

/-- A root to which only requests have come that did not stop. -/
structure KeptRoot [Sha256] (maximum : Nat) (root : List Directory) : Prop where
  stored : Stored root
  visible : ∀ directory ∈ root, directory.hidden = false
  fits : storedSize (entriesOf root) ≤ maximum

section KeptRoots

variable [Sha256] {maximum : Nat} {service : CacheService} {root after : List Directory}
  {readings : Readings} {victims : List CacheEntry}

theorem KeptRoot.gone (kept : KeptRoot maximum root) (gone : Gone victims after root) :
    KeptRoot maximum after := by
  refine ⟨kept.stored.fewer gone.fewer, fun left member => ?_, ?_⟩
  · have named : left.place ∈ root.map Directory.place :=
      gone.fewer.places.subset (List.mem_map_of_mem member)
    obtain ⟨directory, present, same⟩ := List.mem_map.mp named
    rw [← Directory.hidden_of_place same]
    exact kept.visible directory present
  · refine le_trans (storedSize_le ?_ gone.fewer.entries) kept.fits
    exact entriesOf_nodup (gone.fewer.distinct kept.stored.distinct)

omit [Sha256] in
/-- An entry that has not expired is there when the expired ones are gone. -/
theorem retained_stays (distinct : (root.map Directory.place).Nodup) {entry : CacheEntry}
    (member : entry ∈ retained service root readings)
    (early : ∀ victim ∈ victims, victim ∈ discarded service root readings) :
    ∃ directory ∈ applyAll root (removals victims), directory.entry? = some entry := by
  obtain ⟨listed, unexpired⟩ := List.mem_filter.mp member
  obtain ⟨directory, present, isEntry⟩ := mem_entriesOf.mp (loadScopeEntries_subset _ listed)
  refine ⟨directory, mem_applyAll_removals.mpr ⟨present, fun victim removed same => ?_⟩, isEntry⟩
  obtain ⟨also, expired⟩ := List.mem_filter.mp (early victim removed)
  have one : entry = victim := eq_of_entry_place distinct (loadScopeEntries_subset _ listed)
    (loadScopeEntries_subset _ also) ((entry?_eq_some.mp isEntry).1.symm.trans same)
  rw [one, expired] at unexpired
  cases unexpired

omit [Sha256] in
/-- New metadata of the same size leaves the sizes as they are. -/
theorem storedSize_replace (distinct : (root.map Directory.place).Nodup) {directory : Directory}
    {entry : CacheEntry} (present : directory ∈ root) (isEntry : directory.entry? = some entry)
    {metadata : StoredCache} (size : metadata.size = entry.metadata.size) :
    storedSize (entriesOf ((FileOp.replaceMetadata entry.scopeRoot entry.name metadata).apply
      root)) = storedSize (entriesOf root) := by
  obtain ⟨place, -, archived⟩ := entry?_eq_some.mp isEntry
  unfold storedSize entriesOf
  rw [FileOp.apply, update, List.map_filterMap, List.map_filterMap, List.filterMap_map]
  refine congrArg List.sum (List.filterMap_congr fun other member => ?_)
  rw [Function.comp_apply]
  split
  · next here =>
      have same : other = directory := eq_of_place distinct member present
        ((isAt_iff.mp here).trans place.symm)
      subst same
      rw [isEntry]
      obtain ⟨content, isArchive⟩ := Option.isSome_iff_exists.mp archived
      simp [Directory.entry?, isArchive, size]
  · rfl

theorem KeptRoot.replace (kept : KeptRoot maximum root) {directory : Directory}
    {entry : CacheEntry} (present : directory ∈ root) (isEntry : directory.entry? = some entry)
    (now : Nat) : KeptRoot maximum ((FileOp.replaceMetadata entry.scopeRoot entry.name
      { entry.metadata with lastAccessedTime := now }).apply root) := by
  obtain ⟨place, written, -⟩ := entry?_eq_some.mp isEntry
  refine ⟨kept.stored.replace ⟨directory, present, place, written⟩ rfl rfl rfl, ?_, ?_⟩
  · exact forall_update kept.visible fun other member _ _ => kept.visible other member
  · have same := @storedSize_replace root kept.stored.distinct directory entry present isEntry
      { entry.metadata with lastAccessedTime := now } rfl
    exact same.le.trans kept.fits

theorem KeptRoot.publish (kept : KeptRoot maximum root) {reservation : Reservation}
    {content : Bytes} {size : Nat} (length : content.length = size)
    (vacant : Vacant root service.scopeRoot (finalName reservation))
    (fits : storedSize (entriesOf root) + size ≤ maximum) :
    KeptRoot maximum (root ++ [published service readings reservation content size]) := by
  refine ⟨kept.stored.add vacant ?_ ?_ ?_, ?_, ?_⟩
  · exact fun error isTorn => by cases isTorn
  · rintro - metadata ⟨⟩
    rfl
  · rintro metadata archive ⟨⟩ ⟨⟩
    exact length
  · intro directory member
    rcases List.mem_append.mp member with old | new
    · exact kept.visible directory old
    · rw [List.mem_singleton.mp new]
      exact @final_visible _ reservation service.scopeRoot _ rfl
  · rw [entriesOf_append, storedSize_append]
    exact fits

theorem KeptRoot.read {request : Request} (kept : KeptRoot maximum root)
    (reads : ∀ id size, request ≠ .commit id size) (ending : Ending) :
    KeptRoot maximum (ending.rootAfter root (plan service root readings request).ops) := by
  obtain ⟨victims, early, -, gone | ⟨entry, member, same⟩⟩ :=
    @read_outcome _ service root readings request reads ending
  · exact kept.gone gone
  · rw [same]
    obtain ⟨directory, present, isEntry⟩ := retained_stays kept.stored.distinct member early
    exact (kept.gone (.removals victims root)).replace present isEntry readings.access

theorem KeptRoot.commit {id size : Nat} {ending : Ending} (kept : KeptRoot maximum root)
    (bounded : maximum ≤ u64Max) (isMaximum : service.limits.maximumBytes = maximum)
    (limits : service.limits.maximumEntryBytes ≤ maximum) (running : ending.isStop = false)
    (fits : ∀ reservation, service.reservation? id = some reservation →
      CommitFits service root readings reservation size ending) :
    KeptRoot maximum
      (ending.rootAfter root (plan service root readings (.commit id size)).ops) := by
  rcases commit_outcome kept.stored kept.visible (kept.fits.trans bounded) (isMaximum ▸ limits)
    running fits with ⟨victims, -, -, gone⟩ |
    ⟨reservation, content, length, -, room, vacant, -, -, same⟩
  · exact kept.gone gone
  · rw [same]
    exact (kept.gone (.removals _ root)).publish length vacant (isMaximum ▸ room)

end KeptRoots

/-! ### Runs -/

/-- All services have the limit of the root, no process stops, and each commit fits. -/
def Roomy [Sha256] (maximum : Nat) (cache : Cache) : Event → Prop
  | .start _ _ _ limits => limits.maximumBytes = maximum
  | .request index request readings ending =>
      ending.isStop = false ∧
      ∀ service, cache.services[index]? = some service →
        ∀ id size, request = .commit id size →
          ∀ reservation, service.reservation? id = some reservation →
            CommitFits service cache.root readings reservation size ending

/-- The state of a cache over such a run. -/
structure Kept [Sha256] (maximum : Nat) (cache : Cache) : Prop where
  root : KeptRoot maximum cache.root
  limits : ∀ service ∈ cache.services, service.limits.maximumBytes = maximum ∧
    service.limits.maximumEntryBytes ≤ maximum

section Runs

variable [Sha256] {maximum : Nat} {cache : Cache} {event : Event}

omit [Sha256] in
theorem serviceAfter_limits (service : CacheService) (request : Request) (done : List FileOp)
    (answer : Option Answer) : (serviceAfter service request done answer).limits =
      service.limits := by
  cases request with
  | lookup | list => rfl
  | reserve key version cacheSize =>
      dsimp only [serviceAfter]
      split
      · rfl
      · rfl
  | upload id contentRange body =>
      rcases uploadChunk_cases id contentRange body with ⟨error, same⟩ | ⟨_, _, -, -, -, same⟩
      · rw [serviceAfter, same]
      · rw [serviceAfter, same]
        rfl
  | commit id size =>
      dsimp only [serviceAfter]
      split
      · rfl
      · rfl

/-- What a request leaves of a root that is kept. -/
theorem Kept.rootAfter {index : Nat} {request : Request} {readings : Readings} {ending : Ending}
    {service : CacheService} (kept : Kept maximum cache) (bounded : maximum ≤ u64Max)
    (roomy : Roomy maximum cache (.request index request readings ending))
    (found : cache.services[index]? = some service) :
    KeptRoot maximum
      (ending.rootAfter cache.root (plan service cache.root readings request).ops) := by
  obtain ⟨isMaximum, entryLimit⟩ := kept.limits service (List.mem_of_getElem? found)
  by_cases commits : ∃ id size, request = .commit id size
  · obtain ⟨id, size, rfl⟩ := commits
    exact kept.root.commit bounded isMaximum entryLimit roomy.1 (roomy.2 service found id size rfl)
  · exact kept.root.read (fun id size same => commits ⟨id, size, same⟩) ending

theorem Kept.step (kept : Kept maximum cache) (bounded : maximum ≤ u64Max)
    (roomy : Roomy maximum cache event) : Kept maximum (step cache event) := by
  cases event with
  | start scopeRoot scope mode limits =>
      dsimp only [CacheStore.step]
      split
      · exact kept
      · next allowed =>
          refine ⟨kept.root, fun service member => ?_⟩
          rcases List.mem_append.mp member with old | new
          · exact kept.limits service old
          · rw [List.mem_singleton.mp new]
            have isMaximum : limits.maximumBytes = maximum := roomy
            simp only [Bool.or_eq_true, decide_eq_true_eq, not_or, Nat.not_lt] at allowed
            exact ⟨isMaximum, isMaximum ▸ allowed.2⟩
  | request index request readings ending =>
      have running := roomy.1
      dsimp only [CacheStore.step]
      cases found : cache.services[index]? with
      | none => exact kept
      | some service =>
          dsimp only
          rw [running, if_neg Bool.false_ne_true]
          refine ⟨kept.rootAfter bounded roomy found, fun other member => ?_⟩
          rcases List.mem_or_eq_of_mem_set member with old | rfl
          · exact kept.limits other old
          · rw [serviceAfter_limits]
            exact kept.limits service (List.mem_of_getElem? found)

/-- The entries of a scope differ in their keys or versions. -/
theorem loadScopeEntries_pairwise {root : List Directory} (stored : Stored root)
    (scopeRoot : String) : (loadScopeEntries root scopeRoot).Pairwise fun left right =>
      ¬ (left.metadata.cacheKey = right.metadata.cacheKey ∧
        left.metadata.cacheVersion = right.metadata.cacheVersion) := by
  have distinct : (loadScopeEntries root scopeRoot).Nodup :=
    entriesOf_nodup (stored.distinct.sublist (List.filter_sublist.map _))
  refine distinct.pairwise_of_forall_ne fun left inLeft right inRight differ same => differ ?_
  have named : ∀ {entry : CacheEntry}, entry ∈ loadScopeEntries root scopeRoot →
      entry.name = entryDigest entry.metadata.cacheKey entry.metadata.cacheVersion := by
    intro entry member
    obtain ⟨directory, present, -, shown, isEntry⟩ := mem_loadScopeEntries.mp member
    obtain ⟨place, written, -⟩ := entry?_eq_some.mp isEntry
    exact (congrArg Prod.snd place).symm.trans
      (stored.named directory present shown entry.metadata written)
  refine eq_of_entry_place stored.distinct (loadScopeEntries_subset _ inLeft)
    (loadScopeEntries_subset _ inRight) (Prod.ext ?_ ?_)
  · exact (scopeRoot_of_mem_load inLeft).trans (scopeRoot_of_mem_load inRight).symm
  · exact (named inLeft).trans ((congrArg₂ _ same.1 same.2).trans (named inRight).symm)

/-- The request sets out to remove the directory. -/
def Removes (cache : Cache) (event : Event) (directory : Directory) : Prop :=
  ∃ index request readings ending service, event = .request index request readings ending ∧
    cache.services[index]? = some service ∧
    .removeDirectory directory.scopeRoot directory.name ∈
      (plan service cache.root readings request).ops

/-- The same entry, but for the time of its last access. -/
structure Unchanged (directory later : Directory) : Prop where
  place : later.place = directory.place
  archive : later.archive = directory.archive
  metadata : ∃ old now, directory.metadata = some (.written old) ∧
    later.metadata = some (.written { old with lastAccessedTime := now })

omit [Sha256] in
theorem Unchanged.refl {directory : Directory} {entry : CacheEntry}
    (isEntry : directory.entry? = some entry) : Unchanged directory directory :=
  ⟨rfl, rfl, entry.metadata, entry.metadata.lastAccessedTime, (entry?_eq_some.mp isEntry).2.1,
    (entry?_eq_some.mp isEntry).2.1⟩

omit [Sha256] in
theorem Gone.unchanged {victims : List CacheEntry} {after root : List Directory}
    (gone : Gone victims after root) {directory : Directory} {entry : CacheEntry}
    (present : directory ∈ root) (isEntry : directory.entry? = some entry) :
    (∃ victim ∈ victims, directory.place = victim.place) ∨
      ∃ later ∈ after, Unchanged directory later := by
  by_cases removed : ∃ victim ∈ victims, directory.place = victim.place
  · exact .inl removed
  · refine .inr ⟨directory, gone.kept directory present fun victim member same => ?_,
      .refl isEntry⟩
    exact removed ⟨victim, member, same⟩

theorem Removes.of_victim {index : Nat} {request : Request} {readings : Readings}
    {ending : Ending} {service : CacheService} (found : cache.services[index]? = some service)
    {directory : Directory} {victim : CacheEntry} (same : directory.place = victim.place)
    (removes : .removeDirectory victim.scopeRoot victim.name ∈
      (plan service cache.root readings request).ops) :
    Removes cache (.request index request readings ending) directory := by
  refine ⟨_, _, _, _, service, rfl, found, ?_⟩
  rw [show directory.scopeRoot = victim.scopeRoot from congrArg Prod.fst same,
    show directory.name = victim.name from congrArg Prod.snd same]
  exact removes

/-- An entry is removed as a whole or stays what it is. -/
theorem Kept.unchanged (kept : Kept maximum cache) (bounded : maximum ≤ u64Max)
    (roomy : Roomy maximum cache event) {directory : Directory} {entry : CacheEntry}
    (present : directory ∈ cache.root) (isEntry : directory.entry? = some entry) :
    Removes cache event directory ∨
      ∃ later ∈ (CacheStore.step cache event).root, Unchanged directory later := by
  cases event with
  | start scopeRoot scope mode limits =>
      refine .inr ⟨directory, ?_, .refl isEntry⟩
      dsimp only [CacheStore.step]
      split
      · exact present
      · exact present
  | request index request readings ending =>
      dsimp only [CacheStore.step]
      cases found : cache.services[index]? with
      | none => exact .inr ⟨directory, present, .refl isEntry⟩
      | some service =>
          dsimp only
          obtain ⟨isMaximum, entryLimit⟩ := kept.limits service (List.mem_of_getElem? found)
          by_cases commits : ∃ id size, request = .commit id size
          · obtain ⟨id, size, rfl⟩ := commits
            rcases commit_outcome kept.root.stored kept.root.visible
                (kept.root.fits.trans bounded) (isMaximum ▸ entryLimit) roomy.1
                (roomy.2 service found id size rfl) with
              ⟨victims, -, removes, gone⟩ |
              ⟨reservation, content, -, -, -, -, removes, -, same⟩
            · rcases gone.unchanged present isEntry with ⟨victim, member, place⟩ | stays
              · exact .inl (.of_victim found place (removes victim member))
              · exact .inr stays
            · rw [same]
              rcases (Gone.removals _ cache.root).unchanged present isEntry with
                ⟨victim, member, place⟩ | ⟨later, left, unchanged⟩
              · exact .inl (.of_victim found place (removes victim member))
              · exact .inr ⟨later, List.mem_append_left _ left, unchanged⟩
          · obtain ⟨victims, early, removes, outcome⟩ := @read_outcome _ service cache.root readings
              request (fun id size same => commits ⟨id, size, same⟩) ending
            rcases outcome with gone | ⟨accessed, member, same⟩
            · rcases gone.unchanged present isEntry with ⟨victim, member, place⟩ | stays
              · exact .inl (.of_victim found place (removes victim member))
              · exact .inr stays
            · rw [same]
              by_cases removed : ∃ victim ∈ victims, directory.place = victim.place
              · obtain ⟨victim, inside, place⟩ := removed
                exact .inl (.of_victim found place (removes victim inside))
              · have left : directory ∈ applyAll cache.root (removals victims) :=
                  mem_applyAll_removals.mpr ⟨present, fun victim inside place =>
                    removed ⟨victim, inside, place⟩⟩
                right
                by_cases here : directory.isAt accessed.scopeRoot accessed.name = true
                · have one : entry = accessed := eq_of_entry_place kept.root.stored.distinct
                    (mem_entriesOf.mpr ⟨directory, present, isEntry⟩)
                    (loadScopeEntries_subset _ (List.mem_of_mem_filter member))
                    ((entry?_eq_some.mp isEntry).1.symm.trans (isAt_iff.mp here))
                  subst one
                  refine ⟨_, mem_update.mpr ⟨directory, left, if_pos here⟩, rfl, rfl,
                    entry.metadata, readings.access, (entry?_eq_some.mp isEntry).2.1, rfl⟩
                · exact ⟨directory, mem_update.mpr ⟨directory, left, if_neg here⟩, .refl isEntry⟩

/-- A commit removes what has expired, and what is in the way if it succeeds. -/
theorem Kept.needed {index id size : Nat} {readings : Readings} {ending : Ending}
    {service : CacheService} (kept : Kept maximum cache) (bounded : maximum ≤ u64Max)
    (roomy : Roomy maximum cache (.request index (.commit id size) readings ending))
    (found : cache.services[index]? = some service) {entry : CacheEntry}
    (present : entry ∈ entriesOf cache.root)
    (absent : entry ∉ entriesOf
      (ending.rootAfter cache.root (plan service cache.root readings (.commit id size)).ops)) :
    entry.expired readings.discard = true ∨ entry.expired readings.evict = true ∨
      ending.answerOf (plan service cache.root readings (.commit id size)) = some .noContent ∧
      Needed service cache.root readings size
        (entriesOf (ending.rootAfter cache.root
          (plan service cache.root readings (.commit id size)).ops)) entry := by
  obtain ⟨isMaximum, entryLimit⟩ := kept.limits service (List.mem_of_getElem? found)
  have small := kept.root.fits.trans bounded
  rcases commit_outcome kept.root.stored kept.root.visible small (isMaximum ▸ entryLimit) roomy.1
      (roomy.2 service found id size rfl) with
    ⟨victims, expired, -, gone⟩ | ⟨reservation, content, -, free, -, -, -, accepted, same⟩
  · obtain ⟨victim, member, place⟩ := gone.victim present absent
    obtain ⟨also, old⟩ := expired victim member
    rw [eq_of_entry_place kept.root.stored.distinct present also place]
    exact old.imp_right .inl
  · rw [same] at absent ⊢
    rw [entriesOf_append] at absent
    obtain ⟨victim, member, place⟩ := (Gone.removals (commitVictims service cache.root readings
      size) cache.root).victim present fun still => absent (List.mem_append_left _ still)
    rw [eq_of_entry_place kept.root.stored.distinct present (commitVictims_subset member) place]
    rcases commitVictims_needed kept.root.stored.distinct small member
        (evicted_gone free) with discards | evicts | needed
    · exact .inl discards
    · exact .inr (.inl evicts)
    · exact .inr (.inr ⟨accepted, needed⟩)

theorem kept_initial : Kept maximum {} :=
  ⟨⟨⟨List.nodup_nil, (fun _ member => by cases member), (fun _ member => by cases member),
    fun _ member => by cases member⟩, (fun _ member => by cases member), Nat.zero_le _⟩,
    fun _ member => by cases member⟩

/-- A commit that is not interrupted fits where its name is free. -/
theorem CommitFits.of_vacant {service : CacheService} {root : List Directory}
    {readings : Readings} {reservation : Reservation}
    (limited : service.limits.maximumBytes < u64Max)
    (vacant : Vacant root service.scopeRoot (finalName reservation)) (size : Nat) :
    CommitFits service root readings reservation size .complete := by
  refine fun _ _ _ _ => .inr ⟨limited, fun directory member place => ?_, fun _ _ _ same => ?_⟩
  · exact absurd (isAt_iff.mpr place) (List.any_eq_false.mp vacant directory member)
  · cases same

end Runs

/-- In every run in which all services have the limit of the root, no process stops, and
each commit that comes to its eviction finds room beside what has not expired or cannot fail
behind it: the entries of a scope differ in their keys or versions; an entry that a request
does not set out to remove stays with its archive; after a commit that succeeds all entries
together are within the limit; and what a commit removes has expired, or the commit succeeds
and there was no room from this entry on, all that were accessed earlier gone. -/
theorem cache_store_kept [Sha256] (maximum : Nat) (bounded : maximum ≤ u64Max)
    (events : List Event) (event : Event)
    (roomy : Along step (Roomy maximum) {} (events ++ [event])) :
    let cache := run step {} events
    let after := step cache event
    (∀ scopeRoot, (loadScopeEntries cache.root scopeRoot).Pairwise fun left right =>
      ¬ (left.metadata.cacheKey = right.metadata.cacheKey ∧
        left.metadata.cacheVersion = right.metadata.cacheVersion)) ∧
    (∀ directory ∈ cache.root, ∀ entry, directory.entry? = some entry →
      Removes cache event directory ∨ ∃ later ∈ after.root, Unchanged directory later) ∧
    ∀ index id size readings ending service,
      event = .request index (.commit id size) readings ending →
      cache.services[index]? = some service →
      (answer cache event = some .noContent →
        storedSize (entriesOf after.root) ≤ service.limits.maximumBytes) ∧
      ∀ entry ∈ entriesOf cache.root, entry ∉ entriesOf after.root →
        entry.expired readings.discard = true ∨ entry.expired readings.evict = true ∨
          answer cache event = some .noContent ∧
          Needed service cache.root readings size (entriesOf after.root) entry := by
  intro cache after
  obtain ⟨first, last⟩ := Along.append.mp roomy
  have kept : Kept maximum cache :=
    Along.invariant (fun _ _ kept roomy => kept.step bounded roomy) kept_initial first
  have now : Roomy maximum cache event := last.1
  refine ⟨loadScopeEntries_pairwise kept.root.stored, ?_, ?_⟩
  · exact fun directory present entry isEntry => kept.unchanged bounded now present isEntry
  · rintro index id size readings ending service rfl found
    refine ⟨fun _ => ?_, fun entry present absent => ?_⟩
    · rw [(kept.limits service (List.mem_of_getElem? found)).1]
      exact (kept.step bounded now).root.fits
    · have isRoot : after.root = ending.rootAfter cache.root
          (plan service cache.root readings (.commit id size)).ops := by
        dsimp only [after, step]
        rw [found]
      have answered : answer cache (.request index (.commit id size) readings ending) =
          ending.answerOf (plan service cache.root readings (.commit id size)) := by
        rw [answer, found]
        rfl
      rw [isRoot] at absent ⊢
      rw [answered]
      exact kept.needed bounded now found present absent

/-! ### A name that two keys share -/

namespace EvictionSample

scoped instance copiedDigest : Sha256 := ⟨fun value => value⟩

def event (time : Nat) (request : Request) : Event :=
  .request 0 request { discard := 0, access := 0, evict := 0, store := time, uuid := "u" }
    .complete

/-- A reservation with three bytes. -/
def uploaded (id : Nat) (key version : String) : List Event :=
  [event id (.reserve key (some version) none),
    event id (.upload id (some "bytes 0-2/*") ⟨[[1, 2, 3]], none⟩)]

def commit (id : Nat) : Event := event id (.commit id 3)

def start (maximum : Nat) : Event :=
  .start "scope" "refs/heads/main" .write { maximumBytes := maximum, maximumEntryBytes := 5 }

theorem roomy_read (cache : Cache) (time : Nat) {maximum : Nat} {request : Request}
    (reads : ∀ id size, request ≠ .commit id size) : Roomy maximum cache (event time request) :=
  ⟨rfl, fun _ _ id size same => absurd same (reads id size)⟩

/-- A commit whose name is free. -/
theorem roomy_commit (cache : Cache) (number : Nat) {maximum : Nat}
    (isFree : (cache.services.all fun service => service.limits.maximumBytes < u64Max &&
      (service.reservation? number).all fun reservation =>
        !cache.root.any (·.isAt service.scopeRoot (finalName reservation))) = true) :
    Roomy maximum cache (commit number) := by
  refine ⟨rfl, fun service found id size same reservation there => ?_⟩
  cases same
  have checked := List.all_eq_true.mp isFree service (List.mem_of_getElem? found)
  rw [there] at checked
  simp only [Bool.and_eq_true, decide_eq_true_eq, Option.all_some, Bool.not_eq_true'] at checked
  exact .of_vacant checked.1 checked.2 _

/-- One entry, and an upload for which there is no room beside it. -/
def second : List Event :=
  start 5 :: uploaded 1 "old" "version" ++ [commit 1] ++ uploaded 2 "new" "version"

theorem second_roomy : Along step (Roomy 5) {} (second ++ [commit 2]) := by
  refine ⟨rfl, roomy_read _ _ ?_, roomy_read _ _ ?_, roomy_commit _ _ (by decide),
    roomy_read _ _ ?_, roomy_read _ _ ?_, roomy_commit _ _ (by decide +kernel), trivial⟩
  all_goals exact fun _ _ same => by cases same

/-- The old entry is evicted for the new one. -/
theorem second_commit_kept :
    answer (run step {} second) (commit 2) = some .noContent ∧
      (entriesOf (step (run step {} second) (commit 2)).root).map (·.metadata.cacheKey) =
        ["new"] ∧
      storedSize (entriesOf (step (run step {} second) (commit 2)).root) ≤ 5 := by
  have accepted : answer (run step {} second) (commit 2) = some .noContent := by decide +kernel
  obtain ⟨service, found, limit⟩ : ∃ service, (run step {} second).services[0]? = some service ∧
      service.limits.maximumBytes = 5 :=
    ⟨((run step {} second).services[0]?).get (by decide), (Option.some_get _).symm,
      by decide +kernel⟩
  have kept := (cache_store_kept 5 (by decide) second (commit 2) second_roomy).2.2 0 2 3 _ _
    service rfl found
  exact ⟨accepted, by decide +kernel, limit ▸ kept.1 accepted⟩

/-- An entry, one whose key ends in a zero character, and an upload for the same name. -/
def third : List Event :=
  start 8 :: uploaded 1 "old" "version" ++ [commit 1] ++ uploaded 2 "key\x00" "version" ++
    [commit 2] ++ uploaded 3 "key" "\x00version"

def directory (key version : String) (time : Nat) : Directory :=
  { scopeRoot := "scope"
    name := entryDigest key version
    metadata := some (.written { cacheKey := key
                                 cacheVersion := version
                                 scope := "refs/heads/main"
                                 creationTime := time
                                 lastAccessedTime := time
                                 size := 3 })
    archive := some [1, 2, 3] }

def reservation (key version : String) (upload : Option Bytes) (committed : Bool) :
    Reservation :=
  { key := key, version := version, upload := upload, ranges := [(0, 2)]
    committed := committed }

def service : CacheService :=
  { scopeRoot := "scope"
    scope := "refs/heads/main"
    mode := .write
    limits := { maximumBytes := 8, maximumEntryBytes := 5 }
    nextReservation := 4
    reservations := [(1, reservation "old" "version" none true),
      (2, reservation "key\x00" "version" none true),
      (3, reservation "key" "\x00version" (some [1, 2, 3]) false)] }

def root : List Directory :=
  [directory "old" "version" 1, directory "key\x00" "version" 2]

def times : Readings := { discard := 0, access := 0, evict := 0, store := 3, uuid := "u" }

theorem third_state : run step {} third =
    { root := root
      services := [service] } := by
  decide +kernel

/-- The scan finds the two entries in the order of the eviction. -/
theorem third_evicts : evictForSpace times.evict service.limits.maximumBytes 3 (entriesOf root) =
    ((entriesOf root).take 1, 3) := by
  rw [evictForSpace, List.mergeSort_of_pairwise (by decide)]
  decide

/-- The commit evicts the older entry, and finds the name of the other taken. -/
theorem third_plan : plan service root times (.commit 3 3) =
    ⟨[.removeDirectory "scope" (entryDigest "old" "version")],
      .failed ⟨409, "cache entry storage already exists"⟩⟩ := by
  have kept : discarded service root times = [] := by decide
  have scanned : scanCacheEntries root = .ok (entriesOf root) := rfl
  rw [plan, commitCache, show requireCacheWrite service = none from rfl]
  dsimp only
  rw [if_neg (by decide), show service.reservation? 3 =
    some (reservation "key" "\x00version" (some [1, 2, 3]) false) from rfl]
  dsimp only
  rw [commitReservation, if_neg (by decide), if_neg (by decide +kernel),
    show (reservation "key" "\x00version" (some [1, 2, 3]) false).upload = some [1, 2, 3] from rfl]
  dsimp only
  rw [if_neg (by decide), if_neg (by decide), kept, removals, List.map_nil, applyAll_nil,
    publish, scanned]
  dsimp only
  rw [third_evicts]
  decide

/-- Two keys with a zero character share the name of their entry: the commit evicts an entry
that has not expired, and then fails. -/
theorem shared_name_evicts :
    answer (run step {} third) (commit 3) =
        some (.failed ⟨409, "cache entry storage already exists"⟩) ∧
      (entriesOf (run step {} third).root).map (·.metadata.cacheKey) = ["old", "key\x00"] ∧
      (entriesOf (run step {} third).root).all (fun entry =>
        !entry.expired times.discard && !entry.expired times.evict) = true ∧
      (entriesOf (step (run step {} third) (commit 3)).root).map (·.metadata.cacheKey) =
        ["key\x00"] := by
  have isRoot : (step (run step {} third) (commit 3)).root =
      applyAll root (plan service root times (.commit 3 3)).ops := by
    rw [third_state]
    rfl
  have answered : answer (run step {} third) (commit 3) =
      some (plan service root times (.commit 3 3)).answer := by
    rw [third_state]
    rfl
  rw [isRoot, answered, third_plan, third_state]
  decide

end EvictionSample

end GitZero.Agent.CacheStore
