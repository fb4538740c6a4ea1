/-
Module: GitZero.Proofs.CacheCrashes
Purpose: The cache root after processes that stopped at any file operation, or in the midst
  of one: what a later process serves, looks up, reserves and commits on it, and the two
  places where it must not stop.
Trusted boundary: none
Main exports: Unspoiled, Whole, crashes_are_harmless, torn_metadata_blocks_commits
-/
import GitZero.Proofs.CacheEviction

namespace GitZero.Agent.CacheStore

open Machine Table
open Artifacts (Bytes Sha256 u64Max saturatingAdd)

/-! ### Crashes that leave nothing in the way -/

/-- Done in part, the operation leaves no published entry without one of its files; and no
metadata that is torn, if nothing is cleaned up behind it. -/
def FileOp.Spares (cut : Cut) (stops : Bool) : FileOp → Prop
  | .removeDirectory _ name =>
      name.toList.head? = some '.' ∨ cut.metadata = true ∧ cut.archive = true
  | .writeMetadata .. => stops = false
  | _ => True

/-- Wherever the request ends in the midst of an operation, that operation spares. -/
def SparedAt (ops : List FileOp) (ending : Ending) : Prop :=
  ∀ after cut op, ending.stage = some (after, some cut) → ops[after]? = some op →
    op.Spares cut ending.isStop

/-- The request does not end where it would leave a directory that cannot be read. -/
def Unspoiled [Sha256] (cache : Cache) : Event → Prop
  | .start .. => True
  | .request index request readings ending =>
      ∀ service, cache.services[index]? = some service →
        SparedAt (plan service cache.root readings request).ops ending

/-- Nothing is torn, and each directory that is not hidden is an entry. -/
structure Whole [Sha256] (root : List Directory) : Prop where
  stored : Stored root
  entries : ∀ directory ∈ root, directory.hidden = false → directory.entry?.isSome = true

section Roots

variable [Sha256] {service : CacheService} {root after : List Directory} {readings : Readings}
  {victims : List CacheEntry} {tail : List FileOp} {ending : Ending}

theorem Whole.fewer (whole : Whole root)
    (fewer : Fewer (fun directory => directory.hidden = true) after root) : Whole after := by
  refine ⟨whole.stored.fewer fewer, fun left member shown => ?_⟩
  rcases fewer.parts left member with old | ⟨other, -, hidden, place, -⟩
  · exact whole.entries left old shown
  · rw [Directory.hidden_of_place place, hidden] at shown
    cases shown

theorem Whole.removals (whole : Whole root) (victims : List CacheEntry) :
    Whole (applyAll root (removals victims)) :=
  whole.fewer ((applyAll_removals_fewer root victims).mono fun _ _ never => never.elim)

omit [Sha256] in
/-- A removal that has not come to its first file. -/
theorem interrupt_untouched {cut : Cut} (metadata : cut.metadata = true)
    (archive : cut.archive = true) (scopeRoot name : String) :
    (FileOp.removeDirectory scopeRoot name).interrupt cut root = root := by
  rw [FileOp.interrupt, metadata, archive]
  refine (List.map_congr_left fun directory _ => ?_).trans (List.map_id root)
  split
  · rfl
  · rfl

theorem Whole.interrupted (whole : Whole root) {reached : Nat} {cut : Option Cut}
    (isStage : ending.stage = some (reached, cut)) (within : reached < victims.length)
    (spared : SparedAt (CacheStore.removals victims ++ tail) ending) :
    Whole (Ending.interrupted root (CacheStore.removals victims) reached cut) := by
  cases cut with
  | none =>
      rw [Ending.interrupted, take_removals]
      exact whole.removals _
  | some cut =>
      rw [Ending.interrupted, take_removals, getElem?_removals, List.getElem?_eq_getElem within]
      have here := spared reached cut (.removeDirectory victims[reached].scopeRoot
        victims[reached].name) isStage (by
          rw [List.getElem?_append_left (by rw [length_removals]; exact within), getElem?_removals,
            List.getElem?_eq_getElem within]
          rfl)
      rcases here with hidden | ⟨metadata, archive⟩
      · refine (whole.removals _).fewer ((Fewer.interrupt cut _ _).mono ?_)
        intro directory _ place
        rw [Directory.hidden, show directory.name = victims[reached].name from
          congrArg Prod.snd place]
        exact decide_eq_true hidden
      · rw [Option.map_some, Option.elim_some, interrupt_untouched metadata archive]
        exact whole.removals _

theorem Whole.add {directory : Directory} (whole : Whole root)
    (vacant : Vacant root directory.scopeRoot directory.name)
    (untorn : ∀ error, directory.metadata ≠ some (.torn error))
    (sized : ∀ metadata content, directory.metadata = some (.written metadata) →
      directory.archive = some content → content.length = metadata.size)
    (shown : directory.hidden = false → directory.entry?.isSome = true ∧
      ∀ metadata, directory.metadata = some (.written metadata) →
        directory.name = entryDigest metadata.cacheKey metadata.cacheVersion) :
    Whole (root ++ [directory]) := by
  refine ⟨whole.stored.add vacant untorn (fun visible => (shown visible).2) sized, ?_⟩
  intro other member visible
  rcases List.mem_append.mp member with old | new
  · exact whole.entries other old visible
  · rw [List.mem_singleton.mp new] at visible ⊢
    exact (shown visible).1

theorem Whole.replace (whole : Whole root) {directory : Directory} {entry : CacheEntry}
    (present : directory ∈ root) (isEntry : directory.entry? = some entry) (now : Nat) :
    Whole ((FileOp.replaceMetadata entry.scopeRoot entry.name
      { entry.metadata with lastAccessedTime := now }).apply root) := by
  obtain ⟨place, written, -⟩ := entry?_eq_some.mp isEntry
  refine ⟨whole.stored.replace ⟨directory, present, place, written⟩ rfl rfl rfl, ?_⟩
  refine forall_update whole.entries fun other member _ entries shown => ?_
  obtain ⟨found, isFound⟩ := Option.isSome_iff_exists.mp (entries shown)
  obtain ⟨content, isArchive⟩ := Option.isSome_iff_exists.mp (entry?_eq_some.mp isFound).2.2
  simp [Directory.entry?, isArchive]

theorem Whole.read {request : Request} (whole : Whole root)
    (reads : ∀ id size, request ≠ .commit id size)
    (spared : SparedAt (plan service root readings request).ops ending) :
    Whole (ending.rootAfter root (plan service root readings request).ops) := by
  obtain ⟨victims, tail, isOps, which, single⟩ := plan_reads reads
  rw [isOps] at spared ⊢
  have early : ∀ victim ∈ victims, victim ∈ discarded service root readings := by
    intro victim member
    rcases which with rfl | rfl
    · cases member
    · exact member
  have alone : tail = [] ∨ ∃ scopeRoot name metadata,
      tail = [.replaceMetadata scopeRoot name metadata] := by
    rcases single with none | ⟨entry, -, replaced⟩
    · exact .inl none
    · exact .inr ⟨_, _, _, replaced⟩
  rcases rootAfter_removals alone ending with ⟨reached, cut, isStage, within, same⟩ | same | same
  · rw [same]
    exact whole.interrupted isStage within spared
  · rw [same]
    exact whole.removals victims
  · rw [same, applyAll_append]
    rcases single with rfl | ⟨entry, member, rfl⟩
    · exact whole.removals victims
    · obtain ⟨directory, present, isEntry⟩ := retained_stays whole.stored.distinct member early
      exact (whole.removals victims).replace present isEntry readings.access

theorem Whole.removing (whole : Whole root)
    (spared : SparedAt (CacheStore.removals victims) ending) :
    Whole (ending.rootAfter root (CacheStore.removals victims)) := by
  have ends := @rootAfter_removals root victims [] (.inl rfl) ending
  rw [List.append_nil] at ends
  rcases ends with ⟨reached, cut, isStage, within, same⟩ | same | same
  · rw [same]
    refine @Whole.interrupted _ root victims [] ending whole reached cut isStage within ?_
    rw [List.append_nil]
    exact spared
  · rw [same]
    exact whole.removals victims
  · rw [same]
    exact whole.removals victims

/-- What a publication leaves: nothing, or a hidden directory, or the entry. -/
theorem Whole.publishing {reservation : Reservation} {content : Bytes} {size : Nat}
    (whole : Whole root) (length : content.length = size)
    (final : Vacant (applyAll root (CacheStore.removals victims)) service.scopeRoot
      (finalName reservation))
    (temporary : Vacant (applyAll root (CacheStore.removals victims)) service.scopeRoot
      (temporaryOf readings reservation))
    (spared : SparedAt (CacheStore.removals victims ++
      publication service.scopeRoot (temporaryOf readings reservation) (finalName reservation)
        content (storedCache service readings reservation size)) ending) :
    Whole (ending.rootAfter root (CacheStore.removals victims ++
      publication service.scopeRoot (temporaryOf readings reservation) (finalName reservation)
        content (storedCache service readings reservation size))) := by
  have ends := @rootAfter_publication root victims service.scopeRoot
    (temporaryOf readings reservation) (finalName reservation) content
    (storedCache service readings reservation size) temporary ending
  dsimp only at ends
  rcases ends with ⟨reached, cut, isStage, within, same⟩ | ⟨-, same⟩ |
    ⟨reached, cut, directory, stops, isStage, unpublished, same⟩ | ⟨-, same⟩
  · rw [same]
    exact whole.interrupted isStage within spared
  · rw [same]
    exact whole.removals victims
  · -- The metadata of what is left is not torn: that writing was not cut.
    rw [same]
    have isPlace := unpublished.place
    have hidden : directory.hidden = true := by
      rw [Directory.hidden, show directory.name = temporaryOf readings reservation from
        congrArg Prod.snd isPlace]
      exact decide_eq_true (temporaryName_hidden _ _)
    have state : directory.metadata = none ∨ directory.metadata =
        some (.written (storedCache service readings reservation size)) := by
      rcases unpublished.metadata with none | written | ⟨⟨here, isCut⟩, -⟩
      · exact .inl none
      · exact .inr written
      · obtain ⟨cut, rfl⟩ := Option.isSome_iff_exists.mp isCut
        have running := spared reached cut (.writeMetadata service.scopeRoot
          (temporaryOf readings reservation) (storedCache service readings reservation size))
          isStage (by
            rw [List.getElem?_append_right (by rw [length_removals]; omega), length_removals, here,
              Nat.add_sub_cancel_left]
            rfl)
        rw [FileOp.Spares, stops] at running
        cases running
    refine (whole.removals victims).add ?_ ?_ ?_ ?_
    · rw [show directory.scopeRoot = service.scopeRoot from congrArg Prod.fst isPlace,
        show directory.name = temporaryOf readings reservation from congrArg Prod.snd isPlace]
      exact temporary
    · intro error isTorn
      rcases state with none | written
      · rw [none] at isTorn
        cases isTorn
      · rw [written] at isTorn
        cases isTorn
    · intro metadata archive isMetadata isArchive
      rcases state with none | written
      · rw [none] at isMetadata
        cases isMetadata
      · rw [written] at isMetadata
        cases isMetadata
        rcases unpublished.archive with gone | there
        · rw [gone] at isArchive
          cases isArchive
        · rw [there] at isArchive
          cases isArchive
          exact length
    · intro shown
      rw [hidden] at shown
      cases shown
  · rw [same, applyAll_append, applyAll_publication temporary]
    refine (whole.removals victims).add final (fun error isTorn => by cases isTorn) ?_ fun _ => ?_
    · rintro metadata archive ⟨⟩ ⟨⟩
      exact length
    · refine ⟨rfl, ?_⟩
      rintro metadata ⟨⟩
      rfl

theorem Whole.commit {id size : Nat} (whole : Whole root)
    (spared : SparedAt (plan service root readings (.commit id size)).ops ending) :
    Whole (ending.rootAfter root (plan service root readings (.commit id size)).ops) := by
  have isPlan : plan service root readings (.commit id size) =
      commitCache service root readings id size := rfl
  rw [isPlan] at spared ⊢
  rcases @commitCache_cases _ service root readings id size with
    ⟨error, refused⟩ | ⟨reservation, -, -, -, same⟩
  · rw [refused, fail, rootAfter_nil]
    exact whole
  rw [same] at spared ⊢
  rcases @commitReservation_shape _ service root readings reservation size whole.stored.untorn with
    isOps | isOps | ⟨content, -, length, -, outcome⟩
  · rw [isOps, rootAfter_nil]
    exact whole
  · rw [isOps] at spared ⊢
    exact whole.removing spared
  · rcases outcome with ⟨⟨error, refused⟩, -⟩ | ⟨-, final, temporary, done⟩
    · rw [refused] at spared ⊢
      exact whole.removing spared
    · rw [done] at spared ⊢
      exact whole.publishing length final temporary spared

/-! ### Later requests -/

/-- The archive of a download is that of an entry, of the size and with the name that the
metadata says. -/
theorem Whole.downloads {digest : String} {archive : Bytes} (whole : Whole root)
    (served : downloadCache service root digest = some archive) :
    ∃ directory ∈ root, directory.isAt service.scopeRoot digest = true ∧
      directory.archive = some archive ∧ ∃ metadata,
        directory.metadata = some (.written metadata) ∧ archive.length = metadata.size ∧
        digest = entryDigest metadata.cacheKey metadata.cacheVersion := by
  unfold downloadCache at served
  split at served
  · next allowed =>
      obtain ⟨directory, found, isArchive⟩ := Option.bind_eq_some_iff.mp served
      have here := List.find?_some found
      have present := List.mem_of_find?_eq_some found
      have isName : directory.name = digest := congrArg Prod.snd (isAt_iff.mp here)
      have shown : directory.hidden = false := by
        rw [Directory.hidden, isName]
        refine decide_eq_false fun dot => ?_
        -- A dot is no hexadecimal digit.
        have hex := List.all_eq_true.mp (Bool.and_eq_true_iff.mp allowed).2 '.'
          (List.mem_of_head? dot)
        exact absurd hex (by decide)
      obtain ⟨entry, isEntry⟩ := Option.isSome_iff_exists.mp (whole.entries directory present shown)
      have written := (entry?_eq_some.mp isEntry).2.1
      exact ⟨directory, present, here, isArchive, entry.metadata, written,
        whole.stored.sized directory present _ _ written isArchive,
        isName.symm.trans (whole.stored.named directory present shown _ written)⟩
  · cases served

/-- The root without the directories that publications have left behind. -/
def withoutLeftovers (root : List Directory) : List Directory := root.filter (!·.hidden)

omit [Sha256] in
theorem loadScopeEntries_withoutLeftovers (root : List Directory) (scopeRoot : String) :
    loadScopeEntries (withoutLeftovers root) scopeRoot = loadScopeEntries root scopeRoot := by
  rw [loadScopeEntries, loadScopeEntries, withoutLeftovers, List.filter_filter]
  refine congrArg (List.filterMap _) (List.filter_congr fun directory _ => ?_)
  rw [Bool.and_assoc, Bool.and_self]

/-- Lookups, lists and reservations see no leftovers. -/
theorem plan_withoutLeftovers {request : Request}
    (reads : ∀ id size, request ≠ .commit id size) :
    plan service (withoutLeftovers root) readings request =
      plan service root readings request := by
  have same : discarded service (withoutLeftovers root) readings =
      discarded service root readings := by
    rw [discarded, discarded, loadScopeEntries_withoutLeftovers]
  have also : retained service (withoutLeftovers root) readings =
      retained service root readings := by
    rw [retained, retained, loadScopeEntries_withoutLeftovers]
  cases request with
  | commit id size => exact absurd rfl (reads id size)
  | upload => rfl
  | lookup => rw [plan, plan, lookupCache, lookupCache, same, also]
  | list => rw [plan, plan, listCaches, listCaches, same, also]
  | reserve => rw [plan, plan, reserveCache, reserveCache, same, also]

/-- A commit succeeds whose name is free or that of an expired entry of its key. -/
theorem Whole.commits {id size : Nat} {reservation : Reservation} {content : Bytes}
    (whole : Whole root)
    (limits : service.limits.maximumEntryBytes ≤ service.limits.maximumBytes)
    (writes : service.mode.allowsWrite = true) (positive : 0 < size)
    (fits : size ≤ service.limits.maximumEntryBytes)
    (there : service.reservation? id = some reservation)
    (isOpen : reservation.committed = false)
    (covered : rangesCover reservation.ranges size = true)
    (uploaded : reservation.upload = some content) (length : content.length = size)
    (free : (retained service root readings).any
      (·.isFor reservation.key reservation.version) = false)
    (named : ∀ directory ∈ root, directory.place = (service.scopeRoot, finalName reservation) →
      ∃ entry, directory.entry? = some entry ∧
        entry.isFor reservation.key reservation.version = true)
    (fresh : Vacant root service.scopeRoot (temporaryOf readings reservation)) :
    (commitCache service root readings id size).answer = .noContent := by
  rw [commitCache_publishes writes positive fits there isOpen covered uploaded length free]
  have scanned := scan_of_untorn (whole.removals (discarded service root readings)).stored.untorn
  rcases publish_cases reservation content size with
    ⟨error, torn, -⟩ | ⟨entries, isScan, ⟨error, refused, why⟩ | ⟨-, -, -, done⟩⟩
  · rw [scanned] at torn
    cases torn
  · rw [scanned] at isScan
    cases isScan
    have vacant := @vacant_final _ service root readings reservation size free named
    have clear := (applyAll_removals_fewer root (commitVictims service root readings size)).vacant
      fresh
    rw [commitVictims, removals_append, applyAll_append] at vacant clear
    rcases why with full | taken | taken
    · refine absurd full (Nat.not_lt.mpr ?_)
      refine evict_fits ((totalSize_le _).trans (storedSize_perm ?_).le) (fits.trans limits)
      exact (List.mergeSort_perm _ _).symm
    · exact absurd vacant taken
    · exact absurd clear taken
  · rw [done]

end Roots

/-! ### Runs -/

theorem Whole.step [Sha256] {cache : Cache} {event : Event} (whole : Whole cache.root)
    (unspoiled : Unspoiled cache event) : Whole (step cache event).root := by
  cases event with
  | start scopeRoot scope mode limits =>
      dsimp only [CacheStore.step]
      split
      · exact whole
      · exact whole
  | request index request readings ending =>
      dsimp only [CacheStore.step]
      cases found : cache.services[index]? with
      | none => exact whole
      | some service =>
          have spared := unspoiled service found
          by_cases commits : ∃ id size, request = .commit id size
          · obtain ⟨id, size, rfl⟩ := commits
            exact whole.commit spared
          · exact whole.read (fun id size same => commits ⟨id, size, same⟩) spared

theorem whole_initial [Sha256] : Whole [] :=
  ⟨⟨List.nodup_nil, (fun _ member => by cases member), (fun _ member => by cases member),
    fun _ member => by cases member⟩, fun _ member => by cases member⟩

/-- In every run in which no process stops in the midst of writing the metadata of an upload,
and no removal of a published entry ends between its files: on the root that is reached every
service serves only archives of the size and the name that their metadata says; answers
lookups, lists and reservations as if there were no leftovers; and accepts every commit of a
complete upload whose key is not published. -/
theorem crashes_are_harmless [Sha256] (events : List Event)
    (unspoiled : Along step Unspoiled {} events) (service : CacheService)
    (limits : service.limits.maximumEntryBytes ≤ service.limits.maximumBytes) :
    let root := (run step {} events).root
    (∀ digest archive, downloadCache service root digest = some archive →
      ∃ directory ∈ root, directory.isAt service.scopeRoot digest = true ∧
        directory.archive = some archive ∧ ∃ metadata,
          directory.metadata = some (.written metadata) ∧ archive.length = metadata.size ∧
          digest = entryDigest metadata.cacheKey metadata.cacheVersion) ∧
    (∀ request readings, (∀ id size, request ≠ .commit id size) →
      plan service root readings request =
        plan service (withoutLeftovers root) readings request) ∧
    ∀ id size readings reservation content, service.mode.allowsWrite = true → 0 < size →
      size ≤ service.limits.maximumEntryBytes →
      service.reservation? id = some reservation → reservation.committed = false →
      rangesCover reservation.ranges size = true → reservation.upload = some content →
      content.length = size →
      (retained service root readings).any
        (·.isFor reservation.key reservation.version) = false →
      (∀ directory ∈ root, directory.place = (service.scopeRoot, finalName reservation) →
        ∃ entry, directory.entry? = some entry ∧
          entry.isFor reservation.key reservation.version = true) →
      Vacant root service.scopeRoot (temporaryOf readings reservation) →
      (plan service root readings (.commit id size)).answer = .noContent := by
  intro root
  have whole : Whole root :=
    @Along.invariant _ _ step Unspoiled (fun cache => Whole cache.root)
      (fun _ _ whole unspoiled => whole.step unspoiled) {} events whole_initial unspoiled
  refine ⟨fun digest archive => whole.downloads, ?_, ?_⟩
  · exact fun request readings reads => (plan_withoutLeftovers reads).symm
  · intro id size readings reservation content writes positive fits there isOpen covered uploaded
      length free named fresh
    exact whole.commits limits writes positive fits there isOpen covered uploaded length free named
      fresh

/-! ### Processes that stop -/

namespace CrashSample

scoped instance copiedDigest : Sha256 := ⟨fun value => value⟩

def start : Event :=
  .start "scope" "refs/heads/main" .write { maximumBytes := 5, maximumEntryBytes := 5 }

def event (time : Nat) (request : Request) (ending : Ending) : Event :=
  .request 0 request { discard := time, access := time, evict := time, store := time, uuid := "u" }
    ending

/-- A new process, and an upload of three bytes to it. -/
def uploaded (key : String) : List Event :=
  [start, event 0 (.reserve key (some "version") none) .complete,
    event 0 (.upload 1 (some "bytes 0-2/*") ⟨[[1, 2, 3]], none⟩) .complete]

/-- A process stops before it renames what it has written. -/
def left : List Event :=
  uploaded "key" ++ [event 0 (.commit 1 3) (.stops 3 none)] ++ uploaded "key"

theorem unspoiled_event (cache : Cache) (time : Nat) (request : Request) {ending : Ending}
    (uncut : ∀ after cut, ending.stage ≠ some (after, some cut)) :
    Unspoiled cache (event time request ending) :=
  fun _ _ after cut _ isStage => absurd isStage (uncut after cut)

theorem left_unspoiled : Along step Unspoiled {} left := by
  have complete : ∀ cache request, Unspoiled cache (event 0 request .complete) :=
    fun cache request => unspoiled_event cache 0 request fun _ _ same => by cases same
  refine ⟨trivial, complete _ _, complete _ _, unspoiled_event _ _ _ ?_, trivial, complete _ _,
    complete _ _, trivial⟩
  exact fun _ _ same => by cases same

def service : CacheService :=
  { scopeRoot := "scope"
    scope := "refs/heads/main"
    mode := .write
    limits := { maximumBytes := 5, maximumEntryBytes := 5 }
    nextReservation := 2
    reservations := [(1, { key := "key", version := "version", upload := some [1, 2, 3]
                           ranges := [(0, 2)], committed := false })] }

def times (uuid : String) : Readings :=
  { discard := 0, access := 0, evict := 0, store := 0, uuid := uuid }

/-- The leftover is evicted for the next commit of the key. -/
theorem leftover_is_harmless :
    ((run step {} left).root.map fun directory => (directory.hidden, directory.archive)) =
        [(true, some [1, 2, 3])] ∧
      (plan service (run step {} left).root (times "v") (.commit 1 3)).answer = .noContent := by
  refine ⟨by decide +kernel, ?_⟩
  exact (crashes_are_harmless left left_unspoiled service (by decide)).2.2 1 3 (times "v") _
    [1, 2, 3] rfl (by decide) (by decide) rfl rfl (by decide +kernel) rfl rfl (by decide +kernel)
    (fun directory member place => absurd place (by
      revert directory
      decide +kernel)) (by
        rw [Vacant]
        decide +kernel)

/-- A process stops in the midst of writing the metadata: no later process commits anything,
whatever its key. -/
theorem torn_metadata_blocks_commits :
    let cache := run step {} (uploaded "key" ++ [event 0 (.commit 1 3) (.stops 2 (some
      { error := "EOF while parsing a value at line 1 column 0" }))] ++ uploaded "other")
    let commit := event 0 (.commit 1 3) .complete
    answer cache commit =
        some (.failed ⟨500, "EOF while parsing a value at line 1 column 0"⟩) ∧
      step cache commit = cache := by
  decide +kernel

/-- A process stops in the midst of removing an expired entry: its key can be reserved, and
is not committed any more. -/
example :
    let cache := run step {} (uploaded "key" ++ [event 0 (.commit 1 3) .complete,
      event (cacheRetention + 1) (.list none) (.stops 0 (some { metadata := false }))] ++
      uploaded "key")
    let commit := event 0 (.commit 1 3) .complete
    answer cache commit = some (.failed ⟨409, "cache entry storage already exists"⟩) ∧
      step cache commit = cache := by
  decide +kernel

end CrashSample

end GitZero.Agent.CacheStore
