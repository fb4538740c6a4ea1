/-
Module: GitZero.Proofs.CachePlans
Purpose: What the requests to a cache service can plan: the removals that come first, the
  checks after them, and the publication at the end of a commit.
Trusted boundary: none
Main exports: publish_cases, commitReservation_cases, uploadChunk_cases, reserveCache_cases
-/
import GitZero.Agent.CacheStore

namespace GitZero.Agent.CacheStore

open Artifacts (Bytes Sha256 u64Max saturatingAdd)

section Roots

variable {root : List Directory}

@[simp] theorem applyAll_nil : applyAll root [] = root := rfl

theorem applyAll_cons (op : FileOp) (ops : List FileOp) :
    applyAll root (op :: ops) = applyAll (op.apply root) ops := rfl

theorem applyAll_append (first second : List FileOp) :
    applyAll root (first ++ second) = applyAll (applyAll root first) second :=
  List.foldl_append

theorem unmoved_removals (entries : List CacheEntry) :
    (removals entries).any (·.isMoveArchive) = false := by
  rw [removals, List.any_map]
  exact List.any_eq_false.mpr fun _ _ => Bool.false_ne_true

end Roots

section Publication

variable {root : List Directory} {scopeRoot temporary final : String} {content : Bytes}
  {metadata : StoredCache}

/-- No directory has the name. -/
def Vacant (root : List Directory) (scopeRoot name : String) : Prop :=
  root.any (·.isAt scopeRoot name) = false

theorem Vacant.update (vacant : Vacant root scopeRoot final) (set : Directory → Directory) :
    Table.update root (·.isAt scopeRoot final) set = root :=
  Table.update_unselected fun directory member => by
    simpa using List.any_eq_false.mp vacant directory member

theorem Vacant.update_new (vacant : Vacant root scopeRoot final)
    (set : Directory → Directory) {directory : Directory}
    (isNew : directory.isAt scopeRoot final = true) :
    Table.update (root ++ [directory]) (·.isAt scopeRoot final) set = root ++ [set directory] := by
  have old := vacant.update set
  unfold Table.update at old ⊢
  rw [List.map_append, old, List.map_singleton, if_pos isNew]

/-- A publication adds one directory. -/
theorem applyAll_publication (vacant : Vacant root scopeRoot temporary) :
    applyAll root (publication scopeRoot temporary final content metadata) =
      root ++ [{ scopeRoot := scopeRoot
                 name := final
                 metadata := some (.written metadata)
                 archive := some content }] := by
  simp only [publication, applyAll_cons, applyAll_nil, FileOp.apply]
  rw [vacant.update_new _ (by simp [Directory.isAt]), vacant.update_new _
    (by simp [Directory.isAt]), vacant.update_new _ (by simp [Directory.isAt])]

end Publication

section Requests

variable [Sha256] {service : CacheService} {root : List Directory} {readings : Readings}

/-- The names that a commit of the reservation uses. -/
def finalName (reservation : Reservation) : String :=
  entryDigest reservation.key reservation.version

def temporaryOf (readings : Readings) (reservation : Reservation) : String :=
  temporaryName (finalName reservation) readings.uuid

/-- What a commit stores. -/
def storedCache (service : CacheService) (readings : Readings) (reservation : Reservation)
    (size : Nat) : StoredCache :=
  { cacheKey := reservation.key
    cacheVersion := reservation.version
    scope := service.scope
    creationTime := readings.store
    lastAccessedTime := readings.store
    size := size }

/-- What a commit of the size evicts, and the total that it leaves. -/
def evicted (service : CacheService) (readings : Readings) (size : Nat)
    (entries : List CacheEntry) : List CacheEntry × Nat :=
  evictForSpace readings.evict service.limits.maximumBytes size entries

/-- How a commit of an open reservation ends. -/
theorem publish_cases (reservation : Reservation) (content : Bytes) (size : Nat) :
    (∃ error, scanCacheEntries root = .error error ∧
      publish service root readings reservation content size = fail (.internal error)) ∨
    ∃ entries, scanCacheEntries root = .ok entries ∧
      let cleared := applyAll root (removals (evicted service readings size entries).1)
      ((∃ error, publish service root readings reservation content size =
          ⟨removals (evicted service readings size entries).1, .failed error⟩ ∧
        (service.limits.maximumBytes <
            saturatingAdd (evicted service readings size entries).2 size ∨
          ¬ Vacant cleared service.scopeRoot (finalName reservation) ∨
          ¬ Vacant cleared service.scopeRoot (temporaryOf readings reservation))) ∨
      (saturatingAdd (evicted service readings size entries).2 size ≤
          service.limits.maximumBytes ∧
        Vacant cleared service.scopeRoot (finalName reservation) ∧
        Vacant cleared service.scopeRoot (temporaryOf readings reservation) ∧
        publish service root readings reservation content size =
          ⟨removals (evicted service readings size entries).1 ++
            publication service.scopeRoot (temporaryOf readings reservation)
              (finalName reservation) content
              (storedCache service readings reservation size), .noContent⟩)) := by
  unfold publish
  cases scanned : scanCacheEntries root with
  | error error => exact .inl ⟨error, rfl, rfl⟩
  | ok entries =>
      refine .inr ⟨entries, rfl, ?_⟩
      dsimp only
      split
      · next full => exact .inl ⟨_, rfl, .inl full⟩
      · next fits =>
          split
          · next taken =>
              refine .inl ⟨_, rfl, .inr (.inl fun vacant => ?_)⟩
              exact Bool.false_ne_true (vacant.symm.trans taken)
          · next vacant =>
              split
              · next taken =>
                  refine .inl ⟨_, rfl, .inr (.inr fun free => ?_)⟩
                  exact Bool.false_ne_true (free.symm.trans taken)
              · next free =>
                  exact .inr ⟨Nat.not_lt.mp fits, Bool.eq_false_iff.mpr vacant,
                    Bool.eq_false_iff.mpr free, rfl⟩

/-- A commit finds the reservation committed, or is refused before it looks at the root, or
meets an entry of its key and version, or goes on to publish. -/
theorem commitReservation_cases (reservation : Reservation) (size : Nat) :
    (reservation.committed = true ∧
      commitReservation service root readings reservation size = ⟨[], .noContent⟩) ∨
    (∃ error, commitReservation service root readings reservation size = fail error) ∨
    ∃ content, reservation.committed = false ∧ rangesCover reservation.ranges size = true ∧
      reservation.upload = some content ∧ content.length = size ∧
      (((retained service root readings).any (·.isFor reservation.key reservation.version) = true ∧
          commitReservation service root readings reservation size =
            ⟨removals (discarded service root readings),
              .failed CacheHttpError.alreadyExists⟩) ∨
        ((retained service root readings).any (·.isFor reservation.key reservation.version) =
            false ∧
          commitReservation service root readings reservation size =
            ⟨removals (discarded service root readings) ++
              (publish service (applyAll root (removals (discarded service root readings)))
                readings reservation content size).ops,
              (publish service (applyAll root (removals (discarded service root readings)))
                readings reservation content size).answer⟩)) := by
  unfold commitReservation
  by_cases committed : reservation.committed = true
  · exact .inl ⟨committed, if_pos committed⟩
  rw [if_neg committed]
  right
  by_cases covered : rangesCover reservation.ranges size = true
  · rw [if_neg (by simp [covered])]
    cases uploaded : reservation.upload with
    | none => exact .inl ⟨_, rfl⟩
    | some content =>
        dsimp only
        by_cases length : content.length = size
        · rw [if_neg (by simp [length])]
          refine .inr ⟨content, by simpa using committed, covered, rfl, length, ?_⟩
          cases matching : (retained service root readings).any
              (·.isFor reservation.key reservation.version) with
          | true => exact .inl ⟨rfl, if_pos rfl⟩
          | false => exact .inr ⟨rfl, if_neg Bool.false_ne_true⟩
        · rw [if_pos length]
          exact .inl ⟨_, rfl⟩
  · rw [if_pos (by simp [covered])]
    exact .inl ⟨_, rfl⟩

theorem commitCache_cases (id size : Nat) :
    (∃ error, commitCache service root readings id size = fail error) ∨
    ∃ reservation, service.reservation? id = some reservation ∧ 0 < size ∧
      size ≤ service.limits.maximumEntryBytes ∧
      commitCache service root readings id size =
        commitReservation service root readings reservation size := by
  unfold commitCache
  split
  · exact .inl ⟨_, rfl⟩
  · split
    · exact .inl ⟨_, rfl⟩
    · next fits =>
        split
        · exact .inl ⟨_, rfl⟩
        · next reservation found =>
            simp only [Bool.or_eq_true, decide_eq_true_eq, not_or, Nat.not_lt] at fits
            exact .inr ⟨reservation, found, Nat.pos_of_ne_zero fits.1, fits.2, rfl⟩

/-- A commit of a complete upload without an entry of its key and version comes to publish. -/
theorem commitCache_publishes {id size : Nat} {reservation : Reservation} {content : Bytes}
    (writes : service.mode.allowsWrite = true) (positive : 0 < size)
    (fits : size ≤ service.limits.maximumEntryBytes)
    (there : service.reservation? id = some reservation)
    (isOpen : reservation.committed = false)
    (covered : rangesCover reservation.ranges size = true)
    (uploaded : reservation.upload = some content) (length : content.length = size)
    (free : (retained service root readings).any
      (·.isFor reservation.key reservation.version) = false) :
    (commitCache service root readings id size).answer =
      (publish service (applyAll root (removals (discarded service root readings))) readings
        reservation content size).answer := by
  unfold commitCache
  rw [requireCacheWrite, if_pos writes]
  dsimp only
  rw [if_neg (by simp; omega), there]
  dsimp only
  unfold commitReservation
  rw [if_neg (by simp [isOpen]), if_neg (by simp [covered]), uploaded]
  dsimp only
  rw [if_neg (by simp [length]), if_neg (by simp [free])]

omit [Sha256] in
/-- How a reservation ends. -/
theorem reserveCache_cases (key : String) (version : Option String) (cacheSize : Option Nat) :
    (∃ error, reserveCache service root readings key version cacheSize = fail error) ∨
    ((retained service root readings).any (·.isFor key (version.getD "")) = true ∧
      reserveCache service root readings key version cacheSize =
        ⟨removals (discarded service root readings), .failed CacheHttpError.alreadyExists⟩) ∨
    ((retained service root readings).any (·.isFor key (version.getD "")) = false ∧
      reserveCache service root readings key version cacheSize =
        ⟨removals (discarded service root readings), .created service.nextReservation⟩) := by
  unfold reserveCache
  split
  · exact .inl ⟨_, rfl⟩
  · split
    · exact .inl ⟨_, rfl⟩
    · cases matching : (retained service root readings).any (·.isFor key (version.getD "")) with
      | true => exact .inr (.inl ⟨rfl, if_pos rfl⟩)
      | false => exact .inr (.inr ⟨rfl, if_neg Bool.false_ne_true⟩)

omit [Sha256] in
/-- How an upload ends. -/
theorem uploadChunk_cases (id : Nat) (contentRange : Option String) (body : Body) :
    (∃ error, uploadChunk service id contentRange body = (service, .failed error)) ∨
    ∃ range reservation, parseContentRange contentRange = .ok range ∧
      range.2 < service.limits.maximumEntryBytes ∧
      service.reservation? id = some reservation ∧
      uploadChunk service id contentRange body =
        (service.setReservation id (uploadRange reservation range.1 range.2 body).1,
          (uploadRange reservation range.1 range.2 body).2) := by
  unfold uploadChunk
  split
  · exact .inl ⟨_, rfl⟩
  · split
    · exact .inl ⟨_, rfl⟩
    · next start last parsed =>
        split
        · exact .inl ⟨_, rfl⟩
        · next fits =>
            split
            · exact .inl ⟨_, rfl⟩
            · next reservation found =>
                exact .inr ⟨(start, last), reservation, parsed, Nat.not_le.mp fits, found, rfl⟩

omit [Sha256] in
theorem parseContentRange_ordered {value : Option String} {range : Nat × Nat}
    (parsed : parseContentRange value = .ok range) : range.1 ≤ range.2 := by
  unfold parseContentRange at parsed
  split at parsed
  · cases parsed
  · split at parsed
    · cases parsed
    · split at parsed
      · split at parsed
        · cases parsed
        · next ordered =>
            cases parsed
            exact Nat.not_lt.mp ordered
      · cases parsed

end Requests

end GitZero.Agent.CacheStore
