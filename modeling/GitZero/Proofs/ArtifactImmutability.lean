/-
Module: GitZero.Proofs.ArtifactImmutability
Purpose: Finalized artifacts over every interleaving of requests: what they keep as long
  as no request changes the files that another one is working on.
Trusted boundary: none
Main exports: Undisturbed, Sound, finalized_artifacts_kept, late_upload_replaces_blob
-/
import GitZero.Agent.Artifacts
import GitZero.Lib.Machine
import GitZero.Lib.Outcomes

namespace GitZero.Agent.Artifacts

open Table Machine

/-! ### Steps that leave each other's files alone -/

namespace Frame

/-- The blob has been renamed into place and its size is not yet recorded. -/
def renamed (id : Nat) : Frame → Bool
  | .commitRenamed owner _ | .uploadRenamed owner _ => owner = id
  | _ => false

/-- A finalize has opened the blob and has not yet marked the artifact. -/
def opened (id : Nat) : Frame → Bool
  | .hashed owner _ _ => owner = id
  | _ => false

/-- A commit still has to copy the block. -/
def copies (id : Nat) (path : String) : Frame → Bool
  | .commitCopying owner remaining _ _ => owner = id && remaining.any (·.path = path)
  | _ => false

end Frame

section Condition

variable [Sha256]

/-- A blob is renamed into place only before the artifact is finalized, with no finalize
past the opening of the blob and no other blob renamed but not recorded; a finalize marks
the artifact with no such blob; and a block is renamed into place with no commit that
still has to copy it and no other block id of the same digest. -/
def Frame.Spares (service : Service) : Frame → Prop
  | .commitCopying id [] _ _ | .uploadRenaming id _ =>
      (∀ artifact ∈ service.records, artifact.id = id → artifact.finalized = false) ∧
        ∀ frame ∈ service.tasks, frame.opened id = false ∧ frame.renamed id = false
  | .hashed id _ _ =>
      service.locked = true ∨ ∀ frame ∈ service.tasks, frame.renamed id = false
  | .stageRenaming id blockId _ =>
      (∀ frame ∈ service.tasks, frame.copies id (blockPath blockId) = false) ∧
        ∀ artifact ∈ service.records, artifact.id = id → ∀ entry ∈ artifact.blocks,
          entry.1 ≠ blockId → entry.2.path ≠ blockPath blockId
  | _ => True

/-- The step leaves alone what another request is working on. -/
def Undisturbed (service : Service) : Event → Prop
  | .proceed task none => ∀ frame ∈ service.tasks[task]?, frame.Spares service
  | _ => True

instance Frame.decidableSpares (service : Service) :
    ∀ frame : Frame, Decidable (frame.Spares service)
  | .commitCopying _ [] _ _ | .uploadRenaming _ _ => inferInstanceAs (Decidable (_ ∧ _))
  | .hashed _ _ _ => inferInstanceAs (Decidable (_ ∨ _))
  | .stageRenaming _ _ _ => inferInstanceAs (Decidable (_ ∧ _))
  | .commitCopying _ (_ :: _) _ _ => isTrue trivial
  | .requested _ | .stageWriting _ _ _ | .stageWritten _ _ _ | .stageRenamed _ _ _
  | .commitRenamed _ _ | .commitRemoving _ | .uploadWriting _ _ _ | .uploadWritten _ _ _
  | .uploadRenamed _ _ | .hashing _ _ | .deleting _ | .done _ => isTrue trivial

instance decidableUndisturbed (service : Service) :
    ∀ event : Event, Decidable (Undisturbed service event)
  | .proceed task none =>
      inferInstanceAs (Decidable (∀ frame ∈ service.tasks[task]?, frame.Spares service))
  | .proceed _ (some _) | .request _ | .remove _ _ => isTrue trivial

end Condition

/-! ### The invariant -/

namespace Service

def Present (service : Service) (id : Nat) : Prop :=
  ∃ artifact ∈ service.records, artifact.id = id

/-- The block file, if it is there, has the size. -/
def Sized (service : Service) (id : Nat) (path : String) (size : Nat) : Prop :=
  ∀ content, service.disk (.block id path) = some content → content.length = size

/-- The blob is there and has the size. -/
def BlobSized (service : Service) (id : Nat) (size : Nat) : Prop :=
  ∃ content, service.disk (.blob id) = some content ∧ content.length = size

end Service

section Tasks

variable {settings : Settings} {service : Service} {task : Nat} {frame next : Frame}

theorem mem_or_of_set {other : Frame} (suspended : service.tasks[task]? = some frame)
    (member : other ∈ service.tasks) : other = frame ∨ other ∈ service.tasks.set task next := by
  obtain ⟨index, found⟩ := List.mem_iff_getElem?.mp member
  by_cases same : task = index
  · left
    rw [← same, suspended] at found
    exact (Option.some.inj found).symm
  · right
    refine List.mem_iff_getElem?.mpr ⟨index, ?_⟩
    rw [List.getElem?_set_ne same]
    exact found

theorem mem_set_next (suspended : service.tasks[task]? = some frame) :
    next ∈ service.tasks.set task next :=
  List.mem_set (List.getElem?_eq_some_iff.mp suspended).1 next

theorem unrenamed_set {id : Nat} (suspended : service.tasks[task]? = some frame)
    (was : frame.renamed id = false) (now : next.renamed id = false) :
    (∀ other ∈ service.tasks.set task next, other.renamed id = false) ↔
      ∀ other ∈ service.tasks, other.renamed id = false := by
  constructor
  · intro none other member
    rcases mem_or_of_set suspended member with rfl | kept
    · exact was
    · exact none other kept
  · intro none other member
    rcases List.mem_or_eq_of_mem_set member with old | rfl
    · exact none other old
    · exact now

theorem unstaged_set {id : Nat} {blockId : String} (suspended : service.tasks[task]? = some frame)
    (was : ∀ size, frame ≠ .stageRenamed id blockId size)
    (none : ∀ size, Frame.stageRenamed id blockId size ∉ service.tasks.set task next) :
    ∀ size, Frame.stageRenamed id blockId size ∉ service.tasks := by
  intro size member
  rcases mem_or_of_set suspended member with same | kept
  · exact was size same.symm
  · exact none size kept

theorem record?_eq_some {id : Nat} {artifact : ArtifactRecord}
    (found : service.record? id = some artifact) :
    artifact ∈ service.records ∧ artifact.id = id :=
  ⟨row_mem found, row_key found⟩

theorem absent_of_record? {id : Nat} (none : service.record? id = none) :
    ∀ artifact ∈ service.records, artifact.id ≠ id := row_eq_none.mp none

theorem stageBlock_cases (id : Nat) (blockId : String) (contentLength : Option Nat)
    (body : Bytes) :
    (∃ error, stageBlock settings service id blockId contentLength body = .done (.error error)) ∨
      ∃ artifact, service.record? id = some artifact ∧
        stageBlock settings service id blockId contentLength body =
          .stageWriting id blockId body := by
  unfold stageBlock
  split
  · exact .inl ⟨_, rfl⟩
  · split
    · exact .inl ⟨_, rfl⟩
    · split
      · exact .inl ⟨_, rfl⟩
      · split
        · exact .inl ⟨_, rfl⟩
        · exact .inr ⟨_, ‹_›, rfl⟩

theorem uploadSingleBlob_cases (id : Nat) (contentLength : Option Nat) (body : Bytes) :
    (∃ error, uploadSingleBlob settings service id contentLength body = .done (.error error)) ∨
      ∃ artifact, service.record? id = some artifact ∧
        uploadSingleBlob settings service id contentLength body =
          .uploadWriting id body (artifactLogicalSize artifact) := by
  unfold uploadSingleBlob
  split
  · exact .inl ⟨_, rfl⟩
  · split
    · exact .inl ⟨_, rfl⟩
    · split
      · exact .inl ⟨_, rfl⟩
      · exact .inr ⟨_, ‹_›, rfl⟩

theorem commitBlockList_cases (id : Nat) (order : List String) :
    (∃ error, commitBlockList settings service id order = .done (.error error)) ∨
      ∃ artifact blocks, service.record? id = some artifact ∧
        (∀ block ∈ blocks, ∃ blockId, (blockId, block) ∈ artifact.blocks) ∧
        commitBlockList settings service id order =
          .commitCopying id blocks [] (blocks.map (·.size)).sum := by
  unfold commitBlockList
  split
  · exact .inl ⟨_, rfl⟩
  · split
    · exact .inl ⟨_, rfl⟩
    · split
      · exact .inl ⟨_, rfl⟩
      · rename_i artifact found _ _ blocks listed
        dsimp only
        split
        · exact .inl ⟨_, rfl⟩
        · split
          · exact .inl ⟨_, rfl⟩
          · refine .inr ⟨artifact, blocks, found, fun block member => ?_, rfl⟩
            obtain ⟨blockId, -, stored⟩ := Outcomes.exists_of_mem_mapM listed member
            obtain ⟨before, after, same, -⟩ := List.lookup_eq_some_iff.mp stored
            exact ⟨blockId, by simp [same]⟩

theorem finalizeArtifact_cases (runId jobId name : String) (size : Nat) (hash : Option String) :
    (∃ error, finalizeArtifact settings service runId jobId name size hash =
      .done (.error error)) ∨
    ∃ artifact ∈ service.records,
      (artifact.finalized = true ∧ finalizeArtifact settings service runId jobId name size hash =
        .done (.ok (.finalized artifact.id))) ∨
      (artifact.blobCommitted = true ∧
        finalizeArtifact settings service runId jobId name size hash =
          .hashing artifact.id hash) := by
  unfold finalizeArtifact
  split
  · exact .inl ⟨_, rfl⟩
  · split
    · exact .inl ⟨_, rfl⟩
    · rename_i artifact found
      have member := List.mem_of_find?_eq_some found
      split
      · split
        · exact .inr ⟨artifact, member, .inl ⟨‹_›, rfl⟩⟩
        · exact .inl ⟨_, rfl⟩
      · split
        · exact .inl ⟨_, rfl⟩
        · rename_i committed
          refine .inr ⟨artifact, member, .inr ⟨?_, rfl⟩⟩
          simp only [Bool.or_eq_true, not_or, Bool.not_eq_true, Bool.not_eq_false'] at committed
          exact committed.1

end Tasks

section Invariant

variable [Sha256]

/-- What a suspended task may rely on. -/
def FrameOk (service : Service) : Frame → Prop
  | .requested _ => True
  | .stageWriting id _ _ | .stageWritten id _ _ | .stageRenaming id _ _ | .commitRemoving id
  | .uploadWriting id _ _ | .uploadWritten id _ _ | .uploadRenaming id _ => id < service.nextId
  | .stageRenamed id blockId size =>
      id < service.nextId ∧ service.Sized id (blockPath blockId) size
  | .commitCopying id remaining output size =>
      id < service.nextId ∧ output.length + (remaining.map (·.size)).sum = size ∧
        ∀ block ∈ remaining, service.Sized id block.path block.size
  | .commitRenamed id size | .uploadRenamed id size =>
      id < service.nextId ∧ (service.Present id → service.BlobSized id size)
  | .hashing id _ =>
      id < service.nextId ∧
        ∀ artifact ∈ service.records, artifact.id = id → artifact.blobCommitted = true
  | .hashed id _ content =>
      id < service.nextId ∧ ∀ artifact ∈ service.records, artifact.id = id →
        artifact.blobCommitted = true ∧ service.disk (.blob id) = some content
  | .deleting id => id < service.nextId ∧ ∀ artifact ∈ service.records, artifact.id ≠ id
  | .done (.ok (.finalized id)) =>
      id < service.nextId ∧
        ∀ artifact ∈ service.records, artifact.id = id → artifact.finalized = true
  | .done _ => True

/-- What a record says of the files.  Its size is that of the blob unless a blob has been
renamed and not recorded, and the size of a block that of its file unless the block has. -/
structure RecordOk (service : Service) (artifact : ArtifactRecord) : Prop where
  numbered : artifact.id < service.nextId
  settled : artifact.blobCommitted = true →
    (∀ frame ∈ service.tasks, frame.renamed artifact.id = false) →
    service.BlobSized artifact.id artifact.size
  final : artifact.finalized = true → artifact.blobCommitted = true ∧
    (∀ frame ∈ service.tasks, frame.renamed artifact.id = false) ∧
    ∃ content, service.disk (.blob artifact.id) = some content ∧
      artifact.digest = some (blobDigest content)
  staged : ∀ entry ∈ artifact.blocks, entry.2.path = blockPath entry.1 ∧
    ((∀ size, Frame.stageRenamed artifact.id entry.1 size ∉ service.tasks) →
      service.Sized artifact.id entry.2.path entry.2.size)

/-- The invariant: every task and every record is in order, ids are used once, and one task at
most holds the lock. -/
structure Sound (service : Service) : Prop where
  frames : ∀ frame ∈ service.tasks, FrameOk service frame
  records : ∀ artifact ∈ service.records, RecordOk service artifact
  distinct : (service.records.map (·.id)).Nodup
  oneLock : ∀ (first second : Nat) (one two : Frame), service.tasks[first]? = some one →
    service.tasks[second]? = some two → one.holdsLock = true → two.holdsLock = true →
    first = second

/-- The records after a step are old ones, or new ones under new ids, and those that were
finalized are as they were, with their blob. -/
structure Keeps (before after : Service) : Prop where
  grown : before.nextId ≤ after.nextId
  old : ∀ new ∈ after.records, new.id < before.nextId → ∃ old ∈ before.records,
    old.id = new.id ∧ (old.blobCommitted = true → new.blobCommitted = true) ∧
    (old.finalized = true → new.finalized = true ∧ new.size = old.size ∧
      new.digest = old.digest ∧ after.disk (.blob new.id) = before.disk (.blob new.id))

theorem FrameOk.mono {before after : Service} {frame : Frame} (ok : FrameOk before frame)
    (keeps : Keeps before after)
    (blobs : ∀ id, frame.renamed id = true ∨ frame.opened id = true → after.Present id →
      after.disk (.blob id) = before.disk (.blob id))
    (blocks : ∀ id path content, frame.copies id path = true ∨
        (∃ blockId size, frame = .stageRenamed id blockId size ∧ blockPath blockId = path) →
      after.disk (.block id path) = some content → before.disk (.block id path) = some content) :
    FrameOk after frame := by
  -- A record with an id that the frame knows is an old one.
  have earlier : ∀ {id : Nat}, id < before.nextId → ∀ new ∈ after.records, new.id = id →
      ∃ old ∈ before.records, old.id = id ∧
        (old.blobCommitted = true → new.blobCommitted = true) ∧
        (old.finalized = true → new.finalized = true) := by
    rintro id known new member rfl
    obtain ⟨old, present, same, committed, final⟩ := keeps.old new member known
    exact ⟨old, present, same, committed, fun was => (final was).1⟩
  cases frame with
  | requested => trivial
  | stageWriting | stageWritten | stageRenaming | commitRemoving | uploadWriting | uploadWritten
  | uploadRenaming => exact Nat.lt_of_lt_of_le ok keeps.grown
  | stageRenamed id blockId size =>
      refine ⟨Nat.lt_of_lt_of_le ok.1 keeps.grown, fun content there => ?_⟩
      exact ok.2 content (blocks _ _ _ (.inr ⟨blockId, size, rfl, rfl⟩) there)
  | commitCopying id remaining output size =>
      refine ⟨Nat.lt_of_lt_of_le ok.1 keeps.grown, ok.2.1, fun block member content there => ?_⟩
      refine ok.2.2 block member content (blocks _ _ _ (.inl ?_) there)
      simp only [Frame.copies, decide_true, Bool.true_and, List.any_eq_true]
      exact ⟨block, member, by simp⟩
  | commitRenamed id size | uploadRenamed id size =>
      refine ⟨Nat.lt_of_lt_of_le ok.1 keeps.grown, fun present => ?_⟩
      obtain ⟨new, member, same⟩ := present
      obtain ⟨old, found, isId, -⟩ := earlier ok.1 new member same
      unfold Service.BlobSized
      rw [blobs id (.inl (by simp [Frame.renamed])) ⟨new, member, same⟩]
      exact ok.2 ⟨old, found, isId⟩
  | hashing id expectedHash =>
      refine ⟨Nat.lt_of_lt_of_le ok.1 keeps.grown, fun new member same => ?_⟩
      obtain ⟨old, found, isId, committed, -⟩ := earlier ok.1 new member same
      exact committed (ok.2 old found isId)
  | hashed id expectedHash content =>
      refine ⟨Nat.lt_of_lt_of_le ok.1 keeps.grown, fun new member same => ?_⟩
      obtain ⟨old, found, isId, committed, -⟩ := earlier ok.1 new member same
      rw [blobs id (.inr (by simp [Frame.opened])) ⟨new, member, same⟩]
      exact ⟨committed (ok.2 old found isId).1, (ok.2 old found isId).2⟩
  | deleting id =>
      refine ⟨Nat.lt_of_lt_of_le ok.1 keeps.grown, fun new member same => ?_⟩
      obtain ⟨old, found, isId, -⟩ := earlier ok.1 new member same
      exact ok.2 old found isId
  | done answer =>
      cases answer with
      | error => trivial
      | ok answer =>
          cases answer with
          | finalized id =>
              refine ⟨Nat.lt_of_lt_of_le ok.1 keeps.grown, fun new member same => ?_⟩
              obtain ⟨old, found, isId, -, final⟩ := earlier ok.1 new member same
              exact final (ok.2 old found isId)
          | created | stored | deleted => trivial

theorem RecordOk.mono {before after : Service} {artifact : ArtifactRecord}
    (ok : RecordOk before artifact) (grown : before.nextId ≤ after.nextId)
    (renamed : (∀ frame ∈ after.tasks, frame.renamed artifact.id = false) ↔
      ∀ frame ∈ before.tasks, frame.renamed artifact.id = false)
    (stages : ∀ blockId, (∀ size, Frame.stageRenamed artifact.id blockId size ∉ after.tasks) →
      ∀ size, Frame.stageRenamed artifact.id blockId size ∉ before.tasks)
    (blob : after.disk (.blob artifact.id) = before.disk (.blob artifact.id))
    (blocks : ∀ path content, after.disk (.block artifact.id path) = some content →
      before.disk (.block artifact.id path) = some content) : RecordOk after artifact := by
  constructor
  · exact Nat.lt_of_lt_of_le ok.numbered grown
  · intro committed none
    unfold Service.BlobSized
    rw [blob]
    exact ok.settled committed (renamed.mp none)
  · intro finalized
    obtain ⟨committed, none, content⟩ := ok.final finalized
    rw [blob]
    exact ⟨committed, renamed.mpr none, content⟩
  · intro entry member
    obtain ⟨path, sized⟩ := ok.staged entry member
    refine ⟨path, fun none content there => ?_⟩
    exact sized (stages entry.1 none) content (blocks _ _ there)

/-! ### One task goes on -/

section Resume

variable {service after : Service} {task : Nat} {frame next : Frame}

omit [Sha256] in
/-- Nobody else holds the lock when one task does, or when it is free. -/
theorem oneLock_set (oneLock : ∀ (first second : Nat) (one two : Frame),
      service.tasks[first]? = some one → service.tasks[second]? = some two →
      one.holdsLock = true → two.holdsLock = true → first = second)
    (suspended : service.tasks[task]? = some frame)
    (lock : next.holdsLock = true → frame.holdsLock = true ∨ service.locked = false) :
    ∀ (first second : Nat) (one two : Frame), (service.tasks.set task next)[first]? = some one →
      (service.tasks.set task next)[second]? = some two → one.holdsLock = true →
      two.holdsLock = true → first = second := by
  -- A holder at another place than the resumed task has held it before, against `lock`.
  have alone : ∀ (index : Nat) (other : Frame), task ≠ index →
      service.tasks[index]? = some other → other.holdsLock = true → next.holdsLock = true →
      False := by
    intro index other apart found holds nextHolds
    rcases lock nextHolds with held | free
    · exact apart (oneLock task index frame other suspended found held holds)
    · have unheld := List.any_eq_false.mp free other (List.mem_of_getElem? found)
      exact unheld holds
  intro first second one two isOne isTwo oneHolds twoHolds
  by_cases here : task = first
  · subst here
    by_cases there : task = second
    · exact there
    · rw [List.getElem?_set_ne there] at isTwo
      rw [List.getElem?_set_self (List.getElem?_eq_some_iff.mp suspended).1] at isOne
      cases isOne
      exact (alone second two there isTwo twoHolds oneHolds).elim
  · rw [List.getElem?_set_ne here] at isOne
    by_cases there : task = second
    · subst there
      rw [List.getElem?_set_self (List.getElem?_eq_some_iff.mp suspended).1] at isTwo
      cases isTwo
      exact (alone first one here isOne oneHolds twoHolds).elim
    · rw [List.getElem?_set_ne there] at isTwo
      exact oneLock first second one two isOne isTwo oneHolds twoHolds

theorem Sound.resume (sound : Sound service) (suspended : service.tasks[task]? = some frame)
    (tasks : after.tasks = service.tasks.set task next) (keeps : Keeps service after)
    (distinct : (after.records.map (·.id)).Nodup)
    (lock : next.holdsLock = true → frame.holdsLock = true ∨ service.locked = false)
    (ok : FrameOk after next)
    (blobs : ∀ other ∈ service.tasks, ∀ id, other.renamed id = true ∨ other.opened id = true →
      after.Present id → after.disk (.blob id) = service.disk (.blob id))
    (blocks : ∀ other ∈ service.tasks, ∀ id path content, other.copies id path = true ∨
        (∃ blockId size, other = .stageRenamed id blockId size ∧ blockPath blockId = path) →
      after.disk (.block id path) = some content → service.disk (.block id path) = some content)
    (records : ∀ artifact ∈ after.records, RecordOk after artifact) : Sound after := by
  refine ⟨?_, records, distinct, ?_⟩
  · intro other member
    rw [tasks] at member
    rcases List.mem_or_eq_of_mem_set member with old | rfl
    · exact (sound.frames other old).mono keeps (blobs other old) (blocks other old)
    · exact ok
  · rw [tasks]
    exact oneLock_set sound.oneLock suspended lock

/-- Steps that change neither records nor files. -/
theorem Sound.still (sound : Sound service) (suspended : service.tasks[task]? = some frame)
    (lock : next.holdsLock = true → frame.holdsLock = true ∨ service.locked = false)
    (ok : FrameOk service next) (unrenamed : ∀ id, next.renamed id = false)
    (was : ∀ artifact ∈ service.records, frame.renamed artifact.id = false)
    (unstaged : ∀ artifact ∈ service.records, ∀ blockId size,
      frame ≠ .stageRenamed artifact.id blockId size) :
    Sound { service with tasks := service.tasks.set task next } ∧
      Keeps service { service with tasks := service.tasks.set task next } := by
  have keeps : Keeps service { service with tasks := service.tasks.set task next } :=
    ⟨Nat.le_refl _, fun new member _ =>
      ⟨new, member, rfl, fun committed => committed, fun final => ⟨final, rfl, rfl, rfl⟩⟩⟩
  refine ⟨sound.resume suspended rfl keeps sound.distinct lock ?_ ?_ ?_ ?_, keeps⟩
  · exact ok.mono keeps (fun _ _ _ => rfl) fun _ _ _ _ there => there
  · exact fun _ _ _ _ _ => rfl
  · exact fun _ _ _ _ _ _ there => there
  · intro artifact member
    refine (sound.records artifact member).mono (Nat.le_refl _)
      (unrenamed_set suspended (was artifact member) (unrenamed _)) ?_ rfl fun _ _ there => there
    exact fun blockId => unstaged_set suspended (unstaged artifact member blockId)

/-- A blob is renamed into place. -/
theorem Sound.renameBlob {id size : Nat} {content : Bytes} (sound : Sound service)
    (suspended : service.tasks[task]? = some frame)
    (unfinalized : ∀ artifact ∈ service.records, artifact.id = id → artifact.finalized = false)
    (unwatched : ∀ other ∈ service.tasks, other.opened id = false ∧ other.renamed id = false)
    (known : id < service.nextId) (length : content.length = size)
    (lock : next.holdsLock = true → frame.holdsLock = true ∨ service.locked = false)
    (was : ∀ other, frame.renamed other = false)
    (unstaged : ∀ other blockId size, frame ≠ .stageRenamed other blockId size)
    (isNext : next = .commitRenamed id size ∨ next = .uploadRenamed id size) :
    Sound { service.write (.blob id) content with tasks := service.tasks.set task next } ∧
      Keeps service
        { service.write (.blob id) content with tasks := service.tasks.set task next } := by
  have elsewhere : ∀ other, other ≠ id →
      (service.write (.blob id) content).disk (.blob other) = service.disk (.blob other) := by
    intro other apart
    exact service.write_disk_of_ne content fun same => apart (Path.blob.inj same)
  have here : (service.write (.blob id) content).disk (.blob id) = some content :=
    service.write_disk_self ..
  have blocks : ∀ other path, (service.write (.blob id) content).disk (.block other path) =
      service.disk (.block other path) := by
    intro other path
    exact service.write_disk_of_ne content (fun same => by cases same)
  have renamed : next.renamed id = true := by
    rcases isNext with rfl | rfl <;> simp [Frame.renamed]
  have keeps : Keeps service
      { service.write (.blob id) content with tasks := service.tasks.set task next } := by
    refine ⟨Nat.le_refl _, fun new member _ => ⟨new, member, rfl, fun committed => committed, ?_⟩⟩
    intro final
    refine ⟨final, rfl, rfl, elsewhere _ fun same => ?_⟩
    rw [unfinalized new member same] at final
    cases final
  refine ⟨sound.resume suspended rfl keeps sound.distinct lock ?_ ?_ ?_ ?_, keeps⟩
  · rcases isNext with rfl | rfl <;> exact ⟨known, fun _ => ⟨content, here, length⟩⟩
  · intro other member watched watches _
    refine elsewhere watched ?_
    rintro rfl
    rcases watches with isRenamed | isOpened
    · rw [(unwatched other member).2] at isRenamed
      cases isRenamed
    · rw [(unwatched other member).1] at isOpened
      cases isOpened
  · intro other _ owner path found _ there
    rw [← blocks owner path]
    exact there
  · intro artifact member
    have ok := sound.records artifact member
    by_cases same : artifact.id = id
    · -- The new blob is not recorded yet, and the artifact is not finalized.
      refine ⟨ok.numbered, fun _ none => ?_, fun final => ?_, fun entry inside => ?_⟩
      · have unrenamed := none next (mem_set_next suspended)
        rw [same, renamed] at unrenamed
        cases unrenamed
      · rw [unfinalized artifact member same] at final
        cases final
      · obtain ⟨path, sized⟩ := ok.staged entry inside
        refine ⟨path, fun none found there => ?_⟩
        refine sized (unstaged_set suspended (unstaged _ _) none) found ?_
        rw [← blocks]
        exact there
    · refine ok.mono (Nat.le_refl _) (unrenamed_set suspended (was _) ?_) ?_ (elsewhere _ same) ?_
      · rcases isNext with rfl | rfl <;> simp [Frame.renamed, Ne.symm same]
      · exact fun blockId => unstaged_set suspended (unstaged _ _)
      · intro path found there
        rw [← blocks]
        exact there

/-- A block is renamed into place. -/
theorem Sound.renameBlock {id : Nat} {blockId : String} {content : Bytes} (sound : Sound service)
    (suspended : service.tasks[task]? = some (.stageRenaming id blockId content))
    (uncopied : ∀ other ∈ service.tasks, other.copies id (blockPath blockId) = false)
    (apart : ∀ artifact ∈ service.records, artifact.id = id → ∀ entry ∈ artifact.blocks,
      entry.1 ≠ blockId → entry.2.path ≠ blockPath blockId) :
    Sound { service.write (.block id (blockPath blockId)) content with
        tasks := service.tasks.set task (.stageRenamed id blockId content.length) } ∧
      Keeps service { service.write (.block id (blockPath blockId)) content with
        tasks := service.tasks.set task (.stageRenamed id blockId content.length) } := by
  have blobs : ∀ other, (service.write (.block id (blockPath blockId)) content).disk
      (.blob other) = service.disk (.blob other) := by
    intro other
    exact service.write_disk_of_ne content (fun same => by cases same)
  have elsewhere : ∀ owner path, ¬ (owner = id ∧ path = blockPath blockId) →
      (service.write (.block id (blockPath blockId)) content).disk (.block owner path) =
        service.disk (.block owner path) := by
    intro owner path differs
    exact service.write_disk_of_ne content fun same => differs (Path.block.inj same)
  have keeps : Keeps service { service.write (.block id (blockPath blockId)) content with
      tasks := service.tasks.set task (.stageRenamed id blockId content.length) } :=
    ⟨Nat.le_refl _, fun new member _ => ⟨new, member, rfl, fun committed => committed,
      fun final => ⟨final, rfl, rfl, blobs _⟩⟩⟩
  refine ⟨sound.resume suspended rfl keeps sound.distinct (fun _ => .inl rfl) ?_ ?_ ?_ ?_, keeps⟩
  · refine ⟨sound.frames _ (List.mem_of_getElem? suspended), fun found there => ?_⟩
    have written : (service.write (.block id (blockPath blockId)) content).disk
        (.block id (blockPath blockId)) = some content := service.write_disk_self ..
    rw [show (service.write (.block id (blockPath blockId)) content).disk
      (.block id (blockPath blockId)) = some found from there] at written
    rw [Option.some.inj written]
  · exact fun _ _ other _ _ => blobs other
  · intro other member owner path found watches there
    rw [← elsewhere owner path ?_]
    · exact there
    · rintro ⟨rfl, rfl⟩
      rcases watches with copying | ⟨otherId, size, rfl, -⟩
      · rw [uncopied other member] at copying
        cases copying
      · -- Two renames of blocks at a time: both would hold the lock.
        obtain ⟨index, isOther⟩ := List.mem_iff_getElem?.mp member
        have same := sound.oneLock task index _ _ suspended isOther rfl rfl
        rw [← same, suspended] at isOther
        cases isOther
  · intro artifact member
    have ok := sound.records artifact member
    refine ⟨ok.numbered, fun committed none => ?_, fun final => ?_, fun entry inside => ?_⟩
    · unfold Service.BlobSized
      rw [show ({ service.write (.block id (blockPath blockId)) content with
        tasks := service.tasks.set task (.stageRenamed id blockId content.length) } :
          Service).disk (.blob artifact.id) = service.disk (.blob artifact.id) from blobs _]
      exact ok.settled committed ((unrenamed_set suspended rfl rfl).mp none)
    · obtain ⟨committed, none, digest⟩ := ok.final final
      refine ⟨committed, (unrenamed_set suspended rfl rfl).mpr none, ?_⟩
      rw [show ({ service.write (.block id (blockPath blockId)) content with
        tasks := service.tasks.set task (.stageRenamed id blockId content.length) } :
          Service).disk (.blob artifact.id) = service.disk (.blob artifact.id) from blobs _]
      exact digest
    · obtain ⟨path, sized⟩ := ok.staged entry inside
      refine ⟨path, fun none found there => ?_⟩
      refine sized (unstaged_set suspended (fun _ same => by cases same) none) found ?_
      rw [← elsewhere]
      · exact there
      · rintro ⟨same, isPath⟩
        by_cases isBlock : entry.1 = blockId
        · refine none content.length ?_
          rw [same, isBlock]
          exact mem_set_next suspended
        · exact apart artifact member same entry inside isBlock isPath

/-- One record is updated, with its id kept. -/
theorem Sound.updateRecord {id : Nat} {set : ArtifactRecord → ArtifactRecord}
    (sound : Sound service) (suspended : service.tasks[task]? = some frame)
    (sameId : ∀ artifact, (set artifact).id = artifact.id)
    (unlocked : next.holdsLock = false) (unrenamed : ∀ other, next.renamed other = false)
    (was : ∀ other, other ≠ id → frame.renamed other = false)
    (unstaged : ∀ other blockId size, other ≠ id → frame ≠ .stageRenamed other blockId size)
    (kept : ∀ artifact ∈ service.records, artifact.id = id →
      (artifact.blobCommitted = true → (set artifact).blobCommitted = true) ∧
      (artifact.finalized = true → (set artifact).finalized = true ∧
        (set artifact).size = artifact.size ∧ (set artifact).digest = artifact.digest))
    (ok : FrameOk { service.updateRecord id set with tasks := service.tasks.set task next } next)
    (record : ∀ artifact ∈ service.records, artifact.id = id → RecordOk
      { service.updateRecord id set with tasks := service.tasks.set task next } (set artifact)) :
    Sound { service.updateRecord id set with tasks := service.tasks.set task next } ∧
      Keeps service
        { service.updateRecord id set with tasks := service.tasks.set task next } := by
  have keeps : Keeps service
      { service.updateRecord id set with tasks := service.tasks.set task next } := by
    refine ⟨Nat.le_refl _, fun new member _ => ?_⟩
    obtain ⟨old, present, rfl⟩ := mem_update.mp member
    refine ⟨old, present, ?_⟩
    by_cases same : old.id = id
    · rw [if_pos (decide_eq_true same)]
      obtain ⟨committed, final⟩ := kept old present same
      refine ⟨(sameId old).symm, committed, fun was => ?_⟩
      obtain ⟨isFinal, size, digest⟩ := final was
      exact ⟨isFinal, size, digest, rfl⟩
    · rw [if_neg (by simpa using same)]
      exact ⟨rfl, fun committed => committed, fun final => ⟨final, rfl, rfl, rfl⟩⟩
  have distinct : ((service.updateRecord id set).records.map (·.id)).Nodup :=
    nodup_key_update (fun old _ _ => sameId old) sound.distinct
  refine ⟨sound.resume suspended rfl keeps distinct ?_ ok ?_ ?_ ?_, keeps⟩
  · intro holds
    rw [unlocked] at holds
    cases holds
  · exact fun _ _ _ _ _ => rfl
  · exact fun _ _ _ _ _ _ there => there
  · intro artifact member
    obtain ⟨old, present, rfl⟩ := mem_update.mp member
    by_cases same : old.id = id
    · rw [if_pos (decide_eq_true same)]
      exact record old present same
    · rw [if_neg (by simpa using same)]
      refine (sound.records old present).mono (Nat.le_refl _)
        (unrenamed_set suspended (was _ same) (unrenamed _)) ?_ rfl fun _ _ there => there
      exact fun blockId => unstaged_set suspended fun size => unstaged _ _ size same

/-- The size of a renamed blob is recorded. -/
theorem Sound.recordBlob {id size : Nat} (sound : Sound service)
    (suspended : service.tasks[task]? = some frame)
    (isFrame : frame = .commitRenamed id size ∨ frame = .uploadRenamed id size)
    (unlocked : next.holdsLock = false) (unrenamed : ∀ other, next.renamed other = false)
    (ok : FrameOk { service.updateRecord id (recordBlob size) with
      tasks := service.tasks.set task next } next) :
    Sound { service.updateRecord id (recordBlob size) with
        tasks := service.tasks.set task next } ∧
      Keeps service { service.updateRecord id (recordBlob size) with
        tasks := service.tasks.set task next } := by
  have member := List.mem_of_getElem? suspended
  have renamed : frame.renamed id = true := by
    rcases isFrame with rfl | rfl <;> simp [Frame.renamed]
  have sized : service.Present id → service.BlobSized id size := by
    have holds := sound.frames frame member
    rcases isFrame with rfl | rfl <;> exact holds.2
  have unfinalized : ∀ artifact ∈ service.records, artifact.id = id →
      artifact.finalized = true → False := by
    intro artifact present same final
    have none := ((sound.records artifact present).final final).2.1 frame member
    rw [same, renamed] at none
    cases none
  refine sound.updateRecord suspended (fun _ => rfl) unlocked unrenamed ?_ ?_ ?_ ok ?_
  · intro other apart
    rcases isFrame with rfl | rfl <;> simp [Frame.renamed, Ne.symm apart]
  · intro other blockId size' _
    rcases isFrame with rfl | rfl <;> simp
  · intro artifact present same
    exact ⟨fun _ => rfl, fun final => (unfinalized artifact present same final).elim⟩
  · intro artifact present same
    refine ⟨(sound.records artifact present).numbered, fun _ _ => ?_, fun final => ?_, ?_⟩
    · have blob := sized ⟨artifact, present, same⟩
      rw [← same] at blob
      exact blob
    · exact (unfinalized artifact present same final).elim
    · exact fun _ inside => by cases inside

/-- A staged block enters its record. -/
theorem Sound.insertBlock {id size : Nat} {blockId : String} (sound : Sound service)
    (suspended : service.tasks[task]? = some (.stageRenamed id blockId size)) :
    Sound { service.updateRecord id (insertBlock blockId ⟨blockPath blockId, size⟩) with
        tasks := service.tasks.set task (.done (.ok .stored)) } ∧
      Keeps service
        { service.updateRecord id (insertBlock blockId ⟨blockPath blockId, size⟩) with
          tasks := service.tasks.set task (.done (.ok .stored)) } := by
  have sized : service.Sized id (blockPath blockId) size :=
    (sound.frames _ (List.mem_of_getElem? suspended)).2
  refine sound.updateRecord suspended (fun _ => rfl) rfl (fun _ => rfl) (fun _ _ => rfl) ?_ ?_
    trivial ?_
  · intro other otherBlock otherSize apart same
    exact apart (Frame.stageRenamed.inj same).1.symm
  · exact fun _ _ _ => ⟨fun committed => committed, fun final => ⟨final, rfl, rfl⟩⟩
  · intro artifact present same
    have ok := sound.records artifact present
    refine ⟨ok.numbered, fun committed none => ?_, fun final => ?_, fun entry inside => ?_⟩
    · exact ok.settled committed ((unrenamed_set suspended rfl rfl).mp none)
    · obtain ⟨committed, none, digest⟩ := ok.final final
      exact ⟨committed, (unrenamed_set suspended rfl rfl).mpr none, digest⟩
    · rcases List.mem_append.mp inside with old | new
      · obtain ⟨stays, differs⟩ := List.mem_filter.mp old
        obtain ⟨path, oldSized⟩ := ok.staged entry stays
        refine ⟨path, fun none => oldSized (unstaged_set suspended ?_ none)⟩
        intro otherSize isSame
        have otherId := (Frame.stageRenamed.inj isSame).2.1
        simp [otherId] at differs
      · rw [List.mem_singleton.mp new]
        refine ⟨rfl, fun _ => ?_⟩
        rw [← same] at sized
        exact sized

/-- The artifact is marked with the digest of the blob that was hashed. -/
theorem Sound.markFinalized {id : Nat} {expectedHash : Option String} {content : Bytes}
    (sound : Sound service) (suspended : service.tasks[task]? =
      some (.hashed id expectedHash content))
    (unrenamed : ∀ other ∈ service.tasks, other.renamed id = false) :
    Sound { service.updateRecord id (markFinalized content) with
        tasks := service.tasks.set task (.done (.ok (.finalized id))) } ∧
      Keeps service { service.updateRecord id (markFinalized content) with
        tasks := service.tasks.set task (.done (.ok (.finalized id))) } := by
  obtain ⟨known, open_⟩ : id < service.nextId ∧ ∀ artifact ∈ service.records, artifact.id = id →
      artifact.blobCommitted = true ∧ service.disk (.blob id) = some content :=
    sound.frames _ (List.mem_of_getElem? suspended)
  refine sound.updateRecord suspended (fun _ => rfl) rfl (fun _ => rfl) (fun _ _ => rfl) ?_ ?_ ?_ ?_
  · exact fun _ _ _ _ same => by cases same
  · intro artifact present same
    refine ⟨fun committed => committed, fun final => ⟨rfl, rfl, ?_⟩⟩
    -- A second finalize has hashed the same blob.
    obtain ⟨-, -, stored, there, digest⟩ := (sound.records artifact present).final final
    rw [same, (open_ artifact present same).2] at there
    rw [digest, Option.some.inj there]
    rfl
  · refine ⟨known, fun artifact member same => ?_⟩
    obtain ⟨old, present, rfl⟩ := mem_update.mp member
    by_cases mine : old.id = id
    · rw [if_pos (decide_eq_true mine)]
      rfl
    · rw [if_neg (by simpa using mine)] at same
      exact absurd same mine
  · intro artifact present same
    have ok := sound.records artifact present
    have none : ∀ other ∈ service.tasks.set task (.done (.ok (.finalized id))),
        other.renamed id = false := (unrenamed_set suspended rfl rfl).mpr unrenamed
    obtain ⟨committed, there⟩ := open_ artifact present same
    refine ⟨ok.numbered, fun _ _ => ?_, fun _ => ?_, fun entry inside => ?_⟩
    · exact ok.settled committed (same ▸ unrenamed)
    · refine ⟨committed, same ▸ none, content, ?_, rfl⟩
      rw [← same] at there
      exact there
    · obtain ⟨path, sized⟩ := ok.staged entry inside
      exact ⟨path, fun unstaged => sized (unstaged_set suspended (fun _ isSame => by cases isSame)
        unstaged)⟩

/-- A record under a new id. -/
theorem Sound.create {artifact : ArtifactRecord} {request : Request} (sound : Sound service)
    (suspended : service.tasks[task]? = some (.requested request))
    (isNew : artifact.id = service.nextId) (uncommitted : artifact.blobCommitted = false)
    (unfinalized : artifact.finalized = false) (unstaged : artifact.blocks = [])
    (answer : Except ArtifactHttpError Answer) (plain : ∀ id, answer ≠ .ok (.finalized id)) :
    Sound { service with
        nextId := service.nextId + 1
        records := service.records ++ [artifact]
        tasks := service.tasks.set task (.done answer) } ∧
      Keeps service { service with
        nextId := service.nextId + 1
        records := service.records ++ [artifact]
        tasks := service.tasks.set task (.done answer) } := by
  have keeps : Keeps service { service with
      nextId := service.nextId + 1
      records := service.records ++ [artifact]
      tasks := service.tasks.set task (.done answer) } := by
    refine ⟨Nat.le_succ _, fun new member known => ?_⟩
    rcases List.mem_append.mp member with old | isLast
    · exact ⟨new, old, rfl, fun committed => committed, fun final => ⟨final, rfl, rfl, rfl⟩⟩
    · rw [List.mem_singleton.mp isLast, isNew] at known
      exact absurd known (Nat.lt_irrefl _)
  have distinct : ((service.records ++ [artifact]).map (·.id)).Nodup := by
    refine nodup_key_append sound.distinct fun old member same => ?_
    have known := (sound.records old member).numbered
    rw [same, isNew] at known
    exact Nat.lt_irrefl _ known
  refine ⟨sound.resume suspended rfl keeps distinct (fun holds => by cases holds) ?_ ?_ ?_ ?_,
    keeps⟩
  · cases answer with
    | error => trivial
    | ok answer =>
        cases answer with
        | finalized id => exact absurd rfl (plain id)
        | created | stored | deleted => trivial
  · exact fun _ _ _ _ _ => rfl
  · exact fun _ _ _ _ _ _ there => there
  · intro other member
    rcases List.mem_append.mp member with old | isLast
    · refine (sound.records other old).mono (Nat.le_succ _) (unrenamed_set suspended rfl rfl) ?_ rfl
        fun _ _ there => there
      exact fun blockId => unstaged_set suspended fun _ same => by cases same
    · rw [List.mem_singleton.mp isLast]
      refine ⟨?_, fun committed => ?_, fun final => ?_, fun entry inside => ?_⟩
      · rw [isNew]
        exact Nat.lt_succ_self _
      · rw [uncommitted] at committed
        cases committed
      · rw [unfinalized] at final
        cases final
      · rw [unstaged] at inside
        cases inside

/-- An id is used up without a record. -/
theorem Sound.skipId {request : Request} (sound : Sound service)
    (suspended : service.tasks[task]? = some (.requested request)) (error : ArtifactHttpError) :
    Sound { service with
        nextId := service.nextId + 1
        tasks := service.tasks.set task (.done (.error error)) } ∧
      Keeps service { service with
        nextId := service.nextId + 1
        tasks := service.tasks.set task (.done (.error error)) } := by
  have keeps : Keeps service { service with
      nextId := service.nextId + 1
      tasks := service.tasks.set task (.done (.error error)) } :=
    ⟨Nat.le_succ _, fun new member _ =>
      ⟨new, member, rfl, fun committed => committed, fun final => ⟨final, rfl, rfl, rfl⟩⟩⟩
  refine ⟨sound.resume suspended rfl keeps sound.distinct (fun holds => by cases holds) trivial
    ?_ ?_ ?_, keeps⟩
  · exact fun _ _ _ _ _ => rfl
  · exact fun _ _ _ _ _ _ there => there
  · intro artifact member
    refine (sound.records artifact member).mono (Nat.le_succ _) (unrenamed_set suspended rfl rfl) ?_
      rfl fun _ _ there => there
    exact fun blockId => unstaged_set suspended fun _ same => by cases same

theorem Sound.delete {id : Nat} {request : Request} (sound : Sound service)
    (suspended : service.tasks[task]? = some (.requested request)) (known : id < service.nextId) :
    Sound { service with
        records := Table.delete service.records (·.id = id)
        tasks := service.tasks.set task (.deleting id) } ∧
      Keeps service { service with
        records := Table.delete service.records (·.id = id)
        tasks := service.tasks.set task (.deleting id) } := by
  have keeps : Keeps service { service with
      records := Table.delete service.records (·.id = id)
      tasks := service.tasks.set task (.deleting id) } :=
    ⟨Nat.le_refl _, fun new member _ => ⟨new, (mem_delete.mp member).1, rfl,
      fun committed => committed, fun final => ⟨final, rfl, rfl, rfl⟩⟩⟩
  refine ⟨sound.resume suspended rfl keeps (nodup_key_delete sound.distinct)
    (fun holds => by cases holds) ?_ ?_ ?_ ?_, keeps⟩
  · refine ⟨known, fun artifact member same => ?_⟩
    have spared := (mem_delete.mp member).2
    simp [same] at spared
  · exact fun _ _ _ _ _ => rfl
  · exact fun _ _ _ _ _ _ there => there
  · intro artifact member
    refine (sound.records artifact (mem_delete.mp member).1).mono (Nat.le_refl _)
      (unrenamed_set suspended rfl rfl) ?_ rfl fun _ _ there => there
    exact fun blockId => unstaged_set suspended fun _ same => by cases same

/-- A file goes that no present artifact has as its blob. -/
theorem Sound.unlink {path : Path} (sound : Sound service)
    (spared : ∀ id, path = .blob id → ¬ service.Present id) :
    Sound (service.unlink path) ∧ Keeps service (service.unlink path) := by
  have blobs : ∀ id, service.Present id →
      (service.unlink path).disk (.blob id) = service.disk (.blob id) := by
    intro id present
    refine service.unlink_disk_of_ne ?_
    rintro rfl
    exact spared id rfl present
  have keeps : Keeps service (service.unlink path) :=
    ⟨Nat.le_refl _, fun new member _ => ⟨new, member, rfl, fun committed => committed,
      fun final => ⟨final, rfl, rfl, blobs _ ⟨new, member, rfl⟩⟩⟩⟩
  refine ⟨⟨fun frame member => ?_, fun artifact member => ?_, sound.distinct, sound.oneLock⟩, keeps⟩
  · refine (sound.frames frame member).mono keeps (fun id _ present => blobs id present) ?_
    exact fun _ _ _ _ there => Service.disk_of_unlink there
  · exact (sound.records artifact member).mono (Nat.le_refl _) Iff.rfl (fun _ none => none)
      (blobs _ ⟨artifact, member, rfl⟩) fun _ _ there => Service.disk_of_unlink there

omit [Sha256] in
/-- A request that arrives holds no lock. -/
theorem oneLock_arrive (oneLock : ∀ (first second : Nat) (one two : Frame),
      service.tasks[first]? = some one → service.tasks[second]? = some two →
      one.holdsLock = true → two.holdsLock = true → first = second) (request : Request) :
    ∀ (first second : Nat) (one two : Frame),
      (service.tasks ++ [.requested request])[first]? = some one →
      (service.tasks ++ [.requested request])[second]? = some two → one.holdsLock = true →
      two.holdsLock = true → first = second := by
  have old : ∀ (index : Nat) (frame : Frame),
      (service.tasks ++ [Frame.requested request])[index]? = some frame →
      frame.holdsLock = true → service.tasks[index]? = some frame := by
    intro index frame found holds
    by_cases inside : index < service.tasks.length
    · rwa [List.getElem?_append_left inside] at found
    · rw [List.getElem?_append_right (Nat.le_of_not_lt inside)] at found
      rw [List.mem_singleton.mp (List.mem_of_getElem? found)] at holds
      cases holds
  intro first second one two isOne isTwo oneHolds twoHolds
  exact oneLock first second one two (old first one isOne oneHolds)
    (old second two isTwo twoHolds) oneHolds twoHolds

theorem Sound.arrive (sound : Sound service) (request : Request) :
    Sound { service with tasks := service.tasks ++ [.requested request] } ∧
      Keeps service { service with tasks := service.tasks ++ [.requested request] } := by
  have keeps : Keeps service { service with tasks := service.tasks ++ [.requested request] } :=
    ⟨Nat.le_refl _, fun new member _ =>
      ⟨new, member, rfl, fun committed => committed, fun final => ⟨final, rfl, rfl, rfl⟩⟩⟩
  refine ⟨⟨fun frame member => ?_, fun artifact member => ?_, sound.distinct, ?_⟩, keeps⟩
  · rcases List.mem_append.mp member with old | new
    · exact (sound.frames frame old).mono keeps (fun _ _ _ => rfl) fun _ _ _ _ there => there
    · rw [List.mem_singleton.mp new]
      trivial
  · refine (sound.records artifact member).mono (Nat.le_refl _) ?_ ?_ rfl fun _ _ there => there
    · simp [Frame.renamed, or_imp, forall_and]
    · exact fun _ none size there => none size (List.mem_append_left _ there)
  · exact oneLock_arrive sound.oneLock request

end Resume

/-! ### Every step -/

section Steps

variable {settings : Settings} {service : Service} {task : Nat} {frame : Frame}

omit [Sha256] in
theorem Keeps.refl (service : Service) : Keeps service service :=
  ⟨Nat.le_refl _, fun new member _ =>
    ⟨new, member, rfl, fun committed => committed, fun final => ⟨final, rfl, rfl, rfl⟩⟩⟩

theorem Sound.known {id : Nat} {artifact : ArtifactRecord} (sound : Sound service)
    (found : service.record? id = some artifact) : id < service.nextId := by
  obtain ⟨member, rfl⟩ := record?_eq_some found
  exact (sound.records artifact member).numbered

/-- A task that has not just renamed a file goes on with nothing changed. -/
theorem Sound.goesOn {next : Frame} (sound : Sound service)
    (suspended : service.tasks[task]? = some frame)
    (lock : next.holdsLock = true → frame.holdsLock = true ∨ service.locked = false)
    (ok : FrameOk service next) (unrenamed : ∀ id, next.renamed id = false)
    (was : ∀ id, frame.renamed id = false)
    (unstaged : ∀ id blockId size, frame ≠ .stageRenamed id blockId size) :
    Sound { service with tasks := service.tasks.set task next } ∧
      Keeps service { service with tasks := service.tasks.set task next } :=
  sound.still suspended lock ok unrenamed (fun _ _ => was _) fun _ _ => unstaged _

theorem Sound.fails (sound : Sound service) (suspended : service.tasks[task]? = some frame)
    (error : ArtifactHttpError) (was : ∀ id, frame.renamed id = false)
    (unstaged : ∀ id blockId size, frame ≠ .stageRenamed id blockId size) :
    Sound { service with tasks := service.tasks.set task (.done (.error error)) } ∧
      Keeps service { service with tasks := service.tasks.set task (.done (.error error)) } :=
  sound.goesOn suspended (fun holds => by cases holds) trivial (fun _ => rfl) was unstaged

/-- The blocks of a record have their sizes while the lock is free. -/
theorem Sound.unlocked_sized {artifact : ArtifactRecord} (sound : Sound service)
    (free : service.locked = false) (member : artifact ∈ service.records) {blockId : String}
    {block : Block} (inside : (blockId, block) ∈ artifact.blocks) :
    service.Sized artifact.id block.path block.size := by
  refine ((sound.records artifact member).staged _ inside).2 fun size staged => ?_
  exact List.any_eq_false.mp free _ staged rfl

theorem Sound.eq_of_id (sound : Sound service) {first second : ArtifactRecord}
    (one : first ∈ service.records) (two : second ∈ service.records)
    (same : first.id = second.id) : first = second :=
  List.inj_on_of_nodup_map sound.distinct one two same

theorem Sound.begin {request : Request} (sound : Sound service)
    (suspended : service.tasks[task]? = some (.requested request))
    (free : service.locked = false) (failure : Option String) :
    Sound { (begin settings service failure request).1 with
        tasks := service.tasks.set task (begin settings service failure request).2 } ∧
      Keeps service { (begin settings service failure request).1 with
        tasks := service.tasks.set task (begin settings service failure request).2 } := by
  have unstaged : ∀ id blockId size,
      Frame.requested request ≠ .stageRenamed id blockId size := fun _ _ _ same => by cases same
  have fails := fun error => sound.fails suspended error (fun _ => rfl) unstaged
  cases request with
  | createArtifact runId jobId name mimeType version =>
      dsimp only [Artifacts.begin]
      unfold createArtifact
      split
      · exact fails _
      · split
        · exact fails _
        · split
          · exact fails _
          · split
            · exact fails _
            · dsimp only
              split
              · exact sound.skipId suspended _
              · exact sound.create suspended rfl rfl rfl rfl _ fun _ same => by cases same
  | stageBlock id blockId contentLength body =>
      dsimp only [Artifacts.begin]
      rcases stageBlock_cases id blockId contentLength body with ⟨error, same⟩ | ⟨_, found, same⟩
      · rw [same]
        exact fails error
      · rw [same]
        exact sound.goesOn suspended (fun holds => by cases holds) (sound.known found)
          (fun _ => rfl) (fun _ => rfl) unstaged
  | commitBlockList id order =>
      dsimp only [Artifacts.begin]
      rcases commitBlockList_cases id order with ⟨error, same⟩ |
        ⟨artifact, blocks, found, listed, same⟩
      · rw [same]
        exact fails error
      · rw [same]
        obtain ⟨member, rfl⟩ := record?_eq_some found
        refine sound.goesOn suspended (fun holds => by cases holds) ?_ (fun _ => rfl)
          (fun _ => rfl) unstaged
        refine ⟨(sound.records artifact member).numbered, by simp, fun block inside => ?_⟩
        obtain ⟨blockId, stored⟩ := listed block inside
        exact sound.unlocked_sized free member stored
  | uploadSingleBlob id contentLength body =>
      dsimp only [Artifacts.begin]
      rcases uploadSingleBlob_cases id contentLength body with ⟨error, same⟩ | ⟨_, found, same⟩
      · rw [same]
        exact fails error
      · rw [same]
        exact sound.goesOn suspended (fun holds => by cases holds) (sound.known found)
          (fun _ => rfl) (fun _ => rfl) unstaged
  | finalizeArtifact runId jobId name size hash =>
      dsimp only [Artifacts.begin]
      rcases finalizeArtifact_cases runId jobId name size hash with
        ⟨error, same⟩ | ⟨artifact, member, ⟨final, same⟩ | ⟨committed, same⟩⟩
      · rw [same]
        exact fails error
      · rw [same]
        refine sound.goesOn suspended (fun holds => by cases holds) ?_ (fun _ => rfl)
          (fun _ => rfl) unstaged
        refine ⟨(sound.records artifact member).numbered, fun other there isId => ?_⟩
        rw [sound.eq_of_id there member isId]
        exact final
      · rw [same]
        refine sound.goesOn suspended (fun holds => by cases holds) ?_ (fun _ => rfl)
          (fun _ => rfl) unstaged
        refine ⟨(sound.records artifact member).numbered, fun other there isId => ?_⟩
        rw [sound.eq_of_id there member isId]
        exact committed
  | deleteArtifact runId jobId name =>
      dsimp only [Artifacts.begin]
      unfold deleteArtifact
      split
      · exact fails _
      · split
        · exact fails _
        · rename_i id found
          refine sound.delete suspended ?_
          obtain ⟨artifact, among, rfl⟩ := List.mem_map.mp (List.max?_mem found)
          exact (sound.records artifact (List.mem_filter.mp among).1).numbered

theorem Sound.advance (sound : Sound service) (suspended : service.tasks[task]? = some frame)
    (free : frame.takesLock = true → service.locked = false) (failure : Option String)
    (undisturbed : Undisturbed service (.proceed task failure)) :
    Sound { (advance settings service failure frame).1 with
        tasks := service.tasks.set task (advance settings service failure frame).2 } ∧
      Keeps service { (advance settings service failure frame).1 with
        tasks := service.tasks.set task (advance settings service failure frame).2 } := by
  have ok := sound.frames frame (List.mem_of_getElem? suspended)
  cases frame with
  | requested request => exact sound.begin suspended (free rfl) failure
  | stageWriting id blockId body =>
      have unstaged : ∀ other otherBlock size, Frame.stageWriting id blockId body ≠
          .stageRenamed other otherBlock size := fun _ _ _ same => by cases same
      dsimp only [Artifacts.advance]
      split
      · exact sound.fails suspended _ (fun _ => rfl) unstaged
      · exact sound.goesOn suspended (fun holds => by cases holds) ok (fun _ => rfl)
          (fun _ => rfl) unstaged
  | stageWritten id blockId content =>
      have unstaged : ∀ other otherBlock size, Frame.stageWritten id blockId content ≠
          .stageRenamed other otherBlock size := fun _ _ _ same => by cases same
      dsimp only [Artifacts.advance]
      unfold stageWithinLimits
      split
      · exact sound.fails suspended _ (fun _ => rfl) unstaged
      · dsimp only
        split
        · exact sound.fails suspended _ (fun _ => rfl) unstaged
        · exact sound.goesOn suspended (fun _ => .inr (free rfl)) ok (fun _ => rfl)
            (fun _ => rfl) unstaged
  | stageRenaming id blockId content =>
      cases failure with
      | some text =>
          exact sound.fails suspended _ (fun _ => rfl) fun _ _ _ same => by cases same
      | none =>
          have spares := undisturbed _ suspended
          exact sound.renameBlock suspended spares.1 spares.2
  | stageRenamed id blockId size =>
      dsimp only [Artifacts.advance]
      split
      · rename_i missing
        refine sound.still suspended (fun holds => by cases holds) trivial (fun _ => rfl)
          (fun _ _ => rfl) fun artifact member otherBlock otherSize same => ?_
        exact absent_of_record? missing artifact member (Frame.stageRenamed.inj same).1.symm
      · exact sound.insertBlock suspended
  | commitCopying id remaining output size =>
      have unstaged : ∀ other otherBlock otherSize, Frame.commitCopying id remaining output size ≠
          .stageRenamed other otherBlock otherSize := fun _ _ _ same => by cases same
      cases remaining with
      | nil =>
          cases failure with
          | some text => exact sound.fails suspended _ (fun _ => rfl) unstaged
          | none =>
              have spares := undisturbed _ suspended
              exact sound.renameBlob suspended spares.1 spares.2 ok.1
                (by simpa using ok.2.1) (fun holds => by cases holds) (fun _ => rfl) unstaged
                (.inl rfl)
      | cons block remaining =>
          dsimp only [Artifacts.advance]
          split
          · exact sound.fails suspended _ (fun _ => rfl) unstaged
          · exact sound.fails suspended _ (fun _ => rfl) unstaged
          · rename_i content there
            refine sound.goesOn suspended (fun holds => by cases holds) ?_ (fun _ => rfl)
              (fun _ => rfl) unstaged
            obtain ⟨known, total, sized⟩ := ok
            refine ⟨known, ?_, fun other inside => sized other (List.mem_cons_of_mem _ inside)⟩
            rw [← total, List.map_cons, List.sum_cons, List.length_append,
              sized block List.mem_cons_self content there, Nat.add_assoc]
  | commitRenamed id size =>
      dsimp only [Artifacts.advance]
      split
      · rename_i missing
        refine sound.still suspended (fun holds => by cases holds) trivial (fun _ => rfl) ?_
          fun _ _ _ _ same => by cases same
        intro artifact member
        simp [Frame.renamed, (absent_of_record? missing artifact member).symm]
      · exact sound.recordBlob suspended (.inl rfl) rfl (fun _ => rfl) ok.1
  | commitRemoving id =>
      exact sound.goesOn suspended (fun holds => by cases holds) trivial (fun _ => rfl)
        (fun _ => rfl) fun _ _ _ same => by cases same
  | uploadWriting id body oldSize =>
      have unstaged : ∀ other otherBlock size, Frame.uploadWriting id body oldSize ≠
          .stageRenamed other otherBlock size := fun _ _ _ same => by cases same
      dsimp only [Artifacts.advance]
      split
      · exact sound.fails suspended _ (fun _ => rfl) unstaged
      · exact sound.goesOn suspended (fun holds => by cases holds) ok (fun _ => rfl)
          (fun _ => rfl) unstaged
  | uploadWritten id content oldSize =>
      have unstaged : ∀ other otherBlock size, Frame.uploadWritten id content oldSize ≠
          .stageRenamed other otherBlock size := fun _ _ _ same => by cases same
      dsimp only [Artifacts.advance]
      unfold uploadWithinLimits
      split
      · exact sound.fails suspended _ (fun _ => rfl) unstaged
      · exact sound.goesOn suspended (fun _ => .inr (free rfl)) ok (fun _ => rfl)
          (fun _ => rfl) unstaged
  | uploadRenaming id content =>
      have unstaged : ∀ other otherBlock size, Frame.uploadRenaming id content ≠
          .stageRenamed other otherBlock size := fun _ _ _ same => by cases same
      cases failure with
      | some text => exact sound.fails suspended _ (fun _ => rfl) unstaged
      | none =>
          have spares := undisturbed _ suspended
          exact sound.renameBlob suspended spares.1 spares.2 ok rfl (fun _ => .inl rfl)
            (fun _ => rfl) unstaged (.inr rfl)
  | uploadRenamed id size =>
      dsimp only [Artifacts.advance]
      split
      · rename_i missing
        refine sound.still suspended (fun holds => by cases holds) trivial (fun _ => rfl) ?_
          fun _ _ _ _ same => by cases same
        intro artifact member
        simp [Frame.renamed, (absent_of_record? missing artifact member).symm]
      · exact sound.recordBlob suspended (.inr rfl) rfl (fun _ => rfl) trivial
  | hashing id expectedHash =>
      have unstaged : ∀ other otherBlock size, Frame.hashing id expectedHash ≠
          .stageRenamed other otherBlock size := fun _ _ _ same => by cases same
      dsimp only [Artifacts.advance]
      split
      · exact sound.fails suspended _ (fun _ => rfl) unstaged
      · exact sound.fails suspended _ (fun _ => rfl) unstaged
      · rename_i content there
        refine sound.goesOn suspended (fun holds => by cases holds) ?_ (fun _ => rfl)
          (fun _ => rfl) unstaged
        exact ⟨ok.1, fun artifact member same => ⟨ok.2 artifact member same, there⟩⟩
  | hashed id expectedHash content =>
      have unstaged : ∀ other otherBlock size, Frame.hashed id expectedHash content ≠
          .stageRenamed other otherBlock size := fun _ _ _ same => by cases same
      cases failure with
      | some text => exact sound.fails suspended _ (fun _ => rfl) unstaged
      | none =>
          have spares : service.locked = true ∨ ∀ other ∈ service.tasks,
              other.renamed id = false := undisturbed _ suspended
          rw [free rfl] at spares
          have unrenamed := spares.resolve_left Bool.false_ne_true
          dsimp only [Artifacts.advance]
          split
          · exact sound.fails suspended _ (fun _ => rfl) unstaged
          · split
            · exact sound.fails suspended _ (fun _ => rfl) unstaged
            · exact sound.markFinalized suspended unrenamed
  | deleting id =>
      have unstaged : ∀ other otherBlock size, Frame.deleting id ≠
          .stageRenamed other otherBlock size := fun _ _ _ same => by cases same
      dsimp only [Artifacts.advance]
      split
      · exact sound.fails suspended _ (fun _ => rfl) unstaged
      · exact sound.goesOn suspended (fun holds => by cases holds) trivial (fun _ => rfl)
          (fun _ => rfl) unstaged
  | done answer =>
      exact sound.goesOn suspended (fun holds => by cases holds) ok (fun _ => rfl)
        (fun _ => rfl) fun _ _ _ same => by cases same

theorem Sound.step {event : Event} (sound : Sound service)
    (undisturbed : Undisturbed service event) :
    Sound (step settings service event) ∧ Keeps service (step settings service event) := by
  cases event with
  | request request => exact sound.arrive request
  | proceed task failure =>
      dsimp only [Artifacts.step]
      split
      · exact ⟨sound, .refl service⟩
      · rename_i frame suspended
        split
        · exact ⟨sound, .refl service⟩
        · rename_i free
          refine sound.advance suspended (fun takes => ?_) failure undisturbed
          simpa [takes] using free
  | remove task path =>
      dsimp only [Artifacts.step]
      split
      · exact ⟨sound, .refl service⟩
      · rename_i frame suspended
        split
        · rename_i removes
          refine sound.unlink fun id isBlob present => ?_
          subst isBlob
          -- Only a deletion removes a blob, and its artifact has no record any more.
          cases frame with
          | deleting owner =>
              obtain ⟨artifact, member, same⟩ := present
              have absent := (sound.frames _ (List.mem_of_getElem? suspended)).2 artifact member
              have isOwner : owner = id := by simpa [Frame.removes] using removes
              exact absent (same.trans isOwner.symm)
          | _ => cases removes
        · exact ⟨sound, .refl service⟩

theorem sound_initial : Sound initial := by
  refine ⟨?_, ?_, List.nodup_nil, ?_⟩
  · exact fun _ member => by cases member
  · exact fun _ member => by cases member
  · exact fun _ _ _ _ found => by cases found

omit [Sha256] in
theorem Keeps.trans {first second third : Service} (front : Keeps first second)
    (back : Keeps second third) : Keeps first third := by
  refine ⟨Nat.le_trans front.grown back.grown, fun new member known => ?_⟩
  obtain ⟨middle, between, sameMiddle, committedLater, finalLater⟩ :=
    back.old new member (Nat.lt_of_lt_of_le known front.grown)
  obtain ⟨old, present, same, committed, final⟩ :=
    front.old middle between (sameMiddle ▸ known)
  refine ⟨old, present, same.trans sameMiddle, fun was => committedLater (committed was), ?_⟩
  intro was
  obtain ⟨isFinal, size, digest, blob⟩ := final was
  obtain ⟨stillFinal, sizeLater, digestLater, blobLater⟩ := finalLater isFinal
  rw [sameMiddle] at blob
  exact ⟨stillFinal, sizeLater.trans size, digestLater.trans digest, blobLater.trans blob⟩

theorem Sound.run {events : List Event} (sound : Sound service)
    (undisturbed : Along (Artifacts.step settings) Undisturbed service events) :
    Sound (Machine.run (Artifacts.step settings) service events) ∧
      Keeps service (Machine.run (Artifacts.step settings) service events) := by
  induction events generalizing service with
  | nil => exact ⟨sound, .refl service⟩
  | cons event events inductionHypothesis =>
      obtain ⟨next, kept⟩ := sound.step undisturbed.1
      obtain ⟨last, keptLater⟩ := inductionHypothesis next undisturbed.2
      exact ⟨last, kept.trans keptLater⟩

end Steps

/-- In every run whose steps leave each other's files alone: an artifact with a successful
finalize is finalized; a finalized artifact has the size and the digest of its blob; and
until it is deleted, neither these nor the blob change. -/
theorem finalized_artifacts_kept (settings : Settings) (front back : List Event)
    (undisturbed : Along (step settings) Undisturbed initial (front ++ back)) :
    let early := run (step settings) initial front
    let late := run (step settings) initial (front ++ back)
    (∀ id, Frame.done (.ok (.finalized id)) ∈ late.tasks → ∀ artifact ∈ late.records,
      artifact.id = id → artifact.finalized = true) ∧
    (∀ artifact ∈ late.records, artifact.finalized = true →
      ∃ content, late.disk (.blob artifact.id) = some content ∧
        artifact.size = content.length ∧ artifact.digest = some (blobDigest content)) ∧
    ∀ old ∈ early.records, old.finalized = true → ∀ new ∈ late.records, new.id = old.id →
      new.finalized = true ∧ new.size = old.size ∧ new.digest = old.digest ∧
        late.disk (.blob old.id) = early.disk (.blob old.id) := by
  intro early late
  obtain ⟨first, second⟩ := Along.append.mp undisturbed
  have soundEarly : Sound early := (sound_initial.run first).1
  obtain ⟨soundLate, keeps⟩ : Sound late ∧ Keeps early late := by
    have ran := soundEarly.run second
    rw [← run_append] at ran
    exact ran
  refine ⟨fun id done => (soundLate.frames _ done).2, ?_, ?_⟩
  · intro artifact member final
    have ok := soundLate.records artifact member
    obtain ⟨committed, none, content, there, digest⟩ := ok.final final
    obtain ⟨stored, isStored, length⟩ := ok.settled committed none
    rw [there] at isStored
    cases isStored
    exact ⟨content, there, length.symm, digest⟩
  · intro old present final new member same
    have known := (soundEarly.records old present).numbered
    rw [← same] at known
    obtain ⟨origin, there, isOrigin, -, kept⟩ := keeps.old new member known
    rw [soundEarly.eq_of_id there present (isOrigin.trans same)] at kept
    rw [← same]
    exact kept final

end Invariant

/-! ### A late upload -/

namespace Sample

/-- A digest that is easy to evaluate. -/
scoped instance plainDigest : Sha256 := ⟨fun value => value⟩

def settings : Settings :=
  { workflowRunBackendId := "run"
    workflowJobRunBackendId := "job"
    limits := { maximumBytes := 1000, maximumEntryBytes := 100 } }

/-- An artifact whose blob has been uploaded. -/
def uploaded : List Event :=
  [.request (.createArtifact "run" "job" "report" none 7), .proceed 0 none,
    .request (.uploadSingleBlob 1 none [1]), .proceed 1 none, .proceed 1 none, .proceed 1 none,
    .proceed 1 none, .proceed 1 none]

/-- A finalize from its arrival to its answer, as the task `task`. -/
def finalize (task : Nat) : List Event :=
  [.request (.finalizeArtifact "run" "job" "report" 1 none), .proceed task none,
    .proceed task none, .proceed task none]

/-- A finalize of the artifact, while the blob of another is uploaded. -/
def overlapping : List Event :=
  uploaded ++ [.request (.createArtifact "run" "job" "log" none 7), .proceed 2 none,
    .request (.uploadSingleBlob 2 none [7, 7]),
    .request (.finalizeArtifact "run" "job" "report" 1 none), .proceed 3 none, .proceed 4 none,
    .proceed 3 none, .proceed 4 none, .proceed 3 none, .proceed 4 none, .proceed 3 none,
    .proceed 3 none, .proceed 4 none]

/-- A block for the finalized artifact comes too late, and the other one is finalized. -/
def afterwards : List Event :=
  [.request (.stageBlock 1 "a" none [2]),
    .request (.finalizeArtifact "run" "job" "log" 2 none), .proceed 6 none, .proceed 5 none,
    .proceed 6 none, .proceed 6 none]

theorem overlapping_finalizes_kept :
    let early := run (step settings) initial overlapping
    let late := run (step settings) initial (overlapping ++ afterwards)
    early.records.map (·.finalized) = [true, false] ∧
      late.records.map (·.finalized) = [true, true] ∧
      (∀ artifact ∈ late.records, artifact.finalized = true →
        ∃ content, late.disk (.blob artifact.id) = some content ∧
          artifact.size = content.length ∧ artifact.digest = some (blobDigest content)) ∧
      ∀ old ∈ early.records, old.finalized = true → ∀ new ∈ late.records, new.id = old.id →
        new.finalized = true ∧ new.size = old.size ∧ new.digest = old.digest ∧
          late.disk (.blob old.id) = early.disk (.blob old.id) :=
  ⟨by decide, by decide,
    (finalized_artifacts_kept settings overlapping afterwards (by decide)).2⟩

/-- Another upload has looked at the record before the artifact is finalized. -/
def lateUpload : List Event :=
  uploaded ++ [.request (.uploadSingleBlob 1 none [2, 2]), .proceed 2 none] ++ finalize 3

/-- It replaces the blob of the finalized artifact; the digest stays that of the old one. -/
theorem late_upload_replaces_blob :
    let early := run (step settings) initial lateUpload
    let late := run (step settings) initial (lateUpload ++
      [.proceed 2 none, .proceed 2 none, .proceed 2 none, .proceed 2 none])
    early.records.map (fun artifact => (artifact.id, artifact.finalized)) = [(1, true)] ∧
      early.disk (.blob 1) = some [1] ∧
      late.records.map (fun artifact => (artifact.finalized, artifact.digest)) =
        [(true, some (blobDigest [1]))] ∧
      late.disk (.blob 1) = some [2, 2] ∧ blobDigest [2, 2] ≠ blobDigest [1] := by
  decide

end Sample

end GitZero.Agent.Artifacts
