/-
Module: GitZero.Proofs.ArtifactAccounting
Purpose: The limits of the artifact storage against the files on disk, over every
  interleaving of requests: what must hold where the code checks a logical size, or
  nothing at all, for the files to stay within both limits and the recorded blocks to
  stay on disk.
Trusted boundary: none
Main exports: Within, Accounted, Booked, Booked.step, storage_stays_within_limits,
  accounted_of_checked
-/
import GitZero.Lib.BoundedSums
import GitZero.Proofs.ArtifactImmutability

namespace GitZero.Agent.Artifacts

open Table Machine BoundedSums Finset

/-! ### Bytes on disk -/

def Path.owner : Path → Nat
  | .blob id | .block id _ => id

def bytesAt (disk : Path → Option Bytes) (path : Path) : Nat := (disk path).elim 0 List.length

/-- All files together are within the limit of the run, those of one artifact within that
of an artifact. -/
def Within (limits : ArtifactLimits) (disk : Path → Option Bytes) : Prop :=
  (∀ files : Finset Path, ∑ path ∈ files, bytesAt disk path ≤ limits.maximumBytes) ∧
    ∀ id, ∀ files : Finset Path, (∀ path ∈ files, path.owner = id) →
      ∑ path ∈ files, bytesAt disk path ≤ limits.maximumEntryBytes

/-- The file can be replaced by one of the size. -/
def Room (limits : ArtifactLimits) (disk : Path → Option Bytes) (target : Path) (size : Nat) :
    Prop :=
  (∀ files : Finset Path, target ∉ files →
    ∑ path ∈ files, bytesAt disk path + size ≤ limits.maximumBytes) ∧
    ∀ files : Finset Path, target ∉ files → (∀ path ∈ files, path.owner = target.owner) →
      ∑ path ∈ files, bytesAt disk path + size ≤ limits.maximumEntryBytes

/-- A file of the size is there. -/
def Holds (disk : Path → Option Bytes) (path : Path) (size : Nat) : Prop :=
  ∃ content, disk path = some content ∧ content.length = size

section Bytes

variable {limits : ArtifactLimits} {before after : Path → Option Bytes} {service : Service}
  {target : Path} {content : Bytes} {size : Nat}

theorem Holds.bytes (holds : Holds before target size) : bytesAt before target = size := by
  obtain ⟨content, there, length⟩ := holds
  rw [bytesAt, there]
  exact length

theorem Within.mono (within : Within limits before)
    (less : ∀ path, bytesAt after path ≤ bytesAt before path) : Within limits after := by
  refine ⟨fun files => ?_, fun id files owned => ?_⟩
  · exact (sum_le_sum fun path _ => less path).trans (within.1 files)
  · exact (sum_le_sum fun path _ => less path).trans (within.2 id files owned)

theorem Room.mono (room : Room limits before target size)
    (less : ∀ path, bytesAt after path ≤ bytesAt before path) :
    Room limits after target size := by
  refine ⟨fun files apart => ?_, fun files apart owned => ?_⟩
  · exact (Nat.add_le_add_right (sum_le_sum fun path _ => less path) size).trans
      (room.1 files apart)
  · exact (Nat.add_le_add_right (sum_le_sum fun path _ => less path) size).trans
      (room.2 files apart owned)

theorem bytesAt_write_self :
    bytesAt (service.write target content).disk target = content.length := by
  rw [bytesAt, service.write_disk_self]
  rfl

theorem bytesAt_write_of_ne {path : Path} (apart : path ≠ target) :
    bytesAt (service.write target content).disk path = bytesAt service.disk path := by
  rw [bytesAt, bytesAt, service.write_disk_of_ne content apart]

theorem bytesAt_unlink (path : Path) :
    bytesAt (service.unlink target).disk path ≤ bytesAt service.disk path := by
  by_cases same : path = target
  · have gone : (service.unlink target).disk target = none := Function.update_self ..
    rw [bytesAt, same, gone]
    exact Nat.zero_le _
  · rw [bytesAt, bytesAt, service.unlink_disk_of_ne same]

/-- The bytes of some files after one of them, or none, has been replaced. -/
theorem sum_write (files : Finset Path) :
    ∑ path ∈ files, bytesAt (service.write target content).disk path ≤
      if target ∈ files then
        ∑ path ∈ files.erase target, bytesAt service.disk path + content.length
      else ∑ path ∈ files, bytesAt service.disk path := by
  have others : ∀ part : Finset Path, target ∉ part →
      ∑ path ∈ part, bytesAt (service.write target content).disk path =
        ∑ path ∈ part, bytesAt service.disk path := by
    intro part absent
    refine sum_congr rfl fun path member => bytesAt_write_of_ne ?_
    rintro rfl
    exact absent member
  split
  · next member =>
      rw [← sum_erase_add files _ member, others _ (notMem_erase target files),
        bytesAt_write_self]
  · next absent => exact (others files absent).le

/-- Replacing a file for which there is room keeps the limits. -/
theorem Within.write (within : Within limits service.disk)
    (room : Room limits service.disk target content.length) :
    Within limits (service.write target content).disk := by
  refine ⟨fun files => (sum_write files).trans ?_, fun id files owned =>
    (sum_write files).trans ?_⟩
  · split
    · exact room.1 _ (notMem_erase target files)
    · exact within.1 files
  · split
    · next member =>
        have mine : target.owner = id := owned target member
        refine room.2 _ (notMem_erase target files) fun path inside => ?_
        rw [mine]
        exact owned path (mem_of_mem_erase inside)
    · exact within.2 id files owned

end Bytes

/-! ### What the logical sizes count -/

/-- `artifact_logical_size` counts the file, with its size. -/
def Service.Counts (service : Service) : Path → Bytes → Prop
  | .blob id, content =>
      ∃ artifact ∈ service.records, artifact.id = id ∧ artifact.blobCommitted = true ∧
        content.length = artifact.size
  | .block id name, content =>
      ∃ artifact ∈ service.records, artifact.id = id ∧ artifact.blobCommitted = false ∧
        ∃ entry ∈ artifact.blocks, entry.2.path = name ∧ content.length = entry.2.size

/-- No file on disk is left out. -/
def Service.CountsAll (service : Service) : Prop :=
  ∀ path content, service.disk path = some content → service.Counts path content

section Counting

variable {limits : ArtifactLimits} {service : Service}

theorem artifactLogicalSize_uncommitted {artifact : ArtifactRecord}
    (uncommitted : artifact.blobCommitted = false) :
    artifactLogicalSize artifact = cappedSum u64Max (fun entry => entry.2.size)
      artifact.blocks := by
  simp only [artifactLogicalSize, uncommitted, Bool.false_eq_true, if_false, cappedSum,
    saturatingAdd]

theorem totalLogicalSize_eq (records : List ArtifactRecord) :
    totalLogicalSize records = cappedSum u64Max artifactLogicalSize records := rfl

/-- The record that counts a file is the one of its artifact. -/
theorem Service.CountsAll.record (counts : service.CountsAll) {path : Path}
    (heavy : bytesAt service.disk path ≠ 0) :
    ∃ artifact ∈ service.records, artifact.id = path.owner := by
  cases there : service.disk path with
  | none => simp [bytesAt, there] at heavy
  | some content =>
      have counted := counts path content there
      cases path with
      | blob id =>
          obtain ⟨artifact, member, same, -⟩ := counted
          exact ⟨artifact, member, same⟩
      | block id name =>
          obtain ⟨artifact, member, same, -⟩ := counted
          exact ⟨artifact, member, same⟩

/-- The files of one artifact against its logical size. -/
theorem Service.CountsAll.entry (counts : service.CountsAll)
    (distinct : (service.records.map (·.id)).Nodup) {artifact : ArtifactRecord}
    (member : artifact ∈ service.records) {files : Finset Path}
    (owned : ∀ path ∈ files, path.owner = artifact.id)
    (bounded : ∑ path ∈ files, bytesAt service.disk path ≤ u64Max) :
    ∑ path ∈ files, bytesAt service.disk path ≤ artifactLogicalSize artifact := by
  have only : ∀ other ∈ service.records, other.id = artifact.id → other = artifact :=
    fun other present same => List.inj_on_of_nodup_map distinct present member same
  by_cases committed : artifact.blobCommitted = true
  · -- Of a committed artifact only the blob is counted.
    rw [artifactLogicalSize, if_pos committed]
    suffices single : ∑ path ∈ files, bytesAt service.disk path ≤
        ([artifact].map fun committed => committed.size).sum by simpa using single
    refine sum_le_of_named (fun _ => Path.blob artifact.id) ?_
    intro path inside heavy
    cases there : service.disk path with
    | none => simp [bytesAt, there] at heavy
    | some content =>
        have mine := owned path inside
        have counted := counts path content there
        cases path with
        | blob id =>
            obtain ⟨other, present, same, -, length⟩ := counted
            rw [only other present (same.trans mine)] at length
            refine ⟨artifact, List.mem_singleton_self _, congrArg Path.blob mine.symm, ?_⟩
            rw [bytesAt, there]
            exact length.le
        | block id name =>
            obtain ⟨other, present, same, uncommitted, -⟩ := counted
            rw [only other present (same.trans mine), committed] at uncommitted
            cases uncommitted
  · have uncommitted : artifact.blobCommitted = false := by simpa using committed
    rw [artifactLogicalSize_uncommitted uncommitted]
    refine le_cappedSum bounded (sum_le_of_named
      (fun entry : String × Block => Path.block artifact.id entry.2.path) ?_)
    intro path inside heavy
    cases there : service.disk path with
    | none => simp [bytesAt, there] at heavy
    | some content =>
        have mine := owned path inside
        have counted := counts path content there
        cases path with
        | blob id =>
            obtain ⟨other, present, same, isCommitted, -⟩ := counted
            rw [only other present (same.trans mine), uncommitted] at isCommitted
            cases isCommitted
        | block id name =>
            obtain ⟨other, present, same, -, entry, listed, isName, length⟩ := counted
            rw [only other present (same.trans mine)] at listed
            refine ⟨entry, listed, ?_, ?_⟩
            · rw [isName, show artifact.id = id from mine.symm]
            · rw [bytesAt, there]
              exact length.le

/-- All files against the logical size of all artifacts. -/
theorem Service.CountsAll.total (counts : service.CountsAll)
    (distinct : (service.records.map (·.id)).Nodup) {files : Finset Path}
    (bounded : ∑ path ∈ files, bytesAt service.disk path ≤ u64Max) :
    ∑ path ∈ files, bytesAt service.disk path ≤ totalLogicalSize service.records := by
  rw [totalLogicalSize_eq]
  refine le_cappedSum bounded (sum_le_of_covered
    (fun (artifact : ArtifactRecord) (path : Path) => path.owner = artifact.id) ?_ ?_)
  · intro path _ heavy
    obtain ⟨artifact, member, same⟩ := counts.record heavy
    exact ⟨artifact, member, same.symm⟩
  · intro artifact member part within owned
    exact counts.entry distinct member owned ((sum_le_sum_of_subset within).trans bounded)

end Counting

/-! ### Where the code relies on more than it checks -/

namespace Frame

/-- A check has passed, and the rename it was made for is next. -/
def renames : Frame → Bool
  | .stageRenaming .. | .uploadRenaming .. => true
  | _ => false

theorem holdsLock_of_renames {frame : Frame} (renames : frame.renames = true) :
    frame.holdsLock = true := by
  cases frame <;> first | rfl | cases renames

end Frame

section Condition

variable [Sha256] (settings : Settings)

/-- A check of `stage_block` that lets the block pass leaves no file out of the logical
sizes, no commit is removing the blocks of the artifact, and a recorded block whose file
will be replaced has the size of the new one.  A check of `upload_single_blob` that lets
the blob pass leaves no file out either, no block of the artifact is on disk, and the size
that it takes off is at most that of the blob to be replaced.  `commit_block_list`, which
checks nothing but the size of the new blob, renames it while no other request has passed
a check and not renamed its file, and there is room for it beside the blocks. -/
def Frame.Accounted (service : Service) : Frame → Prop
  | .stageWritten id blockId content =>
      service.locked = false →
      stageWithinLimits settings service id blockId content = .stageRenaming id blockId content →
      service.CountsAll ∧ Frame.commitRemoving id ∉ service.tasks ∧
        ∀ artifact ∈ service.records, artifact.id = id → ∀ entry ∈ artifact.blocks,
          entry.2.path = blockPath blockId → entry.2.size = content.length
  | .uploadWritten id content oldSize =>
      service.locked = false →
      uploadWithinLimits settings service id content oldSize = .uploadRenaming id content →
      service.CountsAll ∧ (∀ name, service.disk (.block id name) = none) ∧
        oldSize ≤ bytesAt service.disk (.blob id)
  | .commitCopying id [] output _ =>
      (∀ frame ∈ service.tasks, frame.renames = false) ∧
        Room settings.limits service.disk (.blob id) output.length
  | _ => True

/-- A rename that fails changes nothing; a check needs no file operation. -/
def Accounted (service : Service) : Event → Prop
  | .proceed task failure => ∀ frame ∈ service.tasks[task]?,
      frame.takesLock = true ∨ failure = none → frame.Accounted settings service
  | .request _ | .remove _ _ => True

end Condition

/-! ### The invariant -/

section Invariant

variable [Sha256] {settings : Settings}

/-- What holds while the task is suspended. -/
def Frame.Sure (settings : Settings) (service : Service) : Frame → Prop
  | .stageRenaming id blockId content =>
      Room settings.limits service.disk (.block id (blockPath blockId)) content.length ∧
        Frame.commitRemoving id ∉ service.tasks ∧
        ∀ artifact ∈ service.records, artifact.id = id → ∀ entry ∈ artifact.blocks,
          entry.2.path = blockPath blockId → entry.2.size = content.length
  | .stageRenamed id blockId size =>
      Frame.commitRemoving id ∉ service.tasks ∧
        (service.Present id → Holds service.disk (.block id (blockPath blockId)) size)
  | .uploadWritten _ content _ => content.length ≤ settings.limits.maximumEntryBytes
  | .uploadRenaming id content =>
      Room settings.limits service.disk (.blob id) content.length
  | .commitRemoving id => ∀ artifact ∈ service.records, artifact.id = id → artifact.blocks = []
  | .deleting id => id < service.nextId ∧ ¬ service.Present id
  | _ => True

/-- The files are within the limits and every recorded block is on disk. -/
structure Booked (settings : Settings) (service : Service) : Prop where
  within : Within settings.limits service.disk
  blocks : ∀ artifact ∈ service.records, ∀ entry ∈ artifact.blocks,
    entry.2.path = blockPath entry.1 ∧
      Holds service.disk (.block artifact.id entry.2.path) entry.2.size
  numbered : ∀ artifact ∈ service.records, artifact.id < service.nextId
  distinct : (service.records.map (·.id)).Nodup
  frames : ∀ frame ∈ service.tasks, frame.Sure settings service
  oneLock : ∀ (first second : Nat) (one two : Frame), service.tasks[first]? = some one →
    service.tasks[second]? = some two → one.holdsLock = true → two.holdsLock = true →
    first = second

/-- A task without the lock relies on the records only. -/
theorem Frame.Sure.unlocked {before after : Service} {frame : Frame}
    (sure : frame.Sure settings before) (unheld : frame.holdsLock = false)
    (grown : before.nextId ≤ after.nextId)
    (unstaged : ∀ id, frame = .commitRemoving id → ∀ artifact ∈ after.records,
      artifact.id = id → artifact.blocks = [])
    (old : ∀ id, id < before.nextId → after.Present id → before.Present id) :
    frame.Sure settings after := by
  cases frame with
  | stageRenaming | stageRenamed | uploadRenaming => cases unheld
  | commitRemoving id => exact unstaged id rfl
  | deleting id =>
      exact ⟨Nat.lt_of_lt_of_le sure.1 grown, fun present => sure.2 (old id sure.1 present)⟩
  | uploadWritten => exact sure
  | _ => trivial

/-- With the records as they are, a task relies on the files that it has checked, and one
that has renamed its block on this file. -/
theorem Frame.Sure.kept {before after : Service} {frame : Frame}
    (sure : frame.Sure settings before) (records : after.records = before.records)
    (nextId : after.nextId = before.nextId)
    (removing : ∀ id, Frame.commitRemoving id ∉ before.tasks →
      Frame.commitRemoving id ∉ after.tasks)
    (less : frame.renames = true → ∀ path, bytesAt after.disk path ≤ bytesAt before.disk path)
    (held : ∀ id blockId size, frame = .stageRenamed id blockId size → before.Present id →
      Holds before.disk (.block id (blockPath blockId)) size →
      Holds after.disk (.block id (blockPath blockId)) size) :
    frame.Sure settings after := by
  have present : ∀ id, after.Present id ↔ before.Present id := by
    intro id
    rw [Service.Present, Service.Present, records]
  cases frame with
  | stageRenaming id blockId content =>
      obtain ⟨room, unremoved, sizes⟩ := sure
      refine ⟨room.mono (less rfl), removing id unremoved, ?_⟩
      rw [records]
      exact sizes
  | stageRenamed id blockId size =>
      refine ⟨removing id sure.1, fun there => ?_⟩
      have was := (present id).mp there
      exact held id blockId size rfl was (sure.2 was)
  | uploadRenaming id content => exact sure.mono (less rfl)
  | commitRemoving id =>
      unfold Frame.Sure
      rw [records]
      exact sure
  | deleting id =>
      have unknown : ¬ after.Present id := fun there => sure.2 ((present id).mp there)
      exact ⟨nextId ▸ sure.1, unknown⟩
  | uploadWritten => exact sure
  | _ => trivial

/-! ### One task goes on -/

section Resume

variable {service after : Service} {task : Nat} {frame next : Frame}

omit [Sha256] in
theorem mem_set_elsewhere {other : Frame} (member : other ∈ service.tasks.set task next) :
    other = next ∨ ∃ index, task ≠ index ∧ service.tasks[index]? = some other := by
  obtain ⟨index, found⟩ := List.mem_iff_getElem?.mp member
  by_cases same : task = index
  · subst same
    rw [List.getElem?_set] at found
    split at found
    · split at found
      · exact .inl (Option.some.inj found).symm
      · cases found
    · contradiction
  · rw [List.getElem?_set_ne same] at found
    exact .inr ⟨index, same, found⟩

/-- When the resumed task holds the lock, or nobody does, no other task holds it. -/
theorem Booked.alone (booked : Booked settings service)
    (suspended : service.tasks[task]? = some frame)
    (lock : frame.holdsLock = true ∨ service.locked = false) {index : Nat} {other : Frame}
    (apart : task ≠ index) (found : service.tasks[index]? = some other) :
    other.holdsLock = false := by
  rcases lock with held | free
  · by_contra holds
    exact apart (booked.oneLock task index frame other suspended found held (by simpa using holds))
  · simpa using List.any_eq_false.mp free other (List.mem_of_getElem? found)

/-- Steps that change neither records nor files. -/
theorem Booked.still (booked : Booked settings service)
    (suspended : service.tasks[task]? = some frame)
    (lock : next.holdsLock = true → frame.holdsLock = true ∨ service.locked = false)
    (unremoving : ∀ id, next ≠ .commitRemoving id) (sure : next.Sure settings service) :
    Booked settings { service with tasks := service.tasks.set task next } := by
  have removing : ∀ id, Frame.commitRemoving id ∉ service.tasks →
      Frame.commitRemoving id ∉ service.tasks.set task next := by
    intro id absent member
    rcases List.mem_or_eq_of_mem_set member with old | isNext
    · exact absent old
    · exact unremoving id isNext.symm
  have kept : ∀ other : Frame, other.Sure settings service →
      other.Sure settings { service with tasks := service.tasks.set task next } := by
    intro other was
    exact was.kept rfl rfl removing (fun _ _ => Nat.le_refl _) fun _ _ _ _ _ holds => holds
  refine ⟨booked.within, booked.blocks, booked.numbered, booked.distinct, ?_,
    oneLock_set booked.oneLock suspended lock⟩
  intro other member
  rcases List.mem_or_eq_of_mem_set member with old | rfl
  · exact kept other (booked.frames other old)
  · exact kept other sure

theorem Booked.fails (booked : Booked settings service)
    (suspended : service.tasks[task]? = some frame) (answer : Except ArtifactHttpError Answer) :
    Booked settings { service with tasks := service.tasks.set task (.done answer) } :=
  booked.still suspended (fun holds => by cases holds) (fun _ same => by cases same) trivial

/-- A file is renamed into place, by a task with the lock or while no other task is about
to rename one. -/
theorem Booked.write {target : Path} {content : Bytes} (booked : Booked settings service)
    (suspended : service.tasks[task]? = some frame)
    (lock : next.holdsLock = true → frame.holdsLock = true)
    (unrenamed : ∀ index other, task ≠ index → service.tasks[index]? = some other →
      other.renames = false)
    (unstaged : ∀ index id blockId size, task ≠ index →
      service.tasks[index]? = some (.stageRenamed id blockId size) →
      target ≠ .block id (blockPath blockId))
    (room : Room settings.limits service.disk target content.length)
    (sizes : ∀ artifact ∈ service.records, ∀ entry ∈ artifact.blocks,
      target = .block artifact.id entry.2.path → content.length = entry.2.size)
    (unremoving : ∀ id, next ≠ .commitRemoving id)
    (sure : next.Sure settings { service.write target content with
      tasks := service.tasks.set task next }) :
    Booked settings { service.write target content with
      tasks := service.tasks.set task next } := by
  refine ⟨booked.within.write room, ?_, booked.numbered, booked.distinct, ?_,
    oneLock_set booked.oneLock suspended fun holds => .inl (lock holds)⟩
  · intro artifact member entry listed
    obtain ⟨isPath, holds⟩ := booked.blocks artifact member entry listed
    refine ⟨isPath, ?_⟩
    by_cases same : target = .block artifact.id entry.2.path
    · refine ⟨content, ?_, sizes artifact member entry listed same⟩
      rw [← same]
      exact service.write_disk_self target content
    · obtain ⟨old, there, length⟩ := holds
      refine ⟨old, ?_, length⟩
      rw [← there]
      exact service.write_disk_of_ne content (Ne.symm same)
  · intro other member
    rcases mem_set_elsewhere member with rfl | ⟨index, apart, found⟩
    · exact sure
    · refine (booked.frames other (List.mem_of_getElem? found)).kept rfl rfl ?_ ?_ ?_
      · intro id absent again
        rcases List.mem_or_eq_of_mem_set again with old | isNext
        · exact absent old
        · exact unremoving id isNext.symm
      · intro renames
        rw [unrenamed index other apart found] at renames
        cases renames
      · rintro id blockId size rfl - ⟨old, there, length⟩
        refine ⟨old, ?_, length⟩
        rw [← there]
        exact service.write_disk_of_ne content
          (Ne.symm (unstaged index id blockId size apart found))

/-- The records change, by a task with the lock or while nobody holds it. -/
theorem Booked.change (booked : Booked settings service)
    (suspended : service.tasks[task]? = some frame)
    (free : frame.holdsLock = true ∨ service.locked = false) (unheld : next.holdsLock = false)
    (tasks : after.tasks = service.tasks.set task next) (disk : after.disk = service.disk)
    (grown : service.nextId ≤ after.nextId)
    (blocks : ∀ artifact ∈ after.records, ∀ entry ∈ artifact.blocks,
      entry.2.path = blockPath entry.1 ∧
        Holds service.disk (.block artifact.id entry.2.path) entry.2.size)
    (numbered : ∀ artifact ∈ after.records, artifact.id < after.nextId)
    (distinct : (after.records.map (·.id)).Nodup)
    (unstaged : ∀ id, Frame.commitRemoving id ∈ service.tasks →
      ∀ artifact ∈ after.records, artifact.id = id → artifact.blocks = [])
    (old : ∀ id, id < service.nextId → after.Present id → service.Present id)
    (sure : next.Sure settings after) : Booked settings after := by
  refine ⟨?_, ?_, numbered, distinct, ?_, ?_⟩
  · rw [disk]
    exact booked.within
  · rw [disk]
    exact blocks
  · rw [tasks]
    intro other member
    rcases mem_set_elsewhere member with rfl | ⟨index, apart, found⟩
    · exact sure
    · have inside := List.mem_of_getElem? found
      refine (booked.frames other inside).unlocked (booked.alone suspended free apart found) grown
        ?_ old
      rintro id rfl
      exact unstaged id inside
  · rw [tasks]
    refine oneLock_set booked.oneLock suspended fun holds => ?_
    rw [unheld] at holds
    cases holds

/-- One record is updated, and its blocks are as they were or gone. -/
theorem Booked.updateRecord {id : Nat} {set : ArtifactRecord → ArtifactRecord}
    (booked : Booked settings service) (suspended : service.tasks[task]? = some frame)
    (free : frame.holdsLock = true ∨ service.locked = false) (unheld : next.holdsLock = false)
    (sameId : ∀ artifact, (set artifact).id = artifact.id)
    (blocks : ∀ artifact ∈ service.records, artifact.id = id → ∀ entry ∈ (set artifact).blocks,
      entry.2.path = blockPath entry.1 ∧
        Holds service.disk (.block id entry.2.path) entry.2.size)
    (unstaged : Frame.commitRemoving id ∈ service.tasks → ∀ artifact,
      artifact.blocks = [] → (set artifact).blocks = [])
    (sure : next.Sure settings { service.updateRecord id set with
      tasks := service.tasks.set task next }) :
    Booked settings { service.updateRecord id set with
      tasks := service.tasks.set task next } := by
  have ids : (service.updateRecord id set).records.map (·.id) = service.records.map (·.id) :=
    map_key_update fun old _ _ => sameId old
  have kept : ∀ new ∈ (service.updateRecord id set).records, ∃ artifact ∈ service.records,
      artifact.id = new.id := by
    intro new member
    have named : new.id ∈ (service.updateRecord id set).records.map (·.id) :=
      List.mem_map_of_mem member
    rw [ids] at named
    exact List.mem_map.mp named
  refine booked.change suspended free unheld rfl rfl (Nat.le_refl _) ?_ ?_ ?_ ?_ ?_ sure
  · intro new member
    obtain ⟨artifact, present, rfl⟩ := mem_update.mp member
    by_cases same : artifact.id = id
    · rw [if_pos (decide_eq_true same), sameId, same]
      exact blocks artifact present same
    · rw [if_neg (by simpa using same)]
      exact booked.blocks artifact present
  · intro new member
    obtain ⟨artifact, present, same⟩ := kept new member
    exact same ▸ booked.numbered artifact present
  · rw [show ({ service.updateRecord id set with tasks := service.tasks.set task next } :
      Service).records.map (·.id) = service.records.map (·.id) from ids]
    exact booked.distinct
  · intro other removing new member same
    obtain ⟨artifact, present, rfl⟩ := mem_update.mp member
    have empty : artifact.id = other → artifact.blocks = [] :=
      booked.frames _ removing artifact present
    by_cases mine : artifact.id = id
    · rw [if_pos (decide_eq_true mine)] at same ⊢
      rw [sameId, mine] at same
      subst same
      exact unstaged removing artifact (empty mine)
    · rw [if_neg (by simpa using mine)] at same ⊢
      exact empty same
  · rintro other - ⟨new, member, rfl⟩
    exact kept new member

end Resume

/-! ### Checks that pass -/

section Checks

variable {service : Service}

omit [Sha256] in
theorem le_of_saturatingAdd {left right limit : Nat} (bounded : limit < u64Max)
    (within : saturatingAdd left right ≤ limit) : left + right ≤ limit := by
  unfold saturatingAdd at within
  omega

omit [Sha256] in
theorem stageWithinLimits_cases (id : Nat) (blockId : String) (content : Bytes) :
    (∃ error, stageWithinLimits settings service id blockId content = .done (.error error)) ∨
    ∃ artifact, service.record? id = some artifact ∧
      stageWithinLimits settings service id blockId content = .stageRenaming id blockId content ∧
      saturatingAdd (artifactLogicalSize artifact -
        ((artifact.blocks.lookup blockId).map (·.size)).getD 0) content.length ≤
          settings.limits.maximumEntryBytes ∧
      saturatingAdd (totalLogicalSize service.records -
        ((artifact.blocks.lookup blockId).map (·.size)).getD 0) content.length ≤
          settings.limits.maximumBytes := by
  unfold stageWithinLimits
  split
  · exact .inl ⟨_, rfl⟩
  · next artifact found =>
      dsimp only
      split
      · exact .inl ⟨_, rfl⟩
      · next fits =>
          simp only [Bool.or_eq_true, decide_eq_true_eq, not_or, Nat.not_lt] at fits
          exact .inr ⟨artifact, found, rfl, fits.1, fits.2⟩

omit [Sha256] in
theorem uploadWithinLimits_cases (id : Nat) (content : Bytes) (oldSize : Nat) :
    (∃ error, uploadWithinLimits settings service id content oldSize = .done (.error error)) ∨
    uploadWithinLimits settings service id content oldSize = .uploadRenaming id content ∧
      saturatingAdd (totalLogicalSize service.records - oldSize) content.length ≤
        settings.limits.maximumBytes := by
  unfold uploadWithinLimits
  split
  · exact .inl ⟨_, rfl⟩
  · next fits => exact .inr ⟨rfl, Nat.not_lt.mp fits⟩

omit [Sha256] in
/-- The files other than the one to be replaced, when its size has been taken off a size
that counts them all. -/
theorem room_of_logical {files : Finset Path} {target : Path} {logical oldSize size limit : Nat}
    (absent : target ∉ files)
    (counted : ∑ path ∈ insert target files, bytesAt service.disk path ≤ logical)
    (replaced : oldSize ≤ bytesAt service.disk target) (bounded : limit < u64Max)
    (fits : saturatingAdd (logical - oldSize) size ≤ limit) :
    ∑ path ∈ files, bytesAt service.disk path + size ≤ limit := by
  rw [sum_insert absent] at counted
  have room := le_of_saturatingAdd bounded fits
  omega

variable (bounded : settings.limits.maximumBytes < u64Max)
  (entryBounded : settings.limits.maximumEntryBytes < u64Max)
include bounded

/-- Where no file is left out, the total is that of the files at least. -/
theorem Booked.total (booked : Booked settings service) (counts : service.CountsAll)
    (files : Finset Path) :
    ∑ path ∈ files, bytesAt service.disk path ≤ totalLogicalSize service.records :=
  counts.total booked.distinct ((booked.within.1 files).trans bounded.le)

include entryBounded

theorem Booked.stageRoom {id : Nat} {blockId : String} {artifact : ArtifactRecord} {size : Nat}
    (booked : Booked settings service) (counts : service.CountsAll)
    (found : service.record? id = some artifact)
    (entryFits : saturatingAdd (artifactLogicalSize artifact -
      ((artifact.blocks.lookup blockId).map (·.size)).getD 0) size ≤
        settings.limits.maximumEntryBytes)
    (fits : saturatingAdd (totalLogicalSize service.records -
      ((artifact.blocks.lookup blockId).map (·.size)).getD 0) size ≤
        settings.limits.maximumBytes) :
    Room settings.limits service.disk (.block id (blockPath blockId)) size := by
  obtain ⟨member, isId⟩ := record?_eq_some found
  -- What is taken off is the size of the file that will be replaced.
  have replaced : ((artifact.blocks.lookup blockId).map (·.size)).getD 0 ≤
      bytesAt service.disk (.block id (blockPath blockId)) := by
    cases stored : artifact.blocks.lookup blockId with
    | none => exact Nat.zero_le _
    | some block =>
        obtain ⟨front, back, same, -⟩ := List.lookup_eq_some_iff.mp stored
        have listed : (blockId, block) ∈ artifact.blocks := by simp [same]
        obtain ⟨isPath, holds⟩ := booked.blocks artifact member _ listed
        rw [← isPath, ← isId, holds.bytes]
        exact Nat.le_refl _
  refine ⟨fun files absent => ?_, fun files absent owned => ?_⟩
  · exact room_of_logical absent (booked.total bounded counts _) replaced bounded fits
  · refine room_of_logical absent ?_ replaced entryBounded entryFits
    have mine : ∀ path ∈ insert (Path.block id (blockPath blockId)) files,
        path.owner = artifact.id := by
      intro path inside
      rw [isId]
      rcases mem_insert.mp inside with rfl | other
      · rfl
      · exact owned path other
    exact counts.entry booked.distinct member mine
      ((booked.within.2 _ _ mine).trans entryBounded.le)

omit entryBounded in
theorem Booked.uploadRoom {id size oldSize : Nat} (booked : Booked settings service)
    (counts : service.CountsAll) (unstaged : ∀ name, service.disk (.block id name) = none)
    (replaced : oldSize ≤ bytesAt service.disk (.blob id))
    (entryFits : size ≤ settings.limits.maximumEntryBytes)
    (fits : saturatingAdd (totalLogicalSize service.records - oldSize) size ≤
      settings.limits.maximumBytes) :
    Room settings.limits service.disk (.blob id) size := by
  refine ⟨fun files absent => ?_, fun files absent owned => ?_⟩
  · exact room_of_logical absent (booked.total bounded counts _) replaced bounded fits
  · have empty : ∑ path ∈ files, bytesAt service.disk path = 0 := by
      refine sum_eq_zero fun path inside => ?_
      have mine := owned path inside
      cases path with
      | blob owner =>
          rw [show owner = id from mine] at inside
          exact absurd inside absent
      | block owner name =>
          rw [show owner = id from mine, bytesAt, unstaged]
          rfl
    rw [empty, Nat.zero_add]
    exact entryFits

end Checks

/-! ### Steps and runs -/

section Steps

variable {service : Service} {task : Nat} {frame : Frame}

/-- A request begins with the lock free. -/
theorem Booked.begin {request : Request} (booked : Booked settings service)
    (suspended : service.tasks[task]? = some (.requested request))
    (free : service.locked = false) (failure : Option String) :
    Booked settings { (begin settings service failure request).1 with
      tasks := service.tasks.set task (begin settings service failure request).2 } := by
  cases request with
  | createArtifact runId jobId name mimeType version =>
      simp only [Artifacts.begin, createArtifact]
      split
      · exact booked.fails suspended _
      · split
        · exact booked.fails suspended _
        · split
          · exact booked.fails suspended _
          · split
            · exact booked.fails suspended _
            · have earlier : ∀ id, id < service.nextId → ∀ artifact ∈ service.records ++
                  [({ id := service.nextId, name := name
                      mimeType := (mimeType.filter (!·.isEmpty)).getD "application/zip"
                      blocks := [], blobCommitted := false, finalized := false, size := 0
                      digest := none } : ArtifactRecord)], artifact.id = id →
                  artifact ∈ service.records := by
                intro id known artifact member same
                rcases List.mem_append.mp member with old | new
                · exact old
                · rw [List.mem_singleton.mp new] at same
                  exact absurd known (by simp [← same])
              cases failure with
              | some text =>
                  refine booked.change suspended (.inr free) rfl rfl rfl (Nat.le_succ _)
                    booked.blocks ?_ booked.distinct ?_ (fun _ _ there => there) trivial
                  · exact fun artifact member => (booked.numbered artifact member).trans
                      (Nat.lt_succ_self _)
                  · exact fun id removing => booked.frames _ removing
              | none =>
                  refine booked.change suspended (.inr free) rfl rfl rfl (Nat.le_succ _) ?_ ?_ ?_
                    ?_ ?_ trivial
                  · intro artifact member entry listed
                    rcases List.mem_append.mp member with old | new
                    · exact booked.blocks artifact old entry listed
                    · rw [List.mem_singleton.mp new] at listed
                      cases listed
                  · intro artifact member
                    rcases List.mem_append.mp member with old | new
                    · exact (booked.numbered artifact old).trans (Nat.lt_succ_self _)
                    · rw [List.mem_singleton.mp new]
                      exact Nat.lt_succ_self _
                  · refine nodup_key_append booked.distinct fun old member same => ?_
                    exact absurd (booked.numbered old member) (by simp [same])
                  · intro id removing artifact member same
                    rcases List.mem_append.mp member with old | new
                    · exact booked.frames _ removing artifact old same
                    · rw [List.mem_singleton.mp new]
                  · rintro id known ⟨artifact, member, same⟩
                    exact ⟨artifact, earlier id known artifact member same, same⟩
  | stageBlock id blockId contentLength body =>
      dsimp only [Artifacts.begin]
      rcases stageBlock_cases id blockId contentLength body with ⟨_, same⟩ | ⟨_, -, same⟩
      · rw [same]
        exact booked.fails suspended _
      · rw [same]
        exact booked.still suspended (fun holds => by cases holds) (fun _ same => by cases same)
          trivial
  | commitBlockList id order =>
      dsimp only [Artifacts.begin]
      rcases commitBlockList_cases id order with ⟨_, same⟩ | ⟨_, _, -, -, same⟩
      · rw [same]
        exact booked.fails suspended _
      · rw [same]
        exact booked.still suspended (fun holds => by cases holds) (fun _ same => by cases same)
          trivial
  | uploadSingleBlob id contentLength body =>
      dsimp only [Artifacts.begin]
      rcases uploadSingleBlob_cases id contentLength body with ⟨_, same⟩ | ⟨_, -, same⟩
      · rw [same]
        exact booked.fails suspended _
      · rw [same]
        exact booked.still suspended (fun holds => by cases holds) (fun _ same => by cases same)
          trivial
  | finalizeArtifact runId jobId name size hash =>
      dsimp only [Artifacts.begin]
      rcases finalizeArtifact_cases runId jobId name size hash with
        ⟨_, same⟩ | ⟨_, -, ⟨-, same⟩ | ⟨-, same⟩⟩
      · rw [same]
        exact booked.fails suspended _
      · rw [same]
        exact booked.fails suspended _
      · rw [same]
        exact booked.still suspended (fun holds => by cases holds) (fun _ same => by cases same)
          trivial
  | deleteArtifact runId jobId name =>
      simp only [Artifacts.begin, deleteArtifact]
      split
      · exact booked.fails suspended _
      · split
        · exact booked.fails suspended _
        · next id isDeleted =>
            have known : id < service.nextId := by
              obtain ⟨artifact, member, rfl⟩ :=
                List.mem_map.mp (List.max?_mem isDeleted)
              exact booked.numbered artifact (List.mem_of_mem_filter member)
            refine booked.change suspended (.inr free) rfl rfl rfl (Nat.le_refl _)
              (forall_delete booked.blocks) (forall_delete booked.numbered)
              (nodup_key_delete booked.distinct) ?_ ?_ ⟨known, ?_⟩
            · exact fun other removing => forall_delete (booked.frames _ removing)
            · rintro other - ⟨artifact, member, same⟩
              exact ⟨artifact, (mem_delete.mp member).1, same⟩
            · rintro ⟨artifact, member, same⟩
              have kept := (mem_delete.mp member).2
              simp [same] at kept

/-- Nobody is about to rename a file while another task holds the lock. -/
theorem Booked.unrenamed (booked : Booked settings service)
    (suspended : service.tasks[task]? = some frame) (held : frame.holdsLock = true) (index : Nat)
    (other : Frame) (apart : task ≠ index) (found : service.tasks[index]? = some other) :
    other.renames = false := by
  by_contra renames
  have holds := Frame.holdsLock_of_renames (by simpa using renames)
  rw [booked.alone suspended (.inl held) apart found] at holds
  cases holds

/-- Between its check and the update of its record, the block is not removed. -/
theorem Booked.stageRename {id : Nat} {blockId : String} {content : Bytes}
    (booked : Booked settings service)
    (suspended : service.tasks[task]? = some (.stageRenaming id blockId content)) :
    Booked settings { service.write (.block id (blockPath blockId)) content with
      tasks := service.tasks.set task (.stageRenamed id blockId content.length) } := by
  obtain ⟨room, unremoved, sizes⟩ := booked.frames _ (List.mem_of_getElem? suspended)
  refine booked.write suspended (fun _ => rfl) (booked.unrenamed suspended rfl) ?_ room ?_
    (fun _ same => by cases same) ⟨?_, fun _ => ?_⟩
  · -- Two tasks between their checks and updates would both hold the lock.
    intro index other otherId size apart found
    have unheld := booked.alone suspended (.inl rfl) apart found
    cases unheld
  · intro artifact member entry listed same
    obtain ⟨isId, isPath⟩ := Path.block.inj same
    exact (sizes artifact member isId.symm entry listed isPath.symm).symm
  · intro removing
    rcases List.mem_or_eq_of_mem_set removing with old | same
    · exact unremoved old
    · cases same
  · exact ⟨content, service.write_disk_self _ content, rfl⟩

theorem Booked.uploadRename {id : Nat} {content : Bytes} (booked : Booked settings service)
    (suspended : service.tasks[task]? = some (.uploadRenaming id content)) :
    Booked settings { service.write (.blob id) content with
      tasks := service.tasks.set task (.uploadRenamed id content.length) } := by
  refine booked.write suspended (fun _ => rfl) (booked.unrenamed suspended rfl) ?_
    (booked.frames _ (List.mem_of_getElem? suspended)) ?_ (fun _ same => by cases same) trivial
  · exact fun _ _ _ _ _ _ same => by cases same
  · exact fun _ _ _ _ same => by cases same

theorem Booked.commitRename {id size : Nat} {output : Bytes} (booked : Booked settings service)
    (suspended : service.tasks[task]? = some (.commitCopying id [] output size))
    (unrenamed : ∀ other ∈ service.tasks, other.renames = false)
    (room : Room settings.limits service.disk (.blob id) output.length) :
    Booked settings { service.write (.blob id) output with
      tasks := service.tasks.set task (.commitRenamed id size) } := by
  refine booked.write suspended (fun holds => by cases holds) ?_ ?_ room ?_
    (fun _ same => by cases same) trivial
  · exact fun index other _ found => unrenamed other (List.mem_of_getElem? found)
  · exact fun _ _ _ _ _ _ same => by cases same
  · exact fun _ _ _ _ same => by cases same

/-- The blocks of a record are cleared, and its commit begins to remove them. -/
theorem Booked.recordBlob {id size : Nat} {next : Frame} (booked : Booked settings service)
    (suspended : service.tasks[task]? = some frame)
    (free : frame.holdsLock = true ∨ service.locked = false)
    (isNext : next = .commitRemoving id ∨ next = .done (.ok .stored)) :
    Booked settings { service.updateRecord id (recordBlob size) with
      tasks := service.tasks.set task next } := by
  have unheld : next.holdsLock = false := by rcases isNext with rfl | rfl <;> rfl
  refine booked.updateRecord suspended free unheld (fun _ => rfl) ?_ (fun _ _ _ => rfl) ?_
  · exact fun _ _ _ _ listed => by cases listed
  · rcases isNext with rfl | rfl
    · intro new member same
      obtain ⟨artifact, present, rfl⟩ := mem_update.mp member
      by_cases mine : artifact.id = id
      · rw [if_pos (decide_eq_true mine)]
        rfl
      · rw [if_neg (by simpa using mine)] at same
        exact absurd same mine
    · trivial

theorem Booked.insertBlock {id size : Nat} {blockId : String} (booked : Booked settings service)
    (suspended : service.tasks[task]? = some (.stageRenamed id blockId size)) :
    Booked settings { service.updateRecord id (insertBlock blockId ⟨blockPath blockId, size⟩) with
      tasks := service.tasks.set task (.done (.ok .stored)) } := by
  obtain ⟨unremoved, holds⟩ : Frame.commitRemoving id ∉ service.tasks ∧ (service.Present id →
      Holds service.disk (.block id (blockPath blockId)) size) :=
    booked.frames _ (List.mem_of_getElem? suspended)
  refine booked.updateRecord suspended (.inl rfl) rfl (fun _ => rfl) ?_
    (fun removing => absurd removing unremoved) trivial
  intro artifact member isId entry listed
  rcases List.mem_append.mp listed with old | new
  · rw [← isId]
    exact booked.blocks artifact member entry (List.mem_of_mem_filter old)
  · rw [List.mem_singleton.mp new]
    exact ⟨rfl, holds ⟨artifact, member, isId⟩⟩

variable (bounded : settings.limits.maximumBytes < u64Max)
  (entryBounded : settings.limits.maximumEntryBytes < u64Max)
include bounded entryBounded

theorem Booked.advance (booked : Booked settings service)
    (suspended : service.tasks[task]? = some frame)
    (free : frame.takesLock = true → service.locked = false) (failure : Option String)
    (accounted : frame.takesLock = true ∨ failure = none → frame.Accounted settings service) :
    Booked settings { (advance settings service failure frame).1 with
      tasks := service.tasks.set task (advance settings service failure frame).2 } := by
  have sure := booked.frames frame (List.mem_of_getElem? suspended)
  cases frame with
  | requested request => exact booked.begin suspended (free rfl) failure
  | stageWriting id blockId body =>
      dsimp only [Artifacts.advance]
      split
      · exact booked.fails suspended _
      · exact booked.still suspended (fun holds => by cases holds) (fun _ same => by cases same)
          trivial
  | stageWritten id blockId content =>
      dsimp only [Artifacts.advance]
      have account := accounted (.inl rfl) (free rfl)
      rcases stageWithinLimits_cases id blockId content with
        ⟨_, same⟩ | ⟨artifact, found, same, entryFits, fits⟩
      · rw [same]
        exact booked.fails suspended _
      · obtain ⟨counts, unremoved, sizes⟩ := account same
        rw [same]
        refine booked.still suspended (fun _ => .inr (free rfl)) (fun _ same => by cases same)
          ⟨?_, unremoved, sizes⟩
        exact booked.stageRoom bounded entryBounded counts found entryFits fits
  | stageRenaming id blockId content =>
      cases failure with
      | some text => exact booked.fails suspended _
      | none => exact booked.stageRename suspended
  | stageRenamed id blockId size =>
      dsimp only [Artifacts.advance]
      split
      · exact booked.fails suspended _
      · exact booked.insertBlock suspended
  | commitCopying id remaining output size =>
      cases remaining with
      | nil =>
          cases failure with
          | some text => exact booked.fails suspended _
          | none =>
              obtain ⟨unrenamed, room⟩ := accounted (.inr rfl)
              exact booked.commitRename suspended unrenamed room
      | cons block remaining =>
          dsimp only [Artifacts.advance]
          split
          · exact booked.fails suspended _
          · exact booked.fails suspended _
          · exact booked.still suspended (fun holds => by cases holds)
              (fun _ same => by cases same) trivial
  | commitRenamed id size =>
      dsimp only [Artifacts.advance]
      split
      · exact booked.fails suspended _
      · exact booked.recordBlob suspended (.inr (free rfl)) (.inl rfl)
  | commitRemoving id => exact booked.fails suspended _
  | uploadWriting id body oldSize =>
      dsimp only [Artifacts.advance]
      cases written : writeBody settings body failure with
      | error error => exact booked.fails suspended _
      | ok content =>
          refine booked.still suspended (fun holds => by cases holds)
            (fun _ same => by cases same) ?_
          unfold writeBody at written
          split at written
          · cases written
          · split at written
            · cases written
            · next fits =>
                cases written
                exact Nat.not_lt.mp fits
  | uploadWritten id content oldSize =>
      dsimp only [Artifacts.advance]
      have account := accounted (.inl rfl) (free rfl)
      rcases uploadWithinLimits_cases id content oldSize with ⟨_, same⟩ | ⟨same, fits⟩
      · rw [same]
        exact booked.fails suspended _
      · obtain ⟨counts, unstaged, replaced⟩ := account same
        rw [same]
        refine booked.still suspended (fun _ => .inr (free rfl)) (fun _ same => by cases same) ?_
        exact booked.uploadRoom bounded counts unstaged replaced sure fits
  | uploadRenaming id content =>
      cases failure with
      | some text => exact booked.fails suspended _
      | none => exact booked.uploadRename suspended
  | uploadRenamed id size =>
      dsimp only [Artifacts.advance]
      split
      · exact booked.fails suspended _
      · exact booked.recordBlob suspended (.inl rfl) (.inr rfl)
  | hashing id expectedHash =>
      dsimp only [Artifacts.advance]
      split
      · exact booked.fails suspended _
      · exact booked.fails suspended _
      · exact booked.still suspended (fun holds => by cases holds) (fun _ same => by cases same)
          trivial
  | hashed id expectedHash content =>
      cases failure with
      | some text => exact booked.fails suspended _
      | none =>
          dsimp only [Artifacts.advance]
          split
          · exact booked.fails suspended _
          · split
            · exact booked.fails suspended _
            · refine booked.updateRecord suspended (.inr (free rfl)) rfl (fun _ => rfl) ?_
                (fun _ _ empty => empty) trivial
              rintro artifact member rfl
              exact booked.blocks artifact member
  | deleting id =>
      dsimp only [Artifacts.advance]
      split
      · exact booked.fails suspended _
      · exact booked.fails suspended _
  | done answer => exact booked.fails suspended answer

omit bounded entryBounded in
/-- What a commit or a deletion removes is the file of no recorded block. -/
theorem Booked.remove {path : Path} (booked : Booked settings service)
    (suspended : service.tasks[task]? = some frame) (removes : frame.removes path = true) :
    Booked settings (service.unlink path) := by
  have sure := booked.frames frame (List.mem_of_getElem? suspended)
  -- The artifact has no record, or no block and no block to be recorded.
  have unrecorded : ∀ artifact ∈ service.records, ∀ entry ∈ artifact.blocks,
      path ≠ .block artifact.id entry.2.path := by
    rintro artifact member entry listed rfl
    cases frame with
    | commitRemoving id =>
        have mine : id = artifact.id := by simpa [Frame.removes] using removes
        rw [sure artifact member mine.symm] at listed
        cases listed
    | deleting id =>
        have mine : id = artifact.id := by simpa [Frame.removes] using removes
        exact sure.2 ⟨artifact, member, mine.symm⟩
    | _ => cases removes
  have unstaged : ∀ id name, Frame.commitRemoving id ∉ service.tasks → service.Present id →
      path ≠ .block id name := by
    rintro id name unremoved present rfl
    cases frame with
    | commitRemoving other =>
        have mine : other = id := by simpa [Frame.removes] using removes
        exact unremoved (mine ▸ List.mem_of_getElem? suspended)
    | deleting other =>
        have mine : other = id := by simpa [Frame.removes] using removes
        exact sure.2 (mine ▸ present)
    | _ => cases removes
  have kept : ∀ {target : Path} {size : Nat}, path ≠ target → Holds service.disk target size →
      Holds (service.unlink path).disk target size := by
    rintro target size apart ⟨content, there, length⟩
    refine ⟨content, ?_, length⟩
    rw [← there]
    exact service.unlink_disk_of_ne (Ne.symm apart)
  refine ⟨booked.within.mono bytesAt_unlink, ?_, booked.numbered, booked.distinct, ?_,
    booked.oneLock⟩
  · intro artifact member entry listed
    obtain ⟨isPath, holds⟩ := booked.blocks artifact member entry listed
    exact ⟨isPath, kept (unrecorded artifact member entry listed) holds⟩
  · intro other member
    have was := booked.frames other member
    refine was.kept rfl rfl (fun _ absent => absent) (fun _ => bytesAt_unlink) ?_
    rintro id blockId size rfl present holds
    exact kept (unstaged id _ was.1 present) holds

/-- Every accounted step keeps the invariant. -/
theorem Booked.step {event : Event} (booked : Booked settings service)
    (accounted : Accounted settings service event) :
    Booked settings (step settings service event) := by
  cases event with
  | request request =>
      refine ⟨booked.within, booked.blocks, booked.numbered, booked.distinct, ?_, ?_⟩
      · intro other member
        rcases List.mem_append.mp member with old | isNew
        · refine (booked.frames other old).kept rfl rfl ?_ (fun _ _ => Nat.le_refl _)
            fun _ _ _ _ _ holds => holds
          intro id absent again
          rcases List.mem_append.mp again with was | isNew
          · exact absent was
          · cases List.mem_singleton.mp isNew
        · rw [List.mem_singleton.mp isNew]
          trivial
      · exact oneLock_arrive booked.oneLock request
  | proceed task failure =>
      dsimp only [Artifacts.step]
      split
      · exact booked
      · next frame suspended =>
          split
          · exact booked
          · next free =>
              refine booked.advance bounded entryBounded suspended (fun takes => ?_) failure
                (accounted frame suspended)
              simpa [takes] using free
  | remove task path =>
      dsimp only [Artifacts.step]
      split
      · exact booked
      · next frame suspended =>
          split
          · next removes => exact booked.remove suspended removes
          · exact booked

end Steps

end Invariant

/-! ### Runs that write known files -/

/-- The file that the next step of a task may rename into place. -/
def Frame.target? [Sha256] : Frame → Option Path
  | .stageRenaming id blockId _ => some (.block id (blockPath blockId))
  | .commitCopying id _ _ _ | .uploadRenaming id _ => some (.blob id)
  | _ => none

/-- Nothing is on disk but these files. -/
def Service.Lists (service : Service) (files : Finset Path) : Prop :=
  ∀ path, path ∉ files → service.disk path = none

section Evaluation

variable [Sha256] (settings : Settings) (files : Finset Path)

instance Service.decidableCounts (service : Service) (content : Bytes) :
    ∀ path, Decidable (service.Counts path content)
  | .blob id => inferInstanceAs (Decidable (∃ artifact ∈ service.records, artifact.id = id ∧
      artifact.blobCommitted = true ∧ content.length = artifact.size))
  | .block id name => inferInstanceAs (Decidable (∃ artifact ∈ service.records,
      artifact.id = id ∧ artifact.blobCommitted = false ∧
        ∃ entry ∈ artifact.blocks, entry.2.path = name ∧ content.length = entry.2.size))

/-- The condition on a task where nothing but `files` is on disk: it ranges over these. -/
def Frame.Checked (service : Service) : Frame → Prop
  | .stageWritten id blockId content =>
      (∀ path ∈ files, ∀ stored ∈ service.disk path, service.Counts path stored) ∧
        (∀ frame ∈ service.tasks, frame.removes (.block id (blockPath blockId)) = false) ∧
        ∀ artifact ∈ service.records, artifact.id = id → ∀ entry ∈ artifact.blocks,
          entry.2.path = blockPath blockId → entry.2.size = content.length
  | .uploadWritten id _ oldSize =>
      (∀ path ∈ files, ∀ stored ∈ service.disk path, service.Counts path stored) ∧
        (∀ path ∈ files, path.owner = id → path = .blob id ∨ service.disk path = none) ∧
        oldSize ≤ bytesAt service.disk (.blob id)
  | .commitCopying id [] output _ =>
      (∀ frame ∈ service.tasks, frame.renames = false) ∧
        ∑ path ∈ files.erase (.blob id), bytesAt service.disk path + output.length ≤
          settings.limits.maximumBytes ∧
        ∑ path ∈ (files.erase (.blob id)).filter (·.owner = id), bytesAt service.disk path +
          output.length ≤ settings.limits.maximumEntryBytes
  | _ => True

instance Frame.decidableChecked (service : Service) :
    ∀ frame : Frame, Decidable (frame.Checked settings files service)
  | .stageWritten .. | .uploadWritten .. | .commitCopying _ [] _ _ =>
      inferInstanceAs (Decidable (_ ∧ _ ∧ _))
  | .commitCopying _ (_ :: _) _ _ | .requested _ | .stageWriting .. | .stageRenaming ..
  | .stageRenamed .. | .commitRenamed .. | .commitRemoving _ | .uploadWriting ..
  | .uploadRenaming .. | .uploadRenamed .. | .hashing .. | .hashed .. | .deleting _
  | .done _ => isTrue trivial

/-- The task writes no other file, and its step meets the condition. -/
def Checked (service : Service) : Event → Prop
  | .proceed task _ => ∀ frame ∈ service.tasks[task]?,
      (∀ path ∈ frame.target?, path ∈ files) ∧ frame.Checked settings files service
  | .request _ | .remove _ _ => True

instance decidableChecked (service : Service) :
    ∀ event, Decidable (Checked settings files service event)
  | .proceed task _ => inferInstanceAs (Decidable (∀ frame ∈ service.tasks[task]?, _))
  | .request _ | .remove _ _ => isTrue trivial

variable {settings} {files} {service : Service}

/-- A step of a task changes no file but its target. -/
theorem advance_disk {frame : Frame} {path : Path} (spared : frame.target? ≠ some path)
    (failure : Option String) :
    (advance settings service failure frame).1.disk path = service.disk path := by
  have apart : ∀ {target : Path} (content : Bytes), frame.target? = some target →
      (service.write target content).disk path = service.disk path := by
    intro target content isTarget
    refine service.write_disk_of_ne content ?_
    rintro rfl
    exact spared isTarget
  cases frame with
  | requested request =>
      cases request with
      | createArtifact runId jobId name mimeType version =>
          dsimp only [Artifacts.advance, begin, createArtifact]
          repeat' split
          all_goals rfl
      | deleteArtifact runId jobId name =>
          dsimp only [Artifacts.advance, begin, deleteArtifact]
          repeat' split
          all_goals rfl
      | _ => rfl
  | stageRenaming id blockId content =>
      cases failure with
      | some text => rfl
      | none => exact apart content rfl
  | commitCopying id remaining output size =>
      cases remaining with
      | nil =>
          cases failure with
          | some text => rfl
          | none => exact apart output rfl
      | cons block remaining =>
          dsimp only [Artifacts.advance]
          split <;> rfl
  | uploadRenaming id content =>
      cases failure with
      | some text => rfl
      | none => exact apart content rfl
  | _ =>
      dsimp only [Artifacts.advance]
      repeat' split
      all_goals rfl

theorem Service.Lists.step {event : Event} (lists : service.Lists files)
    (checked : Checked settings files service event) :
    (step settings service event).Lists files := by
  intro path unlisted
  cases event with
  | request request => exact lists path unlisted
  | proceed task failure =>
      dsimp only [Artifacts.step]
      split
      · exact lists path unlisted
      · next frame suspended =>
          split
          · exact lists path unlisted
          · refine (advance_disk (fun isTarget => unlisted ?_) failure).trans (lists path unlisted)
            exact (checked frame suspended).1 path isTarget
  | remove task target =>
      dsimp only [Artifacts.step]
      split
      · exact lists path unlisted
      · split
        · by_cases same : path = target
          · rw [same]
            exact Function.update_self ..
          · exact (service.unlink_disk_of_ne same).trans (lists path unlisted)
        · exact lists path unlisted

omit [Sha256] in
/-- Where nothing else is on disk, some files hold at most what these hold. -/
theorem Service.Lists.sum_le {others : Finset Path} {kept : Path → Prop} [DecidablePred kept]
    (lists : service.Lists files) (within : ∀ path ∈ others, kept path) :
    ∑ path ∈ others, bytesAt service.disk path ≤
      ∑ path ∈ files.filter kept, bytesAt service.disk path := by
  refine sum_le_sum_of_ne_zero fun path inside heavy => mem_filter.mpr ⟨?_, within path inside⟩
  by_contra unlisted
  refine heavy ?_
  rw [bytesAt, lists path unlisted]
  rfl

omit [Sha256] in
theorem Service.Lists.countsAll (lists : service.Lists files)
    (counts : ∀ path ∈ files, ∀ stored ∈ service.disk path, service.Counts path stored) :
    service.CountsAll := by
  intro path content there
  refine counts path ?_ content there
  by_contra unlisted
  rw [lists path unlisted] at there
  cases there

theorem Frame.Checked.accounted {frame : Frame} (lists : service.Lists files)
    (checked : frame.Checked settings files service) : frame.Accounted settings service := by
  cases frame with
  | stageWritten id blockId content =>
      obtain ⟨counts, unremoved, sizes⟩ := checked
      refine fun _ _ => ⟨lists.countsAll counts, fun removing => ?_, sizes⟩
      simpa [Frame.removes] using unremoved _ removing
  | uploadWritten id content oldSize =>
      obtain ⟨counts, blobOnly, replaced⟩ := checked
      refine fun _ _ => ⟨lists.countsAll counts, fun name => ?_, replaced⟩
      by_cases listed : Path.block id name ∈ files
      · exact (blobOnly _ listed rfl).resolve_left (by simp)
      · exact lists _ listed
  | commitCopying id remaining output size =>
      cases remaining with
      | cons block remaining => trivial
      | nil =>
          obtain ⟨unrenamed, total, entry⟩ := checked
          refine ⟨unrenamed, fun others apart => ?_, fun others apart owned => ?_⟩
          · refine (Nat.add_le_add_right ?_ _).trans total
            rw [← filter_ne']
            exact lists.sum_le fun path inside => ne_of_mem_of_not_mem inside apart
          · refine (Nat.add_le_add_right ?_ _).trans entry
            rw [← filter_ne', filter_filter]
            exact lists.sum_le fun path inside =>
              ⟨ne_of_mem_of_not_mem inside apart, owned path inside⟩
  | _ => trivial

end Evaluation

/-! ### Files that no size counts -/

namespace StorageSample

scoped instance copiedDigest : Sha256 := ⟨fun value => value⟩

def settings : Settings :=
  { workflowRunBackendId := "run"
    workflowJobRunBackendId := "job"
    limits := { maximumBytes := 8, maximumEntryBytes := 5 } }

/-- A block of three bytes in a new artifact. -/
def staged : List Event :=
  [.request (.createArtifact "run" "job" "report" none 7), .proceed 0 none,
    .request (.stageBlock 1 "a" none [1, 2, 3]), .proceed 1 none, .proceed 1 none,
    .proceed 1 none, .proceed 1 none, .proceed 1 none]

def written : Finset Path :=
  {.blob 1, .block 1 (blockPath "a"), .block 1 (blockPath "b"), .block 2 (blockPath "c"),
    .block 2 (blockPath "d")}

end StorageSample

end GitZero.Agent.Artifacts
