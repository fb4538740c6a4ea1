/-
Module: GitZero.Proofs.CacheUploads
Purpose: The uploads of a cache reservation over every run of requests: the file against
  the uploads that succeeded, what a commit publishes of it, and the failures after which
  neither is so any more.
Trusted boundary: none
Main exports: rangesCover_covers, rangesCover_of_covers, Spared, watch, Tracked.run,
  uploads_are_atomic, failed_upload_is_published
-/
import GitZero.Lib.Machine
import GitZero.Proofs.CachePlans

namespace GitZero.Agent.CacheStore

open Machine Table
open Artifacts (Bytes Sha256 hexDigest u64Max saturatingAdd)

/-! ### Coverage -/

theorem sweep_covers {size covered : Nat} {ranges : List (Nat × Nat)}
    (swept : sweep size covered ranges = true) {position : Nat} (above : covered ≤ position)
    (below : position < size) : ∃ range ∈ ranges, range.1 ≤ position ∧ position ≤ range.2 := by
  induction ranges generalizing covered with
  | nil => cases swept
  | cons range ranges inductionHypothesis =>
      obtain ⟨start, last⟩ := range
      rw [sweep] at swept
      split at swept
      · cases swept
      · next reached =>
          by_cases inside : position ≤ last
          · exact ⟨(start, last), List.mem_cons_self, by omega, inside⟩
          · split at swept
            · next done =>
                unfold saturatingAdd at done
                omega
            · unfold saturatingAdd at swept
              obtain ⟨range, member, within⟩ := inductionHypothesis swept (by omega)
              exact ⟨range, List.mem_cons_of_mem _ member, within⟩

theorem sweep_of_covers {size covered : Nat} {ranges : List (Nat × Nat)}
    (sorted : ranges.Pairwise fun left right => left.1 ≤ right.1) (small : size ≤ u64Max)
    (left : covered < size) (covers : ∀ position, covered ≤ position → position < size →
      ∃ range ∈ ranges, range.1 ≤ position ∧ position ≤ range.2) :
    sweep size covered ranges = true := by
  induction ranges generalizing covered with
  | nil =>
      obtain ⟨range, member, -⟩ := covers covered (Nat.le_refl _) left
      cases member
  | cons range ranges inductionHypothesis =>
      obtain ⟨start, last⟩ := range
      obtain ⟨least, later⟩ := List.pairwise_cons.mp sorted
      rw [sweep, if_neg]
      · split
        · rfl
        · next more =>
            refine inductionHypothesis later (by omega) fun position above below => ?_
            obtain ⟨range, member, within⟩ := covers position (by omega) below
            rcases List.mem_cons.mp member with rfl | behind
            · -- The range ends before the position, or at the largest number.
              unfold saturatingAdd at above more
              dsimp only at within
              omega
            · exact ⟨range, behind, within⟩
      · -- No range begins further left than the first.
        obtain ⟨range, member, within⟩ := covers covered (Nat.le_refl _) left
        rcases List.mem_cons.mp member with rfl | behind
        · exact Nat.not_lt.mpr within.1
        · exact Nat.not_lt.mpr ((least range behind).trans within.1)

/-- Ranges that are accepted cover every byte. -/
theorem rangesCover_covers {size : Nat} {ranges : List (Nat × Nat)}
    (covered : rangesCover ranges size = true) {position : Nat} (below : position < size) :
    ∃ range ∈ ranges, range.1 ≤ position ∧ position ≤ range.2 := by
  obtain ⟨range, member, within⟩ := sweep_covers covered (Nat.zero_le position) below
  exact ⟨range, List.mem_mergeSort.mp member, within⟩

/-- Ranges that cover every byte are accepted. -/
theorem rangesCover_of_covers {size : Nat} {ranges : List (Nat × Nat)} (positive : 0 < size)
    (small : size ≤ u64Max) (covers : ∀ position < size,
      ∃ range ∈ ranges, range.1 ≤ position ∧ position ≤ range.2) :
    rangesCover ranges size = true := by
  refine sweep_of_covers ?_ small positive fun position _ below => ?_
  · refine List.Pairwise.imp ?_ (List.pairwise_mergeSort ?_ ?_ ranges)
    · intro left right ordered
      simp only [Bool.or_eq_true, decide_eq_true_eq, Bool.and_eq_true] at ordered
      omega
    · intro first second third one two
      simp only [Bool.or_eq_true, decide_eq_true_eq, Bool.and_eq_true] at one two ⊢
      omega
    · intro left right
      simp only [Bool.or_eq_true, decide_eq_true_eq, Bool.and_eq_true]
      omega
  · obtain ⟨range, member, within⟩ := covers position below
    exact ⟨range, List.mem_mergeSort.mpr member, within⟩

/-! ### Chunks -/

/-- The chunks that are written before the body is too long. -/
def acceptedChunks (expected : Nat) : Nat → List Bytes → List Bytes
  | _, [] => []
  | received, chunk :: chunks =>
      if u64Max < received + chunk.length ∨ expected < received + chunk.length then []
      else chunk :: acceptedChunks expected (received + chunk.length) chunks

theorem receive_content (start expected : Nat) (aborted : Option String) (received : Nat)
    (content : Bytes) (chunks : List Bytes) :
    (receive start expected aborted received content chunks).1 =
      writeAt content (start + received) (acceptedChunks expected received chunks).flatten := by
  induction chunks generalizing received content with
  | nil => exact Patches.patch_nil.symm
  | cons chunk chunks inductionHypothesis =>
      rw [receive, acceptedChunks]
      split
      · next large => rw [if_pos (.inl large), List.flatten_nil, writeAt, Patches.patch_nil]
      · next small =>
          split
          · next long => rw [if_pos (.inr long), List.flatten_nil, writeAt, Patches.patch_nil]
          · next short =>
              rw [if_neg (by omega), inductionHypothesis, List.flatten_cons, writeAt, writeAt,
                writeAt, ← Patches.patch_append, Nat.add_assoc]

/-- A body that is received whole has been written whole. -/
theorem receive_ok {start expected received count : Nat} {aborted : Option String}
    {content : Bytes} {chunks : List Bytes}
    (ok : (receive start expected aborted received content chunks).2 = .ok count) :
    aborted = none ∧ acceptedChunks expected received chunks = chunks ∧
      count = received + chunks.flatten.length := by
  induction chunks generalizing received content with
  | nil =>
      cases aborted with
      | some text => cases ok
      | none =>
          cases ok
          exact ⟨rfl, rfl, rfl⟩
  | cons chunk chunks inductionHypothesis =>
      rw [receive] at ok
      split at ok
      · cases ok
      · next small =>
          split at ok
          · cases ok
          · next short =>
              obtain ⟨whole, all, total⟩ := inductionHypothesis ok
              rw [acceptedChunks, if_neg (by omega), all]
              refine ⟨whole, rfl, ?_⟩
              rw [total, List.flatten_cons, List.length_append, Nat.add_assoc]

theorem receive_of_fits {start expected received : Nat} {content : Bytes} {chunks : List Bytes}
    (small : received + chunks.flatten.length ≤ u64Max)
    (fits : received + chunks.flatten.length ≤ expected) :
    (receive start expected none received content chunks).2 =
      .ok (received + chunks.flatten.length) := by
  induction chunks generalizing received content with
  | nil => rfl
  | cons chunk chunks inductionHypothesis =>
      rw [List.flatten_cons, List.length_append] at small fits ⊢
      rw [receive, if_neg (by omega), if_neg (by omega), inductionHypothesis (by omega) (by omega),
        Nat.add_assoc]

/-! ### One upload -/

/-- What the file holds. -/
def Reservation.content (reservation : Reservation) : Bytes := reservation.upload.getD []

/-- An upload finds the reservation committed; or fails, with its chunks written as far as
they were accepted; or succeeds, with its whole body written and its range recorded. -/
theorem uploadRange_cases (reservation : Reservation) (start last : Nat) (body : Body) :
    (∃ error, uploadRange reservation start last body = (reservation, .failed error) ∧
      reservation.committed = true) ∨
    (∃ error, uploadRange reservation start last body =
      ({ reservation with upload := some (writeAt reservation.content start
          (acceptedChunks (last - start + 1) 0 body.chunks).flatten) }, .failed error) ∧
      reservation.committed = false ∧
      ¬ (body.aborted = none ∧ body.chunks.flatten.length = last - start + 1 ∧
        last - start + 1 ≤ u64Max)) ∨
    (uploadRange reservation start last body =
      ({ reservation with
        upload := some (writeAt reservation.content start body.chunks.flatten)
        ranges := reservation.ranges ++ [(start, last)] }, .noContent) ∧
      reservation.committed = false ∧ body.chunks.flatten.length = last - start + 1) := by
  unfold uploadRange
  by_cases committed : reservation.committed = true
  · rw [if_pos committed]
    exact .inl ⟨_, rfl, committed⟩
  have isOpen : reservation.committed = false := by simpa using committed
  rw [if_neg committed]
  have content := receive_content start (last - start + 1) body.aborted 0
    (reservation.upload.getD []) body.chunks
  right
  dsimp only
  rw [content, Nat.add_zero]
  cases received : (receive start (last - start + 1) body.aborted 0 (reservation.upload.getD [])
      body.chunks).2 with
  | error error =>
      refine .inl ⟨error, rfl, isOpen, ?_⟩
      rintro ⟨whole, length, small⟩
      rw [whole, receive_of_fits (by omega) (by omega)] at received
      cases received
  | ok count =>
      obtain ⟨-, all, total⟩ := receive_ok received
      rw [Nat.zero_add] at total
      dsimp only
      split
      · next short =>
          refine .inl ⟨_, rfl, isOpen, ?_⟩
          rintro ⟨-, length, -⟩
          exact short (total.trans length)
      · next exact_ =>
          refine .inr ⟨?_, isOpen, by omega⟩
          rw [all]
          rfl

/-! ### Reservations -/

section Reservations

variable {service : CacheService} {id number : Nat} {reservation : Reservation}

theorem lookup_update {reservations : List (Nat × Reservation)}
    (found : (reservations.lookup number).isSome = true) :
    (update reservations (·.1 = number) fun _ => (number, reservation)).lookup id =
      if id = number then some reservation else reservations.lookup id := by
  induction reservations with
  | nil => cases found
  | cons entry reservations inductionHypothesis =>
      obtain ⟨key, value⟩ := entry
      rw [update, List.map_cons]
      by_cases here : key = number
      · subst here
        by_cases same : id = key
        · subst same
          simp
        · rw [if_neg same, if_pos (by simp), List.lookup_cons, List.lookup_cons]
          have differs : (id == key) = false := by simpa using same
          rw [differs]
          dsimp only
          by_cases again : (reservations.lookup key).isSome = true
          · have later := inductionHypothesis again
            rw [if_neg same] at later
            exact later
          · have absent : ∀ entry ∈ reservations, decide (entry.1 = key) = false := by
              intro entry member
              by_contra isKey
              have isKey : entry.1 = key := of_decide_eq_true (by simpa using isKey)
              exact again (List.lookup_isSome_iff.mpr ⟨entry, member, by simp [isKey]⟩)
            have still := @update_unselected _ _ _ (fun _ => (key, reservation)) absent
            rw [update] at still
            rw [still]
      · rw [if_neg (by simpa using here), List.lookup_cons, List.lookup_cons]
        have later : (reservations.lookup number).isSome = true := by
          rw [List.lookup_cons, show (number == key) = false by simpa using Ne.symm here] at found
          exact found
        by_cases first : id = key
        · subst first
          simp [here]
        · rw [show (id == key) = false by simpa using first]
          exact inductionHypothesis later

theorem reservation?_setReservation (found : (service.reservation? number).isSome = true) :
    (service.setReservation number reservation).reservation? id =
      if id = number then some reservation else service.reservation? id :=
  lookup_update found

theorem setReservation_keys (bounded : ∀ entry ∈ service.reservations,
      entry.1 < service.nextReservation) (found : (service.reservation? number).isSome = true) :
    ∀ entry ∈ (service.setReservation number reservation).reservations,
      entry.1 < service.nextReservation := by
  obtain ⟨entry, member, isNumber⟩ := List.lookup_isSome_iff.mp found
  have known := bounded entry member
  rw [← show number = entry.1 by simpa using isNumber] at known
  exact forall_update bounded fun _ _ _ _ => known

theorem fresh_of_bounded (bounded : ∀ entry ∈ service.reservations,
      entry.1 < service.nextReservation) :
    service.reservation? service.nextReservation = none := by
  refine List.lookup_eq_none_iff.mpr fun entry member => ?_
  have known := bounded entry member
  simp only [bne_iff_ne, ne_eq]
  omega

end Reservations

/-! ### What has been uploaded -/

def reservationOf (cache : Cache) (index id : Nat) : Option Reservation :=
  (cache.services[index]?).bind (·.reservation? id)

/-- The successful uploads to a reservation, and the archives that its commits published. -/
structure History where
  uploads : List (Nat × Bytes) := []
  archives : List Bytes := []

section Histories

variable [Sha256] (index id : Nat)

def History.record (cache : Cache) (history : History) (event : Event) : History :=
  if answer cache event = some .noContent then
    match event with
    | .request number (.upload reservation contentRange body) _ _ =>
        if number = index ∧ reservation = id then
          { history with uploads := history.uploads ++
            (parseContentRange contentRange).toOption.toList.map fun range =>
              (range.1, body.chunks.flatten) }
        else history
    | .request number (.commit reservation _) _ _ =>
        if number = index ∧ reservation = id then
          { history with archives := history.archives ++
            ((reservationOf cache index id).filter (!·.committed)).toList.map (·.content) }
        else history
    | _ => history
  else history

/-- The machine, with the history of one reservation of one service beside it. -/
def watch (watched : Cache × History) (event : Event) : Cache × History :=
  (step watched.1 event, watched.2.record index id watched.1 event)

/-- Where the recorded ranges end. -/
def rangesEnd (ranges : List (Nat × Nat)) : Nat := (ranges.map (·.2 + 1)).foldr max 0

/-- An upload is received whole, or what it writes before it fails is there already. -/
def UploadSpared (limits : CacheLimits) (reservation : Reservation)
    (contentRange : Option String) (body : Body) : Prop :=
  ∀ range, parseContentRange contentRange = .ok range → range.2 < limits.maximumEntryBytes →
    reservation.committed = false →
    (body.aborted = none ∧ body.chunks.flatten.length = range.2 - range.1 + 1 ∧
      range.2 - range.1 + 1 ≤ u64Max) ∨
    (acceptedChunks (range.2 - range.1 + 1) 0 body.chunks).flatten = [] ∨
    range.1 ≤ reservation.content.length ∧
      (acceptedChunks (range.2 - range.1 + 1) 0 body.chunks).flatten <+:
        reservation.content.drop range.1

/-- No file operation of the commit fails after the archive has been moved, and a commit of
what is committed names the size again. -/
def CommitSpared (reservation : Reservation) (ops : List FileOp) (size : Nat)
    (ending : Ending) : Prop :=
  (reservation.committed = true → size = rangesEnd reservation.ranges) ∧
    ∀ after cut text, ending = .fails after cut text → after < ops.length →
      (ops.take after).any (·.isMoveArchive) = false

/-- No process stops, and every upload and every commit is spared. -/
def Spared (cache : Cache) : Event → Prop
  | .start .. => True
  | .request index request readings ending =>
      ending.isStop = false ∧ ∀ service ∈ cache.services[index]?,
        (∀ id contentRange body, request = .upload id contentRange body →
          ∀ reservation ∈ service.reservation? id,
            UploadSpared service.limits reservation contentRange body) ∧
        ∀ id size, request = .commit id size → ∀ reservation ∈ service.reservation? id,
          CommitSpared reservation (plan service cache.root readings request).ops size ending

instance decidableUploadSpared (limits : CacheLimits) (reservation : Reservation)
    (contentRange : Option String) (body : Body) :
    Decidable (UploadSpared limits reservation contentRange body) :=
  match parsed : parseContentRange contentRange with
  | .error _ => isTrue fun range isRange => by
      rw [parsed] at isRange
      cases isRange
  | .ok range => decidable_of_iff (range.2 < limits.maximumEntryBytes →
      reservation.committed = false → _ ∨ _ ∨ _ ∧ _)
    ⟨fun spared other isRange => by
        rw [parsed] at isRange
        cases isRange
        exact spared,
      fun spared => spared range parsed⟩

instance decidableCommitSpared (reservation : Reservation) (ops : List FileOp) (size : Nat) :
    ∀ ending, Decidable (CommitSpared reservation ops size ending)
  | .fails after cut text => decidable_of_iff ((reservation.committed = true →
      size = rangesEnd reservation.ranges) ∧ (after < ops.length →
        (ops.take after).any (·.isMoveArchive) = false))
    ⟨fun spared => ⟨spared.1, by
        rintro _ _ _ same
        cases same
        exact spared.2⟩,
      fun spared => ⟨spared.1, spared.2 after cut text rfl⟩⟩
  | .complete | .stops .. | .abandons .. => decidable_of_iff (reservation.committed = true →
      size = rangesEnd reservation.ranges)
    ⟨fun spared => ⟨spared, (fun _ _ _ same => nomatch same)⟩, fun spared => spared.1⟩

instance decidableSpared (cache : Cache) : ∀ event, Decidable (Spared cache event)
  | .start .. => isTrue trivial
  | .request index (.upload id contentRange body) readings ending =>
      decidable_of_iff (ending.isStop = false ∧ ∀ service ∈ cache.services[index]?,
        ∀ reservation ∈ service.reservation? id,
          UploadSpared service.limits reservation contentRange body)
      (and_congr_right' (forall₂_congr fun service _ =>
        ⟨fun spared => ⟨(by rintro _ _ _ ⟨⟩; exact spared), (fun _ _ same => nomatch same)⟩,
          fun spared => spared.1 id contentRange body rfl⟩))
  | .request index (.commit id size) readings ending =>
      decidable_of_iff (ending.isStop = false ∧ ∀ service ∈ cache.services[index]?,
        ∀ reservation ∈ service.reservation? id, CommitSpared reservation
          (plan service cache.root readings (.commit id size)).ops size ending)
      (and_congr_right' (forall₂_congr fun service _ =>
        ⟨fun spared => ⟨(fun _ _ _ same => nomatch same), (by rintro _ _ ⟨⟩; exact spared)⟩,
          fun spared => spared.2 id size rfl⟩))
  | .request _ (.lookup ..) _ ending | .request _ (.list _) _ ending
  | .request _ (.reserve ..) _ ending =>
      decidable_of_iff (ending.isStop = false)
        ⟨fun runs => ⟨runs, fun _ _ =>
            ⟨(fun _ _ _ same => nomatch same), (fun _ _ same => nomatch same)⟩⟩,
          fun spared => spared.1⟩

end Histories

/-! ### The invariant -/

/-- A committed reservation has published an archive of its uploads. -/
structure Published (uploads : List (Nat × Bytes)) (archive : Bytes) (size : Nat) : Prop where
  length : archive.length = size
  covered : ∀ position < size, (Patches.latest uploads position).isSome = true
  bytes : ∀ position < size, archive[position]? = Patches.latest uploads position

/-- The file of a reservation is what its successful uploads make, and its ranges are theirs. -/
structure Faithful (reservation : Reservation) (history : History) : Prop where
  ranges : reservation.ranges =
    history.uploads.map fun upload => (upload.1, upload.1 + upload.2.length - 1)
  filled : ∀ upload ∈ history.uploads, upload.2 ≠ []
  content : reservation.committed = false →
    reservation.content = Patches.replay 0 history.uploads
  published : reservation.committed = true → ∃ archive ∈ history.archives,
    Published history.uploads archive (rangesEnd reservation.ranges)

theorem rangesEnd_le_iff {ranges : List (Nat × Nat)} {size : Nat} :
    rangesEnd ranges ≤ size ↔ ∀ range ∈ ranges, range.2 + 1 ≤ size := by
  induction ranges with
  | nil => simp [rangesEnd]
  | cons range ranges inductionHypothesis =>
      rw [rangesEnd, List.map_cons, List.foldr_cons, Nat.max_le]
      rw [rangesEnd] at inductionHypothesis
      rw [inductionHypothesis]
      simp

section Faithfulness

variable {reservation : Reservation} {history : History} {size : Nat}

theorem Faithful.fresh (key version : String) :
    Faithful { key := key, version := version, upload := none, ranges := [], committed := false }
      {} :=
  ⟨rfl, (fun _ member => by cases member), fun _ => rfl, fun closed => by cases closed⟩

/-- Ranges that cover are uploads that cover. -/
theorem Faithful.covered (faithful : Faithful reservation history) {position : Nat}
    (covered : ∃ range ∈ reservation.ranges, range.1 ≤ position ∧ position ≤ range.2) :
    (Patches.latest history.uploads position).isSome = true := by
  obtain ⟨range, member, above, below⟩ := covered
  rw [faithful.ranges] at member
  obtain ⟨upload, uploaded, rfl⟩ := List.mem_map.mp member
  have long := List.length_pos_iff.mpr (faithful.filled upload uploaded)
  refine Patches.latest_isSome_iff.mpr ⟨upload, uploaded, above, ?_⟩
  dsimp only at below
  omega

theorem Faithful.length_le_iff (faithful : Faithful reservation history)
    (isOpen : reservation.committed = false) :
    reservation.content.length ≤ size ↔ rangesEnd reservation.ranges ≤ size := by
  rw [faithful.content isOpen, Patches.length_replay_le_iff 0 faithful.filled, rangesEnd_le_iff,
    faithful.ranges]
  simp only [List.forall_mem_map]
  refine forall₂_congr fun upload uploaded => ?_
  have long := List.length_pos_iff.mpr (faithful.filled upload uploaded)
  omega

/-- The file ends where the ranges do. -/
theorem Faithful.length (faithful : Faithful reservation history)
    (isOpen : reservation.committed = false) :
    reservation.content.length = rangesEnd reservation.ranges :=
  Nat.le_antisymm ((faithful.length_le_iff isOpen).mpr (Nat.le_refl _))
    ((faithful.length_le_iff isOpen).mp (Nat.le_refl _))

/-- A file that is covered and has the size is what a commit may publish. -/
theorem Faithful.publishes (faithful : Faithful reservation history)
    (isOpen : reservation.committed = false)
    (covered : rangesCover reservation.ranges size = true)
    (length : reservation.content.length = size) :
    Published history.uploads reservation.content size := by
  have inside : ∀ position < size, (Patches.latest history.uploads position).isSome = true :=
    fun position below => faithful.covered (rangesCover_covers covered below)
  refine ⟨length, inside, fun position below => ?_⟩
  obtain ⟨byte, found⟩ := Option.isSome_iff_exists.mp (inside position below)
  rw [found, faithful.content isOpen]
  exact Patches.getElem?_replay 0 found

/-- A successful upload of a body that fills its range. -/
theorem Faithful.upload {start last : Nat} {bytes : Bytes}
    (faithful : Faithful reservation history) (isOpen : reservation.committed = false)
    (length : bytes.length = last - start + 1) (ordered : start ≤ last) :
    Faithful { reservation with
        upload := some (writeAt reservation.content start bytes)
        ranges := reservation.ranges ++ [(start, last)] }
      { history with uploads := history.uploads ++ [(start, bytes)] } := by
  refine ⟨?_, ?_, fun _ => ?_, fun closed => ?_⟩
  · rw [List.map_append, faithful.ranges]
    simp only [List.map_cons, List.map_nil]
    rw [show start + bytes.length - 1 = last by omega]
  · intro upload member
    rcases List.mem_append.mp member with old | new
    · exact faithful.filled upload old
    · rw [List.mem_singleton.mp new]
      refine List.length_pos_iff.mp ?_
      dsimp only
      omega
  · rw [Patches.replay_concat, ← faithful.content isOpen]
    rfl
  · rw [show reservation.committed = true from closed] at isOpen
    cases isOpen

end Faithfulness

/-! ### One commit -/

section Commits

variable [Sha256] {service : CacheService} {root : List Directory} {readings : Readings}
  {reservation : Reservation} {size : Nat}

/-- A commit that answers with success has nothing to do, or passes its checks. -/
theorem commitReservation_accepts
    (accepts : (commitReservation service root readings reservation size).answer = .noContent) :
    reservation.committed = true ∨ reservation.committed = false ∧
      rangesCover reservation.ranges size = true ∧
      reservation.upload = some reservation.content ∧ reservation.content.length = size := by
  rcases commitReservation_cases reservation size with
    ⟨committed, -⟩ | ⟨error, same⟩ | ⟨content, isOpen, covered, uploaded, length, -⟩
  · exact .inl committed
  · rw [same] at accepts
    cases accepts
  · have isContent : reservation.content = content := by
      rw [Reservation.content, uploaded]
      rfl
    rw [← isContent] at uploaded length
    exact .inr ⟨isOpen, covered, uploaded, length⟩

/-- A plan that ends in an error does not touch the upload. -/
theorem commitReservation_unmoved
    (refuses : (commitReservation service root readings reservation size).answer ≠ .noContent) :
    (commitReservation service root readings reservation size).ops.any (·.isMoveArchive) =
      false := by
  rcases commitReservation_cases reservation size with
    ⟨-, same⟩ | ⟨error, same⟩ | ⟨content, -, -, -, -, ⟨-, same⟩ | ⟨-, same⟩⟩
  · exact absurd (by rw [same]) refuses
  · rw [same]
    rfl
  · rw [same]
    exact unmoved_removals _
  · rw [same] at refuses ⊢
    dsimp only at refuses ⊢
    rw [List.any_append, unmoved_removals, Bool.false_or]
    rcases publish_cases reservation content size with
      ⟨error, -, failed⟩ | ⟨entries, -, ⟨error, failed, -⟩ | ⟨-, -, -, done⟩⟩
    · rw [failed]
      rfl
    · rw [failed]
      exact unmoved_removals _
    · exact absurd (by rw [done]) refuses

omit [Sha256] in
theorem any_take_of_any {ops : List FileOp} {after : Nat}
    (unmoved : ops.any (·.isMoveArchive) = false) :
    (ops.take after).any (·.isMoveArchive) = false :=
  List.any_eq_false.mpr fun op member =>
    List.any_eq_false.mp unmoved op (List.mem_of_mem_take member)

omit [Sha256] in
/-- A request that is answered with success has done all its operations. -/
theorem answerOf_eq_some {plan : Plan} {ending : Ending} {answered : Answer}
    (answers : ending.answerOf plan = some answered)
    (succeeds : ∀ error, answered ≠ .failed error) :
    plan.answer = answered ∧ ending.succeeding plan.ops = plan.ops := by
  cases ending with
  | complete => exact ⟨Option.some.inj answers, rfl⟩
  | fails after cut text =>
      dsimp only [Ending.answerOf] at answers
      by_cases within : after < plan.ops.length
      · rw [if_pos within] at answers
        exact absurd (Option.some.inj answers).symm (succeeds _)
      · rw [if_neg within] at answers
        exact ⟨Option.some.inj answers, List.take_of_length_le (Nat.not_lt.mp within)⟩
  | stops | abandons => cases answers

/-- A commit that is spared and does not succeed leaves the upload. -/
theorem unmoved_of_spared {ending : Ending} (running : ending.isStop = false)
    (spared : CommitSpared reservation
      (commitReservation service root readings reservation size).ops size ending)
    (refuses : ending.answerOf (commitReservation service root readings reservation size) ≠
      some .noContent) :
    (ending.succeeding (commitReservation service root readings reservation size).ops).any
      (·.isMoveArchive) = false := by
  cases ending with
  | complete =>
      exact commitReservation_unmoved fun accepts => refuses (congrArg some accepts)
  | fails after cut text =>
      by_cases within : after <
          (commitReservation service root readings reservation size).ops.length
      · exact spared.2 after cut text rfl within
      · refine any_take_of_any (commitReservation_unmoved fun accepts => refuses ?_)
        rw [Ending.answerOf, if_neg within, accepts]
  | stops | abandons => cases running

/-- A commit of a reservation and the archive that its history takes over. -/
theorem Faithful.commit {history : History} {ending : Ending}
    (faithful : Faithful reservation history) (running : ending.isStop = false)
    (spared : CommitSpared reservation
      (commitReservation service root readings reservation size).ops size ending) :
    Faithful
      (settle reservation
        (ending.succeeding (commitReservation service root readings reservation size).ops)
        (ending.answerOf (commitReservation service root readings reservation size)))
      (if ending.answerOf (commitReservation service root readings reservation size) =
          some .noContent then
        { history with archives := history.archives ++
          ((some reservation).filter (!·.committed)).toList.map (·.content) }
      else history) := by
  by_cases accepts : ending.answerOf (commitReservation service root readings reservation size) =
      some .noContent
  · rw [if_pos accepts]
    have accepted := (answerOf_eq_some accepts fun error same => by cases same).1
    refine ⟨faithful.ranges, faithful.filled, fun isOpen => ?_, fun _ => ?_⟩
    · simp [settle, accepts] at isOpen
    · rcases commitReservation_accepts accepted with committed | ⟨isOpen, covered, -, length⟩
      · obtain ⟨archive, member, published⟩ := faithful.published committed
        exact ⟨archive, List.mem_append_left _ member, published⟩
      · refine ⟨reservation.content, ?_, ?_⟩
        · simp [Option.filter, isOpen]
        · have isEnd : rangesEnd (settle reservation (ending.succeeding
              (commitReservation service root readings reservation size).ops)
              (ending.answerOf (commitReservation service root readings reservation size))).ranges =
              size := (faithful.length isOpen).symm.trans length
          rw [isEnd]
          exact faithful.publishes isOpen covered length
  · rw [if_neg accepts]
    have unmoved := unmoved_of_spared running spared accepts
    have same : settle reservation
        (ending.succeeding (commitReservation service root readings reservation size).ops)
        (ending.answerOf (commitReservation service root readings reservation size)) =
          reservation := by
      rw [settle, unmoved]
      simp [accepts]
    rw [same]
    exact faithful

end Commits

/-! ### Every request -/

section Requests

variable [Sha256] {index id : Nat} {cache : Cache} {history : History} {service : CacheService}
  {readings : Readings} {ending : Ending}

/-- What one service has of the reservation, against the history. -/
structure Follows (service : CacheService) (id : Nat) (history : History) : Prop where
  bounded : ∀ entry ∈ service.reservations, entry.1 < service.nextReservation
  absent : service.reservation? id = none → history = {}
  faithful : ∀ reservation, service.reservation? id = some reservation →
    Faithful reservation history

omit [Sha256] in
/-- Another reservation of the service is set. -/
theorem Follows.setOther {number : Nat} {reservation : Reservation}
    (follows : Follows service id history)
    (found : (service.reservation? number).isSome = true) (apart : id ≠ number) :
    Follows (service.setReservation number reservation) id history := by
  have same : (service.setReservation number reservation).reservation? id =
      service.reservation? id := by
    rw [reservation?_setReservation found, if_neg apart]
  refine ⟨setReservation_keys follows.bounded found, ?_, ?_⟩
  · rw [same]
    exact follows.absent
  · rw [same]
    exact follows.faithful

omit [Sha256] in
theorem Follows.setOwn {reservation : Reservation} {later : History}
    (follows : Follows service id history)
    (found : (service.reservation? id).isSome = true) (faithful : Faithful reservation later) :
    Follows (service.setReservation id reservation) id later := by
  have same : (service.setReservation id reservation).reservation? id = some reservation := by
    rw [reservation?_setReservation found, if_pos rfl]
  refine ⟨setReservation_keys follows.bounded found, fun none => ?_, fun other isOther => ?_⟩
  · rw [same] at none
    cases none
  · rw [same] at isOther
    rw [← Option.some.inj isOther]
    exact faithful

omit [Sha256] in
theorem Follows.reserve {key version : String} (follows : Follows service id history) :
    Follows { service with
      nextReservation := service.nextReservation + 1
      reservations := service.reservations ++ [(service.nextReservation,
        { key := key, version := version, upload := none, ranges := [], committed := false })] }
      id history := by
  have fresh := fresh_of_bounded follows.bounded
  refine ⟨fun entry member => ?_, fun none => ?_, fun reservation found => ?_⟩
  · rcases List.mem_append.mp member with old | new
    · exact (follows.bounded entry old).trans (Nat.lt_succ_self _)
    · rw [List.mem_singleton.mp new]
      exact Nat.lt_succ_self _
  · rw [CacheService.reservation?, List.lookup_append, Option.or_eq_none_iff] at none
    exact follows.absent none.1
  · rw [CacheService.reservation?, List.lookup_append, Option.or_eq_some_iff] at found
    rcases found with old | ⟨missing, new⟩
    · exact follows.faithful reservation old
    · rw [follows.absent missing]
      by_cases isNew : id = service.nextReservation
      · rw [isNew, List.lookup_cons, beq_self_eq_true] at new
        rw [← Option.some.inj new]
        exact .fresh key version
      · rw [List.lookup_cons, show (id == service.nextReservation) = false by simpa using isNew]
          at new
        cases new

omit [Sha256] in
theorem answerOf_upload (running : ending.isStop = false) (answered : Answer) :
    ending.answerOf ⟨[], answered⟩ = some answered := by
  cases ending with
  | complete | fails => rfl
  | stops | abandons => cases running

omit [Sha256] in
/-- An upload that is spared changes the file only if it succeeds. -/
theorem Faithful.uploadRange {reservation : Reservation} {contentRange : Option String}
    {range : Nat × Nat} {body : Body} {limits : CacheLimits}
    (faithful : Faithful reservation history) (parsed : parseContentRange contentRange = .ok range)
    (small : range.2 < limits.maximumEntryBytes)
    (spared : UploadSpared limits reservation contentRange body) :
    Faithful (uploadRange reservation range.1 range.2 body).1
      (if (CacheStore.uploadRange reservation range.1 range.2 body).2 = .noContent then
        { history with uploads := history.uploads ++ [(range.1, body.chunks.flatten)] }
      else history) := by
  rcases uploadRange_cases reservation range.1 range.2 body with
    ⟨error, same, -⟩ | ⟨error, same, isOpen, short⟩ | ⟨same, isOpen, length⟩
  · rw [same, if_neg (fun isDone => by cases isDone)]
    exact faithful
  · rw [same, if_neg (fun isDone => by cases isDone)]
    have unchanged : writeAt reservation.content range.1
        (acceptedChunks (range.2 - range.1 + 1) 0 body.chunks).flatten = reservation.content :=
      Patches.patch_eq_self_iff.mpr ((spared range parsed small isOpen).resolve_left short)
    rw [unchanged]
    exact ⟨faithful.ranges, faithful.filled, faithful.content, faithful.published⟩
  · rw [same, if_pos rfl]
    exact faithful.upload isOpen length (parseContentRange_ordered parsed)

/-- A request to the service of the reservation. -/
theorem Follows.request {request : Request} (found : cache.services[index]? = some service)
    (follows : Follows service id history)
    (spared : Spared cache (.request index request readings ending)) :
    Follows (serviceAfter service request
        (ending.succeeding (plan service cache.root readings request).ops)
        (ending.answerOf (plan service cache.root readings request))) id
      (history.record index id cache (.request index request readings ending)) := by
  obtain ⟨running, spared⟩ := spared
  obtain ⟨uploadSpared, commitSpared⟩ := spared service found
  have answered : answer cache (.request index request readings ending) =
      ending.answerOf (plan service cache.root readings request) := by
    rw [answer, found]
    rfl
  unfold History.record
  rw [answered]
  cases request with
  | lookup keys version =>
      rw [ite_self]
      exact follows
  | list key =>
      rw [ite_self]
      exact follows
  | reserve key version cacheSize =>
      rw [ite_self]
      dsimp only [serviceAfter]
      split
      · exact follows.reserve
      · exact follows
  | upload number contentRange body =>
      have isAnswer : ending.answerOf (plan service cache.root readings
          (.upload number contentRange body)) = some (uploadChunk service number contentRange
            body).2 := answerOf_upload running _
      rw [isAnswer]
      dsimp only [serviceAfter]
      rcases uploadChunk_cases number contentRange body with
        ⟨error, same⟩ | ⟨range, reservation, parsed, small, there, same⟩
      · rw [same, if_neg (fun isDone => by cases isDone)]
        exact follows
      · have isSome : (service.reservation? number).isSome = true := by
          rw [there]
          rfl
        rw [same]
        dsimp only
        by_cases mine : number = id
        · subst mine
          have faithful := (follows.faithful reservation there).uploadRange parsed small
            (uploadSpared number contentRange body rfl reservation there)
          refine follows.setOwn isSome ?_
          simpa [parsed, Except.toOption] using faithful
        · simp only [mine, and_false, if_false, ite_self]
          exact follows.setOther isSome (Ne.symm mine)
  | commit number size =>
      have planned : plan service cache.root readings (.commit number size) =
          commitCache service cache.root readings number size := rfl
      rw [planned] at commitSpared ⊢
      dsimp only [serviceAfter]
      cases there : service.reservation? number with
      | none =>
          dsimp only
          rcases commitCache_cases number size with ⟨error, same⟩ | ⟨reservation, found', -⟩
          · rw [same, if_neg]
            · exact follows
            · intro accepts
              cases (answerOf_eq_some accepts fun error same => by cases same).1
          · rw [there] at found'
            cases found'
      | some reservation =>
          have isSome : (service.reservation? number).isSome = true := by
            rw [there]
            rfl
          dsimp only
          have spare := commitSpared number size rfl reservation there
          by_cases mine : number = id
          · subst mine
            have isReservation : reservationOf cache index number = some reservation := by
              rw [reservationOf, found]
              exact there
            rw [isReservation]
            simp only [and_self, if_true]
            refine follows.setOwn isSome ?_
            have faithful := follows.faithful reservation there
            rcases commitCache_cases number size with ⟨error, same⟩ | ⟨other, isOther, -, -, same⟩
            · -- The request is refused and has no operation.
              have refused : ending.answerOf (fail error) ≠ some .noContent := by
                intro accepts
                cases (answerOf_eq_some accepts fun error same => by cases same).1
              have none : ending.succeeding (fail error).ops = [] := by
                cases ending with
                | complete => rfl
                | fails | stops | abandons => exact List.take_nil
              rw [same, if_neg refused, none]
              simpa [settle, refused] using faithful
            · rw [there] at isOther
              cases isOther
              rw [same] at spare ⊢
              exact faithful.commit running spare
          · simp only [mine, and_false, if_false, ite_self]
            exact follows.setOther isSome (Ne.symm mine)

/-- A request that fails leaves the bytes, the ranges and the reservation open. -/
theorem kept_of_failed {request : Request} {error : CacheHttpError} {reservation : Reservation}
    (found : cache.services[index]? = some service)
    (there : service.reservation? id = some reservation)
    (ours : (∃ contentRange body, request = .upload id contentRange body) ∨
      ∃ size, request = .commit id size)
    (failed : ending.answerOf (plan service cache.root readings request) = some (.failed error))
    (spared : Spared cache (.request index request readings ending)) :
    ∃ left, (serviceAfter service request
        (ending.succeeding (plan service cache.root readings request).ops)
        (ending.answerOf (plan service cache.root readings request))).reservation? id = some left ∧
      left.content = reservation.content ∧ left.ranges = reservation.ranges ∧
      left.committed = reservation.committed := by
  obtain ⟨running, spared⟩ := spared
  obtain ⟨uploadSpared, commitSpared⟩ := spared service found
  have isSome : (service.reservation? id).isSome = true := by
    rw [there]
    rfl
  rw [failed]
  rcases ours with ⟨contentRange, body, rfl⟩ | ⟨size, rfl⟩
  · have isAnswer : (uploadChunk service id contentRange body).2 = .failed error := by
      rw [plan, answerOf_upload running] at failed
      exact Option.some.inj failed
    dsimp only [serviceAfter]
    rcases uploadChunk_cases id contentRange body with
      ⟨other, same⟩ | ⟨range, found', parsed, small, isFound, same⟩
    · rw [same]
      exact ⟨reservation, there, rfl, rfl, rfl⟩
    · rw [there] at isFound
      cases isFound
      rw [same] at isAnswer ⊢
      rw [reservation?_setReservation isSome, if_pos rfl]
      refine ⟨_, rfl, ?_⟩
      rcases uploadRange_cases reservation range.1 range.2 body with
        ⟨_, done, -⟩ | ⟨_, done, isOpen, short⟩ | ⟨done, -, -⟩
      · rw [done]
        exact ⟨rfl, rfl, rfl⟩
      · rw [done]
        refine ⟨?_, rfl, rfl⟩
        exact Patches.patch_eq_self_iff.mpr
          ((uploadSpared id contentRange body rfl reservation there range parsed small
            isOpen).resolve_left short)
      · rw [done] at isAnswer
        cases isAnswer
  · dsimp only [serviceAfter]
    rw [there]
    dsimp only
    rw [reservation?_setReservation isSome, if_pos rfl]
    refine ⟨_, rfl, ?_⟩
    have unmoved : (ending.succeeding (plan service cache.root readings (.commit id size)).ops).any
        (·.isMoveArchive) = false := by
      have spare := commitSpared id size rfl reservation there
      have planned : plan service cache.root readings (.commit id size) =
          commitCache service cache.root readings id size := rfl
      rw [planned] at spare failed ⊢
      rcases commitCache_cases id size with ⟨refusal, same⟩ | ⟨other, isOther, -, -, same⟩
      · rw [same]
        cases ending with
        | complete => rfl
        | fails | stops | abandons => exact any_take_of_any rfl
      · rw [there] at isOther
        cases isOther
        rw [same] at spare failed ⊢
        refine unmoved_of_spared running spare fun accepts => ?_
        rw [accepts] at failed
        cases failed
    refine ⟨?_, rfl, ?_⟩
    · rw [Reservation.content, settle, unmoved]
      rfl
    · simp [settle]

/-- A commit that publishes adds the directory of the entry, with the upload as its archive. -/
theorem commit_publishes {reservation : Reservation} {size : Nat}
    (isOpen : reservation.committed = false)
    (accepts : (commitReservation service cache.root readings reservation size).answer =
      .noContent) :
    ∃ cleared, applyAll cache.root
        (commitReservation service cache.root readings reservation size).ops =
      cleared ++ [{ scopeRoot := service.scopeRoot
                    name := finalName reservation
                    metadata := some (.written (storedCache service readings reservation size))
                    archive := some reservation.content }] := by
  rcases commitReservation_cases reservation size with
    ⟨closed, -⟩ | ⟨error, same⟩ | ⟨content, -, -, uploaded, -, ⟨-, same⟩ | ⟨-, same⟩⟩
  · rw [isOpen] at closed
    cases closed
  · rw [same] at accepts
    cases accepts
  · rw [same] at accepts
    cases accepts
  · rw [same] at accepts ⊢
    rcases publish_cases reservation content size with
      ⟨error, -, failed⟩ | ⟨entries, -, ⟨error, failed, -⟩ | ⟨-, -, vacant, done⟩⟩
    · rw [failed] at accepts
      cases accepts
    · rw [failed] at accepts
      cases accepts
    · rw [done, applyAll_append, applyAll_append, applyAll_publication vacant]
      have isContent : content = reservation.content := by
        rw [Reservation.content, uploaded]
        rfl
      rw [isContent]
      exact ⟨_, rfl⟩

omit [Sha256] in
/-- A request whose operations are all done leaves the root that they make. -/
theorem rootAfter_of_answer {planned : Plan} {answered : Answer}
    (answers : ending.answerOf planned = some answered)
    (succeeds : ∀ error, answered ≠ .failed error) :
    ending.rootAfter cache.root planned.ops = applyAll cache.root planned.ops := by
  cases ending with
  | complete => rfl
  | fails after cut text =>
      dsimp only [Ending.answerOf] at answers
      by_cases within : after < planned.ops.length
      · rw [if_pos within] at answers
        exact absurd (Option.some.inj answers).symm (succeeds _)
      · exact if_neg within
  | stops | abandons => cases answers

end Requests

/-! ### Runs -/

section Runs

variable [Sha256] (index id : Nat)

/-- The history follows the reservation. -/
structure Tracked (watched : Cache × History) : Prop where
  follows : ∀ service, watched.1.services[index]? = some service →
    Follows service id watched.2
  absent : watched.1.services[index]? = none → watched.2 = {}

variable {index id} {watched : Cache × History} {event : Event}

theorem Tracked.step (tracked : Tracked index id watched) (spared : Spared watched.1 event) :
    Tracked index id (watch index id watched event) := by
  obtain ⟨cache, history⟩ := watched
  cases event with
  | start scopeRoot scope mode limits =>
      have same : history.record index id cache (.start scopeRoot scope mode limits) = history :=
        if_neg fun isAnswer => by cases isAnswer
      dsimp only [watch, CacheStore.step]
      rw [same]
      split
      · exact tracked
      · refine ⟨fun service found => ?_, fun none => ?_⟩
        · rw [List.getElem?_append] at found
          split at found
          · exact tracked.follows service found
          · next beyond =>
              rw [tracked.absent (List.getElem?_eq_none (Nat.not_lt.mp beyond))]
              rw [List.mem_singleton.mp (List.mem_of_getElem? found)]
              exact ⟨(fun _ member => by cases member), fun _ => rfl,
                fun _ found => by cases found⟩
        · rw [List.getElem?_append] at none
          split at none
          · exact tracked.absent none
          · next beyond =>
              exact tracked.absent (List.getElem?_eq_none (Nat.not_lt.mp beyond))
  | request number request readings ending =>
      have running := spared.1
      dsimp only [watch, CacheStore.step]
      cases found : cache.services[number]? with
      | none =>
          have same : history.record index id cache (.request number request readings ending) =
              history := by
            refine if_neg fun isAnswer => ?_
            rw [answer, found] at isAnswer
            cases isAnswer
          rw [same]
          exact tracked
      | some service =>
          dsimp only
          rw [running, if_neg Bool.false_ne_true]
          by_cases mine : number = index
          · subst mine
            have inside := (List.getElem?_eq_some_iff.mp found).1
            refine ⟨fun later isLater => ?_, fun none => ?_⟩
            · rw [List.getElem?_set_self inside] at isLater
              rw [← Option.some.inj isLater]
              exact (tracked.follows service found).request found spared
            · rw [List.getElem?_set_self inside] at none
              cases none
          · have same : history.record index id cache (.request number request readings ending) =
                history := by
              unfold History.record
              cases request <;> simp [mine]
            rw [same]
            refine ⟨fun later isLater => ?_, fun none => ?_⟩
            · rw [List.getElem?_set_ne mine] at isLater
              exact tracked.follows later isLater
            · rw [List.getElem?_set_ne mine] at none
              exact tracked.absent none

/-- The history follows the reservation over a spared run. -/
theorem Tracked.run {events : List Event} (tracked : Tracked index id watched)
    (spared : Along CacheStore.step Spared watched.1 events) :
    Tracked index id (Machine.run (watch index id) watched events) ∧
      (Machine.run (watch index id) watched events).1 =
        Machine.run CacheStore.step watched.1 events := by
  induction events generalizing watched with
  | nil => exact ⟨tracked, rfl⟩
  | cons event events inductionHypothesis =>
      exact inductionHypothesis (tracked.step spared.1) spared.2

omit [Sha256] in
theorem tracked_initial : Tracked index id ({}, {}) :=
  ⟨(fun service found => by cases found), fun _ => rfl⟩

end Runs

/-- In every run in which no process stops, no upload leaves in the file what it did not
complete, no commit fails behind the move of the archive and none of what is committed names
another size: the file of an open reservation is what its successful uploads make of it; a
request that fails changes neither bytes nor ranges; a commit succeeds only if the uploads
cover its size, and publishes an archive of this size in which each byte is that of the last
upload over it; and a commit whose uploads cover its size and end there succeeds whenever
the store takes the entry. -/
theorem uploads_are_atomic [Sha256] (index id : Nat) (events : List Event) (event : Event)
    (spared : Along step Spared {} (events ++ [event])) :
    let cache := run step {} events
    let history := (run (watch index id) ({}, {}) events).2
    let after := step cache event
    let later := history.record index id cache event
    (∀ reservation, reservationOf cache index id = some reservation →
      reservation.committed = false →
      reservation.content = Patches.replay 0 history.uploads ∧ reservation.ranges =
        history.uploads.map fun upload => (upload.1, upload.1 + upload.2.length - 1)) ∧
    (∀ request readings ending error reservation,
      event = .request index request readings ending →
      ((∃ contentRange body, request = .upload id contentRange body) ∨
        ∃ size, request = .commit id size) →
      answer cache event = some (.failed error) →
      reservationOf cache index id = some reservation →
      ∃ left, reservationOf after index id = some left ∧
        left.content = reservation.content ∧ left.ranges = reservation.ranges ∧
        left.committed = reservation.committed) ∧
    (∀ size readings ending, event = .request index (.commit id size) readings ending →
      answer cache event = some .noContent →
      ∃ archive ∈ later.archives, Published later.uploads archive size ∧
        ∀ service reservation, cache.services[index]? = some service →
          service.reservation? id = some reservation → reservation.committed = false →
          ∃ directory ∈ after.root,
            directory.isAt service.scopeRoot (finalName reservation) = true ∧
            directory.archive = some archive) ∧
    ∀ service reservation size readings, cache.services[index]? = some service →
      service.reservation? id = some reservation → reservation.committed = false →
      service.mode.allowsWrite = true → 0 < size → size ≤ service.limits.maximumEntryBytes →
      size ≤ u64Max →
      (∀ position < size, (Patches.latest history.uploads position).isSome = true) →
      (∀ upload ∈ history.uploads, upload.1 + upload.2.length ≤ size) →
      (retained service cache.root readings).any
        (·.isFor reservation.key reservation.version) = false →
      (publish service (applyAll cache.root (removals (discarded service cache.root readings)))
        readings reservation reservation.content size).answer = .noContent →
      answer cache (.request index (.commit id size) readings .complete) = some .noContent := by
  intro cache history after later
  obtain ⟨first, last⟩ := Along.append.mp spared
  obtain ⟨tracked, isCache⟩ := (@tracked_initial index id).run first
  have now : Spared cache event := last.1
  have follows : ∀ service, cache.services[index]? = some service →
      Follows service id history := by
    intro service found
    refine tracked.follows service ?_
    rw [isCache]
    exact found
  have known : ∀ reservation, reservationOf cache index id = some reservation →
      ∃ service, cache.services[index]? = some service ∧
        service.reservation? id = some reservation :=
    fun reservation there => Option.bind_eq_some_iff.mp there
  refine ⟨?_, ?_, ?_, ?_⟩
  · intro reservation there isOpen
    obtain ⟨service, found, there⟩ := known reservation there
    have faithful := (follows service found).faithful reservation there
    exact ⟨faithful.content isOpen, faithful.ranges⟩
  · rintro request readings ending error reservation rfl ours failed there
    obtain ⟨service, found, there⟩ := known reservation there
    have answered : answer cache (.request index request readings ending) =
        ending.answerOf (plan service cache.root readings request) := by
      rw [answer, found]
      rfl
    rw [answered] at failed
    obtain ⟨left, isLeft, same⟩ := kept_of_failed found there ours failed now
    refine ⟨left, ?_, same⟩
    have running := now.1
    have inside := (List.getElem?_eq_some_iff.mp found).1
    have isAfter : after.services[index]? = some (serviceAfter service request
        (ending.succeeding (plan service cache.root readings request).ops)
        (ending.answerOf (plan service cache.root readings request))) := by
      dsimp only [after, step]
      rw [found]
      dsimp only
      rw [running, if_neg Bool.false_ne_true, List.getElem?_set_self inside]
    rw [reservationOf, isAfter]
    exact isLeft
  · rintro size readings ending rfl accepts
    have answered := accepts
    obtain ⟨service, found, accepts⟩ := Option.bind_eq_some_iff.mp accepts
    have succeeds : ∀ error, Answer.noContent ≠ .failed error := fun _ same => by cases same
    have planned : plan service cache.root readings (.commit id size) =
        commitCache service cache.root readings id size := rfl
    obtain ⟨reservation, there, positive, -, same⟩ :=
      (commitCache_cases id size).resolve_left (by
        rintro ⟨error, refused⟩
        rw [planned, refused] at accepts
        cases (answerOf_eq_some accepts succeeds).1)
    rw [same] at planned
    have faithful := (follows service found).faithful reservation there
    have spare := (now.2 service found).2 id size rfl reservation there
    have isLater : later = { history with archives := history.archives ++
        ((some reservation).filter (!·.committed)).toList.map (·.content) } := by
      have isReservation : reservationOf cache index id = some reservation := by
        rw [reservationOf, found]
        exact there
      dsimp only [later, History.record]
      rw [if_pos answered, if_pos ⟨rfl, rfl⟩, isReservation]
    have isRoot : after.root = applyAll cache.root
        (commitReservation service cache.root readings reservation size).ops := by
      dsimp only [after, step]
      rw [found]
      dsimp only
      rw [rootAfter_of_answer accepts succeeds, planned]
    have accepted : (commitReservation service cache.root readings reservation size).answer =
        .noContent := by
      rw [← planned]
      exact (answerOf_eq_some accepts succeeds).1
    rw [isLater]
    rcases commitReservation_accepts accepted with committed | ⟨isOpen, covered, -, length⟩
    · obtain ⟨archive, member, published⟩ := faithful.published committed
      rw [← spare.1 committed] at published
      refine ⟨archive, List.mem_append_left _ member, published, ?_⟩
      intro other again isOther isAgain isOpen
      rw [found] at isOther
      cases isOther
      rw [there] at isAgain
      cases isAgain
      rw [committed] at isOpen
      cases isOpen
    · refine ⟨reservation.content, by simp [Option.filter, isOpen],
        faithful.publishes isOpen covered length, ?_⟩
      intro other again isOther isAgain _
      rw [found] at isOther
      cases isOther
      rw [there] at isAgain
      cases isAgain
      obtain ⟨cleared, isMade⟩ := @commit_publishes _ cache service readings reservation size
        isOpen accepted
      rw [isRoot, isMade]
      exact ⟨_, List.mem_append_right _ (List.mem_singleton_self _), by simp [Directory.isAt], rfl⟩
  · intro service reservation size readings found there isOpen writes positive fits small covered
      ends free publishes
    have faithful := (follows service found).faithful reservation there
    have length : reservation.content.length = size := by
      refine Nat.le_antisymm ?_ ?_
      · rw [faithful.content isOpen]
        exact (Patches.length_replay_le_iff 0 faithful.filled).mpr ends
      · obtain ⟨byte, last⟩ := Option.isSome_iff_exists.mp (covered (size - 1) (by omega))
        have inside := (List.getElem?_eq_some_iff.mp (Patches.getElem?_replay 0 last)).1
        rw [← faithful.content isOpen] at inside
        omega
    have uploaded : reservation.upload = some reservation.content := by
      cases isUpload : reservation.upload with
      | none =>
          rw [Reservation.content, isUpload] at length
          exact absurd length (Nat.ne_of_lt positive)
      | some content =>
          rw [Reservation.content, isUpload]
          rfl
    have ranges : rangesCover reservation.ranges size = true := by
      refine rangesCover_of_covers positive small fun position below => ?_
      obtain ⟨upload, member, above, within⟩ :=
        Patches.latest_isSome_iff.mp (covered position below)
      rw [faithful.ranges]
      refine ⟨_, List.mem_map_of_mem member, above, ?_⟩
      dsimp only
      omega
    have accepted := commitCache_publishes writes positive fits there isOpen ranges uploaded length
      free
    rw [answer, found]
    exact congrArg some (accepted.trans publishes)

/-! ### A failed upload -/

namespace UploadSample

scoped instance copiedDigest : Sha256 := ⟨fun value => value⟩

def readings : Readings := { discard := 0, access := 0, evict := 0, store := 0, uuid := "u" }

def request (request : Request) : Event := .request 0 request readings .complete

/-- A reservation with three bytes. -/
def uploaded : List Event :=
  [.start "scope" "refs/heads/main" .write { maximumBytes := 8, maximumEntryBytes := 5 },
    request (.reserve "key" (some "version") none),
    request (.upload 1 (some "bytes 0-2/*") ⟨[[1], [2, 3]], none⟩)]

def commit : Event := request (.commit 1 3)

/-- Two uploads that overlap, and one that fails after a byte that is there already. -/
def overlapping : List Event :=
  [.start "scope" "refs/heads/main" .write { maximumBytes := 8, maximumEntryBytes := 5 },
    request (.reserve "key" (some "version") none),
    request (.upload 1 (some "bytes 0-1/*") ⟨[[1], [2]], none⟩),
    request (.upload 1 (some "bytes 1-2/*") ⟨[[8, 9]], none⟩),
    request (.upload 1 (some "bytes 1-2/*") ⟨[[8]], some "connection reset"⟩)]

theorem overlapping_service : (run step {} overlapping).services =
    [{ scopeRoot := "scope"
       scope := "refs/heads/main"
       mode := .write
       limits := { maximumBytes := 8, maximumEntryBytes := 5 }
       nextReservation := 2
       reservations := [(1, { key := "key", version := "version", upload := some [1, 8, 9]
                              ranges := [(0, 1), (1, 2)], committed := false })] }] := by
  decide

/-- In the archive the byte of the second upload stands over that of the first. -/
theorem commit_publishes_uploads :
    answer (run step {} overlapping) commit = some .noContent ∧
      ∃ archive, Published [(0, [1, 2]), (1, [8, 9])] archive 3 ∧
        ∃ directory ∈ (step (run step {} overlapping) commit).root,
          directory.archive = some archive := by
  have spared : Along step Spared {} (overlapping ++ [commit]) := by decide
  have uploads : (run (watch 0 1) ({}, {}) overlapping).2.uploads = [(0, [1, 2]), (1, [8, 9])] := by
    decide
  obtain ⟨-, -, publishes, accepts⟩ := uploads_are_atomic 0 1 overlapping commit spared
  rw [uploads, overlapping_service] at accepts
  have answered := accepts _ _ 3 readings rfl rfl rfl rfl (by decide) (by decide) (by decide)
    (by decide +kernel) (by decide +kernel) (by decide +kernel) (by decide +kernel)
  obtain ⟨archive, -, published, stored⟩ := publishes 3 readings .complete rfl answered
  have recorded : (History.record 0 1 (run step {} overlapping)
      (run (watch 0 1) ({}, {}) overlapping).2 commit).uploads = [(0, [1, 2]), (1, [8, 9])] := by
    refine Eq.trans ?_ uploads
    unfold History.record
    split <;> rfl
  rw [recorded] at published
  refine ⟨answered, archive, published, ?_⟩
  obtain ⟨directory, member, -, isArchive⟩ := stored _ _
    (by rw [overlapping_service]; rfl) (by rfl) rfl
  exact ⟨directory, member, isArchive⟩

/-- An upload to the same range that ends after one byte fails; the commit publishes the
byte. -/
theorem failed_upload_is_published :
    let short := request (.upload 1 (some "bytes 0-2/*") ⟨[[9]], none⟩)
    let cache := run step {} (uploaded ++ [short])
    answer (run step {} uploaded) short =
        some (.failed ⟨400, "cache chunk body does not match Content-Range"⟩) ∧
      answer cache commit = some .noContent ∧
      (step cache commit).root.map (·.archive) = [some [9, 2, 3]] ∧
      (run (watch 0 1) ({}, {}) (uploaded ++ [short])).2.uploads = [(0, [1, 2, 3])] ∧
      Patches.latest [(0, [1, 2, 3])] 0 = some (1 : UInt8) := by
  decide +kernel

end UploadSample

end GitZero.Agent.CacheStore
