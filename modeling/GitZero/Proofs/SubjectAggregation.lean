/-
Module: GitZero.Proofs.SubjectAggregation
Purpose: When the declaration of artifact subjects is all or nothing, and independent of the
  order of the lines.
Trusted boundary: none
Main exports: merged, AllOrNothing, Traceless, declare_all_or_nothing_iff, StepAllOrNothing,
  step_all_or_nothing_iff, captures_all_or_nothing, conflict_leaves_subjects
-/
import GitZero.Agent.ArtifactSubjects
import GitZero.Lib.Machine
import GitZero.Lib.OrderedMaps
import GitZero.Lib.Outcomes

namespace GitZero.Agent.ArtifactSubjects

open Artifacts (Sha256)
open Expression (Text)
open Machine OrderedMaps Outcomes

/-! ### The extended aggregate -/

/-- The aggregate extended by one subject for each new name. -/
def merged (aggregate : Aggregate) (subjects : List ArtifactSubject) : Aggregate :=
  subjects.foldl (fun aggregate subject => aggregate.insertIfNew subject.name subject) aggregate

/-- No name has two digests. -/
structure Consistent (aggregate : Aggregate) (subjects : List ArtifactSubject) : Prop where
  known : ∀ subject ∈ subjects, ∀ existing, aggregate[subject.name]? = some existing →
    existing.digest = subject.digest
  declared : ∀ one ∈ subjects, ∀ two ∈ subjects, one.name = two.name → one.digest = two.digest

/-- No new name has two kinds. -/
def Uniform (aggregate : Aggregate) (subjects : List ArtifactSubject) : Prop :=
  ∀ one ∈ subjects, ∀ two ∈ subjects, aggregate[one.name]? = none → one.name = two.name →
    one.kind = two.kind

/-- The subject is refused by the aggregate: another digest, or one name too many. -/
def Refused (aggregate : Aggregate) (subject : ArtifactSubject) : Prop :=
  match aggregate[subject.name]? with
  | some existing => existing.digest ≠ subject.digest
  | none => maxArtifactSubjects ≤ aggregate.size

/-- A subject is refused, and only names of the aggregate come before it. -/
def RefusedFirst (aggregate : Aggregate) (subjects : List ArtifactSubject) : Prop :=
  ∃ before subject after, subjects = before ++ subject :: after ∧
    (∀ earlier ∈ before, aggregate[earlier.name]?.isSome) ∧ Refused aggregate subject

/-- The condition under which a declaration leaves all or nothing. -/
def Traceless (aggregate : Aggregate) (subjects : List ArtifactSubject) : Prop :=
  RefusedFirst aggregate subjects ∨
    Consistent aggregate subjects ∧ (merged aggregate subjects).size ≤ maxArtifactSubjects ∧
      Uniform aggregate subjects

section Merged

variable {aggregate : Aggregate} {subject : ArtifactSubject}
  {subjects others : List ArtifactSubject}

theorem getElem?_merged (aggregate : Aggregate) (subjects : List ArtifactSubject) (name : String) :
    (merged aggregate subjects)[name]? =
      (aggregate[name]?).or (subjects.find? fun subject => subject.name = name) := by
  have found := getElem?_foldl_insertIfNew subjects ArtifactSubject.name id aggregate name
  rw [Option.map_id_fun, id_eq] at found
  exact found

theorem insertIfNew_known {existing : ArtifactSubject}
    (known : aggregate[subject.name]? = some existing) :
    aggregate.insertIfNew subject.name subject = aggregate := by
  refine Std.ExtTreeMap.ext_getElem? fun name => ?_
  have found := getElem?_merged aggregate [subject] name
  rw [merged, List.foldl_cons, List.foldl_nil] at found
  rw [found]
  by_cases same : subject.name = name
  · rw [← same, known, Option.some_or]
  · rw [List.find?_cons_of_neg (by simpa using same), List.find?_nil, Option.or_none]

theorem insertIfNew_new (new : aggregate[subject.name]? = none) :
    aggregate.insertIfNew subject.name subject = aggregate.insert subject.name subject := by
  refine Std.ExtTreeMap.ext_getElem? fun name => ?_
  have found := getElem?_merged aggregate [subject] name
  rw [merged, List.foldl_cons, List.foldl_nil] at found
  rw [found]
  by_cases same : subject.name = name
  · subst same
    rw [new, Option.none_or, List.find?_cons_of_pos (by simp), Std.ExtTreeMap.getElem?_insert_self]
  · rw [List.find?_cons_of_neg (by simpa using same), List.find?_nil, Option.or_none,
      getElem?_insert_outside same]

theorem size_insert_new (new : aggregate[subject.name]? = none) :
    (aggregate.insert subject.name subject).size = aggregate.size + 1 := by
  have absent : subject.name ∉ aggregate := by
    rw [Std.ExtTreeMap.mem_iff_isSome_getElem?, new]
    exact Bool.false_ne_true
  rw [Std.ExtTreeMap.size_insert]
  exact if_neg absent

theorem merged_known {existing : ArtifactSubject}
    (known : aggregate[subject.name]? = some existing) :
    merged aggregate (subject :: subjects) = merged aggregate subjects := by
  rw [merged, List.foldl_cons, insertIfNew_known known, merged]

theorem merged_new (new : aggregate[subject.name]? = none) :
    merged aggregate (subject :: subjects) =
      merged (aggregate.insert subject.name subject) subjects := by
  rw [merged, List.foldl_cons, insertIfNew_new new, merged]

theorem size_le_merged (aggregate : Aggregate) (subjects : List ArtifactSubject) :
    aggregate.size ≤ (merged aggregate subjects).size := by
  induction subjects generalizing aggregate with
  | nil => exact le_rfl
  | cons subject subjects inductionHypothesis =>
      cases found : aggregate[subject.name]? with
      | some existing =>
          rw [merged_known found]
          exact inductionHypothesis aggregate
      | none =>
          have later := inductionHypothesis (aggregate.insert subject.name subject)
          rw [size_insert_new found] at later
          rw [merged_new found]
          omega

theorem declared_cons
    (agrees : ∀ other ∈ subjects, subject.name = other.name → subject.digest = other.digest)
    (declared : ∀ one ∈ subjects, ∀ two ∈ subjects, one.name = two.name →
      one.digest = two.digest) :
    ∀ one ∈ subject :: subjects, ∀ two ∈ subject :: subjects, one.name = two.name →
      one.digest = two.digest := by
  intro one first two second name
  rcases List.mem_cons.mp first with rfl | firstLater
  · rcases List.mem_cons.mp second with rfl | secondLater
    · rfl
    · exact agrees two secondLater name
  · rcases List.mem_cons.mp second with rfl | secondLater
    · exact (agrees one firstLater name.symm).symm
    · exact declared one firstLater two secondLater name

theorem Consistent.of_known {existing : ArtifactSubject}
    (known : aggregate[subject.name]? = some existing)
    (same : existing.digest = subject.digest) :
    Consistent aggregate (subject :: subjects) ↔ Consistent aggregate subjects := by
  constructor
  · intro consistent
    exact ⟨fun other member => consistent.known other (List.mem_cons_of_mem _ member),
      fun one first two second => consistent.declared one (List.mem_cons_of_mem _ first) two
        (List.mem_cons_of_mem _ second)⟩
  · intro consistent
    -- A later subject of the name agrees with the aggregate, and so with this one.
    have agrees : ∀ other ∈ subjects, subject.name = other.name →
        subject.digest = other.digest := fun other member name =>
      same.symm.trans (consistent.known other member existing (name ▸ known))
    refine ⟨fun other member found isFound => ?_, ?_⟩
    · rcases List.mem_cons.mp member with rfl | later
      · rw [known] at isFound
        cases isFound
        exact same
      · exact consistent.known other later found isFound
    · exact declared_cons agrees consistent.declared

theorem Consistent.of_new (new : aggregate[subject.name]? = none) :
    Consistent aggregate (subject :: subjects) ↔
      Consistent (aggregate.insert subject.name subject) subjects := by
  have inserted : ∀ name, (aggregate.insert subject.name subject)[name]? =
      if subject.name = name then some subject else aggregate[name]? := by
    intro name
    split
    · next same => rw [← same, Std.ExtTreeMap.getElem?_insert_self]
    · next other => exact getElem?_insert_outside other _ _
  constructor
  · intro consistent
    refine ⟨fun other member found isFound => ?_, fun one first two second =>
      consistent.declared one (List.mem_cons_of_mem _ first) two (List.mem_cons_of_mem _ second)⟩
    rw [inserted] at isFound
    split at isFound
    · next name =>
        cases isFound
        exact consistent.declared _ List.mem_cons_self other (List.mem_cons_of_mem _ member) name
    · exact consistent.known other (List.mem_cons_of_mem _ member) found isFound
  · intro consistent
    have agrees : ∀ other ∈ subjects, subject.name = other.name →
        subject.digest = other.digest := fun other member name =>
      consistent.known other member subject (by rw [inserted, if_pos name])
    refine ⟨fun other member found isFound => ?_, ?_⟩
    · rcases List.mem_cons.mp member with rfl | later
      · rw [new] at isFound
        cases isFound
      · by_cases name : subject.name = other.name
        · rw [← name, new] at isFound
          cases isFound
        · exact consistent.known other later found (by rw [inserted, if_neg name, isFound])
    · exact declared_cons agrees consistent.declared

/-- The order and the repetition of the subjects do not matter where each name has one digest
and one kind. -/
theorem merged_congr (consistent : Consistent aggregate subjects)
    (uniform : Uniform aggregate subjects)
    (same : ∀ subject, subject ∈ others ↔ subject ∈ subjects) :
    merged aggregate others = merged aggregate subjects := by
  refine Std.ExtTreeMap.ext_getElem? fun name => ?_
  rw [getElem?_merged, getElem?_merged]
  cases known : aggregate[name]? with
  | some existing => rw [Option.some_or, Option.some_or]
  | none =>
      rw [Option.none_or, Option.none_or]
      cases found : subjects.find? fun subject => subject.name = name with
      | none =>
          rw [List.find?_eq_none] at found ⊢
          exact fun subject member => found subject ((same subject).mp member)
      | some subject =>
          have isName : subject.name = name := by simpa using List.find?_some found
          have inside := List.mem_of_find?_eq_some found
          cases foundOther : others.find? fun subject => subject.name = name with
          | none =>
              have absent := List.find?_eq_none.mp foundOther subject ((same subject).mpr inside)
              exact absurd isName (by simpa using absent)
          | some other =>
              have otherName : other.name = name := by simpa using List.find?_some foundOther
              have otherInside := (same other).mp (List.mem_of_find?_eq_some foundOther)
              have names := otherName.trans isName.symm
              have digests := consistent.declared other otherInside subject inside names
              have kinds := uniform other otherInside subject inside (otherName ▸ known) names
              cases other
              cases subject
              cases names
              cases digests
              cases kinds
              rfl

theorem Consistent.congr (consistent : Consistent aggregate subjects)
    (same : ∀ subject, subject ∈ others ↔ subject ∈ subjects) : Consistent aggregate others :=
  ⟨fun subject member => consistent.known subject ((same subject).mp member),
    fun one first two second => consistent.declared one ((same one).mp first) two
      ((same two).mp second)⟩

end Merged

/-! ### The insertion -/

section Insertion

variable {added : Nat} {aggregate : Aggregate} {parsed : List (Nat × ArtifactSubject)}
  {capture : ArtifactCapture}

theorem insertSubjects_same {line : Nat} {subject existing : ArtifactSubject}
    (known : aggregate[subject.name]? = some existing)
    (same : existing.digest = subject.digest) :
    insertSubjects added aggregate ((line, subject) :: parsed) =
      insertSubjects added aggregate parsed := by
  simp [insertSubjects, known, same]

theorem insertSubjects_room {line : Nat} {subject : ArtifactSubject}
    (new : aggregate[subject.name]? = none) (room : aggregate.size < maxArtifactSubjects) :
    insertSubjects added aggregate ((line, subject) :: parsed) =
      insertSubjects (added + 1) (aggregate.insert subject.name subject) parsed := by
  simp [insertSubjects, new, room]

theorem insertSubjects_refused (added line : Nat) (parsed : List (Nat × ArtifactSubject))
    {subject : ArtifactSubject} (refused : Refused aggregate subject) :
    ∃ error, insertSubjects added aggregate ((line, subject) :: parsed) =
      (aggregate, .error error) := by
  rw [Refused] at refused
  cases found : aggregate[subject.name]? with
  | some existing =>
      rw [found] at refused
      simp only [insertSubjects, found, if_neg refused]
      exact ⟨_, rfl⟩
  | none =>
      rw [found] at refused
      simp only [insertSubjects, found, ge_iff_le, if_pos refused]
      exact ⟨_, rfl⟩

/-- A subject is known with its digest, new where there is room, or refused. -/
theorem subject_cases (aggregate : Aggregate) (subject : ArtifactSubject) :
    (∃ existing, aggregate[subject.name]? = some existing ∧ existing.digest = subject.digest) ∨
      (aggregate[subject.name]? = none ∧ aggregate.size < maxArtifactSubjects) ∨
      Refused aggregate subject := by
  rw [Refused]
  cases aggregate[subject.name]? with
  | some existing =>
      by_cases same : existing.digest = subject.digest
      · exact .inl ⟨existing, rfl, same⟩
      · exact .inr (.inr same)
  | none =>
      rcases Nat.lt_or_ge aggregate.size maxArtifactSubjects with room | full
      · exact .inr (.inl ⟨rfl, room⟩)
      · exact .inr (.inr full)

/-- Subjects of the aggregate stay. -/
theorem insertSubjects_keeps {name : String} {kept : ArtifactSubject}
    (known : aggregate[name]? = some kept) :
    (insertSubjects added aggregate parsed).1[name]? = some kept := by
  induction parsed generalizing added aggregate with
  | nil => exact known
  | cons declared parsed inductionHypothesis =>
      obtain ⟨line, subject⟩ := declared
      rcases subject_cases aggregate subject with ⟨existing, found, same⟩ | ⟨new, room⟩ | refused
      · rw [insertSubjects_same found same]
        exact inductionHypothesis known
      · rw [insertSubjects_room new room]
        refine inductionHypothesis ?_
        rw [getElem?_insert_outside (fun same => by rw [same, known] at new; cases new)]
        exact known
      · obtain ⟨error, failed⟩ := insertSubjects_refused added line parsed refused
        rw [failed]
        exact known

theorem insertSubjects_eq_ok (bounded : aggregate.size ≤ maxArtifactSubjects)
    (inserted : (insertSubjects added aggregate parsed).2 = .ok capture) :
    Consistent aggregate (parsed.map Prod.snd) ∧
      (merged aggregate (parsed.map Prod.snd)).size ≤ maxArtifactSubjects := by
  induction parsed generalizing added aggregate with
  | nil => exact ⟨⟨List.forall_mem_nil _, List.forall_mem_nil _⟩, bounded⟩
  | cons declared parsed inductionHypothesis =>
      obtain ⟨line, subject⟩ := declared
      rw [List.map_cons]
      rcases subject_cases aggregate subject with ⟨existing, found, same⟩ | ⟨new, room⟩ | refused
      · rw [insertSubjects_same found same] at inserted
        rw [Consistent.of_known found same, merged_known found]
        exact inductionHypothesis bounded inserted
      · rw [insertSubjects_room new room] at inserted
        rw [Consistent.of_new new, merged_new new]
        exact inductionHypothesis (by rw [size_insert_new new]; omega) inserted
      · obtain ⟨error, failed⟩ := insertSubjects_refused added line parsed refused
        rw [failed] at inserted
        cases inserted

theorem insertSubjects_of_consistent (added : Nat)
    (consistent : Consistent aggregate (parsed.map Prod.snd))
    (fits : (merged aggregate (parsed.map Prod.snd)).size ≤ maxArtifactSubjects) :
    insertSubjects added aggregate parsed =
      (merged aggregate (parsed.map Prod.snd), .ok {
        added := added + ((merged aggregate (parsed.map Prod.snd)).size - aggregate.size)
        total := (merged aggregate (parsed.map Prod.snd)).size }) := by
  induction parsed generalizing added aggregate with
  | nil => simp [insertSubjects, merged]
  | cons declared parsed inductionHypothesis =>
      obtain ⟨line, subject⟩ := declared
      rw [List.map_cons] at consistent fits ⊢
      cases found : aggregate[subject.name]? with
      | some existing =>
          have same := consistent.known subject List.mem_cons_self existing found
          rw [Consistent.of_known found same] at consistent
          rw [merged_known found] at fits ⊢
          rw [insertSubjects_same found same]
          exact inductionHypothesis added consistent fits
      | none =>
          have larger := size_le_merged (aggregate.insert subject.name subject)
            (parsed.map Prod.snd)
          rw [size_insert_new found] at larger
          rw [Consistent.of_new found] at consistent
          rw [merged_new found] at fits ⊢
          rw [insertSubjects_room found (by omega), inductionHypothesis (added + 1) consistent fits,
            size_insert_new found]
          have counted : ∀ total, aggregate.size + 1 ≤ total →
              added + 1 + (total - (aggregate.size + 1)) = added + (total - aggregate.size) := by
            omega
          rw [counted _ larger]

/-- A failed insertion leaves no trace where the first subject that changes anything fails. -/
theorem insertSubjects_unchanged {error : String}
    (failed : insertSubjects added aggregate parsed = (aggregate, .error error)) :
    RefusedFirst aggregate (parsed.map Prod.snd) := by
  induction parsed generalizing added with
  | nil => cases failed
  | cons declared parsed inductionHypothesis =>
      obtain ⟨line, subject⟩ := declared
      rw [List.map_cons]
      rcases subject_cases aggregate subject with ⟨existing, found, same⟩ | ⟨new, room⟩ | refused
      · rw [insertSubjects_same found same] at failed
        obtain ⟨before, stopped, after, split, earlier, isRefused⟩ := inductionHypothesis failed
        refine ⟨subject :: before, stopped, after, by rw [split, List.cons_append], ?_, isRefused⟩
        exact List.forall_mem_cons.mpr ⟨by rw [found, Option.isSome_some], earlier⟩
      · -- The subject that was inserted stays, and it was not in the aggregate.
        rw [insertSubjects_room new room] at failed
        have stays := @insertSubjects_keeps (added + 1) _ parsed subject.name subject
          (Std.ExtTreeMap.getElem?_insert_self (t := aggregate))
        rw [failed, new] at stays
        cases stays
      · exact ⟨[], subject, parsed.map Prod.snd, rfl, List.forall_mem_nil _, refused⟩

theorem insertSubjects_of_refusedFirst (added : Nat)
    (refused : RefusedFirst aggregate (parsed.map Prod.snd)) :
    (insertSubjects added aggregate parsed).1 = aggregate ∧
      ∃ error, (insertSubjects added aggregate parsed).2 = .error error := by
  obtain ⟨before, stopped, after, split, earlier, isRefused⟩ := refused
  induction parsed generalizing before with
  | nil => cases before <;> cases split
  | cons declared parsed inductionHypothesis =>
      obtain ⟨line, subject⟩ := declared
      rw [List.map_cons] at split
      rcases subject_cases aggregate subject with ⟨existing, found, same⟩ | ⟨new, room⟩ | refused
      · rw [insertSubjects_same found same]
        cases before with
        | nil =>
            cases split
            rw [Refused, found] at isRefused
            exact absurd same isRefused
        | cons first before =>
            rw [List.cons_append] at split
            injection split with _ rest
            exact inductionHypothesis before rest fun known member =>
              earlier known (List.mem_cons_of_mem _ member)
      · cases before with
        | nil =>
            cases split
            rw [Refused, new] at isRefused
            omega
        | cons first before =>
            rw [List.cons_append] at split
            injection split with same _
            have known := earlier first List.mem_cons_self
            rw [← same, new] at known
            cases known
      · obtain ⟨error, failed⟩ := insertSubjects_refused added line parsed refused
        exact ⟨by rw [failed], error, by rw [failed]⟩

theorem insertSubjects_bounded (bounded : aggregate.size ≤ maxArtifactSubjects) :
    (insertSubjects added aggregate parsed).1.size ≤ maxArtifactSubjects := by
  induction parsed generalizing added aggregate with
  | nil => exact bounded
  | cons declared parsed inductionHypothesis =>
      obtain ⟨line, subject⟩ := declared
      rcases subject_cases aggregate subject with ⟨existing, found, same⟩ | ⟨new, room⟩ | refused
      · rw [insertSubjects_same found same]
        exact inductionHypothesis bounded
      · rw [insertSubjects_room new room]
        exact inductionHypothesis (by rw [size_insert_new new]; omega)
      · obtain ⟨error, failed⟩ := insertSubjects_refused added line parsed refused
        rw [failed]
        exact bounded

end Insertion

/-! ### All or nothing -/

/-- The aggregate extended by one subject for each new name. -/
structure Extended (aggregate : Aggregate) (subjects : List ArtifactSubject)
    (extended : Aggregate) (capture : ArtifactCapture) : Prop where
  found : ∀ name, extended[name]? =
    (aggregate[name]?).or (subjects.find? fun subject => subject.name = name)
  digests : ∀ subject ∈ subjects, ∃ kept,
    extended[subject.name]? = some kept ∧ kept.digest = subject.digest
  bounded : extended.size ≤ maxArtifactSubjects
  added : aggregate.size + capture.added = extended.size
  total : capture.total = extended.size

theorem extended_merged {aggregate : Aggregate} {subjects : List ArtifactSubject}
    (consistent : Consistent aggregate subjects)
    (fits : (merged aggregate subjects).size ≤ maxArtifactSubjects) :
    Extended aggregate subjects (merged aggregate subjects)
      { added := 0 + ((merged aggregate subjects).size - aggregate.size)
        total := (merged aggregate subjects).size } := by
  refine ⟨getElem?_merged aggregate subjects, fun subject member => ?_, fits, ?_, rfl⟩
  · rw [getElem?_merged]
    cases known : aggregate[subject.name]? with
    | some existing => exact ⟨existing, rfl, consistent.known subject member existing known⟩
    | none =>
        have isFound : (subjects.find? fun other => other.name = subject.name).isSome := by
          rw [List.find?_isSome]
          exact ⟨subject, member, decide_eq_true rfl⟩
        obtain ⟨first, found⟩ := Option.isSome_iff_exists.mp isFound
        have name : first.name = subject.name := by simpa using List.find?_some found
        exact ⟨first, by rw [Option.none_or, found], consistent.declared first
          (List.mem_of_find?_eq_some found) subject member name⟩
  · have larger := size_le_merged aggregate subjects
    change aggregate.size + (0 + _) = _
    omega

section Declarations

variable [Sha256]

/-- What the declarations of a file do to the aggregate: a failure leaves it, a success extends
it, and the same texts in another order or number do the same. -/
structure AllOrNothing (files : FileSystem) (workspace : Text) (declarations : List Declaration)
    (aggregate : Aggregate) : Prop where
  unchanged : ∀ error, (declare files workspace declarations aggregate).2 = .error error →
    (declare files workspace declarations aggregate).1 = aggregate
  extended : ∀ capture, (declare files workspace declarations aggregate).2 = .ok capture →
    ∃ parsed, parseDeclarations files workspace declarations = .ok parsed ∧
      Extended aggregate (parsed.map Prod.snd)
        (declare files workspace declarations aggregate).1 capture
  orderless : ∀ capture, (declare files workspace declarations aggregate).2 = .ok capture →
    ∀ others : List Declaration,
      (∀ text, text ∈ others.map Prod.snd ↔ text ∈ declarations.map Prod.snd) →
        declare files workspace others aggregate = declare files workspace declarations aggregate

section Parsing

variable {files : FileSystem} {workspace : Text} {declarations others : List Declaration}
  {parsed : List (Nat × ArtifactSubject)}

theorem parseDeclaration_eq_ok {declaration : Declaration} {result : Nat × ArtifactSubject} :
    parseDeclaration files workspace declaration = .ok result ↔
      result.1 = declaration.1 ∧ parseLine files workspace declaration.2 = .ok result.2 := by
  rw [parseDeclaration, inContext]
  cases parseLine files workspace declaration.2 with
  | error error => simp [Except.mapError, Except.map]
  | ok subject => simp [Except.mapError, Except.map, Prod.ext_iff, eq_comm]

theorem mem_subjects (isParsed : parseDeclarations files workspace declarations = .ok parsed)
    (subject : ArtifactSubject) :
    subject ∈ parsed.map Prod.snd ↔
      ∃ text ∈ declarations.map Prod.snd, parseLine files workspace text = .ok subject := by
  have all := mapM_eq_ok.mp isParsed
  clear isParsed
  induction all with
  | nil => simp
  | @cons declaration result declarations parsed ran _ inductionHypothesis =>
      have isSubject := (parseDeclaration_eq_ok.mp ran).2
      rw [List.map_cons, List.map_cons, List.mem_cons, List.exists_mem_cons_iff, isSubject]
      exact or_congr ⟨fun same => by rw [same], fun same => (Except.ok.inj same).symm⟩
        inductionHypothesis

theorem parseDeclarations_total
    (readable : ∀ text ∈ declarations.map Prod.snd,
      ∃ subject, parseLine files workspace text = .ok subject) :
    ∃ parsed, parseDeclarations files workspace declarations = .ok parsed := by
  induction declarations with
  | nil => exact ⟨[], rfl⟩
  | cons declaration declarations inductionHypothesis =>
      rw [List.map_cons, List.forall_mem_cons] at readable
      obtain ⟨subject, isSubject⟩ := readable.1
      obtain ⟨parsed, isParsed⟩ := inductionHypothesis readable.2
      exact ⟨(declaration.1, subject) :: parsed, mapM_eq_ok.mpr
        (.cons (parseDeclaration_eq_ok.mpr ⟨rfl, isSubject⟩) (mapM_eq_ok.mp isParsed))⟩

theorem texts_readable (isParsed : parseDeclarations files workspace declarations = .ok parsed) :
    ∀ text ∈ declarations.map Prod.snd,
      ∃ subject, parseLine files workspace text = .ok subject := by
  have all := mapM_eq_ok.mp isParsed
  clear isParsed
  induction all with
  | nil => exact List.forall_mem_nil _
  | cons ran _ inductionHypothesis =>
      exact List.forall_mem_cons.mpr
        ⟨⟨_, (parseDeclaration_eq_ok.mp ran).2⟩, inductionHypothesis⟩

/-- Other lines of the same texts declare the same subjects. -/
theorem parseDeclarations_texts
    (isParsed : parseDeclarations files workspace declarations = .ok parsed)
    (same : ∀ text, text ∈ others.map Prod.snd ↔ text ∈ declarations.map Prod.snd) :
    ∃ parsedOthers, parseDeclarations files workspace others = .ok parsedOthers ∧
      ∀ subject, subject ∈ parsedOthers.map Prod.snd ↔ subject ∈ parsed.map Prod.snd := by
  obtain ⟨parsedOthers, isParsedOthers⟩ := parseDeclarations_total
    (fun text member => texts_readable isParsed text ((same text).mp member))
  refine ⟨parsedOthers, isParsedOthers, fun subject => ?_⟩
  rw [mem_subjects isParsed, mem_subjects isParsedOthers]
  exact exists_congr fun text => and_congr_left' (same text)

end Parsing

variable {files : FileSystem} {workspace : Text} {declarations : List Declaration}
  {aggregate : Aggregate} {parsed : List (Nat × ArtifactSubject)}

theorem declare_parsed (isParsed : parseDeclarations files workspace declarations = .ok parsed) :
    declare files workspace declarations aggregate = insertSubjects 0 aggregate parsed := by
  rw [declare, isParsed]

theorem AllOrNothing.of_failed (error : String)
    (failed : declare files workspace declarations aggregate = (aggregate, .error error)) :
    AllOrNothing files workspace declarations aggregate := by
  have never : ∀ capture, (declare files workspace declarations aggregate).2 ≠ .ok capture := by
    intro capture succeeded
    rw [failed] at succeeded
    cases succeeded
  exact ⟨fun _ _ => by rw [failed], fun capture succeeded => absurd succeeded (never capture),
    fun capture succeeded => absurd succeeded (never capture)⟩

/-- Declarations whose kinds agree give the same aggregate in any order and number. -/
theorem declare_congr {others : List Declaration}
    (isParsed : parseDeclarations files workspace declarations = .ok parsed)
    (consistent : Consistent aggregate (parsed.map Prod.snd))
    (fits : (merged aggregate (parsed.map Prod.snd)).size ≤ maxArtifactSubjects)
    (uniform : Uniform aggregate (parsed.map Prod.snd))
    (same : ∀ text, text ∈ others.map Prod.snd ↔ text ∈ declarations.map Prod.snd) :
    declare files workspace others aggregate =
      declare files workspace declarations aggregate := by
  obtain ⟨parsedOthers, isParsedOthers, sameSubjects⟩ := parseDeclarations_texts isParsed same
  have sameMerged := merged_congr consistent uniform sameSubjects
  rw [declare_parsed isParsed, declare_parsed isParsedOthers,
    insertSubjects_of_consistent 0 consistent fits,
    insertSubjects_of_consistent 0 (consistent.congr sameSubjects) (sameMerged ▸ fits), sameMerged]

/-- The first of the lines decides the kind of a name, so a repeated line may change it. -/
theorem uniform_of_orderless
    (isParsed : parseDeclarations files workspace declarations = .ok parsed)
    (consistent : Consistent aggregate (parsed.map Prod.snd))
    (fits : (merged aggregate (parsed.map Prod.snd)).size ≤ maxArtifactSubjects)
    (orderless : ∀ others : List Declaration,
      (∀ text, text ∈ others.map Prod.snd ↔ text ∈ declarations.map Prod.snd) →
        declare files workspace others aggregate =
          declare files workspace declarations aggregate) :
    Uniform aggregate (parsed.map Prod.snd) := by
  -- With a line of a new name put first, its subject is the one that is inserted.
  have first : ∀ subject ∈ parsed.map Prod.snd, aggregate[subject.name]? = none →
      (declare files workspace declarations aggregate).1[subject.name]? = some subject := by
    intro subject member new
    obtain ⟨text, inside, reads⟩ := (mem_subjects isParsed subject).mp member
    have same : ∀ other, other ∈ ((0, text) :: declarations).map Prod.snd ↔
        other ∈ declarations.map Prod.snd := by
      intro other
      rw [List.map_cons, List.mem_cons]
      exact ⟨fun isOne => isOne.elim (fun isText => isText ▸ inside) id, .inr⟩
    have isParsedFirst : parseDeclarations files workspace ((0, text) :: declarations) =
        .ok ((0, subject) :: parsed) :=
      mapM_eq_ok.mpr (.cons (parseDeclaration_eq_ok.mpr ⟨rfl, reads⟩) (mapM_eq_ok.mp isParsed))
    have isOrdered := orderless ((0, text) :: declarations) same
    rw [declare_parsed isParsedFirst, declare_parsed isParsed] at isOrdered
    rw [declare_parsed isParsed, ← isOrdered]
    rcases subject_cases aggregate subject with ⟨existing, known, _⟩ | ⟨_, room⟩ | refused
    · rw [new] at known
      cases known
    · rw [insertSubjects_room new room]
      exact insertSubjects_keeps Std.ExtTreeMap.getElem?_insert_self
    · obtain ⟨error, failed⟩ := insertSubjects_refused 0 0 parsed refused
      rw [failed, insertSubjects_of_consistent 0 consistent fits] at isOrdered
      cases congrArg Prod.snd isOrdered
  intro one memberOne two memberTwo new name
  have foundOne := first one memberOne new
  have foundTwo := first two memberTwo (name ▸ new)
  rw [← name, foundOne] at foundTwo
  rw [Option.some.inj foundTwo]

/-- The declarations leave all or nothing exactly where no subject is inserted before a failure,
and no new name has two kinds. -/
theorem declare_all_or_nothing_iff (bounded : aggregate.size ≤ maxArtifactSubjects) :
    AllOrNothing files workspace declarations aggregate ↔
      ∀ parsed, parseDeclarations files workspace declarations = .ok parsed →
        Traceless aggregate (parsed.map Prod.snd) := by
  constructor
  · intro allOrNothing parsed isParsed
    cases inserted : (insertSubjects 0 aggregate parsed).2 with
    | error error =>
        have unchanged := allOrNothing.unchanged error
          (by rw [declare_parsed isParsed, inserted])
        rw [declare_parsed isParsed] at unchanged
        exact .inl (insertSubjects_unchanged (Prod.ext unchanged inserted))
    | ok capture =>
        obtain ⟨consistent, fits⟩ := insertSubjects_eq_ok bounded inserted
        exact .inr ⟨consistent, fits, uniform_of_orderless isParsed consistent fits
          (allOrNothing.orderless capture (by rw [declare_parsed isParsed, inserted]))⟩
  · intro traceless
    cases isParsed : parseDeclarations files workspace declarations with
    | error error =>
        exact .of_failed error (by rw [declare, isParsed])
    | ok parsed =>
        rcases traceless parsed isParsed with refused | ⟨consistent, fits, uniform⟩
        · obtain ⟨unchanged, error, failed⟩ := insertSubjects_of_refusedFirst 0 refused
          exact .of_failed error ((declare_parsed isParsed).trans (Prod.ext unchanged failed))
        · have inserted := (declare_parsed isParsed).trans
            (insertSubjects_of_consistent 0 consistent fits)
          refine ⟨fun error failed => ?_, fun capture succeeded => ?_, fun _ _ others same => ?_⟩
          · rw [inserted] at failed
            cases failed
          · rw [inserted] at succeeded ⊢
            cases succeeded
            exact ⟨parsed, isParsed, extended_merged consistent fits⟩
          · exact declare_congr isParsed consistent fits uniform same

/-! ### Processes side by side -/

/-- What a step of a process does to the aggregate of the job: nothing where the file is read, and
all or nothing where the subjects are inserted. -/
def StepAllOrNothing (job : Job workspace) (event : CaptureEvent) : Prop :=
  match event with
  | .read _ _ _ => (captureStep job event).aggregate = job.aggregate
  | .insert id => ∀ waiting, job.waiting.find? (·.id = id) = some waiting →
      (captureStep job event).aggregate =
        (declare waiting.files workspace waiting.declarations job.aggregate).1 ∧
      (captureStep job event).results = job.results ++
        [(id, (declare waiting.files workspace waiting.declarations job.aggregate).2)] ∧
      AllOrNothing waiting.files workspace waiting.declarations job.aggregate

/-- The condition on the steps: the process that inserts leaves no trace of a failure, and
declares no new name with two kinds. -/
def StepTraceless (job : Job workspace) (event : CaptureEvent) : Prop :=
  match event with
  | .read _ _ _ => True
  | .insert id => ∀ waiting, job.waiting.find? (·.id = id) = some waiting →
      Traceless job.aggregate (waiting.parsed.map Prod.snd)

theorem readStep_aggregate (job : Job workspace) (id : Nat) (files : FileSystem) (path : Text) :
    (readStep job id files path).aggregate = job.aggregate := by
  rw [readStep]
  split
  · rfl
  · split <;> rfl

theorem captureStep_insert {job : Job workspace} {id : Nat} {waiting : Waiting workspace}
    (found : job.waiting.find? (·.id = id) = some waiting) :
    captureStep job (.insert id) = {
      aggregate := (declare waiting.files workspace waiting.declarations job.aggregate).1
      waiting := job.waiting.filter (·.id ≠ id)
      results := job.results ++
        [(id, (declare waiting.files workspace waiting.declarations job.aggregate).2)] } := by
  rw [declare_parsed waiting.isParsed, captureStep, found]

theorem captureStep_bounded (job : Job workspace) (event : CaptureEvent)
    (bounded : job.aggregate.size ≤ maxArtifactSubjects) :
    (captureStep job event).aggregate.size ≤ maxArtifactSubjects := by
  cases event with
  | read id files path => exact (readStep_aggregate job id files path).symm ▸ bounded
  | insert id =>
      rw [captureStep]
      split
      · exact bounded
      · exact insertSubjects_bounded bounded

/-- One insertion keeps to all or nothing exactly when it leaves no trace of a failure. -/
theorem step_all_or_nothing_iff {job : Job workspace} (event : CaptureEvent)
    (bounded : job.aggregate.size ≤ maxArtifactSubjects) :
    StepAllOrNothing job event ↔ StepTraceless job event := by
  cases event with
  | read id files path => exact iff_true_intro (readStep_aggregate job id files path)
  | insert id =>
      refine forall₂_congr fun waiting found => ?_
      rw [captureStep_insert found, declare_all_or_nothing_iff bounded]
      constructor
      · rintro ⟨-, -, traceless⟩
        exact traceless waiting.parsed waiting.isParsed
      · intro traceless
        refine ⟨rfl, rfl, fun parsed isParsed => ?_⟩
        rw [waiting.isParsed] at isParsed
        cases isParsed
        exact traceless

/-- For every order of the steps of any processes, each step leaves all or nothing exactly where
each inserts subjects that leave no trace. -/
theorem captures_all_or_nothing (workspace : Text) (events : List CaptureEvent) :
    Along captureStep StepAllOrNothing ({} : Job workspace) events ↔
      Along captureStep StepTraceless ({} : Job workspace) events := by
  have empty : ({} : Job workspace).aggregate.size ≤ maxArtifactSubjects := Nat.zero_le _
  exact Along.congr (fun job event bounded _ => captureStep_bounded job event bounded)
    (fun _ event bounded => step_all_or_nothing_iff event bounded) empty events

theorem readStep_parsed (job : Job workspace) (id : Nat) {path : Text}
    (isRead : readDeclarations files path = .ok declarations)
    (isParsed : parseDeclarations files workspace declarations = .ok parsed) :
    readStep job id files path =
      { job with waiting := job.waiting ++ [{ id, files, declarations, parsed, isParsed }] } := by
  rw [readStep, isRead]
  dsimp only
  split
  · next error failed =>
      rw [isParsed] at failed
      cases failed
  · next others isOthers =>
      have same : others = parsed := Except.ok.inj (isOthers.symm.trans isParsed)
      subst same
      rfl

theorem process_read {path : Text} (isRead : readDeclarations files path = .ok declarations) :
    process true files workspace path aggregate =
      declare files workspace declarations aggregate := by
  rw [process, if_neg (by decide), isRead]

/-- A file that cannot be read or parsed fails its process. -/
theorem readStep_failed (job : Job workspace) (id : Nat) {path : Text} {error : String}
    (failed : readDeclarations files path >>= parseDeclarations files workspace = .error error) :
    readStep job id files path = { job with results := job.results ++ [(id, .error error)] } ∧
      process true files workspace path job.aggregate = (job.aggregate, .error error) := by
  rw [readStep, process, if_neg (by decide)]
  cases isRead : readDeclarations files path with
  | error other =>
      rw [isRead] at failed
      cases failed
      exact ⟨rfl, rfl⟩
  | ok declarations =>
      rw [isRead] at failed
      change parseDeclarations files workspace declarations = _ at failed
      refine ⟨?_, by dsimp only; rw [declare, failed]⟩
      dsimp only
      split
      · next other isOther =>
          rw [failed] at isOther
          cases isOther
          rfl
      · next parsed isParsed =>
          rw [failed] at isParsed
          cases isParsed

theorem last_waiting {others : List (Waiting workspace)} {waiting : Waiting workspace}
    (new : ∀ other ∈ others, other.id ≠ waiting.id) :
    (others ++ [waiting]).find? (·.id = waiting.id) = some waiting ∧
      (others ++ [waiting]).filter (·.id ≠ waiting.id) = others := by
  have absent : others.find? (·.id = waiting.id) = none :=
    List.find?_eq_none.mpr fun other member => by simpa using new other member
  have kept : others.filter (·.id ≠ waiting.id) = others :=
    List.filter_eq_self.mpr fun other member => by simpa using new other member
  constructor
  · rw [List.find?_append, absent, Option.none_or, List.find?_cons_of_pos (by simp)]
  · rw [List.filter_append, kept, List.filter_cons_of_neg (by simp), List.filter_nil,
      List.append_nil]

/-- A process that runs alone reads its file and inserts its subjects. -/
theorem process_eq_run (job : Job workspace) {id : Nat} (files : FileSystem) (path : Text)
    (new : ∀ waiting ∈ job.waiting, waiting.id ≠ id) :
    run captureStep job [.read id files path, .insert id] = {
      aggregate := (process true files workspace path job.aggregate).1
      waiting := job.waiting
      results := job.results ++ [(id, (process true files workspace path job.aggregate).2)] } := by
  have absent : job.waiting.find? (·.id = id) = none :=
    List.find?_eq_none.mpr fun waiting member => by simpa using new waiting member
  rw [run_cons, run_cons, run_nil]
  change captureStep (readStep job id files path) (.insert id) = _
  cases outcome : readDeclarations files path >>= parseDeclarations files workspace with
  | error error =>
      obtain ⟨isRead, failed⟩ := readStep_failed job id outcome
      rw [isRead, failed, captureStep, absent]
  | ok parsed =>
      obtain ⟨declarations, isRead, isParsed⟩ := bind_eq_ok.mp outcome
      obtain ⟨found, others⟩ := @last_waiting _ _ job.waiting
        { id, files, declarations, parsed, isParsed } new
      rw [readStep_parsed job id isRead isParsed, captureStep_insert found, others,
        process_read isRead]

end Declarations

namespace SubjectSample

scoped instance copiedDigest : Sha256 := ⟨fun value => value⟩

def workspace : Text := "/w".toList

def declarationPath : Text := "/d".toList

/-- Three files, of which two have one name, and the file that declares them. -/
def contents : List (String × Artifacts.Bytes) :=
  [("/d", "notes\nx/tool\ny/tool\n".toList.map Char.toUInt8), ("/w/notes", [1]), ("/w/x/tool", [2]),
    ("/w/y/tool", [3])]

def files : FileSystem where
  metadata path :=
    match contents.lookup (String.ofList path) with
    | some bytes => .ok { kind := .file, length := bytes.length }
    | none => .error { notFound := true, message := "No such file or directory" }
  openFile path :=
    match contents.lookup (String.ofList path) with
    | some bytes => .ok (.ok bytes)
    | none => .error { notFound := true, message := "No such file or directory" }

/-- The subjects of the first two lines stay when the third line fails. -/
theorem conflict_leaves_subjects :
    (process true files workspace declarationPath ∅).2 =
      .error ("invalid $GITHUB_ARTIFACTS line 3: subject 'tool' conflicts with digest " ++
        "'sha256:02' already declared for that name (new digest 'sha256:03')") ∧
    (process true files workspace declarationPath ∅).1.keys = ["notes", "tool"] ∧
    ¬ Along captureStep StepAllOrNothing ({} : Job workspace)
        [.read 1 files declarationPath, .insert 1] := by
  have failed : (process true files workspace declarationPath ∅).2 =
      .error ("invalid $GITHUB_ARTIFACTS line 3: subject 'tool' conflicts with digest " ++
        "'sha256:02' already declared for that name (new digest 'sha256:03')") := by
    decide +kernel
  have left : (process true files workspace declarationPath ∅).1.keys = ["notes", "tool"] := by
    decide +kernel
  refine ⟨failed, left, fun ⟨_, inserts, _⟩ => ?_⟩
  have readable : ∃ parsed, readDeclarations files declarationPath >>=
      parseDeclarations files workspace = .ok parsed := by
    have succeeds : (readDeclarations files declarationPath >>=
        parseDeclarations files workspace).isOk = true := by decide +kernel
    cases outcome : readDeclarations files declarationPath >>= parseDeclarations files
      workspace with
    | error error =>
        rw [outcome] at succeeds
        cases succeeds
    | ok parsed => exact ⟨parsed, rfl⟩
  obtain ⟨parsed, outcome⟩ := readable
  obtain ⟨declarations, isRead, isParsed⟩ := bind_eq_ok.mp outcome
  rw [captureStep, readStep_parsed ({} : Job workspace) 1 isRead isParsed] at inserts
  obtain ⟨found, -⟩ := @last_waiting _ _ [] { id := 1, files, declarations, parsed, isParsed }
    (List.forall_mem_nil _)
  obtain ⟨-, -, allOrNothing⟩ := inserts _ found
  -- All or nothing would leave the empty aggregate.
  have unchanged := allOrNothing.unchanged _ (by rw [← process_read isRead]; exact failed)
  change (declare files workspace declarations ∅).1 = ∅ at unchanged
  rw [← process_read isRead] at unchanged
  rw [unchanged] at left
  cases left

end SubjectSample

end GitZero.Agent.ArtifactSubjects
