/-
Module: GitZero.Proofs.CheckAnnotations
Purpose: Every annotation of a job is published with its multiplicity, however often the
  update of the check run is repeated.
Trusted boundary: none
Main exports: checkAnnotationKey_injective, PublishedOnce, annotations_published_once
-/
import GitZero.ControlPlane.GithubChecks
import GitZero.Proofs.JsonTexts
import Mathlib.Data.List.Induction

namespace GitZero.ControlPlane

open Multiplicity

/-! ### The key of an annotation -/

theorem jsonText_flat (text : String) : Flat (jsonText text) := scalars_flat text.toList

theorem jsonCount_flat (value : Nat) : Flat (jsonCount value) :=
  .number Nat.toDigits_ne_nil fun _ member =>
    Nat.isDigit_of_mem_toDigits (by decide) (by decide) member

theorem jsonNullable_flat {α : Type} {print : α → Json} (flat : ∀ value, Flat (print value))
    (value : Option α) : Flat (jsonNullable print value) := by
  cases value with
  | none => exact .null
  | some value => exact flat value

theorem jsonText_injective : Function.Injective jsonText := by
  intro left right same
  have chars := List.map_injective_iff.mpr (fun _ _ equal => JsChar.scalar.inj equal)
    (Json.string.inj same)
  exact String.toList_injective chars

theorem jsonCount_injective : Function.Injective jsonCount := by
  intro left right same
  have digits : Nat.toDigits 10 left = Nat.toDigits 10 right :=
    congrArg NumberText.text (Json.number.inj same)
  have values := congrArg (fun digits => Nat.ofDigitChars 10 digits 0) digits
  rwa [Nat.ofDigitChars_toDigits (by decide) (by decide),
    Nat.ofDigitChars_toDigits (by decide) (by decide)] at values

theorem jsonNullable_injective {α : Type} {print : α → Json} (injective : Function.Injective print)
    (notNull : ∀ value, print value ≠ .null) : Function.Injective (jsonNullable print) := by
  intro left right same
  cases left with
  | none =>
      cases right with
      | none => rfl
      | some value => exact absurd same.symm (notNull value)
  | some value =>
      cases right with
      | none => exact absurd same (notNull value)
      | some other => rw [injective same]

theorem AnnotationLevel.text_injective : Function.Injective AnnotationLevel.text := by
  intro left right same
  cases left <;> cases right <;> first | rfl | exact absurd same (by decide)

/-- Different annotations have different keys. -/
theorem checkAnnotationKey_injective : Function.Injective checkAnnotationKey := by
  intro left right same
  have flat : ∀ note : CheckAnnotation, ∀ item ∈ [jsonText note.path,
      jsonCount note.startLine, jsonCount note.endLine,
      jsonNullable jsonCount note.startColumn, jsonNullable jsonCount note.endColumn,
      jsonText note.annotationLevel.text, jsonText note.message,
      jsonNullable jsonText note.title], Flat item := by
    intro note
    simp only [List.forall_mem_cons, List.not_mem_nil, false_imp_iff, implies_true, and_true,
      jsonText_flat, jsonCount_flat, jsonNullable_flat jsonCount_flat,
      jsonNullable_flat jsonText_flat]
  have items := stringify_array_inj (flat left) (flat right) same
  simp only [List.cons.injEq, and_true] at items
  obtain ⟨path, startLine, endLine, startColumn, endColumn, level, message, title⟩ := items
  have columns := jsonNullable_injective jsonCount_injective fun _ => Json.noConfusion
  have titles := jsonNullable_injective jsonText_injective fun _ => Json.noConfusion
  have levels := AnnotationLevel.text_injective (jsonText_injective level)
  exact CheckAnnotation.ext (jsonText_injective path) (jsonCount_injective startLine)
    (jsonCount_injective endLine) (columns startColumn) (columns endColumn) levels
    (jsonText_injective message) (titles title)

/-! ### What GitHub returns -/

/-- Columns are both present or both absent. -/
theorem endColumn_of_accepted {note : CheckAnnotation}
    (accepted : checkAnnotationSchema note = some note)
    (absent : note.startColumn = none) : note.endColumn = none := by
  have checked := (Option.ite_none_right_eq_some.mp accepted).1
  simp only [Bool.and_eq_true, coordinatesAgree, decide_eq_true_eq] at checked
  have together := checked.2.1.1.2
  rw [absent, Option.isNone_none] at together
  exact Option.isNone_iff_eq_none.mp together.symm

/-- An accepted annotation comes back as it was sent. -/
theorem nullable_githubCheckAnnotation {note : CheckAnnotation}
    (accepted : checkAnnotationSchema note = some note) :
    (note |> githubCheckAnnotation).nullable = note := by
  have ends := endColumn_of_accepted accepted
  obtain ⟨path, startLine, endLine, startColumn, endColumn, level, message, title⟩ := note
  cases startColumn with
  | none =>
      cases ends rfl
      cases title <;> rfl
  | some start => cases title <;> rfl

theorem fetchCheckAnnotations_map {annotations : List CheckAnnotation}
    (accepted : ∀ note ∈ annotations, checkAnnotationSchema note = some note)
    (few : annotations.length ≤ 100) :
    fetchCheckAnnotations (annotations.map githubCheckAnnotation) = some annotations := by
  rw [fetchCheckAnnotations, List.take_of_length_le (by rwa [List.length_map])]
  clear few
  induction annotations with
  | nil => rfl
  | cons note annotations inductionHypothesis =>
      have here := accepted note List.mem_cons_self
      rw [List.map_cons, List.mapM_cons, nullable_githubCheckAnnotation here, here,
        inductionHypothesis fun other member => accepted other (List.mem_cons_of_mem _ member)]
      rfl

/-! ### One update and many -/

/-- On GitHub are no annotations of the job or, once an update has taken effect, all of them. -/
def Progress (job : JobAnnotations) (applied : Bool) (published : List GithubAnnotation) : Prop :=
  ∃ listed : List CheckAnnotation, published = listed.map githubCheckAnnotation ∧
    listed.Perm (if applied then job.annotations else [])

theorem annotationsToPublish_of_progress {job : JobAnnotations} {applied : Bool}
    {published : List GithubAnnotation} (progress : Progress job applied published) :
    ∃ listed missing : List CheckAnnotation, published = listed.map githubCheckAnnotation ∧
      annotationsToPublish job.annotations published = some missing ∧
      (listed ++ missing).Perm job.annotations := by
  obtain ⟨listed, rfl, known⟩ := progress
  have within : listed.Subperm job.annotations := by
    cases applied with
    | false => exact known.subperm.trans List.nil_subperm
    | true => exact known.subperm
  refine ⟨listed, missingCheckAnnotations job.annotations listed, rfl, ?_,
    surplus_perm checkAnnotationKey_injective fun note => within.count_le note⟩
  unfold annotationsToPublish
  split
  · have few := within.length_le.trans job.atMost
    rw [fetchCheckAnnotations_map (fun note member =>
      job.accepted note (within.subset member)) (by omega), Option.map_some]
  · next none =>
      rw [List.length_eq_zero_iff.mp (by omega : job.annotations.length = 0)]
      rfl

theorem progress_step {job : JobAnnotations} {applied : Bool} {published : List GithubAnnotation}
    (progress : Progress job applied published) (attempt : Attempt) :
    Progress job (applied || attempt.applies)
      (updateCheckRun job.annotations published attempt).1 := by
  obtain ⟨listed, missing, same, found, complete⟩ := annotationsToPublish_of_progress progress
  rw [updateCheckRun, found]
  dsimp only
  cases effect : attempt.applies with
  | false =>
      rw [Bool.or_false]
      exact progress
  | true =>
      rw [Bool.or_true]
      exact ⟨listed ++ missing, by rw [same, List.map_append]; rfl, complete⟩

theorem progress_run (job : JobAnnotations) (attempts : List Attempt) :
    Progress job (attempts.any Attempt.applies) (updateCheckRuns job.annotations attempts) := by
  induction attempts using List.reverseRecOn with
  | nil => exact ⟨[], rfl, List.Perm.refl []⟩
  | append_singleton attempts attempt inductionHypothesis =>
      rw [updateCheckRuns, List.foldl_append, List.any_append, List.any_cons, List.any_nil,
        Bool.or_false]
      exact progress_step inductionHypothesis attempt

/-- The missing annotations are those that do not occur often enough, and a sequence of updates
publishes nothing before one takes effect and everything from then on. -/
structure PublishedOnce : Prop where
  subsequence : ∀ desired existing, (missingCheckAnnotations desired existing).Sublist desired
  multiplicity : ∀ desired existing note,
    (missingCheckAnnotations desired existing).count note =
      desired.count note - existing.count note
  published : ∀ (job : JobAnnotations) (attempts : List Attempt),
    (updateCheckRuns job.annotations attempts).Perm
      (if attempts.any Attempt.applies then job.annotations.map githubCheckAnnotation else [])
  returns : ∀ (job : JobAnnotations) (attempts : List Attempt),
    (updateCheckRun job.annotations (updateCheckRuns job.annotations attempts)
      .acknowledged).2 = true

/-- Every annotation is published as often as the job has it, whatever the updates before have
published. -/
theorem annotations_published_once : PublishedOnce where
  subsequence desired existing := surplus_sublist _ _ _
  multiplicity desired existing note :=
    count_surplus checkAnnotationKey_injective desired existing note
  published job attempts := by
    obtain ⟨listed, same, known⟩ := progress_run job attempts
    rw [same]
    split
    · next applied =>
        rw [applied] at known
        exact known.map _
    · next unapplied =>
        rw [Bool.not_eq_true] at unapplied
        rw [unapplied] at known
        exact known.map _
  returns job attempts := by
    obtain ⟨listed, missing, _, found, _⟩ :=
      annotationsToPublish_of_progress (progress_run job attempts)
    rw [updateCheckRun, found]
    rfl

end GitZero.ControlPlane
