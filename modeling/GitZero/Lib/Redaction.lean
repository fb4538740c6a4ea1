/-
Module: GitZero.Lib.Redaction
Purpose: Lists of which parts have been replaced by a mark: what can still occur in them,
  and what can occur across the seams when several of them are put together.
Trusted boundary: none
Main exports: replace, Redacts, Redacts.occurs, Redacts.ends, not_infix_replace, Seamless,
  not_infix_flatten
-/
import Mathlib.Data.List.Infix

namespace GitZero.Redaction

variable {α : Type}

/-! ### Parts under the mark -/

/-- Parts of the text stand as the mark in the redacted text. -/
inductive Redacts (mark : List α) : List α → List α → Prop
  | nil : Redacts mark [] []
  | keep (item : α) {text redacted : List α} (rest : Redacts mark text redacted) :
      Redacts mark (item :: text) (item :: redacted)
  | hide (part : List α) {text redacted : List α} (rest : Redacts mark text redacted) :
      Redacts mark (part ++ text) (mark ++ redacted)

variable {mark value text redacted : List α}

/-- What has nothing of the mark occurs behind the mark or not at all. -/
theorem infix_of_infix_append (disjoint : value.Disjoint mark)
    (occurs : value <:+: mark ++ text) : value <:+: text := by
  induction mark with
  | nil => exact occurs
  | cons item mark inductionHypothesis =>
      rw [List.disjoint_cons_right] at disjoint
      rcases List.infix_cons_iff.mp occurs with front | behind
      · rcases List.prefix_cons_iff.mp front with rfl | ⟨rest, rfl, -⟩
        · exact List.nil_infix
        · exact absurd List.mem_cons_self disjoint.1
      · exact inductionHypothesis disjoint.2 behind

theorem prefix_append_iff_nil (disjoint : value.Disjoint mark) (marked : mark ≠ []) :
    value <+: mark ++ text ↔ value = [] := by
  obtain ⟨item, mark, rfl⟩ := List.exists_cons_of_ne_nil marked
  constructor
  · intro front
    rcases List.prefix_cons_iff.mp front with isNil | ⟨rest, rfl, -⟩
    · exact isNil
    · exact absurd List.mem_cons_self (List.disjoint_cons_right.mp disjoint).1
  · rintro rfl
    exact List.nil_prefix

theorem suffix_of_suffix_append (disjoint : value.Disjoint mark)
    (ends : value <:+ mark ++ text) : value <:+ text := by
  induction mark with
  | nil => exact ends
  | cons item mark inductionHypothesis =>
      rw [List.disjoint_cons_right] at disjoint
      rcases List.suffix_cons_iff.mp ends with rfl | behind
      · exact absurd List.mem_cons_self disjoint.1
      · exact inductionHypothesis disjoint.2 behind

theorem Redacts.begins (redacts : Redacts mark text redacted) (disjoint : value.Disjoint mark)
    (marked : mark ≠ []) (front : value <+: redacted) : value <+: text := by
  induction redacts generalizing value with
  | nil => exact front
  | keep item _ inductionHypothesis =>
      rcases List.prefix_cons_iff.mp front with rfl | ⟨rest, rfl, behind⟩
      · exact List.nil_prefix
      · rw [List.disjoint_cons_left] at disjoint
        exact List.prefix_cons_inj item |>.mpr (inductionHypothesis disjoint.2 behind)
  | hide part _ _ =>
      rw [prefix_append_iff_nil disjoint marked] at front
      cases front
      exact List.nil_prefix

/-- Redaction makes nothing occur that has nothing of the mark. -/
theorem Redacts.occurs (redacts : Redacts mark text redacted) (disjoint : value.Disjoint mark)
    (marked : mark ≠ []) (occurs : value <:+: redacted) : value <:+: text := by
  induction redacts with
  | nil => exact occurs
  | keep item rest inductionHypothesis =>
      rcases List.infix_cons_iff.mp occurs with front | behind
      · exact ((rest.keep item).begins disjoint marked front).isInfix
      · exact List.infix_cons (inductionHypothesis behind)
  | hide part _ inductionHypothesis =>
      exact List.infix_append_of_infix_right
        (inductionHypothesis (infix_of_infix_append disjoint occurs))

theorem Redacts.eq_of_disjoint (redacts : Redacts mark text redacted)
    (disjoint : redacted.Disjoint mark) (marked : mark ≠ []) : text = redacted := by
  induction redacts with
  | nil => rfl
  | keep item _ inductionHypothesis =>
      rw [inductionHypothesis (List.disjoint_cons_left.mp disjoint).2]
  | hide part _ _ =>
      obtain ⟨item, rest, rfl⟩ := List.exists_cons_of_ne_nil marked
      exact absurd List.mem_cons_self (List.disjoint_cons_left.mp disjoint).1

/-- An end that is left was there before. -/
theorem Redacts.ends (redacts : Redacts mark text redacted) (disjoint : value.Disjoint mark)
    (marked : mark ≠ []) (ends : value <:+ redacted) : value <:+ text := by
  induction redacts with
  | nil => exact ends
  | keep item rest inductionHypothesis =>
      rcases List.suffix_cons_iff.mp ends with rfl | behind
      · rw [(rest.keep item).eq_of_disjoint disjoint marked]
      · exact List.suffix_cons_iff.mpr (.inr (inductionHypothesis behind))
  | hide part _ inductionHypothesis =>
      exact (inductionHypothesis (suffix_of_suffix_append disjoint ends)).trans
        (List.suffix_append part _)

/-! ### The replacement of a value -/

section Replacement

variable [DecidableEq α]

/-- The replacement from left to right; `skip` items of an occurrence are still left out. -/
def replaceFrom (value mark : List α) : (skip : Nat) → List α → List α
  | _, [] => []
  | skip + 1, _ :: text => replaceFrom value mark skip text
  | 0, item :: text =>
      if value <+: item :: text then mark ++ replaceFrom value mark (value.length - 1) text
      else item :: replaceFrom value mark 0 text

theorem redacts_replaceFrom (value mark : List α) (skip : Nat) (text : List α) :
    Redacts mark (text.drop skip) (replaceFrom value mark skip text) := by
  induction text generalizing skip with
  | nil =>
      rw [List.drop_nil, replaceFrom]
      exact .nil
  | cons item text inductionHypothesis =>
      cases skip with
      | succ skip => exact inductionHypothesis skip
      | zero =>
          rw [replaceFrom, List.drop_zero]
          split
          · have parts : item :: text =
                (item :: text.take (value.length - 1)) ++ text.drop (value.length - 1) := by
              rw [List.cons_append, List.take_append_drop]
            rw [parts]
            exact .hide _ (inductionHypothesis _)
          · have kept := inductionHypothesis 0
            rw [List.drop_zero] at kept
            exact .keep item kept

theorem not_infix_replaceFrom (isSome : value ≠ []) (disjoint : value.Disjoint mark)
    (marked : mark ≠ []) (skip : Nat) (text : List α) :
    ¬ value <:+: replaceFrom value mark skip text := by
  induction text generalizing skip with
  | nil =>
      rw [replaceFrom, List.infix_nil]
      exact isSome
  | cons item text inductionHypothesis =>
      cases skip with
      | succ skip => exact inductionHypothesis skip
      | zero =>
          rw [replaceFrom]
          split
          · intro occurs
            exact inductionHypothesis _ (infix_of_infix_append disjoint occurs)
          · rename_i other
            intro occurs
            rcases List.infix_cons_iff.mp occurs with front | behind
            · have kept := redacts_replaceFrom value mark 0 (item :: text)
              rw [replaceFrom, if_neg other, List.drop_zero] at kept
              exact other (kept.begins disjoint marked front)
            · exact inductionHypothesis 0 behind

/-- The replacement of every occurrence of a value. An empty value occurs everywhere. -/
def replace (value mark text : List α) : List α :=
  if value = [] then mark ++ text.flatMap fun item => item :: mark
  else replaceFrom value mark 0 text

theorem redacts_replace (value mark text : List α) :
    Redacts mark text (replace value mark text) := by
  unfold replace
  split
  · suffices behind : Redacts mark text (text.flatMap fun item => item :: mark) from
      .hide [] behind
    induction text with
    | nil => exact .nil
    | cons item text inductionHypothesis =>
        rw [List.flatMap_cons]
        exact .keep item (.hide [] inductionHypothesis)
  · exact redacts_replaceFrom value mark 0 text

/-- A value that shares no element with the mark is gone. -/
theorem not_infix_replace (isSome : value ≠ []) (disjoint : value.Disjoint mark)
    (marked : mark ≠ []) (text : List α) : ¬ value <:+: replace value mark text := by
  rw [replace, if_neg isSome]
  exact not_infix_replaceFrom isSome disjoint marked 0 text

end Replacement

/-! ### Seams -/

/-- The text does not end with a proper beginning of the value. -/
def Seamless (value text : List α) : Prop :=
  ∀ front ∈ value.inits, front ≠ [] → front ≠ value → ¬ front <:+ text

instance [DecidableEq α] (value text : List α) : Decidable (Seamless value text) :=
  inferInstanceAs (Decidable (∀ front ∈ value.inits, _))

theorem Redacts.seamless (redacts : Redacts mark text redacted) (disjoint : value.Disjoint mark)
    (marked : mark ≠ []) (clear : Seamless value text) : Seamless value redacted := by
  intro front member isSome proper ends
  have within : front ⊆ value := ((List.mem_inits front value).mp member).subset
  exact clear front member isSome proper
    (redacts.ends (List.disjoint_of_subset_left within disjoint) marked ends)

/-- A value occurs in texts put together only if it occurs in one of them, or if one of them
ends with a beginning of it. -/
theorem not_infix_flatten {texts : List (List α)} (isSome : value ≠ [])
    (free : ∀ text ∈ texts, ¬ value <:+: text) (clear : ∀ text ∈ texts, Seamless value text) :
    ¬ value <:+: texts.flatten := by
  induction texts with
  | nil =>
      rw [List.flatten_nil, List.infix_nil]
      exact isSome
  | cons text texts inductionHypothesis =>
      rw [List.forall_mem_cons] at free clear
      have behind := inductionHypothesis free.2 clear.2
      rw [List.flatten_cons]
      intro occurs
      rcases List.infix_append_iff.mp occurs with
        inText | inRest | ⟨front, back, parts, ends, begins⟩
      · exact free.1 inText
      · exact behind inRest
      · have isFront : front ∈ value.inits := (List.mem_inits front value).mpr ⟨back, parts.symm⟩
        by_cases empty : front = []
        · rw [empty, List.nil_append] at parts
          rw [parts] at behind
          exact behind begins.isInfix
        · by_cases whole : front = value
          · rw [whole] at ends
            exact free.1 ends.isInfix
          · exact clear.1 front isFront empty whole ends

end GitZero.Redaction
