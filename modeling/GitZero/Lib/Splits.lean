/-
Module: GitZero.Lib.Splits
Purpose: A sequence divided at the first place where a mark stands in it.
Trusted boundary: none
Main exports: splitOnce, splitOnce_parts, splitOnce_first, splitOnce_of_not_mem,
  splitOnce_eq_none
-/
import Mathlib.Data.List.Basic
import Mathlib.Data.List.Infix

namespace GitZero.Splits

variable {Item : Type*} [DecidableEq Item]

/-- What stands before the first mark and what stands behind it.  The mark is not empty. -/
def splitOnce (mark : List Item) : List Item → Option (List Item × List Item)
  | [] => none
  | item :: rest =>
      if mark <+: item :: rest then some ([], (item :: rest).drop mark.length)
      else (splitOnce mark rest).map (Prod.map (item :: ·) id)

variable {mark list before after : List Item}

/-- The parts with the mark between them are the list. -/
theorem splitOnce_parts (found : splitOnce mark list = some (before, after)) :
    list = before ++ (mark ++ after) := by
  induction list generalizing before with
  | nil => cases found
  | cons item rest inductionHypothesis =>
      rw [splitOnce] at found
      split at found
      · next marked =>
          obtain ⟨behind, whole⟩ := marked
          cases found
          rw [← whole, List.drop_left, List.nil_append]
      · obtain ⟨⟨first, second⟩, later, same⟩ := Option.map_eq_some_iff.mp found
        cases same
        rw [inductionHypothesis later, List.cons_append]

/-- A mark is found, and it is not behind one that stands in the list. -/
theorem splitOnce_first (mark before after : List Item) (nonempty : mark ≠ []) :
    ∃ first second, splitOnce mark (before ++ (mark ++ after)) = some (first, second) ∧
      first.length ≤ before.length := by
  induction before with
  | nil =>
      obtain ⟨item, rest, rfl⟩ := List.exists_cons_of_ne_nil nonempty
      refine ⟨[], after, ?_, Nat.le_refl _⟩
      rw [List.nil_append, List.cons_append, splitOnce, ← List.cons_append,
        if_pos (List.prefix_append _ _), List.drop_left]
  | cons item before inductionHypothesis =>
      obtain ⟨first, second, found, shorter⟩ := inductionHypothesis
      rw [List.cons_append, splitOnce]
      split
      · exact ⟨[], _, rfl, Nat.zero_le _⟩
      · exact ⟨item :: first, second, by rw [found]; rfl, Nat.succ_le_succ shorter⟩

variable {first : Item}

/-- Where the first item of the mark does not stand, the mark does not. -/
theorem splitOnce_of_not_mem (absent : first ∉ before) (after : List Item) :
    splitOnce (first :: mark) (before ++ (first :: mark ++ after)) = some (before, after) := by
  induction before with
  | nil =>
      rw [List.nil_append, List.cons_append, splitOnce, if_pos ⟨after, rfl⟩]
      simp
  | cons item before inductionHypothesis =>
      rw [List.mem_cons, not_or] at absent
      rw [List.cons_append, splitOnce, if_neg, inductionHypothesis absent.2]
      · rfl
      · rintro ⟨rest, same⟩
        exact absent.1 (List.cons.inj same).1

/-- Nothing is split where the mark cannot begin. -/
theorem splitOnce_eq_none (absent : first ∉ list) : splitOnce (first :: mark) list = none := by
  induction list with
  | nil => rfl
  | cons item list inductionHypothesis =>
      rw [List.mem_cons, not_or] at absent
      rw [splitOnce, if_neg, inductionHypothesis absent.2]
      · rfl
      · rintro ⟨rest, same⟩
        exact absent.1 (List.cons.inj same).1

end GitZero.Splits
