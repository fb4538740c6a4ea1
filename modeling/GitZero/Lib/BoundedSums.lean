/-
Module: GitZero.Lib.BoundedSums
Purpose: Sums that stop at a cap, and sums over files that are each paid for by an entry
  of a list.
Trusted boundary: none
Main exports: cappedSum, cappedSum_eq, le_cappedSum, sum_le_of_covered, sum_le_of_named
-/
import Mathlib.Algebra.BigOperators.Group.Finset.Basic
import Mathlib.Algebra.GroupWithZero.Nat
import Mathlib.Algebra.Order.BigOperators.Group.Finset
import Mathlib.Tactic.Cases

namespace GitZero.BoundedSums

open Finset

section Capped

variable {Item : Type*} (cap : Nat) (size : Item → Nat)

/-- The sizes added up one by one, never past the cap. -/
def cappedSum (items : List Item) : Nat :=
  items.foldl (fun total item => min (total + size item) cap) 0

theorem foldl_capped (items : List Item) {start : Nat} (below : start ≤ cap) :
    items.foldl (fun total item => min (total + size item) cap) start =
      min (start + (items.map size).sum) cap := by
  induction items generalizing start with
  | nil => simpa using below
  | cons item items inductionHypothesis =>
      rw [List.foldl_cons, inductionHypothesis (Nat.min_le_right _ _), List.map_cons,
        List.sum_cons]
      omega

/-- Adding with a cap gives the sum or the cap. -/
theorem cappedSum_eq (items : List Item) :
    cappedSum cap size items = min (items.map size).sum cap := by
  have capped := foldl_capped cap size items (Nat.zero_le cap)
  rwa [Nat.zero_add] at capped

variable {cap size}

/-- A bound below the cap that the sum reaches is reached by the capped sum. -/
theorem le_cappedSum {items : List Item} {bound : Nat} (below : bound ≤ cap)
    (fits : bound ≤ (items.map size).sum) : bound ≤ cappedSum cap size items := by
  rw [cappedSum_eq]
  exact Nat.le_min.mpr ⟨fits, below⟩

end Capped

section Covered

variable {Item File : Type*} {weight : File → Nat} {size : Item → Nat}

/-- Files that weigh something each belong to an item of the list, and those of one item
weigh no more than its size: then all of them weigh no more than the sizes together. -/
theorem sum_le_of_covered (owns : Item → File → Prop) [∀ item file, Decidable (owns item file)]
    {items : List Item} {files : Finset File}
    (covered : ∀ file ∈ files, weight file ≠ 0 → ∃ item ∈ items, owns item file)
    (fits : ∀ item ∈ items, ∀ part ⊆ files, (∀ file ∈ part, owns item file) →
      ∑ file ∈ part, weight file ≤ size item) :
    ∑ file ∈ files, weight file ≤ (items.map size).sum := by
  induction items generalizing files with
  | nil =>
      refine (sum_eq_zero fun file member => ?_).le
      by_contra heavy
      obtain ⟨item, inside, -⟩ := covered file member heavy
      cases inside
  | cons item items inductionHypothesis =>
      -- The files of the first item, and the others, which the later items cover.
      rw [← sum_filter_add_sum_filter_not files (owns item), List.map_cons, List.sum_cons]
      refine Nat.add_le_add ?_ (inductionHypothesis ?_ ?_)
      · exact fits item List.mem_cons_self _ (filter_subset _ _)
          fun file member => (mem_filter.mp member).2
      · intro file member heavy
        obtain ⟨inside, unowned⟩ := mem_filter.mp member
        obtain ⟨owner, listed, owned⟩ := covered file inside heavy
        rcases List.mem_cons.mp listed with rfl | later
        · exact absurd owned unowned
        · exact ⟨owner, later, owned⟩
      · intro other listed part within owned
        exact fits other (List.mem_cons_of_mem _ listed) part
          (within.trans (filter_subset _ _)) owned

/-- The case of one file an item. -/
theorem sum_le_of_named [DecidableEq File] (name : Item → File) {items : List Item}
    {files : Finset File}
    (covered : ∀ file ∈ files, weight file ≠ 0 →
      ∃ item ∈ items, name item = file ∧ weight file ≤ size item) :
    ∑ file ∈ files, weight file ≤ (items.map size).sum := by
  refine sum_le_of_covered (fun item file => name item = file ∧ weight file ≤ size item)
    covered ?_
  intro item listed part within owned
  have single : part ⊆ {name item} := by
    intro file member
    exact mem_singleton.mpr (owned file member).1.symm
  rcases subset_singleton_iff.mp single with rfl | rfl
  · exact Nat.zero_le _
  · rw [sum_singleton]
    exact (owned _ (mem_singleton_self _)).2

end Covered

end GitZero.BoundedSums
