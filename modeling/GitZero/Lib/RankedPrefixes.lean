/-
Module: GitZero.Lib.RankedPrefixes
Purpose: The first elements of a list that is strictly sorted by a rank, told by how many elements
  have a smaller rank; and numbers of elements as cardinalities of sets.
Trusted boundary: none
Main exports: mem_take_iff, ncard_eq_countP, pairwise_mergeSort_rank
-/
import Mathlib.Data.List.Sort
import Mathlib.Data.Set.Card

namespace GitZero.RankedPrefixes

variable {Element Rank : Type*} [LinearOrder Rank]

/-- In a strictly sorted list the first `count` elements are those below which fewer than `count`
elements are. -/
theorem mem_take_iff {rank : Element → Rank} {elements : List Element} {element : Element}
    (sorted : elements.Pairwise fun left right => rank left < rank right) (count : Nat) :
    element ∈ elements.take count ↔ element ∈ elements ∧
      elements.countP (fun other => rank other < rank element) < count := by
  induction elements generalizing count with
  | nil => simp
  | cons head tail inductionHypothesis =>
      obtain ⟨least, sortedTail⟩ := List.pairwise_cons.mp sorted
      cases count with
      | zero => simp
      | succ count =>
          rw [List.take_succ_cons, List.mem_cons, List.mem_cons, List.countP_cons,
            inductionHypothesis sortedTail]
          by_cases isHead : element = head
          · subst isHead
            have none : tail.countP (fun other => rank other < rank element) = 0 :=
              List.countP_eq_zero.mpr fun other member => by
                simpa using (least other member).le
            simp [none]
          · have above : element ∈ tail → rank head < rank element := least element
            simp only [isHead, false_or]
            constructor
            · rintro ⟨member, few⟩
              refine ⟨member, ?_⟩
              split <;> omega
            · rintro ⟨member, few⟩
              rw [if_pos (decide_eq_true (above member))] at few
              exact ⟨member, by omega⟩

/-- What a list without repetitions holds of a set that it covers, is the whole set. -/
theorem ncard_eq_countP {Key : Type*} {key : Element → Key} {elements : List Element}
    (distinct : (elements.map key).Nodup) (counted : Element → Bool) {keys : Set Key}
    (covered : ∀ wanted, wanted ∈ keys ↔
      ∃ element ∈ elements, key element = wanted ∧ counted element = true) :
    keys.ncard = elements.countP counted := by
  classical
  have same : keys = ↑((elements.filter counted).map key).toFinset := by
    ext wanted
    simp only [covered, List.coe_toFinset, Set.mem_ofPred_eq, List.mem_map, List.mem_filter]
    constructor
    · rintro ⟨element, member, isKey, holds⟩
      exact ⟨element, ⟨member, holds⟩, isKey⟩
    · rintro ⟨element, ⟨member, holds⟩, isKey⟩
      exact ⟨element, member, isKey, holds⟩
  have part : ((elements.filter counted).map key).Nodup :=
    distinct.sublist (List.filter_sublist.map key)
  rw [same, Set.ncard_coe_finset, List.toFinset_card_of_nodup part, List.length_map,
    List.countP_eq_length_filter]

/-- Elements of distinct ranks are strictly sorted once they are sorted. -/
theorem pairwise_mergeSort_rank {rank : Element → Rank} {elements : List Element}
    (distinct : (elements.map rank).Nodup) :
    (elements.mergeSort fun left right => rank left ≤ rank right).Pairwise fun left right =>
      rank left < rank right := by
  have sorted : (elements.mergeSort fun left right => rank left ≤ rank right).Pairwise
      fun left right => rank left ≤ rank right := by
    refine (List.pairwise_mergeSort (fun a b c => ?_) (fun a b => ?_) elements).imp ?_
    · simpa using le_trans
    · simpa using le_total (rank a) (rank b)
    · simp
  have apart : (elements.mergeSort fun left right => rank left ≤ rank right).Pairwise
      fun left right => rank left ≠ rank right := by
    rw [← List.pairwise_map (R := (· ≠ ·)) (f := rank)]
    exact ((List.mergeSort_perm elements _).map rank).nodup_iff.mpr distinct
  exact (sorted.and apart).imp fun both => lt_of_le_of_ne both.1 both.2

end GitZero.RankedPrefixes
