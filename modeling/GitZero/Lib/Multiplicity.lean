/-
Module: GitZero.Lib.Multiplicity
Purpose: The items of one list that another list does not have often enough.
Trusted boundary: none
Main exports: tally, surplus, surplus_sublist, count_surplus, surplus_perm
-/
import Mathlib.Data.List.Perm.Subperm
import Mathlib.Logic.Function.Basic

namespace GitZero.Multiplicity

variable {Item Key : Type} [DecidableEq Key] (key : Item → Key)

/-- How often each key occurs, counted one item at a time. -/
def tally (items : List Item) : Key → Nat :=
  items.foldl (fun counts item =>
    Function.update counts (key item) (counts (key item) + 1)) fun _ => 0

/-- The items that are left when every counted item has been taken away once. -/
def surplus : (Key → Nat) → List Item → List Item
  | _, [] => []
  | counts, item :: items =>
      if counts (key item) = 0 then item :: surplus counts items
      else surplus (Function.update counts (key item) (counts (key item) - 1)) items

theorem tally_eq (items : List Item) (wanted : Key) :
    tally key items wanted = items.countP fun item => key item = wanted := by
  have run : ∀ counts : Key → Nat, (items.foldl (fun counts item =>
      Function.update counts (key item) (counts (key item) + 1)) counts) wanted =
        counts wanted + items.countP fun item => key item = wanted := by
    induction items with
    | nil => exact fun counts => rfl
    | cons item items inductionHypothesis =>
        intro counts
        rw [List.foldl_cons, inductionHypothesis, List.countP_cons, Function.update_apply]
        by_cases same : key item = wanted
        · subst same
          simp
          omega
        · simp [same, Ne.symm same]
  rw [tally, run, Nat.zero_add]

/-- The surplus keeps the order. -/
theorem surplus_sublist (counts : Key → Nat) (items : List Item) :
    (surplus key counts items).Sublist items := by
  induction items generalizing counts with
  | nil => exact .slnil
  | cons item items inductionHypothesis =>
      unfold surplus
      split
      · exact (inductionHypothesis counts).cons_cons item
      · exact (inductionHypothesis _).cons item

/-- The remaining counts are what the rest of the list still has to give. -/
theorem countP_surplus (counts : Key → Nat) (items : List Item) (wanted : Key) :
    (surplus key counts items).countP (fun item => key item = wanted) =
      items.countP (fun item => key item = wanted) - counts wanted := by
  induction items generalizing counts with
  | nil => exact (Nat.zero_sub _).symm
  | cons item items inductionHypothesis =>
      rw [surplus, List.countP_cons]
      by_cases same : key item = wanted
      · subst same
        split
        · next none => simp [inductionHypothesis, none]
        · next some =>
            rw [inductionHypothesis, Function.update_self]
            simp only [decide_true, if_true]
            omega
      · split
        · rw [List.countP_cons, inductionHypothesis]
          simp [same]
        · rw [inductionHypothesis, Function.update_of_ne (Ne.symm same)]
          simp [same]

variable {key} [DecidableEq Item]

theorem countP_key (injective : Function.Injective key) (items : List Item) (item : Item) :
    (items.countP fun other => key other = key item) = items.count item := by
  rw [List.count]
  refine List.countP_congr fun other _ => ?_
  rw [decide_eq_true_eq, beq_iff_eq]
  exact injective.eq_iff

/-- The surplus has each item as often as it is missing. -/
theorem count_surplus (injective : Function.Injective key) (items others : List Item)
    (item : Item) :
    (surplus key (tally key others) items).count item = items.count item - others.count item := by
  rw [← countP_key injective, countP_surplus, tally_eq, countP_key injective,
    countP_key injective]

/-- What is missing completes the other list. -/
theorem surplus_perm (injective : Function.Injective key) {items others : List Item}
    (within : ∀ item, others.count item ≤ items.count item) :
    (others ++ surplus key (tally key others) items).Perm items := by
  rw [List.perm_iff_count]
  intro item
  rw [List.count_append, count_surplus injective]
  have bound := within item
  omega

end GitZero.Multiplicity
