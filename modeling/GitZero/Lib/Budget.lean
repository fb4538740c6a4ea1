/-
Module: GitZero.Lib.Budget
Purpose: Taking items of new keys from the front of a list for as long as a budget lasts.
Trusted boundary: none
Main exports: fresh, affordable, reach, fresh_eq_filter, mem_affordable_iff, affordable_total_le,
  start_affordable
-/
import Mathlib.Algebra.Ring.Nat
import Mathlib.Data.List.Infix

namespace GitZero.Budget

variable {Item Key : Type}

section Keys

variable [DecidableEq Key] (key : Item → Key)

/-- The first item of every key that is not in `seen`. -/
def fresh : List Key → List Item → List Item
  | _, [] => []
  | seen, item :: items =>
      if key item ∈ seen then fresh seen items else item :: fresh (key item :: seen) items

theorem mem_of_mem_fresh {key : Item → Key} {seen : List Key} {items : List Item} {item : Item}
    (member : item ∈ fresh key seen items) : item ∈ items ∧ key item ∉ seen := by
  induction items generalizing seen with
  | nil => cases member
  | cons first items inductionHypothesis =>
      unfold fresh at member
      split at member
      · obtain ⟨inside, unseen⟩ := inductionHypothesis member
        exact ⟨List.mem_cons_of_mem _ inside, unseen⟩
      · next unseen =>
          rcases List.mem_cons.mp member with rfl | later
          · exact ⟨List.mem_cons_self, unseen⟩
          · obtain ⟨inside, new⟩ := inductionHypothesis later
            exact ⟨List.mem_cons_of_mem _ inside, fun old => new (List.mem_cons_of_mem _ old)⟩

theorem nodup_fresh (seen : List Key) (items : List Item) :
    ((fresh key seen items).map key).Nodup := by
  induction items generalizing seen with
  | nil => exact List.nodup_nil
  | cons first items inductionHypothesis =>
      unfold fresh
      split
      · exact inductionHypothesis seen
      · rw [List.map_cons, List.nodup_cons]
        refine ⟨fun again => ?_, inductionHypothesis _⟩
        obtain ⟨other, member, same⟩ := List.mem_map.mp again
        exact (mem_of_mem_fresh member).2 (same ▸ List.mem_cons_self)

theorem fresh_congr {seen others : List Key} (same : ∀ known, known ∈ seen ↔ known ∈ others)
    (items : List Item) : fresh key seen items = fresh key others items := by
  induction items generalizing seen others with
  | nil => rfl
  | cons first items inductionHypothesis =>
      have later : ∀ known, known ∈ key first :: seen ↔ known ∈ key first :: others := by
        intro known
        rw [List.mem_cons, List.mem_cons, same]
      rw [fresh, fresh, inductionHypothesis same, inductionHypothesis later]
      simp only [same]

/-- Known keys are skipped and change nothing else. -/
theorem fresh_append (seen more : List Key) (items : List Item) :
    fresh key (seen ++ more) items =
      (fresh key more items).filter fun item => key item ∉ seen := by
  induction items generalizing more with
  | nil => rfl
  | cons first items inductionHypothesis =>
      by_cases old : key first ∈ more
      · rw [fresh, fresh, if_pos old, if_pos (List.mem_append_right _ old)]
        exact inductionHypothesis more
      · rw [fresh, fresh, if_neg old]
        by_cases known : key first ∈ seen
        · rw [if_pos (List.mem_append_left _ known), List.filter_cons_of_neg (by simpa using known),
            ← inductionHypothesis]
          refine fresh_congr key (fun other => ?_) items
          rw [List.mem_append, List.mem_append, List.mem_cons]
          constructor
          · exact fun present => present.imp_right .inr
          · rintro (inside | rfl | inside)
            · exact .inl inside
            · exact .inl known
            · exact .inr inside
        · rw [if_neg (by simp [known, old]), List.filter_cons_of_pos (by simpa using known),
            ← inductionHypothesis]
          refine congrArg (first :: ·) (fresh_congr key (fun other => ?_) items)
          simp only [List.mem_cons, List.mem_append]
          exact or_left_comm

/-- What is seen before only takes items away. -/
theorem fresh_eq_filter (seen : List Key) (items : List Item) :
    fresh key seen items = (fresh key [] items).filter fun item => key item ∉ seen := by
  have split := fresh_append key seen [] items
  rwa [List.append_nil] at split

end Keys

section Weights

variable (weight : Item → Nat)

def total (items : List Item) : Nat := (items.map weight).sum

theorem total_append (left right : List Item) :
    total weight (left ++ right) = total weight left + total weight right := by
  simp [total]

/-- The longest start of the list within the budget. -/
def affordable : Nat → List Item → List Item
  | _, [] => []
  | budget, item :: items =>
      if budget < weight item then [] else item :: affordable (budget - weight item) items

/-- What the list costs up to and including the item. -/
def reach [DecidableEq Item] (items : List Item) (item : Item) : Nat :=
  total weight (items.takeWhile (· ≠ item)) + weight item

theorem affordable_start (budget : Nat) (items : List Item) :
    affordable weight budget items <+: items := by
  induction items generalizing budget with
  | nil => exact List.prefix_rfl
  | cons first items inductionHypothesis =>
      unfold affordable
      split
      · exact List.nil_prefix
      · exact (List.prefix_cons_inj first).mpr (inductionHypothesis _)

/-- What is taken fits. -/
theorem affordable_total_le (budget : Nat) (items : List Item) :
    total weight (affordable weight budget items) ≤ budget := by
  induction items generalizing budget with
  | nil => exact Nat.zero_le _
  | cons first items inductionHypothesis =>
      unfold affordable
      split
      · exact Nat.zero_le _
      · have rest := inductionHypothesis (budget - weight first)
        simp only [total, List.map_cons, List.sum_cons] at rest ⊢
        omega

/-- A start that fits is taken whole. -/
theorem start_affordable {budget : Nat} {start items : List Item} (isStart : start <+: items)
    (cheap : total weight start ≤ budget) : start <+: affordable weight budget items := by
  induction items generalizing budget start with
  | nil =>
      rw [List.prefix_nil.mp isStart]
      exact List.nil_prefix
  | cons first items inductionHypothesis =>
      cases start with
      | nil => exact List.nil_prefix
      | cons head start =>
          obtain ⟨rfl, rest⟩ := List.cons_prefix_cons.mp isStart
          simp only [total, List.map_cons, List.sum_cons] at cheap
          unfold affordable
          rw [if_neg (by omega)]
          refine (List.prefix_cons_inj head).mpr (inductionHypothesis rest ?_)
          simp only [total]
          omega

/-- An item is taken if those up to it, without the ones that were passed over, fit. -/
theorem mem_affordable_iff [DecidableEq Item] {budget : Nat} {items : List Item} {item : Item} :
    item ∈ affordable weight budget items ↔ item ∈ items ∧ reach weight items item ≤ budget := by
  induction items generalizing budget with
  | nil => simp [affordable]
  | cons first items inductionHypothesis =>
      unfold affordable
      by_cases same : first = item
      · subst same
        have here : reach weight (first :: items) first = weight first := by simp [reach, total]
        rw [here]
        split
        · next dear => simp [Nat.not_le.mpr dear]
        · next cheap => simp [Nat.not_lt.mp cheap]
      · have later : reach weight (first :: items) item =
            weight first + reach weight items item := by
          simp [reach, total, same, Nat.add_assoc]
        rw [later, List.mem_cons, or_iff_right (Ne.symm same)]
        split
        · next dear =>
            simp only [List.not_mem_nil, false_iff, not_and]
            omega
        · next cheap =>
            rw [List.mem_cons, or_iff_right (Ne.symm same), inductionHypothesis]
            exact and_congr_right fun _ => by omega

end Weights

end GitZero.Budget
