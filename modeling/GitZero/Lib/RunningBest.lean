/-
Module: GitZero.Lib.RunningBest
Purpose: A loop that keeps the best item it has seen finds the least one of a strict
  total order, whatever the order of the list.
Trusted boundary: none
Main exports: turn, run, Ranks, Least, run_least, run_perm
-/
import Mathlib.Data.List.Induction

namespace GitZero.RunningBest

variable {α : Type} (keep : α → Bool) (before : α → α → Bool)

/-- An item that is kept replaces the best one if it comes before it. -/
def turn (best : Option α) (item : α) : Option α :=
  if keep item then
    match best with
    | none => some item
    | some current => if before item current then some item else best
  else best

/-- The best of the items so far, turn by turn. -/
def run (items : List α) : Option α := items.foldl (turn keep before) none

/-- A strict total order on the members. -/
structure Ranks (members : α → Prop) : Prop where
  irrefl : ∀ {item}, members item → before item item = false
  trans : ∀ {first second third}, members first → members second → members third →
    before first second = true → before second third = true → before first third = true
  total : ∀ {first second}, members first → members second →
    before first second = true ∨ first = second ∨ before second first = true

/-- The least kept item, if any is kept. -/
def Least (items : List α) : Option α → Prop
  | none => ∀ item ∈ items, keep item = false
  | some chosen => chosen ∈ items ∧ keep chosen = true ∧
      ∀ other ∈ items, keep other = true → other = chosen ∨ before chosen other = true

variable {keep before} {members : α → Prop} {items : List α} {best : Option α}

/-- An item that is not kept changes nothing. -/
theorem Least.skip (least : Least keep before items best) {item : α}
    (dropped : keep item = false) : Least keep before (items ++ [item]) best := by
  cases best with
  | none =>
      intro other member
      rcases List.mem_append.mp member with old | new
      · exact least other old
      · cases List.mem_singleton.mp new
        exact dropped
  | some chosen =>
      refine ⟨List.mem_append_left _ least.1, least.2.1, fun other member kept => ?_⟩
      rcases List.mem_append.mp member with old | new
      · exact least.2.2 other old kept
      · cases List.mem_singleton.mp new
        rw [dropped] at kept
        cases kept

theorem turn_least (ranks : Ranks before members) (inside : ∀ item ∈ items, members item)
    {item : α} (known : members item) (least : Least keep before items best) :
    Least keep before (items ++ [item]) (turn keep before best item) := by
  unfold turn
  split
  · next kept =>
      cases best with
      | none =>
          refine ⟨List.mem_append_right _ List.mem_cons_self, kept, fun other member keeps => ?_⟩
          rcases List.mem_append.mp member with old | new
          · rw [least other old] at keeps
            cases keeps
          · exact .inl (List.mem_singleton.mp new)
      | some current =>
          obtain ⟨present, currentKept, first⟩ := least
          dsimp only
          split
          · next replaces =>
              refine ⟨List.mem_append_right _ List.mem_cons_self, kept,
                fun other member keeps => ?_⟩
              rcases List.mem_append.mp member with old | new
              · rcases first other old keeps with rfl | later
                · exact .inr replaces
                · exact .inr (ranks.trans known (inside current present) (inside other old)
                    replaces later)
              · exact .inl (List.mem_singleton.mp new)
          · next stays =>
              refine ⟨List.mem_append_left _ present, currentKept, fun other member keeps => ?_⟩
              rcases List.mem_append.mp member with old | new
              · exact first other old keeps
              · cases List.mem_singleton.mp new
                rcases ranks.total (inside current present) known with earlier | same | later
                · exact .inr earlier
                · exact .inl same.symm
                · exact absurd later stays
  · next dropped => exact least.skip (by simpa using dropped)

/-- The loop ends with a least item. -/
theorem run_least (ranks : Ranks before members) (inside : ∀ item ∈ items, members item) :
    Least keep before items (run keep before items) := by
  induction items using List.reverseRecOn with
  | nil => exact fun item member => by cases member
  | append_singleton items item inductionHypothesis =>
      rw [run, List.foldl_append]
      exact turn_least ranks (fun item member => inside item (List.mem_append_left _ member))
        (inside item (List.mem_append_right _ List.mem_cons_self))
        (inductionHypothesis fun item member => inside item (List.mem_append_left _ member))

/-- There is one least item. -/
theorem Least.unique (ranks : Ranks before members) (inside : ∀ item ∈ items, members item)
    {other : Option α} (left : Least keep before items best)
    (right : Least keep before items other) : best = other := by
  cases best with
  | none =>
      cases other with
      | none => rfl
      | some chosen =>
          have dropped := left chosen right.1
          rw [right.2.1] at dropped
          cases dropped
  | some first =>
      cases other with
      | none =>
          have dropped := right first left.1
          rw [left.2.1] at dropped
          cases dropped
      | some second =>
          have knownFirst := inside first left.1
          have knownSecond := inside second right.1
          rcases left.2.2 second right.1 right.2.1 with same | forward
          · rw [same]
          · rcases right.2.2 first left.1 left.2.1 with same | backward
            · rw [same]
            · have cycle := ranks.trans knownFirst knownSecond knownFirst forward backward
              rw [ranks.irrefl knownFirst] at cycle
              cases cycle

theorem Least.congr {others : List α} (same : ∀ item, item ∈ others ↔ item ∈ items)
    (least : Least keep before items best) : Least keep before others best := by
  cases best with
  | none => exact fun item member => least item ((same item).mp member)
  | some chosen =>
      exact ⟨(same chosen).mpr least.1, least.2.1, fun other member kept =>
        least.2.2 other ((same other).mp member) kept⟩

/-- The order of the items does not matter. -/
theorem run_perm (ranks : Ranks before members) (inside : ∀ item ∈ items, members item)
    {others : List α} (permuted : others.Perm items) :
    run keep before others = run keep before items := by
  have found : Least keep before items (run keep before others) :=
    (run_least ranks fun item member => inside item (permuted.mem_iff.mp member)).congr
      fun item => permuted.mem_iff.symm
  exact found.unique ranks inside (run_least ranks inside)

end GitZero.RunningBest
