/-
Module: GitZero.Lib.PrefixCodes
Purpose: Words that can be told apart where one of them starts.
Trusted boundary: none
Main exports: PrefixCode, PrefixCode.cancel, PrefixCode.flatMap_injective
-/
import Mathlib.Data.List.Basic

namespace GitZero

variable {α β : Type}

/-- No word is empty, and no word begins with another one. -/
structure PrefixCode (word : α → List β) : Prop where
  nonempty : ∀ one, word one ≠ []
  first : ∀ {one two : α} {rest other : List β},
    word one ++ rest = word two ++ other → one = two

namespace PrefixCode

variable {word : α → List β}

theorem cancel (code : PrefixCode word) {one two : α} {rest other : List β}
    (same : word one ++ rest = word two ++ other) : one = two ∧ rest = other := by
  obtain rfl := code.first same
  exact ⟨rfl, List.append_cancel_left same⟩

/-- A text is a sequence of words in one way only. -/
theorem flatMap_injective (code : PrefixCode word) {ones twos : List α}
    (same : ones.flatMap word = twos.flatMap word) : ones = twos := by
  induction ones generalizing twos with
  | nil =>
      cases twos with
      | nil => rfl
      | cons two twos =>
          rw [List.flatMap_nil, List.flatMap_cons] at same
          exact absurd (List.append_eq_nil_iff.mp same.symm).1 (code.nonempty two)
  | cons one ones inductionHypothesis =>
      cases twos with
      | nil =>
          rw [List.flatMap_nil, List.flatMap_cons] at same
          exact absurd (List.append_eq_nil_iff.mp same).1 (code.nonempty one)
      | cons two twos =>
          rw [List.flatMap_cons, List.flatMap_cons] at same
          obtain ⟨rfl, rest⟩ := code.cancel same
          rw [inductionHypothesis rest]

end PrefixCode

end GitZero
