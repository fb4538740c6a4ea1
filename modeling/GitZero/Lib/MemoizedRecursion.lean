/-
Module: GitZero.Lib.MemoizedRecursion
Purpose: Boolean recursions that call themselves at most twice, with and without a table of the
  results.
Trusted boundary: none
Main exports: Calls, Recursion, Recursion.plain, Recursion.memoized, memoized_spec, plain_iff
-/
import Mathlib.Data.List.Basic

namespace GitZero.MemoizedRecursion

variable {κ : Type}

/-- What a call does: it returns, or makes another call, or a second one where the first returns
false. -/
inductive Calls (κ : Type) where
  | returns (value : Bool)
  | one (key : κ)
  | either (first second : κ)
deriving Repr, DecidableEq

namespace Calls

def keys : Calls κ → List κ
  | returns _ => []
  | one key => [key]
  | either first second => [first, second]

/-- The result, where the calls return what the predicate says. -/
def Holds (predicate : κ → Prop) : Calls κ → Prop
  | returns value => value = true
  | one key => predicate key
  | either first second => predicate first ∨ predicate second

end Calls

/-- A recursion whose calls go down. -/
structure Recursion (κ : Type) where
  calls : κ → Calls κ
  rank : κ → Nat × Nat
  decreasing : ∀ key, ∀ next ∈ (calls key).keys, Prod.Lex (· < ·) (· < ·) (rank next) (rank key)

/-- The answers that have been remembered. -/
abbrev Table (κ : Type) := List (κ × Bool)

namespace Recursion

/-- The recursion without a table. -/
def plain (recursion : Recursion κ) (key : κ) : Bool :=
  match _isCalls : recursion.calls key with
  | .returns value => value
  | .one next => recursion.plain next
  | .either first second => recursion.plain first || recursion.plain second
termination_by recursion.rank key
decreasing_by
  · exact recursion.decreasing key next (by simp [_isCalls, Calls.keys])
  · exact recursion.decreasing key first (by simp [_isCalls, Calls.keys])
  · exact recursion.decreasing key second (by simp [_isCalls, Calls.keys])

/-- The recursion with a table, which is asked first and takes each result. -/
def memoized [DecidableEq κ] (recursion : Recursion κ) (key : κ) (table : Table κ) :
    Bool × Table κ :=
  match table.lookup key with
  | some result => (result, table)
  | none =>
      let outcome : Bool × Table κ :=
        match _isCalls : recursion.calls key with
        | .returns value => (value, table)
        | .one next => recursion.memoized next table
        | .either first second =>
            let tried := recursion.memoized first table
            if tried.1 then (true, tried.2) else recursion.memoized second tried.2
      (outcome.1, (key, outcome.1) :: outcome.2)
termination_by recursion.rank key
decreasing_by
  · exact recursion.decreasing key next (by simp [_isCalls, Calls.keys])
  · exact recursion.decreasing key first (by simp [_isCalls, Calls.keys])
  · exact recursion.decreasing key second (by simp [_isCalls, Calls.keys])

variable (recursion : Recursion κ)

/-- Rank induction: what holds of a key where it holds of its calls holds of every key. -/
theorem rank_induction {property : κ → Prop}
    (holds : ∀ key, (∀ next ∈ (recursion.calls key).keys, property next) → property key)
    (key : κ) : property key :=
  holds key fun next _ => rank_induction holds next
termination_by recursion.rank key
decreasing_by exact recursion.decreasing key next ‹_›

variable {recursion} in
theorem plain_of_returns {key : κ} {value : Bool} (isCalls : recursion.calls key = .returns value) :
    recursion.plain key = value := by
  rw [plain]
  split
  · next found => cases isCalls.symm.trans found; rfl
  · next found => cases isCalls.symm.trans found
  · next found => cases isCalls.symm.trans found

variable {recursion} in
theorem plain_of_one {key next : κ} (isCalls : recursion.calls key = .one next) :
    recursion.plain key = recursion.plain next := by
  rw [plain]
  split
  · next found => cases isCalls.symm.trans found
  · next found => cases isCalls.symm.trans found; rfl
  · next found => cases isCalls.symm.trans found

variable {recursion} in
theorem plain_of_either {key first second : κ}
    (isCalls : recursion.calls key = .either first second) :
    recursion.plain key = (recursion.plain first || recursion.plain second) := by
  rw [plain]
  split
  · next found => cases isCalls.symm.trans found
  · next found => cases isCalls.symm.trans found
  · next found => cases isCalls.symm.trans found; rfl

theorem plain_holds (key : κ) :
    recursion.plain key = true ↔
      (recursion.calls key).Holds fun next => recursion.plain next = true := by
  cases isCalls : recursion.calls key with
  | returns value => rw [plain_of_returns isCalls, Calls.Holds]
  | one next => rw [plain_of_one isCalls, Calls.Holds]
  | either first second => rw [plain_of_either isCalls, Calls.Holds, Bool.or_eq_true]

/-- A predicate that meets the equations of the recursion is what it computes. -/
theorem plain_iff {reached predicate : κ → Prop}
    (equation : ∀ key, reached key → (predicate key ↔ (recursion.calls key).Holds predicate))
    (reaches : ∀ key, reached key → ∀ next ∈ (recursion.calls key).keys, reached next)
    (key : κ) (isReached : reached key) : recursion.plain key = true ↔ predicate key := by
  induction key using recursion.rank_induction with | holds key inductionHypothesis
  have next : ∀ next ∈ (recursion.calls key).keys,
      (recursion.plain next = true ↔ predicate next) := fun next member =>
    inductionHypothesis next member (reaches key isReached next member)
  rw [plain_holds, equation key isReached]
  cases isCalls : recursion.calls key with
  | returns value => exact Iff.rfl
  | one only =>
      rw [isCalls] at next
      exact next only (List.mem_singleton_self _)
  | either first second =>
      rw [isCalls] at next
      exact or_congr (next first List.mem_cons_self)
        (next second (List.mem_cons_of_mem _ (List.mem_singleton_self _)))

section Table

variable [DecidableEq κ]

/-- The entries of the table are results of the recursion. -/
def Correct (table : Table κ) : Prop :=
  ∀ key result, table.lookup key = some result → result = recursion.plain key

theorem Correct.cons {recursion : Recursion κ} {table : Table κ} (correct : recursion.Correct table)
    (key : κ) : recursion.Correct ((key, recursion.plain key) :: table) := by
  intro other result found
  rw [List.lookup_cons] at found
  by_cases same : other = key
  · subst same
    simpa [eq_comm] using found
  · rw [beq_false_of_ne same] at found
    exact correct other result found

/-- The table changes no result. -/
theorem memoized_spec (key : κ) {table : Table κ} (correct : recursion.Correct table) :
    (recursion.memoized key table).1 = recursion.plain key ∧
      recursion.Correct (recursion.memoized key table).2 := by
  induction key using recursion.rank_induction generalizing table with
    | holds key inductionHypothesis
  have inserted : ∀ outcome : Bool × Table κ,
      outcome.1 = recursion.plain key ∧ recursion.Correct outcome.2 →
        outcome.1 = recursion.plain key ∧ recursion.Correct ((key, outcome.1) :: outcome.2) := by
    rintro outcome ⟨same, correct⟩
    rw [same]
    exact ⟨rfl, correct.cons key⟩
  rw [memoized]
  cases found : table.lookup key with
  | some result => exact ⟨correct key result found, correct⟩
  | none =>
      dsimp only
      refine inserted _ ?_
      split
      · next value isCalls => exact ⟨by rw [plain_of_returns isCalls], correct⟩
      · next only isCalls =>
          rw [plain_of_one isCalls]
          exact inductionHypothesis only (by simp [isCalls, Calls.keys]) correct
      · next first second isCalls =>
          obtain ⟨same, after⟩ :=
            inductionHypothesis first (by simp [isCalls, Calls.keys]) correct
          rw [plain_of_either isCalls, ← same]
          cases tried : (recursion.memoized first table).1 with
          | true => exact ⟨rfl, after⟩
          | false => exact inductionHypothesis second (by simp [isCalls, Calls.keys]) after

end Table

end Recursion

end GitZero.MemoizedRecursion
