/-
Module: GitZero.Lib.Recording
Purpose: Computations that write a record and may fail; the record outlives the failure.
Trusted boundary: none
Main exports: Recording, Recording.fail, Recording.update, Recording.bind_assoc,
  Recording.Ensures, Recording.ensures_bind
-/
import Mathlib.Logic.Basic

namespace GitZero

/-- The record afterwards, and the value unless the computation failed. -/
def Recording (ρ α : Type) : Type := ρ → ρ × Option α

namespace Recording

variable {ρ α β : Type}

protected def pure (value : α) : Recording ρ α := fun record => (record, some value)

protected def bind (program : Recording ρ α) (next : α → Recording ρ β) : Recording ρ β :=
  fun record =>
    match program record with
    | (after, some value) => next value after
    | (after, none) => (after, none)

instance : Monad (Recording ρ) where
  pure := Recording.pure
  bind := Recording.bind

def fail : Recording ρ α := fun record => (record, none)

def read : Recording ρ ρ := fun record => (record, some record)

def update (change : ρ → ρ) : Recording ρ Unit := fun record => (change record, some ())

def ofOption : Option α → Recording ρ α
  | some value => pure value
  | none => fail

theorem bind_assoc {γ : Type} (program : Recording ρ α) (next : α → Recording ρ β)
    (last : β → Recording ρ γ) :
    program >>= next >>= last = program >>= fun value => next value >>= last := by
  funext record
  change Recording.bind (Recording.bind program next) last record =
    Recording.bind program (fun value => Recording.bind (next value) last) record
  unfold Recording.bind
  split
  · next after value ran =>
      split at ran
      · simp [ran]
      · cases ran
  · next after ran =>
      split at ran
      · simp [ran]
      · cases ran
        simp

/-- What holds of the record when the computation returns, and when it fails. -/
def Ensures (program : Recording ρ α) (record : ρ) (returns : α → ρ → Prop)
    (fails : ρ → Prop) : Prop :=
  match program record with
  | (after, some value) => returns value after
  | (after, none) => fails after

section Rules

variable {record : ρ} {returns : α → ρ → Prop} {fails : ρ → Prop}

theorem ensures_pure {value : α} (holds : returns value record) :
    Ensures (pure value) record returns fails := holds

theorem ensures_fail (holds : fails record) : Ensures (fail : Recording ρ α) record returns fails :=
  holds

theorem ensures_bind {program : Recording ρ α} {next : α → Recording ρ β}
    {between : α → ρ → Prop} {returns : β → ρ → Prop}
    (first : Ensures program record between fails)
    (second : ∀ value after, between value after → Ensures (next value) after returns fails) :
    Ensures (program >>= next) record returns fails := by
  change Ensures (Recording.bind program next) record returns fails
  unfold Ensures Recording.bind at *
  split at first
  · next after value ran => simpa only [ran] using second value after first
  · next after ran => simpa only [ran] using first

theorem ensures_read_bind {next : ρ → Recording ρ α}
    (rest : Ensures (next record) record returns fails) :
    Ensures (read >>= next) record returns fails := rest

theorem ensures_update_bind {change : ρ → ρ} {next : Unit → Recording ρ α}
    (rest : Ensures (next ()) (change record) returns fails) :
    Ensures (update change >>= next) record returns fails := rest

theorem ensures_ofOption_bind {option : Option α} {next : α → Recording ρ β}
    {returns : β → ρ → Prop} (none : option = .none → fails record)
    (some : ∀ value, option = .some value → Ensures (next value) record returns fails) :
    Ensures (ofOption option >>= next) record returns fails := by
  cases option with
  | none => exact none rfl
  | some value => exact some value rfl

theorem Ensures.mono {program : Recording ρ α} {weaker : α → ρ → Prop} {lost : ρ → Prop}
    (ensures : Ensures program record returns fails)
    (returned : ∀ value after, returns value after → weaker value after)
    (failed : ∀ after, fails after → lost after) : Ensures program record weaker lost := by
  unfold Ensures at *
  split at ensures
  · exact returned _ _ ensures
  · exact failed _ ensures

end Rules

end Recording

end GitZero
