/-
Module: GitZero.Proofs.JsonTexts
Purpose: The text of an array of strings, counts and nulls determines the array.
Trusted boundary: none
Main exports: quote_append_inj, Flat, stringify_array_inj
-/
import GitZero.ControlPlane.EventChunks

namespace GitZero.ControlPlane

open Utf16

/-! ### Quoted strings -/

def hexValue (digit : Char) : Nat :=
  if digit.isDigit then digit.toNat - 48 else digit.toNat - 87

/-- The character that begins the rest of an escape `\u` and what follows. -/
def unhex : List Char → Option (JsChar × List Char)
  | first :: second :: third :: fourth :: rest =>
      let unit := ((hexValue first * 16 + hexValue second) * 16 + hexValue third) * 16 +
        hexValue fourth
      some (if isHigh unit || isLow unit then .lone unit else .scalar (Char.ofNat unit), rest)
  | _ => none

def unescape : List Char → Option (JsChar × List Char)
  | [] => none
  | kind :: rest =>
      if kind = 'u' then unhex rest
      else if kind = 'b' then some (.scalar (Char.ofNat 8), rest)
      else if kind = 't' then some (.scalar (Char.ofNat 9), rest)
      else if kind = 'n' then some (.scalar (Char.ofNat 10), rest)
      else if kind = 'f' then some (.scalar (Char.ofNat 12), rest)
      else if kind = 'r' then some (.scalar (Char.ofNat 13), rest)
      else some (.scalar kind, rest)

/-- The first character of the inside of a quoted string and what follows. -/
def unquoteChar : List Char → Option (JsChar × List Char)
  | [] => none
  | first :: rest => if first = '\\' then unescape rest else some (.scalar first, rest)

theorem hexValue_hexDigit (value : Nat) : hexValue (hexDigit value) = value % 16 := by
  have table : ∀ digit < 16, hexValue (hexDigit digit) = digit := by decide
  have reduced : hexDigit value = hexDigit (value % 16) := by
    unfold hexDigit
    rw [Nat.mod_mod]
  rw [reduced]
  exact table _ (Nat.mod_lt _ (by decide))

theorem unquoteChar_unicodeEscape {unit : Nat} (small : unit < 65536) (rest : List Char) :
    unquoteChar (unicodeEscape unit ++ rest) =
      some (if isHigh unit || isLow unit then .lone unit else .scalar (Char.ofNat unit), rest) := by
  have value : ((unit / 4096 % 16 * 16 + unit / 256 % 16) * 16 + unit / 16 % 16) * 16 +
      unit % 16 = unit := by omega
  simp only [unicodeEscape, List.cons_append, List.nil_append, unquoteChar, unescape, unhex,
    if_true, hexValue_hexDigit, value]

theorem char_of_code {char : Char} {code : Nat} (same : char.toNat = code) :
    Char.ofNat code = char := by
  rw [← same, Char.ofNat_toNat]

theorem unquoteChar_quoteChar {char : JsChar} (wellFormed : char.WellFormed) (rest : List Char) :
    unquoteChar (quoteChar char ++ rest) = some (char, rest) := by
  cases char with
  | lone unit =>
      obtain ⟨low, high⟩ := wellFormed
      have surrogate : (isHigh unit || isLow unit) = true := by
        simp only [isHigh, isLow, Bool.or_eq_true, Bool.and_eq_true, decide_eq_true_eq]
        omega
      rw [quoteChar, unquoteChar_unicodeEscape (by omega), if_pos surrogate]
  | scalar char =>
      unfold quoteChar
      dsimp only
      split_ifs with quotes slash back tab line form carriage control
      · subst quotes
        rfl
      · subst slash
        rfl
      · rw [← char_of_code back]
        rfl
      · rw [← char_of_code tab]
        rfl
      · rw [← char_of_code line]
        rfl
      · rw [← char_of_code form]
        rfl
      · rw [← char_of_code carriage]
        rfl
      · have plain : (isHigh char.toNat || isLow char.toNat) = false := by
          simp only [isHigh, isLow, Bool.or_eq_false_iff, Bool.and_eq_false_iff,
            decide_eq_false_iff_not]
          omega
        rw [unquoteChar_unicodeEscape (by omega), plain, if_neg Bool.false_ne_true,
          Char.ofNat_toNat]
      · rw [List.singleton_append, unquoteChar, if_neg slash]

theorem quoteChar_inj {left right : JsChar} (leftFormed : left.WellFormed)
    (rightFormed : right.WellFormed) {after later : List Char}
    (same : quoteChar left ++ after = quoteChar right ++ later) : left = right ∧ after = later := by
  have read := unquoteChar_quoteChar leftFormed after
  rw [same, unquoteChar_quoteChar rightFormed later, Option.some.injEq, Prod.mk.injEq] at read
  exact ⟨read.1.symm, read.2.symm⟩

/-- No character is written with a quotation mark first. -/
theorem quoteChar_ne_quote (char : JsChar) (after later : List Char) :
    '"' :: after ≠ quoteChar char ++ later := by
  cases char with
  | lone unit =>
      intro same
      rw [quoteChar, unicodeEscape, List.cons_append] at same
      exact absurd (List.cons.inj same).1 (by decide)
  | scalar char =>
      unfold quoteChar
      dsimp only
      split_ifs with quotes
      all_goals
        intro same
        have head := (List.cons.inj same).1
        first
          | exact absurd head (by decide)
          | exact quotes head.symm

theorem quoteChars_inj {left right : List JsChar} (leftFormed : ∀ char ∈ left, char.WellFormed)
    (rightFormed : ∀ char ∈ right, char.WellFormed) {after later : List Char}
    (same : left.flatMap quoteChar ++ '"' :: after = right.flatMap quoteChar ++ '"' :: later) :
    left = right ∧ after = later := by
  induction left generalizing right with
  | nil =>
      cases right with
      | nil => exact ⟨rfl, (List.cons.inj same).2⟩
      | cons char right =>
          rw [List.flatMap_nil, List.nil_append, List.flatMap_cons, List.append_assoc] at same
          exact absurd same (quoteChar_ne_quote char _ _)
  | cons first left inductionHypothesis =>
      cases right with
      | nil =>
          rw [List.flatMap_nil, List.nil_append, List.flatMap_cons, List.append_assoc] at same
          exact absurd same.symm (quoteChar_ne_quote first _ _)
      | cons char right =>
          rw [List.flatMap_cons, List.append_assoc, List.flatMap_cons, List.append_assoc] at same
          obtain ⟨rfl, rest⟩ := quoteChar_inj (leftFormed _ List.mem_cons_self)
            (rightFormed _ List.mem_cons_self) same
          obtain ⟨rfl, tails⟩ := inductionHypothesis
            (fun char member => leftFormed char (List.mem_cons_of_mem _ member))
            (fun char member => rightFormed char (List.mem_cons_of_mem _ member)) rest
          exact ⟨rfl, tails⟩

/-- A quoted string ends where it ends. -/
theorem quote_append_inj {left right : List JsChar} (leftFormed : ∀ char ∈ left, char.WellFormed)
    (rightFormed : ∀ char ∈ right, char.WellFormed) {after later : List Char}
    (same : quote left ++ after = quote right ++ later) : left = right ∧ after = later := by
  simp only [quote, List.cons_append, List.append_assoc, List.nil_append] at same
  exact quoteChars_inj leftFormed rightFormed (List.cons.inj same).2

/-! ### Arrays -/

/-- A string, a count or null. -/
inductive Flat : Json → Prop where
  | null : Flat .null
  | string {value : List JsChar} (wellFormed : ∀ char ∈ value, char.WellFormed) :
      Flat (.string value)
  | number {value : NumberText} (filled : value.text ≠ [])
      (digits : ∀ char ∈ value.text, char.isDigit = true) : Flat (.number value)

/-- A text without lone surrogates is flat. -/
theorem scalars_flat (chars : List Char) : Flat (.string (chars.map .scalar)) := by
  apply Flat.string
  intro char member
  obtain ⟨scalar, _, rfl⟩ := List.mem_map.mp member
  trivial

/-- What follows an item in an array. -/
def Delimited (text : List Char) : Prop :=
  ∃ rest, text = ',' :: rest ∨ text = ']' :: rest

theorem takeWhile_digits {text after : List Char} (digits : ∀ char ∈ text, char.isDigit = true)
    (delimited : Delimited after) : (text ++ after).takeWhile Char.isDigit = text := by
  rw [List.takeWhile_append_of_pos digits]
  obtain ⟨rest, rfl | rfl⟩ := delimited
  · rw [List.takeWhile_cons_of_neg (by decide), List.append_nil]
  · rw [List.takeWhile_cons_of_neg (by decide), List.append_nil]

/-- The kind of an item, as its first character tells it. -/
def kindOf (first : Char) : Nat :=
  if first = 'n' then 0 else if first = '"' then 1 else if first.isDigit then 2 else 3

theorem Flat.kind {item : Json} (flat : Flat item) (after : List Char) :
    ((item.stringify ++ after).head?).map kindOf =
      some (match item with | .null => 0 | .string _ => 1 | _ => 2) := by
  cases flat with
  | null => rfl
  | string wellFormed => rfl
  | @number value filled digits =>
      obtain ⟨first, rest, isText⟩ := List.exists_cons_of_ne_nil filled
      have digit : first.isDigit = true := digits first (isText ▸ List.mem_cons_self)
      have notNull : first ≠ 'n' := fun same => absurd digit (same ▸ by decide)
      have notQuote : first ≠ '"' := fun same => absurd digit (same ▸ by decide)
      simp [Json.stringify, isText, kindOf, notNull, notQuote, digit]

theorem stringify_append_inj {left right : Json} (leftFlat : Flat left) (rightFlat : Flat right)
    {after later : List Char} (afterDelimited : Delimited after) (laterDelimited : Delimited later)
    (same : left.stringify ++ after = right.stringify ++ later) : left = right ∧ after = later := by
  have kinds := leftFlat.kind after
  rw [same, rightFlat.kind later] at kinds
  cases leftFlat with
  | null =>
      cases rightFlat with
      | null => exact ⟨rfl, List.append_cancel_left same⟩
      | string => cases kinds
      | number => cases kinds
  | string leftFormed =>
      cases rightFlat with
      | null => cases kinds
      | string rightFormed =>
          obtain ⟨rfl, rest⟩ := quote_append_inj leftFormed rightFormed same
          exact ⟨rfl, rest⟩
      | number => cases kinds
  | @number leftValue _ leftDigits =>
      cases rightFlat with
      | null => cases kinds
      | string => cases kinds
      | @number rightValue _ rightDigits =>
          have texts : leftValue.text = rightValue.text := by
            rw [← takeWhile_digits leftDigits afterDelimited,
              ← takeWhile_digits rightDigits laterDelimited]
            exact congrArg (List.takeWhile Char.isDigit) same
          cases leftValue
          cases rightValue
          cases texts
          exact ⟨rfl, List.append_cancel_left same⟩

theorem delimited_moreItems (items : List Json) (after : List Char) :
    Delimited (stringifyMoreItems items ++ ']' :: after) := by
  cases items with
  | nil => exact ⟨after, .inr rfl⟩
  | cons item items => exact ⟨_, .inl rfl⟩

theorem stringifyMoreItems_inj {left right : List Json} (leftFlat : ∀ item ∈ left, Flat item)
    (rightFlat : ∀ item ∈ right, Flat item)
    (same : stringifyMoreItems left ++ [']'] = stringifyMoreItems right ++ [']']) :
    left = right := by
  induction left generalizing right with
  | nil =>
      cases right with
      | nil => rfl
      | cons item right => exact absurd (List.cons.inj same).1 (by decide)
  | cons first left inductionHypothesis =>
      cases right with
      | nil => exact absurd (List.cons.inj same).1 (by decide)
      | cons item right =>
          simp only [stringifyMoreItems, List.cons_append, List.append_assoc] at same
          obtain ⟨rfl, rest⟩ := stringify_append_inj (leftFlat _ List.mem_cons_self)
            (rightFlat _ List.mem_cons_self) (delimited_moreItems left [])
            (delimited_moreItems right []) (List.cons.inj same).2
          rw [inductionHypothesis (fun item member => leftFlat item (List.mem_cons_of_mem _ member))
            (fun item member => rightFlat item (List.mem_cons_of_mem _ member)) rest]

/-- `JSON.stringify` keeps apart the arrays that have a first item. -/
theorem stringify_array_inj {first other : Json} {left right : List Json}
    (leftFlat : ∀ item ∈ first :: left, Flat item) (rightFlat : ∀ item ∈ other :: right, Flat item)
    (same : (Json.array (first :: left)).stringify = (Json.array (other :: right)).stringify) :
    first :: left = other :: right := by
  simp only [Json.stringify, stringifyItems, List.append_assoc] at same
  obtain ⟨rfl, rest⟩ := stringify_append_inj (leftFlat _ List.mem_cons_self)
    (rightFlat _ List.mem_cons_self) (delimited_moreItems left []) (delimited_moreItems right [])
    (List.cons.inj same).2
  rw [stringifyMoreItems_inj (fun item member => leftFlat item (List.mem_cons_of_mem _ member))
    (fun item member => rightFlat item (List.mem_cons_of_mem _ member)) rest]

end GitZero.ControlPlane
