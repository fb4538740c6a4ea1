/-
Module: GitZero.Lib.Base64
Purpose: Base64 with padding, and its forgiving decoder.
Trusted boundary: none
Main exports: btoa, atob, atob_btoa
-/
import Mathlib.Data.List.Nodup

namespace GitZero.Base64

def alphabet : List Char :=
  "ABCDEFGHIJKLMNOPQRSTUVWXYZabcdefghijklmnopqrstuvwxyz0123456789+/".toList

def symbol (sextet : Nat) : Char := alphabet.getD sextet '='

def value (char : Char) : Option Nat :=
  if char ∈ alphabet then some (alphabet.idxOf char) else none

/-- The bytes in groups of six bits, the last one filled up with zeros. -/
def sextets : List UInt8 → List Nat
  | [] => []
  | [first] => [first.toNat / 4, first.toNat % 4 * 16]
  | [first, second] =>
      [first.toNat / 4, first.toNat % 4 * 16 + second.toNat / 16, second.toNat % 16 * 4]
  | first :: second :: third :: rest =>
      first.toNat / 4 :: (first.toNat % 4 * 16 + second.toNat / 16) ::
        (second.toNat % 16 * 4 + third.toNat / 64) :: third.toNat % 64 :: sextets rest

def padding (count : Nat) : Nat := (3 - count % 3) % 3

/-- Base64 with padding. -/
def btoa (bytes : List UInt8) : List Char :=
  (sextets bytes).map symbol ++ List.replicate (padding bytes.length) '='

def isAsciiWhitespace (char : Char) : Bool :=
  char = '\t' || char = '\n' || char = '\x0c' || char = '\r' || char = ' '

/-- One or two signs of padding at the end are removed. -/
def unpad (text : List Char) : List Char :=
  match text.reverse with
  | '=' :: '=' :: rest => rest.reverse
  | '=' :: rest => rest.reverse
  | _ => text

/-- The bytes of groups of six bits; what is left of the last group is discarded. -/
def octets : List Nat → List UInt8
  | first :: second :: third :: fourth :: rest =>
      UInt8.ofNat (first * 4 + second / 16) :: UInt8.ofNat (second % 16 * 16 + third / 4) ::
        UInt8.ofNat (third % 4 * 64 + fourth) :: octets rest
  | [first, second, third] =>
      [UInt8.ofNat (first * 4 + second / 16), UInt8.ofNat (second % 16 * 16 + third / 4)]
  | [first, second] => [UInt8.ofNat (first * 4 + second / 16)]
  | _ => []

/-- Forgiving-base64 decode; `none` where `atob` throws. -/
def atob (text : List Char) : Option (List UInt8) := do
  let text := text.filter fun char => !isAsciiWhitespace char
  let text := if text.length % 4 = 0 then unpad text else text
  if text.length % 4 = 1 then none
  else octets <$> text.mapM value

/-! ### The round trip -/

theorem alphabet_eq : alphabet =
    ['A', 'B', 'C', 'D', 'E', 'F', 'G', 'H', 'I', 'J', 'K', 'L', 'M', 'N', 'O', 'P', 'Q', 'R', 'S',
      'T', 'U', 'V', 'W', 'X', 'Y', 'Z', 'a', 'b', 'c', 'd', 'e', 'f', 'g', 'h', 'i', 'j', 'k', 'l',
      'm', 'n', 'o', 'p', 'q', 'r', 's', 't', 'u', 'v', 'w', 'x', 'y', 'z', '0', '1', '2', '3', '4',
      '5', '6', '7', '8', '9', '+', '/'] :=
  String.toList_ofList

theorem nodup_alphabet : alphabet.Nodup := by
  refine List.Nodup.of_map Char.toNat ?_
  rw [alphabet_eq]
  decide

theorem alphabet_codes : ∀ code ∈ alphabet.map Char.toNat, 42 < code ∧ code ≠ 61 := by
  rw [alphabet_eq]
  decide

theorem alphabet_plain {char : Char} (member : char ∈ alphabet) :
    char ≠ '=' ∧ isAsciiWhitespace char = false := by
  obtain ⟨above, other⟩ := alphabet_codes _ (List.mem_map_of_mem member)
  refine ⟨fun same => other (congrArg Char.toNat same), ?_⟩
  have apart : ∀ space : Char, space.toNat ≤ 42 → (decide (char = space)) = false :=
    fun space low => decide_eq_false fun same => absurd above (same ▸ Nat.not_lt.mpr low)
  rw [isAsciiWhitespace, apart '\t' (by decide), apart '\n' (by decide), apart '\x0c' (by decide),
    apart '\r' (by decide), apart ' ' (by decide)]
  rfl

theorem exists_symbol {sextet : Nat} (small : sextet < 64) :
    ∃ inside : sextet < alphabet.length, symbol sextet = alphabet[sextet] := by
  have inside : sextet < alphabet.length := by
    rw [alphabet_eq]
    exact small
  refine ⟨inside, ?_⟩
  rw [symbol, List.getD_eq_getElem?_getD, List.getElem?_eq_getElem inside, Option.getD_some]

theorem symbol_mem {sextet : Nat} (small : sextet < 64) : symbol sextet ∈ alphabet := by
  obtain ⟨inside, isSymbol⟩ := exists_symbol small
  rw [isSymbol]
  exact List.getElem_mem inside

theorem symbol_table : ∀ sextet < 64, value (symbol sextet) = some sextet ∧
    symbol sextet ≠ '=' ∧ isAsciiWhitespace (symbol sextet) = false := by
  intro sextet small
  refine ⟨?_, alphabet_plain (symbol_mem small)⟩
  obtain ⟨inside, isSymbol⟩ := exists_symbol small
  rw [value, if_pos (symbol_mem small), isSymbol, nodup_alphabet.idxOf_getElem]

theorem sextets_lt (bytes : List UInt8) : ∀ sextet ∈ sextets bytes, sextet < 64 := by
  induction bytes using sextets.induct with
  | case1 => simp [sextets]
  | case2 first =>
      have small := first.toNat_lt
      simp only [sextets, List.forall_mem_cons, List.not_mem_nil, false_imp_iff, implies_true,
        and_true]
      omega
  | case3 first second =>
      have small := first.toNat_lt
      have smallToo := second.toNat_lt
      simp only [sextets, List.forall_mem_cons, List.not_mem_nil, false_imp_iff, implies_true,
        and_true]
      omega
  | case4 first second third rest inductionHypothesis =>
      have small := first.toNat_lt
      have smallToo := second.toNat_lt
      have smallThree := third.toNat_lt
      simp only [sextets, List.forall_mem_cons]
      exact ⟨by omega, by omega, by omega, by omega, inductionHypothesis⟩

theorem ofNat_eq (byte : UInt8) {code : Nat} (same : code = byte.toNat) :
    UInt8.ofNat code = byte := by
  rw [same, UInt8.ofNat_toNat]

theorem octets_sextets (bytes : List UInt8) : octets (sextets bytes) = bytes := by
  induction bytes using sextets.induct with
  | case1 => rfl
  | case2 first =>
      have small := first.toNat_lt
      rw [sextets, octets, ofNat_eq first (by omega)]
  | case3 first second =>
      have small := first.toNat_lt
      have smallToo := second.toNat_lt
      rw [sextets, octets, ofNat_eq first (by omega), ofNat_eq second (by omega)]
  | case4 first second third rest inductionHypothesis =>
      have small := first.toNat_lt
      have smallToo := second.toNat_lt
      have smallThree := third.toNat_lt
      rw [sextets, octets, inductionHypothesis, ofNat_eq first (by omega),
        ofNat_eq second (by omega), ofNat_eq third (by omega)]

theorem sextets_length (bytes : List UInt8) :
    ((sextets bytes).length + padding bytes.length) % 4 = 0 ∧ (sextets bytes).length % 4 ≠ 1 := by
  induction bytes using sextets.induct with
  | case1 => decide
  | case2 first => simp [sextets, padding]
  | case3 first second => simp [sextets, padding]
  | case4 first second third rest inductionHypothesis =>
      simp only [sextets, List.length_cons, padding] at inductionHypothesis ⊢
      omega

/-- Signs of padding before the last two are kept. -/
theorem unpad_padded {text : List Char} (filled : ∀ char ∈ text, char ≠ '=') {count : Nat}
    (few : count ≤ 2) : unpad (text ++ List.replicate count '=') = text := by
  have last : text.reverse.head? ≠ some '=' := by
    intro found
    exact filled '=' (List.mem_reverse.mp (List.mem_of_head? found)) rfl
  unfold unpad
  rw [List.reverse_append, List.reverse_replicate]
  obtain rfl | rfl | rfl : count = 0 ∨ count = 1 ∨ count = 2 := by omega
  · rw [List.replicate_zero, List.nil_append, List.append_nil]
    split
    · next same => simp [same] at last
    · next same => simp [same] at last
    · rfl
  · rw [List.replicate_one, List.singleton_append]
    split
    · next same => simp [(List.cons.inj same).2] at last
    · next same => rw [← (List.cons.inj same).2, List.reverse_reverse]
    · next other => exact absurd rfl (other _)
  · exact List.reverse_reverse text

theorem mapM_value_symbol {codes : List Nat} (small : ∀ sextet ∈ codes, sextet < 64) :
    (codes.map symbol).mapM value = some codes := by
  induction codes with
  | nil => rfl
  | cons first codes inductionHypothesis =>
      rw [List.map_cons, List.mapM_cons, (symbol_table first (small first List.mem_cons_self)).1,
        inductionHypothesis fun sextet member => small sextet (List.mem_cons_of_mem _ member)]
      rfl

/-- What is encoded is decoded. -/
theorem atob_btoa (bytes : List UInt8) : atob (btoa bytes) = some bytes := by
  have small := sextets_lt bytes
  obtain ⟨whole, notOne⟩ := sextets_length bytes
  have visible : (btoa bytes).filter (fun char => !isAsciiWhitespace char) = btoa bytes := by
    rw [List.filter_eq_self]
    intro char member
    rcases List.mem_append.mp member with coded | pad
    · obtain ⟨sextet, inside, rfl⟩ := List.mem_map.mp coded
      rw [(symbol_table sextet (small sextet inside)).2.2]
      rfl
    · rw [List.eq_of_mem_replicate pad]
      rfl
  have length : (btoa bytes).length % 4 = 0 := by
    rw [btoa, List.length_append, List.length_map, List.length_replicate]
    exact whole
  have filled : ∀ char ∈ (sextets bytes).map symbol, char ≠ '=' := by
    intro char member
    obtain ⟨sextet, inside, rfl⟩ := List.mem_map.mp member
    exact (symbol_table sextet (small sextet inside)).2.1
  have bare : unpad (btoa bytes) = (sextets bytes).map symbol := by
    refine unpad_padded filled ?_
    unfold padding
    omega
  unfold atob
  dsimp only
  rw [visible, if_pos length, bare, List.length_map, if_neg notOne, mapM_value_symbol small,
    Option.map_eq_map, Option.map_some, octets_sextets]

end GitZero.Base64
