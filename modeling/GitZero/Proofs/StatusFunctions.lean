/-
Module: GitZero.Proofs.StatusFunctions
Purpose: When the textual search for a status function finds what the syntax tree has.
Trusted boundary: that a parsed expression has the calls that its tokens spell, as the parser's
  documentation has it
Main exports: Token, Lexes, SpellsCalls, masked, implicit_success_iff
-/
import Mathlib
import GitZero.Agent.Conditions

namespace GitZero.Expression

/-! ### Words without quotes -/

theorem containsText_iff {text needle : Text} :
    containsText text needle = true ↔ needle <:+: text := by
  rw [containsText, List.any_eq_true]
  constructor
  · rintro ⟨rest, isTail, isPrefix⟩
    exact (List.isPrefixOf_iff_prefix.mp isPrefix).isInfix.trans
      ((List.mem_tails _ _).mp isTail).isInfix
  · intro isInfix
    obtain ⟨rest, isPrefix, isSuffix⟩ := List.infix_iff_prefix_suffix.mp isInfix
    exact ⟨rest, (List.mem_tails _ _).mpr isSuffix, List.isPrefixOf_iff_prefix.mpr isPrefix⟩

theorem prefix_around {word before after : Text} {char : Char} (absent : char ∉ word)
    (starts : word <+: before ++ char :: after) : word <+: before := by
  induction before generalizing word with
  | nil =>
      cases word with
      | nil => exact List.nil_prefix
      | cons head tail =>
          rw [List.nil_append, List.cons_prefix_cons] at starts
          exact absurd (starts.1 ▸ List.mem_cons_self) absent
  | cons first before inductionHypothesis =>
      cases word with
      | nil => exact List.nil_prefix
      | cons head tail =>
          rw [List.cons_append, List.cons_prefix_cons] at starts
          exact List.cons_prefix_cons.mpr
            ⟨starts.1, inductionHypothesis (fun member => absent (List.mem_cons_of_mem _ member))
              starts.2⟩

/-- A word does not reach over a character that it does not have. -/
theorem infix_around {word before after : Text} {char : Char} (absent : char ∉ word) :
    word <:+: before ++ char :: after ↔ word <:+: before ∨ word <:+: after := by
  constructor
  · intro found
    induction before with
    | nil =>
        rw [List.nil_append, List.infix_cons_iff] at found
        refine found.imp (fun starts => ?_) id
        exact (@prefix_around _ [] _ _ absent starts).isInfix
    | cons first before inductionHypothesis =>
        rw [List.cons_append, List.infix_cons_iff] at found
        rcases found with starts | later
        · exact .inl (@prefix_around _ (first :: before) _ _ absent starts).isInfix
        · exact (inductionHypothesis later).imp_left List.infix_cons
  · rintro (inside | behind)
    · exact inside.trans (List.prefix_append _ _).isInfix
    · exact behind.trans ((List.suffix_cons _ _).trans (List.suffix_append _ _)).isInfix

/-- Nor does it reach into a run of them. -/
theorem infix_behind_replicate {word after : Text} {char : Char} (absent : char ∉ word)
    (some : word ≠ []) (count : Nat) :
    word <:+: List.replicate count char ++ after ↔ word <:+: after := by
  induction count with
  | zero => rfl
  | succ count inductionHypothesis =>
      have around := @infix_around _ [] (List.replicate count char ++ after) _ absent
      rw [List.nil_append, inductionHypothesis, List.infix_nil] at around
      rw [List.replicate_succ, List.cons_append, around, or_iff_right some]

/-! ### What a condition spells -/

section Spelling

variable (beyond : Char → Text)

theorem compactCondition_append (one two : Text) :
    compactCondition beyond (one ++ two) =
      compactCondition beyond one ++ compactCondition beyond two := by
  rw [compactCondition, List.filter_append, List.flatMap_append]
  rfl

/-- A character of ASCII that is no white space. -/
def Plain (char : Char) : Prop := char.toNat < 128 ∧ isWhitespace char = false

theorem compactCondition_cons {char : Char} (plain : Plain char) (rest : Text) :
    compactCondition beyond (char :: rest) = char.toLower :: compactCondition beyond rest := by
  rw [compactCondition, List.filter_cons_of_pos (by rw [plain.2]; rfl), List.flatMap_cons,
    toLowercase, if_pos plain.1]
  rfl

theorem compactCondition_plain {text : Text} (plain : ∀ char ∈ text, Plain char) :
    compactCondition beyond text = text.map Char.toLower := by
  induction text with
  | nil => rfl
  | cons char text inductionHypothesis =>
      obtain ⟨first, others⟩ := List.forall_mem_cons.mp plain
      rw [compactCondition_cons beyond first, inductionHypothesis others, List.map_cons]

theorem compactCondition_blank {blanks : Text} (blank : ∀ char ∈ blanks, isWhitespace char = true) :
    compactCondition beyond blanks = [] := by
  rw [compactCondition, List.filter_eq_nil_iff.mpr fun char member => by simp [blank char member]]
  rfl

theorem plain_quote : Plain '\'' := ⟨by decide, by decide⟩

/-- A call of a status function is spelled, strings and all. -/
def Spells (text : Text) : Prop := ∃ call ∈ statusCalls, call <:+: compactCondition beyond text

theorem containsStatusFunction_iff (condition : Text) :
    containsStatusFunction beyond condition = true ↔ Spells beyond condition := by
  rw [containsStatusFunction, List.any_eq_true]
  exact exists_congr fun call => and_congr_right fun _ => containsText_iff

theorem statusCalls_letters :
    ∀ call ∈ statusCalls, call ≠ [] ∧ '\'' ∉ call ∧ '$' ∉ call ∧ '\x7b' ∉ call ∧ '\x7d' ∉ call := by
  decide

/-! ### Inside and outside of strings -/

/-- The text with quotes in place of what is not kept: of what stands outside of the strings if
`inside`, of what stands in them otherwise. -/
def masked (inside quoted : Bool) : Text → Text
  | [] => []
  | char :: rest =>
      if char = '\'' then '\'' :: masked inside (!quoted) rest
      else (if quoted = inside then char else '\'') :: masked inside quoted rest

theorem masked_unquoted (inside quoted : Bool) {text : Text} (unquoted : '\'' ∉ text)
    (rest : Text) :
    masked inside quoted (text ++ rest) =
      (if quoted = inside then text else List.replicate text.length '\'') ++
        masked inside quoted rest := by
  induction text with
  | nil => cases quoted <;> cases inside <;> rfl
  | cons char text inductionHypothesis =>
      rw [List.mem_cons, not_or] at unquoted
      rw [List.cons_append, masked, if_neg (Ne.symm unquoted.1), inductionHypothesis unquoted.2]
      by_cases kept : quoted = inside
      · rw [if_pos kept, if_pos kept, if_pos kept, List.cons_append]
      · rw [if_neg kept, if_neg kept, if_neg kept, List.length_cons, List.replicate_succ,
          List.cons_append]

theorem compactCondition_quotes (count : Nat) :
    compactCondition beyond (List.replicate count '\'') = List.replicate count '\'' := by
  rw [compactCondition_plain, List.map_replicate]
  · rfl
  · intro char member
    rw [List.eq_of_mem_replicate member]
    exact plain_quote

/-- A text without quotes, up to its end or the next quote. -/
theorem unquoted_cases (text : Text) :
    '\'' ∉ text ∨ ∃ first rest, text = first ++ '\'' :: rest ∧ '\'' ∉ first := by
  by_cases quoted : '\'' ∈ text
  · exact .inr (List.eq_append_cons_of_mem quoted)
  · exact .inl quoted

/-- A word without quotes is in a string or between strings. -/
theorem infix_masked {word : Text} (unquoted : '\'' ∉ word) (some : word ≠ []) (quoted : Bool)
    (text : Text) :
    word <:+: compactCondition beyond text ↔
      word <:+: compactCondition beyond (masked true quoted text) ∨
        word <:+: compactCondition beyond (masked false quoted text) := by
  have hidden (count : Nat) (rest : Text) :
      word <:+: compactCondition beyond (List.replicate count '\'' ++ rest) ↔
        word <:+: compactCondition beyond rest := by
    rw [compactCondition_append, compactCondition_quotes]
    exact infix_behind_replicate unquoted some count
  have empty : ¬ word <:+: ([] : Text) := fun found => some (List.infix_nil.mp found)
  induction length : text.length using Nat.strong_induction_on generalizing text quoted with
  | h size inductionHypothesis =>
      rcases unquoted_cases text with plain | ⟨first, rest, same, plain⟩
      · have whole := fun inside => masked_unquoted inside quoted plain []
        simp only [List.append_nil, masked] at whole
        have none : ¬ word <:+: compactCondition beyond (List.replicate text.length '\'') := by
          have shown := hidden text.length []
          rw [List.append_nil] at shown
          exact fun found => empty (shown.mp found)
        rw [whole, whole]
        cases quoted with
        | true => simp [none]
        | false => simp [none]
      · subst same
        have shorter : rest.length < size := by
          rw [← length, List.length_append, List.length_cons]
          omega
        have later : word <:+: compactCondition beyond rest ↔
            word <:+: compactCondition beyond (masked true (!quoted) rest) ∨
              word <:+: compactCondition beyond (masked false (!quoted) rest) :=
          inductionHypothesis rest.length shorter (!quoted) rest rfl
        have behind (before tail : Text) :
            word <:+: compactCondition beyond (before ++ '\'' :: tail) ↔
              word <:+: compactCondition beyond before ∨
                word <:+: compactCondition beyond tail := by
          rw [compactCondition_append, compactCondition_cons beyond plain_quote]
          exact infix_around unquoted
        have quote (inside : Bool) :
            masked inside quoted ('\'' :: rest) = '\'' :: masked inside (!quoted) rest := by
          rw [masked, if_pos rfl]
        have none : ¬ word <:+: compactCondition beyond (List.replicate first.length '\'') := by
          have shown := hidden first.length []
          rw [List.append_nil] at shown
          exact fun found => empty (shown.mp found)
        rw [masked_unquoted _ _ plain, masked_unquoted _ _ plain, quote, quote, behind, behind,
          behind, later]
        cases quoted with
        | true =>
            rw [if_pos rfl, if_neg Bool.noConfusion]
            simp only [none, false_or]
            exact or_assoc.symm
        | false =>
            rw [if_pos rfl, if_neg Bool.noConfusion]
            simp only [none, false_or]
            exact or_left_comm

/-! ### Wrapping -/

theorem compactCondition_trim (text : Text) :
    compactCondition beyond (trim text) = compactCondition beyond text := by
  have started := List.takeWhile_append_dropWhile (p := isWhitespace) (l := text)
  have ended := List.rdropWhile_append_rtakeWhile (p := isWhitespace)
    (l := text.dropWhile isWhitespace)
  have noStart : compactCondition beyond (text.takeWhile isWhitespace) = [] :=
    compactCondition_blank beyond fun char member => List.mem_takeWhile_imp member
  have noEnd :
      compactCondition beyond ((text.dropWhile isWhitespace).rtakeWhile isWhitespace) = [] :=
    compactCondition_blank beyond fun char member => List.mem_rtakeWhile_imp member
  conv => rhs; rw [← started, ← ended]
  rw [compactCondition_append, compactCondition_append, noStart, noEnd, List.append_nil,
    List.nil_append]
  rfl

/-- Neither the white space around an expression nor its wrapper is part of a call. -/
theorem spells_unwrap (condition : Text) :
    Spells beyond condition ↔ Spells beyond (unwrapExpression condition) := by
  refine exists_congr fun call => and_congr_right fun isCall => ?_
  obtain ⟨some, _, dollar, brace, closing⟩ := statusCalls_letters call isCall
  rw [← compactCondition_trim beyond condition, unwrapExpression]
  split
  · rename_i rest wrapped
    split
    · rename_i inner stripped
      have whole : rest = inner ++ ['\x7d', '\x7d'] := by
        rw [stripSuffix] at stripped
        split at stripped
        · rename_i isSuffix
          cases stripped
          obtain ⟨before, same⟩ := isSuffix
          rw [← same, List.length_append, Nat.add_sub_cancel, List.take_left]
        · cases stripped
      have dollars : Plain '$' := ⟨by decide, by decide⟩
      have braces : Plain '\x7b' := ⟨by decide, by decide⟩
      have closes : Plain '\x7d' := ⟨by decide, by decide⟩
      have empty : ¬ call <:+: ([] : Text) := fun found => some (List.infix_nil.mp found)
      have skip {char : Char} (absent : char ∉ call) (text : Text) :
          call <:+: char :: text ↔ call <:+: text := by
        rw [← List.nil_append (char :: text), infix_around absent, or_iff_right empty]
      rw [wrapped, whole, compactCondition_cons beyond dollars, compactCondition_cons beyond braces,
        compactCondition_cons beyond braces, compactCondition_append,
        compactCondition_cons beyond closes, compactCondition_cons beyond closes,
        compactCondition_trim]
      calc call <:+: _ ↔ call <:+: compactCondition beyond inner ++ '\x7d' :: ['\x7d'] :=
            (skip dollar _).trans ((skip brace _).trans (skip brace _))
        _ ↔ call <:+: compactCondition beyond inner ∨ call <:+: ['\x7d'] := infix_around closing
        _ ↔ call <:+: compactCondition beyond inner :=
            or_iff_left fun found => empty ((skip closing []).mp found)
    · rw [wrapped]
  · rfl

/-! ### Tokens -/

/-- A token of an expression. -/
inductive Token where
  | string (content : Text)
  /-- A name or a number. -/
  | word (text : Text)
  | mark (char : Char)

/-- A quote in a string is doubled. -/
def quotedChar (char : Char) : Text := if char = '\'' then ['\'', '\''] else [char]

def Token.text : Token → Text
  | .string content => '\'' :: (content.flatMap quotedChar ++ ['\''])
  | .word text => text
  | .mark char => [char]

def isWordChar (char : Char) : Bool := char.isAlphanum || ['_', '-', '.', '+'].contains char

def Token.Lexical : Token → Prop
  | .string _ => True
  | .word text => text ≠ [] ∧ ∀ char ∈ text, isWordChar char = true
  | .mark char => Plain char ∧ char ≠ '\'' ∧ char.isAlphanum = false

/-- A text with the given tokens, with white space around them. -/
inductive Lexes : List Token → Text → Prop where
  | nil {blanks : Text} (blank : ∀ char ∈ blanks, isWhitespace char = true) : Lexes [] blanks
  | cons {blanks rest : Text} {tokens : List Token} (token : Token)
      (blank : ∀ char ∈ blanks, isWhitespace char = true) (lexical : token.Lexical)
      (others : Lexes tokens rest) : Lexes (token :: tokens) (blanks ++ token.text ++ rest)

/-- What is left of a token outside of strings. -/
def Token.shown : Token → Text
  | .string content => List.replicate ('\'' :: (content.flatMap quotedChar ++ ['\''])).length '\''
  | .word text => text.map Char.toLower
  | .mark char => [char]

theorem plain_of_wordChar {char : Char} (isWord : isWordChar char = true) :
    Plain char ∧ char ≠ '\'' := by
  have codes : (48 ≤ char.toNat ∧ char.toNat ≤ 57) ∨ (65 ≤ char.toNat ∧ char.toNat ≤ 90) ∨
      (97 ≤ char.toNat ∧ char.toNat ≤ 122) ∨ char ∈ ['_', '-', '.', '+'] := by
    simp only [isWordChar, Char.isAlphanum, Char.isAlpha, Char.isUpper, Char.isLower, Char.isDigit,
      Bool.or_eq_true, Bool.and_eq_true, decide_eq_true_eq, ge_iff_le, UInt32.le_iff_toNat_le,
      List.contains_eq_mem] at isWord
    rcases isWord with ((upper | lower) | digit) | other
    · exact .inr (.inl upper)
    · exact .inr (.inr (.inl lower))
    · exact .inl digit
    · exact .inr (.inr (.inr other))
  have marks : ∀ char ∈ ['_', '-', '.', '+'], char.toNat < 128 ∧ isWhitespace char = false ∧
      char ≠ '\'' := by
    intro char member
    simp only [List.mem_cons, List.not_mem_nil, or_false] at member
    rcases member with rfl | rfl | rfl | rfl <;> decide
  have ranges (low : 48 ≤ char.toNat) (high : char.toNat ≤ 122) : Plain char ∧ char ≠ '\'' := by
    refine ⟨⟨by omega, ?_⟩, ?_⟩
    · simp only [isWhitespace, Bool.or_eq_false_iff, Bool.and_eq_false_iff, decide_eq_false_iff_not]
      omega
    · rintro rfl
      exact absurd low (by decide)
  rcases codes with digit | upper | lower | other
  · exact ranges digit.1 (by omega)
  · exact ranges (by omega) (by omega)
  · exact ranges (by omega) lower.2
  · obtain ⟨ascii, dark, unquoted⟩ := marks char other
    exact ⟨⟨ascii, dark⟩, unquoted⟩

theorem toLower_of_not_alphanum {char : Char} (other : char.isAlphanum = false) :
    char.toLower = char := by
  simp only [Char.isAlphanum, Char.isAlpha, Bool.or_eq_false_iff] at other
  have notUpper := other.1.1
  rw [Char.toLower, dif_neg]
  intro upper
  simp only [Char.isUpper, decide_eq_false_iff_not] at notUpper
  exact notUpper upper

theorem unquoted_of_blank {blanks : Text} (blank : ∀ char ∈ blanks, isWhitespace char = true) :
    '\'' ∉ blanks := fun member => absurd (blank _ member) (by decide)

theorem masked_string (content rest : Text) :
    masked false true (content.flatMap quotedChar ++ '\'' :: rest) =
      List.replicate (content.flatMap quotedChar).length '\'' ++ '\'' ::
        masked false false rest := by
  induction content with
  | nil => rfl
  | cons char content inductionHypothesis =>
      rw [List.flatMap_cons, quotedChar]
      split
      · simp only [List.cons_append, List.nil_append, masked, if_true, Bool.not_true,
          Bool.not_false, inductionHypothesis, List.length_cons, List.replicate_succ]
      · rename_i plain
        rw [List.singleton_append, List.cons_append, masked, if_neg plain,
          if_neg Bool.noConfusion, inductionHypothesis, List.length_cons, List.replicate_succ,
          List.cons_append]

/-- Outside of the strings of a text are its other tokens. -/
theorem compactCondition_lexes {tokens : List Token} {text : Text} (lexes : Lexes tokens text) :
    compactCondition beyond (masked false false text) = tokens.flatMap Token.shown := by
  induction lexes with
  | nil blank =>
      have whole := masked_unquoted false false (unquoted_of_blank blank) []
      rw [List.append_nil, masked, List.append_nil, if_pos rfl] at whole
      rw [whole, compactCondition_blank beyond blank]
      rfl
  | @cons blanks rest tokens token blank lexical others inductionHypothesis =>
      rw [List.append_assoc, masked_unquoted _ _ (unquoted_of_blank blank), if_pos rfl,
        compactCondition_append, compactCondition_blank beyond blank, List.nil_append,
        List.flatMap_cons]
      cases token with
      | string content =>
          have text : Token.text (.string content) ++ rest =
              '\'' :: (content.flatMap quotedChar ++ '\'' :: rest) := by
            rw [Token.text, List.cons_append, List.append_assoc, List.singleton_append]
          rw [text, masked, if_pos rfl, Bool.not_false, masked_string,
            compactCondition_cons beyond plain_quote, compactCondition_append,
            compactCondition_quotes, compactCondition_cons beyond plain_quote, inductionHypothesis,
            Token.shown, List.length_cons, List.length_append, List.length_singleton,
            List.replicate_succ, List.replicate_succ', List.cons_append, List.append_assoc]
          rfl
      | word text =>
          have chars : ∀ char ∈ text, Plain char ∧ char ≠ '\'' := fun char member =>
            plain_of_wordChar (lexical.2 char member)
          have unquoted : '\'' ∉ text := fun member => (chars _ member).2 rfl
          rw [Token.text, masked_unquoted _ _ unquoted, if_pos rfl, compactCondition_append,
            compactCondition_plain beyond fun char member => (chars char member).1,
            inductionHypothesis, Token.shown]
      | mark char =>
          obtain ⟨plain, unquoted, other⟩ := lexical
          rw [Token.text, List.singleton_append, masked, if_neg unquoted, if_pos rfl,
            compactCondition_cons beyond plain, inductionHypothesis, Token.shown,
            toLower_of_not_alphanum other, List.singleton_append]

end Spelling

/-! ### Calls -/

/-- The name of a function, in lower case. -/
def functionName : Function → Text
  | .contains => "contains".toList
  | .startsWith => "startswith".toList
  | .endsWith => "endswith".toList
  | .format => "format".toList
  | .join => "join".toList
  | .toJson => "tojson".toList
  | .fromJson => "fromjson".toList
  | .hashFiles => "hashfiles".toList
  | .success => "success".toList
  | .always => "always".toList
  | .cancelled => "cancelled".toList
  | .failure => "failure".toList
  | .case => "case".toList

/-- A name with a parenthesis behind it. -/
def Calls (tokens : List Token) (name : Text) : Prop := [.word name, .mark '('] <:+: tokens

instance : DecidablePred Plain := fun char =>
  inferInstanceAs (Decidable (char.toNat < 128 ∧ isWhitespace char = false))

instance : DecidablePred Token.Lexical
  | .string _ => isTrue trivial
  | .word text => @instDecidableAnd _ _ (inferInstanceAs (Decidable (text ≠ [])))
      (List.decidableBAll (fun char => isWordChar char = true) text)
  | .mark char =>
      inferInstanceAs (Decidable (Plain char ∧ char ≠ '\'' ∧ char.isAlphanum = false))

theorem lexes_of_parts (parts : List (Text × Token))
    (allowed : (parts.all fun part => part.1.all isWhitespace && decide part.2.Lexical) = true) :
    Lexes (parts.map Prod.snd) (parts.flatMap fun part => part.1 ++ part.2.text) := by
  induction parts with
  | nil => exact .nil fun char member => absurd member List.not_mem_nil
  | cons part parts inductionHypothesis =>
      obtain ⟨first, others⟩ := Bool.and_eq_true_iff.mp allowed
      obtain ⟨blank, lexical⟩ := Bool.and_eq_true_iff.mp first
      exact .cons part.2 (List.all_eq_true.mp blank) (of_decide_eq_true lexical)
        (inductionHypothesis others)

/-- The names that have a parenthesis behind them. -/
def calledNames : List Token → List Text
  | .word name :: .mark '(' :: rest => name :: calledNames (.mark '(' :: rest)
  | _ :: rest => calledNames rest
  | [] => []

theorem calls_iff {tokens : List Token} {name : Text} :
    Calls tokens name ↔ name ∈ calledNames tokens := by
  rw [Calls]
  fun_induction calledNames tokens with
  | case1 called rest inductionHypothesis =>
      rw [List.infix_cons_iff, inductionHypothesis, List.mem_cons]
      simp [List.cons_prefix_cons]
  | case2 token rest other inductionHypothesis =>
      rw [List.infix_cons_iff, inductionHypothesis]
      refine or_iff_right ?_
      rintro ⟨after, same⟩
      cases same
      exact other name after rfl rfl
  | case3 => simp

theorem exists_token_of_flatMap {tokens : List Token} {before after : Text} {char : Char}
    (same : tokens.flatMap Token.shown = before ++ char :: after) :
    ∃ first token last start rest, tokens = first ++ token :: last ∧
      token.shown = start ++ char :: rest ∧ before = first.flatMap Token.shown ++ start := by
  induction tokens generalizing before with
  | nil =>
      have length := congrArg List.length same
      simp at length
  | cons token tokens inductionHypothesis =>
      rw [List.flatMap_cons] at same
      rcases List.append_eq_append_iff.mp same with ⟨middle, isBefore, isRest⟩ |
        ⟨middle, isToken, isAfter⟩
      · obtain ⟨first, found, last, start, rest, split, shown, whole⟩ := inductionHypothesis isRest
        refine ⟨token :: first, found, last, start, rest, by rw [split]; rfl, shown, ?_⟩
        rw [isBefore, whole, List.flatMap_cons, List.append_assoc]
      · cases middle with
        | nil =>
            rw [List.nil_append] at isAfter
            obtain ⟨first, found, last, start, rest, split, shown, whole⟩ :=
              @inductionHypothesis [] isAfter.symm
            refine ⟨token :: first, found, last, start, rest, by rw [split]; rfl, shown, ?_⟩
            rw [List.append_nil] at isToken
            rw [List.flatMap_cons, isToken, List.append_assoc, ← whole, List.append_nil]
        | cons head tail =>
            cases isAfter
            exact ⟨[], token, tokens, before, tail, rfl, isToken, rfl⟩

theorem shown_parenthesis {token : Token} (lexical : token.Lexical) {start rest : Text}
    (shown : token.shown = start ++ '(' :: rest) : token = .mark '(' ∧ start = [] := by
  have member : '(' ∈ token.shown := by
    rw [shown]
    simp
  cases token with
  | string content => cases List.eq_of_mem_replicate member
  | word text =>
      obtain ⟨char, isChar, same⟩ := List.mem_map.mp member
      have isWord := lexical.2 char isChar
      have isParenthesis : char = '(' := by
        rw [Char.toLower] at same
        split at same
        · rename_i upper
          have code := congrArg (fun char : Char => char.val.toNat) same
          simp only [UInt32.toNat_add, ge_iff_le, UInt32.le_iff_toNat_le] at code upper
          have low : ('A'.val).toNat = 65 := rfl
          have high : ('Z'.val).toNat = 90 := rfl
          have shift : ('a'.val - 'A'.val).toNat = 32 := rfl
          have target : ('('.val).toNat = 40 := rfl
          omega
        · exact same
      rw [isParenthesis] at isWord
      cases isWord
  | mark char =>
      rw [Token.shown, eq_comm, List.append_eq_singleton_iff] at shown
      rcases shown with ⟨empty, single⟩ | ⟨_, impossible⟩
      · cases single
        exact ⟨rfl, empty⟩
      · cases impossible

/-- Before a parenthesis a letter is the end of a name. -/
theorem shown_name {token : Token} (lexical : token.Lexical) {before name : Text}
    {tokens : List Token} (letters : ∀ char ∈ name, char.isAlpha = true) (some : name ≠ [])
    (same : (tokens ++ [token]).flatMap Token.shown = before ++ name) :
    ∃ text, token = .word text ∧
      (name <:+ toAsciiLowercase text ∨ toAsciiLowercase text <:+ name) := by
  rw [List.flatMap_append, List.flatMap_singleton] at same
  obtain ⟨start, last, isName⟩ := (List.eq_nil_or_concat name).resolve_left some
  have isLetter : last.isAlpha = true := letters last (by simp [isName])
  have ends : (tokens.flatMap Token.shown ++ token.shown).getLast? = Option.some last := by
    rw [same, isName, List.concat_eq_append, ← List.append_assoc, List.getLast?_concat]
  rw [List.getLast?_append] at ends
  cases token with
  | string content =>
      rw [Token.shown, List.getLast?_replicate, if_neg (by simp)] at ends
      cases ends
      cases isLetter
  | word text =>
      have ofName : name <:+ tokens.flatMap Token.shown ++ toAsciiLowercase text :=
        ⟨before, same.symm⟩
      have ofText : toAsciiLowercase text <:+ tokens.flatMap Token.shown ++ toAsciiLowercase text :=
        List.suffix_append _ _
      exact ⟨text, rfl, List.suffix_or_suffix_of_suffix ofName ofText⟩
  | mark char =>
      have isLast : char = last := by
        rw [Token.shown, List.getLast?_singleton, Option.some_or] at ends
        exact Option.some.inj ends
      have other := lexical.2.2
      rw [Char.isAlphanum, isLast, isLetter] at other
      cases other

theorem lexical_of_lexes {tokens : List Token} {text : Text} (lexes : Lexes tokens text) :
    ∀ token ∈ tokens, token.Lexical := by
  induction lexes with
  | nil => exact fun token member => absurd member List.not_mem_nil
  | cons token _ lexical _ inductionHypothesis =>
      exact List.forall_mem_cons.mpr ⟨lexical, inductionHypothesis⟩

/-- A name with a parenthesis behind it is a name in front of a parenthesis. -/
theorem exists_call_of_infix {tokens : List Token} (lexical : ∀ token ∈ tokens, token.Lexical)
    {name : Text} (letters : ∀ char ∈ name, char.isAlpha = true) (some : name ≠ [])
    (found : name ++ ['('] <:+: tokens.flatMap Token.shown) :
    ∃ text, Calls tokens text ∧
      (name <:+ toAsciiLowercase text ∨ toAsciiLowercase text <:+ name) := by
  obtain ⟨before, after, same⟩ := found
  have split : tokens.flatMap Token.shown = (before ++ name) ++ '(' :: after := by
    rw [← same]
    simp only [List.append_assoc, List.singleton_append]
  obtain ⟨first, token, last, start, rest, isTokens, shown, whole⟩ := exists_token_of_flatMap split
  obtain ⟨isMark, empty⟩ := shown_parenthesis (lexical token (by simp [isTokens])) shown
  subst isMark empty
  rw [List.append_nil] at whole
  obtain ⟨init, named, isFirst⟩ := (List.eq_nil_or_concat first).resolve_left (by
    rintro rfl
    exact some (List.append_eq_nil_iff.mp whole).2)
  rw [List.concat_eq_append] at isFirst
  obtain ⟨text, isWord, alike⟩ := shown_name (lexical named (by simp [isTokens, isFirst])) letters
    some (isFirst ▸ whole.symm)
  refine ⟨text, ⟨init, last, ?_⟩, alike⟩
  rw [isTokens, isFirst, isWord]
  simp

/-- No other function has a name like that of a status function. -/
theorem status_of_alike {func status : Function} (isStatus : status.isStatus = true)
    (alike : functionName status <:+ functionName func ∨
      functionName func <:+ functionName status) : func = status := by
  cases status <;> cases isStatus <;> cases func <;>
    first
    | rfl
    | exact absurd alike (by decide)

theorem mem_statusCalls {call : Text} :
    call ∈ statusCalls ↔
      ∃ status : Function, status.isStatus = true ∧ call = functionName status ++ ['('] := by
  constructor
  · intro member
    simp only [statusCalls, List.mem_cons, List.not_mem_nil, or_false] at member
    rcases member with same | same | same | same
    · exact ⟨.success, rfl, same⟩
    · exact ⟨.failure, rfl, same⟩
    · exact ⟨.cancelled, rfl, same⟩
    · exact ⟨.always, rfl, same⟩
  · rintro ⟨status, isStatus, same⟩
    subst same
    cases status <;> cases isStatus <;> decide

theorem functionName_letters :
    ∀ func : Function, functionName func ≠ [] ∧
      ∀ char ∈ functionName func, char.isAlpha = true := by
  intro func
  cases func <;> exact ⟨by decide, List.all_eq_true.mp (by decide)⟩

theorem infix_of_calls {tokens : List Token} {text : Text} (calls : Calls tokens text) :
    toAsciiLowercase text ++ ['('] <:+: tokens.flatMap Token.shown := by
  obtain ⟨before, after, same⟩ := calls
  rw [← same, List.flatMap_append, List.flatMap_append]
  exact ⟨before.flatMap Token.shown, after.flatMap Token.shown, by simp [Token.shown,
    toAsciiLowercase]⟩

/-! ### Calls in the syntax tree -/

section Trees

variable [Externals]

mutual

/-- The expression calls a status function, however deep. -/
def callsStatus : Expr Number → Bool
  | .literal _ | .star | .identifier _ => false
  | .index inner => callsStatus inner
  | .call func arguments => func.isStatus || anyCallsStatus arguments
  | .context parts => anyCallsStatus parts
  | .binary left _ right => callsStatus left || callsStatus right
  | .unary _ inner => callsStatus inner

def anyCallsStatus : List (Expr Number) → Bool
  | [] => false
  | expression :: rest => callsStatus expression || anyCallsStatus rest

end

theorem atHead_uses {analysis visited : ExpressionAnalysis} {head : Expr Number}
    (visits : visited.usesStatusFunction = (analysis.usesStatusFunction || callsStatus head)) :
    (analysis.atHead visited head).usesStatusFunction =
      (analysis.usesStatusFunction || callsStatus head) := by
  cases head <;> first
    | exact visits
    | exact (Bool.or_false _).symm

theorem atPart_uses {analysis visited : ExpressionAnalysis} {part : Expr Number}
    (visits : visited.usesStatusFunction = (analysis.usesStatusFunction || callsStatus part)) :
    (analysis.atPart visited part).usesStatusFunction =
      (analysis.usesStatusFunction || callsStatus part) := by
  cases part <;> first
    | exact visits
    | exact (Bool.or_false _).symm

mutual

/-- The analysis misses no call. -/
theorem analyze_uses (analysis : ExpressionAnalysis) (expression : Expr Number) :
    (analyzeSpannedExpression analysis expression).usesStatusFunction =
      (analysis.usesStatusFunction || callsStatus expression) := by
  cases expression with
  | literal | star | identifier =>
      rw [analyzeSpannedExpression, callsStatus, Bool.or_false]
      try rfl
  | index inner | unary _ inner =>
      rw [analyzeSpannedExpression, callsStatus, analyze_uses analysis inner]
  | call func arguments =>
      rw [analyzeSpannedExpression, callsStatus, analyzeArguments_uses, ← Bool.or_assoc]
  | context parts =>
      cases parts with
      | nil => rw [analyzeSpannedExpression, callsStatus, anyCallsStatus, Bool.or_false]
      | cons head parts =>
          rw [analyzeSpannedExpression, callsStatus, anyCallsStatus, analyzeParts_uses,
            atHead_uses (analyze_uses analysis head), Bool.or_assoc]
  | binary left _ right =>
      rw [analyzeSpannedExpression, callsStatus, analyze_uses _ right, analyze_uses _ left,
        Bool.or_assoc]

theorem analyzeArguments_uses (analysis : ExpressionAnalysis) (arguments : List (Expr Number)) :
    (analyzeArguments analysis arguments).usesStatusFunction =
      (analysis.usesStatusFunction || anyCallsStatus arguments) := by
  cases arguments with
  | nil => rw [analyzeArguments, anyCallsStatus, Bool.or_false]
  | cons argument arguments =>
      rw [analyzeArguments, anyCallsStatus, analyzeArguments_uses _ arguments,
        analyze_uses analysis argument, Bool.or_assoc]

theorem analyzeParts_uses (analysis : ExpressionAnalysis) (parts : List (Expr Number)) :
    (analyzeParts analysis parts).usesStatusFunction =
      (analysis.usesStatusFunction || anyCallsStatus parts) := by
  cases parts with
  | nil => rw [analyzeParts, anyCallsStatus, Bool.or_false]
  | cons part parts =>
      rw [analyzeParts, anyCallsStatus, analyzeParts_uses _ parts,
        atPart_uses (analyze_uses analysis part), Bool.or_assoc]

end

/-- An expression that was parsed from a text has the calls that the tokens of the text spell,
and every name with a parenthesis behind it is that of a function. -/
def SpellsCalls (source : Text) (expression : Expr Number) : Prop :=
  ∃ tokens, Lexes tokens source ∧
    (∀ name, Calls tokens name → ∃ func, toAsciiLowercase name = functionName func) ∧
    (callsStatus expression = true ↔ ∃ func : Function, func.isStatus = true ∧ ∃ name,
      Calls tokens name ∧ toAsciiLowercase name = functionName func)

variable (beyond : Char → Text)

/-- Outside of its strings a text spells a status call exactly when its expression has one. -/
theorem spells_outside_iff {source : Text} {expression : Expr Number}
    (spells : SpellsCalls source expression) :
    Spells beyond (masked false false source) ↔ callsStatus expression = true := by
  obtain ⟨tokens, lexes, known, calls⟩ := spells
  rw [calls, Spells, compactCondition_lexes beyond lexes]
  constructor
  · rintro ⟨call, isCall, found⟩
    obtain ⟨status, isStatus, same⟩ := mem_statusCalls.mp isCall
    subst same
    obtain ⟨some, letters⟩ := functionName_letters status
    obtain ⟨name, isCalled, alike⟩ :=
      exists_call_of_infix (lexical_of_lexes lexes) letters some found
    obtain ⟨func, isFunc⟩ := known name isCalled
    rw [isFunc] at alike
    have same := status_of_alike isStatus alike
    subst same
    exact ⟨func, isStatus, name, isCalled, isFunc⟩
  · rintro ⟨func, isStatus, name, isCalled, isFunc⟩
    refine ⟨functionName func ++ ['('], mem_statusCalls.mpr ⟨func, isStatus, rfl⟩, ?_⟩
    rw [← isFunc]
    exact infix_of_calls isCalled

/-- What the condition of a step with the given analysis allows: a condition without a status
function stands for one that also calls `success`. -/
def implicitSuccess (analysis : ExpressionAnalysis) (condition : Text) (status : ExecutionStatus)
    (context : EvaluationContext) : Except ExpressionError Bool :=
  if analysis.usesStatusFunction = true ∨ status = .success then context.evaluateCondition condition
  else .ok false

/-- The textual search agrees with the analysis of a condition exactly when a status call that its
strings spell is not the only one. -/
theorem implicit_success_iff
    (documented : ∀ source expression, Externals.parse source = .ok expression →
      SpellsCalls source expression)
    {condition : Text} {analysis : ExpressionAnalysis}
    (analyzed : analyzeExpression condition = .ok analysis) :
    ((∀ status context, conditionAllows beyond (some condition) status context =
        implicitSuccess analysis condition status context) ∧
      (containsStatusFunction beyond condition = true ↔ analysis.usesStatusFunction = true)) ↔
    (Spells beyond (masked true false (unwrapExpression condition)) →
      Spells beyond (masked false false (unwrapExpression condition))) := by
  have split : Spells beyond (unwrapExpression condition) ↔
      Spells beyond (masked true false (unwrapExpression condition)) ∨
        Spells beyond (masked false false (unwrapExpression condition)) := by
    rw [Spells, Spells, Spells, ← exists_or]
    refine exists_congr fun call => ?_
    rw [← and_or_left]
    refine and_congr_right fun isCall => ?_
    obtain ⟨some, unquoted, _⟩ := statusCalls_letters call isCall
    exact infix_masked beyond unquoted some false _
  rw [analyzeExpression] at analyzed
  split at analyzed
  · cases analyzed
  · rename_i expression parsed
    cases analyzed
    have uses := analyze_uses {} expression
    rw [Bool.false_or] at uses
    rw [containsStatusFunction_iff, spells_unwrap, split, uses,
      ← spells_outside_iff beyond (documented _ _ parsed)]
    constructor
    · rintro ⟨_, same⟩ inside
      exact same.mp (.inl inside)
    · intro outside
      refine ⟨fun status context => ?_, or_iff_right_of_imp outside⟩
      have searched : containsStatusFunction beyond condition =
          (analyzeSpannedExpression {} expression).usesStatusFunction := by
        rw [Bool.eq_iff_iff, containsStatusFunction_iff, spells_unwrap, split, uses,
          ← spells_outside_iff beyond (documented _ _ parsed)]
        exact or_iff_right_of_imp outside
      rw [conditionAllows, implicitSuccess, searched]
      by_cases success : status = .success
      · rw [if_neg (by simp [success]), if_pos (.inr success)]
      · cases found : (analyzeSpannedExpression {} expression).usesStatusFunction with
        | false => rw [if_pos (by simp [success]), if_neg (by simp [success])]
        | true => rw [if_neg (by simp), if_pos (.inl rfl)]

end Trees

namespace StatusSample

def containsSource : Text := "contains(github.ref, 'always()')".toList

def alwaysSource : Text := "always( ) && 'x'".toList

/-- The parser on two conditions, and values without JSON or files. -/
scoped instance externals : Externals where
  Number := Nat
  ParseError := Unit
  HashError := Unit
  Path := Unit
  parse text :=
    if text = containsSource then
      .ok (.call .contains [.context [.identifier "github".toList, .identifier "ref".toList],
        .literal (.string "always()".toList)])
    else if text = alwaysSource then
      .ok (.binary (.call .always []) .and (.literal (.string ['x'])))
    else .error ()
  asBoolean value := match value with
    | .boolean answer => answer
    | .null => false
    | _ => true
  semaEq left right := match left, right with
    | .string one, .string two => toAsciiLowercase one = toAsciiLowercase two
    | _, _ => false
  semaGt _ _ := false
  semaGe _ _ := false
  semaLt _ _ := false
  semaLe _ _ := false
  display value := match value with
    | .string text => text
    | _ => []
  wholeIndex number := some number
  toUppercase text := text.map Char.toUpper
  prettyJson _ := none
  readJson _ := none
  hashFiles _ _ := .ok []

def containsTokens : List (Text × Token) :=
  [([], .word "contains".toList), ([], .mark '('), ([], .word "github".toList), ([], .mark '.'),
    ([], .word "ref".toList), ([], .mark ','), ([' '], .string "always()".toList), ([], .mark ')')]

def alwaysTokens : List (Text × Token) :=
  [([], .word "always".toList), ([], .mark '('), ([' '], .mark ')'), ([' '], .mark '&'),
    ([], .mark '&'), ([' '], .string ['x'])]

theorem documented (source : Text) (expression : Expr Number)
    (parsed : Externals.parse source = .ok expression) : SpellsCalls source expression := by
  change (if source = containsSource then _ else if source = alwaysSource then _ else _) =
    _ at parsed
  split at parsed
  · rename_i same
    cases parsed
    refine ⟨containsTokens.map Prod.snd, ?_, ?_, ?_⟩
    · rw [same]
      exact lexes_of_parts containsTokens (by decide)
    · intro name calls
      have isName : name ∈ ["contains".toList] := calls_iff.mp calls
      exact ⟨.contains, by rw [List.mem_singleton.mp isName]; rfl⟩
    · refine iff_of_false (by decide) ?_
      rintro ⟨func, isStatus, name, calls, same⟩
      have isName : name ∈ ["contains".toList] := calls_iff.mp calls
      rw [List.mem_singleton.mp isName] at same
      revert isStatus same
      cases func <;> decide
  · split at parsed
    · rename_i same
      cases parsed
      refine ⟨alwaysTokens.map Prod.snd, ?_, ?_, ?_⟩
      · rw [same]
        exact lexes_of_parts alwaysTokens (by decide)
      · intro name calls
        have isName : name ∈ ["always".toList] := calls_iff.mp calls
        exact ⟨.always, by rw [List.mem_singleton.mp isName]; rfl⟩
      · refine iff_of_true (by decide) ⟨.always, rfl, "always".toList, calls_iff.mpr ?_, rfl⟩
        exact List.mem_cons_self
    · cases parsed

/-- A condition that calls a status function, with other letters and white space. -/
theorem always_is_found :
    ((∀ status context, conditionAllows (fun char => [char]) (some alwaysSource) status context =
        implicitSuccess { usesStatusFunction := true } alwaysSource status context) ∧
      (containsStatusFunction (fun char => [char]) alwaysSource = true ↔ true = true)) ↔
    (Spells (fun char => [char]) (masked true false (unwrapExpression alwaysSource)) →
      Spells (fun char => [char]) (masked false false (unwrapExpression alwaysSource))) :=
  implicit_success_iff (fun char => [char]) documented
    (show analyzeExpression alwaysSource = .ok { usesStatusFunction := true } from rfl)

/-- A string that spells a status call makes the condition run after a failure. -/
theorem quoted_call_is_found :
    analyzeExpression containsSource = .ok { contextRoots := ["github".toList] } ∧
      containsStatusFunction (fun char => [char]) containsSource = true ∧
      conditionAllows (fun char => [char]) (some containsSource) .failure
        { roots := [("github".toList,
          .object [("ref".toList, .string "run always() now".toList)])] } = .ok true ∧
      implicitSuccess { contextRoots := ["github".toList] } containsSource .failure
        { roots := [("github".toList,
          .object [("ref".toList, .string "run always() now".toList)])] } = .ok false := by
  refine ⟨rfl, by decide, rfl, rfl⟩

end StatusSample

end GitZero.Expression
