/-
Module: GitZero.Proofs.GlobLanguages
Purpose: The language of a filter pattern, and what of it the compiled expression matches.
Trusted boundary: what the regex crate documents, as `RegexCrate.Documented`
Main exports: Element, Denotes, InLanguage, ReadsPlainly, RegexCrate.Documented,
  glob_law_iff, line_feed_and_difference_are_missed
-/
import Mathlib.Data.List.TakeWhile
import GitZero.Lib.Outcomes
import GitZero.Lib.PrefixCodes
import GitZero.Workflow.Globs

namespace GitZero.Workflows

open Expression (Text)
open Outcomes

/-! ### Patterns -/

/-- What may stand between the brackets of a pattern. -/
structure Range where
  text : Text
  nonempty : text ≠ []
  valid : text.all isRangeCharacter = true

/-- What matches one character. -/
inductive Single where
  | character (char : Char)
  | listed (range : Range)

/-- How often it does. -/
inductive Quantity where
  | once
  | optional
  | repeated

/-- What a pattern is made of. -/
inductive Element where
  | anything
  | segment
  | single (one : Single) (quantity : Quantity)

def quantityOf : Text → Quantity
  | '?' :: _ => .optional
  | '+' :: _ => .repeated
  | _ => .once

def behindQuantity : Text → Text
  | '?' :: rest => rest
  | '+' :: rest => rest
  | rest => rest

/-- A character or range with the quantifier behind it. -/
def withQuantity (one : Single) (rest : Text) : Element × Text :=
  (.single one (quantityOf rest), behindQuantity rest)

/-- The first element of a pattern, and the rest. -/
def readElement : Text → Option (Element × Text)
  | [] => none
  | '\\' :: [] => none
  | '\\' :: char :: rest => some (withQuantity (.character char) rest)
  | '*' :: '*' :: rest => some (.anything, rest)
  | '[' :: rest =>
      let range := rest.takeWhile (· ≠ ']')
      if valid : range ≠ [] ∧ range.all isRangeCharacter = true ∧ range.length < rest.length then
        some (withQuantity (.listed ⟨range, valid.1, valid.2.1⟩) (rest.drop (range.length + 1)))
      else none
  | char :: rest =>
      if char = '*' then some (.segment, rest)
      else if char = '?' ∨ char = '+' then none
      else some (withQuantity (.character char) rest)

/-- The elements of a pattern. -/
inductive Denotes : Text → List Element → Prop where
  | done : Denotes [] []
  | next {pattern rest : Text} {element : Element} {elements : List Element}
      (first : readElement pattern = some (element, rest)) (others : Denotes rest elements) :
      Denotes pattern (element :: elements)

theorem Denotes.unique {pattern : Text} {ones others : List Element} (one : Denotes pattern ones)
    (other : Denotes pattern others) : ones = others := by
  induction one generalizing others with
  | done =>
      cases other with
      | done => rfl
      | next first _ => cases first
  | next first _ inductionHypothesis =>
      cases other with
      | done => cases first
      | next otherFirst rest =>
          cases first.symm.trans otherFirst
          rw [inductionHypothesis rest]

/-! ### Languages -/

/-- A member of a class in a regular expression. -/
inductive ClassItem where
  | literal (char : Char)
  | range (first last : Char)

def ClassItem.Covers : ClassItem → Char → Prop
  | .literal char, other => other = char
  | .range first last, other => first ≤ other ∧ other ≤ last

/-- The characters and the ranges that are listed between brackets. -/
def listedItems : Text → List ClassItem
  | [] => []
  | first :: '-' :: last :: rest =>
      if isAsciiAlphanumeric first && isAsciiAlphanumeric last then
        .range first last :: listedItems rest
      else .literal first :: listedItems ('-' :: last :: rest)
  | char :: rest => .literal char :: listedItems rest
termination_by text => text.length

def Listed (text : Text) (char : Char) : Prop :=
  ∃ item ∈ listedItems text, item.Covers char

/-- The reading of an element, by what a range of characters and what `**` stand for. -/
def Single.Reads (listed : Text → Char → Prop) : Single → Char → Prop
  | .character char, other => other = char
  | .listed range, other => listed range.text other

def Element.Reads (anything : Text → Prop) (listed : Text → Char → Prop) :
    Element → Text → Prop
  | .anything, text => anything text
  | .segment, text => '/' ∉ text
  | .single one .once, text => ∃ char, text = [char] ∧ one.Reads listed char
  | .single one .optional, text =>
      text = [] ∨ ∃ char, text = [char] ∧ one.Reads listed char
  | .single one .repeated, text => text ≠ [] ∧ ∀ char ∈ text, one.Reads listed char

/-- The elements read the text in order. -/
inductive ReadAll (reads : Element → Text → Prop) : List Element → Text → Prop where
  | done : ReadAll reads [] []
  | next {element : Element} {elements : List Element} {text rest : Text}
      (first : reads element text) (others : ReadAll reads elements rest) :
      ReadAll reads (element :: elements) (text ++ rest)

/-- The documented language: `**` stands for any text. -/
def InLanguage (pattern : String) (candidate : Text) : Prop :=
  ∃ elements, Denotes pattern.toList elements ∧
    ReadAll (Element.Reads (fun _ => True) Listed) elements candidate

/-! ### What the regex crate documents -/

/-- What the parser of a class reads next: a member, or the operator `--`. -/
inductive ClassToken where
  | item (item : ClassItem)
  | difference

/-- The tokens of a class behind the hyphens at its start.  Two hyphens where an item could
start are the operator of set difference. -/
def classTokens : Text → List ClassToken
  | [] => []
  | '-' :: '-' :: rest => .difference :: classTokens rest
  | first :: '-' :: last :: rest =>
      if last = '-' then .item (.literal first) :: classTokens ('-' :: last :: rest)
      else .item (.range first last) :: classTokens rest
  | char :: rest => .item (.literal char) :: classTokens rest
termination_by text => text.length

/-- Hyphens at the start of a class are literal. -/
def bodyTokens : Text → List ClassToken
  | '-' :: rest => .item (.literal '-') :: bodyTokens rest
  | text => classTokens text

def Has (tokens : List ClassToken) (char : Char) : Prop :=
  ∃ item, ClassToken.item item ∈ tokens ∧ item.Covers char

def ClassToken.isItem : ClassToken → Bool
  | .item _ => true
  | .difference => false

/-- The operators associate to the left, so all that is listed behind the first of them is
taken from what is listed before it. -/
def InClass (text : Text) (char : Char) : Prop :=
  Has ((bodyTokens text).takeWhile ClassToken.isItem) char ∧
    ¬ Has ((bodyTokens text).dropWhile ClassToken.isItem) char

def Single.source (escape : Char → Text) : Single → Text
  | .character char => escape char
  | .listed range => '[' :: range.text ++ [']']

def Element.source (escape : Char → Text) : Element → Text
  | .anything => ".*".toList
  | .segment => "[^/]*".toList
  | .single one .once => one.source escape
  | .single one .optional => "(?:".toList ++ one.source escape ++ ")?".toList
  | .single one .repeated => "(?:".toList ++ one.source escape ++ ")+".toList

/-- An expression of these pieces matches what the pieces read in order.  The dot stands for
any character but a line feed. -/
structure RegexCrate.Documented [RegexCrate] : Prop where
  isMatch_iff : ∀ (elements : List Element) (regex : Regex),
    RegexCrate.new (globExpression (elements.map (Element.source RegexCrate.escape))) =
      .ok regex →
    ∀ candidate, RegexCrate.isMatch regex candidate = true ↔
      ReadAll (Element.Reads (fun text => '\n' ∉ text) InClass) elements candidate

/-! ### Where the two differ -/

/-- A difference takes away the characters listed behind it, and its own hyphens. -/
def TakenAway (text : Text) (char : Char) : Prop :=
  ClassToken.difference ∈ bodyTokens text ∧
    (Has ((bodyTokens text).dropWhile ClassToken.isItem) char ∨
      (char = '-' ∧ ¬ Has ((bodyTokens text).takeWhile ClassToken.isItem) char))

/-- The candidate can be read without a line feed under `**`, and without a character that
is taken away from its class. -/
def ReadsPlainly (pattern : String) (candidate : Text) : Prop :=
  ∃ elements, Denotes pattern.toList elements ∧
    ReadAll (Element.Reads (fun text => '\n' ∉ text)
      fun range char => Listed range char ∧ ¬ TakenAway range char)
      elements candidate

/-! ### Classes -/

theorem has_cons_item {item : ClassItem} {tokens : List ClassToken} {char : Char} :
    Has (.item item :: tokens) char ↔ item.Covers char ∨ Has tokens char := by
  simp [Has, or_and_right, exists_or]

theorem has_cons_difference {tokens : List ClassToken} {char : Char} :
    Has (.difference :: tokens) char ↔ Has tokens char := by
  simp [Has]

theorem has_append {front back : List ClassToken} {char : Char} :
    Has (front ++ back) char ↔ Has front char ∨ Has back char := by
  simp [Has, or_and_right, exists_or]

theorem listed_cons_literal (char other : Char) (items : List ClassItem) :
    (∃ item ∈ ClassItem.literal char :: items, item.Covers other) ↔
      other = char ∨ ∃ item ∈ items, item.Covers other := by
  simp [ClassItem.Covers]

theorem listedItems_literal {first : Char} {rest : Text}
    (noRange : ∀ last others, rest = '-' :: last :: others →
      (isAsciiAlphanumeric first && isAsciiAlphanumeric last) = false) :
    listedItems (first :: rest) = .literal first :: listedItems rest := by
  conv => lhs; unfold listedItems
  split
  · rename_i impossible
    cases impossible
  · rename_i other last others same
    cases same
    rw [noRange last others rfl, if_neg Bool.false_ne_true]
  · rename_i char others _ same
    cases same
    rfl

theorem listedItems_hyphen (rest : Text) :
    listedItems ('-' :: rest) = .literal '-' :: listedItems rest :=
  listedItems_literal fun last _ _ => Bool.false_and (isAsciiAlphanumeric last)

theorem isAsciiAlphanumeric_of_range {char : Char} (inRange : isRangeCharacter char = true)
    (notHyphen : char ≠ '-') : isAsciiAlphanumeric char = true := by
  simpa [isRangeCharacter, notHyphen] using inRange

/-- The tokens of a class list the same characters, but for the hyphens of an operator. -/
theorem listed_iff_classTokens {text : Text} (valid : text.all isRangeCharacter = true)
    (char : Char) : Listed text char ↔
      Has (classTokens text) char ∨ (char = '-' ∧ ClassToken.difference ∈ classTokens text) := by
  unfold Listed
  fun_induction classTokens text with
  | case1 => simp [listedItems, Has]
  | case2 rest inductionHypothesis =>
      simp only [List.all_cons, Bool.and_eq_true] at valid
      rw [listedItems_hyphen, listedItems_hyphen, listed_cons_literal, listed_cons_literal,
        inductionHypothesis valid.2.2, has_cons_difference]
      have here : ClassToken.difference ∈ ClassToken.difference :: classTokens rest :=
        List.mem_cons_self
      tauto
  | case3 first rest notHyphen inductionHypothesis =>
      rw [listedItems_literal, listed_cons_literal, inductionHypothesis (List.all_cons ▸ valid |>
        Bool.and_eq_true_iff.mp).2, has_cons_item]
      · simp [ClassItem.Covers, or_assoc]
      · intro last others same
        cases same
        exact Bool.and_false _
  | case4 first last rest notHyphen notLast inductionHypothesis =>
      simp only [List.all_cons, Bool.and_eq_true] at valid
      have isFirst := isAsciiAlphanumeric_of_range valid.1 notHyphen
      have isLast := isAsciiAlphanumeric_of_range valid.2.2.1 notLast
      rw [listedItems, isFirst, isLast, if_pos (by rfl), has_cons_item]
      simp only [List.mem_cons, exists_eq_or_imp, reduceCtorEq, false_or,
        inductionHypothesis valid.2.2.2, or_assoc]
  | case5 other rest notPair notRange inductionHypothesis =>
      simp only [List.all_cons, Bool.and_eq_true] at valid
      rw [listedItems_literal fun last others same => (notRange last others same).elim,
        listed_cons_literal, inductionHypothesis valid.2, has_cons_item]
      simp [ClassItem.Covers, or_assoc]

/-- Hyphens at the start list themselves. -/
theorem listed_iff_bodyTokens {text : Text} (valid : text.all isRangeCharacter = true)
    (char : Char) : Listed text char ↔
      Has (bodyTokens text) char ∨ (char = '-' ∧ ClassToken.difference ∈ bodyTokens text) := by
  fun_induction bodyTokens text with
  | case1 rest inductionHypothesis =>
      simp only [List.all_cons, Bool.and_eq_true] at valid
      rw [Listed, listedItems_hyphen, listed_cons_literal, ← Listed,
        inductionHypothesis valid.2, has_cons_item]
      simp [ClassItem.Covers, or_assoc]
  | case2 text => exact listed_iff_classTokens valid char

/-- The class matches what is listed and not taken away. -/
theorem inClass_iff {text : Text} (valid : text.all isRangeCharacter = true) (char : Char) :
    InClass text char ↔ Listed text char ∧ ¬ TakenAway text char := by
  rw [listed_iff_bodyTokens valid, InClass, TakenAway]
  have halves : Has (bodyTokens text) char ↔
      Has ((bodyTokens text).takeWhile ClassToken.isItem) char ∨
        Has ((bodyTokens text).dropWhile ClassToken.isItem) char := by
    rw [← has_append, List.takeWhile_append_dropWhile]
  rw [halves]
  by_cases difference : ClassToken.difference ∈ bodyTokens text
  · tauto
  · have none : ¬ Has ((bodyTokens text).dropWhile ClassToken.isItem) char := by
      rw [List.dropWhile_eq_nil_iff.mpr]
      · simp [Has]
      · intro token member
        cases token with
        | item item => rfl
        | difference => exact absurd member difference
    tauto

/-! ### Readings -/

theorem Single.Reads.mono {one : Single} {listed wider : Text → Char → Prop}
    (implies : ∀ range : Range, ∀ char, listed range.text char → wider range.text char)
    {char : Char} (reads : one.Reads listed char) : one.Reads wider char := by
  cases one with
  | character other => exact reads
  | listed range => exact implies range char reads

theorem Element.Reads.mono {anything all : Text → Prop} {listed wider : Text → Char → Prop}
    (impliesAll : ∀ text, anything text → all text)
    (implies : ∀ range : Range, ∀ char, listed range.text char → wider range.text char)
    {element : Element} {text : Text} (reads : element.Reads anything listed text) :
    element.Reads all wider text := by
  cases element with
  | anything => exact impliesAll text reads
  | segment => exact reads
  | single one quantity =>
      cases quantity with
      | once =>
          obtain ⟨char, same, read⟩ := reads
          exact ⟨char, same, read.mono implies⟩
      | optional =>
          rcases reads with empty | ⟨char, same, read⟩
          · exact .inl empty
          · exact .inr ⟨char, same, read.mono implies⟩
      | repeated => exact ⟨reads.1, fun char member => (reads.2 char member).mono implies⟩

theorem ReadAll.mono {reads others : Element → Text → Prop}
    (implies : ∀ element text, reads element text → others element text)
    {elements : List Element} {text : Text} (all : ReadAll reads elements text) :
    ReadAll others elements text := by
  induction all with
  | done => exact .done
  | next first _ inductionHypothesis => exact .next (implies _ _ first) inductionHypothesis

theorem readAll_singleton {reads : Element → Text → Prop} {element : Element} {text : Text} :
    ReadAll reads [element] text ↔ reads element text := by
  constructor
  · intro all
    cases all with
    | next first others =>
        cases others
        rw [List.append_nil]
        exact first
  · intro first
    have all := ReadAll.next first ReadAll.done
    rwa [List.append_nil] at all

theorem ReadsPlainly.inLanguage {pattern : String} {candidate : Text}
    (plainly : ReadsPlainly pattern candidate) : InLanguage pattern candidate := by
  obtain ⟨elements, denotes, reads⟩ := plainly
  refine ⟨elements, denotes, reads.mono fun element text read => ?_⟩
  exact read.mono (fun _ _ => trivial) fun _ _ listed => listed.1

/-! ### What is compiled -/

section Globs

variable [RegexCrate]

def Element.atom (element : Element) : Atom where
  source := element.source RegexCrate.escape
  quantifiable :=
    match element with
    | .single _ .once => true
    | _ => false

/-- A quantifier that comes next is one of no atom. -/
def Settled (atoms : List Atom) (text : Text) : Prop :=
  quantityOf text ≠ .once → ∀ atom, atoms.getLast? = some atom → atom.quantifiable = false

omit [RegexCrate] in
theorem quantityOf_cases (rest : Text) :
    (∃ others, rest = '?' :: others) ∨ (∃ others, rest = '+' :: others) ∨
      (quantityOf rest = .once ∧ behindQuantity rest = rest) := by
  unfold quantityOf behindQuantity
  split
  · exact .inl ⟨_, rfl⟩
  · exact .inr (.inl ⟨_, rfl⟩)
  · exact .inr (.inr ⟨rfl, rfl⟩)

theorem compileAtoms_quantifier {pattern workflow filter : String} {atoms : List Atom}
    {source : Text} {quantifier : Char} (isQuantifier : quantifier = '?' ∨ quantifier = '+')
    (rest : Text) :
    compileAtoms pattern workflow filter (atoms ++ [⟨source, true⟩]) (quantifier :: rest) =
      compileAtoms pattern workflow filter
        (atoms ++ [(⟨source, true⟩ : Atom).quantify quantifier]) rest := by
  rcases isQuantifier with rfl | rfl
  · rw [compileAtoms, if_neg (by decide), if_pos (by decide), List.getLast?_concat,
      List.dropLast_concat]
    · rfl
    all_goals simp
  · rw [compileAtoms, if_neg (by decide), if_pos (by decide), List.getLast?_concat,
      List.dropLast_concat]
    · rfl
    all_goals simp

omit [RegexCrate] in
theorem settled_of_not_quantifiable {atoms : List Atom} {atom : Atom}
    (fixed : atom.quantifiable = false) (text : Text) : Settled (atoms ++ [atom]) text := by
  intro _ last isLast
  rw [List.getLast?_concat] at isLast
  cases isLast
  exact fixed

theorem compileAtoms_single {pattern workflow filter : String} {atoms result : List Atom}
    (one : Single) {rest : Text}
    (compiled : compileAtoms pattern workflow filter
      (atoms ++ [⟨one.source RegexCrate.escape, true⟩]) rest = .ok result) :
    compileAtoms pattern workflow filter (atoms ++ [(withQuantity one rest).1.atom])
        (withQuantity one rest).2 = .ok result ∧
      Settled (atoms ++ [(withQuantity one rest).1.atom]) (withQuantity one rest).2 := by
  rcases quantityOf_cases rest with ⟨others, rfl⟩ | ⟨others, rfl⟩ | ⟨once, behind⟩
  · rw [compileAtoms_quantifier (.inl rfl)] at compiled
    exact ⟨compiled, settled_of_not_quantifiable rfl others⟩
  · rw [compileAtoms_quantifier (.inr rfl)] at compiled
    exact ⟨compiled, settled_of_not_quantifiable rfl others⟩
  · rw [withQuantity, once, behind]
    exact ⟨compiled, fun quantified => absurd once quantified⟩

omit [RegexCrate] in
theorem behindQuantity_length (rest : Text) : (behindQuantity rest).length ≤ rest.length := by
  unfold behindQuantity
  split
  · exact Nat.le_succ _
  · exact Nat.le_succ _
  · exact Nat.le_refl _

/-- The loop makes an atom of the first element of the pattern. -/
theorem compileAtoms_element {pattern workflow filter : String} {atoms result : List Atom}
    {text : Text} (some : text ≠ []) (settled : Settled atoms text)
    (compiled : compileAtoms pattern workflow filter atoms text = .ok result) :
    ∃ element rest, readElement text = .some (element, rest) ∧ rest.length < text.length ∧
      compileAtoms pattern workflow filter (atoms ++ [element.atom]) rest = .ok result ∧
      Settled (atoms ++ [element.atom]) rest := by
  rw [compileAtoms.eq_def] at compiled
  split at compiled
  · exact absurd rfl some
  · cases compiled
  · rename_i char rest
    obtain ⟨ran, isSettled⟩ := compileAtoms_single (.character char) compiled
    refine ⟨_, _, rfl, ?_, ran, isSettled⟩
    have shorter := behindQuantity_length rest
    exact Nat.lt_of_le_of_lt shorter (Nat.lt_succ_of_lt (Nat.lt_succ_self _))
  · rename_i rest
    exact ⟨.anything, rest, rfl, Nat.lt_succ_of_lt (Nat.lt_succ_self _), compiled,
      settled_of_not_quantifiable rfl rest⟩
  · rename_i rest
    dsimp only at compiled
    split at compiled
    · cases compiled
    · rename_i closed
      split at compiled
      · cases compiled
      · rename_i allowed
        have within : (rest.takeWhile (· ≠ ']')).length ≤ rest.length :=
          ( List.takeWhile_prefix _).length_le
        simp only [Bool.or_eq_true, decide_eq_true_eq, Bool.not_eq_true', not_or,
          Bool.not_eq_false] at allowed
        have valid : rest.takeWhile (· ≠ ']') ≠ [] ∧
            (rest.takeWhile (· ≠ ']')).all isRangeCharacter = true ∧
            (rest.takeWhile (· ≠ ']')).length < rest.length :=
          ⟨allowed.1, allowed.2, Nat.lt_of_le_of_ne within closed⟩
        obtain ⟨ran, isSettled⟩ :=
          compileAtoms_single (.listed ⟨rest.takeWhile (· ≠ ']'), valid.1, valid.2.1⟩) compiled
        refine ⟨_, _, ?_, ?_, ran, isSettled⟩
        · rw [readElement]
          exact dif_pos valid
        · have shorter := behindQuantity_length
            (rest.drop ((rest.takeWhile (· ≠ ']')).length + 1))
          rw [List.length_drop] at shorter
          exact Nat.lt_of_le_of_lt shorter (Nat.lt_succ_of_le (Nat.sub_le _ _))
  · rename_i char rest notEscape notEscaped notAnything notRange
    have read : readElement (char :: rest) =
        if char = '*' then .some (.segment, rest)
        else if char = '?' ∨ char = '+' then none
        else .some (withQuantity (.character char) rest) := by
      rw [readElement.eq_def]
      split
      · rename_i impossible
        cases impossible
      · rename_i same
        cases same
        exact (notEscape rfl rfl).elim
      · rename_i other others same
        cases same
        exact (notEscaped other others rfl rfl).elim
      · rename_i others same
        cases same
        exact (notAnything others rfl rfl).elim
      · rename_i others same
        cases same
        exact (notRange rfl).elim
      · rename_i same
        cases same
        rfl
    split at compiled
    · rename_i isStar
      rw [if_pos isStar] at read
      exact ⟨.segment, rest, read, Nat.lt_succ_self _, compiled,
        settled_of_not_quantifiable rfl rest⟩
    · rename_i notStar
      rw [if_neg notStar] at read
      split at compiled
      · rename_i isQuantifier
        -- A quantifier has been read with what it follows, so no atom takes this one.
        have quantified : quantityOf (char :: rest) ≠ .once := by
          rcases (by simpa using isQuantifier : char = '?' ∨ char = '+') with rfl | rfl
          · exact fun impossible => by cases impossible
          · exact fun impossible => by cases impossible
        split at compiled
        · cases compiled
        · rename_i previous isPrevious
          rw [settled quantified previous isPrevious, if_neg Bool.false_ne_true] at compiled
          cases compiled
      · rename_i notQuantifier
        rw [if_neg (by simpa using notQuantifier)] at read
        obtain ⟨ran, isSettled⟩ := compileAtoms_single (.character char) compiled
        exact ⟨_, _, read, Nat.lt_succ_of_le (behindQuantity_length rest), ran, isSettled⟩

theorem compileAtoms_denotes {pattern workflow filter : String} {atoms result : List Atom}
    {text : Text} (settled : Settled atoms text)
    (compiled : compileAtoms pattern workflow filter atoms text = .ok result) :
    ∃ elements, Denotes text elements ∧ result = atoms ++ elements.map Element.atom := by
  induction size : text.length using Nat.strong_induction_on generalizing atoms text with
  | _ size inductionHypothesis =>
      by_cases empty : text = []
      · subst empty
        rw [compileAtoms] at compiled
        cases compiled
        exact ⟨[], .done, by simp⟩
      · obtain ⟨element, rest, read, shorter, compiledRest, settledRest⟩ :=
          compileAtoms_element empty settled compiled
        obtain ⟨elements, denotes, same⟩ :=
          inductionHypothesis _ (size ▸ shorter) settledRest compiledRest rfl
        refine ⟨element :: elements, .next read denotes, ?_⟩
        rw [same, List.append_assoc, List.map_cons, List.singleton_append]

/-- A compiled pattern is the expression of its elements. -/
theorem compileGlob_denotes {pattern workflow filter : String} {regex : Regex}
    (compiled : compileGlob pattern workflow filter = .ok regex) :
    ∃ elements, Denotes pattern.toList elements ∧
      RegexCrate.new (globExpression (elements.map (Element.source RegexCrate.escape))) =
        .ok regex := by
  unfold compileGlob at compiled
  obtain ⟨atoms, ran, built⟩ := bind_eq_ok.mp compiled
  obtain ⟨elements, denotes, same⟩ :=
    compileAtoms_denotes (fun _ _ impossible => by cases impossible) ran
  refine ⟨elements, denotes, ?_⟩
  rw [same, List.nil_append, List.map_map] at built
  split at built
  · rename_i other isOther
    cases built
    exact isOther
  · cases built

/-- A compiled pattern matches a candidate exactly if that is in the language of the pattern,
but for the candidates of the language that cannot be read plainly. -/
theorem glob_law_iff (documented : RegexCrate.Documented) {pattern workflow filter : String}
    {regex : Regex} (compiled : compileGlob pattern workflow filter = .ok regex)
    (candidate : Text) :
    (RegexCrate.isMatch regex candidate = true ↔ InLanguage pattern candidate) ↔
      (InLanguage pattern candidate → ReadsPlainly pattern candidate) := by
  have plainly : RegexCrate.isMatch regex candidate = true ↔ ReadsPlainly pattern candidate := by
    obtain ⟨elements, denotes, built⟩ := compileGlob_denotes compiled
    rw [documented.isMatch_iff elements regex built candidate]
    constructor
    · intro reads
      refine ⟨elements, denotes, reads.mono fun element text read => ?_⟩
      exact read.mono (fun _ noFeed => noFeed) fun range char => (inClass_iff range.valid char).mp
    · rintro ⟨others, otherDenotes, reads⟩
      rw [denotes.unique otherDenotes]
      refine reads.mono fun element text read => ?_
      exact read.mono (fun _ noFeed => noFeed) fun range char => (inClass_iff range.valid char).mpr
  rw [plainly]
  exact ⟨fun same => same.mpr, fun implies => ⟨ReadsPlainly.inLanguage, implies⟩⟩

end Globs

/-! ### Expressions that the documentation fixes -/

namespace Sample

def metaCharacters : List Char := "\\.+*?()|[]\x7b\x7d^$#&-~".toList

def escapeChar (char : Char) : Text :=
  if char ∈ metaCharacters then ['\\', char] else [char]

theorem escapeChar_cases (char : Char) :
    (char ∈ metaCharacters ∧ escapeChar char = ['\\', char]) ∨
      (char ∉ metaCharacters ∧ escapeChar char = [char]) := by
  unfold escapeChar
  split
  · rename_i isMeta
    exact .inl ⟨isMeta, rfl⟩
  · rename_i plain
    exact .inr ⟨plain, rfl⟩

/-- An escaped character begins with no operator. -/
theorem escapeChar_head {char mark : Char} {rest other : Text} (isMark : mark ∈ metaCharacters)
    (notEscape : mark ≠ '\\') : escapeChar char ++ rest ≠ mark :: other := by
  rcases escapeChar_cases char with ⟨-, same⟩ | ⟨plain, same⟩
  · rw [same]
    intro impossible
    exact notEscape (List.cons.inj impossible).1.symm
  · rw [same]
    intro begins
    exact plain ((List.cons.inj begins).1 ▸ isMark)

theorem escapeChar_first {one two : Char} {rest other : Text}
    (same : escapeChar one ++ rest = escapeChar two ++ other) : one = two := by
  rcases escapeChar_cases one with ⟨-, isOne⟩ | ⟨plainOne, isOne⟩
  · rcases escapeChar_cases two with ⟨-, isTwo⟩ | ⟨plainTwo, isTwo⟩
    · rw [isOne, isTwo] at same
      exact (List.cons.inj (List.cons.inj same).2).1
    · rw [isOne, isTwo] at same
      exact absurd ((List.cons.inj same).1 ▸ by decide) plainTwo
  · rcases escapeChar_cases two with ⟨-, isTwo⟩ | ⟨-, isTwo⟩
    · rw [isOne, isTwo] at same
      exact absurd ((List.cons.inj same).1 ▸ by decide) plainOne
    · rw [isOne, isTwo] at same
      exact (List.cons.inj same).1

/-- The bracket that closes a range is the first one behind it. -/
theorem range_first {one two rest other : Text} (validOne : one.all isRangeCharacter = true)
    (validTwo : two.all isRangeCharacter = true)
    (same : one ++ ']' :: rest = two ++ ']' :: other) : one = two := by
  have outside : isRangeCharacter ']' = false := by decide
  induction one generalizing two with
  | nil =>
      cases two with
      | nil => rfl
      | cons char two =>
          rw [← (List.cons.inj same).1, List.all_cons, outside] at validTwo
          cases validTwo
  | cons char one inductionHypothesis =>
      cases two with
      | nil =>
          rw [(List.cons.inj same).1, List.all_cons, outside] at validOne
          cases validOne
      | cons head two =>
          rw [List.all_cons, Bool.and_eq_true] at validOne validTwo
          rw [(List.cons.inj same).1,
            inductionHypothesis validOne.2 validTwo.2 (List.cons.inj same).2]

theorem single_code : PrefixCode (Single.source escapeChar) where
  nonempty one := by
    cases one with
    | character char =>
        rcases escapeChar_cases char with ⟨-, same⟩ | ⟨-, same⟩
        all_goals simp [Single.source, same]
    | listed range => exact List.cons_ne_nil _ _
  first {one two rest other} same := by
    cases one with
    | character char =>
        cases two with
        | character otherChar => rw [escapeChar_first same]
        | listed range => exact absurd same (escapeChar_head (by decide) (by decide))
    | listed range =>
        cases two with
        | character otherChar => exact absurd same.symm (escapeChar_head (by decide) (by decide))
        | listed otherRange =>
            obtain ⟨text, nonempty, valid⟩ := range
            obtain ⟨otherText, otherNonempty, otherValid⟩ := otherRange
            have texts : text ++ ']' :: rest = otherText ++ ']' :: other := by
              simpa [Single.source] using same
            cases range_first valid otherValid texts
            rfl

/-- A single piece begins neither as a dot, nor as a group, nor as a negated class. -/
theorem single_head (one : Single) (rest other : Text) :
    one.source escapeChar ++ rest ≠ '.' :: other ∧
      one.source escapeChar ++ rest ≠ '(' :: other ∧
      one.source escapeChar ++ rest ≠ '[' :: '^' :: other := by
  cases one with
  | character char =>
      exact ⟨escapeChar_head (by decide) (by decide), escapeChar_head (by decide) (by decide),
        escapeChar_head (by decide) (by decide)⟩
  | listed range =>
      refine ⟨by simp [Single.source], by simp [Single.source], ?_⟩
      obtain ⟨text, nonempty, valid⟩ := range
      cases text with
      | nil => exact absurd rfl nonempty
      | cons char text =>
          intro same
          rw [(List.cons.inj (List.cons.inj same).2).1, List.all_cons] at valid
          cases valid

theorem optional_source (one : Single) (rest : Text) :
    (Element.single one .optional).source escapeChar ++ rest =
      "(?:".toList ++ (one.source escapeChar ++ ')' :: '?' :: rest) := by
  rw [Element.source, List.append_assoc, List.append_assoc]
  rfl

theorem repeated_source (one : Single) (rest : Text) :
    (Element.single one .repeated).source escapeChar ++ rest =
      "(?:".toList ++ (one.source escapeChar ++ ')' :: '+' :: rest) := by
  rw [Element.source, List.append_assoc, List.append_assoc]
  rfl

theorem group_first {one two : Single} {mark otherMark : Char} {rest other : Text}
    (same : "(?:".toList ++ (one.source escapeChar ++ ')' :: mark :: rest) =
      "(?:".toList ++ (two.source escapeChar ++ ')' :: otherMark :: other)) :
    one = two ∧ mark = otherMark := by
  obtain ⟨isSame, behind⟩ := single_code.cancel (List.append_cancel_left same)
  exact ⟨isSame, (List.cons.inj (List.cons.inj behind).2).1⟩

theorem single_first {one two : Single} {quantity otherQuantity : Quantity} {rest other : Text}
    (same : (Element.single one quantity).source escapeChar ++ rest =
      (Element.single two otherQuantity).source escapeChar ++ other) :
    one = two ∧ quantity = otherQuantity := by
  cases quantity with
  | once =>
      cases otherQuantity with
      | once => exact ⟨single_code.first same, rfl⟩
      | optional => exact absurd same (single_head one rest _).2.1
      | repeated => exact absurd same (single_head one rest _).2.1
  | optional =>
      rw [optional_source] at same
      cases otherQuantity with
      | once => exact absurd same.symm (single_head two other _).2.1
      | optional =>
          rw [optional_source] at same
          exact ⟨(group_first same).1, rfl⟩
      | repeated =>
          rw [repeated_source] at same
          exact absurd (group_first same).2 (by decide)
  | repeated =>
      rw [repeated_source] at same
      cases otherQuantity with
      | once => exact absurd same.symm (single_head two other _).2.1
      | optional =>
          rw [optional_source] at same
          exact absurd (group_first same).2 (by decide)
      | repeated =>
          rw [repeated_source] at same
          exact ⟨(group_first same).1, rfl⟩

theorem element_code : PrefixCode (Element.source escapeChar) where
  nonempty element := by
    cases element with
    | anything => exact List.cons_ne_nil _ _
    | segment => exact List.cons_ne_nil _ _
    | single one quantity =>
        cases quantity with
        | once => exact single_code.nonempty one
        | optional => exact List.cons_ne_nil _ _
        | repeated => exact List.cons_ne_nil _ _
  first {one two rest other} same := by
    cases one with
    | anything =>
        cases two with
        | anything => rfl
        | segment => cases same
        | single two quantity =>
            cases quantity with
            | once => exact absurd same.symm (single_head two other _).1
            | optional => cases same
            | repeated => cases same
    | segment =>
        cases two with
        | anything => cases same
        | segment => rfl
        | single two quantity =>
            cases quantity with
            | once => exact absurd same.symm (single_head two other _).2.2
            | optional => cases same
            | repeated => cases same
    | single one quantity =>
        cases two with
        | anything =>
            cases quantity with
            | once => exact absurd same (single_head one rest _).1
            | optional => cases same
            | repeated => cases same
        | segment =>
            cases quantity with
            | once => exact absurd same (single_head one rest _).2.2
            | optional => cases same
            | repeated => cases same
        | single two otherQuantity =>
            obtain ⟨rfl, rfl⟩ := single_first same
            rfl

theorem globExpression_injective {ones twos : List Element}
    (same : globExpression (ones.map (Element.source escapeChar)) =
      globExpression (twos.map (Element.source escapeChar))) : ones = twos := by
  have bodies := List.append_cancel_left (List.append_cancel_right same)
  rw [← List.flatMap_def, ← List.flatMap_def] at bodies
  exact element_code.flatMap_injective bodies

open Classical in
/-- A crate that knows the expressions of globs only. -/
noncomputable scoped instance reference : RegexCrate where
  Regex := List Element
  new text :=
    if known : ∃ elements : List Element,
        globExpression (elements.map (Element.source escapeChar)) = text then
      .ok known.choose
    else .error "unknown"
  isMatch elements candidate :=
    decide (ReadAll (Element.Reads (fun text => '\n' ∉ text) InClass) elements candidate)
  escape := escapeChar

theorem reference_new (elements : List Element) :
    RegexCrate.new (globExpression (elements.map (Element.source escapeChar))) =
      .ok (elements : Regex) := by
  have known : ∃ others : List Element,
      globExpression (others.map (Element.source escapeChar)) =
        globExpression (elements.map (Element.source escapeChar)) := ⟨elements, rfl⟩
  exact (dif_pos known).trans (congrArg _ (globExpression_injective known.choose_spec))

theorem reference_isMatch (elements : List Element) (candidate : Text) :
    RegexCrate.isMatch (elements : Regex) candidate = true ↔
      ReadAll (Element.Reads (fun text => '\n' ∉ text) InClass) elements candidate :=
  @decide_eq_true_iff _ (Classical.propDecidable _)

theorem reference_documented : RegexCrate.Documented := by
  refine ⟨fun elements regex built candidate => ?_⟩
  cases (reference_new elements).symm.trans built
  exact reference_isMatch elements candidate

/-- The crate accepts the expression of every glob. -/
theorem compileGlob_reference {pattern workflow filter : String} {atoms : List Atom}
    {elements : List Element}
    (compiled : compileAtoms pattern workflow filter [] pattern.toList = .ok atoms)
    (same : atoms.map (·.source) = elements.map (Element.source escapeChar)) :
    compileGlob pattern workflow filter = .ok (elements : Regex) := by
  unfold compileGlob
  rw [compiled]
  dsimp only [bind, Except.bind]
  rw [same, reference_new]

theorem compile_doubleStar :
    compileGlob "**" "ci.yml" "paths" = .ok ([.anything] : List Element) := by
  have compiled : compileAtoms "**" "ci.yml" "paths" [] "**".toList =
      .ok [⟨".*".toList, false⟩] := by
    rw [show "**".toList = ['*', '*'] from rfl, compileAtoms, compileAtoms]
    rfl
  exact compileGlob_reference compiled rfl

/-- The range whose hyphens take the letter behind them away. -/
def hyphenRange : Range where
  text := "a--z".toList
  nonempty := by decide
  valid := by decide

theorem compile_hyphenRange :
    compileGlob "[a--z]" "ci.yml" "paths" =
      .ok ([.single (.listed hyphenRange) .once] : List Element) := by
  have compiled : compileAtoms "[a--z]" "ci.yml" "paths" [] "[a--z]".toList =
      .ok [⟨"[a--z]".toList, true⟩] := by
    rw [show "[a--z]".toList = ['[', 'a', '-', '-', 'z', ']'] from rfl, compileAtoms]
    exact compileAtoms.eq_1 ..
  exact compileGlob_reference compiled rfl

theorem hyphenRange_tokens : bodyTokens hyphenRange.text =
    [.item (.literal 'a'), .difference, .item (.literal 'z')] := by
  rw [show hyphenRange.text = ['a', '-', '-', 'z'] from rfl]
  simp [bodyTokens, classTokens]

theorem hyphenRange_listed : Listed hyphenRange.text 'z' := by
  rw [listed_iff_bodyTokens hyphenRange.valid, hyphenRange_tokens]
  exact .inl ⟨.literal 'z', by simp, rfl⟩

theorem hyphenRange_inClass : ¬ InClass hyphenRange.text 'z' := by
  rw [InClass, hyphenRange_tokens]
  intro matched
  exact matched.2 ⟨.literal 'z', List.mem_cons_of_mem ClassToken.difference List.mem_cons_self, rfl⟩

/-- What `**` matches. -/
theorem doubleStar_law :
    (RegexCrate.isMatch ([.anything] : List Element) "docs".toList = true ↔
        InLanguage "**" "docs".toList) ↔
      (InLanguage "**" "docs".toList → ReadsPlainly "**" "docs".toList) :=
  glob_law_iff reference_documented compile_doubleStar _

/-- A line feed is no part of what `**` matches, and a letter behind two hyphens is none of
its class. -/
theorem line_feed_and_difference_are_missed :
    (∃ regex, compileGlob "**" "ci.yml" "paths" = .ok regex ∧
      ¬ (RegexCrate.isMatch regex "\n".toList = true ↔ InLanguage "**" "\n".toList)) ∧
    ∃ regex, compileGlob "[a--z]" "ci.yml" "paths" = .ok regex ∧
      ¬ (RegexCrate.isMatch regex "z".toList = true ↔ InLanguage "[a--z]" "z".toList) := by
  refine ⟨⟨_, compile_doubleStar, fun same => ?_⟩, ⟨_, compile_hyphenRange, fun same => ?_⟩⟩
  · have inside : InLanguage "**" "\n".toList :=
      ⟨[.anything], .next rfl .done, readAll_singleton.mpr trivial⟩
    have noFeed : '\n' ∉ "\n".toList :=
      readAll_singleton.mp ((reference_isMatch _ _).mp (same.mpr inside))
    exact noFeed (by decide)
  · have inside : InLanguage "[a--z]" "z".toList :=
      ⟨[.single (.listed hyphenRange) .once], .next rfl .done,
        readAll_singleton.mpr ⟨'z', rfl, hyphenRange_listed⟩⟩
    obtain ⟨char, isChar, matched⟩ :=
      readAll_singleton.mp ((reference_isMatch _ _).mp (same.mpr inside))
    cases isChar
    exact hyphenRange_inClass matched

end Sample

end GitZero.Workflows
