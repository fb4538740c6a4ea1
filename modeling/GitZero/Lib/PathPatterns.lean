/-
Module: GitZero.Lib.PathPatterns
Purpose: File name patterns of paths: their elements, how a pattern is read, and which texts
  match it.
Trusted boundary: none
Main exports: CharClass, Element, elements, Matches, matches_star_iff, matches_directories_iff,
  matches_literals_iff
-/
import Mathlib.Data.List.Basic
import Mathlib.Tactic.Cases

namespace GitZero.PathPatterns

/-! ### Elements -/

/-- A member of a character class. -/
inductive ClassItem where
  | single (char : Char)
  | range (first last : Char)
deriving Repr, DecidableEq

def ClassItem.Has (value : Char) : ClassItem → Prop
  | single char => char = value
  | range first last => first ≤ value ∧ value ≤ last

/-- A character class, negated or not. -/
structure CharClass where
  negated : Bool
  items : List ClassItem
deriving Repr, DecidableEq

def CharClass.Has (cls : CharClass) (value : Char) : Prop :=
  if cls.negated then ∀ item ∈ cls.items, ¬ item.Has value else ∃ item ∈ cls.items, item.Has value

/-- An element of a pattern. -/
inductive Element where
  | literal (char : Char)
  | anyChar
  | oneOf (cls : CharClass)
  /-- Any characters but `/`. -/
  | star
  /-- Any complete directories. -/
  | directories
  /-- A class that is not closed or empty, or a backslash at the end. -/
  | nothing
deriving Repr, DecidableEq

/-! ### Reading a pattern -/

/-- The characters up to the `]` with whether each is escaped, and what is behind it. -/
def classMembers : List Char → Option (List (Char × Bool) × List Char)
  | [] => none
  | ']' :: rest => some ([], rest)
  | ['\\'] => none
  | '\\' :: char :: rest => (classMembers rest).map fun read => ((char, true) :: read.1, read.2)
  | char :: rest => (classMembers rest).map fun read => ((char, false) :: read.1, read.2)

def classItems : List (Char × Bool) → List ClassItem
  | (first, _) :: ('-', false) :: (last, _) :: rest => .range first last :: classItems rest
  | (char, _) :: rest => .single char :: classItems rest
  | [] => []

/-- A class behind its `[`. -/
def readClass (text : List Char) : Option (CharClass × List Char) :=
  let negated := (text.head?).any fun char => char = '!' || char = '^'
  match classMembers (if negated then text.tail else text) with
  | none => none
  | some ([], _) => none
  | some (members, rest) => some ({ negated, items := classItems members }, rest)

theorem classMembers_length {text rest : List Char} {members : List (Char × Bool)}
    (isClass : classMembers text = some (members, rest)) : rest.length < text.length := by
  fun_induction classMembers text generalizing members with
  | case1 => cases isClass
  | case2 rest =>
      cases isClass
      exact Nat.lt_succ_self _
  | case3 => cases isClass
  | case4 char tail inductionHypothesis =>
      obtain ⟨⟨others, behind⟩, isRead, same⟩ := Option.map_eq_some_iff.mp isClass
      cases same
      have shorter := inductionHypothesis isRead
      rw [List.length_cons, List.length_cons]
      omega
  | case5 char tail _ _ _ inductionHypothesis =>
      obtain ⟨⟨others, behind⟩, isRead, same⟩ := Option.map_eq_some_iff.mp isClass
      cases same
      have shorter := inductionHypothesis isRead
      rw [List.length_cons]
      omega

theorem readClass_length {text rest : List Char} {cls : CharClass}
    (isClass : readClass text = some (cls, rest)) : rest.length < text.length + 1 := by
  rw [readClass] at isClass
  split at isClass
  · cases isClass
  · cases isClass
  · next members behind _ isRead =>
      cases isClass
      have shorter := classMembers_length isRead
      have tail := (List.tail_suffix text).length_le
      split at shorter
      · omega
      · omega

theorem dropWhile_length (text : List Char) :
    (text.dropWhile (· = '*')).length ≤ text.length :=
  (List.dropWhile_suffix _).length_le

/-- The elements of a pattern; `boundary` says that the pattern starts here, or that a `/` is
before it. -/
def elements (boundary : Bool) : List Char → List Element
  | [] => []
  | ['\\'] => [.nothing]
  | '\\' :: char :: rest => .literal char :: elements (char = '/') rest
  | '?' :: rest => .anyChar :: elements false rest
  | '[' :: rest =>
      match _isClass : readClass rest with
      | none => [.nothing]
      | some (cls, tail) => .oneOf cls :: elements false tail
  | '*' :: rest =>
      let behind := rest.dropWhile (· = '*')
      if boundary && rest.head? = some '*' && behind.head? = some '/' then
        .directories :: elements true behind.tail
      else .star :: elements false behind
  | char :: rest => .literal char :: elements (char = '/') rest
termination_by text => text.length
decreasing_by
  · rw [List.length_cons, List.length_cons]
    omega
  · exact Nat.lt_succ_self _
  · exact readClass_length _isClass
  · have shorter := dropWhile_length rest
    have tail := (List.tail_suffix (rest.dropWhile (· = '*'))).length_le
    rw [List.length_cons]
    omega
  · exact Nat.lt_succ_of_le (dropWhile_length rest)
  · exact Nat.lt_succ_self _

/-- Other characters stand for themselves. -/
theorem elements_plain {boundary : Bool} {pattern : List Char}
    (plain : ∀ char ∈ pattern, char ≠ '?' ∧ char ≠ '*' ∧ char ≠ '[' ∧ char ≠ '\\') :
    elements boundary pattern = pattern.map .literal := by
  induction pattern generalizing boundary with
  | nil => rw [elements, List.map_nil]
  | cons char rest inductionHypothesis =>
      obtain ⟨⟨any, star, bracket, escape⟩, others⟩ := List.forall_mem_cons.mp plain
      rw [elements.eq_7 _ _ _ (fun same => absurd same escape)
        (fun _ _ same => absurd same escape) any bracket star, inductionHypothesis others,
        List.map_cons]

theorem elements_class {boundary : Bool} {text tail : List Char} {cls : CharClass}
    (isClass : readClass text = some (cls, tail)) :
    elements boundary ('[' :: text) = .oneOf cls :: elements false tail := by
  rw [elements]
  split
  · next unread => cases isClass.symm.trans unread
  · next other behind isOther =>
      cases isClass.symm.trans isOther
      rfl

theorem elements_unread {boundary : Bool} {text : List Char} (unread : readClass text = none) :
    elements boundary ('[' :: text) = [.nothing] := by
  rw [elements]
  split
  · rfl
  · next isClass => cases unread.symm.trans isClass

/-! ### Matching -/

/-- A `.` at the start of a segment. -/
def Hidden (start : Bool) (text : List Char) : Prop :=
  start = true ∧ text.head? = some '.'

/-- The texts that match the elements; `start` says that the text starts here, or that a `/` is
before it. -/
inductive Matches : Bool → List Element → List Char → Prop where
  | done {start : Bool} : Matches start [] []
  | literal {start : Bool} {char : Char} {rest : List Element} {text : List Char} :
      Matches (char = '/') rest text → Matches start (.literal char :: rest) (char :: text)
  | anyChar {start : Bool} {char : Char} {rest : List Element} {text : List Char} :
      char ≠ '/' → ¬ Hidden start (char :: text) → Matches false rest text →
        Matches start (.anyChar :: rest) (char :: text)
  | oneOf {start : Bool} {cls : CharClass} {char : Char} {rest : List Element}
      {text : List Char} :
      char ≠ '/' → ¬ Hidden start (char :: text) → cls.Has char → Matches false rest text →
        Matches start (.oneOf cls :: rest) (char :: text)
  | star {start : Bool} {rest : List Element} (taken : List Char) {text : List Char} :
      '/' ∉ taken → ¬ Hidden start (taken ++ text) → Matches (start && taken.isEmpty) rest text →
        Matches start (.star :: rest) (taken ++ text)
  | directories {rest : List Element} (taken : List (List Char)) {text : List Char} :
      (∀ directory ∈ taken, '/' ∉ directory ∧ directory.head? ≠ some '.') →
        Matches true rest text →
          Matches true (.directories :: rest) (taken.flatMap (· ++ ['/']) ++ text)

variable {start : Bool} {rest : List Element} {text : List Char}

@[simp] theorem matches_nil_iff : Matches start [] text ↔ text = [] := by
  constructor
  · intro matched
    cases matched
    rfl
  · rintro rfl
    exact .done

@[simp] theorem not_matches_nothing : ¬ Matches start (.nothing :: rest) text := nofun

theorem matches_literal_iff {char : Char} :
    Matches start (.literal char :: rest) text ↔
      ∃ tail, text = char :: tail ∧ Matches (char = '/') rest tail := by
  constructor
  · rintro (_ | ⟨matched⟩)
    exact ⟨_, rfl, matched⟩
  · rintro ⟨tail, rfl, matched⟩
    exact .literal matched

theorem matches_anyChar_iff :
    Matches start (.anyChar :: rest) text ↔
      ∃ char tail, text = char :: tail ∧ char ≠ '/' ∧ ¬ Hidden start text ∧
        Matches false rest tail := by
  constructor
  · rintro (_ | _ | ⟨inside, visible, matched⟩)
    exact ⟨_, _, rfl, inside, visible, matched⟩
  · rintro ⟨char, tail, rfl, inside, visible, matched⟩
    exact .anyChar inside visible matched

theorem matches_oneOf_iff {cls : CharClass} :
    Matches start (.oneOf cls :: rest) text ↔
      ∃ char tail, text = char :: tail ∧ char ≠ '/' ∧ ¬ Hidden start text ∧ cls.Has char ∧
        Matches false rest tail := by
  constructor
  · rintro (_ | _ | _ | ⟨inside, visible, isOne, matched⟩)
    exact ⟨_, _, rfl, inside, visible, isOne, matched⟩
  · rintro ⟨char, tail, rfl, inside, visible, isOne, matched⟩
    exact .oneOf inside visible isOne matched

theorem not_hidden_false : ¬ Hidden false text := fun hidden => Bool.false_ne_true hidden.1

/-- A star matches nothing, or one character more. -/
theorem matches_star_iff :
    Matches start (.star :: rest) text ↔ ¬ Hidden start text ∧
      (Matches start rest text ∨
        ∃ char tail, text = char :: tail ∧ char ≠ '/' ∧ Matches false (.star :: rest) tail) := by
  constructor
  · intro matched
    cases matched with
    | star taken inside visible matched =>
        refine ⟨visible, ?_⟩
        cases taken with
        | nil => exact .inl (by simpa using matched)
        | cons char taken =>
            rw [List.mem_cons, not_or] at inside
            refine .inr ⟨char, _, rfl, Ne.symm inside.1, ?_⟩
            exact .star taken inside.2 not_hidden_false (by simpa using matched)
  · rintro ⟨visible, matched | ⟨char, tail, rfl, inside, matched⟩⟩
    · exact .star [] List.not_mem_nil visible (by simpa using matched)
    · cases matched with
      | star taken without _ matched =>
          refine .star (char :: taken) ?_ visible (by simpa using matched)
          rw [List.mem_cons, not_or]
          exact ⟨Ne.symm inside, without⟩

/-- Directories match nothing, or one directory more. -/
theorem matches_directories_iff :
    Matches true (.directories :: rest) text ↔ Matches true rest text ∨
      ∃ directory tail, text = directory ++ '/' :: tail ∧ '/' ∉ directory ∧
        directory.head? ≠ some '.' ∧ Matches true (.directories :: rest) tail := by
  constructor
  · intro matched
    cases matched with
    | directories taken visible matched =>
        cases taken with
        | nil => exact .inl matched
        | cons directory taken =>
            obtain ⟨first, others⟩ := List.forall_mem_cons.mp visible
            refine .inr ⟨directory, _, ?_, first.1, first.2, .directories taken others matched⟩
            rw [List.flatMap_cons, List.append_assoc, List.append_assoc, List.singleton_append]
  · rintro (matched | ⟨directory, tail, rfl, inside, visible, matched⟩)
    · exact .directories [] (List.forall_mem_nil _) matched
    · cases matched with
      | @directories _ taken text others matched =>
          have more := Matches.directories (directory :: taken)
            (List.forall_mem_cons.mpr ⟨⟨inside, visible⟩, others⟩) matched
          rw [List.flatMap_cons, List.append_assoc, List.append_assoc, List.singleton_append]
            at more
          exact more

/-- Literals match the text of their characters. -/
theorem matches_literals_iff {chars : List Char} :
    Matches start (chars.map .literal) text ↔ text = chars := by
  induction chars generalizing start text with
  | nil => exact matches_nil_iff
  | cons char chars inductionHypothesis =>
      rw [List.map_cons, matches_literal_iff]
      constructor
      · rintro ⟨tail, rfl, matched⟩
        rw [inductionHypothesis.mp matched]
      · rintro rfl
        exact ⟨chars, rfl, inductionHypothesis.mpr rfl⟩

end GitZero.PathPatterns
