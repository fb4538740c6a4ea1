/-
Module: GitZero.Proofs.CommandFiles
Purpose: A command file is read as the entries that were written into it, and nothing else is
  read.
Trusted boundary: none
Main exports: CommandEntry, CommandEntry.WellFormed, Written, lastValues, command_files_read_back
-/
import Mathlib.Data.List.DropRight
import GitZero.Agent.Environment

namespace GitZero.Agent

open Expression (Text)
open GitZero.Splits

/-! ### Entries and their lines -/

/-- A text that stands on a line of its own. -/
def LineText (text : Text) : Prop := '\n' ∉ text ∧ text.getLast? ≠ some '\r'

instance (text : Text) : Decidable (LineText text) := inferInstanceAs (Decidable (_ ∧ _))

/-- A name that the line of an entry cannot be divided in. -/
structure EntryName (name : Text) : Prop where
  nonempty : name ≠ []
  unmarked : '=' ∉ name
  unopened : ¬ ['<', '<'] <:+: name
  unzeroed : '\x00' ∉ name
  unbroken : '\n' ∉ name ∧ '\r' ∉ name

/-- An entry of a command file, as a step means it. -/
inductive CommandEntry where
  | assignment (name value : Text)
  | heredoc (name delimiter : Text) (lines : List Text)
deriving DecidableEq

def CommandEntry.name : CommandEntry → Text
  | .assignment name _ | .heredoc name _ _ => name

def CommandEntry.value : CommandEntry → Text
  | .assignment _ value => value
  | .heredoc _ _ lines => List.intercalate ['\n'] lines

def CommandEntry.lines : CommandEntry → List Text
  | .assignment name value => [name ++ '=' :: value]
  | .heredoc name delimiter lines => (name ++ '<' :: '<' :: delimiter) :: (lines ++ [delimiter])

/-- What an entry can be written with.  A name before `<<` does not end in `<`, which would move
the mark. -/
def CommandEntry.WellFormed : CommandEntry → Prop
  | .assignment name value => EntryName name ∧ LineText value
  | .heredoc name delimiter lines =>
      EntryName name ∧ name.getLast? ≠ some '<' ∧ delimiter ≠ [] ∧ LineText delimiter ∧
        ∀ line ∈ lines, LineText line ∧ line ≠ delimiter

/-- The lines of entries and of the empty lines between them. -/
def itemLines (items : List (Option CommandEntry)) : List Text :=
  items.flatMap fun item => (item.map CommandEntry.lines).getD [[]]

/-- A source with the given lines.  Carriage returns before a line feed or before the end belong
to the break. -/
inductive Written : List Text → Text → Prop where
  | nil : Written [] []
  | last (line : Text) (returns : Nat) (some : line ++ List.replicate returns '\r' ≠ []) :
      Written [line] (line ++ List.replicate returns '\r')
  | line (line : Text) (returns : Nat) {lines : List Text} {rest : Text}
      (others : Written lines rest) :
      Written (line :: lines) (line ++ List.replicate returns '\r' ++ '\n' :: rest)

def insertEntry (values : Environment) (entry : CommandEntry) : Environment :=
  values.insert (String.ofList entry.name) (String.ofList entry.value)

/-- The map in which the last entry of each name wins. -/
def lastValues (entries : List CommandEntry) : Environment := entries.foldl insertEntry ∅

/-! ### Lines -/

theorem trimCarriageReturns_eq (line : Text) :
    trimCarriageReturns line = line.rdropWhile (· = '\r') := rfl

theorem trimCarriageReturns_append (line : Text) (returns : Nat) (isLine : LineText line) :
    trimCarriageReturns (line ++ List.replicate returns '\r') = line := by
  induction returns with
  | zero =>
      rw [List.replicate_zero, List.append_nil, trimCarriageReturns_eq,
        List.rdropWhile_eq_self_iff]
      intro nonempty returned
      exact isLine.2 (by
        rw [List.getLast?_eq_some_getLast nonempty, of_decide_eq_true returned])
  | succ returns inductionHypothesis =>
      rw [List.replicate_succ', ← List.append_assoc, trimCarriageReturns_eq,
        List.rdropWhile_concat_pos _ _ _ (by rfl)]
      exact inductionHypothesis

theorem trimCarriageReturns_line {line : Text} (isLine : LineText line) :
    trimCarriageReturns line = line := by
  have trimmed := trimCarriageReturns_append line 0 isLine
  rwa [List.replicate_zero, List.append_nil] at trimmed

/-- What trimming takes away are carriage returns, and none is left behind. -/
theorem trimCarriageReturns_split (line : Text) :
    ∃ returns, line = trimCarriageReturns line ++ List.replicate returns '\r' := by
  refine ⟨(line.rtakeWhile (· = '\r')).length, ?_⟩
  have returns : line.rtakeWhile (· = '\r') =
      List.replicate (line.rtakeWhile (· = '\r')).length '\r' :=
    List.eq_replicate_of_mem fun char member =>
      by simpa using List.mem_rtakeWhile_imp member
  rw [← returns]
  exact List.rdropWhile_append_rtakeWhile.symm

theorem getLast_trimCarriageReturns (line : Text) :
    (trimCarriageReturns line).getLast? ≠ some '\r' := by
  intro isLast
  have nonempty : trimCarriageReturns line ≠ [] := by
    intro empty
    rw [empty] at isLast
    cases isLast
  refine List.rdropWhile_last_not (· = '\r') line nonempty (decide_eq_true ?_)
  rw [List.getLast?_eq_some_getLast nonempty] at isLast
  exact Option.some.inj isLast

theorem trimCarriageReturns_twice (line : Text) :
    trimCarriageReturns (trimCarriageReturns line) = trimCarriageReturns line :=
  List.rdropWhile_idempotent (· = '\r') line

theorem lineText_trim {line : Text} (unbroken : '\n' ∉ line) :
    LineText (trimCarriageReturns line) := by
  refine ⟨fun member => unbroken ?_, getLast_trimCarriageReturns line⟩
  obtain ⟨returns, whole⟩ := trimCarriageReturns_split line
  rw [whole]
  exact List.mem_append_left _ member

/-- `str::lines` up to the first break. -/
theorem sourceLines_line {line : Text} (unbroken : '\n' ∉ line) (rest : Text) :
    sourceLines (String.ofList (line ++ '\n' :: rest)) =
      (if line.getLast? = some '\r' then line.dropLast else line) ::
        sourceLines (String.ofList rest) := by
  have pieces : (line ++ '\n' :: rest).splitOn '\n' = line :: rest.splitOn '\n' :=
    List.splitOnP_append_cons_of_forall_mem (fun char member => by
      simpa using ne_of_mem_of_not_mem member unbroken) '\n' (by rfl) rest
  obtain ⟨first, others, split⟩ := List.exists_cons_of_ne_nil (List.splitOn_ne_nil '\n' rest)
  simp only [sourceLines, String.toList_ofList, pieces, split, List.dropLast_cons_cons,
    List.map_cons,
    List.getLast?_cons_cons, List.cons_append]

theorem sourceLines_last {line : Text} (unbroken : '\n' ∉ line) (some : line ≠ []) :
    sourceLines (String.ofList line) = [line] := by
  simp [sourceLines, List.splitOn_eq_singleton unbroken, some]

theorem trim_broken (line : Text) :
    trimCarriageReturns (if line.getLast? = some '\r' then line.dropLast else line) =
      trimCarriageReturns line := by
  split
  · rename_i returned
    have whole : line = line.dropLast ++ ['\r'] :=
      (List.dropLast_append_getLast? '\r' returned).symm
    conv => rhs; rw [whole]
    rw [trimCarriageReturns, trimCarriageReturns, List.reverse_append, List.reverse_singleton,
      List.singleton_append, List.dropWhile_cons_of_pos (by rfl)]
  · rfl

/-- A source has the lines that were written. -/
theorem sourceLines_written {lines : List Text} {source : Text} (written : Written lines source)
    (areLines : ∀ line ∈ lines, LineText line) :
    (sourceLines (String.ofList source)).map trimCarriageReturns = lines := by
  have unbroken {line : Text} (isLine : LineText line) (returns : Nat) :
      '\n' ∉ line ++ List.replicate returns '\r' := by
    simpa using isLine.1
  induction written with
  | nil => rfl
  | last line returns some =>
      have isLine := areLines line List.mem_cons_self
      rw [sourceLines_last (unbroken isLine returns) some, List.map_singleton,
        trimCarriageReturns_append line returns isLine]
  | line line returns others inductionHypothesis =>
      have isLine := areLines line List.mem_cons_self
      rw [sourceLines_line (unbroken isLine returns), List.map_cons, trim_broken,
        trimCarriageReturns_append line returns isLine,
        inductionHypothesis fun line member => areLines line (List.mem_cons_of_mem _ member)]

/-- Every source is written with its trimmed lines, none of which holds a break. -/
theorem written_sourceLines (source : Text) :
    Written ((sourceLines (String.ofList source)).map trimCarriageReturns) source ∧
      ∀ line ∈ (sourceLines (String.ofList source)).map trimCarriageReturns, LineText line := by
  induction length : source.length using Nat.strong_induction_on generalizing source with
  | h length' inductionHypothesis =>
      by_cases breaks : '\n' ∈ source
      · obtain ⟨line, rest, whole, unbroken⟩ := List.eq_append_cons_of_mem breaks
        subst whole
        obtain ⟨written, areLines⟩ := inductionHypothesis rest.length (by
          rw [← length, List.length_append, List.length_cons]
          omega) rest rfl
        obtain ⟨returns, split⟩ := trimCarriageReturns_split line
        rw [sourceLines_line unbroken, List.map_cons, trim_broken]
        constructor
        · conv => rhs; rw [split]
          exact .line _ returns written
        · exact List.forall_mem_cons.mpr ⟨lineText_trim unbroken, areLines⟩
      · by_cases empty : source = []
        · subst empty
          exact ⟨.nil, fun line member => absurd member List.not_mem_nil⟩
        · obtain ⟨returns, split⟩ := trimCarriageReturns_split source
          rw [sourceLines_last breaks empty, List.map_singleton]
          constructor
          · conv => rhs; rw [split]
            exact .last _ returns (by rwa [← split])
          · exact List.forall_mem_singleton.mpr (lineText_trim breaks)

/-! ### Marks -/

/-- Two marks in a row begin where the first of them does. -/
theorem splitOnce_open {name : Text} (unopened : ¬ ['<', '<'] <:+: name)
    (open' : name.getLast? ≠ some '<') (delimiter : Text) :
    splitOnce ['<', '<'] (name ++ '<' :: '<' :: delimiter) = some (name, delimiter) := by
  induction name with
  | nil => rfl
  | cons char name inductionHypothesis =>
      have later : ¬ ['<', '<'] <:+: name := fun found => unopened (List.infix_cons found)
      have here : ¬ ['<', '<'] <+: char :: (name ++ '<' :: '<' :: delimiter) := by
        rintro ⟨behind, same⟩
        obtain ⟨isFirst, same⟩ := List.cons.inj same
        cases name with
        | nil =>
            rw [List.getLast?_singleton] at open'
            exact open' (by rw [isFirst])
        | cons next name =>
            have isSecond := (List.cons.inj same).1
            exact unopened ⟨[], name, by rw [← isFirst, ← isSecond]; rfl⟩
      rw [List.cons_append, splitOnce, if_neg here]
      cases name with
      | nil => rfl
      | cons next name =>
          rw [inductionHypothesis later (by rwa [List.getLast?_cons_cons] at open')]
          rfl

/-- A mark that is not in a text is only found behind it. -/
theorem length_of_splitOnce {mark name rest first second : Text}
    (absent : ∀ before after, name ++ rest = before ++ (mark ++ after) →
      name.length < before.length)
    (found : splitOnce mark (name ++ rest) = some (first, second)) :
    name.length < first.length :=
  absent first second (splitOnce_parts found)

theorem behind_equals {name value before after : Text} (unopened : ¬ ['<', '<'] <:+: name)
    (same : name ++ '=' :: value = before ++ (['<', '<'] ++ after)) :
    name.length < before.length := by
  rcases List.append_eq_append_iff.mp same with ⟨between, isBefore, isBehind⟩ |
    ⟨between, isName, isBehind⟩
  · cases between with
    | nil => cases isBehind
    | cons char between =>
        rw [isBefore, List.length_append, List.length_cons]
        omega
  · cases between with
    | nil => cases isBehind
    | cons first between =>
        cases between with
        | nil => cases isBehind
        | cons second between =>
            cases isBehind
            exact absurd ⟨before, between, by rw [isName, List.append_assoc]; rfl⟩ unopened

theorem behind_open {name delimiter before after : Text} (unmarked : '=' ∉ name)
    (same : name ++ '<' :: '<' :: delimiter = before ++ (['='] ++ after)) :
    name.length < before.length := by
  rcases List.append_eq_append_iff.mp same with ⟨between, isBefore, isBehind⟩ |
    ⟨between, isName, isBehind⟩
  · cases between with
    | nil => cases isBehind
    | cons char between =>
        rw [isBefore, List.length_append, List.length_cons]
        omega
  · cases between with
    | nil => cases isBehind
    | cons first between =>
        cases isBehind
        exact absurd (by rw [isName]; simp) unmarked

theorem readCommandLine_assignment {name : Text} (isName : EntryName name) (value : Text) :
    readCommandLine (name ++ '=' :: value) = .assignment name value := by
  have assigned : splitOnce ['='] (name ++ '=' :: value) = some (name, value) :=
    splitOnce_of_not_mem isName.unmarked value
  rw [readCommandLine, assigned]
  cases found : splitOnce ['<', '<'] (name ++ '=' :: value) with
  | none => rfl
  | some parts =>
      have behind := length_of_splitOnce
        (fun before after same => behind_equals isName.unopened same) found
      exact if_neg (Nat.not_lt_of_lt behind)

theorem readCommandLine_heredoc {name : Text} (isName : EntryName name)
    (open' : name.getLast? ≠ some '<') (delimiter : Text) :
    readCommandLine (name ++ '<' :: '<' :: delimiter) = .heredoc name delimiter := by
  rw [readCommandLine, splitOnce_open isName.unopened open']
  cases found : splitOnce ['='] (name ++ '<' :: '<' :: delimiter) with
  | none => rfl
  | some parts =>
      have behind := length_of_splitOnce
        (fun before after same => behind_open isName.unmarked same) found
      exact if_pos behind

theorem opened_shorter {line first second : Text} {before after : Text}
    (found : splitOnce ['<', '<'] line = some (first, second))
    (same : line = before ++ (['<', '<'] ++ after)) : first.length ≤ before.length := by
  obtain ⟨one, two, foundFirst, shorter⟩ :=
    splitOnce_first ['<', '<'] before after (List.cons_ne_nil _ _)
  rw [← same, found] at foundFirst
  cases foundFirst
  exact shorter

/-- What is in front of the mark that was found holds no other. -/
theorem unopened_of_shorter {line name rest : Text} (whole : line = name ++ rest)
    (shorter : ∀ first second, splitOnce ['<', '<'] line = some (first, second) →
      name.length ≤ first.length) : ¬ ['<', '<'] <:+: name := by
  rintro ⟨before, after, same⟩
  have split : line = before ++ (['<', '<'] ++ (after ++ rest)) := by
    rw [whole, ← same]
    simp only [List.append_assoc]
  obtain ⟨first, second, found, early⟩ :=
    splitOnce_first ['<', '<'] before (after ++ rest) (List.cons_ne_nil _ _)
  rw [← split] at found
  have late := shorter first second found
  rw [← same, List.length_append, List.length_append] at late
  simp only [List.length_cons] at late
  omega

theorem readCommandLine_eq_assignment {line name value : Text}
    (read : readCommandLine line = .assignment name value) :
    line = name ++ '=' :: value ∧ ¬ ['<', '<'] <:+: name := by
  rw [readCommandLine] at read
  split at read
  · cases read
  · rename_i first second name' value' opened marked
    split at read
    · cases read
    · rename_i late
      cases read
      have whole := splitOnce_parts marked
      refine ⟨whole, unopened_of_shorter whole fun one two found => ?_⟩
      rw [opened] at found
      cases found
      exact Nat.le_of_not_lt late
  · rename_i opened marked
    cases read
    have whole := splitOnce_parts marked
    refine ⟨whole, unopened_of_shorter whole fun one two found => ?_⟩
    rw [opened] at found
    cases found
  · cases read

theorem readCommandLine_eq_heredoc {line name delimiter : Text}
    (read : readCommandLine line = .heredoc name delimiter) :
    line = name ++ '<' :: '<' :: delimiter ∧ ¬ ['<', '<'] <:+: name ∧
      name.getLast? ≠ some '<' := by
  have opened : splitOnce ['<', '<'] line = some (name, delimiter) := by
    rw [readCommandLine] at read
    split at read
    · rename_i opened _
      cases read
      exact opened
    · rename_i opened _
      split at read
      · cases read
        exact opened
      · cases read
    · cases read
    · cases read
  have whole := splitOnce_parts opened
  refine ⟨whole, unopened_of_shorter whole fun one two found => ?_, fun isLast => ?_⟩
  · rw [opened] at found
    cases found
    exact Nat.le_refl _
  · have ends : name = name.dropLast ++ ['<'] := (List.dropLast_append_getLast? '<' isLast).symm
    have early := opened_shorter opened
      (whole.trans (by rw [ends, List.append_assoc, List.dropLast_concat]; rfl) :
        line = name.dropLast ++ (['<', '<'] ++ '<' :: delimiter))
    rw [List.length_dropLast] at early
    have nonempty : name ≠ [] := by
      rintro rfl
      cases isLast
    have positive := List.length_pos_iff.mpr nonempty
    omega

theorem validCommandKey_iff {name : Text} :
    validCommandKey name = true ↔
      name ≠ [] ∧ '\x00' ∉ name ∧ '\n' ∉ name ∧ '\r' ∉ name ∧ '=' ∉ name := by
  simp only [validCommandKey, Bool.and_eq_true, Bool.not_eq_true', List.isEmpty_eq_false_iff,
    List.all_eq_true, List.contains_eq_mem, decide_eq_false_iff_not, List.mem_cons,
    List.not_mem_nil, or_false, not_or]
  refine and_congr_right fun _ => ⟨fun all => ⟨?_, ?_, ?_, ?_⟩, fun absent char member => ?_⟩
  · exact fun member => (all _ member).1 rfl
  · exact fun member => (all _ member).2.1 rfl
  · exact fun member => (all _ member).2.2.1 rfl
  · exact fun member => (all _ member).2.2.2 rfl
  · exact ⟨fun same => absent.1 (same ▸ member), fun same => absent.2.1 (same ▸ member),
      fun same => absent.2.2.1 (same ▸ member), fun same => absent.2.2.2 (same ▸ member)⟩

theorem EntryName.valid {name : Text} (isName : EntryName name) : validCommandKey name = true :=
  validCommandKey_iff.mpr
    ⟨isName.nonempty, isName.unzeroed, isName.unbroken.1, isName.unbroken.2, isName.unmarked⟩

theorem entryName_of_valid {name : Text} (valid : validCommandKey name = true)
    (unopened : ¬ ['<', '<'] <:+: name) : EntryName name :=
  have ⟨nonempty, unzeroed, noFeed, noReturn, unmarked⟩ := validCommandKey_iff.mp valid
  ⟨nonempty, unmarked, unopened, unzeroed, noFeed, noReturn⟩

/-! ### Parsing -/

theorem parseCommandLines_trim (lines : List Text) (values : Environment)
    (entry : Option OpenEntry) :
    parseCommandLines values entry (lines.map trimCarriageReturns) =
      parseCommandLines values entry lines := by
  induction lines generalizing values entry with
  | nil => rfl
  | cons line lines inductionHypothesis =>
      simp only [List.map_cons, parseCommandLines, trimCarriageReturns_twice, inductionHypothesis]

/-- The lines of an open entry up to its delimiter. -/
theorem parse_open {entry : OpenEntry} (values : Environment) (rest : List Text)
    (isLine : LineText entry.delimiter) {lines : List Text}
    (areLines : ∀ line ∈ lines, LineText line ∧ line ≠ entry.delimiter)
    (valid : validCommandKey entry.key = true) :
    parseCommandLines values (some entry) (lines ++ entry.delimiter :: rest) =
      parseCommandLines (values.insert (String.ofList entry.key)
        (String.ofList (List.intercalate ['\n'] (entry.lines ++ lines)))) none rest := by
  induction lines generalizing entry with
  | nil =>
      simp only [List.nil_append, parseCommandLines, trimCarriageReturns_line isLine, if_true,
        insertCommand, if_pos valid, List.append_nil]
  | cons line lines inductionHypothesis =>
      obtain ⟨first, others⟩ := List.forall_mem_cons.mp areLines
      have later := @inductionHypothesis { entry with lines := entry.lines ++ [line] } isLine
        others valid
      rw [List.cons_append, parseCommandLines]
      simp only [trimCarriageReturns_line first.1, if_neg first.2]
      rw [later, List.append_assoc, List.singleton_append]

theorem lineText_assignment {name value : Text} (isName : EntryName name)
    (isLine : LineText value) : LineText (name ++ '=' :: value) := by
  constructor
  · simp [isName.unbroken.1, isLine.1]
  · rw [List.getLast?_append, List.getLast?_cons]
    cases last : value.getLast? with
    | none => simp
    | some char =>
        have other := isLine.2
        rw [last] at other
        simpa using other

theorem lineText_heredoc {name delimiter : Text} (isName : EntryName name)
    (nonempty : delimiter ≠ []) (isLine : LineText delimiter) :
    LineText (name ++ '<' :: '<' :: delimiter) := by
  constructor
  · simp [isName.unbroken.1, isLine.1]
  · have last := isLine.2
    rw [List.getLast?_eq_some_getLast nonempty] at last
    rw [List.getLast?_append, List.getLast?_cons, List.getLast?_cons,
      List.getLast?_eq_some_getLast nonempty]
    exact last

theorem lineText_behind {name delimiter : Text}
    (isLine : LineText (name ++ '<' :: '<' :: delimiter)) : LineText delimiter := by
  constructor
  · intro member
    exact isLine.1 (by simp [member])
  · intro isLast
    refine isLine.2 ?_
    rw [List.getLast?_append, List.getLast?_cons, List.getLast?_cons, isLast]
    rfl

theorem lineText_value {name value : Text} (isLine : LineText (name ++ '=' :: value)) :
    LineText value := by
  constructor
  · intro member
    exact isLine.1 (by simp [member])
  · intro isLast
    refine isLine.2 ?_
    rw [List.getLast?_append, List.getLast?_cons, isLast]
    rfl

theorem lineText_entry {entry : CommandEntry} (wellFormed : entry.WellFormed) :
    ∀ line ∈ entry.lines, LineText line := by
  cases entry with
  | assignment name value =>
      exact List.forall_mem_singleton.mpr (lineText_assignment wellFormed.1 wellFormed.2)
  | heredoc name delimiter lines =>
      obtain ⟨isName, _, nonempty, isLine, areLines⟩ := wellFormed
      refine List.forall_mem_cons.mpr ⟨lineText_heredoc isName nonempty isLine, ?_⟩
      exact List.forall_mem_append.mpr
        ⟨fun line member => (areLines line member).1, List.forall_mem_singleton.mpr isLine⟩

theorem lineText_items {items : List (Option CommandEntry)}
    (wellFormed : ∀ entry, some entry ∈ items → entry.WellFormed) :
    ∀ line ∈ itemLines items, LineText line := by
  intro line member
  obtain ⟨item, isItem, isLine⟩ := List.mem_flatMap.mp member
  cases item with
  | none =>
      rw [List.mem_singleton.mp isLine]
      exact ⟨List.not_mem_nil, by simp⟩
  | some entry => exact lineText_entry (wellFormed entry isItem) line isLine

/-- An entry that was written is read. -/
theorem parse_entry {entry : CommandEntry} (wellFormed : entry.WellFormed) (values : Environment)
    (rest : List Text) :
    parseCommandLines values none (entry.lines ++ rest) =
      parseCommandLines (insertEntry values entry) none rest := by
  cases entry with
  | assignment name value =>
      obtain ⟨isName, isLine⟩ := wellFormed
      rw [CommandEntry.lines, List.singleton_append, parseCommandLines]
      simp only [trimCarriageReturns_line (lineText_assignment isName isLine),
        readCommandLine_assignment isName, insertCommand, if_pos isName.valid]
      exact if_neg (by simp)
  | heredoc name delimiter lines =>
      obtain ⟨isName, unopened, nonempty, isLine, areLines⟩ := wellFormed
      rw [CommandEntry.lines, List.cons_append, List.append_assoc, List.singleton_append,
        parseCommandLines]
      simp only [trimCarriageReturns_line (lineText_heredoc isName nonempty isLine),
        readCommandLine_heredoc isName unopened]
      rw [if_neg (by simp), if_neg (by simpa using nonempty),
        @parse_open { key := name, delimiter } values rest isLine _ areLines isName.valid]
      rfl

theorem parse_items {items : List (Option CommandEntry)}
    (wellFormed : ∀ entry, some entry ∈ items → entry.WellFormed) (values : Environment) :
    parseCommandLines values none (itemLines items) =
      some ((items.filterMap id).foldl insertEntry values) := by
  induction items generalizing values with
  | nil => rfl
  | cons item items inductionHypothesis =>
      have others := fun values => inductionHypothesis
        (fun entry member => wellFormed entry (List.mem_cons_of_mem _ member)) values
      cases item with
      | none =>
          change parseCommandLines values none ([] :: itemLines items) = _
          rw [parseCommandLines]
          exact others values
      | some entry =>
          change parseCommandLines values none (entry.lines ++ itemLines items) = _
          rw [parse_entry (wellFormed entry List.mem_cons_self), others]
          rfl

/-- What is read was written: `lines` may begin inside of an open entry. -/
theorem parse_some {lines : List Text} (areLines : ∀ line ∈ lines, LineText line)
    {values final : Environment} :
    (parseCommandLines values none lines = some final →
      ∃ items, (∀ entry, some entry ∈ items → CommandEntry.WellFormed entry) ∧
        lines = itemLines items ∧ final = (items.filterMap id).foldl insertEntry values) ∧
    ∀ entry, parseCommandLines values (some entry) lines = some final →
      validCommandKey entry.key = true ∧ ∃ more items,
        (∀ line ∈ more, LineText line ∧ line ≠ entry.delimiter) ∧
        (∀ entry, some entry ∈ items → CommandEntry.WellFormed entry) ∧
        lines = more ++ entry.delimiter :: itemLines items ∧
        final = (items.filterMap id).foldl insertEntry
          (values.insert (String.ofList entry.key)
            (String.ofList (List.intercalate ['\n'] (entry.lines ++ more)))) := by
  induction lines generalizing values with
  | nil =>
      constructor
      · intro read
        cases read
        exact ⟨[], fun entry member => absurd member List.not_mem_nil, rfl, rfl⟩
      · intro entry read
        cases read
  | cons line lines inductionHypothesis =>
      obtain ⟨isLine, others⟩ := List.forall_mem_cons.mp areLines
      have trimmed := trimCarriageReturns_line isLine
      constructor
      · intro read
        rw [parseCommandLines] at read
        simp only [trimmed] at read
        split at read
        · rename_i empty
          obtain ⟨items, wellFormed, same, result⟩ := (inductionHypothesis others).1 read
          refine ⟨none :: items, ?_, ?_, result⟩
          · simpa using wellFormed
          · rw [List.isEmpty_iff.mp empty, same]
            rfl
        · split at read
          · rename_i key delimiter isHeredoc
            obtain ⟨whole, unopened, notLast⟩ := readCommandLine_eq_heredoc isHeredoc
            split at read
            · cases read
            · rename_i nonempty
              rw [List.isEmpty_iff] at nonempty
              obtain ⟨valid, more, items, plain, wellFormed, same, result⟩ :=
                (inductionHypothesis others).2 _ read
              refine ⟨some (.heredoc key delimiter more) :: items, ?_, ?_, result⟩
              · intro entry member
                rcases List.mem_cons.mp member with isFirst | member
                · cases isFirst
                  refine ⟨entryName_of_valid valid unopened, notLast, nonempty, ?_, plain⟩
                  exact lineText_behind (whole ▸ isLine)
                · exact wellFormed entry member
              · rw [whole, same]
                simp [itemLines, CommandEntry.lines]
          · rename_i key value isAssignment
            obtain ⟨whole, unopened⟩ := readCommandLine_eq_assignment isAssignment
            rw [insertCommand] at read
            split at read
            · rename_i inserted
              split at inserted
              · rename_i valid
                cases inserted
                obtain ⟨items, wellFormed, same, result⟩ := (inductionHypothesis others).1 read
                refine ⟨some (.assignment key value) :: items, ?_, ?_, result⟩
                · intro entry member
                  rcases List.mem_cons.mp member with isFirst | member
                  · cases isFirst
                    exact ⟨entryName_of_valid valid unopened, lineText_value (whole ▸ isLine)⟩
                  · exact wellFormed entry member
                · rw [whole, same]
                  rfl
              · cases inserted
            · cases read
          · cases read
      · intro entry read
        rw [parseCommandLines] at read
        simp only [trimmed] at read
        split at read
        · rename_i isDelimiter
          rw [insertCommand] at read
          split at read
          · rename_i inserted
            split at inserted
            · rename_i valid
              cases inserted
              obtain ⟨items, wellFormed, same, result⟩ := (inductionHypothesis others).1 read
              refine ⟨valid, [], items, fun line member => absurd member List.not_mem_nil,
                wellFormed, ?_, ?_⟩
              · rw [isDelimiter, same]
                rfl
              · rw [result, List.append_nil]
            · cases inserted
          · cases read
        · rename_i other
          obtain ⟨valid, more, items, plain, wellFormed, same, result⟩ :=
            (inductionHypothesis others).2 _ read
          refine ⟨valid, line :: more, items, ?_, wellFormed, ?_, ?_⟩
          · exact List.forall_mem_cons.mpr ⟨⟨isLine, other⟩, plain⟩
          · rw [same]
            rfl
          · rw [result, List.append_assoc]
            rfl

theorem getElem?_lastValues (entries : List CommandEntry) (name : String) :
    (lastValues entries)[name]? =
      (entries.reverse.find? fun entry => String.ofList entry.name = name).map fun entry =>
        String.ofList entry.value := by
  rw [lastValues]
  induction entries using List.reverseRecOn with
  | nil => rfl
  | append_singleton entries entry inductionHypothesis =>
      rw [List.foldl_append, List.foldl_cons, List.foldl_nil, insertEntry,
        Std.ExtTreeMap.getElem?_insert, List.reverse_append, List.reverse_singleton,
        List.singleton_append, List.find?_cons, inductionHypothesis]
      by_cases same : String.ofList entry.name = name
      · simp [same]
      · simp [same]

/-- A command file with entries and empty lines gives the last value of each name, and a file
that is accepted holds nothing else. -/
theorem command_files_read_back :
    (∀ (items : List (Option CommandEntry)) (source : String),
      (∀ entry, some entry ∈ items → entry.WellFormed) →
      Written (itemLines items) source.toList →
        parseCommandSource source = some (lastValues (items.filterMap id))) ∧
    (∀ (source : String) (values : Environment), parseCommandSource source = some values →
      ∃ items : List (Option CommandEntry),
        (∀ entry, some entry ∈ items → entry.WellFormed) ∧
        Written (itemLines items) source.toList ∧ values = lastValues (items.filterMap id)) ∧
    ∀ (entries : List CommandEntry) (name : String), (lastValues entries)[name]? =
      (entries.reverse.find? fun entry => String.ofList entry.name = name).map fun entry =>
        String.ofList entry.value := by
  refine ⟨fun items source wellFormed written => ?_, fun source values read => ?_,
    getElem?_lastValues⟩
  · have lines := sourceLines_written written (lineText_items wellFormed)
    rw [String.ofList_toList] at lines
    rw [parseCommandSource, ← parseCommandLines_trim, lines, parse_items wellFormed]
    rfl
  · obtain ⟨written, areLines⟩ := written_sourceLines source.toList
    rw [String.ofList_toList] at written areLines
    rw [parseCommandSource, ← parseCommandLines_trim] at read
    obtain ⟨items, wellFormed, same, result⟩ := (parse_some areLines).1 read
    exact ⟨items, wellFormed, same ▸ written, result⟩

/-- A name that ends in `<` moves the mark, and a carriage return may stand before a break. -/
theorem moved_mark_and_extra_return :
    (EntryName ['a', '<'] ∧ LineText ['E'] ∧ LineText ['x'] ∧ ['x'] ≠ ['E'] ∧
      parseCommandSource "a<<<E\nx\nE\n" = none) ∧
    (parseCommandSource "a=b\r\r\n" = some (lastValues [.assignment ['a'] ['b']]) ∧
      sourceLines "a=b\r\r\n" = [['a', '=', 'b', '\r']] ∧
      ¬ LineText ['a', '=', 'b', '\r']) := by
  refine ⟨⟨⟨by decide, by decide, ?_, by decide, by decide⟩, by decide, by decide, by decide, rfl⟩,
    rfl, rfl, by decide⟩
  decide

end GitZero.Agent
