/-
Module: GitZero.Proofs.CommandRoundTrip
Purpose: Workflow commands as the toolkit writes them are read back as they were.
Trusted boundary: none
Main exports: escapeData, escapeProperty, decode_escapeData, decode_escapeProperty,
  ToolkitAnnotation, commands_round_trip
-/
import Mathlib.Data.List.Basic
import GitZero.Agent.Commands

namespace GitZero.Agent.Commands

open Expression (Text toAsciiLowercase trim parseUsize parseUsize_toDigits)
open GitZero.Splits

/-! ### Escapes -/

/-- How the toolkit writes a character of the data of a command. -/
def escapeDataChar (char : Char) : Text :=
  if char = '%' then ['%', '2', '5']
  else if char = '\r' then ['%', '0', 'D']
  else if char = '\n' then ['%', '0', 'A']
  else [char]

/-- How it writes a character of a property. -/
def escapePropertyChar (char : Char) : Text :=
  if char = ':' then ['%', '3', 'A']
  else if char = ',' then ['%', '2', 'C']
  else escapeDataChar char

/-- The toolkit's escapes of the data. -/
def escapeData (text : Text) : Text := text.flatMap escapeDataChar

/-- The toolkit's escapes of a property. -/
def escapeProperty (text : Text) : Text := text.flatMap escapePropertyChar

/-- A character or an escape of one: percent signs only begin escapes. -/
def IsCode (code : Text) : Prop :=
  (∃ char, code = [char] ∧ char ≠ '%') ∨
    ∃ high low, code = ['%', high, low] ∧ high ≠ '%' ∧ low ≠ '%'

/-- What a replacement makes of an escape. -/
def replaceWord (high low char : Char) (word : Text) : Text :=
  if word = ['%', high, low] then [char] else word

theorem replaceCode_plain {high low final first : Char} (plain : first ≠ '%') (rest : Text) :
    replaceCode high low final (first :: rest) = first :: replaceCode high low final rest :=
  replaceCode.eq_3 _ _ _ first rest fun _ _ _ same => absurd same plain

/-- A replacement neither destroys nor creates another escape. -/
theorem replaceCode_flatMap {word : Char → Text} (codes : ∀ char, IsCode (word char))
    (high low final : Char) (text : Text) :
    replaceCode high low final (text.flatMap word) =
      text.flatMap fun char => replaceWord high low final (word char) := by
  induction text with
  | nil => rfl
  | cons char text inductionHypothesis =>
      rw [List.flatMap_cons, List.flatMap_cons]
      rcases codes char with ⟨single, isWord, plain⟩ | ⟨first, second, isWord, one, two⟩
      · rw [isWord, List.singleton_append, replaceCode_plain plain, inductionHypothesis,
          replaceWord,
          if_neg (by simp)]
        rfl
      · rw [isWord, replaceWord]
        change replaceCode high low final ('%' :: first :: second :: text.flatMap word) = _
        rw [replaceCode]
        split
        · rename_i same
          rw [if_pos (by rw [same.1, same.2]), inductionHypothesis]
          rfl
        · rename_i other
          rw [if_neg (by simpa using other), replaceCode_plain one, replaceCode_plain two,
            inductionHypothesis]
          rfl

theorem isCode_replaceWord {word : Text} (isCode : IsCode word) {final : Char} (plain : final ≠ '%')
    (high low : Char) : IsCode (replaceWord high low final word) := by
  unfold replaceWord
  split
  · exact .inl ⟨final, rfl, plain⟩
  · exact isCode

theorem isCode_escapeDataChar (char : Char) : IsCode (escapeDataChar char) := by
  unfold escapeDataChar
  split
  · exact .inr ⟨_, _, rfl, by decide, by decide⟩
  · rename_i plain
    split
    · exact .inr ⟨_, _, rfl, by decide, by decide⟩
    · split
      · exact .inr ⟨_, _, rfl, by decide, by decide⟩
      · exact .inl ⟨char, rfl, plain⟩

theorem isCode_escapePropertyChar (char : Char) : IsCode (escapePropertyChar char) := by
  unfold escapePropertyChar
  split
  · exact .inr ⟨_, _, rfl, by decide, by decide⟩
  · split
    · exact .inr ⟨_, _, rfl, by decide, by decide⟩
    · exact isCode_escapeDataChar char

def lineBreakWord (word : Text) : Text :=
  replaceWord '0' 'a' '\n' (replaceWord '0' 'A' '\n'
    (replaceWord '0' 'd' '\r' (replaceWord '0' 'D' '\r' word)))

theorem isCode_lineBreakWord {word : Text} (isCode : IsCode word) :
    IsCode (lineBreakWord word) := by
  have one := isCode_replaceWord isCode (by decide : '\r' ≠ '%') '0' 'D'
  have two := isCode_replaceWord one (by decide : '\r' ≠ '%') '0' 'd'
  have three := isCode_replaceWord two (by decide : '\n' ≠ '%') '0' 'A'
  exact isCode_replaceWord three (by decide : '\n' ≠ '%') '0' 'a'

theorem decodeLineBreaks_flatMap {word : Char → Text} (codes : ∀ char, IsCode (word char))
    (text : Text) :
    decodeLineBreaks (text.flatMap word) = text.flatMap fun char => lineBreakWord (word char) := by
  have one := fun char => isCode_replaceWord (codes char) (by decide : '\r' ≠ '%') '0' 'D'
  have two := fun char => isCode_replaceWord (one char) (by decide : '\r' ≠ '%') '0' 'd'
  have three := fun char => isCode_replaceWord (two char) (by decide : '\n' ≠ '%') '0' 'A'
  unfold decodeLineBreaks
  rw [replaceCode_flatMap codes, replaceCode_flatMap one, replaceCode_flatMap two,
    replaceCode_flatMap three]
  rfl

theorem replaceWord_singleton (high low final char : Char) :
    replaceWord high low final [char] = [char] := if_neg (by simp)

theorem lineBreakWord_singleton (char : Char) : lineBreakWord [char] = [char] := by
  simp only [lineBreakWord, replaceWord_singleton]

/-- Decoding undoes the escapes of data. -/
theorem decode_escapeData (text : Text) : decodeWorkflowCommandData (escapeData text) = text := by
  have codes := fun char => isCode_lineBreakWord (isCode_escapeDataChar char)
  rw [decodeWorkflowCommandData, escapeData, decodeLineBreaks_flatMap isCode_escapeDataChar,
    replaceCode_flatMap codes]
  refine (List.flatMap_congr fun char _ => ?_).trans (List.flatMap_singleton' text)
  unfold escapeDataChar
  split
  · rename_i same
    rw [same]
    rfl
  · split
    · rename_i same
      rw [same]
      rfl
    · split
      · rename_i same
        rw [same]
        rfl
      · rw [lineBreakWord_singleton, replaceWord_singleton]

/-- Decoding undoes the escapes of properties. -/
theorem decode_escapeProperty (text : Text) :
    decodeWorkflowCommandProperty (escapeProperty text) = text := by
  have codes := fun char => isCode_lineBreakWord (isCode_escapePropertyChar char)
  have one := fun char => isCode_replaceWord (codes char) (by decide : ':' ≠ '%') '3' 'A'
  have two := fun char => isCode_replaceWord (one char) (by decide : ':' ≠ '%') '3' 'a'
  have three := fun char => isCode_replaceWord (two char) (by decide : ',' ≠ '%') '2' 'C'
  have four := fun char => isCode_replaceWord (three char) (by decide : ',' ≠ '%') '2' 'c'
  rw [decodeWorkflowCommandProperty, escapeProperty,
    decodeLineBreaks_flatMap isCode_escapePropertyChar, replaceCode_flatMap codes,
    replaceCode_flatMap one, replaceCode_flatMap two, replaceCode_flatMap three,
    replaceCode_flatMap four]
  refine (List.flatMap_congr fun char _ => ?_).trans (List.flatMap_singleton' text)
  unfold escapePropertyChar
  split
  · rename_i same
    rw [same]
    rfl
  · split
    · rename_i same
      rw [same]
      rfl
    · unfold escapeDataChar
      split
      · rename_i same
        rw [same]
        rfl
      · split
        · rename_i same
          rw [same]
          rfl
        · split
          · rename_i same
            rw [same]
            rfl
          · simp only [lineBreakWord_singleton, replaceWord_singleton]

/-! ### Command lines -/

/-- The characters of an escape are none of those that structure a command. -/
theorem not_mem_escapePropertyChar {char : Char} (original : Char)
    (structural : char = ':' ∨ char = ',') : char ∉ escapePropertyChar original := by
  unfold escapePropertyChar escapeDataChar
  split_ifs with colon comma
  · rcases structural with rfl | rfl <;> decide
  · rcases structural with rfl | rfl <;> decide
  · rcases structural with rfl | rfl <;> decide
  · rcases structural with rfl | rfl <;> decide
  · rcases structural with rfl | rfl <;> decide
  · rw [List.mem_singleton]
    rintro rfl
    exact structural.elim colon comma

theorem not_mem_escapeProperty {char : Char} (text : Text)
    (structural : char = ':' ∨ char = ',') : char ∉ escapeProperty text := by
  intro member
  obtain ⟨original, -, inside⟩ := List.mem_flatMap.mp member
  exact not_mem_escapePropertyChar original structural inside

/-- The properties of a command, as the toolkit joins them. -/
def propertyText (properties : List (Text × Text)) : Text :=
  [','].intercalate (properties.map fun property =>
    property.1 ++ ('=' :: escapeProperty property.2))

/-- A command line of the toolkit. -/
def commandLine (command : Text) (properties : List (Text × Text)) (data : Text) : Text :=
  "::".toList ++ (command ++ (if properties = [] then [] else ' ' :: propertyText properties) ++
    ("::".toList ++ escapeData data))

/-- A name without the characters that structure a command. -/
def IsName (name : Text) : Prop := ':' ∉ name ∧ ',' ∉ name ∧ '=' ∉ name ∧ ' ' ∉ name

instance : DecidablePred IsName := fun name =>
  inferInstanceAs (Decidable (':' ∉ name ∧ ',' ∉ name ∧ '=' ∉ name ∧ ' ' ∉ name))

theorem not_mem_intercalate {char separator : Char} {texts : List Text} (other : char ≠ separator)
    (absent : ∀ text ∈ texts, char ∉ text) : char ∉ [separator].intercalate texts := by
  induction texts with
  | nil => simp
  | cons text texts inductionHypothesis =>
      have here := absent text List.mem_cons_self
      have later := inductionHypothesis fun other member =>
        absent other (List.mem_cons_of_mem _ member)
      cases texts with
      | nil => simpa using here
      | cons second texts =>
          rw [List.intercalate_cons_cons]
          simp only [List.mem_append, List.mem_singleton, not_or]
          exact ⟨⟨here, other⟩, later⟩

theorem not_mem_property {property : Text × Text} (isName : IsName property.1) :
    ':' ∉ property.1 ++ ('=' :: escapeProperty property.2) ∧
      ',' ∉ property.1 ++ ('=' :: escapeProperty property.2) := by
  simp only [List.mem_append, List.mem_cons, not_or]
  exact ⟨⟨isName.1, by decide, not_mem_escapeProperty _ (.inl rfl)⟩,
    isName.2.1, by decide, not_mem_escapeProperty _ (.inr rfl)⟩

theorem not_mem_propertyText {properties : List (Text × Text)}
    (names : ∀ property ∈ properties, IsName property.1) : ':' ∉ propertyText properties := by
  refine not_mem_intercalate (by decide) fun text member => ?_
  obtain ⟨property, listed, rfl⟩ := List.mem_map.mp member
  exact (not_mem_property (names property listed)).1

theorem splitOn_propertyText {properties : List (Text × Text)}
    (names : ∀ property ∈ properties, IsName property.1) (given : properties ≠ []) :
    (propertyText properties).splitOn ',' =
      properties.map fun property => property.1 ++ ('=' :: escapeProperty property.2) := by
  refine List.splitOn_intercalate _ (fun text member => ?_) (by simpa using given)
  obtain ⟨property, listed, rfl⟩ := List.mem_map.mp member
  exact (not_mem_property (names property listed)).2

theorem splitOnce_property {property : Text × Text} (isName : IsName property.1) :
    splitOnce ['='] (property.1 ++ ('=' :: escapeProperty property.2)) =
      some (property.1, escapeProperty property.2) :=
  splitOnce_of_not_mem isName.2.2.1 _

/-- The properties come back, the last one first. -/
theorem collectProperties_propertyText {properties : List (Text × Text)}
    (names : ∀ property ∈ properties, IsName property.1) :
    collectProperties (propertyText properties) =
      .ok (properties.reverse.map fun property => (foldKey property.1, property.2)) := by
  have folded : ∀ collected, (∀ property ∈ properties, IsName property.1) →
      (properties.map fun property => property.1 ++ ('=' :: escapeProperty property.2)).foldlM
        collectProperty collected =
      .ok ((properties.reverse.map fun property => (foldKey property.1, property.2)) ++
        collected) := by
    clear names
    induction properties with
    | nil => exact fun collected _ => rfl
    | cons property properties inductionHypothesis =>
        intro collected names
        have here : collectProperty collected (property.1 ++ ('=' :: escapeProperty property.2)) =
            .ok ((foldKey property.1, property.2) :: collected) := by
          rw [collectProperty, splitOnce_property (names property List.mem_cons_self)]
          dsimp only
          rw [decode_escapeProperty]
        rw [List.map_cons, List.foldlM_cons, here]
        refine (inductionHypothesis _ fun other member =>
          names other (List.mem_cons_of_mem _ member)).trans ?_
        simp
  unfold collectProperties
  by_cases given : properties = []
  · subst given
    rfl
  · rw [splitOn_propertyText names given, List.filter_eq_self.mpr, folded [] names, List.append_nil]
    intro text member
    obtain ⟨property, listed, rfl⟩ := List.mem_map.mp member
    simp

/-- What a command line is split into. -/
theorem splitOnce_commandLine {command : Text} {properties : List (Text × Text)}
    (isName : IsName command) (names : ∀ property ∈ properties, IsName property.1) (data : Text) :
    ∃ header, (commandLine command properties data).drop 2 =
        header ++ ("::".toList ++ escapeData data) ∧
      splitOnce "::".toList (header ++ ("::".toList ++ escapeData data)) =
        some (header, escapeData data) ∧
      splitHeader header = (command, propertyText properties) := by
  refine ⟨_, rfl, splitOnce_of_not_mem ?_ _, ?_⟩
  · rw [List.mem_append, not_or]
    refine ⟨isName.1, ?_⟩
    split
    · simp
    · rw [List.mem_cons, not_or]
      exact ⟨by decide, not_mem_propertyText names⟩
  · unfold splitHeader
    by_cases given : properties = []
    · subst given
      rw [if_pos rfl, List.append_nil]
      change (splitOnce [' '] command).getD _ = _
      rw [splitOnce_eq_none isName.2.2.2]
      rfl
    · rw [if_neg given]
      change (splitOnce [' '] (command ++ ([' '] ++ propertyText properties))).getD _ = _
      rw [splitOnce_of_not_mem isName.2.2.2]
      rfl

/-! ### Annotations -/

/-- An annotation as the toolkit is given it; an empty text or a missing number is left
out. -/
structure ToolkitAnnotation where
  level : CheckAnnotationLevel
  title : Text := []
  file : Text := []
  line : Option Nat := none
  endLine : Option Nat := none
  col : Option Nat := none
  endColumn : Option Nat := none
  message : Text

def numeral (number : Nat) : Text := Nat.toDigits 10 number

def given (text : Text) : Option Text := if text = [] then none else some text

namespace ToolkitAnnotation

variable (note : ToolkitAnnotation)

/-- The properties in the order of the toolkit. -/
def entries : List (Text × Option Text) :=
  [("title".toList, given note.title), ("file".toList, given note.file),
    ("line".toList, note.line.map numeral),
    ("endLine".toList, note.endLine.map numeral),
    ("col".toList, note.col.map numeral),
    ("endColumn".toList, note.endColumn.map numeral)]

def properties : List (Text × Text) :=
  note.entries.filterMap fun entry => entry.2.map (entry.1, ·)

def commandLine : Text :=
  Commands.commandLine note.level.word note.properties note.message

def startLine : Nat := note.line.getD 1

def stopLine : Nat := note.endLine.getD note.startLine

/-- What the agent makes of the annotation, whose path has been normalized. -/
def checkAnnotation (path : Text) : CheckAnnotation where
  path := path
  startLine := note.startLine
  endLine := note.stopLine
  startColumn :=
    if note.startLine = note.stopLine then note.col.or note.endColumn
    else none
  endColumn :=
    if note.startLine = note.stopLine then note.endColumn.or note.col
    else none
  annotationLevel := note.level
  message := note.message
  title := given note.title

/-- The limits of the agent. -/
structure Accepted : Prop where
  message : note.message ≠ [] ∧
    byteLength note.message ≤ maxCheckAnnotationMessageBytes ∧ '\x00' ∉ note.message
  title : byteLength note.title ≤ maxCheckAnnotationTitleBytes ∧
    '\x00' ∉ note.title
  coordinates : ∀ coordinate ∈ [note.line, note.endLine, note.col,
    note.endColumn], ∀ number ∈ coordinate, 1 ≤ number ∧ number ≤ 2 ^ 31 - 1
  lines : note.startLine ≤ note.stopLine
  columns : note.startLine = note.stopLine →
    ∀ start ∈ note.col, ∀ stop ∈ note.endColumn, start ≤ stop

end ToolkitAnnotation

theorem parseU32_numeral {number : Nat} (small : number < 2 ^ 32) :
    parseU32 (numeral number) = some number := by
  have read : parseUsize (numeral number) = some number := parseUsize_toDigits (by omega)
  rw [parseU32, read, Option.filter_some, if_pos (decide_eq_true small)]

theorem annotationLevel?_word (level : CheckAnnotationLevel) :
    annotationLevel? level.word = some level := by
  cases level <;> rfl

theorem isName_level (level : CheckAnnotationLevel) : IsName level.word := by
  cases level <;> decide

theorem isName_entries {note : ToolkitAnnotation} {property : Text × Text}
    (member : property ∈ note.properties) : IsName property.1 := by
  have names : ∀ name ∈ ["title".toList, "file".toList, "line".toList, "endLine".toList,
      "col".toList, "endColumn".toList], IsName name := by decide
  obtain ⟨entry, listed, same⟩ := List.mem_filterMap.mp member
  obtain ⟨value, -, rfl⟩ := Option.map_eq_some_iff.mp same
  exact names entry.1 (List.mem_map_of_mem listed)

/-- The entries that are left out do not matter, nor does their order. -/
theorem lookup_present {entries : List (Text × Option Text)}
    (distinct : (entries.map Prod.fst).Nodup) (key : Text) :
    (entries.filterMap fun entry => entry.2.map (entry.1, ·)).reverse.lookup key =
      (entries.lookup key).join := by
  induction entries with
  | nil => rfl
  | cons entry rest inductionHypothesis =>
      rw [List.map_cons, List.nodup_cons] at distinct
      have later := inductionHypothesis distinct.2
      rw [List.filterMap_cons, List.lookup_cons]
      by_cases isKey : key = entry.1
      · have absent : rest.lookup key = none := by
          rw [List.lookup_eq_none_iff]
          intro other member
          rw [bne_iff_ne, isKey]
          exact fun same => distinct.1 (same ▸ List.mem_map_of_mem member)
        rw [absent] at later
        rw [isKey, beq_self_eq_true]
        rw [isKey] at later
        cases entry.2 with
        | none => exact later
        | some value =>
            simp only [Option.map_some]
            rw [List.reverse_cons, List.lookup_append, later]
            simp
      · rw [beq_eq_false_iff_ne.mpr isKey]
        dsimp only
        cases entry.2 with
        | none => exact later
        | some value =>
            simp only [Option.map_some]
            rw [List.reverse_cons, List.lookup_append, later]
            simp [List.lookup_cons, beq_eq_false_iff_ne.mpr isKey]

theorem lookup_properties (note : ToolkitAnnotation) (key : Text) :
    (note.properties.reverse.map fun property => (foldKey property.1, property.2)).lookup
      key = ((note.entries.map fun entry => (foldKey entry.1, entry.2)).lookup
        key).join := by
  have distinct : ((note.entries.map fun entry => (foldKey entry.1, entry.2)).map
      Prod.fst).Nodup := by
    have keys : (["title".toList, "file".toList, "line".toList, "endLine".toList, "col".toList,
      "endColumn".toList].map foldKey).Nodup := by decide
    exact keys
  rw [← lookup_present distinct, List.filterMap_map, List.map_reverse, ToolkitAnnotation.properties,
    List.map_filterMap]
  refine congrArg (fun properties : List (Text × Text) => properties.reverse.lookup key) ?_
  refine List.filterMap_congr fun entry _ => ?_
  rw [Option.map_map]
  rfl

/-- The numbers of the accepted annotations are read back. -/
theorem annotationCoordinate_of_lookup {properties : List (Text × Text)} {name : String}
    {number? : Option Nat} (found : properties.lookup name.toList = number?.map numeral)
    (range : ∀ number ∈ number?, 1 ≤ number ∧ number ≤ 2 ^ 31 - 1) :
    annotationCoordinate properties name = .ok number? := by
  unfold annotationCoordinate
  rw [found]
  cases number? with
  | none => rfl
  | some number =>
      obtain ⟨positive, small⟩ := range number rfl
      rw [Option.map_some]
      dsimp only
      rw [parseU32_numeral (by omega)]
      dsimp only
      rw [if_neg]
      simp only [Bool.or_eq_true, decide_eq_true_eq]
      omega

theorem columnsOnLine_of_le {start? stop? : Option Nat}
    (ordered : ∀ start ∈ start?, ∀ stop ∈ stop?, start ≤ stop) :
    columnsOnLine start? stop? = .ok (start?.or stop?, stop?.or start?) := by
  cases start? with
  | none => cases stop? <;> rfl
  | some start =>
      cases stop? with
      | none => rfl
      | some stop => exact if_pos (ordered start rfl stop rfl)

/-- An annotation of the toolkit comes back. -/
theorem parseWorkflowAnnotation_commandLine {note : ToolkitAnnotation}
    (accepted : note.Accepted) {workspace : Option Text} {path : Text}
    (normalized : normalizeAnnotationPath ((given note.file).getD ".github".toList)
      workspace = .ok path) :
    parseWorkflowAnnotation note.commandLine workspace =
      .ok (some (note.checkAnnotation path)) := by
  obtain ⟨header, isLine, split, isHeader⟩ := splitOnce_commandLine
    (isName_level note.level) (fun _ member => isName_entries member) note.message
  have isCommand : isAnnotationWorkflowCommand note.commandLine = true := by
    unfold isAnnotationWorkflowCommand
    have start : stripPrefix? note.commandLine "::".toList =
        some (note.commandLine.drop 2) := if_pos ⟨_, rfl⟩
    rw [start]
    dsimp only
    unfold ToolkitAnnotation.commandLine
    rw [isLine, split, Option.map_some, Option.getD_some, isHeader, annotationLevel?_word]
    rfl
  unfold parseWorkflowAnnotation
  rw [isCommand, ToolkitAnnotation.commandLine, isLine, split]
  dsimp only
  rw [isHeader]
  dsimp only
  rw [annotationLevel?_word, collectProperties_propertyText fun _ member => isName_entries member,
    decode_escapeData]
  have title : _ = given note.title := lookup_properties note "title".toList
  have file : _ = given note.file := lookup_properties note "file".toList
  have line : _ = note.line.map numeral := lookup_properties note "line".toList
  have endLine : _ = note.endLine.map numeral :=
    lookup_properties note "endline".toList
  have col : _ = note.col.map numeral := lookup_properties note "col".toList
  have endColumn : _ = note.endColumn.map numeral :=
    lookup_properties note "endcolumn".toList
  generalize (note.properties.reverse.map fun property =>
    (foldKey property.1, property.2)) = properties at *
  have range := accepted.coordinates
  have message : checkMessage note.message = .ok () := by
    obtain ⟨nonempty, size, clear⟩ := accepted.message
    refine if_neg ?_
    simp only [Bool.or_eq_true, decide_eq_true_eq, List.contains_iff_mem, not_or, not_lt]
    exact ⟨⟨nonempty, size⟩, clear⟩
  have titleKept : (given note.title).filter (· ≠ []) = given note.title := by
    unfold given
    split
    · rfl
    · rename_i nonempty
      rw [Option.filter_some, if_pos (decide_eq_true nonempty)]
  have titleChecked : checkTitle (given note.title) = .ok () := by
    obtain ⟨size, clear⟩ := accepted.title
    refine if_neg ?_
    unfold given
    split
    · simp
    · simp only [Option.any_some, Bool.or_eq_true, decide_eq_true_eq, List.contains_iff_mem, not_or,
        not_lt]
      exact ⟨size, clear⟩
  have start := annotationCoordinate_of_lookup line (range _ (by simp))
  have stop := annotationCoordinate_of_lookup endLine (range _ (by simp))
  have startColumn := annotationCoordinate_of_lookup col (range _ (by simp))
  have endColumn := annotationCoordinate_of_lookup endColumn (range _ (by simp))
  have lines := accepted.lines
  simp only [bind, Except.bind, message, file, normalized, start, stop, startColumn, endColumn,
    title, titleKept, titleChecked]
  unfold ToolkitAnnotation.stopLine ToolkitAnnotation.startLine at lines
  rw [if_neg (not_lt.mpr lines)]
  unfold ToolkitAnnotation.checkAnnotation
  by_cases one : note.startLine = note.stopLine
  · have same : note.line.getD 1 = note.endLine.getD (note.line.getD 1) := one
    rw [if_pos one, if_pos one, if_pos same, columnsOnLine_of_le (accepted.columns one)]
    rfl
  · have differ : ¬ note.line.getD 1 = note.endLine.getD (note.line.getD 1) :=
      one
    rw [if_neg one, if_neg one, if_neg differ]
    rfl

/-- An output or a state value of the toolkit comes back. -/
theorem parseNamedWorkflowCommand_commandLine (command : String) (name value : Text) :
    parseNamedWorkflowCommand (commandLine command.toList [("name".toList, name)] value) command =
      .ok (some (name, value)) := by
  have nameIsName : IsName "name".toList := by decide
  have names : ∀ property ∈ [("name".toList, name)], IsName property.1 := by
    intro property member
    cases List.mem_singleton.mp member
    exact nameIsName
  have start : s!"::{command} ".toList = "::".toList ++ (command.toList ++ [' ']) := by
    simp [toString]
  have line : commandLine command.toList [("name".toList, name)] value =
      s!"::{command} ".toList ++ (propertyText [("name".toList, name)] ++
        ("::".toList ++ escapeData value)) := by
    rw [start, commandLine, if_neg (List.cons_ne_nil _ _)]
    simp
  have body : stripPrefixIgnoreAsciiCase (commandLine command.toList [("name".toList, name)] value)
      s!"::{command} ".toList =
        some (propertyText [("name".toList, name)] ++ ("::".toList ++ escapeData value)) := by
    rw [line, stripPrefixIgnoreAsciiCase, List.take_left, if_pos rfl, List.drop_left]
  have split : splitOnce "::".toList (propertyText [("name".toList, name)] ++
      ("::".toList ++ escapeData value)) =
        some (propertyText [("name".toList, name)], escapeData value) :=
    splitOnce_of_not_mem (not_mem_propertyText names) _
  have found : findProperty "name".toList (propertyText [("name".toList, name)]) = some name := by
    rw [findProperty, splitOn_propertyText names (List.cons_ne_nil _ _), List.map_singleton,
      List.filterMap_cons, splitOnce_property nameIsName]
    have folded : foldKey "name".toList = toAsciiLowercase "name".toList := rfl
    dsimp only
    rw [List.findSome?_cons, if_pos folded, decode_escapeProperty]
  rw [parseNamedWorkflowCommand, body]
  dsimp only
  rw [split]
  dsimp only
  rw [found, decode_escapeData]

/-- What the toolkit writes, the agent reads. -/
theorem commands_round_trip :
    (∀ text, decodeWorkflowCommandData (escapeData text) = text) ∧
    (∀ text, decodeWorkflowCommandProperty (escapeProperty text) = text) ∧
    (∀ (note : ToolkitAnnotation) (workspace : Option Text) (path : Text),
      note.Accepted →
      normalizeAnnotationPath ((given note.file).getD ".github".toList) workspace =
        .ok path →
      parseWorkflowAnnotation note.commandLine workspace =
        .ok (some (note.checkAnnotation path))) ∧
    ∀ command ∈ ["set-output", "save-state"], ∀ name value,
      parseNamedWorkflowCommand (commandLine command.toList [("name".toList, name)] value)
        command = .ok (some (name, value)) :=
  ⟨decode_escapeData, decode_escapeProperty,
    fun _ _ _ accepted => parseWorkflowAnnotation_commandLine accepted,
    fun command _ => parseNamedWorkflowCommand_commandLine command⟩

namespace Sample

/-- The first half of a file, with a title that needs escapes. -/
def warning : ToolkitAnnotation where
  level := .warning
  title := ['1', ':', '2', ',', '%']
  file := ['s', 'r', 'c', '\\', '.', '/', 'a']
  endLine := some 7
  message := ['x', '\n', '%', '2', '5']

/-- Title, message and file come back without their escapes. -/
theorem warning_comes_back :
    parseWorkflowAnnotation warning.commandLine none =
      .ok (some <| warning.checkAnnotation ['s', 'r', 'c', '/', 'a']) := by
  have accepted : warning.Accepted := by
    constructor
    case message => exact ⟨by decide, by decide, by decide⟩
    case title => exact ⟨by decide, by decide⟩
    case coordinates => decide
    case lines => decide
    case columns => exact fun same => absurd same (by decide)
  exact commands_round_trip.2.2.1 warning none _ accepted rfl

end Sample

end GitZero.Agent.Commands
