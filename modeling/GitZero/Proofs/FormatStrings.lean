/-
Module: GitZero.Proofs.FormatStrings
Purpose: Which templates `format` accepts, and what it makes of them.
Trusted boundary: none
Main exports: Piece, FormatLaw, format_law_iff, largest_index_formats_template
-/
import Mathlib.Data.List.TakeWhile
import GitZero.Proofs.ExpressionAnalysis
import GitZero.Lib.PrefixCodes

namespace GitZero.Expression

/-- `usize::MAX` -/
def largestIndex : Nat := 2 ^ 64 - 1

/-- What a template consists of.  The numeral of a placeholder is one that
`parse::<usize>()` reads, and behind it may be a note that starts with a colon. -/
inductive Piece where
  | opening
  | closing
  | ordinary (char : Char) (plain : char ≠ '\x7b' ∧ char ≠ '\x7d')
  | placeholder (numeral note : Text) (index : Nat) (reads : parseUsize numeral = some index)
      (colon : ∀ char ∈ note.head?, char = ':') (inside : '\x7d' ∉ note)

def Piece.source : Piece → Text
  | .opening => ['\x7b', '\x7b']
  | .closing => ['\x7d', '\x7d']
  | .ordinary char _ => [char]
  | .placeholder numeral note _ _ _ _ => '\x7b' :: (numeral ++ note ++ ['\x7d'])

def Piece.index? : Piece → Option Nat
  | .placeholder _ _ index _ _ _ => some index
  | _ => none

/-- The indices of the placeholders. -/
def indices (pieces : List Piece) : List Nat := pieces.filterMap Piece.index?

theorem parseUsize_chars {numeral : Text} {index : Nat} (reads : parseUsize numeral = some index) :
    numeral ≠ [] ∧ ∀ char ∈ numeral, char = '+' ∨ char.isDigit = true := by
  have numbers : ∀ digits : Text, (digits.isEmpty || !digits.all Char.isDigit) = false →
      digits ≠ [] ∧ ∀ char ∈ digits, char.isDigit = true := by
    intro digits good
    rw [Bool.or_eq_false_iff, Bool.not_eq_false'] at good
    exact ⟨List.isEmpty_eq_false_iff.mp good.1, List.all_eq_true.mp good.2⟩
  unfold parseUsize at reads
  dsimp only at reads
  split at reads
  · rename_i rest
    split at reads
    · cases reads
    · rename_i good
      obtain ⟨-, digits⟩ := numbers rest (Bool.eq_false_iff.mpr good)
      refine ⟨List.cons_ne_nil _ _, fun char member => ?_⟩
      rcases List.mem_cons.mp member with rfl | later
      · exact .inl rfl
      · exact .inr (digits char later)
  · split at reads
    · cases reads
    · rename_i good
      obtain ⟨nonempty, digits⟩ := numbers numeral (Bool.eq_false_iff.mpr good)
      exact ⟨nonempty, fun char member => .inr (digits char member)⟩

theorem ne_of_numeral {char : Char} (numeral : char = '+' ∨ char.isDigit = true) :
    char ≠ '\x7b' ∧ char ≠ '\x7d' ∧ char ≠ ':' := by
  refine ⟨?_, ?_, ?_⟩ <;> rintro rfl <;> rcases numeral with same | digit
  all_goals first | cases same | cases digit

theorem numeral_ne {numeral rest other : Text} {index : Nat}
    (reads : parseUsize numeral = some index) : numeral ++ rest ≠ '\x7b' :: other := by
  obtain ⟨nonempty, chars⟩ := parseUsize_chars reads
  cases numeral with
  | nil => exact absurd rfl nonempty
  | cons char numeral =>
      intro same
      exact (ne_of_numeral (chars char List.mem_cons_self)).1 (List.cons.inj same).1

/-- Up to the first closing brace a placeholder is its numeral and its note. -/
theorem placeholder_split {numeral note : Text} {index : Nat} (rest : Text)
    (reads : parseUsize numeral = some index) (colon : ∀ char ∈ note.head?, char = ':')
    (inside : '\x7d' ∉ note) :
    (numeral ++ note ++ ['\x7d'] ++ rest).takeWhile (· ≠ '\x7d') = numeral ++ note ∧
      (numeral ++ note ++ ['\x7d'] ++ rest).dropWhile (· ≠ '\x7d') = '\x7d' :: rest ∧
      (numeral ++ note).takeWhile (· ≠ ':') = numeral := by
  obtain ⟨-, chars⟩ := parseUsize_chars reads
  have clear : ∀ char ∈ numeral ++ note, decide (char ≠ '\x7d') = true := by
    intro char member
    rw [decide_eq_true_eq]
    rcases List.mem_append.mp member with inNumeral | inNote
    · exact (ne_of_numeral (chars char inNumeral)).2.1
    · rintro rfl
      exact inside inNote
  have numbers : ∀ char ∈ numeral, decide (char ≠ ':') = true := fun char member =>
    decide_eq_true (ne_of_numeral (chars char member)).2.2
  rw [List.append_assoc (numeral ++ note)]
  refine ⟨?_, ?_, ?_⟩
  · rw [List.takeWhile_append_of_pos clear]
    simp
  · rw [List.dropWhile_append_of_pos clear]
    simp
  · rw [List.takeWhile_append_of_pos numbers]
    cases note with
    | nil => simp
    | cons first note =>
        obtain rfl := colon first rfl
        simp

/-- A template is a sequence of pieces in one way only. -/
theorem prefixCode_source : PrefixCode Piece.source where
  nonempty piece := by
    cases piece <;> simp [Piece.source]
  first {one two rest other} same := by
    cases one with
    | opening =>
        cases two with
        | opening => rfl
        | closing => cases same
        | ordinary char plain => exact absurd (List.cons.inj same).1.symm plain.1
        | placeholder numeral note index reads colon inside =>
            exact absurd (List.cons.inj same).2.symm (by simpa using numeral_ne reads)
    | closing =>
        cases two with
        | opening => cases same
        | closing => rfl
        | ordinary char plain => exact absurd (List.cons.inj same).1.symm plain.2
        | placeholder numeral note index reads colon inside => cases same
    | ordinary char plain =>
        cases two with
        | opening => exact absurd (List.cons.inj same).1 plain.1
        | closing => exact absurd (List.cons.inj same).1 plain.2
        | ordinary other plainOther =>
            obtain rfl := (List.cons.inj same).1
            rfl
        | placeholder numeral note index reads colon inside =>
            exact absurd (List.cons.inj same).1 plain.1
    | placeholder numeral note index reads colon inside =>
        cases two with
        | opening =>
            exact absurd (List.cons.inj same).2 (by simpa using numeral_ne reads)
        | closing => cases same
        | ordinary char plain => exact absurd (List.cons.inj same).1.symm plain.1
        | placeholder numeral' note' index' reads' colon' inside' =>
            have body : numeral ++ note ++ ['\x7d'] ++ rest = numeral' ++ note' ++
              ['\x7d'] ++ other :=
              (List.cons.inj same).2
            obtain ⟨text, -, number⟩ := placeholder_split rest reads colon inside
            obtain ⟨text', -, number'⟩ := placeholder_split other reads' colon' inside'
            have texts : numeral ++ note = numeral' ++ note' := by rw [← text, ← text', body]
            obtain rfl : numeral = numeral' := by rw [← number, ← number', texts]
            obtain rfl := List.append_cancel_left texts
            obtain rfl := Option.some.inj (reads.symm.trans reads')
            rfl

section Format

variable [Externals]

/-- What the piece becomes. -/
def Piece.text (value? : Nat → Option (Value Number)) : Piece → Text
  | .opening => ['\x7b']
  | .closing => ['\x7d']
  | .ordinary char _ => [char]
  | .placeholder _ _ index _ _ _ => (value? index).elim [] Externals.display

/-- The template is a sequence of pieces whose placeholders have values, and becomes the
output. -/
def Formats (value? : Nat → Option (Value Number)) (template output : Text) : Prop :=
  ∃ pieces, template = pieces.flatMap Piece.source ∧
    (∀ index ∈ indices pieces, (value? index).isSome = true) ∧
    output = pieces.flatMap (Piece.text value?)

/-- The value that the code takes for an index. -/
def wrappedValue (arguments : List (Value Number)) (index : Nat) : Option (Value Number) :=
  arguments[(index + 1) % 2 ^ 64]?

theorem formatLoop_piece (arguments : List (Value Number)) (output rest : Text) {piece : Piece}
    (known : ∀ index ∈ piece.index?, (wrappedValue arguments index).isSome = true) :
    formatLoop arguments output (piece.source ++ rest) =
      formatLoop arguments (output ++ piece.text (wrappedValue arguments)) rest := by
  cases piece with
  | opening => exact formatLoop.eq_2 arguments output rest
  | closing => exact formatLoop.eq_3 arguments output rest
  | ordinary char plain =>
      exact formatLoop.eq_6 arguments output char rest (fun _ same => absurd same plain.1)
        (fun _ same => absurd same plain.2) plain.1 plain.2
  | placeholder numeral note index reads colon inside =>
      obtain ⟨body, after, number⟩ := placeholder_split rest reads colon inside
      obtain ⟨value, found⟩ := Option.isSome_iff_exists.mp (known index rfl)
      have single : ∀ other, numeral ++ note ++ ['\x7d'] ++ rest ≠ '\x7b' :: other := by
        intro other
        simpa using numeral_ne reads
      have reached : formatLoop arguments output ('\x7b' :: (numeral ++ note ++ ['\x7d'] ++ rest)) =
          formatLoop arguments (output ++ Externals.display value) rest := by
        rw [formatLoop.eq_4 _ _ _ fun other same => single other same]
        unfold wrappedValue at found
        split
        · rename_i none
          rw [after] at none
          cases none
        · rename_i behind split
          rw [after] at split
          cases split
          rw [body, number, reads]
          dsimp only
          rw [found]
      rw [Piece.text, found]
      exact reached

omit [Externals] in
theorem dropWhile_head {separator first : Char} {text rest : Text}
    (dropped : text.dropWhile (· ≠ separator) = first :: rest) : first = separator := by
  have stops := List.head?_dropWhile_not (· ≠ separator) text
  rw [dropped] at stops
  simpa using stops

/-- A single brace begins a placeholder, or the code gives up. -/
theorem formatLoop_brace (arguments : List (Value Number)) {rest : Text}
    (single : ∀ after, rest ≠ '\x7b' :: after) :
    (∃ piece behind, '\x7b' :: rest = Piece.source piece ++ behind ∧
      ∀ index ∈ piece.index?, (wrappedValue arguments index).isSome = true) ∨
      ∀ output, formatLoop arguments output ('\x7b' :: rest) =
        .error (.invalidFunction "format") := by
  have whole := List.takeWhile_append_dropWhile (p := (· ≠ '\x7d')) (l := rest)
  cases dropped : rest.dropWhile (· ≠ '\x7d') with
  | nil =>
      refine .inr fun output => ?_
      rw [formatLoop.eq_4 _ _ _ single]
      split
      · rfl
      · rename_i split
        rw [dropped] at split
        cases split
  | cons brace after =>
      obtain rfl := dropWhile_head dropped
      rw [dropped] at whole
      generalize isBody : rest.takeWhile (· ≠ '\x7d') = body at whole
      have inside : '\x7d' ∉ body := by
        intro member
        rw [← isBody] at member
        simpa using List.mem_takeWhile_imp member
      have parts := List.takeWhile_append_dropWhile (p := (· ≠ ':')) (l := body)
      have step : ∀ output, formatLoop arguments output ('\x7b' :: rest) =
          ((parseUsize (body.takeWhile (· ≠ ':'))).bind (wrappedValue arguments)).elim
            (.error (.invalidFunction "format"))
            fun value => formatLoop arguments (output ++ Externals.display value) after := by
        intro output
        rw [formatLoop.eq_4 _ _ _ single]
        split
        · rename_i none
          rw [dropped] at none
          cases none
        · rename_i split
          rw [dropped] at split
          cases split
          rw [isBody]
          cases parseUsize (body.takeWhile (· ≠ ':')) with
          | none => rfl
          | some index =>
              rw [Option.bind_some, wrappedValue]
              dsimp only
              cases arguments[(index + 1) % 2 ^ 64]? with
              | none => rfl
              | some value => rfl
      cases reads : parseUsize (body.takeWhile (· ≠ ':')) with
      | none =>
          refine .inr fun output => ?_
          rw [step, reads]
          rfl
      | some index =>
          cases found : wrappedValue arguments index with
          | none =>
              refine .inr fun output => ?_
              rw [step, reads, Option.bind_some, found]
              rfl
          | some value =>
              refine .inl ⟨.placeholder (body.takeWhile (· ≠ ':')) (body.dropWhile (· ≠ ':')) index
                reads ?_ ?_, after, ?_, ?_⟩
              · intro char first
                cases tail : body.dropWhile (· ≠ ':') with
                | nil =>
                    rw [tail] at first
                    cases first
                | cons head note =>
                    rw [tail] at first
                    cases first
                    exact dropWhile_head tail
              · exact fun member => inside ((List.dropWhile_sublist _).subset member)
              · rw [Piece.source, parts, List.cons_append, List.append_assoc, List.singleton_append,
                  whole]
              · intro other same
                cases same
                rw [found]
                rfl

/-- Text that begins with no piece, or with a placeholder that has no value. -/
theorem formatLoop_cases (arguments : List (Value Number)) (text : Text) :
    text = [] ∨
      (∃ piece rest, text = Piece.source piece ++ rest ∧
        ∀ index ∈ piece.index?, (wrappedValue arguments index).isSome = true) ∨
      ∀ output, formatLoop arguments output text = .error (.invalidFunction "format") := by
  match text with
  | [] => exact .inl rfl
  | char :: rest =>
      right
      by_cases opens : char = '\x7b'
      · subst opens
        by_cases doubled : ∃ after, rest = '\x7b' :: after
        · obtain ⟨after, rfl⟩ := doubled
          exact .inl ⟨.opening, after, rfl, by simp [Piece.index?]⟩
        · exact formatLoop_brace arguments fun after same => doubled ⟨after, same⟩
      · by_cases closes : char = '\x7d'
        · subst closes
          by_cases doubled : ∃ after, rest = '\x7d' :: after
          · obtain ⟨after, rfl⟩ := doubled
            exact .inl ⟨.closing, after, rfl, by simp [Piece.index?]⟩
          · exact .inr fun output =>
              formatLoop.eq_5 arguments output rest fun after same => doubled ⟨after, same⟩
        · exact .inl ⟨.ordinary char ⟨opens, closes⟩, rest, rfl, by simp [Piece.index?]⟩

theorem Formats.nil (value? : Nat → Option (Value Number)) : Formats value? [] [] :=
  ⟨[], rfl, by simp [indices], rfl⟩

theorem Formats.cons {value? : Nat → Option (Value Number)} {rest tail : Text} {piece : Piece}
    (known : ∀ index ∈ piece.index?, (value? index).isSome = true)
    (formats : Formats value? rest tail) :
    Formats value? (piece.source ++ rest) (piece.text value? ++ tail) := by
  obtain ⟨pieces, rfl, later, rfl⟩ := formats
  refine ⟨piece :: pieces, rfl, fun index member => ?_, rfl⟩
  unfold indices at member later
  rw [List.mem_filterMap] at member
  obtain ⟨other, listed, isIndex⟩ := member
  rcases List.mem_cons.mp listed with rfl | inside
  · exact known index isIndex
  · exact later index (List.mem_filterMap.mpr ⟨other, inside, isIndex⟩)

theorem formatLoop_of_formats {arguments : List (Value Number)} {text tail : Text}
    (formats : Formats (wrappedValue arguments) text tail) (output : Text) :
    formatLoop arguments output text = .ok (output ++ tail) := by
  obtain ⟨pieces, rfl, known, rfl⟩ := formats
  induction pieces generalizing output with
  | nil => simp [formatLoop.eq_1]
  | cons piece pieces inductionHypothesis =>
      have here : ∀ index ∈ piece.index?, (wrappedValue arguments index).isSome = true :=
        fun index isIndex =>
          known index (List.mem_filterMap.mpr ⟨piece, List.mem_cons_self, isIndex⟩)
      have later : ∀ index ∈ indices pieces, (wrappedValue arguments index).isSome = true := by
        intro index member
        obtain ⟨other, inside, isIndex⟩ := List.mem_filterMap.mp member
        exact known index (List.mem_filterMap.mpr ⟨other, List.mem_cons_of_mem _ inside, isIndex⟩)
      rw [List.flatMap_cons, List.flatMap_cons, formatLoop_piece _ _ _ here,
        inductionHypothesis _ later, List.append_assoc]

/-- What the code accepts; it gives up on anything else. -/
theorem formatLoop_spec (arguments : List (Value Number)) (text : Text) :
    (∃ tail, Formats (wrappedValue arguments) text tail) ∨
      ∀ output, formatLoop arguments output text = .error (.invalidFunction "format") := by
  rcases formatLoop_cases arguments text with rfl | ⟨piece, rest, rfl, known⟩ | failed
  · exact .inl ⟨[], Formats.nil _⟩
  · have shorter : rest.length < (piece.source ++ rest).length := by
      have positive := List.length_pos_of_ne_nil (prefixCode_source.nonempty piece)
      rw [List.length_append]
      omega
    rcases formatLoop_spec arguments rest with ⟨tail, formats⟩ | failed
    · exact .inl ⟨_, formats.cons known⟩
    · exact .inr fun output => by rw [formatLoop_piece _ _ _ known, failed]
  · exact .inr failed
termination_by text.length

/-! ### The index that wraps -/

/-- `format` accepts the templates that are sequences of pieces whose indices are smaller
than the number of its other arguments, puts the values of these in, and fails on every
other template. -/
def FormatLaw (template : Value Number) (values : List (Value Number)) : Prop :=
  (∀ output, formatValues (template :: values) = .ok (.string output) ↔
    Formats (values[·]?) (Externals.display template) output) ∧
  ((¬ ∃ output, Formats (values[·]?) (Externals.display template) output) →
    formatValues (template :: values) = .error (.invalidFunction "format"))

theorem formatValues_ok_iff {template : Value Number} {values : List (Value Number)}
    {output : Text} :
    formatValues (template :: values) = .ok (.string output) ↔
      Formats (wrappedValue (template :: values)) (Externals.display template) output := by
  unfold formatValues
  dsimp only
  constructor
  · intro ran
    rcases formatLoop_spec (template :: values) (Externals.display template) with
      ⟨tail, formats⟩ | failed
    · rw [formatLoop_of_formats formats] at ran
      cases ran
      exact formats
    · rw [failed] at ran
      cases ran
  · intro formats
    rw [formatLoop_of_formats formats]
    rfl

omit [Externals] in
theorem parseUsize_lt {numeral : Text} {index : Nat} (reads : parseUsize numeral = some index) :
    index < 2 ^ 64 := by
  have bounded : ∀ {value : Nat}, (if value < 2 ^ 64 then some value else none) = some index →
      index < 2 ^ 64 := by
    intro value read
    split at read
    · rename_i small
      exact Option.some.inj read ▸ small
    · cases read
  unfold parseUsize at reads
  dsimp only at reads
  split at reads
  · split at reads
    · cases reads
    · exact bounded reads
  · split at reads
    · cases reads
    · exact bounded reads

omit [Externals] in
theorem indices_lt {pieces : List Piece} {index : Nat} (member : index ∈ indices pieces) :
    index < 2 ^ 64 := by
  obtain ⟨piece, -, isIndex⟩ := List.mem_filterMap.mp member
  cases piece with
  | placeholder numeral note other reads colon inside =>
      cases isIndex
      exact parseUsize_lt reads
  | opening | closing | ordinary => cases isIndex

theorem wrappedValue_small {template : Value Number} {values : List (Value Number)} {index : Nat}
    (small : index < 2 ^ 64) (notLast : index ≠ largestIndex) :
    wrappedValue (template :: values) index = values[index]? := by
  unfold largestIndex at notLast
  rw [wrappedValue, Nat.mod_eq_of_lt (by omega), List.getElem?_cons_succ]

theorem text_congr {one two : Nat → Option (Value Number)} {pieces : List Piece}
    (same : ∀ index ∈ indices pieces, one index = two index) :
    pieces.flatMap (Piece.text one) = pieces.flatMap (Piece.text two) := by
  refine List.flatMap_congr fun piece member => ?_
  cases piece with
  | placeholder numeral note index reads colon inside =>
      rw [Piece.text, Piece.text, same index (List.mem_filterMap.mpr ⟨_, member, rfl⟩)]
  | opening | closing | ordinary => rfl

/-- The law holds unless every index has a value or is the largest one, which the addition
turns into that of the template itself, and there is such a one. -/
theorem format_law_iff {template : Value Number} {values : List (Value Number)}
    (slice : values.length < 2 ^ 64) :
    FormatLaw template values ↔
      ∀ pieces, Externals.display template = pieces.flatMap Piece.source →
        (∀ index ∈ indices pieces, index < values.length ∨ index = largestIndex) →
        largestIndex ∉ indices pieces := by
  have agrees : ∀ {pieces}, largestIndex ∉ indices pieces → ∀ index ∈ indices pieces,
      wrappedValue (template :: values) index = values[index]? :=
    fun absent index member => wrappedValue_small (indices_lt member) fun same =>
      absent (same ▸ member)
  have known : ∀ {pieces}, (∀ index ∈ indices pieces, (values[index]?).isSome = true) →
      largestIndex ∉ indices pieces := by
    intro pieces given member
    have bound := given largestIndex member
    rw [isSome_getElem?] at bound
    unfold largestIndex at bound
    omega
  constructor
  · rintro ⟨accepts, -⟩ pieces isTemplate indexed member
    have formats : Formats (wrappedValue (template :: values)) (Externals.display template)
        (pieces.flatMap (Piece.text (wrappedValue (template :: values)))) := by
      refine ⟨pieces, isTemplate, fun index inside => ?_, rfl⟩
      rcases indexed index inside with small | rfl
      · rw [wrappedValue_small (indices_lt inside) (by unfold largestIndex; omega)]
        simpa using small
      · rfl
    obtain ⟨others, isTemplate', given, -⟩ := (accepts _).mp (formatValues_ok_iff.mpr formats)
    obtain rfl := prefixCode_source.flatMap_injective (isTemplate.symm.trans isTemplate')
    exact known given member
  · intro absent
    have same : ∀ output, Formats (wrappedValue (template :: values)) (Externals.display template)
        output ↔ Formats (values[·]?) (Externals.display template) output := by
      intro output
      constructor
      · rintro ⟨pieces, isTemplate, given, rfl⟩
        have free : largestIndex ∉ indices pieces := by
          refine absent pieces isTemplate fun index member =>
            or_iff_not_imp_right.mpr fun small => ?_
          have isSome := given index member
          rw [wrappedValue_small (indices_lt member) small] at isSome
          simpa using isSome
        refine ⟨pieces, isTemplate, fun index member => ?_, text_congr (agrees free)⟩
        have isSome := given index member
        rw [agrees free index member] at isSome
        exact isSome
      · rintro ⟨pieces, isTemplate, given, rfl⟩
        have free := known given
        refine ⟨pieces, isTemplate, fun index member => ?_, (text_congr (agrees free)).symm⟩
        exact (agrees free index member).symm ▸ given index member
    refine ⟨fun output => formatValues_ok_iff.trans (same output), fun none => ?_⟩
    rcases formatLoop_spec (template :: values) (Externals.display template) with
      ⟨tail, formats⟩ | failed
    · exact absurd ⟨tail, (same tail).mp formats⟩ none
    · rw [formatValues, failed]
      rfl

end Format

namespace Sample

def firstArgument : List Piece := [.placeholder ['0'] [] 0 rfl (by simp) (by simp)]

/-- One argument for one placeholder. -/
theorem firstArgument_formats :
    FormatLaw (.string (firstArgument.flatMap Piece.source)) [.string ['x']] := by
  refine (format_law_iff (by decide)).mpr fun pieces isTemplate _ => ?_
  obtain rfl := prefixCode_source.flatMap_injective isTemplate
  decide

def lastArgument : List Piece :=
  [.placeholder "18446744073709551615".toList [] largestIndex rfl (by simp) (by simp)]

/-- The template has one argument and becomes itself. -/
theorem largest_index_formats_template :
    ¬ FormatLaw (.string (lastArgument.flatMap Piece.source)) [.string ['x']] := by
  rintro ⟨accepts, -⟩
  have formats : Formats
      (wrappedValue [.string (lastArgument.flatMap Piece.source), .string ['x']])
      (lastArgument.flatMap Piece.source) (lastArgument.flatMap Piece.source) :=
    ⟨lastArgument, rfl, fun index member => by cases List.mem_singleton.mp member; rfl, rfl⟩
  obtain ⟨pieces, isTemplate, given, -⟩ := (accepts _).mp (formatValues_ok_iff.mpr formats)
  obtain rfl := prefixCode_source.flatMap_injective isTemplate
  cases given largestIndex (List.mem_singleton.mpr rfl)

end Sample

end GitZero.Expression
