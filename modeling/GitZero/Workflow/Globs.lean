/-
Module: GitZero.Workflow.Globs
Purpose: `compile_glob`: the regular expression of a pattern of a `branches` or `paths`
  filter.
Trusted boundary: the regex crate, as `RegexCrate`
Main exports: RegexCrate, Atom, compileAtoms, globExpression, compileGlob
-/
import GitZero.Expression.Evaluation
import GitZero.Workflow.Steps

namespace GitZero.Workflows

open Expression (Text)

/-- The regex crate. -/
class RegexCrate where
  Regex : Type
  new : Text → Except String Regex
  isMatch : Regex → Text → Bool
  /-- `escape` of a text of one character -/
  escape : Char → Text

export RegexCrate (Regex)

/-- A piece of the expression, and whether a quantifier may come behind it. -/
structure Atom where
  source : Text
  quantifiable : Bool
deriving Repr, DecidableEq

def Atom.quantify (atom : Atom) (quantifier : Char) : Atom where
  source := "(?:".toList ++ atom.source ++ [')', quantifier]
  quantifiable := false

/-- The characters that a range may be written with. -/
def isRangeCharacter (character : Char) : Bool :=
  isAsciiAlphanumeric character || character = '-'

/-- The regular expression of a pattern. -/
def globExpression (sources : List Text) : Text :=
  "^(?:".toList ++ sources.flatten ++ ")$".toList

section Globs

variable [RegexCrate]

/-- The loop of `compile_glob`, behind the characters that have given the atoms. -/
def compileAtoms (pattern workflow filter : String) (atoms : List Atom) :
    Text → Outcome (List Atom)
  | [] => .ok atoms
  | '\\' :: [] =>
      unsupportedWorkflow workflow s!"pull_request {filter} pattern '{pattern}' ends with an escape"
  | '\\' :: character :: rest =>
      compileAtoms pattern workflow filter (atoms ++ [⟨RegexCrate.escape character, true⟩]) rest
  | '*' :: '*' :: rest =>
      compileAtoms pattern workflow filter (atoms ++ [⟨".*".toList, false⟩]) rest
  | '[' :: rest =>
      let range := rest.takeWhile (· ≠ ']')
      if range.length = rest.length then
        unsupportedWorkflow workflow
          s!"pull_request {filter} pattern '{pattern}' has an unclosed range"
      else if range = [] || !range.all isRangeCharacter then
        unsupportedWorkflow workflow
          s!"pull_request {filter} pattern '{pattern}' has an invalid range"
      else
        compileAtoms pattern workflow filter (atoms ++ [⟨'[' :: range ++ [']'], true⟩])
          (rest.drop (range.length + 1))
  | character :: rest =>
      if character = '*' then
        compileAtoms pattern workflow filter (atoms ++ [⟨"[^/]*".toList, false⟩]) rest
      else if character = '?' || character = '+' then
        match atoms.getLast? with
        | none =>
            unsupportedWorkflow workflow
              s!"pull_request {filter} pattern '{pattern}' starts with quantifier '{character}'"
        | some previous =>
            if previous.quantifiable then
              compileAtoms pattern workflow filter
                (atoms.dropLast ++ [previous.quantify character]) rest
            else
              unsupportedWorkflow workflow
                (s!"pull_request {filter} pattern '{pattern}' has repeated or misplaced " ++
                  s!"quantifier '{character}'")
      else
        compileAtoms pattern workflow filter (atoms ++ [⟨RegexCrate.escape character, true⟩]) rest
termination_by text => text.length

/-- A pattern of a filter, translated and compiled. -/
def compileGlob (pattern workflow filter : String) : Outcome Regex := do
  let atoms ← compileAtoms pattern workflow filter [] pattern.toList
  match RegexCrate.new (globExpression (atoms.map (·.source))) with
  | .ok regex => .ok regex
  | .error error =>
      unsupportedWorkflow workflow s!"pull_request {filter} pattern '{pattern}' is invalid: {error}"

end Globs

end GitZero.Workflows
