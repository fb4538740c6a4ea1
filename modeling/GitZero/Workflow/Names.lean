/-
Module: GitZero.Workflow.Names
Purpose: The ids the linker makes up: a name under the name of a call, and the first
  component of a name.
Trusted boundary: none
Main exports: ValidId, Plain, under, head, head_under, under_injective, invocationId_eq,
  sliceFrom_append
-/
import GitZero.Workflow.Linker
import Std.Data.String.ToNat

namespace GitZero.Workflows

/-- A GitHub identifier: `[A-Za-z_][A-Za-z0-9_-]*`. -/
def ValidId (id : String) : Prop :=
  ∃ first rest, id.toList = first :: rest ∧ (isAsciiAlphabetic first ∨ first = '_') ∧
    ∀ char ∈ rest, isAsciiAlphanumeric char ∨ char = '_' ∨ char = '-'

/-- A name without the marks that the compiler and the linker add. -/
def Plain (name : String) : Prop := ':' ∉ name.toList ∧ '[' ∉ name.toList

theorem ValidId.plain {id : String} (valid : ValidId id) : Plain id := by
  obtain ⟨first, rest, chars, firstOk, restOk⟩ := valid
  have excluded : ∀ mark : Char, isAsciiAlphabetic mark = false → isAsciiAlphanumeric mark = false →
      mark ≠ '_' → mark ≠ '-' → mark ∉ id.toList := by
    intro mark notAlphabetic notAlphanumeric notUnderscore notDash member
    rw [chars] at member
    rcases List.mem_cons.mp member with same | inside
    · subst same
      rcases firstOk with isAlphabetic | isUnderscore
      · simp [notAlphabetic] at isAlphabetic
      · exact notUnderscore isUnderscore
    · rcases restOk mark inside with isAlphanumeric | isUnderscore | isDash
      · simp [notAlphanumeric] at isAlphanumeric
      · exact notUnderscore isUnderscore
      · exact notDash isDash
  exact ⟨excluded ':' (by decide) (by decide) (by decide) (by decide),
    excluded '[' (by decide) (by decide) (by decide) (by decide)⟩

/-- A name inside a call. -/
def under (outer inner : String) : String := outer ++ "::" ++ inner

/-- Different jobs of a called workflow have different names. -/
theorem under_injective {outer one two : String} (same : under outer one = under outer two) :
    one = two := by
  have chars := congrArg String.toList same
  simp only [under, String.toList_append] at chars
  exact String.toList_inj.mp (List.append_cancel_left chars)

theorem under_assoc (first second third : String) :
    under (under first second) third = under first (under second third) := by
  simp [under, String.append_assoc]

theorem under_ne (outer inner : String) : under outer inner ≠ outer := by
  intro same
  have lengths := congrArg (fun name => name.toList.length) same
  simp [under, String.toList_append] at lengths

/-- The name up to the first mark. -/
def head (name : String) : List Char :=
  name.toList.takeWhile fun char => char ≠ ':' && char ≠ '['

theorem takeWhile_plain {name : String} (plain : Plain name) (rest : List Char) :
    (name.toList ++ rest).takeWhile (fun char => char ≠ ':' && char ≠ '[') =
      name.toList ++ rest.takeWhile fun char => char ≠ ':' && char ≠ '[' := by
  apply List.takeWhile_append_of_pos
  intro char member
  have notColon : char ≠ ':' := fun same => plain.1 (same ▸ member)
  have notBracket : char ≠ '[' := fun same => plain.2 (same ▸ member)
  simp [notColon, notBracket]

theorem head_plain {name : String} (plain : Plain name) : head name = name.toList := by
  have taken := takeWhile_plain plain []
  rwa [List.takeWhile_nil, List.append_nil] at taken

/-- The first part of a name is the job that calls. -/
theorem head_under {outer : String} (plain : Plain outer) (inner : String) :
    head (under outer inner) = outer.toList := by
  have taken := takeWhile_plain plain (':' :: ':' :: inner.toList)
  simpa [head, under, String.toList_append] using taken

theorem instanceId_true (jobId : String) (index : Nat) :
    instanceId jobId true index = jobId ++ "[" ++ toString (index + 1) ++ "]" := rfl

theorem head_instanceId {jobId : String} (plain : Plain jobId) (hasMatrix : Bool) (index : Nat) :
    head (instanceId jobId hasMatrix index) = jobId.toList := by
  cases hasMatrix with
  | false => exact head_plain plain
  | true =>
      have taken := takeWhile_plain plain ('[' :: ((toString (index + 1)).toList ++ [']']))
      rw [instanceId_true]
      simpa [head, String.toList_append] using taken

theorem instanceId_injective {jobId : String} {one two : Nat}
    (same : instanceId jobId true one = instanceId jobId true two) : one = two := by
  rw [instanceId_true, instanceId_true] at same
  have chars := congrArg String.toList same
  simp only [String.toList_append] at chars
  have digits : (toString (one + 1)).toList = (toString (two + 1)).toList := by
    simpa using chars
  have numbers := Nat.repr_injective (String.toList_inj.mp digits)
  omega

/-! ### Invocations of a matrix -/

def matrixName (index : Nat) : String := "matrix-" ++ toString (index + 1)

/-- An invocation is named like a job of the call. -/
theorem invocationId_eq (jobId : String) (index : Nat) :
    invocationId jobId index = under jobId (matrixName index) := by
  have separator : ("::matrix-" : String) = "::" ++ "matrix-" := rfl
  change jobId ++ "::matrix-" ++ toString (index + 1) = _
  rw [separator, under, matrixName, ← String.append_assoc, ← String.append_assoc]

theorem matrixName_plain (index : Nat) : Plain (matrixName index) := by
  have excluded : ∀ mark : Char, mark ∉ "matrix-".toList → mark.isDigit = false →
      mark ∉ (matrixName index).toList := by
    intro mark outside notDigit member
    rw [matrixName, String.toList_append, List.mem_append] at member
    rcases member with inside | inside
    · exact outside inside
    · have chars : (toString (index + 1)).toList = Nat.toDigits 10 (index + 1) := Nat.toList_repr
      rw [chars] at inside
      have digit := Nat.isDigit_of_mem_toDigits (by decide) (by decide) inside
      simp [notDigit] at digit
  exact ⟨excluded ':' (by decide) (by decide), excluded '[' (by decide) (by decide)⟩

theorem matrixName_injective {one two : Nat} (same : matrixName one = matrixName two) :
    one = two := by
  have chars := congrArg String.toList same
  simp only [matrixName, String.toList_append] at chars
  have numbers := Nat.repr_injective (String.toList_inj.mp (List.append_cancel_left chars))
  omega

/-! ### Public names -/

theorem containsText_plain {name : String} (plain : Plain name) :
    containsText name "::" = false := by
  rw [containsText, List.any_eq_false]
  intro rest member isStart
  rw [List.mem_tails] at member
  obtain ⟨behind, same⟩ := List.isPrefixOf_iff_prefix.mp isStart
  apply plain.1
  apply member.subset
  rw [← same]
  simp

/-! ### Slices -/

/-- Slicing behind a text gives the rest. -/
theorem sliceFrom_append (front back : List Char) :
    sliceFrom (front ++ back) (byteLength front) = some back := by
  induction front with
  | nil => simp [byteLength, sliceFrom]
  | cons char rest inductionHypothesis =>
      have positive := char.utf8Size_pos
      have size : byteLength (char :: rest) = (char.utf8Size - 1 + byteLength rest) + 1 := by
        simp only [byteLength, List.map_cons, List.sum_cons]
        omega
      rw [size, List.cons_append, sliceFrom, if_pos (by omega)]
      have remaining : char.utf8Size - 1 + byteLength rest + 1 - char.utf8Size =
          byteLength rest := by omega
      rw [remaining, inductionHypothesis]

end GitZero.Workflows
