/-
Module: GitZero.Proofs.ContextRoots
Purpose: What is left of a context when a root of it cannot be extended.
Trusted boundary: none
Main exports: ExtendsAtomically, extends_atomically_iff, failed_extension_drops_root
-/
import Mathlib.Data.List.Induction
import GitZero.Proofs.ExpressionAnalysis

namespace GitZero.Expression

theorem lookup_cons_ite {α : Type} (entry : Text × α) (entries : List (Text × α)) (key : Text) :
    (entry :: entries).lookup key = if key = entry.1 then some entry.2 else entries.lookup key := by
  rw [List.lookup_cons]
  split
  · rename_i same
    rw [if_pos (beq_iff_eq.mp same)]
  · rename_i other
    rw [if_neg (beq_eq_false_iff_ne.mp other)]

theorem lookup_insertEntry {α : Type} (key other : Text) (value : α) (object : List (Text × α)) :
    (insertEntry key value object).lookup other =
      if other = key then some value else object.lookup other := by
  induction object with
  | nil => rw [insertEntry, lookup_cons_ite]
  | cons entry rest inductionHypothesis =>
      obtain ⟨name, old⟩ := entry
      rw [insertEntry]
      split
      · rename_i same
        subst same
        rw [lookup_cons_ite, lookup_cons_ite]
        split <;> rfl
      · rename_i distinct
        split
        · rw [lookup_cons_ite]
        · rw [lookup_cons_ite, lookup_cons_ite, inductionHypothesis]
          dsimp only
          split
          · rename_i isName
            rw [if_neg fun isKey => distinct (isKey.symm.trans isName)]
          · rfl

/-- A later entry replaces an earlier one, and every entry that of the object. -/
theorem lookup_extendEntries {α : Type} (object entries : List (Text × α)) (key : Text) :
    (extendEntries object entries).lookup key =
      (entries.reverse.lookup key).or (object.lookup key) := by
  unfold extendEntries
  induction entries using List.reverseRecOn with
  | nil => rfl
  | append_singleton entries entry inductionHypothesis =>
      rw [List.foldl_append, List.foldl_cons, List.foldl_nil, lookup_insertEntry,
        inductionHypothesis, List.reverse_append, List.reverse_singleton, List.singleton_append,
        lookup_cons_ite]
      split <;> rfl

theorem lookup_filter {α : Type} (entries : List (Text × α)) (key other : Text) :
    (entries.filter (·.1 ≠ key)).lookup other =
      if other = key then none else entries.lookup other := by
  induction entries with
  | nil => simp
  | cons entry entries inductionHypothesis =>
      rw [List.filter_cons]
      split
      · rename_i kept
        rw [lookup_cons_ite, lookup_cons_ite, inductionHypothesis]
        split
        · rename_i same
          rw [if_neg (same ▸ of_decide_eq_true kept)]
        · rfl
      · rename_i dropped
        have isKey : entry.1 = key := by simpa using dropped
        rw [inductionHypothesis, lookup_cons_ite, isKey]
        split <;> rfl

section Roots

variable [Externals] [JsonConversions]

/-- The value of every root but that of the key is the same. -/
def SameBut (key : Text) (one two : EvaluationContext) : Prop :=
  one.status = two.status ∧ one.workspace = two.workspace ∧
    ∀ other, other ≠ key → one.roots.lookup other = two.roots.lookup other

/-- The object that is extended: that of the root, if there is one. -/
def EvaluationContext.object? (context : EvaluationContext) (key : Text) :
    Option (List (Text × Json JsonNumber)) :=
  match context.roots.lookup key with
  | none => some []
  | some value =>
      match JsonConversions.toJson value with
      | some (.object object) => some object
      | _ => none

/-- A failure changes no root.  A success changes the root of the name only, which is then
the old object with the new entries. -/
def ExtendsAtomically (context : EvaluationContext) (name : Text)
    (entries : List (Text × Json JsonNumber)) : Prop :=
  SameBut (toAsciiLowercase name) (context.extendJsonObject name entries).1 context ∧
  match (context.extendJsonObject name entries).2 with
  | .error _ =>
      (context.extendJsonObject name entries).1.roots.lookup (toAsciiLowercase name) =
        context.roots.lookup (toAsciiLowercase name)
  | .ok () =>
      ∃ object extended value, context.object? (toAsciiLowercase name) = some object ∧
        (∀ key, extended.lookup key = (entries.reverse.lookup key).or (object.lookup key)) ∧
        JsonConversions.ofJson (.object extended) = some value ∧
        (context.extendJsonObject name entries).1.roots.lookup (toAsciiLowercase name) = some value

omit [JsonConversions] in
theorem lookup_removeRoot (context : EvaluationContext) (key : Text) :
    (context.removeRoot key).roots.lookup key = none := by
  rw [EvaluationContext.removeRoot, lookup_filter, if_pos rfl]

omit [JsonConversions] in
theorem sameBut_removeRoot (context : EvaluationContext) (key : Text) :
    SameBut key (context.removeRoot key) context := by
  refine ⟨rfl, rfl, fun other distinct => ?_⟩
  rw [EvaluationContext.removeRoot, lookup_filter, if_neg distinct]

omit [JsonConversions] in
theorem sameBut_insertRoot (context : EvaluationContext) (key : Text) (value : Value Number) :
    SameBut key (context.insertRoot key value) context := by
  refine ⟨rfl, rfl, fun other distinct => ?_⟩
  rw [EvaluationContext.insertRoot, lookup_cons_ite, if_neg distinct, lookup_filter,
    if_neg distinct]

omit [JsonConversions] in
theorem SameBut.trans {key : Text} {one two three : EvaluationContext} (first : SameBut key one two)
    (second : SameBut key two three) : SameBut key one three :=
  ⟨first.1.trans second.1, first.2.1.trans second.2.1,
    fun other distinct => (first.2.2 other distinct).trans (second.2.2 other distinct)⟩

/-- The object of the root decides whether the insertion is reached. -/
theorem extendJsonObject_cases (context : EvaluationContext) {name key : Text}
    (isKey : toAsciiLowercase name = key) (entries : List (Text × Json JsonNumber)) :
    (∃ object, context.object? key = some object ∧ context.extendJsonObject name entries =
      (context.removeRoot key).insertJson key (.object (extendEntries object entries))) ∨
    (context.object? key = none ∧ ∃ error, context.extendJsonObject name entries =
      (context.removeRoot key, .error error)) := by
  unfold EvaluationContext.extendJsonObject EvaluationContext.object?
  dsimp only
  rw [isKey]
  generalize context.roots.lookup key = root
  cases root with
  | none => exact .inl ⟨[], rfl, rfl⟩
  | some value =>
      dsimp only
      cases JsonConversions.toJson value with
      | none => exact .inr ⟨rfl, .jsonConversion, rfl⟩
      | some json =>
          cases json with
          | object object => exact .inl ⟨object, rfl, rfl⟩
          | null | bool | number | string | array => exact .inr ⟨rfl, _, rfl⟩

theorem insertJson_cases (context : EvaluationContext) (name : Text) (json : Json JsonNumber) :
    (∃ value, JsonConversions.ofJson json = some value ∧
      context.insertJson name json = (context.insertRoot (toAsciiLowercase name) value, .ok ())) ∨
    (JsonConversions.ofJson json = none ∧
      context.insertJson name json = (context, .error .jsonConversion)) := by
  unfold EvaluationContext.insertJson
  cases JsonConversions.ofJson json with
  | none => exact .inr ⟨rfl, rfl⟩
  | some value => exact .inl ⟨value, rfl, rfl⟩

/-- A failure behind the removal. -/
theorem extendsAtomically_failed {context : EvaluationContext} {name : Text}
    {entries : List (Text × Json JsonNumber)} {error : ExpressionError}
    (ran : context.extendJsonObject name entries =
      (context.removeRoot (toAsciiLowercase name), .error error)) :
    ExtendsAtomically context name entries ↔
      context.roots.lookup (toAsciiLowercase name) = none := by
  unfold ExtendsAtomically
  rw [ran]
  dsimp only
  rw [lookup_removeRoot, eq_comm, and_iff_right (sameBut_removeRoot _ _)]

/-- It is atomic unless there is a root that is no object, or that cannot be converted in
one of the directions. -/
theorem extends_atomically_iff (context : EvaluationContext) (name : Text)
    (entries : List (Text × Json JsonNumber)) :
    ExtendsAtomically context name entries ↔
      context.roots.lookup (toAsciiLowercase name) = none ∨
      ∃ object, context.object? (toAsciiLowercase name) = some object ∧
        (JsonConversions.ofJson (.object (extendEntries object entries))).isSome = true := by
  have folded := toAsciiLowercase_twice name
  rcases extendJsonObject_cases context rfl entries with
    ⟨object, isObject, ran⟩ | ⟨none, error, ran⟩
  · rcases insertJson_cases (context.removeRoot (toAsciiLowercase name)) (toAsciiLowercase name)
      (.object (extendEntries object entries)) with ⟨value, converted, inserted⟩ | ⟨refused, failed⟩
    · rw [inserted, folded] at ran
      refine iff_of_true ?_ (.inr ⟨object, isObject, by rw [converted]; rfl⟩)
      unfold ExtendsAtomically
      rw [ran]
      refine ⟨(sameBut_insertRoot _ _ _).trans (sameBut_removeRoot _ _), ?_⟩
      refine ⟨object, extendEntries object entries, value, isObject,
        lookup_extendEntries object entries, converted, ?_⟩
      rw [EvaluationContext.insertRoot, lookup_cons_ite, if_pos rfl]
    · rw [failed] at ran
      rw [extendsAtomically_failed ran, or_iff_left]
      rintro ⟨other, same, isSome⟩
      obtain rfl := Option.some.inj (isObject.symm.trans same)
      rw [refused] at isSome
      cases isSome
  · rw [extendsAtomically_failed ran, or_iff_left]
    rintro ⟨object, same, -⟩
    rw [none] at same
    cases same

end Roots

namespace Sample

/-- JSON without numbers, whose arrays and objects hold strings at most. -/
scoped instance jsonConversions : JsonConversions where
  JsonNumber := Nat
  toJson value := match value with
    | .string text => some (.string text)
    | .number number => some (.number number)
    | .boolean answer => some (.bool answer)
    | .null => some .null
    | _ => none
  ofJson json := match json with
    | .string text => some (.string text)
    | .number number => some (.number number)
    | .bool answer => some (.boolean answer)
    | .null => some .null
    | .object [] => some (.object [])
    | _ => none

/-- A root that is a string is gone after it could not be extended. -/
theorem failed_extension_drops_root :
    ¬ ExtendsAtomically (bare.insertString "env".toList "x".toList) "env".toList [] := by
  intro atomic
  have ran : (bare.insertString "env".toList "x".toList).extendJsonObject "env".toList [] =
      ((bare.insertString "env".toList "x".toList).removeRoot "env".toList,
        .error (.invalidAccess "env".toList "a string")) := rfl
  cases (extendsAtomically_failed ran).mp atomic

end Sample

end GitZero.Expression
