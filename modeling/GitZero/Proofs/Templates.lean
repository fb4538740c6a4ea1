/-
Module: GitZero.Proofs.Templates
Purpose: How templates are cut into literals and expressions, in rendering and in
  analysis alike.
Trusted boundary: none
Main exports: IsLiteral, IsSource, Unclosed, assemble, exists_segments, template_segments,
  failed_expression_hides_unclosed
-/
import GitZero.Proofs.ExpressionAnalysis

namespace GitZero.Expression

def openMarker : Text := ['$', '\x7b', '\x7b']

def closeMarker : Text := ['\x7d', '\x7d']

/-- The position behind this text is outside the quoted strings: the quotes before it pair
up.  A doubled quote ends its string and starts it again. -/
def Outside (before : Text) : Prop := before.count '\'' % 2 = 0

instance : DecidablePred Outside := fun before =>
  inferInstanceAs (Decidable (before.count '\'' % 2 = 0))

/-- Text without an opening marker. -/
def IsLiteral (text : Text) : Prop := ¬ openMarker <:+: text

/-- Text without closing braces outside its strings. -/
def Unclosed (text : Text) : Prop :=
  ∀ inner after, text = inner ++ closeMarker ++ after → ¬ Outside inner

/-- The source of an expression: its strings are balanced, and the braces behind it are
the first ones that close it. -/
structure IsSource (text : Text) : Prop where
  balanced : Outside text
  unclosed : Unclosed text
  last : ¬ ['\x7d'] <:+ text

/-- Literals, each with the expression behind it, and what follows the last of them. -/
def assemble (parts : List (Text × Text)) (last : Text) : Text :=
  (parts.flatMap fun part => part.1 ++ openMarker ++ part.2 ++ closeMarker) ++ last

def WellFormed (parts : List (Text × Text)) : Prop :=
  ∀ part ∈ parts, IsLiteral part.1 ∧ IsSource part.2

/-! ### The markers -/

theorem isLiteral_cons {char : Char} {rest : Text} :
    IsLiteral (char :: rest) ↔
      (∀ behind, char = '$' → rest ≠ '\x7b' :: '\x7b' :: behind) ∧ IsLiteral rest := by
  unfold IsLiteral
  rw [List.infix_cons_iff, not_or]
  refine and_congr_left fun _ => ?_
  constructor
  · rintro notHere behind rfl rfl
    exact notHere ⟨behind, rfl⟩
  · rintro notHere ⟨behind, same⟩
    obtain ⟨rfl, braces⟩ := List.cons.inj same
    exact notHere behind rfl braces.symm

theorem findExpressionStart_cons {char : Char} {rest : Text}
    (notHere : ∀ behind, char = '$' → rest ≠ '\x7b' :: '\x7b' :: behind) :
    findExpressionStart (char :: rest) =
      (findExpressionStart rest).map (Prod.map (char :: ·) id) :=
  findExpressionStart.eq_3 char rest notHere

/-- The opening marker does not overlap itself. -/
theorem findExpressionStart_literal {literal : Text} (isLiteral : IsLiteral literal)
    (behind : Text) :
    findExpressionStart (literal ++ openMarker ++ behind) = some (literal, behind) := by
  induction literal with
  | nil => rfl
  | cons char literal inductionHypothesis =>
      obtain ⟨notHere, later⟩ := isLiteral_cons.mp isLiteral
      rw [List.cons_append, List.cons_append, findExpressionStart_cons, inductionHypothesis later]
      · rfl
      · rintro rest rfl same
        match literal, same with
        | [], same => cases same
        | [second], same => cases same
        | second :: third :: literal, same =>
            have isSecond := (List.cons.inj same).1
            have isThird := (List.cons.inj (List.cons.inj same).2).1
            exact notHere literal rfl (by rw [isSecond, isThird])

theorem findExpressionStart_spec (text : Text) :
    (findExpressionStart text = none ∧ IsLiteral text) ∨
      ∃ literal behind, findExpressionStart text = some (literal, behind) ∧
        IsLiteral literal ∧ text = literal ++ openMarker ++ behind := by
  induction text with
  | nil => exact .inl ⟨rfl, by simp [IsLiteral, openMarker]⟩
  | cons char rest inductionHypothesis =>
      by_cases here : ∃ behind, char = '$' ∧ rest = '\x7b' :: '\x7b' :: behind
      · obtain ⟨behind, rfl, rfl⟩ := here
        exact .inr ⟨[], behind, rfl, by simp [IsLiteral, openMarker], rfl⟩
      · have notHere : ∀ behind, char = '$' → rest ≠ '\x7b' :: '\x7b' :: behind :=
          fun behind dollar braces => here ⟨behind, dollar, braces⟩
        rw [findExpressionStart_cons notHere, isLiteral_cons]
        rcases inductionHypothesis with ⟨none, isLiteral⟩ | ⟨literal, behind, found, isLiteral, rfl⟩
        · exact .inl ⟨by rw [none]; rfl, notHere, isLiteral⟩
        · refine .inr ⟨char :: literal, behind, by rw [found]; rfl, ?_, rfl⟩
          refine isLiteral_cons.mpr ⟨fun rest dollar braces => ?_, isLiteral⟩
          exact notHere (rest ++ openMarker ++ behind) dollar (by rw [braces]; rfl)

/-- The text closes an expression behind `inner`, where it starts inside a string if
`quoted`. -/
def Closes (quoted : Bool) (text inner after : Text) : Prop :=
  text = inner ++ closeMarker ++ after ∧ (inner.count '\'' + quoted.toNat) % 2 = 0

theorem closes_nil {quoted : Bool} {text after : Text} :
    Closes quoted text [] after ↔ text = closeMarker ++ after ∧ quoted = false := by
  cases quoted <;> simp [Closes]

theorem closes_cons {quoted : Bool} {char first : Char} {rest later after : Text} :
    Closes quoted (char :: rest) (first :: later) after ↔
      char = first ∧ Closes (quoted ^^ decide (char = '\'')) rest later after := by
  unfold Closes
  rw [List.cons_append, List.cons_append, List.cons.injEq, and_assoc]
  refine and_congr_right fun same => and_congr_right fun _ => ?_
  subst same
  by_cases quote : char = '\''
  · subst quote
    cases quoted <;> simp
    omega
  · simp [quote]

/-- A doubled quote in a string ends it and starts it again. -/
theorem findExpressionEnd_cons {quoted : Bool} {char : Char} {rest : Text}
    (opened : ∀ after, ¬ (char :: rest = closeMarker ++ after ∧ quoted = false)) :
    findExpressionEnd quoted (char :: rest) =
      (findExpressionEnd (quoted ^^ decide (char = '\'')) rest).map
        (Prod.map (char :: ·) id) := by
  by_cases quote : char = '\''
  · subst quote
    cases rest with
    | nil => rfl
    | cons next rest =>
        rw [findExpressionEnd.eq_3]
        split
        · rename_i doubled
          obtain ⟨isQuoted, again⟩ := Bool.and_eq_true_iff.mp doubled
          obtain rfl := of_decide_eq_true again
          subst isQuoted
          cases rest with
          | nil => rfl
          | cons third rest =>
              change _ = ((findExpressionEnd false ('\'' :: third :: rest)).map _)
              rw [findExpressionEnd.eq_3, Bool.false_and, if_neg Bool.false_ne_true,
                Option.map_map]
              rfl
        · rw [decide_eq_true rfl, Bool.xor_true]
          rfl
  · rw [decide_eq_false quote, Bool.xor_false]
    refine findExpressionEnd.eq_5 quoted char rest (fun same => absurd same quote)
      (fun _ _ same => absurd same quote) ?_
    rintro after rfl rfl rfl
    exact opened after ⟨rfl, rfl⟩

/-- The scanner stops at the first braces that close the expression. -/
theorem findExpressionEnd_spec (quoted : Bool) (text : Text) :
    (findExpressionEnd quoted text = none ∧ ∀ inner after, ¬ Closes quoted text inner after) ∨
      ∃ inner after, findExpressionEnd quoted text = some (inner, after) ∧
        Closes quoted text inner after ∧
        ∀ other behind, Closes quoted text other behind → inner.length ≤ other.length := by
  induction text generalizing quoted with
  | nil =>
      refine .inl ⟨rfl, fun inner after closes => ?_⟩
      have lengths := congrArg List.length closes.1
      simp [closeMarker] at lengths
  | cons char rest inductionHypothesis =>
      by_cases here : ∃ after, char :: rest = closeMarker ++ after ∧ quoted = false
      · obtain ⟨after, same, rfl⟩ := here
        rw [same]
        exact .inr ⟨[], after, rfl, closes_nil.mpr ⟨rfl, rfl⟩, fun _ _ _ => Nat.zero_le _⟩
      · have opened := not_exists.mp here
        rw [findExpressionEnd_cons opened]
        rcases inductionHypothesis (quoted ^^ decide (char = '\'')) with
          ⟨none, never⟩ | ⟨inner, after, found, closes, first⟩
        · refine .inl ⟨by rw [none]; rfl, fun inner after closes => ?_⟩
          cases inner with
          | nil => exact opened after (closes_nil.mp closes)
          | cons first later => exact never later after (closes_cons.mp closes).2
        · refine .inr ⟨char :: inner, after, by rw [found]; rfl, closes_cons.mpr ⟨rfl, closes⟩, ?_⟩
          intro other behind closesOther
          cases other with
          | nil => exact absurd (closes_nil.mp closesOther) (opened behind)
          | cons head later =>
              exact Nat.succ_le_succ (first later behind (closes_cons.mp closesOther).2)

theorem unclosed_of_absent {text : Text} (absent : ¬ closeMarker <:+: text) : Unclosed text :=
  fun inner after same _ => absent ⟨inner, after, same.symm⟩

theorem findExpressionEnd_unclosed {text : Text} (unclosed : Unclosed text) :
    findExpressionEnd false text = none := by
  rcases findExpressionEnd_spec false text with ⟨none, -⟩ | ⟨inner, after, -, closes, -⟩
  · exact none
  · exact absurd closes.2 (unclosed inner after closes.1)

/-- Closing braces before those behind the source would lie in it or reach into it. -/
theorem findExpressionEnd_source {source : Text} (isSource : IsSource source) (after : Text) :
    findExpressionEnd false (source ++ closeMarker ++ after) = some (source, after) := by
  have closing : Closes false (source ++ closeMarker ++ after) source after :=
    ⟨rfl, isSource.balanced⟩
  rcases findExpressionEnd_spec false (source ++ closeMarker ++ after) with
    ⟨-, never⟩ | ⟨inner, behind, found, closes, first⟩
  · exact absurd closing (never source after)
  · have short := first source after closing
    have same := closes.1
    rw [List.append_assoc, List.append_assoc] at same
    rcases List.append_eq_append_iff.mp same with ⟨middle, rfl, rest⟩ | ⟨middle, rfl, rest⟩
    · cases middle with
      | nil =>
          rw [found, List.append_nil]
          cases rest
          rfl
      | cons head tail =>
          simp only [List.length_append, List.length_cons] at short
          omega
    · match middle, rest with
      | [], rest =>
          rw [found, List.append_nil]
          cases rest
          rfl
      | [brace], rest =>
          cases rest
          exact absurd (List.suffix_append inner ['\x7d']) isSource.last
      | first :: second :: late, rest =>
          cases rest
          exact absurd closes.2 (isSource.unclosed inner late (by simp [closeMarker]))

theorem IsSource.of_found {text inner after : Text} (closes : Closes false text inner after)
    (first : ∀ other behind, Closes false text other behind → inner.length ≤ other.length) :
    IsSource inner := by
  constructor
  case balanced => exact closes.2
  case unclosed =>
    intro early late same outside
    have shorter := first early (late ++ closeMarker ++ after)
      ⟨by rw [closes.1, same]; simp, outside⟩
    rw [same] at shorter
    simp only [closeMarker, List.length_append, List.length_cons, List.length_nil] at shorter
    omega
  case last =>
    rintro ⟨early, rfl⟩
    have outside : Outside early := by
      have whole : Outside (early ++ ['\x7d']) := closes.2
      simpa [Outside] using whole
    have shorter := first early ('\x7d' :: after) ⟨by rw [closes.1]; simp [closeMarker], outside⟩
    simp only [List.length_append, List.length_cons, List.length_nil] at shorter
    omega

/-! ### Segments -/

theorem assemble_cons (part : Text × Text) (parts : List (Text × Text)) (last : Text) :
    assemble (part :: parts) last =
      part.1 ++ openMarker ++ (part.2 ++ closeMarker ++ assemble parts last) := by
  simp [assemble]

theorem WellFormed.cons {part : Text × Text} {parts : List (Text × Text)}
    (isLiteral : IsLiteral part.1) (isSource : IsSource part.2) (wellFormed : WellFormed parts) :
    WellFormed (part :: parts) := by
  intro other member
  rcases List.mem_cons.mp member with rfl | later
  · exact ⟨isLiteral, isSource⟩
  · exact wellFormed other later

/-- Every template consists of literals and expressions, and at most one opening marker
behind them that nothing closes. -/
theorem exists_segments (template : Text) :
    ∃ parts, WellFormed parts ∧
      ((∃ last, IsLiteral last ∧ template = assemble parts last) ∨
        ∃ literal rest, IsLiteral literal ∧ Unclosed rest ∧
          template = assemble parts (literal ++ openMarker ++ rest)) := by
  rcases findExpressionStart_spec template with
    ⟨-, isLiteral⟩ | ⟨literal, behind, started, isLiteral, rfl⟩
  · exact ⟨[], by simp [WellFormed], .inl ⟨template, isLiteral, rfl⟩⟩
  · rcases findExpressionEnd_spec false behind with
      ⟨-, never⟩ | ⟨source, after, stopped, closes, first⟩
    · exact ⟨[], by simp [WellFormed], .inr ⟨literal, behind, isLiteral,
        fun inner after same outside => never inner after ⟨same, outside⟩, rfl⟩⟩
    · have isSource := IsSource.of_found closes first
      have shorter : after.length < (literal ++ openMarker ++ behind).length := by
        rw [closes.1]
        simp [openMarker, closeMarker]
        omega
      obtain ⟨parts, wellFormed, rest⟩ := exists_segments after
      refine ⟨(literal, source) :: parts, .cons isLiteral isSource wellFormed, ?_⟩
      rcases rest with ⟨last, isLast, rfl⟩ | ⟨last, open', isLast, unclosed, rfl⟩
      · exact .inl ⟨last, isLast, by rw [assemble_cons, closes.1]⟩
      · exact .inr ⟨last, open', isLast, unclosed, by rw [assemble_cons, closes.1]⟩
termination_by template.length

section Segments

variable [Externals]

theorem analyzeTemplateFrom_eq (analysis : ExpressionAnalysis) (text : Text) :
    analyzeTemplateFrom analysis text =
      match findExpressionStart text with
      | none => .ok analysis
      | some (_, behind) =>
          match findExpressionEnd false behind with
          | none => .error .unclosedTemplate
          | some (source, after) =>
              match analyzeExpression source with
              | .error error => .error error
              | .ok found => analyzeTemplateFrom (analysis.merge found) after := by
  rw [analyzeTemplateFrom]
  split
  · rename_i none
    rw [none]
  · rename_i opened
    rw [opened]
    dsimp only
    split
    · rename_i unclosed
      rw [unclosed]
    · rename_i closed
      exact closed ▸ rfl

theorem analyzeTemplateFrom_parts {parts : List (Text × Text)} (wellFormed : WellFormed parts)
    (analysis : ExpressionAnalysis) (text : Text) :
    analyzeTemplateFrom analysis (assemble parts text) =
      (parts.mapM fun part => analyzeExpression part.2).bind fun found =>
        analyzeTemplateFrom (found.foldl ExpressionAnalysis.merge analysis) text := by
  induction parts generalizing analysis with
  | nil => rfl
  | cons part parts inductionHypothesis =>
      obtain ⟨isLiteral, isSource⟩ := wellFormed part List.mem_cons_self
      have later : WellFormed parts := fun other member =>
        wellFormed other (List.mem_cons_of_mem _ member)
      rw [assemble_cons, analyzeTemplateFrom_eq, findExpressionStart_literal isLiteral]
      dsimp only
      rw [findExpressionEnd_source isSource, List.mapM_cons]
      dsimp only
      cases analyzeExpression part.2 with
      | error error => rfl
      | ok found =>
          dsimp only
          rw [inductionHypothesis later]
          cases parts.mapM fun part => analyzeExpression part.2 with
          | error error => rfl
          | ok founds => rfl

/-- A literal, and the text of the expression behind it. -/
def EvaluationContext.renderPart (context : EvaluationContext) (part : Text × Text) :
    Except ExpressionError Text :=
  (context.evaluate part.2).map fun value => part.1 ++ Externals.display value

theorem renderFrom_parts {parts : List (Text × Text)} (wellFormed : WellFormed parts)
    (context : EvaluationContext) (rendered text : Text) :
    context.renderFrom rendered (assemble parts text) =
      (parts.mapM context.renderPart).bind fun texts =>
        context.renderFrom (rendered ++ texts.flatten) text := by
  induction parts generalizing rendered with
  | nil => simp [assemble, Except.bind, pure, Except.pure]
  | cons part parts inductionHypothesis =>
      obtain ⟨isLiteral, isSource⟩ := wellFormed part List.mem_cons_self
      have later : WellFormed parts := fun other member =>
        wellFormed other (List.mem_cons_of_mem _ member)
      rw [assemble_cons, renderFrom_eq, findExpressionStart_literal isLiteral]
      dsimp only
      rw [findExpressionEnd_source isSource, List.mapM_cons]
      dsimp only
      cases evaluated : context.evaluate part.2 with
      | error error =>
          have here : context.renderPart part = .error error := by
            rw [EvaluationContext.renderPart, evaluated]
            rfl
          rw [here]
          rfl
      | ok value =>
          have here : context.renderPart part = .ok (part.1 ++ Externals.display value) := by
            rw [EvaluationContext.renderPart, evaluated]
            rfl
          dsimp only
          rw [inductionHypothesis later, here]
          cases parts.mapM context.renderPart with
          | error error => rfl
          | ok texts =>
              change context.renderFrom _ text = context.renderFrom _ text
              rw [List.flatten_cons, ← List.append_assoc, ← List.append_assoc]

/-- Rendering and analysis cut a template into the same literals and expressions, and stop
at the first of these that fails; nothing is read again.  With an opening marker behind them
that nothing closes, both fail. -/
theorem template_segments (context : EvaluationContext) {parts : List (Text × Text)}
    (wellFormed : WellFormed parts) :
    (∀ last, IsLiteral last →
      context.render (assemble parts last) =
        (parts.mapM context.renderPart).map (fun texts => texts.flatten ++ last) ∧
      analyzeTemplate (assemble parts last) =
        (parts.mapM fun part => analyzeExpression part.2).map
          (List.foldl ExpressionAnalysis.merge {})) ∧
    ∀ literal rest, IsLiteral literal → Unclosed rest →
      context.render (assemble parts (literal ++ openMarker ++ rest)) =
        (parts.mapM context.renderPart).bind (fun _ => .error .unclosedTemplate) ∧
      analyzeTemplate (assemble parts (literal ++ openMarker ++ rest)) =
        (parts.mapM fun part => analyzeExpression part.2).bind
          (fun _ => .error .unclosedTemplate) := by
  unfold EvaluationContext.render analyzeTemplate
  constructor
  · intro last isLast
    have started : findExpressionStart last = none := by
      rcases findExpressionStart_spec last with ⟨none, -⟩ | ⟨literal, behind, -, -, rfl⟩
      · exact none
      · exact absurd ⟨literal, behind, rfl⟩ isLast
    rw [renderFrom_parts wellFormed, analyzeTemplateFrom_parts wellFormed]
    constructor
    · cases parts.mapM context.renderPart with
      | error error => rfl
      | ok texts =>
          change context.renderFrom _ last = _
          rw [renderFrom_eq, started]
          rfl
    · cases parts.mapM fun part => analyzeExpression part.2 with
      | error error => rfl
      | ok founds =>
          change analyzeTemplateFrom _ last = _
          rw [analyzeTemplateFrom_eq, started]
          rfl
  · intro literal rest isLiteral unclosed
    rw [renderFrom_parts wellFormed, analyzeTemplateFrom_parts wellFormed]
    constructor
    · refine congrArg (Except.bind _) (funext fun texts => ?_)
      rw [renderFrom_eq, findExpressionStart_literal isLiteral]
      dsimp only
      rw [findExpressionEnd_unclosed unclosed]
    · refine congrArg (Except.bind _) (funext fun founds => ?_)
      rw [analyzeTemplateFrom_eq, findExpressionStart_literal isLiteral]
      dsimp only
      rw [findExpressionEnd_unclosed unclosed]

end Segments

namespace Sample

def quotedSha : List (Text × Text) := [(['\''], "github.sha".toList)]

/-- A commit between quotes, which are literals here. -/
theorem quotedSha_renders :
    bare.render (assemble quotedSha ['\'']) = .ok ('\'' :: "abc".toList ++ ['\'']) := by
  have isLiteral : ¬ openMarker <:+: ['\''] := by decide
  have wellFormed : WellFormed quotedSha := by
    intro part member
    cases List.mem_singleton.mp member
    exact ⟨isLiteral, by decide +kernel, unclosed_of_absent (by decide +kernel), by decide +kernel⟩
  rw [((template_segments bare wellFormed).1 ['\''] isLiteral).1]
  rfl

/-- Nothing closes the last marker, but the expression before it cannot be parsed. -/
theorem failed_expression_hides_unclosed :
    ¬ ∀ before rest, IsLiteral rest → Unclosed rest →
      bare.render (before ++ openMarker ++ rest) = .error .unclosedTemplate ∧
      analyzeTemplate (before ++ openMarker ++ rest) = .error .unclosedTemplate := by
  intro law
  have isLiteral : ¬ openMarker <:+: ['x'] := by decide
  have isEmpty : ¬ openMarker <:+: ([] : Text) := by decide
  have wellFormed : WellFormed [([], ['!'])] := by
    intro part member
    cases List.mem_singleton.mp member
    exact ⟨isEmpty, by decide, unclosed_of_absent (by decide), by decide⟩
  obtain ⟨rendered, -⟩ := law (assemble [([], ['!'])] []) ['x'] isLiteral
    (unclosed_of_absent (by decide))
  have failed : bare.render (assemble [([], ['!'])] (openMarker ++ ['x'])) =
    .error (.parse ()) := by
    unfold EvaluationContext.render
    rw [renderFrom_parts wellFormed]
    rfl
  cases failed.symm.trans rendered

end Sample

end GitZero.Expression
