/-
Module: GitZero.Proofs.ExpressionAnalysis
Purpose: The analysis of an expression or a template names everything of its context
  that evaluation can read.
Trusted boundary: none
Main exports: Agrees, evaluateExpr_agrees, analysis_sound
-/
import GitZero.Expression.Evaluation

namespace GitZero.Expression

section Sound

variable [Externals]

/-- The two contexts cannot be told apart by what the analysis names. -/
structure Agrees (analysis : ExpressionAnalysis) (left right : EvaluationContext) : Prop where
  roots : ∀ name ∈ analysis.contextRoots, left.roots.lookup name = right.roots.lookup name
  status : analysis.usesStatusFunction = true → left.status = right.status
  workspace : analysis.usesHashFiles = true → left.workspace = right.workspace

section Agreement

variable {analysis : ExpressionAnalysis} {left right : EvaluationContext}

theorem Agrees.of_insertRoot {name : Text} (agrees : Agrees (analysis.insertRoot name) left right) :
    Agrees analysis left right ∧ left.rootValue name = right.rootValue name := by
  constructor
  · exact ⟨fun root member => agrees.roots root (List.mem_insert_of_mem member), agrees.status,
      agrees.workspace⟩
  · have same := agrees.roots (toAsciiLowercase name) List.mem_insert_self
    unfold EvaluationContext.rootValue EvaluationContext.root?
    rw [same]

theorem Agrees.of_call {func : Function}
    (agrees : Agrees
      { analysis with
        usesStatusFunction := analysis.usesStatusFunction || func.isStatus
        usesHashFiles := analysis.usesHashFiles || func = .hashFiles } left right) :
    Agrees analysis left right ∧ left.statusValue func = right.statusValue func ∧
      ∀ values, left.applyFunction func values = right.applyFunction func values := by
  have kept : Agrees analysis left right :=
    ⟨agrees.roots, fun used => agrees.status (by simp [used]),
      fun used => agrees.workspace (by simp [used])⟩
  have statuses : left.statusValue func = right.statusValue func := by
    cases func with
    | success | cancelled | failure =>
        unfold EvaluationContext.statusValue
        rw [agrees.status (by simp [Function.isStatus])]
    | _ => rfl
  refine ⟨kept, statuses, fun values => ?_⟩
  cases func with
  | hashFiles =>
      have workspace := agrees.workspace (by simp)
      simp only [EvaluationContext.applyFunction, EvaluationContext.hashFiles, workspace]
  | success | always | cancelled | failure => simp only [EvaluationContext.applyFunction, statuses]
  | _ => rfl

/-- What is known of an expression whose analysis is `visited`. -/
def Visited (analysis visited : ExpressionAnalysis) (left right : EvaluationContext)
    (expression : Expr Number) : Prop :=
  Agrees visited left right →
    Agrees analysis left right ∧ left.evaluateExpr expression = right.evaluateExpr expression

/-- A head that is a name is a root; any other head is an expression. -/
theorem headValue_agrees {visited : ExpressionAnalysis} {head : Expr Number}
    (inner : Visited analysis visited left right head)
    (agrees : Agrees (analysis.atHead visited head) left right) :
    Agrees analysis left right ∧
      left.headValue (left.evaluateExpr head) head =
        right.headValue (right.evaluateExpr head) head := by
  cases head with
  | identifier name => exact agrees.of_insertRoot
  | _ => exact inner agrees

/-- A further part that is a name or a star reads nothing of the context. -/
theorem atPart_agrees {visited : ExpressionAnalysis} {part : Expr Number}
    (inner : Visited analysis visited left right part)
    (agrees : Agrees (analysis.atPart visited part) left right) :
    Agrees analysis left right ∧ ∀ selection : Selection,
      selection.atPart (left.evaluateExpr part) part =
        selection.atPart (right.evaluateExpr part) part := by
  cases part with
  | identifier | star => exact ⟨agrees, fun _ => rfl⟩
  | literal value =>
      refine ⟨agrees, fun selection => ?_⟩
      rw [EvaluationContext.evaluateExpr, EvaluationContext.evaluateExpr]
  | _ =>
      obtain ⟨before, same⟩ := inner agrees
      exact ⟨before, fun selection => by rw [same]⟩

mutual

/-- The roots, the status and the workspace that an expression reads are among those
its analysis adds. -/
theorem evaluateExpr_agrees (expression : Expr Number) {analysis : ExpressionAnalysis}
    (agrees : Agrees (analyzeSpannedExpression analysis expression) left right) :
    Agrees analysis left right ∧ left.evaluateExpr expression = right.evaluateExpr expression := by
  match expression with
  | .literal _ | .star =>
      rw [analyzeSpannedExpression] at agrees
      exact ⟨agrees, by rw [EvaluationContext.evaluateExpr, EvaluationContext.evaluateExpr]⟩
  | .identifier name =>
      rw [analyzeSpannedExpression] at agrees
      obtain ⟨before, same⟩ := agrees.of_insertRoot
      exact ⟨before, by rw [EvaluationContext.evaluateExpr, EvaluationContext.evaluateExpr, same]⟩
  | .index inner =>
      rw [analyzeSpannedExpression] at agrees
      obtain ⟨before, same⟩ := evaluateExpr_agrees inner agrees
      exact ⟨before, by rw [EvaluationContext.evaluateExpr, EvaluationContext.evaluateExpr, same]⟩
  | .call func arguments =>
      rw [analyzeSpannedExpression] at agrees
      obtain ⟨called, values⟩ := evaluateArguments_agrees arguments agrees
      obtain ⟨before, statuses, applied⟩ := called.of_call
      refine ⟨before, ?_⟩
      rw [EvaluationContext.evaluateExpr, EvaluationContext.evaluateExpr, statuses, values]
      simp only [applied]
  | .context [] =>
      rw [analyzeSpannedExpression] at agrees
      exact ⟨agrees, by rw [EvaluationContext.evaluateExpr, EvaluationContext.evaluateExpr]⟩
  | .context (head :: parts) =>
      rw [analyzeSpannedExpression] at agrees
      obtain ⟨rooted, selected⟩ := evaluateParts_agrees parts agrees
      have first := headValue_agrees (evaluateExpr_agrees head) rooted
      refine ⟨first.1, ?_⟩
      rw [EvaluationContext.evaluateExpr, EvaluationContext.evaluateExpr]
      simp only [first.2, selected]
  | .binary lower op upper =>
      rw [analyzeSpannedExpression] at agrees
      obtain ⟨middle, uppers⟩ := evaluateExpr_agrees upper agrees
      obtain ⟨before, lowers⟩ := evaluateExpr_agrees lower middle
      refine ⟨before, ?_⟩
      rw [EvaluationContext.evaluateExpr, EvaluationContext.evaluateExpr, lowers, uppers]
  | .unary .not inner =>
      rw [analyzeSpannedExpression] at agrees
      obtain ⟨before, same⟩ := evaluateExpr_agrees inner agrees
      exact ⟨before, by rw [EvaluationContext.evaluateExpr, EvaluationContext.evaluateExpr, same]⟩

theorem evaluateArguments_agrees (arguments : List (Expr Number)) {analysis : ExpressionAnalysis}
    (agrees : Agrees (analyzeArguments analysis arguments) left right) :
    Agrees analysis left right ∧
      left.evaluateArguments arguments = right.evaluateArguments arguments := by
  match arguments with
  | [] =>
      rw [analyzeArguments] at agrees
      exact ⟨agrees, by rw [EvaluationContext.evaluateArguments,
        EvaluationContext.evaluateArguments]⟩
  | argument :: arguments =>
      rw [analyzeArguments] at agrees
      obtain ⟨middle, rest⟩ := evaluateArguments_agrees arguments agrees
      obtain ⟨before, first⟩ := evaluateExpr_agrees argument middle
      refine ⟨before, ?_⟩
      rw [EvaluationContext.evaluateArguments, EvaluationContext.evaluateArguments, first, rest]

theorem evaluateParts_agrees (parts : List (Expr Number)) {analysis : ExpressionAnalysis}
    (agrees : Agrees (analyzeParts analysis parts) left right) :
    Agrees analysis left right ∧
      ∀ selection, left.evaluateParts selection parts = right.evaluateParts selection parts := by
  match parts with
  | [] =>
      rw [analyzeParts] at agrees
      refine ⟨agrees, fun selection => ?_⟩
      rw [EvaluationContext.evaluateParts, EvaluationContext.evaluateParts]
  | part :: parts =>
      rw [analyzeParts] at agrees
      obtain ⟨seen, rest⟩ := evaluateParts_agrees parts agrees
      obtain ⟨before, here⟩ := atPart_agrees (evaluateExpr_agrees part) seen
      refine ⟨before, fun selection => ?_⟩
      rw [EvaluationContext.evaluateParts, EvaluationContext.evaluateParts, here]
      simp only [rest]

end

/-- The same for a source text; if it does not parse, both evaluations report that. -/
theorem evaluate_agrees {source : Text} (analyzed : analyzeExpression source = .ok analysis)
    (agrees : Agrees analysis left right) : left.evaluate source = right.evaluate source := by
  unfold analyzeExpression at analyzed
  unfold EvaluationContext.evaluate
  split at analyzed
  · cases analyzed
  · cases analyzed
    exact (evaluateExpr_agrees _ agrees).2

theorem Agrees.of_merge {other : ExpressionAnalysis}
    (agrees : Agrees (analysis.merge other) left right) :
    Agrees analysis left right ∧ Agrees other left right := by
  have roots := agrees.roots
  simp only [ExpressionAnalysis.merge, List.mem_union_iff] at roots
  constructor
  · exact ⟨fun name member => roots name (.inl member),
      fun used => agrees.status (by simp [ExpressionAnalysis.merge, used]),
      fun used => agrees.workspace (by simp [ExpressionAnalysis.merge, used])⟩
  · exact ⟨fun name member => roots name (.inr member),
      fun used => agrees.status (by simp [ExpressionAnalysis.merge, used]),
      fun used => agrees.workspace (by simp [ExpressionAnalysis.merge, used])⟩

omit analysis left right in
/-- One turn of the rendering loop. -/
theorem renderFrom_eq (context : EvaluationContext) (rendered text : Text) :
    context.renderFrom rendered text =
      match findExpressionStart text with
      | none => .ok (rendered ++ text)
      | some (before, behind) =>
          match findExpressionEnd false behind with
          | none => .error .unclosedTemplate
          | some (source, after) =>
              match context.evaluate source with
              | .error error => .error error
              | .ok value =>
                  context.renderFrom (rendered ++ before ++ Externals.display value) after := by
  rw [EvaluationContext.renderFrom]
  split
  · rename_i none
    rw [none]
  · rename_i opened
    rw [opened]
    dsimp only
    split
    · rename_i unclosed
      rw [unclosed]
    · rename_i closed
      exact closed ▸ rfl

theorem renderFrom_agrees {start final : ExpressionAnalysis} {text : Text}
    (analyzed : analyzeTemplateFrom start text = .ok final) (agrees : Agrees final left right) :
    Agrees start left right ∧
      ∀ rendered, left.renderFrom rendered text = right.renderFrom rendered text := by
  fun_induction analyzeTemplateFrom start text with
  | case1 start text none =>
      cases analyzed
      refine ⟨agrees, fun rendered => ?_⟩
      rw [renderFrom_eq, renderFrom_eq, none]
  | case2 | case3 => cases analyzed
  | case4 start text before behind opened source after closed found analyzedHere
      inductionHypothesis =>
      obtain ⟨merged, rest⟩ := inductionHypothesis analyzed
      obtain ⟨earlier, here⟩ := merged.of_merge
      refine ⟨earlier, fun rendered => ?_⟩
      rw [renderFrom_eq, renderFrom_eq, opened]
      simp only [closed, evaluate_agrees analyzedHere here, rest]

end Agreement

/-- Two contexts that agree on what the analysis of an expression or a template
names give the same value or the same error. -/
theorem analysis_sound (left right : EvaluationContext) :
    (∀ source analysis, analyzeExpression source = .ok analysis → Agrees analysis left right →
      left.evaluate source = right.evaluate source) ∧
    ∀ template analysis, analyzeTemplate template = .ok analysis → Agrees analysis left right →
      left.render template = right.render template :=
  ⟨fun _ _ analyzed agrees => evaluate_agrees analyzed agrees,
    fun _ _ analyzed agrees => (renderFrom_agrees analyzed agrees).2 []⟩

end Sound

namespace Sample

/-- The parser on `github.sha`, and values without JSON or files. -/
scoped instance externals : Externals where
  Number := Nat
  ParseError := Unit
  HashError := Unit
  Path := Unit
  parse text :=
    if text = "github.sha".toList then
      .ok (.context [.identifier "github".toList, .identifier "sha".toList])
    else .error ()
  asBoolean value := match value with
    | .boolean answer => answer
    | .null => false
    | _ => true
  semaEq left right := match left, right with
    | .string one, .string two => toAsciiLowercase one = toAsciiLowercase two
    | _, _ => false
  semaGt _ _ := false
  semaGe _ _ := false
  semaLt _ _ := false
  semaLe _ _ := false
  display value := match value with
    | .string text => text
    | _ => []
  wholeIndex number := some number
  toUppercase text := text.map Char.toUpper
  prettyJson _ := none
  readJson _ := none
  hashFiles _ _ := .ok []

def githubRoot : Text × Value Number :=
  ("github".toList, .object [("sha".toList, .string "abc".toList)])

def bare : EvaluationContext := { roots := [githubRoot] }

def furnished : EvaluationContext :=
  { roots := [("env".toList, .string "x".toList), githubRoot], status := .failure }

/-- `github.sha` does not see the other root or the status. -/
theorem github_sha_agrees :
    bare.evaluate "github.sha".toList = furnished.evaluate "github.sha".toList := by
  have analyzed : analyzeExpression "github.sha".toList =
      .ok { contextRoots := ["github".toList] } := rfl
  have agrees : Agrees { contextRoots := ["github".toList] } bare furnished := by
    refine ⟨?_, fun used => (nomatch used), fun used => (nomatch used)⟩
    intro name member
    rw [List.mem_singleton.mp member]
    rfl
  exact (analysis_sound bare furnished).1 _ _ analyzed agrees

end Sample

end GitZero.Expression
