/-
Module: GitZero.Agent.Conditions
Purpose: The condition of a step or a job, and the status function that it has if it calls none.
Trusted boundary: the lower case of characters beyond ASCII
Main exports: toLowercase, compactCondition, containsStatusFunction, evaluateCondition,
  conditionAllows
-/
import GitZero.Expression.Evaluation

namespace GitZero.Expression

/-- `char::to_lowercase`, with `beyond` for the characters that are not ASCII. -/
def toLowercase (beyond : Char → Text) (char : Char) : Text :=
  if char.toNat < 128 then [char.toLower] else beyond char

/-- A condition without its white space, in lower case. -/
def compactCondition (beyond : Char → Text) (condition : Text) : Text :=
  (condition.filter fun char => !isWhitespace char).flatMap (toLowercase beyond)

def statusCalls : List Text :=
  ["success(".toList, "failure(".toList, "cancelled(".toList, "always(".toList]

/-- A search in the text of the condition, without its blanks and in lower case. -/
def containsStatusFunction (beyond : Char → Text) (condition : Text) : Bool :=
  statusCalls.any fun function => containsText (compactCondition beyond condition) function

variable [Externals]

/-- The truth of the value. -/
def EvaluationContext.evaluateCondition (context : EvaluationContext) (source : Text) :
    Except ExpressionError Bool :=
  (context.evaluate source).map Externals.asBoolean

/-- Whether a step or a job runs: a condition that calls no status function runs after success
only. -/
def conditionAllows (beyond : Char → Text) (condition : Option Text) (status : ExecutionStatus)
    (context : EvaluationContext) : Except ExpressionError Bool :=
  match condition with
  | none => .ok (status = .success)
  | some condition =>
      if status ≠ .success && !containsStatusFunction beyond condition then .ok false
      else context.evaluateCondition condition

end GitZero.Expression
