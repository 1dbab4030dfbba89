import NodeQuery.Expr.Basic

/-!
# Calls in an expression

The calls that stand in an expression, at whatever depth: inside arguments, inside predicates and
behind operands that an evaluation may pass over.  An evaluation makes no other calls, though it may
make one of these never or many times.
-/

namespace NodeQuery

def Step.test : Step → NodeTest
  | .mk _ test _ => test

def Step.predicates : Step → List Expr
  | .mk _ _ predicates => predicates

namespace Expr

mutual

/-- The calls in an expression, each with the function and the arguments as they are written, a call
before those in its arguments. -/
def calls : Expr → List (String × List Expr)
  | .number _ | .string _ | .var _ | .focus => []
  | .call function arguments => (function, arguments) :: callsOfAll arguments
  | .arithmetic _ left right | .connective _ left right | .comparison _ left right
  | .union left right => calls left ++ calls right
  | .negate operand => calls operand
  | .rootPath steps | .focusPath steps => callsOfSteps steps
  | .exprPath start steps => calls start ++ callsOfSteps steps
  | .filter primary predicates => calls primary ++ callsOfAll predicates

def callsOfAll : List Expr → List (String × List Expr)
  | [] => []
  | first :: others => calls first ++ callsOfAll others

def callsOfSteps : List Step → List (String × List Expr)
  | [] => []
  | .mk _ _ predicates :: steps => callsOfAll predicates ++ callsOfSteps steps

end

variable {call : String × List Expr}

theorem mem_callsOfAll {expressions : List Expr} :
    call ∈ callsOfAll expressions ↔ ∃ expression ∈ expressions, call ∈ expression.calls := by
  induction expressions with
  | nil => simp [callsOfAll]
  | cons first others ih => simp [callsOfAll, ih]

theorem mem_callsOfSteps {steps : List Step} :
    call ∈ callsOfSteps steps ↔ ∃ step ∈ steps, call ∈ callsOfAll step.predicates := by
  induction steps with
  | nil => simp [callsOfSteps]
  | cons first others ih =>
      cases first with
      | mk axis test predicates => simp [callsOfSteps, Step.predicates, ih]

end Expr

end NodeQuery
