import NodeQuery.Evaluation
import NodeQuery.Expr.Basic

/-!
# Evaluating expressions directly

The value of an expression by recursion on its syntax tree, without a stack.  Operands and arguments
are evaluated from left to right, each step of a path starts from the nodes that the step before it
has left, and the second operand of `and` and `or` is evaluated only if the first does not decide.
-/

namespace NodeQuery

def Connective.decidedBy : Connective → Bool → Bool
  | .and, truth => !truth
  | .or, truth => truth

namespace Expr

open Evaluation

variable {σ : Type}

mutual

/-- The value of an expression at a focus. -/
def evalAt (forest : Forest) (context : Context σ) (focus : Focus) : Expr → Evaluation σ Value
  | .number amount => pure (.number amount)
  | .string text => pure (.string text)
  | .var name => variableValue context name
  | .focus => pure (focusValue forest focus)
  | .call function arguments => do
    let values ← evalAll forest context focus arguments
    Evaluation.call forest context focus function values
  | .arithmetic operator left right => do
    let first ← evalAt forest context focus left
    let second ← evalAt forest context focus right
    pure (.number (operator.apply (first.toNumber forest) (second.toNumber forest)))
  | .connective operator left right => do
    let first ← evalAt forest context focus left
    if operator.decidedBy first.toBoolean then pure (.boolean first.toBoolean)
    else
      let second ← evalAt forest context focus right
      pure (.boolean second.toBoolean)
  | .comparison operator left right => do
    let first ← evalAt forest context focus left
    let second ← evalAt forest context focus right
    pure (.boolean (operator.holds forest first second))
  | .negate operand => do
    let value ← evalAt forest context focus operand
    pure (.number (-value.toNumber forest))
  | .union left right => do
    let first ← evalAt forest context focus left
    let second ← evalAt forest context focus right
    unionOf forest first second
  | .rootPath steps => do
    let start ← rootsOf forest (focusValue forest focus)
    follow forest context steps start
  | .focusPath steps => follow forest context steps (focusValue forest focus)
  | .exprPath start steps => do
    let value ← evalAt forest context focus start
    follow forest context steps value
  | .filter primary predicates => do
    let value ← evalAt forest context focus primary
    let nodes ← requireNodes .predicate value
    let kept ← keptBy forest context predicates nodes
    pure (.nodeSet (NodeSet.inDocumentOrder forest kept))

/-- The values of several expressions, from left to right. -/
def evalAll (forest : Forest) (context : Context σ) (focus : Focus) :
    List Expr → Evaluation σ (List Value)
  | [] => pure []
  | first :: others => do
    let value ← evalAt forest context focus first
    let values ← evalAll forest context focus others
    pure (value :: values)

/-- Where steps lead from a value, which has to be a node-set if there is any step. -/
def follow (forest : Forest) (context : Context σ) : List Step → Value → Evaluation σ Value
  | [], value => pure value
  | .mk axis test predicates :: steps, value => do
    let nodes ← requireNodes .step value
    let found ← collect
      (fun id => keptBy forest context predicates (candidates forest axis test id)) nodes
    follow forest context steps (.nodeSet (NodeSet.inDocumentOrder forest found))

/-- The nodes that every predicate keeps; each predicate counts positions among those that the ones
before it have kept. -/
def keptBy (forest : Forest) (context : Context σ) :
    List Expr → List NodeId → Evaluation σ (List NodeId)
  | [], nodes => pure nodes
  | predicate :: predicates, nodes => do
    let kept ← keepWhere (fun focus => do
      let result ← evalAt forest context focus predicate
      pure (keeps context predicate.calledFunction? result focus.position)) nodes.length 1 nodes
    keptBy forest context predicates kept

end

/-- The value of a whole expression, decorated. -/
def eval (forest : Forest) (context : Context σ) (expression : Expr) : Evaluation σ Value := do
  let value ← evalAt forest context context.focus expression
  pure (value.decorate forest (context.document? forest))

end Expr

end NodeQuery
