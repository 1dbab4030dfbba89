import NodeQuery.Value

/-!
# Expressions

The syntax trees of path expressions.  A path starts at the root of the tree in focus, at the node
in focus, or at the nodes another expression gives, and goes on in steps; each step follows an axis
and keeps the nodes that pass its test and its predicates.
-/

namespace NodeQuery

/-- The operators on truth values; the second operand is looked at only if the first leaves the
answer open. -/
inductive Connective where
  | and
  | or
deriving DecidableEq, Repr

mutual

/-- A path expression. -/
inductive Expr where
  | number (amount : Float)
  | string (text : String)
  | var (name : String)
  | call (function : String) (arguments : List Expr)
  | arithmetic (operator : Arithmetic) (left right : Expr)
  | connective (operator : Connective) (left right : Expr)
  | comparison (operator : Comparison) (left right : Expr)
  | negate (operand : Expr)
  | union (left right : Expr)
  | rootPath (steps : List Step)
  | focusPath (steps : List Step)
  | exprPath (start : Expr) (steps : List Step)
  | filter (primary : Expr) (predicates : List Expr)
  | focus

inductive Step where
  | mk (axis : Axis) (test : NodeTest) (predicates : List Expr)

end

namespace Step

/-- The step to a node and everything below it, which two slashes stand for. -/
def descendantOrSelf : Step := .mk .descendantOrSelf .node []

def isSelf : Step → Bool
  | .mk .self .node [] => true
  | _ => false

end Step

def Expr.calledFunction? : Expr → Option String
  | .call function _ => some function
  | _ => none

end NodeQuery
