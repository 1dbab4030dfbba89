import NodeQuery.Expr.Printer
import NodeQuery.Expr.Reader

/-!
# Chains of operators

A chain is written without parentheses: operands with operators between them, each operand behind any
number of minus signs.  How it is grouped follows from how tightly its operators bind.  A grouping of a
chain has the pieces of the chain in their order; it follows the precedence of the operators if no
operand of an operator is held together by a looser one, and no right operand by an equally loose one.
-/

namespace NodeQuery.Expr

inductive BinaryOperator where
  | connective (operator : Connective)
  | comparison (operator : Comparison)
  | arithmetic (operator : Arithmetic)
  | union

namespace BinaryOperator

def sign : BinaryOperator → String
  | .connective operator => operator.sign
  | .comparison operator => operator.sign
  | .arithmetic operator => operator.sign
  | .union => "|"

def combine : BinaryOperator → Expr → Expr → Expr
  | .connective operator => .connective operator
  | .comparison operator => .comparison operator
  | .arithmetic operator => .arithmetic operator
  | .union => .union

/-- How loosely an operator binds. -/
def looseness : BinaryOperator → Nat
  | .union => 1
  | .arithmetic .mul | .arithmetic .div | .arithmetic .mod => 3
  | .arithmetic .add | .arithmetic .sub => 4
  | .comparison .lt | .comparison .le | .comparison .gt | .comparison .ge => 5
  | .comparison .eq | .comparison .ne => 6
  | .connective .and => 7
  | .connective .or => 8

end BinaryOperator

/-- How loosely a minus sign binds: only the bar between paths binds tighter. -/
def minusLooseness : Nat := 2

/-- The text of an operand: a literal, a variable, a call or an expression in parentheses, with nothing
in front of it and nothing behind. -/
structure Atom where
  text : List Char
  value : Expr
  solid : ∀ c ∈ text.head?, isBlank c = false
  whole : primary expr text = some (value, [])

/-- A minus sign and the blanks behind it, if there are any. -/
structure Minus where
  gap : List Char
  blank : ∀ c ∈ gap, isBlank c = true

/-- An operator with blanks on both sides. -/
structure Joint where
  operator : BinaryOperator
  left : List Char
  right : List Char
  parted : left ≠ [] ∧ right ≠ []
  blank : ∀ c ∈ left ++ right, isBlank c = true

inductive Piece where
  | operand (atom : Atom)
  | sign (minus : Minus)
  | operator (joint : Joint)

def Piece.chars : Piece → List Char
  | .operand atom => atom.text
  | .sign minus => '-' :: minus.gap
  | .operator joint => joint.left ++ (joint.operator.sign.toList ++ joint.right)

structure SignedAtom where
  signs : List Minus
  atom : Atom

def SignedAtom.pieces (operand : SignedAtom) : List Piece := operand.signs.map .sign ++ [.operand operand.atom]

/-- An operator and the operand behind it.  Behind a bar no minus sign can stand. -/
structure Link where
  joint : Joint
  operand : SignedAtom
  unsigned : joint.operator = .union → operand.signs = []

def Link.pieces (link : Link) : List Piece := .operator link.joint :: link.operand.pieces

structure Chain where
  first : SignedAtom
  others : List Link

namespace Chain

def pieces (chain : Chain) : List Piece := chain.first.pieces ++ chain.others.flatMap Link.pieces

def text (chain : Chain) : String := String.ofList (chain.pieces.flatMap Piece.chars)

end Chain

inductive Grouping where
  | operand (atom : Atom)
  | negated (minus : Minus) (inner : Grouping)
  | joined (left : Grouping) (joint : Joint) (right : Grouping)

namespace Grouping

def pieces : Grouping → List Piece
  | .operand atom => [.operand atom]
  | .negated minus inner => .sign minus :: inner.pieces
  | .joined left joint right => left.pieces ++ .operator joint :: right.pieces

def expr : Grouping → Expr
  | .operand atom => atom.value
  | .negated _ inner => .negate inner.expr
  | .joined left joint right => joint.operator.combine left.expr right.expr

/-- How loosely a grouping is held together at its top. -/
def looseness : Grouping → Nat
  | .operand _ => 0
  | .negated _ _ => minusLooseness
  | .joined _ joint _ => joint.operator.looseness

/-- A grouping follows the precedence of the operators, from the left where they bind alike. -/
inductive FollowsPrecedence : Grouping → Prop
  | operand (atom : Atom) : FollowsPrecedence (.operand atom)
  | negated {minus : Minus} {inner : Grouping} (follows : FollowsPrecedence inner)
      (tight : inner.looseness ≤ minusLooseness) : FollowsPrecedence (.negated minus inner)
  | joined {left right : Grouping} {joint : Joint} (leftFollows : FollowsPrecedence left)
      (rightFollows : FollowsPrecedence right) (notLooser : left.looseness ≤ joint.operator.looseness)
      (tighter : right.looseness < joint.operator.looseness) :
      FollowsPrecedence (.joined left joint right)

end Grouping

end NodeQuery.Expr
