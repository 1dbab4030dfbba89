import NodeQuery.Expr.Basic
import NodeQuery.Numeral.Text

/-!
# Writing expressions

The text of an expression with all its parentheses: every operand, the start of every path and every
filtered expression stand in parentheses, and every step names its axis.  Arguments and predicates
have brackets or commas around them already.
-/

namespace NodeQuery

def Arithmetic.sign : Arithmetic → String
  | .add => "+"
  | .sub => "-"
  | .mul => "*"
  | .div => "div"
  | .mod => "mod"

/-- The sign of a comparison. -/
def Comparison.sign : Comparison → String
  | .eq => "="
  | .ne => "!="
  | .lt => "<"
  | .le => "<="
  | .gt => ">"
  | .ge => ">="

def Connective.sign : Connective → String
  | .and => "and"
  | .or => "or"

/-- The text of a node test. -/
def NodeTest.chars : NodeTest → List Char
  | .named name => name.toList
  | .anyName => "*".toList
  | .anyNameWithPrefix first => first.toList ++ ":*".toList
  | .node => "node()".toList
  | .text => "text()".toList
  | .comment => "comment()".toList

namespace Expr

/-- A quote that a text does not contain, if there is one. -/
def quoteFor (text : String) : Char := if '"' ∈ text.toList then '\'' else '"'

def parenthesised (inner : List Char) : List Char := '(' :: (inner ++ [')'])

def binaryChars (sign : String) (left right : List Char) : List Char :=
  parenthesised left ++ ' ' :: (sign.toList ++ ' ' :: parenthesised right)

def predicatesChars (predicates : List (List Char)) : List Char :=
  predicates.flatMap fun inner => '[' :: (inner ++ [']'])

def stepChars (axis : Axis) (test : NodeTest) (predicates : List (List Char)) : List Char :=
  axis.name.toList ++ ':' :: ':' :: (test.chars ++ predicatesChars predicates)

def pathChars (steps : List (List Char)) : List Char := ['/'].intercalate steps

mutual

/-- The text of an expression. -/
def chars : Expr → List Char
  | .number amount => Numeral.chars amount
  | .string text => quoteFor text :: (text.toList ++ [quoteFor text])
  | .var name => '$' :: name.toList
  | .call function arguments =>
    function.toList ++ parenthesised ([',', ' '].intercalate (charsOfAll arguments))
  | .arithmetic operator left right => binaryChars operator.sign (chars left) (chars right)
  | .connective operator left right => binaryChars operator.sign (chars left) (chars right)
  | .comparison operator left right => binaryChars operator.sign (chars left) (chars right)
  | .negate operand => '-' :: parenthesised (chars operand)
  | .union left right => binaryChars "|" (chars left) (chars right)
  | .rootPath steps => '/' :: pathChars (charsOfSteps steps)
  | .focusPath steps => pathChars (charsOfSteps steps)
  | .exprPath start steps => parenthesised (chars start) ++ '/' :: pathChars (charsOfSteps steps)
  | .filter primary predicates =>
    parenthesised (chars primary) ++ predicatesChars (charsOfAll predicates)
  | .focus => ['.']

def charsOfAll : List Expr → List (List Char)
  | [] => []
  | first :: others => chars first :: charsOfAll others

def charsOfSteps : List Step → List (List Char)
  | [] => []
  | .mk axis test predicates :: steps =>
    stepChars axis test (charsOfAll predicates) :: charsOfSteps steps

end

def written (expression : Expr) : String := String.ofList expression.chars

end Expr

def Step.chars : Step → List Char
  | .mk axis test predicates => Expr.stepChars axis test (predicates.map Expr.chars)

namespace Expr

theorem charsOfAll_eq (expressions : List Expr) : charsOfAll expressions = expressions.map chars := by
  induction expressions with
  | nil => rfl
  | cons first others ih => rw [charsOfAll, List.map_cons, ih]

theorem charsOfSteps_eq (taken : List Step) : charsOfSteps taken = taken.map Step.chars := by
  induction taken with
  | nil => rfl
  | cons first others ih =>
      rcases first with ⟨axis, test, predicates⟩
      rw [charsOfSteps, List.map_cons, ih, charsOfAll_eq]
      rfl

end Expr

end NodeQuery
