import NodeQuery.Expr.Basic
import NodeQuery.Numeral.Text
import NodeQuery.Selector.Path

/-!
# Expressions for selectors

What the path of a selector stands for, built from the selector without writing a path: a step for
each compound, a predicate for each condition, and every name and every value in a leaf of its own.
-/

namespace NodeQuery.Selector

open NodeQuery.Expr (call comparison connective focusPath string)

def countExpr (count : Nat) : Expr := .number (Numeral.Decimal.toFloat ⟨count, 0⟩)

def attributeExpr (name : String) : Expr := focusPath [.mk .attribute (.named name) []]

def siblingsExpr (axis : Axis) : Expr := focusPath [.mk axis .anyName []]

/-- The condition that `word` is among the words of a text. -/
def wordExpr (target : Expr) (word : String) : Expr :=
  call "contains" [call "concat" [string " ", call "normalize-space" [target], string " "],
    string (" " ++ word ++ " ")]

/-- The condition on the value of an attribute. -/
def attributeMatchExpr (target : Expr) : AttributeMatch → String → Expr
  | .exact, value => comparison .eq target (string value)
  | .word, value => wordExpr target value
  | .start, value => call "starts-with" [target, string value]
  | .ending, value =>
    let start : Expr := .arithmetic .add
      (.arithmetic .sub (call "string-length" [target]) (call "string-length" [string value]))
      (countExpr 1)
    comparison .eq (call "substring" [target, start]) (string value)
  | .inside, value => call "contains" [target, string value]
  | .dashed, value =>
    connective .or (comparison .eq target (string value))
      (call "starts-with" [target, string (value ++ "-")])

def amount (digits : List Char) : Expr :=
  .number (((Numeral.Decimal.ofChars? digits).map Numeral.Decimal.toFloat).getD Numeral.undefined)

def argumentExpr : PseudoArgument → Expr
  | .number text =>
    match text.toList with
    | '-' :: digits => .negate (amount digits)
    | digits => amount digits
  | .string _ content => string content

/-- The call that a pseudo-class without a fixed meaning stands for. -/
def callExpr (name : String) (arguments : List PseudoArgument) : Expr :=
  call name (.focus :: arguments.map argumentExpr)

/-- The condition that a node has a given number of siblings along an axis. -/
def siblingCountExpr? (axis : Axis) (arguments : Option (List PseudoArgument)) : Option Expr :=
  (childCount? arguments).map fun count =>
    comparison .eq (call "count" [siblingsExpr axis]) (countExpr (count - 1))

/-- The condition for a pseudo-class. -/
def pseudoClassExpr? (name : String) (arguments : Option (List PseudoArgument)) : Option Expr :=
  let first := call "not" [siblingsExpr .precedingSibling]
  let last := call "not" [siblingsExpr .followingSibling]
  if name == "nth-child" then siblingCountExpr? .precedingSibling arguments
  else if name == "nth-last-child" then siblingCountExpr? .followingSibling arguments
  else
    match arguments with
    | some given => some (callExpr name given)
    | none =>
      if name == "first-child" then some first
      else if name == "last-child" then some last
      else if name == "only-child" then some (connective .and first last)
      else if name == "empty" then some (call "not" [focusPath [.mk .child .node []]])
      else if name == "root" then some (call "not" [siblingsExpr .parent])
      else some (callExpr name [])

def nodeTest : ElementName → NodeTest
  | .any => .anyName
  | .named name => .named name

/-- The predicate for a condition; `none` if there is none for it. -/
def conditionExpr? : Condition → Option Expr
  | .elementName name => some (focusPath [.mk .self (nodeTest name) []])
  | .id name => some (comparison .eq (attributeExpr "id") (string name))
  | .class_ name => some (wordExpr (attributeExpr "class") name)
  | .attribute name none => some (attributeExpr name)
  | .attribute name (some (relation, value)) =>
    some (attributeMatchExpr (attributeExpr name) relation value)
  | .negation inner => (conditionExpr? inner).map fun body => call "not" [body]
  | .pseudoClass name arguments => pseudoClassExpr? name arguments

def compoundStep? (axis : Axis) (compound : Compound) : Option Step :=
  (compound.conditions.mapM conditionExpr?).map fun predicates =>
    .mk axis (nodeTest (compound.element.getD .any)) predicates

def linkSteps? : Combinator → Compound → Option (List Step)
  | .descendant, compound => (compoundStep? .child compound).map fun step => [.descendantOrSelf, step]
  | .child, compound => (compoundStep? .child compound).map fun step => [step]
  | .nextSibling, compound => (compoundStep? .self compound).map fun step =>
    [.mk .followingSibling .anyName [countExpr 1], step]
  | .laterSibling, compound => (compoundStep? .followingSibling compound).map fun step => [step]

/-- The steps for a selector from the nodes among which its first compound is looked for. -/
def steps? (selector : Selector) : Option (List Step) := do
  let first ← compoundStep? .child selector.first
  let others ← selector.others.mapM fun link => linkSteps? link.1 link.2
  pure (first :: others.flatten)

/-- The expression for alternative selectors; `start` makes the path of one from its steps. -/
def groupExpr? (start : List Step → Expr) (group : SelectorGroup) : Option Expr := do
  let paths ← group.mapM steps?
  match paths with
  | [] => none
  | first :: others => pure ((others.map start).foldl .union (start first))

/-- A path that looks for elements anywhere in the tree. -/
def fromRoot (steps : List Step) : Expr := .rootPath (.descendantOrSelf :: steps)

/-- A path that looks for elements below the node in focus. -/
def fromFocus (steps : List Step) : Expr :=
  focusPath (.mk .self .node [] :: .descendantOrSelf :: steps)

end NodeQuery.Selector
