import NodeQuery.NodeSet
import NodeQuery.Numeral.Text

/-!
# Values

An expression evaluates to a truth value, a number, a string or a node-set.  Each kind converts to
truth, to a number and to a string; a node-set converts through the string-value of its first node.
Comparisons that involve node-sets hold as soon as they hold for some of the nodes.
-/

namespace NodeQuery

inductive ValueKind where
  | boolean
  | number
  | string
  | nodeSet
deriving DecidableEq, Repr

def ValueKind.name : ValueKind → String
  | .boolean => "boolean"
  | .number => "number"
  | .string => "string"
  | .nodeSet => "node-set"

/-- The result of an expression. -/
inductive Value where
  | boolean (truth : Bool)
  | number (amount : Float)
  | string (text : String)
  | nodeSet (set : NodeSet)

namespace Value

def kind : Value → ValueKind
  | .boolean _ => .boolean
  | .number _ => .number
  | .string _ => .string
  | .nodeSet _ => .nodeSet

/-- The truth of a number: any but the zeros and the undefined number. -/
def numberTruth (amount : Float) : Bool := amount != 0.0 && !amount.isNaN

def truthNumber (truth : Bool) : Float := if truth then 1.0 else 0.0

/-- Convert to truth: strings and node-sets count as true unless they are empty. -/
def toBoolean : Value → Bool
  | .boolean truth => truth
  | .number amount => numberTruth amount
  | .string text => !text.isEmpty
  | .nodeSet set => !set.isEmpty

def toText (forest : Forest) : Value → String
  | .boolean truth => if truth then "true" else "false"
  | .number amount => Numeral.text amount
  | .string text => text
  | .nodeSet set => (set.first?.map forest.stringValue).getD ""

def toNumber (forest : Forest) : Value → Float
  | .boolean truth => truthNumber truth
  | .number amount => amount
  | .string text => Numeral.ofText text
  | .nodeSet set =>
    (set.first?.map fun id => Numeral.ofText (forest.stringValue id)).getD Numeral.undefined

/-- Put a node-set in document order, without decorations; other values have no order. -/
def inDocumentOrder (forest : Forest) : Value → Value
  | .nodeSet set => .nodeSet (NodeSet.inDocumentOrder forest set.nodes)
  | other => other

/-- Give a node-set the decorations of its document; other values have none. -/
def decorate (forest : Forest) (fallback : Option DocumentId) : Value → Value
  | .nodeSet set => .nodeSet (set.decorate forest fallback)
  | other => other

end Value

/-- The operators on two numbers. -/
inductive Arithmetic where
  | add
  | sub
  | mul
  | div
  | mod
deriving DecidableEq, Repr

/-- Apply an operator on numbers; the remainder has the sign of the dividend. -/
def Arithmetic.apply : Arithmetic → Float → Float → Float
  | .add, left, right => left + right
  | .sub, left, right => left - right
  | .mul, left, right => left * right
  | .div, left, right => left / right
  | .mod, left, right => Numeral.remainder left right

/-- The comparison operators. -/
inductive Comparison where
  | eq
  | ne
  | lt
  | le
  | gt
  | ge
deriving DecidableEq, Repr

namespace Comparison

/-- Compare numbers; every comparison but `ne` fails on an undefined number. -/
def ofNumbers (comparison : Comparison) (left right : Float) : Bool :=
  match comparison with
  | .eq => left == right
  | .ne => left != right
  | .lt => decide (left < right)
  | .le => decide (left ≤ right)
  | .gt => decide (right < left)
  | .ge => decide (right ≤ left)

/-- Compare strings: for equality as they are, for order as numbers. -/
def ofTexts (comparison : Comparison) (left right : String) : Bool :=
  match comparison with
  | .eq => left == right
  | .ne => left != right
  | _ => comparison.ofNumbers (Numeral.ofText left) (Numeral.ofText right)

/-- Equality of values that are not node-sets: as truth values if one is a truth value, else as
numbers if one is a number, else as strings. -/
def equalScalars (forest : Forest) (left right : Value) : Bool :=
  if left.kind == .boolean || right.kind == .boolean then left.toBoolean == right.toBoolean
  else if left.kind == .number || right.kind == .number then
    left.toNumber forest == right.toNumber forest
  else left.toText forest == right.toText forest

/-- Compare values that are not node-sets; order is that of their numbers. -/
def ofScalars (comparison : Comparison) (forest : Forest) (left right : Value) : Bool :=
  match comparison with
  | .eq => equalScalars forest left right
  | .ne => !equalScalars forest left right
  | _ => comparison.ofNumbers (left.toNumber forest) (right.toNumber forest)

/-- Compare any two values.  A node-set beside a truth value stands for whether it has nodes; beside
any other value it compares through the string-values of its nodes, one of which has to do. -/
def holds (comparison : Comparison) (forest : Forest) (left right : Value) : Bool :=
  match left, right with
  | .nodeSet first, .nodeSet second =>
    let texts := second.nodes.map forest.stringValue
    first.nodes.any fun id => texts.any fun text =>
      comparison.ofTexts (forest.stringValue id) text
  | .nodeSet first, .boolean _ => comparison.ofScalars forest (.boolean (!first.isEmpty)) right
  | .boolean _, .nodeSet second => comparison.ofScalars forest left (.boolean (!second.isEmpty))
  | .nodeSet first, _ => first.nodes.any fun id =>
      comparison.ofScalars forest (.string (forest.stringValue id)) right
  | _, .nodeSet second => second.nodes.any fun id =>
      comparison.ofScalars forest left (.string (forest.stringValue id))
  | _, _ => comparison.ofScalars forest left right

end Comparison

end NodeQuery
