import NodeQuery.Selector.Basic

/-!
# Paths for selectors

A selector is written as a path expression: each compound becomes a step, each condition a
predicate, and each combinator the axis between two steps.  Names are copied and values quoted, so
that they cannot change the structure of the path.
-/

namespace NodeQuery

/-- A string as a literal of the path language.  A text with quotes of both kinds is put together
from parts, since literals have no escapes. -/
def quoteLiteral (text : String) : String :=
  let characters := text.toList
  if !characters.contains '\'' then "'" ++ text ++ "'"
  else if !characters.contains '"' then "\"" ++ text ++ "\""
  else
    let parts := (text.splitOn "'").map fun part => "'" ++ part ++ "'"
    "concat(" ++ ", \"'\", ".intercalate parts ++ ")"

namespace Selector

/-- The condition that `word` is among the words of an attribute's value. -/
def wordCondition (target word : String) : String :=
  "contains(concat(' ', normalize-space(" ++ target ++ "), ' '), " ++
    quoteLiteral (" " ++ word ++ " ") ++ ")"

/-- The condition on the value of an attribute. -/
def attributePath (target : String) : AttributeMatch → String → String
  | .exact, value => target ++ " = " ++ quoteLiteral value
  | .word, value => wordCondition target value
  | .start, value => "starts-with(" ++ target ++ ", " ++ quoteLiteral value ++ ")"
  | .ending, value =>
    "substring(" ++ target ++ ", string-length(" ++ target ++ ") - string-length(" ++
      quoteLiteral value ++ ") + 1) = " ++ quoteLiteral value
  | .inside, value => "contains(" ++ target ++ ", " ++ quoteLiteral value ++ ")"
  | .dashed, value =>
    target ++ " = " ++ quoteLiteral value ++ " or starts-with(" ++ target ++ ", " ++
      quoteLiteral (value ++ "-") ++ ")"

def greatestCount : Nat := UInt64.size - 1

/-- The number a counting pseudo-class is given: one argument, digits alone, not zero. -/
def childCount? : Option (List PseudoArgument) → Option Nat
  | some [.number text] =>
    let digits := text.toList
    if !digits.isEmpty && digits.all Char.isDigit then
      let count := digits.foldl (fun total c => 10 * total + (c.toNat - '0'.toNat)) 0
      if 0 < count && count ≤ greatestCount then some count else none
    else none
  | _ => none

/-- The condition that a node has a given number of siblings along an axis. -/
def countPath? (axis : String) (arguments : Option (List PseudoArgument)) : Option String :=
  (childCount? arguments).map fun count =>
    "count(" ++ axis ++ "::*) = " ++ toString (count - 1)

def argumentText : PseudoArgument → String
  | .number text => text
  | .string quote content => quote.toString ++ content ++ quote.toString

/-- The call that a pseudo-class without a fixed meaning stands for: the node first, then the
arguments. -/
def callPath (name : String) (arguments : List PseudoArgument) : String :=
  name ++ "(." ++ String.join (arguments.map fun argument => ", " ++ argumentText argument) ++ ")"

/-- The condition for a pseudo-class.  Those that look at the place among siblings have a fixed
meaning; without parentheses some more have. -/
def pseudoClassPath? (name : String) (arguments : Option (List PseudoArgument)) : Option String :=
  if name == "nth-child" then countPath? "preceding-sibling" arguments
  else if name == "nth-last-child" then countPath? "following-sibling" arguments
  else
    match arguments with
    | some given => some (callPath name given)
    | none =>
      if name == "first-child" then some "not(preceding-sibling::*)"
      else if name == "last-child" then some "not(following-sibling::*)"
      else if name == "only-child" then
        some "not(preceding-sibling::*) and not(following-sibling::*)"
      else if name == "empty" then some "not(node())"
      else if name == "root" then some "not(parent::*)"
      else some (callPath name [])

def elementTest : ElementName → String
  | .any => "*"
  | .named name => name

/-- The body of the predicate for a condition; `none` if there is no path for it. -/
def conditionPath? : Condition → Option String
  | .elementName name => some ("self::" ++ elementTest name)
  | .id name => some ("@id = " ++ quoteLiteral name)
  | .class_ name => some (wordCondition "@class" name)
  | .attribute name none => some ("@" ++ name)
  | .attribute name (some (comparison, value)) =>
    some (attributePath ("@" ++ name) comparison value)
  | .negation inner => (conditionPath? inner).map fun body => "not(" ++ body ++ ")"
  | .pseudoClass name arguments => pseudoClassPath? name arguments

def predicatesPath? : List Condition → Option String
  | [] => some ""
  | condition :: conditions => do
    let body ← conditionPath? condition
    let others ← predicatesPath? conditions
    pure ("[" ++ body ++ "]" ++ others)

def compoundPath? (compound : Compound) : Option String := do
  let predicates ← predicatesPath? compound.conditions
  pure (elementTest (compound.element.getD .any) ++ predicates)

def combinatorPath : Combinator → String
  | .descendant => "//"
  | .child => "/"
  | .nextSibling => "/following-sibling::*[1]/self::"
  | .laterSibling => "/following-sibling::"

def othersPath? : List (Combinator × Compound) → Option String
  | [] => some ""
  | (combinator, compound) :: others => do
    let step ← compoundPath? compound
    let rest ← othersPath? others
    pure (combinatorPath combinator ++ step ++ rest)

def path? (start : String) (selector : Selector) : Option String := do
  let first ← compoundPath? selector.first
  let others ← othersPath? selector.others
  pure (start ++ first ++ others)

def groupPath? (start : String) (group : SelectorGroup) : Option String :=
  (group.mapM (path? start)).map (" | ".intercalate ·)

end Selector

end NodeQuery
