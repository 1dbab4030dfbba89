/-!
# Selectors

A selector is a chain of compounds joined by combinators.  A compound asks for an element name or
none and for a number of conditions.  A pseudo-class whose name has no fixed meaning stands for a
call of a function with that name; its arguments are numbers and strings as they are written.
-/

namespace NodeQuery

/-- How the value of an attribute is compared with the value in a selector. -/
inductive AttributeMatch where
  | exact
  | word
  | start
  | ending
  | inside
  | dashed
deriving DecidableEq, Repr

/-- An argument of a pseudo-class, as it is written: a number, or a string with its quotes. -/
inductive PseudoArgument where
  | number (text : String)
  | string (quote : Char) (content : String)
deriving DecidableEq, Repr

/-- The element name a selector asks for; `any` is the universal selector. -/
inductive ElementName where
  | any
  | named (name : String)
deriving DecidableEq, Repr

/-- What a selector asks of an element.  A pseudo-class without parentheses has no argument list,
which differs from having an empty one. -/
inductive Condition where
  | elementName (name : ElementName)
  | id (name : String)
  | class_ (name : String)
  | attribute (name : String) (test : Option (AttributeMatch × String))
  | negation (inner : Condition)
  | pseudoClass (name : String) (arguments : Option (List PseudoArgument))
deriving DecidableEq, Repr

/-- The conditions on one element. -/
structure Compound where
  element : Option ElementName
  conditions : List Condition
deriving DecidableEq, Repr

/-- How the element of one compound lies to that of the compound before it. -/
inductive Combinator where
  | descendant
  | child
  | nextSibling
  | laterSibling
deriving DecidableEq, Repr

structure Selector where
  first : Compound
  others : List (Combinator × Compound)
deriving DecidableEq, Repr

abbrev SelectorGroup := List Selector

end NodeQuery
