import NodeQuery.Selector.Path
import NodeQuery.Text.Peg

/-!
# The grammar of selectors

The rules of selectors as data, and paths put together from the trees that the grammar gives.  Blanks have
a meaning in selectors, so none are skipped between the parts of a rule.  Putting together looks at the
rules a tree is made of; it refuses a tree of an unexpected shape, and a pseudo-class for counting that is
not given a count.
-/

namespace NodeQuery.Selector

open Text (Grammar Peg RuleKind ParseTree)

/-- The rules of selectors.  The signs of combinators and of comparisons are rules of their own, and so is
what stands between quotes of either kind. -/
inductive Rule where
  | selectorGroup
  | endOfInput
  | selector
  | combinator
  | combinatorSign (meaning : Combinator)
  | compound
  | typeSel
  | universal
  | elementName
  | simple
  | idSel
  | classSel
  | attrib
  | attrName
  | attrOp
  | attrSign (meaning : AttributeMatch)
  | attrValue
  | pseudo
  | negation
  | negationArg
  | functionalPseudo
  | barePseudo
  | pseudoName
  | pseudoArg
  | string
  | quotedInner (quote : String)
  | number
  | ident
  | nameStart
  | nameChar
  | ws
deriving DecidableEq

namespace Rule

/-- Names, numbers and what is between quotes are atomic; the rule around the quotes shows what is between
them. -/
def kind : Rule → RuleKind
  | .nameStart | .nameChar | .ws => .silent
  | .string => .compound
  | .elementName | .attrName | .pseudoName | .quotedInner _ | .number | .ident => .atomic
  | _ => .normal

def wide : Peg Rule := .character fun c => decide (0x80 ≤ c.toNat)

def digit : Peg Rule := .character Char.isDigit

def notWord : Peg Rule :=
  .seq (.character fun c => c.toLower == 'n') (.seq (.character fun c => c.toLower == 'o')
    (.character fun c => c.toLower == 't'))

def blanks : Peg Rule := .many (.rule .ws)

def behindComma (part : Rule) : Peg Rule :=
  .seq blanks (.seq (.text ",") (.seq blanks (.rule part)))

def bracketed (part : Peg Rule) : Peg Rule :=
  .seq (.text "(") (.seq blanks (.seq part (.seq blanks (.text ")"))))

def signed (meaning : Combinator) : Peg Rule :=
  .seq blanks (.seq (.rule (.combinatorSign meaning)) blanks)

def between (quote : String) : Peg Rule :=
  .seq (.text quote) (.seq (.rule (.quotedInner quote)) (.text quote))

/-- The body of a rule. -/
def body : Rule → Peg Rule
  | .selectorGroup =>
    .seq .start (.seq blanks (.seq (.rule .selector) (.seq (.many (behindComma .selector))
      (.seq blanks (.rule .endOfInput)))))
  | .endOfInput => .finish
  | .selector => .seq (.rule .compound) (.many (.seq (.rule .combinator) (.rule .compound)))
  | .combinator =>
    .choice (signed .child) (.choice (signed .nextSibling) (.choice (signed .laterSibling)
      (.rule (.combinatorSign .descendant))))
  | .combinatorSign .child => .text ">"
  | .combinatorSign .nextSibling => .text "+"
  | .combinatorSign .laterSibling => .text "~"
  | .combinatorSign .descendant => .seq (.rule .ws) (.many (.rule .ws))
  | .compound =>
    .choice (.seq (.rule .typeSel) (.many (.rule .simple)))
      (.seq (.rule .simple) (.many (.rule .simple)))
  | .typeSel => .choice (.rule .universal) (.rule .elementName)
  | .universal => .text "*"
  | .elementName => .rule .ident
  | .simple =>
    .choice (.rule .idSel) (.choice (.rule .classSel) (.choice (.rule .attrib) (.rule .pseudo)))
  | .idSel => .seq (.text "#") (.rule .ident)
  | .classSel => .seq (.text ".") (.rule .ident)
  | .attrib =>
    .seq (.text "[") (.seq blanks (.seq (.rule .attrName) (.seq blanks (.seq
      (.optional (.seq (.rule .attrOp) (.seq blanks (.seq (.rule .attrValue) blanks))))
      (.text "]")))))
  | .attrName => .rule .ident
  | .attrOp =>
    .choice (.rule (.attrSign .word)) (.choice (.rule (.attrSign .start))
      (.choice (.rule (.attrSign .ending)) (.choice (.rule (.attrSign .inside))
        (.choice (.rule (.attrSign .dashed)) (.rule (.attrSign .exact))))))
  | .attrSign .exact => .text "="
  | .attrSign .word => .text "~="
  | .attrSign .start => .text "^="
  | .attrSign .ending => .text "$="
  | .attrSign .inside => .text "*="
  | .attrSign .dashed => .text "|="
  | .attrValue => .choice (.rule .string) (.choice (.rule .ident) (.rule .number))
  | .pseudo =>
    .seq (.text ":") (.choice (.rule .negation) (.choice (.rule .functionalPseudo) (.rule .barePseudo)))
  | .negation => .seq notWord (bracketed (.rule .negationArg))
  | .negationArg =>
    .choice (.rule .typeSel) (.choice (.rule .idSel) (.choice (.rule .classSel)
      (.choice (.rule .attrib) (.rule .pseudo))))
  | .functionalPseudo =>
    .seq (.rule .pseudoName) (bracketed (.optional
      (.seq (.rule .pseudoArg) (.many (behindComma .pseudoArg)))))
  | .barePseudo => .rule .pseudoName
  | .pseudoName => .rule .ident
  | .pseudoArg => .choice (.rule .string) (.rule .number)
  | .string => .choice (between "\"") (between "'")
  | .quotedInner quote => .many (.seq (.absent (.text quote)) (.character fun _ => true))
  | .number =>
    .seq (.optional (.text "-")) (.seq (.seq digit (.many digit))
      (.optional (.seq (.text ".") (.seq digit (.many digit)))))
  | .ident => .seq (.optional (.text "-")) (.seq (.rule .nameStart) (.many (.rule .nameChar)))
  | .nameStart => .choice (.character Char.isAlpha) (.choice (.text "_") wide)
  | .nameChar =>
    .choice (.character Char.isAlphanum) (.choice (.text "_") (.choice (.text "-") wide))
  | .ws => .choice (.text " ") (.choice (.text "\t") (.choice (.text "\r") (.text "\n")))

end Rule

def grammar : Grammar Rule where
  body := Rule.body
  kind := Rule.kind
  isBlank _ := false

def textOf (tree : ParseTree Rule) : String := String.ofList tree.text

/-- The value that an attribute is compared with: a string without its quotes, a name or a number. -/
def literalValue? : ParseTree Rule → Option String
  | .node _ _ (.node .string _ children :: _) => some ((children.head?.map textOf).getD "")
  | .node _ _ (.node .ident text _ :: _) => some (String.ofList text)
  | .node _ _ (.node .number text _ :: _) => some (String.ofList text)
  | _ => none

def attributeMatch? : ParseTree Rule → Option AttributeMatch
  | .node _ _ (.node (.attrSign meaning) _ _ :: _) => some meaning
  | _ => none

/-- The condition on an attribute, from the trees inside its brackets. -/
def attributeCondition? : List (ParseTree Rule) → Option String
  | [] => none
  | [name] => some ("@" ++ textOf name)
  | name :: sign :: others => do
    let literal ← others.head?
    let value ← literalValue? literal
    let meaning ← attributeMatch? sign
    pure (attributePath ("@" ++ textOf name) meaning value)

def numberOf (digits : List Char) : Nat :=
  digits.foldl (fun total c => 10 * total + (c.toNat - '0'.toNat)) 0

/-- A text of digits as a number that a machine word holds; there may be a plus sign in front. -/
def machineWord? (text : List Char) : Option Nat :=
  let digits := if text.head? = some '+' then text.tail else text
  if !digits.isEmpty && digits.all Char.isDigit && numberOf digits ≤ greatestCount then
    some (numberOf digits)
  else none

/-- The condition for a pseudo-class that counts the siblings along an axis. -/
def countCondition? (axis : String) : List String → Option String
  | [argument] =>
    ((machineWord? argument.toList).filter (0 < ·)).map fun count =>
      "count(" ++ axis ++ "::*) = " ++ toString (count - 1)
  | _ => none

def pseudoArgument? : ParseTree Rule → Option String
  | .node _ _ (.node .number text _ :: _) | .node _ _ (.node .string text _ :: _) =>
    some (String.ofList text)
  | _ => none

/-- The condition for a pseudo-class with arguments. -/
def functionalCondition? (name : String) (arguments : List String) : Option String :=
  if name == "nth-child" then countCondition? "preceding-sibling" arguments
  else if name == "nth-last-child" then countCondition? "following-sibling" arguments
  else some (name ++ "(." ++ String.join (arguments.map (", " ++ ·)) ++ ")")

/-- The body of the predicate for a simple selector. -/
def treeCondition? : ParseTree Rule → Option String
  | .node .idSel _ (name :: _) => some ("@id = " ++ quoteLiteral (textOf name))
  | .node .classSel _ (name :: _) => some (wordCondition "@class" (textOf name))
  | .node .attrib _ children => attributeCondition? children
  | .node .pseudo _ (.node .negation _ (.node _ _ (argument :: _) :: _) :: _) =>
    (treeCondition? argument).map fun body => "not(" ++ body ++ ")"
  | .node .pseudo _ (.node .barePseudo text _ :: _) => pseudoClassPath? (String.ofList text) none
  | .node .pseudo _ (.node .functionalPseudo _ (name :: arguments) :: _) => do
    let texts ← arguments.mapM pseudoArgument?
    functionalCondition? (textOf name) texts
  | .node .typeSel text _ => some ("self::" ++ String.ofList text)
  | _ => none

/-- The step for a compound, from the trees inside it, with what is known of the element and of the
predicates so far. -/
def treeStep? (element predicates : String) : List (ParseTree Rule) → Option String
  | [] => some (element ++ predicates)
  | .node .typeSel text _ :: others => treeStep? (String.ofList text) predicates others
  | .node .simple _ (condition :: _) :: others => do
    let body ← treeCondition? condition
    treeStep? element (predicates ++ "[" ++ body ++ "]") others
  | _ => none

/-- What stands in a path for a combinator. -/
def treeCombinator : List (ParseTree Rule) → String
  | .node (.combinatorSign meaning) _ _ :: _ => combinatorPath meaning
  | _ => "//"

/-- The path for a selector, from the trees inside it, behind what there is of the path. -/
def treePath? (path : String) : List (ParseTree Rule) → Option String
  | [] => some path
  | .node .compound _ parts :: others => do
    let step ← treeStep? "*" "" parts
    treePath? (path ++ step) others
  | .node .combinator _ parts :: others => treePath? (path ++ treeCombinator parts) others
  | _ => none

/-- Whether a tree is one of a selector, with the trees inside it. -/
def selectorParts? : ParseTree Rule → Option (List (ParseTree Rule))
  | .node .selector _ parts => some parts
  | _ => none

/-- The path behind a start for the alternatives in the tree of a whole text. -/
def translate? (start : String) : ParseTree Rule → Option String
  | .node _ _ children =>
    ((children.filterMap selectorParts?).mapM (treePath? start)).map (" | ".intercalate ·)

/-- A count of children, as digits alone: from one to the greatest number that a machine word holds. -/
structure IsCount (text : List Char) : Prop where
  digits : ∀ c ∈ text, c.isDigit = true
  least : 1 ≤ numberOf text
  greatest : numberOf text < UInt64.size

/-- The tree of a pseudo-class for counting children that is not given a count: it stands alone, or its
arguments are anything but one count without quotes. -/
inductive Miscounts : ParseTree Rule → Prop where
  | bare {text : List Char} {children : List (ParseTree Rule)}
      (counting : String.ofList text ∈ ["nth-child", "nth-last-child"]) :
      Miscounts (.node .barePseudo text children)
  | functional {text : List Char} {name : ParseTree Rule} {arguments : List (ParseTree Rule)}
      (counting : textOf name ∈ ["nth-child", "nth-last-child"])
      (uncounted : ∀ used digits parts, IsCount digits →
        arguments ≠ [.node .pseudoArg used [.node .number digits parts]]) :
      Miscounts (.node .functionalPseudo text (name :: arguments))

/-- A tree with a pseudo-class for counting, however deep, that is not given a count. -/
def Miscounted (tree : ParseTree Rule) : Prop :=
  ∃ part : ParseTree Rule, part.Within tree ∧ Miscounts part

end NodeQuery.Selector
