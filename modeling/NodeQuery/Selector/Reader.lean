import NodeQuery.Selector.Basic
import NodeQuery.Text.Reader

/-!
# Reading selectors

The grammar of selectors, one reader for each of its rules.  Blanks have a meaning here, so they
stand only where a rule has them.  A negation that does not hold one condition in its parentheses is
read as a pseudo-class of that name instead.
-/

namespace NodeQuery.Selector

open Text (Reader)
open Text.Reader

def isBlank (c : Char) : Bool := c == ' ' || c == '\t' || c == '\r' || c == '\n'

def blanks : Reader Unit := do
  let _ ← run isBlank

/-- The characters a name can start with, after a minus sign or none. -/
def isNameStart (c : Char) : Bool := c.isAlpha || c == '_' || decide (0x80 ≤ c.toNat)

def isNameChar (c : Char) : Bool :=
  c.isAlphanum || c == '_' || c == '-' || decide (0x80 ≤ c.toNat)

def name : Reader String := do
  let sign ← maybe (token "-")
  let taken ← run isNameChar
  guard (taken.head?.any isNameStart)
  pure (String.ofList (if sign.isSome then '-' :: taken else taken))

def quotedBy (quote : Char) : Reader String := do
  token quote.toString
  let content ← run (· != quote)
  token quote.toString
  pure (String.ofList content)

/-- A number: an optional minus sign, digits, and digits behind a point if there is one. -/
def numeral : Reader String := do
  let sign ← maybe (token "-")
  let whole ← run1 Char.isDigit
  let fraction ← maybe (do token "."; run1 Char.isDigit)
  let unsigned := match fraction with
    | none => whole
    | some digits => whole ++ '.' :: digits
  pure (String.ofList (if sign.isSome then '-' :: unsigned else unsigned))

def elementName : Reader ElementName :=
  (do token "*"; pure .any)
  <|> (do
    let exact ← name
    pure (.named exact))

def idCondition : Reader Condition := do
  token "#"
  let exact ← name
  pure (.id exact)

def classCondition : Reader Condition := do
  token "."
  let word ← name
  pure (.class_ word)

/-- The signs that say how attribute values are compared. -/
def attributeMatch : Reader AttributeMatch :=
  (do token "~="; pure .word)
  <|> (do token "^="; pure .start)
  <|> (do token "$="; pure .ending)
  <|> (do token "*="; pure .inside)
  <|> (do token "|="; pure .dashed)
  <|> (do token "="; pure .exact)

/-- The value that an attribute is compared with: a string without its quotes, a name or a
number. -/
def attributeValue : Reader String := quotedBy '"' <|> quotedBy '\'' <|> name <|> numeral

/-- A condition on any attribute. -/
def attributeCondition : Reader Condition := do
  token "["
  blanks
  let target ← name
  blanks
  let test ← maybe (do
    let comparison ← attributeMatch
    blanks
    let value ← attributeValue
    blanks
    pure (comparison, value))
  token "]"
  pure (.attribute target test)

/-- An argument of a pseudo-class. -/
def pseudoArgument : Reader PseudoArgument :=
  (do
    let content ← quotedBy '"'
    pure (.string '"' content))
  <|> (do
    let content ← quotedBy '\''
    pure (.string '\'' content))
  <|> (do
    let text ← numeral
    pure (.number text))

/-- Arguments with commas between them, be it none. -/
def pseudoArguments : Reader (List PseudoArgument) :=
  (do
    let first ← pseudoArgument
    let others ← many (do
      blanks
      token ","
      blanks
      pseudoArgument)
    pure (first :: others)) <|> pure []

/-- The word that begins a negation, in letters of either case. -/
def negationWord : Reader Unit := fun text =>
  if (text.take 3).map Char.toLower == "not".toList then some ((), text.drop 3) else none

/-- A pseudo-class: a negation, a name with arguments, or a name alone.  The condition inside a
negation is read by `condition`. -/
def pseudoCondition (condition : Reader Condition) : Reader Condition := do
  token ":"
  (do
    negationWord
    token "("
    blanks
    let inner ← condition
    blanks
    token ")"
    pure (.negation inner))
  <|> (do
    let exact ← name
    token "("
    blanks
    let arguments ← pseudoArguments
    blanks
    token ")"
    pure (.pseudoClass exact (some arguments)))
  <|> (do
    let exact ← name
    pure (.pseudoClass exact none))

/-- A condition in a compound, whose negations are nested less deep than a limit. -/
def simpleUpTo (negated : Reader Condition) : Reader Condition :=
  idCondition <|> classCondition <|> attributeCondition <|> pseudoCondition negated

/-- A condition in a negation, which may also be an element name. -/
def negatedUpTo : Nat → Reader Condition
  | 0 => fun _ => none
  | limit + 1 => fun text =>
    ((do
      let exact ← elementName
      pure (.elementName exact))
    <|> simpleUpTo (negatedUpTo limit)) text

/-- A condition in a compound.  Every negation takes a character, so negations nest less deep than
the text is long. -/
def simple : Reader Condition := fun text => simpleUpTo (negatedUpTo text.length) text

/-- An element name with conditions, or conditions alone. -/
def compound : Reader Compound :=
  (do
    let element ← elementName
    let conditions ← many simple
    pure ⟨some element, conditions⟩)
  <|> (do
    let first ← simple
    let others ← many simple
    pure ⟨none, first :: others⟩)

def combinatorSign (sign : String) (meaning : Combinator) : Reader Combinator := do
  blanks
  token sign
  blanks
  pure meaning

/-- A combinator; blanks alone are one too. -/
def combinator : Reader Combinator :=
  combinatorSign ">" .child
  <|> combinatorSign "+" .nextSibling
  <|> combinatorSign "~" .laterSibling
  <|> (do
    let _ ← run1 isBlank
    pure .descendant)

/-- A chain of compounds. -/
def chain : Reader Selector := do
  let first ← compound
  let others ← many (do
    let joined ← combinator
    let next ← compound
    pure (joined, next))
  pure ⟨first, others⟩

/-- Selectors with commas between them. -/
def group : Reader SelectorGroup := do
  blanks
  let first ← chain
  let others ← many (do
    blanks
    token ","
    blanks
    chain)
  blanks
  pure (first :: others)

/-- Read a text as alternative selectors; `none` if the grammar refuses it. -/
def parse? (text : String) : Option SelectorGroup := whole? group text

end NodeQuery.Selector
