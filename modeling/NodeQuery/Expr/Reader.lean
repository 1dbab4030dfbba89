import NodeQuery.Expr.Basic
import NodeQuery.Text.Reader

/-!
# Reading expressions

The grammar of path expressions, one reader for each of its rules.  Rules are ordered choices, and
blanks may stand between the parts of a rule but not inside names, numbers and strings.  Operators
bind, from loosest to tightest: `or`, `and`, equality, order, sums, products, minus signs, `|`.

An expression inside brackets is read by a reader that is passed in, so every rule is a plain
definition; the knot is tied at the end, with a limit on the depth of brackets that no text can
reach.
-/

namespace NodeQuery.Expr

open Text (Reader)
open Text.Reader

/-- Blanks between the parts of an expression. -/
def isBlank (c : Char) : Bool := c == ' ' || c == '\t' || c == '\r' || c == '\n'

def blanks : Reader Unit := do
  let _ ← run isBlank

/-- The characters a name can start with: ASCII letters, the underscore, and all that is not
ASCII. -/
def isNameStart (c : Char) : Bool := c.isAlpha || c == '_' || decide (0x80 ≤ c.toNat)

def isNameChar (c : Char) : Bool :=
  c.isAlphanum || c == '_' || c == '-' || c == '.' || decide (0x80 ≤ c.toNat)

/-- A name without a colon. -/
def simpleName : Reader (List Char) := do
  let taken ← run isNameChar
  guard (taken.head?.any isNameStart)
  pure taken

def name : Reader String := do
  let first ← simpleName
  let second ← maybe (do token ":"; simpleName)
  match second with
  | none => pure (String.ofList first)
  | some rest => pure (String.ofList (first ++ ':' :: rest))

/-- A word that is not the beginning of a longer name. -/
def keyword (word : String) : Reader Unit := do
  let taken ← run isNameChar
  guard (taken == word.toList)

def quotedBy (quote : Char) : Reader String := do
  token quote.toString
  let content ← run (· != quote)
  token quote.toString
  pure (String.ofList content)

/-- A string in double or single quotes, which hold any other characters as they are. -/
def quoted : Reader String := quotedBy '"' <|> quotedBy '\''

/-- Digits with a point after, among or before them. -/
def numeralText : Reader (List Char) :=
  (do
    let whole ← run1 Char.isDigit
    let fraction ← maybe (do token "."; run Char.isDigit)
    match fraction with
    | none => pure whole
    | some digits => pure (whole ++ '.' :: digits))
  <|> (do
    token "."
    let digits ← run1 Char.isDigit
    pure ('.' :: digits))

def numeral : Reader Float := do
  let text ← numeralText
  match Numeral.Decimal.ofChars? text with
  | none => failure
  | some decimal => pure decimal.toFloat

/-- Read items with blanks between them while there are any. -/
def spaced {α : Type} (item : Reader α) : Reader (List α) :=
  (do
    let first ← item
    let others ← many (do blanks; item)
    pure (first :: others)) <|> pure []

def afterComma {α : Type} (item : Reader α) : Reader α := do
  token ","
  blanks
  item

/-- Read items with commas between them, at least one. -/
def commaSeparated {α : Type} (item : Reader α) : Reader (List α) := do
  let first ← item
  blanks
  let others ← spaced (afterComma item)
  pure (first :: others)

/-- An operator, as what it makes of its two operands. -/
abbrev Operator := Expr → Expr → Expr

def operation (operand : Reader Expr) (operator : Reader Operator) : Reader (Operator × Expr) := do
  let combine ← operator
  blanks
  let next ← operand
  pure (combine, next)

/-- Operands with operators between them, grouped from the left. -/
def leftGrouped (operand : Reader Expr) (operator : Reader Operator) : Reader Expr := do
  let first ← operand
  blanks
  let others ← spaced (operation operand operator)
  pure (others.foldl (fun left (combine, right) => combine left right) first)

def unionOperator : Reader Operator := do token "|"; pure .union

def productOperator : Reader Operator :=
  (do token "*"; pure (.arithmetic .mul))
  <|> (do keyword "div"; pure (.arithmetic .div))
  <|> (do keyword "mod"; pure (.arithmetic .mod))

def sumOperator : Reader Operator :=
  (do token "+"; pure (.arithmetic .add)) <|> (do token "-"; pure (.arithmetic .sub))

def orderOperator : Reader Operator :=
  (do token "<="; pure (.comparison .le))
  <|> (do token ">="; pure (.comparison .ge))
  <|> (do token "<"; pure (.comparison .lt))
  <|> (do token ">"; pure (.comparison .gt))

def equalityOperator : Reader Operator :=
  (do token "="; pure (.comparison .eq)) <|> (do token "!="; pure (.comparison .ne))

def andOperator : Reader Operator := do keyword "and"; pure (.connective .and)

def orOperator : Reader Operator := do keyword "or"; pure (.connective .or)

def axisName : Reader Axis := do
  let taken ← run isNameChar
  match Axis.ofName? (String.ofList taken) with
  | none => failure
  | some axis => pure axis

/-- A word and an empty pair of parentheses. -/
def wordTest (word : String) (meaning : NodeTest) : Reader NodeTest := do
  keyword word
  blanks
  token "("
  blanks
  token ")"
  pure meaning

def kindTest : Reader NodeTest :=
  wordTest "node" .node <|> wordTest "text" .text <|> wordTest "comment" .comment

/-- A test for a name: any name, any name with a prefix, or one name. -/
def nameTest : Reader NodeTest :=
  (do token "*"; pure .anyName)
  <|> (do
    let first ← simpleName
    token ":*"
    pure (.anyNameWithPrefix (String.ofList first)))
  <|> (do
    let exact ← name
    pure (.named exact))

def nodeTest : Reader NodeTest := kindTest <|> nameTest

/-- An axis and a node test.  An `@` stands for the attribute axis, nothing for the child axis. -/
def axisAndTest : Reader (Axis × NodeTest) :=
  (do
    let axis ← axisName
    blanks
    token "::"
    blanks
    let test ← nodeTest
    pure (axis, test))
  <|> (do
    token "@"
    blanks
    let test ← nodeTest
    pure (.attribute, test))
  <|> (do
    let test ← nodeTest
    pure (.child, test))

/-- The steps that two dots and one dot stand for. -/
def dotStep : Reader Step :=
  (do token ".."; pure (.mk .parent .node []))
  <|> (do token "."; pure (.mk .self .node []))

/-- What stands between two steps, as the steps it stands for: two slashes stand for a step of their
own. -/
def separator : Reader (List Step) :=
  (do token "//"; pure [Step.descendantOrSelf])
  <|> (do token "/"; pure [])

section
variable (expr : Reader Expr)

/-!
## Rules with an expression inside

An expression may stand inside brackets of any depth, so these readers are given the reader for it.
-/

/-- A predicate in square brackets. -/
def predicate : Reader Expr := do
  token "["
  blanks
  let inner ← expr
  blanks
  token "]"
  pure inner

def step : Reader Step :=
  dotStep <|> (do
    let (axis, test) ← axisAndTest
    blanks
    let predicates ← spaced (predicate expr)
    pure (.mk axis test predicates))

def nextStep : Reader (List Step) := do
  let between ← separator
  blanks
  let next ← step expr
  pure (between ++ [next])

def steps : Reader (List Step) := do
  let first ← step expr
  blanks
  let others ← spaced (nextStep expr)
  pure (first :: others.flatten)

/-- A path from the root.  A slash alone is a path too. -/
def rootedPath : Reader Expr :=
  (do
    token "//"
    blanks
    let rest ← steps expr
    pure (.rootPath (.descendantOrSelf :: rest)))
  <|> (do
    token "/"
    blanks
    let rest ← maybe (steps expr)
    pure (.rootPath (rest.getD [])))

/-- A path from the node in focus; a dot alone is that node. -/
def relativePath : Reader Expr := do
  let taken ← steps expr
  match taken with
  | [only] => if only.isSelf then pure .focus else pure (.focusPath taken)
  | _ => pure (.focusPath taken)

/-- Words that stand for tests where a parenthesis follows, and so call no function. -/
def testWord : Reader Unit :=
  keyword "node" <|> keyword "text" <|> keyword "comment" <|> keyword "processing-instruction"

/-- A function call. -/
def functionCall : Reader Expr := do
  absent (do testWord; blanks; token "(")
  blanks
  let function ← name
  blanks
  token "("
  blanks
  let arguments ← maybe (commaSeparated expr)
  blanks
  token ")"
  pure (.call function (arguments.getD []))

/-- An expression that does not start as a path: a variable, an expression in parentheses, a string,
a number or a function call. -/
def primary : Reader Expr :=
  (do
    token "$"
    let bound ← name
    pure (.var bound))
  <|> (do
    token "("
    blanks
    let inner ← expr
    blanks
    token ")"
    pure inner)
  <|> (do
    let content ← quoted
    pure (.string content))
  <|> (do
    let amount ← numeral
    pure (.number amount))
  <|> functionCall expr

/-- A primary expression with its predicates. -/
def filtered : Reader Expr := do
  let inner ← primary expr
  blanks
  let predicates ← spaced (predicate expr)
  match predicates with
  | [] => pure inner
  | _ => pure (.filter inner predicates)

/-- Steps and the slashes before them. -/
def nextSteps : Reader (List Step) := do
  let between ← separator
  blanks
  let taken ← steps expr
  pure (between ++ taken)

/-- A filtered expression, and steps from it if a slash follows. -/
def filterPath : Reader Expr := do
  let start ← filtered expr
  blanks
  let rest ← maybe (nextSteps expr)
  match rest with
  | none => pure start
  | some taken => pure (.exprPath start taken)

def path : Reader Expr := rootedPath expr <|> filterPath expr <|> relativePath expr

def unionLevel : Reader Expr := leftGrouped (path expr) unionOperator

/-- Any number of minus signs before a union. -/
def unaryLevel : Reader Expr := do
  let signs ← spaced (token "-")
  blanks
  let operand ← unionLevel expr
  pure (signs.foldl (fun inner _ => .negate inner) operand)

def productLevel : Reader Expr := leftGrouped (unaryLevel expr) productOperator

def sumLevel : Reader Expr := leftGrouped (productLevel expr) sumOperator

def orderLevel : Reader Expr := leftGrouped (sumLevel expr) orderOperator

def equalityLevel : Reader Expr := leftGrouped (orderLevel expr) equalityOperator

def andLevel : Reader Expr := leftGrouped (equalityLevel expr) andOperator

def orLevel : Reader Expr := leftGrouped (andLevel expr) orOperator

end

/-- An expression whose brackets are nested less deep than a limit. -/
def exprUpTo : Nat → Reader Expr
  | 0 => fun _ => none
  | limit + 1 => fun text => orLevel (exprUpTo limit) text

/-- An expression.  Every bracket takes a character, so brackets nest less deep than the text is
long. -/
def expr : Reader Expr := fun text => exprUpTo (text.length + 1) text

/-- Read a text as an expression; `none` if the grammar refuses it. -/
def parse? (text : String) : Option Expr :=
  whole? (do
    blanks
    let parsed ← expr
    blanks
    pure parsed) text

end NodeQuery.Expr
