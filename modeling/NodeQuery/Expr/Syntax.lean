import NodeQuery.Expr.Basic
import NodeQuery.Numeral.Decimal
import NodeQuery.Text.Peg

/-!
# The grammar of path expressions

The rules of path expressions as data, and expressions put together from the trees that the grammar
gives.  Putting together looks at the rules a tree is made of and refuses a tree of an unexpected shape.
-/

namespace NodeQuery.Expr

open Text (Grammar Peg RuleKind ParseTree)

/-- The rules of path expressions.  Keywords and signs are rules of their own, and so are the tests for
kinds of nodes, each with its word. -/
inductive Rule where
  | xpath
  | endOfInput
  | expr
  | orExpr
  | andExpr
  | equalityExpr
  | relationalExpr
  | additiveExpr
  | multiplicativeExpr
  | unaryExpr
  | unionExpr
  | equalityOp
  | relationalOp
  | additiveOp
  | multiplicativeOp
  | pathExpr
  | absolutePath
  | filterPath
  | relativePath
  | pathSep
  | step
  | abbrevStep
  | axisStep
  | axisSpec
  | axisName
  | nodeTest
  | kindTest
  | wordTest (word : String)
  | nameTest
  | wildcard
  | prefixWildcard
  | predicate
  | filterExpr
  | primaryExpr
  | parenExpr
  | varRef
  | functionCall
  | stringLiteral
  | quotedInner (quote : String)
  | number
  | qname
  | ncname
  | nameStart
  | nameChar
  | kindName
  | keyword (word : String)
  | sign (text : String)
deriving DecidableEq

namespace Rule

/-- Names, keywords and what is between quotes are atomic; the rules around them keep blanks out too. -/
def kind : Rule → RuleKind
  | .nameStart | .nameChar => .silent
  | .prefixWildcard | .varRef | .stringLiteral => .compound
  | .axisName | .quotedInner _ | .number | .qname | .ncname | .kindName | .keyword _ => .atomic
  | _ => .normal

def wide : Peg Rule := .character fun c => decide (0x80 ≤ c.toNat)

def digit : Peg Rule := .character Char.isDigit

/-- Operands of one rule with operators between them. -/
def chain (operand : Rule) (operator : Peg Rule) : Peg Rule :=
  .seq (.rule operand) (.many (.seq operator (.rule operand)))

def between (quote : String) : Peg Rule :=
  .seq (.text quote) (.seq (.rule (.quotedInner quote)) (.text quote))

/-- The body of a rule. -/
def body : Rule → Peg Rule
  | .xpath => .seq .start (.seq (.rule .expr) (.rule .endOfInput))
  | .endOfInput => .finish
  | .expr => .rule .orExpr
  | .orExpr => chain .andExpr (.rule (.keyword "or"))
  | .andExpr => chain .equalityExpr (.rule (.keyword "and"))
  | .equalityExpr => chain .relationalExpr (.rule .equalityOp)
  | .relationalExpr => chain .additiveExpr (.rule .relationalOp)
  | .additiveExpr => chain .multiplicativeExpr (.rule .additiveOp)
  | .multiplicativeExpr => chain .unaryExpr (.rule .multiplicativeOp)
  | .unaryExpr => .seq (.many (.rule (.sign "-"))) (.rule .unionExpr)
  | .unionExpr => chain .pathExpr (.rule (.sign "|"))
  | .equalityOp => .choice (.rule (.sign "=")) (.rule (.sign "!="))
  | .relationalOp =>
    .choice (.rule (.sign "<=")) (.choice (.rule (.sign ">="))
      (.choice (.rule (.sign "<")) (.rule (.sign ">"))))
  | .additiveOp => .choice (.rule (.sign "+")) (.rule (.sign "-"))
  | .multiplicativeOp =>
    .choice (.rule (.sign "*")) (.choice (.rule (.keyword "div")) (.rule (.keyword "mod")))
  | .pathExpr => .choice (.rule .absolutePath) (.choice (.rule .filterPath) (.rule .relativePath))
  | .absolutePath =>
    .choice (.seq (.rule (.sign "//")) (.rule .relativePath))
      (.seq (.rule (.sign "/")) (.optional (.rule .relativePath)))
  | .filterPath =>
    .seq (.rule .filterExpr) (.optional (.seq (.rule .pathSep) (.rule .relativePath)))
  | .relativePath => chain .step (.rule .pathSep)
  | .pathSep => .choice (.rule (.sign "//")) (.rule (.sign "/"))
  | .step => .choice (.rule .abbrevStep) (.seq (.rule .axisStep) (.many (.rule .predicate)))
  | .abbrevStep => .choice (.rule (.sign "..")) (.rule (.sign "."))
  | .axisStep =>
    .choice (.seq (.rule .axisSpec) (.rule .nodeTest))
      (.choice (.seq (.rule (.sign "@")) (.rule .nodeTest)) (.rule .nodeTest))
  | .axisSpec => .seq (.rule .axisName) (.text "::")
  | .axisName =>
    .seq (.words "ancestor-or-self" ["ancestor", "attribute", "child", "descendant-or-self",
      "descendant", "following-sibling", "following", "parent", "preceding-sibling", "preceding",
      "self"]) (.absent (.rule .nameChar))
  | .nodeTest => .choice (.rule .kindTest) (.rule .nameTest)
  | .kindTest =>
    .choice (.rule (.wordTest "node"))
      (.choice (.rule (.wordTest "text")) (.rule (.wordTest "comment")))
  | .wordTest word => .seq (.rule (.keyword word)) (.seq (.text "(") (.text ")"))
  | .nameTest => .choice (.rule .wildcard) (.choice (.rule .prefixWildcard) (.rule .qname))
  | .wildcard => .text "*"
  | .prefixWildcard => .seq (.rule .ncname) (.text ":*")
  | .predicate => .seq (.text "[") (.seq (.rule .expr) (.text "]"))
  | .filterExpr => .seq (.rule .primaryExpr) (.many (.rule .predicate))
  | .primaryExpr =>
    .choice (.rule .varRef) (.choice (.rule .parenExpr) (.choice (.rule .stringLiteral)
      (.choice (.rule .number) (.rule .functionCall))))
  | .parenExpr => .seq (.text "(") (.seq (.rule .expr) (.text ")"))
  | .varRef => .seq (.text "$") (.rule .qname)
  | .functionCall =>
    .seq (.absent (.seq (.rule .kindName) (.text "("))) (.seq (.rule .qname) (.seq (.text "(")
      (.seq (.optional (.seq (.rule .expr) (.many (.seq (.text ",") (.rule .expr)))))
        (.text ")"))))
  | .stringLiteral => .choice (between "\"") (between "'")
  | .quotedInner quote => .many (.seq (.absent (.text quote)) (.character fun _ => true))
  | .number =>
    .choice (.seq (.seq digit (.many digit)) (.optional (.seq (.text ".") (.many digit))))
      (.seq (.text ".") (.seq digit (.many digit)))
  | .qname => .seq (.rule .ncname) (.optional (.seq (.text ":") (.rule .ncname)))
  | .ncname => .seq (.rule .nameStart) (.many (.rule .nameChar))
  | .nameStart => .choice (.character Char.isAlpha) (.choice (.text "_") wide)
  | .nameChar =>
    .choice (.character Char.isAlphanum) (.choice (.text "_") (.choice (.text "-")
      (.choice (.text ".") wide)))
  | .kindName =>
    .seq (.words "node" ["text", "comment", "processing-instruction"]) (.absent (.rule .nameChar))
  | .keyword word => .seq (.text word) (.absent (.rule .nameChar))
  | .sign text => .text text

end Rule

def grammar : Grammar Rule where
  body := Rule.body
  kind := Rule.kind
  isBlank c := c == ' ' || c == '\t' || c == '\r' || c == '\n'

/-- The rule at the end of the first branches of a tree. -/
def firstToken : ParseTree Rule → Rule
  | .node rule _ [] => rule
  | .node _ _ (first :: _) => firstToken first

/-- What an operator makes of two operands. -/
def combine? : Rule → Option (Expr → Expr → Expr)
  | .keyword "or" => some (.connective .or)
  | .keyword "and" => some (.connective .and)
  | .sign "+" => some (.arithmetic .add)
  | .sign "-" => some (.arithmetic .sub)
  | .sign "*" => some (.arithmetic .mul)
  | .keyword "div" => some (.arithmetic .div)
  | .keyword "mod" => some (.arithmetic .mod)
  | .sign "=" => some (.comparison .eq)
  | .sign "!=" => some (.comparison .ne)
  | .sign "<" => some (.comparison .lt)
  | .sign "<=" => some (.comparison .le)
  | .sign ">" => some (.comparison .gt)
  | .sign ">=" => some (.comparison .ge)
  | _ => none

def slashSteps (separator : ParseTree Rule) : List Step :=
  if firstToken separator = .sign "//" then [Step.descendantOrSelf] else []

/-- A node test, from the tree of one. -/
def buildNodeTest? : ParseTree Rule → Option NodeTest
  | .node _ _ (.node _ _ (.node rule text children :: _) :: _) =>
    match rule, children with
    | .wordTest "node", _ => some .node
    | .wordTest "text", _ => some .text
    | .wordTest "comment", _ => some .comment
    | .wildcard, _ => some .anyName
    | .prefixWildcard, first :: _ => some (.anyNameWithPrefix (String.ofList first.text))
    | .qname, _ => some (.named (String.ofList text))
    | _, _ => none
  | _ => none

/-- The axis and the node test of a step, from the trees inside its axis step.  The axis is the one
given last, and so is the test. -/
def buildAxisAndTest? (axis : Axis) (test : Option NodeTest) : List (ParseTree Rule) → Option (Axis × NodeTest)
  | [] => test.map fun given => (axis, given)
  | .node .axisSpec _ (name :: _) :: rest => do
    let named ← Axis.ofName? (String.ofList name.text)
    buildAxisAndTest? named test rest
  | .node (.sign "@") _ _ :: rest => buildAxisAndTest? .attribute test rest
  | .node .nodeTest text children :: rest => do
    let given ← buildNodeTest? (.node .nodeTest text children)
    buildAxisAndTest? axis (some given) rest
  | _ => none

mutual

/-- An expression, from the tree of a rule for expressions. -/
def build? : ParseTree Rule → Option Expr
  | .node .expr _ children | .node .parenExpr _ children | .node .predicate _ children
  | .node .primaryExpr _ children | .node .pathExpr _ children => buildFirst? children
  | .node .orExpr _ (first :: others) | .node .andExpr _ (first :: others)
  | .node .equalityExpr _ (first :: others) | .node .relationalExpr _ (first :: others)
  | .node .additiveExpr _ (first :: others) | .node .multiplicativeExpr _ (first :: others) => do
    let left ← build? first
    buildChain? left others
  | .node .unaryExpr _ children => buildSigned? none 0 children
  | .node .unionExpr _ children => buildUnion? none children
  | .node .absolutePath _ children => do
    let steps ← buildRooted? children
    pure (.rootPath steps)
  | .node .relativePath _ children => do
    let steps ← buildSteps? children
    match steps with
    | [only] => if only.isSelf then pure .focus else pure (.focusPath steps)
    | _ => pure (.focusPath steps)
  | .node .filterPath _ [primary] => build? primary
  | .node .filterPath _ (primary :: separator :: .node _ _ path :: _) => do
    let start ← build? primary
    let steps ← buildSteps? path
    pure (.exprPath start (slashSteps separator ++ steps))
  | .node .filterExpr _ (primary :: others) => do
    let inner ← build? primary
    let predicates ← buildAll? others
    match predicates with
    | [] => pure inner
    | _ => pure (.filter inner predicates)
  | .node .varRef _ (name :: _) => some (.var (String.ofList name.text))
  | .node .functionCall _ (name :: arguments) => do
    let values ← buildAll? arguments
    pure (.call (String.ofList name.text) values)
  | .node .stringLiteral _ children =>
    some (.string (((children.head?).map fun inner => String.ofList inner.text).getD ""))
  | .node .number text _ => (Numeral.Decimal.ofChars? text).map fun decimal => .number decimal.toFloat
  | _ => none

def buildFirst? : List (ParseTree Rule) → Option Expr
  | [] => none
  | first :: _ => build? first

def buildAll? : List (ParseTree Rule) → Option (List Expr)
  | [] => some []
  | first :: others => do
    let value ← build? first
    let values ← buildAll? others
    pure (value :: values)

/-- Operators and operands on top of what is left of them. -/
def buildChain? (left : Expr) : List (ParseTree Rule) → Option Expr
  | [] => some left
  | operator :: operand :: others => do
    let right ← build? operand
    let combine ← combine? (firstToken operator)
    buildChain? (combine left right) others
  | [_] => none

/-- An operand with the minus signs in front of it. -/
def buildSigned? (operand : Option Expr) (signs : Nat) : List (ParseTree Rule) → Option Expr
  | [] => operand.map (Nat.repeat .negate signs)
  | .node (.sign "-") _ _ :: others => buildSigned? operand (signs + 1) others
  | other :: others => buildSigned? (build? other) signs others

/-- The paths among some trees, as a union of them; the bars between them are passed over. -/
def buildUnion? (left : Option Expr) : List (ParseTree Rule) → Option Expr
  | [] => left
  | .node (.sign "|") _ _ :: others => buildUnion? left others
  | path :: others => do
    let right ← build? path
    buildUnion? (some (left.elim right fun given => .union given right)) others

/-- The steps of a path from the root. -/
def buildRooted? : List (ParseTree Rule) → Option (List Step)
  | [] => some []
  | .node (.sign "//") _ _ :: others => do
    let steps ← buildRooted? others
    pure (Step.descendantOrSelf :: steps)
  | .node .relativePath _ path :: others => do
    let first ← buildSteps? path
    let steps ← buildRooted? others
    pure (first ++ steps)
  | _ :: others => buildRooted? others

/-- Steps and the slashes between them. -/
def buildSteps? : List (ParseTree Rule) → Option (List Step)
  | [] => some []
  | .node .step _ parts :: others => do
    let first ← buildStep? parts
    let steps ← buildSteps? others
    pure (first :: steps)
  | .node .pathSep text parts :: others => do
    let steps ← buildSteps? others
    pure (slashSteps (.node .pathSep text parts) ++ steps)
  | _ => none

/-- One step, from the trees inside it. -/
def buildStep? : List (ParseTree Rule) → Option Step
  | [] => none
  | .node .abbrevStep text parts :: _ =>
    if firstToken (.node .abbrevStep text parts) = .sign ".." then some (.mk .parent .node [])
    else some (.mk .self .node [])
  | .node _ _ parts :: others => do
    let (axis, test) ← buildAxisAndTest? .child none parts
    let predicates ← buildAll? others
    pure (.mk axis test predicates)

end

attribute [simp] build? buildFirst? buildAll? buildChain? buildSigned? buildUnion? buildRooted? buildSteps?
  buildStep?

/-- Why a tree of a whole text is no expression. -/
inductive Unbuilt where
  | emptyExpression
  | unsupportedExpression

def ofTree : ParseTree Rule → Except Unbuilt Expr
  | .node _ _ [] => .error .emptyExpression
  | .node _ _ (inner :: _) =>
    match build? inner with
    | none => .error .unsupportedExpression
    | some value => .ok value

end NodeQuery.Expr
