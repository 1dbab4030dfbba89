import NodeQuery.Expr.Basic

/-!
# Programs

An expression is turned into a program for a stack of values.  An instruction takes its operands
off the stack and leaves its result there; predicates are programs of their own inside the
instruction that filters by them.  A jump leaves the value it looks at where it is.
-/

namespace NodeQuery

mutual

/-- An instruction. -/
inductive Instr where
  | number (amount : Float)
  | string (text : String)
  | var (name : String)
  | focus
  | root
  | step (axis : Axis) (test : NodeTest) (predicates : List Predicate)
  | filter (predicates : List Predicate)
  | arithmetic (operator : Arithmetic)
  | negate
  | toBoolean
  | jumpIfFalse (skip : Nat)
  | jumpIfTrue (skip : Nat)
  | pop
  | comparison (operator : Comparison)
  | union
  | call (function : String) (count : Nat)

/-- A predicate: its program, and the function it is a call of if it is nothing but a call. -/
inductive Predicate where
  | mk (code : List Instr) (calledFunction : Option String)

end

/-- A compiled expression with the text it was compiled from. -/
structure Program where
  code : List Instr
  expression : String

/-- The jump of a connective, taken if the truth on top of the stack decides the whole. -/
def Connective.jump : Connective → Nat → Instr
  | .and, skip => .jumpIfFalse skip
  | .or, skip => .jumpIfTrue skip

namespace Expr

mutual

/-- The instructions that leave the value of an expression on the stack. -/
def code : Expr → List Instr
  | .number amount => [.number amount]
  | .string text => [.string text]
  | .var name => [.var name]
  | .focus => [.focus]
  | .call function arguments => codeOfAll arguments ++ [.call function arguments.length]
  | .arithmetic operator left right => code left ++ code right ++ [.arithmetic operator]
  | .connective operator left right =>
    code left ++ [.toBoolean, operator.jump ((code right).length + 2), .pop] ++ code right ++
      [.toBoolean]
  | .comparison operator left right => code left ++ code right ++ [.comparison operator]
  | .negate operand => code operand ++ [.negate]
  | .union left right => code left ++ code right ++ [.union]
  | .rootPath steps => [.focus, .root] ++ codeOfSteps steps
  | .focusPath steps => .focus :: codeOfSteps steps
  | .exprPath start steps => code start ++ codeOfSteps steps
  | .filter primary predicates => code primary ++ [.filter (compilePredicates predicates)]

def codeOfAll : List Expr → List Instr
  | [] => []
  | first :: others => code first ++ codeOfAll others

def codeOfSteps : List Step → List Instr
  | [] => []
  | .mk axis test predicates :: steps =>
    .step axis test (compilePredicates predicates) :: codeOfSteps steps

/-- Each predicate as a program of its own. -/
def compilePredicates : List Expr → List Predicate
  | [] => []
  | first :: others => .mk (code first) first.calledFunction? :: compilePredicates others

end

end Expr

end NodeQuery
