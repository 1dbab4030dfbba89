import NodeQuery.Evaluation
import NodeQuery.Program.Basic

/-!
# Running programs

A program runs once from its first instruction to its end.  Jumps go forward only, so a run follows
the list of instructions: after a jump, as many instructions are passed over as it says.
-/

namespace NodeQuery

namespace Program

open Evaluation

variable {σ : Type}

abbrev Stack := List Value

def pop : Stack → Evaluation σ (Value × Stack)
  | [] => throw (.type .emptyStack)
  | value :: rest => pure (value, rest)

/-- Take the uppermost values, as many as a call has arguments, in the order they were put there. -/
def popArguments (count : Nat) (stack : Stack) : Evaluation σ (List Value × Stack) :=
  if stack.length < count then throw (.type .emptyStack)
  else pure ((stack.take count).reverse, stack.drop count)

def topIsTrue (stack : Stack) : Bool := stack.head?.any Value.toBoolean

/-- What one instruction does to the stack, and how many of the instructions behind it are passed
over.  Which nodes the predicates of the instruction keep is asked of `kept`. -/
def execute (forest : Forest) (context : Context σ) (focus : Focus)
    (kept : List NodeId → Evaluation σ (List NodeId)) :
    Instr → Stack → Evaluation σ (Nat × Stack)
  | .number amount, stack => pure (0, .number amount :: stack)
  | .string text, stack => pure (0, .string text :: stack)
  | .var name, stack => do
    let value ← variableValue context name
    pure (0, value :: stack)
  | .focus, stack => pure (0, focusValue forest focus :: stack)
  | .root, stack => do
    let (value, stack) ← pop stack
    let roots ← rootsOf forest value
    pure (0, roots :: stack)
  | .step axis test _, stack => do
    let (value, stack) ← pop stack
    let nodes ← requireNodes .step value
    let found ← collect (fun id => kept (candidates forest axis test id)) nodes
    pure (0, .nodeSet (NodeSet.inDocumentOrder forest found) :: stack)
  | .filter _, stack => do
    let (value, stack) ← pop stack
    let nodes ← requireNodes .predicate value
    let found ← kept nodes
    pure (0, .nodeSet (NodeSet.inDocumentOrder forest found) :: stack)
  | .arithmetic operator, stack => do
    let (right, stack) ← pop stack
    let (left, stack) ← pop stack
    pure (0, .number (operator.apply (left.toNumber forest) (right.toNumber forest)) :: stack)
  | .negate, stack => do
    let (operand, stack) ← pop stack
    pure (0, .number (-operand.toNumber forest) :: stack)
  | .toBoolean, stack => do
    let (value, stack) ← pop stack
    pure (0, .boolean value.toBoolean :: stack)
  | .jumpIfFalse skip, stack => pure (if topIsTrue stack then 0 else skip, stack)
  | .jumpIfTrue skip, stack => pure (if topIsTrue stack then skip else 0, stack)
  | .pop, stack => do
    let (_, stack) ← pop stack
    pure (0, stack)
  | .comparison operator, stack => do
    let (right, stack) ← pop stack
    let (left, stack) ← pop stack
    pure (0, .boolean (operator.holds forest left right) :: stack)
  | .union, stack => do
    let (right, stack) ← pop stack
    let second ← requireNodes .union right
    let (left, stack) ← pop stack
    let first ← requireNodes .union left
    pure (0, .nodeSet (NodeSet.inDocumentOrder forest (first ++ second)) :: stack)
  | .call function count, stack => do
    let (arguments, stack) ← popArguments count stack
    let value ← call forest context focus function arguments
    pure (0, value :: stack)

mutual

/-- Pass over `skip` instructions and run the others on a stack. -/
def runFrom (forest : Forest) (context : Context σ) (focus : Focus) :
    List Instr → Nat → Stack → Evaluation σ Value
  | [], _, stack => do
    let (value, _) ← pop stack
    pure value
  | _ :: code, skip + 1, stack => runFrom forest context focus code skip stack
  | instr :: code, 0, stack => do
    let (skip, stack) ← execute forest context focus (keptBy forest context instr) instr stack
    runFrom forest context focus code skip stack

/-- The nodes that pass the predicates of an instruction; without predicates all do. -/
def keptBy (forest : Forest) (context : Context σ) :
    Instr → List NodeId → Evaluation σ (List NodeId)
  | .step _ _ predicates, nodes => survivors forest context predicates nodes
  | .filter predicates, nodes => survivors forest context predicates nodes
  | _, nodes => pure nodes

/-- The nodes that pass all predicates; each predicate counts positions among those that the ones
before it have kept. -/
def survivors (forest : Forest) (context : Context σ) :
    List Predicate → List NodeId → Evaluation σ (List NodeId)
  | [], nodes => pure nodes
  | .mk code calledFunction :: predicates, nodes => do
    let kept ← keepWhere (fun focus => do
      let result ← runFrom forest context focus code 0 []
      pure (keeps context calledFunction result focus.position)) nodes.length 1 nodes
    survivors forest context predicates kept

end

def run (program : Program) (forest : Forest) (context : Context σ) : Evaluation σ Value := do
  let value ← runFrom forest context context.focus program.code 0 []
  pure (value.decorate forest (context.document? forest))

end Program

end NodeQuery
