import NodeQuery.Expr.Reader
import NodeQuery.Program.Run
import NodeQuery.Selector.Reader
import NodeQuery.Selector.Path

/-!
# Queries

The ways to put a query to a forest: as a path expression, as a program compiled from one earlier,
and as a selector.
-/

namespace NodeQuery

def Program.compile (expression : String) : Except Error Program :=
  match Expr.parse? expression with
  | none => .error (.malformedExpression expression)
  | some parsed => .ok { code := parsed.code, expression := expression }

namespace Query

variable {σ : Type}

def evaluate (forest : Forest) (expression : String) (context : Context σ) : Evaluation σ Value :=
  match Program.compile expression with
  | .error error => throw error
  | .ok program => program.run forest context

/-- Evaluate a path expression at a node with the core functions and no variables. -/
def evaluateAt (forest : Forest) (expression : String) (node : Option NodeId)
    (handler : Option (Handler σ)) : Evaluation σ Value :=
  evaluate forest expression { node := node, handler := handler }

/-- The path expression for a selector behind a start. -/
def selectorPath (start selector : String) : Except Error String :=
  match Selector.parse? selector with
  | none => .error (.refusedSelector selector .malformed)
  | some group =>
    match Selector.groupPath? start group with
    | none => .error (.refusedSelector selector .unsupported)
    | some path => .ok path

/-- The path expression for the elements that match a selector anywhere in a document. -/
def pathOfSelector (selector : String) : Except Error String := selectorPath "//" selector

/-- The elements below a node that match a selector. -/
def select (forest : Forest) (selector : String) (node : NodeId) (handler : Option (Handler σ)) :
    Evaluation σ NodeSet :=
  match selectorPath ".//" selector with
  | .error error => throw error
  | .ok path => do
    let value ← evaluateAt forest path (some node) handler
    match value with
    | .nodeSet set => pure set
    | other => throw (.type (.selection selector other.kind))

end Query

end NodeQuery
