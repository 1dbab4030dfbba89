import NodeQuery.Handler
import NodeQuery.Function.Core

/-!
# Evaluation

What every evaluation needs besides the expression, and the steps that evaluating an expression and
running its program have in common: calling a function, collecting the nodes of a step, and deciding
whether a predicate keeps a node.
-/

namespace NodeQuery

/-- What an expression is evaluated with: the node it starts from, the variables with their values,
the functions, and the handler for functions that no registration names. -/
structure Context (σ : Type) where
  node : Option NodeId := none
  bindings : List (String × Value) := []
  functions : Registry := Registry.core
  handler : Option (Handler σ) := none

namespace Context

variable {σ : Type}

/-- Bind a variable; the latest binding of a name counts. -/
def bind (context : Context σ) (name : String) (value : Value) : Context σ :=
  { context with bindings := (name, value) :: context.bindings }

/-- The document that stands in where nodes cannot tell theirs: that of the starting node. -/
def document? (context : Context σ) (forest : Forest) : Option DocumentId :=
  context.node.bind forest.document?

def focus (context : Context σ) : Focus := { node := context.node }

def binding? (context : Context σ) (name : String) : Option Value := context.bindings.lookup name

def withHandler {τ : Type} (context : Context σ) (handler : Option (Handler τ)) : Context τ where
  node := context.node
  bindings := context.bindings
  functions := context.functions
  handler := handler

/-- The context whose handler also writes down every call made to it, the latest first. -/
def recording (context : Context σ) : Context (σ × List Handler.Call) :=
  context.withHandler (context.handler.map Handler.recording)

/-- The context whose handler carries something along beside its state. -/
def beside (context : Context σ) (τ : Type) : Context (σ × τ) :=
  context.withHandler (context.handler.map (Handler.beside τ))

end Context

namespace Evaluation

variable {σ : Type}

/-- The value of a variable, which has to be bound. -/
def variableValue (context : Context σ) (name : String) : Evaluation σ Value :=
  match context.binding? name with
  | none => throw (.undefinedVariable name)
  | some value => pure value

def focusValue (forest : Forest) (focus : Focus) : Value :=
  .nodeSet (NodeSet.ofNodes forest focus.node.toList)

/-- The nodes of a value that has to be a node-set. -/
def requireNodes (place : NodeSetPlace) (value : Value) : Evaluation σ (List NodeId) :=
  match value with
  | .nodeSet set => pure set.nodes
  | other => throw (.type (.operand place other.kind))

def rootsOf (forest : Forest) (value : Value) : Evaluation σ Value := do
  let nodes ← requireNodes .root value
  pure (.nodeSet (NodeSet.ofNodes forest (nodes.map forest.root)))

/-- The nodes of two node-sets; the second is checked first. -/
def unionOf (forest : Forest) (left right : Value) : Evaluation σ Value := do
  let second ← requireNodes .union right
  let first ← requireNodes .union left
  pure (.nodeSet (NodeSet.inDocumentOrder forest (first ++ second)))

/-- The nodes along an axis that pass a test. -/
def candidates (forest : Forest) (axis : Axis) (test : NodeTest) (id : NodeId) : List NodeId :=
  (forest.along axis id).filter (test.accepts forest axis)

/-- Call a function: a registered one if the name is registered, else one of the handler. -/
def call (forest : Forest) (context : Context σ) (focus : Focus) (function : String)
    (arguments : List Value) : Evaluation σ Value :=
  match context.functions.resolve function arguments.length with
  | .ok body =>
    match body forest { focus := focus, document := context.document? forest } arguments with
    | .ok value => pure value
    | .error error => throw error
  | .error (.wrongArity ..) => throw (.arity function arguments.length)
  | .error .capacityOverflow => throw .capacityOverflow
  | .error (.unknown _) =>
    Handler.invoke forest context.handler function arguments (context.document? forest)

/-- The distance below which a number counts as a position. -/
def positionTolerance : Float := Float.ofBits 0x3CB0000000000000

/-- Whether a predicate keeps the node at a position.  A number has to be that position, unless the
predicate is a call of a function that is not registered, whose results count as truth values. -/
def keeps (context : Context σ) (calledFunction : Option String) (result : Value)
    (position : Nat) : Bool :=
  let handled := calledFunction.any fun function => !context.functions.contains function
  match result with
  | .number amount =>
    if handled then result.toBoolean
    else decide ((amount - Float.ofNat position).abs < positionTolerance)
  | other => other.toBoolean

/-- Keep the nodes that pass a test, made for each node at its position among all of them. -/
def keepWhere (test : Focus → Evaluation σ Bool) (last : Nat) : Nat → List NodeId →
    Evaluation σ (List NodeId)
  | _, [] => pure []
  | position, id :: ids => do
    let kept ← test { node := some id, position := position, last := last }
    let others ← keepWhere test last (position + 1) ids
    pure (if kept then id :: others else others)

/-- Collect what is found from each node. -/
def collect (find : NodeId → Evaluation σ (List NodeId)) : List NodeId →
    Evaluation σ (List NodeId)
  | [] => pure []
  | id :: ids => do
    let found ← find id
    let others ← collect find ids
    pure (found ++ others)

end Evaluation

end NodeQuery
