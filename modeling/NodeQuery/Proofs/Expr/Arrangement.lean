import NodeQuery.Proofs.Expr.SideBySide
import NodeQuery.Proofs.Program.Order

/-!
# The order in which a node-set is bound

A node-set that is bound to a variable keeps the order it was made in, in document order or not, and
the variable has it as its value just so.  In most places the order is lost at once: a union, a step
and a comparison ask which nodes there are, not in which order.  An expression with the variable in
such places only has the same value for every order.  Which of several errors ends an evaluation may
still depend on the order, since a step tries the nodes one after the other.
-/

namespace NodeQuery

variable {σ : Type} {forest : Forest} {document : DocumentId}

/-- Two lists are the same, or they list the same nodes of the document in different orders. -/
def Forest.Rearranged (forest : Forest) (document : DocumentId) (ids others : List NodeId) : Prop :=
  ids = others ∨ (∀ id ∈ ids, id ∈ forest.nodesOf document) ∧ ids.Perm others

theorem Forest.Rearranged.perm {ids others : List NodeId}
    (rearranged : forest.Rearranged document ids others) : ids.Perm others := by
  rcases rearranged with same | ⟨_, perm⟩
  · rw [same]
  · exact perm

namespace Value

/-- Two values are the same, or they are node-sets that arrange the same nodes of the document. -/
inductive Rearranged (forest : Forest) (document : DocumentId) : Value → Value → Prop where
  | same (value : Value) : Rearranged forest document value value
  | nodeSets {first second : NodeSet} (nodes : forest.Rearranged document first.nodes second.nodes) :
      Rearranged forest document (.nodeSet first) (.nodeSet second)

variable {first second : Value}

theorem Rearranged.toBoolean_eq (rearranged : first.Rearranged forest document second) :
    first.toBoolean = second.toBoolean := by
  cases rearranged with
  | same => rfl
  | nodeSets nodes => rw [toBoolean, toBoolean, NodeSet.isEmpty, NodeSet.isEmpty, nodes.perm.isEmpty_eq]

end Value

/-- A function that gives the same for every arrangement of its arguments' nodes. -/
def Function.IgnoresOrder (body : Function) : Prop :=
  ∀ forest document site arguments others,
    List.Forall₂ (Value.Rearranged forest document) arguments others →
      body forest site arguments = body forest site others

/-- Whatever function a call of this name resolves to ignores the order of nodes. -/
def Registry.IgnoresOrder (registry : Registry) (name : String) : Prop :=
  ∀ count body, registry.resolve name count = .ok body → body.IgnoresOrder

namespace Evaluation

variable {first second : Value}

end Evaluation

/-!
## Where the order does not matter

These places are read off the expression.  In any other place the order in which the variable is bound
may show.
-/

namespace Expr

section
variable (functions : Registry) (name : String)

mutual

/-- Inside the expression the variable stands only where the order of its nodes does not matter, and
only registered functions are called.  The expression may be the variable itself. -/
def OrderFreeInside : Expr → Prop
  | .number _ | .string _ | .var _ | .focus => True
  | .call function arguments =>
    functions.contains function = true ∧ AllOrderFreeInside arguments ∧
      (.var name ∈ arguments → functions.IgnoresOrder function)
  | .arithmetic _ left right =>
    (left ≠ .var name ∧ OrderFreeInside left) ∧ right ≠ .var name ∧ OrderFreeInside right
  | .connective _ left right | .comparison _ left right | .union left right =>
    OrderFreeInside left ∧ OrderFreeInside right
  | .negate operand => operand ≠ .var name ∧ OrderFreeInside operand
  | .rootPath steps | .focusPath steps => StepsOrderFree steps
  | .exprPath start steps =>
    (start = .var name → steps ≠ []) ∧ OrderFreeInside start ∧ StepsOrderFree steps
  | .filter primary predicates =>
    (primary ≠ .var name ∧ OrderFreeInside primary) ∧ AllOrderFreeInside predicates

def AllOrderFreeInside : List Expr → Prop
  | [] => True
  | first :: others => OrderFreeInside first ∧ AllOrderFreeInside others

def StepsOrderFree : List Step → Prop
  | [] => True
  | .mk _ _ predicates :: steps => AllOrderFreeInside predicates ∧ StepsOrderFree steps

end

end

end Expr

namespace Evaluation

variable (context : Context σ) {name : String} {first second : Value}

end Evaluation

namespace Expr

open Evaluation

theorem keptBy_inside (context : Context σ) (predicates : List Expr) {nodes : List NodeId}
    (inside : Inside forest document nodes) :
    Keeps (fun _ => True) (Inside forest document) (keptBy forest context predicates nodes) := by
  induction predicates generalizing nodes with
  | nil =>
      rw [keptBy]
      exact Keeps.pure inside
  | cons predicate predicates ih =>
      rw [keptBy]
      apply (keepWhere_inside (fun _ _ => Keeps.any _) nodes.length 1 inside).bind
      intro kept keptInside
      exact ih keptInside

end Expr

namespace Evaluation

variable {root : NodeId} (tree : forest.IsTree document root) (context : Context σ) {name : String}
variable {first second : Value}
include tree

end Evaluation

theorem Context.StaysIn.bind {inv : σ → Prop} {context : Context σ}
    (stays : context.StaysIn forest document inv) (name : String) {value : Value}
    (sorted : value.SortedIn forest document) :
    (context.bind name value).StaysIn forest document inv where
  node := stays.node
  bindings other held bound := by
    rcases List.mem_cons.mp bound with same | before
    · cases same
      exact sorted
    · exact stays.bindings other held before
  functions := stays.functions
  handler := stays.handler

namespace Program

end Program

end NodeQuery
