import NodeQuery.Proofs.Expr.Grammar
import NodeQuery.Proofs.Evaluation
import NodeQuery.Expr.Eval

/-!
# Kinds of results

What an expression is at its head fixes the kind of its value, whatever it is evaluated with.  Only the
value of a variable and the result of a call can be of any kind.
-/

namespace NodeQuery.Expr

open Evaluation

/-- The kind of value that the head of an expression fixes; variables and calls fix none. -/
def headKind? : Expr → Option ValueKind
  | .number _ | .arithmetic .. | .negate _ => some .number
  | .string _ => some .string
  | .connective .. | .comparison .. => some .boolean
  | .union .. | .rootPath _ | .focusPath _ | .exprPath .. | .filter .. | .focus => some .nodeSet
  | .var _ | .call .. => none

/-- A path from another expression has a step, so that it is more than the expression. -/
def Moves : Expr → Prop
  | .exprPath _ steps => steps ≠ []
  | _ => True

/-- The grammar has no path from an expression without a step. -/
theorem keptByRules_moves : KeptByRules Moves where
  number _ := trivial
  string _ _ := trivial
  var _ _ := trivial
  focus := trivial
  call _ _ _ _ _ := trivial
  arithmetic _ _ _ _ _ := trivial
  connective _ _ _ _ _ := trivial
  comparison _ _ _ _ _ := trivial
  negate _ _ := trivial
  union _ _ _ _ := trivial
  rootPath _ _ := trivial
  focusPath _ _ _ _ := trivial
  exprPath _ _ _ filled _ := filled
  filter _ _ _ _ _ := trivial

variable {σ : Type} {forest : Forest} {context : Context σ}

/-- Steps from a node-set lead to a node-set, and so does any step at all. -/
theorem keeps_follow {steps : List Step} {value : Value}
    (starts : steps ≠ [] ∨ value.kind = .nodeSet) :
    Keeps (fun _ => True) (fun reached => reached.kind = .nodeSet)
      (follow forest context steps value) := by
  induction steps generalizing value with
  | nil =>
      rw [follow]
      exact Keeps.pure (starts.resolve_left (not_not_intro rfl))
  | cons step steps ih =>
      cases step with
      | mk axis test predicates =>
          rw [follow]
          refine (Keeps.any _).bind fun nodes _ => ?_
          exact (Keeps.any _).bind fun found _ => ih (.inr rfl)

/-- The value of an expression is of the kind that its head fixes. -/
theorem keeps_kind {expression : Expr} (moves : expression.Moves) {kind : ValueKind}
    (known : expression.headKind? = some kind) (focus : Focus) :
    Keeps (fun _ => True) (fun value => value.kind = kind)
      (expression.evalAt forest context focus) := by
  cases expression with
  | number _ | string _ | focus =>
      cases known
      rw [evalAt]
      exact Keeps.pure rfl
  | var _ | call _ _ => cases known
  | arithmetic _ _ _ | comparison _ _ _ =>
      cases known
      rw [evalAt]
      exact (Keeps.any _).bind fun _ _ => (Keeps.any _).bind fun _ _ => Keeps.pure rfl
  | connective operator left right =>
      cases known
      rw [evalAt]
      refine (Keeps.any _).bind fun first _ => ?_
      split
      · exact Keeps.pure rfl
      · exact (Keeps.any _).bind fun _ _ => Keeps.pure rfl
  | negate operand =>
      cases known
      rw [evalAt]
      exact (Keeps.any _).bind fun _ _ => Keeps.pure rfl
  | union left right =>
      cases known
      rw [evalAt]
      refine (Keeps.any _).bind fun _ _ => (Keeps.any _).bind fun _ _ => ?_
      rw [unionOf]
      exact (Keeps.any _).bind fun _ _ => (Keeps.any _).bind fun _ _ => Keeps.pure rfl
  | rootPath steps =>
      cases known
      rw [evalAt, rootsOf, bind_assoc]
      refine (Keeps.any _).bind fun nodes _ => ?_
      rw [pure_bind]
      exact keeps_follow (.inr rfl)
  | focusPath steps =>
      cases known
      rw [evalAt]
      exact keeps_follow (.inr rfl)
  | exprPath start steps =>
      cases known
      rw [evalAt]
      exact (Keeps.any _).bind fun value _ => keeps_follow (.inl moves)
  | filter primary predicates =>
      cases known
      rw [evalAt]
      refine (Keeps.any _).bind fun _ _ => (Keeps.any _).bind fun _ _ => ?_
      exact (Keeps.any _).bind fun _ _ => Keeps.pure rfl

/-- Decorations do not change the kind of a value. -/
theorem kind_decorate (value : Value) (document : Option DocumentId) :
    (value.decorate forest document).kind = value.kind := by
  cases value <;> rfl

/-- A whole expression gives a value of the kind that its head fixes. -/
theorem kind_of_eval {expression : Expr} (moves : expression.Moves) {kind : ValueKind}
    (known : expression.headKind? = some kind) {state after : σ} {value : Value}
    (given : expression.eval forest context state = (.ok value, after)) : value.kind = kind := by
  have keeps : Keeps (fun _ => True) (fun value => value.kind = kind)
      (expression.eval forest context) :=
    (keeps_kind moves known context.focus).bind fun value same =>
      Keeps.pure ((kind_decorate value _).trans same)
  apply (keeps state trivial).2
  rw [given]

end NodeQuery.Expr
