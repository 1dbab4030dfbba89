import NodeQuery.Expr.Eval
import NodeQuery.Proofs.Evaluation
import NodeQuery.Proofs.NodeSet

/-!
# Predicates that answer

An expression made of paths, literals and core functions asks no handler, so that its value does not
depend on a state.  A predicate that gives no number keeps exactly the nodes it is true of, wherever
these stand in the list.
-/

namespace NodeQuery

namespace Expr

open Evaluation

variable {σ : Type} {forest : Forest} {context : Context σ} {focus : Focus}

theorem evalAll_cons {first : Expr} {others : List Expr} {value : Value} {values : List Value}
    (given : evalAt forest context focus first = pure value)
    (rest : evalAll forest context focus others = pure values) :
    evalAll forest context focus (first :: others) = pure (value :: values) := by
  rw [evalAll, given, pure_bind, rest, pure_bind]

theorem evalAll_nil : evalAll forest context focus [] = pure [] := by
  rw [evalAll]

theorem evalAt_string (text : String) :
    evalAt forest context focus (.string text) = pure (.string text) := by
  rw [evalAt]

/-- A call of a registered function that does not fail. -/
theorem evalAt_call {function : String} {arguments : List Expr} {values : List Value} {body : Function}
    {value : Value} (given : evalAll forest context focus arguments = pure values)
    (resolved : context.functions.resolve function values.length = .ok body)
    (result : body forest ⟨focus, context.document? forest⟩ values = .ok value) :
    evalAt forest context focus (.call function arguments) = pure value := by
  rw [evalAt, given, pure_bind, Evaluation.call]
  simp only [resolved, result]

theorem evalAt_comparison (operator : Comparison) {left right : Expr} {first second : Value}
    (leftGiven : evalAt forest context focus left = pure first)
    (rightGiven : evalAt forest context focus right = pure second) :
    evalAt forest context focus (.comparison operator left right) =
      pure (.boolean (operator.holds forest first second)) := by
  rw [evalAt, leftGiven, pure_bind, rightGiven, pure_bind]

theorem evalAt_arithmetic (operator : Arithmetic) {left right : Expr} {first second : Value}
    (leftGiven : evalAt forest context focus left = pure first)
    (rightGiven : evalAt forest context focus right = pure second) :
    evalAt forest context focus (.arithmetic operator left right) =
      pure (.number (operator.apply (first.toNumber forest) (second.toNumber forest))) := by
  rw [evalAt, leftGiven, pure_bind, rightGiven, pure_bind]

/-- One step from the node in focus. -/
theorem evalAt_step (forest : Forest) (context : Context σ) {id : NodeId}
    (here : focus.node = some id) (axis : Axis) (test : NodeTest) :
    evalAt forest context focus (.focusPath [.mk axis test []]) =
      pure (.nodeSet (NodeSet.inDocumentOrder forest (candidates forest axis test id))) := by
  have start : (NodeSet.ofNodes forest [id]).nodes = [id] := NodeSet.nodes_ofNodes (List.nodup_singleton id)
  rw [evalAt, focusValue, here, Option.toList_some, follow, requireNodes, pure_bind, start]
  simp only [collect, keptBy, follow, pure_bind, List.append_nil]

/-- Steps one after the other. -/
theorem follow_append (steps others : List Step) (value : Value) :
    follow forest context (steps ++ others) value =
      (do
        let reached ← follow forest context steps value
        follow forest context others reached) := by
  induction steps generalizing value with
  | nil => rw [List.nil_append, follow, pure_bind]
  | cons step steps ih =>
      cases step with
      | mk axis test predicates =>
          rw [List.cons_append, follow, follow]
          simp only [ih, bind_assoc]

/-- At a focus an expression gives a value that is no number and is true exactly if something holds. -/
def Answers (forest : Forest) (context : Context σ) (focus : Focus) (expression : Expr)
    (holds : Prop) : Prop :=
  ∃ value, evalAt forest context focus expression = pure value ∧
    (∀ amount, value ≠ .number amount) ∧ (value.toBoolean = true ↔ holds)

variable {expression : Expr} {holds : Prop}

theorem answers_boolean {truth : Bool}
    (given : evalAt forest context focus expression = pure (.boolean truth))
    (same : truth = true ↔ holds) : Answers forest context focus expression holds := by
  refine ⟨.boolean truth, given, ?_, same⟩
  intro amount impossible
  cases impossible

theorem answers_nodeSet {set : NodeSet}
    (given : evalAt forest context focus expression = pure (.nodeSet set))
    (same : set.nodes ≠ [] ↔ holds) : Answers forest context focus expression holds := by
  refine ⟨.nodeSet set, given, ?_, ?_⟩
  · intro amount impossible
    cases impossible
  · rw [← same, Value.toBoolean, NodeSet.isEmpty, Bool.not_eq_true', List.isEmpty_eq_false_iff]

theorem Answers.congr {other : Prop} (answers : Answers forest context focus expression holds)
    (same : holds ↔ other) : Answers forest context focus expression other := by
  rcases answers with ⟨value, given, kind, truth⟩
  exact ⟨value, given, kind, truth.trans same⟩

theorem Answers.connective {left right : Expr} {first second : Prop} (operator : Connective)
    (leftAnswers : Answers forest context focus left first)
    (rightAnswers : Answers forest context focus right second) :
    Answers forest context focus (.connective operator left right)
      (match operator with
        | .and => first ∧ second
        | .or => first ∨ second) := by
  rcases leftAnswers with ⟨value, given, _, truth⟩
  rcases rightAnswers with ⟨other, otherGiven, _, otherTruth⟩
  have evaluated : evalAt forest context focus (.connective operator left right) =
      pure (.boolean (if operator.decidedBy value.toBoolean then value.toBoolean else
        other.toBoolean)) := by
    rw [evalAt, given, pure_bind]
    split
    · rfl
    · rw [otherGiven, pure_bind]
  apply answers_boolean evaluated
  cases operator with
  | and =>
      rw [← truth, ← otherTruth]
      cases value.toBoolean <;> simp [Connective.decidedBy]
  | or =>
      rw [← truth, ← otherTruth]
      cases value.toBoolean <;> simp [Connective.decidedBy]

/-- Whether one step from the node in focus leads anywhere. -/
theorem answers_step (forest : Forest) (context : Context σ) {id : NodeId}
    (here : focus.node = some id) (axis : Axis) (test : NodeTest) :
    Answers forest context focus (.focusPath [.mk axis test []])
      (candidates forest axis test id ≠ []) := by
  apply answers_nodeSet (evalAt_step forest context here axis test)
  apply not_congr
  rw [List.eq_nil_iff_forall_not_mem, List.eq_nil_iff_forall_not_mem]
  exact forall_congr' fun other => not_congr NodeSet.mem_inDocumentOrder

/-- An expression answers at every node of some kind, wherever the node stands in a list. -/
def AnswersAt (forest : Forest) (context : Context σ) (among : NodeId → Prop) (expression : Expr)
    (holds : NodeId → Prop) : Prop :=
  ∀ id, among id → ∀ focus : Focus, focus.node = some id →
    Answers forest context focus expression (holds id)

/-- The test that a predicate makes at a focus. -/
def testAt (forest : Forest) (context : Context σ) (predicate : Expr) (focus : Focus) :
    Evaluation σ Bool := do
  let result ← evalAt forest context focus predicate
  pure (keeps context predicate.calledFunction? result focus.position)

theorem keptBy_cons (predicate : Expr) (predicates : List Expr) (nodes : List NodeId) :
    keptBy forest context (predicate :: predicates) nodes =
      (do
        let kept ← keepWhere (predicate.testAt forest context) nodes.length 1 nodes
        keptBy forest context predicates kept) := by
  rw [keptBy]
  rfl

theorem keptBy_single (predicate : Expr) (nodes : List NodeId) :
    keptBy forest context [predicate] nodes =
      keepWhere (predicate.testAt forest context) nodes.length 1 nodes := by
  simp only [keptBy_cons, keptBy.eq_1, bind_pure]

/-- A test that gives the same answer at every position keeps the nodes it is true of. -/
theorem exists_keepWhere {test : Focus → Evaluation σ Bool} {holds : NodeId → Prop} (last : Nat)
    {nodes : List NodeId} (answers : ∀ id ∈ nodes, ∀ focus : Focus, focus.node = some id →
      ∃ truth, test focus = pure truth ∧ (truth = true ↔ holds id)) (position : Nat) :
    ∃ kept, keepWhere test last position nodes = pure kept ∧
      ∀ id, id ∈ kept ↔ id ∈ nodes ∧ holds id := by
  induction nodes generalizing position with
  | nil => exact ⟨[], rfl, by simp⟩
  | cons id ids ih =>
      rcases answers id List.mem_cons_self ⟨some id, position, last⟩ rfl with ⟨truth, given, same⟩
      rcases ih (fun other member => answers other (List.mem_cons_of_mem _ member))
        (position + 1) with ⟨others, rest, members⟩
      refine ⟨if truth then id :: others else others, ?_, fun other => ?_⟩
      · rw [keepWhere, given, pure_bind, rest, pure_bind]
      · rw [List.mem_cons, or_and_right, ← members]
        cases truth with
        | true =>
            have holdsHere : holds id := same.mp rfl
            rw [if_pos rfl, List.mem_cons]
            refine or_congr_left ⟨fun equal => ⟨equal, equal ▸ holdsHere⟩, And.left⟩
        | false =>
            have fails : ¬ holds id := mt same.mpr Bool.false_ne_true
            rw [if_neg Bool.false_ne_true]
            refine ⟨Or.inr, ?_⟩
            rintro (⟨rfl, met⟩ | later)
            · exact absurd met fails
            · exact later

/-- Predicates that answer keep the nodes that all of them are true of. -/
theorem exists_keptBy {among : NodeId → Prop} {predicates : List Expr}
    {conditions : List (NodeId → Prop)}
    (answers : List.Forall₂ (AnswersAt forest context among) predicates conditions)
    {nodes : List NodeId} (inside : ∀ id ∈ nodes, among id) :
    ∃ kept, keptBy forest context predicates nodes = pure kept ∧
      ∀ id, id ∈ kept ↔ id ∈ nodes ∧ ∀ holds ∈ conditions, holds id := by
  induction answers generalizing nodes with
  | nil => exact ⟨nodes, by rw [keptBy], by simp⟩
  | @cons predicate holds predicates conditions first others ih =>
      have test : ∀ id ∈ nodes, ∀ focus : Focus, focus.node = some id → ∃ truth,
          predicate.testAt forest context focus = pure truth ∧ (truth = true ↔ holds id) := by
        intro id member focus here
        rcases first id (inside id member) focus here with ⟨value, given, kind, truth⟩
        have kept : keeps context predicate.calledFunction? value focus.position =
            value.toBoolean := by
          cases value with
          | number amount => exact absurd rfl (kind amount)
          | boolean truth => rfl
          | string text => rfl
          | nodeSet set => rfl
        exact ⟨value.toBoolean, by rw [testAt, given, pure_bind, kept], truth⟩
      rcases exists_keepWhere nodes.length test 1 with ⟨kept, given, members⟩
      rcases ih fun id member => inside id ((members id).mp member).1 with
        ⟨left, givenLeft, membersLeft⟩
      refine ⟨left, ?_, fun id => ?_⟩
      · rw [keptBy_cons, given, pure_bind, givenLeft]
      · rw [membersLeft, members, and_assoc, List.forall_mem_cons]

end Expr

end NodeQuery
