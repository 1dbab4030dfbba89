import NodeQuery.Proofs.Expr.Failure
import NodeQuery.Proofs.Expr.Kind
import NodeQuery.Proofs.Selector.Reading
import NodeQuery.Proofs.Selector.Selection

/-!
# Kinds of answers

A query answers with a value of the kind that the head of its expression fixes.  Whatever the path of a
selector is read as is a path or a union of paths, so that a selector that is put to a document selects
nodes or fails before there is any value.
-/

namespace NodeQuery

open NodeQuery.Expr Evaluation

variable {σ : Type} {forest : Forest}

namespace Selector

/-- Alternatives with a start are paths or unions of paths. -/
theorem headKind?_groupExprBy {read : Condition → Option Expr} {start : String}
    {from_ : List Step → Expr} (starts : Starts start from_) {group : SelectorGroup} {expr : Expr}
    (given : groupExprBy? read from_ group = some expr) : expr.headKind? = some .nodeSet := by
  have union {paths : List Expr} : ∀ {first : Expr}, first.headKind? = some .nodeSet →
      (paths.foldl .union first).headKind? = some .nodeSet := by
    induction paths with
    | nil => exact fun known => known
    | cons path paths ih => exact fun _ => ih rfl
  simp only [groupExprBy?, Option.bind_eq_bind, Option.bind_eq_some_iff] at given
  rcases given with ⟨lists, _, same⟩
  cases lists with
  | nil => cases same
  | cons first others =>
      cases same
      apply union
      cases starts <;> rfl

end Selector

namespace Query

/-- The path of a selector is read as an expression for a node-set, if it is read at all. -/
theorem headKind?_of_selectorPath {start selector path : String} {from_ : List Step → Expr}
    (starts : Selector.Starts start from_) (written : selectorPath start selector = .ok path)
    {expr : Expr} (read : Expr.parse? path = some expr) : expr.headKind? = some .nodeSet := by
  rcases selectorPath_eq_ok written with ⟨group, parsed, path_⟩
  rcases Selector.wellFormed_of_parse parsed with ⟨filled, wellFormed⟩
  exact Selector.headKind?_groupExprBy starts
    (Selector.groupExpr_of_parse starts filled wellFormed path_ read)

theorem error_of_selectorPath {start selector : String} {error : Error}
    (refused : selectorPath start selector = .error error) :
    ∃ reason, error = .refusedSelector selector reason := by
  unfold selectorPath at refused
  split at refused
  · cases refused
    exact ⟨_, rfl⟩
  · split at refused
    · cases refused
      exact ⟨_, rfl⟩
    · cases refused

/-- Evaluating what a selector's path is read as gives a node-set or an error of an evaluation. -/
theorem evaluateAt_selectorPath (forest : Forest) {selector path : String}
    (written : selectorPath ".//" selector = .ok path) (node : NodeId) (handler : Option (Handler σ))
    (state : σ) :
    (∃ set, (evaluateAt forest path (some node) handler state).1 = .ok (.nodeSet set)) ∨
    ∃ error, (evaluateAt forest path (some node) handler state).1 = .error error ∧
      ∀ text kind, error ≠ .type (.selection text kind) := by
  cases read : Expr.parse? path with
  | none =>
      refine Or.inr ⟨.malformedExpression path, ?_, fun _ _ impossible => by cases impossible⟩
      rw [evaluateAt_of_refused read]
      rfl
  | some expr =>
      rw [evaluateAt_of_parse read]
      rcases given : expr.eval forest { node := some node, handler := handler } state with
        ⟨error | value, after⟩
      · have fails : Fails (expr.eval forest { node := some node, handler := handler }) :=
          Expr.fails_eval (fun _ _ _ resolved => Registry.core_fails resolved) expr
        refine Or.inr ⟨error, rfl, ?_⟩
        rintro text kind rfl
        exact fails state _ (by rw [given])
      · have kind := Expr.kind_of_eval (holds_of_parse keptByRules_moves read)
          (headKind?_of_selectorPath .focus written read) given
        cases value with
        | nodeSet set => exact Or.inl ⟨set, rfl⟩
        | boolean truth => cases kind
        | number amount => cases kind
        | string text => cases kind

/-- An expression that the grammar accepts gives a value of the kind its head fixes whenever it gives a
value, and a selector never fails for a value that is no node-set. -/
theorem kinds_of_answers (forest : Forest) :
    (∀ source expression kind, Expr.parse? source = some expression →
      expression.headKind? = some kind → ∀ (context : Context σ) (state after : σ) (value : Value),
        evaluate forest source context state = (.ok value, after) → value.kind = kind) ∧
    ∀ (selector : String) (node : NodeId) (handler : Option (Handler σ)) (state : σ) (text : String)
      (kind : ValueKind),
      (select forest selector node handler state).1 ≠ .error (.type (.selection text kind)) := by
  constructor
  · intro source expression kind read known context state after value given
    rw [evaluate_of_parse read] at given
    exact Expr.kind_of_eval (holds_of_parse keptByRules_moves read) known given
  · intro selector node handler state text kind
    unfold select
    rcases written : selectorPath ".//" selector with refusal | path
    · rcases error_of_selectorPath written with ⟨reason, rfl⟩
      intro impossible
      cases impossible
    · dsimp only
      rw [bind_apply]
      rcases outcome : evaluateAt forest path (some node) handler state with ⟨result, after⟩
      rcases evaluateAt_selectorPath forest written node handler state with
        ⟨set, found⟩ | ⟨error, found, apart⟩
      · rw [outcome] at found
        cases found
        intro impossible
        cases impossible
      · rw [outcome] at found
        cases found
        intro same
        exact apart text kind (Except.error.inj same)

/-- The items and the lists of a document as a union of paths. -/
def itemsOrLists : String := "//ul | //li"

theorem kinds_of_answers_items :
    (∃ expression, Expr.parse? itemsOrLists = some expression ∧
      expression.headKind? = some .nodeSet ∧
      ∃ value, evaluate listDocument.1 itemsOrLists ({ node := some ⟨9⟩ } : Context Unit) () =
        (.ok value, ()) ∧ value.kind = .nodeSet) ∧
    ∀ text kind, (select listDocument.1 "li:-count" ⟨9⟩ (none : Option (Handler Unit)) ()).1 ≠
      .error (.type (.selection text kind)) := by
  have read : ∃ expression, Expr.parse? itemsOrLists = some expression ∧
      expression.headKind? = some .nodeSet := ⟨_, rfl, rfl⟩
  rcases read with ⟨expression, read, known⟩
  have succeeds : (evaluate listDocument.1 itemsOrLists ({ node := some ⟨9⟩ } : Context Unit)
      ()).1.toBool = true := by
    decide +kernel
  rcases given : evaluate listDocument.1 itemsOrLists ({ node := some ⟨9⟩ } : Context Unit) () with
    ⟨_ | value, _⟩
  · rw [given] at succeeds
    cases succeeds
  · exact ⟨⟨expression, read, known, value, rfl,
      (kinds_of_answers listDocument.1).1 _ _ _ read known _ _ _ _ given⟩,
      (kinds_of_answers listDocument.1).2 _ _ _ _⟩

end Query

end NodeQuery
