import NodeQuery.Proofs.Expr.SideBySide
import NodeQuery.Proofs.Handler.Asking
import NodeQuery.Proofs.Selector.Kind

/-!
# Selecting anywhere

A selector stands for two paths: one that looks for elements anywhere in the tree of the node in focus,
and one that looks for elements below that node.  Put to the document node the second reaches the whole
tree as well, and from there on both take the same steps.  They find the same nodes, fail for the same
reasons and ask a handler for the same calls, so that the first does not depend on the node in focus.
-/

namespace NodeQuery

open NodeQuery.Expr Evaluation

variable {σ : Type} {forest : Forest} {document : DocumentId} {root : NodeId}

section
variable {context other : Context σ}

/-- A step takes from a node-set nothing but its nodes. -/
theorem Expr.follow_cons_congr {set reached : NodeSet} (same : set.nodes = reached.nodes) (step : Step)
    (steps : List Step) :
    follow forest context (step :: steps) (.nodeSet set) =
      follow forest context (step :: steps) (.nodeSet reached) := by
  cases step
  rw [follow, follow, requireNodes, requireNodes, same]

variable {focus below : Focus} {from_ under : List Step → Expr}

/-- Two paths of the same steps from the whole tree have the same outcome. -/
theorem StartsAtTree.evalAt_eq (starts : StartsAtTree forest context focus root from_)
    (others : StartsAtTree forest other below root under) (alongside : context.Alongside forest other)
    (sameHandler : context.handler = other.handler) (step : Step) (steps : List Step) :
    evalAt forest context focus (from_ (step :: steps)) =
      evalAt forest other below (under (step :: steps)) := by
  rcases starts with ⟨whole, nodes, goesOn⟩
  rcases others with ⟨reached, sameNodes, goesOnBelow⟩
  rw [goesOn, goesOnBelow, alongside.follow_eq sameHandler]
  exact follow_cons_congr (nodes.trans sameNodes.symm) step steps

end

namespace Selector

/-- Every alternative has a step for its first compound. -/
theorem exists_cons_of_stepsBy {read : Condition → Option Expr} {selector : Selector}
    {steps : List Step} (given : stepsBy? read selector = some steps) :
    ∃ step others, steps = step :: others := by
  simp only [stepsBy?, Option.bind_eq_bind, Option.bind_eq_some_iff] at given
  rcases given with ⟨first, _, others, _, same⟩
  cases same
  exact ⟨first, others.flatten, rfl⟩

theorem exists_groupExprBy {read : Condition → Option Expr} {from_ : List Step → Expr}
    {group : SelectorGroup} {expr : Expr} (under : List Step → Expr)
    (given : groupExprBy? read from_ group = some expr) :
    ∃ second, groupExprBy? read under group = some second := by
  simp only [groupExprBy?, Option.bind_eq_bind, Option.bind_eq_some_iff] at given
  rcases given with ⟨lists, translated, same⟩
  rw [groupExprBy?, translated]
  cases lists with
  | nil => cases same
  | cons first others => exact ⟨_, rfl⟩

/-- The expressions built from a group behind two starts have the same outcome if any two paths behind
these starts have. -/
theorem evalAt_groupExprBy_eq {context other : Context σ} {focus below : Focus}
    {read : Condition → Option Expr} {from_ under : List Step → Expr}
    (alike : ∀ step steps, evalAt forest context focus (from_ (step :: steps)) =
      evalAt forest other below (under (step :: steps)))
    {group : SelectorGroup} {expr second : Expr} (given : groupExprBy? read from_ group = some expr)
    (secondGiven : groupExprBy? read under group = some second) :
    evalAt forest context focus expr = evalAt forest other below second := by
  have path {selector : Selector} {steps : List Step} (taken : stepsBy? read selector = some steps) :
      evalAt forest context focus (from_ steps) = evalAt forest other below (under steps) := by
    rcases exists_cons_of_stepsBy taken with ⟨step, others, rfl⟩
    exact alike step others
  have union {lists : List (List Step)} {selectors : List Selector} (all : List.Forall₂
        (fun steps selector => stepsBy? read selector = some steps) lists selectors) :
      ∀ {one two : Expr}, evalAt forest context focus one = evalAt forest other below two →
        evalAt forest context focus ((lists.map from_).foldl .union one) =
          evalAt forest other below ((lists.map under).foldl .union two) := by
    induction all with
    | nil => exact fun same => same
    | cons taken _ ih => exact fun same => ih (by rw [evalAt, evalAt, same, path taken])
  rcases translated : group.mapM (stepsBy? read) with _ | lists
  · rw [groupExprBy?, translated] at given
    cases given
  have all := forall₂_of_mapM translated
  rw [groupExprBy?, translated] at given secondGiven
  cases all with
  | nil => cases given
  | cons taken later =>
      cases given
      cases secondGiven
      exact union later (path taken)

end Selector

namespace Query

/-- Selecting evaluates the path of the selector, which gives a node-set or fails. -/
theorem evaluateAt_eq_select {selector path : String} (written : selectorPath ".//" selector = .ok path)
    (node : NodeId) (handler : Option (Handler σ)) :
    evaluateAt forest path (some node) handler =
      (do let set ← select forest selector node handler; pure (.nodeSet set)) := by
  funext state
  unfold select
  rw [written]
  dsimp only
  rw [bind_assoc, bind_apply]
  rcases outcome : evaluateAt forest path (some node) handler state with ⟨result, after⟩
  rcases evaluateAt_selectorPath forest written node handler state with
    ⟨set, found⟩ | ⟨error, found, _⟩
  · rw [outcome] at found
    cases found
    rfl
  · rw [outcome] at found
    cases found
    rfl

/-- A selector whose path from the root is read has a path below a node that is read too, and both are
read as the expressions built from the same group. -/
theorem exists_selectorPath {selector path : String} {expr : Expr}
    (written : pathOfSelector selector = .ok path) (read : Expr.parse? path = some expr) :
    ∃ group below second, selectorPath ".//" selector = .ok below ∧
      Expr.parse? below = some second ∧
      Selector.groupExprBy? Selector.readExpr? Selector.fromRoot group = some expr ∧
      Selector.groupExprBy? Selector.readExpr? Selector.fromFocus group = some second := by
  rcases selectorPath_eq_ok written with ⟨group, parsed, path_⟩
  rcases Selector.wellFormed_of_parse parsed with ⟨filled, wellFormed⟩
  have fromRoot := Selector.groupExpr_of_parse .root filled wellFormed path_ read
  rcases Selector.exists_groupExprBy Selector.fromFocus fromRoot with ⟨second, fromFocus⟩
  have legible : ∀ alternative ∈ group, alternative.Legible Selector.readExpr? := by
    refine (Selector.legible_or_refused .root filled wellFormed path_).resolve_right fun refused => ?_
    rw [refused] at read
    cases read
  have related := Selector.parse?_of_legible .focus filled legible
  rw [fromFocus] at related
  rcases belowWritten : Selector.groupPath? ".//" group with _ | below
  · rw [belowWritten] at related
    cases related
  · rw [belowWritten] at related
    cases related with
    | some reads =>
      refine ⟨group, below, second, ?_, reads, fromRoot, fromFocus⟩
      unfold selectorPath
      rw [parsed]
      dsimp only
      rw [belowWritten]

/-- The path of a selector from the root does at any node of a document what selecting does at the
document node. -/
theorem evaluateAt_eq_select_root (tree : forest.IsTree document root) {node : NodeId}
    (inside : node ∈ forest.nodesOf document) {selector path : String}
    (written : pathOfSelector selector = .ok path) {expr : Expr} (read : Expr.parse? path = some expr)
    (handler : Option (Handler σ)) :
    evaluateAt forest path (some node) handler =
      (do let set ← select forest selector root handler; pure (.nodeSet set)) := by
  rcases exists_selectorPath written read with
    ⟨group, below, second, belowWritten, belowRead, fromRoot, fromFocus⟩
  let here : Context σ := { node := some node, handler := handler }
  let above : Context σ := { node := some root, handler := handler }
  have placed := inside
  rw [tree.nodesOf_eq] at placed
  have sameDocument : here.document? forest = above.document? forest :=
    (tree.document node placed).trans
      (tree.document root (Forest.mem_subtreeWithAttributes_self root)).symm
  have alongside : here.Alongside forest above := ⟨rfl, rfl, sameDocument⟩
  have started : StartsAtTree forest here here.focus root Selector.fromRoot :=
    startsAtTree_fromRoot tree inside rfl
  have startedAbove : StartsAtTree forest above above.focus root Selector.fromFocus :=
    startsAtTree_fromFocus tree (Forest.root_mem_nodesOf tree.documentRoot) rfl
  have same : evalAt forest here here.focus expr = evalAt forest above above.focus second :=
    Selector.evalAt_groupExprBy_eq (started.evalAt_eq startedAbove alongside rfl) fromRoot fromFocus
  rw [← evaluateAt_eq_select belowWritten, evaluateAt_of_parse read, evaluateAt_of_parse belowRead,
    Expr.eval, Expr.eval, same, sameDocument]

/-- Wherever in a document it is evaluated, the path of a selector gives the node-set that selecting from
the document node gives, or fails with the same error, and it leaves the handler in the same state after
the same calls. -/
theorem evaluateAt_pathOfSelector (fresh : forest.HasFreshDocument document)
    (top : forest.documentRoot? document = some root) {node : NodeId}
    (inside : node ∈ forest.nodesOf document) {selector path : String}
    (written : pathOfSelector selector = .ok path) {expr : Expr} (read : Expr.parse? path = some expr)
    (handler : Option (Handler σ)) (state : σ) :
    evaluateAt forest path (some node) handler state =
        (do let set ← select forest selector root handler; pure (.nodeSet set) :
          Evaluation σ Value) state ∧
      (evaluateAt forest path (some node) (handler.map .recording) (state, [])).2.2 =
        (select forest selector root (handler.map .recording) (state, [])).2.2 := by
  rcases fresh.isTree with ⟨treeTop, tree⟩
  obtain rfl : treeTop = root := Option.some.inj (tree.documentRoot.symm.trans top)
  refine ⟨by rw [evaluateAt_eq_select_root tree inside written read], ?_⟩
  rw [evaluateAt_eq_select_root tree inside written read, bind_apply]
  rcases select forest selector treeTop (handler.map .recording) (state, []) with ⟨_ | set, after⟩
  · rfl
  · rfl

/-- Stacked elements that a handler says yes to, or that are in one it says yes to. -/
def askedSelector : String := "t:f, r:f(1) > t"

theorem evaluateAt_pathOfSelector_stacked :
    let handler := some tallyHandler
    stackedDocument.1.HasFreshDocument stackedDocument.2 ∧
    stackedDocument.1.documentRoot? stackedDocument.2 = some ⟨4⟩ ∧
    (⟨1⟩ : NodeId) ∈ stackedDocument.1.nodesOf stackedDocument.2 ∧
    ∃ path expr, pathOfSelector askedSelector = .ok path ∧ Expr.parse? path = some expr ∧
      evaluateAt stackedDocument.1 path (some ⟨1⟩) handler 0 =
          (do let set ← select stackedDocument.1 askedSelector ⟨4⟩ handler; pure (.nodeSet set) :
            Evaluation Nat Value) 0 ∧
        (evaluateAt stackedDocument.1 path (some ⟨1⟩) (handler.map .recording) (0, [])).2.2 =
          (select stackedDocument.1 askedSelector ⟨4⟩ (handler.map .recording) (0, [])).2.2 := by
  intro handler
  have written : pathOfSelector askedSelector = .ok "//t[f(.)] | //r[f(., 1)]/t" := rfl
  have read : ∃ expr, Expr.parse? "//t[f(.)] | //r[f(., 1)]/t" = some expr :=
    Option.isSome_iff_exists.mp (by decide +kernel)
  have top : stackedDocument.1.documentRoot? stackedDocument.2 = some ⟨4⟩ := by decide +kernel
  have inside : (⟨1⟩ : NodeId) ∈ stackedDocument.1.nodesOf stackedDocument.2 := by decide +kernel
  rcases read with ⟨expr, read⟩
  exact ⟨stackedDocument_fresh, top, inside, _, expr, written, read,
    evaluateAt_pathOfSelector stackedDocument_fresh top inside written read handler 0⟩

end Query

end NodeQuery
