import NodeQuery.Proofs.Numeral.Distance
import NodeQuery.Proofs.Selector.Truth

/-!
# Steps of selectors

Where the steps of a selector lead.  A walk takes the node-set that lists what one thing holds of to the
one that lists what another thing holds of; walks follow one another as steps do, so that what a
selector selects is put together link by link.
-/

namespace NodeQuery

open NodeQuery.Expr Evaluation

variable {σ : Type} {forest : Forest} {context : Context σ} {document : DocumentId} {root : NodeId}

/-- A set that lists in document order the nodes of a document that something holds of. -/
structure NodeSet.Lists (forest : Forest) (document : DocumentId) (set : NodeSet)
    (holds : NodeId → Prop) : Prop where
  members : ∀ id, id ∈ set.nodes ↔ holds id
  inside : ∀ id, holds id → id ∈ forest.nodesOf document
  ascending : forest.Ascending set.nodes

theorem lists_inDocumentOrder (tree : forest.IsTree document root) {holds : NodeId → Prop}
    {ids : List NodeId} (members : ∀ id, id ∈ ids ↔ holds id)
    (inside : ∀ id, holds id → id ∈ forest.nodesOf document) :
    (NodeSet.inDocumentOrder forest ids).Lists forest document holds where
  members id := NodeSet.mem_inDocumentOrder.trans (members id)
  inside := inside
  ascending := by
    apply NodeSet.ascending_inDocumentOrder tree
    intro id member
    rw [← tree.nodesOf_eq]
    exact inside id ((members id).mp member)

theorem lists_ofNodes {id : NodeId} (inside : id ∈ forest.nodesOf document) :
    (NodeSet.ofNodes forest [id]).Lists forest document (· = id) := by
  have nodes : (NodeSet.ofNodes forest [id]).nodes = [id] :=
    NodeSet.nodes_ofNodes (List.nodup_singleton id)
  refine ⟨fun other => by rw [nodes, List.mem_singleton], fun other same => same ▸ inside, ?_⟩
  rw [nodes]
  exact ⟨List.nodup_singleton id, List.pairwise_singleton _ id⟩

/-- Steps that lead from the nodes one thing holds of to those another thing holds of. -/
def Walks (forest : Forest) (document : DocumentId) (context : Context σ) (steps : List Step)
    (start finish : NodeId → Prop) : Prop :=
  ∀ set : NodeSet, set.Lists forest document start → ∃ reached : NodeSet,
    follow forest context steps (.nodeSet set) = pure (.nodeSet reached) ∧
      reached.Lists forest document finish

theorem Walks.append {steps others : List Step} {start middle finish : NodeId → Prop}
    (first : Walks forest document context steps start middle)
    (second : Walks forest document context others middle finish) :
    Walks forest document context (steps ++ others) start finish := by
  intro set lists
  rcases first set lists with ⟨between, given, listsBetween⟩
  rcases second between listsBetween with ⟨reached, further, listsReached⟩
  refine ⟨reached, ?_, listsReached⟩
  rw [follow_append, given, pure_bind, further]

theorem Walks.congr {steps : List Step} {start finish other : NodeId → Prop}
    (walks : Walks forest document context steps start finish) (same : ∀ id, finish id ↔ other id) :
    Walks forest document context steps start other := by
  have equal : finish = other := funext fun id => propext (same id)
  rw [← equal]
  exact walks

theorem walks_nil (start : NodeId → Prop) : Walks forest document context [] start start := by
  intro set lists
  exact ⟨set, by rw [follow], lists⟩

theorem exists_collect {find : NodeId → Evaluation σ (List NodeId)} {finds : NodeId → NodeId → Prop}
    {ids : List NodeId} (each : ∀ id ∈ ids, ∃ found, find id = pure found ∧
      ∀ other, other ∈ found ↔ finds id other) :
    ∃ found, collect find ids = pure found ∧
      ∀ other, other ∈ found ↔ ∃ id ∈ ids, finds id other := by
  induction ids with
  | nil => exact ⟨[], rfl, by simp⟩
  | cons id ids ih =>
      rcases each id List.mem_cons_self with ⟨first, given, members⟩
      rcases ih fun other member => each other (List.mem_cons_of_mem _ member) with
        ⟨others, givenOthers, membersOthers⟩
      refine ⟨first ++ others, ?_, ?_⟩
      · rw [collect, given, pure_bind, givenOthers, pure_bind]
      · intro other
        rw [List.mem_append, members, membersOthers, List.exists_mem_cons_iff]

/-- One step, by what it keeps of the nodes along its axis. -/
theorem walks_step (tree : forest.IsTree document root) {axis : Axis} {test : NodeTest}
    {predicates : List Expr} (start : NodeId → Prop) (keeps : NodeId → NodeId → Prop)
    (each : ∀ id ∈ forest.nodesOf document, start id → ∃ kept,
      keptBy forest context predicates (candidates forest axis test id) = pure kept ∧
        ∀ other, other ∈ kept ↔ other ∈ forest.along axis id ∧ keeps id other) :
    Walks forest document context [.mk axis test predicates] start
      (fun other => ∃ id, start id ∧ other ∈ forest.along axis id ∧ keeps id other) := by
  intro set lists
  rcases exists_collect fun id member =>
    each id (lists.inside id ((lists.members id).mp member)) ((lists.members id).mp member) with
    ⟨found, given, members⟩
  refine ⟨NodeSet.inDocumentOrder forest found, ?_, ?_⟩
  · rw [follow, requireNodes, pure_bind, given, pure_bind, follow]
  · apply lists_inDocumentOrder tree
    · intro other
      rw [members]
      exact exists_congr fun id => and_congr_left' (lists.members id)
    · rintro other ⟨id, started, member, _⟩
      have inside := lists.inside id started
      rw [tree.nodesOf_eq] at inside ⊢
      exact tree.along_subset axis inside other member

/-- A step without a test and without predicates. -/
theorem walks_along (tree : forest.IsTree document root) (axis : Axis) (start : NodeId → Prop) :
    Walks forest document context [.mk axis .node []] start
      (fun other => ∃ id, start id ∧ other ∈ forest.along axis id) := by
  have all (id : NodeId) : candidates forest axis .node id = forest.along axis id :=
    List.filter_eq_self.mpr fun _ _ => rfl
  refine Walks.congr (walks_step tree start (fun _ _ => True) fun id inside started => ?_)
    fun other => by simp
  exact ⟨forest.along axis id, by rw [all, keptBy], by simp⟩

/-- A test for a position keeps the node at that position, if there is one. -/
theorem keepWhere_position {test : Focus → Evaluation σ Bool} {place last : Nat} {nodes : List NodeId}
    {position : Nat} (answers : ∀ focus : Focus, focus.position < position + nodes.length →
      test focus = pure (decide (focus.position = place))) :
    keepWhere test last position nodes =
      pure (if position ≤ place then nodes[place - position]?.toList else []) := by
  induction nodes generalizing position with
  | nil => simp [keepWhere]
  | cons id ids ih =>
      have here := answers ⟨some id, position, last⟩ (by simp)
      have later := ih fun focus (bound : focus.position < position + 1 + ids.length) =>
        answers focus (by simp only [List.length_cons]; omega)
      rw [keepWhere, here, pure_bind, later, pure_bind]
      rcases Nat.lt_trichotomy position place with before | rfl | behind
      · have further : place - position = place - (position + 1) + 1 := by omega
        rw [if_pos (Nat.succ_le_of_lt before), if_pos before.le, further]
        simp [before.ne]
      · simp
      · have passed : ¬ position ≤ place := by omega
        have passedLater : ¬ position + 1 ≤ place := by omega
        rw [if_neg passed, if_neg passedLater]
        simp [behind.ne']

/-- The predicate for the first position keeps the first node. -/
theorem keptBy_first (nodes : List NodeId) :
    keptBy forest context [Selector.countExpr 1] nodes = pure nodes.head?.toList := by
  have test : ∀ focus : Focus, focus.position < 1 + nodes.length →
      (Selector.countExpr 1).testAt forest context focus = pure (decide (focus.position = 1)) := by
    intro focus _
    have kept : keeps context none (.number (Numeral.Decimal.toFloat ⟨1, 0⟩)) focus.position =
        decide (focus.position = 1) := by
      rw [keeps, Option.any_none]
      simp only [Bool.false_eq_true, if_false, Numeral.abs_one_sub_ofNat_lt_iff]
    rw [Selector.countExpr, testAt, evalAt, pure_bind]
    exact congrArg pure kept
  rw [keptBy_single, keepWhere_position test, if_pos (Nat.le_refl 1), Nat.sub_self,
    List.head?_eq_getElem?]

end NodeQuery
