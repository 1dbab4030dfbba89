import NodeQuery.Proofs.Program.Order

/-!
# Sorting once, and unions of node-sets

Any list of nodes, put in document order, is the stable sort of the list with later repetitions
removed, whether the nodes belong to one document, to several or to none.  Nodes of one document are
all at different places, so what the list comes to depends on its members alone, and unions can be
taken in any order and any number of times.
-/

namespace NodeQuery

variable {σ : Type} {forest : Forest}

/-- Whether the first of two nodes is not after the second in document order; nodes at equal places
are not after each other. -/
def Forest.notAfter (forest : Forest) (first second : NodeId) : Bool :=
  !orderBefore (forest.order? second) (forest.order? first)

theorem Forest.notAfter_iff {first second : NodeId} :
    forest.notAfter first second = true ↔ ¬ forest.Precedes second first := by
  rw [notAfter, Precedes, Bool.not_eq_true', Bool.not_eq_true]

theorem Forest.notAfter_trans (forest : Forest) (first second third : NodeId)
    (before : forest.notAfter first second = true) (after : forest.notAfter second third = true) :
    forest.notAfter first third = true := by
  rw [notAfter_iff] at before after ⊢
  intro reversed
  rcases reversed.or_precedes second with low | high
  · exact after low
  · exact before high

theorem Forest.notAfter_total (forest : Forest) (first second : NodeId) :
    (forest.notAfter first second || forest.notAfter second first) = true := by
  rw [Bool.or_eq_true, notAfter_iff, notAfter_iff]
  by_cases before : forest.Precedes second first
  · exact Or.inr before.asymm
  · exact Or.inl before

/-- Inserting nodes one by one, the last one first, is the stable sort. -/
theorem sortByOrder_eq_mergeSort (forest : Forest) (ids : List NodeId) :
    sortByOrder forest ids = ids.mergeSort forest.notAfter := by
  induction ids with
  | nil => rw [List.mergeSort_nil]; rfl
  | cons first others ih =>
      have step : sortByOrder forest (first :: others) =
          insertByOrder forest first (sortByOrder forest others) := rfl
      -- Sorting puts the new node behind those that are before it and nowhere else.
      obtain ⟨before, after, whole, rest, ahead⟩ := List.mergeSort_cons
        forest.notAfter_trans forest.notAfter_total first others
      have sorted := List.pairwise_mergeSort forest.notAfter_trans forest.notAfter_total
        (first :: others)
      rw [whole] at sorted
      rw [step, ih, whole, rest]
      apply insertByOrder_append
      · intro other member
        have strict := ahead other member
        rwa [Forest.notAfter, Bool.not_not] at strict
      · intro other member
        exact Forest.notAfter_iff.mp
          ((List.pairwise_cons.mp (List.pairwise_append.mp sorted).2.1).1 other member)

namespace NodeSet

/-- What is put in document order is the sorted list without its later repetitions, and just as well
the list without its later repetitions, sorted. -/
theorem nodes_inDocumentOrder_eq_mergeSort (forest : Forest) (ids : List NodeId) :
    (inDocumentOrder forest ids).nodes = distinct (ids.mergeSort forest.notAfter) ∧
      (inDocumentOrder forest ids).nodes = (distinct ids).mergeSort forest.notAfter := by
  rw [nodes_inDocumentOrder, ← sortByOrder_eq_mergeSort, ← sortByOrder_eq_mergeSort, distinct,
    distinct, distinctAfter_sortByOrder]
  exact ⟨rfl, rfl⟩

theorem nodup_inDocumentOrder (forest : Forest) (ids : List NodeId) :
    (inDocumentOrder forest ids).nodes.Nodup := nodup_distinct _

def union (forest : Forest) (first second : NodeSet) : NodeSet :=
  inDocumentOrder forest (first.nodes ++ second.nodes)

theorem mem_union {first second : NodeSet} {id : NodeId} :
    id ∈ (union forest first second).nodes ↔ id ∈ first.nodes ∨ id ∈ second.nodes := by
  rw [union, mem_inDocumentOrder, List.mem_append]

/-- The instruction for unions leaves the union of the two uppermost node-sets. -/
theorem execute_union (context : Context σ) (focus : Focus)
    (kept : List NodeId → Evaluation σ (List NodeId)) (first second : NodeSet)
    (stack : Program.Stack) :
    Program.execute forest context focus kept .union (.nodeSet second :: .nodeSet first :: stack) =
      pure (0, .nodeSet (union forest first second) :: stack) := by
  rw [Program.execute]
  simp only [Program.pop, Evaluation.requireNodes, pure_bind]
  rfl

variable {document : DocumentId} {root : NodeId}

/-- Unions with the same members are the same. -/
theorem union_congr (tree : forest.IsTree document root) {first second third fourth : NodeSet}
    (firstInside : ∀ id ∈ first.nodes, id ∈ forest.subtreeWithAttributes root)
    (secondInside : ∀ id ∈ second.nodes, id ∈ forest.subtreeWithAttributes root)
    (same : ∀ id, id ∈ first.nodes ∨ id ∈ second.nodes ↔ id ∈ third.nodes ∨ id ∈ fourth.nodes) :
    union forest first second = union forest third fourth := by
  apply inDocumentOrder_congr tree
  · exact List.forall_mem_append.mpr ⟨firstInside, secondInside⟩
  · intro id
    rw [List.mem_append, List.mem_append, same]

theorem union_inside {first second : NodeSet}
    (firstInside : ∀ id ∈ first.nodes, id ∈ forest.subtreeWithAttributes root)
    (secondInside : ∀ id ∈ second.nodes, id ∈ forest.subtreeWithAttributes root) :
    ∀ id ∈ (union forest first second).nodes, id ∈ forest.subtreeWithAttributes root := by
  intro id member
  exact (mem_union.mp member).elim (firstInside id) (secondInside id)

/-- A list of any nodes, put in document order, is its stable sort with later repetitions removed: it
has the same members, each once.  For nodes of one document of fresh nodes the result depends on the
set of members alone, so the union that the program computes is commutative, associative and, on sets
in document order, idempotent. -/
theorem inDocumentOrder_sorts_once (forest : Forest) (ids : List NodeId) :
    (inDocumentOrder forest ids).nodes = distinct (ids.mergeSort forest.notAfter) ∧
      (inDocumentOrder forest ids).nodes = (distinct ids).mergeSort forest.notAfter ∧
      (inDocumentOrder forest ids).nodes.Nodup ∧
      (∀ id, id ∈ (inDocumentOrder forest ids).nodes ↔ id ∈ ids) ∧
      (∀ (context : Context σ) focus kept first second stack,
        Program.execute forest context focus kept .union
            (.nodeSet second :: .nodeSet first :: stack) =
          pure (0, .nodeSet (union forest first second) :: stack)) ∧
      ∀ document, forest.HasFreshDocument document →
        (∀ id ∈ ids, id ∈ forest.nodesOf document) →
          (∀ others, (∀ id, id ∈ ids ↔ id ∈ others) →
            inDocumentOrder forest ids = inDocumentOrder forest others) ∧
          union forest (inDocumentOrder forest ids) (inDocumentOrder forest ids) =
            inDocumentOrder forest ids ∧
          ∀ first second third : NodeSet, (∀ id ∈ first.nodes, id ∈ forest.nodesOf document) →
            (∀ id ∈ second.nodes, id ∈ forest.nodesOf document) →
            (∀ id ∈ third.nodes, id ∈ forest.nodesOf document) →
              union forest first second = union forest second first ∧
              union forest (union forest first second) third =
                union forest first (union forest second third) ∧
              union forest first first = inDocumentOrder forest first.nodes := by
  obtain ⟨sortedFirst, sortedLast⟩ := nodes_inDocumentOrder_eq_mergeSort forest ids
  refine ⟨sortedFirst, sortedLast, nodup_inDocumentOrder forest ids,
    fun _ => mem_inDocumentOrder, fun context focus kept first second stack =>
      execute_union context focus kept first second stack, ?_⟩
  intro document fresh inside
  rcases fresh.isTree with ⟨root, tree⟩
  rw [tree.nodesOf_eq] at inside ⊢
  have self (id : NodeId) (ids : List NodeId) : id ∈ ids ++ ids ↔ id ∈ ids := by
    rw [List.mem_append, or_self]
  refine ⟨fun others same => inDocumentOrder_congr tree inside same, ?_, ?_⟩
  · symm
    apply inDocumentOrder_congr tree inside
    intro id
    rw [self, mem_inDocumentOrder]
  · intro first second third firstInside secondInside thirdInside
    refine ⟨?_, ?_, ?_⟩
    · exact union_congr tree firstInside secondInside fun _ => Or.comm
    · apply union_congr tree (union_inside firstInside secondInside) thirdInside
      intro id
      rw [mem_union, mem_union, or_assoc]
    · apply inDocumentOrder_congr tree
      · exact List.forall_mem_append.mpr ⟨firstInside, firstInside⟩
      · exact fun id => self id first.nodes

end NodeSet

def elementsTwice : List NodeId := [⟨3⟩, ⟨1⟩, ⟨3⟩]

theorem inDocumentOrder_sorts_once_pair :
    NodeSet.inDocumentOrder pairDocument.1 elementsTwice =
        NodeSet.inDocumentOrder pairDocument.1 [⟨1⟩, ⟨3⟩] ∧
      NodeSet.union pairDocument.1 { nodes := [⟨3⟩] } { nodes := [⟨1⟩] } =
        NodeSet.union pairDocument.1 { nodes := [⟨1⟩] } { nodes := [⟨3⟩] } := by
  have members (id : NodeId) : id ∈ elementsTwice ↔ id ∈ [⟨1⟩, ⟨3⟩] := by
    simp only [elementsTwice, List.mem_cons, List.not_mem_nil, or_false]
    tauto
  have laws := (NodeSet.inDocumentOrder_sorts_once (σ := Unit) pairDocument.1
    elementsTwice).2.2.2.2.2 pairDocument.2 pairDocument_fresh (by decide +kernel)
  refine ⟨laws.1 [⟨1⟩, ⟨3⟩] members, ?_⟩
  exact (laws.2.2 { nodes := [⟨3⟩] } { nodes := [⟨1⟩] } {} (by decide +kernel) (by decide +kernel)
    (by decide +kernel)).1

end NodeQuery
