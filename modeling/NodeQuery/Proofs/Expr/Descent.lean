import NodeQuery.Proofs.Expr.Merging
import NodeQuery.Proofs.Forest.Sibling

/-!
# Two slashes

Two slashes go to a node and everything below it and from there to children.  That regroups what is
below a node by its parents, and positions are counted among the children of one parent.  Where no
predicate looks at its position, the two steps come to the same as one step to everything below.
-/

namespace NodeQuery

open NodeQuery.Expr Evaluation

variable {σ : Type} {forest : Forest} {document : DocumentId} {context : Context σ} {inv : σ → Prop}

namespace Expr

/-- Started from a state with `inv`, a predicate succeeds at every node of a document, ends in such a
state, and keeps the node or not whatever its position is and however many nodes there are. -/
def DecidesAlone (forest : Forest) (document : DocumentId) (context : Context σ) (inv : σ → Prop)
    (predicate : Expr) (holds : NodeId → Bool) : Prop :=
  ∀ id ∈ forest.nodesOf document, ∀ position last, 0 < position → position ≤ last →
    ∀ state, inv state → ∃ value after,
      evalAt forest context ⟨some id, position, last⟩ predicate state = (.ok value, after) ∧
        inv after ∧ keeps context predicate.calledFunction? value position = holds id

theorem DecidesAlone.gives {predicate : Expr} {holds : NodeId → Bool}
    (alone : predicate.DecidesAlone forest document context inv holds) {id : NodeId}
    (inside : id ∈ forest.nodesOf document) {position last : Nat} (pos : 0 < position)
    (le : position ≤ last) :
    Gives inv (holds id) (predicate.testAt forest context ⟨some id, position, last⟩) := by
  intro state kept
  rcases alone id inside position last pos le state kept with ⟨value, after, given, keptAfter, same⟩
  refine ⟨after, ?_, keptAfter⟩
  rw [testAt, bind_apply, given, ← same]
  rfl

/-- Such predicates keep of any nodes those that all of them keep. -/
theorem exists_gives_keptBy {predicates : List Expr} (alone : ∀ predicate ∈ predicates,
      ∃ holds, predicate.DecidesAlone forest document context inv holds) :
    ∃ holds : NodeId → Bool, ∀ nodes, Inside forest document nodes →
      Gives inv (nodes.filter holds) (keptBy forest context predicates nodes) := by
  induction predicates with
  | nil =>
      refine ⟨fun _ => true, fun nodes _ => ?_⟩
      rw [keptBy, List.filter_true]
      exact Gives.pure nodes
  | cons predicate predicates ih =>
      rcases List.forall_mem_cons.mp alone with ⟨⟨first, firstAlone⟩, othersAlone⟩
      rcases ih othersAlone with ⟨others, give⟩
      refine ⟨fun id => others id && first id, fun nodes inside => ?_⟩
      rw [keptBy_cons, ← List.filter_filter]
      have tested : Gives inv (nodes.filter first)
          (keepWhere (predicate.testAt forest context) nodes.length 1 nodes) :=
        Gives.keepWhere (Nat.le_of_eq (Nat.add_comm 1 _)) fun id member _ pos le =>
          firstAlone.gives (inside id member) pos le
      apply tested.bind
      exact give _ fun id member => inside id (List.mem_filter.mp member).1

end Expr

/-- Names below a node are those of elements, as names of children are. -/
theorem NodeTest.accepts_descendant (test : NodeTest) (forest : Forest) :
    test.accepts forest .descendant = test.accepts forest .child := by
  cases test <;> rfl

section
variable {root : NodeId} (tree : forest.IsTree document root) (test : NodeTest)
variable {predicates : List Expr} {holds : NodeId → Bool}
variable (give : ∀ nodes, Inside forest document nodes →
  Gives inv (nodes.filter holds) (keptBy forest context predicates nodes))
variable {set : NodeSet} (inside : Inside forest document set.nodes)
include tree give inside

/-- A step leads to the nodes along its axis that pass its test and that the predicates keep. -/
theorem gives_follow_step (axis : Axis) :
    Gives inv (.nodeSet (NodeSet.inDocumentOrder forest (set.nodes.flatMap fun id =>
        (candidates forest axis test id).filter holds)))
      (follow forest context [.mk axis test predicates] (.nodeSet set)) := by
  apply Gives.follow
  · intro id member
    exact give _ (candidates_inside tree axis test (inside id member))
  · rw [follow]
    exact Gives.pure _

theorem gives_follow_slashes :
    Gives inv (.nodeSet (NodeSet.inDocumentOrder forest
        ((NodeSet.inDocumentOrder forest (set.nodes.flatMap forest.subtree)).nodes.flatMap fun id =>
          (candidates forest .child test id).filter holds)))
      (follow forest context [Step.descendantOrSelf, .mk .child test predicates] (.nodeSet set)) := by
  apply Gives.follow
  · intro id member
    have all : candidates forest .descendantOrSelf .node id = forest.subtree id := by
      rw [candidates, Forest.along_descendantOrSelf]
      exact List.filter_eq_self.mpr fun _ _ => rfl
    rw [all, keptBy]
    exact Gives.pure _
  · apply gives_follow_step tree test give
    intro other member
    rcases List.mem_flatMap.mp (NodeSet.mem_inDocumentOrder.mp member) with ⟨id, among, below⟩
    have start := inside id among
    rw [tree.nodesOf_eq] at start ⊢
    exact tree.subtree_subset start other below

omit give in
/-- What is below a node is what is held by something in its subtree, so both ways lead to the same
nodes. -/
theorem inDocumentOrder_descent :
    NodeSet.inDocumentOrder forest
        ((NodeSet.inDocumentOrder forest (set.nodes.flatMap forest.subtree)).nodes.flatMap fun id =>
          (candidates forest .child test id).filter holds) =
      NodeSet.inDocumentOrder forest (set.nodes.flatMap fun id =>
        (candidates forest .descendant test id).filter holds) := by
  symm
  apply NodeSet.inDocumentOrder_congr tree
  · intro other member
    rcases List.mem_flatMap.mp member with ⟨id, among, found⟩
    rw [← tree.nodesOf_eq]
    exact candidates_inside tree .descendant test (inside id among) other (List.mem_filter.mp found).1
  · intro other
    simp only [List.mem_flatMap, NodeSet.mem_inDocumentOrder, List.mem_filter, candidates,
      Forest.along_descendant, NodeTest.accepts_descendant, Forest.mem_descendants_iff]
    constructor
    · rintro ⟨id, among, ⟨⟨above, below, held⟩, accepted⟩, kept⟩
      exact ⟨above, ⟨id, among, below⟩, ⟨held, accepted⟩, kept⟩
    · rintro ⟨above, ⟨id, among, below⟩, ⟨held, accepted⟩, kept⟩
      exact ⟨id, among, ⟨⟨above, below, held⟩, accepted⟩, kept⟩

end

/-- From nodes of a document, two slashes and a step lead to the same nodes as one step to everything
below, if no predicate of the step looks at its position. -/
theorem Program.runFrom_slashes_eq_descendant (fresh : forest.HasFreshDocument document)
    {set : NodeSet} (inside : ∀ id ∈ set.nodes, id ∈ forest.nodesOf document) (test : NodeTest)
    {predicates : List Expr} (alone : ∀ predicate ∈ predicates,
      ∃ holds, predicate.DecidesAlone forest document context inv holds)
    (focus : Focus) {state : σ} (start : inv state) :
    ∃ found bySlashes byDescendant,
      runFrom forest context focus
        (codeOfSteps [Step.descendantOrSelf, .mk .child test predicates]) 0 [.nodeSet set] state =
          (.ok (.nodeSet found), bySlashes) ∧
      runFrom forest context focus (codeOfSteps [.mk .descendant test predicates]) 0
        [.nodeSet set] state = (.ok (.nodeSet found), byDescendant) ∧
      inv bySlashes ∧ inv byDescendant := by
  rcases fresh.isTree with ⟨root, tree⟩
  rcases exists_gives_keptBy alone with ⟨holds, give⟩
  rcases gives_follow_slashes tree test give inside state start with
    ⟨bySlashes, slashes, keptBySlashes⟩
  rcases gives_follow_step tree test give inside .descendant state start with
    ⟨byDescendant, descendant, keptByDescendant⟩
  rw [inDocumentOrder_descent tree test inside] at slashes
  rw [← runFrom_codeOfSteps_nil focus] at slashes descendant
  exact ⟨_, bySlashes, byDescendant, slashes, descendant, keptBySlashes, keptByDescendant⟩

/-- Whether one step leads anywhere does not depend on a position. -/
theorem Expr.decidesAlone_step (forest : Forest) (document : DocumentId) (context : Context σ)
    (inv : σ → Prop) (axis : Axis) (test : NodeTest) :
    DecidesAlone forest document context inv (.focusPath [.mk axis test []]) fun id =>
      !(NodeSet.inDocumentOrder forest (candidates forest axis test id)).isEmpty := by
  intro id _ position last _ _ state kept
  have given : evalAt forest context ⟨some id, position, last⟩ (.focusPath [.mk axis test []]) = _ :=
    evalAt_step forest context rfl axis test
  exact ⟨_, state, congrFun given state, kept, rfl⟩

/-- The elements with attributes. -/
theorem runFrom_slashes_eq_descendant_nested :
    let forest := Forest.nestedDocument.1
    let context : Context Unit := {}
    let set := NodeSet.ofNodes forest [⟨10⟩]
    let predicates : List Expr := [.focusPath [.mk .attribute .anyName []]]
    ∃ found bySlashes byDescendant,
      Program.runFrom forest context {}
        (codeOfSteps [Step.descendantOrSelf, .mk .child .anyName predicates]) 0 [.nodeSet set] () =
          (.ok (.nodeSet found), bySlashes) ∧
      Program.runFrom forest context {} (codeOfSteps [.mk .descendant .anyName predicates]) 0
        [.nodeSet set] () = (.ok (.nodeSet found), byDescendant) ∧
      True ∧ True := by
  have inside : ∀ id ∈ (NodeSet.ofNodes Forest.nestedDocument.1 [⟨10⟩]).nodes,
      id ∈ Forest.nestedDocument.1.nodesOf Forest.nestedDocument.2 := by
    decide +kernel
  have alone := Expr.decidesAlone_step Forest.nestedDocument.1 Forest.nestedDocument.2
    ({} : Context Unit) (fun _ => True) .attribute .anyName
  exact Program.runFrom_slashes_eq_descendant Forest.nestedDocument_fresh inside .anyName
    (List.forall_mem_singleton.mpr ⟨_, alone⟩) {} trivial

end NodeQuery
