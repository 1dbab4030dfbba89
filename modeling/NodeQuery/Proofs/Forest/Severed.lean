import NodeQuery.Evaluation
import NodeQuery.Proofs.Forest.Walks
import NodeQuery.Proofs.NodeSet

/-!
# Nodes that outlive their document

A node holds what is below it, and only remembers what is above.  When its document is let go, and
whatever is forgotten then, a node of the document may find that its parent is gone, and reports no
document any more.  What it holds stays, and so do names, texts and numbers, whatever else happens to
the forest: on the way down from the node everything is found as before, and sorted as before.
-/

namespace NodeQuery

/-- Whether an axis leads to a node itself, to what it holds and to what hangs below it, and nowhere
else. -/
def Axis.leadsDown : Axis → Bool
  | .child | .attribute | .self | .descendant | .descendantOrSelf => true
  | _ => false

namespace Forest

/-- A node is stored alike in two forests, but for its parent and whether it is alive. -/
def Retains (first second : Forest) (id : NodeId) : Prop :=
  second.node id = { first.node id with
    parent := (second.node id).parent
    alive := (second.node id).alive }

/-- A node has been given its document and its number. -/
structure IsEnrolled (forest : Forest) (id : NodeId) : Prop where
  document : (forest.node id).document ≠ none
  order : (forest.node id).order ≠ none

namespace Retains

variable {first second : Forest} {id : NodeId}

theorem of_parent (same : ∃ parent, second.node id = { first.node id with parent := parent }) :
    Retains first second id := by
  obtain ⟨parent, shown⟩ := same
  rw [Retains, shown]

theorem trans {third : Forest} (before : Retains first second id) (after : Retains second third id) :
    Retains first third id := by
  rw [Retains] at before after
  rw [Retains, after, before]

theorem isEnrolled (retains : Retains first second id) (enrolled : first.IsEnrolled id) :
    second.IsEnrolled id := by
  constructor
  · rw [retains]
    exact enrolled.document
  · rw [retains]
    exact enrolled.order

theorem children_eq (retains : Retains first second id) :
    second.children id = first.children id := by
  rw [children, children, retains]

theorem attributes_eq (retains : Retains first second id) :
    second.attributes id = first.attributes id := by
  rw [attributes, attributes, retains]

theorem kind_eq (retains : Retains first second id) : second.kind id = first.kind id := by
  rw [kind, kind, retains]

theorem name?_eq (retains : Retains first second id) : second.name? id = first.name? id := by
  rw [name?, name?, retains]

theorem value?_eq (retains : Retains first second id) : second.value? id = first.value? id := by
  rw [value?, value?, retains]

theorem order?_eq (retains : Retains first second id) : second.order? id = first.order? id := by
  rw [order?, order?, retains]

theorem document_eq (retains : Retains first second id) :
    (second.node id).document = (first.node id).document := by
  rw [retains]

end Retains

section
variable {forest later : Forest} {id : NodeId}

/-- Only stored nodes have numbers. -/
theorem IsEnrolled.stored (enrolled : forest.IsEnrolled id) : id.index < forest.nodes.size := by
  by_contra outside
  apply enrolled.order
  rw [forest.node_of_size_le (Nat.not_lt.mp outside)]

/-- A node keeps the number it has. -/
theorem IsEnrolled.node_enrollAll (enrolled : forest.IsEnrolled id) (document : DocumentId)
    (ids : List NodeId) (start : Nat) :
    (forest.enrollAll document ids start).node id = forest.node id := by
  induction ids generalizing forest start with
  | nil => rfl
  | cons other ids ih =>
      have same : (forest.enroll document other start).node id = forest.node id := by
        rw [enroll, node_modify]
        split
        · obtain ⟨holder, held⟩ := Option.ne_none_iff_exists'.mp enrolled.document
          obtain ⟨number, given⟩ := Option.ne_none_iff_exists'.mp enrolled.order
          rw [Node.numberedIn, held, given, Option.some_or, Option.some_or, ← held, ← given]
        · rfl
      have still : (forest.enroll document other start).IsEnrolled id := by
        constructor
        · rw [same]
          exact enrolled.document
        · rw [same]
          exact enrolled.order
      rw [enrollAll_cons, ih still, same]

/-- A step leaves of a numbered node all but its parent and whether it is alive. -/
theorem Next.retains (step : forest.Next later) (enrolled : forest.IsEnrolled id) :
    Retains forest later id := by
  cases step with
  | built kind name value stored => exact .of_parent (forest.node_add_old _ enrolled.stored)
  | @opened top stored =>
      have under : Retains forest (forest.registered top) id := by
        have same : (forest.registered top).node id = (forest.underDocumentNode top).1.node id := rfl
        rw [underDocumentNode_eq] at same
        split at same
        · exact .of_parent ⟨_, same⟩
        · rw [Retains, same]
          exact Retains.of_parent (exists_node_capped enrolled.stored top)
      refine under.trans (.of_parent ?_)
      rw [openDocument_eq, (under.isEnrolled enrolled).node_enrollAll]
      exact ⟨_, rfl⟩
  | decorated document decoration => exact .of_parent ⟨_, rfl⟩
  | closed document => exact .of_parent ⟨_, rfl⟩
  | forgotten held =>
      obtain ⟨alive, shown⟩ := forest.exists_node_retain held id
      rw [Retains, shown]

/-- However many steps are taken, a numbered node holds the same and shows the same. -/
theorem Reaches.retains (reaches : Reaches forest later) (enrolled : forest.IsEnrolled id) :
    Retains forest later id := by
  induction reaches with
  | refl => exact .of_parent ⟨_, rfl⟩
  | tail _ step before => exact before.trans (step.retains (before.isEnrolled enrolled))

end

/-- A later forest in which a document has been let go, with all of its nodes stored as they were but
for their parents. -/
structure IsSevered (forest later : Forest) (document : DocumentId) (root : NodeId) : Prop where
  tree : forest.IsTree document root
  retains : ∀ id ∈ forest.nodesOf document, Retains forest later id
  closed : later.isOpen document = false

variable {forest later : Forest} {document : DocumentId} {root : NodeId}

theorem IsTree.isEnrolled (tree : forest.IsTree document root) {id : NodeId}
    (inside : id ∈ forest.nodesOf document) : forest.IsEnrolled id := by
  rw [tree.nodesOf_eq] at inside
  constructor
  · rw [(Option.filter_eq_some_iff.mp (tree.document id inside)).1]
    exact Option.some_ne_none _
  · have member := List.mem_map_of_mem (f := forest.order?) inside
    rw [tree.numbered] at member
    obtain ⟨number, _, shown⟩ := List.mem_map.mp member
    rw [order?] at shown
    rw [← shown]
    exact Option.some_ne_none _

/-- Whatever steps lead to a forest in which a document of fresh nodes has been let go, they leave
its nodes as they were but for their parents. -/
theorem HasFreshDocument.isSevered (fresh : forest.HasFreshDocument document)
    (reaches : Reaches forest later) (closed : later.isOpen document = false) :
    ∃ root, forest.IsSevered later document root := by
  obtain ⟨root, tree⟩ := fresh.isTree
  exact ⟨root, tree, fun _ inside => reaches.retains (tree.isEnrolled inside), closed⟩

namespace IsSevered

variable (severed : forest.IsSevered later document root)
include severed

/-- No node of the document reports a document any more. -/
theorem document?_eq {id : NodeId} (inside : id ∈ forest.nodesOf document) :
    later.document? id = none := by
  have same := (severed.retains id inside).document_eq
  rw [severed.tree.nodesOf_eq] at inside
  rw [(Option.filter_eq_some_iff.mp (severed.tree.document id inside)).1] at same
  rw [document?, same, Option.filter_some, severed.closed, if_neg Bool.false_ne_true]

theorem children_inside {id child : NodeId} (inside : id ∈ forest.nodesOf document)
    (member : child ∈ forest.children id) : child ∈ forest.nodesOf document := by
  rw [severed.tree.nodesOf_eq] at inside ⊢
  exact severed.tree.children_subset inside child member

theorem subtree_eq {id : NodeId} (inside : id ∈ forest.nodesOf document) :
    later.subtree id = forest.subtree id := by
  induction id using forest.childInduction with
  | step id ih =>
      rw [later.subtree_eq, forest.subtree_eq, descendants, descendants,
        (severed.retains id inside).children_eq]
      congr 1
      apply List.flatMap_congr
      exact fun child member => ih child member (severed.children_inside inside member)

theorem descendants_eq {id : NodeId} (inside : id ∈ forest.nodesOf document) :
    later.descendants id = forest.descendants id := by
  have whole := severed.subtree_eq inside
  rw [later.subtree_eq, forest.subtree_eq] at whole
  exact (List.cons.inj whole).2

/-- Along the axes that lead down a node finds what it found before. -/
theorem along_eq {axis : Axis} (down : axis.leadsDown = true) {id : NodeId}
    (inside : id ∈ forest.nodesOf document) : later.along axis id = forest.along axis id := by
  cases axis with
  | self => rfl
  | child => exact (severed.retains id inside).children_eq
  | «attribute» => exact (severed.retains id inside).attributes_eq
  | descendant =>
      rw [along_descendant, along_descendant]
      exact severed.descendants_eq inside
  | descendantOrSelf =>
      rw [along_descendantOrSelf, along_descendantOrSelf]
      exact severed.subtree_eq inside
  | _ => cases down

theorem along_inside (axis : Axis) {id other : NodeId} (inside : id ∈ forest.nodesOf document)
    (member : other ∈ forest.along axis id) : other ∈ forest.nodesOf document := by
  rw [severed.tree.nodesOf_eq] at inside ⊢
  exact severed.tree.along_subset axis inside other member

theorem accepts_eq (test : NodeTest) (axis : Axis) {id : NodeId}
    (inside : id ∈ forest.nodesOf document) :
    test.accepts later axis id = test.accepts forest axis id := by
  have retains := severed.retains id inside
  cases test <;> simp only [NodeTest.accepts, retains.kind_eq, retains.name?_eq]

theorem candidates_eq {axis : Axis} (down : axis.leadsDown = true) (test : NodeTest) {id : NodeId}
    (inside : id ∈ forest.nodesOf document) :
    Evaluation.candidates later axis test id = Evaluation.candidates forest axis test id := by
  rw [Evaluation.candidates, Evaluation.candidates, severed.along_eq down inside]
  apply List.filter_congr
  intro other member
  exact severed.accepts_eq test axis (severed.along_inside axis inside member)

theorem textBelow_eq {id : NodeId} (inside : id ∈ forest.nodesOf document) :
    later.textBelow id = forest.textBelow id := by
  induction id using forest.childInduction with
  | step id ih =>
      rw [later.textBelow_eq, forest.textBelow_eq, (severed.retains id inside).children_eq]
      congr 1
      apply List.map_congr_left
      intro child member
      have childInside := severed.children_inside inside member
      have retains := severed.retains child childInside
      rw [textAdded, textAdded, retains.kind_eq, retains.value?_eq, ih child member childInside]

theorem stringValue_eq {id : NodeId} (inside : id ∈ forest.nodesOf document) :
    later.stringValue id = forest.stringValue id := by
  have retains := severed.retains id inside
  rw [stringValue, stringValue, retains.kind_eq, severed.textBelow_eq inside, retains.value?_eq]

theorem ofNodes_eq {ids : List NodeId} (inside : ∀ id ∈ ids, id ∈ forest.nodesOf document) :
    NodeSet.ofNodes later ids = { nodes := (NodeSet.ofNodes forest ids).nodes } := by
  have none : ids.head?.bind later.document? = none := by
    cases ids with
    | nil => rfl
    | cons id ids => exact severed.document?_eq (inside id List.mem_cons_self)
  rw [NodeSet.ofNodes, NodeSet.ofNodes, none]

theorem insertByOrder_eq {id : NodeId} {ids : List NodeId}
    (inside : ∀ other ∈ id :: ids, other ∈ forest.nodesOf document) :
    insertByOrder later id ids = insertByOrder forest id ids := by
  obtain ⟨here, others⟩ := List.forall_mem_cons.mp inside
  induction ids with
  | nil => rfl
  | cons other ids ih =>
      obtain ⟨first, rest⟩ := List.forall_mem_cons.mp others
      rw [insertByOrder, insertByOrder, (severed.retains id here).order?_eq,
        (severed.retains other first).order?_eq,
        ih (List.forall_mem_cons.mpr ⟨here, rest⟩) rest]

theorem sortByOrder_eq {ids : List NodeId} (inside : ∀ id ∈ ids, id ∈ forest.nodesOf document) :
    sortByOrder later ids = sortByOrder forest ids := by
  induction ids with
  | nil => rfl
  | cons id ids ih =>
      obtain ⟨here, others⟩ := List.forall_mem_cons.mp inside
      have sorted : ∀ other ∈ sortByOrder forest ids, other ∈ forest.nodesOf document :=
        fun other member => others other ((sortByOrder_perm forest ids).mem_iff.mp member)
      have step (forest : Forest) :
          sortByOrder forest (id :: ids) = insertByOrder forest id (sortByOrder forest ids) := rfl
      rw [step, step, ih others, severed.insertByOrder_eq (List.forall_mem_cons.mpr ⟨here, sorted⟩)]

/-- The nodes are sorted as before, and the set has no document. -/
theorem inDocumentOrder_eq {ids : List NodeId}
    (inside : ∀ id ∈ ids, id ∈ forest.nodesOf document) :
    NodeSet.inDocumentOrder later ids = { nodes := (NodeSet.inDocumentOrder forest ids).nodes } := by
  have once : ∀ id ∈ distinct ids, id ∈ forest.nodesOf document :=
    fun id member => inside id (mem_distinct.mp member)
  have sorted : ∀ id ∈ sortByOrder forest (distinct ids), id ∈ forest.nodesOf document :=
    fun id member => once id ((sortByOrder_perm forest _).mem_iff.mp member)
  rw [NodeSet.inDocumentOrder_eq, NodeSet.inDocumentOrder_eq, severed.sortByOrder_eq once,
    severed.ofNodes_eq sorted]

end IsSevered

end Forest

end NodeQuery
