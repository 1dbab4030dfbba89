import NodeQuery.Proofs.Forest.Axis

/-!
# Siblings in a tree

Inside a tree the children of a node's parent are the siblings before the node, the node, and the
siblings behind it, unless the node is an attribute.  What is below a node is the children of what is
below it or of the node itself, so siblings stay below whatever their parent is below.
-/

namespace NodeQuery

namespace Forest

variable {forest : Forest}

/-- An element is not an attribute. -/
theorem kind_ne_attribute_of_isElement {id : NodeId} (element : forest.isElement id = true) :
    forest.kind id ≠ .attribute := by
  rw [eq_of_beq element]
  intro different
  cases different

/-- What is below a node is a child of something in its subtree. -/
theorem mem_descendants_iff {id other : NodeId} :
    other ∈ forest.descendants id ↔ ∃ above ∈ forest.subtree id, other ∈ forest.children above := by
  induction id using forest.childInduction with
  | step id ih =>
      rw [descendants, List.mem_flatMap]
      constructor
      · rintro ⟨child, member, inside⟩
        rw [subtree_eq, List.mem_cons] at inside
        rcases inside with same | below
        · exact ⟨id, mem_subtree.mpr (Or.inl rfl), same ▸ member⟩
        · rcases (ih child member).mp below with ⟨above, under, held⟩
          exact ⟨above, mem_subtree.mpr (Or.inr ⟨child, member, under⟩), held⟩
      · rintro ⟨above, under, held⟩
        rcases mem_subtree.mp under with same | ⟨child, member, inside⟩
        · rw [same] at held
          exact ⟨other, held, mem_subtree.mpr (Or.inl rfl)⟩
        · refine ⟨child, member, ?_⟩
          rw [subtree_eq]
          exact List.mem_cons_of_mem _ ((ih child member).mpr ⟨above, inside, held⟩)

theorem mem_subtree_trans {top middle id : NodeId} (below : middle ∈ forest.subtree top)
    (inside : id ∈ forest.subtree middle) : id ∈ forest.subtree top := by
  induction top using forest.childInduction with
  | step top ih =>
      rcases mem_subtree.mp below with same | ⟨child, member, under⟩
      · rw [← same]
        exact inside
      · exact mem_subtree.mpr (Or.inr ⟨child, member, ih child member under⟩)

theorem mem_subtree_of_descendants {id other : NodeId} (below : other ∈ forest.descendants id) :
    other ∈ forest.subtree id := by
  rw [subtree_eq]
  exact List.mem_cons_of_mem _ below

theorem descendants_of_children {scope start next : NodeId} (below : start ∈ forest.subtree scope)
    (member : next ∈ forest.children start) : next ∈ forest.descendants scope :=
  mem_descendants_iff.mpr ⟨start, below, member⟩

theorem descendants_trans {scope start next : NodeId} (below : start ∈ forest.subtree scope)
    (further : next ∈ forest.descendants start) : next ∈ forest.descendants scope := by
  rcases mem_descendants_iff.mp further with ⟨above, under, held⟩
  exact mem_descendants_iff.mpr ⟨above, mem_subtree_trans below under, held⟩

namespace IsAttachedOnce

variable {top : NodeId} (attached : forest.IsAttachedOnce top)
include attached

/-- A node that is not an attribute is among the children of its parent. -/
theorem mem_children_of_parent? {id parent : NodeId} (inside : id ∈ forest.subtreeWithAttributes top)
    (plain : forest.kind id ≠ .attribute) (found : forest.parent? id = some parent) :
    id ∈ forest.children parent := by
  rcases attached.parent?_cases inside with ⟨_, none⟩ | ⟨other, above, shown, held⟩
  · rw [none] at found
    cases found
  · rw [shown] at found
    rw [← Option.some.inj found]
    rcases List.mem_append.mp held with listed | below
    · exact absurd ((attached.owned other above).attribute_kind id listed) plain
    · exact below

/-- The children of a node's parent, with the node in its place. -/
theorem children_eq {id parent : NodeId} (inside : id ∈ forest.subtreeWithAttributes top)
    (plain : forest.kind id ≠ .attribute) (found : forest.parent? id = some parent) :
    forest.children parent =
      (forest.precedingSiblings id).reverse ++ id :: forest.followingSiblings id := by
  have member := attached.mem_children_of_parent? inside plain found
  have kind : (forest.kind id == .attribute) = false := beq_eq_false_iff_ne.mpr plain
  have contained : (forest.children parent).contains id = true := List.contains_iff_mem.mpr member
  rcases List.eq_append_cons_of_mem member with ⟨before, after, same, absent⟩
  have passed : ∀ other ∈ before, (other != id) = true := by
    intro other earlier
    rw [bne_iff_ne]
    rintro rfl
    exact absent earlier
  have earlier : (forest.children parent).takeWhile (· != id) = before := by
    rw [same, List.takeWhile_append_of_pos passed, List.takeWhile_cons_of_neg (by simp),
      List.append_nil]
  have later : (forest.children parent).dropWhile (· != id) = id :: after := by
    rw [same, List.dropWhile_append_of_pos passed, List.dropWhile_cons_of_neg (by simp)]
  have preceding : forest.precedingSiblings id = before.reverse := by
    simp only [precedingSiblings, kind, found, contained, earlier, if_true, Bool.false_eq_true,
      if_false]
  have following : forest.followingSiblings id = after := by
    simp only [followingSiblings, kind, found, later, List.tail_cons, Bool.false_eq_true, if_false]
  rw [preceding, following, List.reverse_reverse, same]

theorem children_nodup {id : NodeId} (inside : id ∈ forest.subtreeWithAttributes top) :
    (forest.children id).Nodup :=
  (List.nodup_append.mp (attached.owned id inside).once).2.1

end IsAttachedOnce

namespace IsTree

variable {document : DocumentId} {root : NodeId} (tree : forest.IsTree document root)
include tree

theorem children_eq {id parent : NodeId} (inside : id ∈ forest.subtreeWithAttributes root)
    (plain : forest.kind id ≠ .attribute) (found : forest.parent? id = some parent) :
    forest.children parent =
      (forest.precedingSiblings id).reverse ++ id :: forest.followingSiblings id :=
  tree.attached.children_eq inside plain found

theorem children_nodup {id : NodeId} (inside : id ∈ forest.subtreeWithAttributes root) :
    (forest.children id).Nodup :=
  tree.attached.children_nodup inside

/-- What is beside a node stays below whatever the node is below. -/
theorem descendants_of_followingSiblings {scope start next : NodeId}
    (inside : scope ∈ forest.subtreeWithAttributes root) (below : start ∈ forest.descendants scope)
    (member : next ∈ forest.followingSiblings start) : next ∈ forest.descendants scope := by
  rcases mem_descendants_iff.mp below with ⟨above, under, held⟩
  have found := tree.parent?_of_held (tree.subtree_subset inside above under)
    (List.mem_append_right _ held)
  rw [followingSiblings, found] at member
  split at member
  · cases member
  · apply descendants_of_children under
    exact (List.dropWhile_sublist _).subset (List.mem_of_mem_tail member)

end IsTree

end Forest

end NodeQuery
