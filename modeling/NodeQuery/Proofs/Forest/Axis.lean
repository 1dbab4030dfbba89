import Mathlib.Data.List.Pairwise
import NodeQuery.Proofs.Forest.Document

/-!
# Axes in a tree

No axis leads out of the tree of a document, and from every node of it the way up ends at the document
node.  Listing the tree, or a part of it in the same order, lists it in document order.
-/

namespace NodeQuery

namespace Forest

/-- The nodes above a node, by one step. -/
theorem ancestors_eq (forest : Forest) (id : NodeId) :
    forest.ancestors id =
      match forest.parent? id with
      | none => []
      | some parent => parent :: forest.ancestors parent := by
  rw [ancestors]
  split
  · rename_i none
    rw [none]
  · rename_i parent found
    simp only [found]

/-- Nothing has a root but the last node above it or itself. -/
theorem root_eq (forest : Forest) (id : NodeId) :
    forest.root id =
      match forest.parent? id with
      | none => id
      | some parent => forest.root parent := by
  rw [Forest.root, ancestors_eq]
  cases forest.parent? id with
  | none => rfl
  | some parent =>
      rw [List.getLast?_cons, Option.getD_some]
      rfl

namespace IsAttachedOnce

variable {forest : Forest} {top : NodeId} (attached : forest.IsAttachedOnce top)
include attached

/-- What a node of the tree is held by is found as its parent. -/
theorem parent?_of_held {parent held : NodeId} (inside : parent ∈ forest.subtreeWithAttributes top)
    (member : held ∈ forest.attributes parent ++ forest.children parent) :
    forest.parent? held = some parent :=
  parent?_of_owns (attached.owned parent inside) member

theorem parent?_top : forest.parent? top = none := by
  rw [parent?, attached.free, Option.filter_none]

/-- A node of the tree is its top or is held by its parent. -/
theorem parent?_cases {id : NodeId} (inside : id ∈ forest.subtreeWithAttributes top) :
    id = top ∧ forest.parent? id = none ∨
      ∃ parent ∈ forest.subtreeWithAttributes top, forest.parent? id = some parent ∧
        id ∈ forest.attributes parent ++ forest.children parent := by
  rcases parent_mem_of_owns attached.owned inside with same | ⟨parent, above, held⟩
  · exact Or.inl ⟨same, same ▸ attached.parent?_top⟩
  · exact Or.inr ⟨parent, above, attached.parent?_of_held above held, held⟩

/-- What holds of the top, and of whatever is held by a node it holds of, holds of every node of the
tree. -/
theorem upwardInduction
    {motive : (id : NodeId) → id ∈ forest.subtreeWithAttributes top → Prop}
    (start : motive top (mem_subtreeWithAttributes_self top))
    (step : ∀ parent (above : parent ∈ forest.subtreeWithAttributes top), motive parent above →
      ∀ id (held : id ∈ forest.attributes parent ++ forest.children parent),
        motive id (held_mem_of_owns attached.owned above held))
    {id : NodeId} (inside : id ∈ forest.subtreeWithAttributes top) : motive id inside := by
  rcases attached.parent?_cases inside with ⟨rfl, _⟩ | ⟨parent, above, _, held⟩
  · exact start
  · have up := lt_of_mem_held held
    have bound := index_le_of_mem_subtree above
    exact step parent above (upwardInduction start step above) id held
termination_by top.index - id.index

/-- From every node of the tree the way up ends at the top. -/
theorem root_eq_of_mem {id : NodeId} (inside : id ∈ forest.subtreeWithAttributes top) :
    forest.root id = top := by
  induction inside using attached.upwardInduction with
  | start => rw [forest.root_eq, attached.parent?_top]
  | step parent above ih id held =>
      rw [forest.root_eq, attached.parent?_of_held above held]
      exact ih

theorem ancestors_subset {id : NodeId} (inside : id ∈ forest.subtreeWithAttributes top) :
    ∀ other ∈ forest.ancestors id, other ∈ forest.subtreeWithAttributes top := by
  induction inside using attached.upwardInduction with
  | start =>
      rw [ancestors_eq, attached.parent?_top]
      exact fun _ member => absurd member List.not_mem_nil
  | step parent above ih id held =>
      rw [ancestors_eq, attached.parent?_of_held above held]
      exact List.forall_mem_cons.mpr ⟨above, ih⟩

theorem subtree_subset {id : NodeId} (inside : id ∈ forest.subtreeWithAttributes top) :
    ∀ other ∈ forest.subtree id, other ∈ forest.subtreeWithAttributes top := by
  induction id using forest.childInduction with
  | step id ih =>
      intro other below
      rcases mem_subtree.mp below with same | ⟨child, member, under⟩
      · rw [same]
        exact inside
      · have childInside := held_mem_of_owns attached.owned inside (List.mem_append_right _ member)
        exact ih child member childInside other under

end IsAttachedOnce

namespace IsTree

variable {forest : Forest} {document : DocumentId} {root : NodeId}
variable (tree : forest.IsTree document root)
include tree

theorem parent?_of_held {parent held : NodeId} (inside : parent ∈ forest.subtreeWithAttributes root)
    (member : held ∈ forest.attributes parent ++ forest.children parent) :
    forest.parent? held = some parent :=
  tree.attached.parent?_of_held inside member

theorem parent?_root : forest.parent? root = none := tree.attached.parent?_top

theorem parent?_cases {id : NodeId} (inside : id ∈ forest.subtreeWithAttributes root) :
    id = root ∧ forest.parent? id = none ∨
      ∃ parent ∈ forest.subtreeWithAttributes root, forest.parent? id = some parent ∧
        id ∈ forest.attributes parent ++ forest.children parent :=
  tree.attached.parent?_cases inside

theorem parent?_mem {id parent : NodeId} (inside : id ∈ forest.subtreeWithAttributes root)
    (found : forest.parent? id = some parent) : parent ∈ forest.subtreeWithAttributes root := by
  rcases tree.parent?_cases inside with ⟨_, none⟩ | ⟨other, above, shown, _⟩
  · rw [none] at found
    cases found
  · rw [shown] at found
    rw [← Option.some.inj found]
    exact above

/-- What holds of the document node, and of whatever is held by a node it holds of, holds of every node
of the tree. -/
theorem upwardInduction
    {motive : (id : NodeId) → id ∈ forest.subtreeWithAttributes root → Prop}
    (top : motive root (mem_subtreeWithAttributes_self root))
    (step : ∀ parent (above : parent ∈ forest.subtreeWithAttributes root), motive parent above →
      ∀ id (held : id ∈ forest.attributes parent ++ forest.children parent),
        motive id (held_mem_of_owns tree.owned above held))
    {id : NodeId} (inside : id ∈ forest.subtreeWithAttributes root) : motive id inside :=
  tree.attached.upwardInduction top step inside

/-- From every node of the tree the way up ends at the document node. -/
theorem root_eq_of_mem {id : NodeId} (inside : id ∈ forest.subtreeWithAttributes root) :
    forest.root id = root :=
  tree.attached.root_eq_of_mem inside

theorem ancestors_subset {id : NodeId} (inside : id ∈ forest.subtreeWithAttributes root) :
    ∀ other ∈ forest.ancestors id, other ∈ forest.subtreeWithAttributes root :=
  tree.attached.ancestors_subset inside

theorem children_subset {id : NodeId} (inside : id ∈ forest.subtreeWithAttributes root) :
    ∀ child ∈ forest.children id, child ∈ forest.subtreeWithAttributes root :=
  fun _ member => held_mem_of_owns tree.owned inside (List.mem_append_right _ member)

theorem attributes_subset {id : NodeId} (inside : id ∈ forest.subtreeWithAttributes root) :
    ∀ held ∈ forest.attributes id, held ∈ forest.subtreeWithAttributes root :=
  fun _ member => held_mem_of_owns tree.owned inside (List.mem_append_left _ member)

theorem subtree_subset {id : NodeId} (inside : id ∈ forest.subtreeWithAttributes root) :
    ∀ other ∈ forest.subtree id, other ∈ forest.subtreeWithAttributes root :=
  tree.attached.subtree_subset inside

theorem descendants_subset {id : NodeId} (inside : id ∈ forest.subtreeWithAttributes root) :
    ∀ other ∈ forest.descendants id, other ∈ forest.subtreeWithAttributes root := by
  intro other below
  apply tree.subtree_subset inside
  rw [subtree_eq]
  exact List.mem_cons_of_mem _ below

theorem followingSiblings_subset {id : NodeId} (inside : id ∈ forest.subtreeWithAttributes root) :
    ∀ other ∈ forest.followingSiblings id, other ∈ forest.subtreeWithAttributes root := by
  intro other member
  rw [followingSiblings] at member
  split at member
  · cases member
  · split at member
    · cases member
    · rename_i parent found
      apply tree.children_subset (tree.parent?_mem inside found)
      exact (List.dropWhile_sublist _).subset (List.mem_of_mem_tail member)

theorem precedingSiblings_subset {id : NodeId} (inside : id ∈ forest.subtreeWithAttributes root) :
    ∀ other ∈ forest.precedingSiblings id, other ∈ forest.subtreeWithAttributes root := by
  intro other member
  rw [precedingSiblings] at member
  split at member
  · cases member
  · split at member
    · cases member
    · rename_i parent found
      apply tree.children_subset (tree.parent?_mem inside found)
      dsimp only at member
      split at member
      · exact (List.takeWhile_sublist _).subset (List.mem_reverse.mp member)
      · cases member

theorem afterSubtree_subset {id : NodeId} (inside : id ∈ forest.subtreeWithAttributes root) :
    ∀ other ∈ forest.afterSubtree id, other ∈ forest.subtreeWithAttributes root := by
  intro other member
  rcases List.mem_flatMap.mp member with ⟨anchor, anchored, further⟩
  rcases List.mem_flatMap.mp further with ⟨sibling, beside, below⟩
  rw [walkDown_true] at below
  have anchorInside : anchor ∈ forest.subtreeWithAttributes root := by
    rcases List.mem_cons.mp anchored with same | above
    · rw [same]
      exact inside
    · exact tree.ancestors_subset inside anchor above
  exact tree.subtree_subset (tree.followingSiblings_subset anchorInside sibling beside) other below

/-- No axis leads out of the tree. -/
theorem along_subset (axis : Axis) {id : NodeId}
    (inside : id ∈ forest.subtreeWithAttributes root) :
    ∀ other ∈ forest.along axis id, other ∈ forest.subtreeWithAttributes root := by
  intro other member
  cases axis with
  | child => exact tree.children_subset inside other member
  | descendant =>
      rw [along_descendant] at member
      exact tree.descendants_subset inside other member
  | «attribute» => exact tree.attributes_subset inside other member
  | self =>
      rw [List.mem_singleton.mp member]
      exact inside
  | descendantOrSelf =>
      rw [along_descendantOrSelf] at member
      exact tree.subtree_subset inside other member
  | followingSibling => exact tree.followingSiblings_subset inside other member
  | following =>
      rw [along, following] at member
      split at member
      · split at member
        · cases member
        · rename_i owner found
          have above := tree.parent?_mem inside found
          rw [walkDown_false] at member
          rcases List.mem_append.mp member with below | after
          · exact tree.descendants_subset above other below
          · exact tree.afterSubtree_subset above other after
      · exact tree.afterSubtree_subset inside other member
  | parent => exact tree.parent?_mem inside (Option.mem_toList.mp member)
  | ancestor => exact tree.ancestors_subset inside other member
  | precedingSibling => exact tree.precedingSiblings_subset inside other member
  | preceding =>
      rw [along, preceding, walkDown_false, List.mem_reverse] at member
      have below := (List.mem_filter.mp member).1
      rw [tree.root_eq_of_mem inside] at below
      exact tree.descendants_subset (mem_subtreeWithAttributes_self root) other below
  | ancestorOrSelf =>
      rcases List.mem_cons.mp member with same | above
      · rw [same]
        exact inside
      · exact tree.ancestors_subset inside other above

theorem nodup : (forest.subtreeWithAttributes root).Nodup := nodup_subtreeWithAttributes tree.owned

/-- The tree is numbered in the order in which its subtree is listed. -/
theorem ascending : forest.Ascending (forest.subtreeWithAttributes root) := by
  refine ⟨tree.nodup, ?_⟩
  have ordered : ((forest.subtreeWithAttributes root).map forest.order?).Pairwise
      fun first second => orderBefore first second = true := by
    rw [tree.numbered, List.pairwise_map]
    apply List.pairwise_lt_range.imp
    intro first second before
    exact decide_eq_true before
  rw [List.pairwise_map] at ordered
  exact ordered

/-- Of two nodes of the tree one is before the other. -/
theorem precedes_or_precedes {first second : NodeId}
    (firstInside : first ∈ forest.subtreeWithAttributes root)
    (secondInside : second ∈ forest.subtreeWithAttributes root) (apart : first ≠ second) :
    forest.Precedes first second ∨ forest.Precedes second first := by
  have either : (forest.subtreeWithAttributes root).Pairwise fun first second =>
      forest.Precedes first second ∨ forest.Precedes second first :=
    tree.ascending.ordered.imp fun before => Or.inl before
  have symmetric : Std.Symm fun first second : NodeId =>
      forest.Precedes first second ∨ forest.Precedes second first :=
    ⟨fun _ _ found => found.symm⟩
  exact either.forall firstInside secondInside apart

end IsTree

/-- Part of a list in document order, listed alike, is in document order. -/
theorem Ascending.sublist {forest : Forest} {ids part : List NodeId}
    (ascending : forest.Ascending ids) (sublist : part.Sublist ids) : forest.Ascending part :=
  ⟨ascending.distinct.sublist sublist, ascending.ordered.sublist sublist⟩

instance (forest : Forest) : DecidableRel forest.Precedes := fun first second =>
  inferInstanceAs (Decidable (orderBefore (forest.order? first) (forest.order? second) = true))

/-- No two nodes are before each other. -/
theorem Precedes.asymm {forest : Forest} {first second : NodeId}
    (before : forest.Precedes first second) : ¬forest.Precedes second first := by
  intro after
  rw [Precedes] at before after
  cases firstOrder : forest.order? first with
  | none =>
      rw [firstOrder] at before
      cases before
  | some low =>
      cases secondOrder : forest.order? second with
      | none =>
          rw [secondOrder] at after
          cases after
      | some high =>
          rw [firstOrder, secondOrder] at before after
          simp only [orderBefore, decide_eq_true_eq] at before after
          exact Nat.lt_asymm before after

/-- Of two nodes in order, any node is behind the first or in front of the second. -/
theorem Precedes.or_precedes {forest : Forest} {first second : NodeId}
    (before : forest.Precedes first second) (other : NodeId) :
    forest.Precedes first other ∨ forest.Precedes other second := by
  rw [Precedes] at before
  rw [Precedes, Precedes]
  rcases firstOrder : forest.order? first with _ | low
  · rw [firstOrder] at before
    cases before
  · rcases otherOrder : forest.order? other with _ | middle
    · exact Or.inl rfl
    · rcases secondOrder : forest.order? second with _ | high
      · exact Or.inr rfl
      · rw [firstOrder, secondOrder] at before
        simp only [orderBefore, decide_eq_true_eq] at before ⊢
        omega

/-- Nodes can be listed in document order in one way only. -/
theorem Ascending.eq_of_mem_iff {forest : Forest} {ids others : List NodeId}
    (ascending : forest.Ascending ids) (othersAscending : forest.Ascending others)
    (same : ∀ id, id ∈ ids ↔ id ∈ others) : ids = others := by
  apply List.Perm.eq_of_pairwise _ ascending.ordered othersAscending.ordered
  · exact (List.perm_ext_iff_of_nodup ascending.distinct othersAscending.distinct).mpr same
  · intro first second _ _ before after
    exact absurd after before.asymm

/-- What is before a node is before all that the node is before. -/
theorem Precedes.trans {forest : Forest} {first second third : NodeId}
    (before : forest.Precedes first second) (after : forest.Precedes second third) :
    forest.Precedes first third := by
  rw [Precedes] at before after ⊢
  rcases firstOrder : forest.order? first with _ | low
  · rw [firstOrder] at before
    cases before
  · rcases secondOrder : forest.order? second with _ | middle
    · rw [secondOrder] at after
      cases after
    · rw [firstOrder, secondOrder] at before
      rw [secondOrder] at after
      rcases thirdOrder : forest.order? third with _ | high
      · rfl
      · rw [thirdOrder] at after
        simp only [orderBefore, decide_eq_true_eq] at before after ⊢
        exact Nat.lt_trans before after

end Forest

end NodeQuery
