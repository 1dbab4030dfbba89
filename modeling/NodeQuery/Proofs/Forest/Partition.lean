import Mathlib.Logic.Relation
import NodeQuery.Proofs.Forest.Sibling

/-!
# The axes around a node

Around every node the axes share out the tree: what is above the node, what is below it, what comes
before it and what comes after it are apart and leave nothing out.  Going up from a node, the list of
the whole tree is cut at the node into what comes before its subtree, the subtree, and what comes after
it; what comes before is the nodes above and the preceding ones.

Every axis lists its nodes in document order, those that look back the other way round.
-/

namespace NodeQuery

/-- The axes that list the nodes nearest to a node first, against document order. -/
def Axis.looksBack : Axis → Bool
  | .ancestor | .ancestorOrSelf | .preceding | .precedingSibling => true
  | _ => false

/-- The axes that share out a tree around a node of a kind.  An attribute is no one's child, so neither
it nor anything below it is among what is shared out. -/
def NodeKind.axesAround : NodeKind → List Axis
  | .attribute => [.ancestor, .preceding, .following]
  | _ => [.self, .ancestor, .descendant, .preceding, .following]

namespace Forest

/-- Whether children of children, any number of generations on, lead from one node to another. -/
def LeadsTo (forest : Forest) : NodeId → NodeId → Prop :=
  Relation.ReflTransGen fun above below => below ∈ forest.children above

/-- Attributes of a document stand in the attribute lists of its nodes, and so nowhere else. -/
def AttributesListed (forest : Forest) (document : DocumentId) : Prop :=
  ∀ id ∈ forest.nodesOf document, forest.kind id = .attribute →
    ∃ owner ∈ forest.nodesOf document, id ∈ forest.attributes owner

variable {forest : Forest}

theorem mem_subtree_self (id : NodeId) : id ∈ forest.subtree id := mem_subtree.mpr (Or.inl rfl)

/-- The subtree of a node holds what the node leads to. -/
theorem mem_subtree_iff_leadsTo {top id : NodeId} : id ∈ forest.subtree top ↔ forest.LeadsTo top id := by
  constructor
  · intro below
    induction top using forest.childInduction with
    | step top ih =>
        rcases mem_subtree.mp below with same | ⟨child, member, under⟩
        · rw [same]
          exact .refl
        · exact (Relation.ReflTransGen.single member).trans (ih child member under)
  · intro leads
    induction leads with
    | refl => exact mem_subtree_self top
    | tail _ member below => exact mem_subtree_of_descendants (descendants_of_children below member)

/-- The subtree of a node is listed in one piece within any other it is part of. -/
theorem isInfix_subtreeWithAttributes {top id : NodeId} (below : id ∈ forest.subtree top) :
    forest.subtreeWithAttributes id <:+: forest.subtreeWithAttributes top := by
  induction top using forest.childInduction with
  | step top ih =>
      rcases mem_subtree.mp below with same | ⟨child, member, under⟩
      · subst same
        exact List.infix_rfl
      · apply (ih child member under).trans
        rcases List.append_of_mem member with ⟨before, after, split⟩
        rw [forest.subtreeWithAttributes_eq top, split, List.flatMap_append, List.flatMap_cons]
        refine ⟨top :: (forest.attributes top ++ before.flatMap forest.subtreeWithAttributes),
          after.flatMap forest.subtreeWithAttributes, ?_⟩
        simp only [List.cons_append, List.append_assoc]

theorem Precedes.irrefl (id : NodeId) : ¬ forest.Precedes id id := fun before => before.asymm before

theorem Ascending.of_ordered {ids : List NodeId} (ordered : ids.Pairwise forest.Precedes) :
    forest.Ascending ids where
  distinct := by
    apply ordered.imp
    rintro first _ before rfl
    exact Precedes.irrefl first before
  ordered := ordered

namespace IsAttachedOnce

variable {top : NodeId} (attached : forest.IsAttachedOnce top)
include attached

/-- A node that holds something is not an attribute. -/
theorem kind_ne_attribute_of_held {id held : NodeId} (inside : id ∈ forest.subtreeWithAttributes top)
    (member : held ∈ forest.attributes id ++ forest.children id) : forest.kind id ≠ .attribute := by
  intro kind
  rw [(attached.owned id inside).attribute_bare kind] at member
  cases member

/-- What is held and not an attribute is a child. -/
theorem mem_children_of_plain {id held : NodeId} (inside : id ∈ forest.subtreeWithAttributes top)
    (member : held ∈ forest.attributes id ++ forest.children id)
    (plain : forest.kind held ≠ .attribute) : held ∈ forest.children id :=
  (List.mem_append.mp member).resolve_left fun listed =>
    plain ((attached.owned id inside).attribute_kind held listed)

/-- The nodes of the tree but its attributes are in the subtree of its top. -/
theorem mem_subtree_of_plain {id : NodeId} (inside : id ∈ forest.subtreeWithAttributes top)
    (plain : forest.kind id ≠ .attribute) : id ∈ forest.subtree top := by
  induction inside using attached.upwardInduction with
  | start => exact mem_subtree_self top
  | step parent above ih id held =>
      have below := ih (attached.kind_ne_attribute_of_held above held)
      exact mem_subtree_of_descendants
        (descendants_of_children below (attached.mem_children_of_plain above held plain))

end IsAttachedOnce

namespace IsTree

variable {document : DocumentId} {root : NodeId} (tree : forest.IsTree document root)
include tree

theorem kind_ne_attribute_of_held {id held : NodeId} (inside : id ∈ forest.subtreeWithAttributes root)
    (member : held ∈ forest.attributes id ++ forest.children id) : forest.kind id ≠ .attribute :=
  tree.attached.kind_ne_attribute_of_held inside member

theorem mem_children_of_plain {id held : NodeId} (inside : id ∈ forest.subtreeWithAttributes root)
    (member : held ∈ forest.attributes id ++ forest.children id)
    (plain : forest.kind held ≠ .attribute) : held ∈ forest.children id :=
  tree.attached.mem_children_of_plain inside member plain

theorem mem_subtree_of_plain {id : NodeId} (inside : id ∈ forest.subtreeWithAttributes root)
    (plain : forest.kind id ≠ .attribute) : id ∈ forest.subtree root :=
  tree.attached.mem_subtree_of_plain inside plain

/-- The subtree of every node is listed in document order. -/
theorem ordered_subtreeWithAttributes {id : NodeId} (inside : id ∈ forest.subtreeWithAttributes root) :
    (forest.subtreeWithAttributes id).Pairwise forest.Precedes := by
  by_cases kind : forest.kind id = .attribute
  · rcases List.append_eq_nil_iff.mp ((tree.owned id inside).attribute_bare kind) with ⟨first, second⟩
    rw [subtreeWithAttributes_eq, first, second]
    exact List.pairwise_singleton _ _
  · exact tree.ascending.ordered.sublist
      (isInfix_subtreeWithAttributes (tree.mem_subtree_of_plain inside kind)).sublist

/-- A node comes before all else in its subtree. -/
theorem precedes_of_below {id other : NodeId} (inside : id ∈ forest.subtreeWithAttributes root)
    (below : other ∈ forest.subtreeWithAttributes id) (apart : other ≠ id) :
    forest.Precedes id other := by
  have ordered := tree.ordered_subtreeWithAttributes inside
  rw [subtreeWithAttributes_eq] at ordered below
  exact (List.pairwise_cons.mp ordered).1 other ((List.mem_cons.mp below).resolve_left apart)

/-- What a node holds comes after it. -/
theorem precedes_of_held {id held : NodeId} (inside : id ∈ forest.subtreeWithAttributes root)
    (member : held ∈ forest.attributes id ++ forest.children id) : forest.Precedes id held := by
  apply tree.precedes_of_below inside
  · rcases List.mem_append.mp member with attached | under
    · exact mem_subtreeWithAttributes_of_attribute attached
    · exact mem_subtreeWithAttributes_of_child under (mem_subtreeWithAttributes_self held)
  · rintro rfl
    exact Nat.lt_irrefl _ (lt_of_mem_held member)

/-- The nodes above a node come before it, and the nearest of them last. -/
theorem ordered_ancestors {id : NodeId} (inside : id ∈ forest.subtreeWithAttributes root) :
    (id :: forest.ancestors id).reverse.Pairwise forest.Precedes := by
  rw [List.pairwise_reverse]
  induction inside using tree.upwardInduction with
  | top =>
      rw [ancestors_eq, tree.parent?_root]
      exact List.pairwise_singleton _ _
  | step parent above ih id held =>
      have before := tree.precedes_of_held above held
      rw [ancestors_eq, tree.parent?_of_held above held]
      refine List.pairwise_cons.mpr ⟨List.forall_mem_cons.mpr ⟨before, ?_⟩, ih⟩
      intro other higher
      exact ((List.pairwise_cons.mp ih).1 other higher).trans before

/-!
## Cutting the tree at a node

The list of the whole tree is what comes before a node, its subtree, and what comes after it.  One step up
from the node adds to both ends.
-/

end IsTree

/-- What comes after the subtree of a node: the subtrees of its later siblings, and what comes after
the subtree of its parent. -/
theorem afterSubtree_eq (forest : Forest) (id : NodeId) :
    forest.afterSubtree id = (forest.followingSiblings id).flatMap forest.subtree ++
      match forest.parent? id with
      | none => []
      | some parent => forest.afterSubtree parent := by
  rw [afterSubtree, List.flatMap_cons, ancestors_eq, walkDown_true]
  cases forest.parent? id with
  | none => rfl
  | some parent =>
      dsimp only
      rw [afterSubtree, walkDown_true]

/-- The list of a tree cut at a node: `before` is what is listed before the subtree of the node, and
whatever the node and its subtree hold lies between what is before and what is after. -/
structure CutAt (forest : Forest) (root id : NodeId) (before : List NodeId) : Prop where
  parts : forest.subtree root = before ++ (forest.subtree id ++ forest.afterSubtree id)
  above : ∀ other ∈ forest.ancestors id, other ∈ before
  earlier : ∀ other ∈ before, ∀ below ∈ forest.subtreeWithAttributes id, forest.Precedes other below
  later : ∀ other ∈ forest.afterSubtree id, ∀ below ∈ forest.subtreeWithAttributes id,
    forest.Precedes below other

namespace IsTree

variable {document : DocumentId} {root : NodeId} (tree : forest.IsTree document root)
include tree

theorem cutAt_root : forest.CutAt root root [] := by
  have after : forest.afterSubtree root = [] := by
    rw [afterSubtree_eq, followingSiblings, tree.parent?_root]
    split <;> rfl
  constructor
  · rw [after, List.append_nil, List.nil_append]
  · rw [ancestors_eq, tree.parent?_root]
    exact fun _ member => member
  · exact fun _ member => absurd member List.not_mem_nil
  · rw [after]
    exact fun _ member => absurd member List.not_mem_nil

/-- A cut at a node is moved on to one of its children. -/
theorem cutAt_child {id parent : NodeId} {before : List NodeId}
    (above : parent ∈ forest.subtreeWithAttributes root) (cut : forest.CutAt root parent before)
    (member : id ∈ forest.children parent) (plain : forest.kind id ≠ .attribute) :
    forest.CutAt root id
      (before ++ parent :: (forest.precedingSiblings id).reverse.flatMap forest.subtree) := by
  have held : id ∈ forest.attributes parent ++ forest.children parent :=
    List.mem_append_right _ member
  have found := tree.parent?_of_held above held
  have children := tree.children_eq (tree.children_subset above id member) plain found
  have after := forest.afterSubtree_eq id
  have ordered := tree.ordered_subtreeWithAttributes above
  have under {other : NodeId} (below : other ∈ forest.subtreeWithAttributes id) :
      other ∈ forest.subtreeWithAttributes parent := mem_subtreeWithAttributes_of_child member below
  -- Between the subtrees of the siblings the subtree of the parent lists that of the node.
  rw [subtreeWithAttributes_eq, children, List.flatMap_append, List.flatMap_cons,
    List.pairwise_cons, List.pairwise_append, List.pairwise_append, List.pairwise_append] at ordered
  rcases ordered with ⟨first, _, ⟨_, ⟨_, _, behind⟩, front⟩, _⟩
  rw [found] at after
  dsimp only at after
  have inSubtrees {siblings : List NodeId} {other : NodeId}
      (listed : other ∈ siblings.flatMap forest.subtree) :
      other ∈ siblings.flatMap forest.subtreeWithAttributes := by
    rcases List.mem_flatMap.mp listed with ⟨sibling, beside, below⟩
    exact List.mem_flatMap.mpr ⟨sibling, beside, (forest.subtree_sublist sibling).subset below⟩
  constructor
  · rw [cut.parts, after, forest.subtree_eq parent, descendants, children, List.flatMap_append,
      List.flatMap_cons]
    simp only [List.append_assoc, List.cons_append]
  · rw [ancestors_eq, found]
    intro other listed
    rcases List.mem_cons.mp listed with same | higher
    · rw [same]
      exact List.mem_append_right _ List.mem_cons_self
    · exact List.mem_append_left _ (cut.above other higher)
  · intro other listed below inside
    rcases List.mem_append.mp listed with earlier | listed
    · exact cut.earlier other earlier below (under inside)
    · rcases List.mem_cons.mp listed with same | sibling
      · rw [same]
        apply first
        exact List.mem_append_right _ (List.mem_append_right _ (List.mem_append_left _ inside))
      · exact front other (inSubtrees sibling) below (List.mem_append_left _ inside)
  · intro other listed below inside
    rw [after] at listed
    rcases List.mem_append.mp listed with sibling | later
    · exact behind below inside other (inSubtrees sibling)
    · exact cut.later other later below (under inside)

theorem exists_cutAt {id : NodeId} (inside : id ∈ forest.subtreeWithAttributes root)
    (plain : forest.kind id ≠ .attribute) : ∃ before, forest.CutAt root id before := by
  induction inside using tree.upwardInduction with
  | top => exact ⟨[], tree.cutAt_root⟩
  | step parent above ih id held =>
      rcases ih (tree.kind_ne_attribute_of_held above held) with ⟨before, cut⟩
      exact ⟨_, tree.cutAt_child above cut (tree.mem_children_of_plain above held plain) plain⟩

/-- The document node is above every other node. -/
theorem root_mem_ancestors {id : NodeId} (inside : id ∈ forest.subtreeWithAttributes root) :
    root ∈ id :: forest.ancestors id := by
  induction inside using tree.upwardInduction with
  | top => exact List.mem_cons_self
  | step parent above ih id held =>
      rw [forest.ancestors_eq id, tree.parent?_of_held above held]
      exact List.mem_cons_of_mem _ ih

/-- Of the nodes that come before a node and those that do not, the preceding ones are the first but
for those above the node. -/
theorem preceding_eq {id : NodeId} (inside : id ∈ forest.subtreeWithAttributes root)
    {before others : List NodeId} (parts : forest.subtree root = before ++ others)
    (earlier : ∀ other ∈ before, forest.Precedes other id)
    (notEarlier : ∀ other ∈ others, ¬ forest.Precedes other id) :
    forest.preceding id =
      (before.filter fun other => !(forest.ancestors id).contains other).reverse := by
  let kept : NodeId → Bool := fun other =>
    orderBefore (forest.order? other) (forest.order? id) && !(forest.ancestors id).contains other
  have rootLeft : kept root = false := by
    rcases List.mem_cons.mp (tree.root_mem_ancestors inside) with same | above
    · have itself : orderBefore (forest.order? root) (forest.order? id) = false := by
        rw [Bool.eq_false_iff, same]
        exact Precedes.irrefl id
      rw [Bool.and_eq_false_iff]
      exact Or.inl itself
    · simp only [kept, List.contains_iff_mem.mpr above, Bool.not_true, Bool.and_false]
  have below : (forest.descendants root).filter kept = (forest.subtree root).filter kept := by
    rw [subtree_eq, List.filter_cons_of_neg (by rw [rootLeft]; exact Bool.false_ne_true)]
  have firstKept : before.filter kept =
      before.filter fun other => !(forest.ancestors id).contains other := by
    apply List.filter_congr
    intro other member
    have first : orderBefore (forest.order? other) (forest.order? id) = true := earlier other member
    simp only [kept, first, Bool.true_and]
  have othersLeft : others.filter kept = [] := by
    rw [List.filter_eq_nil_iff]
    intro other member given
    exact notEarlier other member (Bool.and_eq_true_iff.mp given).1
  change ((forest.walkDown false (forest.root id)).filter kept).reverse = _
  rw [walkDown_false, tree.root_eq_of_mem inside, below, parts, List.filter_append, firstKept,
    othersLeft, List.append_nil]

/-- The nodes above a node and the preceding ones are those that come before it. -/
theorem perm_before {id : NodeId} (inside : id ∈ forest.subtreeWithAttributes root)
    {before others : List NodeId} (parts : forest.subtree root = before ++ others)
    (above : ∀ other ∈ forest.ancestors id, other ∈ before)
    (earlier : ∀ other ∈ before, forest.Precedes other id)
    (notEarlier : ∀ other ∈ others, ¬ forest.Precedes other id) :
    (forest.ancestors id ++ forest.preceding id).Perm before := by
  have once : before.Nodup := by
    have listed := tree.nodup.sublist (forest.subtree_sublist root)
    rw [parts] at listed
    exact (List.nodup_append.mp listed).1
  have aboveOnce : (forest.ancestors id).Nodup :=
    (List.nodup_cons.mp (List.nodup_reverse.mp
      (Ascending.of_ordered (tree.ordered_ancestors inside)).distinct)).2
  have aboveKept : (before.filter fun other => (forest.ancestors id).contains other).Perm
      (forest.ancestors id) := by
    rw [List.perm_ext_iff_of_nodup (once.filter _) aboveOnce]
    intro other
    rw [List.mem_filter, List.contains_iff_mem]
    exact ⟨fun found => found.2, fun found => ⟨above other found, found⟩⟩
  rw [tree.preceding_eq inside parts earlier notEarlier]
  exact (aboveKept.symm.append (List.reverse_perm _)).trans (List.filter_append_perm _ before)

/-- Around a node that is not an attribute, and the node itself. -/
theorem perm_around_plain {id : NodeId} (inside : id ∈ forest.subtreeWithAttributes root)
    (plain : forest.kind id ≠ .attribute) :
    ([id] ++ forest.ancestors id ++ forest.descendants id ++ forest.preceding id ++
      forest.following id).Perm (forest.subtree root) := by
  rcases tree.exists_cutAt inside plain with ⟨before, cut⟩
  have following : forest.following id = forest.afterSubtree id := by
    rw [Forest.following, if_neg (fun found => plain (eq_of_beq found))]
  have perm := tree.perm_before inside cut.parts cut.above
    (fun other member => cut.earlier other member id (mem_subtreeWithAttributes_self id)) <| by
      intro other member
      rcases List.mem_append.mp member with below | later
      · by_cases same : other = id
        · rw [same]
          exact Precedes.irrefl id
        · exact (tree.precedes_of_below inside ((forest.subtree_sublist id).subset below) same).asymm
      · exact (cut.later other later id (mem_subtreeWithAttributes_self id)).asymm
  rw [cut.parts, following, subtree_eq]
  grind

/-- Around an attribute: the node that carries it is above it, and all that is below that node comes
after it. -/
theorem perm_around_attribute {id owner : NodeId} (above : owner ∈ forest.subtreeWithAttributes root)
    (attached : id ∈ forest.attributes owner) :
    (forest.ancestors id ++ forest.preceding id ++ forest.following id).Perm
      (forest.subtree root) := by
  have held : id ∈ forest.attributes owner ++ forest.children owner :=
    List.mem_append_left _ attached
  have found := tree.parent?_of_held above held
  have kind := (tree.owned owner above).attribute_kind id attached
  rcases tree.exists_cutAt above (tree.kind_ne_attribute_of_held above held) with ⟨before, cut⟩
  have following : forest.following id = forest.descendants owner ++ forest.afterSubtree owner := by
    rw [Forest.following, if_pos (beq_iff_eq.mpr kind), found, walkDown_false]
  have parts : forest.subtree root = (before ++ [owner]) ++ forest.following id := by
    rw [cut.parts, following, subtree_eq]
    simp only [List.append_assoc, List.cons_append, List.nil_append]
  have inside := mem_subtreeWithAttributes_of_attribute attached
  -- Attributes are listed before everything else that is below the node they belong to.
  have ordered := tree.ordered_subtreeWithAttributes above
  rw [subtreeWithAttributes_eq, List.pairwise_cons, List.pairwise_append] at ordered
  have perm := tree.perm_before (held_mem_of_owns tree.owned above held) parts
    (by
      rw [ancestors_eq, found]
      intro other listed
      rcases List.mem_cons.mp listed with same | higher
      · exact List.mem_append_right _ (List.mem_singleton.mpr same)
      · exact List.mem_append_left _ (cut.above other higher))
    (by
      intro other listed
      rcases List.mem_append.mp listed with earlier | last
      · exact cut.earlier other earlier id inside
      · rw [List.mem_singleton.mp last]
        exact tree.precedes_of_held above held)
    (by
      rw [following]
      intro other listed
      rcases List.mem_append.mp listed with below | later
      · rcases List.mem_flatMap.mp below with ⟨child, member, under⟩
        have listed := List.mem_flatMap.mpr ⟨child, member, (forest.subtree_sublist child).subset under⟩
        exact (ordered.2.2.2 id attached other listed).asymm
      · exact (cut.later other later id inside).asymm)
  rw [parts]
  exact perm.append_right _

theorem ordered_subtree {id : NodeId} (inside : id ∈ forest.subtreeWithAttributes root) :
    (forest.subtree id).Pairwise forest.Precedes :=
  (tree.ordered_subtreeWithAttributes inside).sublist (forest.subtree_sublist id)

theorem ordered_descendants {id : NodeId} (inside : id ∈ forest.subtreeWithAttributes root) :
    (forest.descendants id).Pairwise forest.Precedes := by
  have ordered := tree.ordered_subtree inside
  rw [subtree_eq] at ordered
  exact (List.pairwise_cons.mp ordered).2

theorem ordered_children {id : NodeId} (inside : id ∈ forest.subtreeWithAttributes root) :
    (forest.children id).Pairwise forest.Precedes := by
  refine List.Pairwise.sublist ?_ (tree.ordered_descendants inside)
  rw [descendants]
  generalize forest.children id = children
  induction children with
  | nil => exact List.Sublist.refl _
  | cons first others ih =>
      rw [List.flatMap_cons, subtree_eq, List.cons_append]
      exact List.Sublist.cons_cons first (ih.trans (List.sublist_append_right _ _))

theorem ordered_attributes {id : NodeId} (inside : id ∈ forest.subtreeWithAttributes root) :
    (forest.attributes id).Pairwise forest.Precedes := by
  have ordered := tree.ordered_subtreeWithAttributes inside
  rw [subtreeWithAttributes_eq, List.pairwise_cons, List.pairwise_append] at ordered
  exact ordered.2.1

theorem ordered_followingSiblings {id : NodeId} (inside : id ∈ forest.subtreeWithAttributes root) :
    (forest.followingSiblings id).Pairwise forest.Precedes := by
  unfold followingSiblings
  split
  · exact List.Pairwise.nil
  · split
    · exact List.Pairwise.nil
    · rename_i parent found
      have ordered := tree.ordered_children (tree.parent?_mem inside found)
      exact ordered.sublist ((List.tail_sublist _).trans (List.dropWhile_sublist _))

theorem ordered_precedingSiblings {id : NodeId} (inside : id ∈ forest.subtreeWithAttributes root) :
    (forest.precedingSiblings id).reverse.Pairwise forest.Precedes := by
  unfold precedingSiblings
  split
  · exact List.Pairwise.nil
  · split
    · exact List.Pairwise.nil
    · rename_i parent found
      have ordered := tree.ordered_children (tree.parent?_mem inside found)
      dsimp only
      split
      · rw [List.reverse_reverse]
        exact ordered.sublist (List.takeWhile_sublist _)
      · exact List.Pairwise.nil

theorem ordered_preceding {id : NodeId} (inside : id ∈ forest.subtreeWithAttributes root) :
    (forest.preceding id).reverse.Pairwise forest.Precedes := by
  unfold preceding
  rw [List.reverse_reverse, walkDown_false, tree.root_eq_of_mem inside]
  exact (tree.ordered_descendants (mem_subtreeWithAttributes_self root)).filter _

/-- What comes after a node is the end of the list of the tree. -/
theorem ordered_following {id : NodeId} (inside : id ∈ forest.subtreeWithAttributes root) :
    (forest.following id).Pairwise forest.Precedes := by
  have whole := tree.ordered_subtree (mem_subtreeWithAttributes_self root)
  unfold following
  split
  · split
    · exact List.Pairwise.nil
    · rename_i owner found
      have above := tree.parent?_mem inside found
      rcases tree.parent?_cases inside with ⟨_, none⟩ | ⟨parent, _, same, held⟩
      · rw [none] at found
        cases found
      · rw [same] at found
        cases found
        rcases tree.exists_cutAt above (tree.kind_ne_attribute_of_held above held) with ⟨before, cut⟩
        rw [cut.parts, subtree_eq] at whole
        rw [walkDown_false]
        exact (List.pairwise_cons.mp (List.pairwise_append.mp whole).2.1).2
  · rename_i kind
    rcases tree.exists_cutAt inside (fun same => kind (beq_iff_eq.mpr same)) with ⟨before, cut⟩
    rw [cut.parts] at whole
    exact (List.pairwise_append.mp (List.pairwise_append.mp whole).2.1).2.1

/-- Every axis lists its nodes in document order or, if it looks back, against it. -/
theorem ascending_along (axis : Axis) {id : NodeId} (inside : id ∈ forest.subtreeWithAttributes root) :
    forest.Ascending
      (if axis.looksBack then (forest.along axis id).reverse else forest.along axis id) := by
  apply Ascending.of_ordered
  cases axis with
  | child => exact tree.ordered_children inside
  | descendant =>
      rw [along_descendant]
      exact tree.ordered_descendants inside
  | «attribute» => exact tree.ordered_attributes inside
  | self => exact List.pairwise_singleton _ _
  | descendantOrSelf =>
      rw [along_descendantOrSelf]
      exact tree.ordered_subtree inside
  | followingSibling => exact tree.ordered_followingSiblings inside
  | following => exact tree.ordered_following inside
  | parent =>
      change (forest.parent? id).toList.Pairwise _
      cases forest.parent? id with
      | none => exact List.Pairwise.nil
      | some parent => exact List.pairwise_singleton _ _
  | ancestor =>
      have ordered := tree.ordered_ancestors inside
      rw [List.reverse_cons, List.pairwise_append] at ordered
      exact ordered.1
  | precedingSibling => exact tree.ordered_precedingSiblings inside
  | preceding => exact tree.ordered_preceding inside
  | ancestorOrSelf => exact tree.ordered_ancestors inside

end IsTree

/-- Around every node of a document the axes share out all that children lead to from the document
node: no node is on two of them or on one of them twice.  Every axis lists its nodes without repetition
in document order or, if it looks back, against it. -/
theorem along_shares_out {document : DocumentId} (fresh : forest.HasFreshDocument document)
    (listed : forest.AttributesListed document) {root : NodeId}
    (found : forest.documentRoot? document = some root) {id : NodeId}
    (inside : id ∈ forest.nodesOf document) :
    ((forest.kind id).axesAround.flatMap fun axis => forest.along axis id).Nodup ∧
    (∀ other, other ∈ (forest.kind id).axesAround.flatMap (fun axis => forest.along axis id) ↔
      forest.LeadsTo root other) ∧
    ∀ axis : Axis, forest.Ascending
      (if axis.looksBack then (forest.along axis id).reverse else forest.along axis id) := by
  rcases fresh.isTree with ⟨top, tree⟩
  have same : top = root := Option.some.inj (tree.documentRoot.symm.trans found)
  subst same
  have nodes : forest.nodesOf document = forest.subtreeWithAttributes top := by
    rw [nodesOf, found]
    rfl
  have below := inside
  rw [nodes] at below
  have perm : ((forest.kind id).axesAround.flatMap fun axis => forest.along axis id).Perm
      (forest.subtree top) := by
    by_cases kind : forest.kind id = .attribute
    · rcases listed id inside kind with ⟨owner, above, attached⟩
      rw [nodes] at above
      have around := tree.perm_around_attribute above attached
      simpa [kind, NodeKind.axesAround, along] using around
    · have around := tree.perm_around_plain below kind
      have axes : (forest.kind id).axesAround =
          [.self, .ancestor, .descendant, .preceding, .following] := by
        cases shown : forest.kind id with
        | «attribute» => exact absurd shown kind
        | _ => rfl
      simpa [axes, along] using around
  refine ⟨?_, ?_, fun axis => tree.ascending_along axis below⟩
  · rw [perm.nodup_iff]
    exact tree.nodup.sublist (forest.subtree_sublist top)
  · intro other
    rw [perm.mem_iff, mem_subtree_iff_leadsTo]

/-- Lists within a list, with an attribute on each. -/
def nestedDraft : Draft :=
  .element "ul" [.attribute "id" "top"]
    [.element "li" [.attribute "class" "first"] [.text "a", .element "b" [] [.text "c"]],
      .element "li" [.attribute "class" "last"] [.comment "d"]]

def nestedDocument : Forest × DocumentId :=
  let planted := (({} : Planting).plant nestedDraft).getD ({}, ⟨0⟩)
  planted.1.forest.openDocument planted.2

theorem nestedDocument_fresh : nestedDocument.1.HasFreshDocument nestedDocument.2 :=
  JustOpened.hasFreshDocument ⟨{}, _, nestedDraft, _, rfl, rfl, rfl⟩

theorem along_shares_out_nested :
    let forest := nestedDocument.1
    let first : NodeId := ⟨1⟩
    forest.kind first = .attribute ∧
    ((forest.kind first).axesAround.flatMap fun axis => forest.along axis first).Nodup ∧
    (∀ other, other ∈ (forest.kind first).axesAround.flatMap (fun axis => forest.along axis first) ↔
      forest.LeadsTo ⟨10⟩ other) ∧
    ∀ axis : Axis, forest.Ascending
      (if axis.looksBack then (forest.along axis first).reverse else forest.along axis first) := by
  have fresh : nestedDocument.1.HasFreshDocument nestedDocument.2 :=
    JustOpened.hasFreshDocument ⟨{}, _, nestedDraft, _, rfl, rfl, rfl⟩
  have listed : nestedDocument.1.AttributesListed nestedDocument.2 := by
    unfold AttributesListed
    decide +kernel
  have found : nestedDocument.1.documentRoot? nestedDocument.2 = some ⟨10⟩ := by decide +kernel
  exact ⟨by decide +kernel, along_shares_out fresh listed found (by decide +kernel)⟩

end Forest

end NodeQuery
