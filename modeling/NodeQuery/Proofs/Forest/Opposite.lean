import NodeQuery.Proofs.Forest.Partition

/-!
# What follows a node and what precedes one

The nodes that follow a node are found by going through later siblings, in any tree whose nodes are
attached once: a node follows another if it stands on its right.  The nodes that precede a node are found
by their numbers.  In a tree numbered in the order in which it is listed, as every tree is that was
opened as a document with no number in it before, one node follows another just if the other precedes it.
In a tree that was never opened no node has a number, and nothing precedes anything.
-/

namespace NodeQuery

namespace Forest

/-- Whether one node stands on the left of another in a tree: under one node of the tree, an earlier child
leads to the first and a later child to the second. -/
def LeftOf (forest : Forest) (top first second : NodeId) : Prop :=
  ∃ parent ∈ forest.subtree top, ∃ earlier later : NodeId,
    [earlier, later].Sublist (forest.children parent) ∧
      first ∈ forest.subtree earlier ∧ second ∈ forest.subtree later

variable {forest : Forest}

/-- Of two different members of a list one comes before the other. -/
theorem pair_sublist_of_mem {ids : List NodeId} {one other : NodeId} (member : one ∈ ids)
    (otherMember : other ∈ ids) (apart : one ≠ other) :
    [one, other].Sublist ids ∨ [other, one].Sublist ids := by
  rcases List.append_of_mem member with ⟨before, after, rfl⟩
  rw [List.mem_append, List.mem_cons] at otherMember
  rcases otherMember with earlier | same | later
  · exact Or.inr ((List.singleton_sublist.mpr earlier).append
      (List.singleton_sublist.mpr List.mem_cons_self))
  · exact absurd same.symm apart
  · exact Or.inl (((List.singleton_sublist.mpr later).cons_cons one).trans
      (List.sublist_append_right _ _))

theorem mem_descendants_of_apart {above id : NodeId} (below : id ∈ forest.subtree above)
    (apart : id ≠ above) : id ∈ forest.descendants above := by
  rw [subtree_eq] at below
  exact (List.mem_cons.mp below).resolve_left apart

/-- Of two nodes of a tree one is below the other or stands on its left. -/
theorem below_or_leftOf {top first second : NodeId} (firstBelow : first ∈ forest.subtree top)
    (secondBelow : second ∈ forest.subtree top) :
    second ∈ forest.subtree first ∨ first ∈ forest.subtree second ∨
      forest.LeftOf top first second ∨ forest.LeftOf top second first := by
  induction top using forest.childInduction with
  | step top ih =>
      rcases mem_subtree.mp firstBelow with rfl | ⟨one, oneMember, firstUnder⟩
      · exact Or.inl secondBelow
      rcases mem_subtree.mp secondBelow with rfl | ⟨other, otherMember, secondUnder⟩
      · exact Or.inr (Or.inl firstBelow)
      by_cases same : one = other
      · subst same
        have lift {left right : NodeId} (found : forest.LeftOf one left right) :
            forest.LeftOf top left right := by
          rcases found with ⟨parent, below, rest⟩
          exact ⟨parent, mem_subtree.mpr (Or.inr ⟨one, oneMember, below⟩), rest⟩
        rcases ih one oneMember firstUnder secondUnder with below | below | left | right
        · exact Or.inl below
        · exact Or.inr (Or.inl below)
        · exact Or.inr (Or.inr (Or.inl (lift left)))
        · exact Or.inr (Or.inr (Or.inr (lift right)))
      · have here : top ∈ forest.subtree top := mem_subtree_self top
        rcases pair_sublist_of_mem oneMember otherMember same with part | part
        · exact Or.inr (Or.inr (Or.inl ⟨top, here, one, other, part, firstUnder, secondUnder⟩))
        · exact Or.inr (Or.inr (Or.inr ⟨top, here, other, one, part, secondUnder, firstUnder⟩))

namespace IsAttachedOnce

variable {top : NodeId} (attached : forest.IsAttachedOnce top)
include attached

/-- Going up from a node one comes to the nodes in whose subtree it is, itself included. -/
theorem mem_upwards_iff {id above : NodeId} (inside : id ∈ forest.subtreeWithAttributes top)
    (plain : forest.kind id ≠ .attribute) :
    above ∈ id :: forest.ancestors id ↔
      above ∈ forest.subtreeWithAttributes top ∧ id ∈ forest.subtree above := by
  constructor
  · induction inside using attached.upwardInduction with
    | start =>
        rw [ancestors_eq, attached.parent?_top, List.mem_singleton]
        rintro rfl
        exact ⟨mem_subtreeWithAttributes_self _, mem_subtree_self _⟩
    | step parent higher ih id held =>
        have inside := held_mem_of_owns attached.owned higher held
        rw [ancestors_eq, attached.parent?_of_held higher held, List.mem_cons]
        rintro (rfl | further)
        · exact ⟨inside, mem_subtree_self _⟩
        · rcases ih (attached.kind_ne_attribute_of_held higher held) further with ⟨found, below⟩
          have member := attached.mem_children_of_plain higher held plain
          exact ⟨found, mem_subtree_of_descendants (descendants_of_children below member)⟩
  · rintro ⟨found, below⟩
    clear inside plain
    induction mem_subtree_iff_leadsTo.mp below with
    | refl => exact List.mem_cons_self
    | @tail parent id leads member ih =>
        have under := mem_subtree_iff_leadsTo.mpr leads
        have parentFound := attached.parent?_of_held (attached.subtree_subset found parent under)
          (List.mem_append_right _ member)
        rw [ancestors_eq, parentFound]
        exact List.mem_cons_of_mem _ (ih under)

/-- The later siblings of a child are the children listed after it. -/
theorem mem_followingSiblings_iff {parent earlier later : NodeId}
    (inside : parent ∈ forest.subtreeWithAttributes top) (member : earlier ∈ forest.children parent)
    (plain : forest.kind earlier ≠ .attribute) :
    later ∈ forest.followingSiblings earlier ↔ [earlier, later].Sublist (forest.children parent) := by
  have held : earlier ∈ forest.attributes parent ++ forest.children parent :=
    List.mem_append_right _ member
  have children := attached.children_eq (held_mem_of_owns attached.owned inside held) plain
    (attached.parent?_of_held inside held)
  have once := attached.children_nodup inside
  rw [children] at once ⊢
  constructor
  · intro listed
    exact ((List.singleton_sublist.mpr listed).cons_cons earlier).trans
      (List.sublist_append_right _ _)
  · intro part
    rcases List.cons_sublist_iff.mp part with ⟨front, back, split, first, last⟩
    rcases List.append_of_mem first with ⟨before, between, rfl⟩
    rw [List.append_assoc, List.cons_append] at split
    -- The earlier child comes once, so both ways of splitting the children at it are the same.
    have absent := (List.nodup_cons.mp (List.nodup_middle.mp once)).1
    rw [List.mem_append, not_or] at absent
    have after := ((List.append_cons_inj_of_notMem absent.1 absent.2).mp split).2.2
    rw [after]
    exact List.mem_append_right _ (List.singleton_sublist.mp last)

/-- A node with later siblings is listed before them as a child. -/
theorem exists_parent_of_beside {earlier later : NodeId}
    (inside : earlier ∈ forest.subtreeWithAttributes top)
    (beside : later ∈ forest.followingSiblings earlier) :
    ∃ parent ∈ forest.subtree top, [earlier, later].Sublist (forest.children parent) := by
  rcases attached.parent?_cases inside with ⟨_, none⟩ | ⟨parent, above, known, held⟩
  · rw [followingSiblings, none] at beside
    split at beside <;> cases beside
  · have plain : forest.kind earlier ≠ .attribute := by
      intro kind
      rw [followingSiblings, if_pos (beq_iff_eq.mpr kind)] at beside
      cases beside
    have member := attached.mem_children_of_plain above held plain
    have parentPlain := attached.kind_ne_attribute_of_held above held
    exact ⟨parent, attached.mem_subtree_of_plain above parentPlain,
      (attached.mem_followingSiblings_iff above member plain).mp beside⟩

/-- An attribute has nothing below it. -/
theorem kind_ne_attribute_of_below {above id : NodeId}
    (inside : above ∈ forest.subtreeWithAttributes top) (below : id ∈ forest.subtree above)
    (plain : forest.kind id ≠ .attribute) : forest.kind above ≠ .attribute := by
  intro kind
  have bare := List.append_eq_nil_iff.mp ((attached.owned above inside).attribute_bare kind)
  rw [subtree_eq, descendants, bare.2, List.flatMap_nil, List.mem_singleton] at below
  exact plain (below ▸ kind)

/-- What is listed behind a child is a later sibling of it, if anything but an attribute is below. -/
theorem beside_of_sublist {parent earlier later id : NodeId} (above : parent ∈ forest.subtree top)
    (part : [earlier, later].Sublist (forest.children parent)) (below : id ∈ forest.subtree earlier)
    (plain : forest.kind id ≠ .attribute) :
    earlier ∈ forest.subtreeWithAttributes top ∧ later ∈ forest.followingSiblings earlier := by
  have inside := attached.subtree_subset (mem_subtreeWithAttributes_self top) parent above
  have member : earlier ∈ forest.children parent := part.subset List.mem_cons_self
  have found := held_mem_of_owns attached.owned inside (List.mem_append_right _ member)
  exact ⟨found, (attached.mem_followingSiblings_iff inside member
    (attached.kind_ne_attribute_of_below found below plain)).mpr part⟩

/-- Numbered or not, a node follows those on whose right it stands. -/
theorem mem_following_iff_leftOf {first second : NodeId}
    (inside : first ∈ forest.subtreeWithAttributes top) (plain : forest.kind first ≠ .attribute) :
    second ∈ forest.following first ↔ forest.LeftOf top first second := by
  have following : forest.following first = forest.afterSubtree first := by
    rw [Forest.following, if_neg (fun found => plain (eq_of_beq found))]
  rw [following, afterSubtree, walkDown_true, List.mem_flatMap]
  constructor
  · rintro ⟨anchor, upwards, listed⟩
    rcases List.mem_flatMap.mp listed with ⟨later, beside, below⟩
    rcases (attached.mem_upwards_iff inside plain).mp upwards with ⟨found, under⟩
    rcases attached.exists_parent_of_beside found beside with ⟨parent, above, part⟩
    exact ⟨parent, above, anchor, later, part, under, below⟩
  · rintro ⟨parent, above, earlier, later, part, firstUnder, secondUnder⟩
    rcases attached.beside_of_sublist above part firstUnder plain with ⟨found, beside⟩
    exact ⟨earlier, (attached.mem_upwards_iff inside plain).mpr ⟨found, firstUnder⟩,
      List.mem_flatMap.mpr ⟨later, beside, secondUnder⟩⟩

/-- The nodes that precede a node are those of smaller number that are not above it. -/
theorem mem_preceding_iff {first second : NodeId}
    (secondInside : second ∈ forest.subtreeWithAttributes top) :
    first ∈ forest.preceding second ↔
      first ∈ forest.descendants top ∧ forest.Precedes first second ∧
        first ∉ forest.ancestors second := by
  rw [preceding, walkDown_false, attached.root_eq_of_mem secondInside, List.mem_reverse,
    List.mem_filter, Bool.and_eq_true, Bool.not_eq_true', ← Bool.not_eq_true, List.contains_iff_mem]
  rfl

/-- Of the nodes of the tree that are no attributes, the top one is above all others, so that it need not
be left out for itself. -/
theorem mem_preceding_iff_of_plain {first second : NodeId}
    (firstInside : first ∈ forest.subtreeWithAttributes top)
    (secondInside : second ∈ forest.subtreeWithAttributes top)
    (firstPlain : forest.kind first ≠ .attribute) (secondPlain : forest.kind second ≠ .attribute) :
    first ∈ forest.preceding second ↔
      forest.Precedes first second ∧ first ∉ forest.ancestors second := by
  rw [attached.mem_preceding_iff secondInside]
  refine and_iff_right_of_imp fun ⟨before, notAbove⟩ => ?_
  apply mem_descendants_of_apart (attached.mem_subtree_of_plain firstInside firstPlain)
  rintro rfl
  have upwards := (attached.mem_upwards_iff secondInside secondPlain).mpr
    ⟨firstInside, attached.mem_subtree_of_plain secondInside secondPlain⟩
  rcases List.mem_cons.mp upwards with rfl | above
  · exact Precedes.irrefl _ before
  · exact notAbove above

section
variable (ordered : (forest.subtreeWithAttributes top).Pairwise forest.Precedes)
include ordered

omit attached in
theorem ordered_of_below {id : NodeId} (below : id ∈ forest.subtree top) :
    (forest.subtree id).Pairwise forest.Precedes :=
  ordered.sublist ((forest.subtree_sublist id).trans (isInfix_subtreeWithAttributes below).sublist)

omit attached in
theorem precedes_of_leftOf {first second : NodeId} (left : forest.LeftOf top first second) :
    forest.Precedes first second := by
  rcases left with ⟨parent, below, earlier, later, part, firstUnder, secondUnder⟩
  have whole := ordered_of_below ordered below
  rw [subtree_eq, descendants, List.pairwise_cons, List.flatMap_def,
    List.pairwise_flatten, List.pairwise_map] at whole
  exact List.pairwise_iff_forall_sublist.mp whole.2.2 part first firstUnder second secondUnder

omit attached in
theorem precedes_of_descendants {above id : NodeId} (aboveBelow : above ∈ forest.subtree top)
    (below : id ∈ forest.descendants above) : forest.Precedes above id := by
  have whole := ordered_of_below ordered aboveBelow
  rw [subtree_eq] at whole
  exact (List.pairwise_cons.mp whole).1 id below

/-- In a numbered tree one node follows another just if the other precedes it. -/
theorem mem_following_iff_mem_preceding {first second : NodeId}
    (firstInside : first ∈ forest.subtreeWithAttributes top)
    (secondInside : second ∈ forest.subtreeWithAttributes top)
    (firstPlain : forest.kind first ≠ .attribute) (secondPlain : forest.kind second ≠ .attribute) :
    second ∈ forest.following first ↔ first ∈ forest.preceding second := by
  rw [attached.mem_following_iff_leftOf firstInside firstPlain,
    attached.mem_preceding_iff secondInside]
  constructor
  · intro left
    refine ⟨?_, precedes_of_leftOf ordered left, ?_⟩
    · rcases left with ⟨parent, below, earlier, later, part, firstUnder, secondUnder⟩
      have member : earlier ∈ forest.children parent := part.subset List.mem_cons_self
      exact descendants_trans below (List.mem_flatMap.mpr ⟨earlier, member, firstUnder⟩)
    · -- A node above the second one would have it below the earlier child, too.
      intro above
      have under := ((attached.mem_upwards_iff secondInside secondPlain).mp
        (List.mem_cons_of_mem _ above)).2
      rcases left with ⟨parent, below, earlier, later, part, firstUnder, secondUnder⟩
      exact Precedes.irrefl second (precedes_of_leftOf ordered
        ⟨parent, below, earlier, later, part, mem_subtree_trans firstUnder under, secondUnder⟩)
  · rintro ⟨_, before, notAbove⟩
    have apart : first ≠ second := by
      rintro rfl
      exact Precedes.irrefl _ before
    have firstBelow := attached.mem_subtree_of_plain firstInside firstPlain
    have secondBelow := attached.mem_subtree_of_plain secondInside secondPlain
    rcases below_or_leftOf firstBelow secondBelow with under | under | left | right
    · have upwards := (attached.mem_upwards_iff secondInside secondPlain).mpr ⟨firstInside, under⟩
      exact absurd ((List.mem_cons.mp upwards).resolve_left apart) notAbove
    · exact absurd before
        (precedes_of_descendants ordered secondBelow (mem_descendants_of_apart under apart)).asymm
    · exact left
    · exact absurd before (precedes_of_leftOf ordered right).asymm

end

/-- In a tree without numbers nothing precedes anything. -/
theorem preceding_eq_nil (unnumbered : ∀ id ∈ forest.subtreeWithAttributes top, forest.order? id = none)
    {id : NodeId} (inside : id ∈ forest.subtreeWithAttributes top) : forest.preceding id = [] := by
  apply List.eq_nil_iff_forall_not_mem.mpr
  intro other listed
  rcases (attached.mem_preceding_iff inside).mp listed with ⟨below, before, _⟩
  have found := attached.subtree_subset (mem_subtreeWithAttributes_self top) other
    (mem_subtree_of_descendants below)
  rw [Precedes, unnumbered other found] at before
  cases before

end IsAttachedOnce

/-- Opened as a document, a tree in which no node had a number has one node follow another just if the
other precedes it, as long as its nodes stay as they are. -/
theorem IsUnsealed.mem_following_iff_mem_preceding {top : NodeId} (unsealed : forest.IsUnsealed top)
    {opened later : Forest} {document : DocumentId}
    (openedAs : forest.openDocument top = (opened, document))
    (sameRoot : later.documentRoot? document = opened.documentRoot? document)
    (same : ∀ id ∈ opened.nodesOf document, later.node id = opened.node id) {first second : NodeId}
    (firstInside : first ∈ later.nodesOf document) (secondInside : second ∈ later.nodesOf document)
    (firstPlain : later.kind first ≠ .attribute) (secondPlain : later.kind second ≠ .attribute) :
    second ∈ later.following first ↔ first ∈ later.preceding second := by
  rcases unsealed.openDocument_isTree with ⟨root, tree, _⟩
  rw [openedAs] at tree
  have nodes : opened.nodesOf document = opened.subtreeWithAttributes root := by
    rw [nodesOf, tree.documentRoot, Option.map_some, Option.getD_some]
  rw [nodes] at same
  rcases tree.attached.transfer same with ⟨sameTree, attachedLater⟩
  have laterNodes : later.nodesOf document = later.subtreeWithAttributes root := by
    rw [nodesOf, sameRoot, tree.documentRoot, Option.map_some, Option.getD_some]
  have ordered : (later.subtreeWithAttributes root).Pairwise later.Precedes := by
    rw [sameTree]
    apply tree.ascending.ordered.imp_of_mem
    intro earlier other earlierInside otherInside before
    rw [Precedes, order?, order?, same earlier earlierInside, same other otherInside]
    exact before
  rw [laterNodes] at firstInside secondInside
  exact attachedLater.mem_following_iff_mem_preceding ordered firstInside secondInside firstPlain
    secondPlain

/-- In a tree whose nodes are attached once, what follows a node is what stands on its right, and what
precedes it are the nodes with smaller numbers that are not above it; a node without a number comes after
all that have one.  So nothing precedes any node in a tree in which no node was ever opened with a
document.  Once such a tree is opened, and as long as its nodes stay as they are, of two nodes that are
not attributes one follows the other just if the other precedes it. -/
theorem following_opposite_preceding {top : NodeId} (attached : forest.IsAttachedOnce top) :
    (∀ first ∈ forest.subtreeWithAttributes top, ∀ second ∈ forest.subtreeWithAttributes top,
      forest.kind first ≠ .attribute → forest.kind second ≠ .attribute →
        (second ∈ forest.following first ↔ forest.LeftOf top first second) ∧
          (first ∈ forest.preceding second ↔
            forest.Precedes first second ∧ first ∉ forest.ancestors second)) ∧
    (forest.IsUnsealed top →
      (∀ second ∈ forest.subtreeWithAttributes top, forest.preceding second = []) ∧
      ∀ (opened later : Forest) (document : DocumentId),
        forest.openDocument top = (opened, document) →
        later.documentRoot? document = opened.documentRoot? document →
        (∀ id ∈ opened.nodesOf document, later.node id = opened.node id) →
        ∀ first ∈ later.nodesOf document, ∀ second ∈ later.nodesOf document,
          later.kind first ≠ .attribute → later.kind second ≠ .attribute →
            (second ∈ later.following first ↔ first ∈ later.preceding second)) := by
  refine ⟨fun first firstInside second secondInside firstPlain secondPlain => ⟨?_, ?_⟩,
    fun unsealed => ⟨fun second secondInside => ?_, ?_⟩⟩
  · exact attached.mem_following_iff_leftOf firstInside firstPlain
  · exact attached.mem_preceding_iff_of_plain firstInside secondInside firstPlain secondPlain
  · exact attached.preceding_eq_nil (fun id below => (unsealed.unnumbered id below).2) secondInside
  · intro opened later document openedAs sameRoot same first firstInside second secondInside
    exact unsealed.mem_following_iff_mem_preceding openedAs sameRoot same firstInside secondInside

/-- An element with two elements in it. -/
def twinsDraft : Draft := .element "r" [] [.element "a" [] [], .element "b" [] []]

/-- The element with two elements in it, planted and not opened as a document. -/
def plantedTwins : Forest := ((({} : Planting).plant twinsDraft).getD ({}, ⟨0⟩)).1.forest

theorem plantedTwins_isUnsealed : plantedTwins.IsUnsealed ⟨2⟩ := by
  have fresh : twinsDraft.isFresh = true := rfl
  have planted : ({} : Planting).plant twinsDraft =
      some ((({} : Planting).plant twinsDraft).getD ({}, ⟨0⟩)) := rfl
  exact isUnsealed_of_plant fresh planted

theorem following_opposite_preceding_twins :
    let first : NodeId := ⟨0⟩
    let second : NodeId := ⟨1⟩
    let opened := (plantedTwins.openDocument ⟨2⟩).1
    plantedTwins.IsAttachedOnce ⟨2⟩ ∧ plantedTwins.IsUnsealed ⟨2⟩ ∧
    ((second ∈ plantedTwins.following first ↔ plantedTwins.LeftOf ⟨2⟩ first second) ∧
      (first ∈ plantedTwins.preceding second ↔
        plantedTwins.Precedes first second ∧ first ∉ plantedTwins.ancestors second)) ∧
    plantedTwins.preceding second = [] ∧
    (second ∈ opened.following first ↔ first ∈ opened.preceding second) := by
  have unsealed := plantedTwins_isUnsealed
  have both := following_opposite_preceding unsealed.toIsAttachedOnce
  refine ⟨unsealed.toIsAttachedOnce, unsealed, both.1 ⟨0⟩ (by decide +kernel) ⟨1⟩ (by decide +kernel)
    (by decide +kernel) (by decide +kernel), (both.2 unsealed).1 ⟨1⟩ (by decide +kernel), ?_⟩
  exact (both.2 unsealed).2 _ (plantedTwins.openDocument ⟨2⟩).1 (plantedTwins.openDocument ⟨2⟩).2 rfl
    rfl (fun _ _ => rfl) ⟨0⟩ (by decide +kernel) ⟨1⟩ (by decide +kernel) (by decide +kernel)
    (by decide +kernel)

/-- Without numbers one node may follow another that does not precede it. -/
theorem following_without_preceding :
    plantedTwins.IsAttachedOnce ⟨2⟩ ∧
      (⟨0⟩ : NodeId) ∈ plantedTwins.subtreeWithAttributes ⟨2⟩ ∧
      (⟨1⟩ : NodeId) ∈ plantedTwins.subtreeWithAttributes ⟨2⟩ ∧
      plantedTwins.kind ⟨0⟩ = .element ∧ plantedTwins.kind ⟨1⟩ = .element ∧
      (⟨1⟩ : NodeId) ∈ plantedTwins.following ⟨0⟩ ∧
      (⟨0⟩ : NodeId) ∉ plantedTwins.preceding ⟨1⟩ :=
  ⟨plantedTwins_isUnsealed.toIsAttachedOnce, by decide +kernel⟩

end Forest

end NodeQuery
