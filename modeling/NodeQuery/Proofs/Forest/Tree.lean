import Mathlib.Data.List.Nodup
import NodeQuery.Forest.Axis

/-!
# Trees in a forest

A node that every node below it holds alone is the top of a tree: its subtree lists each node once.
Such a tree, once numbered, is closed under all axes, and whatever is listed in the order of its
subtree is listed in document order.
-/

namespace NodeQuery

namespace Forest

variable {forest : Forest}

/-- A walk over a stack lists the subtrees of the nodes on it, from the top of the stack down. -/
theorem toList_unstack (forest : Forest) (listed stack : Array NodeId) :
    (forest.unstack listed stack).toList =
      listed.toList ++ stack.toList.reverse.flatMap forest.subtree := by
  fun_induction unstack with
  | case1 listed stack none =>
      rw [Array.back?_eq_none_iff.mp none]
      simp
  | case2 listed stack id top ih =>
      obtain ⟨rest, rfl⟩ := Array.back?_eq_some_iff.mp top
      -- The node is listed now, and its children on the stack stand for the rest of its subtree.
      rw [ih]
      simp [subtree_eq forest id, descendants]

/-- A walk down lists what the recursion over children lists. -/
@[simp]
theorem walkDown_false (forest : Forest) : forest.walkDown false = forest.descendants := by
  funext id
  simp [walkDown, toList_unstack, descendants]

@[simp]
theorem walkDown_true (forest : Forest) : forest.walkDown true = forest.subtree := by
  funext id
  simp [walkDown, toList_unstack, subtree_eq, descendants]

@[simp]
theorem along_descendant (forest : Forest) (id : NodeId) :
    forest.along .descendant id = forest.descendants id := by
  rw [along, walkDown_false]

@[simp]
theorem along_descendantOrSelf (forest : Forest) (id : NodeId) :
    forest.along .descendantOrSelf id = forest.subtree id := by
  rw [along, walkDown_true]

/-- The subtree of a node with attributes, by one step. -/
theorem subtreeWithAttributes_eq (forest : Forest) (id : NodeId) :
    forest.subtreeWithAttributes id = id :: (forest.attributes id ++
      (forest.children id).flatMap forest.subtreeWithAttributes) := by
  rw [subtreeWithAttributes,
    List.flatMap_subtype (fun _ _ => rfl),
    List.unattach_attach]

/-- What is shown for all children of a node first can be shown for every node. -/
theorem childInduction (forest : Forest) {motive : NodeId → Prop}
    (step : ∀ id, (∀ child ∈ forest.children id, motive child) → motive id) (id : NodeId) :
    motive id :=
  step id fun child member =>
    have := lt_of_mem_children member
    childInduction forest step child
termination_by id.index

theorem mem_subtreeWithAttributes {id other : NodeId} :
    other ∈ forest.subtreeWithAttributes id ↔ other = id ∨ other ∈ forest.attributes id ∨
      ∃ child ∈ forest.children id, other ∈ forest.subtreeWithAttributes child := by
  rw [subtreeWithAttributes_eq, List.mem_cons, List.mem_append, List.mem_flatMap]

theorem mem_subtreeWithAttributes_self (id : NodeId) : id ∈ forest.subtreeWithAttributes id :=
  mem_subtreeWithAttributes.mpr (Or.inl rfl)

theorem mem_subtreeWithAttributes_of_attribute {id held : NodeId}
    (member : held ∈ forest.attributes id) : held ∈ forest.subtreeWithAttributes id :=
  mem_subtreeWithAttributes.mpr (Or.inr (Or.inl member))

theorem mem_subtreeWithAttributes_of_child {id child other : NodeId}
    (member : child ∈ forest.children id) (below : other ∈ forest.subtreeWithAttributes child) :
    other ∈ forest.subtreeWithAttributes id :=
  mem_subtreeWithAttributes.mpr (Or.inr (Or.inr ⟨child, member, below⟩))

theorem mem_subtree {id other : NodeId} :
    other ∈ forest.subtree id ↔
      other = id ∨ ∃ child ∈ forest.children id, other ∈ forest.subtree child := by
  rw [subtree_eq, List.mem_cons, descendants, List.mem_flatMap]

/-- Nothing below a node is stored after it. -/
theorem index_le_of_mem_subtree {id other : NodeId}
    (below : other ∈ forest.subtreeWithAttributes id) : other.index ≤ id.index := by
  induction id using forest.childInduction with
  | step id ih =>
      rcases mem_subtreeWithAttributes.mp below with same | attached | ⟨child, member, inside⟩
      · exact Nat.le_of_eq (congrArg NodeId.index same)
      · exact Nat.le_of_lt (lt_of_mem_attributes attached)
      · exact Nat.le_of_lt (Nat.lt_of_le_of_lt (ih child member inside)
          (lt_of_mem_children member))

/-- Leaving the attributes out of a subtree keeps the order of all else. -/
theorem subtree_sublist (forest : Forest) (id : NodeId) :
    (forest.subtree id).Sublist (forest.subtreeWithAttributes id) := by
  induction id using forest.childInduction with
  | step id ih =>
      rw [subtree_eq, subtreeWithAttributes_eq, descendants]
      apply List.Sublist.cons_cons
      apply List.Sublist.trans _ (List.sublist_append_right _ _)
      generalize forest.children id = children at ih ⊢
      induction children with
      | nil => exact List.Sublist.refl _
      | cons first others tail =>
          rw [List.flatMap_cons, List.flatMap_cons]
          exact (ih first List.mem_cons_self).append
            (tail fun child member => ih child (List.mem_cons_of_mem _ member))

/-- A live node is the parent of what it holds, and holds it once.  Its attributes are attributes,
which hold nothing. -/
structure Owns (forest : Forest) (id : NodeId) : Prop where
  parent : ∀ held ∈ forest.attributes id ++ forest.children id,
    (forest.node held).parent = some id
  once : (forest.attributes id ++ forest.children id).Nodup
  attribute_kind : ∀ held ∈ forest.attributes id, forest.kind held = .attribute
  attribute_bare : forest.kind id = .attribute → forest.attributes id ++ forest.children id = []
  alive : (forest.node id).alive = true

/-- A tree whose nodes are attached once each: every node is the parent of what it holds, and nothing
holds the top. -/
structure IsAttachedOnce (forest : Forest) (top : NodeId) : Prop where
  owned : ∀ id ∈ forest.subtreeWithAttributes top, forest.Owns id
  free : (forest.node top).parent = none

theorem lt_of_mem_held {id held : NodeId}
    (member : held ∈ forest.attributes id ++ forest.children id) : held.index < id.index := by
  rcases List.mem_append.mp member with attached | below
  · exact lt_of_mem_attributes attached
  · exact lt_of_mem_children below

/-- A live node that holds something is found as a parent. -/
theorem parent?_of_owns {id held : NodeId} (owns : forest.Owns id)
    (member : held ∈ forest.attributes id ++ forest.children id) :
    forest.parent? held = some id := by
  have before := lt_of_mem_held member
  have inside : id.index < forest.nodes.size := by
    -- A place outside the forest shows a node that holds nothing.
    by_contra outside
    have shown : forest.node id = { kind := .text } := by
      rw [node, Array.getD_eq_getD_getElem?, Array.getElem?_eq_none (by omega),
        Option.getD_none]
    simp [attributes, children, shown] at member
  simp only [parent?, owns.parent held member, Option.filter_some, isAlive, before, inside,
    owns.alive, decide_true, Bool.and_self, if_true]

section
variable {top : NodeId} (owned : ∀ id ∈ forest.subtreeWithAttributes top, forest.Owns id)
include owned

/-- What a node in a tree holds is in the tree. -/
theorem held_mem_of_owns {id held : NodeId} (below : id ∈ forest.subtreeWithAttributes top)
    (member : held ∈ forest.attributes id ++ forest.children id) :
    held ∈ forest.subtreeWithAttributes top := by
  induction top using forest.childInduction with
  | step top ih =>
      rcases mem_subtreeWithAttributes.mp below with same | attached | ⟨child, inner, inside⟩
      · subst same
        rcases List.mem_append.mp member with attached | under
        · exact mem_subtreeWithAttributes_of_attribute attached
        · exact mem_subtreeWithAttributes_of_child under (mem_subtreeWithAttributes_self held)
      · have kind := (owned top (mem_subtreeWithAttributes_self top)).attribute_kind id attached
        rw [(owned id below).attribute_bare kind] at member
        cases member
      · apply mem_subtreeWithAttributes_of_child inner
        exact ih child inner (fun other under =>
          owned other (mem_subtreeWithAttributes_of_child inner under)) inside

/-- Every node of a tree but the top has its parent in the tree. -/
theorem parent_mem_of_owns {id : NodeId} (below : id ∈ forest.subtreeWithAttributes top) :
    id = top ∨ ∃ parent ∈ forest.subtreeWithAttributes top,
      id ∈ forest.attributes parent ++ forest.children parent := by
  induction top using forest.childInduction with
  | step top ih =>
      rcases mem_subtreeWithAttributes.mp below with same | attached | ⟨child, member, inside⟩
      · exact Or.inl same
      · exact Or.inr ⟨top, mem_subtreeWithAttributes_self top, List.mem_append_left _ attached⟩
      · have inner (other : NodeId) (under : other ∈ forest.subtreeWithAttributes child) :=
          owned other (mem_subtreeWithAttributes_of_child member under)
        rcases ih child member inner inside with same | ⟨parent, under, held⟩
        · subst same
          exact Or.inr ⟨top, mem_subtreeWithAttributes_self top, List.mem_append_right _ member⟩
        · exact Or.inr ⟨parent, mem_subtreeWithAttributes_of_child member under, held⟩

end

/-- Of two tops of trees with a node in common, one is in the tree of the other. -/
theorem nested_of_common {first second id : NodeId}
    (ownedFirst : ∀ other ∈ forest.subtreeWithAttributes first, forest.Owns other)
    (ownedSecond : ∀ other ∈ forest.subtreeWithAttributes second, forest.Owns other)
    (belowFirst : id ∈ forest.subtreeWithAttributes first)
    (belowSecond : id ∈ forest.subtreeWithAttributes second) :
    first ∈ forest.subtreeWithAttributes second ∨ second ∈ forest.subtreeWithAttributes first := by
  rcases parent_mem_of_owns ownedFirst belowFirst with same | ⟨parent, inside, held⟩
  · exact Or.inl (same ▸ belowSecond)
  rcases parent_mem_of_owns ownedSecond belowSecond with same | ⟨other, otherInside, otherHeld⟩
  · exact Or.inr (same ▸ belowFirst)
  -- Both trees go up from the node to its one parent.
  have equal : parent = other := by
    have shown := (ownedFirst parent inside).parent id held
    rw [(ownedSecond other otherInside).parent id otherHeld] at shown
    exact (Option.some.inj shown).symm
  subst equal
  have up := lt_of_mem_held held
  have bound := index_le_of_mem_subtree inside
  exact nested_of_common ownedFirst ownedSecond inside otherInside
termination_by first.index - id.index

/-- Two nodes held by one node have no node below them in common. -/
theorem disjoint_of_held {parent first second : NodeId}
    (ownedFirst : ∀ other ∈ forest.subtreeWithAttributes first, forest.Owns other)
    (ownedSecond : ∀ other ∈ forest.subtreeWithAttributes second, forest.Owns other)
    (owns : forest.Owns parent) (firstHeld : first ∈ forest.attributes parent ++ forest.children parent)
    (secondHeld : second ∈ forest.attributes parent ++ forest.children parent)
    (apart : first ≠ second) :
    (forest.subtreeWithAttributes first).Disjoint (forest.subtreeWithAttributes second) := by
  -- The one that is below the other would have the parent below it as well.
  have strictly {low high : NodeId}
      (owned : ∀ other ∈ forest.subtreeWithAttributes high, forest.Owns other)
      (lowHeld : low ∈ forest.attributes parent ++ forest.children parent)
      (highHeld : high ∈ forest.attributes parent ++ forest.children parent)
      (below : low ∈ forest.subtreeWithAttributes high) : low = high := by
    rcases parent_mem_of_owns owned below with same | ⟨other, inside, held⟩
    · exact same
    · have shown := (owned other inside).parent low held
      rw [owns.parent low lowHeld] at shown
      have high := lt_of_mem_held highHeld
      have bound := index_le_of_mem_subtree inside
      rw [← Option.some.inj shown] at bound
      omega
  intro id belowFirst belowSecond
  rcases nested_of_common ownedFirst ownedSecond belowFirst belowSecond with inside | inside
  · exact apart (strictly ownedSecond firstHeld secondHeld inside)
  · exact apart (strictly ownedFirst secondHeld firstHeld inside).symm

/-- The subtree of a tree's top lists every node once. -/
theorem nodup_subtreeWithAttributes {top : NodeId}
    (owned : ∀ id ∈ forest.subtreeWithAttributes top, forest.Owns id) :
    (forest.subtreeWithAttributes top).Nodup := by
  induction top using forest.childInduction with
  | step top ih =>
      have owns := owned top (mem_subtreeWithAttributes_self top)
      have inner (child : NodeId) (member : child ∈ forest.children top) (id : NodeId)
          (below : id ∈ forest.subtreeWithAttributes child) : forest.Owns id :=
        owned id (mem_subtreeWithAttributes_of_child member below)
      obtain ⟨attributesOnce, childrenOnce, apart⟩ := List.nodup_append.mp owns.once
      rw [subtreeWithAttributes_eq, List.nodup_cons, List.nodup_append]
      refine ⟨?_, attributesOnce, ?_, ?_⟩
      · intro member
        rcases List.mem_append.mp member with attached | below
        · exact Nat.lt_irrefl _ (lt_of_mem_attributes attached)
        · obtain ⟨child, held, inside⟩ := List.mem_flatMap.mp below
          have bound := index_le_of_mem_subtree inside
          have under := lt_of_mem_children held
          omega
      · rw [List.nodup_flatMap]
        refine ⟨fun child member => ih child member (inner child member), ?_⟩
        apply List.Pairwise.imp_of_mem _ childrenOnce
        intro first second firstHeld secondHeld different
        exact disjoint_of_held (inner first firstHeld) (inner second secondHeld) owns
          (List.mem_append_right _ firstHeld) (List.mem_append_right _ secondHeld) different
      · intro held attached other below equal
        subst equal
        obtain ⟨child, member, inside⟩ := List.mem_flatMap.mp below
        have kept := owned held (mem_subtreeWithAttributes_of_attribute attached)
        have ownedAlone (other : NodeId) (under : other ∈ forest.subtreeWithAttributes held) :
            forest.Owns other := by
          have bare := List.append_eq_nil_iff.mp
            (kept.attribute_bare (owns.attribute_kind held attached))
          rw [subtreeWithAttributes_eq, bare.1, bare.2] at under
          rw [List.mem_singleton.mp under]
          exact kept
        exact disjoint_of_held ownedAlone (inner child member) owns
          (List.mem_append_left _ attached) (List.mem_append_right _ member)
          (apart held attached child member) (mem_subtreeWithAttributes_self held) inside

end Forest

end NodeQuery
