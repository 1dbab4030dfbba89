import NodeQuery.NodeSet
import NodeQuery.Proofs.Forest.Axis

/-!
# Node-sets in document order

Putting nodes of one document in order keeps them all, lists none twice, and lists each before all
that come after it in the document.  Of any nodes, those at equal places keep the order in which they
are first listed.  It makes no difference whether repetitions go before the nodes are sorted or after:
sorting is stable, so the first occurrence of a node stays in front of the others.
-/

namespace NodeQuery

variable {forest : Forest}

theorem mem_distinctAfter {seen ids : List NodeId} {id : NodeId} :
    id ∈ distinctAfter seen ids ↔ id ∈ ids ∧ id ∉ seen := by
  induction ids generalizing seen with
  | nil => simp [distinctAfter]
  | cons first others ih =>
      rw [distinctAfter, List.mem_cons]
      split
      · rename_i repeated
        have known : first ∈ seen := List.contains_iff_mem.mp repeated
        rw [ih]
        constructor
        · rintro ⟨later, new⟩
          exact ⟨Or.inr later, new⟩
        · rintro ⟨same | later, new⟩
          · exact absurd (same ▸ known) new
          · exact ⟨later, new⟩
      · rename_i fresh
        have unknown : first ∉ seen := fun member => fresh (List.contains_iff_mem.mpr member)
        rw [List.mem_cons, ih, List.mem_cons, not_or]
        by_cases same : id = first
        · simp [same, unknown]
        · simp [same]

theorem nodup_distinctAfter (seen ids : List NodeId) : (distinctAfter seen ids).Nodup := by
  induction ids generalizing seen with
  | nil => exact List.nodup_nil
  | cons first others ih =>
      rw [distinctAfter]
      split
      · exact ih seen
      · apply List.nodup_cons.mpr
        refine ⟨?_, ih (first :: seen)⟩
        intro member
        exact (mem_distinctAfter.mp member).2 List.mem_cons_self

theorem distinctAfter_of_nodup {seen ids : List NodeId} (once : ids.Nodup)
    (new : ∀ id ∈ ids, id ∉ seen) : distinctAfter seen ids = ids := by
  induction ids generalizing seen with
  | nil => rfl
  | cons first others ih =>
      rcases List.nodup_cons.mp once with ⟨apart, once⟩
      have unknown : ¬ seen.contains first = true :=
        fun repeated => new first List.mem_cons_self (List.contains_iff_mem.mp repeated)
      rw [distinctAfter, if_neg unknown, ih once]
      intro id member known
      rcases List.mem_cons.mp known with same | before
      · exact apart (same ▸ member)
      · exact new id (List.mem_cons_of_mem _ member) before

theorem mem_distinct {ids : List NodeId} {id : NodeId} : id ∈ distinct ids ↔ id ∈ ids := by
  rw [distinct, mem_distinctAfter]
  exact and_iff_left List.not_mem_nil

theorem nodup_distinct (ids : List NodeId) : (distinct ids).Nodup := nodup_distinctAfter [] ids

theorem distinct_of_nodup {ids : List NodeId} (once : ids.Nodup) : distinct ids = ids :=
  distinctAfter_of_nodup once fun _ _ => List.not_mem_nil

/-- What has been seen counts as a set. -/
theorem distinctAfter_congr {seen other : List NodeId} (same : ∀ id, id ∈ seen ↔ id ∈ other)
    (ids : List NodeId) : distinctAfter seen ids = distinctAfter other ids := by
  induction ids generalizing seen other with
  | nil => rfl
  | cons first others ih =>
      have seenAlike : seen.contains first = other.contains first := by
        rw [Bool.eq_iff_iff, List.contains_iff_mem, List.contains_iff_mem]
        exact same first
      have longer : ∀ id, id ∈ first :: seen ↔ id ∈ first :: other := by
        intro id
        rw [List.mem_cons, List.mem_cons, same id]
      rw [distinctAfter, distinctAfter, seenAlike, ih same, ih longer]

theorem distinctAfter_append (seen ids others : List NodeId) :
    distinctAfter seen (ids ++ others) =
      distinctAfter seen ids ++ distinctAfter (ids ++ seen) others := by
  induction ids generalizing seen with
  | nil => rfl
  | cons first rest ih =>
      rw [List.cons_append, distinctAfter, distinctAfter]
      split
      · rename_i repeated
        have known : first ∈ seen := List.contains_iff_mem.mp repeated
        rw [ih, List.cons_append]
        congr 1
        apply distinctAfter_congr
        intro id
        rw [List.mem_cons, List.mem_append]
        constructor
        · exact Or.inr
        · rintro (same | member)
          · exact Or.inr (same ▸ known)
          · exact member
      · rw [ih, List.cons_append]
        congr 2
        apply distinctAfter_congr
        intro id
        rw [List.mem_append, List.mem_cons, List.cons_append, List.mem_cons, List.mem_append]
        exact or_left_comm

theorem distinctAfter_cons_of_mem {id : NodeId} {seen : List NodeId} (known : id ∈ seen)
    (ids : List NodeId) : distinctAfter seen (id :: ids) = distinctAfter seen ids :=
  if_pos (List.contains_iff_mem.mpr known)

theorem distinctAfter_cons_of_not_mem {id : NodeId} {seen : List NodeId} (fresh : id ∉ seen)
    (ids : List NodeId) : distinctAfter seen (id :: ids) = id :: distinctAfter (id :: seen) ids :=
  if_neg fun repeated => fresh (List.contains_iff_mem.mp repeated)

theorem head?_distinct (ids : List NodeId) : (distinct ids).head? = ids.head? := by
  cases ids with
  | nil => rfl
  | cons first others => rfl

/-- A repetition right behind a node is no first occurrence. -/
theorem distinctAfter_eraseReps (seen ids : List NodeId) :
    distinctAfter seen ids.eraseReps = distinctAfter seen ids := by
  have loop (first : NodeId) (others done : List NodeId) :
      distinctAfter seen (List.eraseRepsBy.loop (· == ·) first others done) =
        distinctAfter seen (done.reverse ++ first :: others) := by
    induction others generalizing first done with
    | nil => rw [List.eraseRepsBy.loop, List.reverse_cons]
    | cons second others ih =>
        rw [List.eraseRepsBy.loop]
        split
        · rename_i same
          rw [ih, ← beq_iff_eq.mp same, distinctAfter_append, distinctAfter_append]
          congr 1
          by_cases known : first ∈ done.reverse ++ seen
          · rw [distinctAfter_cons_of_mem known, distinctAfter_cons_of_mem known,
              distinctAfter_cons_of_mem known]
          · rw [distinctAfter_cons_of_not_mem known, distinctAfter_cons_of_not_mem known,
              distinctAfter_cons_of_mem List.mem_cons_self]
        · rw [ih, List.reverse_cons, List.append_assoc, List.singleton_append]
  cases ids with
  | nil => rfl
  | cons first others => exact loop first others []

theorem insertByOrder_perm (forest : Forest) (id : NodeId) (ids : List NodeId) :
    (insertByOrder forest id ids).Perm (id :: ids) := by
  induction ids with
  | nil => exact List.Perm.refl _
  | cons first others ih =>
      rw [insertByOrder]
      split
      · exact (ih.cons first).trans (List.Perm.swap id first others)
      · exact List.Perm.refl _

theorem sortByOrder_perm (forest : Forest) (ids : List NodeId) :
    (sortByOrder forest ids).Perm ids := by
  induction ids with
  | nil => exact List.Perm.refl _
  | cons first others ih => exact (insertByOrder_perm forest first _).trans (ih.cons first)

/-- A node goes behind those that are before it and in front of all others. -/
theorem insertByOrder_append {id : NodeId} {before others : List NodeId}
    (ahead : ∀ other ∈ before, forest.Precedes other id)
    (behind : ∀ other ∈ others, ¬ forest.Precedes other id) :
    insertByOrder forest id (before ++ others) = before ++ id :: others := by
  induction before with
  | nil =>
      cases others with
      | nil => rfl
      | cons first others => exact if_neg (behind first List.mem_cons_self)
  | cons first before ih =>
      rcases List.forall_mem_cons.mp ahead with ⟨passed, ahead⟩
      have through : insertByOrder forest id (first :: (before ++ others)) =
          first :: insertByOrder forest id (before ++ others) := if_pos passed
      rw [List.cons_append, through, ih ahead, List.cons_append]

/-- Sorted nodes are not before any node in front of them. -/
abbrev Forest.Ordered (forest : Forest) (ids : List NodeId) : Prop :=
  ids.Pairwise fun first second => ¬ forest.Precedes second first

theorem Forest.Ordered.not_precedes {id first : NodeId} {others : List NodeId}
    (ordered : forest.Ordered (first :: others)) (reached : ¬ forest.Precedes first id) :
    ∀ other ∈ first :: others, ¬ forest.Precedes other id := by
  refine List.forall_mem_cons.mpr ⟨reached, fun other member before => ?_⟩
  rcases before.or_precedes first with low | high
  · exact (List.pairwise_cons.mp ordered).1 other member low
  · exact reached high

theorem Forest.Ordered.insertByOrder {ids : List NodeId} (ordered : forest.Ordered ids)
    (id : NodeId) : forest.Ordered (insertByOrder forest id ids) := by
  induction ids with
  | nil => exact List.pairwise_singleton _ _
  | cons first others ih =>
      rw [NodeQuery.insertByOrder]
      split
      · rename_i passed
        refine List.pairwise_cons.mpr ⟨fun other member => ?_, ih ordered.tail⟩
        rcases List.mem_cons.mp ((insertByOrder_perm forest id others).mem_iff.mp member) with
          rfl | later
        · exact Precedes.asymm passed
        · exact (List.pairwise_cons.mp ordered).1 other later
      · rename_i reached
        exact List.pairwise_cons.mpr ⟨ordered.not_precedes reached, ordered⟩

theorem ordered_sortByOrder (forest : Forest) (ids : List NodeId) :
    forest.Ordered (sortByOrder forest ids) := by
  induction ids with
  | nil => exact List.Pairwise.nil
  | cons first others ih => exact ih.insertByOrder first

/-- Inserting a node that has been seen adds no first occurrence. -/
theorem distinctAfter_insertByOrder_of_mem {id : NodeId} {seen : List NodeId} (known : id ∈ seen)
    (ids : List NodeId) :
    distinctAfter seen (insertByOrder forest id ids) = distinctAfter seen ids := by
  induction ids generalizing seen with
  | nil => exact distinctAfter_cons_of_mem known []
  | cons first others ih =>
      rw [insertByOrder]
      split
      · rw [distinctAfter, distinctAfter, ih known, ih (List.mem_cons_of_mem first known)]
      · exact distinctAfter_cons_of_mem known (first :: others)

/-- The first occurrence of an inserted node is the inserted one. -/
theorem distinctAfter_insertByOrder_of_not_mem {id : NodeId} {seen ids : List NodeId}
    (fresh : id ∉ seen) (ordered : forest.Ordered ids) :
    distinctAfter seen (insertByOrder forest id ids) =
      insertByOrder forest id (distinctAfter (id :: seen) ids) := by
  induction ids generalizing seen with
  | nil => exact distinctAfter_cons_of_not_mem fresh []
  | cons first others ih =>
      by_cases passed : forest.Precedes first id
      · have apart : first ≠ id := by
          rintro rfl
          exact passed.asymm passed
        have through (rest : List NodeId) : insertByOrder forest id (first :: rest) =
            first :: insertByOrder forest id rest := if_pos passed
        have seenAlike : (id :: seen).contains first = seen.contains first := by simp [apart]
        rw [through, distinctAfter, distinctAfter, seenAlike]
        split
        · exact ih fresh ordered.tail
        · have unseen : id ∉ first :: seen := List.not_mem_cons_of_ne_of_not_mem apart.symm fresh
          rw [through, ih unseen ordered.tail,
            distinctAfter_congr fun other => (List.Perm.swap first id seen).mem_iff]
      · have reached := ordered.not_precedes passed
        have inFront {rest : List NodeId} (behind : ∀ other ∈ rest, ¬ forest.Precedes other id) :
            insertByOrder forest id rest = id :: rest :=
          insertByOrder_append (List.forall_mem_nil _) behind
        rw [inFront reached, distinctAfter_cons_of_not_mem fresh]
        exact (inFront fun other member => reached other (mem_distinctAfter.mp member).1).symm

/-- Repetitions can go before sorting or after it. -/
theorem distinctAfter_sortByOrder (forest : Forest) (seen ids : List NodeId) :
    distinctAfter seen (sortByOrder forest ids) = sortByOrder forest (distinctAfter seen ids) := by
  induction ids generalizing seen with
  | nil => rfl
  | cons first others ih =>
      have step (rest : List NodeId) : sortByOrder forest (first :: rest) =
          insertByOrder forest first (sortByOrder forest rest) := rfl
      by_cases known : first ∈ seen
      · rw [step, distinctAfter_insertByOrder_of_mem known, distinctAfter_cons_of_mem known, ih]
      · rw [step, distinctAfter_insertByOrder_of_not_mem known (ordered_sortByOrder forest others),
          distinctAfter_cons_of_not_mem known, ih, step]

namespace Forest.IsTree

variable {document : DocumentId} {root : NodeId} (tree : forest.IsTree document root)
include tree

/-- A node of the tree that is not listed can be inserted in its place. -/
theorem ordered_insertByOrder {id : NodeId} {ids : List NodeId}
    (inside : id ∈ forest.subtreeWithAttributes root)
    (allInside : ∀ other ∈ ids, other ∈ forest.subtreeWithAttributes root) (apart : id ∉ ids)
    (ordered : ids.Pairwise forest.Precedes) :
    (insertByOrder forest id ids).Pairwise forest.Precedes := by
  induction ids with
  | nil => exact List.pairwise_singleton _ _
  | cons first others ih =>
      rw [List.mem_cons, not_or] at apart
      rcases List.pairwise_cons.mp ordered with ⟨before, ordered⟩
      rw [insertByOrder]
      split
      · rename_i passed
        apply List.pairwise_cons.mpr
        refine ⟨?_, ih (fun other member => allInside other (List.mem_cons_of_mem _ member))
          apart.2 ordered⟩
        intro other member
        rcases List.mem_cons.mp ((insertByOrder_perm forest id others).mem_iff.mp member) with
          same | later
        · rw [same]
          exact passed
        · exact before other later
      · rename_i reached
        have placed : forest.Precedes id first := by
          rcases tree.precedes_or_precedes inside (allInside first List.mem_cons_self) apart.1 with
            found | passed
          · exact found
          · exact absurd passed reached
        apply List.pairwise_cons.mpr
        refine ⟨?_, ordered.cons before⟩
        intro other member
        rcases List.mem_cons.mp member with same | later
        · rw [same]
          exact placed
        · exact placed.trans (before other later)

theorem ordered_sortByOrder {ids : List NodeId}
    (allInside : ∀ id ∈ ids, id ∈ forest.subtreeWithAttributes root) (once : ids.Nodup) :
    (sortByOrder forest ids).Pairwise forest.Precedes := by
  induction ids with
  | nil => exact List.Pairwise.nil
  | cons first others ih =>
      rcases List.nodup_cons.mp once with ⟨apart, once⟩
      have inside (id : NodeId) (member : id ∈ others) :=
        allInside id (List.mem_cons_of_mem _ member)
      apply tree.ordered_insertByOrder (allInside first List.mem_cons_self)
      · intro id member
        exact inside id ((sortByOrder_perm forest others).mem_iff.mp member)
      · intro member
        exact apart ((sortByOrder_perm forest others).mem_iff.mp member)
      · exact ih inside once

end Forest.IsTree

namespace NodeSet

theorem nodes_ofNodes {ids : List NodeId} (once : ids.Nodup) :
    (ofNodes forest ids).nodes = ids := distinct_of_nodup once

/-- Lists with the same first occurrences make the same set. -/
theorem ofNodes_congr {ids others : List NodeId} (same : distinct ids = distinct others) :
    ofNodes forest ids = ofNodes forest others := by
  rw [ofNodes, ofNodes, ← head?_distinct ids, ← head?_distinct others, same]

/-- The set in document order, made of the sorted first occurrences. -/
theorem inDocumentOrder_eq (forest : Forest) (ids : List NodeId) :
    inDocumentOrder forest ids = ofNodes forest (sortByOrder forest (distinct ids)) := by
  apply ofNodes_congr
  rw [distinct, distinctAfter_eraseReps, distinctAfter_sortByOrder, distinct,
    distinctAfter_sortByOrder]
  exact congrArg _ (distinct_of_nodup (nodup_distinct ids)).symm

theorem nodes_inDocumentOrder (forest : Forest) (ids : List NodeId) :
    (inDocumentOrder forest ids).nodes = sortByOrder forest (distinct ids) := by
  rw [inDocumentOrder_eq]
  apply nodes_ofNodes
  rw [(sortByOrder_perm forest (distinct ids)).nodup_iff]
  exact nodup_distinct ids

/-- Putting nodes in document order neither adds nor loses any. -/
theorem mem_inDocumentOrder {ids : List NodeId} {id : NodeId} :
    id ∈ (inDocumentOrder forest ids).nodes ↔ id ∈ ids := by
  rw [nodes_inDocumentOrder, (sortByOrder_perm forest _).mem_iff, mem_distinct]

theorem perm_inDocumentOrder {ids : List NodeId} (once : ids.Nodup) :
    (inDocumentOrder forest ids).nodes.Perm ids := by
  rw [nodes_inDocumentOrder, distinct_of_nodup once]
  exact sortByOrder_perm forest ids

theorem length_inDocumentOrder {ids : List NodeId} (once : ids.Nodup) :
    (inDocumentOrder forest ids).nodes.length = ids.length :=
  (perm_inDocumentOrder once).length_eq

/-- Nodes of one tree come out in strictly ascending document order. -/
theorem ascending_inDocumentOrder {document : DocumentId} {root : NodeId}
    (tree : forest.IsTree document root) {ids : List NodeId}
    (inside : ∀ id ∈ ids, id ∈ forest.subtreeWithAttributes root) :
    forest.Ascending (inDocumentOrder forest ids).nodes := by
  rw [nodes_inDocumentOrder]
  constructor
  · rw [(sortByOrder_perm forest (distinct ids)).nodup_iff]
    exact nodup_distinct ids
  · apply tree.ordered_sortByOrder _ (nodup_distinct ids)
    intro id member
    exact inside id (mem_distinct.mp member)

/-- Nodes that are in document order stay as they are when they are put in it. -/
theorem nodes_inDocumentOrder_of_ascending {document : DocumentId} {root : NodeId}
    (tree : forest.IsTree document root) {ids : List NodeId} (ascending : forest.Ascending ids)
    (inside : ∀ id ∈ ids, id ∈ forest.subtreeWithAttributes root) :
    (inDocumentOrder forest ids).nodes = ids :=
  (ascending_inDocumentOrder tree inside).eq_of_mem_iff ascending fun _ => mem_inDocumentOrder

theorem inDocumentOrder_of_ascending {document : DocumentId} {root : NodeId}
    (tree : forest.IsTree document root) {ids : List NodeId} (ascending : forest.Ascending ids)
    (inside : ∀ id ∈ ids, id ∈ forest.subtreeWithAttributes root) :
    inDocumentOrder forest ids = ofNodes forest ids := by
  have sorted := nodes_inDocumentOrder_of_ascending tree ascending inside
  rw [nodes_inDocumentOrder] at sorted
  rw [inDocumentOrder_eq, sorted]

theorem inDocumentOrder_distinct (forest : Forest) (ids : List NodeId) :
    inDocumentOrder forest (distinct ids) = inDocumentOrder forest ids := by
  rw [inDocumentOrder_eq, inDocumentOrder_eq, distinct_of_nodup (nodup_distinct ids)]

/-- In which order nodes of one tree come, and how often each, is lost when they are put in document
order. -/
theorem inDocumentOrder_congr {document : DocumentId} {root : NodeId}
    (tree : forest.IsTree document root) {ids others : List NodeId}
    (inside : ∀ id ∈ ids, id ∈ forest.subtreeWithAttributes root)
    (same : ∀ id, id ∈ ids ↔ id ∈ others) :
    inDocumentOrder forest ids = inDocumentOrder forest others := by
  have othersInside (id : NodeId) (member : id ∈ others) := inside id ((same id).mpr member)
  have equal : (inDocumentOrder forest ids).nodes = (inDocumentOrder forest others).nodes := by
    apply (ascending_inDocumentOrder tree inside).eq_of_mem_iff
      (ascending_inDocumentOrder tree othersInside)
    intro id
    rw [mem_inDocumentOrder, mem_inDocumentOrder]
    exact same id
  rw [nodes_inDocumentOrder, nodes_inDocumentOrder] at equal
  rw [inDocumentOrder_eq, inDocumentOrder_eq, equal]

theorem nodes_decorate (set : NodeSet) (fallback : Option DocumentId) :
    (set.decorate forest fallback).nodes = set.nodes := by
  rw [decorate]
  split
  · rfl
  · split <;> rfl

end NodeSet

end NodeQuery
