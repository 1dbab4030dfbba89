import Mathlib.Data.List.Flatten
import NodeQuery.Proofs.Forest.Partition

/-!
# Comments put into a document

A document and the same document with comments put between the children of its nodes.  Every node has its
image in the document with comments, and images are in the order of what they are the images of.  All
elements of the document with comments are images.
-/

namespace NodeQuery

/-- What gives nothing for the items left out of a list gives the same for the part that is left. -/
theorem flatMap_of_sublist {α β : Type} {part whole : List α} {find : α → List β}
    (sublist : part.Sublist whole) (once : whole.Nodup)
    (bare : ∀ item ∈ whole, item ∉ part → find item = []) :
    whole.flatMap find = part.flatMap find := by
  induction sublist with
  | slnil => rfl
  | @cons part whole item inside ih =>
      rcases List.nodup_cons.mp once with ⟨apart, once⟩
      have nothing : find item = [] :=
        bare item List.mem_cons_self fun member => apart (inside.subset member)
      rw [List.flatMap_cons, nothing, List.nil_append]
      exact ih once fun other member => bare other (List.mem_cons_of_mem _ member)
  | @cons_cons part whole item inside ih =>
      rcases List.nodup_cons.mp once with ⟨apart, once⟩
      rw [List.flatMap_cons, List.flatMap_cons]
      congr 1
      refine ih once fun other member absent => bare other (List.mem_cons_of_mem _ member) ?_
      rw [List.mem_cons, not_or]
      exact ⟨fun same => apart (same ▸ member), absent⟩

namespace Forest

/-- A comment, which has no children. -/
structure IsComment (forest : Forest) (id : NodeId) : Prop where
  kind : forest.kind id = .comment
  children : forest.children id = []

namespace IsComment

variable {forest : Forest} {id : NodeId} (comment : forest.IsComment id)
include comment

theorem filter_eq : [id].filter forest.isElement = [] := by
  rw [List.filter_singleton, isElement, comment.kind]
  rfl

/-- There is no element at a comment or below it. -/
theorem filter_subtree : (forest.subtree id).filter forest.isElement = [] := by
  rw [subtree_eq, descendants, comment.children]
  exact comment.filter_eq

end IsComment

/-- A document and the same document with comments put between the children of its nodes, anywhere.
Nodes are stored in different places, so each has its image; what a node is, its attributes and the
children it had are kept, and whatever else its image holds is a comment. -/
structure Commented (before : Forest) (first : DocumentId) (after : Forest) (second : DocumentId)
    (image : NodeId → NodeId) : Prop where
  root : after.documentRoot? second = (before.documentRoot? first).map image
  kind : ∀ id ∈ before.nodesOf first, after.kind (image id) = before.kind id
  name : ∀ id ∈ before.nodesOf first, after.name? (image id) = before.name? id
  value : ∀ id ∈ before.nodesOf first, after.value? (image id) = before.value? id
  attributes : ∀ id ∈ before.nodesOf first, after.attributes (image id) = (before.attributes id).map image
  children : ∀ id ∈ before.nodesOf first,
    ((before.children id).map image).Sublist (after.children (image id))
  inserted : ∀ id ∈ before.nodesOf first, ∀ child ∈ after.children (image id),
    child ∉ (before.children id).map image → after.IsComment child

instance (forest : Forest) (id : NodeId) : Decidable (forest.IsComment id) :=
  decidable_of_iff (forest.kind id = .comment ∧ forest.children id = [])
    ⟨fun both => ⟨both.1, both.2⟩, fun comment => ⟨comment.kind, comment.children⟩⟩

instance (before : Forest) (first : DocumentId) (after : Forest) (second : DocumentId)
    (image : NodeId → NodeId) : Decidable (before.Commented first after second image) :=
  decidable_of_iff (after.documentRoot? second = (before.documentRoot? first).map image ∧
    ∀ id ∈ before.nodesOf first, after.kind (image id) = before.kind id ∧
      after.name? (image id) = before.name? id ∧ after.value? (image id) = before.value? id ∧
      after.attributes (image id) = (before.attributes id).map image ∧
      ((before.children id).map image).Sublist (after.children (image id)) ∧
      ∀ child ∈ after.children (image id), child ∉ (before.children id).map image → after.IsComment child)
    ⟨fun ⟨root, each⟩ => ⟨root, fun id inside => (each id inside).1, fun id inside => (each id inside).2.1,
      fun id inside => (each id inside).2.2.1, fun id inside => (each id inside).2.2.2.1,
      fun id inside => (each id inside).2.2.2.2.1, fun id inside => (each id inside).2.2.2.2.2⟩,
    fun commented => ⟨commented.root, fun id inside => ⟨commented.kind id inside,
      commented.name id inside, commented.value id inside, commented.attributes id inside,
      commented.children id inside, commented.inserted id inside⟩⟩⟩

/-- No comment is put into an element without children. -/
def EmptyKept (before : Forest) (first : DocumentId) (after : Forest) (image : NodeId → NodeId) : Prop :=
  ∀ id ∈ before.nodesOf first, before.isElement id = true → before.children id = [] →
    after.children (image id) = []

theorem IsTree.held_mem {forest : Forest} {document : DocumentId} {root : NodeId}
    (tree : forest.IsTree document root) {id held : NodeId} (inside : id ∈ forest.nodesOf document)
    (member : held ∈ forest.attributes id ++ forest.children id) : held ∈ forest.nodesOf document := by
  rw [tree.nodesOf_eq] at inside ⊢
  exact held_mem_of_owns tree.owned inside member

theorem IsTree.parent_mem {forest : Forest} {document : DocumentId} {root : NodeId}
    (tree : forest.IsTree document root) {id parent : NodeId} (inside : id ∈ forest.nodesOf document)
    (found : forest.parent? id = some parent) : parent ∈ forest.nodesOf document := by
  rw [tree.nodesOf_eq] at inside ⊢
  exact tree.parent?_mem inside found

namespace Commented

variable {before after : Forest} {first second : DocumentId} {image : NodeId → NodeId}
variable (commented : before.Commented first after second image)
variable {top bottom : NodeId} (tree : before.IsTree first top) (grown : after.IsTree second bottom)
include commented

theorem isElement_eq {id : NodeId} (inside : id ∈ before.nodesOf first) :
    after.isElement (image id) = before.isElement id := by
  rw [isElement, isElement, commented.kind id inside]

/-- The elements of a list of one node. -/
theorem filter_image {id : NodeId} (inside : id ∈ before.nodesOf first) :
    [image id].filter after.isElement = ([id].filter before.isElement).map image := by
  rw [List.filter_singleton, List.filter_singleton, commented.isElement_eq inside]
  cases before.isElement id <;> rfl

section
include tree

/-- The images of what is below a node are below its image, in the same order. -/
theorem sublist {id : NodeId} (inside : id ∈ before.nodesOf first) :
    ((before.subtreeWithAttributes id).map image).Sublist (after.subtreeWithAttributes (image id)) := by
  induction id using before.childInduction with
  | step id ih =>
      rw [before.subtreeWithAttributes_eq, after.subtreeWithAttributes_eq, List.map_cons, List.map_append,
        commented.attributes id inside]
      refine List.Sublist.cons_cons _ (List.Sublist.append (List.Sublist.refl _) ?_)
      rw [List.map_flatMap]
      refine List.Sublist.trans ?_ ((commented.children id inside).flatMap _)
      rw [List.flatMap_map]
      exact List.Sublist.flatMap_right _ fun child member =>
        ih child member (tree.held_mem inside (List.mem_append_right _ member))

end

include tree grown

theorem image_root : image top = bottom := by
  have same := commented.root
  rw [tree.documentRoot, grown.documentRoot, Option.map_some, Option.some.injEq] at same
  exact same.symm

/-- The images of the nodes are nodes of the document with comments, in the same order. -/
theorem sublist_nodesOf : ((before.nodesOf first).map image).Sublist (after.nodesOf second) := by
  have inside := root_mem_nodesOf tree.documentRoot
  have below := commented.sublist tree inside
  rw [commented.image_root tree grown] at below
  rwa [tree.nodesOf_eq, grown.nodesOf_eq]

theorem image_mem {id : NodeId} (inside : id ∈ before.nodesOf first) :
    image id ∈ after.nodesOf second :=
  (commented.sublist_nodesOf tree grown).subset (List.mem_map_of_mem inside)

/-- Images of nodes in document order are in document order. -/
theorem ascending_map {ids : List NodeId} (ascending : before.Ascending ids)
    (inside : ∀ id ∈ ids, id ∈ before.nodesOf first) : after.Ascending (ids.map image) := by
  have all := tree.ascending
  have allImages := grown.ascending
  rw [← tree.nodesOf_eq] at all
  rw [← grown.nodesOf_eq] at allImages
  -- In document order the nodes are listed as they are in the whole document.
  have part : ids = (before.nodesOf first).filter (· ∈ ids) := by
    apply ascending.eq_of_mem_iff (all.sublist List.filter_sublist)
    intro id
    rw [List.mem_filter, decide_eq_true_iff]
    exact ⟨fun member => ⟨inside id member, member⟩, And.right⟩
  rw [part]
  exact allImages.sublist ((List.filter_sublist.map image).trans (commented.sublist_nodesOf tree grown))

theorem parent?_eq {id : NodeId} (inside : id ∈ before.nodesOf first) :
    after.parent? (image id) = (before.parent? id).map image := by
  have placed := inside
  rw [tree.nodesOf_eq] at placed
  rcases tree.parent?_cases placed with ⟨same, none⟩ | ⟨parent, above, found, held⟩
  · rw [none, Option.map_none, same, commented.image_root tree grown, grown.parent?_root]
  · rw [← tree.nodesOf_eq] at above
    have imageAbove := commented.image_mem tree grown above
    rw [grown.nodesOf_eq] at imageAbove
    rw [found, Option.map_some]
    apply grown.parent?_of_held imageAbove
    rcases List.mem_append.mp held with attached | below
    · rw [commented.attributes parent above]
      exact List.mem_append_left _ (List.mem_map_of_mem attached)
    · exact List.mem_append_right _
        ((commented.children parent above).subset (List.mem_map_of_mem below))

/-- What finds nothing at comments finds the same among the children of an image. -/
theorem flatMap_children {α : Type} {find : NodeId → List α}
    (bare : ∀ id, after.IsComment id → find id = []) {id : NodeId} (inside : id ∈ before.nodesOf first) :
    (after.children (image id)).flatMap find = (before.children id).flatMap (find ∘ image) := by
  have placed := commented.image_mem tree grown inside
  rw [grown.nodesOf_eq] at placed
  rw [flatMap_of_sublist (commented.children id inside) (grown.children_nodup placed)
    fun child member absent => bare child (commented.inserted id inside child member absent),
    List.flatMap_map]
  rfl

theorem filter_children {id : NodeId} (inside : id ∈ before.nodesOf first) :
    (after.children (image id)).filter after.isElement =
      ((before.children id).filter before.isElement).map image := by
  have single (forest : Forest) (ids : List NodeId) : ids.filter forest.isElement =
      ids.flatMap fun id => [id].filter forest.isElement := by
    rw [← List.filter_flatMap, List.flatMap_singleton']
  rw [single, single, commented.flatMap_children tree grown (fun _ comment => comment.filter_eq) inside,
    List.map_flatMap]
  exact List.flatMap_congr fun child member =>
    commented.filter_image (tree.held_mem inside (List.mem_append_right _ member))

/-- The elements in the subtree of an image are the images of the elements in the subtree. -/
theorem filter_subtree {id : NodeId} (inside : id ∈ before.nodesOf first) :
    (after.subtree (image id)).filter after.isElement =
      ((before.subtree id).filter before.isElement).map image := by
  induction id using before.childInduction with
  | step id ih =>
      have split (forest : Forest) (id : NodeId) : (forest.subtree id).filter forest.isElement =
          [id].filter forest.isElement ++
            (forest.children id).flatMap fun child => (forest.subtree child).filter forest.isElement := by
        rw [forest.subtree_eq, descendants, ← List.singleton_append, List.filter_append,
          List.filter_flatMap]
      rw [split, split, List.map_append, commented.filter_image inside,
        commented.flatMap_children tree grown (fun _ comment => comment.filter_subtree) inside,
        List.map_flatMap]
      congr 1
      exact List.flatMap_congr fun child member =>
        ih child member (tree.held_mem inside (List.mem_append_right _ member))

theorem filter_descendants {id : NodeId} (inside : id ∈ before.nodesOf first) :
    (after.descendants (image id)).filter after.isElement =
      ((before.descendants id).filter before.isElement).map image := by
  rw [descendants, descendants, List.filter_flatMap, List.filter_flatMap,
    commented.flatMap_children tree grown (fun _ comment => comment.filter_subtree) inside,
    List.map_flatMap]
  exact List.flatMap_congr fun child member =>
    commented.filter_subtree tree grown (tree.held_mem inside (List.mem_append_right _ member))

end Commented

end Forest

end NodeQuery
