import NodeQuery.Evaluation
import NodeQuery.Proofs.Forest.Walks

/-!
# Texts below a node

Elements and documents are there for what they hold, all other nodes for their content: an attribute, a
text or a comment has content and holds nothing.  Whatever is planted, opened as a document or forgotten,
a forest keeps that shape.  In such a forest the string-value of an element is made of the texts below it,
in the order in which a walk down comes to them.  A document inside of a tree would be an exception: a
walk goes on below it, and no string-value looks into it.
-/

namespace NodeQuery

/-- A node that has content and holds nothing. -/
def Node.IsLeaf (node : Node) : Prop := (∃ content, node.value = some content) ∧ node.held = []

def Node.IsShaped (node : Node) : Prop :=
  node.kind = .element ∨ node.kind = .document ∨ node.IsLeaf

namespace Forest

def IsShaped (forest : Forest) : Prop :=
  ∀ id : NodeId, id.index < forest.nodes.size → (forest.node id).IsShaped

variable {forest : Forest}

/-- An added node is stored as it is given, but for its parent if it is said to hold itself. -/
theorem exists_node_add_new (forest : Forest) (node : Node) :
    ∃ parent, (forest.add node).1.node ⟨forest.nodes.size⟩ = { node with parent := parent } := by
  have stored : ({ forest with nodes := forest.nodes.push node } : Forest).node
      ⟨forest.nodes.size⟩ = node := by
    simp only [Forest.node, Array.getD_eq_getD_getElem?, Array.getElem?_push_size, Option.getD_some]
  simp only [Forest.add, node_foldl_adopt, stored]
  split
  · exact ⟨_, rfl⟩
  · exact ⟨_, rfl⟩

namespace IsShaped

theorem empty : IsShaped {} := fun _ stored => absurd stored (Nat.not_lt_zero _)

variable (shaped : forest.IsShaped)
include shaped

/-- Adding a node changes of the others no more than their parents. -/
theorem add {node : Node} (fits : node.IsShaped) : (forest.add node).1.IsShaped := by
  intro id stored
  rw [size_add] at stored
  rcases Nat.lt_succ_iff_lt_or_eq.mp stored with old | new
  · obtain ⟨parent, shown⟩ := forest.node_add_old node old
    rw [shown]
    exact shaped id old
  · obtain ⟨parent, shown⟩ := forest.exists_node_add_new node
    have same : id = ⟨forest.nodes.size⟩ := congrArg NodeId.mk new
    rw [same, shown]
    exact fits

/-- A document node may come on top; numbering changes neither kind nor content nor what is held. -/
theorem openDocument (top : NodeId) : (forest.openDocument top).1.IsShaped := by
  have wrapped : (forest.underDocumentNode top).1.IsShaped := by
    rw [underDocumentNode_eq]
    split
    · exact shaped
    · exact shaped.add (Or.inr (Or.inl rfl))
  have size : (forest.openDocument top).1.nodes.size = (forest.underDocumentNode top).1.nodes.size :=
    size_enrollAll (forest.registered top) _ _ 0
  intro id stored
  rw [size] at stored
  have agrees := agrees_openDocument forest top id
  rw [Agrees] at agrees
  rw [agrees]
  exact wrapped id stored

theorem retain (held : List NodeId) : (forest.retain held).IsShaped := by
  intro id stored
  rw [(sameLinks_retain held).size] at stored
  obtain ⟨alive, shown⟩ := forest.exists_node_retain held id
  rw [shown]
  exact shaped id stored

end IsShaped

end Forest

namespace Planting

mutual

/-- Drafts describe nothing but elements, documents and leaves. -/
theorem plant_isShaped (draft : Draft) {start planted : Planting} {id : NodeId}
    (shaped : start.forest.IsShaped) (plants : start.plant draft = some (planted, id)) :
    planted.forest.IsShaped := by
  cases draft with
  | text | comment | «attribute» =>
      cases plants
      exact shaped.add (Or.inr (Or.inr ⟨⟨_, rfl⟩, rfl⟩))
  | element name attributes children =>
      rw [plant] at plants
      rcases Option.bind_eq_some_iff.mp plants with ⟨⟨middle, held⟩, first, plants⟩
      rcases Option.bind_eq_some_iff.mp plants with ⟨⟨last, below⟩, second, plants⟩
      cases plants
      have before := plantAll_isShaped children (plantAll_isShaped attributes shaped first) second
      exact before.add (Or.inl rfl)
  | document attributes children =>
      rw [plant] at plants
      rcases Option.bind_eq_some_iff.mp plants with ⟨⟨middle, held⟩, first, plants⟩
      rcases Option.bind_eq_some_iff.mp plants with ⟨⟨last, below⟩, second, plants⟩
      cases plants
      have before := plantAll_isShaped children (plantAll_isShaped attributes shaped first) second
      exact before.add (Or.inr (Or.inl rfl))
  | labelled name draft =>
      rw [plant] at plants
      rcases Option.bind_eq_some_iff.mp plants with ⟨⟨inner, root⟩, done, plants⟩
      cases plants
      have before : inner.forest.IsShaped := plant_isShaped draft shaped done
      exact before
  | reference name =>
      rw [plant] at plants
      rcases Option.bind_eq_some_iff.mp plants with ⟨found, _, plants⟩
      cases plants
      exact shaped

theorem plantAll_isShaped (drafts : List Draft) {start planted : Planting} {ids : List NodeId}
    (shaped : start.forest.IsShaped) (plants : start.plantAll drafts = some (planted, ids)) :
    planted.forest.IsShaped := by
  cases drafts with
  | nil =>
      cases plants
      exact shaped
  | cons draft drafts =>
      rw [plantAll] at plants
      rcases Option.bind_eq_some_iff.mp plants with ⟨⟨middle, first⟩, one, plants⟩
      rcases Option.bind_eq_some_iff.mp plants with ⟨⟨last, others⟩, rest, plants⟩
      cases plants
      exact plantAll_isShaped drafts (plant_isShaped draft shaped one) rest

end

end Planting

namespace Forest

variable {forest : Forest}

def content (forest : Forest) (id : NodeId) : String := (forest.value? id).getD ""

def isText (forest : Forest) (id : NodeId) : Bool := forest.kind id == .text

theorem isText_iff {id : NodeId} : forest.isText id = true ↔ forest.kind id = .text := beq_iff_eq

/-- The contents of the texts in a list of nodes, joined in order. -/
def textsIn (forest : Forest) (ids : List NodeId) : String :=
  String.join ((ids.filter forest.isText).map forest.content)

theorem textsIn_cons_of_ne {id : NodeId} (other : forest.kind id ≠ .text) (ids : List NodeId) :
    forest.textsIn (id :: ids) = forest.textsIn ids := by
  rw [textsIn, List.filter_cons_of_neg (mt isText_iff.mp other), ← textsIn]

theorem textsIn_append (first second : List NodeId) :
    forest.textsIn (first ++ second) = forest.textsIn first ++ forest.textsIn second := by
  rw [textsIn, List.filter_append, List.map_append, String.join_append, ← textsIn, ← textsIn]

theorem textsIn_flatMap (list : NodeId → List NodeId) (ids : List NodeId) :
    forest.textsIn (ids.flatMap list) = String.join (ids.map fun id => forest.textsIn (list id)) := by
  induction ids with
  | nil => rfl
  | cons id rest ih => rw [List.flatMap_cons, textsIn_append, ih, List.map_cons, String.join_cons]

/-- If each child adds the texts in its subtree, the texts below a node are those of its descendants. -/
theorem textBelow_eq_textsIn {id : NodeId}
    (each : ∀ child ∈ forest.children id,
      forest.textAdded child = forest.textsIn (forest.subtree child)) :
    forest.textBelow id = forest.textsIn (forest.descendants id) := by
  rw [textBelow_eq, List.map_congr_left each, descendants, textsIn_flatMap]

/-- A leaf is all of its subtree, and adds its content if it is a text. -/
theorem textAdded_of_isLeaf {id : NodeId} (leaf : (forest.node id).IsLeaf)
    (kind : forest.kind id ≠ .element) :
    forest.textAdded id = forest.textsIn (forest.subtree id) := by
  have bare : forest.descendants id = [] := by
    rw [descendants, children, (List.append_eq_nil_iff.mp leaf.2).2, List.filter_nil, List.flatMap_nil]
  rw [subtree_eq, bare]
  by_cases text : forest.kind id = .text
  · rw [textAdded, text, textsIn, List.filter_cons_of_pos (isText_iff.mpr text), List.filter_nil,
      List.map_singleton, String.join_cons, String.join_nil, String.append_empty]
    rfl
  · rw [textsIn_cons_of_ne text, textAdded]
    split
    · contradiction
    · contradiction
    · rfl

section
variable {id : NodeId} (kind : forest.kind id = .element ∨ forest.kind id = .document)
include kind

theorem kind_ne_text : forest.kind id ≠ .text := by
  intro text
  rcases kind with element | document
  · cases text.symm.trans element
  · cases text.symm.trans document

/-- A place outside the forest would show a text. -/
theorem lt_size_of_kind : id.index < forest.nodes.size := by
  by_contra outside
  apply kind_ne_text kind
  rw [Forest.kind, forest.node_of_size_le (Nat.not_lt.mp outside)]

/-- The step to the texts below a node finds those in its subtree, in the order of the subtree. -/
theorem candidates_text : Evaluation.candidates forest .descendant .text id =
    (forest.subtree id).filter forest.isText := by
  have skipped : ¬ forest.isText id = true := mt isText_iff.mp (kind_ne_text kind)
  rw [Evaluation.candidates, along_descendant, subtree_eq, List.filter_cons_of_neg skipped]
  rfl

theorem stringValue_eq_textBelow : forest.stringValue id = forest.textBelow id := by
  rcases kind with element | document
  · rw [stringValue, element]
  · rw [stringValue, document]

end

namespace IsShaped

variable (shaped : forest.IsShaped)
include shaped

/-- Where there is no document, a node adds the texts in its subtree to those of the node above it. -/
theorem textAdded_eq {id : NodeId} (stored : id.index < forest.nodes.size)
    (plain : ∀ below ∈ forest.subtree id, forest.kind below ≠ .document) :
    forest.textAdded id = forest.textsIn (forest.subtree id) := by
  induction id using forest.childInduction with
  | step id ih =>
      by_cases element : forest.kind id = .element
      · have each : forest.textBelow id = forest.textsIn (forest.descendants id) := by
          apply textBelow_eq_textsIn
          intro child member
          apply ih child member (Nat.lt_trans (lt_of_mem_children member) stored)
          exact fun below under => plain below (mem_subtree.mpr (Or.inr ⟨child, member, under⟩))
        rw [subtree_eq, textsIn_cons_of_ne (kind_ne_text (Or.inl element)), ← each, textAdded, element]
      · rcases shaped id stored with same | document | leaf
        · exact absurd same element
        · exact absurd document (plain id (mem_subtree.mpr (Or.inl rfl)))
        · exact textAdded_of_isLeaf leaf element

/-- With no document below it, an element or a document is worth the texts in its subtree. -/
theorem stringValue_eq {id : NodeId} (kind : forest.kind id = .element ∨ forest.kind id = .document)
    (plain : ∀ below ∈ forest.descendants id, forest.kind below ≠ .document) :
    forest.stringValue id = forest.textsIn (forest.subtree id) := by
  rw [stringValue_eq_textBelow kind, subtree_eq, textsIn_cons_of_ne (kind_ne_text kind)]
  apply textBelow_eq_textsIn
  intro child member
  apply shaped.textAdded_eq (Nat.lt_trans (lt_of_mem_children member) (lt_size_of_kind kind))
  exact fun below under => plain below (List.mem_flatMap.mpr ⟨child, member, under⟩)

theorem value?_of_isText {id : NodeId} (stored : id.index < forest.nodes.size)
    (text : forest.isText id = true) : forest.value? id = some (forest.content id) := by
  have kind : forest.kind id = .text := isText_iff.mp text
  rcases shaped id stored with element | document | ⟨⟨content, held⟩, _⟩
  · cases kind.symm.trans element
  · cases kind.symm.trans document
  · rw [Forest.content, value?, held, Option.getD_some]

/-- The texts in the subtree of a stored node all have content. -/
theorem map_value?_texts {id : NodeId} (stored : id.index < forest.nodes.size) :
    ((forest.subtree id).filter forest.isText).map forest.value? =
      (((forest.subtree id).filter forest.isText).map forest.content).map some := by
  rw [List.map_map]
  apply List.map_congr_left
  intro below member
  rcases List.mem_filter.mp member with ⟨under, text⟩
  have older := index_le_of_mem_subtree ((forest.subtree_sublist id).subset under)
  exact shaped.value?_of_isText (Nat.lt_of_le_of_lt older stored) text

end IsShaped

end Forest

end NodeQuery
