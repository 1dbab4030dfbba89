import NodeQuery.Proofs.Forest.Planting
import NodeQuery.Proofs.Forest.Tree

/-!
# Documents on fresh nodes are trees

Opening a document changes what its nodes say about document and order and nothing else.  On fresh
nodes, none of which was in a document before, the numbers are those of the places in the subtree of
the document node.
-/

namespace NodeQuery

namespace Forest

/-- A node is stored alike in two forests, but for its document and its order. -/
def Agrees (first second : Forest) (id : NodeId) : Prop :=
  second.node id = { first.node id with
    document := (second.node id).document
    order := (second.node id).order }

/-- Where two forests hold the same below a node, its subtree is the same. -/
theorem subtreeWithAttributes_congr {first second : Forest} {top : NodeId}
    (attributes : ∀ id ∈ first.subtreeWithAttributes top, second.attributes id = first.attributes id)
    (children : ∀ id ∈ first.subtreeWithAttributes top, second.children id = first.children id) :
    second.subtreeWithAttributes top = first.subtreeWithAttributes top := by
  induction top using first.childInduction with
  | step top ih =>
      have inside := first.mem_subtreeWithAttributes_self top
      rw [second.subtreeWithAttributes_eq, first.subtreeWithAttributes_eq, children top inside,
        attributes top inside]
      congr 2
      apply List.flatMap_congr
      intro child member
      exact ih child member
        (fun id below => attributes id (mem_subtreeWithAttributes_of_child member below))
        (fun id below => children id (mem_subtreeWithAttributes_of_child member below))

namespace Agrees

variable {first second : Forest} {id : NodeId}

theorem of_eq (same : second.node id = first.node id) : Agrees first second id := by
  rw [Agrees, same]

theorem trans {third : Forest} (before : Agrees first second id)
    (after : Agrees second third id) : Agrees first third id := by
  rw [Agrees] at before after
  rw [Agrees, after, before]

theorem children_eq (agree : Agrees first second id) : second.children id = first.children id := by
  rw [children, children, agree]

theorem attributes_eq (agree : Agrees first second id) :
    second.attributes id = first.attributes id := by
  rw [attributes, attributes, agree]

theorem kind_eq (agree : Agrees first second id) : second.kind id = first.kind id := by
  rw [kind, kind, agree]

theorem parent_eq (agree : Agrees first second id) :
    (second.node id).parent = (first.node id).parent := by
  rw [agree]

theorem alive_eq (agree : Agrees first second id) :
    (second.node id).alive = (first.node id).alive := by
  rw [agree]

/-- Where two forests agree on a subtree, it is the same subtree. -/
theorem subtreeWithAttributes_eq {top : NodeId}
    (agree : ∀ id ∈ first.subtreeWithAttributes top, Agrees first second id) :
    second.subtreeWithAttributes top = first.subtreeWithAttributes top :=
  subtreeWithAttributes_congr (fun id below => (agree id below).attributes_eq)
    fun id below => (agree id below).children_eq

/-- Owning is read off what is stored for a node and for what it holds. -/
theorem owns (agree : Agrees first second id)
    (agreeHeld : ∀ held ∈ first.attributes id ++ first.children id, Agrees first second held)
    (owns : first.Owns id) : second.Owns id := by
  constructor
  · rw [agree.attributes_eq, agree.children_eq]
    intro held member
    rw [(agreeHeld held member).parent_eq]
    exact owns.parent held member
  · rw [agree.attributes_eq, agree.children_eq]
    exact owns.once
  · rw [agree.attributes_eq]
    intro held member
    rw [(agreeHeld held (List.mem_append_left _ member)).kind_eq]
    exact owns.attribute_kind held member
  · rw [agree.attributes_eq, agree.children_eq, agree.kind_eq]
    exact owns.attribute_bare
  · rw [agree.alive_eq]
    exact owns.alive

end Agrees

/-!
## Numbering

A node keeps the first number it is given.  Nodes that have none get those of their places in the list.
-/

section
variable (forest : Forest) (document : DocumentId)

/-- Give the listed nodes their document and, from `start` on, their numbers. -/
def enrollAll (ids : List NodeId) (start : Nat) : Forest :=
  (ids.zipIdx start).foldl (fun numbered visit => numbered.enroll document visit.1 visit.2) forest

theorem enrollAll_cons (id : NodeId) (ids : List NodeId) (start : Nat) :
    forest.enrollAll document (id :: ids) start =
      (forest.enroll document id start).enrollAll document ids (start + 1) := rfl

theorem documents_enrollAll (ids : List NodeId) (start : Nat) :
    (forest.enrollAll document ids start).documents = forest.documents := by
  induction ids generalizing forest start with
  | nil => rfl
  | cons id ids ih => rw [enrollAll_cons, ih, enroll, modify]

theorem size_enrollAll (ids : List NodeId) (start : Nat) :
    (forest.enrollAll document ids start).nodes.size = forest.nodes.size := by
  induction ids generalizing forest start with
  | nil => rfl
  | cons id ids ih => rw [enrollAll_cons, ih, enroll, size_modify]

theorem agrees_enroll (id : NodeId) (order : Nat) (other : NodeId) :
    Agrees forest (forest.enroll document id order) other := by
  rw [Agrees, enroll, node_modify]
  split <;> rfl

theorem agrees_enrollAll (ids : List NodeId) (start : Nat) (other : NodeId) :
    Agrees forest (forest.enrollAll document ids start) other := by
  induction ids generalizing forest start with
  | nil => exact Agrees.of_eq rfl
  | cons id ids ih =>
      exact (agrees_enroll forest document id start other).trans (ih _ (start + 1))

theorem node_enrollAll_of_not_mem {ids : List NodeId} {other : NodeId} (apart : other ∉ ids)
    (start : Nat) : (forest.enrollAll document ids start).node other = forest.node other := by
  induction ids generalizing forest start with
  | nil => rfl
  | cons id ids ih =>
      rw [List.mem_cons, not_or] at apart
      rw [enrollAll_cons, ih _ apart.2, enroll, node_modify,
        if_neg (fun both => apart.1 both.1)]

/-- Nodes that were in no document before get the numbers from `start` on, in the order listed. -/
theorem enrollAll_numbers {ids : List NodeId} (once : ids.Nodup)
    (inside : ∀ id ∈ ids, id.index < forest.nodes.size)
    (unnumbered : ∀ id ∈ ids, (forest.node id).document = none ∧ (forest.node id).order = none)
    (start : Nat) :
    ids.map (forest.enrollAll document ids start).order? =
        (List.range' start ids.length).map some ∧
      ∀ id ∈ ids, ((forest.enrollAll document ids start).node id).document = some document := by
  induction ids generalizing forest start with
  | nil => simp
  | cons id ids ih =>
      obtain ⟨apart, once⟩ := List.nodup_cons.mp once
      have grown : (forest.enroll document id start).nodes.size = forest.nodes.size := by
        rw [enroll, size_modify]
      have atId : (forest.enroll document id start).node id =
          (forest.node id).numberedIn document start := by
        rw [enroll, node_modify, if_pos ⟨rfl, inside id List.mem_cons_self⟩]
      have elsewhere (other : NodeId) (member : other ∈ ids) :
          (forest.enroll document id start).node other = forest.node other := by
        rw [enroll, node_modify, if_neg]
        intro both
        exact apart (both.1 ▸ member)
      obtain ⟨numbers, documents⟩ := ih (forest.enroll document id start) once
        (fun other member => grown ▸ inside other (List.mem_cons_of_mem _ member))
        (fun other member => by
          rw [elsewhere other member]
          exact unnumbered other (List.mem_cons_of_mem _ member))
        (start + 1)
      have none := unnumbered id List.mem_cons_self
      have shown := node_enrollAll_of_not_mem (forest.enroll document id start) document apart
        (start + 1)
      rw [enrollAll_cons]
      constructor
      · rw [List.map_cons, numbers, List.length_cons, List.range'_succ, List.map_cons, order?,
          shown, atId, Node.numberedIn, none.2]
        rfl
      · intro other member
        rcases List.mem_cons.mp member with same | later
        · rw [same, shown, atId, Node.numberedIn, none.1]
          rfl
        · exact documents other later

end

/-- A forest with a new document on a tree, under a document node, whose nodes are not numbered yet. -/
def registered (forest : Forest) (top : NodeId) : Forest :=
  { (forest.underDocumentNode top).1 with
    documents := (forest.underDocumentNode top).1.documents.push
      { root := (forest.underDocumentNode top).2 } }

theorem openDocument_eq (forest : Forest) (top : NodeId) :
    forest.openDocument top =
      ((forest.registered top).enrollAll ⟨(forest.underDocumentNode top).1.documents.size⟩
        ((forest.registered top).subtreeWithAttributes (forest.underDocumentNode top).2) 0,
        ⟨(forest.underDocumentNode top).1.documents.size⟩) := rfl

/-- Opening a document changes nothing but documents and orders under its document node. -/
theorem agrees_openDocument (forest : Forest) (top id : NodeId) :
    Agrees (forest.underDocumentNode top).1 (forest.openDocument top).1 id :=
  agrees_enrollAll (forest.registered top) _ _ 0 id

theorem documents_openDocument (forest : Forest) (top : NodeId) :
    (forest.openDocument top).1.documents = (forest.registered top).documents := by
  rw [openDocument_eq]
  exact documents_enrollAll _ _ _ 0

/-- The new document has its document node as root. -/
theorem documentRoot_openDocument (forest : Forest) (top : NodeId) :
    (forest.openDocument top).1.documentRoot? (forest.openDocument top).2 =
      some (forest.underDocumentNode top).2 := by
  rw [documentRoot?, documents_openDocument]
  simp [registered, openDocument_eq]

theorem isOpen_openDocument (forest : Forest) (top : NodeId) :
    (forest.openDocument top).1.isOpen (forest.openDocument top).2 = true := by
  rw [isOpen, documents_openDocument]
  simp [registered, openDocument_eq]

/-!
## Trees

A tree is told by what is stored for its nodes, so it stays one wherever they are stored alike.
-/

/-- The tree of an open document: all its nodes are owned within it, and they are numbered in the
order of the subtree of the document node. -/
structure IsTree (forest : Forest) (document : DocumentId) (root : NodeId) : Prop where
  documentRoot : forest.documentRoot? document = some root
  owned : ∀ id ∈ forest.subtreeWithAttributes root, forest.Owns id
  free : (forest.node root).parent = none
  numbered : (forest.subtreeWithAttributes root).map forest.order? =
    (List.range (forest.subtreeWithAttributes root).length).map some
  document : ∀ id ∈ forest.subtreeWithAttributes root, forest.document? id = some document

/-- Nodes are attached once wherever they are stored alike. -/
theorem IsAttachedOnce.transfer {first second : Forest} {top : NodeId}
    (attached : first.IsAttachedOnce top)
    (same : ∀ id ∈ first.subtreeWithAttributes top, second.node id = first.node id) :
    second.subtreeWithAttributes top = first.subtreeWithAttributes top ∧
      second.IsAttachedOnce top := by
  have subtree : second.subtreeWithAttributes top = first.subtreeWithAttributes top :=
    Agrees.subtreeWithAttributes_eq fun id below => Agrees.of_eq (same id below)
  refine ⟨subtree, ?_, ?_⟩
  · rw [subtree]
    intro id below
    apply Agrees.owns (Agrees.of_eq (same id below)) _ (attached.owned id below)
    intro held member
    exact Agrees.of_eq (same held (held_mem_of_owns attached.owned below member))
  · rw [same top (mem_subtreeWithAttributes_self top)]
    exact attached.free

theorem IsTree.attached {forest : Forest} {document : DocumentId} {root : NodeId}
    (tree : forest.IsTree document root) : forest.IsAttachedOnce root := ⟨tree.owned, tree.free⟩

theorem IsTree.nodesOf_eq {forest : Forest} {document : DocumentId} {root : NodeId}
    (tree : forest.IsTree document root) :
    forest.nodesOf document = forest.subtreeWithAttributes root := by
  rw [nodesOf, tree.documentRoot]
  rfl

/-- The tree is the same wherever its nodes are stored alike and the document is the same and open. -/
theorem IsTree.transfer {first second : Forest} {document : DocumentId} {root : NodeId}
    (tree : first.IsTree document root)
    (sameRoot : second.documentRoot? document = first.documentRoot? document)
    (isOpen : second.isOpen document = true)
    (same : ∀ id ∈ first.subtreeWithAttributes root, second.node id = first.node id) :
    second.IsTree document root := by
  rcases tree.attached.transfer same with ⟨subtree, attached⟩
  constructor
  · rw [sameRoot, tree.documentRoot]
  · exact attached.owned
  · exact attached.free
  · rw [subtree, ← tree.numbered]
    apply List.map_congr_left
    intro id below
    rw [order?, order?, same id below]
  · rw [subtree]
    intro id below
    have stored := (Option.filter_eq_some_iff.mp (tree.document id below)).1
    rw [document?, same id below, stored, Option.filter_some, if_pos isOpen]

/-- Settled nodes own what they hold. -/
theorem Settled.owns {forest : Forest} {base : Nat} {id : NodeId}
    (settled : forest.Settled base id) : forest.Owns id := by
  have attributes : forest.attributes id = (forest.node id).attributes := by
    apply List.filter_eq_self.mpr
    intro held member
    exact decide_eq_true (settled.between held (List.mem_append_left _ member)).2
  have children : forest.children id = (forest.node id).children := by
    apply List.filter_eq_self.mpr
    intro held member
    exact decide_eq_true (settled.between held (List.mem_append_right _ member)).2
  constructor
  · rw [attributes, children]
    exact settled.own
  · rw [attributes, children]
    exact settled.once
  · rw [attributes]
    exact settled.attributes_kind
  · rw [attributes, children]
    exact settled.attribute_bare
  · exact settled.alive

/-- A tree that no document has been opened on: its nodes are attached once each, and none of them has a
document or a number. -/
structure IsUnsealed (forest : Forest) (top : NodeId) : Prop extends forest.IsAttachedOnce top where
  stored : top.index < forest.nodes.size
  unnumbered : ∀ id ∈ forest.subtreeWithAttributes top,
    (forest.node id).document = none ∧ (forest.node id).order = none

section
variable {forest : Forest} {base : Nat}

/-- What is below a node stored from `base` on is stored from there on, too. -/
theorem Grown.base_le_of_mem {tops : List NodeId} (grown : forest.Grown base tops) {top id : NodeId}
    (above : base ≤ top.index) (below : id ∈ forest.subtreeWithAttributes top) :
    base ≤ id.index := by
  induction top using forest.childInduction with
  | step top ih =>
      have settled := grown.settled top above
      rcases mem_subtreeWithAttributes.mp below with same | attached | ⟨child, member, inside⟩
      · rw [same]
        exact above
      · exact (settled.between id (List.mem_append_left _ (List.mem_filter.mp attached).1)).1
      · have childAbove :=
          (settled.between child (List.mem_append_right _ (List.mem_filter.mp member).1)).1
        exact ih child member childAbove inside

/-- A finished tree has not been opened as a document yet. -/
theorem Grown.isUnsealed {top : NodeId} (grown : forest.Grown base [top]) :
    forest.IsUnsealed top := by
  have stored := grown.tops_stored top List.mem_cons_self
  have settled (id : NodeId) (below : id ∈ forest.subtreeWithAttributes top) :
      forest.Settled base id := grown.settled id (grown.base_le_of_mem stored.1 below)
  constructor
  · constructor
    · exact fun id below => (settled id below).owns
    · exact grown.tops_free top List.mem_cons_self
  · exact stored.2
  · exact fun id below => (settled id below).unnumbered

/-- The document node over a tree. -/
def capNode (top : NodeId) : Node := { kind := .document, children := [top] }

/-- A forest with a document node over one of its trees. -/
def capped (forest : Forest) (top : NodeId) : Forest := (forest.add (capNode top)).1

/-- The place of the next node that is added to a forest. -/
def cap (forest : Forest) : NodeId := ⟨forest.nodes.size⟩

theorem underDocumentNode_eq (forest : Forest) (top : NodeId) :
    forest.underDocumentNode top =
      if forest.kind top == .document then (forest, top) else (forest.capped top, forest.cap) := rfl

theorem node_cap {top : NodeId} (stored : top.index < forest.nodes.size) :
    (forest.capped top).node forest.cap = capNode top := by
  apply forest.node_add_new (capNode top)
  intro held member
  rw [List.mem_singleton.mp member]
  exact stored

/-- The node over a tree that is being opened is a document node. -/
theorem kind_underDocumentNode {top : NodeId} (stored : top.index < forest.nodes.size) :
    (forest.underDocumentNode top).1.kind (forest.underDocumentNode top).2 = .document := by
  rw [underDocumentNode_eq]
  split
  · rename_i found
    exact eq_of_beq found
  · exact congrArg Node.kind (node_cap stored)

theorem attributes_cap {top : NodeId} (stored : top.index < forest.nodes.size) :
    (forest.capped top).attributes forest.cap = [] := by
  rw [attributes, node_cap stored]
  rfl

theorem children_cap {top : NodeId} (stored : top.index < forest.nodes.size) :
    (forest.capped top).children forest.cap = [top] := by
  rw [children, node_cap stored]
  exact List.filter_cons_of_pos (decide_eq_true stored)

section
variable {top id : NodeId} (old : id.index < forest.nodes.size)
include old

/-- Under a document node the nodes stay as they are, but for the parent of the uppermost one. -/
theorem exists_node_capped (top : NodeId) :
    ∃ parent, (forest.capped top).node id = { forest.node id with parent := parent } :=
  forest.node_add_old (capNode top) old

theorem attributes_capped : (forest.capped top).attributes id = forest.attributes id := by
  obtain ⟨parent, shown⟩ := exists_node_capped old top
  rw [attributes, attributes, shown]

theorem children_capped : (forest.capped top).children id = forest.children id := by
  obtain ⟨parent, shown⟩ := exists_node_capped old top
  rw [children, children, shown]

theorem kind_capped : (forest.capped top).kind id = forest.kind id := by
  obtain ⟨parent, shown⟩ := exists_node_capped old top
  rw [kind, kind, shown]

end

namespace IsUnsealed

variable {top : NodeId} (unsealed : forest.IsUnsealed top)
include unsealed

theorem lt_size {id : NodeId} (below : id ∈ forest.subtreeWithAttributes top) :
    id.index < forest.nodes.size :=
  Nat.lt_of_le_of_lt (index_le_of_mem_subtree below) unsealed.stored

theorem subtreeWithAttributes_cap :
    (forest.capped top).subtreeWithAttributes forest.cap =
      forest.cap :: forest.subtreeWithAttributes top := by
  have same : (forest.capped top).subtreeWithAttributes top = forest.subtreeWithAttributes top :=
    subtreeWithAttributes_congr (fun _ below => attributes_capped (unsealed.lt_size below))
      fun _ below => children_capped (unsealed.lt_size below)
  rw [subtreeWithAttributes_eq, attributes_cap unsealed.stored, children_cap unsealed.stored,
    List.flatMap_singleton, List.nil_append, same]

theorem owns_cap : (forest.capped top).Owns forest.cap := by
  have shown := node_cap unsealed.stored
  have bare := attributes_cap unsealed.stored
  have only := children_cap unsealed.stored
  constructor
  · rw [bare, only]
    intro held member
    rw [List.mem_singleton.mp member]
    exact parent_add_held unsealed.stored List.mem_cons_self unsealed.free
  · rw [bare, only]
    exact List.nodup_singleton top
  · rw [bare]
    exact fun _ member => absurd member List.not_mem_nil
  · rw [kind, shown]
    intro kind
    cases kind
  · rw [shown]
    rfl

theorem owns_capped {id : NodeId} (below : id ∈ forest.subtreeWithAttributes top) :
    (forest.capped top).Owns id := by
  have owns := unsealed.owned id below
  have old := unsealed.lt_size below
  have inside (held : NodeId) (member : held ∈ forest.attributes id ++ forest.children id) :
      held.index < forest.nodes.size :=
    unsealed.lt_size (held_mem_of_owns unsealed.owned below member)
  have bare : (forest.capped top).attributes id = forest.attributes id := attributes_capped old
  have only : (forest.capped top).children id = forest.children id := children_capped old
  constructor
  · rw [bare, only]
    intro held member
    have parent := owns.parent held member
    -- The top is held by nothing, so what is held here is not the top.
    have apart : held ∉ (capNode top).held := by
      intro again
      rw [List.mem_singleton.mp again, unsealed.free] at parent
      cases parent
    rw [capped, node_add_unheld (inside held member) apart]
    exact parent
  · rw [bare, only]
    exact owns.once
  · rw [bare]
    intro held member
    rw [kind_capped (inside held (List.mem_append_left _ member))]
    exact owns.attribute_kind held member
  · rw [bare, only, kind_capped old]
    exact owns.attribute_bare
  · obtain ⟨parent, shown⟩ := exists_node_capped old top
    rw [shown]
    exact owns.alive

/-- A tree is still one, and not opened yet, under a document node. -/
theorem underDocumentNode :
    (forest.underDocumentNode top).1.IsUnsealed (forest.underDocumentNode top).2 := by
  rw [underDocumentNode_eq]
  split
  · exact unsealed
  have shown := node_cap unsealed.stored
  constructor
  · constructor
    · rw [unsealed.subtreeWithAttributes_cap]
      exact List.forall_mem_cons.mpr ⟨unsealed.owns_cap, fun _ => unsealed.owns_capped⟩
    · rw [shown]
      rfl
  · exact Nat.lt_of_lt_of_eq (Nat.lt_succ_self _) (forest.size_add (capNode top)).symm
  · rw [unsealed.subtreeWithAttributes_cap]
    refine List.forall_mem_cons.mpr ⟨?_, fun id below => ?_⟩
    · rw [shown]
      exact ⟨rfl, rfl⟩
    · obtain ⟨parent, shown⟩ := exists_node_capped (unsealed.lt_size below) top
      rw [shown]
      exact unsealed.unnumbered id below

/-- Opening a tree makes it the tree of an open document, which begins with a document node. -/
theorem openDocument_isTree :
    ∃ root, (forest.openDocument top).1.IsTree (forest.openDocument top).2 root ∧
      (forest.openDocument top).1.isOpen (forest.openDocument top).2 = true ∧
      (forest.openDocument top).1.kind root = .document := by
  have under := unsealed.underDocumentNode
  have kind := kind_underDocumentNode unsealed.stored
  have documentRoot := documentRoot_openDocument forest top
  have isOpen := isOpen_openDocument forest top
  have agree := agrees_openDocument forest top
  have shown := openDocument_eq forest top
  generalize (forest.underDocumentNode top).2 = root at under kind documentRoot shown
  have registeredTree : (forest.registered top).subtreeWithAttributes root =
      (forest.underDocumentNode top).1.subtreeWithAttributes root :=
    Agrees.subtreeWithAttributes_eq fun id _ => Agrees.of_eq rfl
  have openedTree : (forest.openDocument top).1.subtreeWithAttributes root =
      (forest.underDocumentNode top).1.subtreeWithAttributes root :=
    Agrees.subtreeWithAttributes_eq fun id _ => agree id
  have numbers := enrollAll_numbers (forest.registered top) (forest.openDocument top).2
    (nodup_subtreeWithAttributes under.owned)
    (fun id below => Nat.lt_of_le_of_lt (index_le_of_mem_subtree below) under.stored)
    (fun id below => under.unnumbered id below) 0
  rw [registeredTree] at shown
  refine ⟨root, ?_, isOpen, (agree root).kind_eq.trans kind⟩
  constructor
  · exact documentRoot
  · rw [openedTree]
    intro id below
    exact Agrees.owns (agree id) (fun held _ => agree held) (under.owned id below)
  · rw [(agree root).parent_eq]
    exact under.free
  · rw [openedTree, List.range_eq_range', shown]
    exact numbers.1
  · rw [openedTree]
    intro id below
    have document : ((forest.openDocument top).1.node id).document =
        some (forest.openDocument top).2 := by
      rw [shown]
      exact numbers.2 id below
    rw [document?, document, Option.filter_some, if_pos isOpen]

end IsUnsealed

end

/-- What is planted for a fresh draft is a tree that has not been opened as a document. -/
theorem isUnsealed_of_plant {start planted : Planting} {draft : Draft} {top : NodeId}
    (fresh : draft.isFresh = true) (plantedAs : start.plant draft = some (planted, top)) :
    planted.forest.IsUnsealed top := by
  rcases Planting.plant_grows draft fresh start start.forest.nodes.size []
    (grown_nil start.forest) (Nat.le_refl _) with ⟨other, otherTop, grows⟩
  have equal := grows.done
  rw [plantedAs] at equal
  obtain ⟨rfl, rfl⟩ := Prod.mk.inj (Option.some.inj equal)
  exact grows.grown.isUnsealed

/-- A document that has just been opened on a fresh draft is a tree under a document node, and open. -/
theorem JustOpened.tree {forest : Forest} {document : DocumentId}
    (justOpened : forest.JustOpened document) :
    ∃ root, forest.IsTree document root ∧ forest.isOpen document = true ∧
      forest.kind root = .document := by
  rcases justOpened with ⟨start, planted, draft, id, fresh, plantedAs, openedAs⟩
  have opened := (isUnsealed_of_plant fresh plantedAs).openDocument_isTree
  rw [openedAs] at opened
  exact opened

/-- A document on fresh nodes is a tree. -/
theorem HasFreshDocument.isTree {forest : Forest} {document : DocumentId}
    (fresh : forest.HasFreshDocument document) : ∃ root, forest.IsTree document root := by
  rcases fresh with ⟨opened, justOpened, sameRoot, isOpen, same⟩
  rcases justOpened.tree with ⟨root, tree, _, _⟩
  refine ⟨root, tree.transfer sameRoot isOpen ?_⟩
  intro id below
  apply same
  rw [nodesOf, tree.documentRoot]
  exact below

/-- The root of a document on fresh nodes is a document node. -/
theorem HasFreshDocument.kind_root {forest : Forest} {document : DocumentId} {root : NodeId}
    (fresh : forest.HasFreshDocument document) (found : forest.documentRoot? document = some root) :
    forest.kind root = .document := by
  rcases fresh with ⟨opened, justOpened, sameRoot, _, same⟩
  rcases justOpened.tree with ⟨top, tree, _, kind⟩
  rw [sameRoot, tree.documentRoot, Option.some.injEq] at found
  have inside : top ∈ opened.nodesOf document := by
    rw [nodesOf, tree.documentRoot]
    exact mem_subtreeWithAttributes_self top
  rw [← found, Forest.kind, same top inside]
  exact kind

/-- A document that has just been opened on a fresh draft is one on fresh nodes. -/
theorem JustOpened.hasFreshDocument {forest : Forest} {document : DocumentId}
    (justOpened : forest.JustOpened document) : forest.HasFreshDocument document := by
  refine ⟨forest, justOpened, rfl, ?_, fun _ _ => rfl⟩
  rcases justOpened.tree with ⟨_, _, isOpen, _⟩
  exact isOpen

theorem root_mem_nodesOf {forest : Forest} {document : DocumentId} {root : NodeId}
    (found : forest.documentRoot? document = some root) : root ∈ forest.nodesOf document := by
  rw [nodesOf, found]
  exact mem_subtreeWithAttributes_self root

end Forest

end NodeQuery
