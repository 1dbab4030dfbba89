import NodeQuery.Forest.Basic

/-!
# Growing a forest

Nodes are added from below: first what a node is to hold, then the node, which becomes the parent
of whatever it holds that has no parent yet.  Opening a tree makes it a document and numbers its
nodes in document order.  Nodes are never moved or taken away; closing a document and forgetting
what nothing holds only ends what the nodes report about it.
-/

namespace NodeQuery

/-- A node that has been attached to `parent`; the first parent stays. -/
def Node.attachedTo (parent : NodeId) (node : Node) : Node :=
  { node with parent := node.parent.or (some parent) }

/-- A node that has been numbered in a document; the first document and number stay. -/
def Node.numberedIn (document : DocumentId) (order : Nat) (node : Node) : Node :=
  { node with
    document := node.document.or (some document)
    order := node.order.or (some order) }

namespace Forest

def modify (forest : Forest) (id : NodeId) (change : Node → Node) : Forest :=
  { forest with nodes := forest.nodes.modify id.index change }

/-- Give a node its parent unless it has one already. -/
def adopt (forest : Forest) (parent : NodeId) (id : NodeId) : Forest :=
  forest.modify id (Node.attachedTo parent)

/-- Store a node after all others and make it the parent of what it holds. -/
def add (forest : Forest) (node : Node) : Forest × NodeId :=
  let id : NodeId := ⟨forest.nodes.size⟩
  let stored : Forest := { forest with nodes := forest.nodes.push node }
  ((node.attributes ++ node.children).foldl (fun grown held => grown.adopt id held) stored, id)

/-- Give a node its document and its place in document order unless it has them already. -/
def enroll (forest : Forest) (document : DocumentId) (id : NodeId) (order : Nat) : Forest :=
  forest.modify id (Node.numberedIn document order)

/-- A document node above `id`, unless `id` is one itself. -/
def underDocumentNode (forest : Forest) (id : NodeId) : Forest × NodeId :=
  if forest.kind id == .document then (forest, id)
  else forest.add { kind := .document, children := [id] }

/-- Make a tree a document: its nodes are numbered, each before its attributes and these before its
children. -/
def openDocument (forest : Forest) (id : NodeId) : Forest × DocumentId :=
  let (wrapped, root) := forest.underDocumentNode id
  let document : DocumentId := ⟨wrapped.documents.size⟩
  let registered : Forest := { wrapped with documents := wrapped.documents.push { root := root } }
  let visits := (registered.subtreeWithAttributes root).zipIdx
  (visits.foldl (fun numbered visit => numbered.enroll document visit.1 visit.2) registered, document)

/-- Register a decoration on a document; node-sets decorated before do not gain it. -/
def decorate (forest : Forest) (document : DocumentId) (decoration : Decoration) : Forest :=
  { forest with
    documents := forest.documents.modify document.index fun entry =>
      { entry with decorations := entry.decorations ++ [decoration] } }

def closeDocument (forest : Forest) (document : DocumentId) : Forest :=
  { forest with
    documents := forest.documents.modify document.index fun entry => { entry with isOpen := false } }

/-- The document nodes that open documents hold. -/
def heldByDocuments (forest : Forest) : List NodeId :=
  (forest.documents.toList.filter (·.isOpen)).map (·.root)

/-- Forget every node that neither an open document nor `held` holds, by itself or through a node
above it. -/
def retain (forest : Forest) (held : List NodeId) : Forest :=
  let kept := (forest.heldByDocuments ++ held).flatMap forest.subtreeWithAttributes
  { forest with
    nodes := forest.nodes.mapIdx fun index node =>
      { node with alive := node.alive && kept.contains ⟨index⟩ } }

end Forest

end NodeQuery
