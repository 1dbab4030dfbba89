/-!
# Forests

A forest stores the nodes of any number of trees.  A node is identified by its place in the store,
so two nodes of equal content stay two nodes.  Everything below a node is stored before it: a link
downwards leads to a smaller place and a link upwards to a larger one.  The accessors keep to that
rule, which is why the walks over children and over parents end.

A parent and a document are remembered once and for all, when a node is first attached and when the
tree around it is first opened as a document, but they are reported only while something still holds
them: a parent that is gone is no parent, and a document that has been closed is no document.
-/

namespace NodeQuery

/-- The place of a node in its forest. -/
structure NodeId where
  index : Nat
deriving DecidableEq, Repr

structure DocumentId where
  index : Nat
deriving DecidableEq, Repr

/-- The place of an operation among those that decorations can run. -/
structure OperationId where
  index : Nat
deriving DecidableEq, Repr

/-- The five kinds of nodes. -/
inductive NodeKind where
  | document
  | element
  | attribute
  | text
  | comment
deriving DecidableEq, Repr

/-- What is stored for a node.  `alive` is false once nothing holds the node or one above it. -/
structure Node where
  kind : NodeKind
  name : Option String := none
  value : Option String := none
  attributes : List NodeId := []
  children : List NodeId := []
  parent : Option NodeId := none
  document : Option DocumentId := none
  order : Option Nat := none
  alive : Bool := true
deriving DecidableEq, Repr

structure Decoration where
  name : String
  operation : OperationId
deriving DecidableEq, Repr

/-- A tree with the decorations registered on it, in order of registration. -/
structure Document where
  root : NodeId
  decorations : List Decoration := []
  isOpen : Bool := true
deriving DecidableEq, Repr

/-- Nodes and documents, each at the place that identifies it. -/
structure Forest where
  nodes : Array Node := #[]
  documents : Array Document := #[]

namespace Forest

/-- The stored node; a place outside the forest shows an empty text. -/
def node (forest : Forest) (id : NodeId) : Node := forest.nodes.getD id.index { kind := .text }

def kind (forest : Forest) (id : NodeId) : NodeKind := (forest.node id).kind

/-- The tag of an element or the name of an attribute. -/
def name? (forest : Forest) (id : NodeId) : Option String := (forest.node id).name

/-- The content of an attribute, a text or a comment. -/
def value? (forest : Forest) (id : NodeId) : Option String := (forest.node id).value

/-- The place of a node in the document order of the document it was first opened in. -/
def order? (forest : Forest) (id : NodeId) : Option Nat := (forest.node id).order

/-- The part of a name behind its last colon. -/
def localPart (name : String) : String :=
  String.ofList (name.toList.reverse.takeWhile (· != ':')).reverse

def localName? (forest : Forest) (id : NodeId) : Option String := (forest.name? id).map localPart

def isElement (forest : Forest) (id : NodeId) : Bool := forest.kind id == .element

def children (forest : Forest) (id : NodeId) : List NodeId :=
  (forest.node id).children.filter fun held => decide (held.index < id.index)

def attributes (forest : Forest) (id : NodeId) : List NodeId :=
  (forest.node id).attributes.filter fun held => decide (held.index < id.index)

/-- A child is stored before its parent. -/
theorem lt_of_mem_children {forest : Forest} {id child : NodeId}
    (member : child ∈ forest.children id) : child.index < id.index := by
  simpa using (List.mem_filter.mp member).2

/-- An attribute is stored before the node that carries it. -/
theorem lt_of_mem_attributes {forest : Forest} {id held : NodeId}
    (member : held ∈ forest.attributes id) : held.index < id.index := by
  simpa using (List.mem_filter.mp member).2

def attribute? (forest : Forest) (id : NodeId) (name : String) : Option String :=
  ((forest.attributes id).find? fun held => forest.name? held == some name).bind
    forest.value?

/-- A node and, after it, everything below it through children: each child is followed by its own
subtree before the next child comes. -/
def subtree (forest : Forest) (id : NodeId) : List NodeId :=
  id :: (forest.children id).attach.flatMap fun child => forest.subtree child.val
termination_by id.index
decreasing_by exact lt_of_mem_children child.property

def descendants (forest : Forest) (id : NodeId) : List NodeId :=
  (forest.children id).flatMap forest.subtree

/-- The subtree of a node, by one step. -/
theorem subtree_eq (forest : Forest) (id : NodeId) :
    forest.subtree id = id :: forest.descendants id := by
  rw [subtree, descendants, List.flatMap_subtype (fun _ _ => rfl),
    List.unattach_attach]

/-- The subtree of a node, each node followed by its attributes. -/
def subtreeWithAttributes (forest : Forest) (id : NodeId) : List NodeId :=
  id :: (forest.attributes id ++
    (forest.children id).attach.flatMap fun child => forest.subtreeWithAttributes child.val)
termination_by id.index
decreasing_by exact lt_of_mem_children child.property

/-- The texts below a node, joined in order.  Only elements are looked into. -/
def textBelow (forest : Forest) (id : NodeId) : String :=
  String.join ((forest.children id).attach.map fun child =>
    match forest.kind child.val with
    | .text => (forest.value? child.val).getD ""
    | .element => forest.textBelow child.val
    | _ => "")
termination_by id.index
decreasing_by exact lt_of_mem_children child.property

/-- The string-value of a node: its texts for an element or a document, its own content for any
other node. -/
def stringValue (forest : Forest) (id : NodeId) : String :=
  match forest.kind id with
  | .element | .document => forest.textBelow id
  | _ => (forest.value? id).getD ""

def isAlive (forest : Forest) (id : NodeId) : Bool :=
  decide (id.index < forest.nodes.size) && (forest.node id).alive

/-- The node that a node was first attached to, as long as that one is alive. -/
def parent? (forest : Forest) (id : NodeId) : Option NodeId :=
  (forest.node id).parent.filter fun parent =>
    decide (id.index < parent.index) && forest.isAlive parent

/-- A parent is stored after its children, inside the forest. -/
theorem lt_of_parent? {forest : Forest} {id parent : NodeId}
    (found : forest.parent? id = some parent) :
    id.index < parent.index ∧ parent.index < forest.nodes.size := by
  have admitted := (Option.filter_eq_some_iff.mp found).2
  simp only [isAlive, Bool.and_eq_true, decide_eq_true_eq] at admitted
  exact ⟨admitted.1, admitted.2.1⟩

/-- The nodes above a node, the nearest first. -/
def ancestors (forest : Forest) (id : NodeId) : List NodeId :=
  match found : forest.parent? id with
  | none => []
  | some parent =>
    have := lt_of_parent? found
    parent :: forest.ancestors parent
termination_by forest.nodes.size - id.index

/-- The topmost node above a node, or the node itself when there is none above it. -/
def root (forest : Forest) (id : NodeId) : NodeId := ((forest.ancestors id).getLast?).getD id

/-- Whether a document is still held. -/
def isOpen (forest : Forest) (document : DocumentId) : Bool :=
  (forest.documents[document.index]?).any (·.isOpen)

/-- The document that a node was first opened in, as long as that one is open. -/
def document? (forest : Forest) (id : NodeId) : Option DocumentId :=
  (forest.node id).document.filter forest.isOpen

def documentRoot? (forest : Forest) (document : DocumentId) : Option NodeId :=
  (forest.documents[document.index]?).map (·.root)

def decorations (forest : Forest) (document : DocumentId) : List Decoration :=
  ((forest.documents[document.index]?).map (·.decorations)).getD []

def rootElement? (forest : Forest) (document : DocumentId) : Option NodeId :=
  (forest.documentRoot? document).bind fun root => (forest.children root).find? forest.isElement

def respondsTo (forest : Forest) (id : NodeId) (name : String) : Bool :=
  (forest.document? id).any fun document =>
    (forest.decorations document).any fun decoration => decoration.name == name

end Forest

end NodeQuery
