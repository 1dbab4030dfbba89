import NodeQuery.Forest.Axis

/-!
# Node-sets

A node-set lists distinct nodes in some order, remembers the document of its first node, and may
carry decorations.  Decorations are a copy of what the document had registered when the set was
decorated: a set that has been decorated keeps what it has.
-/

namespace NodeQuery

/-- Distinct nodes in order, with the document they were taken from and its decorations. -/
structure NodeSet where
  nodes : List NodeId := []
  document : Option DocumentId := none
  decorations : Option (List Decoration) := none
deriving DecidableEq, Repr

/-- Keep the first occurrence of every node that is not in `seen`. -/
def distinctAfter (seen : List NodeId) : List NodeId → List NodeId
  | [] => []
  | id :: ids =>
    if seen.contains id then distinctAfter seen ids else id :: distinctAfter (id :: seen) ids

def distinct (ids : List NodeId) : List NodeId := distinctAfter [] ids

def insertByOrder (forest : Forest) (id : NodeId) : List NodeId → List NodeId
  | [] => [id]
  | other :: rest =>
    if orderBefore (forest.order? other) (forest.order? id) then
      other :: insertByOrder forest id rest
    else id :: other :: rest

/-- Sort nodes by document order; nodes at equal places keep their order. -/
def sortByOrder (forest : Forest) (ids : List NodeId) : List NodeId :=
  ids.foldr (insertByOrder forest) []

namespace NodeSet

/-- The set of the listed nodes in the order given; it is not decorated. -/
def ofNodes (forest : Forest) (ids : List NodeId) : NodeSet :=
  { nodes := distinct ids, document := (ids.head?).bind forest.document? }

/-- The set of the listed nodes in document order; it is not decorated.  Nodes of one document are
brought together with their repetitions by sorting; of nodes at equal places `ofNodes` drops the
repetitions that are still apart. -/
def inDocumentOrder (forest : Forest) (ids : List NodeId) : NodeSet :=
  ofNodes forest (sortByOrder forest ids).eraseReps

def isEmpty (set : NodeSet) : Bool := set.nodes.isEmpty

def size (set : NodeSet) : Nat := set.nodes.length

def first? (set : NodeSet) : Option NodeId := set.nodes.head?

def get? (set : NodeSet) (index : Nat) : Option NodeId := set.nodes[index]?

def sameNodes (first second : NodeSet) : Bool := first.nodes == second.nodes

/-- The document of the set, as long as it is open. -/
def document? (set : NodeSet) (forest : Forest) : Option DocumentId :=
  set.document.filter forest.isOpen

/-- Whether the set carries decorations, be it none at all from a document without any. -/
def isDecorated (set : NodeSet) : Bool := set.decorations.isSome

/-- The decoration that a name stands for: the last one registered under it. -/
def decoration? (set : NodeSet) (name : String) : Option Decoration :=
  set.decorations.bind fun decorations =>
    decorations.reverse.find? fun decoration => decoration.name == name

def respondsTo (set : NodeSet) (name : String) : Bool := (set.decoration? name).isSome

/-- Give the set the decorations of its document, which is that of its first node and else
`fallback`.  A set that has decorations keeps them, and one without a document gets none. -/
def decorate (set : NodeSet) (forest : Forest) (fallback : Option DocumentId) : NodeSet :=
  if set.isDecorated then set
  else
    match (set.first?.bind forest.document?).or fallback with
    | none => set
    | some document =>
      { set with document := some document, decorations := some (forest.decorations document) }

end NodeSet

end NodeQuery
