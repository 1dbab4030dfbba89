import NodeQuery.Forest.Axis
import NodeQuery.Forest.Draft

/-!
# Documents on fresh nodes

A draft without references describes new nodes only, and each of them is attached once.  A document
opened on such a draft is a tree of its own: nothing else in the forest holds its nodes, and it holds
no others.  It stays one as long as its nodes are left as they are, whatever else is planted, opened
or closed around it.
-/

namespace NodeQuery

namespace Draft

def isAttribute : Draft → Bool
  | .attribute .. => true
  | .labelled _ draft => draft.isAttribute
  | _ => false

mutual

/-- Whether a draft describes new nodes only, with nothing but attributes in attribute lists. -/
def isFresh : Draft → Bool
  | .text _ | .comment _ | .attribute .. => true
  | .element _ attributes children | .document attributes children =>
    areFresh attributes && attributes.all isAttribute && areFresh children
  | .labelled _ draft => draft.isFresh
  | .reference _ => false

def areFresh : List Draft → Bool
  | [] => true
  | draft :: drafts => draft.isFresh && areFresh drafts

end

end Draft

namespace Forest

/-- The nodes of a document in document order. -/
def nodesOf (forest : Forest) (document : DocumentId) : List NodeId :=
  ((forest.documentRoot? document).map forest.subtreeWithAttributes).getD []

/-- Whether one node is before another in document order. -/
def Precedes (forest : Forest) (first second : NodeId) : Prop :=
  orderBefore (forest.order? first) (forest.order? second) = true

/-- A list in which no node comes twice and each is before all later ones in document order. -/
structure Ascending (forest : Forest) (ids : List NodeId) : Prop where
  distinct : ids.Nodup
  ordered : ids.Pairwise forest.Precedes

/-- The forest in which a document has just been opened on a draft of new nodes.  The forest before
may hold anything. -/
def JustOpened (forest : Forest) (document : DocumentId) : Prop :=
  ∃ (start planted : Planting) (draft : Draft) (id : NodeId), draft.isFresh = true ∧
    start.plant draft = some (planted, id) ∧ planted.forest.openDocument id = (forest, document)

/-- A forest with an open document on new nodes, which are still as they were when it was opened. -/
def HasFreshDocument (forest : Forest) (document : DocumentId) : Prop :=
  ∃ opened : Forest, opened.JustOpened document ∧
    forest.documentRoot? document = opened.documentRoot? document ∧
    forest.isOpen document = true ∧
    ∀ id ∈ opened.nodesOf document, forest.node id = opened.node id

end Forest

end NodeQuery
