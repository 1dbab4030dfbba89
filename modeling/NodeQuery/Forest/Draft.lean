import NodeQuery.Forest.Growth

/-!
# Drafts

A draft describes a tree that is still to be planted in a forest.  Planting goes from below: the
attributes of a node first, then its children, then the node.  A node of the draft can be
labelled, and a reference to a label stands for the very node the label was given to, so one node
can be held in several places.
-/

namespace NodeQuery

/-- The description of a tree. -/
inductive Draft where
  | text (value : String)
  | comment (value : String)
  | attribute (name value : String)
  | element (name : String) (attributes children : List Draft)
  | document (attributes children : List Draft)
  | labelled (label : String) (draft : Draft)
  | reference (label : String)
deriving Inhabited

abbrev Labels := List (String × NodeId)

structure Planting where
  forest : Forest := {}
  labels : Labels := []

namespace Planting

def add (planting : Planting) (node : Node) : Planting × NodeId :=
  let (forest, id) := planting.forest.add node
  ({ planting with forest := forest }, id)

/-- Give a label to a node; a later node with the same label takes its place. -/
def label (planting : Planting) (name : String) (id : NodeId) : Planting :=
  { planting with labels := (name, id) :: planting.labels }

mutual

/-- Plant a draft; `none` if it refers to a label that no node has. -/
def plant (planting : Planting) : Draft → Option (Planting × NodeId)
  | .text value => some (planting.add { kind := .text, value := some value })
  | .comment value => some (planting.add { kind := .comment, value := some value })
  | .attribute name value =>
    some (planting.add { kind := .attribute, name := some name, value := some value })
  | .element name attributes children => do
    let (withAttributes, attributeIds) ← planting.plantAll attributes
    let (withChildren, childIds) ← withAttributes.plantAll children
    pure (withChildren.add
      { kind := .element, name := some name, attributes := attributeIds, children := childIds })
  | .document attributes children => do
    let (withAttributes, attributeIds) ← planting.plantAll attributes
    let (withChildren, childIds) ← withAttributes.plantAll children
    pure (withChildren.add { kind := .document, attributes := attributeIds, children := childIds })
  | .labelled name draft => do
    let (planted, id) ← planting.plant draft
    pure (planted.label name id, id)
  | .reference name => do
    let id ← planting.labels.lookup name
    pure (planting, id)

def plantAll (planting : Planting) : List Draft → Option (Planting × List NodeId)
  | [] => some (planting, [])
  | draft :: drafts => do
    let (planted, id) ← planting.plant draft
    let (allPlanted, ids) ← planted.plantAll drafts
    pure (allPlanted, id :: ids)

end

end Planting

end NodeQuery
