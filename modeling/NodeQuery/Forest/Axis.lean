import NodeQuery.Forest.Basic

/-!
# Axes and node tests

An axis leads from a node to others.  The nodes along an axis are listed by nearness: axes that look
ahead list them in document order, axes that look back list the nearest first.  An attribute has no
siblings; what follows it starts with the content of the element that carries it.

What is below a node is listed by a walk that keeps a stack of its own, so that no tree is too deep
for it.
-/

namespace NodeQuery

/-- The directions in which a path can step. -/
inductive Axis where
  | child
  | descendant
  | attribute
  | self
  | descendantOrSelf
  | followingSibling
  | following
  | parent
  | ancestor
  | precedingSibling
  | preceding
  | ancestorOrSelf
deriving DecidableEq, Repr

namespace Axis

/-- The name of an axis in a path. -/
def name : Axis → String
  | .child => "child"
  | .descendant => "descendant"
  | .attribute => "attribute"
  | .self => "self"
  | .descendantOrSelf => "descendant-or-self"
  | .followingSibling => "following-sibling"
  | .following => "following"
  | .parent => "parent"
  | .ancestor => "ancestor"
  | .precedingSibling => "preceding-sibling"
  | .preceding => "preceding"
  | .ancestorOrSelf => "ancestor-or-self"

def all : List Axis :=
  [.child, .descendant, .attribute, .self, .descendantOrSelf, .followingSibling, .following,
    .parent, .ancestor, .precedingSibling, .preceding, .ancestorOrSelf]

def ofName? (name : String) : Option Axis := all.find? fun axis => axis.name == name

/-- The kind of nodes that names along an axis stand for. -/
def principalKind : Axis → NodeKind
  | .attribute => .attribute
  | _ => .element

end Axis

/-- Whether one place in document order is before another; nodes that were never given a place come
after all others. -/
def orderBefore : Option Nat → Option Nat → Bool
  | some first, some second => decide (first < second)
  | some _, none => true
  | none, _ => false

namespace Forest

/-- When a node is taken off a stack and its children are put on, less is left to list. -/
theorem length_unstack_lt (forest : Forest) {stack : Array NodeId} {id : NodeId}
    (top : stack.back? = some id) :
    ((stack.pop ++ (forest.children id).reverse).toList.flatMap forest.subtree).length <
      (stack.toList.flatMap forest.subtree).length := by
  obtain ⟨rest, rfl⟩ := Array.back?_eq_some_iff.mp top
  simp [subtree_eq forest id, descendants, List.length_flatMap]

/-- List what is on a stack and below it, after what is listed already.  The node on top is listed, and
its children take its place, the last one first, so that the first one comes to lie on top. -/
def unstack (forest : Forest) (listed stack : Array NodeId) : Array NodeId :=
  match _found : stack.back? with
  | none => listed
  | some id => forest.unstack (listed.push id) (stack.pop ++ (forest.children id).reverse)
termination_by (stack.toList.flatMap forest.subtree).length
decreasing_by exact forest.length_unstack_lt ‹_›

/-- A walk over everything below a node through children, with the node in front or without it. -/
def walkDown (forest : Forest) (withSelf : Bool) (id : NodeId) : List NodeId :=
  (forest.unstack (if withSelf then #[id] else #[]) (forest.children id).reverse.toArray).toList

def followingSiblings (forest : Forest) (id : NodeId) : List NodeId :=
  if forest.kind id == .attribute then []
  else
    match forest.parent? id with
    | none => []
    | some parent => ((forest.children parent).dropWhile (· != id)).tail

/-- The earlier children of a node's parent, the nearest first. -/
def precedingSiblings (forest : Forest) (id : NodeId) : List NodeId :=
  if forest.kind id == .attribute then []
  else
    match forest.parent? id with
    | none => []
    | some parent =>
      let siblings := forest.children parent
      if siblings.contains id then (siblings.takeWhile (· != id)).reverse else []

/-- The subtrees that start after the end of a node's own subtree. -/
def afterSubtree (forest : Forest) (id : NodeId) : List NodeId :=
  (id :: forest.ancestors id).flatMap fun anchor =>
    (forest.followingSiblings anchor).flatMap (forest.walkDown true)

/-- The nodes after a node, neither above nor below it. -/
def following (forest : Forest) (id : NodeId) : List NodeId :=
  if forest.kind id == .attribute then
    match forest.parent? id with
    | none => []
    | some owner => forest.walkDown false owner ++ forest.afterSubtree owner
  else forest.afterSubtree id

/-- The nodes before a node that are not above it, the nearest first. -/
def preceding (forest : Forest) (id : NodeId) : List NodeId :=
  let above := forest.ancestors id
  ((forest.walkDown false (forest.root id)).filter fun other =>
    orderBefore (forest.order? other) (forest.order? id) && !above.contains other).reverse

/-- The nodes along an axis, by nearness. -/
def along (forest : Forest) (axis : Axis) (id : NodeId) : List NodeId :=
  match axis with
  | .self => [id]
  | .child => forest.children id
  | .attribute => forest.attributes id
  | .parent => (forest.parent? id).toList
  | .ancestor => forest.ancestors id
  | .ancestorOrSelf => id :: forest.ancestors id
  | .descendant => forest.walkDown false id
  | .descendantOrSelf => forest.walkDown true id
  | .followingSibling => forest.followingSiblings id
  | .precedingSibling => forest.precedingSiblings id
  | .following => forest.following id
  | .preceding => forest.preceding id

end Forest

/-- What a step asks of the nodes along its axis. -/
inductive NodeTest where
  | named (name : String)
  | anyName
  | anyNameWithPrefix (first : String)
  | node
  | text
  | comment
deriving DecidableEq, Repr

def namePrefix? (name : String) : Option String :=
  let characters := name.toList
  if characters.contains ':' then some (String.ofList (characters.takeWhile (· != ':')))
  else none

/-- Whether a node passes a test along an axis; names are those of the axis's own kind of nodes. -/
def NodeTest.accepts (test : NodeTest) (forest : Forest) (axis : Axis) (id : NodeId) : Bool :=
  match test with
  | .node => true
  | .text => forest.kind id == .text
  | .comment => forest.kind id == .comment
  | .anyName => forest.kind id == axis.principalKind
  | .anyNameWithPrefix first =>
    forest.kind id == axis.principalKind &&
      (forest.name? id).bind namePrefix? == some first
  | .named name => forest.kind id == axis.principalKind && forest.name? id == some name

end NodeQuery
