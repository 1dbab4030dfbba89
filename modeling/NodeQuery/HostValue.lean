import NodeQuery.Value

/-!
# Host values

Handlers and decorations exchange host values with the program around the evaluation.  There are
more kinds of them than of values: nothing at all, integers, single nodes and lists have no place in
an expression, with one exception, a list of nodes, which stands for the node-set it lists.
-/

namespace NodeQuery

/-- The kinds of host values. -/
inductive HostKind where
  | nil
  | boolean
  | integer
  | float
  | text
  | node
  | nodeSet
  | list
deriving DecidableEq, Repr

/-- The name of a kind of host values. -/
def HostKind.name : HostKind → String
  | .nil => "nil"
  | .boolean => "bool"
  | .integer => "integer"
  | .float => "float"
  | .text => "text"
  | .node => "node"
  | .nodeSet => "node-set"
  | .list => "list"

/-- What a handler is given and gives back. -/
inductive HostValue where
  | nil
  | boolean (truth : Bool)
  | integer (amount : Int64)
  | float (amount : Float)
  | text (content : String)
  | node (id : NodeId)
  | nodeSet (set : NodeSet)
  | list (items : List HostValue)
deriving Inhabited

/-- The reason why a host value stands for no value: its own kind, or that of a list item. -/
inductive Unrepresentable where
  | kind (found : HostKind)
  | item (found : HostKind)
deriving DecidableEq, Repr

def Unrepresentable.description : Unrepresentable → String
  | .kind found => found.name
  | .item found => "list of " ++ found.name

namespace HostValue

/-- The kind of a host value. -/
def kind : HostValue → HostKind
  | .nil => .nil
  | .boolean _ => .boolean
  | .integer _ => .integer
  | .float _ => .float
  | .text _ => .text
  | .node _ => .node
  | .nodeSet _ => .nodeSet
  | .list _ => .list

def number? : HostValue → Option Float
  | .integer amount => some (Float.ofInt amount.toInt)
  | .float amount => some amount
  | _ => none

mutual

/-- The nodes of a node-set, of a single node, or of everything in a list. -/
def nodes : HostValue → List NodeId
  | .nodeSet set => set.nodes
  | .node id => [id]
  | .list items => nodesOfAll items
  | _ => []

def nodesOfAll : List HostValue → List NodeId
  | [] => []
  | item :: items => nodes item ++ nodesOfAll items

end

def ofNodes (ids : List NodeId) : HostValue := .list (ids.map .node)

/-- The nodes of a list that holds nothing but single nodes. -/
def listedNodes : List HostValue → Except Unrepresentable (List NodeId)
  | [] => .ok []
  | .node id :: items => (listedNodes items).map (id :: ·)
  | item :: _ => .error (.item item.kind)

/-- The value a host value stands for.  A node-set keeps its decorations; one made from a list has
none. -/
def toValue (forest : Forest) : HostValue → Except Unrepresentable Value
  | .boolean truth => .ok (.boolean truth)
  | .integer amount => .ok (.number (Float.ofInt amount.toInt))
  | .float amount => .ok (.number amount)
  | .text content => .ok (.string content)
  | .nodeSet set => .ok (.nodeSet set)
  | .list items => (listedNodes items).map fun ids => .nodeSet (NodeSet.ofNodes forest ids)
  | other => .error (.kind other.kind)

def ofValue : Value → HostValue
  | .boolean truth => .boolean truth
  | .number amount => .float amount
  | .string content => .text content
  | .nodeSet set => .nodeSet set

end HostValue

end NodeQuery
