import NodeQuery.Handler
import NodeQuery.Function.Registry
import NodeQuery.Text.Quoted

/-!
# Inspection

Texts that show what a node, a node-set, a document or a host value holds, on one line.  Structures
are written with the names of their fields, absent values as `None` and present ones in `Some`.
-/

namespace NodeQuery.Inspect

def commaSeparated (texts : List String) : String := ", ".intercalate texts

def listed (texts : List String) : String := "[" ++ commaSeparated texts ++ "]"

def record (name : String) (fields : List (String × String)) : String :=
  name ++ " \x7b " ++ commaSeparated (fields.map fun (field, text) => field ++ ": " ++ text) ++
    " \x7d"

def wrapped (name content : String) : String := name ++ "(" ++ content ++ ")"

def optional (text : Option String) : String :=
  match text with
  | none => "None"
  | some content => wrapped "Some" content

def nodeKind : NodeKind → String
  | .document => "Document"
  | .element => "Element"
  | .attribute => "Attribute"
  | .text => "Text"
  | .comment => "Comment"

def node (forest : Forest) (id : NodeId) : String :=
  record "Node"
    [("kind", nodeKind (forest.kind id)),
      ("name", optional ((forest.name? id).map Text.quoted)),
      ("value", optional ((forest.value? id).map Text.quoted))]

def decorations (registered : List Decoration) : String :=
  listed (registered.map fun decoration => Text.quoted decoration.name)

def nodeSet (forest : Forest) (set : NodeSet) : String :=
  record "NodeSet"
    [("nodes", listed (set.nodes.map (node forest))),
      ("decorations", optional (set.decorations.map decorations))]

/-- A document by the name of its first element and its decorations, if it is still open. -/
def document (forest : Forest) (id : DocumentId) : String :=
  let shown :=
    if forest.isOpen id then
      some (record "Document"
        [("root_element",
            optional (((forest.rootElement? id).bind forest.name?).map Text.quoted)),
          ("decorations", decorations (forest.decorations id))])
    else none
  optional shown

mutual

/-- A host value by its kind and content. -/
def hostValue (forest : Forest) : HostValue → String
  | .nil => "Nil"
  | .boolean truth => wrapped "Bool" (if truth then "true" else "false")
  | .integer amount => wrapped "Int" (toString amount.toInt)
  | .float amount => wrapped "Float" (Numeral.inspect amount)
  | .text content => wrapped "Text" (Text.quoted content)
  | .node id => wrapped "Node" (node forest id)
  | .nodeSet set => wrapped "NodeSet" (nodeSet forest set)
  | .list items => wrapped "List" (listed (hostValues forest items))

def hostValues (forest : Forest) : List HostValue → List String
  | [] => []
  | item :: items => hostValue forest item :: hostValues forest items

end

def registry (registry : Registry) : String :=
  record "FunctionRegistry" [("functions", listed (registry.names.map Text.quoted))]

def functionTable {σ : Type} (table : FunctionTable σ) : String :=
  record "FunctionTable" [("members", listed (table.names.map Text.quoted))]

def emptyContext : String :=
  "EvaluationContext \x7b context_node: None, handler: false, variables: \x7b\x7d, .. \x7d"

end NodeQuery.Inspect
