import NodeQuery.Error
import NodeQuery.Forest.Draft

/-!
# Workspaces

A workspace is a forest with names for what is kept of it: open documents, trees that are no
documents, node-sets, and labelled nodes.  What it names it holds.  When a name is given up, the
nodes that are held no longer are forgotten.
-/

namespace NodeQuery

/-- What a decoration does when it is called on a node-set, and the nodes it keeps for that. -/
structure Operation where
  run : Forest → NodeSet → List HostValue → Except HandlerFailure HostValue
  held : List NodeId := []

/-- A forest with names for parts of it, and the operations of its decorations. -/
structure Workspace where
  forest : Forest := {}
  labels : Labels := []
  documents : List (String × DocumentId) := []
  trees : List (String × NodeId) := []
  sets : List (String × NodeSet) := []
  operations : Array Operation := #[]

namespace Workspace

/-- Names with what they stand for, after giving one of them a meaning. -/
def assign {α : Type} (name : String) (meaning : α) (names : List (String × α)) :
    List (String × α) :=
  (name, meaning) :: names.filter fun entry => entry.1 != name

/-- Plant a draft in the forest; `none` if it refers to an unknown label. -/
def plant (workspace : Workspace) (draft : Draft) : Option (Workspace × NodeId) := do
  let (planting, id) ←
    ({ forest := workspace.forest, labels := workspace.labels } : Planting).plant draft
  pure ({ workspace with forest := planting.forest, labels := planting.labels }, id)

/-- Plant a tree and keep it by name without making it a document. -/
def addTree (workspace : Workspace) (name : String) (draft : Draft) :
    Option (Workspace × NodeId) := do
  let (planted, id) ← workspace.plant draft
  pure ({ planted with trees := assign name id planted.trees }, id)

/-- Let go of the document with a name, if there is one. -/
def closeNamed (workspace : Workspace) (name : String) : Workspace :=
  match workspace.documents.lookup name with
  | none => workspace
  | some document =>
    { workspace with
      forest := workspace.forest.closeDocument document
      documents := workspace.documents.filter fun entry => entry.1 != name }

/-- Plant a tree and open it as a document with a name, in place of any other with that name. -/
def openDocument (workspace : Workspace) (name : String) (draft : Draft) :
    Option (Workspace × DocumentId) := do
  let (planted, id) ← workspace.plant draft
  let (forest, document) := planted.forest.openDocument id
  let opened := ({ planted with forest := forest } : Workspace).closeNamed name
  pure ({ opened with documents := assign name document opened.documents }, document)

/-- Let go of a document.  Labels end with it. -/
def drop (workspace : Workspace) (name : String) : Workspace :=
  { workspace.closeNamed name with labels := [] }

def saveSet (workspace : Workspace) (name : String) (set : NodeSet) : Workspace :=
  { workspace with sets := assign name set workspace.sets }

/-- Register a decoration with its operation on a document. -/
def registerDecoration (workspace : Workspace) (document : DocumentId) (name : String)
    (operation : Operation) : Workspace :=
  let id : OperationId := ⟨workspace.operations.size⟩
  { workspace with
    forest := workspace.forest.decorate document { name := name, operation := id }
    operations := workspace.operations.push operation }

/-- Run the decoration of a node-set that has a name. -/
def callDecoration (workspace : Workspace) (set : NodeSet) (name : String)
    (arguments : List HostValue) : Except Error HostValue :=
  match (set.decoration? name).bind fun decoration =>
      workspace.operations[decoration.operation.index]? with
  | none => .error (.undefinedFunction name)
  | some operation =>
    (operation.run workspace.forest set arguments).mapError (.handlerFailed name)

def heldDecorations (workspace : Workspace) : List Decoration :=
  workspace.documents.flatMap (fun entry => workspace.forest.decorations entry.2) ++
    workspace.sets.flatMap fun entry => entry.2.decorations.getD []

def heldByOperation (workspace : Workspace) (id : OperationId) : List NodeId :=
  ((workspace.operations[id.index]?).map (·.held)).getD []

/-- The nodes that the names of a workspace hold, open documents apart. -/
def heldNodes (workspace : Workspace) : List NodeId :=
  workspace.trees.map (·.2) ++ workspace.sets.flatMap (fun entry => entry.2.nodes) ++
    workspace.labels.map (·.2) ++
    workspace.heldDecorations.flatMap fun decoration =>
      workspace.heldByOperation decoration.operation

/-- Forget the nodes that neither the workspace nor `others` holds. -/
def settle (workspace : Workspace) (others : List NodeId) : Workspace :=
  { workspace with forest := workspace.forest.retain (workspace.heldNodes ++ others) }

end Workspace

end NodeQuery
