import Mathlib.Logic.Relation
import NodeQuery.Query
import NodeQuery.Workspace
import NodeQuery.Proofs.Handler.Requests

/-!
# Sessions

A session is a workspace with a memory: which decorations were registered, in order, and which
node-sets were ever handed out.  Its user makes and closes documents, registers decorations, and gets
node-sets by making, decorating and saving them, by evaluating and selecting, and as arguments and
answers of handlers.  Node-sets are values: whoever got one may keep it for good, so the memory of
them only grows.

What a user writes, the functions of a registry and the values of variables, can only be made of what
the user has: node-sets come undecorated from a list of nodes, and decorations come onto a node-set in
one way only.  What a handler returns is not restricted.  Steps are taken one after the other: while an
evaluation runs, its handler leaves the workspace as it is.
-/

namespace NodeQuery

variable {σ : Type}

def Value.set? : Value → Option NodeSet
  | .nodeSet set => some set
  | _ => none

def HostValue.set? : HostValue → Option NodeSet
  | .nodeSet set => some set
  | _ => none

/-- The node-sets that a step hands out: those among the arguments of its handler, which has to note
them, and the one that the step gives. -/
def Evaluation.setsHanded (step : Evaluation (σ × List (Handler.Request σ)) Value) (state : σ) :
    List NodeSet :=
  let (outcome, noted) := step (state, [])
  noted.2.flatMap (fun request => request.arguments.filterMap HostValue.set?) ++
    (outcome.toOption.bind Value.set?).toList

/-- A node-set that can be made of given ones: one of them, one without decorations, or one of these
decorated. -/
inductive NodeSet.MadeFrom (forest : Forest) (given : NodeSet → Prop) : NodeSet → Prop where
  | given {set : NodeSet} (member : given set) : MadeFrom forest given set
  | bare {set : NodeSet} (undecorated : set.decorations = none) : MadeFrom forest given set
  | decorated {set : NodeSet} (made : MadeFrom forest given set) (fallback : Option DocumentId) :
      MadeFrom forest given (set.decorate forest fallback)

/-- A value that is no node-set, or one that can be made of given ones. -/
def Value.MadeFrom (forest : Forest) (given : NodeSet → Prop) (value : Value) : Prop :=
  ∀ set, value = .nodeSet set → set.MadeFrom forest given

/-- The functions of a registry give node-sets that can be made of given ones and their arguments. -/
def Registry.MakesFrom (functions : Registry) (forest : Forest) (given : NodeSet → Prop) : Prop :=
  ∀ name count body, functions.resolve name count = .ok body →
    ∀ site arguments value, body forest site arguments = .ok value →
      value.MadeFrom forest fun set => given set ∨ .nodeSet set ∈ arguments

/-- A decoration as it was registered on a document. -/
structure Registered where
  document : DocumentId
  name : String
  operation : Operation

/-- A workspace, the decorations registered in it, in order, and the node-sets handed out. -/
structure Session where
  workspace : Workspace := {}
  registered : List Registered := []
  sets : List NodeSet := []

namespace Session

def forest (session : Session) : Forest := session.workspace.forest

/-- The decorations registered on a document, in order. -/
def registeredOn (session : Session) (document : DocumentId) : List Registered :=
  session.registered.filter fun entry => entry.document == document

def inWorkspace (session : Session) (workspace : Workspace) : Session :=
  { session with workspace := workspace }

/-- The session in which more node-sets have been handed out. -/
def handOut (session : Session) (sets : List NodeSet) : Session :=
  { session with sets := sets ++ session.sets }

/-- The session in which a decoration has been registered. -/
def register (session : Session) (entry : Registered) : Session :=
  { session with
    workspace := session.workspace.registerDecoration entry.document entry.name entry.operation
    registered := session.registered ++ [entry] }

/-- A value that is no node-set, or one that the user has or can make. -/
abbrev Makes (session : Session) (value : Value) : Prop :=
  value.MadeFrom session.forest (· ∈ session.sets)

/-- What the user of a session can do next. -/
inductive Next (session : Session) : Session → Prop where
  /-- A document is opened under a name, in place of any other of that name. -/
  | opened (name : String) (draft : Draft) {workspace : Workspace} {document : DocumentId}
      (opens : session.workspace.openDocument name draft = some (workspace, document)) :
      Next session (session.inWorkspace workspace)
  /-- A tree is planted that is no document. -/
  | planted (name : String) (draft : Draft) {workspace : Workspace} {id : NodeId}
      (plants : session.workspace.addTree name draft = some (workspace, id)) :
      Next session (session.inWorkspace workspace)
  /-- A document is dropped. -/
  | dropped (name : String) : Next session (session.inWorkspace (session.workspace.drop name))
  /-- Nodes that nothing holds are forgotten. -/
  | settled (others : List NodeId) :
      Next session (session.inWorkspace (session.workspace.settle others))
  /-- A decoration is registered on a document, which has to be there. -/
  | registered (entry : Registered) (isOpen : session.forest.isOpen entry.document = true) :
      Next session (session.register entry)
  /-- A node-set is made of a list of nodes. -/
  | made (ids : List NodeId) : Next session (session.handOut [NodeSet.ofNodes session.forest ids])
  /-- A compiled expression is evaluated. -/
  | evaluated {σ : Type} {text : String} {program : Program}
      (compiled : Program.compile text = .ok program) (context : Context σ) (state : σ)
      (bindings : ∀ name value, context.binding? name = some value → session.Makes value)
      (functions : context.functions.MakesFrom session.forest (· ∈ session.sets)) :
      Next session
        (session.handOut (Evaluation.setsHanded (program.run session.forest context.noting) state))
  /-- The elements that match a selector are selected. -/
  | selected {σ : Type} (selector : String) (node : NodeId) (handler : Option (Handler σ))
      (state : σ) :
      Next session (session.handOut (Evaluation.setsHanded (do
        let set ← Query.select session.forest selector node (handler.map Handler.noting)
        pure (.nodeSet set)) state))
  /-- A function of a handler is called by way of the bridge. -/
  | invoked {σ : Type} (handler : Option (Handler σ)) (function : String) (arguments : List Value)
      (document : Option DocumentId) (state : σ)
      (made : ∀ argument ∈ arguments, session.Makes argument) :
      Next session (session.handOut (Evaluation.setsHanded
        (Handler.invoke session.forest (handler.map Handler.noting) function arguments document)
        state))
  /-- A node-set is decorated. -/
  | decorated {set : NodeSet} (held : set ∈ session.sets) (fallback : Option DocumentId) :
      Next session (session.handOut [set.decorate session.forest fallback])
  /-- A node-set is saved under a name. -/
  | saved {set : NodeSet} (held : set ∈ session.sets) (name : String) :
      Next session (session.inWorkspace (session.workspace.saveSet name set))

abbrev Reaches : Session → Session → Prop := Relation.ReflTransGen Next

end Session

end NodeQuery
