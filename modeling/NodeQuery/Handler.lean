import NodeQuery.Error

/-!
# Handlers

A handler supplies the functions that an expression calls and no registry has.  It may keep a state,
which every call can change; calls are made one after the other, so the state is passed along.
Arguments are converted to host values and their node-sets decorated; what comes back is converted
to a value, and a node-set among it is put in document order and decorated anew.
-/

namespace NodeQuery

/-- Evaluation steps: they pass on the handler's state, even when they end with an error. -/
abbrev Evaluation (σ : Type) := ExceptT Error (StateM σ)

/-- Named functions over a state. -/
structure Handler (σ : Type) where
  respondsTo : String → σ → Bool
  call : String → List HostValue → σ → Except HandlerFailure HostValue × σ

namespace Handler

variable {σ : Type}

def argument (forest : Forest) (document : Option DocumentId) (value : Value) : HostValue :=
  .ofValue (value.decorate forest document)

def result (forest : Forest) (document : Option DocumentId) (function : String)
    (returned : HostValue) : Except Error Value :=
  match returned.toValue forest with
  | .error found => .error (.invalidReturn function found)
  | .ok value => .ok ((value.inDocumentOrder forest).decorate forest document)

/-- Call a function of a handler.  Without a handler, or with one that does not have the function,
the function is undefined. -/
def invoke (forest : Forest) (handler : Option (Handler σ)) (function : String)
    (arguments : List Value) (document : Option DocumentId) : Evaluation σ Value :=
  fun state =>
    match handler with
    | none => (.error (.undefinedFunction function), state)
    | some handler =>
      if handler.respondsTo function state then
        let (outcome, state) :=
          handler.call function (arguments.map (argument forest document)) state
        match outcome with
        | .error failure => (.error (.handlerFailed function failure), state)
        | .ok returned => (result forest document function returned, state)
      else (.error (.undefinedFunction function), state)

/-- The handler that carries something along beside its state and leaves it as it is. -/
def beside (τ : Type) (handler : Handler σ) : Handler (σ × τ) where
  respondsTo := fun name state => handler.respondsTo name state.1
  call := fun name arguments state =>
    let (outcome, inner) := handler.call name arguments state.1
    (outcome, (inner, state.2))

/-- A call of a handler: the function and what it was given. -/
abbrev Call := String × List HostValue

/-- The handler that also writes down every call made to it, the latest first. -/
def recording (handler : Handler σ) : Handler (σ × List Call) where
  respondsTo := fun name state => handler.respondsTo name state.1
  call := fun name arguments state =>
    let (outcome, inner) := handler.call name arguments state.1
    (outcome, (inner, (name, arguments) :: state.2))

end Handler

/-- One function of a table.  With an arity it refuses any other number of arguments. -/
structure Member (σ : Type) where
  name : String
  arity : Option Nat := none
  body : List HostValue → σ → Except HandlerFailure HostValue × σ

/-- Functions by name; of two members with one name the later one counts. -/
structure FunctionTable (σ : Type) where
  members : List (Member σ) := []
deriving Inhabited

namespace FunctionTable

variable {σ : Type}

/-- Add a member in place of any other with its name. -/
def register (table : FunctionTable σ) (member : Member σ) : FunctionTable σ :=
  { members := member :: table.members.filter fun other => other.name != member.name }

def ofList (members : List (Member σ)) : FunctionTable σ :=
  members.foldl register {}

def member? (table : FunctionTable σ) (name : String) : Option (Member σ) :=
  table.members.find? fun member => member.name == name

def names (table : FunctionTable σ) : List String :=
  (table.members.map (·.name)).mergeSort fun first second => decide (first ≤ second)

/-- Call a member by name; the number of arguments is checked before the body runs. -/
def call (table : FunctionTable σ) (name : String) (arguments : List HostValue) (state : σ) :
    Except HandlerFailure HostValue × σ :=
  match table.member? name with
  | none => (.error (.text s!"no member named {name}"), state)
  | some member =>
    match member.arity with
    | none => member.body arguments state
    | some expected =>
      if expected == arguments.length then member.body arguments state
      else (.error (.argumentCount name expected arguments.length), state)

def toHandler (table : FunctionTable σ) : Handler σ where
  respondsTo := fun name _ => (table.member? name).isSome
  call := table.call

end FunctionTable

end NodeQuery
