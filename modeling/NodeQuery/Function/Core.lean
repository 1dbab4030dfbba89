import NodeQuery.Function.Registry
import NodeQuery.Text.Blank

/-!
# Core functions

The functions every registry starts with, unless it is asked to start empty.  Where an argument may
be left out, the node in focus takes its place.
-/

namespace NodeQuery

namespace Function

def unary (body : Forest → CallSite → Value → Except Error Value) : Function :=
  fun forest site arguments =>
    match arguments with
    | argument :: _ => body forest site argument
    | [] => .error (.type .emptyStack)

def ofTexts (body : List Char → List Char → Value) : Function :=
  fun forest _ arguments =>
    match arguments with
    | first :: second :: _ =>
      .ok (body (first.toText forest).toList (second.toText forest).toList)
    | _ => .error (.type .emptyStack)

def nodesOf (function : String) (argument : Value) : Except Error (List NodeId) :=
  match argument with
  | .nodeSet set => .ok set.nodes
  | other => .error (.type (.argument function other.kind))

/-- The string of the first argument, or else the string-value of the node in focus. -/
def textOrFocus (forest : Forest) (site : CallSite) (arguments : List Value) : String :=
  match arguments with
  | argument :: _ => argument.toText forest
  | [] => (site.focus.node.map forest.stringValue).getD ""

/-- The first node of the first argument, or else the node in focus. -/
def nodeOrFocus (function : String) (site : CallSite) (arguments : List Value) :
    Except Error (Option NodeId) :=
  match arguments with
  | argument :: _ => (nodesOf function argument).map List.head?
  | [] => .ok site.focus.node

/-- The number of the first argument, or else that of the node in focus. -/
def number : Function := fun forest site arguments =>
  match arguments with
  | argument :: _ => .ok (.number (argument.toNumber forest))
  | [] => .ok (.number
      ((Value.nodeSet (NodeSet.ofNodes forest site.focus.node.toList)).toNumber forest))

/-- The characters at places from the rounded start on, and before the place that the rounded length
ends at; places count from one. -/
def substring (text : List Char) (start : Float) (length : Option Float) : List Char :=
  let first := Numeral.round start
  let inside (place : Nat) : Bool :=
    decide (first ≤ Float.ofNat place) &&
      (match length with
      | none => true
      | some length => decide (Float.ofNat place < first + Numeral.round length))
  ((text.zipIdx 1).filter fun entry => inside entry.2).map (·.1)

/-- The part of a string that a start and an optional length give. -/
def substringOf : Function := fun forest _ arguments =>
  match arguments with
  | text :: start :: rest =>
    .ok (.string (String.ofList (substring (text.toText forest).toList (start.toNumber forest)
      (rest.head?.map (Value.toNumber forest)))))
  | _ => .error (.type .emptyStack)

/-- The words that an argument of `id` names elements by. -/
def idTokens (forest : Forest) (argument : Value) : List (List Char) :=
  match argument with
  | .nodeSet set => set.nodes.flatMap fun id => Text.words (forest.stringValue id).toList
  | other => Text.words (other.toText forest).toList

/-- Whether a node is an element whose attribute `id` is one of the words. -/
def hasIdAmong (forest : Forest) (tokens : List (List Char)) (id : NodeId) : Bool :=
  forest.isElement id &&
    (forest.attribute? id "id").any fun value => tokens.contains value.toList

/-- The elements named by the words of an argument, in the tree of the node in focus or else in the
document at hand. -/
def elementsById : Function := unary fun forest site argument =>
  let top := (site.focus.node.map forest.root).or (site.document.bind forest.documentRoot?)
  let tokens := idTokens forest argument
  match top with
  | none => .ok (.nodeSet {})
  | some top =>
    .ok (.nodeSet (NodeSet.ofNodes forest ((forest.subtree top).filter (hasIdAmong forest tokens))))

/-- The name that `part` reads off the node of a call, or no text. -/
def nodeName (function : String) (part : Forest → NodeId → Option String) : Function :=
  fun forest site arguments =>
    (nodeOrFocus function site arguments).map fun node =>
      .string ((node.bind (part forest)).getD "")

end Function

/-- The core functions with the argument counts they accept. -/
def coreRegistrations : List Registration :=
  [⟨"true", 0, some 0, fun _ _ _ => .ok (.boolean true)⟩,
    ⟨"false", 0, some 0, fun _ _ _ => .ok (.boolean false)⟩,
    ⟨"not", 1, some 1, Function.unary fun _ _ argument => .ok (.boolean !argument.toBoolean)⟩,
    ⟨"boolean", 1, some 1, Function.unary fun _ _ argument => .ok (.boolean argument.toBoolean)⟩,
    ⟨"number", 0, some 1, Function.number⟩,
    ⟨"string", 0, some 1, fun forest site arguments =>
      .ok (.string (Function.textOrFocus forest site arguments))⟩,
    ⟨"concat", 2, none, fun forest _ arguments =>
      .ok (.string (String.join (arguments.map (Value.toText forest))))⟩,
    ⟨"contains", 2, some 2, Function.ofTexts fun whole part =>
      .boolean (Text.occursIn part whole)⟩,
    ⟨"starts-with", 2, some 2, Function.ofTexts fun whole part =>
      .boolean (part.isPrefixOf whole)⟩,
    ⟨"string-length", 0, some 1, fun forest site arguments =>
      .ok (.number (Float.ofNat (Function.textOrFocus forest site arguments).length))⟩,
    ⟨"normalize-space", 0, some 1, fun forest site arguments =>
      .ok (.string (String.ofList
        (Text.normalize (Function.textOrFocus forest site arguments).toList)))⟩,
    ⟨"substring", 2, some 3, Function.substringOf⟩,
    ⟨"count", 1, some 1, Function.unary fun _ _ argument =>
      (Function.nodesOf "count" argument).map fun nodes => .number (Float.ofNat nodes.length)⟩,
    ⟨"position", 0, some 0, fun _ site _ => .ok (.number (Float.ofNat site.focus.position))⟩,
    ⟨"last", 0, some 0, fun _ site _ => .ok (.number (Float.ofNat site.focus.last))⟩,
    ⟨"name", 0, some 1, Function.nodeName "name" Forest.name?⟩,
    ⟨"local-name", 0, some 1, Function.nodeName "local-name" Forest.localName?⟩,
    ⟨"id", 1, some 1, Function.elementsById⟩]

def Registry.core : Registry := { registrations := coreRegistrations.reverse }

end NodeQuery
