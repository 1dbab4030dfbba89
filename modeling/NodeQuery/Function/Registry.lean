import NodeQuery.Error

/-!
# Function registries

A registry holds the functions that expressions can call without a handler.  A function is
registered under a name for a range of argument counts; among the registrations of a name the latest
that accepts the number of arguments is called.
-/

namespace NodeQuery

/-- What an expression is evaluated at: a node, if there is one, and its place among `last`
others. -/
structure Focus where
  node : Option NodeId := none
  position : Nat := 1
  last : Nat := 1
deriving DecidableEq, Repr

structure CallSite where
  focus : Focus
  document : Option DocumentId := none
deriving DecidableEq, Repr

/-- A function of a registry.  It keeps no state of its own: what it answers depends on the forest, the
place of the call and the arguments alone, so that a function which counts its calls is none. -/
abbrev Function := Forest → CallSite → List Value → Except Error Value

/-- A function with its name and the argument counts it accepts; without `most` there is no upper
limit. -/
structure Registration where
  name : String
  least : Nat
  most : Option Nat
  function : Function

namespace Registration

def accepts (registration : Registration) (count : Nat) : Bool :=
  decide (registration.least ≤ count) &&
    (match registration.most with
    | none => true
    | some most => decide (count ≤ most))

/-- How many counts a registration with an upper limit accepts. -/
def width (registration : Registration) : Nat :=
  match registration.most with
  | none => 0
  | some most => most + 1 - registration.least

def boundedCounts (registration : Registration) : List Nat :=
  List.range' registration.least registration.width

end Registration

/-- The reasons why no function is found.  If there is no room to list the counts that are available, the
search is broken off with `capacityOverflow` and reports nothing. -/
inductive Unresolved where
  | unknown (name : String)
  | wrongArity (name : String) (available : List Nat)
  | capacityOverflow
deriving DecidableEq, Repr

structure Registry where
  registrations : List Registration := []

/-- Put a number into a strictly ascending list unless it is there already. -/
def insertAscending (number : Nat) : List Nat → List Nat
  | [] => [number]
  | other :: rest =>
    if number < other then number :: other :: rest
    else if number = other then other :: rest
    else other :: insertAscending number rest

namespace Registry

def registerRange (registry : Registry) (name : String) (least : Nat) (most : Option Nat)
    (function : Function) : Registry :=
  { registrations := ⟨name, least, most, function⟩ :: registry.registrations }

/-- Register a function for one argument count. -/
def register (registry : Registry) (name : String) (arity : Nat) (function : Function) : Registry :=
  registry.registerRange name arity (some arity) function

/-- Register a function for every argument count from `least` on. -/
def registerVariadic (registry : Registry) (name : String) (least : Nat) (function : Function) :
    Registry :=
  registry.registerRange name least none function

def named (registry : Registry) (name : String) : List Registration :=
  registry.registrations.filter fun registration => registration.name == name

/-- The most counts that there is room for: a list takes at most the largest signed word of bytes, and
a count takes eight. -/
def countLimit : Nat := (Nat.pow 2 63 - 1) / 8

/-- The number of all counts that are gathered, from how many each registration gives. -/
def total (widths : List Nat) : Nat := widths.foldr (· + ·) 0

/-- The counts that registrations with an upper limit accept, each once, ascending.  They are gathered
first, as often as they are accepted, and there has to be room for all of these. -/
def listCounts? (candidates : List Registration) : Option (List Nat) :=
  if total (candidates.map Registration.width) ≤ countLimit then
    some ((candidates.flatMap Registration.boundedCounts).foldr insertAscending [])
  else none

def contains (registry : Registry) (name : String) : Bool := !(registry.named name).isEmpty

/-- The function for a call: the latest registration of the name that accepts the count. -/
def resolve (registry : Registry) (name : String) (count : Nat) : Except Unresolved Function :=
  match registry.named name with
  | [] => .error (.unknown name)
  | candidates =>
    match candidates.find? fun registration => registration.accepts count with
    | some registration => .ok registration.function
    | none =>
      match listCounts? candidates with
      | some available => .error (.wrongArity name available)
      | none => .error .capacityOverflow

def names (registry : Registry) : List String :=
  ((registry.registrations.map (·.name)).eraseDups).mergeSort
    fun first second => decide (first ≤ second)

end Registry

end NodeQuery
