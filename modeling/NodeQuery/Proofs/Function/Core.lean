import NodeQuery.Handler
import NodeQuery.Function.Core
import NodeQuery.Proofs.Function.Registry
import NodeQuery.Proofs.HostValue

/-!
# Values in document order

What functions make of sorted values is sorted again.  Of the core functions only `id` gives a
node-set, and it takes its nodes from the subtree of the document node in the order they are listed
there.  What a handler returns is sorted on the way in, whatever order it comes in.
-/

namespace NodeQuery

/-- A node-set of a document in strictly ascending document order; other values have no order. -/
def Value.SortedIn (forest : Forest) (document : DocumentId) : Value → Prop
  | .nodeSet set =>
    (∀ id ∈ set.nodes, id ∈ forest.nodesOf document) ∧ forest.Ascending set.nodes
  | _ => True

/-- Called in a state with `inv` and given sorted values, a handler returns no nodes but those of the
document, and leaves a state with `inv`. -/
structure Handler.StaysIn {σ : Type} (handler : Handler σ) (forest : Forest) (document : DocumentId)
    (inv : σ → Prop) : Prop where
  keeps : ∀ name (values : List Value) state, inv state →
    (∀ value ∈ values, value.SortedIn forest document) →
    inv (handler.call name (values.map .ofValue) state).2
  returns : ∀ name (values : List Value) state, inv state →
    (∀ value ∈ values, value.SortedIn forest document) →
    ∀ returned, (handler.call name (values.map .ofValue) state).1 = .ok returned →
      ∀ id ∈ returned.nodes, id ∈ forest.nodesOf document

variable {forest : Forest} {document : DocumentId}

theorem Value.SortedIn.decorate {value : Value} (sorted : value.SortedIn forest document)
    (fallback : Option DocumentId) : (value.decorate forest fallback).SortedIn forest document := by
  cases value with
  | nodeSet set =>
      rw [Value.decorate, SortedIn, NodeSet.nodes_decorate]
      exact sorted
  | boolean truth => trivial
  | number amount => trivial
  | string text => trivial

/-- At most one node of the document is a sorted value. -/
theorem Value.sortedIn_single {node : Option NodeId}
    (inside : ∀ id, node = some id → id ∈ forest.nodesOf document) :
    (nodeSet (NodeSet.ofNodes forest node.toList)).SortedIn forest document := by
  cases node with
  | none => exact ⟨fun _ member => absurd member List.not_mem_nil, List.nodup_nil, List.Pairwise.nil⟩
  | some id =>
      refine ⟨?_, List.nodup_singleton id, List.pairwise_singleton _ id⟩
      intro other member
      rw [List.mem_singleton.mp member]
      exact inside id rfl

section
variable {root : NodeId} (tree : forest.IsTree document root)
include tree

/-- Nodes of the document in document order are a sorted value. -/
theorem Forest.IsTree.sortedIn_inDocumentOrder {ids : List NodeId}
    (inside : ∀ id ∈ ids, id ∈ forest.nodesOf document) :
    (Value.nodeSet (NodeSet.inDocumentOrder forest ids)).SortedIn forest document := by
  refine ⟨fun id member => inside id (NodeSet.mem_inDocumentOrder.mp member), ?_⟩
  apply NodeSet.ascending_inDocumentOrder tree
  rw [← tree.nodesOf_eq]
  exact inside

end

namespace Function

def GivesScalars (function : Function) : Prop :=
  ∀ forest site arguments value, function forest site arguments = .ok value →
    ∀ set, value ≠ .nodeSet set

theorem givesScalars_unary {body : Forest → CallSite → Value → Except Error Value}
    (scalar : ∀ forest site argument value, body forest site argument = .ok value →
      ∀ set, value ≠ .nodeSet set) : GivesScalars (unary body) := by
  intro forest site arguments value given
  cases arguments with
  | nil => cases given
  | cons argument others => exact scalar forest site argument value given

theorem givesScalars_ofTexts {body : List Char → List Char → Value}
    (scalar : ∀ first second set, body first second ≠ .nodeSet set) :
    GivesScalars (ofTexts body) := by
  intro forest site arguments value given set equal
  match arguments with
  | [] => cases given
  | [_] => cases given
  | first :: second :: _ =>
      cases given
      exact scalar _ _ set equal

theorem givesScalars_number : GivesScalars number := by
  intro forest site arguments value given set equal
  cases arguments with
  | nil => cases given; cases equal
  | cons argument others => cases given; cases equal

theorem givesScalars_substringOf : GivesScalars substringOf := by
  intro forest site arguments value given set equal
  match arguments with
  | [] => cases given
  | [_] => cases given
  | text :: start :: rest => cases given; cases equal

theorem givesScalars_nodeName (function : String) (part : Forest → NodeId → Option String) :
    GivesScalars (nodeName function part) := by
  intro forest site arguments value given set equal
  rw [nodeName] at given
  cases found : nodeOrFocus function site arguments with
  | error error => rw [found] at given; cases given
  | ok node => rw [found] at given; cases given; cases equal

/-- A function that cannot fail and always builds a scalar gives scalars. -/
theorem givesScalars_of_ok {build : Forest → CallSite → List Value → Value}
    (scalar : ∀ forest site arguments set, build forest site arguments ≠ .nodeSet set) :
    GivesScalars fun forest site arguments => .ok (build forest site arguments) := by
  intro forest site arguments value given set equal
  cases given
  exact scalar forest site arguments set equal

theorem givesScalars_count : GivesScalars (unary fun _ _ argument =>
    (nodesOf "count" argument).map fun nodes => .number (Float.ofNat nodes.length)) := by
  apply givesScalars_unary
  intro forest site argument value given set equal
  cases argument with
  | nodeSet nodes => cases given; cases equal
  | boolean truth => cases given
  | number amount => cases given
  | string text => cases given

/-- Every core function but `id` gives scalars. -/
theorem scalar_or_elementsById (registration : Registration)
    (member : registration ∈ coreRegistrations) :
    registration.name = "id" ∧ registration.function = elementsById ∨
      registration.function.GivesScalars := by
  have truth (build : Value → Bool) :
      GivesScalars (unary fun _ _ argument => .ok (.boolean (build argument))) := by
    apply givesScalars_unary
    intro forest site argument value given set equal
    cases given
    cases equal
  have texts (build : List Char → List Char → Bool) :
      GivesScalars (ofTexts fun first second => .boolean (build first second)) := by
    apply givesScalars_ofTexts
    intro first second set equal
    cases equal
  simp only [coreRegistrations, List.mem_cons, List.not_mem_nil, or_false] at member
  rcases member with rfl | rfl | rfl | rfl | rfl | rfl | rfl | rfl | rfl | rfl | rfl | rfl | rfl |
    rfl | rfl | rfl | rfl | rfl
  · exact Or.inr (givesScalars_of_ok fun _ _ _ _ equal => by cases equal)
  · exact Or.inr (givesScalars_of_ok fun _ _ _ _ equal => by cases equal)
  · exact Or.inr (truth fun argument => !argument.toBoolean)
  · exact Or.inr (truth Value.toBoolean)
  · exact Or.inr givesScalars_number
  · exact Or.inr (givesScalars_of_ok fun _ _ _ _ equal => by cases equal)
  · exact Or.inr (givesScalars_of_ok fun _ _ _ _ equal => by cases equal)
  · exact Or.inr (texts fun whole part => Text.occursIn part whole)
  · exact Or.inr (texts fun whole part => part.isPrefixOf whole)
  · exact Or.inr (givesScalars_of_ok fun _ _ _ _ equal => by cases equal)
  · exact Or.inr (givesScalars_of_ok fun _ _ _ _ equal => by cases equal)
  · exact Or.inr givesScalars_substringOf
  · exact Or.inr givesScalars_count
  · exact Or.inr (givesScalars_of_ok fun _ _ _ _ equal => by cases equal)
  · exact Or.inr (givesScalars_of_ok fun _ _ _ _ equal => by cases equal)
  · exact Or.inr (givesScalars_nodeName "name" Forest.name?)
  · exact Or.inr (givesScalars_nodeName "local-name" Forest.localName?)
  · exact Or.inl ⟨rfl, rfl⟩

end Function

/-- At a node of the document, or at none, the elements found by `id` are sorted. -/
theorem Function.elementsById_sorted {root : NodeId} (tree : forest.IsTree document root)
    {site : CallSite} (focusInside : ∀ id, site.focus.node = some id → id ∈ forest.nodesOf document)
    (sameDocument : ∀ other, site.document = some other → other = document) {arguments : List Value}
    {value : Value} (given : elementsById forest site arguments = .ok value) :
    value.SortedIn forest document := by
  have top : (site.focus.node.map forest.root).or (site.document.bind forest.documentRoot?) = none ∨
      (site.focus.node.map forest.root).or (site.document.bind forest.documentRoot?) = some root := by
    cases focused : site.focus.node with
    | some id =>
        have inside := focusInside id focused
        rw [tree.nodesOf_eq] at inside
        rw [Option.map_some, Option.some_or, tree.root_eq_of_mem inside]
        exact Or.inr rfl
    | none =>
        rw [Option.map_none, Option.none_or]
        cases held : site.document with
        | none => exact Or.inl rfl
        | some other =>
            rw [sameDocument other held]
            exact Or.inr tree.documentRoot
  cases arguments with
  | nil => cases given
  | cons argument others =>
      rw [elementsById, unary] at given
      rcases top with none | found
      · simp only [none] at given
        cases given
        exact ⟨fun _ member => absurd member List.not_mem_nil, List.nodup_nil, List.Pairwise.nil⟩
      · simp only [found] at given
        cases given
        -- A filter of the subtree keeps its order.
        have part := (List.filter_sublist (p := hasIdAmong forest (idTokens forest argument))).trans
          (forest.subtree_sublist root)
        have ascending := tree.ascending.sublist part
        rw [Value.SortedIn, NodeSet.nodes_ofNodes ascending.distinct, tree.nodesOf_eq]
        exact ⟨fun id member => part.subset member, ascending⟩

/-- What the core functions make of sorted values at a node of the document is sorted. -/
theorem Registry.core_sorted {root : NodeId} (tree : forest.IsTree document root) {name : String}
    {count : Nat} {body : Function} (resolved : core.resolve name count = .ok body) {site : CallSite}
    (focusInside : ∀ id, site.focus.node = some id → id ∈ forest.nodesOf document)
    (sameDocument : ∀ other, site.document = some other → other = document) {arguments : List Value}
    {value : Value} (given : body forest site arguments = .ok value) :
    value.SortedIn forest document := by
  rcases resolve_mem resolved with ⟨registration, named, _, rfl⟩
  have member := List.mem_reverse.mp (List.mem_filter.mp named).1
  rcases Function.scalar_or_elementsById registration member with ⟨_, byId⟩ | scalar
  · rw [byId] at given
    exact Function.elementsById_sorted tree focusInside sameDocument given
  · have notSet := scalar forest site arguments value given
    cases value with
    | nodeSet set => exact absurd rfl (notSet set)
    | boolean truth => trivial
    | number amount => trivial
    | string text => trivial

/-- Given an argument, a function does not look at the place of the node in focus among others. -/
def Function.IgnoresPlace (function : Function) : Prop :=
  ∀ (forest : Forest) (site other : CallSite) (argument : Value) (arguments : List Value),
    site.focus.node = other.focus.node → site.document = other.document →
      function forest site (argument :: arguments) = function forest other (argument :: arguments)

/-- The two core functions that look at the place take no argument. -/
theorem Function.ignoresPlace_of_accepts (registration : Registration)
    (member : registration ∈ coreRegistrations) {count : Nat}
    (accepted : registration.accepts (count + 1) = true) : registration.function.IgnoresPlace := by
  rintro forest ⟨⟨node, position, last⟩, document⟩ ⟨⟨_, otherPosition, otherLast⟩, _⟩ argument arguments
    rfl rfl
  simp only [coreRegistrations, List.mem_cons, List.not_mem_nil, or_false] at member
  rcases member with rfl | rfl | rfl | rfl | rfl | rfl | rfl | rfl | rfl | rfl | rfl | rfl | rfl |
    rfl | rfl | rfl | rfl | rfl
  iterate 13 rfl
  -- These are `position` and `last`.
  iterate 2 simp [Registration.accepts] at accepted
  iterate 3 rfl

theorem Registry.ignoresPlace_of_resolve {name : String} {count : Nat} {body : Function}
    (resolved : core.resolve name (count + 1) = .ok body) : body.IgnoresPlace := by
  rcases resolve_mem resolved with ⟨registration, named, accepted, rfl⟩
  have member := List.mem_reverse.mp (List.mem_filter.mp named).1
  exact Function.ignoresPlace_of_accepts registration member accepted

/-- A node-set made from a host value has no nodes but those of the host value. -/
theorem HostValue.toValue_subset {returned : HostValue} {set : NodeSet}
    (given : returned.toValue forest = .ok (.nodeSet set)) :
    ∀ id ∈ set.nodes, id ∈ returned.nodes := by
  rcases HostValue.cases_of_toValue given with rfl | ⟨ids, rfl, rfl⟩
  · exact fun _ member => member
  · intro id member
    rw [nodes, nodesOfAll_map]
    exact mem_distinct.mp member

/-- Whatever nodes of the document a handler returns, and in whatever order, the value is sorted. -/
theorem Handler.result_sorted {root : NodeId} (tree : forest.IsTree document root)
    {fallback : Option DocumentId} {function : String} {returned : HostValue}
    (inside : ∀ id ∈ returned.nodes, id ∈ forest.nodesOf document) {value : Value}
    (given : result forest fallback function returned = .ok value) :
    value.SortedIn forest document := by
  rw [result] at given
  cases converted : returned.toValue forest with
  | error found => rw [converted] at given; cases given
  | ok value =>
      rw [converted] at given
      cases given
      apply Value.SortedIn.decorate
      cases value with
      | nodeSet set =>
          apply tree.sortedIn_inDocumentOrder
          intro id member
          exact inside id (HostValue.toValue_subset converted id member)
      | boolean truth => trivial
      | number amount => trivial
      | string text => trivial

end NodeQuery
