import NodeQuery.Proofs.Handler.Asking
import NodeQuery.Proofs.Selector.CustomClass

/-!
# The order in which a handler is asked

A path or a selector that asks a handler about the elements of a name asks parent by parent.  These are
the elements that the path without the question gives, but the order need not be that of the document:
the children of one parent are asked about before anything that is below the first of them.
-/

namespace NodeQuery

open NodeQuery.Expr Evaluation
open Handler (Request)

variable {σ : Type}

namespace Forest

/-- No node with an element of a name below it has a later sibling of that name. -/
def InStep (forest : Forest) (document : DocumentId) (name : String) : Prop :=
  ∀ id ∈ forest.nodesOf document, ∀ below ∈ forest.descendants id, forest.isNamed name below = true →
    ∀ later ∈ forest.followingSiblings id, forest.isNamed name later = false

variable {forest : Forest} {document : DocumentId} {root : NodeId} {name : String}

theorem kind_ne_attribute_of_isNamed {id : NodeId} (named : forest.isNamed name id = true) :
    forest.kind id ≠ .attribute :=
  kind_ne_attribute_of_isElement (Bool.and_eq_true_iff.mp named).1

/-- Of two members of a list in document order the one that precedes the other comes first. -/
theorem pair_sublist_of_precedes {ids : List NodeId} (ordered : ids.Pairwise forest.Precedes)
    {one other : NodeId} (member : one ∈ ids) (otherMember : other ∈ ids)
    (before : forest.Precedes one other) : [one, other].Sublist ids := by
  have apart : one ≠ other := by
    rintro rfl
    exact Precedes.irrefl _ before
  refine (pair_sublist_of_mem member otherMember apart).resolve_right fun behind => ?_
  exact before.asymm (List.pairwise_iff_forall_sublist.mp ordered behind)

namespace IsTree

variable (tree : forest.IsTree document root)
include tree

/-- Where one element is below a child and another one is a later child, parent by parent the later child
comes first. -/
theorem inStep_of_ordered (ordered : (forest.byParent name root).Pairwise forest.Precedes) :
    forest.InStep document name := by
  intro id inside below under belowNamed later beside
  rw [← Bool.not_eq_true]
  intro laterNamed
  rw [tree.nodesOf_eq] at inside
  have start : root ∈ forest.subtreeWithAttributes root := mem_subtreeWithAttributes_self root
  have whole := tree.ordered_subtreeWithAttributes start
  rcases tree.attached.exists_parent_of_beside inside beside with ⟨parent, above, part⟩
  rcases mem_descendants_iff.mp under with ⟨holder, holderBelow, held⟩
  have member : id ∈ forest.children parent := part.subset List.mem_cons_self
  have laterMember : later ∈ forest.children parent :=
    part.subset (List.mem_cons_of_mem _ List.mem_cons_self)
  have holderUnder : holder ∈ forest.descendants parent :=
    List.mem_flatMap.mpr ⟨id, member, holderBelow⟩
  have places : [parent, holder].Sublist (forest.subtree root) :=
    pair_sublist_of_precedes (tree.ordered_subtree start) above
      (mem_subtree_trans above (mem_subtree_of_descendants holderUnder))
      (IsAttachedOnce.precedes_of_descendants whole above holderUnder)
  rw [byParent, List.pairwise_flatMap] at ordered
  have first : forest.Precedes later below :=
    List.pairwise_iff_forall_sublist.mp ordered.2 places later
      (List.mem_filter.mpr ⟨laterMember, laterNamed⟩) below
      (List.mem_filter.mpr ⟨held, belowNamed⟩)
  have last : forest.Precedes below later := IsAttachedOnce.precedes_of_leftOf whole
    ⟨parent, above, id, later, part, mem_subtree_of_descendants under, mem_subtree_self later⟩
  exact first.asymm last

/-- Of two parents in document order the first has its children of the name before those of the second,
as long as no such child stands behind a child that leads to the second. -/
theorem ordered_of_inStep (inStep : forest.InStep document name) :
    (forest.byParent name root).Pairwise forest.Precedes := by
  have start : root ∈ forest.subtreeWithAttributes root := mem_subtreeWithAttributes_self root
  have whole := tree.ordered_subtreeWithAttributes start
  have inside := tree.subtree_subset start
  rw [byParent, List.pairwise_flatMap]
  refine ⟨fun parent below => (tree.ordered_children (inside parent below)).filter _, ?_⟩
  apply (tree.ordered_subtree start).imp_of_mem
  intro first second firstBelow secondBelow before one oneListed other otherListed
  rcases List.mem_filter.mp oneListed with ⟨oneChild, oneNamed⟩
  rcases List.mem_filter.mp otherListed with ⟨otherChild, otherNamed⟩
  have apart : first ≠ second := by
    rintro rfl
    exact Precedes.irrefl _ before
  rcases below_or_leftOf firstBelow secondBelow with under | under | left | right
  · rcases (mem_subtree.mp under).resolve_left apart.symm with ⟨child, member, secondUnder⟩
    have otherUnder : other ∈ forest.descendants child := descendants_of_children secondUnder otherChild
    rcases eq_or_ne child one with rfl | different
    · exact IsAttachedOnce.precedes_of_descendants whole
        (mem_subtree_of_descendants (descendants_of_children firstBelow oneChild)) otherUnder
    rcases pair_sublist_of_mem member oneChild different with part | part
    · -- The child that leads to the second parent must not have the first element behind it.
      rcases tree.attached.beside_of_sublist firstBelow part (mem_subtree_of_descendants otherUnder)
        (kind_ne_attribute_of_isNamed otherNamed) with ⟨found, beside⟩
      rw [← tree.nodesOf_eq] at found
      have unnamed := inStep child found other otherUnder otherNamed one beside
      rw [oneNamed] at unnamed
      cases unnamed
    · exact IsAttachedOnce.precedes_of_leftOf whole
        ⟨first, firstBelow, one, child, part, mem_subtree_self one, mem_subtree_of_descendants otherUnder⟩
  · exact absurd before (IsAttachedOnce.precedes_of_descendants whole secondBelow
      (mem_descendants_of_apart under apart)).asymm
  · rcases left with ⟨parent, above, earlier, later, part, firstUnder, secondUnder⟩
    exact IsAttachedOnce.precedes_of_leftOf whole ⟨parent, above, earlier, later, part,
      mem_subtree_of_descendants (descendants_of_children firstUnder oneChild),
      mem_subtree_of_descendants (descendants_of_children secondUnder otherChild)⟩
  · exact absurd before (IsAttachedOnce.precedes_of_leftOf whole right).asymm

/-- Parent by parent the elements of a name come as in document order just if they are in step. -/
theorem byParent_perm {all : List NodeId} (ascending : forest.Ascending all)
    (members : ∀ id, id ∈ all ↔ id ∈ forest.byParent name root) :
    (forest.byParent name root).Perm all ∧
      (forest.byParent name root = all ↔ forest.InStep document name) := by
  constructor
  · have once := tree.nodup_byParent (mem_subtreeWithAttributes_self root) name
    exact (List.perm_ext_iff_of_nodup once ascending.distinct).mpr fun id => (members id).symm
  · constructor
    · intro same
      apply tree.inStep_of_ordered
      rw [same]
      exact ascending.ordered
    · intro inStep
      exact (Ascending.of_ordered (tree.ordered_of_inStep inStep)).eq_of_mem_iff ascending fun id =>
        (members id).symm

end IsTree

end Forest

/-- The requests that are noted in the course of an evaluation, in the order in which they are made. -/
def Evaluation.requests {α : Type} (evaluation : Evaluation (σ × List (Request σ)) α) (state : σ) :
    List (Request σ) :=
  (evaluation (state, [])).2.2.reverse

/-- Requests of one function about the elements of a name, parent by parent: one after another, the nodes
of all arguments are the elements in this order. -/
structure Handler.AskByParent (forest : Forest) (root : NodeId) (name function : String)
    (requests : List (Request σ)) : Prop where
  called : ∀ request ∈ requests, request.function = function
  nodes : HostValue.nodesOfAll (requests.flatMap (·.arguments)) = forest.byParent name root

theorem Handler.nodesOfAll_turns {function : String} {turns : List (NodeId × Request σ)}
    (about : ∀ turn ∈ turns, turn.2.IsAbout function turn.1) :
    HostValue.nodesOfAll ((turns.map Prod.snd).flatMap (·.arguments)) = turns.map Prod.fst := by
  induction turns with
  | nil => rfl
  | cons turn turns ih =>
      rcases List.forall_mem_cons.mp about with ⟨⟨_, set, arguments, nodes⟩, later⟩
      rw [List.map_cons, List.flatMap_cons, arguments, List.singleton_append, HostValue.nodesOfAll,
        HostValue.nodes, nodes, ih later, List.map_cons, List.singleton_append]

theorem Handler.askByParent_turns (forest : Forest) (handler : Handler σ)
    (document : Option DocumentId) (root : NodeId) (name function : String) (state : σ) :
    AskByParent forest root name function ((handler.turns (requestAbout forest document function)
      (forest.byParent name root) state).map Prod.snd) := by
  have about : ∀ turn ∈ handler.turns (requestAbout forest document function)
      (forest.byParent name root) state, turn.2.IsAbout function turn.1 := by
    intro turn member
    rcases handler.exists_state_of_turns _ member with ⟨before, same⟩
    rw [same]
    exact requestAbout_isAbout forest document function turn.1 before
  constructor
  · intro request listed
    rcases List.mem_map.mp listed with ⟨turn, member, rfl⟩
    exact (about turn member).1
  · rw [nodesOfAll_turns about, map_fst_turns]

section
variable {forest : Forest} {document : DocumentId} {root : NodeId} {context : Context σ}

/-- Without a question a path gives the elements of the name in document order. -/
theorem eval_named (tree : forest.IsTree document root) {from_ : List Step → Expr}
    (starts : StartsAtTree forest context context.focus root from_) (name : String) (state : σ) :
    ∃ all : NodeSet,
      (from_ [.mk .child (.named name) []]).eval forest context state = (.ok (.nodeSet all), state) ∧
        forest.Ascending all.nodes ∧ ∀ id, id ∈ all.nodes ↔ id ∈ forest.byParent name root := by
  rcases starts with ⟨whole, nodes, goesOn⟩
  have start : root ∈ forest.subtreeWithAttributes root :=
    Forest.mem_subtreeWithAttributes_self root
  have lists : whole.Lists forest document (· ∈ forest.subtree root) := by
    refine ⟨fun id => by rw [nodes], fun id below => ?_, ?_⟩
    · rw [tree.nodesOf_eq]
      exact tree.subtree_subset start id below
    · rw [nodes]
      exact Forest.Ascending.of_ordered (tree.ordered_subtree start)
  have walks : Walks forest document context [.mk .child (.named name) []] (· ∈ forest.subtree root) _ :=
    walks_step tree (· ∈ forest.subtree root) (fun _ other => forest.isNamed name other = true)
      fun id _ _ => ⟨candidates forest .child (.named name) id, by rw [keptBy],
        fun other => List.mem_filter⟩
  rcases walks whole lists with ⟨reached, given, listsReached⟩
  refine ⟨reached.decorate forest (context.document? forest), ?_, ?_, fun id => ?_⟩
  · rw [Expr.eval, goesOn, given]
    rfl
  · rw [NodeSet.nodes_decorate]
    exact listsReached.ascending
  · rw [NodeSet.nodes_decorate, listsReached.members, Forest.byParent, List.mem_flatMap]
    simp only [List.mem_filter]
    rfl

end

namespace Query

/-- Asking a handler about the elements of a name, by a path from any node of a document or by a selector
from the document node, is asking parent by parent.  The nodes asked about are those that the path
without the question gives, each once; they come in the same order, that of the document, just if no
node with an element of the name below it has a later sibling of that name. -/
theorem asks_parent_by_parent {forest : Forest} {document : DocumentId} {root : NodeId}
    (fresh : forest.HasFreshDocument document) (rooted : forest.documentRoot? document = some root)
    {name function : String} (named : Selector.IsPlainName name)
    (callable : Selector.IsCallable function) {handler : Handler σ}
    (answers : handler.AlwaysAnswers forest function) (state : σ) :
    (∀ (context : Context σ) (node : NodeId), context.node = some node →
      node ∈ forest.nodesOf document →
        (context.handler = some handler → context.functions.contains function = false →
          Handler.AskByParent forest root name function ((evaluate forest
            ("//" ++ name ++ "[" ++ function ++ "(.)]") context.noting).requests state)) ∧
        ∃ all, evaluate forest ("//" ++ name) context state = (.ok (.nodeSet all), state) ∧
          (forest.byParent name root).Perm all.nodes ∧
          (forest.byParent name root = all.nodes ↔ forest.InStep document name)) ∧
    (Registry.core.contains function = false →
      Handler.AskByParent forest root name function
        ((select forest (name ++ ":" ++ function ++ "()") root (some handler.noting)).requests
          state)) := by
  rcases fresh.isTree with ⟨other, tree⟩
  have same := tree.documentRoot
  rw [rooted] at same
  cases same
  have nameChars : IsQualifiedName name.toList := .simple (named.isName.chars named.unsigned)
  have functionChars : IsQualifiedName function.toList :=
    .simple (callable.isName.chars callable.unsigned)
  constructor
  · intro context node here inside
    constructor
    · intro held unregistered
      have starts : StartsAtTree forest context.noting context.focus root Selector.fromRoot :=
        startsAtTree_fromRoot tree inside here
      rcases eval_asking starts held unregistered answers name state with ⟨set, asked, _⟩
      rw [Evaluation.requests,
        evaluate_of_parse (parse?_asking nameChars functionChars callable.noTest), asked,
        List.reverse_reverse]
      exact handler.askByParent_turns forest _ root name function state
    · have starts : StartsAtTree forest context context.focus root Selector.fromRoot :=
        startsAtTree_fromRoot tree inside here
      rcases eval_named tree starts name state with ⟨all, given, ascending, members⟩
      refine ⟨all, ?_, tree.byParent_perm ascending members⟩
      rw [evaluate_of_parse (parse?_named nameChars), given]
  · intro unregistered
    let context : Context σ := { node := some root, handler := some handler }
    have starts : StartsAtTree forest context.noting context.focus root Selector.fromFocus :=
      startsAtTree_fromFocus tree (Forest.root_mem_nodesOf rooted) rfl
    rcases eval_asking starts rfl unregistered answers name state with ⟨set, asked, _⟩
    rcases selectorPath_pseudoCall .focus named callable with ⟨path, written, read⟩
    have selected : select forest (name ++ ":" ++ function ++ "()") root (some handler.noting)
      (state, []) = _ := select_of_parse written read asked
    rw [Evaluation.requests, selected, List.reverse_reverse]
    exact handler.askByParent_turns forest _ root name function state

theorem asks_parent_by_parent_stacked :
    (∀ (context : Context Nat) (node : NodeId), context.node = some node →
      node ∈ stackedDocument.1.nodesOf stackedDocument.2 →
        (context.handler = some tallyHandler → context.functions.contains "f" = false →
          Handler.AskByParent stackedDocument.1 ⟨4⟩ "t" "f" ((evaluate stackedDocument.1
            ("//" ++ "t" ++ "[" ++ "f" ++ "(.)]") context.noting).requests 0)) ∧
        ∃ all, evaluate stackedDocument.1 ("//" ++ "t") context 0 = (.ok (.nodeSet all), 0) ∧
          (stackedDocument.1.byParent "t" ⟨4⟩).Perm all.nodes ∧
          (stackedDocument.1.byParent "t" ⟨4⟩ = all.nodes ↔
            stackedDocument.1.InStep stackedDocument.2 "t")) ∧
    (Registry.core.contains "f" = false →
      Handler.AskByParent stackedDocument.1 ⟨4⟩ "t" "f"
        ((select stackedDocument.1 ("t" ++ ":" ++ "f" ++ "()") ⟨4⟩
          (some tallyHandler.noting)).requests 0)) :=
  asks_parent_by_parent stackedDocument_fresh (by decide +kernel) (by decide) (by decide)
    (tallyHandler_alwaysAnswers _ "f") 0

/-- With the stacked elements the last element is asked about before the one below the first. -/
theorem asks_against_document_order :
    let context : Context Nat := { node := some ⟨4⟩, handler := some tallyHandler }
    stackedDocument.1.HasFreshDocument stackedDocument.2 ∧
    tallyHandler.AlwaysAnswers stackedDocument.1 "f" ∧
    ∃ all, evaluate stackedDocument.1 "//t" context 0 = (.ok (.nodeSet all), 0) ∧
      HostValue.nodesOfAll (((evaluate stackedDocument.1 "//t[f(.)]" context.noting).requests
        0).flatMap (·.arguments)) ≠ all.nodes ∧
      HostValue.nodesOfAll (((select stackedDocument.1 "t:f()" ⟨4⟩
        (some tallyHandler.noting)).requests 0).flatMap (·.arguments)) ≠ all.nodes := by
  refine ⟨stackedDocument_fresh, tallyHandler_alwaysAnswers _ "f",
    NodeSet.mk [⟨1⟩, ⟨0⟩, ⟨2⟩] (some stackedDocument.2) (some []), ?_, ?_, ?_⟩
  · with_unfolding_all rfl
  · decide +kernel
  · decide +kernel

end Query

end NodeQuery
