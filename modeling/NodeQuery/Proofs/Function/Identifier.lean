import NodeQuery.Proofs.Expr.Answer
import NodeQuery.Proofs.Forest.Partition
import NodeQuery.Proofs.Program.Compilation
import NodeQuery.Proofs.Selector.Walk
import NodeQuery.Proofs.Text.Parts

/-!
# Elements named by words

What a call of `id` gives at a node of a document: the elements of that document whose first attribute
`id` is one of the words of the argument, in document order.  Words taken together name what they name
one by one, so a call with several texts gives what a union of calls with each of them gives.  The union
sorts the nodes it is given and the call does not; the two agree since the walk over the tree meets its
elements in the order in which they are numbered.
-/

namespace NodeQuery

open NodeQuery.Expr Evaluation

variable {forest : Forest} {document : DocumentId}

/-- The texts whose words name elements: the string-values of all nodes of a node-set, and the text that
any other value is converted to. -/
def Value.namingTexts (forest : Forest) : Value → List String
  | .nodeSet set => set.nodes.map forest.stringValue
  | other => [other.toText forest]

/-- Whether a value names a node: the node is an element, and its first attribute `id` is a word of one
of the texts of the value. -/
structure Value.Names (forest : Forest) (value : Value) (id : NodeId) : Prop where
  element : forest.isElement id = true
  word : ∃ name, forest.attribute? id "id" = some name ∧ Text.IsWord name.toList ∧
    ∃ text ∈ value.namingTexts forest, Text.HasWord text.toList name.toList

def Forest.elementsNamed (forest : Forest) (document : DocumentId) (tokens : List (List Char)) :
    NodeSet :=
  NodeSet.inDocumentOrder forest ((forest.nodesOf document).filter (Function.hasIdAmong forest tokens))

namespace Function

theorem idTokens_eq (argument : Value) :
    idTokens forest argument = (argument.namingTexts forest).flatMap fun text => Text.words text.toList := by
  cases argument with
  | nodeSet set => rw [idTokens, Value.namingTexts, List.flatMap_map]
  | _ => exact (List.append_nil _).symm

theorem hasIdAmong_iff {argument : Value} {id : NodeId} :
    hasIdAmong forest (idTokens forest argument) id = true ↔ argument.Names forest id := by
  have named (word : List Char) : word ∈ idTokens forest argument ↔
      Text.IsWord word ∧ ∃ text ∈ argument.namingTexts forest, Text.HasWord text.toList word := by
    rw [idTokens_eq, List.mem_flatMap]
    constructor
    · rintro ⟨text, among, member⟩
      rcases Text.mem_words.mp member with ⟨isWord, stands⟩
      exact ⟨isWord, text, among, stands⟩
    · rintro ⟨isWord, text, among, stands⟩
      exact ⟨text, among, Text.mem_words.mpr ⟨isWord, stands⟩⟩
  rw [hasIdAmong, Bool.and_eq_true, Option.any_eq_true]
  simp only [List.contains_iff_mem, named]
  constructor
  · rintro ⟨element, name, held, isWord, stands⟩
    exact ⟨element, name, held, isWord, stands⟩
  · rintro ⟨element, name, held, isWord, stands⟩
    exact ⟨element, name, held, isWord, stands⟩

/-- Words taken together name what one part of them or the other names. -/
theorem hasIdAmong_append (first second : List (List Char)) (id : NodeId) :
    hasIdAmong forest (first ++ second) id =
      (hasIdAmong forest first id || hasIdAmong forest second id) := by
  rw [hasIdAmong, hasIdAmong, hasIdAmong, ← Bool.and_or_distrib_left]
  cases forest.attribute? id "id" with
  | none => rfl
  | some name => simp only [Option.any_some, List.contains_eq_mem, List.mem_append, Bool.decide_or]

/-- A blank between two texts keeps their words apart. -/
theorem idTokens_spaced (first second : String) :
    idTokens forest (.string (String.join [first, " ", second])) =
      idTokens forest (.string first) ++ idTokens forest (.string second) := by
  have tokens (text : String) : idTokens forest (.string text) = Text.words text.toList := rfl
  have spelled : (String.join [first, " ", second]).toList = first.toList ++ ' ' :: second.toList := by
    simp
  rw [tokens, tokens, tokens, spelled, Text.words_append_separator rfl]

end Function

open NodeQuery.Function

namespace Forest.IsTree

variable {root : NodeId} (tree : forest.IsTree document root)
include tree

/-- An element is met on the walk through the children, so the attributes of the document can be added
to that walk. -/
theorem filter_subtree (tokens : List (List Char)) :
    (forest.subtree root).filter (hasIdAmong forest tokens) =
      (forest.nodesOf document).filter (hasIdAmong forest tokens) := by
  rw [tree.nodesOf_eq]
  apply (tree.ascending.sublist
    (List.filter_sublist.trans (forest.subtree_sublist root))).eq_of_mem_iff
      (tree.ascending.sublist List.filter_sublist)
  intro id
  rw [List.mem_filter, List.mem_filter]
  constructor
  · rintro ⟨below, named⟩
    exact ⟨(forest.subtree_sublist root).subset below, named⟩
  · rintro ⟨inside, named⟩
    have element := eq_of_beq (Bool.and_eq_true_iff.mp named).1
    refine ⟨tree.mem_subtree_of_plain inside ?_, named⟩
    rw [element]
    exact NodeKind.noConfusion

/-- From every node of the document the walk finds the elements named in it, in document order. -/
theorem elementsById_eq {site : CallSite} {node : NodeId} (here : site.focus.node = some node)
    (inside : node ∈ forest.nodesOf document) (argument : Value) :
    elementsById forest site [argument] =
      .ok (.nodeSet (forest.elementsNamed document (idTokens forest argument))) := by
  rw [tree.nodesOf_eq] at inside
  have ascending := tree.ascending.sublist
    (List.filter_sublist (p := hasIdAmong forest (idTokens forest argument)))
  have sorted := NodeSet.inDocumentOrder_of_ascending tree ascending
    fun id member => List.mem_of_mem_filter member
  rw [← tree.nodesOf_eq, ← tree.filter_subtree] at sorted
  rw [elementsById, unary, here, Option.map_some, Option.some_or, tree.root_eq_of_mem inside]
  rw [elementsNamed, ← tree.filter_subtree, sorted]

theorem lists_elementsNamed (argument : Value) :
    (forest.elementsNamed document (idTokens forest argument)).Lists forest document
      fun id => id ∈ forest.nodesOf document ∧ argument.Names forest id := by
  apply lists_inDocumentOrder tree
  · intro id
    rw [List.mem_filter, hasIdAmong_iff]
  · exact fun id named => named.1

theorem union_elementsNamed (first second : List (List Char)) :
    NodeSet.inDocumentOrder forest ((forest.elementsNamed document first).nodes ++
      (forest.elementsNamed document second).nodes) =
        forest.elementsNamed document (first ++ second) := by
  apply NodeSet.inDocumentOrder_congr tree
  · intro id member
    rw [← tree.nodesOf_eq]
    rcases List.mem_append.mp member with listed | listed
    · exact List.mem_of_mem_filter (NodeSet.mem_inDocumentOrder.mp listed)
    · exact List.mem_of_mem_filter (NodeSet.mem_inDocumentOrder.mp listed)
  · intro id
    rw [List.mem_append, elementsNamed, elementsNamed, NodeSet.mem_inDocumentOrder,
      NodeSet.mem_inDocumentOrder, List.mem_filter, List.mem_filter, List.mem_filter,
      hasIdAmong_append, Bool.or_eq_true, and_or_left]

end Forest.IsTree

namespace Expr

/-- Calls of `id` with one text each, put together by unions. -/
def idOfEach : List String → Expr
  | [] => .call "id" [.string ""]
  | text :: texts => .union (.call "id" [.string text]) (idOfEach texts)

variable {σ : Type} {context : Context σ} {focus : Focus}

theorem evalAt_concat_blank (core : context.functions = Registry.core) (left right : Expr) :
    evalAt forest context focus (.call "concat" [left, .string " ", right]) =
      (do
        let first ← evalAt forest context focus left
        let second ← evalAt forest context focus right
        pure (.string (String.join [first.toText forest, " ", second.toText forest]))) := by
  simp only [evalAt, evalAll, bind_assoc, pure_bind, Evaluation.call, core]
  rfl

variable {root : NodeId} (tree : forest.IsTree document root)
variable (core : context.functions = Registry.core) {node : NodeId} (here : focus.node = some node)
variable (inside : node ∈ forest.nodesOf document)
include tree core here inside

theorem evalAt_id (argument : Expr) :
    evalAt forest context focus (.call "id" [argument]) =
      (do
        let value ← evalAt forest context focus argument
        pure (.nodeSet (forest.elementsNamed document (idTokens forest value)))) := by
  rw [evalAt, evalAll, bind_assoc]
  refine bind_congr fun value => ?_
  have resolved : Registry.core.resolve "id" [value].length = .ok elementsById := rfl
  have found : elementsById forest ⟨focus, context.document? forest⟩ [value] = .ok _ :=
    tree.elementsById_eq here inside value
  rw [evalAll, pure_bind, pure_bind, Evaluation.call, core]
  simp only [resolved, found]

/-- Two calls put together by a union name elements by the words of both arguments. -/
theorem evalAt_union_ids (left right : Expr) :
    evalAt forest context focus (.union (.call "id" [left]) (.call "id" [right])) =
      (do
        let first ← evalAt forest context focus left
        let second ← evalAt forest context focus right
        pure (.nodeSet (forest.elementsNamed document
          (idTokens forest first ++ idTokens forest second)))) := by
  rw [evalAt, evalAt_id tree core here inside, evalAt_id tree core here inside]
  simp only [bind_assoc, pure_bind, unionOf, requireNodes, tree.union_elementsNamed]

theorem evalAt_idOfEach (texts : List String) :
    evalAt forest context focus (idOfEach texts) =
      pure (.nodeSet (forest.elementsNamed document
        (texts.flatMap fun text => Text.words text.toList))) := by
  have single (text : String) : evalAt forest context focus (.call "id" [.string text]) =
      pure (.nodeSet (forest.elementsNamed document (Text.words text.toList))) := by
    rw [evalAt_id tree core here inside, evalAt_string, pure_bind]
    rfl
  induction texts with
  | nil => exact single ""
  | cons text texts ih =>
      rw [idOfEach, evalAt, single, pure_bind, ih, pure_bind]
      simp only [unionOf, requireNodes, pure_bind, tree.union_elementsNamed, List.flatMap_cons]

end Expr

namespace Program

variable {σ : Type} {context : Context σ} {focus : Focus}

/-- At every node of a document of fresh nodes, a call of `id` gives the elements of the document that
its argument names, in document order.  With two strings and a blank between them it gives the union of
the calls with each string, and with a node-set the union of the calls with the string-values of its
nodes. -/
theorem runFrom_id (fresh : forest.HasFreshDocument document)
    (core : context.functions = Registry.core) {node : NodeId} (here : focus.node = some node)
    (inside : node ∈ forest.nodesOf document) :
    (∀ argument value state after,
      runFrom forest context focus argument.code 0 [] state = (.ok value, after) →
        ∃ set : NodeSet,
          runFrom forest context focus (Expr.call "id" [argument]).code 0 [] state =
            (.ok (.nodeSet set), after) ∧
          set.Lists forest document
            fun id => id ∈ forest.nodesOf document ∧ value.Names forest id) ∧
    (∀ left right first second state middle after,
      runFrom forest context focus left.code 0 [] state = (.ok (.string first), middle) →
      runFrom forest context focus right.code 0 [] middle = (.ok (.string second), after) →
        runFrom forest context focus
          (Expr.call "id" [.call "concat" [left, .string " ", right]]).code 0 [] state =
            runFrom forest context focus
              (Expr.union (.call "id" [left]) (.call "id" [right])).code 0 [] state) ∧
    ∀ argument set state after,
      runFrom forest context focus argument.code 0 [] state = (.ok (.nodeSet set), after) →
        runFrom forest context focus (Expr.call "id" [argument]).code 0 [] state =
          runFrom forest context focus (idOfEach (set.nodes.map forest.stringValue)).code 0 []
            after := by
  rcases fresh.isTree with ⟨root, tree⟩
  simp only [runFrom_code_nil]
  refine ⟨?_, ?_, ?_⟩
  · intro argument value state after given
    refine ⟨_, ?_, tree.lists_elementsNamed value⟩
    rw [evalAt_id tree core here inside, bind_apply, given]
    rfl
  · intro left right first second state middle after leftGiven rightGiven
    rw [evalAt_id tree core here inside, evalAt_union_ids tree core here inside,
      evalAt_concat_blank core]
    simp only [bind_apply, leftGiven, rightGiven, ← idTokens_spaced]
    rfl
  · intro argument set state after given
    rw [evalAt_id tree core here inside, evalAt_idOfEach tree core here inside]
    simp only [bind_apply, given, idTokens_eq]
    rfl

/-- Calls at the attribute that has the words: it names the element it belongs to. -/
theorem runFrom_id_nested :
    let forest := Forest.nestedDocument.1
    let document := Forest.nestedDocument.2
    let context : Context Unit := {}
    let focus : Focus := { node := some ⟨0⟩ }
    let outcome (expression : Expr) := runFrom forest context focus expression.code 0 [] ()
    forest.HasFreshDocument document ∧ (⟨0⟩ : NodeId) ∈ forest.nodesOf document ∧
    (∃ set : NodeSet, outcome (.call "id" [.focus]) = (.ok (.nodeSet set), ()) ∧
      set.Lists forest document
        fun id => id ∈ forest.nodesOf document ∧ (focusValue forest focus).Names forest id) ∧
    outcome (.call "id" [.call "concat" [.string "first", .string " ", .string "top"]]) =
      outcome (.union (.call "id" [.string "first"]) (.call "id" [.string "top"])) ∧
    outcome (.call "id" [.focus]) = outcome (idOfEach ["top"]) := by
  intro forest document context focus outcome
  have core : context.functions = Registry.core := rfl
  have here : focus.node = some ⟨0⟩ := rfl
  have inside : (⟨0⟩ : NodeId) ∈ forest.nodesOf document := by decide +kernel
  have named := runFrom_id Forest.nestedDocument_fresh core here inside
  have shown : forest.stringValue ⟨0⟩ = "top" := by decide +kernel
  refine ⟨Forest.nestedDocument_fresh, inside, named.1 .focus _ () () rfl,
    named.2.1 (.string "first") (.string "top") _ _ () () () rfl rfl, ?_⟩
  rw [← shown]
  exact named.2.2 .focus _ () () rfl

end Program

end NodeQuery
