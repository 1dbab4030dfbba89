import NodeQuery.Proofs.Handler.Refusal
import NodeQuery.Proofs.Forest.Opposite
import NodeQuery.Proofs.Selector.Selection

/-!
# Asking a handler about nodes

A predicate that calls a function with the node in focus asks the handler about one node after another.
Each request finds the handler in the state in which the one before it has left it, and each answer
decides about one node, by its truth and never by a position.  A path that looks for the elements of a
name anywhere in a document and asks about each of them asks parent by parent: the parents in document
order, and for each parent its children of that name.
-/

namespace NodeQuery

open NodeQuery.Expr Evaluation

variable {σ : Type}

namespace Handler

section
variable (forest : Forest) (handler : Handler σ)

/-- The value that a request is answered with, unless the handler fails or returns what stands for no
value. -/
def Request.answer? (request : Request σ) : Option Value :=
  match (handler.call request.function request.arguments request.state).1 with
  | .error _ => none
  | .ok returned => (returned.toValue forest).toOption

/-- Whether a request is answered with a value that counts as true. -/
def Request.isConfirmed (request : Request σ) : Bool :=
  (request.answer? forest handler).any Value.toBoolean

/-- The handler has a function at all times, and gives a value for every request of it. -/
structure AlwaysAnswers (function : String) : Prop where
  available : ∀ state, handler.respondsTo function state = true
  grants : ∀ arguments state, handler.Grants forest ⟨function, arguments, state⟩

end

/-- A request about a node: a call with the set of that node as its only argument. -/
def Request.IsAbout (function : String) (request : Request σ) (id : NodeId) : Prop :=
  request.function = function ∧
    ∃ set : NodeSet, request.arguments = [.nodeSet set] ∧ set.nodes = [id]

/-- A request that is granted is answered, and the call gives what it is answered with. -/
theorem Grants.exists_answer {forest : Forest} {handler : Handler σ} {request : Request σ}
    (grants : handler.Grants forest request) (document : Option DocumentId) :
    ∃ returned value,
      (handler.call request.function request.arguments request.state).1 = .ok returned ∧
        request.answer? forest handler = some value ∧
        result forest document request.function returned =
          .ok ((value.inDocumentOrder forest).decorate forest document) := by
  rcases answer : (handler.call request.function request.arguments request.state).1 with
    failure | returned
  · exact absurd (.failed answer) (grants _)
  · rcases converted : returned.toValue forest with found | value
    · exact absurd (.unrepresentable answer converted) (grants _)
    · refine ⟨returned, value, rfl, ?_, ?_⟩
      · simp only [Request.answer?, answer, converted]
        rfl
      · rw [result, converted]

/-!
## In turn

Each request finds the state that the one before it has left, so the requests follow from the nodes and
the first state alone.
-/

section
variable (handler : Handler σ) (ask : NodeId → σ → Request σ)

/-- The requests made about one node after another, each with the node it is about. -/
def turns : List NodeId → σ → List (NodeId × Request σ)
  | [], _ => []
  | id :: ids, state => (id, ask id state) :: turns ids ((ask id state).stateAfter handler)

/-- The state in which the handler is left after one node after another. -/
def stateAfterTurns (ids : List NodeId) (state : σ) : σ :=
  ids.foldl (fun state id => (ask id state).stateAfter handler) state

theorem turns_append (ids others : List NodeId) (state : σ) :
    handler.turns ask (ids ++ others) state =
      handler.turns ask ids state ++
        handler.turns ask others (handler.stateAfterTurns ask ids state) := by
  induction ids generalizing state with
  | nil => rfl
  | cons id ids ih => exact congrArg _ (ih _)

theorem stateAfterTurns_append (ids others : List NodeId) (state : σ) :
    handler.stateAfterTurns ask (ids ++ others) state =
      handler.stateAfterTurns ask others (handler.stateAfterTurns ask ids state) :=
  List.foldl_append

theorem map_fst_turns (ids : List NodeId) (state : σ) :
    (handler.turns ask ids state).map Prod.fst = ids := by
  induction ids generalizing state with
  | nil => rfl
  | cons id ids ih => exact congrArg _ (ih _)

theorem exists_state_of_turns {ids : List NodeId} {state : σ} {turn : NodeId × Request σ}
    (member : turn ∈ handler.turns ask ids state) : ∃ before, turn.2 = ask turn.1 before := by
  induction ids generalizing state with
  | nil => cases member
  | cons id ids ih =>
      rcases List.mem_cons.mp member with same | later
      · exact ⟨state, by rw [same]⟩
      · exact ih later

end

/-- The nodes about which a request is answered with a value that counts as true. -/
def confirmed (forest : Forest) (handler : Handler σ) (turns : List (NodeId × Request σ)) :
    List NodeId :=
  (turns.filter fun turn => turn.2.isConfirmed forest handler).map Prod.fst

end Handler

open Handler (Request)

namespace Evaluation

/-- A test that makes one request about the node in focus, notes it, and answers as the handler does. -/
def Asks (forest : Forest) (handler : Handler σ) (ask : NodeId → σ → Request σ)
    (test : Focus → Evaluation (σ × List (Request σ)) Bool) : Prop :=
  ∀ (focus : Focus) (id : NodeId) (state : σ) (noted : List (Request σ)), focus.node = some id →
    test focus (state, noted) = (.ok ((ask id state).isConfirmed forest handler),
      ((ask id state).stateAfter handler, ask id state :: noted))

variable {forest : Forest} {handler : Handler σ} {ask : NodeId → σ → Request σ}
variable {test : Focus → Evaluation (σ × List (Request σ)) Bool}

/-- The requests of a test, the latest first, and what it leaves. -/
theorem keepWhere_asks (asks : Asks forest handler ask test) (last position : Nat)
    (ids : List NodeId) (state : σ) (noted : List (Request σ)) :
    keepWhere test last position ids (state, noted) =
      (.ok (handler.confirmed forest (handler.turns ask ids state)),
        (handler.stateAfterTurns ask ids state,
          ((handler.turns ask ids state).map Prod.snd).reverse ++ noted)) := by
  induction ids generalizing position state noted with
  | nil => rfl
  | cons id ids ih =>
      have now := asks ⟨some id, position, last⟩ id state noted rfl
      rw [keepWhere, bind_apply, now]
      dsimp only
      rw [bind_apply, ih]
      dsimp only [Handler.turns, Handler.confirmed]
      rw [List.filter_cons, List.map_cons, List.reverse_cons, List.append_assoc]
      cases (ask id state).isConfirmed forest handler <;> rfl

/-- Asking about lists of nodes, one list after another, is asking about all nodes in them. -/
theorem collect_asks (asks : Asks forest handler ask test) (lists : NodeId → List NodeId)
    (ids : List NodeId) (state : σ) (noted : List (Request σ)) :
    collect (fun id => keepWhere test (lists id).length 1 (lists id)) ids (state, noted) =
      (.ok (handler.confirmed forest (handler.turns ask (ids.flatMap lists) state)),
        (handler.stateAfterTurns ask (ids.flatMap lists) state,
          ((handler.turns ask (ids.flatMap lists) state).map Prod.snd).reverse ++ noted)) := by
  induction ids generalizing state noted with
  | nil => rfl
  | cons id ids ih =>
      rw [collect, bind_apply, keepWhere_asks asks]
      dsimp only
      rw [bind_apply, ih, List.flatMap_cons, Handler.turns_append, Handler.stateAfterTurns_append]
      simp only [Handler.confirmed, List.filter_append, List.map_append, List.reverse_append,
        List.append_assoc]
      rfl

end Evaluation

/-- A call of a function that is not registered goes to the handler. -/
theorem Evaluation.call_of_unregistered (forest : Forest) {context : Context σ} (focus : Focus)
    {function : String} (unregistered : context.functions.contains function = false)
    (arguments : List Value) :
    call forest context focus function arguments =
      Handler.invoke forest context.handler function arguments (context.document? forest) := by
  rw [call, Registry.resolve_of_unregistered unregistered]

/-- Arranging and decorating leave the truth of a value as it is. -/
theorem Value.toBoolean_arranged (forest : Forest) (document : Option DocumentId) (value : Value) :
    ((value.inDocumentOrder forest).decorate forest document).toBoolean = value.toBoolean := by
  cases value with
  | nodeSet set =>
      have same : (NodeSet.inDocumentOrder forest set.nodes).nodes = [] ↔ set.nodes = [] := by
        simp only [List.eq_nil_iff_forall_not_mem, NodeSet.mem_inDocumentOrder]
      rw [inDocumentOrder, decorate, toBoolean, toBoolean, NodeSet.isEmpty, NodeSet.isEmpty,
        NodeSet.nodes_decorate, Bool.eq_iff_iff, Bool.not_eq_true', Bool.not_eq_true',
        List.isEmpty_eq_false_iff, List.isEmpty_eq_false_iff, ne_eq, ne_eq, same]
  | _ => rfl

/-- The request that a call with the node in focus makes about that node. -/
def Handler.requestAbout (forest : Forest) (document : Option DocumentId) (function : String)
    (id : NodeId) (state : σ) : Request σ :=
  ⟨function, [argument forest document (focusValue forest { node := some id })], state⟩

theorem Handler.requestAbout_isAbout (forest : Forest) (document : Option DocumentId)
    (function : String) (id : NodeId) (state : σ) :
    (requestAbout forest document function id state).IsAbout function id := by
  refine ⟨rfl, _, rfl, ?_⟩
  rw [NodeSet.nodes_decorate]
  exact NodeSet.nodes_ofNodes (List.nodup_singleton id)

/-- The result of a call of a function that is not registered counts by its truth. -/
theorem Evaluation.keeps_unregistered {context : Context σ} {function : String}
    (unregistered : context.functions.contains function = false) (arguments : List Expr)
    (value : Value) (position : Nat) :
    keeps context (Expr.call function arguments).calledFunction? value position =
      value.toBoolean := by
  have handled : (Expr.call function arguments).calledFunction?.any
      (fun function => !context.functions.contains function) = true := by
    change (!context.functions.contains function) = true
    rw [unregistered, Bool.not_false]
  unfold keeps
  split
  · dsimp only
    rw [handled, if_pos rfl]
  · rfl

section
variable {forest : Forest} {context : Context σ} {handler : Handler σ} {function : String}
variable (held : context.handler = some handler)
variable (unregistered : context.functions.contains function = false)
variable (answers : handler.AlwaysAnswers forest function)
include held unregistered answers

/-- A predicate that calls a function with the node in focus asks about that node.  Whatever the answer
is, even a number, it counts by its truth. -/
theorem Context.asks_call :
    Asks forest handler (Handler.requestAbout forest (context.document? forest) function)
      ((Expr.call function [.focus]).testAt forest context.noting) := by
  intro focus id state noted here
  let request : Request σ :=
    Handler.requestAbout forest (context.document? forest) function id state
  have grants : handler.Grants forest request := answers.grants request.arguments state
  rcases grants.exists_answer (context.document? forest) with
    ⟨returned, value, called, answered, given⟩
  have noting : context.noting.handler = some handler.noting := by
    rw [Context.noting, Context.withHandler, held, Option.map_some]
  have unregisteredToo : context.noting.functions.contains function = false := unregistered
  have asked : evalAt forest context.noting focus (.call function [.focus]) (state, noted) =
      (.ok ((value.inDocumentOrder forest).decorate forest (context.document? forest)),
        (request.stateAfter handler, request :: noted)) := by
    have focused : focusValue forest focus = focusValue forest { node := some id } := by
      rw [focusValue, focusValue, here]
    rw [evalAt, evalAll, evalAt, evalAll, pure_bind, pure_bind, pure_bind,
      Evaluation.call_of_unregistered forest focus unregisteredToo, focused,
      noting, Handler.invoke_some]
    change (if handler.respondsTo function state then _ else _) = _
    rw [if_pos (answers.available state)]
    refine Prod.ext ?_ rfl
    change (match (handler.call request.function request.arguments request.state).1 with
      | .error failure => _ | .ok returned => _) = _
    rw [called]
    exact given
  have counted : keeps context.noting (Expr.call function [.focus]).calledFunction?
      ((value.inDocumentOrder forest).decorate forest (context.document? forest)) focus.position =
        request.isConfirmed forest handler := by
    rw [Evaluation.keeps_unregistered unregisteredToo, Value.toBoolean_arranged, Request.isConfirmed,
      answered, Option.any_some]
  change (evalAt forest context.noting focus (.call function [.focus]) >>= _) (state, noted) = _
  rw [bind_apply, asked]
  dsimp only
  rw [counted]
  rfl

/-- A step along the child axis with such a predicate asks about the children of each node in turn. -/
theorem Context.follow_asking (name : String) (set : NodeSet) (state : σ) (noted : List (Request σ)) :
    let ask := Handler.requestAbout forest (context.document? forest) function
    let asked := set.nodes.flatMap (candidates forest .child (.named name))
    follow forest context.noting [.mk .child (.named name) [.call function [.focus]]] (.nodeSet set)
        (state, noted) =
      (.ok (.nodeSet (NodeSet.inDocumentOrder forest
          (handler.confirmed forest (handler.turns ask asked state)))),
        (handler.stateAfterTurns ask asked state,
          ((handler.turns ask asked state).map Prod.snd).reverse ++ noted)) := by
  intro ask asked
  have asks := context.asks_call held unregistered answers
  have collected := collect_asks asks (candidates forest .child (.named name)) set.nodes state noted
  rw [follow, requireNodes, pure_bind]
  simp only [keptBy_single]
  rw [bind_apply, collected]
  dsimp only
  rw [follow]
  rfl

end

namespace Forest

def isNamed (forest : Forest) (name : String) (id : NodeId) : Bool :=
  forest.isElement id && forest.name? id == some name

/-- The elements with a name below a node, parent by parent: the parents in document order, and the
children of each in order. -/
def byParent (forest : Forest) (name : String) (top : NodeId) : List NodeId :=
  (forest.subtree top).flatMap fun parent => (forest.children parent).filter (forest.isNamed name)

variable {forest : Forest} {document : DocumentId} {root : NodeId}

theorem mem_byParent {name : String} {top id : NodeId} :
    id ∈ forest.byParent name top ↔ id ∈ forest.descendants top ∧ forest.isNamed name id = true := by
  rw [byParent, List.mem_flatMap, mem_descendants_iff, ← exists_and_right]
  simp only [List.mem_filter, and_assoc]

/-- Parent by parent every element comes once. -/
theorem IsTree.nodup_byParent (tree : forest.IsTree document root) {top : NodeId}
    (placed : top ∈ forest.subtreeWithAttributes root) (name : String) :
    (forest.byParent name top).Nodup := by
  have inside := tree.subtree_subset placed
  have once := (Ascending.of_ordered (tree.ordered_subtree placed)).distinct
  rw [byParent, List.nodup_flatMap]
  refine ⟨fun parent below => (tree.children_nodup (inside parent below)).filter _, ?_⟩
  apply once.imp_of_mem
  intro first second firstBelow secondBelow apart id firstListed secondListed
  -- What is a child of two nodes has the one it is attached to as both.
  have firstParent := tree.parent?_of_held (inside first firstBelow)
    (List.mem_append_right _ (List.mem_of_mem_filter firstListed))
  have secondParent := tree.parent?_of_held (inside second secondBelow)
    (List.mem_append_right _ (List.mem_of_mem_filter secondListed))
  rw [firstParent] at secondParent
  exact apart (Option.some.inj secondParent)

/-- In a document all elements with a name are below the document node. -/
theorem HasFreshDocument.mem_byParent_iff (fresh : forest.HasFreshDocument document)
    (tree : forest.IsTree document root) {name : String} {id : NodeId} :
    id ∈ forest.byParent name root ↔ id ∈ forest.nodesOf document ∧ forest.isNamed name id = true := by
  rw [mem_byParent, tree.nodesOf_eq]
  refine and_congr_left fun named => ?_
  constructor
  · exact tree.descendants_subset (mem_subtreeWithAttributes_self root) id
  · intro inside
    have element : forest.isElement id = true := (Bool.and_eq_true_iff.mp named).1
    have below := tree.mem_subtree_of_plain inside (kind_ne_attribute_of_isElement element)
    rw [subtree_eq, List.mem_cons] at below
    refine below.resolve_left ?_
    rintro rfl
    have kind : forest.kind id = .element := eq_of_beq element
    rw [fresh.kind_root tree.documentRoot] at kind
    cases kind

end Forest

section
variable {forest : Forest} {document : DocumentId} {root : NodeId}

/-- A path with this start goes on from the whole tree below a node, attributes apart. -/
def StartsAtTree (forest : Forest) (context : Context σ) (focus : Focus) (top : NodeId)
    (from_ : List Step → Expr) : Prop :=
  ∃ set : NodeSet, set.nodes = forest.subtree top ∧
    ∀ steps, evalAt forest context focus (from_ steps) = follow forest context steps (.nodeSet set)

variable {context : Context σ} {focus : Focus}

/-- From a node the step to all descendants reaches the whole tree below it. -/
theorem exists_wholeTree (tree : forest.IsTree document root) (context : Context σ) {top : NodeId}
    {set : NodeSet} (lists : set.Lists forest document (· = top)) :
    ∃ reached : NodeSet, reached.nodes = forest.subtree top ∧
      follow forest context [Step.descendantOrSelf] (.nodeSet set) = pure (.nodeSet reached) := by
  have walks : Walks forest document context [Step.descendantOrSelf] (· = top) _ :=
    walks_along tree .descendantOrSelf (· = top)
  rcases walks set lists with ⟨reached, given, whole⟩
  refine ⟨reached, ?_, given⟩
  have inside := lists.inside top rfl
  rw [tree.nodesOf_eq] at inside
  have ordered := tree.ordered_subtree inside
  apply whole.ascending.eq_of_mem_iff (Forest.Ascending.of_ordered ordered)
  intro id
  rw [whole.members, exists_eq_left, Forest.along_descendantOrSelf]

/-- A path through two slashes starts at the tree of whatever node is in focus. -/
theorem startsAtTree_fromRoot (tree : forest.IsTree document root) {node : NodeId}
    (inside : node ∈ forest.nodesOf document) (here : focus.node = some node) :
    StartsAtTree forest context focus root Selector.fromRoot := by
  have start := Forest.root_mem_nodesOf tree.documentRoot
  rcases exists_wholeTree tree context (lists_ofNodes start) with ⟨reached, nodes, given⟩
  refine ⟨reached, nodes, fun steps => ?_⟩
  rw [tree.nodesOf_eq] at inside
  have up : rootsOf forest (focusValue forest focus) =
      (pure (.nodeSet (NodeSet.ofNodes forest [root])) : Evaluation σ Value) := by
    have alone : (NodeSet.ofNodes forest [node]).nodes = [node] :=
      NodeSet.nodes_ofNodes (List.nodup_singleton node)
    rw [rootsOf, focusValue, here, requireNodes, pure_bind, Option.toList_some, alone, List.map_singleton,
      tree.root_eq_of_mem inside]
  rw [Selector.fromRoot, evalAt, up, pure_bind, ← List.singleton_append, follow_append, given, pure_bind]

/-- In any forest a path below the node in focus goes on from the nodes below it, in document order. -/
theorem evalAt_fromFocus {node : NodeId} (here : focus.node = some node) (steps : List Step) :
    evalAt forest context focus (Selector.fromFocus steps) =
      follow forest context steps (.nodeSet (NodeSet.inDocumentOrder forest (forest.subtree node))) := by
  have alone : (NodeSet.ofNodes forest [node]).nodes = [node] :=
    NodeSet.nodes_ofNodes (List.nodup_singleton node)
  have step (axis : Axis) (set : NodeSet) (lists : set.nodes = [node]) (steps : List Step) :
      follow forest context (.mk axis .node [] :: steps) (.nodeSet set) = follow forest context steps
        (.nodeSet (NodeSet.inDocumentOrder forest (forest.along axis node))) := by
    have all : candidates forest axis .node node = forest.along axis node :=
      List.filter_eq_self.mpr fun _ _ => rfl
    rw [follow, requireNodes, pure_bind, lists]
    simp only [collect, keptBy, all, pure_bind, List.append_nil]
  have stayed : (NodeSet.inDocumentOrder forest (forest.along .self node)).nodes = [node] :=
    List.perm_singleton.mp (NodeSet.perm_inDocumentOrder (List.nodup_singleton node))
  rw [Selector.fromFocus, evalAt, focusValue, here, Option.toList_some, step .self _ alone,
    Step.descendantOrSelf, step .descendantOrSelf _ stayed, Forest.along_descendantOrSelf]

/-- A path below the node in focus starts at the tree below that node. -/
theorem startsAtTree_fromFocus (tree : forest.IsTree document root) {node : NodeId}
    (inside : node ∈ forest.nodesOf document) (here : focus.node = some node) :
    StartsAtTree forest context focus node Selector.fromFocus := by
  rw [tree.nodesOf_eq] at inside
  have ordered := Forest.Ascending.of_ordered (tree.ordered_subtree inside)
  exact ⟨_, NodeSet.nodes_inDocumentOrder_of_ascending tree ordered (tree.subtree_subset inside),
    evalAt_fromFocus here⟩

def askingPath (from_ : List Step → Expr) (name function : String) : Expr :=
  from_ [.mk .child (.named name) [.call function [.focus]]]

/-- A path that asks about the elements of a name makes one request about each of them, parent by parent,
and gives those for which the answer counts as true. -/
theorem eval_asking {from_ : List Step → Expr} {handler : Handler σ} {function : String}
    (starts : StartsAtTree forest context.noting context.focus root from_)
    (held : context.handler = some handler)
    (unregistered : context.functions.contains function = false)
    (answers : handler.AlwaysAnswers forest function) (name : String) (state : σ) :
    let ask := Handler.requestAbout forest (context.document? forest) function
    let turns := handler.turns ask (forest.byParent name root) state
    ∃ set : NodeSet,
      (askingPath from_ name function).eval forest context.noting (state, []) =
        (.ok (.nodeSet set), (handler.stateAfterTurns ask (forest.byParent name root) state,
          (turns.map Prod.snd).reverse)) ∧
      ∀ id, id ∈ set.nodes ↔ id ∈ handler.confirmed forest turns := by
  intro ask turns
  rcases starts with ⟨whole, nodes, goesOn⟩
  have asked := context.follow_asking held unregistered answers name whole state []
  simp only [nodes, List.append_nil] at asked
  refine ⟨(NodeSet.inDocumentOrder forest (handler.confirmed forest turns)).decorate forest
    (context.document? forest), ?_, fun id => ?_⟩
  · rw [Expr.eval]
    change (evalAt forest context.noting context.focus (askingPath from_ name function) >>= _)
      (state, []) = _
    rw [bind_apply, askingPath, goesOn, asked]
    rfl
  · rw [NodeSet.nodes_decorate, NodeSet.mem_inDocumentOrder]

end

/-- The turns of a run that asks about the elements of a name: each element has one turn, and each turn is
a request about its element. -/
structure Handler.TurnsByName (forest : Forest) (document : DocumentId) (name function : String)
    (turns : List (NodeId × Request σ)) : Prop where
  once : (turns.map Prod.fst).Nodup
  about : ∀ turn ∈ turns, turn.2.IsAbout function turn.1
  reached : ∀ id, id ∈ turns.map Prod.fst ↔
    id ∈ forest.nodesOf document ∧ forest.isElement id = true ∧ forest.name? id = some name

theorem Forest.HasFreshDocument.turnsByName {forest : Forest} {document : DocumentId} {root : NodeId}
    (fresh : forest.HasFreshDocument document) (tree : forest.IsTree document root)
    (handler : Handler σ) (fallback : Option DocumentId) (name function : String) (state : σ) :
    Handler.TurnsByName forest document name function
      (handler.turns (Handler.requestAbout forest fallback function) (forest.byParent name root)
        state) where
  once := by
    rw [Handler.map_fst_turns]
    exact tree.nodup_byParent (Forest.mem_subtreeWithAttributes_self root) name
  about turn member := by
    rcases handler.exists_state_of_turns _ member with ⟨before, same⟩
    rw [same]
    exact Handler.requestAbout_isAbout forest fallback function turn.1 before
  reached id := by
    rw [Handler.map_fst_turns, fresh.mem_byParent_iff tree, Forest.isNamed, Bool.and_eq_true,
      beq_iff_eq]

namespace Expr

open Text.Reader

variable {name function : String}

/-- A step to the children of a name, with whatever predicates are read behind the name. -/
theorem step_named (named : IsQualifiedName name.toList) {sub : Text.Reader Expr}
    {behind rest : List Char} {predicates : List Expr} (ends : EndsName behind)
    (items : Items (Expr.predicate sub) behind predicates rest) :
    Reads (step sub) (name.toList ++ behind) (.mk .child (.named name) predicates) rest := by
  have given := axisAndTest_name named ends
  rw [String.ofList_toList] at given
  exact step_of_predicates (named.leaves rfl) given items

/-- The predicate that calls a function with the node in focus. -/
theorem predicate_asking (called : IsQualifiedName function.toList) (callable : function ∉ testWords)
    {limit : Nat} (enough : 2 ≤ limit) {rest : List Char} (closes : Closes rest) :
    Items (Expr.predicate (exprUpTo limit))
      ('[' :: (callChars function.toList ['.'] [] ++ ']' :: rest)) [.call function [.focus]] rest := by
  have call : Body 2 (callChars function.toList ['.'] []) (.call function [.focus]) :=
    (Operand.call called callable Operand.focus.body (List.forall_mem_nil _)).body
  have predicate := predicate_of_body (call.solid _) (call.reads limit enough _ (.bracket rest))
  refine .more (Reads.of_eq predicate) ?_ (.done ((Follows.closing closes).endsPath.predicate _))
  change _ < ('[' :: (callChars function.toList ['.'] [] ++ ']' :: rest)).length
  simp only [List.length_cons, List.length_append]
  omega

/-- A step behind two slashes. -/
theorem parse?_fromRoot {source : String} {only : Step}
    (solid : ∀ rest, Leaves isBlank (source.toList ++ rest))
    (reads : ∀ limit, 2 ≤ limit → ∀ rest, Closes rest →
      Reads (step (exprUpTo limit)) (source.toList ++ rest) only rest) :
    parse? ("//" ++ source) = some (Selector.fromRoot [only]) := by
  have spelled : ("//" ++ source).toList = '/' :: '/' :: source.toList := by simp
  have body : Body 3 ("//" ++ source).toList (Selector.fromRoot [only]) := by
    rw [spelled]
    refine Body.of_path ⟨'/', _, rfl, rfl, by decide⟩ fun limit enough rest closes => ?_
    exact path_of_slashes (solid rest)
      (steps_of_step (reads limit enough rest closes) (Follows.closing closes).endsPath)
  apply parse?_of_body body
  rw [spelled]
  simp only [List.length_cons]
  omega

/-- The path to the elements of a name anywhere in a document. -/
theorem parse?_named (named : IsQualifiedName name.toList) :
    parse? ("//" ++ name) = some (Selector.fromRoot [.mk .child (.named name) []]) := by
  apply parse?_fromRoot fun rest => named.solid
  intro limit enough rest closes
  have follows := Follows.closing closes
  exact step_named named follows.endsName (.done (follows.endsPath.predicate _))

/-- The path that asks about the elements of a name anywhere in a document. -/
theorem parse?_asking (named : IsQualifiedName name.toList) (called : IsQualifiedName function.toList)
    (callable : function ∉ testWords) :
    parse? ("//" ++ name ++ "[" ++ function ++ "(.)]") =
      some (askingPath Selector.fromRoot name function) := by
  have joined : "//" ++ name ++ "[" ++ function ++ "(.)]" =
      "//" ++ (name ++ "[" ++ function ++ "(.)]") := by
    simp only [String.append_assoc]
  have spelled (rest : List Char) : (name ++ "[" ++ function ++ "(.)]").toList ++ rest =
      name.toList ++ '[' :: (callChars function.toList ['.'] [] ++ ']' :: rest) := by
    simp [callChars]
  rw [joined]
  apply parse?_fromRoot
  · intro rest
    rw [spelled]
    exact named.solid
  · intro limit enough rest closes
    rw [spelled]
    exact step_named named (EndsName.of_head rfl rfl rfl)
      (predicate_asking called callable enough closes)

end Expr

namespace Query

/-- The path that calls a function of the handler about the elements of a name makes one request about
each such element of the document and no other request, whatever the handler answers; it gives exactly the
elements about which the answer counts as true. -/
theorem evaluate_asks_each {forest : Forest} {document : DocumentId}
    (fresh : forest.HasFreshDocument document) {name function : String}
    (named : Expr.IsQualifiedName name.toList) (called : Expr.IsQualifiedName function.toList)
    (callable : function ∉ Expr.testWords) {context : Context σ} {node : NodeId}
    (here : context.node = some node) (inside : node ∈ forest.nodesOf document)
    (unregistered : context.functions.contains function = false) {handler : Handler σ}
    (held : context.handler = some handler) (answers : handler.AlwaysAnswers forest function)
    (state : σ) :
    ∃ program, Program.compile ("//" ++ name ++ "[" ++ function ++ "(.)]") = .ok program ∧
      ∃ turns, program.requests forest context state = turns.map Prod.snd ∧
        Handler.TurnsByName forest document name function turns ∧
        ∃ set final, program.run forest context state = (.ok (.nodeSet set), final) ∧
          ∀ id, id ∈ set.nodes ↔
            ∃ turn ∈ turns, turn.1 = id ∧ turn.2.isConfirmed forest handler = true := by
  rcases fresh.isTree with ⟨root, tree⟩
  have starts : StartsAtTree forest context.noting context.focus root Selector.fromRoot :=
    startsAtTree_fromRoot tree inside here
  have byName := fresh.turnsByName tree handler (context.document? forest) name function state
  have outcome := eval_asking starts held unregistered answers name state
  dsimp only at outcome
  generalize handler.turns (Handler.requestAbout forest (context.document? forest) function)
    (forest.byParent name root) state = turns at byName outcome
  rcases outcome with ⟨set, outcome, members⟩
  generalize source : "//" ++ name ++ "[" ++ function ++ "(.)]" = text
  have read := Expr.parse?_asking named called callable
  rw [source] at read
  rw [← Program.run_eq_eval forest context.noting _ text] at outcome
  have compiled := Program.compile_of_parse read
  generalize (askingPath Selector.fromRoot name function).code = code at outcome compiled
  have plain := Program.noting_mirrors_run ⟨code, text⟩ forest context (state, [])
  rw [outcome] at plain
  refine ⟨⟨code, text⟩, compiled, turns, ?_, byName, set, _, (Prod.ext plain.1 plain.2).symm,
    fun id => ?_⟩
  · rw [Program.requests, outcome, List.reverse_reverse]
  · rw [members, Handler.confirmed, List.mem_map]
    simp only [List.mem_filter]
    constructor
    · rintro ⟨turn, ⟨member, yes⟩, same⟩
      exact ⟨turn, member, same, yes⟩
    · rintro ⟨turn, member, same, yes⟩
      exact ⟨turn, ⟨member, yes⟩, same⟩

/-- An element in an element of the same name, and another one behind both. -/
def stackedDraft : Draft :=
  .element "r" [] [.element "t" [] [.element "t" [] []], .element "t" [] []]

def stackedDocument : Forest × DocumentId :=
  let planted := (({} : Planting).plant stackedDraft).getD ({}, ⟨0⟩)
  planted.1.forest.openDocument planted.2

theorem stackedDocument_fresh : stackedDocument.1.HasFreshDocument stackedDocument.2 :=
  Forest.JustOpened.hasFreshDocument ⟨{}, _, stackedDraft, _, rfl, rfl, rfl⟩

/-- A handler that answers every request with the number of requests before it. -/
def tallyHandler : Handler Nat where
  respondsTo _ _ := true
  call _ _ count := (.ok (.integer (Int64.ofNat count)), count + 1)

theorem tallyHandler_alwaysAnswers (forest : Forest) (function : String) :
    tallyHandler.AlwaysAnswers forest function where
  available _ := rfl
  grants arguments count error refuses := by
    cases refuses with
    | failed answer => cases answer
    | unrepresentable answer noValue =>
        cases answer
        cases noValue

theorem evaluate_asks_each_stacked :
    let context : Context Nat := { node := some ⟨0⟩, handler := some tallyHandler }
    ∃ program, Program.compile ("//" ++ "t" ++ "[" ++ "f" ++ "(.)]") = .ok program ∧
      ∃ turns, program.requests stackedDocument.1 context 0 = turns.map Prod.snd ∧
        Handler.TurnsByName stackedDocument.1 stackedDocument.2 "t" "f" turns ∧
        ∃ set final, program.run stackedDocument.1 context 0 = (.ok (.nodeSet set), final) ∧
          ∀ id, id ∈ set.nodes ↔
            ∃ turn ∈ turns, turn.1 = id ∧ turn.2.isConfirmed stackedDocument.1 tallyHandler = true :=
  evaluate_asks_each stackedDocument_fresh (.simple (by decide)) (.simple (by decide)) (by decide) rfl
    (by decide +kernel) (by decide +kernel) rfl (tallyHandler_alwaysAnswers _ "f") 0

end Query

end NodeQuery
