import NodeQuery.Proofs.Expr.SideBySide
import NodeQuery.Proofs.Function.Position
import NodeQuery.Proofs.Handler.Asking
import NodeQuery.Proofs.Selector.CustomClass

/-!
# What the calls of a pseudo-class decide

A pseudo-class without a fixed meaning is one call about each element that may be selected.  Selecting
makes these calls and no others, parent by parent, and each gives what it gives by itself, since no core
function that is given an argument looks at the place of the node in focus.  The result of a call counts
by its truth, unless a registered function gives a number.  A number stands for a position, so that then
the place of the element among those of its name with the same parent decides.

This holds in any forest.  An element that several parents hold is asked about at each of them, and it is
selected if one of the calls selects it.  In a document of new nodes there is one call for each element.
-/

namespace NodeQuery

open NodeQuery.Expr Evaluation

variable {σ : Type} {forest : Forest} {context : Context σ} {document : DocumentId} {root : NodeId}

namespace Forest

/-- The elements of a name below a node, each with its place: the parents one after another in document
order, and the elements of the name among the children of each counted from one. -/
def spotsBelow (forest : Forest) (name : String) (top : NodeId) : List (NodeId × Nat) :=
  (NodeSet.inDocumentOrder forest (forest.subtree top)).nodes.flatMap fun parent =>
    ((forest.children parent).filter (forest.isNamed name)).zipIdx 1

theorem exists_mem_spotsBelow {name : String} {top id : NodeId} :
    (∃ place, (id, place) ∈ forest.spotsBelow name top) ↔
      id ∈ forest.descendants top ∧ forest.isNamed name id = true := by
  have listed (ids : List NodeId) : (∃ place, (id, place) ∈ ids.zipIdx 1) ↔ id ∈ ids := by
    rw [← List.zipIdx_map_fst 1 ids, List.mem_map, Prod.exists]
    simp only [exists_and_right, exists_eq_right]
    rw [List.zipIdx_map_fst]
  rw [mem_descendants_iff, ← exists_and_right]
  simp only [spotsBelow, List.mem_flatMap, NodeSet.mem_inDocumentOrder]
  rw [exists_comm]
  simp only [exists_and_left, listed, List.mem_filter, and_assoc]

/-- The place of an element among those of a name with the same parent; the first is at place one. -/
def placeAmong (forest : Forest) (name : String) (id : NodeId) : Nat :=
  ((((forest.parent? id).map forest.children).getD []).filter (forest.isNamed name)).idxOf id + 1

namespace IsTree

variable (tree : forest.IsTree document root)
include tree

theorem zipIdx_children {parent : NodeId} (inside : parent ∈ forest.subtreeWithAttributes root)
    (name : String) :
    ((forest.children parent).filter (forest.isNamed name)).zipIdx 1 =
      ((forest.children parent).filter (forest.isNamed name)).map fun id =>
        (id, forest.placeAmong name id) := by
  have distinct := (tree.children_nodup inside).filter (forest.isNamed name)
  apply List.ext_getElem
  · rw [List.length_map, List.length_zipIdx]
  · intro index _ below
    rw [List.length_map] at below
    have child := List.mem_of_mem_filter (List.getElem_mem below)
    have above := tree.parent?_of_held inside (List.mem_append_right _ child)
    rw [List.getElem_zipIdx, List.getElem_map, placeAmong, above, Option.map_some, Option.getD_some,
      distinct.idxOf_getElem, Nat.add_comm]

/-- In a tree every element has one place. -/
theorem spotsBelow_eq {top : NodeId} (placed : top ∈ forest.subtreeWithAttributes root) (name : String) :
    forest.spotsBelow name top =
      (forest.byParent name top).map fun id => (id, forest.placeAmong name id) := by
  have ordered := Ascending.of_ordered (tree.ordered_subtree placed)
  have within := tree.subtree_subset placed
  rw [spotsBelow, NodeSet.nodes_inDocumentOrder_of_ascending tree ordered within, byParent,
    List.map_flatMap]
  exact List.flatMap_congr fun parent below => tree.zipIdx_children (within parent below) name

end IsTree

end Forest

/-!
## One node after another

Selecting tests the result of each call before it makes the next one.  It comes to the same if all calls
are made first, since a test leaves the handler as it is.
-/

namespace Evaluation

/-- The value that was found at a node, and the place of the node. -/
structure Finding where
  id : NodeId
  place : Nat
  value : Value

/-- What is found at one node after another. -/
def each (find : NodeId → Evaluation σ Value) (spots : List (NodeId × Nat)) :
    Evaluation σ (List Finding) :=
  spots.mapM fun spot => do
    let value ← find spot.1
    pure ⟨spot.1, spot.2, value⟩

/-- The nodes whose values pass a test at their places. -/
def passing (passes : Value → Nat → Bool) (findings : List Finding) : List NodeId :=
  (findings.filter fun finding => passes finding.value finding.place).map Finding.id

variable {find : NodeId → Evaluation σ Value} {passes : Value → Nat → Bool}

theorem each_cons (spot : NodeId × Nat) (spots : List (NodeId × Nat)) :
    each find (spot :: spots) = (do
      let value ← find spot.1
      let findings ← each find spots
      pure (⟨spot.1, spot.2, value⟩ :: findings)) := by
  rw [each, List.mapM_cons, bind_assoc]
  simp only [pure_bind]
  rfl

theorem each_append (spots others : List (NodeId × Nat)) :
    each find (spots ++ others) = (do
      let first ← each find spots
      let second ← each find others
      pure (first ++ second)) := List.mapM_append

/-- Where every node has been asked about, there is one finding for each. -/
theorem map_spot_of_each {spots : List (NodeId × Nat)} {findings : List Finding} {state after : σ}
    (given : each find spots state = (.ok findings, after)) :
    findings.map (fun finding => (finding.id, finding.place)) = spots := by
  induction spots generalizing findings state with
  | nil =>
      cases given
      rfl
  | cons spot spots ih =>
      rw [each_cons, bind_apply] at given
      rcases found : find spot.1 state with ⟨_ | value, middle⟩
      · rw [found] at given
        cases given
      · rw [found] at given
        dsimp only at given
        rw [bind_apply] at given
        rcases others : each find spots middle with ⟨_ | later, last⟩
        · rw [others] at given
          cases given
        · rw [others] at given
          cases given
          rw [List.map_cons, ih others]

theorem mem_passing {findings : List Finding} {id : NodeId} :
    id ∈ passing passes findings ↔
      ∃ finding ∈ findings, finding.id = id ∧ passes finding.value finding.place = true := by
  rw [passing, List.mem_map]
  refine exists_congr fun finding => ?_
  rw [List.mem_filter, and_assoc]
  exact and_congr_right fun _ => and_comm

theorem passing_append (findings others : List Finding) :
    passing passes (findings ++ others) = passing passes findings ++ passing passes others := by
  rw [passing, List.filter_append, List.map_append, passing, passing]

/-- A test that finds a value at the node in focus and then looks at the position. -/
def TestsBy (find : NodeId → Evaluation σ Value) (passes : Value → Nat → Bool)
    (test : Focus → Evaluation σ Bool) : Prop :=
  ∀ id position last, test ⟨some id, position, last⟩ = do
    let value ← find id
    pure (passes value position)

section
variable {test : Focus → Evaluation σ Bool} (tests : TestsBy find passes test)
include tests

/-- Testing nodes at consecutive places is finding the values of all of them first. -/
theorem TestsBy.keepWhere_eq (ids : List NodeId) (last position : Nat) :
    keepWhere test last position ids = (do
      let findings ← each find (ids.zipIdx position)
      pure (passing passes findings)) := by
  induction ids generalizing position with
  | nil => rfl
  | cons id ids ih =>
      rw [keepWhere, tests, ih, List.zipIdx_cons, each_cons]
      simp only [bind_assoc, pure_bind]
      congr 1
      funext value
      congr 1
      funext findings
      rw [passing, passing, List.filter_cons]
      cases passes value position <;> rfl

/-- So is testing the nodes of several lists, each of which has places of its own. -/
theorem TestsBy.collect_eq (lists : NodeId → List NodeId) (ids : List NodeId) :
    collect (fun id => keepWhere test (lists id).length 1 (lists id)) ids = (do
      let findings ← each find (ids.flatMap fun id => (lists id).zipIdx 1)
      pure (passing passes findings)) := by
  induction ids with
  | nil => rfl
  | cons id ids ih =>
      rw [collect, tests.keepWhere_eq, ih, List.flatMap_cons, each_append]
      simp only [bind_assoc, pure_bind, passing_append]

end

end Evaluation

/-- Whether the result of a call keeps a node does not depend on decorations. -/
theorem Evaluation.keeps_decorate (context : Context σ) (function : Option String) (value : Value)
    (fallback : Option DocumentId) (position : Nat) :
    keeps context function (value.decorate forest fallback) position =
      keeps context function value position := by
  cases value with
  | nodeSet set =>
      simp only [keeps, Value.decorate, Value.toBoolean, NodeSet.isEmpty, NodeSet.nodes_decorate]
  | _ => rfl

/-- A core function that is given an argument takes only the node from the focus. -/
theorem Evaluation.call_congr_focus (core : context.functions = Registry.core) {focus other : Focus}
    (same : focus.node = other.node) (function : String) (argument : Value) (arguments : List Value) :
    call forest context focus function (argument :: arguments) =
      call forest context other function (argument :: arguments) := by
  rw [call, call, core, List.length_cons]
  rcases resolved : Registry.core.resolve function (arguments.length + 1) with unresolved | body
  · cases unresolved <;> rfl
  · dsimp only
    rw [Registry.ignoresPlace_of_resolve resolved forest ⟨focus, context.document? forest⟩
      ⟨other, context.document? forest⟩ argument arguments same rfl]

namespace Selector

theorem evalAt_argumentExpr_congr (focus other : Focus) (argument : PseudoArgument) :
    evalAt forest context focus (argumentExpr argument) =
      evalAt forest context other (argumentExpr argument) := by
  cases argument with
  | number text =>
      rw [argumentExpr]
      split
      · rw [evalAt, evalAt, amount, evalAt, evalAt]
      · rw [amount, evalAt, evalAt]
  | string quote content => rw [argumentExpr, evalAt, evalAt]

theorem evalAll_argumentExpr_congr (focus other : Focus) (arguments : List PseudoArgument) :
    evalAll forest context focus (arguments.map argumentExpr) =
      evalAll forest context other (arguments.map argumentExpr) := by
  induction arguments with
  | nil => rw [List.map_nil, evalAll, evalAll]
  | cons argument arguments ih =>
      rw [List.map_cons, evalAll, evalAll, ih, evalAt_argumentExpr_congr focus other]

/-- The call of a pseudo-class takes only the node from the focus. -/
theorem evalAt_callExpr_congr (core : context.functions = Registry.core) {focus other : Focus}
    (same : focus.node = other.node) (function : String) (arguments : List PseudoArgument) :
    evalAt forest context focus (callExpr function arguments) =
      evalAt forest context other (callExpr function arguments) := by
  have focused : focusValue forest focus = focusValue forest other := by
    rw [focusValue, focusValue, same]
  rw [callExpr, evalAt, evalAt, evalAll, evalAll, evalAt, evalAt, pure_bind, pure_bind, focused,
    evalAll_argumentExpr_congr focus other, bind_assoc, bind_assoc]
  simp only [pure_bind, Evaluation.call_congr_focus core same]

end Selector

namespace Query

open Selector (IsPlainName isCustom callExpr callPath)

/-- The call of a function about an element, as it is made while elements below a node are selected. -/
def callAbout (forest : Forest) (function : String) (arguments : List PseudoArgument) (node : NodeId)
    (handler : Option (Handler σ)) (id : NodeId) : Evaluation σ Value :=
  let context : Context σ := { node := some node, handler := handler }
  do
    let value ← evalAt forest context ⟨some id, 1, 1⟩ (callExpr function arguments)
    pure (value.decorate forest (context.document? forest))

/-- What the calls of a function give about the elements of a name below a node, one after another. -/
def callEach (forest : Forest) (name function : String) (arguments : List PseudoArgument)
    (node : NodeId) (handler : Option (Handler σ)) : Evaluation σ (List Finding) :=
  each (callAbout forest function arguments node handler) (forest.spotsBelow name node)

variable {name function : String} {arguments : List PseudoArgument}

/-- Inside a predicate the call gives what it gives without a place. -/
theorem testsBy_callAbout (forest : Forest) (function : String) (arguments : List PseudoArgument)
    (node : NodeId) (handler : Option (Handler σ)) :
    let context : Context σ := { node := some node, handler := handler }
    TestsBy (callAbout forest function arguments node handler) (keeps context (some function))
      ((callExpr function arguments).testAt forest context) := by
  intro context id position last
  have core : context.functions = Registry.core := rfl
  have same : (⟨some id, position, last⟩ : Focus).node = (⟨some id, 1, 1⟩ : Focus).node := rfl
  have moved : evalAt forest context ⟨some id, position, last⟩ (callExpr function arguments) =
      evalAt forest context ⟨some id, 1, 1⟩ (callExpr function arguments) :=
    Selector.evalAt_callExpr_congr core same function arguments
  rw [testAt, moved, callAbout, bind_assoc]
  simp only [pure_bind, keeps_decorate]
  rfl

/-- Selecting makes the calls first and decides about the elements by their results. -/
theorem select_eq_callEach (forest : Forest) (node : NodeId) (handler : Option (Handler σ))
    (callable : Selector.IsCallable function) (named : IsPlainName name)
    {given : Option (List PseudoArgument)} (custom : isCustom function given = true) {selector : String}
    (parsed : Selector.parse? selector =
      some [⟨⟨some (.named name), [.pseudoClass function given]⟩, []⟩]) :
    let context : Context σ := { node := some node, handler := handler }
    select forest selector node handler = (do
      let findings ← callEach forest name function (given.getD []) node handler
      let kept := passing (keeps context (some function)) findings
      pure ((NodeSet.inDocumentOrder forest kept).decorate forest (context.document? forest))) := by
  intro context
  rcases selectorPath_pseudoClass .focus named callable custom parsed with ⟨path, written, read⟩
  have here : context.focus.node = some node := rfl
  unfold select
  rw [written]
  dsimp only
  rw [evaluateAt_of_parse read, Expr.eval, evalAt_fromFocus here, follow, requireNodes, pure_bind]
  simp only [keptBy_single]
  rw [(testsBy_callAbout forest function (given.getD []) node handler).collect_eq]
  simp only [bind_assoc, pure_bind, follow]
  rfl

theorem parse?_callPath (callable : Selector.IsCallable function)
    (wellFormed : ∀ argument ∈ arguments, argument.WellFormed) :
    Expr.parse? (callPath function arguments) = some (callExpr function arguments) := by
  have isName := callable.isName.chars callable.unsigned
  exact Expr.parse?_of_body (Selector.writes_callPath isName callable.noTest wellFormed) (Nat.le_succ _)

/-- In a tree the call about an element is a query of its own, put at the element. -/
theorem callAbout_eq_evaluateAt (tree : forest.IsTree document root) {node id : NodeId}
    (inside : node ∈ forest.subtreeWithAttributes root) (within : id ∈ forest.subtreeWithAttributes root)
    (callable : Selector.IsCallable function)
    (wellFormed : ∀ argument ∈ arguments, argument.WellFormed) (handler : Option (Handler σ)) :
    callAbout forest function arguments node handler id =
      evaluateAt forest (callPath function arguments) (some id) handler := by
  let context : Context σ := { node := some node, handler := handler }
  let there : Context σ := { node := some id, handler := handler }
  have sameDocument : context.document? forest = there.document? forest :=
    (tree.document node inside).trans (tree.document id within).symm
  have alongside : context.Alongside forest there := ⟨rfl, rfl, sameDocument⟩
  have moved : evalAt forest context ⟨some id, 1, 1⟩ (callExpr function arguments) =
      evalAt forest there there.focus (callExpr function arguments) :=
    alongside.evalAt_eq rfl _ _
  rw [evaluateAt_of_parse (parse?_callPath callable wellFormed), Expr.eval, ← moved]
  change _ = (do
    let value ← evalAt forest context ⟨some id, 1, 1⟩ (callExpr function arguments)
    pure (value.decorate forest (there.document? forest)))
  rw [← sameDocument]
  rfl

/-- How the result of a call decides whether its element is selected.  It counts by its truth, but a
number that a registered function gives is held against the place of the element. -/
structure Decides (function : String) (finding : Finding) (selected : Prop) : Prop where
  byTruth : Registry.core.contains function = false ∨ finding.value.kind ≠ .number →
    (selected ↔ finding.value.toBoolean = true)
  byPlace : ∀ amount, finding.value = .number amount → Registry.core.contains function = true →
    amount ≠ Numeral.justBelowOne → finding.place < 2 ^ 64 →
      (selected ↔ (Float.ofNat finding.place == amount) = true)

/-- The elements that are kept are those that one of the calls about them selects. -/
def KeptBy (function : String) (findings : List Finding) (kept : List NodeId) : Prop :=
  ∃ selects : Finding → Prop, (∀ finding ∈ findings, Decides function finding (selects finding)) ∧
    ∀ id, id ∈ kept ↔ ∃ finding ∈ findings, finding.id = id ∧ selects finding

theorem keeps_eq_toBoolean (core : context.functions = Registry.core) {value : Value}
    (counts : Registry.core.contains function = false ∨ value.kind ≠ .number) (position : Nat) :
    keeps context (some function) value position = value.toBoolean := by
  cases value with
  | number amount =>
      have unregistered := counts.resolve_right (not_not_intro rfl)
      rw [← core] at unregistered
      exact Evaluation.keeps_unregistered unregistered [] (.number amount) position
  | _ => rfl

theorem keeps_eq_isCloseTo (core : context.functions = Registry.core)
    (registered : Registry.core.contains function = true) (amount : Float) (position : Nat) :
    keeps context (some function) (.number amount) position = Expr.isCloseTo amount position := by
  simp only [keeps, Option.any_some, core, registered, Bool.not_true, Bool.false_eq_true, if_false]
  rfl

/-- The test of predicates decides as the results of calls do, at any place there is. -/
theorem decides_keeps (context : Context σ) (core : context.functions = Registry.core)
    (function : String) {finding : Finding} (least : 0 < finding.place) :
    Decides function finding
      (keeps context (some function) finding.value finding.place = true) where
  byTruth counts := by rw [keeps_eq_toBoolean core counts]
  byPlace amount found registered apart few := by
    rw [found, keeps_eq_isCloseTo core registered, Expr.isCloseTo_eq apart least few]

/-- In a document of new nodes there is one call for each element, which is a query of its own there,
and the place of the element is the one among those of its name that have the same parent. -/
structure AskedOnce (forest : Forest) (name function : String) (arguments : List PseudoArgument)
    (node : NodeId) (handler : Option (Handler σ)) (findings : List Finding) : Prop where
  once : (findings.map Finding.id).Nodup
  places : ∀ finding ∈ findings, finding.place = forest.placeAmong name finding.id
  alone : ∀ finding ∈ findings, callAbout forest function arguments node handler finding.id =
    evaluateAt forest (callPath function arguments) (some finding.id) handler

/-- Selecting the elements of a name by a pseudo-class calls the function about each such element below
the node, parent by parent, with the arguments as they are written, and leaves the handler as these calls
leave it.  A call selects its element if the result counts as true, whoever provides the function and
wherever the element is, except that a number from a registered function selects the element whose place
it is. -/
theorem select_pseudoClass (forest : Forest) (node : NodeId) (named : IsPlainName name)
    (callable : Selector.IsCallable function) {given : Option (List PseudoArgument)}
    (custom : isCustom function given = true) {selector : String} (parsed : Selector.parse? selector =
      some [⟨⟨some (.named name), [.pseudoClass function given]⟩, []⟩])
    {handler : Option (Handler σ)} {findings : List Finding} {state after : σ}
    (succeed : callEach forest name function (given.getD []) node handler state =
      (.ok findings, after)) :
    findings.map (fun finding => (finding.id, finding.place)) = forest.spotsBelow name node ∧
    (∀ id, (∃ finding ∈ findings, finding.id = id) ↔
      id ∈ forest.descendants node ∧ forest.isElement id = true ∧ forest.name? id = some name) ∧
    ∃ set, select forest selector node handler state = (.ok set, after) ∧
      KeptBy function findings set.nodes ∧
      ∀ document, forest.HasFreshDocument document → node ∈ forest.nodesOf document →
        forest.Ascending set.nodes ∧
          AskedOnce forest name function (given.getD []) node handler findings := by
  let context : Context σ := { node := some node, handler := handler }
  have asked : findings.map (fun finding => (finding.id, finding.place)) = forest.spotsBelow name node :=
    map_spot_of_each succeed
  have about (id : NodeId) : (∃ finding ∈ findings, finding.id = id) ↔
      id ∈ forest.descendants node ∧ forest.isNamed name id = true := by
    rw [← Forest.exists_mem_spotsBelow, ← asked]
    simp only [List.mem_map, Prod.mk.injEq]
    constructor
    · rintro ⟨finding, member, rfl⟩
      exact ⟨finding.place, finding, member, rfl, rfl⟩
    · rintro ⟨_, finding, member, same, _⟩
      exact ⟨finding, member, same⟩
  have selected : select forest selector node handler state = _ :=
    congrFun (select_eq_callEach forest node handler callable named custom parsed) state
  rw [bind_apply, succeed] at selected
  refine ⟨asked, fun id => ?_, _, selected, ?_, fun document fresh inside => ?_⟩
  · rw [about, Forest.isNamed, Bool.and_eq_true, beq_iff_eq]
  · refine ⟨fun finding => keeps context (some function) finding.value finding.place = true,
      fun finding member => decides_keeps context rfl function ?_, fun id => ?_⟩
    · have spot : (finding.id, finding.place) ∈ forest.spotsBelow name node :=
        asked ▸ List.mem_map_of_mem member
      rcases List.mem_flatMap.mp spot with ⟨parent, _, listed⟩
      exact List.le_snd_of_mem_zipIdx listed
    · rw [NodeSet.nodes_decorate, NodeSet.mem_inDocumentOrder, mem_passing]
  · rcases fresh.isTree with ⟨root, tree⟩
    have alternative := (Selector.wellFormed_of_parse parsed).2 _ (List.mem_singleton_self _)
    have wellFormed := (alternative.first.conditions _ (List.mem_singleton_self _)).arguments
    rw [tree.nodesOf_eq] at inside
    rw [tree.spotsBelow_eq inside] at asked
    have below (finding : Finding) (member : finding ∈ findings) :
        finding.id ∈ forest.subtreeWithAttributes root :=
      tree.descendants_subset inside _ ((about finding.id).mp ⟨finding, member, rfl⟩).1
    refine ⟨?_, ?_, fun finding member => ?_, fun finding member => ?_⟩
    · rw [NodeSet.nodes_decorate]
      apply NodeSet.ascending_inDocumentOrder tree
      intro id member
      rcases mem_passing.mp member with ⟨finding, listed, rfl, _⟩
      exact below finding listed
    · have ids := congrArg (List.map Prod.fst) asked
      rw [List.map_map, List.map_map] at ids
      have same : findings.map Finding.id = (forest.byParent name node).map id := ids
      rw [same, List.map_id]
      exact tree.nodup_byParent inside name
    · have spot : (finding.id, finding.place) ∈ (forest.byParent name node).map fun id =>
          (id, forest.placeAmong name id) := asked ▸ List.mem_map_of_mem member
      rcases List.mem_map.mp spot with ⟨id, _, same⟩
      rw [← (Prod.mk.inj same).1, (Prod.mk.inj same).2]
    · exact callAbout_eq_evaluateAt tree inside (below finding member) callable wellFormed handler

/-- A call of a handler with two literals about each of the stacked elements. -/
theorem select_pseudoClass_stacked :
    let handler := some tallyHandler
    let arguments : List PseudoArgument := [.number "-1", .string '\'' "x"]
    Selector.parse? "t:f(-1, 'x')" =
      some [⟨⟨some (.named "t"), [.pseudoClass "f" (some arguments)]⟩, []⟩] ∧
    ∃ findings after,
      callEach stackedDocument.1 "t" "f" arguments ⟨4⟩ handler 0 = (.ok findings, after) ∧
      findings.map (fun finding => (finding.id, finding.place)) =
        stackedDocument.1.spotsBelow "t" ⟨4⟩ ∧
      (∀ id, (∃ finding ∈ findings, finding.id = id) ↔ id ∈ stackedDocument.1.descendants ⟨4⟩ ∧
        stackedDocument.1.isElement id = true ∧ stackedDocument.1.name? id = some "t") ∧
      ∃ set, select stackedDocument.1 "t:f(-1, 'x')" ⟨4⟩ handler 0 = (.ok set, after) ∧
        KeptBy "f" findings set.nodes ∧ stackedDocument.1.Ascending set.nodes ∧
        AskedOnce stackedDocument.1 "t" "f" arguments ⟨4⟩ handler findings := by
  intro handler arguments
  have parsed : Selector.parse? "t:f(-1, 'x')" =
      some [⟨⟨some (.named "t"), [.pseudoClass "f" (some arguments)]⟩, []⟩] := rfl
  have inside : (⟨4⟩ : NodeId) ∈ stackedDocument.1.nodesOf stackedDocument.2 := by decide +kernel
  have succeeds : (callEach stackedDocument.1 "t" "f" arguments ⟨4⟩ handler 0).1.isOk = true := by
    decide +kernel
  rcases answered : callEach stackedDocument.1 "t" "f" arguments ⟨4⟩ handler 0 with
    ⟨_ | findings, after⟩
  · rw [answered] at succeeds
    cases succeeds
  · rcases select_pseudoClass stackedDocument.1 ⟨4⟩ (by decide) (by decide) rfl parsed answered with
      ⟨spots, about, set, selected, kept, freshly⟩
    exact ⟨parsed, findings, after, rfl, spots, about, set, selected, kept,
      freshly _ stackedDocument_fresh inside⟩

def sharedDraft : Draft :=
  .element "r" [] [.element "p" [] [.labelled "x" (.element "t" [] [])],
    .element "p" [] [.reference "x"]]

def sharedDocument : Forest × DocumentId :=
  let planted := (({} : Planting).plant sharedDraft).getD ({}, ⟨0⟩)
  planted.1.forest.openDocument planted.2

set_option maxRecDepth 4096 in
/-- Each of the stacked elements is one node, which counts as true, but only those at the first place are
selected by the number of nodes.  The shared element is asked about twice, and it is selected although the
first answer counts as false.  A name that no call can have and an element name that begins with a minus
sign have no path that is read, and a function name that begins with a minus sign has the path of a call of
another function, whose result is negated. -/
theorem select_by_count :
    let counted : List Finding :=
      [(⟨1⟩, 1), (⟨2⟩, 2), (⟨0⟩, 1)].map fun spot => ⟨spot.1, spot.2, .number (Float.ofNat 1)⟩
    let tallied : List Finding :=
      [⟨⟨0⟩, 1, .number (Float.ofNat 0)⟩, ⟨⟨0⟩, 1, .number (Float.ofNat 1)⟩]
    callEach stackedDocument.1 "t" "count" [] ⟨4⟩ (none : Option (Handler Unit)) () =
      (.ok counted, ()) ∧
    (∀ finding ∈ counted, finding.value.toBoolean = true) ∧
    (∃ set, select stackedDocument.1 "t:count()" ⟨4⟩ (none : Option (Handler Unit)) () =
      (.ok set, ()) ∧ set.nodes = [⟨1⟩, ⟨0⟩]) ∧
    callEach sharedDocument.1 "t" "f" [] ⟨4⟩ (some tallyHandler) 0 = (.ok tallied, 2) ∧
    (∃ set, (select sharedDocument.1 "t:f()" ⟨4⟩ (some tallyHandler) 0).1 = .ok set ∧
      set.nodes = [⟨0⟩]) ∧
    select stackedDocument.1 "t:text()" ⟨4⟩ (some tallyHandler) 0 =
      (.error (.malformedExpression ".//t[text(.)]"), 0) ∧
    select stackedDocument.1 "-t:f()" ⟨4⟩ (some tallyHandler) 0 =
      (.error (.malformedExpression ".//-t[f(.)]"), 0) ∧
    ∃ path expr, selectorPath ".//" "t:-f()" = .ok path ∧ Expr.parse? path = some expr ∧
      expr.calls = [("f", [.focus])] := by
  have one : (Value.number (Float.ofNat 1)).toBoolean = true := by decide +kernel
  have first : (select stackedDocument.1 "t:count()" ⟨4⟩ (none : Option (Handler Unit))
      ()).1.toOption.map (·.nodes) = some [⟨1⟩, ⟨0⟩] := by decide +kernel
  rcases exists_of_nodes first with ⟨set, selected, nodes⟩
  refine ⟨by with_unfolding_all rfl, fun finding member => ?_, ⟨set, Prod.ext selected rfl, nodes⟩,
    by with_unfolding_all rfl, exists_of_nodes (by decide +kernel), rfl, rfl, _, _, rfl, rfl, rfl⟩
  rcases List.mem_map.mp member with ⟨spot, _, rfl⟩
  exact one

end Query

end NodeQuery
