import NodeQuery.Proofs.Function.Core
import NodeQuery.Proofs.Program.Watching

/-!
# Node-sets of a run are in document order

Every instruction leaves the stack sorted if it finds it sorted: whatever makes a node-set puts it in
order at once, and whatever takes one apart stays inside the document.  A run is nothing but such
instructions, those of nested predicates among them, so all the stacks it goes through are sorted,
and with them the arguments that handlers are given.
-/

namespace NodeQuery

variable {σ α β : Type} {forest : Forest} {document : DocumentId} {inv : σ → Prop}

/-- A context for queries to one document: it starts at a node of the document or at none, its
variables are scalars or sorted node-sets, it has the core functions, and its handler returns nodes
of the document only. -/
structure Context.StaysIn (context : Context σ) (forest : Forest) (document : DocumentId)
    (inv : σ → Prop) : Prop where
  node : ∀ id, context.node = some id → id ∈ forest.nodesOf document
  bindings : ∀ name value, (name, value) ∈ context.bindings → value.SortedIn forest document
  functions : context.functions = Registry.core
  handler : ∀ handler, context.handler = some handler → handler.StaysIn forest document inv

namespace Evaluation

abbrev Inside (forest : Forest) (document : DocumentId) (ids : List NodeId) : Prop :=
  ∀ id ∈ ids, id ∈ forest.nodesOf document

theorem variableValue_sorted {context : Context σ} (stays : context.StaysIn forest document inv)
    (name : String) :
    Keeps inv (·.SortedIn forest document) (variableValue context name) := by
  rw [variableValue, Context.binding?]
  cases found : context.bindings.lookup name with
  | none => exact Keeps.throw _
  | some value =>
      apply Keeps.pure
      rcases List.lookup_eq_some_iff.mp found with ⟨before, after, split, _⟩
      apply stays.bindings name
      rw [split]
      exact List.mem_append_right _ List.mem_cons_self

theorem requireNodes_inside {value : Value} (sorted : value.SortedIn forest document)
    (place : NodeSetPlace) : Keeps inv (Inside forest document) (requireNodes place value) := by
  cases value with
  | nodeSet set => exact Keeps.pure sorted.1
  | boolean truth => exact Keeps.throw _
  | number amount => exact Keeps.throw _
  | string text => exact Keeps.throw _

theorem keepWhere_inside {test : Focus → Evaluation σ Bool}
    (keeps : ∀ focus, (∀ id, focus.node = some id → id ∈ forest.nodesOf document) →
      Keeps inv (fun _ => True) (test focus)) (last position : Nat) {ids : List NodeId}
    (inside : Inside forest document ids) :
    Keeps inv (Inside forest document) (keepWhere test last position ids) := by
  induction ids generalizing position with
  | nil => exact Keeps.pure inside
  | cons id ids ih =>
      have here := inside id List.mem_cons_self
      rw [keepWhere]
      apply Keeps.bind (keeps _ _)
      · intro kept _
        apply (ih (position + 1) fun other member => inside other (List.mem_cons_of_mem _ member)).bind
        intro others othersInside
        apply Keeps.pure
        split
        · intro other member
          rcases List.mem_cons.mp member with same | later
          · rw [same]
            exact here
          · exact othersInside other later
        · exact othersInside
      · intro other same
        rw [← Option.some.inj same]
        exact here

theorem collect_inside {find : NodeId → Evaluation σ (List NodeId)} {ids : List NodeId}
    (keeps : ∀ id ∈ ids, Keeps inv (Inside forest document) (find id)) :
    Keeps inv (Inside forest document) (collect find ids) := by
  induction ids with
  | nil => exact Keeps.pure fun _ member => absurd member List.not_mem_nil
  | cons id ids ih =>
      rw [collect]
      apply (keeps id List.mem_cons_self).bind
      intro found foundInside
      apply (ih fun other member => keeps other (List.mem_cons_of_mem _ member)).bind
      intro others othersInside
      apply Keeps.pure
      intro other member
      rcases List.mem_append.mp member with here | later
      · exact foundInside other here
      · exact othersInside other later

section
variable {root : NodeId} (tree : forest.IsTree document root)
include tree

theorem candidates_inside (axis : Axis) (test : NodeTest) {id : NodeId}
    (inside : id ∈ forest.nodesOf document) :
    Inside forest document (candidates forest axis test id) := by
  intro other member
  rw [tree.nodesOf_eq] at inside ⊢
  exact tree.along_subset axis inside other (List.mem_filter.mp member).1

theorem invoke_sorted {handler : Option (Handler σ)}
    (stays : ∀ held, handler = some held → held.StaysIn forest document inv) (function : String)
    {arguments : List Value} (sorted : ∀ argument ∈ arguments, argument.SortedIn forest document)
    (fallback : Option DocumentId) :
    Keeps inv (·.SortedIn forest document)
      (Handler.invoke forest handler function arguments fallback) := by
  intro state kept
  cases handler with
  | none => exact ⟨kept, fun _ impossible => by cases impossible⟩
  | some handler =>
      have staysIn := stays handler rfl
      -- The handler is given decorated values; they are as sorted as the others.
      have decorated : ∀ value ∈ arguments.map (Value.decorate forest fallback),
          value.SortedIn forest document := by
        intro value member
        rcases List.mem_map.mp member with ⟨argument, listed, rfl⟩
        exact (sorted argument listed).decorate fallback
      have after := staysIn.keeps function _ state kept decorated
      have returned := staysIn.returns function _ state kept decorated
      rw [List.map_map] at after returned
      rw [Handler.invoke_some]
      split
      · refine ⟨after, ?_⟩
        intro value given
        dsimp only at given
        split at given
        · cases given
        · rename_i answer answered
          exact Handler.result_sorted tree (returned answer answered) given
      · exact ⟨kept, fun _ impossible => by cases impossible⟩

/-- All nodes of the document have its document node as their root. -/
theorem rootsOf_sorted {value : Value} (sorted : value.SortedIn forest document) :
    Keeps inv (·.SortedIn forest document) (rootsOf forest value) := by
  rw [rootsOf]
  apply (requireNodes_inside sorted .root).bind
  intro nodes inside
  apply Keeps.pure
  have single : ∀ id ∈ (NodeSet.ofNodes forest (nodes.map forest.root)).nodes, id = root := by
    intro id member
    rcases List.mem_map.mp (mem_distinct.mp member) with ⟨other, listed, rfl⟩
    have below := inside other listed
    rw [tree.nodesOf_eq] at below
    exact tree.root_eq_of_mem below
  refine ⟨?_, nodup_distinct _, ?_⟩
  · intro id member
    rw [single id member, tree.nodesOf_eq]
    exact Forest.mem_subtreeWithAttributes_self root
  · apply (nodup_distinct (nodes.map forest.root)).imp_of_mem
    intro first second firstListed secondListed apart
    exact absurd ((single first firstListed).trans (single second secondListed).symm) apart

/-- The document at hand is the one that the context stays in. -/
theorem document_eq_of_staysIn {context : Context σ} (stays : context.StaysIn forest document inv)
    {other : DocumentId} (held : context.document? forest = some other) : other = document := by
  rw [Context.document?] at held
  cases started : context.node with
  | none => rw [started] at held; cases held
  | some id =>
      have inside := stays.node id started
      rw [tree.nodesOf_eq] at inside
      rw [started, Option.bind_some, tree.document id inside] at held
      exact (Option.some.inj held).symm

theorem call_sorted {context : Context σ} (stays : context.StaysIn forest document inv) {focus : Focus}
    (focusInside : ∀ id, focus.node = some id → id ∈ forest.nodesOf document) (function : String)
    {arguments : List Value} (sorted : ∀ argument ∈ arguments, argument.SortedIn forest document) :
    Keeps inv (·.SortedIn forest document) (call forest context focus function arguments) := by
  rw [call, stays.functions]
  split
  · rename_i body resolved
    split
    · rename_i value given
      apply Keeps.pure
      exact Registry.core_sorted tree resolved focusInside
        (fun _ held => document_eq_of_staysIn tree stays held) given
    · exact Keeps.throw _
  · exact Keeps.throw _
  · exact Keeps.throw _
  · exact invoke_sorted tree stays.handler function sorted _

end

end Evaluation

namespace Program

open Evaluation

/-!
## Instructions

A run is its instructions one after another, so one lemma for an instruction is all that runs need.
-/

def Stack.SortedIn (stack : Stack) (forest : Forest) (document : DocumentId) : Prop :=
  ∀ value ∈ stack, value.SortedIn forest document

theorem Stack.SortedIn.push {stack : Stack} (sorted : stack.SortedIn forest document) {value : Value}
    (upper : value.SortedIn forest document) :
    Stack.SortedIn (value :: stack) forest document := by
  intro other member
  rcases List.mem_cons.mp member with same | below
  · rw [same]
    exact upper
  · exact sorted other below

theorem pop_sorted {stack : Stack} (sorted : stack.SortedIn forest document) :
    Keeps inv (fun popped : Value × Stack => popped.1.SortedIn forest document ∧
      popped.2.SortedIn forest document) (pop stack) := by
  cases stack with
  | nil => exact Keeps.throw _
  | cons value rest =>
      apply Keeps.pure
      exact ⟨sorted value List.mem_cons_self, fun other member =>
        sorted other (List.mem_cons_of_mem _ member)⟩

theorem popArguments_sorted {stack : Stack} (sorted : stack.SortedIn forest document) (count : Nat) :
    Keeps inv (fun popped : List Value × Stack =>
      (∀ argument ∈ popped.1, argument.SortedIn forest document) ∧
        popped.2.SortedIn forest document) (popArguments count stack) := by
  rw [popArguments]
  split
  · exact Keeps.throw _
  · apply Keeps.pure
    constructor
    · intro argument member
      exact sorted argument (List.mem_of_mem_take (List.mem_reverse.mp member))
    · intro value member
      exact sorted value (List.mem_of_mem_drop member)

section
variable {root : NodeId} (tree : forest.IsTree document root) {context : Context σ}
variable (stays : context.StaysIn forest document inv)
include tree stays

/-- An instruction leaves a sorted stack sorted, as long as its predicates keep to the nodes they are
given. -/
theorem execute_sorted {focus : Focus}
    (focusInside : ∀ id, focus.node = some id → id ∈ forest.nodesOf document)
    {kept : List NodeId → Evaluation σ (List NodeId)}
    (keptInside : ∀ nodes, Inside forest document nodes →
      Keeps inv (Inside forest document) (kept nodes))
    (instr : Instr) {stack : Stack} (sorted : stack.SortedIn forest document) :
    Keeps inv (fun reached : Nat × Stack => reached.2.SortedIn forest document)
      (execute forest context focus kept instr stack) := by
  cases instr with
  | number amount => exact Keeps.pure (sorted.push trivial)
  | string text => exact Keeps.pure (sorted.push trivial)
  | focus => exact Keeps.pure (sorted.push (Value.sortedIn_single focusInside))
  | jumpIfFalse skip => exact Keeps.pure sorted
  | jumpIfTrue skip => exact Keeps.pure sorted
  | var name =>
      exact (variableValue_sorted stays name).bind fun _ found => Keeps.pure (sorted.push found)
  | pop => exact (pop_sorted sorted).bind fun _ popped => Keeps.pure popped.2
  | negate => exact (pop_sorted sorted).bind fun _ popped => Keeps.pure (popped.2.push trivial)
  | toBoolean => exact (pop_sorted sorted).bind fun _ popped => Keeps.pure (popped.2.push trivial)
  | arithmetic operator =>
      apply (pop_sorted sorted).bind
      intro right popped
      exact (pop_sorted popped.2).bind fun _ rest => Keeps.pure (rest.2.push trivial)
  | comparison operator =>
      apply (pop_sorted sorted).bind
      intro right popped
      exact (pop_sorted popped.2).bind fun _ rest => Keeps.pure (rest.2.push trivial)
  | root =>
      apply (pop_sorted sorted).bind
      intro top popped
      exact (rootsOf_sorted tree popped.1).bind fun _ roots => Keeps.pure (popped.2.push roots)
  | step axis test predicates =>
      apply (pop_sorted sorted).bind
      intro top popped
      apply (requireNodes_inside popped.1 .step).bind
      intro nodes inside
      apply Keeps.bind (collect_inside fun id member =>
        keptInside _ (candidates_inside tree axis test (inside id member)))
      intro found foundInside
      exact Keeps.pure (popped.2.push (tree.sortedIn_inDocumentOrder foundInside))
  | filter predicates =>
      apply (pop_sorted sorted).bind
      intro top popped
      apply (requireNodes_inside popped.1 .predicate).bind
      intro nodes inside
      apply (keptInside nodes inside).bind
      intro found foundInside
      exact Keeps.pure (popped.2.push (tree.sortedIn_inDocumentOrder foundInside))
  | union =>
      apply (pop_sorted sorted).bind
      intro right popped
      apply (requireNodes_inside popped.1 .union).bind
      intro second secondInside
      apply (pop_sorted popped.2).bind
      intro left rest
      apply (requireNodes_inside rest.1 .union).bind
      intro first firstInside
      apply Keeps.pure
      apply rest.2.push
      apply tree.sortedIn_inDocumentOrder
      intro id member
      rcases List.mem_append.mp member with here | there
      · exact firstInside id here
      · exact secondInside id there
  | call function count =>
      apply (popArguments_sorted sorted count).bind
      intro arguments popped
      apply (call_sorted tree stays focusInside function popped.1).bind
      intro value given
      exact Keeps.pure (popped.2.push given)

section
variable {watch : Moment → Evaluation σ Unit}
variable (watched : ∀ moment, moment.stack.SortedIn forest document →
  Keeps inv (fun _ => True) (watch moment))
include watched

set_option linter.unusedSectionVars false in
mutual

/-- A run from a sorted stack shows the watcher sorted stacks only and gives a sorted value. -/
theorem watchFrom_sorted {focus : Focus}
    (focusInside : ∀ id, focus.node = some id → id ∈ forest.nodesOf document) (code : List Instr)
    (skip : Nat) {stack : Stack} (sorted : stack.SortedIn forest document) :
    Keeps inv (·.SortedIn forest document) (watchFrom watch forest context focus code skip stack) := by
  cases code with
  | nil =>
      rw [watchFrom]
      apply (watched ⟨focus, [], skip, stack⟩ sorted).bind
      intro _ _
      exact (pop_sorted sorted).bind fun _ popped => Keeps.pure popped.1
  | cons instr code =>
      cases skip with
      | succ skip =>
          rw [watchFrom]
          exact watchFrom_sorted focusInside code skip sorted
      | zero =>
          rw [watchFrom]
          apply (watched ⟨focus, instr :: code, 0, stack⟩ sorted).bind
          intro _ _
          apply (execute_sorted tree stays focusInside
            (fun _ inside => watchKept_inside instr inside) instr sorted).bind
          intro reached reachedSorted
          exact watchFrom_sorted focusInside code reached.1 reachedSorted

theorem watchKept_inside (instr : Instr) {nodes : List NodeId}
    (inside : Inside forest document nodes) :
    Keeps inv (Inside forest document) (watchKept watch forest context instr nodes) := by
  cases instr with
  | step axis test predicates =>
      rw [watchKept]
      exact watchSurvivors_inside predicates inside
  | filter predicates =>
      rw [watchKept]
      exact watchSurvivors_inside predicates inside
  | _ => exact Keeps.pure inside

theorem watchSurvivors_inside (predicates : List Predicate) {nodes : List NodeId}
    (inside : Inside forest document nodes) :
    Keeps inv (Inside forest document) (watchSurvivors watch forest context predicates nodes) := by
  match predicates with
  | [] =>
      rw [watchSurvivors]
      exact Keeps.pure inside
  | .mk code calledFunction :: predicates =>
      rw [watchSurvivors]
      apply Keeps.bind
      · apply keepWhere_inside _ _ _ inside
        intro focus focusInside
        exact (watchFrom_sorted focusInside code 0 fun _ member => absurd member List.not_mem_nil).bind
          fun _ _ => Keeps.pure trivial
      · exact fun kept keptInside => watchSurvivors_inside predicates keptInside

end

end

end

end Program

theorem Handler.StaysIn.beside {handler : Handler σ} (stays : handler.StaysIn forest document inv)
    (extra : α → Prop) :
    (handler.beside α).StaysIn forest document fun state => inv state.1 ∧ extra state.2 where
  keeps name values state kept sorted := ⟨stays.keeps name values state.1 kept.1 sorted, kept.2⟩
  returns name values state kept sorted := stays.returns name values state.1 kept.1 sorted

theorem Handler.StaysIn.recording {handler : Handler σ} (stays : handler.StaysIn forest document inv) :
    handler.recording.StaysIn forest document fun state => inv state.1 ∧
      ∀ call ∈ state.2, ∀ set, HostValue.nodeSet set ∈ call.2 → forest.Ascending set.nodes where
  keeps name values state kept sorted := by
    refine ⟨stays.keeps name values state.1 kept.1 sorted, ?_⟩
    intro call member set given
    rcases List.mem_cons.mp member with same | before
    · rw [same] at given
      rcases List.mem_map.mp given with ⟨value, listed, equal⟩
      cases value with
      | nodeSet found =>
          cases equal
          exact (sorted _ listed).2
      | boolean truth => cases equal
      | number amount => cases equal
      | string text => cases equal
    · exact kept.2 call before set given
  returns name values state kept sorted := stays.returns name values state.1 kept.1 sorted

/-- A context stays in a document with any handler that does. -/
theorem Context.StaysIn.withHandler {context : Context σ} (stays : context.StaysIn forest document inv)
    {wide : α → Prop} {wrap : Handler σ → Handler α}
    (wrapped : ∀ handler : Handler σ, handler.StaysIn forest document inv →
      (wrap handler).StaysIn forest document wide) :
    (context.withHandler (context.handler.map wrap)).StaysIn forest document wide where
  node := stays.node
  bindings := stays.bindings
  functions := stays.functions
  handler held equal := by
    rcases Option.map_eq_some_iff.mp equal with ⟨handler, found, rfl⟩
    exact wrapped handler (stays.handler handler found)

namespace Program

open Evaluation

section
variable {root : NodeId} (tree : forest.IsTree document root) {context : Context σ}
variable (stays : context.StaysIn forest document inv) (program : Program)
include tree stays

theorem trace_sorted :
    Keeps (fun reached : σ × List Moment => inv reached.1 ∧
      ∀ moment ∈ reached.2, moment.stack.SortedIn forest document)
      (·.SortedIn forest document) (program.trace forest context) := by
  have staysBeside := stays.withHandler fun _ handlerStays => handlerStays.beside
    fun moments : List Moment => ∀ moment ∈ moments, moment.stack.SortedIn forest document
  apply Keeps.bind
  · apply watchFrom_sorted tree staysBeside _ stays.node program.code 0
      (fun _ member => absurd member List.not_mem_nil)
    intro moment sorted reached kept
    refine ⟨⟨kept.1, ?_⟩, fun _ _ => trivial⟩
    intro other member
    rcases List.mem_cons.mp member with same | before
    · rw [same]
      exact sorted
    · exact kept.2 other before
  · exact fun value sorted => Keeps.pure (sorted.decorate _)

theorem run_sorted : Keeps inv (·.SortedIn forest document) (program.run forest context) := by
  apply Keeps.bind
  · rw [← watchFrom_silent]
    exact watchFrom_sorted tree stays (fun _ _ => Keeps.pure trivial) stays.node program.code 0
      fun _ member => absurd member List.not_mem_nil
  · exact fun value sorted => Keeps.pure (sorted.decorate _)

theorem recording_sorted :
    Keeps (fun reached : σ × List Handler.Call => inv reached.1 ∧
      ∀ call ∈ reached.2, ∀ set, HostValue.nodeSet set ∈ call.2 → forest.Ascending set.nodes)
      (·.SortedIn forest document) (program.run forest context.recording) :=
  run_sorted tree (stays.withHandler fun _ handlerStays => handlerStays.recording) program

end

/-- Whatever program is run on a document of fresh nodes, its result, every node-set on a stack it
goes through, at the top or inside predicates, and every node-set given to its handler is strictly
ascending in document order. -/
theorem nodeSets_ascending (fresh : forest.HasFreshDocument document) {context : Context σ}
    (stays : context.StaysIn forest document inv) {state : σ} (start : inv state)
    (program : Program) :
    (∀ set, (program.run forest context state).1 = .ok (.nodeSet set) →
      forest.Ascending set.nodes) ∧
    (∀ moment ∈ (program.trace forest context (state, [])).2.2, ∀ set,
      Value.nodeSet set ∈ moment.stack → forest.Ascending set.nodes) ∧
    (∀ call ∈ (program.run forest context.recording (state, [])).2.2, ∀ set,
      HostValue.nodeSet set ∈ call.2 → forest.Ascending set.nodes) := by
  rcases fresh.isTree with ⟨root, tree⟩
  rcases trace_sorted tree stays program (state, [])
    ⟨start, fun _ member => absurd member List.not_mem_nil⟩ with ⟨⟨_, moments⟩, result⟩
  rcases recording_sorted tree stays program (state, [])
    ⟨start, fun _ member => absurd member List.not_mem_nil⟩ with ⟨⟨_, calls⟩, _⟩
  refine ⟨?_, ?_, calls⟩
  · intro set given
    rw [← (program.trace_mirrors_run forest context (state, [])).1] at given
    exact (result _ given).2
  · intro moment member set listed
    exact (moments moment member _ listed).2

end Program

/-- The element `r` with an attribute and with two elements around a text. -/
def pairDraft : Draft :=
  .element "r" [.attribute "id" "top"] [.element "a" [] [], .text "t", .element "b" [] []]

def pairDocument : Forest × DocumentId :=
  let planted := (({} : Planting).plant pairDraft).getD ({}, ⟨0⟩)
  planted.1.forest.openDocument planted.2

theorem pairDocument_fresh : pairDocument.1.HasFreshDocument pairDocument.2 := by
  refine Forest.JustOpened.hasFreshDocument ?_
  exact ⟨{}, _, pairDraft, _, rfl, rfl, rfl⟩

/-- A handler that answers every call with the nodes of its arguments, the last one first, and counts
its calls. -/
def reversingHandler : Handler Nat where
  respondsTo _ _ := true
  call _ arguments count := (.ok (.ofNodes (HostValue.nodesOfAll arguments).reverse), count + 1)

theorem HostValue.nodesOfAll_eq (items : List HostValue) :
    nodesOfAll items = items.flatMap nodes := by
  induction items with
  | nil => rfl
  | cons item items ih => rw [nodesOfAll, ih, List.flatMap_cons]

theorem reversingHandler_staysIn (forest : Forest) (document : DocumentId) :
    reversingHandler.StaysIn forest document fun _ => True where
  keeps _ _ _ _ _ := trivial
  returns name values state _ sorted := by
    intro returned given id member
    cases given
    rw [HostValue.ofNodes, HostValue.nodes, HostValue.nodesOfAll_eq] at member
    rcases List.mem_flatMap.mp member with ⟨item, listed, inside⟩
    rcases List.mem_map.mp listed with ⟨other, reversed, rfl⟩
    rw [HostValue.nodes, List.mem_singleton] at inside
    subst inside
    rw [List.mem_reverse, HostValue.nodesOfAll_eq] at reversed
    rcases List.mem_flatMap.mp reversed with ⟨argument, given, inside⟩
    rcases List.mem_map.mp given with ⟨value, held, rfl⟩
    cases value with
    | nodeSet set => exact (sorted _ held).1 id inside
    | boolean truth => cases inside
    | number amount => cases inside
    | string text => cases inside

/-- A query from the document node of the pair, with the document node in a variable. -/
def pairContext : Context Nat :=
  let top := pairDocument.1.documentRoot? pairDocument.2
  { node := top
    bindings := [("top", .nodeSet (NodeSet.ofNodes pairDocument.1 top.toList))]
    handler := some reversingHandler }

theorem pairContext_staysIn :
    pairContext.StaysIn pairDocument.1 pairDocument.2 fun _ => True where
  node _ found := Forest.root_mem_nodesOf found
  bindings name value bound := by
    cases List.mem_singleton.mp bound
    exact Value.sortedIn_single fun _ found => Forest.root_mem_nodesOf found
  functions := rfl
  handler handler held := by
    cases held
    exact reversingHandler_staysIn _ _

/-- Everything below the document node, turned around, together with the document node. -/
def turnedAround : Program :=
  ⟨(Expr.union (.call "turn" [.rootPath [Step.descendantOrSelf, .mk .child .node []]])
    (.var "top")).code, ""⟩

theorem nodeSets_ascending_turnedAround :
    (∀ set, (turnedAround.run pairDocument.1 pairContext 0).1 = .ok (.nodeSet set) →
      pairDocument.1.Ascending set.nodes) ∧
    (∀ moment ∈ (turnedAround.trace pairDocument.1 pairContext (0, [])).2.2, ∀ set,
      Value.nodeSet set ∈ moment.stack → pairDocument.1.Ascending set.nodes) ∧
    (∀ call ∈ (turnedAround.run pairDocument.1 pairContext.recording (0, [])).2.2, ∀ set,
      HostValue.nodeSet set ∈ call.2 → pairDocument.1.Ascending set.nodes) :=
  Program.nodeSets_ascending pairDocument_fresh pairContext_staysIn trivial turnedAround

end NodeQuery
