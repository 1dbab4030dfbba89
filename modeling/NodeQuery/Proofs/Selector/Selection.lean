import NodeQuery.Proofs.Program.Compilation
import NodeQuery.Proofs.Selector.Path
import NodeQuery.Proofs.Selector.Walk

/-!
# What selecting finds

The expression for a standard selector leads from a node to the elements below it that the selector
matches.  The steps for a compound find the elements the compound holds for, the steps for a combinator
those it leads to, and alternatives are put together in document order.
-/

namespace NodeQuery

open NodeQuery.Expr Evaluation
open Forest (descendants_of_children descendants_trans mem_descendants_iff mem_subtree_of_descendants)

variable {σ : Type} {forest : Forest} {context : Context σ} {document : DocumentId} {root : NodeId}

/-- Translating all items of a list if each of them can be translated. -/
theorem exists_mapM {α β : Type} {related : β → α → Prop} {translate : α → Option β} {items : List α}
    (each : ∀ item ∈ items, ∃ given, translate item = some given ∧ related given item) :
    ∃ all, items.mapM translate = some all ∧ List.Forall₂ related all items := by
  induction items with
  | nil => exact ⟨[], rfl, .nil⟩
  | cons item items ih =>
      rcases each item List.mem_cons_self with ⟨first, translated, holds⟩
      rcases ih fun other member => each other (List.mem_cons_of_mem _ member) with
        ⟨others, translatedOthers, holdOthers⟩
      refine ⟨first :: others, ?_, .cons holds holdOthers⟩
      rw [List.mapM_cons, translated, translatedOthers]
      rfl

/-- The first sibling behind each of some elements. -/
theorem walks_firstSibling (tree : forest.IsTree document root) {scope : NodeId}
    (inside : scope ∈ forest.nodesOf document) {start : NodeId → Prop}
    (below : ∀ id, start id → id ∈ forest.descendants scope ∧ forest.isElement id = true) :
    Walks forest document context [.mk .followingSibling .anyName [Selector.countExpr 1]] start
      (fun next => ∃ id, start id ∧ next ∈ forest.descendants scope ∧
        Combinator.nextSibling.Leads forest id next) := by
  have placed := inside
  rw [tree.nodesOf_eq] at placed
  refine Walks.congr (walks_step tree start (fun id next =>
    (forest.elementsAlong .followingSibling id).head? = some next) ?_) ?_
  · intro id within started
    refine ⟨(forest.elementsAlong .followingSibling id).head?.toList, ?_, fun next => ?_⟩
    · rw [candidates_anyName rfl, keptBy_first]
    · rw [Option.mem_toList]
      refine ⟨fun head => ⟨?_, head⟩, And.right⟩
      exact List.mem_of_mem_filter (List.mem_of_mem_head? head)
  · intro next
    refine exists_congr fun id => and_congr_right fun started => ?_
    have under := (below id started).1
    rw [tree.leads_nextSibling_iff (tree.descendants_subset placed id under) (below id started).2]
    refine and_congr_left fun head => ?_
    have along : next ∈ forest.along .followingSibling id :=
      List.mem_of_mem_filter (List.mem_of_mem_head? head)
    exact iff_of_true along (tree.descendants_of_followingSiblings placed under along)

/-- An expression that gives the nodes of a document that something holds of. -/
def Selects (forest : Forest) (document : DocumentId) (context : Context σ) (focus : Focus)
    (expression : Expr) (holds : NodeId → Prop) : Prop :=
  ∃ reached : NodeSet, evalAt forest context focus expression = pure (.nodeSet reached) ∧
    reached.Lists forest document holds

section
variable {focus : Focus}

theorem Selects.congr {expression : Expr} {holds other : NodeId → Prop}
    (selects : Selects forest document context focus expression holds)
    (same : ∀ id, holds id ↔ other id) :
    Selects forest document context focus expression other := by
  have equal : holds = other := funext fun id => propext (same id)
  rw [← equal]
  exact selects

theorem Selects.union (tree : forest.IsTree document root) {left right : Expr}
    {first second : NodeId → Prop} (leftSelects : Selects forest document context focus left first)
    (rightSelects : Selects forest document context focus right second) :
    Selects forest document context focus (.union left right) (fun id => first id ∨ second id) := by
  rcases leftSelects with ⟨one, given, lists⟩
  rcases rightSelects with ⟨other, otherGiven, otherLists⟩
  refine ⟨NodeSet.inDocumentOrder forest (one.nodes ++ other.nodes), ?_, ?_⟩
  · rw [evalAt, given, pure_bind, otherGiven, pure_bind, unionOf, requireNodes, pure_bind,
      requireNodes, pure_bind]
  · apply lists_inDocumentOrder tree
    · intro id
      rw [List.mem_append, lists.members, otherLists.members]
    · rintro id (holds | holds)
      · exact lists.inside id holds
      · exact otherLists.inside id holds

theorem selects_foldl_union (tree : forest.IsTree document root) {selectors : List Selector}
    {matching : Selector → NodeId → Prop} {first : Expr} {holds : NodeId → Prop} {others : List Expr}
    (selects : Selects forest document context focus first holds)
    (all : List.Forall₂ (fun expression selector =>
      Selects forest document context focus expression (matching selector)) others selectors) :
    Selects forest document context focus (others.foldl .union first)
      (fun id => holds id ∨ ∃ selector ∈ selectors, matching selector id) := by
  induction all generalizing first holds with
  | nil => exact selects.congr fun id => by simp
  | @cons expression selector others selectors next later ih =>
      refine (ih (selects.union tree next)).congr fun id => ?_
      rw [List.exists_mem_cons_iff, or_assoc]

/-- A path from the node in focus selects what its steps lead to. -/
theorem selects_fromFocus {scope : NodeId} (inside : scope ∈ forest.nodesOf document)
    (here : focus.node = some scope) {steps : List Step} {finish : NodeId → Prop}
    (walks : Walks forest document context (.mk .self .node [] :: .descendantOrSelf :: steps) (· = scope)
      finish) : Selects forest document context focus (Selector.fromFocus steps) finish := by
  rcases walks _ (lists_ofNodes inside) with ⟨reached, given, lists⟩
  refine ⟨reached, ?_, lists⟩
  rw [Selector.fromFocus, evalAt, focusValue, here]
  exact given

end

/-- A whole expression that selects gives a node-set and leaves the state as it is. -/
theorem Selects.exists_eval {expression : Expr} {holds : NodeId → Prop}
    (selects : Selects forest document context context.focus expression holds) (state : σ) :
    ∃ set, expression.eval forest context state = (.ok (.nodeSet set), state) ∧
      set.Lists forest document holds := by
  rcases selects with ⟨reached, given, lists⟩
  refine ⟨reached.decorate forest (context.document? forest), ?_, ?_, lists.inside, ?_⟩
  · rw [Expr.eval, given]
    rfl
  · rw [NodeSet.nodes_decorate]
    exact lists.members
  · rw [NodeSet.nodes_decorate]
    exact lists.ascending

theorem accepts_nodeTest_iff {axis : Axis} (principal : axis.principalKind = .element)
    (element : Option ElementName) (id : NodeId) :
    (Selector.nodeTest (element.getD .any)).accepts forest axis id = true ↔
      forest.isElement id = true ∧ ∀ name ∈ element, name.Names forest id := by
  rcases element with _ | (_ | name)
  · simp [Selector.nodeTest, NodeTest.accepts, principal, Forest.isElement]
  · simp [Selector.nodeTest, NodeTest.accepts, principal, Forest.isElement, ElementName.Names]
  · simp [Selector.nodeTest, NodeTest.accepts, principal, Forest.isElement, ElementName.Names]

/-- The step for an element name and predicates that answer finds the elements along an axis that have
the name and that all predicates are true of. -/
theorem walks_compound (tree : forest.IsTree document root) {axis : Axis}
    (principal : axis.principalKind = .element) (element : Option ElementName) {predicates : List Expr}
    {conditions : List (NodeId → Prop)} (answers : List.Forall₂ (AnswersAt forest context fun id =>
      id ∈ forest.nodesOf document ∧ forest.isElement id = true) predicates conditions)
    (start : NodeId → Prop) :
    Walks forest document context [.mk axis (Selector.nodeTest (element.getD .any)) predicates] start
      (fun other => ∃ id, start id ∧ other ∈ forest.along axis id ∧ forest.isElement other = true ∧
        (∀ name ∈ element, name.Names forest other) ∧ ∀ holds ∈ conditions, holds other) := by
  apply walks_step tree
  intro id inside started
  have among : ∀ other ∈ candidates forest axis (Selector.nodeTest (element.getD .any)) id,
      other ∈ forest.nodesOf document ∧ forest.isElement other = true := by
    intro other member
    rcases List.mem_filter.mp member with ⟨along, accepted⟩
    rw [tree.nodesOf_eq] at inside ⊢
    exact ⟨tree.along_subset axis inside other along,
      ((accepts_nodeTest_iff principal element other).mp accepted).1⟩
  rcases exists_keptBy answers among with ⟨kept, given, members⟩
  refine ⟨kept, given, fun other => ?_⟩
  rw [members, candidates, List.mem_filter, accepts_nodeTest_iff principal]
  tauto

/-- What is below a node is a child of the node or of something below it. -/
theorem exists_above_iff {scope first : NodeId} {holds : Prop} :
    (∃ above, (∃ id, (∃ start, start = scope ∧ id ∈ forest.along .self start) ∧
      above ∈ forest.along .descendantOrSelf id) ∧ first ∈ forest.along .child above ∧ holds) ↔
    first ∈ forest.descendants scope ∧ holds := by
  simp only [Forest.along_descendantOrSelf]
  constructor
  · rintro ⟨above, ⟨id, ⟨_, rfl, here⟩, under⟩, member, holds⟩
    rw [List.mem_singleton.mp here] at under
    exact ⟨mem_descendants_iff.mpr ⟨above, under, member⟩, holds⟩
  · rintro ⟨below, holds⟩
    rcases mem_descendants_iff.mp below with ⟨above, under, member⟩
    exact ⟨above, ⟨scope, ⟨scope, rfl, List.mem_singleton_self scope⟩, under⟩, member, holds⟩

/-- A step to children, anywhere below a node. -/
theorem walks_below (tree : forest.IsTree document root) (scope : NodeId) {step : Step}
    {holds : NodeId → Prop}
    (walks : ∀ start, Walks forest document context [step] start fun other =>
      ∃ id, start id ∧ other ∈ forest.along .child id ∧ holds other) :
    Walks forest document context [.mk .self .node [], .descendantOrSelf, step] (· = scope)
      (fun first => first ∈ forest.descendants scope ∧ holds first) :=
  (((walks_along tree .self _).append (walks_along tree .descendantOrSelf _)).append
    (walks _)).congr fun _ => exists_above_iff

section
variable (tree : forest.IsTree document root) (once : forest.NamesOnce document)
variable (core : context.functions = Registry.core)
include tree once core

/-- The step for a standard compound finds the elements along an axis that the compound holds for. -/
theorem exists_compoundStep {compound : Compound} (wellFormed : compound.WellFormed)
    (standard : compound.isStandard = true) (fits : compound.Fits forest document) (axis : Axis)
    (principal : axis.principalKind = .element) :
    ∃ step, Selector.compoundStep? axis compound = some step ∧
      ∀ start, Walks forest document context [step] start (fun other =>
        ∃ id, start id ∧ other ∈ forest.along axis id ∧ compound.HoldsAt forest other) := by
  rw [Compound.isStandard, Bool.and_eq_true, List.all_eq_true] at standard
  rcases exists_mapM fun condition member => exists_conditionExpr tree once core
    (wellFormed.conditions condition member) (standard.2 condition member) (fits condition member) with
    ⟨predicates, translated, answers⟩
  have answering : List.Forall₂ (AnswersAt forest context fun id =>
      id ∈ forest.nodesOf document ∧ forest.isElement id = true) predicates
      (compound.conditions.map fun condition id => condition.HoldsAt forest id) :=
    List.forall₂_map_right_iff.mpr answers
  refine ⟨_, by rw [Selector.compoundStep?, translated, Option.map_some], fun start => ?_⟩
  refine (walks_compound tree principal compound.element answering start).congr fun other => ?_
  refine exists_congr fun id => and_congr_right fun started => and_congr_right fun along => ?_
  rw [List.forall_mem_map]
  constructor
  · rintro ⟨element, names, conditions⟩
    exact ⟨element, names, conditions⟩
  · intro holds
    exact ⟨holds.element, holds.names, holds.conditions⟩

section
variable {scope : NodeId} (inside : scope ∈ forest.nodesOf document)
variable {start : NodeId → Prop}
variable (below : ∀ id, start id → id ∈ forest.descendants scope ∧ forest.isElement id = true)
include inside below

/-- The steps for a combinator find the elements it leads to, as far as the next compound holds for
them. -/
theorem exists_linkSteps {compound : Compound} (wellFormed : compound.WellFormed)
    (standard : compound.isStandard = true) (fits : compound.Fits forest document)
    (combinator : Combinator) :
    ∃ steps, Selector.linkSteps? combinator compound = some steps ∧
      Walks forest document context steps start (fun next => ∃ id, start id ∧
        next ∈ forest.descendants scope ∧ combinator.Leads forest id next ∧
          compound.HoldsAt forest next) := by
  have above (id : NodeId) (started : start id) : id ∈ forest.subtree scope :=
    mem_subtree_of_descendants (below id started).1
  cases combinator with
  | descendant =>
      rcases exists_compoundStep tree once core wellFormed standard fits .child rfl with
        ⟨step, translated, walks⟩
      refine ⟨[.descendantOrSelf, step], by rw [Selector.linkSteps?, translated, Option.map_some], ?_⟩
      refine ((walks_along tree .descendantOrSelf start).append (walks _)).congr fun next => ?_
      simp only [Forest.along_descendantOrSelf]
      constructor
      · rintro ⟨middle, ⟨id, started, under⟩, member, holds⟩
        have leads : next ∈ forest.descendants id := mem_descendants_iff.mpr ⟨middle, under, member⟩
        exact ⟨id, started, descendants_trans (above id started) leads, leads, holds⟩
      · rintro ⟨id, started, _, leads, holds⟩
        rcases mem_descendants_iff.mp leads with ⟨middle, under, member⟩
        exact ⟨middle, ⟨id, started, under⟩, member, holds⟩
  | child =>
      rcases exists_compoundStep tree once core wellFormed standard fits .child rfl with
        ⟨step, translated, walks⟩
      refine ⟨[step], by rw [Selector.linkSteps?, translated, Option.map_some], ?_⟩
      refine (walks start).congr fun next => ?_
      constructor
      · rintro ⟨id, started, member, holds⟩
        exact ⟨id, started, descendants_of_children (above id started) member, member, holds⟩
      · rintro ⟨id, started, _, leads, holds⟩
        exact ⟨id, started, leads, holds⟩
  | nextSibling =>
      rcases exists_compoundStep tree once core wellFormed standard fits .self rfl with
        ⟨step, translated, walks⟩
      refine ⟨_, by rw [Selector.linkSteps?, translated, Option.map_some], ?_⟩
      refine ((walks_firstSibling tree inside below).append (walks _)).congr
        fun next => ?_
      constructor
      · rintro ⟨middle, ⟨id, started, under, leads⟩, member, holds⟩
        rw [List.mem_singleton.mp member] at holds ⊢
        exact ⟨id, started, under, leads, holds⟩
      · rintro ⟨id, started, under, leads, holds⟩
        exact ⟨next, ⟨id, started, under, leads⟩, List.mem_singleton_self next, holds⟩
  | laterSibling =>
      rcases exists_compoundStep tree once core wellFormed standard fits .followingSibling rfl
        with ⟨step, translated, walks⟩
      refine ⟨[step], by rw [Selector.linkSteps?, translated, Option.map_some], ?_⟩
      refine (walks start).congr fun next => ?_
      have placed := inside
      rw [tree.nodesOf_eq] at placed
      have leads (id : NodeId) (started : start id) :=
        tree.leads_laterSibling_iff (tree.descendants_subset placed id (below id started).1)
          (below id started).2 next
      constructor
      · rintro ⟨id, started, member, holds⟩
        have under := tree.descendants_of_followingSiblings placed (below id started).1 member
        have beside := List.mem_filter.mpr ⟨member, holds.element⟩
        exact ⟨id, started, under, (leads id started).mpr beside, holds⟩
      · rintro ⟨id, started, under, given, holds⟩
        have beside := (leads id started).mp given
        exact ⟨id, started, List.mem_of_mem_filter beside, holds⟩

end

/-- The steps behind the first compound lead where the rest of the chain leads. -/
theorem exists_otherSteps {scope : NodeId} (inside : scope ∈ forest.nodesOf document)
    {others : List (Combinator × Compound)} (wellFormed : ∀ link ∈ others, link.2.WellFormed)
    (standard : ∀ link ∈ others, link.2.isStandard = true)
    (fits : ∀ link ∈ others, link.2.Fits forest document) {start : NodeId → Prop}
    (below : ∀ id, start id → id ∈ forest.descendants scope ∧ forest.isElement id = true) :
    ∃ lists, others.mapM (fun link => Selector.linkSteps? link.1 link.2) = some lists ∧
      Walks forest document context lists.flatten start
        (fun last => ∃ first, start first ∧ Selector.LeadsTo forest scope others first last) := by
  induction others generalizing start with
  | nil =>
      refine ⟨[], rfl, (walks_nil start).congr fun last => ?_⟩
      simp [Selector.LeadsTo]
  | cons link others ih =>
      rcases link with ⟨combinator, compound⟩
      rcases List.forall_mem_cons.mp wellFormed with ⟨firstWellFormed, wellFormed⟩
      rcases List.forall_mem_cons.mp standard with ⟨firstStandard, standard⟩
      rcases List.forall_mem_cons.mp fits with ⟨firstFits, fits⟩
      rcases exists_linkSteps tree once core inside below firstWellFormed firstStandard firstFits combinator
        with ⟨steps, translated, walks⟩
      have belowNext (next : NodeId) (reached : ∃ id, start id ∧ next ∈ forest.descendants scope ∧
          combinator.Leads forest id next ∧ compound.HoldsAt forest next) :
          next ∈ forest.descendants scope ∧ forest.isElement next = true := by
        rcases reached with ⟨id, started, under, leads, holds⟩
        exact ⟨under, holds.element⟩
      rcases ih wellFormed standard fits belowNext with ⟨lists, translatedOthers, walksOthers⟩
      refine ⟨steps :: lists, ?_, ?_⟩
      · rw [List.mapM_cons, translated, translatedOthers]
        rfl
      · rw [List.flatten_cons]
        refine (walks.append walksOthers).congr fun last => ?_
        constructor
        · rintro ⟨next, ⟨id, started, under, leads, holds⟩, further⟩
          exact ⟨id, started, next, under, leads, holds, further⟩
        · rintro ⟨id, started, next, under, leads, holds, further⟩
          exact ⟨next, ⟨id, started, under, leads, holds⟩, further⟩

/-- The steps of a selector lead from a node to the elements the selector matches below it. -/
theorem exists_selectorSteps {scope : NodeId} (inside : scope ∈ forest.nodesOf document)
    {selector : Selector} (wellFormed : selector.WellFormed) (standard : selector.isStandard = true)
    (fits : selector.Fits forest document) :
    ∃ steps, Selector.steps? selector = some steps ∧
      Walks forest document context (.mk .self .node [] :: .descendantOrSelf :: steps) (· = scope)
        (selector.Matches forest scope ·) := by
  rw [Selector.isStandard, Bool.and_eq_true, List.all_eq_true] at standard
  rcases exists_compoundStep tree once core wellFormed.first standard.1 fits.first .child rfl with
    ⟨step, translated, walks⟩
  have toFirst : Walks forest document context [.mk .self .node [], .descendantOrSelf, step] (· = scope)
      (fun first => first ∈ forest.descendants scope ∧ selector.first.HoldsAt forest first) :=
    walks_below tree scope fun start => walks start
  have below (first : NodeId) (reached : first ∈ forest.descendants scope ∧
      selector.first.HoldsAt forest first) :
      first ∈ forest.descendants scope ∧ forest.isElement first = true :=
    ⟨reached.1, reached.2.element⟩
  rcases exists_otherSteps tree once core inside wellFormed.others standard.2 fits.others below with
    ⟨lists, translatedOthers, walksOthers⟩
  refine ⟨step :: lists.flatten, ?_, ?_⟩
  · rw [Selector.steps?, translated, translatedOthers]
    rfl
  · refine (toFirst.append walksOthers).congr fun last => ?_
    exact exists_congr fun first => and_assoc

theorem exists_selectorExpr {scope : NodeId} (inside : scope ∈ forest.nodesOf document)
    {focus : Focus} (here : focus.node = some scope) {selector : Selector}
    (wellFormed : selector.WellFormed) (standard : selector.isStandard = true)
    (fits : selector.Fits forest document) :
    ∃ steps, Selector.steps? selector = some steps ∧
      Selects forest document context focus (Selector.fromFocus steps)
        (selector.Matches forest scope ·) := by
  rcases exists_selectorSteps tree once core inside wellFormed standard fits with
    ⟨steps, translated, walks⟩
  exact ⟨steps, translated, selects_fromFocus inside here walks⟩

/-- The value of a group of paths. -/
theorem exists_groupExpr {scope : NodeId} (inside : scope ∈ forest.nodesOf document)
    {focus : Focus} (here : focus.node = some scope) {group : SelectorGroup} (filled : group ≠ [])
    (wellFormed : ∀ selector ∈ group, selector.WellFormed)
    (standard : group.all Selector.isStandard = true)
    (fits : ∀ selector ∈ group, selector.Fits forest document) :
    ∃ expr, Selector.groupExpr? Selector.fromFocus group = some expr ∧
      Selects forest document context focus expr
        (fun id => ∃ selector ∈ group, selector.Matches forest scope id) := by
  rw [List.all_eq_true] at standard
  rcases exists_mapM fun selector member => exists_selectorExpr tree once core inside here
    (wellFormed selector member) (standard selector member) (fits selector member) with
    ⟨lists, translated, selects⟩
  cases selects with
  | nil => exact absurd rfl filled
  | @cons steps selector others selectors first later =>
      refine ⟨_, by rw [Selector.groupExpr?, translated]; rfl, ?_⟩
      refine (selects_foldl_union tree first (List.forall₂_map_left_iff.mpr later)).congr fun id => ?_
      rw [List.exists_mem_cons_iff]

end

theorem Program.compile_of_parse {source : String} {expr : Expr}
    (read : Expr.parse? source = some expr) : compile source = .ok ⟨expr.code, source⟩ := by
  unfold compile
  rw [read]

namespace Query

theorem evaluate_of_parse {source : String} {expr : Expr} (read : Expr.parse? source = some expr)
    (context : Context σ) : evaluate forest source context = expr.eval forest context := by
  unfold evaluate
  rw [Program.compile_of_parse read]
  exact Program.run_eq_eval forest context expr source

theorem evaluateAt_of_parse {path : String} {expr : Expr} (read : Expr.parse? path = some expr)
    (node : Option NodeId) (handler : Option (Handler σ)) :
    evaluateAt forest path node handler = expr.eval forest { node := node, handler := handler } :=
  evaluate_of_parse read { node := node, handler := handler }

theorem evaluateAt_of_refused {path : String} (refused : Expr.parse? path = none)
    (node : Option NodeId) (handler : Option (Handler σ)) :
    evaluateAt forest path node handler = throw (.malformedExpression path) := by
  unfold evaluateAt evaluate Program.compile
  rw [refused]

theorem select_of_unwritten {selector : String} {error : Error}
    (unwritten : selectorPath ".//" selector = .error error) (node : NodeId)
    (handler : Option (Handler σ)) : select forest selector node handler = throw error := by
  unfold select
  rw [unwritten]

/-- Selecting fails if the path of the selector is no expression. -/
theorem select_of_refused {selector path : String} (written : selectorPath ".//" selector = .ok path)
    (refused : Expr.parse? path = none) (node : NodeId) (handler : Option (Handler σ)) :
    select forest selector node handler = throw (.malformedExpression path) := by
  unfold select
  rw [written]
  dsimp only
  rw [evaluateAt_of_refused refused]
  rfl

/-- Selecting evaluates what the path of the selector is read as. -/
theorem select_of_parse {selector path : String} {node : NodeId} {handler : Option (Handler σ)}
    {expr : Expr} (written : selectorPath ".//" selector = .ok path)
    (read : Expr.parse? path = some expr) {set : NodeSet} {state after : σ}
    (given : expr.eval forest { node := some node, handler := handler } state =
      (.ok (.nodeSet set), after)) :
    select forest selector node handler state = (.ok set, after) := by
  unfold select
  rw [written]
  dsimp only
  rw [evaluateAt_of_parse read, bind_apply, given]
  rfl

/-- Selecting gives, in document order, what the expression of the selector selects, and leaves the
state as it is. -/
theorem select_of_selects {selector : String} {group : SelectorGroup} {expr : Expr}
    (parsed : Selector.parse? selector = some group) (plain : group.all Selector.isPlain = true)
    (structured : Selector.groupExpr? Selector.fromFocus group = some expr) {node : NodeId}
    {handler : Option (Handler σ)} {holds : NodeId → Prop}
    (selects : Selects forest document { node := some node, handler := handler : Context σ }
      ({ node := some node, handler := handler } : Context σ).focus expr holds) (state : σ) :
    ∃ set, select forest selector node handler state = (.ok set, state) ∧
      forest.Ascending set.nodes ∧ ∀ id, id ∈ set.nodes ↔ holds id := by
  rcases selects.exists_eval state with ⟨set, given, lists⟩
  rcases selectorPath_of_groupExpr .focus parsed plain structured with ⟨path, written, read⟩
  exact ⟨set, select_of_parse written read given, lists.ascending, lists.members⟩

/-- Selecting with a selector of standard parts gives, in document order, the elements that some
alternative matches with its whole chain of elements below the node.  A document has to fit only
conditions on the ending of a value and on places beyond `2 ^ 53`. -/
theorem select_matches (fresh : forest.HasFreshDocument document) (once : forest.NamesOnce document)
    {node : NodeId} (inside : node ∈ forest.nodesOf document) {selector : String} {group : SelectorGroup}
    (parsed : Selector.parse? selector = some group) (standard : group.all Selector.isStandard = true)
    (fits : ∀ alternative ∈ group, alternative.Fits forest document) (handler : Option (Handler σ))
    (state : σ) :
    ∃ set, select forest selector node handler state = (.ok set, state) ∧
      forest.Ascending set.nodes ∧
        ∀ id, id ∈ set.nodes ↔ ∃ alternative ∈ group, alternative.Matches forest node id := by
  rcases fresh.isTree with ⟨root, tree⟩
  rcases Selector.wellFormed_of_parse parsed with ⟨filled, wellFormed⟩
  let context : Context σ := { node := some node, handler := handler }
  have selects : ∃ expr, Selector.groupExpr? Selector.fromFocus group = some expr ∧
      Selects forest document context context.focus expr
        (fun id => ∃ alternative ∈ group, alternative.Matches forest node id) :=
    exists_groupExpr tree once rfl inside rfl filled wellFormed standard fits
  rcases selects with ⟨expr, structured, selects⟩
  exact select_of_selects parsed (Selector.isPlain_of_isStandard standard) structured selects state

/-- A list of three items with a text between the first two. -/
def listDraft : Draft :=
  .element "ul" [.attribute "class" "main nav"]
    [.element "li" [.attribute "id" "one", .attribute "lang" "en"] [], .text "and",
      .element "li" [.attribute "lang" "en-GB"] [], .element "li" [] []]

def listDocument : Forest × DocumentId :=
  let planted := (({} : Planting).plant listDraft).getD ({}, ⟨0⟩)
  planted.1.forest.openDocument planted.2

theorem fresh_listDocument : listDocument.1.HasFreshDocument listDocument.2 :=
  Forest.JustOpened.hasFreshDocument ⟨{}, _, listDraft, _, rfl, rfl, rfl⟩

theorem exists_of_nodes {result : Except Error NodeSet} {nodes : List NodeId}
    (given : result.toOption.map (·.nodes) = some nodes) : ∃ set, result = .ok set ∧ set.nodes = nodes := by
  rcases result with error | set
  · cases given
  · exact ⟨set, rfl, Option.some.inj given⟩

/-- Items by their language and their neighbour, or by their place and by what they lack. -/
def itemSelector : String := "ul > li + li[lang|=en][lang$=GB], .nav li:not([id]):nth-last-child(1)"

def itemGroup : SelectorGroup :=
  [⟨⟨some (.named "ul"), []⟩, [(.child, ⟨some (.named "li"), []⟩),
      (.nextSibling, ⟨some (.named "li"), [.attribute "lang" (some (.dashed, "en")),
        .attribute "lang" (some (.ending, "GB"))]⟩)]⟩,
    ⟨⟨none, [.class_ "nav"]⟩, [(.descendant, ⟨some (.named "li"), [.negation (.attribute "id" none),
      .pseudoClass "nth-last-child" (some [.number "1"])]⟩)]⟩]

theorem select_matches_items :
    Selector.parse? itemSelector = some itemGroup ∧ itemGroup.all Selector.isStandard = true ∧
    ∃ set, select listDocument.1 itemSelector ⟨9⟩ (none : Option (Handler Unit)) () = (.ok set, ()) ∧
      listDocument.1.Ascending set.nodes ∧ ∀ id, id ∈ set.nodes ↔
        ∃ alternative ∈ itemGroup, alternative.Matches listDocument.1 ⟨9⟩ id := by
  have parsed : Selector.parse? itemSelector = some itemGroup := rfl
  have standard : itemGroup.all Selector.isStandard = true := rfl
  have once : listDocument.1.NamesOnce listDocument.2 := by
    unfold Forest.NamesOnce
    decide +kernel
  have short : ∀ id ∈ listDocument.1.nodesOf listDocument.2, ∀ held ∈ listDocument.1.attributes id,
      (listDocument.1.stringValue held).toList.length ≤ 2 ^ 52 := by decide +kernel
  have near : Structural.of? "nth-last-child" (some [.number "1"]) = some (.nthLastChild 1) := rfl
  have fits : ∀ alternative ∈ itemGroup, alternative.Fits listDocument.1 listDocument.2 := by
    intro alternative member
    simp only [itemGroup, List.mem_cons, List.not_mem_nil, or_false] at member
    rcases member with rfl | rfl
    · refine ⟨by simp [Compound.Fits], ?_⟩
      simpa [Compound.Fits, Condition.Fits] using short
    · refine ⟨by simp [Compound.Fits, Condition.Fits], ?_⟩
      simp [Compound.Fits, Condition.Fits, near, Structural.count]
  have inside : (⟨9⟩ : NodeId) ∈ listDocument.1.nodesOf listDocument.2 := by decide +kernel
  exact ⟨parsed, standard, select_matches fresh_listDocument once inside parsed standard fits none ()⟩

end Query

end NodeQuery
