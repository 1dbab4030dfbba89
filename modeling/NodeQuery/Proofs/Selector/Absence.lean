import NodeQuery.Proofs.Selector.Reading
import NodeQuery.Proofs.Selector.Selection

/-!
# Attributes that are missing

A condition that compares the value of an attribute is false of an element without the attribute, except
that four of the six comparisons take a missing attribute for an empty one and are true of it where the
value in the selector is empty.  This is followed along whole selectors, whatever else they ask for: a
selector finds nothing that the selector is not matched by which asks for the attributes alone.
-/

namespace NodeQuery

open NodeQuery.Expr Evaluation
open Forest (descendants_of_children descendants_trans mem_descendants_iff mem_subtree_of_descendants)

variable {σ : Type} {forest : Forest} {context : Context σ}

/-- Whether a way of comparing takes a missing attribute for an empty one. -/
def AttributeMatch.overlooks : AttributeMatch → Bool
  | .exact | .dashed => false
  | .word | .start | .ending | .inside => true

/-- Without the attribute a comparison is true only if it overlooks that and compares with the empty
text. -/
theorem answers_missing (core : context.functions = Registry.core) {id : NodeId} {name : String}
    (missing : candidates forest .attribute (.named name) id = []) {focus : Focus}
    (here : focus.node = some id) (relation : AttributeMatch) (value : String) :
    Answers forest context focus
      (Selector.attributeMatchExpr (Selector.attributeExpr name) relation value)
      (relation.overlooks = true ∧ value = "") := by
  have given : evalAt forest context focus (Selector.attributeExpr name) =
      pure (.nodeSet (NodeSet.inDocumentOrder forest (none : Option NodeId).toList)) := by
    rw [Selector.attributeExpr, evalAt_step forest context here, missing]
    rfl
  have empty : value = "" ↔ value.toList = [] := by rw [← String.toList_inj, String.toList_empty]
  have short : ∀ found ∈ (none : Option NodeId), (forest.stringValue found).toList.length ≤ 2 ^ 52 :=
    fun _ impossible => by cases impossible
  cases relation with
  | exact => exact (answers_equal given value).congr (by simp [AttributeMatch.overlooks])
  | word =>
      refine (answers_wordExpr core given value).congr ?_
      rw [toText_inDocumentOrder_toList, empty, Text.HasRun]
      simp [Forest.textOf, Text.words, Text.wordsAfter, List.splitOn_ne_nil, AttributeMatch.overlooks]
  | start =>
      refine (answers_startsWith given core value).congr ?_
      rw [empty]
      simp [Forest.textOf, AttributeMatch.overlooks]
  | ending =>
      by_cases filled : value.toList = []
      · -- Nothing is cut from an empty text, wherever the arithmetic has the cut begin.
        have literal : evalAt forest context focus (.string value) = pure (.string value) := by rw [evalAt]
        have one : evalAt forest context focus (Selector.countExpr 1) =
            pure (.number (Numeral.Decimal.toFloat ⟨1, 0⟩)) := by rw [Selector.countExpr, evalAt]
        have difference := evalAt_arithmetic .sub (evalAt_stringLength core given)
          (evalAt_stringLength core literal)
        have start := evalAt_arithmetic .add difference one
        apply answers_boolean (evalAt_comparison .eq (evalAt_substring core given start) literal)
        rw [holds_texts, String.toList_ofList, toText_inDocumentOrder_toList, filled, empty]
        exact iff_of_true rfl ⟨rfl, filled⟩
      · refine (answers_endsWith given core short filled).congr ?_
        rw [empty]
        simp [Forest.textOf, AttributeMatch.overlooks]
  | inside =>
      refine (answers_contains given core value).congr ?_
      rw [empty]
      simp [Forest.textOf, AttributeMatch.overlooks]
  | dashed =>
      have either := Answers.connective .or (answers_equal given value)
        (answers_startsWith given core (value ++ "-"))
      exact either.congr (by simp [Forest.textOf, AttributeMatch.overlooks])

/-- The condition that an attribute is there, for a condition on its value that no missing attribute
meets. -/
def Condition.presence? : Condition → Option Condition
  | .attribute name (some (relation, value)) =>
    if relation.overlooks && value == "" then none else some (.attribute name none)
  | _ => none

/-- The compound that asks for an element name and for attributes alone. -/
def Compound.presence (compound : Compound) : Compound :=
  ⟨compound.element, compound.conditions.filterMap Condition.presence?⟩

def Selector.presence (selector : Selector) : Selector :=
  ⟨selector.first.presence, selector.others.map fun link => (link.1, link.2.presence)⟩

/-!
## Runs that succeed

A run may fail for reasons of its own.  What is said here is said of the values of those that do not.
-/

/-- A predicate that keeps no node, wherever it stands in a list, unless something holds of it. -/
def Demands (forest : Forest) (context : Context σ) (predicate : Expr) (holds : NodeId → Prop) : Prop :=
  ∀ (focus : Focus) (id : NodeId), focus.node = some id → Keeps (fun _ => True)
    (fun value => keeps context predicate.calledFunction? value focus.position = true → holds id)
    (evalAt forest context focus predicate)

theorem demands_trivial (predicate : Expr) {holds : NodeId → Prop} (all : ∀ id, holds id) :
    Demands forest context predicate holds :=
  fun _ id _ => (Keeps.any _).mono fun _ _ _ => all id

/-- An answer that is never given without something demands it. -/
theorem keeps_of_answers {focus : Focus} {predicate : Expr} {truth holds : Prop}
    (answers : Answers forest context focus predicate truth) (implies : truth → holds) :
    Keeps (fun _ => True)
      (fun value => keeps context predicate.calledFunction? value focus.position = true → holds)
      (evalAt forest context focus predicate) := by
  rcases answers with ⟨value, given, kind, same⟩
  rw [given]
  refine Keeps.pure fun kept => implies (same.mp ?_)
  cases value with
  | number amount => exact absurd rfl (kind amount)
  | boolean truth => exact kept
  | string text => exact kept
  | nodeSet set => exact kept

theorem keeps_keepWhere {test : Focus → Evaluation σ Bool} {holds : NodeId → Prop} {last : Nat}
    (each : ∀ (focus : Focus) (id : NodeId), focus.node = some id →
      Keeps (fun _ => True) (fun truth => truth = true → holds id) (test focus))
    (nodes : List NodeId) (position : Nat) :
    Keeps (fun _ => True) (fun kept => ∀ id ∈ kept, id ∈ nodes ∧ holds id)
      (keepWhere test last position nodes) := by
  induction nodes generalizing position with
  | nil => exact Keeps.pure (List.forall_mem_nil _)
  | cons id ids ih =>
      refine (each ⟨some id, position, last⟩ id rfl).bind fun truth implies =>
        (ih (position + 1)).bind fun others all => Keeps.pure ?_
      have later : ∀ other ∈ others, other ∈ id :: ids ∧ holds other := fun other member =>
        ⟨List.mem_cons_of_mem id (all other member).1, (all other member).2⟩
      cases truth with
      | false => exact later
      | true => exact List.forall_mem_cons.mpr ⟨⟨List.mem_cons_self, implies rfl⟩, later⟩

/-- What several predicates keep meets all their demands. -/
theorem keeps_keptBy {predicates : List Expr} {demands : List (NodeId → Prop)}
    (all : List.Forall₂ (Demands forest context) predicates demands) (nodes : List NodeId) :
    Keeps (fun _ => True) (fun kept => ∀ id ∈ kept, id ∈ nodes ∧ ∀ holds ∈ demands, holds id)
      (keptBy forest context predicates nodes) := by
  induction all generalizing nodes with
  | nil =>
      rw [keptBy]
      exact Keeps.pure fun id member => ⟨member, List.forall_mem_nil _⟩
  | @cons predicate holds predicates demands first others ih =>
      rw [keptBy]
      have each : ∀ (focus : Focus) (id : NodeId), focus.node = some id → Keeps (fun _ => True)
          (fun truth => truth = true → holds id) (do
            let value ← evalAt forest context focus predicate
            pure (keeps context predicate.calledFunction? value focus.position)) :=
        fun focus id here => (first focus id here).bind fun value implies => Keeps.pure implies
      refine (keeps_keepWhere each nodes 1).bind fun kept keptAll =>
        (ih kept).mono fun left leftAll id member => ?_
      rcases leftAll id member with ⟨inside, met⟩
      exact ⟨(keptAll id inside).1, List.forall_mem_cons.mpr ⟨(keptAll id inside).2, met⟩⟩

theorem keeps_collect {find : NodeId → Evaluation σ (List NodeId)} {finds : NodeId → NodeId → Prop}
    (each : ∀ id, Keeps (fun _ => True) (fun found => ∀ other ∈ found, finds id other) (find id))
    (ids : List NodeId) :
    Keeps (fun _ => True) (fun found => ∀ other ∈ found, ∃ id ∈ ids, finds id other)
      (collect find ids) := by
  induction ids with
  | nil => exact Keeps.pure (List.forall_mem_nil _)
  | cons id ids ih =>
      refine (each id).bind fun first firstAll => ih.bind fun others othersAll => Keeps.pure ?_
      intro other member
      rw [List.exists_mem_cons_iff]
      rcases List.mem_append.mp member with found | later
      · exact Or.inl (firstAll other found)
      · exact Or.inr (othersAll other later)

/-- Whenever steps from nodes that one thing holds of lead anywhere, they lead to nodes that another
thing holds of. -/
def Confines (forest : Forest) (context : Context σ) (steps : List Step)
    (start finish : NodeId → Prop) : Prop :=
  ∀ set : NodeSet, (∀ id ∈ set.nodes, start id) → Keeps (fun _ => True)
    (fun value => ∃ reached : NodeSet, value = .nodeSet reached ∧ ∀ id ∈ reached.nodes, finish id)
    (follow forest context steps (.nodeSet set))

theorem Confines.append {steps others : List Step} {start middle finish : NodeId → Prop}
    (first : Confines forest context steps start middle)
    (second : Confines forest context others middle finish) :
    Confines forest context (steps ++ others) start finish := by
  intro set all
  rw [follow_append]
  refine (first set all).bind fun value reached => ?_
  rcases reached with ⟨between, rfl, betweenAll⟩
  exact second between betweenAll

theorem Confines.mono {steps : List Step} {start finish weaker : NodeId → Prop}
    (confines : Confines forest context steps start finish) (implies : ∀ id, finish id → weaker id) :
    Confines forest context steps start weaker := by
  intro set all
  refine (confines set all).mono fun value reached => ?_
  rcases reached with ⟨last, same, lastAll⟩
  exact ⟨last, same, fun id member => implies id (lastAll id member)⟩

theorem confines_nil (start : NodeId → Prop) : Confines forest context [] start start := by
  intro set all
  rw [follow]
  exact Keeps.pure ⟨set, rfl, all⟩

/-- One step, by what its predicates keep of the nodes along its axis. -/
theorem confines_step {axis : Axis} {test : NodeTest} {predicates : List Expr} (start : NodeId → Prop)
    {finds : NodeId → NodeId → Prop}
    (each : ∀ id, Keeps (fun _ => True) (fun kept => ∀ other ∈ kept, finds id other)
      (keptBy forest context predicates (candidates forest axis test id))) :
    Confines forest context [.mk axis test predicates] start
      (fun other => ∃ id, start id ∧ finds id other) := by
  intro set all
  rw [follow, requireNodes, pure_bind]
  refine (keeps_collect each set.nodes).bind fun found foundAll => ?_
  rw [follow]
  refine Keeps.pure ⟨_, rfl, fun other member => ?_⟩
  rcases foundAll other (NodeSet.mem_inDocumentOrder.mp member) with ⟨id, inside, finds⟩
  exact ⟨id, all id inside, finds⟩

theorem confines_along (axis : Axis) (start : NodeId → Prop) :
    Confines forest context [.mk axis .node []] start
      (fun other => ∃ id, start id ∧ other ∈ forest.along axis id) := by
  refine confines_step start fun id => ?_
  rw [keptBy]
  exact Keeps.pure fun other member => List.mem_of_mem_filter member

theorem confines_firstSibling (start : NodeId → Prop) :
    Confines forest context [.mk .followingSibling .anyName [Selector.countExpr 1]] start
      (fun next => ∃ id, start id ∧ (forest.elementsAlong .followingSibling id).head? = some next) := by
  refine confines_step start fun id => ?_
  rw [candidates_anyName rfl, keptBy_first]
  exact Keeps.pure fun other member => Option.mem_toList.mp member

theorem demands_condition (core : context.functions = Registry.core) {condition : Condition}
    {predicate : Expr} (read : Selector.readExpr? condition = some predicate) :
    Demands forest context predicate fun id =>
      ∀ other, condition.presence? = some other → other.HoldsAt forest id := by
  cases condition with
  | «attribute» name test =>
      cases test with
      | none => exact demands_trivial _ fun _ _ impossible => by cases impossible
      | some comparison =>
          rcases comparison with ⟨relation, value⟩
          cases read
          intro focus id here
          by_cases missing : candidates forest .attribute (.named name) id = []
          · refine keeps_of_answers (answers_missing core missing here relation value) ?_
            rintro ⟨overlooks, rfl⟩ other asked
            rw [Condition.presence?, overlooks] at asked
            cases asked
          · refine (Keeps.any _).mono fun _ _ _ other asked => ?_
            rcases List.exists_mem_of_ne_nil _ missing with ⟨held, member⟩
            rw [candidates, List.mem_filter] at member
            rw [Condition.presence?] at asked
            split at asked
            · cases asked
            · cases asked
              refine ⟨held, member.1, ?_, trivial⟩
              simpa [NodeTest.accepts] using (Bool.and_eq_true_iff.mp member.2).2
  | _ => exact demands_trivial _ fun _ _ impossible => by cases impossible

section
variable (core : context.functions = Registry.core)
include core

/-- The step for a compound leads to elements that have its attributes. -/
theorem confines_compound {axis : Axis} (principal : axis.principalKind = .element)
    {compound : Compound} {step : Step}
    (read : Selector.compoundStepBy? Selector.readExpr? axis compound = some step)
    (start : NodeId → Prop) :
    Confines forest context [step] start (fun next => ∃ id, start id ∧ next ∈ forest.along axis id ∧
      compound.presence.HoldsAt forest next) := by
  rcases Option.map_eq_some_iff.mp read with ⟨predicates, translated, rfl⟩
  let demand (condition : Condition) (id : NodeId) : Prop :=
    ∀ other, condition.presence? = some other → other.HoldsAt forest id
  have demands : List.Forall₂ (Demands forest context) predicates (compound.conditions.map demand) :=
    List.forall₂_map_right_iff.mpr ((Selector.forall₂_of_mapM translated).imp fun _ _ given =>
      demands_condition core given)
  refine confines_step start fun id => (keeps_keptBy demands _).mono fun kept all next member => ?_
  rcases all next member with ⟨candidate, met⟩
  rcases List.mem_filter.mp candidate with ⟨along, accepted⟩
  rcases (accepts_nodeTest_iff principal compound.element next).mp accepted with ⟨element, names⟩
  refine ⟨along, element, names, fun other asked => ?_⟩
  rcases List.mem_filterMap.mp asked with ⟨condition, inside, presence⟩
  exact met (demand condition) (List.mem_map_of_mem inside) other presence

end

/-!
## Chains

In any forest a chain is followed along the axes of its steps.  In a tree that is where the combinators
lead.
-/

/-- Where the steps of a combinator lead from an element. -/
def Combinator.Reaches (forest : Forest) (start next : NodeId) : Combinator → Prop
  | .descendant => next ∈ forest.descendants start
  | .child => next ∈ forest.children start
  | .nextSibling => (forest.elementsAlong .followingSibling start).head? = some next
  | .laterSibling => next ∈ forest.elementsAlong .followingSibling start

/-- Whether the steps for the rest of a chain lead from an element to another. -/
def Selector.ReachesBy (forest : Forest) : List (Combinator × Compound) → NodeId → NodeId → Prop
  | [], start, last => start = last
  | (combinator, compound) :: others, start, last =>
    ∃ next, combinator.Reaches forest start next ∧ compound.HoldsAt forest next ∧
      ReachesBy forest others next last

/-- Whether the steps for a selector lead from a node to an element below it, in whatever forest. -/
def Selector.Reaches (selector : Selector) (forest : Forest) (scope id : NodeId) : Prop :=
  ∃ first ∈ forest.descendants scope, selector.first.HoldsAt forest first ∧
    ReachesBy forest selector.others first id

section
variable {document : DocumentId} {root : NodeId} (tree : forest.IsTree document root)
variable {scope : NodeId} (inside : scope ∈ forest.nodesOf document)
include tree inside

/-- In a tree steps lead as the combinators do, and never away from what is below a node. -/
theorem reaches_iff_leads {start : NodeId} (below : start ∈ forest.descendants scope)
    (element : forest.isElement start = true) (combinator : Combinator) (next : NodeId) :
    combinator.Reaches forest start next ↔
      next ∈ forest.descendants scope ∧ combinator.Leads forest start next := by
  rw [tree.nodesOf_eq] at inside
  have above := mem_subtree_of_descendants below
  have placed := tree.descendants_subset inside start below
  have beside (sibling : NodeId) (along : sibling ∈ forest.elementsAlong .followingSibling start) :
      sibling ∈ forest.descendants scope :=
    tree.descendants_of_followingSiblings inside below (List.mem_of_mem_filter along)
  cases combinator with
  | descendant => exact ⟨fun reached => ⟨descendants_trans above reached, reached⟩, And.right⟩
  | child => exact ⟨fun reached => ⟨descendants_of_children above reached, reached⟩, And.right⟩
  | nextSibling =>
      rw [tree.leads_nextSibling_iff placed element]
      exact ⟨fun reached => ⟨beside next (List.mem_of_mem_head? reached), reached⟩, And.right⟩
  | laterSibling =>
      rw [tree.leads_laterSibling_iff placed element]
      exact ⟨fun reached => ⟨beside next reached, reached⟩, And.right⟩

theorem reachesBy_iff_leadsTo {others : List (Combinator × Compound)} {start : NodeId}
    (below : start ∈ forest.descendants scope) (element : forest.isElement start = true)
    (last : NodeId) :
    Selector.ReachesBy forest others start last ↔ Selector.LeadsTo forest scope others start last := by
  induction others generalizing start with
  | nil => exact Iff.rfl
  | cons link others ih =>
      rw [Selector.ReachesBy, Selector.LeadsTo]
      simp only [reaches_iff_leads tree inside below element, and_assoc]
      refine exists_congr fun next => and_congr_right fun under => and_congr_right fun _ =>
        and_congr_right fun holds => ih under holds.element

/-- In a tree the steps for a selector lead to what the selector matches. -/
theorem reaches_iff_matches (selector : Selector) (id : NodeId) :
    selector.Reaches forest scope id ↔ selector.Matches forest scope id :=
  exists_congr fun _ => and_congr_right fun below => and_congr_right fun holds =>
    reachesBy_iff_leadsTo tree inside below holds.element id

end

section
variable (core : context.functions = Registry.core)
include core

/-- The steps from one compound to the next lead to elements that have its attributes. -/
theorem confines_link (combinator : Combinator) {compound : Compound} {steps : List Step}
    (read : Selector.linkStepsBy? Selector.readExpr? combinator compound = some steps)
    (start : NodeId → Prop) :
    Confines forest context steps start (fun next => ∃ id, start id ∧
      combinator.Reaches forest id next ∧ compound.presence.HoldsAt forest next) := by
  cases combinator with
  | descendant =>
      rcases Option.map_eq_some_iff.mp read with ⟨step, translated, rfl⟩
      refine ((confines_along .descendantOrSelf start).append
        (confines_compound core rfl translated _)).mono ?_
      rintro next ⟨middle, ⟨id, started, under⟩, member, holds⟩
      rw [Forest.along_descendantOrSelf] at under
      exact ⟨id, started, mem_descendants_iff.mpr ⟨middle, under, member⟩, holds⟩
  | child =>
      rcases Option.map_eq_some_iff.mp read with ⟨step, translated, rfl⟩
      exact confines_compound core rfl translated start
  | nextSibling =>
      rcases Option.map_eq_some_iff.mp read with ⟨step, translated, rfl⟩
      refine ((confines_firstSibling start).append (confines_compound core rfl translated _)).mono ?_
      rintro next ⟨middle, ⟨id, started, head⟩, member, holds⟩
      rw [List.mem_singleton.mp member] at holds ⊢
      exact ⟨id, started, head, holds⟩
  | laterSibling =>
      rcases Option.map_eq_some_iff.mp read with ⟨step, translated, rfl⟩
      refine (confines_compound core rfl translated start).mono ?_
      rintro next ⟨id, started, member, holds⟩
      exact ⟨id, started, List.mem_filter.mpr ⟨member, holds.element⟩, holds⟩

/-- The steps behind the first compound lead where those for the attributes alone lead. -/
theorem confines_others {others : List (Combinator × Compound)} {lists : List (List Step)}
    (read : others.mapM (fun link => Selector.linkStepsBy? Selector.readExpr? link.1 link.2) =
      some lists) (start : NodeId → Prop) :
    Confines forest context lists.flatten start (fun last => ∃ first, start first ∧
      Selector.ReachesBy forest (others.map fun link => (link.1, link.2.presence)) first last) := by
  induction others generalizing start lists with
  | nil =>
      cases read
      exact (confines_nil start).mono fun last started => ⟨last, started, rfl⟩
  | cons link others ih =>
      simp only [List.mapM_cons, Option.bind_eq_bind, Option.bind_eq_some_iff] at read
      rcases read with ⟨steps, linked, later, laterRead, same⟩
      cases same
      refine ((confines_link core link.1 linked start).append (ih laterRead _)).mono ?_
      rintro last ⟨next, ⟨id, started, leads, holds⟩, further⟩
      exact ⟨id, started, next, leads, holds, further⟩

/-- The steps of a selector lead to elements with its attributes along the whole chain. -/
theorem confines_selector (scope : NodeId) {selector : Selector} {steps : List Step}
    (read : Selector.stepsBy? Selector.readExpr? selector = some steps) :
    Confines forest context (.mk .self .node [] :: .descendantOrSelf :: steps) (· = scope)
      (selector.presence.Reaches forest scope ·) := by
  simp only [Selector.stepsBy?, Option.bind_eq_bind, Option.bind_eq_some_iff] at read
  rcases read with ⟨step, translated, lists, translatedOthers, same⟩
  cases same
  have toFirst : Confines forest context [.mk .self .node [], .descendantOrSelf, step] (· = scope)
      (fun first => first ∈ forest.descendants scope ∧
        selector.first.presence.HoldsAt forest first) := by
    exact (((confines_along .self _).append (confines_along .descendantOrSelf _)).append
      (confines_compound core rfl translated _)).mono fun _ => exists_above_iff.mp
  refine (toFirst.append (confines_others core translatedOthers _)).mono ?_
  rintro last ⟨first, ⟨under, holds⟩, further⟩
  exact ⟨first, under, holds, further⟩

/-- A node-set of elements that some alternative leads to with its attributes. -/
def IsFound (forest : Forest) (scope : NodeId) (group : SelectorGroup) (value : Value) : Prop :=
  ∃ reached : NodeSet, value = .nodeSet reached ∧
    ∀ id ∈ reached.nodes, ∃ selector ∈ group, selector.presence.Reaches forest scope id

omit core in
theorem keeps_unionExpr {scope : NodeId} {group : SelectorGroup} {focus : Focus} {left right : Expr}
    (leftKeeps : Keeps (fun _ => True) (IsFound forest scope group) (evalAt forest context focus left))
    (rightKeeps : Keeps (fun _ => True) (IsFound forest scope group)
      (evalAt forest context focus right)) :
    Keeps (fun _ => True) (IsFound forest scope group)
      (evalAt forest context focus (.union left right)) := by
  rw [evalAt]
  refine leftKeeps.bind fun left leftFound => rightKeeps.bind fun right rightFound => ?_
  rcases leftFound with ⟨one, rfl, oneAll⟩
  rcases rightFound with ⟨other, rfl, otherAll⟩
  rw [unionOf, requireNodes, pure_bind, requireNodes, pure_bind]
  refine Keeps.pure ⟨_, rfl, fun id member => ?_⟩
  rcases List.mem_append.mp (NodeSet.mem_inDocumentOrder.mp member) with inOne | inOther
  · exact oneAll id inOne
  · exact otherAll id inOther

section
variable {scope : NodeId} {focus : Focus} (here : focus.node = some scope) {group : SelectorGroup}
include here

theorem keeps_selectorExpr {selector : Selector} (member : selector ∈ group) {steps : List Step}
    (read : Selector.stepsBy? Selector.readExpr? selector = some steps) :
    Keeps (fun _ => True) (IsFound forest scope group)
      (evalAt forest context focus (Selector.fromFocus steps)) := by
  have nodes : (NodeSet.ofNodes forest [scope]).nodes = [scope] :=
    NodeSet.nodes_ofNodes (List.nodup_singleton scope)
  have alone : ∀ id ∈ (NodeSet.ofNodes forest [scope]).nodes, id = scope := by
    rw [nodes]
    exact List.forall_mem_singleton.mpr rfl
  rw [Selector.fromFocus, evalAt, focusValue, here]
  refine (confines_selector core scope read _ alone).mono fun value reached => ?_
  rcases reached with ⟨last, same, all⟩
  exact ⟨last, same, fun id found => ⟨selector, member, all id found⟩⟩

/-- Whatever value the expression for a group has holds elements that some alternative leads to. -/
theorem keeps_groupExpr {expr : Expr}
    (read : Selector.groupExprBy? Selector.readExpr? Selector.fromFocus group = some expr) :
    Keeps (fun _ => True) (IsFound forest scope group) (evalAt forest context focus expr) := by
  have union {selectors : List Selector} {lists : List (List Step)} (listed : selectors ⊆ group)
      (all : List.Forall₂ (fun steps selector =>
        Selector.stepsBy? Selector.readExpr? selector = some steps) lists selectors) {first : Expr}
      (keeps : Keeps (fun _ => True) (IsFound forest scope group) (evalAt forest context focus first)) :
      Keeps (fun _ => True) (IsFound forest scope group)
        (evalAt forest context focus ((lists.map Selector.fromFocus).foldl .union first)) := by
    induction all generalizing first with
    | nil => exact keeps
    | cons taken _ ih =>
        rw [List.cons_subset] at listed
        exact ih listed.2 (keeps_unionExpr keeps
          (keeps_selectorExpr core here listed.1 taken))
  simp only [Selector.groupExprBy?, Option.bind_eq_bind, Option.bind_eq_some_iff] at read
  rcases read with ⟨lists, translated, same⟩
  have all := Selector.forall₂_of_mapM translated
  cases all with
  | nil => cases same
  | @cons steps selector lists selectors taken others =>
      cases same
      exact union (List.subset_cons_self selector selectors) others
        (keeps_selectorExpr core here List.mem_cons_self taken)

end

end

namespace Query

/-- What selecting gives is what the path of the selector is read as, evaluated at the node. -/
theorem exists_expr_of_select {selector : String} {node : NodeId} {handler : Option (Handler σ)}
    {state after : σ} {set : NodeSet}
    (given : select forest selector node handler state = (.ok set, after)) :
    ∃ group expr, Selector.parse? selector = some group ∧
      Selector.groupExprBy? Selector.readExpr? Selector.fromFocus group = some expr ∧
      expr.eval forest { node := some node, handler := handler } state = (.ok (.nodeSet set), after) := by
  unfold select at given
  rcases written : selectorPath ".//" selector with refusal | path
  · rw [written] at given
    cases given
  · rw [written] at given
    dsimp only at given
    rcases selectorPath_eq_ok written with ⟨group, parsed, groupWritten⟩
    rcases Selector.wellFormed_of_parse parsed with ⟨filled, wellFormed⟩
    rw [bind_apply] at given
    cases read : Expr.parse? path with
    | none =>
        rw [evaluateAt_of_refused read] at given
        cases given
    | some expr =>
        refine ⟨group, expr, parsed,
          Selector.groupExpr_of_parse .focus filled wellFormed groupWritten read, ?_⟩
        rw [evaluateAt_of_parse read] at given
        rcases outcome : expr.eval forest { node := some node, handler := handler } state with
          ⟨error | value, reached⟩
        · rw [outcome] at given
          cases given
        · rw [outcome] at given
          cases value with
          | nodeSet other =>
              cases given
              rfl
          | boolean truth => cases given
          | number amount => cases given
          | string text => cases given

/-- Every element that a selector finds, in whatever forest, is one the steps lead to that ask, along the
whole chain, for the attributes alone whose values the selector compares.  In a document of new nodes
these are the elements that the selector asking for the attributes alone matches.  Only comparisons that
overlook a missing attribute with the empty text do not ask for theirs, and these are true of every
element without it. -/
theorem select_presence (forest : Forest) (node : NodeId) {selector : String} {group : SelectorGroup}
    (parsed : Selector.parse? selector = some group) (handler : Option (Handler σ)) (state : σ) :
    (∀ set after, select forest selector node handler state = (.ok set, after) →
      ∀ id ∈ set.nodes, ∃ alternative ∈ group, alternative.presence.Reaches forest node id) ∧
    (∀ document, forest.HasFreshDocument document → node ∈ forest.nodesOf document →
      ∀ (alternative : Selector) id, alternative.Reaches forest node id ↔
        alternative.Matches forest node id) ∧
    ∀ id name, ¬ forest.Carries id name (fun _ => True) →
      ∀ (relation : AttributeMatch) (value : String) (focus : Focus), focus.node = some id →
        Answers forest { node := some node, handler := handler } focus
          (Selector.attributeMatchExpr (Selector.attributeExpr name) relation value)
          (relation.overlooks = true ∧ value = "") := by
  refine ⟨?_, ?_, ?_⟩
  · intro set after given id member
    rcases exists_expr_of_select given with ⟨other, expr, otherParsed, read, evaluated⟩
    rw [parsed] at otherParsed
    cases otherParsed
    let context : Context σ := { node := some node, handler := handler }
    have found : Keeps (fun _ => True) (IsFound forest node group) (expr.eval forest context) := by
      have kept : Keeps (fun _ => True) (IsFound forest node group)
          (Expr.evalAt forest context context.focus expr) := keeps_groupExpr rfl rfl read
      refine kept.bind fun value reached => Keeps.pure ?_
      rcases reached with ⟨last, rfl, all⟩
      refine ⟨_, rfl, ?_⟩
      rw [NodeSet.nodes_decorate]
      exact all
    rcases (found state trivial).2 (.nodeSet set) (by rw [evaluated]) with ⟨last, same, all⟩
    cases same
    exact all id member
  · intro document fresh inside alternative id
    rcases fresh.isTree with ⟨root, tree⟩
    exact reaches_iff_matches tree inside alternative id
  · intro id name lacking relation value focus here
    refine answers_missing rfl ?_ here relation value
    by_contra present
    rcases List.exists_mem_of_ne_nil _ present with ⟨held, candidate⟩
    rw [candidates, List.mem_filter] at candidate
    have named := (Bool.and_eq_true_iff.mp candidate.2).2
    exact lacking ⟨held, candidate.1, eq_of_beq named, trivial⟩

/-- A selector with comparisons along its chain, one of them overlooking. -/
def comparingSelector : String := "ul > li[lang^=en] + [id*='']"

def comparingGroup : SelectorGroup :=
  [⟨⟨some (.named "ul"), []⟩,
    [(.child, ⟨some (.named "li"), [.attribute "lang" (some (.start, "en"))]⟩),
      (.nextSibling, ⟨none, [.attribute "id" (some (.inside, ""))]⟩)]⟩]

theorem select_presence_items :
    ∃ set, select listDocument.1 comparingSelector ⟨9⟩ (none : Option (Handler Unit)) () = (.ok set, ()) ∧
      set.nodes = [⟨6⟩, ⟨7⟩] ∧
      ∀ id ∈ set.nodes, ∃ alternative ∈ comparingGroup,
        alternative.presence.Reaches listDocument.1 ⟨9⟩ id ∧
          alternative.presence.Matches listDocument.1 ⟨9⟩ id := by
  have parsed : Selector.parse? comparingSelector = some comparingGroup := rfl
  have inside : (⟨9⟩ : NodeId) ∈ listDocument.1.nodesOf listDocument.2 := by decide +kernel
  have found : (select listDocument.1 comparingSelector ⟨9⟩
      (none : Option (Handler Unit)) ()).1.toOption.map (·.nodes) = some [⟨6⟩, ⟨7⟩] := by
    decide +kernel
  rcases exists_of_nodes found with ⟨set, given, nodes⟩
  have whole : select listDocument.1 comparingSelector ⟨9⟩ (none : Option (Handler Unit)) () =
      (.ok set, ()) := Prod.ext given (Subsingleton.elim _ _)
  rcases select_presence listDocument.1 ⟨9⟩ parsed none () with ⟨reached, matched, _⟩
  refine ⟨set, whole, nodes, fun id member => ?_⟩
  rcases reached set () whole id member with ⟨alternative, listed, reaches⟩
  exact ⟨alternative, listed, reaches,
    (matched _ fresh_listDocument inside alternative.presence id).mp reaches⟩

/-- With the empty text four comparisons find the last item of the list, which has no attributes. -/
theorem select_overlooks :
    (∀ sign ∈ ["~=", "^=", "$=", "*="], ∃ set,
      (select listDocument.1 ("li[id" ++ sign ++ "'']") ⟨9⟩ (none : Option (Handler Unit)) ()).1 = .ok set ∧
        ⟨7⟩ ∈ set.nodes) ∧
    listDocument.1.isElement ⟨7⟩ = true ∧ ¬ listDocument.1.Carries ⟨7⟩ "id" fun _ => True := by
  refine ⟨?_, by decide +kernel, ?_⟩
  · have found : ∀ sign ∈ ["~=", "^=", "$=", "*="],
        ((select listDocument.1 ("li[id" ++ sign ++ "'']") ⟨9⟩
          (none : Option (Handler Unit)) ()).1.toOption.any fun set => decide (⟨7⟩ ∈ set.nodes)) = true := by
      decide +kernel
    intro sign member
    rcases outcome : (select listDocument.1 ("li[id" ++ sign ++ "'']") ⟨9⟩
      (none : Option (Handler Unit)) ()).1 with error | set
    · have impossible := found sign member
      rw [outcome] at impossible
      cases impossible
    · have held := found sign member
      rw [outcome] at held
      exact ⟨set, rfl, of_decide_eq_true held⟩
  · have bare : listDocument.1.attributes ⟨7⟩ = [] := by decide +kernel
    rintro ⟨held, member, _⟩
    rw [bare] at member
    cases member

end Query

end NodeQuery
