import NodeQuery.Proofs.Expr.Answer
import NodeQuery.Proofs.Expr.Arrangement
import NodeQuery.Proofs.Forest.Partition

/-!
# Merging between steps

A step looks from each node it starts from and merges what it finds, so that the next step cannot tell
which of them a node was found from.  Predicates count positions from one node at a time, before the
merging.  Steps that ask no handler therefore lead from many nodes to where they lead from each of them
alone: nothing depends on what else was merged.
-/

namespace NodeQuery

open NodeQuery.Expr Evaluation

variable {σ : Type} {forest : Forest} {document : DocumentId} {context : Context σ} {inv : σ → Prop}
variable {state : σ} {axis : Axis} {test : NodeTest} {predicates : List Expr} {steps : List Step}
variable {set reached : NodeSet}

/-- The program of steps leads from a value to where the steps lead. -/
theorem Program.runFrom_codeOfSteps_nil (focus : Focus) (steps : List Step) (value : Value) :
    runFrom forest context focus (codeOfSteps steps) 0 [value] =
      follow forest context steps value := by
  have whole := runFrom_codeOfSteps forest context focus steps [] value []
  rw [List.append_nil] at whole
  rw [whole]
  simp only [runFrom, pop, pure_bind, bind_pure]

/-- A step that finds some nodes from each node goes on from all of them in document order. -/
theorem Evaluation.Gives.follow {kept : NodeId → List NodeId} {value : Value}
    (each : ∀ id ∈ set.nodes,
      Gives inv (kept id) (keptBy forest context predicates (candidates forest axis test id)))
    (rest : Gives inv value (Expr.follow forest context steps
      (.nodeSet (NodeSet.inDocumentOrder forest (set.nodes.flatMap kept))))) :
    Gives inv value (Expr.follow forest context (.mk axis test predicates :: steps) (.nodeSet set)) := by
  rw [Expr.follow]
  exact (Gives.pure set.nodes).bind ((Gives.collect each).bind rest)

/-- Steps all of whose functions are registered leave the state as it is. -/
theorem follow_idle (registered : ∀ call ∈ callsOfSteps steps, context.functions.contains call.1 = true)
    (value : Value) : Keeps (· = state) (fun _ => True) (follow forest context steps value) :=
  (keeps_congruence (τ := σ) (· = state)).follow (context.alongside_refl forest) steps
    (Handler.answer_of_registered registered context.handler context.handler) value

theorem keptBy_idle
    (registered : ∀ call ∈ callsOfAll predicates, context.functions.contains call.1 = true)
    (nodes : List NodeId) :
    Keeps (· = state) (fun _ => True) (keptBy forest context predicates nodes) :=
  (keeps_congruence (τ := σ) (· = state)).keptBy (context.alongside_refl forest) predicates
    (Handler.answer_of_registered registered context.handler context.handler) nodes

/-- Where something is collected from all nodes, something is found from each of them alone. -/
theorem found_of_collect {find : NodeId → Evaluation σ (List NodeId)} {ids all : List NodeId}
    {after : σ} (idle : ∀ id, Keeps (· = state) (fun _ => True) (find id))
    (given : collect find ids state = (.ok all, after)) :
    ∀ id ∈ ids, ∃ found, find id state = (.ok found, state) := by
  induction ids generalizing all after with
  | nil => exact List.forall_mem_nil _
  | cons id ids ih =>
      rw [collect, bind_apply] at given
      have same := (idle id state rfl).1
      rcases outcome : find id state with ⟨_ | found, reached⟩
      · rw [outcome] at given
        cases given
      · rw [outcome] at given same
        dsimp only at given same
        subst same
        rw [bind_apply] at given
        rcases later : collect find ids reached with ⟨_ | others, last⟩
        · rw [later] at given
          cases given
        · exact List.forall_mem_cons.mpr ⟨⟨found, outcome⟩, ih later⟩

/-- From a state, steps lead from one node-set to another and leave the state as it is. -/
def Leads (forest : Forest) (context : Context σ) (state : σ) (steps : List Step)
    (set reached : NodeSet) : Prop :=
  follow forest context steps (.nodeSet set) state = (.ok (.nodeSet reached), state)

theorem leads_nil_iff : Leads forest context state [] set reached ↔ reached = set := by
  rw [Leads, follow]
  constructor
  · intro same
    cases same
    rfl
  · rintro rfl
    rfl

/-- Once it is known what the first step keeps from each node, the others go on from all of it. -/
theorem leads_cons_iff {kept : NodeId → List NodeId} (each : ∀ id ∈ set.nodes,
      keptBy forest context predicates (candidates forest axis test id) state =
        (.ok (kept id), state)) :
    Leads forest context state (.mk axis test predicates :: steps) set reached ↔
      Leads forest context state steps
        (NodeSet.inDocumentOrder forest (set.nodes.flatMap kept)) reached := by
  have collected : collect (fun id => keptBy forest context predicates
      (candidates forest axis test id)) set.nodes state = (.ok (set.nodes.flatMap kept), state) :=
    gives_at_iff.mp (Gives.collect fun id member => gives_at_iff.mpr (each id member))
  rw [Leads, Leads, follow, requireNodes, pure_bind, bind_apply, collected]

/-- Steps that lead anywhere keep something, be it no nodes, from each node they start from. -/
theorem Leads.exists_kept (leads : Leads forest context state (.mk axis test predicates :: steps) set reached)
    (registered : ∀ call ∈ callsOfAll predicates, context.functions.contains call.1 = true) :
    ∃ kept : NodeId → List NodeId, ∀ id ∈ set.nodes,
      keptBy forest context predicates (candidates forest axis test id) state =
        (.ok (kept id), state) := by
  rw [Leads, follow, requireNodes, pure_bind, bind_apply] at leads
  rcases outcome : collect (fun id => keptBy forest context predicates
      (candidates forest axis test id)) set.nodes state with ⟨_ | all, after⟩
  · rw [outcome] at leads
    cases leads
  · have found := found_of_collect (fun _ => keptBy_idle registered _) outcome
    choose! kept each using found
    exact ⟨kept, each⟩

abbrev NodeSet.single (forest : Forest) (id : NodeId) : NodeSet := NodeSet.ofNodes forest [id]

theorem leads_single_iff {id : NodeId} {kept : List NodeId}
    (found : keptBy forest context predicates (candidates forest axis test id) state =
      (.ok kept, state)) :
    Leads forest context state (.mk axis test predicates :: steps) (.single forest id) reached ↔
      Leads forest context state steps (NodeSet.inDocumentOrder forest kept) reached := by
  have alone : (NodeSet.single forest id).nodes = [id] :=
    NodeSet.nodes_ofNodes (List.nodup_singleton id)
  have each : ∀ other ∈ (NodeSet.single forest id).nodes,
      keptBy forest context predicates (candidates forest axis test other) state =
        (.ok kept, state) := by
    rw [alone]
    exact List.forall_mem_singleton.mpr found
  rw [leads_cons_iff each, alone, List.flatMap_singleton]

/-- What is asked of all that is kept, once it is in document order, is asked of what is kept from each
node. -/
theorem forall_mem_merged_iff {kept : NodeId → List NodeId} {holds : NodeId → Prop} :
    (∀ other ∈ (NodeSet.inDocumentOrder forest (set.nodes.flatMap kept)).nodes, holds other) ↔
      ∀ id ∈ set.nodes, ∀ other ∈ (NodeSet.inDocumentOrder forest (kept id)).nodes, holds other := by
  simp only [NodeSet.mem_inDocumentOrder, List.mem_flatMap]
  constructor
  · intro all id member other among
    exact all other ⟨id, member, among⟩
  · rintro each other ⟨id, member, among⟩
    exact each id member other among

/-- Steps lead somewhere from a node-set exactly if they do from each of its nodes alone. -/
theorem exists_leads_iff
    (registered : ∀ call ∈ callsOfSteps steps, context.functions.contains call.1 = true) :
    (∃ reached, Leads forest context state steps set reached) ↔
      ∀ id ∈ set.nodes, ∃ part, Leads forest context state steps (.single forest id) part := by
  induction steps generalizing set with
  | nil => exact iff_of_true ⟨set, leads_nil_iff.mpr rfl⟩ fun id _ => ⟨_, leads_nil_iff.mpr rfl⟩
  | cons first steps ih =>
      cases first with
      | mk axis test predicates =>
          rw [callsOfSteps, List.forall_mem_append] at registered
          have once (kept : NodeId → List NodeId) (each : ∀ id ∈ set.nodes,
              keptBy forest context predicates (candidates forest axis test id) state =
                (.ok (kept id), state)) :
              (∃ reached, Leads forest context state (.mk axis test predicates :: steps) set reached) ↔
                ∀ id ∈ set.nodes, ∃ part,
                  Leads forest context state (.mk axis test predicates :: steps)
                    (.single forest id) part := by
            rw [exists_congr fun _ => leads_cons_iff each, ih registered.2, forall_mem_merged_iff]
            refine forall₂_congr fun id member => ?_
            rw [exists_congr fun _ => leads_single_iff (each id member), ih registered.2]
          -- What is kept from each node is known from either side.
          constructor
          · intro fromAll
            rcases fromAll with ⟨reached, leads⟩
            rcases leads.exists_kept registered.1 with ⟨kept, each⟩
            exact (once kept each).mp ⟨reached, leads⟩
          · intro alone
            have found : ∀ id ∈ set.nodes, ∃ kept,
                keptBy forest context predicates (candidates forest axis test id) state =
                  (.ok kept, state) := by
              intro id member
              rcases alone id member with ⟨part, leads⟩
              rcases leads.exists_kept registered.1 with ⟨kept, each⟩
              exact ⟨kept id, each id (mem_distinct.mpr (List.mem_singleton_self id))⟩
            choose! kept each using found
            exact (once kept each).mpr alone

/-- From a state, steps lead from a node alone to a node-set with another node in it. -/
def Reaches (forest : Forest) (context : Context σ) (state : σ) (steps : List Step)
    (id other : NodeId) : Prop :=
  ∃ part, Leads forest context state steps (.single forest id) part ∧ other ∈ part.nodes

theorem Leads.reaches_iff {id other : NodeId} {part : NodeSet}
    (leads : Leads forest context state steps (.single forest id) part) :
    Reaches forest context state steps id other ↔ other ∈ part.nodes := by
  constructor
  · rintro ⟨same, alsoLeads, member⟩
    rw [Leads, leads] at alsoLeads
    cases alsoLeads
    exact member
  · intro member
    exact ⟨part, leads, member⟩

/-- Steps lead from a node-set to the nodes that they reach from any of its nodes alone. -/
theorem Leads.mem_iff (leads : Leads forest context state steps set reached)
    (registered : ∀ call ∈ callsOfSteps steps, context.functions.contains call.1 = true)
    (other : NodeId) :
    other ∈ reached.nodes ↔ ∃ id ∈ set.nodes, Reaches forest context state steps id other := by
  induction steps generalizing set reached with
  | nil =>
      cases leads_nil_iff.mp leads
      simp only [Reaches, leads_nil_iff, exists_eq_left, NodeSet.ofNodes, mem_distinct,
        List.mem_singleton, exists_eq_right']
  | cons first steps ih =>
      cases first with
      | mk axis test predicates =>
          have alone := (exists_leads_iff registered).mp ⟨reached, leads⟩
          rw [callsOfSteps, List.forall_mem_append] at registered
          rcases leads.exists_kept registered.1 with ⟨kept, each⟩
          have fromEach : ∀ id ∈ set.nodes,
              (Reaches forest context state (.mk axis test predicates :: steps) id other ↔
                ∃ middle ∈ kept id, Reaches forest context state steps middle other) := by
            intro id member
            rcases alone id member with ⟨part, onwards⟩
            rw [onwards.reaches_iff, ih ((leads_single_iff (each id member)).mp onwards) registered.2]
            simp only [NodeSet.mem_inDocumentOrder]
          rw [ih ((leads_cons_iff each).mp leads) registered.2]
          simp only [NodeSet.mem_inDocumentOrder, List.mem_flatMap]
          constructor
          · rintro ⟨middle, ⟨id, member, among⟩, reaches⟩
            exact ⟨id, member, (fromEach id member).mpr ⟨middle, among, reaches⟩⟩
          · rintro ⟨id, member, reaches⟩
            rcases (fromEach id member).mp reaches with ⟨middle, among, onwards⟩
            exact ⟨middle, ⟨id, member, among⟩, onwards⟩

/-- Steps lead from nodes of a document in document order to such nodes. -/
theorem follow_sorted {root : NodeId} (tree : forest.IsTree document root) {value : Value}
    (sorted : value.SortedIn forest document) :
    Keeps (fun _ => True) (·.SortedIn forest document) (follow forest context steps value) := by
  induction steps generalizing value with
  | nil =>
      rw [follow]
      exact Keeps.pure sorted
  | cons first steps ih =>
      cases first with
      | mk axis test predicates =>
          rw [follow]
          apply (requireNodes_inside sorted .step).bind
          intro nodes inside
          apply Keeps.bind (collect_inside fun id member =>
            keptBy_inside context predicates (candidates_inside tree axis test (inside id member)))
          intro found foundInside
          exact ih (tree.sortedIn_inDocumentOrder foundInside)

/-- What the last step finds is put in document order at the end. -/
theorem follow_merged (moves : steps ≠ []) (value : Value) :
    Keeps (fun _ => True) (fun last => ∃ ids, last = .nodeSet (NodeSet.inDocumentOrder forest ids))
      (follow forest context steps value) := by
  induction steps generalizing value with
  | nil => exact absurd rfl moves
  | cons first steps ih =>
      cases first with
      | mk axis test predicates =>
          rw [follow]
          apply (Keeps.any _).bind
          intro nodes _
          apply (Keeps.any _).bind
          intro found _
          cases steps with
          | nil =>
              rw [follow]
              exact Keeps.pure ⟨found, rfl⟩
          | cons next others => exact ih (List.cons_ne_nil next others) _

/-- Steps that do not fail lead to a node-set. -/
theorem exists_leads_of_ok
    (registered : ∀ call ∈ callsOfSteps steps, context.functions.contains call.1 = true) {value : Value}
    (given : (follow forest context steps (.nodeSet set) state).1 = .ok value) :
    ∃ reached, Leads forest context state steps set reached := by
  have nodes : ∃ reached, value = .nodeSet reached := by
    by_cases moves : steps = []
    · rw [moves, follow] at given
      exact ⟨set, (Except.ok.inj given).symm⟩
    · rcases (follow_merged moves (.nodeSet set) state trivial).2 value given with ⟨ids, merged⟩
      exact ⟨_, merged⟩
  rcases nodes with ⟨reached, rfl⟩
  exact ⟨reached, Prod.ext given (follow_idle registered _ state rfl).1⟩

/-- A node-set with the nodes found from any of some nodes, each of them once and in document order. -/
structure NodeSet.IsUnion (reached : NodeSet) (forest : Forest) (ids : List NodeId)
    (found : NodeId → NodeSet) : Prop where
  ascending : forest.Ascending reached.nodes
  members : ∀ other, other ∈ reached.nodes ↔ ∃ id ∈ ids, other ∈ (found id).nodes

namespace Expr

def andThen (steps : List Step) : Expr → Expr
  | .rootPath taken => .rootPath (taken ++ steps)
  | .focusPath taken => .focusPath (taken ++ steps)
  | .exprPath start taken => .exprPath start (taken ++ steps)
  | start => .exprPath start steps

theorem evalAt_exprPath (focus : Focus) (start : Expr) (steps : List Step) :
    evalAt forest context focus (.exprPath start steps) =
      (do
        let value ← evalAt forest context focus start
        follow forest context steps value) := by
  rw [evalAt]

/-- Further steps go on from the value of the expression. -/
theorem evalAt_andThen (focus : Focus) (steps : List Step) (start : Expr) :
    evalAt forest context focus (start.andThen steps) =
      (do
        let value ← evalAt forest context focus start
        follow forest context steps value) := by
  cases start with
  | rootPath taken => simp only [andThen, evalAt, follow_append, bind_assoc]
  | focusPath taken => simp only [andThen, evalAt, follow_append]
  | exprPath start taken => simp only [andThen, evalAt_exprPath, follow_append, bind_assoc]
  | _ => exact evalAt_exprPath focus _ steps

end Expr

namespace Program

/-- Steps that ask no handler lead from nodes in document order to the union of where they lead from
each of them alone.  So a path in two parts gives the union of what its second part gives at each node
that its first part gives. -/
theorem runFrom_codeOfSteps_union (fresh : forest.HasFreshDocument document)
    (registered : ∀ call ∈ callsOfSteps steps, context.functions.contains call.1 = true)
    (sorted : (Value.nodeSet set).SortedIn forest document) (focus : Focus)
    (alone : ∀ id ∈ set.nodes, ∃ value,
      (runFrom forest context focus (codeOfSteps steps) 0 [.nodeSet (.single forest id)] state).1 =
        .ok value) :
    ∃ (found : NodeId → NodeSet) (reached : NodeSet),
      (∀ id ∈ set.nodes,
        runFrom forest context focus (codeOfSteps steps) 0 [.nodeSet (.single forest id)] state =
          (.ok (.nodeSet (found id)), state)) ∧
      runFrom forest context focus (codeOfSteps steps) 0 [.nodeSet set] state =
        (.ok (.nodeSet reached), state) ∧
      reached.IsUnion forest set.nodes found ∧
      (steps ≠ [] → reached =
        NodeSet.inDocumentOrder forest (set.nodes.flatMap fun id => (found id).nodes)) ∧
      ∀ (start : Expr) (before : σ),
        runFrom forest context focus start.code 0 [] before = (.ok (.nodeSet set), state) →
          runFrom forest context focus (start.andThen steps).code 0 [] before =
            (.ok (.nodeSet reached), state) ∧
          ∀ id ∈ set.nodes, ∀ inner : Focus, inner.node = some id →
            runFrom forest context inner (Expr.focusPath steps).code 0 [] state =
              (.ok (.nodeSet (found id)), state) := by
  simp only [runFrom_codeOfSteps_nil, runFrom_code_nil] at alone ⊢
  rcases fresh.isTree with ⟨root, tree⟩
  have leadsAlone : ∀ id ∈ set.nodes, ∃ part,
      Leads forest context state steps (.single forest id) part := by
    intro id member
    rcases alone id member with ⟨value, given⟩
    exact exists_leads_of_ok registered given
  have : Nonempty NodeSet := ⟨{}⟩
  choose! found fromEach using leadsAlone
  rcases (exists_leads_iff registered).mpr fun id member => ⟨found id, fromEach id member⟩ with
    ⟨reached, leads⟩
  have outcome := congrArg Prod.fst leads
  have reachedSorted := (follow_sorted tree sorted state trivial).2 _ outcome
  have union : reached.IsUnion forest set.nodes found := by
    constructor
    · exact reachedSorted.2
    · intro other
      rw [leads.mem_iff registered]
      exact exists_congr fun id => and_congr_right fun member => (fromEach id member).reaches_iff
  refine ⟨found, reached, fromEach, leads, union, ?_, ?_⟩
  · intro moves
    rcases (follow_merged moves (.nodeSet set) state trivial).2 _ outcome with ⟨ids, merged⟩
    cases merged
    apply NodeSet.inDocumentOrder_congr tree
    · intro other member
      rw [← tree.nodesOf_eq]
      exact reachedSorted.1 other (NodeSet.mem_inDocumentOrder.mpr member)
    · intro other
      rw [← NodeSet.mem_inDocumentOrder, union.members, List.mem_flatMap]
  · intro start before given
    refine ⟨?_, ?_⟩
    · rw [Expr.evalAt_andThen, bind_apply, given]
      exact leads
    · intro id member inner here
      rw [Expr.evalAt, focusValue, here]
      exact fromEach id member

end Program

/-- To the nearest element above a node, and to the last node below that. -/
def lastBeside : List Step :=
  [.mk .ancestor .anyName [.comparison .eq (.call "position" []) (.number 1)],
    .mk .descendant .node [.comparison .eq (.call "position" []) (.call "last" [])]]

theorem runFrom_codeOfSteps_union_nested :
    let forest := Forest.nestedDocument.1
    let context : Context Unit := {}
    let set := NodeSet.inDocumentOrder forest [⟨7⟩, ⟨4⟩]
    ∃ (found : NodeId → NodeSet) (reached : NodeSet),
      (∀ id ∈ set.nodes,
        Program.runFrom forest context {} (codeOfSteps lastBeside) 0 [.nodeSet (.single forest id)] () =
          (.ok (.nodeSet (found id)), ())) ∧
      Program.runFrom forest context {} (codeOfSteps lastBeside) 0 [.nodeSet set] () =
        (.ok (.nodeSet reached), ()) ∧
      reached.IsUnion forest set.nodes found ∧
      (lastBeside ≠ [] → reached =
        NodeSet.inDocumentOrder forest (set.nodes.flatMap fun id => (found id).nodes)) ∧
      ∀ (start : Expr) (before : Unit),
        Program.runFrom forest context {} start.code 0 [] before = (.ok (.nodeSet set), ()) →
          Program.runFrom forest context {} (start.andThen lastBeside).code 0 [] before =
            (.ok (.nodeSet reached), ()) ∧
          ∀ id ∈ set.nodes, ∀ inner : Focus, inner.node = some id →
            Program.runFrom forest context inner (Expr.focusPath lastBeside).code 0 [] () =
              (.ok (.nodeSet (found id)), ()) := by
  rcases Forest.nestedDocument_fresh.isTree with ⟨root, tree⟩
  have inside : ∀ id ∈ ([⟨7⟩, ⟨4⟩] : List NodeId),
      id ∈ Forest.nestedDocument.1.nodesOf Forest.nestedDocument.2 := by
    decide +kernel
  apply Program.runFrom_codeOfSteps_union Forest.nestedDocument_fresh (by decide +kernel)
    (tree.sortedIn_inDocumentOrder inside) {}
  intro id member
  rcases List.mem_pair.mp (NodeSet.mem_inDocumentOrder.mp member) with rfl | rfl
  · exact ⟨_, by with_unfolding_all rfl⟩
  · exact ⟨_, by with_unfolding_all rfl⟩

end NodeQuery
