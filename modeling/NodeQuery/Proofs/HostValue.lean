import NodeQuery.HostValue
import NodeQuery.Proofs.NodeSet

/-!
# Host values and the values they stand for

Every value has a host value that stands for it, but not the other way round.  A list stands for a value
if all its items are single nodes, and the first item that is none decides what is said about it.  The
nodes of a host value can be asked for at any depth of nesting; where there is a node-set for them, it
has them all, in that order.
-/

namespace NodeQuery

/-- Leaving out what has been seen is leaving out repetitions of what is new. -/
theorem distinctAfter_eq_eraseDups (seen ids : List NodeId) :
    distinctAfter seen ids = (ids.filter fun id => !seen.contains id).eraseDups := by
  induction ids generalizing seen with
  | nil => rfl
  | cons first others ih =>
      rw [distinctAfter, List.filter_cons]
      by_cases known : seen.contains first = true
      · rw [if_pos known, known, if_neg (by simp), ih]
      · have fresh : (!seen.contains first) = true := by rwa [Bool.not_eq_true', ← Bool.not_eq_true]
        rw [if_neg known, if_pos fresh, List.eraseDups_cons, List.filter_filter, ih]
        congr 3
        funext id
        rw [List.contains_cons, Bool.not_or]

/-- The first occurrences are what is left when later repetitions go. -/
theorem distinct_eq_eraseDups (ids : List NodeId) : distinct ids = ids.eraseDups := by
  rw [distinct, distinctAfter_eq_eraseDups]
  congr 1
  exact List.filter_eq_self.mpr fun _ _ => rfl

theorem distinctAfter_sublist (seen ids : List NodeId) : (distinctAfter seen ids).Sublist ids := by
  induction ids generalizing seen with
  | nil => exact List.Sublist.refl _
  | cons first others ih =>
      rw [distinctAfter]
      split
      · exact (ih seen).cons first
      · exact (ih (first :: seen)).cons_cons first

/-- A node-set that has been made: of a list of nodes, the empty list among them, and then decorated any
number of times. -/
inductive NodeSet.IsMade : NodeSet → Prop
  | ofNodes (forest : Forest) (ids : List NodeId) : IsMade (.ofNodes forest ids)
  | decorated {set : NodeSet} (made : IsMade set) (forest : Forest) (fallback : Option DocumentId) :
      IsMade (set.decorate forest fallback)

theorem NodeSet.IsMade.nodup {set : NodeSet} (made : set.IsMade) : set.nodes.Nodup := by
  induction made with
  | ofNodes forest ids => exact nodup_distinct ids
  | decorated _ forest fallback ih =>
      rw [nodes_decorate]
      exact ih

namespace HostValue

theorem listedNodes_map (ids : List NodeId) : listedNodes (ids.map node) = .ok ids := by
  induction ids with
  | nil => rfl
  | cons id ids ih => rw [List.map_cons, listedNodes, ih]; rfl

/-- Of a list the nodes in front are read one by one. -/
theorem listedNodes_append (before : List NodeId) (items : List HostValue) :
    listedNodes (before.map node ++ items) = (listedNodes items).map (before ++ ·) := by
  induction before with
  | nil => cases listed : listedNodes items <;> rw [List.map_nil, List.nil_append, listed] <;> rfl
  | cons id before ih =>
      rw [List.map_cons, List.cons_append, listedNodes, ih]
      cases listedNodes items <;> rfl

/-- A list is read up to the first item that is no single node. -/
theorem exists_nodes_append (items : List HostValue) :
    (∃ ids : List NodeId, items = ids.map node) ∨
      ∃ (before : List NodeId) (item : HostValue) (after : List HostValue),
        item.kind ≠ .node ∧ items = before.map node ++ item :: after := by
  induction items with
  | nil => exact .inl ⟨[], rfl⟩
  | cons item items ih =>
      by_cases single : item.kind = .node
      · cases item with
        | node id =>
            rcases ih with ⟨ids, rfl⟩ | ⟨before, other, after, apart, rfl⟩
            · exact .inl ⟨id :: ids, rfl⟩
            · exact .inr ⟨id :: before, other, after, apart, rfl⟩
        | _ => cases single
      · exact .inr ⟨[], item, items, single, rfl⟩

theorem listedNodes_of_other {item : HostValue} (other : item.kind ≠ .node) (before : List NodeId)
    (after : List HostValue) :
    listedNodes (before.map node ++ item :: after) = .error (.item item.kind) := by
  rw [listedNodes_append]
  cases item with
  | node id => exact absurd rfl other
  | _ => rfl

theorem nodesOfAll_map (ids : List NodeId) : nodesOfAll (ids.map node) = ids := by
  induction ids with
  | nil => rfl
  | cons id ids ih => rw [List.map_cons, nodesOfAll, ih, nodes, List.singleton_append]

/-- Why a host value stands for no value: it is nothing at all, a single node, or a list whose first
item that is no single node is of some other kind. -/
inductive Unfit : HostValue → Unrepresentable → Prop
  | nil : Unfit .nil (.kind .nil)
  | node (id : NodeId) : Unfit (.node id) (.kind .node)
  | list (before : List NodeId) {item : HostValue} (other : item.kind ≠ .node)
      (after : List HostValue) :
      Unfit (.list (before.map .node ++ item :: after)) (.item item.kind)

theorem Unfit.toValue_eq {host : HostValue} {reason : Unrepresentable} (unfit : host.Unfit reason)
    (forest : Forest) : host.toValue forest = .error reason := by
  cases unfit with
  | nil => rfl
  | node id => rfl
  | list before other after => rw [toValue, listedNodes_of_other other]; rfl

theorem unfit_of_toValue {forest : Forest} {host : HostValue} {reason : Unrepresentable}
    (failed : host.toValue forest = .error reason) : host.Unfit reason := by
  cases host with
  | nil => cases failed; exact .nil
  | node id => cases failed; exact .node id
  | list items =>
      rcases exists_nodes_append items with ⟨ids, rfl⟩ | ⟨before, item, after, other, rfl⟩
      · rw [toValue, listedNodes_map] at failed
        cases failed
      · rw [toValue, listedNodes_of_other other] at failed
        cases failed
        exact .list before other after
  | boolean | integer | float | text | nodeSet => cases failed

/-- A host value that stands for a node-set is that node-set, or a list of its nodes with repetitions. -/
theorem cases_of_toValue {forest : Forest} {host : HostValue} {set : NodeSet}
    (given : host.toValue forest = .ok (.nodeSet set)) :
    host = .nodeSet set ∨ ∃ ids : List NodeId, host = .list (ids.map .node) ∧
      set = NodeSet.ofNodes forest ids := by
  cases host with
  | nodeSet other =>
      cases given
      exact .inl rfl
  | list items =>
      rcases exists_nodes_append items with ⟨ids, rfl⟩ | ⟨before, item, after, other, rfl⟩
      · rw [toValue, listedNodes_map] at given
        cases given
        exact .inr ⟨ids, rfl, rfl⟩
      · rw [toValue, listedNodes_of_other other] at given
        cases given
  | nil | boolean | integer | float | text | node => cases given

/-- The set has the nodes of the host value, each where it comes first. -/
theorem nodes_of_toValue {forest : Forest} {host : HostValue} {set : NodeSet}
    (made : ∀ own, host = .nodeSet own → own.IsMade)
    (given : host.toValue forest = .ok (.nodeSet set)) : set.nodes = distinct host.nodes := by
  rcases cases_of_toValue given with rfl | ⟨ids, rfl, rfl⟩
  · exact (distinct_of_nodup (made set rfl).nodup).symm
  · rw [nodes, nodesOfAll_map]
    rfl

/-- What a host value stands for.  It stands for no value for one of three reasons, which are told apart.
A node-set that it stands for has its nodes, at whatever depth they are, with later repetitions left
out: none is lost, none is added, and none changes its place.  (A node-set to begin with has to be one
that can be made at all.)  And the host value for a value stands for that value, decorations included. -/
theorem toValue_answers (forest : Forest) (host : HostValue) :
    (∀ reason, host.toValue forest = .error reason ↔ host.Unfit reason) ∧
    (∀ set, (∀ own, host = .nodeSet own → own.IsMade) → host.toValue forest = .ok (.nodeSet set) →
      set.nodes = host.nodes.eraseDups ∧ set.nodes.Nodup ∧ set.nodes.Sublist host.nodes ∧
        ∀ id, id ∈ set.nodes ↔ id ∈ host.nodes) ∧
    ∀ value, (ofValue value).toValue forest = .ok value := by
  refine ⟨fun reason => ⟨unfit_of_toValue, fun unfit => unfit.toValue_eq forest⟩, ?_, ?_⟩
  · intro set made given
    rw [nodes_of_toValue made given]
    exact ⟨distinct_eq_eraseDups _, nodup_distinct _, distinctAfter_sublist [] _,
      fun id => mem_distinct⟩
  · intro value
    cases value with
    | boolean | number | string | nodeSet => rfl

/-- The theorem at a list that names a node twice, and at the node-set that is made of these nodes. -/
theorem toValue_answers_twice :
    (∃ set, (HostValue.list [.node ⟨1⟩, .node ⟨0⟩, .node ⟨1⟩]).toValue {} = .ok (.nodeSet set) ∧
      set.nodes = [⟨1⟩, ⟨0⟩]) ∧
    (NodeSet.ofNodes {} [⟨1⟩, ⟨0⟩, ⟨1⟩]).IsMade ∧
    (NodeSet.ofNodes {} [⟨1⟩, ⟨0⟩, ⟨1⟩]).nodes.Nodup := by
  have made : (NodeSet.ofNodes {} [⟨1⟩, ⟨0⟩, ⟨1⟩]).IsMade := .ofNodes _ _
  refine ⟨⟨_, rfl, ?_⟩, made, ?_⟩
  · have listed := (toValue_answers {} (.list [.node ⟨1⟩, .node ⟨0⟩, .node ⟨1⟩])).2.1 _
      (fun own same => by cases same) rfl
    exact listed.1.trans (by decide)
  · have kept := (toValue_answers {} (.nodeSet (NodeSet.ofNodes {} [⟨1⟩, ⟨0⟩, ⟨1⟩]))).2.1 _
      (fun own same => by cases same; exact made) rfl
    exact kept.2.1

end HostValue

end NodeQuery
