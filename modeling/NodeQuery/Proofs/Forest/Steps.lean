import Mathlib.Logic.Relation
import NodeQuery.Proofs.Forest.Document

/-!
# Steps of a forest

A forest grows by single nodes, which may hold whatever is stored already, several times and besides
others that hold it, and by documents, which may be opened on any node, one of another document
included.  Decorations are registered, documents are let go, and what nothing holds is forgotten.  Drafts
are planted in such steps, too.  All the while a node holds only nodes that were built before it, and the
parent that a node remembers lists it.  So no way down and no way up leads back to where it started.
-/

namespace NodeQuery

namespace Forest

/-- What can be done next with a forest. -/
inductive Next (forest : Forest) : Forest → Prop
  /-- A node is built that holds stored nodes, be they held elsewhere, or forgotten, or not. -/
  | built (kind : NodeKind) (name value : Option String) {attributes children : List NodeId}
      (stored : ∀ held ∈ attributes ++ children, held.index < forest.nodes.size) :
      Next forest (forest.add { kind, name, value, attributes, children }).1
  /-- A document is opened on a stored node. -/
  | opened {id : NodeId} (stored : id.index < forest.nodes.size) :
      Next forest (forest.openDocument id).1
  /-- A decoration is registered. -/
  | decorated (document : DocumentId) (decoration : Decoration) :
      Next forest (forest.decorate document decoration)
  /-- A document is let go. -/
  | closed (document : DocumentId) : Next forest (forest.closeDocument document)
  /-- What neither an open document nor one of the given nodes holds is forgotten. -/
  | forgotten (held : List NodeId) : Next forest (forest.retain held)

abbrev Reaches : Forest → Forest → Prop := Relation.ReflTransGen Next

/-- Two forests store as many nodes, and every node holds the same and remembers the same parent. -/
structure SameLinks (first second : Forest) : Prop where
  size : second.nodes.size = first.nodes.size
  held : ∀ id, (second.node id).held = (first.node id).held
  parent : ∀ id, (second.node id).parent = (first.node id).parent

variable {forest : Forest}

theorem SameLinks.symm {later : Forest} (same : forest.SameLinks later) : later.SameLinks forest :=
  ⟨same.size.symm, fun id => (same.held id).symm, fun id => (same.parent id).symm⟩

theorem sameLinks_enrollAll (document : DocumentId) (ids : List NodeId) (start : Nat) :
    forest.SameLinks (forest.enrollAll document ids start) where
  size := size_enrollAll forest document ids start
  held id := by
    rw [agrees_enrollAll forest document ids start id]
    rfl
  parent id := (agrees_enrollAll forest document ids start id).parent_eq

/-- Forgetting ends the life of nodes and changes nothing else. -/
theorem exists_node_retain (held : List NodeId) (id : NodeId) :
    ∃ alive, (forest.retain held).node id = { forest.node id with alive := alive } := by
  rw [node, node, retain, Array.getD_eq_getD_getElem?, Array.getD_eq_getD_getElem?,
    Array.getElem?_mapIdx]
  cases forest.nodes[id.index]? with
  | none => exact ⟨_, rfl⟩
  | some stored => exact ⟨_, rfl⟩

theorem sameLinks_retain (held : List NodeId) : forest.SameLinks (forest.retain held) where
  size := Array.size_mapIdx
  held id := by
    obtain ⟨alive, shown⟩ := forest.exists_node_retain held id
    rw [shown]
    rfl
  parent id := by
    obtain ⟨alive, shown⟩ := forest.exists_node_retain held id
    rw [shown]

/-- All that a step does to links is to add at most one node, which holds stored nodes. -/
theorem Next.adds {later : Forest} (step : forest.Next later) :
    forest.SameLinks later ∨ ∃ node : Node, (∀ held ∈ node.held, held.index < forest.nodes.size) ∧
      node.parent = none ∧ (forest.add node).1.SameLinks later := by
  cases step with
  | @built kind name value attributes children stored =>
      exact Or.inr ⟨{ kind, name, value, attributes, children }, stored, rfl,
        rfl, fun _ => rfl, fun _ => rfl⟩
  | @opened id stored =>
      have same : (forest.underDocumentNode id).1.SameLinks (forest.openDocument id).1 :=
        have numbered : (forest.registered id).SameLinks (forest.openDocument id).1 :=
          sameLinks_enrollAll _ _ 0
        ⟨numbered.size, numbered.held, numbered.parent⟩
      rw [underDocumentNode_eq] at same
      split at same
      · exact Or.inl same
      · exact Or.inr ⟨capNode id, fun _ member => List.mem_singleton.mp member ▸ stored, rfl, same⟩
  | decorated document decoration => exact Or.inl ⟨rfl, fun _ => rfl, fun _ => rfl⟩
  | closed document => exact Or.inl ⟨rfl, fun _ => rfl, fun _ => rfl⟩
  | forgotten held => exact Or.inl (sameLinks_retain held)

/-- A step stores one node at most, after all others. -/
theorem Next.size_le {later : Forest} (step : forest.Next later) :
    forest.nodes.size ≤ later.nodes.size ∧ later.nodes.size ≤ forest.nodes.size + 1 := by
  rcases step.adds with same | ⟨node, _, _, same⟩
  · rw [same.size]
    omega
  · rw [same.size, size_add]
    omega

/-- Steps lose no node. -/
theorem Reaches.size_le {later : Forest} (reaches : Reaches forest later) :
    forest.nodes.size ≤ later.nodes.size := by
  induction reaches with
  | refl => exact Nat.le_refl _
  | tail _ step before => exact Nat.le_trans before step.size_le.1

end Forest

namespace Planting

def LabelsStored (planting : Planting) : Prop :=
  ∀ entry ∈ planting.labels, entry.2.index < planting.forest.nodes.size

/-- What was planted in steps: the new nodes are stored, and so is what labels stand for. -/
structure PlantedInSteps (start planted : Planting) (ids : List NodeId) : Prop where
  reaches : Forest.Reaches start.forest planted.forest
  stored : ∀ id ∈ ids, id.index < planted.forest.nodes.size
  labels : planted.LabelsStored

namespace PlantedInSteps

variable {start middle planted : Planting} {first second : List NodeId}

theorem trans (before : PlantedInSteps start middle first)
    (after : PlantedInSteps middle planted second) :
    PlantedInSteps start planted (first ++ second) where
  reaches := before.reaches.trans after.reaches
  stored id member := by
    rcases List.mem_append.mp member with old | new
    · exact Nat.lt_of_lt_of_le (before.stored id old) after.reaches.size_le
    · exact after.stored id new
  labels := after.labels

/-- After what it holds, a node is built. -/
theorem add {kind : NodeKind} {name value : Option String} {attributes children : List NodeId}
    (before : PlantedInSteps start planted (attributes ++ children)) :
    PlantedInSteps start (planted.add { kind, name, value, attributes, children }).1
      [(planted.add { kind, name, value, attributes, children }).2] := by
  have built : planted.forest.Next (planted.add { kind, name, value, attributes, children }).1.forest :=
    .built kind name value before.stored
  have size : (planted.add { kind, name, value, attributes, children }).1.forest.nodes.size =
      planted.forest.nodes.size + 1 := Forest.size_add _ _
  constructor
  · exact before.reaches.tail built
  · intro id member
    rw [List.mem_singleton.mp member, size]
    exact Nat.lt_succ_self _
  · intro entry member
    rw [size]
    exact Nat.lt_succ_of_lt (before.labels entry member)

end PlantedInSteps

theorem plantedInSteps_nil {start : Planting} (labels : start.LabelsStored) :
    PlantedInSteps start start [] :=
  ⟨.refl, fun _ member => absurd member List.not_mem_nil, labels⟩

mutual

/-- A draft is planted in steps, whatever labels it refers to. -/
theorem plant_inSteps (draft : Draft) {start planted : Planting} {id : NodeId}
    (labels : start.LabelsStored) (plantedAs : start.plant draft = some (planted, id)) :
    PlantedInSteps start planted [id] := by
  cases draft with
  | text | comment | «attribute» =>
      obtain ⟨rfl, rfl⟩ := Prod.mk.inj (Option.some.inj plantedAs)
      exact (plantedInSteps_nil labels).add
  | element _ attributes children | document attributes children =>
      simp only [plant, Option.bind_eq_bind, Option.pure_def, Option.bind_eq_some_iff] at plantedAs
      obtain ⟨⟨middle, attributeIds⟩, first, ⟨last, childIds⟩, second, built⟩ := plantedAs
      obtain ⟨rfl, rfl⟩ := Prod.mk.inj (Option.some.inj built)
      have attributesPlanted := plantAll_inSteps attributes labels first
      exact (attributesPlanted.trans
        (plantAll_inSteps children attributesPlanted.labels second)).add
  | labelled name draft =>
      simp only [plant, Option.bind_eq_bind, Option.pure_def, Option.bind_eq_some_iff] at plantedAs
      obtain ⟨⟨inner, innerId⟩, done, rest⟩ := plantedAs
      obtain ⟨rfl, rfl⟩ := Prod.mk.inj (Option.some.inj rest)
      have before := plant_inSteps draft labels done
      refine ⟨before.reaches, before.stored, List.forall_mem_cons.mpr ⟨?_, before.labels⟩⟩
      exact before.stored innerId List.mem_cons_self
  | reference name =>
      simp only [plant, Option.bind_eq_bind, Option.pure_def, Option.bind_eq_some_iff] at plantedAs
      obtain ⟨found, lookup, rest⟩ := plantedAs
      obtain ⟨rfl, rfl⟩ := Prod.mk.inj (Option.some.inj rest)
      refine ⟨.refl, fun other member => ?_, labels⟩
      obtain ⟨before, after, split, _⟩ := List.lookup_eq_some_iff.mp lookup
      have listed : (name, found) ∈ start.labels := split ▸ List.mem_append_right _ List.mem_cons_self
      exact List.mem_singleton.mp member ▸ labels _ listed

theorem plantAll_inSteps (drafts : List Draft) {start planted : Planting} {ids : List NodeId}
    (labels : start.LabelsStored) (plantedAs : start.plantAll drafts = some (planted, ids)) :
    PlantedInSteps start planted ids := by
  cases drafts with
  | nil =>
      obtain ⟨rfl, rfl⟩ := Prod.mk.inj (Option.some.inj plantedAs)
      exact plantedInSteps_nil labels
  | cons draft drafts =>
      simp only [plantAll, Option.bind_eq_bind, Option.pure_def, Option.bind_eq_some_iff] at plantedAs
      obtain ⟨⟨middle, id⟩, first, ⟨last, others⟩, second, rest⟩ := plantedAs
      obtain ⟨rfl, rfl⟩ := Prod.mk.inj (Option.some.inj rest)
      have firstPlanted := plant_inSteps draft labels first
      exact firstPlanted.trans (plantAll_inSteps drafts firstPlanted.labels second)

end

end Planting

namespace Forest

variable {forest : Forest}

/-- What holds anything is stored. -/
theorem lt_size_of_held {id held : NodeId} (member : held ∈ (forest.node id).held) :
    id.index < forest.nodes.size := by
  by_contra outside
  rw [forest.node_of_size_le (Nat.not_lt.mp outside)] at member
  cases member

/-- Adding a node keeps what stored nodes hold. -/
theorem held_add_old (node : Node) {id : NodeId} (old : id.index < forest.nodes.size) :
    ((forest.add node).1.node id).held = (forest.node id).held := by
  obtain ⟨parent, shown⟩ := forest.node_add_old node old
  rw [shown]
  rfl

/-- After a node was added, a stored node remembers the parent it had, or else the new node that holds
it. -/
theorem parent_add_old {node : Node} {id parent : NodeId} (old : id.index < forest.nodes.size)
    (found : ((forest.add node).1.node id).parent = some parent) :
    (forest.node id).parent = some parent ∨ parent = ⟨forest.nodes.size⟩ ∧ id ∈ node.held := by
  rw [forest.node_add_of_lt node old] at found
  split at found
  · rename_i held
    rcases Option.or_eq_some_iff.mp found with kept | ⟨_, given⟩
    · exact Or.inl kept
    · exact Or.inr ⟨(Option.some.inj given).symm, held⟩
  · exact Or.inl found

/-!
## Layers

The place of a node in the store is a measure for all links: what a node holds is stored before it.
-/

/-- Links downwards lead to places further down in the store, and the parent that a node remembers lists
the node. -/
structure IsLayered (forest : Forest) : Prop where
  older : ∀ id, ∀ held ∈ (forest.node id).held, held.index < id.index
  listed : ∀ id parent, (forest.node id).parent = some parent → id ∈ (forest.node parent).held

namespace IsLayered

theorem congr {later : Forest} (layered : forest.IsLayered) (same : forest.SameLinks later) :
    later.IsLayered where
  older id held member := layered.older id held (same.held id ▸ member)
  listed id parent found := by
    rw [same.held]
    exact layered.listed id parent (same.parent id ▸ found)

/-- A new node that holds stored nodes comes above them, and below none. -/
theorem add (layered : forest.IsLayered) {node : Node}
    (stored : ∀ held ∈ node.held, held.index < forest.nodes.size) (free : node.parent = none) :
    (forest.add node).1.IsLayered := by
  have new : (forest.add node).1.node ⟨forest.nodes.size⟩ = node := forest.node_add_new node stored
  -- A place is that of a node stored before, that of the new node, or beyond both.
  have cases_id (id : NodeId) : id.index < forest.nodes.size ∨ id = ⟨forest.nodes.size⟩ ∨
      (forest.add node).1.node id = { kind := .text } := by
    rcases Nat.lt_trichotomy id.index forest.nodes.size with old | same | beyond
    · exact Or.inl old
    · exact Or.inr (Or.inl (congrArg NodeId.mk same))
    · exact Or.inr (Or.inr (node_of_size_le _ (forest.size_add node ▸ beyond)))
  constructor
  · intro id held member
    rcases cases_id id with old | rfl | outside
    · rw [held_add_old node old] at member
      exact layered.older id held member
    · rw [new] at member
      exact stored held member
    · rw [outside] at member
      cases member
  · intro id parent found
    rcases cases_id id with old | rfl | outside
    · rcases parent_add_old old found with kept | ⟨rfl, member⟩
      · have member := layered.listed id parent kept
        rw [held_add_old node (lt_size_of_held member)]
        exact member
      · rw [new]
        exact member
    · rw [new, free] at found
      cases found
    · rw [outside] at found
      cases found

/-- A step keeps a forest in layers. -/
theorem next {later : Forest} (layered : forest.IsLayered) (step : forest.Next later) :
    later.IsLayered := by
  rcases step.adds with same | ⟨node, stored, free, same⟩
  · exact layered.congr same
  · exact (layered.add stored free).congr same

end IsLayered

/-- Every forest that steps lead to is in layers. -/
theorem Reaches.isLayered (reached : Reaches {} forest) : forest.IsLayered := by
  induction reached with
  | refl =>
      constructor
      · intro id held member
        cases member
      · intro id parent found
        cases found
  | tail _ step layered => exact layered.next step

/-- When a second node was built, a first one was stored already. -/
def BuiltBefore (forest : Forest) (first second : NodeId) : Prop :=
  ∃ earlier, Reaches {} earlier ∧ Reaches earlier forest ∧
    first.index < earlier.nodes.size ∧ earlier.nodes.size ≤ second.index

/-- Since nodes are stored one by one, there was a forest of each size up to the present one. -/
theorem Reaches.exists_of_size (reached : Reaches {} forest) {size : Nat}
    (bound : size ≤ forest.nodes.size) :
    ∃ earlier, Reaches {} earlier ∧ Reaches earlier forest ∧ earlier.nodes.size = size := by
  induction reached with
  | refl => exact ⟨{}, .refl, .refl, (Nat.le_zero.mp bound).symm⟩
  | @tail before later way step ih =>
      by_cases fits : size ≤ before.nodes.size
      · obtain ⟨earlier, start, rest, found⟩ := ih fits
        exact ⟨earlier, start, rest.tail step, found⟩
      · have grown := step.size_le
        exact ⟨later, way.tail step, .refl, by omega⟩

/-- Whatever holds a node was built after it. -/
theorem Reaches.builtBefore (reached : Reaches {} forest) {id held : NodeId}
    (member : held ∈ (forest.node id).held) : forest.BuiltBefore held id := by
  obtain ⟨earlier, start, rest, size⟩ :=
    reached.exists_of_size (Nat.le_of_lt (lt_size_of_held member))
  have older := reached.isLayered.older id held member
  exact ⟨earlier, start, rest, by omega, by omega⟩

/-- Whether a node lists another among its attributes or children. -/
def Holds (forest : Forest) (id held : NodeId) : Prop := held ∈ (forest.node id).held

/-- Whether a node remembers another as its parent, be that one alive or not. -/
def Remembers (forest : Forest) (id parent : NodeId) : Prop := (forest.node id).parent = some parent

namespace IsLayered

variable (layered : forest.IsLayered)
include layered

theorem lt_of_remembers {id parent : NodeId} (found : forest.Remembers id parent) :
    id.index < parent.index :=
  layered.older parent id (layered.listed id parent found)

/-- Ways down lead further down in the store at every step, so none of them is closed. -/
theorem not_transGen_holds (id : NodeId) : ¬ Relation.TransGen forest.Holds id id := by
  have lower {first second : NodeId} (way : Relation.TransGen forest.Holds first second) :
      second.index < first.index := by
    induction way with
    | single held => exact layered.older first _ held
    | tail _ held before => exact Nat.lt_trans (layered.older _ _ held) before
  exact fun way => Nat.lt_irrefl _ (lower way)

theorem not_transGen_remembers (id : NodeId) : ¬ Relation.TransGen forest.Remembers id id := by
  have higher {first second : NodeId} (way : Relation.TransGen forest.Remembers first second) :
      first.index < second.index := by
    induction way with
    | single found => exact layered.lt_of_remembers found
    | tail _ found before => exact Nat.lt_trans before (layered.lt_of_remembers found)
  exact fun way => Nat.lt_irrefl _ (higher way)

/-! In a forest in layers the accessors show the links as they are stored. -/

theorem children_eq (id : NodeId) : forest.children id = (forest.node id).children := by
  apply List.filter_eq_self.mpr
  exact fun held member => decide_eq_true (layered.older id held (List.mem_append_right _ member))

theorem attributes_eq (id : NodeId) : forest.attributes id = (forest.node id).attributes := by
  apply List.filter_eq_self.mpr
  exact fun held member => decide_eq_true (layered.older id held (List.mem_append_left _ member))

theorem parent?_eq (id : NodeId) :
    forest.parent? id = (forest.node id).parent.filter forest.isAlive := by
  rw [parent?]
  cases found : (forest.node id).parent with
  | none => rfl
  | some parent =>
      have higher := layered.lt_of_remembers found
      simp only [Option.filter_some, higher, decide_true, Bool.true_and]

end IsLayered

end Forest

end NodeQuery
