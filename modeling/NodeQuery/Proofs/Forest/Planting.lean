import NodeQuery.Forest.Document
import NodeQuery.Proofs.Forest.Growth

/-!
# Planting new nodes

While a draft without references is planted, the nodes stored from some place on form trees of their
own: what they hold is among them, stored earlier, held once and by nothing else.  The trees that are
finished but not yet attached are known by their topmost nodes.  Adding a node takes those it holds
off that list and puts itself there, which is all that planting ever does.
-/

namespace NodeQuery

/-- What a node holds: its attributes and its children. -/
def Node.held (node : Node) : List NodeId := node.attributes ++ node.children

/-- A node holds nodes stored between `base` and itself, each once and as its own.  It is not in a
document yet. -/
structure Forest.Settled (forest : Forest) (base : Nat) (id : NodeId) : Prop where
  between : ∀ held ∈ (forest.node id).held, base ≤ held.index ∧ held.index < id.index
  own : ∀ held ∈ (forest.node id).held, (forest.node held).parent = some id
  once : (forest.node id).held.Nodup
  attributes_kind : ∀ held ∈ (forest.node id).attributes, (forest.node held).kind = .attribute
  attribute_bare : (forest.node id).kind = .attribute → (forest.node id).held = []
  alive : (forest.node id).alive = true
  unnumbered : (forest.node id).document = none ∧ (forest.node id).order = none

/-- The nodes stored from `base` on are finished trees, whose topmost nodes are `tops`. -/
structure Forest.Grown (forest : Forest) (base : Nat) (tops : List NodeId) : Prop where
  settled : ∀ id : NodeId, base ≤ id.index → forest.Settled base id
  tops_stored : ∀ top ∈ tops, base ≤ top.index ∧ top.index < forest.nodes.size
  tops_free : ∀ top ∈ tops, (forest.node top).parent = none
  tops_nodup : tops.Nodup

namespace Forest

variable {forest : Forest} {base : Nat} {tops : List NodeId}

/-- A place outside the forest holds nothing. -/
theorem settled_of_size_le {id : NodeId} (outside : forest.nodes.size ≤ id.index) :
    forest.Settled base id := by
  have shown := forest.node_of_size_le outside
  constructor <;> simp [shown, Node.held]

/-- Nothing has grown yet. -/
theorem grown_nil (forest : Forest) : forest.Grown forest.nodes.size [] where
  settled _ outside := settled_of_size_le outside
  tops_stored := by simp
  tops_free := by simp
  tops_nodup := List.nodup_nil

/-- Of what is stored for an old node, adding a node changes at most the parent. -/
theorem node_add_old (node : Node) {id : NodeId} (old : id.index < forest.nodes.size) :
    ∃ parent, (forest.add node).1.node id = { forest.node id with parent := parent } := by
  rw [node_add_of_lt forest node old]
  split
  · exact ⟨_, rfl⟩
  · exact ⟨_, rfl⟩

/-- What a new node does not hold stays as it is. -/
theorem node_add_unheld {node : Node} {id : NodeId} (old : id.index < forest.nodes.size)
    (unheld : id ∉ node.held) : (forest.add node).1.node id = forest.node id := by
  rw [node_add_of_lt forest node old]
  exact if_neg unheld

/-- What a new node holds, and nothing held before, is its own from now on. -/
theorem parent_add_held {node : Node} {id : NodeId} (old : id.index < forest.nodes.size)
    (held : id ∈ node.held) (free : (forest.node id).parent = none) :
    ((forest.add node).1.node id).parent = some ⟨forest.nodes.size⟩ := by
  rw [node_add_of_lt forest node old]
  change (if id ∈ node.held then _ else _ : Node).parent = _
  rw [if_pos held]
  simp only [Node.attachedTo, free, Option.none_or]

/-- A settled node stays settled when a node is added that holds none of what it holds. -/
theorem Settled.add {node : Node} {id : NodeId} (settled : forest.Settled base id)
    (old : id.index < forest.nodes.size) (apart : ∀ held ∈ (forest.node id).held, held ∉ node.held) :
    (forest.add node).1.Settled base id := by
  obtain ⟨parent, shown⟩ := forest.node_add_old node old
  have unchanged (held : NodeId) (member : held ∈ (forest.node id).held) :
      (forest.add node).1.node held = forest.node held :=
    node_add_unheld (by have := settled.between held member; omega) (apart held member)
  constructor
  · rw [shown]
    exact settled.between
  · rw [shown]
    intro held member
    rw [unchanged held member]
    exact settled.own held member
  · rw [shown]
    exact settled.once
  · rw [shown]
    intro held member
    rw [unchanged held (List.mem_append_left _ member)]
    exact settled.attributes_kind held member
  · rw [shown]
    exact settled.attribute_bare
  · rw [shown]
    exact settled.alive
  · rw [shown]
    exact settled.unnumbered

/-- Finished trees stay finished under a new node that holds the latest of them. -/
theorem Grown.add {node : Node} (grown : forest.Grown base (tops ++ node.held))
    (above : base ≤ forest.nodes.size)
    (attributes : ∀ held ∈ node.attributes, (forest.node held).kind = .attribute)
    (bare : node.kind = .attribute → node.held = []) (alive : node.alive = true)
    (unnumbered : node.document = none ∧ node.order = none) (free : node.parent = none) :
    (forest.add node).1.Grown base (tops ++ [⟨forest.nodes.size⟩]) := by
  have stored (held : NodeId) (member : held ∈ node.held) :=
    grown.tops_stored held (List.mem_append_right tops member)
  have unheld (held : NodeId) (member : held ∈ node.held) :=
    grown.tops_free held (List.mem_append_right tops member)
  have shown : (forest.add node).1.node ⟨forest.nodes.size⟩ = node :=
    forest.node_add_new node fun held member => (stored held member).2
  obtain ⟨tops_nodup, held_nodup, disjoint⟩ := List.nodup_append.mp grown.tops_nodup
  constructor
  · intro id new
    rcases Nat.lt_trichotomy id.index forest.nodes.size with old | same | outside
    · apply (grown.settled id new).add old
      intro held member again
      -- Two nodes cannot hold the same one: it would have a parent and be free.
      have owned := (grown.settled id new).own held member
      rw [unheld held again] at owned
      cases owned
    · have equal : id = ⟨forest.nodes.size⟩ := by cases id; simpa using same
      subst equal
      constructor
      · rw [shown]
        exact stored
      · rw [shown]
        intro held member
        exact parent_add_held (stored held member).2 member (unheld held member)
      · rw [shown]
        exact held_nodup
      · rw [shown]
        intro held member
        have inside := (stored held (List.mem_append_left _ member)).2
        obtain ⟨parent, after⟩ := forest.node_add_old node inside
        rw [after]
        exact attributes held member
      · rw [shown]
        exact bare
      · rw [shown]
        exact alive
      · rw [shown]
        exact unnumbered
    · exact settled_of_size_le (by rw [size_add]; omega)
  · intro top member
    rw [size_add]
    rcases List.mem_append.mp member with old | new
    · have inside := grown.tops_stored top (List.mem_append_left _ old)
      omega
    · rw [List.mem_singleton.mp new]
      exact ⟨above, Nat.lt_succ_self _⟩
  · intro top member
    rcases List.mem_append.mp member with old | new
    · have inside := (grown.tops_stored top (List.mem_append_left _ old)).2
      rw [node_add_unheld inside (fun held => disjoint top old top held rfl)]
      exact grown.tops_free top (List.mem_append_left _ old)
    · rw [List.mem_singleton.mp new, shown, free]
  · apply List.nodup_append.mpr
    refine ⟨tops_nodup, List.pairwise_singleton _ _, ?_⟩
    intro top member other new equal
    rw [List.mem_singleton.mp new] at equal
    have inside := (grown.tops_stored top (List.mem_append_left _ member)).2
    rw [equal] at inside
    exact Nat.lt_irrefl _ inside

end Forest

namespace Planting

open Forest

/-- What one planting leaves of another: no node is lost, and of a node stored before at most the
parent changes. -/
structure Keeps (before after : Planting) : Prop where
  size : before.forest.nodes.size ≤ after.forest.nodes.size
  kind : ∀ id : NodeId, id.index < before.forest.nodes.size →
    (after.forest.node id).kind = (before.forest.node id).kind

theorem Keeps.refl (planting : Planting) : Keeps planting planting :=
  ⟨Nat.le_refl _, fun _ _ => rfl⟩

theorem Keeps.trans {first second third : Planting} (before : Keeps first second)
    (after : Keeps second third) : Keeps first third := by
  refine ⟨Nat.le_trans before.size after.size, ?_⟩
  intro id old
  rw [after.kind id (Nat.lt_of_lt_of_le old before.size), before.kind id old]

theorem keeps_add (planting : Planting) (node : Node) : Keeps planting (planting.add node).1 := by
  constructor
  · change planting.forest.nodes.size ≤ (planting.forest.add node).1.nodes.size
    rw [size_add]
    omega
  · intro id old
    obtain ⟨parent, shown⟩ := planting.forest.node_add_old node old
    change ((planting.forest.add node).1.node id).kind = _
    rw [shown]

/-- What planting a fresh draft on top of finished trees comes to: one more finished tree. -/
structure Grows (start : Planting) (base : Nat) (tops : List NodeId) (draft : Draft)
    (planted : Planting) (id : NodeId) : Prop where
  done : start.plant draft = some (planted, id)
  grown : planted.forest.Grown base (tops ++ [id])
  keeps : Keeps start planted
  kind : draft.isAttribute = true → (planted.forest.node id).kind = .attribute

/-- The same for several drafts: one more finished tree for each. -/
structure GrowsAll (start : Planting) (base : Nat) (tops : List NodeId) (drafts : List Draft)
    (planted : Planting) (ids : List NodeId) : Prop where
  done : start.plantAll drafts = some (planted, ids)
  grown : planted.forest.Grown base (tops ++ ids)
  keeps : Keeps start planted
  kinds : drafts.all Draft.isAttribute = true →
    ∀ id ∈ ids, (planted.forest.node id).kind = .attribute

/-- Adding the node that holds the latest trees finishes one tree. -/
theorem add_grown {start : Planting} {base : Nat} {tops : List NodeId} {node : Node}
    (grown : start.forest.Grown base (tops ++ node.held)) (above : base ≤ start.forest.nodes.size)
    (attributes : ∀ held ∈ node.attributes, (start.forest.node held).kind = .attribute)
    (bare : node.kind = .attribute → node.held = []) (alive : node.alive = true)
    (unnumbered : node.document = none ∧ node.order = none) (free : node.parent = none) :
    (start.add node).1.forest.Grown base (tops ++ [(start.add node).2]) :=
  Grown.add grown above attributes bare alive unnumbered free

/-- A node without attributes and children is a finished tree. -/
theorem add_leaf_grown {start : Planting} {base : Nat} {tops : List NodeId}
    (grown : start.forest.Grown base tops) (above : base ≤ start.forest.nodes.size)
    (kind : NodeKind) (name value : Option String) :
    (start.add { kind := kind, name := name, value := value }).1.forest.Grown base
      (tops ++ [(start.add { kind := kind, name := name, value := value }).2]) := by
  apply add_grown
  · simpa only [Node.held, List.append_nil] using grown
  · exact above
  · intro held member
    cases member
  · intro _
    rfl
  · rfl
  · exact ⟨rfl, rfl⟩
  · rfl

theorem kind_add_leaf (start : Planting) (kind : NodeKind) (name value : Option String) :
    ((start.add { kind := kind, name := name, value := value }).1.forest.node
      (start.add { kind := kind, name := name, value := value }).2).kind = kind := by
  change ((start.forest.add _).1.node ⟨start.forest.nodes.size⟩).kind = kind
  rw [node_add_new]
  intro held member
  cases member

/-- The node over the latest attributes and children, itself no attribute, finishes one tree. -/
theorem GrowsAll.add_holder {start middle planted : Planting} {base : Nat} {tops : List NodeId}
    {attributes children : List Draft} {attributeIds childIds : List NodeId}
    (first : GrowsAll start base tops attributes middle attributeIds)
    (second : GrowsAll middle base (tops ++ attributeIds) children planted childIds)
    (areAttributes : attributes.all Draft.isAttribute = true)
    (above : base ≤ start.forest.nodes.size) (kind : NodeKind) (name : Option String)
    (noAttribute : kind ≠ .attribute) :
    (planted.add { kind, name, attributes := attributeIds, children := childIds }).1.forest.Grown
      base (tops ++
        [(planted.add { kind, name, attributes := attributeIds, children := childIds }).2]) := by
  apply add_grown
  · simpa only [Node.held, List.append_assoc] using second.grown
  · exact Nat.le_trans above (Nat.le_trans first.keeps.size second.keeps.size)
  · intro held member
    have stored := (first.grown.tops_stored held (List.mem_append_right _ member)).2
    rw [second.keeps.kind held stored]
    exact first.kinds areAttributes held member
  · exact fun shown => absurd shown noAttribute
  · rfl
  · exact ⟨rfl, rfl⟩
  · rfl

mutual

/-- A fresh draft can always be planted, and it grows into one finished tree. -/
theorem plant_grows (draft : Draft) (fresh : draft.isFresh = true) (start : Planting) (base : Nat)
    (tops : List NodeId) (grown : start.forest.Grown base tops)
    (above : base ≤ start.forest.nodes.size) :
    ∃ planted id, Grows start base tops draft planted id := by
  cases draft with
  | text value =>
      exact ⟨_, _, rfl, add_leaf_grown grown above .text none (some value), keeps_add _ _,
        by simp [Draft.isAttribute]⟩
  | comment value =>
      exact ⟨_, _, rfl, add_leaf_grown grown above .comment none (some value), keeps_add _ _,
        by simp [Draft.isAttribute]⟩
  | «attribute» name value =>
      exact ⟨_, _, rfl, add_leaf_grown grown above .attribute (some name) (some value),
        keeps_add _ _, fun _ => kind_add_leaf start .attribute (some name) (some value)⟩
  | element name attributes children =>
      simp only [Draft.isFresh, Bool.and_eq_true] at fresh
      obtain ⟨⟨freshAttributes, areAttributes⟩, freshChildren⟩ := fresh
      obtain ⟨middle, attributeIds, first⟩ :=
        plantAll_grows attributes freshAttributes start base tops grown above
      obtain ⟨planted, childIds, second⟩ :=
        plantAll_grows children freshChildren middle base _ first.grown
          (Nat.le_trans above first.keeps.size)
      refine ⟨_, _, ?_, first.add_holder second areAttributes above .element (some name) nofun,
        (first.keeps.trans second.keeps).trans (keeps_add planted _), by simp [Draft.isAttribute]⟩
      simp only [plant, first.done, second.done, Option.bind_eq_bind, Option.bind_some,
        Option.pure_def]
  | document attributes children =>
      simp only [Draft.isFresh, Bool.and_eq_true] at fresh
      obtain ⟨⟨freshAttributes, areAttributes⟩, freshChildren⟩ := fresh
      obtain ⟨middle, attributeIds, first⟩ :=
        plantAll_grows attributes freshAttributes start base tops grown above
      obtain ⟨planted, childIds, second⟩ :=
        plantAll_grows children freshChildren middle base _ first.grown
          (Nat.le_trans above first.keeps.size)
      refine ⟨_, _, ?_, first.add_holder second areAttributes above .document none nofun,
        (first.keeps.trans second.keeps).trans (keeps_add planted _), by simp [Draft.isAttribute]⟩
      simp only [plant, first.done, second.done, Option.bind_eq_bind, Option.bind_some,
        Option.pure_def]
  | labelled name draft =>
      obtain ⟨planted, id, inner⟩ := plant_grows draft fresh start base tops grown above
      refine ⟨planted.label name id, id, ?_, inner.grown, ⟨inner.keeps.size, inner.keeps.kind⟩,
        inner.kind⟩
      simp only [plant, inner.done, Option.bind_eq_bind, Option.bind_some, Option.pure_def]
  | reference name =>
      cases fresh

/-- Fresh drafts can always be planted, and they grow into one finished tree each. -/
theorem plantAll_grows (drafts : List Draft) (fresh : Draft.areFresh drafts = true)
    (start : Planting) (base : Nat) (tops : List NodeId) (grown : start.forest.Grown base tops)
    (above : base ≤ start.forest.nodes.size) :
    ∃ planted ids, GrowsAll start base tops drafts planted ids := by
  cases drafts with
  | nil =>
      refine ⟨start, [], rfl, ?_, Keeps.refl start, by simp⟩
      simpa only [List.append_nil] using grown
  | cons draft drafts =>
      simp only [Draft.areFresh, Bool.and_eq_true] at fresh
      obtain ⟨middle, id, first⟩ := plant_grows draft fresh.1 start base tops grown above
      obtain ⟨planted, ids, others⟩ :=
        plantAll_grows drafts fresh.2 middle base _ first.grown
          (Nat.le_trans above first.keeps.size)
      refine ⟨planted, id :: ids, ?_, ?_, first.keeps.trans others.keeps, ?_⟩
      · simp only [plantAll, first.done, others.done, Option.bind_eq_bind, Option.bind_some,
          Option.pure_def]
      · simpa only [List.append_assoc, List.singleton_append] using others.grown
      · intro areAttributes held member
        simp only [List.all_cons, Bool.and_eq_true] at areAttributes
        rcases List.mem_cons.mp member with same | later
        · subst same
          have stored := (first.grown.tops_stored held (by simp)).2
          rw [others.keeps.kind held stored]
          exact first.kind areAttributes.1
        · exact others.kinds areAttributes.2 held later

end

end Planting

end NodeQuery
