import NodeQuery.Forest.Growth

/-!
# What growing does to single nodes

Changing one node leaves all others as they are, and so does adding one: it only gives a parent to
those it holds.  Opening a document tells each node its document and its place once.  The theorems
here say what is stored for a node afterwards, in terms of what was stored for it before.
-/

namespace NodeQuery

/-- Being attached a second time changes nothing. -/
theorem Node.attachedTo_attachedTo (node : Node) (first second : NodeId) :
    (node.attachedTo first).attachedTo second = node.attachedTo first := by
  cases held : node.parent <;> simp [attachedTo, held]

namespace Forest

variable (forest : Forest)

/-- A place outside a forest shows nothing held. -/
theorem node_of_size_le {id : NodeId} (outside : forest.nodes.size ≤ id.index) :
    forest.node id = { kind := .text } := by
  rw [node, Array.getD_eq_getD_getElem?, Array.getElem?_eq_none outside, Option.getD_none]

theorem size_modify (id : NodeId) (change : Node → Node) :
    (forest.modify id change).nodes.size = forest.nodes.size := by
  rw [modify, Array.size_modify]

theorem node_modify (id other : NodeId) (change : Node → Node) :
    (forest.modify id change).node other =
      if other = id ∧ other.index < forest.nodes.size then change (forest.node other)
      else forest.node other := by
  simp only [node, modify, Array.getD_eq_getD_getElem?, Array.getElem?_modify]
  by_cases same : other = id
  · subst other
    by_cases inside : id.index < forest.nodes.size
    · rw [if_pos rfl, if_pos ⟨rfl, inside⟩, Array.getElem?_eq_getElem inside]
      rfl
    · rw [if_pos rfl, if_neg (fun both => inside both.2), Array.getElem?_eq_none (by omega)]
      rfl
  · have apart : ¬ id.index = other.index := by
      intro equal
      apply same
      cases id
      cases other
      simp_all
    rw [if_neg apart, if_neg (fun both => same both.1)]

/-- What is stored for a node once `parent` has adopted the nodes in `held`. -/
theorem node_foldl_adopt (parent : NodeId) (held : List NodeId) (other : NodeId) :
    (held.foldl (fun grown id => grown.adopt parent id) forest).node other =
      if other ∈ held ∧ other.index < forest.nodes.size then
        (forest.node other).attachedTo parent
      else forest.node other := by
  induction held generalizing forest with
  | nil => simp only [List.foldl_nil, List.not_mem_nil, false_and, if_false]
  | cons first others ih =>
      rw [List.foldl_cons, ih, adopt, size_modify, node_modify]
      by_cases inside : other.index < forest.nodes.size
      · by_cases same : other = first
        · by_cases again : other ∈ others
          · rw [if_pos ⟨again, inside⟩, if_pos ⟨same, inside⟩, Node.attachedTo_attachedTo,
              if_pos ⟨List.mem_cons_of_mem _ again, inside⟩]
          · rw [if_neg (fun both => again both.1), if_pos ⟨same, inside⟩,
              if_pos ⟨List.mem_cons.mpr (Or.inl same), inside⟩]
        · simp only [List.mem_cons, same, false_or, false_and, if_false]
      · simp only [inside, and_false, if_false]

theorem size_foldl_adopt (parent : NodeId) (held : List NodeId) :
    (held.foldl (fun grown id => grown.adopt parent id) forest).nodes.size =
      forest.nodes.size := by
  induction held generalizing forest with
  | nil => rfl
  | cons first others ih => rw [List.foldl_cons, ih, adopt, size_modify]

variable (node : Node)

theorem size_add : (forest.add node).1.nodes.size = forest.nodes.size + 1 := by
  simp only [add, size_foldl_adopt, Array.size_push]

/-- Adding a node gives a parent to what it holds and keeps all else. -/
theorem node_add_of_lt {other : NodeId} (old : other.index < forest.nodes.size) :
    (forest.add node).1.node other =
      if other ∈ node.attributes ++ node.children then
        (forest.node other).attachedTo ⟨forest.nodes.size⟩
      else forest.node other := by
  have stored : ({ forest with nodes := forest.nodes.push node } : Forest).node other =
      forest.node other := by
    simp only [Forest.node, Array.getD_eq_getD_getElem?, Array.getElem?_push_lt old,
      Array.getElem?_eq_getElem old]
  have inside : other.index < (forest.nodes.push node).size := by
    rw [Array.size_push]
    omega
  simp only [add, node_foldl_adopt, stored, inside, and_true]

/-- The added node is stored as it is given, unless it is said to hold itself. -/
theorem node_add_new (apart : ∀ held ∈ node.attributes ++ node.children,
    held.index < forest.nodes.size) :
    (forest.add node).1.node ⟨forest.nodes.size⟩ = node := by
  have stored : ({ forest with nodes := forest.nodes.push node } : Forest).node
      ⟨forest.nodes.size⟩ = node := by
    simp only [Forest.node, Array.getD_eq_getD_getElem?, Array.getElem?_push_size,
      Option.getD_some]
  have unheld : (⟨forest.nodes.size⟩ : NodeId) ∉ node.attributes ++ node.children := by
    intro member
    exact Nat.lt_irrefl _ (apart _ member)
  simp only [add, node_foldl_adopt, stored, unheld, false_and, if_false]

end Forest

end NodeQuery
