import Mathlib.Data.Set.Card
import NodeQuery.Proofs.Forest.Partition

/-!
# The numbers of a document

Opening a document on new nodes numbers them from zero on without leaving a number out.  Each node comes
before its attributes and these before its children, both as they are listed, and a node and all that
hangs below it take up one run of numbers that starts at the node.
-/

namespace NodeQuery

namespace Forest

variable {forest : Forest}

/-- Whether attributes and children, any number of generations on, lead from one node to another. -/
def Hangs (forest : Forest) : NodeId → NodeId → Prop :=
  Relation.ReflTransGen fun above below => below ∈ forest.attributes above ++ forest.children above

/-- The number of nodes that hang below a node, itself included. -/
noncomputable def extent (forest : Forest) (id : NodeId) : Nat :=
  Set.ncard { below | forest.Hangs id below }

/-- The numbers of what hangs below a node: there are as many as nodes, each number belongs to one node,
every node comes before what it holds in the order in which it is held, and below every node there is
one run of numbers. -/
structure IsNumbered (forest : Forest) (root : NodeId) : Prop where
  within : ∀ id, forest.Hangs root id → ∃ number < forest.extent root, forest.order? id = some number
  used : ∀ number < forest.extent root, ∃! id, forest.Hangs root id ∧ forest.order? id = some number
  ordered : ∀ id, forest.Hangs root id →
    (id :: (forest.attributes id ++ forest.children id)).Pairwise forest.Precedes
  run : ∀ id, forest.Hangs root id → ∃ start, forest.order? id = some start ∧
    ∀ number, (∃ below, forest.Hangs id below ∧ forest.order? below = some number) ↔
      start ≤ number ∧ number < start + forest.extent id

/-- A subtree lists nothing but what hangs below its top. -/
theorem hangs_of_mem {top id : NodeId} (below : id ∈ forest.subtreeWithAttributes top) :
    forest.Hangs top id := by
  induction top using forest.childInduction with
  | step top ih =>
      rcases mem_subtreeWithAttributes.mp below with same | attached | ⟨child, member, under⟩
      · rw [same]
        exact .refl
      · exact .single (List.mem_append_left _ attached)
      · exact (Relation.ReflTransGen.single (List.mem_append_right _ member)).trans
          (ih child member under)

theorem mem_of_hangs {top id : NodeId}
    (owned : ∀ other ∈ forest.subtreeWithAttributes top, forest.Owns other)
    (hangs : forest.Hangs top id) : id ∈ forest.subtreeWithAttributes top := by
  induction hangs with
  | refl => exact mem_subtreeWithAttributes_self top
  | tail _ held below => exact held_mem_of_owns owned below held

namespace IsTree

variable {document : DocumentId} {root : NodeId} (tree : forest.IsTree document root)
include tree

theorem mem_iff_hangs {id : NodeId} :
    id ∈ forest.subtreeWithAttributes root ↔ forest.Hangs root id :=
  ⟨hangs_of_mem, mem_of_hangs tree.owned⟩

section
variable {id : NodeId} (inside : id ∈ forest.subtreeWithAttributes root)
include inside

/-- The subtree of every node is listed in one piece. -/
theorem isInfix_subtreeWithAttributes_root :
    forest.subtreeWithAttributes id <:+: forest.subtreeWithAttributes root := by
  by_cases kind : forest.kind id = .attribute
  · rcases List.append_eq_nil_iff.mp ((tree.owned id inside).attribute_bare kind) with ⟨first, second⟩
    rcases List.append_of_mem inside with ⟨before, after, split⟩
    rw [forest.subtreeWithAttributes_eq id, first, second, split]
    exact ⟨before, after, by simp⟩
  · exact isInfix_subtreeWithAttributes (tree.mem_subtree_of_plain inside kind)

theorem mem_iff_hangs_of_mem {below : NodeId} :
    below ∈ forest.subtreeWithAttributes id ↔ forest.Hangs id below :=
  ⟨hangs_of_mem, mem_of_hangs fun other under =>
    tree.owned other ((tree.isInfix_subtreeWithAttributes_root inside).subset under)⟩

theorem extent_eq : forest.extent id = (forest.subtreeWithAttributes id).length := by
  have once := tree.nodup.sublist (tree.isInfix_subtreeWithAttributes_root inside).sublist
  have same : { below | forest.Hangs id below } = ↑(forest.subtreeWithAttributes id).toFinset := by
    ext below
    rw [Set.mem_ofPred_eq, ← tree.mem_iff_hangs_of_mem inside, Finset.mem_coe, List.mem_toFinset]
  rw [extent, same, Set.ncard_coe_finset, List.toFinset_card_of_nodup once]

/-- The subtree of every node is numbered without a gap. -/
theorem exists_numbers : ∃ start, (forest.subtreeWithAttributes id).map forest.order? =
    (List.range' start (forest.subtreeWithAttributes id).length).map some := by
  rcases tree.isInfix_subtreeWithAttributes_root inside with ⟨before, after, parts⟩
  have numbered := tree.numbered
  rw [← parts, List.append_assoc, List.length_append, List.length_append, List.range_eq_range',
    ← List.range'_append_1, ← List.range'_append_1, List.map_append, List.map_append,
    List.map_append, List.map_append] at numbered
  have rest := (List.append_inj numbered (by simp)).2
  exact ⟨_, (List.append_inj rest (by simp)).1⟩

/-- A node and what hangs below it take up one run of numbers. -/
theorem run_of_order? {start : Nat} (found : forest.order? id = some start) (number : Nat) :
    (∃ below, forest.Hangs id below ∧ forest.order? below = some number) ↔
      start ≤ number ∧ number < start + forest.extent id := by
  rcases tree.exists_numbers inside with ⟨first, numbers⟩
  have same : first = start := by
    have heads := numbers
    rw [subtreeWithAttributes_eq, List.map_cons, List.length_cons, List.range'_succ,
      List.map_cons, found] at heads
    exact (Option.some.inj (List.cons.inj heads).1).symm
  have listed : some number ∈ (forest.subtreeWithAttributes id).map forest.order? ↔
      start ≤ number ∧ number < start + forest.extent id := by
    rw [numbers, tree.extent_eq inside, List.mem_map_of_injective (Option.some_injective _),
      List.mem_range'_1, same]
  rw [← listed, List.mem_map]
  simp only [tree.mem_iff_hangs_of_mem inside]

/-- A node comes before its attributes and these before its children, as they are listed. -/
theorem ordered_held :
    (id :: (forest.attributes id ++ forest.children id)).Pairwise forest.Precedes := by
  have ordered := tree.ordered_subtreeWithAttributes inside
  rw [subtreeWithAttributes_eq, List.pairwise_cons, List.pairwise_append] at ordered
  refine List.pairwise_cons.mpr ⟨fun held member => tree.precedes_of_held inside member,
    List.pairwise_append.mpr ⟨ordered.2.1, tree.ordered_children inside, ?_⟩⟩
  intro held attached child member
  exact ordered.2.2.2 held attached child
    (List.mem_flatMap.mpr ⟨child, member, mem_subtreeWithAttributes_self child⟩)

end

/-- No two nodes have the same number. -/
theorem eq_of_order? {first second : NodeId} (firstInside : first ∈ forest.subtreeWithAttributes root)
    (secondInside : second ∈ forest.subtreeWithAttributes root)
    (same : forest.order? first = forest.order? second) : first = second := by
  by_contra apart
  rcases tree.precedes_or_precedes firstInside secondInside apart with before | before
  · rw [Precedes, same] at before
    exact Precedes.irrefl second before
  · rw [Precedes, same] at before
    exact Precedes.irrefl second before

/-- The document node has the first number. -/
theorem order?_root : forest.order? root = some 0 := by
  have numbers := tree.numbered
  rw [subtreeWithAttributes_eq, List.map_cons, List.length_cons, List.range_succ_eq_map,
    List.map_cons] at numbers
  exact (List.cons.inj numbers).1

theorem isNumbered : forest.IsNumbered root := by
  have rootInside := forest.mem_subtreeWithAttributes_self root
  have run := tree.run_of_order? rootInside tree.order?_root
  have inside (id : NodeId) (hangs : forest.Hangs root id) := tree.mem_iff_hangs.mpr hangs
  have numbered (id : NodeId) (hangs : forest.Hangs root id) :
      ∃ number, forest.order? id = some number := by
    have listed : forest.order? id ∈ (forest.subtreeWithAttributes root).map forest.order? :=
      List.mem_map_of_mem (inside id hangs)
    rw [tree.numbered] at listed
    rcases List.mem_map.mp listed with ⟨number, _, found⟩
    exact ⟨number, found.symm⟩
  constructor
  · intro id hangs
    rcases numbered id hangs with ⟨number, found⟩
    have bounds := (run number).mp ⟨id, hangs, found⟩
    exact ⟨number, by omega, found⟩
  · intro number below
    rcases (run number).mpr ⟨Nat.zero_le _, by omega⟩ with ⟨id, hangs, found⟩
    refine ⟨id, ⟨hangs, found⟩, ?_⟩
    rintro other ⟨otherHangs, otherFound⟩
    exact tree.eq_of_order? (inside other otherHangs) (inside id hangs) (otherFound.trans found.symm)
  · exact fun id hangs => tree.ordered_held (inside id hangs)
  · intro id hangs
    rcases numbered id hangs with ⟨start, found⟩
    exact ⟨start, found, tree.run_of_order? (inside id hangs) found⟩

end IsTree

namespace IsUnsealed

variable {top : NodeId} (unsealed : forest.IsUnsealed top)
include unsealed

/-- The tree that is opened holds what it held before. -/
theorem held_openDocument {id : NodeId} (below : id ∈ forest.subtreeWithAttributes top) :
    (forest.openDocument top).1.attributes id = forest.attributes id ∧
      (forest.openDocument top).1.children id = forest.children id := by
  have agree := agrees_openDocument forest top id
  have old := unsealed.lt_size below
  rw [agree.attributes_eq, agree.children_eq, underDocumentNode_eq]
  split
  · exact ⟨rfl, rfl⟩
  · exact ⟨attributes_capped old, children_capped old⟩

/-- A document node is the root of its document, and any other node is the only one that the root
holds. -/
theorem held_root_openDocument {root : NodeId}
    (found : (forest.openDocument top).1.documentRoot? (forest.openDocument top).2 = some root) :
    if forest.kind top = .document then root = top
    else (forest.openDocument top).1.attributes root = [] ∧
      (forest.openDocument top).1.children root = [top] := by
  rw [documentRoot_openDocument, Option.some.injEq] at found
  have agree := agrees_openDocument forest top root
  rw [agree.attributes_eq, agree.children_eq, ← found, underDocumentNode_eq]
  by_cases kind : forest.kind top = .document
  · rw [if_pos kind, if_pos (beq_iff_eq.mpr kind)]
  · rw [if_neg kind, if_neg (mt beq_iff_eq.mp kind)]
    exact ⟨attributes_cap unsealed.stored, children_cap unsealed.stored⟩

end IsUnsealed

/-- Opening a document on a tree of new nodes, each of them attached once.  The root of the document is a
document node: the top of the tree, or else a new node that holds the top and nothing else.  All that
hangs below the root is numbered, belongs to the document and has the root as the end of its way up;
and in the tree every node holds what it held before. -/
theorem openDocument_numbers {top : NodeId} (unsealed : forest.IsUnsealed top) {opened : Forest}
    {document : DocumentId} (openedAs : forest.openDocument top = (opened, document)) :
    ∃ root, opened.documentRoot? document = some root ∧ opened.kind root = .document ∧
      opened.IsNumbered root ∧
      (∀ id, opened.Hangs root id →
        opened.document? id = some document ∧ opened.root id = root) ∧
      (if forest.kind top = .document then root = top
        else opened.attributes root = [] ∧ opened.children root = [top]) ∧
      ∀ id, forest.Hangs top id →
        opened.attributes id = forest.attributes id ∧ opened.children id = forest.children id := by
  have isTree := unsealed.openDocument_isTree
  have held (id : NodeId) (below : id ∈ forest.subtreeWithAttributes top) :=
    unsealed.held_openDocument below
  have heldRoot (root : NodeId)
      (found : (forest.openDocument top).1.documentRoot? (forest.openDocument top).2 = some root) :=
    unsealed.held_root_openDocument found
  rw [openedAs] at isTree held heldRoot
  rcases isTree with ⟨root, tree, _, kind⟩
  refine ⟨root, tree.documentRoot, kind, tree.isNumbered, ?_, heldRoot root tree.documentRoot, ?_⟩
  · intro id hangs
    have inside := tree.mem_iff_hangs.mpr hangs
    exact ⟨tree.document id inside, tree.attached.root_eq_of_mem inside⟩
  · exact fun id hangs => held id (mem_of_hangs unsealed.owned hangs)

/-- The nested lists, planted and not opened as a document. -/
def plantedNested : Forest := ((({} : Planting).plant nestedDraft).getD ({}, ⟨0⟩)).1.forest

theorem openDocument_numbers_nested :
    plantedNested.IsUnsealed ⟨9⟩ ∧ (plantedNested.openDocument ⟨9⟩).1.IsNumbered ⟨10⟩ := by
  have fresh : nestedDraft.isFresh = true := rfl
  have planted : ({} : Planting).plant nestedDraft =
      some ((({} : Planting).plant nestedDraft).getD ({}, ⟨0⟩)) := rfl
  have unsealed : plantedNested.IsUnsealed ⟨9⟩ := isUnsealed_of_plant fresh planted
  have shown : (plantedNested.openDocument ⟨9⟩).1.documentRoot? (plantedNested.openDocument ⟨9⟩).2 =
      some ⟨10⟩ := by decide +kernel
  have opens := openDocument_numbers unsealed Prod.mk.eta.symm
  rcases opens with ⟨root, found, _, numbered, _⟩
  rw [shown, Option.some.injEq] at found
  rw [← found] at numbered
  exact ⟨unsealed, numbered⟩

end Forest

end NodeQuery
